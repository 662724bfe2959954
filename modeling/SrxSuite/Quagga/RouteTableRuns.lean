import SrxSuite.Lib.Runs
import SrxSuite.Quagga.RouteTableWalk

/-!
# Runs of the users of a routing table

The users of a table have references, nodes that a call gave to them locked, and write the `info` of
these nodes. A table is right (`Correct`) when the locks are the references, every `info` is the one that
was written last for its prefix, and there are no other nodes than those of the references and those at
which two of them part. It is so, in every run from the empty table in which `lock` can count the
references of each node (`Few`), exactly as long as nobody gives up the last reference of a node that still
has an `info` (`table_correct_iff`).
-/

namespace SrxSuite.Quagga.Radix

open ParentTree PrefixTree PrefixLemmas Runs RouteTable

variable {size : Nat} {ι : Type}

/-- A node that is locked for a user, and the bits of its prefix when the user got it. -/
abbrev Ref := Nat × List Bool

/-- No node has as many references as `lock` can count. -/
def FewRefs (refs : List Ref) : Prop := ∀ r ∈ refs, refs.count r + 1 < UInt32.size

instance decidableFewRefs (refs : List Ref) : Decidable (FewRefs refs) :=
  inferInstanceAs (Decidable (∀ r ∈ refs, refs.count r + 1 < UInt32.size))

/-- A call of a user. -/
inductive TableCall (size : Nat) (ι : Type)
  | get (p : Prefix size) (valid : p.Valid)
  | lookup (p : Prefix size) (valid : p.Valid)
  | matching (p : Prefix size) (valid : p.Valid)
  | getNext (p : Prefix size) (valid : p.Valid)
  | top
  | lock (r : Ref)
  | next (limit : Option Nat) (r : Ref)
  | unlock (r : Ref)
  | setInfo (r : Ref) (info : Option ι)

/-- A table with its users. There is no table after a failed assertion or a pointer that is not one of a
node. -/
structure Users (size : Nat) (ι : Type) where
  table : Option (RouteTable size ι)
  refs : List Ref
  info : List Bool → Option ι

namespace Users

def initial : Users size ι := ⟨some .initial, [], fun _ => none⟩

/-- The answer to a call that gives a node. -/
def grant (users : Users size ι) (refs : List Ref) (answer : Option (RouteTable size ι × Option Nat)) :
    Users size ι :=
  match answer with
  | none => { users with table := none }
  | some (table, none) => { users with table := some table, refs := refs }
  | some (table, some node) =>
    match table.nodes node with
    | none => { users with table := none }
    | some n => { users with table := some table, refs := (node, n.val.p.bits) :: refs }

/-- A call to a table. A user has only the addresses of references. -/
def call (users : Users size ι) (table : RouteTable size ι) : TableCall size ι → Users size ι
  | .get p _ => users.grant users.refs ((table.routeNodeGet p).map fun e => (e.1, some e.2))
  | .lookup p _ => users.grant users.refs (table.routeNodeLookup p)
  | .matching p _ => users.grant users.refs (table.routeNodeMatch p)
  | .getNext p _ => users.grant users.refs (table.routeTableGetNext p)
  | .top => users.grant users.refs table.routeTop
  | .lock r =>
    if r ∈ users.refs then { users with table := table.routeLockNode r.1, refs := r :: users.refs }
    else users
  | .next limit r =>
    if r ∈ users.refs then users.grant (users.refs.erase r) (table.routeNextUntil limit r.1) else users
  | .unlock r =>
    if r ∈ users.refs then { users with table := table.routeUnlockNode r.1, refs := users.refs.erase r }
    else users
  | .setInfo r info =>
    if r ∈ users.refs then
      { users with table := table.setInfo r.1 info, info := Function.update users.info r.2 info }
    else users

def step (users : Users size ι) (c : TableCall size ι) : Users size ι :=
  match users.table with
  | none => users
  | some table => users.call table c

/-- No node has as many references as `lock` can count. -/
def Few (users : Users size ι) : Prop := FewRefs users.refs

instance decidableFew (users : Users size ι) : Decidable users.Few :=
  inferInstanceAs (Decidable (FewRefs users.refs))

/-- Nobody gives up the last reference of a node that is in use. -/
def Releases (users : Users size ι) : TableCall size ι → Prop
  | .unlock r => users.refs.count r = 1 → users.info r.2 = none
  | .next _ r => users.refs.count r = 1 → users.info r.2 = none
  | _ => True

instance decidableReleases [DecidableEq ι] (users : Users size ι) : (c : TableCall size ι) →
    Decidable (users.Releases c)
  | .unlock r => inferInstanceAs (Decidable (users.refs.count r = 1 → users.info r.2 = none))
  | .next _ r => inferInstanceAs (Decidable (users.refs.count r = 1 → users.info r.2 = none))
  | .get .. | .lookup .. | .matching .. | .getNext .. | .top | .lock _ | .setInfo .. => .isTrue trivial

end Users

/-- A prefix of the references. -/
def Referenced (refs : List Ref) (k : List Bool) : Prop := ∃ r ∈ refs, r.2 = k

/-- What users can rely on. -/
structure Correct (table : RouteTable size ι) (refs : List Ref) (info : List Bool → Option ι) : Prop where
  held : ∀ r ∈ refs, ∃ n, table.nodes r.1 = some n ∧ n.val.p.bits = r.2
  lock : ∀ a n, table.nodes a = some n → n.val.lock.toNat = refs.count (a, n.val.p.bits)
  written : ∀ a n, table.nodes a = some n → n.val.info = info n.val.p.bits
  used : ∀ k, info k ≠ none → Referenced refs k
  stub : ∀ a n, table.nodes a = some n → n.val.lock = 0 → n.left.isSome ∧ n.right.isSome
  keys : ∀ k, (∃ a n, table.nodes a = some n ∧ n.val.p.bits = k) ↔
    Referenced refs k ∨ Parts (Referenced refs) k
  distinct : ∀ a b n m, table.nodes a = some n → table.nodes b = some m → n.val.p.bits = m.val.p.bits →
    a = b
  count : ∃ addrs : List Nat, addrs.Nodup ∧ (∀ a, a ∈ addrs ↔ table.nodes a ≠ none) ∧
    table.count = addrs.length

/-! ## The locked nodes and the references -/

/-- The locked nodes are those of the references. -/
structure Serves (t : AddrTree (RouteNode size ι)) (refs : List Ref) (info : List Bool → Option ι) :
    Prop where
  lock : ∀ x ∈ t.items, x.2.lock ≠ 0 → x.2.lock.toNat = refs.count (x.1, x.2.p.bits)
  owner : ∀ r ∈ refs, ∃ x ∈ t.items, x.2.lock ≠ 0 ∧ (x.1, x.2.p.bits) = r
  written : ∀ x ∈ t.items, x.2.lock ≠ 0 → x.2.info = info x.2.p.bits
  used : ∀ k, info k ≠ none → ∃ x ∈ t.items, x.2.lock ≠ 0 ∧ x.2.p.bits = k

variable {table : RouteTable size ι} {t t' l r : AddrTree (RouteNode size ι)} {refs refs' : List Ref}
  {info info' : List Bool → Option ι} {ctx : List (Frame (RouteNode size ι))} {a : Nat}
  {v w : RouteNode size ι} {x : Nat × RouteNode size ι}

theorem Serves.same (hs : Serves t refs info) (hsame : SameHeld t t') : Serves t' refs info where
  lock := fun x hx hlock => hs.lock x ((hsame x hlock).mp hx) hlock
  owner := by
    intro r hr
    obtain ⟨x, hx, hlock, heq⟩ := hs.owner r hr
    exact ⟨x, (hsame x hlock).mpr hx, hlock, heq⟩
  written := fun x hx hlock => hs.written x ((hsame x hlock).mp hx) hlock
  used := by
    intro k hk
    obtain ⟨x, hx, hlock, heq⟩ := hs.used k hk
    exact ⟨x, (hsame x hlock).mpr hx, hlock, heq⟩

/-- The other nodes have no reference. -/
theorem Serves.lock_eq (hs : Serves t refs info) (hord : Ordered RouteNode.key [] t) (hx : x ∈ t.items) :
    x.2.lock.toNat = refs.count (x.1, x.2.p.bits) := by
  by_cases hlock : x.2.lock = 0
  · rw [hlock]
    refine (List.count_eq_zero.mpr fun hmem => ?_).symm
    obtain ⟨y, hy, hylock, heq⟩ := hs.owner _ hmem
    obtain rfl := key_inj hord hy hx (Prod.mk.inj heq).2
    exact hylock hlock
  · exact hs.lock x hx hlock

theorem Serves.info_eq (hs : Serves t refs info) (hord : Ordered RouteNode.key [] t) (hx : x ∈ t.items)
    (hstub : x.2.lock = 0 → x.2.info = none) : x.2.info = info x.2.p.bits := by
  by_cases hlock : x.2.lock = 0
  · rw [hstub hlock]
    by_contra hne
    obtain ⟨y, hy, hylock, heq⟩ := hs.used _ fun h => hne h.symm
    obtain rfl := key_inj hord hy hx heq
    exact hylock hlock
  · exact hs.written x hx hlock

/-- The node of a place is not one of the others. -/
theorem key_rest (ht : Built table (plug ctx (.node a v l r))) (hx : x ∈ rest ctx l r) :
    x.2.p.bits ≠ v.p.bits := by
  intro heq
  have hperm := items_place ctx a v l r
  have hself := key_inj ht.ordered (hperm.mem_iff.mpr (List.mem_cons_of_mem _ hx))
    (hperm.mem_iff.mpr List.mem_cons_self) heq
  have hnodup := (hperm.map Prod.fst).nodup_iff.mp ht.rep.nodup
  rw [List.map_cons] at hnodup
  refine (List.nodup_cons.mp hnodup).1 ?_
  rw [hself] at hx
  exact List.mem_map_of_mem hx

/-- Another value of one node, with its references and its `info`. -/
theorem Serves.setVal (hs : Serves (plug ctx (.node a v l r)) refs info)
    (ht : Built table (plug ctx (.node a v l r))) (hp : w.p = v.p)
    (hcount : refs'.count (a, v.p.bits) = w.lock.toNat)
    (hothers : ∀ q, q ≠ (a, v.p.bits) → refs'.count q = refs.count q)
    (hinfo : info' v.p.bits = w.info) (hkeys : ∀ k, k ≠ v.p.bits → info' k = info k)
    (hstub : w.lock = 0 → w.info = none) : Serves (plug ctx (.node a w l r)) refs' info' := by
  have hold {x : Nat × RouteNode size ι} : x ∈ (plug ctx (.node a v l r)).items ↔
      x = (a, v) ∨ x ∈ rest ctx l r :=
    (items_place ctx a v l r).mem_iff.trans List.mem_cons
  have hnew {x : Nat × RouteNode size ι} : x ∈ (plug ctx (.node a w l r)).items ↔
      x = (a, w) ∨ x ∈ rest ctx l r :=
    (items_place ctx a w l r).mem_iff.trans List.mem_cons
  have hother {x : Nat × RouteNode size ι} (hx : x ∈ rest ctx l r) :
      (x.1, x.2.p.bits) ≠ (a, v.p.bits) := fun h => key_rest ht hx (Prod.mk.inj h).2
  constructor
  · intro x hx hlock
    rcases hnew.mp hx with rfl | hx
    · exact (hp ▸ hcount).symm
    · rw [hothers _ (hother hx)]
      exact hs.lock x (hold.mpr (.inr hx)) hlock
  · intro q hq
    have hpos : refs'.count q ≠ 0 := fun h => List.count_eq_zero.mp h hq
    by_cases heq : q = (a, v.p.bits)
    · subst heq
      refine ⟨(a, w), hnew.mpr (.inl rfl), fun hzero => hpos (hcount.trans (congrArg _ hzero)), ?_⟩
      rw [hp]
    · have hmem : q ∈ refs := by
        by_contra hnot
        exact hpos ((hothers q heq).trans (List.count_eq_zero.mpr hnot))
      obtain ⟨x, hx, hlock, rfl⟩ := hs.owner q hmem
      rcases hold.mp hx with rfl | hx
      · exact absurd rfl heq
      · exact ⟨x, hnew.mpr (.inr hx), hlock, rfl⟩
  · intro x hx hlock
    rcases hnew.mp hx with rfl | hx
    · show w.info = info' w.p.bits
      rw [hp, hinfo]
    · rw [hkeys _ (key_rest ht hx)]
      exact hs.written x (hold.mpr (.inr hx)) hlock
  · intro k hk
    by_cases heq : k = v.p.bits
    · subst heq
      rw [hinfo] at hk
      exact ⟨(a, w), hnew.mpr (.inl rfl), mt hstub hk, congrArg Prefix.bits hp⟩
    · rw [hkeys k heq] at hk
      obtain ⟨x, hx, hlock, rfl⟩ := hs.used k hk
      rcases hold.mp hx with rfl | hx
      · exact absurd rfl heq
      · exact ⟨x, hnew.mpr (.inr hx), hlock, rfl⟩

/-- One more lock, if the counter does not overflow. -/
theorem toNat_lock_succ {lock : UInt32} (hspare : lock + 1 ≠ 0) :
    (lock + 1).toNat = lock.toNat + 1 := by
  have hlt := lock.toNat_lt
  have hne : (lock + 1).toNat ≠ 0 := fun h => hspare (UInt32.toNat_inj.mp h)
  rw [UInt32.toNat_add] at hne ⊢
  have hone : (1 : UInt32).toNat = 1 := rfl
  omega

theorem toNat_lock_pred {lock : UInt32} (hlock : lock ≠ 0) : (lock - 1).toNat = lock.toNat - 1 := by
  have hpos : lock.toNat ≠ 0 := fun h => hlock (UInt32.toNat_inj.mp h)
  refine UInt32.toNat_sub_of_le _ _ (UInt32.le_iff_toNat_le.mpr ?_)
  exact Nat.one_le_iff_ne_zero.mpr hpos

theorem Serves.lockNode (hs : Serves (plug ctx (.node a v l r)) refs info)
    (ht : Built table (plug ctx (.node a v l r))) (hstub : v.lock = 0 → v.info = none)
    (hspare : v.lock + 1 ≠ 0) :
    Serves (plug ctx (.node a { v with lock := v.lock + 1 } l r)) ((a, v.p.bits) :: refs) info := by
  have hmem := (items_place ctx a v l r).mem_iff.mpr List.mem_cons_self
  refine hs.setVal ht rfl ?_ ?_ (hs.info_eq ht.ordered hmem hstub).symm (fun _ _ => rfl)
    fun h => absurd h hspare
  · rw [List.count_cons_self, ← hs.lock_eq ht.ordered hmem, toNat_lock_succ hspare]
  · intro q hq
    exact List.count_cons_of_ne hq.symm

theorem Serves.unlockNode (hs : Serves (plug ctx (.node a v l r)) refs info)
    (ht : Built table (plug ctx (.node a v l r))) (hstub : v.lock = 0 → v.info = none)
    (hlock : v.lock ≠ 0) (hlast : v.lock = 1 → v.info = none) :
    Serves (plug ctx (.node a { v with lock := v.lock - 1 } l r)) (refs.erase (a, v.p.bits)) info := by
  have hmem := (items_place ctx a v l r).mem_iff.mpr List.mem_cons_self
  refine hs.setVal ht rfl ?_ ?_ (hs.info_eq ht.ordered hmem hstub).symm (fun _ _ => rfl)
    fun h => hlast (lock_eq_one h)
  · rw [List.count_erase_self, ← hs.lock_eq ht.ordered hmem, toNat_lock_pred hlock]
  · intro q hq
    exact List.count_erase_of_ne hq

theorem Serves.place (hs : Serves t refs info) {q : Ref} (hq : q ∈ refs) :
    ∃ ctx v l r, t = plug ctx (.node q.1 v l r) ∧ v.lock ≠ 0 ∧ q = (q.1, v.p.bits) := by
  obtain ⟨⟨a, v⟩, hx, hlock, rfl⟩ := hs.owner q hq
  obtain ⟨ctx, l, r, rfl⟩ := exists_place hx
  exact ⟨ctx, v, l, r, rfl, hlock, rfl⟩

/-! ## The answers -/

/-- The answer to a call that locks the node it finds, and leaves the table alone otherwise. -/
def Locks (table : RouteTable size ι) (t : AddrTree (RouteNode size ι))
    (answer : Option (RouteTable size ι × Option Nat))
    (P : Option (Nat × RouteNode size ι) → Prop) : Prop :=
  (answer = some (table, none) ∧ P none) ∨
    ∃ ctx a v l r table', t = plug ctx (.node a v l r) ∧ answer = some (table', some a) ∧
      Kept table' (plug ctx (.node a { v with lock := v.lock + 1 } l r)) ∧ P (some (a, v))

theorem locks_some {answer : Option (RouteTable size ι × Option Nat)}
    {P : Option (Nat × RouteNode size ι) → Prop} (hk : Kept table t) (hspare : Spare t)
    (hx : x ∈ t.items) (hanswer : answer = (table.routeLockNode x.1).map fun table => (table, some x.1)) (hP : P (some x)) :
    Locks table t answer P := by
  obtain ⟨ctx, l, r, rfl⟩ := exists_place (v := x.2) hx
  obtain ⟨table', hlock, hkept, -⟩ := lock_spec hk.reached (hspare x hx)
  refine .inr ⟨ctx, x.1, x.2, l, r, table', rfl, ?_, hkept, hP⟩
  rw [hanswer, hlock]
  rfl

theorem routeTop_spec (hk : Kept table t) (hspare : Spare t) :
    Locks table t table.routeTop fun x => x.map Prod.fst = t.root := by
  cases t with
  | nil =>
    refine .inl ⟨?_, rfl⟩
    rw [routeTop, hk.built.rep.top_eq]
    rfl
  | node a v l r =>
    refine locks_some hk hspare List.mem_cons_self ?_ rfl
    rw [routeTop, hk.built.rep.top_eq]
    rfl

variable {p : Prefix size}

theorem routeNodeMatch_spec (hp : p.Valid) (hk : Kept table t) (hspare : Spare t) :
    Locks table t (table.routeNodeMatch p) fun x => x.elim (NoMatch t p) (Longest t p) := by
  obtain ⟨found, hloop, hfound⟩ := matchLoop_spec hp hk.built.rep.holds hk.built.ordered hk.built.valid
    (Nat.lt_succ_of_le hk.built.length_le) none
  rw [← hk.built.rep.top_eq] at hloop
  unfold routeNodeMatch
  rw [hloop]
  rcases hfound with ⟨x, hx, rfl⟩ | ⟨rfl, hno⟩
  · exact locks_some hk hspare hx.mem rfl hx
  · exact .inl ⟨rfl, hno⟩

theorem routeTableGetNext_locks (hp : p.Valid) (hk : Kept table t) (hspare : Spare t) :
    Locks table t (table.routeTableGetNext p) fun x => FirstAfter t p.bits (x.map Prod.fst) := by
  rcases routeTableGetNext_spec hp hk hspare with ⟨hnone, hafter⟩ |
    ⟨ctx, a, v, l, r, table', heq, hafter, hnext, hkept⟩
  · exact .inl ⟨hnone, hafter⟩
  · exact .inr ⟨ctx, a, v, l, r, table', heq, hnext, hkept, hafter⟩

/-- The node with the prefix and an `info`. -/
def Exact (t : AddrTree (RouteNode size ι)) (p : Prefix size) (x : Nat × RouteNode size ι) : Prop :=
  x ∈ t.items ∧ x.2.p.bits = p.bits ∧ x.2.info.isSome

theorem routeNodeLookup_spec (hp : p.Valid) (hk : Kept table t) (hspare : Spare t) :
    Locks table t (table.routeNodeLookup p) fun x => x.elim (∀ y, ¬ Exact t p y) (Exact t p) := by
  obtain ⟨ctx, t', found, hplug, hlow, hloop, hfound, hmissing⟩ :=
    getLoop_spec hp (show Built table (plug [] t) from hk.built) List.nil_prefix
      (Nat.lt_succ_of_le hk.built.length_le)
  change table.getLoop p (table.fresh + 1) none t.root = _ at hloop
  rw [← hk.built.rep.top_eq] at hloop
  change plug ctx t' = t at hplug
  subst hplug
  unfold routeNodeLookup
  rw [lookupLoop_eq none, hloop]
  dsimp only [Option.bind_eq_bind, Option.bind_some]
  cases found with
  | true =>
    obtain ⟨a, v, l, r, rfl, hbits⟩ := hfound rfl
    have hmem := (items_place ctx a v l r).mem_iff.mpr List.mem_cons_self
    dsimp only [AddrTree.root]
    rw [hk.built.read]
    dsimp only [Option.map_some, Option.bind_some]
    by_cases hinfo : v.info.isSome
    · rw [if_pos hinfo]
      exact locks_some (x := (a, v)) hk hspare hmem rfl ⟨hmem, hbits, hinfo⟩
    · rw [if_neg hinfo]
      refine .inl ⟨rfl, ?_⟩
      rintro y ⟨hy, hybits, hyinfo⟩
      obtain rfl := key_inj hk.built.ordered hy hmem (hybits.trans hbits.symm)
      exact hinfo hyinfo
  | false =>
    refine .inl ⟨rfl, ?_⟩
    rintro y ⟨hy, hybits, -⟩
    refine not_mem_of_end hk.built.ordered hlow ?_ hy hybits
    intro a v l r heq
    exact hmissing rfl a v l r heq

namespace Users

/-- The invariant of the runs. -/
def Inv (users : Users size ι) : Prop :=
  ∃ table t, users.table = some table ∧ Kept table t ∧ Serves t users.refs users.info

variable {users : Users size ι}

theorem inv_grant {answer : Option (RouteTable size ι × Option Nat)}
    {P : Option (Nat × RouteNode size ι) → Prop} (hk : Kept table t) (hs : Serves t refs users.info)
    (hspare : Spare t) (h : Locks table t answer P) : Inv (users.grant refs answer) := by
  rcases h with ⟨rfl, -⟩ | ⟨ctx, a, v, l, r, table', rfl, rfl, hkept, -⟩
  · exact ⟨table, t, rfl, hk, hs⟩
  · have hroom := hspare _ ((items_place ctx a v l r).mem_iff.mpr List.mem_cons_self)
    unfold grant
    dsimp only
    rw [hkept.built.read]
    exact ⟨table', _, rfl, hkept, hs.lockNode hk.built hk.stub hroom⟩

/-- A user lets go of a node. -/
theorem inv_unlock (hk : Kept table (plug ctx (.node a v l r)))
    (hs : Serves (plug ctx (.node a v l r)) refs info) (hlock : v.lock ≠ 0)
    (hlast : v.lock = 1 → v.info = none) :
    ∃ table' t', table.routeUnlockNode a = some table' ∧ Kept table' t' ∧
      Serves t' (refs.erase (a, v.p.bits)) info ∧
      ∀ x ∈ (plug ctx (.node a v l r)).items, x.1 ≠ a → x.2.lock ≠ 0 → x ∈ t'.items := by
  obtain ⟨table', t', hunlock, hkept, hsame⟩ := routeUnlockNode_spec hk hlock hlast
  have hserves := hs.unlockNode hk.built hk.stub hlock hlast
  refine ⟨table', t', hunlock, hkept, hserves.same hsame, fun x hx hne hxlock => ?_⟩
  refine (hsame x hxlock).mpr ((items_place ctx a _ l r).mem_iff.mpr (List.mem_cons_of_mem _ ?_))
  rcases List.mem_cons.mp ((items_place ctx a v l r).mem_iff.mp hx) with rfl | hx
  · exact absurd rfl hne
  · exact hx

theorem inv_get {p : Prefix size} (hp : p.Valid) (hk : Kept table t) (hs : Serves t refs users.info)
    (hspare : Spare t) :
    Inv (users.grant refs ((table.routeNodeGet p).map fun e => (e.1, some e.2))) := by
  obtain ⟨table', a, ctx, v, l, r, hget, hkept, -, hsame, hstub, hroom⟩ :=
    routeNodeGet_spec hp hk hspare
  have hbuilt := hkept.built.setVal (w := v) rfl
  have hserves := (hs.same hsame).lockNode hbuilt hstub hroom
  rw [hget]
  unfold grant
  dsimp only [Option.map_some]
  rw [hkept.built.read]
  exact ⟨table', _, rfl, hkept, hserves⟩

theorem later_within {limit : Option Nat} {b : Nat} (hx : x ∈ later (within limit b ctx)) :
    x ∈ later ctx := by
  induction ctx generalizing b with
  | nil => exact hx
  | cons f ctx ih =>
    unfold within at hx
    split at hx
    · cases hx
    · rcases List.mem_append.mp hx with hx | hx
      · exact List.mem_append_left _ hx
      · exact List.mem_append_right _ (ih hx)

theorem mem_behind {limit : Option Nat} (hx : x ∈ behind limit ctx a l r) : x ∈ rest ctx l r := by
  rcases List.mem_append.mp hx with hx | hx
  · exact List.mem_append_left _ (List.mem_append_right _ (List.mem_append_left _ hx))
  · rcases List.mem_append.mp hx with hx | hx
    · exact List.mem_append_left _ (List.mem_append_right _ (List.mem_append_right _ hx))
    · exact List.mem_append_right _ (later_within hx)

/-- `route_next_until` goes to another node, which it locks before it unlocks this one. -/
theorem routeNextUntil_cases (limit : Option Nat) (hk : Kept table (plug ctx (.node a v l r)))
    (hs : Serves (plug ctx (.node a v l r)) refs info) (hspare : Spare (plug ctx (.node a v l r))) :
    ((behind limit ctx a l r).head? = none ∧
        table.routeNextUntil limit a = (table.routeUnlockNode a).map fun table => (table, none)) ∨
      ∃ b w ctx' l' r' table', b ≠ a ∧ (b, w) ∈ (plug ctx (.node a v l r)).items ∧
        (behind limit ctx a l r).head? = some (b, w) ∧
        table.routeNextUntil limit a =
          (table'.routeUnlockNode a).map (fun table => (table, some b)) ∧
        table'.nodes a = table.nodes a ∧ Kept table' (plug ctx' (.node a v l' r')) ∧
        Serves (plug ctx' (.node a v l' r')) ((b, w.p.bits) :: refs) info ∧
        (b, { w with lock := w.lock + 1 }) ∈ (plug ctx' (.node a v l' r')).items ∧
        w.lock + 1 ≠ 0 := by
  unfold routeNextUntil
  rw [nextUntil_spec limit hk.built]
  dsimp only [Option.bind_eq_bind, Option.bind_some]
  cases hhead : (behind limit ctx a l r).head? with
  | none => exact .inl ⟨rfl, rfl⟩
  | some y =>
    obtain ⟨b, w⟩ := y
    have hrest := mem_behind (List.mem_of_head? hhead)
    have hperm := items_place ctx a v l r
    have hmem : (b, w) ∈ (plug ctx (.node a v l r)).items :=
      hperm.mem_iff.mpr (List.mem_cons_of_mem _ hrest)
    have hne : b ≠ a := by
      rintro rfl
      have hnodup := (hperm.map Prod.fst).nodup_iff.mp hk.built.rep.nodup
      rw [List.map_cons] at hnodup
      exact (List.nodup_cons.mp hnodup).1 (List.mem_map.mpr ⟨_, hrest, rfl⟩)
    obtain ⟨ctx₁, l₁, r₁, hplug⟩ := exists_place hmem
    have hserves := hs
    have hkept := hk
    rw [hplug] at hserves hkept
    have hroom := hspare _ hmem
    obtain ⟨table', hlock, hkept', -⟩ := lock_spec hkept.reached hroom
    have hserves' := hserves.lockNode hkept.built hkept.stub hroom
    have hitems {x : Nat × RouteNode size ι} := (items_place ctx₁ b w l₁ r₁).mem_iff (a := x)
    have hitems' {x : Nat × RouteNode size ι} :=
      (items_place ctx₁ b { w with lock := w.lock + 1 } l₁ r₁).mem_iff (a := x)
    have hold : (a, v) ∈ (plug ctx₁ (.node b w l₁ r₁)).items :=
      hplug ▸ hperm.mem_iff.mpr List.mem_cons_self
    have hself : (a, v) ∈ (plug ctx₁ (.node b { w with lock := w.lock + 1 } l₁ r₁)).items := by
      refine hitems'.mpr (List.mem_cons_of_mem _ ?_)
      rcases List.mem_cons.mp (hitems.mp hold) with h | h
      · exact absurd (Prod.mk.inj h).1.symm hne
      · exact h
    have hnext := hitems'.mpr List.mem_cons_self
    have hread : table'.nodes a = table.nodes a := by
      unfold routeLockNode at hlock
      rw [hkept.built.read] at hlock
      obtain rfl := Option.some.inj hlock
      exact Heap.write_of_ne _ _ hne.symm
    obtain ⟨ctx', l', r', hplug'⟩ := exists_place hself
    rw [hplug'] at hkept' hserves' hnext
    refine .inr ⟨b, w, ctx', l', r', table', hne, hmem, rfl, ?_, hread, hkept', hserves', hnext, hroom⟩
    rw [Option.map_some]
    dsimp only
    rw [hlock]
    rfl

theorem inv_next (limit : Option Nat) (hk : Kept table (plug ctx (.node a v l r)))
    (hs : Serves (plug ctx (.node a v l r)) refs users.info) (hlock : v.lock ≠ 0)
    (hlast : v.lock = 1 → v.info = none) (hspare : Spare (plug ctx (.node a v l r))) :
    Inv (users.grant (refs.erase (a, v.p.bits)) (table.routeNextUntil limit a)) := by
  rcases routeNextUntil_cases limit hk hs hspare with ⟨-, hnext⟩ |
    ⟨b, w, ctx', l', r', table', hne, -, -, hnext, -, hk', hs', hmem, hroom⟩
  · obtain ⟨table'', t', hunlock, hkept, hserves, -⟩ := inv_unlock hk hs hlock hlast
    rw [hnext, hunlock]
    exact ⟨table'', t', rfl, hkept, hserves⟩
  · obtain ⟨table'', t', hunlock, hkept, hserves, hkeep⟩ := inv_unlock hk' hs' hlock hlast
    have hstay := hkeep _ hmem hne hroom
    obtain ⟨ctx₂, l₂, r₂, rfl⟩ := exists_place hstay
    rw [hnext, hunlock]
    unfold grant
    dsimp only [Option.map_some]
    rw [hkept.built.read]
    have herase : ((b, w.p.bits) :: refs).erase (a, v.p.bits) =
        (b, w.p.bits) :: refs.erase (a, v.p.bits) := by
      refine List.erase_cons_tail fun h => hne ?_
      exact (Prod.mk.inj (beq_iff_eq.mp h)).1
    rw [herase] at hserves
    exact ⟨table'', _, rfl, hkept, hserves⟩

theorem unlock_fails {n : Node (RouteNode size ι)} (hread : table.nodes a = some n)
    (hlock : n.val.lock = 1) (hinfo : n.val.info ≠ none) : table.routeUnlockNode a = none := by
  have hne : n.val.lock ≠ 0 := hlock ▸ UInt32.zero_ne_one.symm
  have hlast : n.val.lock - 1 = 0 := hlock ▸ UInt32.sub_self 1
  rw [routeUnlockNode, hread]
  dsimp only [Option.bind_eq_bind, Option.bind_some]
  rw [if_neg hne, if_pos hlast, routeNodeDelete]
  dsimp only
  rw [Heap.write_same]
  exact if_pos (.inr (Option.isSome_iff_ne_none.mpr hinfo))

theorem lock_one_iff {lock : UInt32} : lock = 1 ↔ lock.toNat = 1 := by
  rw [← UInt32.toNat_inj]
  rfl

/-- With few references no counter overflows. -/
theorem spare_of_few (hk : Kept table t) (hs : Serves t refs info) (hfew : FewRefs refs) :
    Spare t := by
  intro x hx hzero
  have hcount := hs.lock_eq hk.built.ordered hx
  have hlt : x.2.lock.toNat + 1 < UInt32.size := by
    by_cases hmem : (x.1, x.2.p.bits) ∈ refs
    · rw [hcount]
      exact hfew _ hmem
    · rw [hcount, List.count_eq_zero.mpr hmem]
      decide
  have hsucc : (x.2.lock + 1).toNat = x.2.lock.toNat + 1 := by
    rw [UInt32.toNat_add]
    exact Nat.mod_eq_of_lt hlt
  rw [hzero] at hsucc
  exact absurd hsucc (Nat.succ_ne_zero _).symm

/-- What a reference stands for. -/
theorem place_of_ref (hk : Kept table t) (hs : Serves t refs info) {q : Ref} (hq : q ∈ refs) :
    ∃ ctx v l r, t = plug ctx (.node q.1 v l r) ∧ q = (q.1, v.p.bits) ∧ v.lock ≠ 0 ∧
      v.lock.toNat = refs.count q ∧ v.info = info q.2 := by
  obtain ⟨ctx, v, l, r, rfl, hlock, heq⟩ := hs.place hq
  have hmem := (items_place ctx q.1 v l r).mem_iff.mpr List.mem_cons_self
  refine ⟨ctx, v, l, r, rfl, heq, hlock, ?_, ?_⟩
  · rw [heq]
    exact hs.lock_eq hk.built.ordered hmem
  · rw [heq]
    exact hs.info_eq hk.built.ordered hmem hk.stub

theorem inv_ite {users' : Users size ι} {q : Ref} (hI : Inv users) (h : q ∈ users.refs → Inv users') :
    Inv (if q ∈ users.refs then users' else users) := by
  split
  next hq => exact h hq
  · exact hI

theorem inv_step (c : TableCall size ι) (hI : Inv users) (hfew : Few users)
    (hc : Releases users c) : Inv (users.step c) := by
  obtain ⟨table, t, htable, hk, hs⟩ := hI
  have hspare := spare_of_few hk hs hfew
  have hself : Inv users := ⟨table, t, htable, hk, hs⟩
  unfold step
  rw [htable]
  dsimp only
  cases c with
  | get p hp => exact inv_get hp hk hs hspare
  | lookup p hp => exact inv_grant hk hs hspare (routeNodeLookup_spec hp hk hspare)
  | matching p hp => exact inv_grant hk hs hspare (routeNodeMatch_spec hp hk hspare)
  | getNext p hp => exact inv_grant hk hs hspare (routeTableGetNext_locks hp hk hspare)
  | top => exact inv_grant hk hs hspare (routeTop_spec hk hspare)
  | lock q =>
    rw [call]
    refine inv_ite hself fun hq => ?_
    obtain ⟨ctx, v, l, r, rfl, heq, -, -, -⟩ := place_of_ref hk hs hq
    have hroom := hspare _ ((items_place ctx q.1 v l r).mem_iff.mpr List.mem_cons_self)
    obtain ⟨table', hlock, hkept, -⟩ := lock_spec hk.reached hroom
    refine ⟨table', _, hlock, hkept, ?_⟩
    have hserves := hs.lockNode hk.built hk.stub hroom
    rw [← heq] at hserves
    exact hserves
  | next limit q =>
    rw [call]
    refine inv_ite hself fun hq => ?_
    obtain ⟨ctx, v, l, r, rfl, heq, hlock, hcount, hinfo⟩ := place_of_ref hk hs hq
    have hnext := inv_next limit hk hs hlock
      (fun h => hinfo.trans (hc (hcount ▸ lock_one_iff.mp h))) hspare
    rw [← heq] at hnext
    exact hnext
  | unlock q =>
    rw [call]
    refine inv_ite hself fun hq => ?_
    obtain ⟨ctx, v, l, r, rfl, heq, hlock, hcount, hinfo⟩ := place_of_ref hk hs hq
    obtain ⟨table', t', hunlock, hkept, hserves, -⟩ :=
      inv_unlock hk hs hlock fun h => hinfo.trans (hc (hcount ▸ lock_one_iff.mp h))
    rw [← heq] at hserves
    exact ⟨table', t', hunlock, hkept, hserves⟩
  | setInfo q info =>
    rw [call]
    refine inv_ite hself fun hq => ?_
    obtain ⟨ctx, v, l, r, rfl, heq, hlock, hcount, -⟩ := place_of_ref hk hs hq
    have hreached := hk.reached.setVal (w := { v with info := info }) rfl fun h => absurd h hlock
    refine ⟨_, _, ?_, hreached.kept hlock,
      hs.setVal hk.built rfl ?_ (fun _ _ => rfl) ?_ ?_ fun h => absurd h hlock⟩
    · show table.setInfo q.1 info = _
      rw [RouteTable.setInfo, hk.built.read]
      rfl
    · rw [← heq]
      exact hcount.symm
    · rw [heq]
      exact Function.update_self _ _ _
    · intro k hk
      rw [heq]
      exact Function.update_of_ne hk _ _

theorem step_fails (c : TableCall size ι) (hI : Inv users) (hfew : Few users)
    (hc : ¬ Releases users c) : (users.step c).table = none := by
  obtain ⟨table, t, htable, hk, hs⟩ := hI
  have hspare := spare_of_few hk hs hfew
  have hlast {q : Ref} (h : ¬ (users.refs.count q = 1 → users.info q.2 = none)) :
      q ∈ users.refs ∧ ∃ ctx v l r, t = plug ctx (.node q.1 v l r) ∧ v.lock = 1 ∧ v.info ≠ none := by
    obtain ⟨hone, hinfo⟩ := Classical.not_imp.mp h
    have hq : q ∈ users.refs := List.count_pos_iff.mp (hone ▸ Nat.one_pos)
    obtain ⟨ctx, v, l, r, rfl, -, -, hcount, heq⟩ := place_of_ref hk hs hq
    exact ⟨hq, ctx, v, l, r, rfl, lock_one_iff.mpr (hcount.trans hone), heq ▸ hinfo⟩
  unfold step
  rw [htable]
  dsimp only
  cases c with
  | unlock q =>
    obtain ⟨hq, ctx, v, l, r, rfl, hlock, hinfo⟩ := hlast hc
    rw [call, if_pos hq]
    exact unlock_fails hk.built.read hlock hinfo
  | next limit q =>
    obtain ⟨hq, ctx, v, l, r, rfl, hlock, hinfo⟩ := hlast hc
    rw [call, if_pos hq]
    rcases routeNextUntil_cases limit hk hs hspare with ⟨-, hnext⟩ |
      ⟨b, w, ctx', l', r', table', -, -, -, hnext, hread, -⟩
    · rw [hnext, unlock_fails hk.built.read hlock hinfo]
      rfl
    · rw [hnext, unlock_fails (hread.trans hk.built.read) hlock hinfo]
      rfl
  | _ => exact absurd trivial hc

/-! ## What users see -/

theorem item_of_read {n : Node (RouteNode size ι)} (ht : Built table t) (hread : table.nodes a = some n) :
    (a, n.val) ∈ t.items := by
  have hmem := ht.rep.only a (by rw [hread]; exact Option.some_ne_none n)
  obtain ⟨⟨b, v⟩, hx, rfl⟩ := List.mem_map.mp hmem
  obtain ⟨m, hm, rfl⟩ := ht.rep.holds.mem hx
  obtain rfl := Option.some.inj (hread.symm.trans hm)
  exact hx

theorem referenced_iff (hs : Serves t refs info) {k : List Bool} :
    HeldIn RouteNode.Bare RouteNode.key t k ↔ Referenced refs k := by
  constructor
  · rintro ⟨x, hx, hlock, rfl⟩
    refine ⟨(x.1, x.2.p.bits), List.count_pos_iff.mp ?_, rfl⟩
    rw [← hs.lock x hx hlock]
    exact Nat.pos_of_ne_zero fun hzero => hlock (UInt32.toNat_inj.mp hzero)
  · rintro ⟨q, hq, rfl⟩
    obtain ⟨x, hx, hlock, rfl⟩ := hs.owner q hq
    exact ⟨x, hx, hlock, rfl⟩

theorem correct_of_serves (hk : Kept table t) (hs : Serves t refs info) : Correct table refs info where
  held := by
    intro q hq
    obtain ⟨x, hx, -, rfl⟩ := hs.owner q hq
    obtain ⟨n, hn, hval⟩ := hk.built.rep.holds.mem hx
    exact ⟨n, hn, congrArg RouteNode.key hval⟩
  lock := fun a n hread => hs.lock_eq hk.built.ordered (item_of_read hk.built hread)
  written := by
    intro a n hread
    have hx := item_of_read hk.built hread
    exact hs.info_eq hk.built.ordered hx (hk.stubs _ hx)
  used := by
    intro k hused
    obtain ⟨x, hx, hlock, rfl⟩ := hs.used k hused
    exact (referenced_iff hs).mp ⟨x, hx, hlock, rfl⟩
  stub := fun a n hread hlock => (hk.stays_of_read hread hlock).2
  keys := by
    intro k
    have hheld : HeldIn RouteNode.Bare RouteNode.key t = Referenced refs :=
      funext fun k => propext (referenced_iff hs)
    rw [← hheld, ← mem_keys_iff hk.built.ordered hk.tidy]
    constructor
    · rintro ⟨a, n, hread, rfl⟩
      exact List.mem_map_of_mem (item_of_read hk.built hread)
    · intro h
      obtain ⟨x, hx, rfl⟩ := List.mem_map.mp h
      obtain ⟨n, hn, hval⟩ := hk.built.rep.holds.mem hx
      exact ⟨x.1, n, hn, congrArg RouteNode.key hval⟩
  distinct := by
    intro a b n m hn hm heq
    have hself := key_inj hk.built.ordered (item_of_read hk.built hn) (item_of_read hk.built hm) heq
    exact (Prod.mk.inj hself).1
  count := by
    refine ⟨t.addrs, hk.built.rep.nodup, fun a => ?_, ?_⟩
    · have hrep : Represents table.nodes table.top (plug [] t) := hk.built.rep
      have hmem := hrep.mem_iff (a := a)
      rw [around_nil, List.append_nil] at hmem
      exact hmem.symm
    · rw [hk.count, AddrTree.addrs, List.length_map]

theorem inv_initial : Inv (initial : Users size ι) := by
  refine ⟨.initial, .nil, rfl, ⟨built_initial, trivial, ?_, rfl⟩, ?_⟩
  · intro x hx
    cases hx
  · constructor
    · intro x hx
      cases hx
    · intro q hq
      cases hq
    · intro x hx
      cases hx
    · intro k hk
      exact absurd rfl hk

/-- The table is right in every state of a run in which `lock` can count the references, if and only if
nobody gives up the last reference of a node that is in use. -/
theorem table_correct_iff (calls : List (TableCall size ι)) (hfew : Always step Few initial calls) :
    Always step (fun users => ∃ table, users.table = some table ∧
        Correct table users.refs users.info) initial calls ↔
      EachStep step Releases initial calls := by
  refine always_iff_eachStep_within (fun _ => inv_step) ?_ ?_ inv_initial hfew
  · rintro users ⟨table, t, htable, hk, hs⟩
    exact ⟨table, htable, correct_of_serves hk hs⟩
  · rintro users c hI hcount hc ⟨table, htable, -⟩
    rw [step_fails c hI hcount hc] at htable
    cases htable

theorem inv_run {calls : List (TableCall size ι)} (hfew : Always step Few initial calls)
    (h : EachStep step Releases initial calls) : Inv (calls.foldl step (initial : Users size ι)) :=
  always_of_eachStep (fun _ c hI hc => inv_step c hI hc.1 hc.2) inv_initial (hfew.and_eachStep h)
    calls [] (List.append_nil _).symm

/-- The longest prefix of `p` for which there is an `info`. -/
def Matched (table : RouteTable size ι) (info : List Bool → Option ι) (p : Prefix size) :
    Option Nat → Prop
  | none => ∀ k, info k ≠ none → ¬ k <+: p.bits
  | some a => ∃ n, table.nodes a = some n ∧ info n.val.p.bits ≠ none ∧ n.val.p.bits <+: p.bits ∧
      ∀ k, info k ≠ none → k <+: p.bits → k <+: n.val.p.bits

/-- The node of `p`, if there is an `info` for it. -/
def Found (table : RouteTable size ι) (info : List Bool → Option ι) (p : Prefix size) :
    Option Nat → Prop
  | none => info p.bits = none
  | some a => info p.bits ≠ none ∧ ∃ n, table.nodes a = some n ∧ n.val.p.bits = p.bits

/-- The first node behind a prefix, in the order of the prefixes. -/
def Following (table : RouteTable size ι) (k : List Bool) : Option Nat → Prop
  | none => ∀ a n, table.nodes a = some n → ¬ k < n.val.p.bits
  | some b => ∃ n, table.nodes b = some n ∧ k < n.val.p.bits ∧
      ∀ a m, table.nodes a = some m → k < m.val.p.bits → n.val.p.bits ≤ m.val.p.bits

theorem used_item (hs : Serves t refs info) {k : List Bool} (hk : info k ≠ none) :
    ∃ x ∈ t.items, x.2.info.isSome ∧ x.2.p.bits = k := by
  obtain ⟨x, hx, hlock, rfl⟩ := hs.used k hk
  refine ⟨x, hx, Option.isSome_iff_ne_none.mpr ?_, rfl⟩
  rw [hs.written x hx hlock]
  exact hk

theorem info_of_item (hk : Kept table t) (hs : Serves t refs info) (hx : x ∈ t.items)
    (hinfo : x.2.info.isSome) : info x.2.p.bits ≠ none := by
  rw [← hs.info_eq hk.built.ordered hx (hk.stubs x hx)]
  exact Option.isSome_iff_ne_none.mp hinfo

theorem matched_of_locks {p : Prefix size} (hp : p.Valid) (hk : Kept table t) (hs : Serves t refs info)
    (hspare : Spare t) :
    ∃ table' found, table.routeNodeMatch p = some (table', found) ∧ Matched table info p found := by
  rcases routeNodeMatch_spec hp hk hspare with ⟨hnone, hno⟩ |
    ⟨ctx, a, v, l, r, table', rfl, hsome, -, hlongest⟩
  · refine ⟨table, none, hnone, fun k hk => ?_⟩
    obtain ⟨x, hx, hinfo, rfl⟩ := used_item hs hk
    exact hno x hx hinfo
  · refine ⟨table', some a, hsome, _, hk.built.read, info_of_item hk hs hlongest.mem hlongest.info,
      hlongest.bits, fun k hk => ?_⟩
    obtain ⟨x, hx, hinfo, rfl⟩ := used_item hs hk
    exact hlongest.longest x hx hinfo

theorem found_of_locks {p : Prefix size} (hp : p.Valid) (hk : Kept table t) (hs : Serves t refs info)
    (hspare : Spare t) :
    ∃ table' found, table.routeNodeLookup p = some (table', found) ∧ Found table info p found := by
  rcases routeNodeLookup_spec hp hk hspare with ⟨hnone, hno⟩ |
    ⟨ctx, a, v, l, r, table', rfl, hsome, -, hmem, hbits, hinfo⟩
  · refine ⟨table, none, hnone, ?_⟩
    by_contra hne
    obtain ⟨x, hx, hinfo, heq⟩ := used_item hs hne
    exact hno x ⟨hx, heq, hinfo⟩
  · refine ⟨table', some a, hsome, ?_, _, hk.built.read, hbits⟩
    rw [← hbits]
    exact info_of_item hk hs hmem hinfo

theorem following_of_firstAfter (hk : Kept table t) {k : List Bool} {found : Option Nat}
    (h : FirstAfter t k found) : Following table k found := by
  cases found with
  | none => exact fun a n hread => h (a, n.val) (item_of_read hk.built hread)
  | some b =>
    obtain ⟨w, hmem, hlt, hfirst⟩ := h
    obtain ⟨n, hn, rfl⟩ := hk.built.rep.holds.mem hmem
    exact ⟨n, hn, hlt, fun a m hm => hfirst (a, m.val) (item_of_read hk.built hm)⟩

theorem following_next {q : Ref} (hk : Kept table t) (hs : Serves t refs info) (hq : q ∈ refs)
    (hlast : refs.count q = 1 → info q.2 = none) (hspare : Spare t) :
    ∃ table' found, table.routeNext q.1 = some (table', found) ∧ Following table q.2 found := by
  obtain ⟨ctx, v, l, r, rfl, heq, hlock, hcount, hinfo⟩ := place_of_ref hk hs hq
  have hone : v.lock = 1 → v.info = none := fun h =>
    hinfo.trans (hlast (hcount ▸ lock_one_iff.mp h))
  have hafter := following_of_firstAfter hk (firstAfter_behind hk.built.ordered)
  have hbits : q.2 = v.p.bits := congrArg Prod.snd heq
  rw [hbits]
  rcases routeNextUntil_cases none hk hs hspare with ⟨hhead, hnext⟩ |
    ⟨b, w, ctx', l', r', table', -, -, hhead, hnext, -, hk', hs', -⟩
  · obtain ⟨table', t', hunlock, -⟩ := inv_unlock hk hs hlock hone
    refine ⟨table', none, ?_, ?_⟩
    · rw [routeNext, hnext, hunlock]
      rfl
    · rw [hhead] at hafter
      exact hafter
  · obtain ⟨table'', t', hunlock, -⟩ := inv_unlock hk' hs' hlock hone
    refine ⟨table'', some b, ?_, ?_⟩
    · rw [routeNext, hnext, hunlock]
      rfl
    · rw [hhead] at hafter
      exact hafter

/-- In every run the lookups find the longest prefix, the prefix, and the one behind. -/
theorem table_answers (calls : List (TableCall size ι)) (hfew : Always step Few initial calls)
    (h : EachStep step Releases initial calls) :
    ∃ table, (calls.foldl step initial).table = some table ∧
      (∀ p : Prefix size, p.Valid →
        (∃ table' found, table.routeNodeMatch p = some (table', found) ∧
          Matched table (calls.foldl step initial).info p found) ∧
        (∃ table' found, table.routeNodeLookup p = some (table', found) ∧
          Found table (calls.foldl step initial).info p found) ∧
        ∃ table' found, table.routeTableGetNext p = some (table', found) ∧
          Following table p.bits found) ∧
      ∀ q ∈ (calls.foldl step initial).refs,
        ((calls.foldl step initial).refs.count q = 1 → (calls.foldl step initial).info q.2 = none) →
        ∃ table' found, table.routeNext q.1 = some (table', found) ∧ Following table q.2 found := by
  obtain ⟨table, t, htable, hk, hs⟩ := inv_run hfew h
  have hspare := spare_of_few hk hs (hfew calls [] (List.append_nil _).symm)
  refine ⟨table, htable,
    fun p hp => ⟨matched_of_locks hp hk hs hspare, found_of_locks hp hk hs hspare, ?_⟩,
    fun q hq hlast => following_next hk hs hq hlast hspare⟩
  rcases routeTableGetNext_locks hp hk hspare with ⟨hnone, hafter⟩ |
    ⟨ctx, a, v, l, r, table', -, hsome, -, hafter⟩
  · exact ⟨table, none, hnone, following_of_firstAfter hk hafter⟩
  · exact ⟨table', some a, hsome, following_of_firstAfter hk hafter⟩

/-- Two prefixes that part behind a bit; the first one is given up again. -/
def twoCalls : List (TableCall 1 Nat) :=
  [.get ⟨2, #v[0x80]⟩ (by decide), .get ⟨3, #v[0xe0]⟩ (by decide),
    .setInfo (2, [true, true, true]) (some 7), .unlock (0, [true, false])]

theorem table_answers_two : ∃ table, (twoCalls.foldl step initial).table = some table ∧
    ∃ table' found, table.routeNodeMatch ⟨8, #v[0xff]⟩ = some (table', found) ∧
      Matched table (twoCalls.foldl step initial).info ⟨8, #v[0xff]⟩ found := by
  obtain ⟨table, htable, hall, -⟩ := table_answers twoCalls (by decide +kernel) (by decide +kernel)
  exact ⟨table, htable, (hall _ (by decide)).1⟩

theorem table_correct_two :
    Always step (fun users => ∃ table, users.table = some table ∧
      Correct table users.refs users.info) initial twoCalls :=
  (table_correct_iff twoCalls (by decide +kernel)).mpr (by decide +kernel)

/-! ## One shape -/

/-- Nodes for the same prefix, with the same `info`. -/
def SameRoute (v v' : RouteNode size ι) : Prop := v.p.bits = v'.p.bits ∧ v.info = v'.info

theorem exists_same {table' : RouteTable size ι} (hk : Kept table t) (hk' : Kept table' t')
    (hs : Serves t refs info) (hs' : Serves t' refs' info)
    (hrefs : ∀ k, Referenced refs k ↔ Referenced refs' k) (hx : x ∈ t.items) :
    ∃ x' ∈ t'.items, SameRoute x.2 x'.2 := by
  have hheld : HeldIn RouteNode.Bare RouteNode.key t = HeldIn RouteNode.Bare RouteNode.key t' :=
    funext fun k => propext ((referenced_iff hs).trans ((hrefs k).trans (referenced_iff hs').symm))
  have hkey : x.2.p.bits ∈ keys RouteNode.key t' := by
    rw [mem_keys_iff hk'.built.ordered hk'.tidy, ← hheld,
      ← mem_keys_iff hk.built.ordered hk.tidy]
    exact List.mem_map_of_mem hx
  obtain ⟨x', hx', heq⟩ := List.mem_map.mp hkey
  refine ⟨x', hx', heq.symm, ?_⟩
  rw [hs.info_eq hk.built.ordered hx (hk.stubs x hx),
    hs'.info_eq hk'.built.ordered hx' (hk'.stubs x' hx')]
  exact congrArg info heq.symm

/-- The tree is determined by the prefixes in use: it does not depend on the order of the calls, nor on
what was there before. -/
theorem table_canonical (calls calls' : List (TableCall size ι))
    (hfew : Always step Few initial calls) (hfew' : Always step Few initial calls')
    (h : EachStep step Releases initial calls) (h' : EachStep step Releases initial calls')
    (hrefs : ∀ k, Referenced (calls.foldl step initial).refs k ↔
      Referenced (calls'.foldl step initial).refs k)
    (hinfo : (calls.foldl step initial).info = (calls'.foldl step initial).info) :
    ∃ table table' t t', (calls.foldl step initial).table = some table ∧
      (calls'.foldl step initial).table = some table' ∧ Represents table.nodes table.top t ∧
      Represents table'.nodes table'.top t' ∧ Alike SameRoute t t' := by
  obtain ⟨table, t, htable, hk, hs⟩ := inv_run hfew h
  obtain ⟨table', t', htable', hk', hs'⟩ := inv_run hfew' h'
  rw [hinfo] at hs
  refine ⟨table, table', t, t', htable, htable', hk.built.rep, hk'.built.rep,
    Alike.of_paired (fun _ _ hR => hR.1) hk.built.ordered hk'.built.ordered ⟨?_, ?_⟩⟩
  · intro x hx
    exact exists_same hk hk' hs hs' hrefs hx
  · intro x' hx'
    obtain ⟨x, hx, hbits, heq⟩ := exists_same hk' hk hs' hs (fun k => (hrefs k).symm) hx'
    exact ⟨x, hx, hbits.symm, heq.symm⟩

/-- The second prefix alone. -/
def oneCall : List (TableCall 1 Nat) :=
  [.get ⟨3, #v[0xe0]⟩ (by decide), .setInfo (0, [true, true, true]) (some 7)]

theorem table_canonical_one : ∃ table table' t t', (twoCalls.foldl step initial).table = some table ∧
    (oneCall.foldl step initial).table = some table' ∧ Represents table.nodes table.top t ∧
    Represents table'.nodes table'.top t' ∧ Alike SameRoute t t' := by
  have htwo : (twoCalls.foldl step initial).refs = [(2, [true, true, true])] := by decide +kernel
  have hone : (oneCall.foldl step initial).refs = [(0, [true, true, true])] := by decide +kernel
  refine table_canonical twoCalls oneCall (by decide +kernel) (by decide +kernel) (by decide +kernel)
    (by decide +kernel) ?_ rfl
  intro k
  rw [htwo, hone]
  simp [Referenced]

end Users

end SrxSuite.Quagga.Radix

import SrxSuite.Quagga.RouteTableRuns

/-!
# Iterators over the routing table

An iterator (`lib/table.h`) keeps the node it is at locked. While it is paused it keeps the prefix only,
and it goes on at the first node behind this prefix. Whatever users add and delete in the meantime, it
shows the prefixes in their order, and it misses none that is there all the time (`iter_complete`).
-/

namespace SrxSuite.Quagga.Radix

open ParentTree PrefixTree PrefixLemmas Runs RouteTable Users

variable {size : Nat} {ι : Type}

/-- `route_table_iter_state_t`. -/
inductive IterState
  | init
  | iterating
  | paused
  | done
  deriving DecidableEq

/-- `route_table_iter_t`. -/
structure RouteTableIter (size : Nat) where
  state : IterState
  current : Option Nat
  pausePrefix : Prefix size

namespace RouteTableIter

/-- `route_table_iter_init`. -/
def iterInit : RouteTableIter size := ⟨.init, none, ⟨0, zeroBytes⟩⟩

/-- The `switch` of `route_table_iter_next`, before the end of the iteration. -/
def nextNode (iter : RouteTableIter size) (table : RouteTable size ι) :
    Option (RouteTable size ι × Option Nat) :=
  match iter.state with
  | .init => table.routeTop
  | .iterating => iter.current.bind fun current => table.routeNext current
  | .paused => table.routeTableGetNext iter.pausePrefix
  | .done => some (table, none)

/-- `route_table_iter_next`. -/
def iterNext (iter : RouteTableIter size) (table : RouteTable size ι) :
    Option (RouteTable size ι × RouteTableIter size × Option Nat) :=
  if iter.state = .done then some (table, iter, none)
  else (iter.nextNode table).map fun e =>
    (e.1, { iter with current := e.2, state := if e.2.isSome then .iterating else .done }, e.2)

/-- `route_table_iter_pause`. -/
def iterPause (iter : RouteTableIter size) (table : RouteTable size ι) :
    Option (RouteTable size ι × RouteTableIter size) :=
  if iter.state = .iterating then do
    let current ← iter.current
    let n ← table.nodes current
    let table ← table.routeUnlockNode current
    some (table, { state := .paused, current := none, pausePrefix := n.val.p })
  else some (table, iter)

end RouteTableIter

/-- What happens while an iteration goes on. -/
inductive IterCall (size : Nat) (ι : Type)
  | user (c : TableCall size ι)
  | next
  | pause

/-- A table with its users and an iterator. `shown` are the prefixes that the iterator has shown, the
last one first. The reference of the iterator is one of those of the users. -/
structure Walk (size : Nat) (ι : Type) where
  users : Users size ι
  iter : RouteTableIter size
  shown : List (List Bool)

namespace Walk

/-- The reference of the iterator. -/
def mine (walk : Walk size ι) : List Ref :=
  (walk.users.table.bind fun table => walk.iter.current.bind fun node =>
    (table.nodes node).map fun n => (node, n.val.p.bits)).toList

/-- Users do not use the reference of the iterator. -/
def MayCall (walk : Walk size ι) : TableCall size ι → Prop
  | .lock r => walk.mine.count r < walk.users.refs.count r
  | .next _ r => walk.mine.count r < walk.users.refs.count r
  | .unlock r => walk.mine.count r < walk.users.refs.count r
  | .setInfo r _ => walk.mine.count r < walk.users.refs.count r
  | _ => True

instance decidableMayCall (walk : Walk size ι) : (c : TableCall size ι) → Decidable (walk.MayCall c)
  | .lock r => inferInstanceAs (Decidable (walk.mine.count r < walk.users.refs.count r))
  | .next _ r => inferInstanceAs (Decidable (walk.mine.count r < walk.users.refs.count r))
  | .unlock r => inferInstanceAs (Decidable (walk.mine.count r < walk.users.refs.count r))
  | .setInfo r _ => inferInstanceAs (Decidable (walk.mine.count r < walk.users.refs.count r))
  | .get .. | .lookup .. | .matching .. | .getNext .. | .top => .isTrue trivial

/-- The iterator shows the node it has come to. -/
def display (walk : Walk size ι) : Walk size ι :=
  { walk with shown := walk.mine.map Prod.snd ++ walk.shown }

def fail (walk : Walk size ι) : Walk size ι :=
  { walk with users := { walk.users with table := none } }

/-- `route_table_iter_next`: the iterator gives up its reference for the next one. -/
def next (walk : Walk size ι) (table : RouteTable size ι) : Walk size ι :=
  match walk.iter.iterNext table with
  | none => walk.fail
  | some (table, iter, node) =>
    display { walk with
      users := walk.users.grant (walk.users.refs.diff walk.mine) (some (table, node))
      iter := iter }

/-- `route_table_iter_pause`: the iterator gives up its reference. -/
def pause (walk : Walk size ι) (table : RouteTable size ι) : Walk size ι :=
  match walk.iter.iterPause table with
  | none => walk.fail
  | some (table, iter) =>
    { walk with
      users := { walk.users with table := some table, refs := walk.users.refs.diff walk.mine }
      iter := iter }

def step (walk : Walk size ι) : IterCall size ι → Walk size ι
  | .user c => if walk.MayCall c then { walk with users := walk.users.step c } else walk
  | .next => walk.users.table.elim walk walk.next
  | .pause => walk.users.table.elim walk walk.pause

/-- Neither the users nor the iterator give up the last reference of a node that is in use. -/
def Releases (walk : Walk size ι) : IterCall size ι → Prop
  | .user c => walk.MayCall c → walk.users.Releases c
  | _ => ∀ r ∈ walk.mine, walk.users.refs.count r = 1 → walk.users.info r.2 = none

instance decidableReleases [DecidableEq ι] (walk : Walk size ι) : (c : IterCall size ι) →
    Decidable (walk.Releases c)
  | .user c => inferInstanceAs (Decidable (walk.MayCall c → walk.users.Releases c))
  | .next | .pause => inferInstanceAs (Decidable (∀ r ∈ walk.mine, walk.users.refs.count r = 1 →
      walk.users.info r.2 = none))

/-- No node has as many references as `lock` can count. -/
def Few (walk : Walk size ι) : Prop := walk.users.Few

instance decidableFewWalk (walk : Walk size ι) : Decidable walk.Few :=
  inferInstanceAs (Decidable walk.users.Few)

/-- The prefix is in the table. -/
def Present (k : List Bool) (walk : Walk size ι) : Prop :=
  ∃ table, walk.users.table = some table ∧ ∃ a n, table.nodes a = some n ∧ n.val.p.bits = k

/-- The iterator has not come to the prefix yet. -/
def Ahead (walk : Walk size ι) (k : List Bool) : Prop := ∀ j ∈ walk.shown.head?, j < k

/-- The invariant of an iteration. -/
structure Sound (walk : Walk size ι) : Prop where
  inv : walk.users.Inv
  atNode : walk.iter.state = .iterating → ∃ a k shown, walk.iter.current = some a ∧
    walk.shown = k :: shown ∧ walk.mine = [(a, k)] ∧ (a, k) ∈ walk.users.refs
  apart : walk.iter.state ≠ .iterating → walk.iter.current = none
  atPrefix : walk.iter.state = .paused → walk.iter.pausePrefix.Valid ∧
    ∃ shown, walk.shown = walk.iter.pausePrefix.bits :: shown
  start : walk.iter.state = .init → walk.shown = []
  sorted : walk.shown.Pairwise (· > ·)

/-- Nothing was missed so far. -/
structure Complete (k : List Bool) (walk : Walk size ι) : Prop where
  passed : ¬ walk.Ahead k → k ∈ walk.shown
  all : walk.iter.state = .done → k ∈ walk.shown

variable {walk : Walk size ι} {table table' : RouteTable size ι} {t : AddrTree (RouteNode size ι)}
  {k : List Bool}

theorem mine_nil (h : walk.iter.current = none) : walk.mine = [] := by
  unfold mine
  rw [h]
  cases walk.users.table <;> rfl

/-! ## Steps of the users -/

theorem mem_grant {users : Users size ι} {refs : List Ref} {r : Ref} (h : r ∈ refs)
    (hsub : r ∈ users.refs) (answer : Option (RouteTable size ι × Option Nat)) :
    r ∈ (users.grant refs answer).refs := by
  unfold grant
  cases answer with
  | none => exact hsub
  | some e =>
    obtain ⟨table, node⟩ := e
    cases node with
    | none => exact h
    | some node =>
      dsimp only
      cases table.nodes node with
      | none => exact hsub
      | some n => exact List.mem_cons_of_mem _ h

theorem mem_erase {refs : List Ref} {r q : Ref} (hr : r ∈ refs) (hq : [r].count q < refs.count q) :
    r ∈ refs.erase q := by
  by_cases h : r = q
  · subst h
    rw [List.count_singleton_self] at hq
    refine List.count_pos_iff.mp ?_
    rw [List.count_erase_self]
    exact Nat.sub_pos_of_lt hq
  · exact (List.mem_erase_of_ne h).mpr hr

/-- The reference of the iterator stays. -/
theorem mem_step {r : Ref} (hmine : walk.mine = [r]) (hr : r ∈ walk.users.refs) {c : TableCall size ι}
    (hc : walk.MayCall c) : r ∈ (walk.users.step c).refs := by
  unfold Users.step
  cases walk.users.table with
  | none => exact hr
  | some table =>
    dsimp only
    cases c with
    | get p hp => exact mem_grant hr hr _
    | lookup p hp => exact mem_grant hr hr _
    | matching p hp => exact mem_grant hr hr _
    | getNext p hp => exact mem_grant hr hr _
    | top => exact mem_grant hr hr _
    | lock q =>
      rw [call]
      split
      · exact List.mem_cons_of_mem _ hr
      · exact hr
    | next limit q =>
      have hcount : walk.mine.count q < walk.users.refs.count q := hc
      rw [hmine] at hcount
      rw [call]
      split
      · exact mem_grant (mem_erase hr hcount) hr _
      · exact hr
    | unlock q =>
      have hcount : walk.mine.count q < walk.users.refs.count q := hc
      rw [hmine] at hcount
      rw [call]
      split
      · exact mem_erase hr hcount
      · exact hr
    | setInfo q info =>
      rw [call]
      split <;> exact hr

theorem mine_of_held (hI : walk.users.Inv) {a : Nat} (hcurrent : walk.iter.current = some a)
    (hr : (a, k) ∈ walk.users.refs) : walk.mine = [(a, k)] := by
  obtain ⟨table, t, htable, hk, hs⟩ := hI
  obtain ⟨n, hn, hbits⟩ := (correct_of_serves hk hs).held _ hr
  have hbits : n.val.p.bits = k := hbits
  unfold mine
  rw [htable, hcurrent]
  dsimp only [Option.bind_some]
  rw [hn, ← hbits]
  rfl

theorem sound_user (hw : Sound walk) (hfew : walk.Few) {c : TableCall size ι}
    (hmay : walk.MayCall c) (hc : walk.users.Releases c) :
    Sound { walk with users := walk.users.step c } where
  inv := inv_step c hw.inv hfew hc
  atNode := by
    intro hstate
    obtain ⟨a, k, shown, hcurrent, hshown, hmine, hr⟩ := hw.atNode hstate
    have hmem := mem_step hmine hr hmay
    exact ⟨a, k, shown, hcurrent, hshown, mine_of_held (inv_step c hw.inv hfew hc) hcurrent hmem, hmem⟩
  apart := hw.apart
  atPrefix := hw.atPrefix
  start := hw.start
  sorted := hw.sorted

/-! ## Steps of the iterator -/

/-- The first node that the iterator has not come to, in the order of the prefixes. -/
def Reaches (walk : Walk size ι) (table : RouteTable size ι) : Option Nat → Prop
  | none => ∀ a n, table.nodes a = some n → ¬ walk.Ahead n.val.p.bits
  | some b => ∃ n, table.nodes b = some n ∧ walk.Ahead n.val.p.bits ∧
      ∀ a m, table.nodes a = some m → walk.Ahead m.val.p.bits → n.val.p.bits ≤ m.val.p.bits

/-- The prefix of the node is the same in both tables. -/
def SameKey (table table' : RouteTable size ι) (node : Option Nat) : Prop :=
  ∀ b n, node = some b → table.nodes b = some n →
    ∃ n', table'.nodes b = some n' ∧ n'.val.p.bits = n.val.p.bits

theorem sameKey_of_kept {ctx : List (Frame (RouteNode size ι))} {a : Nat} {v : RouteNode size ι}
    {l r : AddrTree (RouteNode size ι)} (hk : Kept table (plug ctx (.node a v l r)))
    (hk' : Kept table' (plug ctx (.node a { v with lock := v.lock + 1 } l r))) :
    SameKey table table' (some a) := by
  intro b n hb hn
  obtain rfl := Option.some.inj hb
  obtain rfl := Option.some.inj (hk.built.read.symm.trans hn)
  exact ⟨_, hk'.built.read, rfl⟩

theorem reaches_of_following {shown : List (List Bool)} (hshown : walk.shown = k :: shown)
    {node : Option Nat} (h : Following table k node) : Reaches walk table node := by
  have hahead {j : List Bool} : walk.Ahead j ↔ k < j := by
    unfold Ahead
    rw [hshown]
    simp
  cases node with
  | none => exact fun a n hn hj => h a n hn (hahead.mp hj)
  | some b =>
    obtain ⟨n, hn, hlt, hfirst⟩ := h
    exact ⟨n, hn, hahead.mpr hlt, fun a m hm hj => hfirst a m hm (hahead.mp hj)⟩

/-- The root is the first node. -/
theorem reaches_top (hk : Kept table t) (hshown : walk.shown = []) : Reaches walk table t.root := by
  have hahead (j : List Bool) : walk.Ahead j := by
    unfold Ahead
    rw [hshown]
    intro i hi
    cases hi
  cases t with
  | nil => exact fun a n hn => absurd (item_of_read hk.built hn) List.not_mem_nil
  | node a v l r =>
    refine ⟨_, hk.built.rep.holds.1, hahead _, fun b m hm _ => ?_⟩
    have hroot : Ordered RouteNode.key v.p.bits (.node a v l r) :=
      ⟨List.prefix_refl _, hk.built.ordered.2⟩
    exact le_of_extends (hroot.low_of_mem (item_of_read hk.built hm))

/-- The node after a node of the table is locked. -/
theorem next_sameKey {refs : List Ref} {info : List Bool → Option ι} {q : Ref} (hk : Kept table t)
    (hs : Serves t refs info) (hq : q ∈ refs) (hlast : refs.count q = 1 → info q.2 = none)
    (hspare : Spare t) :
    ∃ table' found, table.routeNext q.1 = some (table', found) ∧ Following table q.2 found ∧
      SameKey table table' found := by
  obtain ⟨table', found, hnext, hfollowing⟩ := following_next hk hs hq hlast hspare
  refine ⟨table', found, hnext, hfollowing, ?_⟩
  obtain ⟨ctx, v, l, r, rfl, heq, hlock, hcount, hinfo⟩ := place_of_ref hk hs hq
  have hone : v.lock = 1 → v.info = none := fun h =>
    hinfo.trans (hlast (hcount ▸ lock_one_iff.mp h))
  rw [routeNext] at hnext
  rcases routeNextUntil_cases none hk hs hspare with ⟨-, hcase⟩ |
    ⟨b, w, ctx', l', r', table₁, hne, hmem, -, hcase, -, hk', hs', hmem', hroom⟩
  · obtain ⟨table₂, t', hunlock, -⟩ := inv_unlock hk hs hlock hone
    rw [hcase, hunlock] at hnext
    obtain ⟨-, rfl⟩ := Prod.mk.inj (Option.some.inj hnext)
    intro b n hb
    cases hb
  · obtain ⟨table₂, t', hunlock, hkept, -, hkeep⟩ := inv_unlock hk' hs' hlock hone
    rw [hcase, hunlock] at hnext
    obtain ⟨rfl, rfl⟩ := Prod.mk.inj (Option.some.inj hnext)
    intro c n hc hn
    obtain rfl := Option.some.inj hc
    obtain ⟨m, hm, hmval⟩ := hk.built.rep.holds.mem hmem
    obtain ⟨m', hm', hmval'⟩ := hkept.built.rep.holds.mem (hkeep _ hmem' hne hroom)
    obtain rfl := Option.some.inj (hm.symm.trans hn)
    refine ⟨m', hm', ?_⟩
    rw [hmval', hmval]

/-- The reference that the iterator gives up for the next node, as a call of a user. -/
theorem nextNode_spec (hw : Sound walk) (hfew : walk.Few) (hc : walk.Releases .next)
    (htable : walk.users.table = some table) (hstate : walk.iter.state ≠ .done) :
    ∃ table' node, walk.iter.nextNode table = some (table', node) ∧ Reaches walk table node ∧
      SameKey table table' node ∧
      Inv (walk.users.grant (walk.users.refs.diff walk.mine) (some (table', node))) := by
  obtain ⟨table₀, t, htable₀, hk, hs⟩ := hw.inv
  obtain rfl := Option.some.inj (htable.symm.trans htable₀)
  have hspare := spare_of_few hk hs hfew
  unfold RouteTableIter.nextNode
  cases h : walk.iter.state with
  | init =>
    have hnone := mine_nil (hw.apart (by rw [h]; decide))
    rw [hnone, List.diff_nil]
    have hreaches := reaches_top hk (hw.start h)
    have hlocks := routeTop_spec hk hspare
    rcases hlocks with ⟨htop, hroot⟩ | ⟨ctx, a, v, l, r, table', rfl, htop, hkept, hroot⟩
    · refine ⟨table, none, htop, ?_, ?_, ?_⟩
      · have hroot : none = t.root := hroot
        rw [hroot]
        exact hreaches
      · intro b n hb
        cases hb
      · exact inv_grant hk hs hspare (htop ▸ routeTop_spec hk hspare)
    · refine ⟨table', some a, htop, ?_, sameKey_of_kept hk hkept, ?_⟩
      · have hroot : some a = _ := hroot
        rw [hroot]
        exact hreaches
      · exact inv_grant hk hs hspare (htop ▸ routeTop_spec hk hspare)
  | iterating =>
    obtain ⟨a, k, shown, hcurrent, hshown, hmine, hr⟩ := hw.atNode h
    have hlast := hc (a, k) (hmine ▸ List.mem_singleton_self _)
    obtain ⟨table', node, hnext, hfollowing, hsame⟩ := next_sameKey hk hs hr hlast hspare
    dsimp only
    rw [hcurrent, Option.bind_some, hmine]
    refine ⟨table', node, hnext, reaches_of_following hshown hfollowing, hsame, ?_⟩
    obtain ⟨ctx, v, l, r, rfl, heq, hlock, hcount, hinfo⟩ := place_of_ref hk hs hr
    have hinv := inv_next none hk hs hlock
      (fun h => hinfo.trans (hlast (hcount ▸ lock_one_iff.mp h))) hspare
    rw [← heq] at hinv
    rw [List.diff_cons, List.diff_nil, ← hnext]
    exact hinv
  | paused =>
    have hnone := mine_nil (hw.apart (by rw [h]; decide))
    obtain ⟨hvalid, shown, hshown⟩ := hw.atPrefix h
    rw [hnone, List.diff_nil]
    have hinv := inv_grant hk hs hspare (routeTableGetNext_locks hvalid hk hspare)
    rcases routeTableGetNext_locks hvalid hk hspare with ⟨hnext, hafter⟩ |
      ⟨ctx, a, v, l, r, table', rfl, hnext, hkept, hafter⟩
    · refine ⟨table, none, hnext, reaches_of_following hshown (following_of_firstAfter hk hafter), ?_,
        hnext ▸ hinv⟩
      intro b n hb
      cases hb
    · exact ⟨table', some a, hnext, reaches_of_following hshown (following_of_firstAfter hk hafter),
        sameKey_of_kept hk hkept, hnext ▸ hinv⟩
  | done => exact absurd h hstate

theorem users_eta (users : Users size ι) (htable : users.table = some table) :
    { users with table := some table } = users := by
  rw [← htable]

/-- The end of the iteration, and of its steps. -/
theorem next_done (hw : Sound walk) (htable : walk.users.table = some table)
    (hstate : walk.iter.state = .done) : walk.next table = walk := by
  have hnone := mine_nil (hw.apart (by rw [hstate]; decide))
  have hsame : walk.users.grant (walk.users.refs.diff walk.mine) (some (table, none)) = walk.users := by
    rw [hnone, List.diff_nil]
    exact users_eta walk.users htable
  unfold next RouteTableIter.iterNext
  rw [if_pos hstate]
  dsimp only
  rw [hsame]
  unfold display
  show { walk with shown := walk.mine.map Prod.snd ++ walk.shown } = walk
  rw [hnone]
  rfl

/-- The iterator at the node it has come to, with what is left of the references. -/
def arrived (walk : Walk size ι) (table' : RouteTable size ι) (node : Option Nat) : Walk size ι :=
  { walk with
    users := walk.users.grant (walk.users.refs.diff walk.mine) (some (table', node))
    iter := { walk.iter with
      current := node, state := if node.isSome then .iterating else .done } }

theorem exists_present (htable : walk.users.table = some table) (h : Present k walk) :
    ∃ a n, table.nodes a = some n ∧ n.val.p.bits = k := by
  obtain ⟨table₀, htable₀, hnode⟩ := h
  obtain rfl := Option.some.inj (htable.symm.trans htable₀)
  exact hnode

/-- There is no further node. -/
theorem arrived_none (hw : Sound walk) (htable : walk.users.table = some table)
    (hreach : Reaches walk table none) (hinv : (walk.arrived table' none).users.Inv) :
    Sound (display (walk.arrived table' none)) ∧
      ∀ k, Present k walk → Complete k walk → Complete k (display (walk.arrived table' none)) := by
  have hnone : (walk.arrived table' none).mine = [] := mine_nil rfl
  unfold display
  rw [hnone]
  refine ⟨⟨hinv, ?_, fun _ => rfl, ?_, ?_, hw.sorted⟩, fun k hk hcomplete => ⟨hcomplete.passed, ?_⟩⟩
  · intro h
    cases h
  · intro h
    cases h
  · intro h
    cases h
  · rintro -
    obtain ⟨a, n, hn, rfl⟩ := exists_present htable hk
    exact hcomplete.passed (hreach a n hn)

/-- What the iterator has shown is before what it has not come to. -/
theorem Sound.lt_of_ahead (hw : Sound walk) {j : List Bool} (hahead : walk.Ahead k)
    (hj : j ∈ walk.shown) : j < k := by
  have hsorted := hw.sorted
  unfold Ahead at hahead
  cases hshown : walk.shown with
  | nil =>
    rw [hshown] at hj
    cases hj
  | cons i shown =>
    rw [hshown] at hj hsorted hahead
    have hlt := hahead i rfl
    rcases List.mem_cons.mp hj with rfl | hj
    · exact hlt
    · exact lt_trans ((List.pairwise_cons.mp hsorted).1 j hj) hlt

theorem arrived_some (hw : Sound walk) (htable : walk.users.table = some table) {b : Nat}
    (hreach : Reaches walk table (some b)) (hsame : SameKey table table' (some b))
    (hinv : (walk.arrived table' (some b)).users.Inv) :
    Sound (display (walk.arrived table' (some b))) ∧
      ∀ k, Present k walk → Complete k walk → Complete k (display (walk.arrived table' (some b))) := by
  obtain ⟨n, hn, hahead, hfirst⟩ := hreach
  obtain ⟨n', hn', hbits⟩ := hsame b n rfl hn
  have hrefs : (b, n.val.p.bits) ∈ (walk.arrived table' (some b)).users.refs := by
    unfold arrived grant
    dsimp only
    rw [hn', ← hbits]
    exact List.mem_cons_self
  have hmine := mine_of_held hinv rfl hrefs
  unfold display
  rw [hmine]
  refine ⟨⟨hinv, fun _ => ⟨b, _, _, rfl, rfl, hmine, hrefs⟩, fun h => absurd rfl h, ?_, ?_, ?_⟩,
    fun k hk hcomplete => ⟨fun hnot => ?_, ?_⟩⟩
  · intro h
    cases h
  · intro h
    cases h
  · exact List.pairwise_cons.mpr ⟨fun j hj => hw.lt_of_ahead hahead hj, hw.sorted⟩
  · obtain ⟨a, m, hm, rfl⟩ := exists_present htable hk
    by_cases h : walk.Ahead m.val.p.bits
    · have hle := hfirst a m hm h
      have hge : m.val.p.bits ≤ n.val.p.bits := by
        by_contra hlt
        refine hnot fun i hi => ?_
        obtain rfl := Option.some.inj hi
        exact not_le.mp hlt
      rw [le_antisymm hge hle]
      exact List.mem_cons_self
    · exact List.mem_cons_of_mem _ (hcomplete.passed h)
  · intro h
    cases h

theorem step_next (hw : Sound walk) (hfew : walk.Few) (hc : walk.Releases .next)
    (htable : walk.users.table = some table) (hstate : walk.iter.state ≠ .done) :
    Sound (walk.next table) ∧
      ∀ k, Present k walk → Complete k walk → Complete k (walk.next table) := by
  obtain ⟨table', node, hnext, hreach, hsame, hinv⟩ := nextNode_spec hw hfew hc htable hstate
  have heq : walk.next table = display (walk.arrived table' node) := by
    unfold next RouteTableIter.iterNext
    rw [if_neg hstate, hnext]
    rfl
  rw [heq]
  cases node with
  | none => exact arrived_none hw htable hreach hinv
  | some b => exact arrived_some hw htable hreach hsame hinv

theorem step_pause (hw : Sound walk) (hc : walk.Releases .pause) (htable : walk.users.table = some table) :
    Sound (walk.pause table) ∧ (walk.pause table).shown = walk.shown ∧
      ((walk.pause table).iter.state = .done → walk.iter.state = .done) := by
  by_cases hstate : walk.iter.state = .iterating
  · obtain ⟨a, k, shown, hcurrent, hshown, hmine, hr⟩ := hw.atNode hstate
    obtain ⟨table₀, t, htable₀, hk, hs⟩ := hw.inv
    obtain rfl := Option.some.inj (htable.symm.trans htable₀)
    have hlast := hc (a, k) (hmine ▸ List.mem_singleton_self _)
    obtain ⟨ctx, v, l, r, rfl, heq, hlock, hcount, hinfo⟩ := place_of_ref hk hs hr
    obtain ⟨table', t', hunlock, hkept, hserves, -⟩ :=
      inv_unlock hk hs hlock fun h => hinfo.trans (hlast (hcount ▸ lock_one_iff.mp h))
    have hbits : k = v.p.bits := congrArg Prod.snd heq
    have hpause : walk.pause table = { walk with
        users := { walk.users with table := some table', refs := walk.users.refs.diff walk.mine }
        iter := ⟨.paused, none, v.p⟩ } := by
      unfold pause RouteTableIter.iterPause
      rw [if_pos hstate, hcurrent]
      dsimp only [Option.bind_eq_bind, Option.bind_some]
      rw [hk.built.read]
      dsimp only [Option.bind_some]
      rw [hunlock]
      rfl
    rw [hpause]
    refine ⟨⟨⟨table', t', rfl, hkept, ?_⟩, ?_, fun _ => rfl, fun _ => ⟨hk.built.validAt, shown, ?_⟩, ?_,
      hw.sorted⟩, rfl, ?_⟩
    · show Serves t' (walk.users.refs.diff walk.mine) walk.users.info
      rw [hmine, List.diff_cons, List.diff_nil, hbits]
      exact hserves
    · intro h
      cases h
    · show walk.shown = v.p.bits :: shown
      rw [hshown, hbits]
    · intro h
      cases h
    · intro h
      cases h
  · have hnone := mine_nil (hw.apart hstate)
    have hpause : walk.pause table = walk := by
      unfold pause RouteTableIter.iterPause
      rw [if_neg hstate, hnone, List.diff_nil]
      dsimp only
      rw [users_eta walk.users htable]
    rw [hpause]
    exact ⟨hw, rfl, id⟩

/-! ## Runs -/

theorem sound_step (c : IterCall size ι) (hw : Sound walk) (hfew : walk.Few)
    (hc : walk.Releases c) : Sound (walk.step c) := by
  obtain ⟨table, t, htable, -⟩ := hw.inv
  unfold step
  cases c with
  | user c =>
    dsimp only
    split
    next hmay => exact sound_user hw hfew hmay (hc hmay)
    · exact hw
  | next =>
    dsimp only
    rw [htable, Option.elim_some]
    by_cases hstate : walk.iter.state = .done
    · rw [next_done hw htable hstate]
      exact hw
    · exact (step_next hw hfew hc htable hstate).1
  | pause =>
    dsimp only
    rw [htable, Option.elim_some]
    exact (step_pause hw hc htable).1

theorem complete_step (c : IterCall size ι) (hw : Sound walk) (hfew : walk.Few)
    (hc : walk.Releases c) (hk : Present k walk) (h : Complete k walk) : Complete k (walk.step c) := by
  obtain ⟨table, t, htable, -⟩ := hw.inv
  unfold step
  cases c with
  | user c =>
    dsimp only
    split
    · exact ⟨h.passed, h.all⟩
    · exact h
  | next =>
    dsimp only
    rw [htable, Option.elim_some]
    by_cases hstate : walk.iter.state = .done
    · rw [next_done hw htable hstate]
      exact h
    · exact (step_next hw hfew hc htable hstate).2 k hk h
  | pause =>
    dsimp only
    rw [htable, Option.elim_some]
    obtain ⟨-, hshown, hdone⟩ := step_pause hw hc htable
    refine ⟨fun hnot => ?_, fun hstate => hshown ▸ h.all (hdone hstate)⟩
    unfold Ahead at hnot
    rw [hshown] at hnot ⊢
    exact h.passed hnot

/-- An iterator for a table that users have worked with. -/
def run (before : List (TableCall size ι)) (calls : List (IterCall size ι)) : Walk size ι :=
  calls.foldl step ⟨before.foldl Users.step Users.initial, .iterInit, []⟩

theorem sound_start {users : Users size ι} (hI : users.Inv) : Sound ⟨users, .iterInit, []⟩ where
  inv := hI
  atNode := by
    intro h
    cases h
  apart := fun _ => rfl
  atPrefix := by
    intro h
    cases h
  start := fun _ => rfl
  sorted := List.Pairwise.nil

/-- The iterator shows prefixes in their order and none twice, and when it has come to the end it has
shown all that were there all the time, whatever users did in between and however often it was paused. -/
theorem iter_complete (before : List (TableCall size ι)) (calls : List (IterCall size ι))
    (hfewBefore : Always Users.step Users.Few Users.initial before)
    (hbefore : EachStep Users.step Users.Releases Users.initial before)
    (hfew : Always step Few ⟨before.foldl Users.step Users.initial, .iterInit, []⟩ calls)
    (hcalls : EachStep step Releases ⟨before.foldl Users.step Users.initial, .iterInit, []⟩ calls) :
    (∃ table, (run before calls).users.table = some table) ∧
      (run before calls).shown.reverse.Pairwise (· < ·) ∧
      ∀ k, EachStep step (fun walk _ => Present k walk)
          ⟨before.foldl Users.step Users.initial, .iterInit, []⟩ calls →
        (run before calls).iter.state = .done → k ∈ (run before calls).shown := by
  have hstart := sound_start (inv_run hfewBefore hbefore)
  have hsteps := hfew.and_eachStep hcalls
  have hsound : Sound (run before calls) :=
    always_of_eachStep (fun _ c hw hc => sound_step c hw hc.1 hc.2) hstart hsteps calls []
      (List.append_nil _).symm
  obtain ⟨table, t, htable, -⟩ := hsound.inv
  refine ⟨⟨table, htable⟩, List.pairwise_reverse.mpr hsound.sorted, fun k hk hdone => ?_⟩
  have hboth : EachStep step (fun walk c => (walk.Few ∧ walk.Releases c) ∧ Present k walk)
      ⟨before.foldl Users.step Users.initial, .iterInit, []⟩ calls :=
    fun first c last heq => ⟨hsteps first c last heq, hk first c last heq⟩
  have hinv : ∀ (walk : Walk size ι) (c : IterCall size ι), Sound walk ∧ Complete k walk →
      (walk.Few ∧ walk.Releases c) ∧ Present k walk →
        Sound (walk.step c) ∧ Complete k (walk.step c) :=
    fun walk c hw hc => ⟨sound_step c hw.1 hc.1.1 hc.1.2,
      complete_step c hw.1 hc.1.1 hc.1.2 hc.2 hw.2⟩
  have hnone : Complete k (⟨before.foldl Users.step Users.initial, .iterInit, []⟩ : Walk size ι) := by
    refine ⟨fun hnot => absurd (fun j hj => ?_) hnot, fun h => ?_⟩
    · cases hj
    · cases h
  exact (always_of_eachStep hinv ⟨hstart, hnone⟩ hboth calls [] (List.append_nil _).symm).2.all hdone

/-- The iterator is paused at the first of two prefixes, which is then deleted. -/
def pausedCalls : List (IterCall 1 Nat) :=
  [.next, .next, .pause, .user (.unlock (0, [true, false])), .user (.get ⟨2, #v[0x40]⟩ (by decide)),
    .next, .next]

theorem iter_complete_paused :
    (∃ table, (run twoCalls.dropLast pausedCalls).users.table = some table) ∧
      (run twoCalls.dropLast pausedCalls).shown.reverse.Pairwise (· < ·) ∧
      ∀ k, EachStep step (fun walk _ => Present k walk)
          ⟨twoCalls.dropLast.foldl Users.step Users.initial, .iterInit, []⟩ pausedCalls →
        (run twoCalls.dropLast pausedCalls).iter.state = .done →
        k ∈ (run twoCalls.dropLast pausedCalls).shown :=
  iter_complete twoCalls.dropLast pausedCalls (by decide +kernel) (by decide +kernel)
    (by decide +kernel) (by decide +kernel)

example : (run twoCalls.dropLast pausedCalls).shown = [[true, true, true], [true, false], [true]] ∧
    (run twoCalls.dropLast pausedCalls).iter.state = .done := by decide +kernel

end Walk

end SrxSuite.Quagga.Radix

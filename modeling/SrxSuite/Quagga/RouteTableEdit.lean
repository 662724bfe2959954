import SrxSuite.Quagga.RouteTableShape

/-!
# Edits of the routing table

`route_node_get` puts a node for the prefix in its place and locks it (`routeNodeGet_spec`),
`route_unlock_node` takes the node out with its last lock, and with it the stubs above that are left
with one child (`routeUnlockNode_spec`). `Kept` is what the edits keep; of the locked nodes they change
none but the one they are about (`SameHeld`).
-/

namespace SrxSuite.Quagga.Radix

open ParentTree PrefixTree PrefixLemmas

variable {size : Nat} {ι : Type}

namespace RouteTable

variable {self self' : RouteTable size ι} {t t' l r c : AddrTree (RouteNode size ι)} {p : Prefix size}
  {ctx : List (Frame (RouteNode size ι))} {a new turns : Nat} {v w : RouteNode size ι}
  {n : Node (RouteNode size ι)} {child : Option Nat}

/-! ## Links -/

theorem setLink_eq {node : Nat} {x : Node (RouteNode size ι)} {side : Bool}
    (hx : self.nodes node = some x) (hn : self.nodes new = some n) (hne : new ≠ node)
    (hbit : prefixBit n.val.p.bytes x.val.p.prefixlen = some side) :
    self.setLink node new = some { self with
      nodes := (self.nodes.write node (x.setLink side (some new))).write new
        { n with parent := some node } } := by
  unfold setLink
  rw [hx, hn]
  dsimp only [Option.bind_eq_bind, Option.bind_some]
  rw [hbit]
  dsimp only [Option.bind_some]
  rw [Heap.write_of_ne _ _ hne, hn]
  rfl

/-- The node `new` is linked to the last frame of a place. -/
structure Attached (table table' : RouteTable size ι) (ctx : List (Frame (RouteNode size ι)))
    (new : Nat) (n : Node (RouteNode size ι)) : Prop where
  top : table'.top = if ctx = [] then some new else table.top
  fresh : table'.fresh = table.fresh
  count : table'.count = table.count
  node : table'.nodes new = some { n with parent := up ctx }
  above : ∀ f ctx', ctx = f :: ctx' → table'.nodes f.addr = some (f.node (up ctx') (some new))
  other : ∀ x, x ≠ new → some x ≠ up ctx → table'.nodes x = table.nodes x

theorem attach_spec (hctx : Around self.nodes ctx child) (hn : self.nodes new = some n)
    (hparent : n.parent = none) (hnew : new ∉ around ctx) (hp : n.val.p.Valid)
    (hlow : lower RouteNode.key ctx <+: n.val.p.bits) :
    ∃ self', self.attach (up ctx) new = some self' ∧ Attached self self' ctx new n := by
  cases ctx with
  | nil =>
    refine ⟨{ self with top := some new }, rfl, rfl, rfl, rfl, ?_, ?_, fun _ _ _ => rfl⟩
    · show self.nodes new = some { n with parent := none }
      rw [hn, ← hparent]
    · intro f ctx' h
      cases h
  | cons f ctx =>
    have hne : new ≠ f.addr := by
      rintro rfl
      exact hnew (mem_around_of_up rfl)
    have hbit : prefixBit n.val.p.bytes (f.node (up ctx) child).val.p.prefixlen = some f.side := by
      rw [f.val_node]
      exact prefixBit_of_concat hp hlow
    refine ⟨_, setLink_eq hctx.1 hn hne hbit, rfl, rfl, rfl, Heap.write_same _ _ _, ?_, ?_⟩
    · rintro g ctx' heq
      obtain ⟨rfl, rfl⟩ := List.cons.inj heq
      show Heap.write _ new _ f.addr = _
      rw [Heap.write_of_ne _ _ hne.symm, Heap.write_same, f.setLink_node]
    · intro x hxnew hxup
      have hx : x ≠ f.addr := fun h => hxup (congrArg some h)
      show Heap.write _ new _ x = _
      rw [Heap.write_of_ne _ _ hxnew, Heap.write_of_ne _ _ hx]

theorem Built.fresh_notMem (ht : Built self (plug ctx t)) : self.fresh ∉ t.addrs ++ around ctx :=
  fun hmem => ht.rep.mem_iff.mpr hmem ht.fresh_none

/-- A table with new nodes. -/
theorem Built.extend (ht : Built self t) (hrep : Represents self'.nodes self'.top t')
    (hord : Ordered RouteNode.key [] t') (hfresh : self.fresh ≤ self'.fresh)
    (hitems : ∀ x ∈ t'.items, x ∈ t.items ∨ x.2.p.Valid ∧ x.1 < self'.fresh) : Built self' t' where
  rep := hrep
  ordered := hord
  valid := by
    intro x hx
    rcases hitems x hx with hx | hx
    · exact ht.valid x hx
    · exact hx.1
  bound := by
    intro b hb
    obtain ⟨x, hx, rfl⟩ := List.mem_map.mp hb
    rcases hitems x hx with hx | hx
    · exact Nat.lt_of_lt_of_le (ht.bound x.1 (List.mem_map_of_mem hx)) hfresh
    · exact hx.2

theorem items_leaf (ctx : List (Frame (RouteNode size ι))) (a : Nat) (v : RouteNode size ι) :
    (plug ctx (.node a v .nil .nil)).items.Perm ((a, v) :: (plug ctx .nil).items) := by
  rw [items_plug ctx .nil]
  exact items_place ctx a v .nil .nil

/-- A new node at an empty place. -/
theorem attachLeaf_spec (hp : p.Valid) (ht : Built self (plug ctx .nil))
    (hlow : lower RouteNode.key ctx <+: p.bits) :
    ∃ self', (self.routeNodeSet p).1.attach (up ctx) self.fresh = some self' ∧
      Built self' (plug ctx (.node self.fresh ⟨p, 0, none⟩ .nil .nil)) ∧
      self'.fresh = self.fresh + 1 ∧ self'.count = self.count := by
  have hnot : self.fresh ∉ around ctx := ht.fresh_notMem
  have hctx : Around (self.routeNodeSet p).1.nodes ctx none := ht.rep.around.same fun x hx =>
    Heap.write_of_ne _ _ (ne_of_mem_of_not_mem hx hnot)
  obtain ⟨self', hself, hatt⟩ := attach_spec hctx (Heap.write_same _ _ _) rfl hnot hp hlow
  have hrep := ht.rep.leaf ht.fresh_none hatt.node hatt.above fun x hx hup =>
    (hatt.other x hx hup).trans (Heap.write_of_ne _ _ hx)
  have hfresh : self'.fresh = self.fresh + 1 := hatt.fresh
  have htop : self'.top = if ctx = [] then some self.fresh else self.top := hatt.top
  rw [← htop] at hrep
  refine ⟨self', hself, ht.extend hrep (ordered_leaf ht.ordered hlow) ?_ ?_, hfresh, hatt.count⟩
  · rw [hfresh]
    exact Nat.le_succ _
  · intro x hx
    rcases List.mem_cons.mp ((items_leaf ctx self.fresh ⟨p, 0, none⟩).mem_iff.mp hx) with rfl | hx
    · refine .inr ⟨hp, ?_⟩
      rw [hfresh]
      exact Nat.lt_succ_self _
    · exact .inl hx

theorem fill_swap (side : Bool) (a : Nat) (v : RouteNode size ι) (t t' : AddrTree (RouteNode size ι)) :
    (Frame.mk (!side) a v t).fill t' = (Frame.mk side a v t').fill t := by
  cases side <;> rfl

/-- A new node above a place. -/
theorem attachAbove_spec {side : Bool} {q : Prefix size} (hq : q.Valid)
    (ht : Built self (plug ctx (.node a v l r))) (hlow : lower RouteNode.key ctx <+: q.bits)
    (hside : q.bits ++ [side] <+: v.p.bits) :
    ∃ self₁ self₂, (self.routeNodeSet q).1.setLink self.fresh a = some self₁ ∧
      self₁.attach (up ctx) self.fresh = some self₂ ∧
      Built self₂ (plug ctx ((Frame.mk side self.fresh ⟨q, 0, none⟩ .nil).fill (.node a v l r))) ∧
      self₂.fresh = self.fresh + 1 ∧ self₂.count = self.count := by
  have hmem := ht.fresh_notMem
  have hne : a ≠ self.fresh := by
    rintro rfl
    exact hmem (List.mem_append_left _ (AddrTree.root_mem rfl))
  have hnot : self.fresh ∉ around ctx := fun h => hmem (List.mem_append_right _ h)
  have hanot : a ∉ around ctx := by
    intro ha
    exact (List.nodup_append.mp ht.rep.apart).2.2 a (AddrTree.root_mem rfl) a ha rfl
  have hread : (self.routeNodeSet q).1.nodes a = some ⟨up ctx, l.root, r.root, v⟩ :=
    (Heap.write_of_ne _ _ hne).trans ht.read
  have hset := setLink_eq (Heap.write_same _ _ _) hread hne (prefixBit_of_concat ht.validAt hside)
  obtain ⟨self₁, hself₁⟩ : ∃ self₁, self₁ = ({ (self.routeNodeSet q).1 with
      nodes := ((self.routeNodeSet q).1.nodes.write self.fresh
        ((⟨none, none, none, ⟨q, 0, none⟩⟩ : Node (RouteNode size ι)).setLink side (some a))).write a
          ⟨some self.fresh, l.root, r.root, v⟩ } : RouteTable size ι) := ⟨_, rfl⟩
  have hnew : self₁.nodes self.fresh =
      some ((Frame.mk side self.fresh ⟨q, 0, none⟩ .nil).node none (some a)) := by
    rw [hself₁]
    show Heap.write _ a _ self.fresh = _
    rw [Heap.write_of_ne _ _ hne.symm, Heap.write_same]
    cases side <;> rfl
  have hroot : self₁.nodes a = some ⟨some self.fresh, l.root, r.root, v⟩ := by
    rw [hself₁]
    exact Heap.write_same _ _ _
  have hother {x : Nat} (hxa : x ≠ a) (hx : x ≠ self.fresh) : self₁.nodes x = self.nodes x := by
    rw [hself₁]
    show Heap.write _ a _ x = _
    rw [Heap.write_of_ne _ _ hxa, Heap.write_of_ne _ _ hx]
    exact Heap.write_of_ne _ _ hx
  have hctx : Around self₁.nodes ctx (some a) := ht.rep.around.same fun x hx =>
    hother (ne_of_mem_of_not_mem hx hanot) (ne_of_mem_of_not_mem hx hnot)
  obtain ⟨self₂, hself₂, hatt⟩ := attach_spec hctx hnew (Frame.parent_node _ _ _) hnot
    (by rw [Frame.val_node]; exact hq) (by rw [Frame.val_node]; exact hlow)
  have haup : some a ≠ up ctx := fun h => hanot (mem_around_of_up h)
  have hrep := ht.rep.above (g := Frame.mk side self.fresh ⟨q, 0, none⟩ .nil) rfl ht.fresh_none
    (hatt.node.trans (by cases side <;> rfl)) ((hatt.other a hne haup).trans hroot) hatt.above
    fun x hx hxa hup => (hatt.other x hx hup).trans (hother hxa hx)
  have htop : self₂.top = if ctx = [] then some self.fresh else self.top := by
    rw [hatt.top, hself₁]
    rfl
  have hfresh : self₂.fresh = self.fresh + 1 := by
    rw [hatt.fresh, hself₁]
    rfl
  have hcount : self₂.count = self.count := by
    rw [hatt.count, hself₁]
    rfl
  rw [← htop] at hrep
  refine ⟨self₁, self₂, hself₁ ▸ hset, hself₂, ht.extend hrep ?_ ?_ ?_, hfresh, hcount⟩
  · refine ordered_above ht.ordered hlow trivial ?_
    exact (ordered_plug.mp ht.ordered).2.raise hside
  · rw [hfresh]
    exact Nat.le_succ _
  · intro x hx
    rw [← plug] at hx
    rcases mem_plug.mp hx with hx | ⟨f, hf, hx⟩
    · exact .inl (mem_plug.mpr (.inl hx))
    · rcases List.mem_cons.mp hf with rfl | hf
      · rcases hx with rfl | hx
        · refine .inr ⟨hq, ?_⟩
          rw [hfresh]
          exact Nat.lt_succ_self _
        · cases hx
      · exact .inl (mem_plug.mpr (.inr ⟨f, hf, hx⟩))

/-! ## What edits keep -/

/-- The table is linked as the prefix tree `t`, without a stub that is not needed. -/
structure Kept (table : RouteTable size ι) (t : AddrTree (RouteNode size ι)) : Prop where
  built : Built table t
  tidy : Tidy RouteNode.Bare t
  stubs : ∀ x ∈ t.items, x.2.lock = 0 → x.2.info = none
  count : table.count = t.items.length

/-- The same but for the lock of the node at a place. -/
structure Reached (table : RouteTable size ι) (ctx : List (Frame (RouteNode size ι))) (a : Nat)
    (v : RouteNode size ι) (l r : AddrTree (RouteNode size ι)) : Prop where
  built : Built table (plug ctx (.node a v l r))
  around : TidyAround RouteNode.Bare ctx
  left : Tidy RouteNode.Bare l
  right : Tidy RouteNode.Bare r
  stubs : ∀ x ∈ (plug ctx (.node a v l r)).items, x.2.lock = 0 → x.2.info = none
  count : table.count = (plug ctx (.node a v l r)).items.length

/-- The counter of no node overflows with one more lock. -/
def Spare (t : AddrTree (RouteNode size ι)) : Prop := ∀ x ∈ t.items, x.2.lock + 1 ≠ 0

/-- The locked nodes are the same. -/
def SameHeld (t t' : AddrTree (RouteNode size ι)) : Prop :=
  ∀ x : Nat × RouteNode size ι, x.2.lock ≠ 0 → (x ∈ t'.items ↔ x ∈ t.items)

theorem sameHeld_refl (t : AddrTree (RouteNode size ι)) : SameHeld t t := fun _ _ => Iff.rfl

theorem SameHeld.trans {t'' : AddrTree (RouteNode size ι)} (h : SameHeld t t') (h' : SameHeld t' t'') :
    SameHeld t t'' := fun x hx => (h' x hx).trans (h x hx)

/-- One more node that is not locked, or one less. -/
theorem sameHeld_of_perm {x : Nat × RouteNode size ι} (hperm : t'.items.Perm (x :: t.items))
    (hlock : x.2.lock = 0) : SameHeld t t' := by
  intro y hy
  rw [hperm.mem_iff, List.mem_cons, or_iff_right]
  rintro rfl
  exact hy hlock

theorem SameHeld.symm (h : SameHeld t t') : SameHeld t' t := fun x hx => (h x hx).symm

theorem tidy_of_not_bare (hctx : TidyAround RouteNode.Bare ctx) (hl : Tidy RouteNode.Bare l)
    (hr : Tidy RouteNode.Bare r) (hv : ¬ v.Bare) : Tidy RouteNode.Bare (plug ctx (.node a v l r)) := by
  refine tidy_plug.mpr ⟨hctx, ⟨fun h => absurd h hv, hl, hr⟩, ?_⟩
  intro h
  cases h

theorem Kept.reached (hk : Kept self (plug ctx (.node a v l r))) : Reached self ctx a v l r := by
  obtain ⟨hctx, ⟨-, hl, hr⟩, -⟩ := tidy_plug.mp hk.tidy
  exact ⟨hk.built, hctx, hl, hr, hk.stubs, hk.count⟩

theorem Kept.stub (hk : Kept self (plug ctx (.node a v l r))) : v.lock = 0 → v.info = none :=
  hk.stubs (a, v) ((items_place ctx a v l r).mem_iff.mpr List.mem_cons_self)

theorem Reached.stub (hr : Reached self ctx a v l r) : v.lock = 0 → v.info = none :=
  hr.stubs (a, v) ((items_place ctx a v l r).mem_iff.mpr List.mem_cons_self)

theorem Reached.kept (hr : Reached self ctx a v l r) (hv : v.lock ≠ 0) :
    Kept self (plug ctx (.node a v l r)) :=
  ⟨hr.built, tidy_of_not_bare hr.around hr.left hr.right hv, hr.stubs, hr.count⟩

theorem Reached.setVal (hr : Reached self ctx a v l r) (hp : w.p = v.p)
    (hstub : w.lock = 0 → w.info = none) :
    Reached { self with nodes := self.nodes.write a ⟨up ctx, l.root, r.root, w⟩ } ctx a w l r where
  built := hr.built.setVal hp
  around := hr.around
  left := hr.left
  right := hr.right
  stubs := by
    intro x hx
    rcases List.mem_cons.mp ((items_place ctx a w l r).mem_iff.mp hx) with rfl | hx
    · exact hstub
    · exact hr.stubs x ((items_place ctx a v l r).mem_iff.mpr (List.mem_cons_of_mem _ hx))
  count := by
    show self.count = _
    rw [hr.count, (items_place ctx a v l r).length_eq, (items_place ctx a w l r).length_eq]
    rfl

theorem fresh_spare : (0 : UInt32) + 1 ≠ 0 := by decide

theorem lock_spec (hr : Reached self ctx a v l r) (hspare : v.lock + 1 ≠ 0) :
    ∃ self', self.routeLockNode a = some self' ∧
      Kept self' (plug ctx (.node a { v with lock := v.lock + 1 } l r)) ∧ self'.fresh = self.fresh := by
  have hnext := hr.setVal (w := { v with lock := v.lock + 1 }) rfl fun h => absurd h hspare
  refine ⟨_, ?_, hnext.kept hspare, rfl⟩
  rw [routeLockNode, hr.built.read]
  rfl

/-! ## Getting a node -/

theorem Kept.around (hk : Kept self (plug ctx t)) : TidyAround RouteNode.Bare ctx :=
  (tidy_plug.mp hk.tidy).1

/-- The prefix has no node, and there is none at its place. -/
theorem getLeaf_spec (hp : p.Valid) (ht : Built self (plug ctx .nil))
    (hctx : TidyAround RouteNode.Bare ctx)
    (hstubs : ∀ x ∈ (plug ctx .nil).items, x.2.lock = 0 → x.2.info = none)
    {k : Nat} (hcount : self.count + k = (plug ctx .nil).items.length)
    (hlow : lower RouteNode.key ctx <+: p.bits) :
    ∃ self', (self.routeNodeSet p).1.attach (up ctx) self.fresh = some self' ∧
      Reached { self' with count := self'.count + k + 1 } ctx self.fresh ⟨p, 0, none⟩ .nil .nil := by
  obtain ⟨self', hself, hbuilt, -, hsame⟩ := attachLeaf_spec hp ht hlow
  have hperm := items_leaf ctx self.fresh ⟨p, 0, none⟩
  refine ⟨self', hself, ?_⟩
  constructor
  · exact ⟨hbuilt.rep, hbuilt.ordered, hbuilt.valid, hbuilt.bound⟩
  · exact hctx
  · trivial
  · trivial
  · intro x hx
    rcases List.mem_cons.mp (hperm.mem_iff.mp hx) with rfl | hx
    · exact fun _ => rfl
    · exact hstubs x hx
  · show self'.count + k + 1 = _
    rw [hsame, hcount, hperm.length_eq, List.length_cons]

theorem fill_eq_node (f : Frame (RouteNode size ι)) (t : AddrTree (RouteNode size ι)) :
    f.fill t = .node f.addr f.val (AddrTree.child t f.other f.side) (AddrTree.child f.other t f.side) := by
  unfold Frame.fill AddrTree.child
  cases f.side <;> rfl

theorem tidy_child {side : Bool} (hl : Tidy RouteNode.Bare l) (hr : Tidy RouteNode.Bare r) :
    Tidy RouteNode.Bare (AddrTree.child l r side) := by
  cases side with
  | false => exact hl
  | true => exact hr

theorem items_above (ctx : List (Frame (RouteNode size ι))) (t : AddrTree (RouteNode size ι))
    (f : Frame (RouteNode size ι)) (hother : f.other = .nil) :
    (plug ctx (f.fill t)).items.Perm ((f.addr, f.val) :: (plug ctx t).items) := by
  have hfill : (f.fill t).items = (f.addr, f.val) :: t.items := by
    unfold Frame.fill
    split
    · rw [hother]
      rfl
    · rw [AddrTree.items, hother, AddrTree.items, List.append_nil]
  rw [items_plug, items_plug, hfill, List.append_assoc, List.append_assoc, List.cons_append]
  exact List.perm_middle

theorem bool_eq_not {b c : Bool} (hne : b ≠ c) : c = !b := by
  cases b <;> cases c
  · exact absurd rfl hne
  · rfl
  · rfl
  · exact absurd rfl hne

/-- The node at the place is not on the way: it gets a parent for what the prefixes have in common. -/
theorem splitNode_spec (hp : p.Valid) (hk : Kept self (plug ctx (.node a v l r)))
    (hlow : lower RouteNode.key ctx <+: p.bits) (hnot : ¬ v.p.bits <+: p.bits) :
    ∃ self' new ctx' w l' r', self.splitNode p (up ctx) a = some (self', new) ∧
      Reached { self' with count := self'.count + 1 } ctx' new w l' r' ∧ w.p.bits = p.bits ∧
      SameHeld (plug ctx (.node a v l r)) (plug ctx' (.node new w l' r')) ∧ w.lock = 0 := by
  obtain ⟨q, hcommon, hq, hbits⟩ := routeCommon_eq hp hnot zeroBytes
  have hqv : q.bits <+: v.p.bits := hbits ▸ common_prefix_left _ _
  have hqp : q.bits <+: p.bits := hbits ▸ common_prefix_right _ _
  have hlowq : lower RouteNode.key ctx <+: q.bits :=
    hbits ▸ prefix_common (ordered_plug.mp hk.built.ordered).2.1 hlow
  obtain ⟨side, hside⟩ := exists_next? hqv fun h => hnot (h ▸ hqp)
  obtain ⟨self₁, self₂, hset, hattach, hbuilt, hfresh, hcount⟩ :=
    attachAbove_spec hq hk.built hlowq (next?_eq_some.mp hside)
  have hsplit : self.splitNode p (up ctx) a = (if q.prefixlen ≠ p.prefixlen then do
      let self₃ ← (self₂.routeNodeSet p).1.setLink self.fresh self₂.fresh
      some ({ self₃ with count := self₃.count + 1 }, self₂.fresh)
    else some (self₂, self.fresh)) := by
    unfold splitNode
    rw [hk.built.read]
    dsimp only [Option.bind_eq_bind, Option.bind_some]
    rw [hcommon]
    dsimp only [Option.bind_some]
    rw [show (self.routeNodeSet q).2 = self.fresh from rfl, hset]
    dsimp only [Option.bind_some]
    rw [hattach]
    rfl
  -- the new parent, with `a` on one side
  have hperm := items_above ctx (.node a v l r)
    (Frame.mk side self.fresh ⟨q, 0, none⟩ .nil) rfl
  have hstubs : ∀ x ∈ (plug ctx ((Frame.mk side self.fresh ⟨q, 0, none⟩ .nil).fill
      (.node a v l r))).items, x.2.lock = 0 → x.2.info = none := by
    intro x hx
    rcases List.mem_cons.mp (hperm.mem_iff.mp hx) with rfl | hx
    · exact fun _ => rfl
    · exact hk.stubs x hx
  have hlen : self₂.count + 1 = (plug ctx ((Frame.mk side self.fresh ⟨q, 0, none⟩ .nil).fill
      (.node a v l r))).items.length := by
    rw [hcount, hk.count, hperm.length_eq, List.length_cons]
  have hsame := sameHeld_of_perm hperm rfl
  have hnode : Tidy RouteNode.Bare (.node a v l r) := (tidy_plug.mp hk.tidy).2.1
  by_cases heq : q.prefixlen = p.prefixlen
  · rw [if_neg (not_not_intro heq)] at hsplit
    rw [fill_eq_node] at hbuilt hstubs hlen hsame
    refine ⟨self₂, self.fresh, ctx, ⟨q, 0, none⟩, _, _, hsplit, ?_, (prefixlen_eq_iff hqp).mp heq,
      hsame, rfl⟩
    constructor
    · exact ⟨hbuilt.rep, hbuilt.ordered, hbuilt.valid, hbuilt.bound⟩
    · exact hk.around
    · exact tidy_child hnode trivial
    · exact tidy_child trivial hnode
    · exact hstubs
    · exact hlen
  · obtain ⟨other, hother⟩ := exists_next? hqp (mt (prefixlen_eq_iff hqp).mpr heq)
    have hsides : side ≠ other := by
      rintro rfl
      have hboth := prefix_common (next?_eq_some.mp hside) (next?_eq_some.mp hother)
      exact not_concat _ _ (hbits ▸ hboth)
    obtain rfl := bool_eq_not hsides
    rw [if_pos heq] at hsplit
    rw [← fill_swap] at hbuilt hstubs hlen hsame
    have hctx : TidyAround RouteNode.Bare
        (Frame.mk (!side) self.fresh ⟨q, 0, none⟩ (.node a v l r) :: ctx) := by
      refine List.forall_mem_cons.mpr ⟨⟨fun _ h => ?_, hnode⟩, hk.around⟩
      cases h
    obtain ⟨self₃, hself₃, hreached⟩ := getLeaf_spec hp hbuilt hctx hstubs hlen
      (next?_eq_some.mp hother)
    rw [show (self₂.routeNodeSet p).1.setLink self.fresh self₂.fresh = some self₃ from hself₃] at hsplit
    exact ⟨_, _, _, _, _, _, hsplit, hreached, rfl,
      hsame.trans (sameHeld_of_perm (items_leaf _ _ _) rfl), rfl⟩

/-- `route_node_get` ends at a locked node with the prefix. -/
theorem routeNodeGet_spec (hp : p.Valid) (hk : Kept self t) (hspare : Spare t) :
    ∃ self' a ctx v l r, self.routeNodeGet p = some (self', a) ∧
      Kept self' (plug ctx (.node a { v with lock := v.lock + 1 } l r)) ∧ v.p.bits = p.bits ∧
      SameHeld t (plug ctx (.node a v l r)) ∧ (v.lock = 0 → v.info = none) ∧ v.lock + 1 ≠ 0 := by
  obtain ⟨ctx, t', found, hplug, hlow, hloop, hfound, hmissing⟩ :=
    getLoop_spec hp (show Built self (plug [] t) from hk.built) List.nil_prefix
      (Nat.lt_succ_of_le hk.built.length_le)
  change self.getLoop p (self.fresh + 1) none t.root = _ at hloop
  rw [← hk.built.rep.top_eq] at hloop
  change plug ctx t' = t at hplug
  subst hplug
  cases t' with
  | nil =>
    obtain ⟨self₁, hself₁, hreached⟩ := getLeaf_spec (k := 0) hp hk.built hk.around hk.stubs hk.count hlow
    obtain ⟨self₂, hlock, hkept, -⟩ := lock_spec hreached fresh_spare
    refine ⟨self₂, self.fresh, ctx, ⟨p, 0, none⟩, .nil, .nil, ?_, hkept, rfl,
      sameHeld_of_perm (items_leaf _ _ _) rfl, fun _ => rfl, fresh_spare⟩
    have hattach : self.routeNodeGet p = ((self.routeNodeSet p).1.attach (up ctx) self.fresh).bind
        fun self' => (({ self' with count := self'.count + 1 } : RouteTable size ι).routeLockNode
          self.fresh).map fun table => (table, self.fresh) := by
      unfold routeNodeGet
      rw [hloop]
      cases found <;> rfl
    rw [hattach, hself₁, Option.bind_some]
    exact congrArg (Option.map _) hlock
  | node a v l r =>
    cases found with
    | true =>
      obtain ⟨b, v', l', r', heq, hbits⟩ := hfound rfl
      cases heq
      have hroom := hspare _ ((items_place ctx a v l r).mem_iff.mpr List.mem_cons_self)
      obtain ⟨self', hlock, hkept, -⟩ := lock_spec hk.reached hroom
      refine ⟨self', a, ctx, v, l, r, ?_, hkept, hbits, sameHeld_refl _, hk.stub, hroom⟩
      unfold routeNodeGet
      rw [hloop]
      exact congrArg (Option.map _) hlock
    | false =>
      obtain ⟨self₁, new, ctx', w, l', r', hsplit, hreached, hbits, hsame, hnew⟩ :=
        splitNode_spec hp hk hlow (hmissing rfl a v l r rfl)
      have hroom : w.lock + 1 ≠ 0 := by
        rw [hnew]
        exact fresh_spare
      obtain ⟨self', hlock, hkept, -⟩ := lock_spec hreached hroom
      refine ⟨self', new, ctx', w, l', r', ?_, hkept, hbits, hsame, hreached.stub, hroom⟩
      unfold routeNodeGet
      rw [hloop]
      show (self.splitNode p (up ctx) a).bind _ = _
      rw [hsplit]
      exact congrArg (Option.map _) hlock

/-! ## Taking nodes out -/

theorem adopt_spec (parent : Option Nat) (hc : Holds self.nodes (some a) c) :
    ∃ self', self.adopt c.root parent = some self' ∧ self'.top = self.top ∧
      self'.fresh = self.fresh ∧ self'.count = self.count ∧
      (∀ b w l' r', c = .node b w l' r' → self'.nodes b = some ⟨parent, l'.root, r'.root, w⟩) ∧
      ∀ x, some x ≠ c.root → self'.nodes x = self.nodes x := by
  cases c with
  | nil =>
    refine ⟨self, rfl, rfl, rfl, rfl, ?_, fun _ _ => rfl⟩
    intro _ _ _ _ h
    cases h
  | node b w l' r' =>
    refine ⟨{ self with nodes := self.nodes.write b ⟨parent, l'.root, r'.root, w⟩ }, ?_, rfl, rfl, rfl,
      ?_, ?_⟩
    · unfold adopt AddrTree.root
      dsimp only
      rw [hc.1]
      rfl
    · rintro _ _ _ _ ⟨⟩
      exact Heap.write_same _ _ _
    · intro x hx
      exact Heap.write_of_ne _ _ fun h => hx (congrArg some h)

theorem relink_spec (child : Option Nat) (hctx : Around self.nodes ctx (some a))
    (hnot : ∀ f ctx', ctx = f :: ctx' → a ∉ f.other.addrs) :
    ∃ self', self.relink (up ctx) a child = some self' ∧
      self'.top = (if ctx = [] then child else self.top) ∧ self'.fresh = self.fresh ∧
      self'.count = self.count ∧
      (∀ f ctx', ctx = f :: ctx' → self'.nodes f.addr = some (f.node (up ctx') child)) ∧
      ∀ x, some x ≠ up ctx → self'.nodes x = self.nodes x := by
  cases ctx with
  | nil =>
    refine ⟨{ self with top := child }, rfl, rfl, rfl, rfl, ?_, fun _ _ => rfl⟩
    intro f ctx' h
    cases h
  | cons f ctx =>
    have hside : ((f.node (up ctx) (some a)).left != some a) = f.side := by
      unfold Frame.node
      cases f.side with
      | false => exact bne_self_eq_false _
      | true => exact bne_iff_ne.mpr fun h => hnot f ctx rfl (AddrTree.root_mem h)
    refine ⟨{ self with nodes := self.nodes.write f.addr (f.node (up ctx) child) }, ?_, rfl, rfl, rfl,
      ?_, ?_⟩
    · unfold relink
      rw [up_cons]
      dsimp only
      rw [hctx.1]
      dsimp only [Option.bind_eq_bind, Option.bind_some]
      rw [hside, f.setLink_node]
    · rintro g ctx' heq
      obtain ⟨rfl, rfl⟩ := List.cons.inj heq
      exact Heap.write_same _ _ _
    · intro x hx
      exact Heap.write_of_ne _ _ fun h => hx (congrArg some h)

/-- A node with at most one child is taken out. -/
theorem spliceOut_spec (ht : Built self (plug ctx (.node a v l r)))
    (hc : (c = l ∧ r = .nil) ∨ (c = r ∧ l = .nil)) :
    ∃ self₁ self₂, self.adopt c.root (up ctx) = some self₁ ∧
      self₁.relink (up ctx) a c.root = some self₂ ∧
      Built { self₂ with nodes := self₂.nodes.free a, count := self₂.count - 1 } (plug ctx c) ∧
      self₂.fresh = self.fresh ∧ self₂.count = self.count ∧
      (plug ctx (.node a v l r)).items.Perm ((a, v) :: (plug ctx c).items) := by
  have hitems : l.items ++ r.items = c.items := by
    rcases hc with ⟨rfl, rfl⟩ | ⟨rfl, rfl⟩
    · exact List.append_nil _
    · rfl
  have hperm : (plug ctx (.node a v l r)).items.Perm ((a, v) :: (plug ctx c).items) := by
    rw [items_plug ctx c, ← hitems]
    exact items_place ctx a v l r
  have hholds : Holds self.nodes (some a) c := by
    rcases hc with ⟨rfl, -⟩ | ⟨rfl, -⟩
    · exact ht.rep.place.2.1
    · exact ht.rep.place.2.2
  have hcl : c = l ∨ c = r := hc.imp And.left And.left
  have hsub : ∀ x ∈ c.addrs, x ∈ l.addrs ++ r.addrs := by
    intro x hx
    rcases hcl with rfl | rfl
    · exact List.mem_append_left _ hx
    · exact List.mem_append_right _ hx
  obtain ⟨hnode, -, hdisjoint⟩ := List.nodup_append.mp ht.rep.apart
  rw [AddrTree.addrs_node] at hnode hdisjoint
  obtain ⟨hnot, -⟩ := List.nodup_cons.mp hnode
  have hac : some a ≠ c.root := fun h => hnot (hsub a (AddrTree.root_mem h.symm))
  have haround : ∀ x ∈ around ctx, some x ≠ c.root ∧ x ≠ a := by
    intro x hx
    refine ⟨fun h => ?_, fun h => ?_⟩
    · exact hdisjoint x (List.mem_cons_of_mem _ (hsub x (AddrTree.root_mem h.symm))) x hx rfl
    · exact hdisjoint a List.mem_cons_self x hx h.symm
  obtain ⟨self₁, hadopt, htop₁, hfresh₁, hcount₁, hroot₁, hother₁⟩ :=
    adopt_spec (up ctx) hholds
  have hctx : Around self₁.nodes ctx (some a) := ht.rep.around.same fun x hx =>
    hother₁ x (haround x hx).1
  obtain ⟨self₂, hrelink, htop₂, hfresh₂, hcount₂, habove₂, hother₂⟩ :=
    relink_spec c.root hctx fun f ctx' heq hmem => by
      subst heq
      rw [around_cons] at hdisjoint
      exact hdisjoint a List.mem_cons_self a
        (List.mem_cons_of_mem _ (List.mem_append_left _ hmem)) rfl
  have hrep : Represents (self₂.nodes.free a) (if ctx = [] then c.root else self.top) (plug ctx c) :=
    ht.rep.splice hc (Heap.free_same _ _)
    (fun b w l' r' heq => by
      subst heq
      have hba : b ≠ a := fun h => hac (congrArg some h.symm)
      have hup : some b ≠ up ctx := fun h => (haround b (mem_around_of_up h)).1 rfl
      rw [Heap.free_of_ne _ hba, hother₂ b hup]
      exact hroot₁ b w l' r' rfl)
    (fun f ctx' heq => by
      subst heq
      rw [Heap.free_of_ne _ (haround f.addr (mem_around_of_up rfl)).2]
      exact habove₂ f ctx' rfl)
    fun x hxa hxc hxup => (Heap.free_of_ne _ hxa).trans ((hother₂ x hxup).trans (hother₁ x hxc))
  have htop : self₂.top = if ctx = [] then c.root else self.top := by
    rw [htop₂, htop₁]
  rw [← htop] at hrep
  have hfresh : self₂.fresh = self.fresh := hfresh₂.trans hfresh₁
  refine ⟨self₁, self₂, hadopt, hrelink, ?_, hfresh, hcount₂.trans hcount₁, hperm⟩
  have hsubset : ∀ x ∈ (plug ctx c).items, x ∈ (plug ctx (.node a v l r)).items := fun x hx =>
    hperm.mem_iff.mpr (List.mem_cons_of_mem _ hx)
  refine ht.extend hrep (ordered_child ht.ordered hcl) (Nat.le_of_eq hfresh.symm) fun x hx => ?_
  exact .inl (hsubset x hx)

/-- A node with one child is taken out, and then perhaps its parent. -/
theorem deleteStep_spec (turns : Nat) (hr : Reached self ctx a v l r) (hv : v.lock = 0)
    (hone : ¬ (l.root.isSome ∧ r.root.isSome)) :
    ∃ self' c, self.routeNodeDelete (turns + 1) a = (up ctx).elim (some self') (fun parent =>
        (self'.nodes parent).bind fun x =>
          if x.val.lock = 0 then self'.routeNodeDelete turns parent else some self') ∧
      Built self' (plug ctx c) ∧ Tidy RouteNode.Bare c ∧
      (∀ x ∈ (plug ctx c).items, x.2.lock = 0 → x.2.info = none) ∧
      self'.count = (plug ctx c).items.length ∧ self'.fresh = self.fresh ∧
      SameHeld (plug ctx (.node a v l r)) (plug ctx c) := by
  have hinfo : v.info = none := hr.stub hv
  obtain ⟨c, hc, hroot, htidy⟩ : ∃ c, ((c = l ∧ r = .nil) ∨ (c = r ∧ l = .nil)) ∧
      (if l.root.isSome then l.root else r.root) = c.root ∧ Tidy RouteNode.Bare c := by
    by_cases hl : l.root.isSome
    · refine ⟨l, .inl ⟨rfl, ?_⟩, if_pos hl, hr.left⟩
      exact AddrTree.eq_nil_iff.mpr (Option.not_isSome_iff_eq_none.mp fun h => hone ⟨hl, h⟩)
    · refine ⟨r, .inr ⟨rfl, ?_⟩, if_neg hl, hr.right⟩
      exact AddrTree.eq_nil_iff.mpr (Option.not_isSome_iff_eq_none.mp hl)
  obtain ⟨self₁, self₂, hadopt, hrelink, hbuilt, hfresh, hcount, hperm⟩ :=
    spliceOut_spec hr.built hc
  refine ⟨_, c, ?_, hbuilt, htidy, fun x hx => ?_, ?_, hfresh, (sameHeld_of_perm hperm hv).symm⟩
  · have hok : ¬ (v.lock ≠ 0 ∨ v.info.isSome) := by
      rintro (h | h)
      · exact h hv
      · rw [hinfo] at h
        cases h
    rw [routeNodeDelete, hr.built.read]
    dsimp only [Option.bind_eq_bind, Option.bind_some]
    rw [if_neg hok, if_neg hone, hroot, hadopt]
    dsimp only [Option.bind_some]
    rw [hrelink]
    dsimp only [Option.bind_some]
    cases up ctx <;> rfl
  · exact hr.stubs x (hperm.mem_iff.mpr (List.mem_cons_of_mem _ hx))
  · show self₂.count - 1 = _
    rw [hcount, hr.count, hperm.length_eq, List.length_cons, Nat.add_sub_cancel]

/-- `route_node_delete` of a node that is not locked, with the stubs above it. -/
theorem routeNodeDelete_spec (hr : Reached self ctx a v l r) (hv : v.lock = 0)
    (hturns : ctx.length < turns) :
    ∃ self' t', self.routeNodeDelete turns a = some self' ∧ Kept self' t' ∧
      SameHeld (plug ctx (.node a v l r)) t' ∧ self'.fresh = self.fresh := by
  induction turns generalizing self ctx a v l r with
  | zero => exact absurd hturns (Nat.not_lt_zero _)
  | succ turns ih =>
    by_cases hboth : l.root.isSome ∧ r.root.isSome
    · refine ⟨self, plug ctx (.node a v l r), ?_, ⟨hr.built, ?_, hr.stubs, hr.count⟩,
        sameHeld_refl _, rfl⟩
      · have hinfo : v.info = none := hr.stub hv
        have hok : ¬ (v.lock ≠ 0 ∨ v.info.isSome) := by
          rintro (h | h)
          · exact h hv
          · rw [hinfo] at h
            cases h
        rw [routeNodeDelete, hr.built.read]
        dsimp only [Option.bind_eq_bind, Option.bind_some]
        rw [if_neg hok, if_pos hboth]
      · have hne {t : AddrTree (RouteNode size ι)} (h : t.root.isSome) : t ≠ .nil := by
          rintro rfl
          cases h
        refine tidy_plug.mpr ⟨hr.around, ⟨fun _ => ⟨hne hboth.1, hne hboth.2⟩, hr.left, hr.right⟩, ?_⟩
        intro h
        cases h
    · obtain ⟨self', c, hstep, hbuilt, htidy, hstubs, hcount, hfresh, hsame⟩ :=
        deleteStep_spec turns hr hv hboth
      rw [hstep]
      cases ctx with
      | nil =>
        refine ⟨self', c, rfl, ⟨hbuilt, htidy, hstubs, hcount⟩, hsame, hfresh⟩
      | cons f ctx =>
        have hread : self'.nodes f.addr = some (f.node (up ctx) c.root) := hbuilt.rep.read_up
        rw [up_cons, Option.elim_some, hread, Option.bind_some, f.val_node]
        obtain ⟨⟨hother, htidyother⟩, haround⟩ := List.forall_mem_cons.mp hr.around
        by_cases hlock : f.val.lock = 0
        · rw [if_pos hlock]
          have hplug : plug (f :: ctx) c = plug ctx (.node f.addr f.val (AddrTree.child c f.other f.side)
              (AddrTree.child f.other c f.side)) := by
            rw [plug, fill_eq_node]
          rw [hplug] at hbuilt hstubs hcount hsame
          have hparent : Reached self' ctx f.addr f.val (AddrTree.child c f.other f.side)
              (AddrTree.child f.other c f.side) :=
            ⟨hbuilt, haround, tidy_child htidy htidyother, tidy_child htidyother htidy, hstubs, hcount⟩
          obtain ⟨self'', t', hdelete, hkept, hsame', hfresh'⟩ :=
            ih hparent hlock (Nat.lt_of_succ_lt_succ hturns)
          exact ⟨self'', t', hdelete, hkept, hsame.trans hsame', hfresh'.trans hfresh⟩
        · rw [if_neg hlock]
          refine ⟨self', plug (f :: ctx) c, rfl, ⟨hbuilt, tidy_plug.mpr ⟨hr.around, htidy, ?_⟩, hstubs,
            hcount⟩, hsame, hfresh⟩
          rintro - g ctx' heq
          obtain ⟨rfl, -⟩ := List.cons.inj heq
          exact hlock

theorem lock_eq_one {lock : UInt32} (h : lock - 1 = 0) : lock = 1 := by
  rw [← UInt32.sub_add_cancel lock 1, h]
  rfl

/-- `route_unlock_node`: the last lock is not the one of a node in use. -/
theorem routeUnlockNode_spec (hk : Kept self (plug ctx (.node a v l r))) (hv : v.lock ≠ 0)
    (hlast : v.lock = 1 → v.info = none) :
    ∃ self' t', self.routeUnlockNode a = some self' ∧ Kept self' t' ∧
      SameHeld (plug ctx (.node a { v with lock := v.lock - 1 } l r)) t' := by
  have hnext := hk.reached.setVal (w := { v with lock := v.lock - 1 }) rfl fun h =>
    hlast (lock_eq_one h)
  have hunlock : self.routeUnlockNode a = (if v.lock - 1 = 0 then
      ({ self with nodes := self.nodes.write a ⟨up ctx, l.root, r.root, { v with lock := v.lock - 1 }⟩ } :
        RouteTable size ι).routeNodeDelete (self.fresh + 1) a
      else some { self with
        nodes := self.nodes.write a ⟨up ctx, l.root, r.root, { v with lock := v.lock - 1 }⟩ }) := by
    rw [routeUnlockNode, hk.built.read]
    exact if_neg hv
  rw [hunlock]
  by_cases hzero : v.lock - 1 = 0
  · rw [if_pos hzero]
    have hdepth : ctx.length < self.fresh + 1 := by
      have hlen := length_ctx_le ctx (.node a v l r)
      have hle := hk.built.length_le
      omega
    obtain ⟨self', t', hdelete, hkept, hsame, -⟩ := routeNodeDelete_spec hnext hzero hdepth
    exact ⟨self', t', hdelete, hkept, hsame⟩
  · rw [if_neg hzero]
    exact ⟨_, _, rfl, hnext.kept hzero, sameHeld_refl _⟩

end RouteTable

end SrxSuite.Quagga.Radix

import SrxSuite.Quagga.RouteTableEdit

/-!
# Walking over the routing table

The nodes are walked over in the order of their prefixes: `route_next` goes to the next one
(`nextUntil_spec`), and `route_table_get_next` to the first one behind a prefix, which does not have to
be in the table (`getNextLoop_spec`).
-/

namespace SrxSuite.Quagga.Radix

open ParentTree PrefixTree PrefixLemmas

variable {size : Nat} {ι : Type}

namespace RouteTable

variable {self self' : RouteTable size ι} {t t' l r c : AddrTree (RouteNode size ι)} {p : Prefix size}
  {ctx : List (Frame (RouteNode size ι))} {a turns : Nat} {v w : RouteNode size ι}
  {n : Node (RouteNode size ι)}

/-! ## `route_next` -/

/-- The frames below `limit`, for the climb from `a`. -/
def within (limit : Option Nat) : (a : Nat) → List (Frame (RouteNode size ι)) →
    List (Frame (RouteNode size ι))
  | _, [] => []
  | a, f :: ctx => if some a = limit then [] else f :: within limit f.addr ctx

theorem within_none (a : Nat) (ctx : List (Frame (RouteNode size ι))) : within none a ctx = ctx := by
  induction ctx generalizing a with
  | nil => rfl
  | cons f ctx ih => rw [within, if_neg (Option.some_ne_none a), ih]

theorem head_append (t : AddrTree (RouteNode size ι)) (ys : List (Nat × RouteNode size ι)) :
    (t.items ++ ys).head?.map Prod.fst = t.root.or (ys.head?.map Prod.fst) := by
  cases t <;> rfl

theorem node_left {f : Frame (RouteNode size ι)} (h : f.side = false) (parent child : Option Nat) :
    f.node parent child = ⟨parent, child, f.other.root, f.val⟩ := by
  rw [Frame.node, h, if_neg Bool.false_ne_true]

theorem node_right {f : Frame (RouteNode size ι)} (h : f.side = true) (parent child : Option Nat) :
    f.node parent child = ⟨parent, f.other.root, child, f.val⟩ := by
  rw [Frame.node, h, if_pos rfl]

/-- The climb goes to the first node behind the subtree, below `limit`. -/
theorem climbUntil_spec (limit : Option Nat) (ht : Built self (plug ctx (.node a v l r)))
    (hturns : ctx.length < turns) :
    self.climbUntil limit turns a = some ((later (within limit a ctx)).head?.map Prod.fst) := by
  induction ctx generalizing turns a v l r with
  | nil =>
    cases turns with
    | zero => exact absurd hturns (Nat.not_lt_zero _)
    | succ turns =>
      rw [climbUntil, ht.read]
      rfl
  | cons f ctx ih =>
    cases turns with
    | zero => exact absurd hturns (Nat.not_lt_zero _)
    | succ turns =>
      rw [climbUntil, ht.read]
      dsimp only [Option.bind_eq_bind, Option.bind_some, up_cons]
      by_cases hlimit : some a = limit
      · rw [if_pos hlimit, within, if_pos hlimit]
        rfl
      · have hread := ht.rep.read_up
        have hnodup := ht.rep.apart
        rw [plug, fill_eq_node] at ht
        have hclimb := ih ht (Nat.lt_of_succ_lt_succ hturns)
        rw [if_neg hlimit, hread, within, if_neg hlimit, later]
        dsimp only [Option.bind_some]
        cases hside : f.side with
        | false =>
          rw [node_left hside, if_neg Bool.false_ne_true, head_append]
          cases hother : f.other with
          | nil => exact (if_neg fun h => Bool.false_ne_true h.2).trans hclimb
          | node b w l' r' => exact if_pos ⟨rfl, rfl⟩
        | true =>
          rw [node_right hside, if_neg, hclimb, if_pos rfl, List.nil_append]
          rintro ⟨hleft, -⟩
          have hmem : a ∈ around (f :: ctx) := by
            rw [around_cons]
            exact List.mem_cons_of_mem _ (List.mem_append_left _ (AddrTree.root_mem hleft))
          exact (List.nodup_append.mp hnodup).2.2 a (AddrTree.root_mem rfl) a hmem rfl

/-- The nodes behind the one at a place. -/
def behind (limit : Option Nat) (ctx : List (Frame (RouteNode size ι))) (a : Nat)
    (l r : AddrTree (RouteNode size ι)) : List (Nat × RouteNode size ι) :=
  l.items ++ (r.items ++ later (within limit a ctx))

theorem nextUntil_spec (limit : Option Nat) (ht : Built self (plug ctx (.node a v l r))) :
    self.nextUntil limit a = some ((behind limit ctx a l r).head?.map Prod.fst) := by
  have hdepth : ctx.length < self.fresh + 1 := by
    have hlen := length_ctx_le ctx (.node a v l r)
    have hle := ht.length_le
    omega
  rw [nextUntil, ht.read, behind, head_append, head_append]
  dsimp only [Option.bind_eq_bind, Option.bind_some]
  cases l with
  | node b w l' r' => rfl
  | nil =>
    cases r with
    | node b w l' r' => rfl
    | nil => exact climbUntil_spec limit ht hdepth

/-- The first node behind a word in the order of the prefixes. -/
def FirstAfter (t : AddrTree (RouteNode size ι)) (k : List Bool) : Option Nat → Prop
  | none => ∀ x ∈ t.items, ¬ k < x.2.p.bits
  | some b => ∃ w, (b, w) ∈ t.items ∧ k < w.p.bits ∧
      ∀ x ∈ t.items, k < x.2.p.bits → w.p.bits ≤ x.2.p.bits

theorem firstAfter_of_split (hord : Ordered RouteNode.key [] t) {k : List Bool}
    {xs ys : List (Nat × RouteNode size ι)} (hitems : t.items = xs ++ ys)
    (hxs : ∀ x ∈ xs, ¬ k < x.2.p.bits) (hys : ∀ y ∈ ys, k < y.2.p.bits) :
    FirstAfter t k (ys.head?.map Prod.fst) := by
  cases ys with
  | nil =>
    intro x hx
    rw [hitems, List.append_nil] at hx
    exact hxs x hx
  | cons y ys =>
    refine ⟨y.2, hitems ▸ List.mem_append_right _ List.mem_cons_self, hys y List.mem_cons_self, ?_⟩
    intro x hx hk
    rw [hitems] at hx
    rcases List.mem_append.mp hx with hx | hx
    · exact absurd hk (hxs x hx)
    · rcases List.mem_cons.mp hx with rfl | hx
      · exact le_refl _
      · have hsorted := pairwise_keys hord
        rw [keys, hitems, List.map_append] at hsorted
        have hlast := (List.pairwise_cons.mp (List.pairwise_append.mp hsorted).2.1).1
        exact le_of_lt (hlast _ (List.mem_map_of_mem hx))

theorem items_at (ctx : List (Frame (RouteNode size ι))) (a : Nat) (v : RouteNode size ι)
    (l r : AddrTree (RouteNode size ι)) : (plug ctx (.node a v l r)).items =
      (before ctx ++ [(a, v)]) ++ behind none ctx a l r := by
  rw [items_plug, behind, within_none, AddrTree.items]
  simp only [List.append_assoc, List.cons_append, List.nil_append]

/-- What is behind a node in the list of the nodes has the greater keys. -/
theorem firstAfter_behind (hord : Ordered RouteNode.key [] (plug ctx (.node a v l r))) :
    FirstAfter (plug ctx (.node a v l r)) v.p.bits ((behind none ctx a l r).head?.map Prod.fst) := by
  have hsorted := pairwise_keys hord
  rw [keys, items_at, List.map_append] at hsorted
  obtain ⟨hfront, -, hcross⟩ := List.pairwise_append.mp hsorted
  refine firstAfter_of_split hord (items_at ctx a v l r) ?_ ?_
  · intro x hx
    rcases List.mem_append.mp hx with hx | hx
    · rw [List.map_append] at hfront
      have hlt := (List.pairwise_append.mp hfront).2.2 _ (List.mem_map_of_mem hx) _
        List.mem_cons_self
      exact lt_asymm hlt
    · rw [List.mem_singleton.mp hx]
      exact lt_irrefl _
  · intro y hy
    refine hcross _ ?_ _ (List.mem_map_of_mem hy)
    exact List.mem_map_of_mem (List.mem_append_right _ List.mem_cons_self)

/-! ## The node behind a prefix -/

theorem routeNodeDelete_stub (hn : self.nodes a = some n) (hlock : n.val.lock = 0)
    (hinfo : n.val.info = none) (hboth : n.left.isSome ∧ n.right.isSome) :
    self.routeNodeDelete (turns + 1) a = some self := by
  have hok : ¬ (n.val.lock ≠ 0 ∨ n.val.info.isSome) := by
    rintro (h | h)
    · exact h hlock
    · rw [hinfo] at h
      cases h
  rw [routeNodeDelete, hn]
  dsimp only [Option.bind_eq_bind, Option.bind_some]
  rw [if_neg hok, if_pos hboth]

/-- A node that stays without the lock. -/
def Stays (n : Node (RouteNode size ι)) : Prop :=
  n.val.lock = 0 → n.val.info = none ∧ n.left.isSome ∧ n.right.isSome

/-- The node with one more lock. -/
def locked (n : Node (RouteNode size ι)) : Node (RouteNode size ι) :=
  { n with val := { n.val with lock := n.val.lock + 1 } }

theorem routeUnlockNode_locked (hstays : Stays n) (hspare : n.val.lock + 1 ≠ 0)
    (hread : self.nodes a = some (locked n)) :
    self.routeUnlockNode a = some { self with nodes := self.nodes.write a n } := by
  rw [routeUnlockNode, hread]
  dsimp only [Option.bind_eq_bind, Option.bind_some, locked]
  rw [if_neg hspare, UInt32.add_sub_cancel]
  by_cases hlock : n.val.lock = 0
  · rw [if_pos hlock]
    obtain ⟨hinfo, hboth⟩ := hstays hlock
    exact routeNodeDelete_stub (Heap.write_same _ _ _) hlock hinfo hboth
  · rw [if_neg hlock]

theorem write_back {h : Heap (RouteNode size ι)} {n' : Node (RouteNode size ι)} (hn : h a = some n) :
    (h.write a n').write a n = h := by
  funext x
  by_cases hx : x = a
  · rw [hx, Heap.write_same, hn]
  · rw [Heap.write_of_ne _ _ hx, Heap.write_of_ne _ _ hx]

theorem write_back_two {h : Heap (RouteNode size ι)} {b : Nat} {m n' m' : Node (RouteNode size ι)}
    (hn : h a = some n) (hm : h b = some m) :
    (((h.write a n').write b m').write a n).write b m = h := by
  funext x
  by_cases hxb : x = b
  · rw [hxb, Heap.write_same, hm]
  · rw [Heap.write_of_ne _ _ hxb]
    by_cases hxa : x = a
    · rw [hxa, Heap.write_same, hn]
    · rw [Heap.write_of_ne _ _ hxa, Heap.write_of_ne _ _ hxb, Heap.write_of_ne _ _ hxa]

theorem Kept.stays (hk : Kept self (plug ctx (.node a v l r))) :
    Stays (⟨up ctx, l.root, r.root, v⟩ : Node (RouteNode size ι)) := by
  intro hlock
  obtain ⟨hl, hr⟩ := (tidy_plug.mp hk.tidy).2.1.1 hlock
  refine ⟨hk.stub hlock, ?_, ?_⟩
  · exact Option.isSome_iff_ne_none.mpr (mt AddrTree.eq_nil_iff.mpr hl)
  · exact Option.isSome_iff_ne_none.mpr (mt AddrTree.eq_nil_iff.mpr hr)

theorem Kept.stays_of_read (hk : Kept self t) (hread : self.nodes a = some n) : Stays n := by
  have hmem := hk.built.rep.only a (by rw [hread]; exact Option.some_ne_none n)
  obtain ⟨⟨b, v⟩, hitem, rfl⟩ := List.mem_map.mp hmem
  obtain ⟨ctx, l, r, rfl⟩ := exists_place hitem
  obtain rfl := Option.some.inj (hread.symm.trans hk.built.read)
  exact hk.stays

/-- The locks in between leave the table as it was. -/
theorem nextOf_spec (hk : Kept self (plug ctx (.node a v l r)))
    (hspare : Spare (plug ctx (.node a v l r))) :
    self.nextOf a = some (self, (behind none ctx a l r).head?.map Prod.fst) := by
  have hread := hk.built.read
  have hlock := hk.built.setVal (w := { v with lock := v.lock + 1 }) rfl
  have hnext := nextUntil_spec none hlock
  have hstays := hk.stays
  have hroom := hspare _ ((items_place ctx a v l r).mem_iff.mpr List.mem_cons_self)
  unfold nextOf routeLockNode
  rw [hread]
  dsimp only [Option.bind_eq_bind, Option.bind_some]
  unfold routeNext routeNextUntil
  rw [hnext]
  dsimp only [Option.bind_eq_bind, Option.bind_some]
  cases hhead : (behind none ctx a l r).head? with
  | none =>
    rw [Option.map_none]
    dsimp only
    rw [routeUnlockNode_locked hstays hroom (Heap.write_same _ _ _)]
    dsimp only [Option.map_some, Option.bind_some]
    rw [write_back hread]
  | some y =>
    have hmem : y ∈ behind none ctx a l r := List.mem_of_head? hhead
    have hitem : y ∈ (plug ctx (.node a v l r)).items := by
      rw [items_at]
      exact List.mem_append_right _ hmem
    have hne : y.1 ≠ a := by
      have hnodup := hk.built.rep.nodup
      rw [AddrTree.addrs, items_at, List.map_append] at hnodup
      intro h
      refine (List.nodup_append.mp hnodup).2.2 a ?_ y.1 (List.mem_map_of_mem hmem) h.symm
      exact List.mem_map_of_mem (List.mem_append_right _ List.mem_cons_self)
    obtain ⟨m, hm, hval⟩ := hk.built.rep.holds.mem hitem
    have hroomm : m.val.lock + 1 ≠ 0 := hval ▸ hspare _ hitem
    have hstaysm := hk.stays_of_read hm
    rw [Option.map_some]
    dsimp only [routeLockNode]
    rw [Heap.write_of_ne _ _ hne, hm]
    dsimp only [Option.bind_eq_bind, Option.bind_some]
    rw [routeUnlockNode_locked hstays hroom ((Heap.write_of_ne _ _ hne.symm).trans (Heap.write_same _ _ _))]
    dsimp only [Option.map_some, Option.bind_some]
    rw [routeUnlockNode_locked hstaysm hroomm ((Heap.write_of_ne _ _ hne).trans (Heap.write_same _ _ _))]
    dsimp only [Option.map_some]
    rw [write_back_two hread hm]

/-- The order of two words as a number. -/
def orderOf (u v : List Bool) : Int := if u < v then -1 else if u = v then 0 else 1

theorem iterCmpParted_eq {p1 p2 : Prefix size} (h1 : p1.Valid) (h2 : p2.Valid)
    (hnot : ¬ p1.bits <+: p2.bits) (hnot' : ¬ p2.bits <+: p1.bits) :
    iterCmpParted p1 p2 = some (orderOf p1.bits p2.bits) := by
  obtain ⟨c, hcommon, -, hbits⟩ := routeCommon_eq h2 hnot zeroBytes
  have hc1 : c.bits <+: p1.bits := hbits ▸ common_prefix_left _ _
  have hc2 : c.bits <+: p2.bits := hbits ▸ common_prefix_right _ _
  obtain ⟨b1, hb1⟩ := exists_next? hc1 fun h => hnot (h ▸ hc2)
  obtain ⟨b2, hb2⟩ := exists_next? hc2 fun h => hnot' (h ▸ hc1)
  have hpre1 := next?_eq_some.mp hb1
  have hpre2 := next?_eq_some.mp hb2
  have hlen {q : Prefix size} {b : Bool} (h : c.bits ++ [b] <+: q.bits) : c.prefixlen < q.prefixlen := by
    have hle := h.length_le
    rw [List.length_append, length_bits, length_bits] at hle
    exact hle
  have hne : b1 ≠ b2 := by
    rintro rfl
    have hboth := prefix_common hpre1 hpre2
    exact not_concat _ _ (hbits ▸ hboth)
  unfold iterCmpParted
  rw [hcommon]
  dsimp only [Option.bind_eq_bind, Option.bind_some]
  rw [if_pos ⟨hlen hpre1, hlen hpre2⟩, prefixBit_of_concat h1 hpre1, prefixBit_of_concat h2 hpre2]
  cases b1 with
  | false =>
    cases b2 with
    | false => exact absurd rfl hne
    | true => exact congrArg some (if_pos (lt_of_sides hpre1 hpre2)).symm
  | true =>
    cases b2 with
    | false =>
      have hlt := lt_of_sides hpre2 hpre1
      rw [orderOf, if_neg (lt_asymm hlt), if_neg (ne_of_gt hlt)]
      rfl
    | true => exact absurd rfl hne

/-- `route_table_prefix_iter_cmp` is the order of the bits; its assertions hold. -/
theorem routeTablePrefixIterCmp_eq {p1 p2 : Prefix size} (h1 : p1.Valid) (h2 : p2.Valid) :
    routeTablePrefixIterCmp p1 p2 = some (orderOf p1.bits p2.bits) := by
  unfold routeTablePrefixIterCmp
  by_cases hle : p1.prefixlen ≤ p2.prefixlen
  · rw [if_pos hle, prefixMatch_eq h1]
    dsimp only [Option.bind_eq_bind, Option.bind_some]
    by_cases hpre : p1.bits <+: p2.bits
    · rw [if_pos (decide_eq_true hpre), orderOf]
      by_cases heq : p1.prefixlen = p2.prefixlen
      · have hbits := (prefixlen_eq_iff hpre).mp heq
        rw [if_pos heq, hbits, if_neg (lt_irrefl _), if_pos rfl]
      · obtain ⟨b, hb⟩ := exists_next? hpre (mt (prefixlen_eq_iff hpre).mpr heq)
        rw [if_neg heq, if_pos (lt_of_concat (next?_eq_some.mp hb))]
    · rw [if_neg (Bool.not_eq_true _ ▸ decide_eq_false hpre)]
      refine iterCmpParted_eq h1 h2 hpre fun h => hpre ?_
      rw [h.eq_of_length_le (by rw [length_bits, length_bits]; exact hle)]
  · rw [if_neg hle, prefixMatch_eq h2]
    dsimp only [Option.bind_eq_bind, Option.bind_some]
    have hnot : ¬ p1.bits <+: p2.bits := fun h => hle (bits_prefix_iff.mp h).1
    by_cases hpre : p2.bits <+: p1.bits
    · rw [if_pos (decide_eq_true hpre), orderOf]
      obtain ⟨b, hb⟩ := exists_next? hpre fun h => hnot (h ▸ List.prefix_refl _)
      have hlt := lt_of_concat (next?_eq_some.mp hb)
      rw [if_neg (lt_asymm hlt), if_neg (ne_of_gt hlt)]
    · rw [if_neg (Bool.not_eq_true _ ▸ decide_eq_false hpre)]
      exact iterCmpParted_eq h1 h2 hnot hpre

theorem subtreeNext_spec (ht : Built self (plug ctx (.node a v l r))) :
    self.routeGetSubtreeNext a = some ((later ctx).head?.map Prod.fst) := by
  have hdepth : ctx.length < self.fresh + 1 := by
    have hlen := length_ctx_le ctx (.node a v l r)
    have hle := ht.length_le
    omega
  rw [routeGetSubtreeNext, climbUntil_spec none ht hdepth, within_none]

/-- The node at the place is not on the way: it and what is below it are behind the prefix, or before. -/
theorem parted_spec (hp : p.Valid) (ht : Built self (plug ctx (.node a v l r)))
    (hlow : lower RouteNode.key ctx <+: p.bits) (hnot : ¬ v.p.bits <+: p.bits) :
    ∃ b, ((routeTablePrefixIterCmp v.p p).bind fun cmp => if cmp > 0 then some (self, some a)
        else if cmp < 0 then (self.routeGetSubtreeNext a).map fun next => (self, next) else none) =
          some (self, b) ∧ FirstAfter (plug ctx (.node a v l r)) p.bits b := by
  obtain ⟨hctx, hplace⟩ := ordered_plug.mp ht.ordered
  have hroot : Ordered RouteNode.key v.p.bits (.node a v l r) := ⟨List.prefix_refl _, hplace.2⟩
  have hitems := items_plug ctx (.node a v l r)
  rw [routeTablePrefixIterCmp_eq ht.validAt hp, Option.bind_some, orderOf]
  by_cases hlt : v.p.bits < p.bits
  · refine ⟨(later ctx).head?.map Prod.fst, ?_, firstAfter_of_split ht.ordered hitems ?_ ?_⟩
    · rw [if_pos hlt, if_neg (by decide), if_pos (by decide), subtreeNext_spec ht]
      rfl
    · intro x hx
      rcases List.mem_append.mp hx with hx | hx
      · exact lt_asymm (before_lt hctx hlow hx)
      · exact lt_asymm (lt_of_extends hlt hnot (hroot.low_of_mem hx))
    · intro y hy
      exact lt_later hctx hlow hy
  · have hne : v.p.bits ≠ p.bits := fun h => hnot (h ▸ List.prefix_refl _)
    have hgt := lt_of_le_of_ne (not_lt.mp hlt) hne.symm
    rw [List.append_assoc] at hitems
    refine ⟨some a, ?_, firstAfter_of_split ht.ordered hitems ?_ ?_⟩
    · rw [if_neg hlt, if_neg hne]
      rfl
    · intro x hx
      exact lt_asymm (before_lt hctx hlow hx)
    · intro y hy
      rcases List.mem_append.mp hy with hy | hy
      · exact lt_of_lt_of_le hgt (le_of_extends (hroot.low_of_mem hy))
      · exact lt_later hctx hlow hy

/-- There is nothing on the side where the prefix would be. -/
theorem missing_spec {b : Bool} (ht : Built self (plug ctx (.node a v l r)))
    (hlow : lower RouteNode.key ctx <+: p.bits) (hside : v.p.bits ++ [b] <+: p.bits)
    (hnone : ¬ (AddrTree.child l r b).root.isSome) :
    ∃ next, (if r.root.isSome then some (self, r.root)
        else (self.routeGetSubtreeNext a).map fun next => (self, next)) = some (self, next) ∧
      FirstAfter (plug ctx (.node a v l r)) p.bits next := by
  obtain ⟨hctx, -, hl, hr⟩ := ordered_plug.mp ht.ordered
  have hnil := AddrTree.eq_nil_iff.mpr (Option.not_isSome_iff_eq_none.mp hnone)
  have hfront {x : Nat × RouteNode size ι} (hx : x ∈ before ctx ++ [(a, v)]) : ¬ p.bits < x.2.p.bits := by
    rcases List.mem_append.mp hx with hx | hx
    · exact lt_asymm (before_lt hctx hlow hx)
    · rw [List.mem_singleton.mp hx]
      exact lt_asymm (lt_of_concat hside)
  have hitems := items_at ctx a v l r
  rw [behind, within_none] at hitems
  cases b with
  | false =>
    obtain rfl : l = .nil := hnil
    refine ⟨(r.items ++ later ctx).head?.map Prod.fst, ?_,
      firstAfter_of_split ht.ordered hitems (fun x hx => hfront hx) fun y hy => ?_⟩
    · rw [head_append]
      cases r with
      | nil => exact congrArg (Option.map _) (subtreeNext_spec ht)
      | node c w l' r' => rfl
    · rcases List.mem_append.mp hy with hy | hy
      · exact lt_of_sides hside (hr.low_of_mem hy)
      · exact lt_later hctx hlow hy
  | true =>
    obtain rfl : r = .nil := hnil
    have hsplit : (plug ctx (.node a v l .nil)).items =
        (before ctx ++ [(a, v)] ++ l.items) ++ later ctx := by
      rw [hitems, List.append_assoc _ l.items]
      rfl
    refine ⟨(later ctx).head?.map Prod.fst, congrArg (Option.map _) (subtreeNext_spec ht),
      firstAfter_of_split ht.ordered hsplit (fun x hx => ?_) fun y hy => lt_later hctx hlow hy⟩
    rcases List.mem_append.mp hx with hx | hx
    · exact hfront hx
    · exact lt_asymm (lt_of_sides (hl.low_of_mem hx) hside)

/-- The loop of `route_table_get_next_internal` ends at the first node behind the prefix. -/
theorem getNextLoop_spec (hp : p.Valid) (hk : Kept self (plug ctx t)) (hspare : Spare (plug ctx t))
    (hlow : lower RouteNode.key ctx <+: p.bits) (hturns : t.addrs.length < turns)
    (hstart : t = .nil → ctx = []) :
    ∃ b, self.getNextLoop p turns t.root = some (self, b) ∧ FirstAfter (plug ctx t) p.bits b := by
  induction t generalizing ctx turns with
  | nil =>
    cases turns with
    | zero => exact absurd hturns (Nat.not_lt_zero _)
    | succ turns =>
      obtain rfl := hstart rfl
      exact ⟨none, rfl, fun x hx => absurd hx List.not_mem_nil⟩
  | node a v l r ihl ihr =>
    cases turns with
    | zero => exact absurd hturns (Nat.not_lt_zero _)
    | succ turns =>
      have ht := hk.built
      obtain ⟨hctx, hplace⟩ := ordered_plug.mp ht.ordered
      have hroot : Ordered RouteNode.key v.p.bits (.node a v l r) := ⟨List.prefix_refl _, hplace.2⟩
      unfold getNextLoop AddrTree.root
      dsimp only
      rw [ht.read]
      dsimp only [Option.bind_eq_bind, Option.bind_some]
      by_cases hlt : v.p.prefixlen < p.prefixlen
      · rw [if_pos hlt, prefixMatch_eq ht.validAt]
        dsimp only [Option.bind_some]
        by_cases hpre : v.p.bits <+: p.bits
        · obtain ⟨b, hb⟩ := exists_next? hpre fun h => Nat.ne_of_lt hlt ((prefixlen_eq_iff hpre).mpr h)
          have hside : v.p.bits ++ [b] <+: p.bits := next?_eq_some.mp hb
          rw [if_pos (decide_eq_true hpre), if_neg (Nat.ne_of_lt hlt), if_neg (Nat.lt_asymm hlt),
            prefixBit_of_concat hp hside]
          dsimp only [Option.bind_some]
          rw [link_child]
          by_cases hsome : (AddrTree.child l r b).root.isSome
          · rw [if_pos hsome]
            have hlen : (AddrTree.child l r b).addrs.length < turns :=
              Nat.lt_of_lt_of_le (length_child_lt b) (Nat.le_of_lt_succ hturns)
            have hne : AddrTree.child l r b = .nil → AddrTree.frame a v l r b :: ctx = [] := by
              intro h
              rw [h] at hsome
              cases hsome
            rw [← plug_frame b] at hk hspare ⊢
            cases b with
            | false => exact ihl hk hspare hside hlen hne
            | true => exact ihr hk hspare hside hlen hne
          · rw [if_neg hsome]
            exact missing_spec ht hlow hside hsome
        · rw [if_neg (Bool.not_eq_true _ ▸ decide_eq_false hpre)]
          exact parted_spec hp ht hlow hpre
      · rw [if_neg hlt, prefixMatch_eq hp]
        dsimp only [Option.bind_some]
        by_cases hpre : p.bits <+: v.p.bits
        · rw [if_pos (decide_eq_true hpre)]
          by_cases heq : v.p.prefixlen = p.prefixlen
          · rw [if_pos heq, nextOf_spec hk hspare, (prefixlen_eq_iff hpre).mp heq.symm]
            exact ⟨_, rfl, firstAfter_behind ht.ordered⟩
          · have hgt : v.p.prefixlen > p.prefixlen := lt_of_le_of_ne (not_lt.mp hlt) (Ne.symm heq)
            rw [if_neg heq, if_pos hgt]
            obtain ⟨b, hb⟩ := exists_next? hpre fun h =>
              heq ((prefixlen_eq_iff hpre).mpr h).symm
            have hitems := items_plug ctx (.node a v l r)
            rw [List.append_assoc] at hitems
            refine ⟨some a, rfl, firstAfter_of_split ht.ordered hitems ?_ ?_⟩
            · intro x hx
              exact lt_asymm (before_lt hctx hlow hx)
            · intro y hy
              rcases List.mem_append.mp hy with hy | hy
              · exact lt_of_lt_of_le (lt_of_concat (next?_eq_some.mp hb))
                  (le_of_extends (hroot.low_of_mem hy))
              · exact lt_later hctx hlow hy
        · rw [if_neg (Bool.not_eq_true _ ▸ decide_eq_false hpre)]
          refine parted_spec hp ht hlow fun h => hpre ?_
          rw [h.eq_of_length_le (by rw [length_bits, length_bits]; exact not_lt.mp hlt)]

/-- `route_table_get_next` locks the first node behind the prefix. -/
theorem routeTableGetNext_spec (hp : p.Valid) (hk : Kept self t) (hspare : Spare t) :
    (self.routeTableGetNext p = some (self, none) ∧ FirstAfter t p.bits none) ∨
      ∃ ctx a v l r self', t = plug ctx (.node a v l r) ∧ FirstAfter t p.bits (some a) ∧
        self.routeTableGetNext p = some (self', some a) ∧
        Kept self' (plug ctx (.node a { v with lock := v.lock + 1 } l r)) := by
  obtain ⟨b, hloop, hafter⟩ := getNextLoop_spec hp (show Kept self (plug [] t) from hk) hspare
    List.nil_prefix (Nat.lt_succ_of_le hk.built.length_le) fun _ => rfl
  rw [← hk.built.rep.top_eq] at hloop
  change FirstAfter t p.bits b at hafter
  unfold routeTableGetNext
  rw [hloop]
  dsimp only [Option.bind_eq_bind, Option.bind_some]
  cases b with
  | none => exact .inl ⟨rfl, hafter⟩
  | some a =>
    obtain ⟨v, hmem, hlt, -⟩ := id hafter
    obtain ⟨ctx, l, r, rfl⟩ := exists_place hmem
    obtain ⟨self', hlock, hkept, -⟩ := lock_spec hk.reached (hspare _ hmem)
    refine .inr ⟨ctx, a, v, l, r, self', rfl, hafter, ?_, hkept⟩
    dsimp only
    rw [hk.built.read]
    dsimp only [Option.bind_some]
    rw [routeTablePrefixIterCmp_eq hk.built.validAt hp, orderOf, if_neg (lt_asymm hlt),
      if_neg (ne_of_gt hlt)]
    exact congrArg (Option.map _) hlock

end RouteTable

end SrxSuite.Quagga.Radix

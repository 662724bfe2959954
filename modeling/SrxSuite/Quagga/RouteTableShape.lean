import Mathlib.Data.List.Perm.Subperm
import SrxSuite.Quagga.RouteTable

/-!
# The routing table as a prefix tree

A table is `Built` when its nodes are linked as a prefix tree. The loops of the lookups end at the place of
the prefix in this tree (`getLoop_spec`, `matchLoop_spec`).
-/

namespace SrxSuite.Quagga.Radix

open ParentTree PrefixTree PrefixLemmas

variable {size : Nat} {ι : Type}

def RouteNode.key (v : RouteNode size ι) : List Bool := v.p.bits

/-- The node is not locked. -/
def RouteNode.Bare (v : RouteNode size ι) : Prop := v.lock = 0

namespace RouteTable

/-- The table is linked as `t`, a prefix tree. -/
structure Built (table : RouteTable size ι) (t : AddrTree (RouteNode size ι)) : Prop where
  rep : Represents table.nodes table.top t
  ordered : Ordered RouteNode.key [] t
  valid : ∀ x ∈ t.items, x.2.p.Valid
  bound : ∀ a ∈ t.addrs, a < table.fresh

variable {self : RouteTable size ι} {t l r : AddrTree (RouteNode size ι)} {p n : Prefix size}
  {ctx : List (Frame (RouteNode size ι))} {a turns : Nat} {v w : RouteNode size ι}
  {low : List Bool} {parent : Option Nat}

/-! ## Prefixes -/

theorem covers_eq (hn : n.Valid) : covers n p = some (decide (n.bits <+: p.bits)) := by
  unfold covers
  split
  · exact prefixMatch_eq hn
  next hlong =>
    rw [decide_eq_false fun h => hlong (bits_prefix_iff.mp h).1]

theorem prefixlen_eq_iff (hpre : n.bits <+: p.bits) : n.prefixlen = p.prefixlen ↔ n.bits = p.bits := by
  rw [← length_bits n, ← length_bits p]
  exact ⟨hpre.eq_of_length, congrArg List.length⟩

theorem prefixBit_of_concat (hp : p.Valid) {b : Bool} (h : n.bits ++ [b] <+: p.bits) :
    prefixBit p.bytes n.prefixlen = some b := by
  have hvalid : p.prefixlen ≤ 8 * size := hp
  have hlt : n.prefixlen < p.prefixlen := by
    have hlen := h.length_le
    rw [List.length_append, length_bits, length_bits] at hlen
    exact hlen
  rw [prefixBit_eq p.bytes (by omega)]
  have htake : (List.range n.prefixlen).map (bitAt p.bytes) = n.bits := by
    rw [← take_bits p (Nat.le_of_lt hlt)]
    exact (length_bits n ▸ List.prefix_iff_eq_take.mp (prefix_of_concat h)).symm
  exact congrArg some (concat_prefix_inj (htake ▸ bits_concat hlt) h)

/-! ## Built tables -/

theorem built_initial : Built (RouteTable.initial : RouteTable size ι) .nil where
  rep := represents_empty
  ordered := trivial
  valid := fun _ h => absurd h List.not_mem_nil
  bound := fun _ h => absurd h List.not_mem_nil

theorem Built.length_le (ht : Built self t) : t.addrs.length ≤ self.fresh := by
  have hsub : t.addrs ⊆ List.range self.fresh := fun a ha => List.mem_range.mpr (ht.bound a ha)
  have hlen := (List.Nodup.subperm ht.rep.nodup hsub).length_le
  rwa [List.length_range] at hlen

theorem Built.read (ht : Built self (plug ctx (.node a v l r))) :
    self.nodes a = some ⟨up ctx, l.root, r.root, v⟩ := ht.rep.read

theorem Built.validAt (ht : Built self (plug ctx (.node a v l r))) : v.p.Valid :=
  ht.valid (a, v) ((items_place ctx a v l r).mem_iff.mpr List.mem_cons_self)

theorem Built.fresh_none (ht : Built self t) : self.nodes self.fresh = none := by
  by_contra hne
  exact Nat.lt_irrefl _ (ht.bound _ (ht.rep.only _ hne))

/-- Another value with the same prefix. -/
theorem Built.setVal (ht : Built self (plug ctx (.node a v l r))) (hw : w.p = v.p) :
    Built { self with nodes := self.nodes.write a ⟨up ctx, l.root, r.root, w⟩ }
      (plug ctx (.node a w l r)) where
  rep := ht.rep.setVal
  ordered := ordered_setVal ht.ordered (congrArg Prefix.bits hw)
  valid := by
    intro x hx
    rcases List.mem_cons.mp ((items_place ctx a w l r).mem_iff.mp hx) with rfl | hx
    · show w.p.Valid
      rw [hw]
      exact ht.validAt
    · exact ht.valid x ((items_place ctx a v l r).mem_iff.mpr (List.mem_cons_of_mem _ hx))
  bound := by
    intro b hb
    refine ht.bound b ((addrs_plug ctx (.node a v l r)).mem_iff.mpr ?_)
    have hmem := (addrs_plug ctx (.node a w l r)).mem_iff.mp hb
    rw [AddrTree.addrs_node] at hmem ⊢
    exact hmem

/-! ## Looking for a prefix -/

theorem plug_frame (side : Bool) :
    plug (AddrTree.frame a v l r side :: ctx) (AddrTree.child l r side) = plug ctx (.node a v l r) := by
  rw [plug, fill_frame]

theorem link_child (side : Bool) : (⟨parent, l.root, r.root, v⟩ : Node (RouteNode size ι)).link side =
    (AddrTree.child l r side).root := by
  cases side <;> rfl

theorem length_child_lt (side : Bool) :
    (AddrTree.child l r side).addrs.length < (AddrTree.node a v l r).addrs.length := by
  rw [AddrTree.addrs_node, List.length_cons, List.length_append]
  cases side with
  | false => exact Nat.lt_succ_of_le (Nat.le_add_right _ _)
  | true => exact Nat.lt_succ_of_le (Nat.le_add_left _ _)

/-- The loop of `route_node_get` ends at the place of the prefix. -/
theorem getLoop_spec (hp : p.Valid) (ht : Built self (plug ctx t))
    (hlow : lower RouteNode.key ctx <+: p.bits) (hturns : t.addrs.length < turns) :
    ∃ ctx' t' found, plug ctx' t' = plug ctx t ∧ lower RouteNode.key ctx' <+: p.bits ∧
      self.getLoop p turns (up ctx) t.root = some (found, up ctx', t'.root) ∧
      (found = true → ∃ a v l r, t' = .node a v l r ∧ v.p.bits = p.bits) ∧
      (found = false → ∀ a v l r, t' = .node a v l r → ¬ v.p.bits <+: p.bits) := by
  induction t generalizing ctx turns with
  | nil =>
    cases turns with
    | zero => exact absurd hturns (Nat.not_lt_zero _)
    | succ turns =>
      refine ⟨ctx, .nil, false, rfl, hlow, rfl, fun h => Bool.noConfusion h, ?_⟩
      intro _ _ _ _ _ h
      cases h
  | node a v l r ihl ihr =>
    cases turns with
    | zero => exact absurd hturns (Nat.not_lt_zero _)
    | succ turns =>
      have hread := ht.read
      have hvalid := ht.validAt
      unfold getLoop AddrTree.root
      dsimp only
      rw [hread]
      dsimp only [Option.bind_eq_bind, Option.bind_some]
      rw [covers_eq hvalid]
      dsimp only [Option.bind_some]
      by_cases hpre : v.p.bits <+: p.bits
      · rw [if_pos (decide_eq_true hpre)]
        by_cases heq : v.p.prefixlen = p.prefixlen
        · rw [if_pos heq]
          refine ⟨ctx, .node a v l r, true, rfl, hlow, rfl, fun _ => ?_, fun h => Bool.noConfusion h⟩
          exact ⟨a, v, l, r, rfl, (prefixlen_eq_iff hpre).mp heq⟩
        · obtain ⟨b, hb⟩ := exists_next? hpre (mt (prefixlen_eq_iff hpre).mpr heq)
          have hside : v.p.bits ++ [b] <+: p.bits := next?_eq_some.mp hb
          rw [if_neg heq, prefixBit_of_concat hp hside]
          dsimp only [Option.bind_some]
          rw [link_child]
          have hlt : (AddrTree.child l r b).addrs.length < turns :=
            Nat.lt_of_lt_of_le (length_child_lt b) (Nat.le_of_lt_succ hturns)
          rw [← plug_frame b] at ht ⊢
          cases b with
          | false => exact ihl ht hside hlt
          | true => exact ihr ht hside hlt
      · rw [if_neg (Bool.not_eq_true _ ▸ decide_eq_false hpre)]
        refine ⟨ctx, .node a v l r, false, rfl, hlow, rfl, fun h => Bool.noConfusion h, ?_⟩
        rintro _ a' v' l' r' ⟨⟩
        exact hpre

/-- `route_node_lookup` goes the same way. -/
theorem lookupLoop_eq (upper node : Option Nat) : self.lookupLoop p turns node =
    (self.getLoop p turns upper node).bind fun e => match e with
      | (true, _, some node) => (self.nodes node).map fun n => if n.val.info.isSome then some node else none
      | _ => some none := by
  induction turns generalizing upper node with
  | zero => rfl
  | succ turns ih =>
    cases node with
    | none => rfl
    | some node =>
      unfold lookupLoop getLoop
      cases hread : self.nodes node with
      | none => rfl
      | some n =>
        dsimp only [Option.bind_eq_bind, Option.bind_some]
        cases covers n.val.p p with
        | none => rfl
        | some c =>
          cases c with
          | false => rfl
          | true =>
            dsimp only [Option.bind_some]
            rw [if_pos rfl, if_pos rfl]
            split
            · rw [Option.bind_some]
              dsimp only
              rw [hread]
              rfl
            · cases prefixBit p.bytes n.val.p.prefixlen with
              | none => rfl
              | some bit => exact ih (some node) (n.link bit)

/-- The node of `t` with the longest prefix that is one of `p`, among those with an `info`. -/
structure Longest (t : AddrTree (RouteNode size ι)) (p : Prefix size) (x : Nat × RouteNode size ι) :
    Prop where
  mem : x ∈ t.items
  info : x.2.info.isSome
  bits : x.2.p.bits <+: p.bits
  longest : ∀ y ∈ t.items, y.2.info.isSome → y.2.p.bits <+: p.bits → y.2.p.bits <+: x.2.p.bits

/-- No node of `t` has an `info` and a prefix that is one of `p`. -/
def NoMatch (t : AddrTree (RouteNode size ι)) (p : Prefix size) : Prop :=
  ∀ y ∈ t.items, y.2.info.isSome → ¬ y.2.p.bits <+: p.bits

theorem mem_child_or_root (hord : Ordered RouteNode.key low (.node a v l r)) {b : Bool}
    (hside : v.p.bits ++ [b] <+: p.bits) {y : Nat × RouteNode size ι}
    (hy : y ∈ (AddrTree.node a v l r).items) (hpre : y.2.p.bits <+: p.bits) :
    y ∈ (AddrTree.child l r b).items ∨ y = (a, v) := by
  rcases prefix_cases hpre hside with h | h
  · exact .inl ((mem_child hord b).mpr ⟨hy, h⟩)
  · have hroot : Ordered RouteNode.key v.p.bits (.node a v l r) := ⟨List.prefix_refl _, hord.2⟩
    refine .inr (key_inj hord hy List.mem_cons_self ?_)
    exact h.eq_of_length_le (hroot.low_of_mem hy).length_le

/-- Something was found below the root, or there is nothing but the root to be found. -/
theorem longest_or_root (hpre : v.p.bits <+: p.bits) {m found : Option Nat}
    (hfound : (∃ x, Longest (.node a v l r) p x ∧ found = some x.1) ∨
      found = (if v.info.isSome then some a else m) ∧
        ∀ y ∈ (AddrTree.node a v l r).items, y.2.info.isSome → y.2.p.bits <+: p.bits → y = (a, v)) :
    (∃ x, Longest (.node a v l r) p x ∧ found = some x.1) ∨
      (found = m ∧ NoMatch (.node a v l r) p) := by
  rcases hfound with hfound | ⟨rfl, hall⟩
  · exact .inl hfound
  · by_cases hinfo : v.info.isSome
    · rw [if_pos hinfo]
      refine .inl ⟨(a, v), ⟨List.mem_cons_self, hinfo, hpre, fun y hy hyi hyp => ?_⟩, rfl⟩
      rw [hall y hy hyi hyp]
    · rw [if_neg hinfo]
      refine .inr ⟨rfl, fun y hy hyi hyp => ?_⟩
      rw [hall y hy hyi hyp] at hyi
      exact hinfo hyi

/-- The loop of `route_node_match` finds the longest prefix, or it has found none below. -/
theorem matchLoop_spec (hp : p.Valid) (hholds : Holds self.nodes parent t)
    (hord : Ordered RouteNode.key low t) (hvalid : ∀ x ∈ t.items, x.2.p.Valid)
    (hturns : t.addrs.length < turns) (m : Option Nat) :
    ∃ found, self.matchLoop p turns t.root m = some found ∧
      ((∃ x, Longest t p x ∧ found = some x.1) ∨ (found = m ∧ NoMatch t p)) := by
  induction t generalizing parent low turns m with
  | nil =>
    cases turns with
    | zero => exact absurd hturns (Nat.not_lt_zero _)
    | succ turns => exact ⟨m, rfl, .inr ⟨rfl, fun y hy => absurd hy List.not_mem_nil⟩⟩
  | node a v l r ihl ihr =>
    cases turns with
    | zero => exact absurd hturns (Nat.not_lt_zero _)
    | succ turns =>
      have hroot : Ordered RouteNode.key v.p.bits (.node a v l r) := ⟨List.prefix_refl _, hord.2⟩
      unfold matchLoop AddrTree.root
      dsimp only
      rw [hholds.1]
      dsimp only [Option.bind_eq_bind, Option.bind_some]
      rw [covers_eq (hvalid (a, v) List.mem_cons_self)]
      dsimp only [Option.bind_some]
      by_cases hpre : v.p.bits <+: p.bits
      · rw [if_pos (decide_eq_true hpre)]
        by_cases heq : v.p.prefixlen = p.prefixlen
        · rw [if_pos heq]
          refine ⟨_, rfl, longest_or_root hpre (.inr ⟨rfl, fun y hy _ hyp => ?_⟩)⟩
          have hbits := (prefixlen_eq_iff hpre).mp heq
          rw [← hbits] at hyp
          exact key_inj hord hy List.mem_cons_self
            (hyp.eq_of_length_le (hroot.low_of_mem hy).length_le)
        · obtain ⟨b, hb⟩ := exists_next? hpre (mt (prefixlen_eq_iff hpre).mpr heq)
          have hside : v.p.bits ++ [b] <+: p.bits := next?_eq_some.mp hb
          rw [if_neg heq, prefixBit_of_concat hp hside]
          dsimp only [Option.bind_some]
          rw [link_child]
          have hlt : (AddrTree.child l r b).addrs.length < turns :=
            Nat.lt_of_lt_of_le (length_child_lt b) (Nat.le_of_lt_succ hturns)
          have hchild (x : Nat × RouteNode size ι) (hx : x ∈ (AddrTree.child l r b).items) :
              x ∈ (AddrTree.node a v l r).items := ((mem_child hord b).mp hx).1
          have hih : ∃ found, self.matchLoop p turns (AddrTree.child l r b).root
                (if v.info.isSome then some a else m) = some found ∧
              ((∃ x, Longest (AddrTree.child l r b) p x ∧ found = some x.1) ∨
                (found = (if v.info.isSome then some a else m) ∧ NoMatch (AddrTree.child l r b) p)) := by
            have hvalid' : ∀ x ∈ (AddrTree.child l r b).items, x.2.p.Valid := fun x hx =>
              hvalid x (hchild x hx)
            cases b with
            | false => exact ihl hholds.2.1 hord.2.1 hvalid' hlt _
            | true => exact ihr hholds.2.2 hord.2.2 hvalid' hlt _
          obtain ⟨found, hfound, hcase⟩ := hih
          refine ⟨found, hfound, longest_or_root hpre ?_⟩
          rcases hcase with ⟨x, hx, rfl⟩ | ⟨rfl, hno⟩
          · refine .inl ⟨x, ⟨hchild x hx.mem, hx.info, hx.bits, fun y hy hyi hyp => ?_⟩, rfl⟩
            rcases mem_child_or_root hord hside hy hyp with hy | rfl
            · exact hx.longest y hy hyi hyp
            · exact hroot.low_of_mem (hchild x hx.mem)
          · refine .inr ⟨rfl, fun y hy hyi hyp => ?_⟩
            rcases mem_child_or_root hord hside hy hyp with hy | rfl
            · exact absurd hyp (hno y hy hyi)
            · rfl
      · rw [if_neg (Bool.not_eq_true _ ▸ decide_eq_false hpre)]
        exact ⟨m, rfl, .inr ⟨rfl, fun y hy _ hyp => hpre ((hroot.low_of_mem hy).trans hyp)⟩⟩

end RouteTable

end SrxSuite.Quagga.Radix

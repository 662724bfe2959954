import Mathlib.Data.Bool.Basic
import Mathlib.Data.List.Infix
import Mathlib.Data.List.Lex
import SrxSuite.Lib.ParentTree

/-!
# Path-compressed prefix trees

A binary tree is a prefix tree for the keys of its values, words of bits, when the keys below a node
extend its key, on the left by a 0 and on the right by a 1 (`Ordered`). The nodes are then in the order
of their keys (`pairwise_keys`), and what is at a place or below it is known by the place
(`below_place`).

`Tidy` trees have two subtrees below every node that is there for no other reason. The keys of such a
tree are those of the other nodes and the words at which two of these part (`mem_keys_iff`), and the tree
is determined by them (`Alike.of_paired`).
-/

namespace PrefixTree

open ParentTree

/-! ## Words of bits -/

section Words

variable {u v k : List Bool} {b : Bool}

/-- The bit of `k` behind `u`, if `u` is a proper prefix of `k`. -/
def next? (u k : List Bool) : Option Bool := if u <+: k then k[u.length]? else none

theorem next?_eq_some : next? u k = some b ↔ u ++ [b] <+: k := by
  unfold next?
  constructor
  · intro h
    split at h
    next hpre =>
      obtain ⟨w, rfl⟩ := hpre
      rw [List.getElem?_append_right (Nat.le_refl _), Nat.sub_self] at h
      cases w with
      | nil => cases h
      | cons c w =>
        obtain rfl : c = b := Option.some.inj h
        exact ⟨w, by rw [List.append_assoc]; rfl⟩
    · cases h
  · rintro ⟨w, rfl⟩
    rw [List.append_assoc, if_pos (List.prefix_append u _),
      List.getElem?_append_right (Nat.le_refl _), Nat.sub_self]
    rfl

theorem next?_eq_none : next? u k = none ↔ ¬ u <+: k ∨ u = k := by
  constructor
  · intro h
    by_cases hpre : u <+: k
    · refine .inr ?_
      obtain ⟨w, rfl⟩ := hpre
      cases w with
      | nil => exact (List.append_nil u).symm
      | cons b w =>
        rw [next?_eq_some.mpr ⟨w, by rw [List.append_assoc]; rfl⟩] at h
        cases h
    · exact .inl hpre
  · rintro (hnot | rfl)
    · exact if_neg hnot
    · rw [next?, if_pos (List.prefix_refl u), List.getElem?_eq_none (Nat.le_refl _)]

theorem prefix_of_concat (h : u ++ [b] <+: k) : u <+: k := (List.prefix_append u [b]).trans h

theorem not_concat (u : List Bool) (b : Bool) : ¬ u ++ [b] <+: u := by
  intro h
  have hlen := h.length_le
  rw [List.length_append] at hlen
  exact Nat.not_succ_le_self _ hlen

theorem concat_prefix_inj {b c : Bool} (hb : u ++ [b] <+: k) (hc : u ++ [c] <+: k) : b = c :=
  Option.some.inj ((next?_eq_some.mpr hb).symm.trans (next?_eq_some.mpr hc))

/-- A prefix of a word is below the bit behind `u`, or no longer than `u`. -/
theorem prefix_cases (hv : v <+: k) (hu : u ++ [b] <+: k) : u ++ [b] <+: v ∨ v <+: u := by
  rcases List.prefix_or_prefix_of_prefix hv hu with h | h
  · rcases List.prefix_concat_iff.mp h with rfl | h
    · exact .inl (List.prefix_refl _)
    · exact .inr h
  · exact .inl h

theorem lt_of_concat (h : u ++ [b] <+: k) : u < k := by
  obtain ⟨w, rfl⟩ := h
  rw [List.append_assoc]
  have hlt : u ++ [] < u ++ b :: w := List.append_left_lt (List.nil_lt_cons b w)
  rwa [List.append_nil] at hlt

theorem lt_of_sides (hu : u ++ [false] <+: v) (hk : u ++ [true] <+: k) : v < k := by
  obtain ⟨w, rfl⟩ := hu
  obtain ⟨x, rfl⟩ := hk
  rw [List.append_assoc, List.append_assoc]
  exact List.append_left_lt (List.cons_lt_cons_iff.mpr (.inl rfl))

/-- The longest common prefix. -/
def common : List Bool → List Bool → List Bool
  | b :: u, c :: v => if b = c then b :: common u v else []
  | _, _ => []

theorem common_prefix_left (u v : List Bool) : common u v <+: u := by
  induction u generalizing v with
  | nil => exact List.nil_prefix
  | cons b u ih =>
    cases v with
    | nil => exact List.nil_prefix
    | cons c v =>
      unfold common
      split
      · exact List.cons_prefix_cons.mpr ⟨rfl, ih v⟩
      · exact List.nil_prefix

theorem common_comm (u v : List Bool) : common u v = common v u := by
  induction u generalizing v with
  | nil => cases v <;> rfl
  | cons b u ih =>
    cases v with
    | nil => rfl
    | cons c v =>
      unfold common
      split
      next heq => rw [if_pos heq.symm, ih, heq]
      next hne => rw [if_neg (Ne.symm hne)]

theorem common_prefix_right (u v : List Bool) : common u v <+: v :=
  common_comm v u ▸ common_prefix_left v u

theorem prefix_common (hu : k <+: u) (hv : k <+: v) : k <+: common u v := by
  induction k generalizing u v with
  | nil => exact List.nil_prefix
  | cons b k ih =>
    obtain ⟨w, rfl⟩ := hu
    obtain ⟨x, rfl⟩ := hv
    simp only [List.cons_append, common, if_pos]
    exact List.cons_prefix_cons.mpr ⟨rfl, ih (List.prefix_append k w) (List.prefix_append k x)⟩

theorem exists_next? (h : u <+: k) (hne : u ≠ k) : ∃ b, next? u k = some b := by
  cases hnext : next? u k with
  | none =>
    rcases next?_eq_none.mp hnext with hnot | heq
    · exact absurd h hnot
    · exact absurd heq hne
  | some b => exact ⟨b, rfl⟩

/-- A common prefix behind which the words part, or one of them ends, is the longest one. -/
theorem eq_common (hu : k <+: u) (hv : k <+: v) (hpart : ∀ b, next? k u = some b → next? k v ≠ some b) :
    k = common u v := by
  by_contra hne
  obtain ⟨b, hb⟩ := exists_next? (prefix_common hu hv) hne
  have hpre := next?_eq_some.mp hb
  exact hpart b (next?_eq_some.mpr (hpre.trans (common_prefix_left u v)))
    (next?_eq_some.mpr (hpre.trans (common_prefix_right u v)))

end Words

/-! ## Ordered trees -/

variable {α α' : Type} (key : α → List Bool)

/-- The keys extend `low`, and below a node its key and the bit of the side. -/
def Ordered : (low : List Bool) → AddrTree α → Prop
  | _, .nil => True
  | low, .node _ v l r =>
    low <+: key v ∧ Ordered (key v ++ [false]) l ∧ Ordered (key v ++ [true]) r

def keys (t : AddrTree α) : List (List Bool) := t.items.map fun x => key x.2

/-- What the keys at a place extend. -/
def lower : List (Frame α) → List Bool
  | [] => []
  | f :: _ => key f.val ++ [f.side]

/-- What `Ordered` says of the frames of a place. -/
def OrderedAround : List (Frame α) → Prop
  | [] => True
  | f :: ctx => lower key ctx <+: key f.val ∧ Ordered key (key f.val ++ [!f.side]) f.other ∧
      OrderedAround ctx

variable {key} {low low' k : List Bool} {t : AddrTree α} {ctx : List (Frame α)}

theorem Ordered.mono (ht : Ordered key low t) (hlow : low' <+: low) : Ordered key low' t := by
  cases t with
  | nil => trivial
  | node a v l r => exact ⟨hlow.trans ht.1, ht.2⟩

theorem Ordered.low_of_mem (ht : Ordered key low t) {x : Nat × α} (hx : x ∈ t.items) :
    low <+: key x.2 := by
  induction t generalizing low with
  | nil => cases hx
  | node a v l r ihl ihr =>
    obtain ⟨hlow, hl, hr⟩ := ht
    rcases List.mem_cons.mp hx with rfl | hx
    · exact hlow
    · rcases List.mem_append.mp hx with hx | hx
      · exact hlow.trans (prefix_of_concat (ihl hl hx))
      · exact hlow.trans (prefix_of_concat (ihr hr hx))

/-- The nodes are in the order of their keys. -/
theorem pairwise_keys (ht : Ordered key low t) : (keys key t).Pairwise (· < ·) := by
  induction t generalizing low with
  | nil => exact List.Pairwise.nil
  | node a v l r ihl ihr =>
    obtain ⟨-, hl, hr⟩ := ht
    rw [keys, AddrTree.items, List.map_cons, List.map_append]
    refine List.pairwise_cons.mpr ⟨?_, List.pairwise_append.mpr ⟨ihl hl, ihr hr, ?_⟩⟩
    · intro k hk
      rcases List.mem_append.mp hk with hk | hk
      · obtain ⟨x, hx, rfl⟩ := List.mem_map.mp hk
        exact lt_of_concat (hl.low_of_mem hx)
      · obtain ⟨x, hx, rfl⟩ := List.mem_map.mp hk
        exact lt_of_concat (hr.low_of_mem hx)
    · intro k hk k' hk'
      obtain ⟨x, hx, rfl⟩ := List.mem_map.mp hk
      obtain ⟨y, hy, rfl⟩ := List.mem_map.mp hk'
      exact lt_of_sides (hl.low_of_mem hx) (hr.low_of_mem hy)

theorem key_inj (ht : Ordered key low t) {x y : Nat × α} (hx : x ∈ t.items) (hy : y ∈ t.items)
    (heq : key x.2 = key y.2) : x = y := by
  have hnodup : (keys key t).Nodup := (pairwise_keys ht).imp fun hlt => ne_of_lt hlt
  exact List.inj_on_of_nodup_map hnodup hx hy heq

/-- The nodes on one side of the root. -/
theorem mem_child {a : Nat} {v : α} {l r : AddrTree α} (ht : Ordered key low (.node a v l r)) (side : Bool)
    {x : Nat × α} : x ∈ (AddrTree.child l r side).items ↔
      x ∈ (AddrTree.node a v l r).items ∧ key v ++ [side] <+: key x.2 := by
  obtain ⟨-, hl, hr⟩ := ht
  constructor
  · intro hx
    cases side with
    | false => exact ⟨List.mem_cons_of_mem _ (List.mem_append_left _ hx), hl.low_of_mem hx⟩
    | true => exact ⟨List.mem_cons_of_mem _ (List.mem_append_right _ hx), hr.low_of_mem hx⟩
  · rintro ⟨hx, hpre⟩
    rcases List.mem_cons.mp hx with rfl | hx
    · exact absurd hpre (not_concat _ _)
    · rcases List.mem_append.mp hx with hx | hx
      · obtain rfl := concat_prefix_inj hpre (hl.low_of_mem hx)
        exact hx
      · obtain rfl := concat_prefix_inj hpre (hr.low_of_mem hx)
        exact hx

theorem ordered_fill (f : Frame α) : Ordered key low (f.fill t) ↔
    low <+: key f.val ∧ Ordered key (key f.val ++ [!f.side]) f.other ∧
      Ordered key (key f.val ++ [f.side]) t := by
  unfold Frame.fill
  cases f.side with
  | false => exact and_congr_right fun _ => And.comm
  | true => exact Iff.rfl

theorem ordered_plug :
    Ordered key [] (plug ctx t) ↔ OrderedAround key ctx ∧ Ordered key (lower key ctx) t := by
  induction ctx generalizing t with
  | nil => exact (and_iff_right trivial).symm
  | cons f ctx ih =>
    rw [plug, ih, ordered_fill]
    constructor
    · rintro ⟨hctx, hlow, hother, ht⟩
      exact ⟨⟨hlow, hother, hctx⟩, ht⟩
    · rintro ⟨⟨hlow, hother, hctx⟩, ht⟩
      exact ⟨hctx, hlow, hother, ht⟩

/-! ## The way down for a word -/

/-- The nodes of a place are those of the tree there, of the frames and of the other subtrees. -/
theorem mem_plug {x : Nat × α} : x ∈ (plug ctx t).items ↔
    x ∈ t.items ∨ ∃ f ∈ ctx, x = (f.addr, f.val) ∨ x ∈ f.other.items := by
  induction ctx generalizing t with
  | nil =>
    refine ⟨.inl, ?_⟩
    rintro (h | ⟨f, hf, -⟩)
    · exact h
    · cases hf
  | cons f ctx ih =>
    have hfill : x ∈ (f.fill t).items ↔ x = (f.addr, f.val) ∨ x ∈ f.other.items ∨ x ∈ t.items := by
      unfold Frame.fill
      split
      · rw [AddrTree.items, List.mem_cons, List.mem_append]
      · rw [AddrTree.items, List.mem_cons, List.mem_append, or_comm (a := x ∈ t.items)]
    rw [plug, ih, hfill, List.exists_mem_cons_iff]
    constructor
    · rintro ((h | h | h) | h)
      · exact .inr (.inl (.inl h))
      · exact .inr (.inl (.inr h))
      · exact .inl h
      · exact .inr (.inr h)
    · rintro (h | (h | h) | h)
      · exact .inl (.inr (.inr h))
      · exact .inl (.inl h)
      · exact .inl (.inr (.inl h))
      · exact .inr h

/-- The keys of the frames on the way down for a word are its prefixes, and the other subtrees branch
off. -/
theorem frames_of_lower (hctx : OrderedAround key ctx) (hk : lower key ctx <+: k) {f : Frame α}
    (hf : f ∈ ctx) : key f.val ++ [f.side] <+: k ∧
      Ordered key (key f.val ++ [!f.side]) f.other := by
  induction ctx with
  | nil => cases hf
  | cons g ctx ih =>
    obtain ⟨hlow, hother, hrest⟩ := hctx
    rcases List.mem_cons.mp hf with rfl | hf
    · exact ⟨hk, hother⟩
    · exact ih hrest (hlow.trans (prefix_of_concat hk)) hf

theorem not_side (b : Bool) : b ≠ !b := by
  cases b <;> exact Bool.noConfusion

/-- What extends the word is at the place. -/
theorem below_place (ht : Ordered key [] (plug ctx t)) (hk : lower key ctx <+: k) {x : Nat × α}
    (hx : x ∈ (plug ctx t).items) (hpre : k <+: key x.2) : x ∈ t.items := by
  rcases mem_plug.mp hx with hx | ⟨f, hf, hx⟩
  · exact hx
  · obtain ⟨hside, hother⟩ := frames_of_lower (ordered_plug.mp ht).1 hk hf
    rcases hx with rfl | hx
    · exact absurd (hside.trans hpre) (not_concat _ _)
    · exact absurd (concat_prefix_inj (hside.trans hpre) (hother.low_of_mem hx)) (not_side _)

/-- Where the way down ends before the word, the word is no key. -/
theorem not_mem_of_end (ht : Ordered key [] (plug ctx t)) (hk : lower key ctx <+: k)
    (hend : ∀ a v l r, t = .node a v l r → ¬ key v <+: k) {x : Nat × α}
    (hx : x ∈ (plug ctx t).items) : key x.2 ≠ k := by
  rintro rfl
  have hmem := below_place ht hk hx (List.prefix_refl _)
  cases t with
  | nil => cases hmem
  | node a v l r =>
    have hplace := (ordered_plug.mp ht).2
    have hroot : Ordered key (key v) (.node a v l r) := ⟨List.prefix_refl _, hplace.2⟩
    exact hend a v l r rfl (hroot.low_of_mem hmem)

/-! ## The order of the nodes around a place -/

theorem le_of_extends {u v : List Bool} (h : u <+: v) : u ≤ v := by
  rcases eq_or_ne u v with rfl | hne
  · exact le_refl u
  · obtain ⟨b, hb⟩ := exists_next? h hne
    exact le_of_lt (lt_of_concat (next?_eq_some.mp hb))

/-- What extends a word that is less than `k` and no prefix of it is less, too. -/
theorem lt_of_extends {u v : List Bool} (hlt : u < k) (hnot : ¬ u <+: k) (hv : u <+: v) : v < k := by
  have hne : common u k ≠ u := fun h => hnot (h ▸ common_prefix_right u k)
  obtain ⟨b, hb⟩ := exists_next? (common_prefix_left u k) hne
  have hub := next?_eq_some.mp hb
  have hne' : common u k ≠ k := by
    intro h
    exact lt_asymm hlt (h ▸ lt_of_concat hub)
  obtain ⟨c, hc⟩ := exists_next? (common_prefix_right u k) hne'
  have hkc := next?_eq_some.mp hc
  cases b with
  | false =>
    cases c with
    | false => exact absurd (prefix_common hub hkc) (not_concat _ _)
    | true => exact lt_of_sides (hub.trans hv) hkc
  | true =>
    cases c with
    | false => exact absurd hlt (lt_asymm (lt_of_sides hkc hub))
    | true => exact absurd (prefix_common hub hkc) (not_concat _ _)

theorem before_lt (hctx : OrderedAround key ctx) (hk : lower key ctx <+: k) {x : Nat × α}
    (hx : x ∈ before ctx) : key x.2 < k := by
  induction ctx with
  | nil => cases hx
  | cons f ctx ih =>
    obtain ⟨hlow, hother, hrest⟩ := hctx
    rcases List.mem_append.mp hx with hx | hx
    · exact ih hrest (hlow.trans (prefix_of_concat hk)) hx
    · rcases List.mem_cons.mp hx with rfl | hx
      · exact lt_of_concat hk
      · change key f.val ++ [f.side] <+: k at hk
        cases hside : f.side with
        | false =>
          rw [hside] at hx
          cases hx
        | true =>
          rw [hside] at hx hother hk
          exact lt_of_sides (hother.low_of_mem hx) hk

theorem lt_later (hctx : OrderedAround key ctx) (hk : lower key ctx <+: k) {x : Nat × α}
    (hx : x ∈ later ctx) : k < key x.2 := by
  induction ctx with
  | nil => cases hx
  | cons f ctx ih =>
    obtain ⟨hlow, hother, hrest⟩ := hctx
    rcases List.mem_append.mp hx with hx | hx
    · change key f.val ++ [f.side] <+: k at hk
      cases hside : f.side with
      | false =>
        rw [hside] at hx hother hk
        exact lt_of_sides hk (hother.low_of_mem hx)
      | true =>
        rw [hside] at hx
        cases hx
    · exact ih hrest (hlow.trans (prefix_of_concat hk)) hx

/-! ## Edits -/

/-- A node without children. -/
theorem ordered_leaf (ht : Ordered key [] (plug ctx .nil)) {a : Nat} {w : α}
    (hlow : lower key ctx <+: key w) : Ordered key [] (plug ctx (.node a w .nil .nil)) :=
  ordered_plug.mpr ⟨(ordered_plug.mp ht).1, hlow, trivial, trivial⟩

/-- A node above the place, with another subtree. -/
theorem ordered_above (ht : Ordered key [] (plug ctx t)) {f : Frame α}
    (hlow : lower key ctx <+: key f.val) (hother : Ordered key (key f.val ++ [!f.side]) f.other)
    (hroot : Ordered key (key f.val ++ [f.side]) t) : Ordered key [] (plug ctx (f.fill t)) :=
  ordered_plug.mpr ⟨(ordered_plug.mp ht).1, (ordered_fill f).mpr ⟨hlow, hother, hroot⟩⟩

/-- A place extends what its root extends. -/
theorem Ordered.raise {a : Nat} {v : α} {l r : AddrTree α} (ht : Ordered key low (.node a v l r))
    (hlow : low' <+: key v) : Ordered key low' (.node a v l r) :=
  ⟨hlow, ht.2⟩

/-- The only child in the place of its parent. -/
theorem ordered_child {a : Nat} {v : α} {l r c : AddrTree α}
    (ht : Ordered key [] (plug ctx (.node a v l r))) (hc : c = l ∨ c = r) :
    Ordered key [] (plug ctx c) := by
  obtain ⟨hctx, hlow, hl, hr⟩ := ordered_plug.mp ht
  refine ordered_plug.mpr ⟨hctx, ?_⟩
  rcases hc with rfl | rfl
  · exact hl.mono (hlow.trans (List.prefix_append _ _))
  · exact hr.mono (hlow.trans (List.prefix_append _ _))

/-- Another value with the same key. -/
theorem ordered_setVal {a : Nat} {v w : α} {l r : AddrTree α}
    (ht : Ordered key [] (plug ctx (.node a v l r))) (hkey : key w = key v) :
    Ordered key [] (plug ctx (.node a w l r)) := by
  obtain ⟨hctx, hplace⟩ := ordered_plug.mp ht
  refine ordered_plug.mpr ⟨hctx, ?_⟩
  unfold Ordered at hplace ⊢
  rw [hkey]
  exact hplace

/-! ## Tidy trees -/

variable (bare : α → Prop)

/-- A bare node has two subtrees. -/
def Tidy : AddrTree α → Prop
  | .nil => True
  | .node _ v l r => (bare v → l ≠ .nil ∧ r ≠ .nil) ∧ Tidy l ∧ Tidy r

/-- What `Tidy` says of the frames of a place, which is not empty. -/
def TidyAround (ctx : List (Frame α)) : Prop :=
  ∀ f ∈ ctx, (bare f.val → f.other ≠ .nil) ∧ Tidy bare f.other

variable {bare}

theorem fill_ne_nil (f : Frame α) (t : AddrTree α) : f.fill t ≠ .nil := by
  intro h
  have hroot := f.root_fill t
  rw [h] at hroot
  cases hroot

theorem tidy_fill (f : Frame α) : Tidy bare (f.fill t) ↔
    (bare f.val → f.other ≠ .nil ∧ t ≠ .nil) ∧ Tidy bare f.other ∧ Tidy bare t := by
  unfold Frame.fill
  split
  · exact Iff.rfl
  · show (bare f.val → t ≠ .nil ∧ f.other ≠ .nil) ∧ Tidy bare t ∧ Tidy bare f.other ↔ _
    rw [and_comm (a := t ≠ .nil), and_comm (a := Tidy bare t)]

theorem tidy_plug : Tidy bare (plug ctx t) ↔ TidyAround bare ctx ∧ Tidy bare t ∧
    (t = .nil → ∀ f ctx', ctx = f :: ctx' → ¬ bare f.val) := by
  induction ctx generalizing t with
  | nil =>
    refine ⟨fun ht => ⟨?_, ht, ?_⟩, fun h => h.2.1⟩
    · intro f hf
      cases hf
    · intro _ f ctx' h
      cases h
  | cons f ctx ih =>
    rw [plug, ih, tidy_fill]
    constructor
    · rintro ⟨hctx, ⟨hbare, hother, ht⟩, -⟩
      refine ⟨List.forall_mem_cons.mpr ⟨⟨fun h => (hbare h).1, hother⟩, hctx⟩, ht, ?_⟩
      rintro rfl g ctx' heq hg
      obtain ⟨rfl, -⟩ := List.cons.inj heq
      exact (hbare hg).2 rfl
    · rintro ⟨hctx, ht, hnil⟩
      obtain ⟨⟨hbare, hother⟩, hrest⟩ := List.forall_mem_cons.mp hctx
      refine ⟨hrest, ⟨fun h => ⟨hbare h, fun hn => hnil hn f ctx rfl h⟩, hother, ht⟩, ?_⟩
      intro h
      exact absurd h (fill_ne_nil f t)

/-- Some node of a tidy tree is not bare. -/
theorem exists_not_bare (ht : Tidy bare t) (hne : t ≠ .nil) : ∃ x ∈ t.items, ¬ bare x.2 := by
  induction t with
  | nil => exact absurd rfl hne
  | node a v l r ihl ihr =>
    by_cases hv : bare v
    · obtain ⟨x, hx, hbare⟩ := ihl ht.2.1 (ht.1 hv).1
      exact ⟨x, List.mem_cons_of_mem _ (List.mem_append_left _ hx), hbare⟩
    · exact ⟨(a, v), List.mem_cons_self, hv⟩

/-- Two words of a set part behind `k`. -/
def Parts (held : List Bool → Prop) (k : List Bool) : Prop :=
  ∃ u v, held u ∧ held v ∧ k ++ [false] <+: u ∧ k ++ [true] <+: v

/-- The key of a node that is not bare. -/
def HeldIn (bare : α → Prop) (key : α → List Bool) (t : AddrTree α) (k : List Bool) : Prop :=
  ∃ x ∈ t.items, ¬ bare x.2 ∧ key x.2 = k

theorem heldIn_child {a : Nat} {v : α} {l r : AddrTree α} (ht : Ordered key low (.node a v l r))
    (side : Bool) {u : List Bool} : HeldIn bare key (AddrTree.child l r side) u ↔
      HeldIn bare key (.node a v l r) u ∧ key v ++ [side] <+: u := by
  constructor
  · rintro ⟨x, hx, hbare, rfl⟩
    obtain ⟨hmem, hpre⟩ := (mem_child ht side).mp hx
    exact ⟨⟨x, hmem, hbare, rfl⟩, hpre⟩
  · rintro ⟨⟨x, hx, hbare, rfl⟩, hpre⟩
    exact ⟨x, (mem_child ht side).mpr ⟨hx, hpre⟩, hbare, rfl⟩

/-- The keys are those of the nodes that are not bare and the words at which two of these part. -/
theorem mem_keys_iff (ht : Ordered key low t) (htidy : Tidy bare t) :
    k ∈ keys key t ↔ HeldIn bare key t k ∨ Parts (HeldIn bare key t) k := by
  induction t generalizing low with
  | nil =>
    refine ⟨fun h => ?_, ?_⟩
    · cases h
    · rintro (⟨x, hx, -⟩ | ⟨u, v, ⟨x, hx, -⟩, -⟩) <;> cases hx
  | node a v l r ihl ihr =>
    have hroot : Ordered key (key v) (.node a v l r) := ⟨List.prefix_refl _, ht.2⟩
    have hheld {u : List Bool} (hu : HeldIn bare key (.node a v l r) u) : key v <+: u := by
      obtain ⟨x, hx, -, rfl⟩ := hu
      exact hroot.low_of_mem hx
    have hchild (side : Bool) : k ∈ keys key (AddrTree.child l r side) ↔
        HeldIn bare key (AddrTree.child l r side) k ∨ Parts (HeldIn bare key (AddrTree.child l r side)) k := by
      cases side with
      | false => exact ihl ht.2.1 htidy.2.1
      | true => exact ihr ht.2.2 htidy.2.2
    have hk : k ∈ keys key (.node a v l r) ∨ HeldIn bare key (.node a v l r) k ∨
        Parts (HeldIn bare key (.node a v l r)) k → key v <+: k := by
      rintro (h | h | ⟨u, w, hu, hw, hpu, hpw⟩)
      · obtain ⟨x, hx, rfl⟩ := List.mem_map.mp h
        exact hroot.low_of_mem hx
      · exact hheld h
      · rcases prefix_cases (hheld hu) hpu with h | h
        · rcases prefix_cases (hheld hw) hpw with h' | h'
          · exact Bool.noConfusion (concat_prefix_inj h h')
          · exact h'
        · exact h
    cases hnext : next? (key v) k with
    | none =>
      rcases next?_eq_none.mp hnext with hnot | rfl
      · exact iff_of_false (fun h => hnot (hk (.inl h))) fun h => hnot (hk (.inr h))
      · refine iff_of_true List.mem_cons_self ?_
        by_cases hv : bare v
        · obtain ⟨x, hx, hxb⟩ := exists_not_bare htidy.2.1 (htidy.1 hv).1
          obtain ⟨y, hy, hyb⟩ := exists_not_bare htidy.2.2 (htidy.1 hv).2
          obtain ⟨hheldx, hprex⟩ := (heldIn_child ht false).mp ⟨x, hx, hxb, rfl⟩
          obtain ⟨hheldy, hprey⟩ := (heldIn_child ht true).mp ⟨y, hy, hyb, rfl⟩
          exact .inr ⟨key x.2, key y.2, hheldx, hheldy, hprex, hprey⟩
        · exact .inl ⟨(a, v), List.mem_cons_self, hv, rfl⟩
    | some side =>
      have hside := next?_eq_some.mp hnext
      have hkeys : k ∈ keys key (AddrTree.child l r side) ↔ k ∈ keys key (.node a v l r) := by
        constructor
        · intro h
          obtain ⟨x, hx, rfl⟩ := List.mem_map.mp h
          exact List.mem_map_of_mem ((mem_child ht side).mp hx).1
        · intro h
          obtain ⟨x, hx, rfl⟩ := List.mem_map.mp h
          exact List.mem_map_of_mem ((mem_child ht side).mpr ⟨hx, hside⟩)
      rw [← hkeys, hchild side, heldIn_child ht side, and_iff_left hside]
      refine or_congr_right ?_
      constructor
      · rintro ⟨u, w, hu, hw, hpre⟩
        exact ⟨u, w, ((heldIn_child ht side).mp hu).1, ((heldIn_child ht side).mp hw).1, hpre⟩
      · rintro ⟨u, w, hu, hw, hpu, hpw⟩
        exact ⟨u, w, (heldIn_child ht side).mpr ⟨hu, hside.trans (prefix_of_concat hpu)⟩,
          (heldIn_child ht side).mpr ⟨hw, hside.trans (prefix_of_concat hpw)⟩, hpu, hpw⟩

/-! ## Trees of one shape -/

/-- Trees of one shape with related values. -/
def Alike (R : α → α' → Prop) : AddrTree α → AddrTree α' → Prop
  | .nil, .nil => True
  | .node _ v l r, .node _ v' l' r' => R v v' ∧ Alike R l l' ∧ Alike R r r'
  | _, _ => False

/-- Every node of the one tree has its like in the other one. -/
def Paired (R : α → α' → Prop) (t : AddrTree α) (t' : AddrTree α') : Prop :=
  (∀ x ∈ t.items, ∃ x' ∈ t'.items, R x.2 x'.2) ∧ ∀ x' ∈ t'.items, ∃ x ∈ t.items, R x.2 x'.2

/-- Ordered trees with the same keys and related values have one shape. -/
theorem Alike.of_paired {key' : α' → List Bool} {R : α → α' → Prop}
    (hR : ∀ v v', R v v' → key v = key' v') {t' : AddrTree α'} (ht : Ordered key low t)
    (ht' : Ordered key' low' t') (h : Paired R t t') : Alike R t t' := by
  induction t generalizing t' low low' with
  | nil =>
    cases t' with
    | nil => trivial
    | node a v l r =>
      obtain ⟨x, hx, -⟩ := h.2 (a, v) List.mem_cons_self
      cases hx
  | node a v l r ihl ihr =>
    cases t' with
    | nil =>
      obtain ⟨x, hx, -⟩ := h.1 (a, v) List.mem_cons_self
      cases hx
    | node a' v' l' r' =>
      have hall : Ordered key (key v) (.node a v l r) := ⟨List.prefix_refl _, ht.2⟩
      have hall' : Ordered key' (key' v') (.node a' v' l' r') := ⟨List.prefix_refl _, ht'.2⟩
      obtain ⟨x', hx', hRx'⟩ := h.1 (a, v) List.mem_cons_self
      have hroot : key v = key' v' := by
        obtain ⟨x, hx, hRx⟩ := h.2 (a', v') List.mem_cons_self
        have h₁ : key' v' <+: key v := hR v _ hRx' ▸ hall'.low_of_mem hx'
        have h₂ : key v <+: key' v' := hR _ v' hRx ▸ hall.low_of_mem hx
        exact h₂.eq_of_length_le h₁.length_le
      have hself : x' = (a', v') :=
        key_inj ht' hx' List.mem_cons_self ((hR v _ hRx').symm.trans hroot)
      have hchild (side : Bool) : Paired R (AddrTree.child l r side) (AddrTree.child l' r' side) := by
        constructor
        · intro x hx
          obtain ⟨hmem, hpre⟩ := (mem_child ht side).mp hx
          obtain ⟨y, hy, hRy⟩ := h.1 x hmem
          refine ⟨y, (mem_child ht' side).mpr ⟨hy, ?_⟩, hRy⟩
          rw [← hroot, ← hR _ _ hRy]
          exact hpre
        · intro y hy
          obtain ⟨hmem, hpre⟩ := (mem_child ht' side).mp hy
          obtain ⟨x, hx, hRx⟩ := h.2 y hmem
          refine ⟨x, (mem_child ht side).mpr ⟨hx, ?_⟩, hRx⟩
          rw [hroot, hR _ _ hRx]
          exact hpre
      subst hself
      exact ⟨hRx', ihl ht.2.1 ht'.2.1 (hchild false), ihr ht.2.2 ht'.2.2 (hchild true)⟩

end PrefixTree

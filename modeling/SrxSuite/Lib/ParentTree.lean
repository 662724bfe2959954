import Mathlib.Data.List.Nodup
import Mathlib.Logic.Function.Basic

/-!
# Binary trees with parent links in a heap

A heap maps addresses to nodes with a link to the parent, two links to children and a value.
`Holds h parent t` says that the nodes of the tree `t` are in the heap, linked in all directions.

The edits of a tree are made at a place in it. A place is a tree under a list of frames, the way up to
the root; `plug` puts the two together and `Around` says of the frames what `Holds` says of the tree
(`holds_plug`). A tree at a place is exchanged by `Represents.replace`.
-/

namespace ParentTree

variable {α : Type}

/-- A node with its links. -/
structure Node (α : Type) where
  parent : Option Nat
  left : Option Nat
  right : Option Nat
  val : α
  deriving DecidableEq

namespace Node

def link (n : Node α) (side : Bool) : Option Nat := if side then n.right else n.left

def setLink (n : Node α) (side : Bool) (ptr : Option Nat) : Node α :=
  if side then { n with right := ptr } else { n with left := ptr }

end Node

abbrev Heap (α : Type) := Nat → Option (Node α)

namespace Heap

/-- Write a node. -/
def write (h : Heap α) (a : Nat) (n : Node α) : Heap α := Function.update h a (some n)

/-- Free a node. -/
def free (h : Heap α) (a : Nat) : Heap α := Function.update h a none

@[simp] theorem write_same (h : Heap α) (a : Nat) (n : Node α) : h.write a n a = some n :=
  Function.update_self ..

theorem write_of_ne (h : Heap α) {a b : Nat} (n : Node α) (hne : b ≠ a) : h.write a n b = h b :=
  Function.update_of_ne hne ..

@[simp] theorem free_same (h : Heap α) (a : Nat) : h.free a a = none := Function.update_self ..

theorem free_of_ne (h : Heap α) {a b : Nat} (hne : b ≠ a) : h.free a b = h b :=
  Function.update_of_ne hne ..

end Heap

/-! ## Trees -/

/-- A tree with the addresses of its nodes. -/
inductive AddrTree (α : Type)
  | nil
  | node (addr : Nat) (val : α) (left right : AddrTree α)

namespace AddrTree

/-- The pointer to a tree. -/
def root : AddrTree α → Option Nat
  | nil => none
  | node a .. => some a

/-- The nodes, each before its subtrees and the left subtree before the right one. -/
def items : AddrTree α → List (Nat × α)
  | nil => []
  | node a v l r => (a, v) :: (l.items ++ r.items)

def addrs (t : AddrTree α) : List Nat := t.items.map Prod.fst

@[simp] theorem addrs_nil : (nil : AddrTree α).addrs = [] := rfl

@[simp] theorem addrs_node (a : Nat) (v : α) (l r : AddrTree α) :
    (node a v l r).addrs = a :: (l.addrs ++ r.addrs) := by
  rw [addrs, items, List.map_cons, List.map_append]
  rfl

/-- The subtree on one side. -/
def child (l r : AddrTree α) (side : Bool) : AddrTree α := if side then r else l

theorem root_mem {t : AddrTree α} {a : Nat} (h : t.root = some a) : a ∈ t.addrs := by
  cases t with
  | nil => cases h
  | node b v l r =>
    obtain rfl := Option.some.inj h
    rw [addrs_node]
    exact List.mem_cons_self

theorem eq_nil_iff {t : AddrTree α} : t = nil ↔ t.root = none := by
  cases t with
  | nil => exact iff_of_true rfl rfl
  | node a v l r =>
    refine iff_of_false ?_ (Option.some_ne_none a)
    intro h
    cases h

end AddrTree

/-- The nodes of the tree are in the heap; `parent` is the parent of its root. -/
def Holds (h : Heap α) : (parent : Option Nat) → AddrTree α → Prop
  | _, .nil => True
  | parent, .node a v l r =>
    h a = some ⟨parent, l.root, r.root, v⟩ ∧ Holds h (some a) l ∧ Holds h (some a) r

variable {h h' : Heap α} {parent : Option Nat} {t t' : AddrTree α}

theorem Holds.congr (ht : Holds h parent t) (heq : ∀ a ∈ t.addrs, h' a = h a) : Holds h' parent t := by
  induction t generalizing parent with
  | nil => trivial
  | node a v l r ihl ihr =>
    obtain ⟨hn, hl, hr⟩ := ht
    rw [AddrTree.addrs_node] at heq
    refine ⟨(heq a List.mem_cons_self).trans hn, ihl hl fun b hb => heq b ?_,
      ihr hr fun b hb => heq b ?_⟩
    · exact List.mem_cons_of_mem _ (List.mem_append_left _ hb)
    · exact List.mem_cons_of_mem _ (List.mem_append_right _ hb)

theorem Holds.write {a : Nat} {n : Node α} (ht : Holds h parent t) (ha : a ∉ t.addrs) :
    Holds (h.write a n) parent t :=
  ht.congr fun _ hb => h.write_of_ne n (ne_of_mem_of_not_mem hb ha)

theorem Holds.free {a : Nat} (ht : Holds h parent t) (ha : a ∉ t.addrs) :
    Holds (h.free a) parent t :=
  ht.congr fun _ hb => h.free_of_ne (ne_of_mem_of_not_mem hb ha)

/-- Every listed node is in the heap with its value. -/
theorem Holds.mem {a : Nat} {v : α} (ht : Holds h parent t) (hmem : (a, v) ∈ t.items) :
    ∃ n, h a = some n ∧ n.val = v := by
  induction t generalizing parent with
  | nil => cases hmem
  | node b w l r ihl ihr =>
    obtain ⟨hn, hl, hr⟩ := ht
    rcases List.mem_cons.mp hmem with heq | hmem
    · obtain ⟨rfl, rfl⟩ := Prod.mk.inj heq
      exact ⟨_, hn, rfl⟩
    · rcases List.mem_append.mp hmem with hmem | hmem
      · exact ihl hl hmem
      · exact ihr hr hmem

/-! ## Places -/

/-- A step from a node to its child at `side`. -/
structure Frame (α : Type) where
  side : Bool
  addr : Nat
  val : α
  other : AddrTree α

namespace Frame

/-- The tree of the node with a child. -/
def fill (f : Frame α) (t : AddrTree α) : AddrTree α :=
  if f.side then .node f.addr f.val f.other t else .node f.addr f.val t f.other

/-- The node with its parent and a pointer to the child. -/
def node (f : Frame α) (parent child : Option Nat) : Node α :=
  if f.side then ⟨parent, f.other.root, child, f.val⟩ else ⟨parent, child, f.other.root, f.val⟩

@[simp] theorem root_fill (f : Frame α) (t : AddrTree α) : (f.fill t).root = some f.addr := by
  unfold fill
  split <;> rfl

@[simp] theorem parent_node (f : Frame α) (parent child : Option Nat) :
    (f.node parent child).parent = parent := by
  unfold node
  split <;> rfl

@[simp] theorem val_node (f : Frame α) (parent child : Option Nat) :
    (f.node parent child).val = f.val := by
  unfold node
  split <;> rfl

@[simp] theorem setLink_node (f : Frame α) (parent child child' : Option Nat) :
    (f.node parent child).setLink f.side child' = f.node parent child' := by
  unfold node Node.setLink
  split <;> rfl

theorem holds_fill (f : Frame α) :
    Holds h parent (f.fill t) ↔ h f.addr = some (f.node parent t.root) ∧
      Holds h (some f.addr) f.other ∧ Holds h (some f.addr) t := by
  unfold fill node
  split
  · exact Iff.rfl
  · exact and_congr_right fun _ => And.comm

theorem addrs_fill (f : Frame α) (t : AddrTree α) :
    (f.fill t).addrs.Perm (f.addr :: (f.other.addrs ++ t.addrs)) := by
  unfold fill
  split
  · rw [AddrTree.addrs_node]
  · rw [AddrTree.addrs_node]
    exact List.Perm.cons _ List.perm_append_comm

end Frame

/-- The whole tree; the innermost frame comes first. -/
def plug : List (Frame α) → AddrTree α → AddrTree α
  | [], t => t
  | f :: ctx, t => plug ctx (f.fill t)

/-- The pointer to the parent. -/
def up (ctx : List (Frame α)) : Option Nat := ctx.head?.map (·.addr)

/-- The addresses of the frames. -/
def around (ctx : List (Frame α)) : List Nat := ctx.flatMap fun f => f.addr :: f.other.addrs

@[simp] theorem up_cons (f : Frame α) (ctx : List (Frame α)) : up (f :: ctx) = some f.addr := rfl

@[simp] theorem around_nil : around ([] : List (Frame α)) = [] := rfl

theorem around_cons (f : Frame α) (ctx : List (Frame α)) :
    around (f :: ctx) = f.addr :: (f.other.addrs ++ around ctx) := by
  rw [around, List.flatMap_cons]
  rfl

theorem mem_around_of_up {ctx : List (Frame α)} {a : Nat} (h : some a = up ctx) : a ∈ around ctx := by
  cases ctx with
  | nil => cases h
  | cons f ctx =>
    obtain rfl := Option.some.inj h
    rw [around_cons]
    exact List.mem_cons_self

/-- The nodes of the frames are in the heap; `child` is the pointer to the place. -/
def Around (h : Heap α) : List (Frame α) → (child : Option Nat) → Prop
  | [], _ => True
  | f :: ctx, child =>
    h f.addr = some (f.node (up ctx) child) ∧ Holds h (some f.addr) f.other ∧ Around h ctx (some f.addr)

variable {ctx : List (Frame α)} {child child' : Option Nat}

theorem holds_plug : Holds h none (plug ctx t) ↔ Around h ctx t.root ∧ Holds h (up ctx) t := by
  induction ctx generalizing t with
  | nil => exact (and_iff_right trivial).symm
  | cons f ctx ih =>
    rw [plug, ih, f.root_fill, f.holds_fill]
    constructor
    · rintro ⟨hctx, hn, hother, ht⟩
      exact ⟨⟨hn, hother, hctx⟩, ht⟩
    · rintro ⟨⟨hn, hother, hctx⟩, ht⟩
      exact ⟨hctx, hn, hother, ht⟩

theorem addrs_plug (ctx : List (Frame α)) (t : AddrTree α) :
    (plug ctx t).addrs.Perm (t.addrs ++ around ctx) := by
  induction ctx generalizing t with
  | nil =>
    rw [around_nil, List.append_nil]
    exact List.Perm.refl _
  | cons f ctx ih =>
    refine (ih (f.fill t)).trans (((f.addrs_fill t).append_right _).trans ?_)
    rw [around_cons]
    refine List.Perm.trans ?_ List.perm_middle.symm
    refine List.Perm.cons _ ?_
    rw [← List.append_assoc]
    exact List.perm_append_comm.append_right _

/-- The nodes of the frames before those of the place, in the order of `items`. -/
def before : List (Frame α) → List (Nat × α)
  | [] => []
  | f :: ctx => before ctx ++ (f.addr, f.val) :: if f.side then f.other.items else []

/-- The nodes of the frames after those of the place. -/
def later : List (Frame α) → List (Nat × α)
  | [] => []
  | f :: ctx => (if f.side then [] else f.other.items) ++ later ctx

theorem items_plug (ctx : List (Frame α)) (t : AddrTree α) :
    (plug ctx t).items = before ctx ++ t.items ++ later ctx := by
  induction ctx generalizing t with
  | nil =>
    show t.items = [] ++ t.items ++ []
    rw [List.append_nil, List.nil_append]
  | cons f ctx ih =>
    rw [plug, ih, before, later, Frame.fill]
    split
    · rw [AddrTree.items, List.nil_append]
      simp only [List.append_assoc, List.cons_append]
    · rw [AddrTree.items]
      simp only [List.append_assoc, List.cons_append, List.nil_append]

/-- The nodes of a tree but for the one at a place. -/
def rest (ctx : List (Frame α)) (l r : AddrTree α) : List (Nat × α) :=
  before ctx ++ (l.items ++ r.items) ++ later ctx

theorem items_place (ctx : List (Frame α)) (a : Nat) (v : α) (l r : AddrTree α) :
    (plug ctx (.node a v l r)).items.Perm ((a, v) :: rest ctx l r) := by
  rw [items_plug, AddrTree.items, rest, List.append_assoc, List.append_assoc]
  exact List.perm_middle

theorem root_plug (hne : ctx ≠ []) (t t' : AddrTree α) : (plug ctx t).root = (plug ctx t').root := by
  induction ctx generalizing t t' with
  | nil => exact absurd rfl hne
  | cons f ctx ih =>
    cases ctx with
    | nil => exact (f.root_fill t).trans (f.root_fill t').symm
    | cons g ctx => exact ih (List.cons_ne_nil _ _) (f.fill t) (f.fill t')

theorem Around.same (hctx : Around h ctx child) (heq : ∀ a ∈ around ctx, h' a = h a) :
    Around h' ctx child := by
  induction ctx generalizing child with
  | nil => trivial
  | cons f ctx ih =>
    obtain ⟨hn, hother, hrest⟩ := hctx
    rw [around_cons] at heq
    refine ⟨(heq _ List.mem_cons_self).trans hn, hother.congr fun a ha => heq a ?_,
      ih hrest fun a ha => heq a ?_⟩
    · exact List.mem_cons_of_mem _ (List.mem_append_left _ ha)
    · exact List.mem_cons_of_mem _ (List.mem_append_right _ ha)

/-- Only the innermost frame has a pointer to the place. -/
theorem Around.congr (hctx : Around h ctx child)
    (hlast : ∀ f ctx', ctx = f :: ctx' → h' f.addr = some (f.node (up ctx') child'))
    (heq : ∀ a ∈ around ctx, some a ≠ up ctx → h' a = h a) (hnodup : (around ctx).Nodup) :
    Around h' ctx child' := by
  cases ctx with
  | nil => trivial
  | cons f ctx =>
    obtain ⟨-, hother, hrest⟩ := hctx
    rw [around_cons] at heq hnodup
    obtain ⟨hnot, -⟩ := List.nodup_cons.mp hnodup
    have hout : ∀ a ∈ f.other.addrs ++ around ctx, h' a = h a := by
      intro a ha
      refine heq a (List.mem_cons_of_mem _ ha) fun hup => hnot ?_
      obtain rfl : a = f.addr := Option.some.inj hup
      exact ha
    exact ⟨hlast f ctx rfl, hother.congr fun a ha => hout a (List.mem_append_left _ ha),
      hrest.same fun a ha => hout a (List.mem_append_right _ ha)⟩

/-! ## Whole heaps -/

/-- The heap holds the tree at `top` and nothing else. -/
structure Represents (h : Heap α) (top : Option Nat) (t : AddrTree α) : Prop where
  top_eq : top = t.root
  holds : Holds h none t
  nodup : t.addrs.Nodup
  only : ∀ a, h a ≠ none → a ∈ t.addrs

theorem represents_empty : Represents (fun _ => none : Heap α) none .nil where
  top_eq := rfl
  holds := trivial
  nodup := List.nodup_nil
  only := fun _ h => absurd rfl h

variable {top : Option Nat}

theorem Represents.apart (ht : Represents h top (plug ctx t)) : (t.addrs ++ around ctx).Nodup :=
  (addrs_plug ctx t).nodup_iff.mp ht.nodup

theorem Represents.around (ht : Represents h top (plug ctx t)) : Around h ctx t.root :=
  (holds_plug.mp ht.holds).1

theorem Represents.place (ht : Represents h top (plug ctx t)) : Holds h (up ctx) t :=
  (holds_plug.mp ht.holds).2

theorem Represents.mem_iff (ht : Represents h top (plug ctx t)) {a : Nat} :
    h a ≠ none ↔ a ∈ t.addrs ++ ParentTree.around ctx := by
  rw [← (addrs_plug ctx t).mem_iff]
  refine ⟨ht.only a, fun ha => ?_⟩
  obtain ⟨⟨b, v⟩, hmem, rfl⟩ := List.mem_map.mp ha
  obtain ⟨n, hn, -⟩ := ht.holds.mem hmem
  rw [hn]
  exact Option.some_ne_none n

/-- The node at a place. -/
theorem Represents.read {a : Nat} {v : α} {l r : AddrTree α}
    (ht : Represents h top (plug ctx (.node a v l r))) : h a = some ⟨up ctx, l.root, r.root, v⟩ :=
  ht.place.1

/-- The node above a place. -/
theorem Represents.read_up {f : Frame α} (ht : Represents h top (plug (f :: ctx) t)) :
    h f.addr = some (f.node (up ctx) t.root) :=
  ht.around.1

/-- Another tree at a place. What the frames hold is left alone, but for the pointer to the place. -/
theorem Represents.replace {top' : Option Nat} (ht : Represents h top (plug ctx t))
    (htop : top' = if ctx = [] then t'.root else top)
    (hlast : ∀ f ctx', ctx = f :: ctx' → h' f.addr = some (f.node (up ctx') t'.root))
    (heq : ∀ a ∈ ParentTree.around ctx, some a ≠ up ctx → h' a = h a) (ht' : Holds h' (up ctx) t')
    (hnodup : (t'.addrs ++ ParentTree.around ctx).Nodup)
    (honly : ∀ a, h' a ≠ none → a ∈ t'.addrs ++ ParentTree.around ctx) :
    Represents h' top' (plug ctx t') := by
  refine
    { top_eq := ?_
      holds := holds_plug.mpr ⟨?_, ht'⟩
      nodup := (addrs_plug ctx t').nodup_iff.mpr hnodup
      only := fun a ha => (addrs_plug ctx t').mem_iff.mpr (honly a ha) }
  · rw [htop]
    split
    next hnil =>
      subst hnil
      rfl
    next hcons => exact ht.top_eq.trans (root_plug hcons t t')
  · exact ht.around.congr hlast heq (List.nodup_append.mp hnodup).2.1

/-- Another value at a place. -/
theorem Represents.setVal {a : Nat} {v w : α} {l r : AddrTree α}
    (ht : Represents h top (plug ctx (.node a v l r))) :
    Represents (h.write a ⟨up ctx, l.root, r.root, w⟩) top (plug ctx (.node a w l r)) := by
  have hapart := ht.apart
  rw [AddrTree.addrs_node, List.cons_append] at hapart
  obtain ⟨hnot, -⟩ := List.nodup_cons.mp hapart
  have hout : ∀ b ∈ l.addrs ++ r.addrs ++ ParentTree.around ctx, b ≠ a := fun b hb =>
    ne_of_mem_of_not_mem hb hnot
  have haround : ∀ b ∈ ParentTree.around ctx, b ≠ a := fun b hb =>
    hout b (List.mem_append_right _ hb)
  refine ht.replace ?_ ?_ ?_ ⟨h.write_same _ _, ?_, ?_⟩ ?_ ?_
  · split
    next hnil =>
      subst hnil
      exact ht.top_eq
    · rfl
  · rintro f ctx' rfl
    rw [h.write_of_ne _ (haround _ (mem_around_of_up rfl))]
    exact ht.around.1
  · intro b hb _
    exact h.write_of_ne _ (haround b hb)
  · exact ht.place.2.1.write fun ha => hout a (List.mem_append_left _ (List.mem_append_left _ ha)) rfl
  · exact ht.place.2.2.write fun ha => hout a (List.mem_append_left _ (List.mem_append_right _ ha)) rfl
  · have hsame := ht.apart
    rw [AddrTree.addrs_node] at hsame ⊢
    exact hsame
  · intro b hb
    rw [AddrTree.addrs_node]
    rcases eq_or_ne b a with rfl | hne
    · exact List.mem_append_left _ List.mem_cons_self
    · rw [h.write_of_ne _ hne] at hb
      have hmem := ht.mem_iff.mp hb
      rw [AddrTree.addrs_node] at hmem
      exact hmem

/-! ## Edits of the tree -/

/-- The only child `c` of a node in its place. -/
theorem Represents.splice {a : Nat} {v : α} {l r c : AddrTree α}
    (ht : Represents h top (plug ctx (.node a v l r)))
    (hc : (c = l ∧ r = .nil) ∨ (c = r ∧ l = .nil)) (hgone : h' a = none)
    (hroot : ∀ b w l' r', c = .node b w l' r' → h' b = some ⟨up ctx, l'.root, r'.root, w⟩)
    (hlast : ∀ f ctx', ctx = f :: ctx' → h' f.addr = some (f.node (up ctx') c.root))
    (heq : ∀ x, x ≠ a → some x ≠ c.root → some x ≠ up ctx → h' x = h x) :
    Represents h' (if ctx = [] then c.root else top) (plug ctx c) := by
  have hapart := ht.apart
  have hitems : (AddrTree.node a v l r).addrs = a :: c.addrs := by
    rw [AddrTree.addrs_node]
    rcases hc with ⟨rfl, rfl⟩ | ⟨rfl, rfl⟩
    · rw [AddrTree.addrs_nil, List.append_nil]
    · rw [AddrTree.addrs_nil, List.nil_append]
  rw [hitems, List.cons_append] at hapart
  obtain ⟨hnot, hapart⟩ := List.nodup_cons.mp hapart
  have hplace : Holds h (some a) c := by
    rcases hc with ⟨rfl, -⟩ | ⟨rfl, -⟩
    · exact ht.place.2.1
    · exact ht.place.2.2
  obtain ⟨hnc, -, hdisjoint⟩ := List.nodup_append.mp hapart
  have hup : ∀ x ∈ c.addrs, some x ≠ up ctx := fun x hx hxup =>
    hdisjoint x hx x (mem_around_of_up hxup) rfl
  refine ht.replace rfl hlast ?_ ?_ hapart ?_
  · intro x hx hxup
    refine heq x (ne_of_mem_of_not_mem (List.mem_append_right _ hx) hnot) (fun hxc => ?_) hxup
    exact hdisjoint x (AddrTree.root_mem hxc.symm) x hx rfl
  · cases c with
    | nil => trivial
    | node b w l' r' =>
      obtain ⟨-, hl, hr⟩ := hplace
      rw [AddrTree.addrs_node] at hnc hup hnot
      obtain ⟨hb, -⟩ := List.nodup_cons.mp hnc
      have hsame : ∀ x ∈ l'.addrs ++ r'.addrs, h' x = h x := by
        intro x hx
        have hxc := List.mem_cons_of_mem b hx
        refine heq x ?_ (fun h => hb (Option.some.inj h ▸ hx)) (hup x hxc)
        exact ne_of_mem_of_not_mem (List.mem_append_left _ hxc) hnot
      exact ⟨hroot b w l' r' rfl, hl.congr fun x hx => hsame x (List.mem_append_left _ hx),
        hr.congr fun x hx => hsame x (List.mem_append_right _ hx)⟩
  · intro x hx
    rcases eq_or_ne x a with rfl | hxa
    · exact absurd hgone hx
    · by_cases hxc : some x = c.root
      · exact List.mem_append_left _ (AddrTree.root_mem hxc.symm)
      · by_cases hxup : some x = up ctx
        · exact List.mem_append_right _ (mem_around_of_up hxup)
        · rw [heq x hxa hxc hxup] at hx
          have hmem := ht.mem_iff.mp hx
          rw [hitems, List.cons_append] at hmem
          exact (List.mem_cons.mp hmem).resolve_left hxa

/-- A new node without children at an empty place. -/
theorem Represents.leaf {a : Nat} {w : α} (ht : Represents h top (plug ctx .nil)) (hfresh : h a = none)
    (hnew : h' a = some ⟨up ctx, none, none, w⟩)
    (hlast : ∀ f ctx', ctx = f :: ctx' → h' f.addr = some (f.node (up ctx') (some a)))
    (heq : ∀ x, x ≠ a → some x ≠ up ctx → h' x = h x) :
    Represents h' (if ctx = [] then some a else top) (plug ctx (.node a w .nil .nil)) := by
  have hnot : a ∉ ParentTree.around ctx := by
    intro ha
    exact ht.mem_iff.mpr ha hfresh
  refine ht.replace rfl hlast ?_ ⟨hnew, trivial, trivial⟩ ?_ ?_
  · intro x hx hxup
    exact heq x (ne_of_mem_of_not_mem hx hnot) hxup
  · exact List.nodup_cons.mpr ⟨hnot, ht.apart⟩
  · intro x hx
    show x ∈ a :: ParentTree.around ctx
    by_cases hxa : x = a
    · exact List.mem_cons.mpr (.inl hxa)
    · refine List.mem_cons_of_mem _ ?_
      by_cases hxup : some x = up ctx
      · exact mem_around_of_up hxup
      · rw [heq x hxa hxup] at hx
        exact ht.mem_iff.mp hx

/-- A new node above a place, the tree there as its only child. -/
theorem Represents.above {b : Nat} {v : α} {l r : AddrTree α} {g : Frame α}
    (ht : Represents h top (plug ctx (.node b v l r))) (hother : g.other = .nil)
    (hfresh : h g.addr = none) (hnew : h' g.addr = some (g.node (up ctx) (some b)))
    (hroot : h' b = some ⟨some g.addr, l.root, r.root, v⟩)
    (hlast : ∀ f ctx', ctx = f :: ctx' → h' f.addr = some (f.node (up ctx') (some g.addr)))
    (heq : ∀ x, x ≠ g.addr → x ≠ b → some x ≠ up ctx → h' x = h x) :
    Represents h' (if ctx = [] then some g.addr else top) (plug ctx (g.fill (.node b v l r))) := by
  have hapart := ht.apart
  have hnot : g.addr ∉ (AddrTree.node b v l r).addrs ++ ParentTree.around ctx := fun hg =>
    ht.mem_iff.mpr hg hfresh
  have hperm := (g.addrs_fill (.node b v l r)).append_right (ParentTree.around ctx)
  rw [hother, AddrTree.addrs_nil, List.nil_append, List.cons_append] at hperm
  obtain ⟨hnode, -, hdisjoint⟩ := List.nodup_append.mp hapart
  have hb : b ∈ (AddrTree.node b v l r).addrs := AddrTree.root_mem rfl
  have hup : ∀ x ∈ (AddrTree.node b v l r).addrs, some x ≠ up ctx := fun x hx hxup =>
    hdisjoint x hx x (mem_around_of_up hxup) rfl
  refine ht.replace (by rw [g.root_fill]) ?_ ?_ ?_ (hperm.nodup_iff.mpr ?_) ?_
  · rw [g.root_fill]
    exact hlast
  · intro x hx hxup
    refine heq x (ne_of_mem_of_not_mem (List.mem_append_right _ hx) hnot) ?_ hxup
    rintro rfl
    exact hdisjoint x hb x hx rfl
  · refine g.holds_fill.mpr ⟨hnew, ?_, hroot, ?_, ?_⟩
    · rw [hother]
      trivial
    all_goals
      obtain ⟨-, hl, hr⟩ := ht.place
      rw [AddrTree.addrs_node] at hnode hnot hup
      obtain ⟨hbnot, -⟩ := List.nodup_cons.mp hnode
      have hsame : ∀ x ∈ l.addrs ++ r.addrs, h' x = h x := fun x hx =>
        heq x (ne_of_mem_of_not_mem (List.mem_append_left _ (List.mem_cons_of_mem _ hx)) hnot)
          (ne_of_mem_of_not_mem hx hbnot) (hup x (List.mem_cons_of_mem _ hx))
    · exact hl.congr fun x hx => hsame x (List.mem_append_left _ hx)
    · exact hr.congr fun x hx => hsame x (List.mem_append_right _ hx)
  · exact List.nodup_cons.mpr ⟨hnot, hapart⟩
  · intro x hx
    refine hperm.mem_iff.mpr ?_
    by_cases hxg : x = g.addr
    · exact List.mem_cons.mpr (.inl hxg)
    · refine List.mem_cons_of_mem _ ?_
      by_cases hxb : x = b
      · exact List.mem_append_left _ (hxb ▸ hb)
      · by_cases hxup : some x = up ctx
        · exact List.mem_append_right _ (mem_around_of_up hxup)
        · rw [heq x hxg hxb hxup] at hx
          exact ht.mem_iff.mp hx

/-! ## The places of a tree -/

/-- The step from a node to a child. -/
def AddrTree.frame (a : Nat) (v : α) (l r : AddrTree α) (side : Bool) : Frame α :=
  ⟨side, a, v, AddrTree.child r l side⟩

theorem fill_frame (a : Nat) (v : α) (l r : AddrTree α) (side : Bool) :
    (AddrTree.frame a v l r side).fill (AddrTree.child l r side) = .node a v l r := by
  cases side <;> rfl

/-- Every node of a tree is at a place. -/
theorem exists_place {a : Nat} {v : α} (hmem : (a, v) ∈ t.items) :
    ∃ ctx l r, t = plug ctx (.node a v l r) := by
  have hgen : ∀ ctx : List (Frame α), ∃ ctx' l r, plug ctx t = plug ctx' (.node a v l r) := by
    induction t with
    | nil => cases hmem
    | node b w l r ihl ihr =>
      intro ctx
      rcases List.mem_cons.mp hmem with heq | hmem
      · obtain ⟨rfl, rfl⟩ := Prod.mk.inj heq
        exact ⟨ctx, l, r, rfl⟩
      · rcases List.mem_append.mp hmem with hmem | hmem
        · exact ihl hmem (AddrTree.frame b w l r false :: ctx)
        · exact ihr hmem (AddrTree.frame b w l r true :: ctx)
  exact hgen []

/-- A place is not deeper than the tree has nodes. -/
theorem length_ctx_le (ctx : List (Frame α)) (t : AddrTree α) :
    ctx.length + t.addrs.length ≤ (plug ctx t).addrs.length := by
  rw [(addrs_plug ctx t).length_eq, List.length_append, Nat.add_comm]
  refine Nat.add_le_add_left ?_ _
  induction ctx with
  | nil => exact Nat.zero_le _
  | cons f ctx ih =>
    rw [around_cons, List.length_cons, List.length_cons, List.length_append]
    omega

end ParentTree

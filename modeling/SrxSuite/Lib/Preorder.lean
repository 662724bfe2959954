import Mathlib.Data.List.Basic

/-!
# Walks along parent pointers

A binary tree whose nodes know their parents is walked without a stack: from a node to its left child,
else to its right child, else up to the first parent that has a right child still ahead.

A `Cursor` is a node with its way up, `Cursor.visits` the values from there on. A function on cursors
that drops the first of these values (`Follows`) makes a loop that visits the whole tree in preorder:
`walk_eq` and `visits_top`.
-/

/-- A binary tree with a value in every node. -/
inductive BinTree (ι : Type)
  | null
  | node (info : ι) (left right : BinTree ι)

namespace BinTree

variable {ι σ : Type}

/-- The values, those of a node before those below it. -/
def preorder : BinTree ι → List ι
  | null => []
  | node info left right => info :: (left.preorder ++ right.preorder)

/-- A parent, by the side on which its child hangs; beside a left child is the right one. -/
inductive Side (ι : Type)
  | left (sibling : BinTree ι)
  | right

/-- A node of a tree, with its parents from the nearest one on. -/
structure Cursor (ι : Type) where
  info : ι
  left : BinTree ι
  right : BinTree ι
  parents : List (Side ι)

/-- The root of a tree with these parents. -/
def enter : BinTree ι → List (Side ι) → Option (Cursor ι)
  | null, _ => none
  | node info left right, parents => some ⟨info, left, right, parents⟩

/-- The values that are still ahead when everything below a node is done. -/
def ahead : List (Side ι) → List ι
  | [] => []
  | .left sibling :: parents => sibling.preorder ++ ahead parents
  | .right :: parents => ahead parents

/-- The values behind a node. -/
def Cursor.behind (c : Cursor ι) : List ι := c.left.preorder ++ (c.right.preorder ++ ahead c.parents)

/-- The values from a node on. -/
def visits (c : Option (Cursor ι)) : List ι := c.elim [] fun c => c.info :: c.behind

theorem visits_enter (info : ι) (left right : BinTree ι) (parents : List (Side ι)) :
    visits ((node info left right).enter parents) =
      (node info left right).preorder ++ ahead parents := by
  show info :: (left.preorder ++ (right.preorder ++ ahead parents)) = _
  rw [preorder, List.cons_append, List.append_assoc]

/-- A walk from the root visits all values. -/
theorem visits_top (t : BinTree ι) : visits (t.enter []) = t.preorder := by
  cases t with
  | null => rfl
  | node info left right => exact (visits_enter info left right []).trans (List.append_nil _)

/-- `next` goes to the node whose value is the next one. -/
def Follows (next : Cursor ι → Option (Cursor ι)) : Prop := ∀ c, visits (next c) = c.behind

/-- The loop that starts at a node and goes on with `next`. -/
def walk {next : Cursor ι → Option (Cursor ι)} (hnext : Follows next) (f : σ → ι → σ) :
    Option (Cursor ι) → σ → σ
  | none, s => s
  | some c, s => walk hnext f (next c) (f s c.info)
termination_by c => (visits c).length
decreasing_by
  rw [hnext c]
  exact Nat.lt_succ_self _

theorem walk_eq {next : Cursor ι → Option (Cursor ι)} (hnext : Follows next) (f : σ → ι → σ)
    (c : Option (Cursor ι)) (s : σ) : walk hnext f c s = (visits c).foldl f s := by
  induction c, s using walk.induct hnext f with
  | case1 s =>
    rw [walk]
    rfl
  | case2 c s ih =>
    rw [walk, ih, hnext c]
    rfl

end BinTree

import Mathlib.Algebra.GroupWithZero.Nat
import Mathlib.Data.List.Infix
import Mathlib.Logic.Function.Basic

/-!
# Tries with a value in every node

A `Trie κ α` branches over an alphabet `κ` and stores a value in each node; `null` is an
absent node. Keys are words over `κ`, the path from the root. There is no compression:
a node that exists only to reach a longer key is a node with a default value.

* `sub`, `get?`: the node and the value at a key.
* `insertWith a f t w`: descend to `w`, create the missing nodes with the value `a`, and
  change the value at `w` by `f`.
* `erase t w`: cut off the whole subtrie at `w`.
-/

inductive Trie (κ α : Type)
  | null
  | node (val : α) (children : κ → Trie κ α)

namespace Trie

variable {κ α : Type}

/-- The value of the root. -/
def val? : Trie κ α → Option α
  | null => none
  | node v _ => some v

/-- The subtrie at a key. -/
def sub : Trie κ α → List κ → Trie κ α
  | t, [] => t
  | null, _ :: _ => null
  | node _ c, k :: w => sub (c k) w

/-- The value at a key. -/
def get? (t : Trie κ α) (w : List κ) : Option α := (t.sub w).val?

@[simp] theorem sub_nil (t : Trie κ α) : t.sub [] = t := by
  cases t <;> rfl

@[simp] theorem sub_null (w : List κ) : (null : Trie κ α).sub w = null := by
  cases w <;> rfl

@[simp] theorem sub_node_cons (v : α) (c : κ → Trie κ α) (k : κ) (w : List κ) :
    (node v c).sub (k :: w) = (c k).sub w := rfl

@[simp] theorem get?_null (w : List κ) : (null : Trie κ α).get? w = none := by
  simp [get?, val?]

@[simp] theorem get?_node_nil (v : α) (c : κ → Trie κ α) : (node v c).get? [] = some v := rfl

@[simp] theorem get?_node_cons (v : α) (c : κ → Trie κ α) (k : κ) (w : List κ) :
    (node v c).get? (k :: w) = (c k).get? w := rfl

variable [DecidableEq κ]

/-- Descend to the key, creating missing nodes with value `a`; `f` changes the value
there. -/
def insertWith (a : α) (f : α → α) : Trie κ α → List κ → Trie κ α
  | null, [] => node (f a) fun _ => null
  | node v c, [] => node (f v) c
  | null, k :: w => node a (Function.update (fun _ => null) k (insertWith a f null w))
  | node v c, k :: w => node v (Function.update c k (insertWith a f (c k) w))

/-- Cut off the subtrie at a key. -/
def erase : Trie κ α → List κ → Trie κ α
  | _, [] => null
  | null, _ :: _ => null
  | node v c, k :: w => node v (Function.update c k (erase (c k) w))

/-- The inserted key gets the changed value; nodes created on the way carry the default;
all other values are kept. -/
theorem get?_insertWith (a : α) (f : α → α) (t : Trie κ α) (w u : List κ) :
    (t.insertWith a f w).get? u =
      if u = w then some (f ((t.get? w).getD a))
      else if u <+: w then some ((t.get? u).getD a) else t.get? u := by
  induction w generalizing t u with
  | nil =>
    cases t <;> cases u <;> simp [insertWith]
  | cons k w ih =>
    cases u with
    | nil => cases t <;> simp [insertWith]
    | cons j u =>
      by_cases hj : j = k
      · subst hj
        cases t with
        | null => simp [insertWith, ih]
        | node v c => simp [insertWith, ih]
      · cases t <;> simp [insertWith, hj, List.cons_prefix_cons]

/-- Cutting off a key removes the keys that extend it and no other. -/
theorem get?_erase (t : Trie κ α) (w u : List κ) :
    (t.erase w).get? u = if w <+: u then none else t.get? u := by
  induction w generalizing t u with
  | nil => simp [erase]
  | cons k w ih =>
    cases t with
    | null => simp [erase]
    | node v c =>
      cases u with
      | nil => simp [erase]
      | cons j u =>
        by_cases hj : j = k
        · subst hj
          simp [erase, ih, List.cons_prefix_cons]
        · simp [erase, hj, List.cons_prefix_cons, Ne.symm hj]

end Trie

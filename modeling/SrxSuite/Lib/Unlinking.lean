import Mathlib.Data.List.Basic

/-!
# Walks that take elements out of a chain

A walk changes the elements of a linked list one after the other. An element that is not needed any more
is freed: the element before it, or the head of the list, is linked to the one behind. `prev` is the
last element that was kept. `unlinkAll_eq`: what remains are the changed elements that are needed, in
their order.
-/

namespace Unlinking

variable {α : Type}

/-- The chain without the element at `cur`: the one at `prev`, or the head, is linked to the next one. -/
def unlink (list : List α) (prev : Option Nat) (cur : Nat) : List α :=
  match prev with
  | some prev => list.take (prev + 1) ++ list.drop (cur + 1)
  | none => list.drop (cur + 1)

/-- The place behind `prev`, or the first one. -/
def behind (prev : Option Nat) : Nat :=
  match prev with
  | some prev => prev + 1
  | none => 0

/-- The loop. `visit` gives the changed element, and whether it can be freed. -/
def unlinkLoop (visit : α → Option (α × Bool)) : (fuel : Nat) → List α → (prev : Option Nat) →
    (cur : Nat) → Option (List α)
  | 0, _, _, _ => none
  | fuel + 1, list, prev, cur =>
    match list[cur]? with
    | none => some list
    | some a => do
      let (a, canFree) ← visit a
      let list := list.set cur a
      if canFree then unlinkLoop visit fuel (unlink list prev cur) prev (behind prev)
      else unlinkLoop visit fuel list (some cur) (cur + 1)

/-- The loop from the first element on, with a turn for each element and one for the end. -/
def unlinkAll (visit : α → Option (α × Bool)) (list : List α) : Option (List α) :=
  unlinkLoop visit (list.length + 1) list none 0

/-- The place of the last element that was kept. -/
def lastOf (kept : List α) : Option Nat :=
  match kept with
  | [] => none
  | _ :: rest => some rest.length

theorem behind_lastOf (kept : List α) : behind (lastOf kept) = kept.length := by
  cases kept with
  | nil => rfl
  | cons a rest => rfl

theorem lastOf_append (kept : List α) (a : α) : lastOf (kept ++ [a]) = some kept.length := by
  cases kept with
  | nil => rfl
  | cons b rest => exact congrArg some List.length_append

theorem unlink_lastOf (kept : List α) (a : α) (rest : List α) :
    unlink (kept ++ a :: rest) (lastOf kept) kept.length = kept ++ rest := by
  have hdrop : (kept ++ a :: rest).drop (kept.length + 1) = rest := by
    rw [List.drop_append, List.drop_of_length_le (Nat.le_succ _), Nat.add_sub_cancel_left]
    rfl
  cases kept with
  | nil => rfl
  | cons b before =>
    have htake : (b :: before ++ a :: rest).take (b :: before).length = b :: before :=
      List.take_left
    show List.take (b :: before).length _ ++ List.drop ((b :: before).length + 1) _ = _
    rw [htake, hdrop]

variable {visit : α → Option (α × Bool)} {change : α → α} {canFree : α → Bool}

/-- The loop behind the elements that were kept. The induction is on those that are left. -/
theorem unlinkLoop_append (hvisit : ∀ a, visit a = some (change a, canFree (change a)))
    (kept rest : List α) {fuel : Nat} (h : rest.length < fuel) :
    unlinkLoop visit fuel (kept ++ rest) (lastOf kept) kept.length =
      some (kept ++ (rest.map change).filter fun a => !canFree a) := by
  induction rest generalizing kept fuel with
  | nil =>
    obtain ⟨fuel, rfl⟩ := Nat.exists_eq_succ_of_ne_zero (Nat.ne_of_gt h)
    rw [List.append_nil, unlinkLoop, List.getElem?_eq_none (Nat.le_refl _)]
    exact congrArg some (List.append_nil kept).symm
  | cons a rest ih =>
    obtain ⟨fuel, rfl⟩ := Nat.exists_eq_succ_of_ne_zero (Nat.ne_of_gt (Nat.zero_lt_of_lt h))
    have hfuel : rest.length < fuel := Nat.lt_of_succ_lt_succ h
    have hget : (kept ++ a :: rest)[kept.length]? = some a := by
      rw [List.getElem?_append_right (Nat.le_refl _), Nat.sub_self]
      rfl
    have hset : (kept ++ a :: rest).set kept.length (change a) = kept ++ change a :: rest := by
      rw [List.set_append_right _ _ (Nat.le_refl _), Nat.sub_self]
      rfl
    rw [unlinkLoop, hget, List.map_cons]
    dsimp only
    rw [hvisit]
    simp only [Option.bind_eq_bind, Option.bind_some]
    rw [hset]
    cases hfree : canFree (change a) with
    | true =>
      rw [if_pos rfl, unlink_lastOf, behind_lastOf, ih kept hfuel,
        List.filter_cons_of_neg (by rw [hfree]; decide)]
    | false =>
      have hnext := ih (kept ++ [change a]) hfuel
      rw [lastOf_append, List.length_append, List.length_singleton, List.append_assoc,
        List.append_assoc] at hnext
      rw [if_neg Bool.false_ne_true, List.filter_cons_of_pos (by rw [hfree]; decide)]
      exact hnext

/-- The loop ends. The elements are changed, and those that can be freed then are gone. -/
theorem unlinkAll_eq (hvisit : ∀ a, visit a = some (change a, canFree (change a))) (list : List α) :
    unlinkAll visit list = some ((list.map change).filter fun a => !canFree a) :=
  unlinkLoop_append hvisit [] list (Nat.lt_succ_self _)

end Unlinking

import Mathlib.Tactic.Common

/-!
# Sorted association lists

A map as a linked list that is kept in the order of its keys. The order is that of a number `rank`,
which tells the keys apart. A search walks as long as the keys are smaller and gives up at the first
one that is larger; an insertion takes the place where the search gave up.

`find_insert` and `find_erase` say what is found after a change: the list is a map.
-/

/-- A list of keys and values in the order of the keys. -/
structure SortedMap (K V : Type) (rank : K → Nat) where
  items : List (K × V)
  sorted : items.Pairwise fun a b => rank a.1 < rank b.1

namespace SortedMap

variable {K V : Type} [DecidableEq K] {rank : K → Nat}

/-! ## Walks over the list -/

/-- The value of `k`. -/
def findItems (rank : K → Nat) (k : K) : List (K × V) → Option V
  | [] => none
  | (k', v) :: rest =>
    if rank k < rank k' then none else if k = k' then some v else findItems rank k rest

/-- The list with the value `v` for `k`. -/
def insertItems (rank : K → Nat) (k : K) (v : V) : List (K × V) → List (K × V)
  | [] => [(k, v)]
  | (k', v') :: rest =>
    if rank k < rank k' then (k, v) :: (k', v') :: rest
    else if k = k' then (k, v) :: rest
    else (k', v') :: insertItems rank k v rest

/-- The list without `k`. -/
def eraseItems (k : K) : List (K × V) → List (K × V)
  | [] => []
  | (k', v') :: rest => if k = k' then rest else (k', v') :: eraseItems k rest

theorem mem_insertItems {k : K} {v : V} {items : List (K × V)} {e : K × V}
    (h : e ∈ insertItems rank k v items) : e = (k, v) ∨ e ∈ items := by
  induction items with
  | nil => exact .inl (List.mem_singleton.mp h)
  | cons first rest ih =>
    unfold insertItems at h
    split at h
    · rcases List.mem_cons.mp h with rfl | h
      · exact .inl rfl
      · exact .inr h
    · split at h
      · rcases List.mem_cons.mp h with rfl | h
        · exact .inl rfl
        · exact .inr (List.mem_cons_of_mem _ h)
      · rcases List.mem_cons.mp h with rfl | h
        · exact .inr List.mem_cons_self
        · rcases ih h with rfl | h
          · exact .inl rfl
          · exact .inr (List.mem_cons_of_mem _ h)

theorem insertItems_sorted (hinj : Function.Injective rank) (k : K) (v : V) {items : List (K × V)}
    (h : items.Pairwise fun a b => rank a.1 < rank b.1) :
    (insertItems rank k v items).Pairwise fun a b => rank a.1 < rank b.1 := by
  induction items with
  | nil => exact List.pairwise_singleton _ _
  | cons first rest ih =>
    obtain ⟨hfirst, hrest⟩ := List.pairwise_cons.mp h
    unfold insertItems
    split
    · next hlt =>
      refine List.pairwise_cons.mpr ⟨fun e he => ?_, h⟩
      rcases List.mem_cons.mp he with rfl | he
      · exact hlt
      · exact Nat.lt_trans hlt (hfirst e he)
    · next hge =>
      split
      · next heq => exact List.pairwise_cons.mpr ⟨heq ▸ hfirst, hrest⟩
      · next hne =>
        refine List.pairwise_cons.mpr ⟨fun e he => ?_, ih hrest⟩
        rcases mem_insertItems he with rfl | he
        · exact Nat.lt_of_le_of_ne (Nat.not_lt.mp hge) fun heq => hne (hinj heq).symm
        · exact hfirst e he

theorem eraseItems_sublist (k : K) (items : List (K × V)) :
    (eraseItems k items).Sublist items := by
  induction items with
  | nil => exact List.Sublist.refl _
  | cons first rest ih =>
    unfold eraseItems
    split
    · exact List.sublist_cons_self _ _
    · exact ih.cons_cons _

/-! ## The map -/

/-- No keys. -/
def empty : SortedMap K V rank := ⟨[], List.Pairwise.nil⟩

/-- The value of a key. -/
def find (m : SortedMap K V rank) (k : K) : Option V := findItems rank k m.items

/-- The map with the value `v` for `k`. -/
def insert (hinj : Function.Injective rank) (m : SortedMap K V rank) (k : K) (v : V) :
    SortedMap K V rank :=
  ⟨insertItems rank k v m.items, insertItems_sorted hinj k v m.sorted⟩

/-- The map without `k`. -/
def erase (m : SortedMap K V rank) (k : K) : SortedMap K V rank :=
  ⟨eraseItems k m.items, m.sorted.sublist (eraseItems_sublist k m.items)⟩

/-- The keys in order. -/
def keys (m : SortedMap K V rank) : List K := m.items.map Prod.fst

theorem findItems_cons (k k' : K) (v : V) (rest : List (K × V)) :
    findItems rank k ((k', v) :: rest) =
      if rank k < rank k' then none else if k = k' then some v else findItems rank k rest := rfl

/-- Nothing is found below the first key. -/
theorem findItems_none {k : K} {items : List (K × V)} (h : ∀ e ∈ items, rank k < rank e.1) :
    findItems rank k items = none := by
  cases items with
  | nil => rfl
  | cons first rest => exact if_pos (h first List.mem_cons_self)

theorem find_insert (hinj : Function.Injective rank) (m : SortedMap K V rank) (k k' : K) (v : V) :
    (m.insert hinj k v).find k' = if k' = k then some v else m.find k' := by
  obtain ⟨items, hsorted⟩ := m
  show findItems rank k' (insertItems rank k v items) = if k' = k then some v else
    findItems rank k' items
  induction items with
  | nil =>
    unfold insertItems findItems
    split
    · next hlt =>
      rw [if_neg]
      rintro rfl
      exact Nat.lt_irrefl _ hlt
    · rfl
  | cons first rest ih =>
    obtain ⟨k₀, v₀⟩ := first
    obtain ⟨hfirst, hrest⟩ := List.pairwise_cons.mp hsorted
    unfold insertItems
    by_cases hlt : rank k < rank k₀
    · rw [if_pos hlt]
      conv_lhs => unfold findItems
      split
      · next hlt' =>
        rw [if_neg, findItems_none]
        · intro e he
          rcases List.mem_cons.mp he with rfl | he
          · exact Nat.lt_trans hlt' hlt
          · exact Nat.lt_trans (Nat.lt_trans hlt' hlt) (hfirst e he)
        · rintro rfl
          exact Nat.lt_irrefl _ hlt'
      · rfl
    · rw [if_neg hlt]
      by_cases hkey : k = k₀
      · subst hkey
        rw [if_pos rfl]
        unfold findItems
        split
        · next hlt' =>
          rw [if_neg]
          rintro rfl
          exact Nat.lt_irrefl _ hlt'
        · split
          · rfl
          · rfl
      · rw [if_neg hkey]
        unfold findItems
        split
        · next hlt' =>
          rw [if_neg]
          rintro rfl
          exact hlt hlt'
        · split
          · next heq =>
            rw [if_neg]
            rintro rfl
            exact hkey heq
          · exact ih hrest

theorem find_erase (m : SortedMap K V rank) (k k' : K) :
    (m.erase k).find k' = if k' = k then none else m.find k' := by
  obtain ⟨items, hsorted⟩ := m
  show findItems rank k' (eraseItems k items) = if k' = k then none else findItems rank k' items
  induction items with
  | nil => exact (ite_self _).symm
  | cons first rest ih =>
    obtain ⟨k₀, v₀⟩ := first
    obtain ⟨hfirst, hrest⟩ := List.pairwise_cons.mp hsorted
    unfold eraseItems
    by_cases hkey : k = k₀
    · subst hkey
      rw [if_pos rfl, findItems_cons]
      by_cases heq : k' = k
      · rw [if_pos heq, heq, findItems_none hfirst]
      · rw [if_neg heq, if_neg heq]
        split
        · next hlt => exact findItems_none fun e he => Nat.lt_trans hlt (hfirst e he)
        · rfl
    · rw [if_neg hkey, findItems_cons, findItems_cons, ih hrest]
      split
      · rw [ite_self]
      · split
        · next heq =>
          rw [if_neg]
          rintro rfl
          exact hkey heq
        · rfl

/-- A key is listed if and only if it is found. -/
theorem mem_keys (m : SortedMap K V rank) (k : K) : k ∈ m.keys ↔ (m.find k).isSome := by
  obtain ⟨items, hsorted⟩ := m
  show k ∈ items.map Prod.fst ↔ (findItems rank k items).isSome
  induction items with
  | nil => exact ⟨fun h => absurd h List.not_mem_nil, fun h => Bool.noConfusion h⟩
  | cons first rest ih =>
    obtain ⟨k₀, v₀⟩ := first
    obtain ⟨hfirst, hrest⟩ := List.pairwise_cons.mp hsorted
    rw [List.map_cons, List.mem_cons]
    unfold findItems
    split
    · next hlt =>
      refine ⟨?_, fun h => Bool.noConfusion h⟩
      rintro (rfl | hmem)
      · exact absurd hlt (Nat.lt_irrefl _)
      · obtain ⟨e, he, rfl⟩ := List.mem_map.mp hmem
        exact absurd (Nat.lt_trans hlt (hfirst e he)) (Nat.lt_irrefl _)
    · split
      · next heq => exact ⟨fun _ => rfl, fun _ => .inl heq⟩
      · next hne => rw [or_iff_right hne, ih hrest]

/-- An item of the list is found. -/
theorem find_of_mem {m : SortedMap K V rank} {k : K} {v : V} (h : (k, v) ∈ m.items) :
    m.find k = some v := by
  obtain ⟨items, hsorted⟩ := m
  show findItems rank k items = some v
  induction items with
  | nil => exact absurd h List.not_mem_nil
  | cons first rest ih =>
    obtain ⟨k₀, v₀⟩ := first
    obtain ⟨hfirst, hrest⟩ := List.pairwise_cons.mp hsorted
    rw [findItems_cons]
    rcases List.mem_cons.mp h with heq | hmem
    · obtain ⟨rfl, rfl⟩ := Prod.mk.inj heq
      rw [if_neg (Nat.lt_irrefl _), if_pos rfl]
    · have hlt : rank k₀ < rank k := hfirst _ hmem
      rw [if_neg (Nat.lt_asymm hlt), if_neg fun heq => Nat.ne_of_gt hlt (congrArg rank heq)]
      exact ih hrest hmem

/-- What is found is an item of the list. -/
theorem mem_of_find {m : SortedMap K V rank} {k : K} {v : V} (h : m.find k = some v) :
    (k, v) ∈ m.items := by
  obtain ⟨e, he, rfl⟩ := List.mem_map.mp ((mem_keys m k).mpr (by rw [h]; rfl))
  have hfind : m.find e.1 = some e.2 := find_of_mem he
  obtain rfl := Option.some.inj (hfind.symm.trans h)
  exact he

omit [DecidableEq K] in
theorem keys_nodup (m : SortedMap K V rank) : m.keys.Nodup := by
  unfold keys
  rw [List.Nodup, List.pairwise_map]
  exact m.sorted.imp fun hlt heq => Nat.ne_of_lt hlt (congrArg rank heq)

/-- The map is empty if and only if nothing is found. -/
theorem items_eq_nil (m : SortedMap K V rank) : m.items = [] ↔ ∀ k, m.find k = none := by
  constructor
  · intro h k
    unfold find
    rw [h]
    rfl
  · intro h
    cases hitems : m.items with
    | nil => rfl
    | cons first rest =>
      have hmem : first.1 ∈ m.keys := by
        unfold keys
        rw [hitems]
        exact List.mem_cons_self
      rw [mem_keys, h first.1] at hmem
      cases hmem

/-! ## The first key -/

/-- The smallest key. -/
def first (m : SortedMap K V rank) : Option K := m.items.head?.map Prod.fst

/-- The first key stays where an insertion does not come before it. -/
theorem first_insert_eq (hinj : Function.Injective rank) (m : SortedMap K V rank) (k : K) (v : V)
    (h : ∀ k', m.first = some k' → rank k' ≤ rank k) :
    (m.insert hinj k v).first = some (m.first.getD k) := by
  obtain ⟨items, hsorted⟩ := m
  cases items with
  | nil => rfl
  | cons e rest =>
    obtain ⟨k₀, v₀⟩ := e
    unfold insert first insertItems
    rw [if_neg (Nat.not_lt.mpr (h k₀ rfl))]
    split
    · next heq => exact congrArg some heq
    · rfl

theorem first_insert (hinj : Function.Injective rank) (m : SortedMap K V rank) (k : K) (v : V)
    (h : ∀ k', m.first = some k' → rank k' ≤ rank k) :
    ∃ k', (m.insert hinj k v).first = some k' ∧ rank k' ≤ rank k := by
  refine ⟨_, first_insert_eq hinj m k v h, ?_⟩
  cases hfirst : m.first with
  | none => exact Nat.le_refl _
  | some k' => exact h k' hfirst

/-- A key that is found does not come before the first one. -/
theorem first_le_of_find {m : SortedMap K V rank} {k k' : K} {v : V} (h : m.find k = some v)
    (hfirst : m.first = some k') : rank k' ≤ rank k := by
  obtain ⟨items, hsorted⟩ := m
  cases items with
  | nil => cases hfirst
  | cons e rest =>
    obtain rfl : e.1 = k' := Option.some.inj hfirst
    by_contra hlt
    have hnone : findItems rank k (e :: rest) = none := if_pos (Nat.not_le.mp hlt)
    rw [show findItems rank k (e :: rest) = some v from h] at hnone
    cases hnone

/-- The first key is found. -/
theorem find_first {m : SortedMap K V rank} {k : K} (h : m.first = some k) : ∃ v, m.find k = some v := by
  rw [← Option.isSome_iff_exists, ← mem_keys]
  exact List.mem_of_mem_head? (by
    unfold keys
    rw [List.head?_map]
    exact h)

/-! ## Filters -/

section Filter

variable {W : Type}

/-- The items that `f` keeps, with their new values. -/
def filterItems (f : K → V → Option W) (items : List (K × V)) : List (K × W) :=
  items.filterMap fun e => (f e.1 e.2).map (e.1, ·)

omit [DecidableEq K] in
theorem filterItems_cons (f : K → V → Option W) (k : K) (v : V) (rest : List (K × V)) :
    filterItems f ((k, v) :: rest) =
      match f k v with
      | none => filterItems f rest
      | some w => (k, w) :: filterItems f rest := by
  unfold filterItems
  rw [List.filterMap_cons]
  cases f k v with
  | none => rfl
  | some w => rfl

omit [DecidableEq K] in
theorem mem_filterItems {f : K → V → Option W} {items : List (K × V)} {e : K × W} :
    e ∈ filterItems f items ↔ ∃ v, (e.1, v) ∈ items ∧ f e.1 v = some e.2 := by
  unfold filterItems
  rw [List.mem_filterMap]
  constructor
  · rintro ⟨⟨k, v⟩, hmem, hkept⟩
    obtain ⟨w, hw, rfl⟩ := Option.map_eq_some_iff.mp hkept
    exact ⟨v, hmem, hw⟩
  · rintro ⟨v, hmem, hw⟩
    refine ⟨(e.1, v), hmem, ?_⟩
    rw [hw]
    rfl

omit [DecidableEq K] in
theorem filterItems_sorted (f : K → V → Option W) {items : List (K × V)}
    (h : items.Pairwise fun a b => rank a.1 < rank b.1) :
    (filterItems f items).Pairwise fun a b => rank a.1 < rank b.1 := by
  refine List.Pairwise.filterMap _ (fun a b hab a' ha b' hb => ?_) h
  obtain ⟨_, -, rfl⟩ := Option.map_eq_some_iff.mp ha
  obtain ⟨_, -, rfl⟩ := Option.map_eq_some_iff.mp hb
  exact hab

/-- The map of what `f` keeps. -/
def filterMap (m : SortedMap K V rank) (f : K → V → Option W) : SortedMap K W rank :=
  ⟨filterItems f m.items, filterItems_sorted f m.sorted⟩

theorem find_filterMap (m : SortedMap K V rank) (f : K → V → Option W) (k : K) :
    (m.filterMap f).find k = (m.find k).bind (f k) := by
  obtain ⟨items, hsorted⟩ := m
  show findItems rank k (filterItems f items) = (findItems rank k items).bind (f k)
  induction items with
  | nil => rfl
  | cons first rest ih =>
    obtain ⟨k', v⟩ := first
    obtain ⟨hfirst, hrest⟩ := List.pairwise_cons.mp hsorted
    -- no key of the rest is `k` or comes before it
    have hnone (h : rank k ≤ rank k') : findItems rank k (filterItems f rest) = none := by
      refine findItems_none fun e he => ?_
      obtain ⟨v', hv', -⟩ := mem_filterItems.mp he
      exact Nat.lt_of_le_of_lt h (hfirst _ hv')
    rw [filterItems_cons, findItems_cons]
    cases hkept : f k' v with
    | none =>
      dsimp only
      split
      · next hlt => exact hnone (Nat.le_of_lt hlt)
      · split
        · next heq =>
          subst heq
          exact (hnone (Nat.le_refl _)).trans hkept.symm
        · exact ih hrest
    | some w =>
      dsimp only
      rw [findItems_cons]
      split
      · rfl
      · split
        · next heq =>
          subst heq
          exact hkept.symm
        · exact ih hrest

omit [DecidableEq K] in
/-- A filter on the elements of a list is one on the map. -/
theorem map_filterItems {α β : Type} {f : K → V → Option W} {g : K × V → α} {g' : K × W → β}
    {c : α → β} {keep : β → Bool}
    (hsome : ∀ k v w, f k v = some w → keep (c (g (k, v))) = true ∧ c (g (k, v)) = g' (k, w))
    (hnone : ∀ k v, f k v = none → keep (c (g (k, v))) = false) (items : List (K × V)) :
    ((items.map g).map c).filter keep = (filterItems f items).map g' := by
  induction items with
  | nil => rfl
  | cons e rest ih =>
    obtain ⟨k, v⟩ := e
    rw [List.map_cons, List.map_cons, List.filter_cons, ih, filterItems_cons]
    cases hkept : f k v with
    | none =>
      rw [hnone k v hkept, if_neg Bool.false_ne_true]
    | some w =>
      obtain ⟨hkeep, heq⟩ := hsome k v w hkept
      rw [hkeep, if_pos rfl, heq]
      rfl

end Filter

end SortedMap

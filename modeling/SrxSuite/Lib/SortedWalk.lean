import Mathlib.Data.List.InsertIdx
import SrxSuite.Lib.SortedMap

/-!
# Walks to a place in a sorted list

A walk from the first element on passes the elements that come before a rank `r` and stops at the
place of `r`. There it finds the element of this rank, or it is where a new one goes. The maps of
`SortedMap` are such walks over their items: `findItems_eq`, `insertItems_eq` and `eraseItems_eq`.
-/

namespace SortedWalk

variable {α β : Type} {rank : α → Nat} {r : Nat} {a new : α} {l : List α}

/-- The place of `r`: how many elements the walk passes. -/
def placeOf (rank : α → Nat) (r : Nat) : List α → Nat
  | [] => 0
  | a :: rest => if rank a < r then placeOf rank r rest + 1 else 0

/-- The element at the place has the rank. -/
def found (rank : α → Nat) (r : Nat) (l : List α) : Bool :=
  (l[placeOf rank r l]?).any (rank · = r)

/-- The list with an element of the rank: `new`, when there is none. -/
def ensure (rank : α → Nat) (r : Nat) (new : α) (l : List α) : List α :=
  if found rank r l then l else l.insertIdx (placeOf rank r l) new

theorem placeOf_of_lt (h : rank a < r) : placeOf rank r (a :: l) = placeOf rank r l + 1 := if_pos h

theorem placeOf_of_le (h : r ≤ rank a) : placeOf rank r (a :: l) = 0 := if_neg (Nat.not_lt.mpr h)

theorem found_of_lt (h : rank a < r) : found rank r (a :: l) = found rank r l := by
  unfold found
  rw [placeOf_of_lt h, List.getElem?_cons_succ]

theorem found_of_eq (h : rank a = r) : found rank r (a :: l) = true := by
  unfold found
  rw [placeOf_of_le (Nat.le_of_eq h.symm)]
  exact decide_eq_true h

theorem found_of_gt (h : r < rank a) : found rank r (a :: l) = false := by
  unfold found
  rw [placeOf_of_le (Nat.le_of_lt h)]
  exact decide_eq_false (Nat.ne_of_gt h)

theorem placeOf_le_length : placeOf rank r l ≤ l.length := by
  induction l with
  | nil => exact Nat.le_refl 0
  | cons a l ih =>
    unfold placeOf
    split
    · exact Nat.succ_le_succ ih
    · exact Nat.zero_le _

/-- The element that is found. -/
theorem getElem?_of_found (h : found rank r l = true) :
    ∃ a, l[placeOf rank r l]? = some a ∧ rank a = r := by
  unfold found at h
  cases hget : l[placeOf rank r l]? with
  | none =>
    rw [hget] at h
    cases h
  | some a =>
    rw [hget] at h
    exact ⟨a, rfl, of_decide_eq_true h⟩

theorem getElem?_ensure_new (h : found rank r l = false) :
    (ensure rank r new l)[placeOf rank r l]? = some new := by
  unfold ensure
  rw [h, if_neg Bool.false_ne_true, List.getElem?_insertIdx_self, if_pos placeOf_le_length]

theorem ensure_of_found (h : found rank r l = true) : ensure rank r new l = l := if_pos h

/-! ## Loops

A loop goes through a list with the place `idx` of its element and that of the one before it. -/

/-- The place before `idx`, if there is one. -/
def prevOf : Nat → Option Nat
  | 0 => none
  | idx + 1 => some idx

/-- The rule for a loop that leaves with `hit` at an element of the rank `r` and with `miss` where a
new one goes: in front of the first element that comes later, or behind the last one. -/
theorem loop_rule (rank : α → Nat) (r : Nat) (loop : Option Nat → Nat → List α → β)
    (hit : Nat → α → β) (miss : Nat → β)
    (heq : ∀ idx a next, a ∈ l → rank a = r → loop (prevOf idx) idx (a :: next) = hit idx a)
    (hgt : ∀ idx a next, a ∈ l → r < rank a → loop (prevOf idx) idx (a :: next) = miss idx)
    (hlt : ∀ idx a next, a ∈ l → rank a < r → next ≠ [] →
      loop (prevOf idx) idx (a :: next) = loop (some idx) (idx + 1) next)
    (hlast : ∀ idx a, a ∈ l → rank a < r → idx + 1 = l.length →
      loop (prevOf idx) idx [a] = miss (idx + 1))
    (hl : l ≠ []) :
    (∃ a, l[placeOf rank r l]? = some a ∧ rank a = r ∧ loop none 0 l = hit (placeOf rank r l) a) ∨
      (found rank r l = false ∧ loop none 0 l = miss (placeOf rank r l)) := by
  suffices hrest : ∀ (rest : List α) (idx : Nat), rest ⊆ l → rest ≠ [] →
      idx + rest.length = l.length →
      (∃ a, rest[placeOf rank r rest]? = some a ∧ rank a = r ∧
        loop (prevOf idx) idx rest = hit (idx + placeOf rank r rest) a) ∨
      (found rank r rest = false ∧ loop (prevOf idx) idx rest = miss (idx + placeOf rank r rest)) by
    have := hrest l 0 (List.Subset.refl l) hl (Nat.zero_add _)
    rw [Nat.zero_add] at this
    exact this
  intro rest
  induction rest with
  | nil => exact fun _ _ h => absurd rfl h
  | cons a next ih =>
    intro idx hsub _ hlen
    have hmem : a ∈ l := hsub List.mem_cons_self
    rcases Nat.lt_trichotomy (rank a) r with ha | ha | ha
    · rw [placeOf_of_lt ha, found_of_lt ha, List.getElem?_cons_succ]
      cases next with
      | nil =>
        rw [hlast idx a hmem ha hlen]
        exact .inr ⟨rfl, rfl⟩
      | cons b next =>
        rw [hlt idx a _ hmem ha (List.cons_ne_nil b next)]
        have hnext := ih (idx + 1) (fun c hc => hsub (List.mem_cons_of_mem _ hc)) (List.cons_ne_nil b next) (by
          rw [← hlen, List.length_cons]
          exact Nat.add_right_comm ..)
        rwa [Nat.add_right_comm, Nat.add_assoc] at hnext
    · rw [placeOf_of_le (Nat.le_of_eq ha.symm)]
      exact .inl ⟨a, rfl, ha, heq idx a next hmem ha⟩
    · rw [placeOf_of_le (Nat.le_of_lt ha), found_of_gt ha]
      exact .inr ⟨rfl, hgt idx a next hmem ha⟩

/-! ## Maps -/

theorem placeOf_map (g : β → α) (l : List β) :
    placeOf rank r (l.map g) = placeOf (fun b => rank (g b)) r l := by
  induction l with
  | nil => rfl
  | cons b l ih =>
    rw [List.map_cons]
    unfold placeOf
    rw [ih]

theorem found_map (g : β → α) (l : List β) :
    found rank r (l.map g) = found (fun b => rank (g b)) r l := by
  unfold found
  rw [placeOf_map, List.getElem?_map, Option.any_map]

theorem ensure_map (g : β → α) (b : β) (l : List β) :
    ensure rank r (g b) (l.map g) = (ensure (fun b => rank (g b)) r b l).map g := by
  unfold ensure
  rw [found_map, placeOf_map]
  split
  · rfl
  · exact (List.map_insertIdx g l _ b).symm

/-! ## The items of a sorted map -/

section Items

variable {K V : Type} [DecidableEq K] {rankK : K → Nat} {k : K} {items : List (K × V)}

/-- The rank of an item. -/
def itemRank (rankK : K → Nat) (e : K × V) : Nat := rankK e.1

theorem findItems_eq (hinj : Function.Injective rankK) (k : K) (items : List (K × V)) :
    SortedMap.findItems rankK k items =
      if found (itemRank rankK) (rankK k) items then
        (items[placeOf (itemRank rankK) (rankK k) items]?).map Prod.snd
      else none := by
  induction items with
  | nil => rfl
  | cons e rest ih =>
    obtain ⟨k', v⟩ := e
    rw [SortedMap.findItems_cons]
    rcases Nat.lt_trichotomy (rankK k') (rankK k) with hlt | heq | hgt
    · have hitem : itemRank rankK (k', v) < rankK k := hlt
      have hne : k ≠ k' := fun h => Nat.ne_of_lt hlt (congrArg rankK h.symm)
      rw [if_neg (Nat.not_lt.mpr (Nat.le_of_lt hlt)), if_neg hne, ih, found_of_lt hitem,
        placeOf_of_lt hitem, List.getElem?_cons_succ]
    · have hitem : itemRank rankK (k', v) = rankK k := heq
      obtain rfl := hinj heq
      rw [if_neg (Nat.lt_irrefl _), if_pos rfl, found_of_eq hitem, if_pos rfl,
        placeOf_of_le (Nat.le_of_eq hitem.symm)]
      rfl
    · have hitem : rankK k < itemRank rankK (k', v) := hgt
      rw [if_pos hgt, found_of_gt hitem, if_neg Bool.false_ne_true]

/-- An insertion makes a place for the key, if there is none, and writes the value there. -/
theorem insertItems_eq (hinj : Function.Injective rankK) (k : K) (v w : V) (items : List (K × V)) :
    SortedMap.insertItems rankK k v items =
      (ensure (itemRank rankK) (rankK k) (k, w) items).set
        (placeOf (itemRank rankK) (rankK k) items) (k, v) := by
  induction items with
  | nil => rfl
  | cons e rest ih =>
    obtain ⟨k', v'⟩ := e
    rw [SortedMap.insertItems]
    rcases Nat.lt_trichotomy (rankK k') (rankK k) with hlt | heq | hgt
    · have hitem : itemRank rankK (k', v') < rankK k := hlt
      have hne : k ≠ k' := fun h => Nat.ne_of_lt hlt (congrArg rankK h.symm)
      rw [if_neg (Nat.not_lt.mpr (Nat.le_of_lt hlt)), if_neg hne, ih, placeOf_of_lt hitem]
      unfold ensure
      rw [found_of_lt hitem, placeOf_of_lt hitem]
      split
      · rfl
      · rfl
    · have hitem : itemRank rankK (k', v') = rankK k := heq
      obtain rfl := hinj heq
      rw [if_neg (Nat.lt_irrefl _), if_pos rfl, ensure_of_found (found_of_eq hitem),
        placeOf_of_le (Nat.le_of_eq hitem.symm)]
      rfl
    · have hitem : rankK k < itemRank rankK (k', v') := hgt
      unfold ensure
      rw [if_pos hgt, found_of_gt hitem, if_neg Bool.false_ne_true, placeOf_of_le (Nat.le_of_lt hitem)]
      rfl

/-- A removal takes the element out that is found. -/
theorem eraseItems_eq (hinj : Function.Injective rankK) (k : K)
    (h : items.Pairwise fun a b => rankK a.1 < rankK b.1) :
    SortedMap.eraseItems k items =
      if found (itemRank rankK) (rankK k) items then
        items.eraseIdx (placeOf (itemRank rankK) (rankK k) items)
      else items := by
  induction items with
  | nil => rfl
  | cons e rest ih =>
    obtain ⟨k', v⟩ := e
    obtain ⟨hfirst, hrest⟩ := List.pairwise_cons.mp h
    rw [SortedMap.eraseItems]
    rcases Nat.lt_trichotomy (rankK k') (rankK k) with hlt | heq | hgt
    · have hitem : itemRank rankK (k', v) < rankK k := hlt
      have hne : k ≠ k' := fun h => Nat.ne_of_lt hlt (congrArg rankK h.symm)
      rw [if_neg hne, ih hrest, found_of_lt hitem, placeOf_of_lt hitem]
      split
      · rfl
      · rfl
    · have hitem : itemRank rankK (k', v) = rankK k := heq
      obtain rfl := hinj heq
      rw [if_pos rfl, found_of_eq hitem, if_pos rfl, placeOf_of_le (Nat.le_of_eq hitem.symm)]
      rfl
    · have hitem : rankK k < itemRank rankK (k', v) := hgt
      have hne : k ≠ k' := fun h => Nat.ne_of_gt hgt (congrArg rankK h.symm)
      rw [if_neg hne, found_of_gt hitem, if_neg Bool.false_ne_true, ih hrest]
      have hnone : found (itemRank rankK) (rankK k) rest = false := by
        cases rest with
        | nil => rfl
        | cons e' rest => exact found_of_gt (Nat.lt_trans hgt (hfirst e' List.mem_cons_self))
      rw [hnone, if_neg Bool.false_ne_true]

end Items

end SortedWalk

/-! ## Places of a sorted map -/

namespace SortedMap

open SortedWalk

variable {K V : Type} [DecidableEq K] {rank : K → Nat} {k : K} {v w : V} {m m' : SortedMap K V rank}

/-- The place of a key. -/
def place (m : SortedMap K V rank) (k : K) : Nat := placeOf (itemRank rank) (rank k) m.items

omit [DecidableEq K] in
theorem ext_items (h : m.items = m'.items) : m = m' := by
  cases m
  cases m'
  cases h
  rfl

theorem found_eq (hinj : Function.Injective rank) (m : SortedMap K V rank) (k : K) :
    found (itemRank rank) (rank k) m.items = (m.find k).isSome := by
  have hfind := findItems_eq hinj k m.items
  unfold find
  rw [hfind]
  cases hfound : found (itemRank rank) (rank k) m.items with
  | false => rfl
  | true =>
    obtain ⟨e, he, -⟩ := getElem?_of_found hfound
    rw [if_pos rfl, he]
    rfl

theorem found_of_find (hinj : Function.Injective rank) (h : m.find k = some v) :
    found (itemRank rank) (rank k) m.items = true := by
  rw [found_eq hinj, h]
  rfl

theorem found_of_none (hinj : Function.Injective rank) (h : m.find k = none) :
    found (itemRank rank) (rank k) m.items = false := by
  rw [found_eq hinj, h]
  rfl

theorem getElem?_place (hinj : Function.Injective rank) (h : m.find k = some v) :
    m.items[m.place k]? = some (k, v) := by
  have hfound := found_of_find hinj h
  obtain ⟨e, he, hrank⟩ := getElem?_of_found hfound
  have hfind := findItems_eq hinj k m.items
  rw [hfound, if_pos rfl, he, show findItems rank k m.items = some v from h] at hfind
  obtain ⟨k', v'⟩ := e
  obtain rfl : k' = k := hinj hrank
  obtain rfl : v = v' := Option.some.inj hfind
  exact he

/-- A key that is there keeps its place. -/
theorem items_insert_of_find (hinj : Function.Injective rank) (h : m.find k = some w) (v : V) :
    (m.insert hinj k v).items = m.items.set (m.place k) (k, v) := by
  have hinsert := insertItems_eq hinj k v v m.items
  rw [ensure_of_found (found_of_find hinj h)] at hinsert
  exact hinsert

/-- A new key goes to its place. -/
theorem items_insert_of_none (hinj : Function.Injective rank) (h : m.find k = none) (v : V) :
    (m.insert hinj k v).items = m.items.insertIdx (m.place k) (k, v) := by
  have hfound := found_of_none hinj h
  have hnew : (ensure (itemRank rank) (rank k) (k, v) m.items)[m.place k]? = some (k, v) :=
    getElem?_ensure_new hfound
  have hinsert := insertItems_eq hinj k v v m.items
  obtain ⟨hlt, hget⟩ := List.getElem?_eq_some_iff.mp hnew
  have hself := List.set_getElem_self hlt
  rw [hget] at hself
  have hensure : ensure (itemRank rank) (rank k) (k, v) m.items =
      m.items.insertIdx (m.place k) (k, v) :=
    if_neg (by
      rw [hfound]
      exact Bool.false_ne_true)
  exact hinsert.trans (hself.trans hensure)

theorem items_erase (hinj : Function.Injective rank) (h : m.find k = some w) :
    (m.erase k).items = m.items.eraseIdx (m.place k) := by
  have herase := eraseItems_eq hinj k m.sorted
  rw [found_of_find hinj h, if_pos rfl] at herase
  exact herase

theorem place_insert (hinj : Function.Injective rank) (m : SortedMap K V rank) (k : K) (v : V) :
    (m.insert hinj k v).place k = m.place k := by
  show placeOf (itemRank rank) (rank k) (insertItems rank k v m.items) = _
  unfold place
  induction m.items with
  | nil => exact if_neg (Nat.lt_irrefl (rank k))
  | cons e rest ih =>
    obtain ⟨k', v'⟩ := e
    rw [insertItems]
    split
    · next hlt =>
      have hitem : rank k ≤ itemRank rank (k', v') := Nat.le_of_lt hlt
      rw [placeOf_of_le hitem]
      exact if_neg (Nat.lt_irrefl (rank k))
    · next hge =>
      split
      · next heq =>
        subst heq
        rfl
      · next hne =>
        have hitem : itemRank rank (k', v') < rank k :=
          Nat.lt_of_le_of_ne (Nat.not_lt.mp hge) fun h => hne (hinj h).symm
        rw [placeOf_of_lt hitem, placeOf_of_lt hitem, ih]

theorem insert_insert (hinj : Function.Injective rank) (m : SortedMap K V rank) (k : K) (v w : V) :
    (m.insert hinj k v).insert hinj k w = m.insert hinj k w := by
  have hfind : (m.insert hinj k v).find k = some v := by
    rw [find_insert, if_pos rfl]
  have hfirst : (m.insert hinj k v).items =
      (ensure (itemRank rank) (rank k) (k, v) m.items).set (m.place k) (k, v) :=
    insertItems_eq hinj k v v m.items
  have hlast : (m.insert hinj k w).items =
      (ensure (itemRank rank) (rank k) (k, v) m.items).set (m.place k) (k, w) :=
    insertItems_eq hinj k w v m.items
  apply ext_items
  rw [items_insert_of_find hinj hfind, place_insert, hfirst, hlast, List.set_set]

end SortedMap

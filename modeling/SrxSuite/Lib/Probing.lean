import Mathlib.Logic.Function.Basic
import Mathlib.Logic.Function.Iterate
import SrxSuite.Lib.Runs

/-!
# Identifiers by hashing and linear probing

Values get an identifier: the hash of the value, or the next key after it that is free or holds a
value the comparison takes for the same. The comparison `differs stored new` may be wrong and may
fail.

`right_iff_clean`: over any run, equal values and no others get equal identifiers if and only if
every value finds, before the first key that is free or holds the value itself, only values the
comparison tells from it.
-/

namespace Probing

variable {K V : Type}

/-- The first of `n` keys from `k` on that is not refused. `none` says that the test failed or that
every key was refused. -/
def probe (refused : K → Option Bool) (next : K → K) : Nat → K → Option K
  | 0, _ => none
  | n + 1, k =>
    match refused k with
    | none => none
    | some true => probe refused next n (next k)
    | some false => some k

/-- A probe ends at the first key that is not refused. -/
theorem probe_eq_some {refused : K → Option Bool} {next : K → K} {n : Nat} {k k' : K} :
    probe refused next n k = some k' ↔
      ∃ j < n, (∀ i < j, refused (next^[i] k) = some true) ∧
        refused (next^[j] k) = some false ∧ next^[j] k = k' := by
  induction n generalizing k with
  | zero =>
    constructor
    · intro h
      cases h
    · rintro ⟨j, hj, -⟩
      exact absurd hj (Nat.not_lt_zero j)
  | succ n ih =>
    unfold probe
    cases hk : refused k with
    | none =>
      constructor
      · intro h
        cases h
      · rintro ⟨j, -, hbefore, hj, -⟩
        cases j with
        | zero => rw [Function.iterate_zero, id, hk] at hj; cases hj
        | succ j =>
          have := hbefore 0 (Nat.succ_pos j)
          rw [Function.iterate_zero, id, hk] at this
          cases this
    | some b =>
      cases b with
      | false =>
        constructor
        · intro h
          exact ⟨0, Nat.succ_pos n, fun i hi => absurd hi (Nat.not_lt_zero i), hk,
            Option.some.inj h⟩
        · rintro ⟨j, -, hbefore, -, rfl⟩
          cases j with
          | zero => rfl
          | succ j =>
            have := hbefore 0 (Nat.succ_pos j)
            rw [Function.iterate_zero, id, hk] at this
            cases this
      | true =>
        dsimp only
        rw [ih]
        constructor
        · rintro ⟨j, hj, hbefore, hend, hkey⟩
          refine ⟨j + 1, Nat.succ_lt_succ hj, fun i hi => ?_, hend, hkey⟩
          cases i with
          | zero => exact hk
          | succ i => exact hbefore i (Nat.lt_of_succ_lt_succ hi)
        · rintro ⟨j, hj, hbefore, hend, hkey⟩
          cases j with
          | zero => rw [Function.iterate_zero, id, hk] at hend; cases hend
          | succ j =>
            exact ⟨j, Nat.lt_of_succ_lt_succ hj,
              fun i hi => hbefore (i + 1) (Nat.succ_lt_succ hi), hend, hkey⟩

/-- The keys a probe looks at. -/
def visited (refused : K → Option Bool) (next : K → K) : Nat → K → List K
  | 0, _ => []
  | n + 1, k => k :: if refused k = some true then visited refused next n (next k) else []

/-- A key is looked at when all before it were refused. -/
theorem mem_visited {refused : K → Option Bool} {next : K → K} {n : Nat} {k k' : K} :
    k' ∈ visited refused next n k ↔
      ∃ j < n, (∀ i < j, refused (next^[i] k) = some true) ∧ next^[j] k = k' := by
  induction n generalizing k with
  | zero =>
    constructor
    · intro h
      cases h
    · rintro ⟨j, hj, -⟩
      exact absurd hj (Nat.not_lt_zero j)
  | succ n ih =>
    unfold visited
    rw [List.mem_cons]
    constructor
    · rintro (rfl | h)
      · exact ⟨0, Nat.succ_pos n, fun i hi => absurd hi (Nat.not_lt_zero i), rfl⟩
      · split at h
        · next hk =>
          obtain ⟨j, hj, hbefore, hkey⟩ := ih.mp h
          refine ⟨j + 1, Nat.succ_lt_succ hj, fun i hi => ?_, hkey⟩
          cases i with
          | zero => exact hk
          | succ i => exact hbefore i (Nat.lt_of_succ_lt_succ hi)
        · cases h
    · rintro ⟨j, hj, hbefore, rfl⟩
      cases j with
      | zero => exact .inl rfl
      | succ j =>
        have hk : refused k = some true := hbefore 0 (Nat.succ_pos j)
        refine .inr ?_
        rw [if_pos hk]
        exact ih.mpr ⟨j, Nat.lt_of_succ_lt_succ hj,
          fun i hi => hbefore (i + 1) (Nat.succ_lt_succ hi), rfl⟩

/-! ## The table -/

/-- How values are placed: `differs stored new` is `none` where the comparison fails. -/
structure Scheme (K V : Type) where
  hash : V → K
  next : K → K
  size : Nat
  differs : V → V → Option Bool
  differs_self : ∀ v, differs v v = some false

/-- What is stored under each key, and the identifiers that were given out. -/
structure Table (K V : Type) where
  store : K → Option V
  given : List (V × Option K)

variable (p : Scheme K V)

/-- A key is refused for a value when it holds one that differs. -/
def Scheme.refused (store : K → Option V) (v : V) (k : K) : Option Bool :=
  match store k with
  | none => some false
  | some u => p.differs u v

/-- The identifier a value gets. -/
def Scheme.place (store : K → Option V) (v : V) : Option K :=
  probe (p.refused store v) p.next p.size (p.hash v)

/-- The table after a value. A value whose key holds nothing is stored. -/
def Scheme.put [DecidableEq K] (t : Table K V) (v : V) : Table K V where
  store :=
    match p.place t.store v with
    | none => t.store
    | some k => if (t.store k).isSome then t.store else Function.update t.store k (some v)
  given := t.given ++ [(v, p.place t.store v)]

/-- Nothing is stored and nothing was given out. -/
def Table.empty : Table K V := ⟨fun _ => none, []⟩

/-- Every value got an identifier, and two the same if and only if they are equal. -/
def Table.Right (t : Table K V) : Prop :=
  (∀ e ∈ t.given, e.2.isSome) ∧ ∀ e ∈ t.given, ∀ e' ∈ t.given, e.2 = e'.2 ↔ e.1 = e'.1

/-- The first `j` keys from the hash of `v` on hold values that the comparison tells from it. -/
def Scheme.ToldApart (store : K → Option V) (v : V) (j : Nat) : Prop :=
  ∀ i < j, ∃ u, store (p.next^[i] (p.hash v)) = some u ∧ p.differs u v = some true

/-- A value finds only values that can be told from it before a key that is free or holds the value
itself. -/
def Scheme.Clean (store : K → Option V) (v : V) : Prop :=
  ∃ j < p.size, p.ToldApart store v j ∧
    ∀ u, store (p.next^[j] (p.hash v)) = some u → u = v

variable {p} {store : K → Option V} {t : Table K V} {v : V} {k : K} {j : Nat}

theorem refused_true_iff {u : V} :
    p.refused store u k = some true ↔ ∃ w, store k = some w ∧ p.differs w u = some true := by
  unfold Scheme.refused
  cases hk : store k with
  | none =>
    constructor
    · intro h
      cases h
    · rintro ⟨w, hw, -⟩
      cases hw
  | some w =>
    constructor
    · intro h
      exact ⟨w, rfl, h⟩
    · rintro ⟨w', hw, h⟩
      cases hw
      exact h

/-- A value is found where it is stored. -/
theorem refused_self (h : ∀ u, store k = some u → u = v) : p.refused store v k = some false := by
  unfold Scheme.refused
  cases hk : store k with
  | none => rfl
  | some u => rw [h u hk]; exact p.differs_self v

theorem place_of_toldApart (hj : j < p.size) (htold : p.ToldApart store v j)
    (hend : ∀ u, store (p.next^[j] (p.hash v)) = some u → u = v) :
    p.place store v = some (p.next^[j] (p.hash v)) :=
  probe_eq_some.mpr ⟨j, hj, fun i hi => refused_true_iff.mpr (htold i hi), refused_self hend, rfl⟩

/-- A value of the table whose probe leads to where it is stored. -/
def Scheme.Located (p : Scheme K V) (store : K → Option V) (v : V) (k : K) : Prop :=
  store k = some v ∧ ∃ j < p.size, p.ToldApart store v j ∧ p.next^[j] (p.hash v) = k

/-- What every clean run leaves: the values that were given an identifier are the stored ones, and
each is found again. -/
structure Scheme.Inv (p : Scheme K V) (t : Table K V) : Prop where
  located : ∀ v i, (v, i) ∈ t.given → ∃ k, i = some k ∧ p.Located t.store v k
  stored : ∀ k v, t.store k = some v → (v, some k) ∈ t.given

theorem Scheme.Located.place (h : p.Located store v k) : p.place store v = some k := by
  obtain ⟨hk, j, hj, htold, rfl⟩ := h
  refine place_of_toldApart hj htold fun u hu => ?_
  rw [hk] at hu
  exact (Option.some.inj hu).symm

theorem Scheme.Inv.right (h : p.Inv t) : t.Right := by
  constructor
  · rintro ⟨v, i⟩ he
    obtain ⟨k, rfl, -⟩ := h.located v i he
    rfl
  · rintro ⟨v, i⟩ he ⟨w, i'⟩ he'
    obtain ⟨k, rfl, hv⟩ := h.located v i he
    obtain ⟨k', rfl, hw⟩ := h.located w i' he'
    constructor
    · intro hids
      obtain rfl : k = k' := Option.some.inj hids
      have := hv.1.symm.trans hw.1
      exact Option.some.inj this
    · rintro rfl
      exact hv.place.symm.trans hw.place

/-- Storing a value at a free key keeps what is located. -/
theorem Scheme.Located.update [DecidableEq K] {w : V} {k' : K} (h : p.Located store v k)
    (hfree : store k' = none) : p.Located (Function.update store k' (some w)) v k := by
  have hkeep {i : K} {u : V} (hi : store i = some u) :
      Function.update store k' (some w) i = some u := by
    rw [Function.update_of_ne, hi]
    rintro rfl
    rw [hfree] at hi
    cases hi
  obtain ⟨hk, j, hj, htold, hkey⟩ := h
  refine ⟨hkeep hk, j, hj, fun i hi => ?_, hkey⟩
  obtain ⟨u, hu, hd⟩ := htold i hi
  exact ⟨u, hkeep hu, hd⟩

theorem inv_empty : p.Inv Table.empty where
  located := fun _ _ h => absurd h List.not_mem_nil
  stored := fun _ _ h => (nomatch h)

variable [DecidableEq K]

/-- A clean step keeps the invariant. -/
theorem inv_put (h : p.Inv t) (hclean : p.Clean t.store v) : p.Inv (p.put t v) := by
  obtain ⟨j, hj, htold, hend⟩ := hclean
  have hplace := place_of_toldApart hj htold hend
  unfold Scheme.put
  rw [hplace]
  dsimp only
  cases hk : t.store (p.next^[j] (p.hash v)) with
  | some u =>
    -- the value is stored already
    obtain rfl : u = v := hend u hk
    rw [if_pos Option.isSome_some]
    constructor
    · intro w i hw
      rcases List.mem_append.mp hw with hw | hw
      · exact h.located w i hw
      · obtain ⟨rfl, rfl⟩ := Prod.mk.inj (List.mem_singleton.mp hw)
        exact ⟨_, rfl, hk, j, hj, htold, rfl⟩
    · intro k w hw
      exact List.mem_append_left _ (h.stored k w hw)
  | none =>
    rw [Option.isSome_none, if_neg Bool.false_ne_true]
    constructor
    · intro w i hw
      rcases List.mem_append.mp hw with hw | hw
      · obtain ⟨k, rfl, hloc⟩ := h.located w i hw
        exact ⟨k, rfl, hloc.update hk⟩
      · obtain ⟨rfl, rfl⟩ := Prod.mk.inj (List.mem_singleton.mp hw)
        refine ⟨_, rfl, Function.update_self _ _ _, j, hj, fun i hi => ?_, rfl⟩
        obtain ⟨u, hu, hd⟩ := htold i hi
        refine ⟨u, ?_, hd⟩
        dsimp only
        rw [Function.update_of_ne, hu]
        intro heq
        rw [heq, hk] at hu
        cases hu
    · intro k w hw
      dsimp only at hw
      by_cases hkey : k = p.next^[j] (p.hash v)
      · rw [hkey, Function.update_self] at hw
        obtain rfl := Option.some.inj hw
        rw [hkey]
        exact List.mem_append_right _ (List.mem_singleton_self _)
      · rw [Function.update_of_ne hkey] at hw
        exact List.mem_append_left _ (h.stored k w hw)

/-- A step that is not clean gives a wrong identifier, or none. -/
theorem not_right_put (h : p.Inv t) (hnot : ¬ p.Clean t.store v) : ¬ (p.put t v).Right := by
  rintro ⟨hsome, hids⟩
  have hnew : (v, p.place t.store v) ∈ (p.put t v).given :=
    List.mem_append_right _ (List.mem_singleton_self _)
  obtain ⟨k, hk⟩ := Option.isSome_iff_exists.mp (hsome _ hnew)
  obtain ⟨j, hj, hbefore, hend, rfl⟩ := probe_eq_some.mp hk
  refine hnot ⟨j, hj, fun i hi => refused_true_iff.mp (hbefore i hi), fun u hu => ?_⟩
  have hold : (u, some (p.next^[j] (p.hash v))) ∈ (p.put t v).given :=
    List.mem_append_left _ (h.stored _ u hu)
  exact (hids _ hold _ hnew).mp hk.symm

/-- Over a run from the empty table the identifiers are right if and only if every step is clean. -/
theorem right_iff_clean (vs : List V) :
    Runs.Always p.put Table.Right Table.empty vs ↔
      Runs.EachStep p.put (fun t v => p.Clean t.store v) Table.empty vs :=
  Runs.always_iff_eachStep (fun _ _ => inv_put) (fun _ => Scheme.Inv.right)
    (fun _ _ => not_right_put) inv_empty

end Probing

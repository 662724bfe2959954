import Mathlib.Tactic.Common

/-!
# Runs of a step function

A run does a list of operations one after the other. `Always P` says that `P` holds in every state
of a run, `EachStep C` that every operation meets `C` in the state it is done in.

`always_iff_eachStep` is the rule for a system that is right exactly as long as its steps meet a
condition: an invariant carries the run as long as they do, and the first step that does not leads
to a state without `P`.
-/

namespace Runs

variable {σ ω : Type} {step : σ → ω → σ} {s : σ} {op : ω} {ops : List ω}

/-- `P` holds in every state of the run, the first and the last included. -/
def Always (step : σ → ω → σ) (P : σ → Prop) (s : σ) (ops : List ω) : Prop :=
  ∀ before after, ops = before ++ after → P (before.foldl step s)

/-- Every operation of the run meets `C`. -/
def EachStep (step : σ → ω → σ) (C : σ → ω → Prop) (s : σ) (ops : List ω) : Prop :=
  ∀ before op after, ops = before ++ op :: after → C (before.foldl step s) op

theorem always_nil {P : σ → Prop} : Always step P s [] ↔ P s := by
  constructor
  · intro h
    exact h [] [] rfl
  · intro h before after heq
    obtain ⟨rfl, -⟩ := List.append_eq_nil_iff.mp heq.symm
    exact h

theorem always_cons {P : σ → Prop} :
    Always step P s (op :: ops) ↔ P s ∧ Always step P (step s op) ops := by
  constructor
  · intro h
    refine ⟨h [] (op :: ops) rfl, fun before after heq => ?_⟩
    exact h (op :: before) after (by rw [heq, List.cons_append])
  · rintro ⟨hs, h⟩ before after heq
    cases before with
    | nil => exact hs
    | cons first before =>
      obtain ⟨rfl, htail⟩ := List.cons.inj heq
      exact h before after htail

theorem eachStep_nil {C : σ → ω → Prop} : EachStep step C s [] := by
  intro before op after heq
  simp at heq

theorem eachStep_cons {C : σ → ω → Prop} :
    EachStep step C s (op :: ops) ↔ C s op ∧ EachStep step C (step s op) ops := by
  constructor
  · intro h
    refine ⟨h [] op ops rfl, fun before op' after heq => ?_⟩
    exact h (op :: before) op' after (by rw [heq, List.cons_append])
  · rintro ⟨hs, h⟩ before op' after heq
    cases before with
    | nil =>
      obtain ⟨rfl, -⟩ := List.cons.inj heq
      exact hs
    | cons first before =>
      obtain ⟨rfl, htail⟩ := List.cons.inj heq
      exact h before op' after htail

instance decidableEachStep {C : σ → ω → Prop} [∀ s op, Decidable (C s op)] :
    (s : σ) → (ops : List ω) → Decidable (EachStep step C s ops)
  | _, [] => .isTrue eachStep_nil
  | s, op :: ops =>
    have : Decidable (EachStep step C (step s op) ops) := decidableEachStep (step s op) ops
    decidable_of_iff (C s op ∧ EachStep step C (step s op) ops) eachStep_cons.symm

instance decidableAlways {P : σ → Prop} [∀ s, Decidable (P s)] :
    (s : σ) → (ops : List ω) → Decidable (Always step P s ops)
  | _, [] => decidable_of_iff _ always_nil.symm
  | s, op :: ops =>
    have : Decidable (Always step P (step s op) ops) := decidableAlways (step s op) ops
    decidable_of_iff (P s ∧ Always step P (step s op) ops) always_cons.symm

theorem eachStep_append {C : σ → ω → Prop} {ops' : List ω} :
    EachStep step C s (ops ++ ops') ↔
      EachStep step C s ops ∧ EachStep step C (ops.foldl step s) ops' := by
  induction ops generalizing s with
  | nil => exact (and_iff_right eachStep_nil).symm
  | cons op ops ih =>
    rw [List.cons_append, eachStep_cons, eachStep_cons, ih, and_assoc]
    rfl

variable {I : σ → Prop} {C : σ → ω → Prop} {P : σ → Prop}

/-- The invariant rule. -/
theorem always_of_eachStep (hstep : ∀ s op, I s → C s op → I (step s op)) (hs : I s)
    (h : EachStep step C s ops) : Always step I s ops := by
  induction ops generalizing s with
  | nil => exact always_nil.mpr hs
  | cons op ops ih =>
    obtain ⟨hop, hrest⟩ := eachStep_cons.mp h
    exact always_cons.mpr ⟨hs, ih (hstep s op hs hop) hrest⟩

theorem Always.and_eachStep (hP : Always step P s ops) (hC : EachStep step C s ops) :
    EachStep step (fun s op => P s ∧ C s op) s ops :=
  fun before op after heq => ⟨hP before (op :: after) heq, hC before op after heq⟩

variable {Q : σ → Prop}

/-- The rule for an exact condition, for runs that stay within `Q`. -/
theorem always_iff_eachStep_within (hstep : ∀ s op, I s → Q s → C s op → I (step s op))
    (hP : ∀ s, I s → P s) (hbad : ∀ s op, I s → Q s → ¬ C s op → ¬ P (step s op)) (hs : I s)
    (hQ : Always step Q s ops) : Always step P s ops ↔ EachStep step C s ops := by
  constructor
  · intro h
    induction ops generalizing s with
    | nil => exact eachStep_nil
    | cons op ops ih =>
      obtain ⟨-, hrest⟩ := always_cons.mp h
      obtain ⟨hQs, hQrest⟩ := always_cons.mp hQ
      have hop : C s op := by
        by_contra hop
        exact hbad s op hs hQs hop (hrest [] ops rfl)
      exact eachStep_cons.mpr ⟨hop, ih (hstep s op hs hQs hop) hQrest hrest⟩
  · intro h before after heq
    exact hP _ (always_of_eachStep (fun s op hI hC => hstep s op hI hC.1 hC.2) hs
      (hQ.and_eachStep h) before after heq)

/-- The rule for an exact condition. -/
theorem always_iff_eachStep (hstep : ∀ s op, I s → C s op → I (step s op)) (hP : ∀ s, I s → P s)
    (hbad : ∀ s op, I s → ¬ C s op → ¬ P (step s op)) (hs : I s) :
    Always step P s ops ↔ EachStep step C s ops :=
  always_iff_eachStep_within (Q := fun _ => True) (fun s op hI _ => hstep s op hI) hP
    (fun s op hI _ => hbad s op hI) hs fun _ _ _ => trivial

/-! ## Runs of a system seen through a map

`proj` takes the states of a system to those of another one and `f` its operations, such that the
steps agree. -/

variable {σ' ω' : Type} {step' : σ' → ω' → σ'} {proj : σ → σ'} {f : ω → ω'}

theorem foldl_map (hproj : ∀ s op, proj (step s op) = step' (proj s) (f op)) (s : σ)
    (ops : List ω) : proj (ops.foldl step s) = (ops.map f).foldl step' (proj s) := by
  induction ops generalizing s with
  | nil => rfl
  | cons op ops ih => rw [List.foldl_cons, ih, hproj, List.map_cons, List.foldl_cons]

/-- A property of the other states holds along the run if and only if it does along the other one. -/
theorem always_map (hproj : ∀ s op, proj (step s op) = step' (proj s) (f op)) (Q : σ' → Prop) :
    Always step (fun s => Q (proj s)) s ops ↔ Always step' Q (proj s) (ops.map f) := by
  constructor
  · intro h before after heq
    obtain ⟨before', after', rfl, rfl, rfl⟩ := List.map_eq_append_iff.mp heq
    rw [← foldl_map hproj]
    exact h before' after' rfl
  · rintro h before after rfl
    rw [foldl_map hproj]
    exact h _ (after.map f) (List.map_append)

/-- The same for a condition on the steps. -/
theorem eachStep_map (hproj : ∀ s op, proj (step s op) = step' (proj s) (f op))
    (D : σ' → ω' → Prop) :
    EachStep step (fun s op => D (proj s) (f op)) s ops ↔ EachStep step' D (proj s) (ops.map f) := by
  constructor
  · intro h before op' after heq
    obtain ⟨before', rest, rfl, rfl, hrest⟩ := List.map_eq_append_iff.mp heq
    obtain ⟨op, after', rfl, rfl, rfl⟩ := List.map_eq_cons_iff.mp hrest
    rw [← foldl_map hproj]
    exact h before' op after' rfl
  · rintro h before op after rfl
    rw [foldl_map hproj]
    exact h _ (f op) (after.map f) (by rw [List.map_append, List.map_cons])

/-- What every step keeps that is defined, a run keeps that is. -/
theorem invariant_foldlM {step? : σ → ω → Option σ} {I : σ → Prop}
    (hstep : ∀ s op s', I s → step? s op = some s' → I s') {s s' : σ} (hs : I s)
    (h : ops.foldlM step? s = some s') : I s' := by
  induction ops generalizing s with
  | nil =>
    obtain rfl := Option.some.inj h
    exact hs
  | cons op ops ih =>
    rw [List.foldlM_cons] at h
    obtain ⟨s₁, hfirst, hrest⟩ := Option.bind_eq_some_iff.mp h
    exact ih (hstep s op s₁ hs hfirst) hrest

/-! ## Steps that may fail -/

section Partial

variable {step? : σ → ω → Option σ}

/-- Every operation of a run meets `C` in the state it is done in, as far as the run comes. -/
def EachPartialStep (step? : σ → ω → Option σ) (C : σ → ω → Prop) (s : σ) (ops : List ω) : Prop :=
  ∀ before op after, ops = before ++ op :: after →
    ∀ s', before.foldlM step? s = some s' → C s' op

theorem eachPartialStep_nil {C : σ → ω → Prop} : EachPartialStep step? C s [] := by
  intro before op after heq
  simp at heq

theorem eachPartialStep_cons {C : σ → ω → Prop} :
    EachPartialStep step? C s (op :: ops) ↔
      C s op ∧ ∀ s', step? s op = some s' → EachPartialStep step? C s' ops := by
  constructor
  · intro h
    refine ⟨h [] op ops rfl s rfl, fun s' hstep before op' after heq t ht => ?_⟩
    refine h (op :: before) op' after (by rw [heq, List.cons_append]) t ?_
    rw [List.foldlM_cons, hstep]
    exact ht
  · rintro ⟨hs, h⟩ before op' after heq t ht
    cases before with
    | nil =>
      obtain ⟨rfl, -⟩ := List.cons.inj heq
      obtain rfl := Option.some.inj ht
      exact hs
    | cons first before =>
      obtain ⟨rfl, htail⟩ := List.cons.inj heq
      rw [List.foldlM_cons] at ht
      obtain ⟨s', hstep, ht⟩ := Option.bind_eq_some_iff.mp ht
      exact h s' hstep before op' after htail t ht

/-- The condition holds along the first part of a run. -/
theorem EachPartialStep.left {C : σ → ω → Prop} {ops' : List ω}
    (h : EachPartialStep step? C s (ops ++ ops')) : EachPartialStep step? C s ops := by
  intro before op after heq
  refine h before op (after ++ ops') ?_
  rw [heq, List.append_assoc, List.cons_append]

/-- The invariant rule: as long as the steps meet the condition none of them fails. -/
theorem completes_of_eachPartialStep
    (hstep : ∀ s op, I s → C s op → ∃ s', step? s op = some s' ∧ I s') (hs : I s)
    (h : EachPartialStep step? C s ops) : ∃ s', ops.foldlM step? s = some s' ∧ I s' := by
  induction ops generalizing s with
  | nil => exact ⟨s, rfl, hs⟩
  | cons op ops ih =>
    obtain ⟨hop, hrest⟩ := eachPartialStep_cons.mp h
    obtain ⟨s', hdone, hs'⟩ := hstep s op hs hop
    obtain ⟨t, hrun, ht⟩ := ih hs' (hrest s' hdone)
    exact ⟨t, by rw [List.foldlM_cons, hdone]; exact hrun, ht⟩

end Partial

end Runs

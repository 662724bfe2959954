import Mathlib.Tactic.Common

/-!
# Counting loops with early exits

`forLoop body n i s` runs `body` for the indices `i, i + 1, …, i + n - 1`. The body
decides at every index how control goes on: to the next index, out of the loop
(`break`), or out of the surrounding function (`return`). `forLoop_inv` is the only
rule the proofs need: an invariant on the index and the loop state.
-/

namespace Loop

/-- How one execution of a loop body ends. -/
inductive Ctl (σ ρ : Type)
  | next (s : σ)
  | brk (s : σ)
  | ret (r : ρ)

variable {σ ρ : Type}

/-- `n` iterations from index `i`. `ok` is the loop state after the loop, `error` is
the value of a `return` inside it. -/
def forLoop (body : Nat → σ → Ctl σ ρ) : (n i : Nat) → σ → Except ρ σ
  | 0, _, s => .ok s
  | n + 1, i, s =>
    match body i s with
    | .next s' => forLoop body n (i + 1) s'
    | .brk s' => .ok s'
    | .ret r => .error r

/-- What one execution of the body at index `i` has to establish for the invariant
`I` and the postcondition `Q` of the loop. -/
def Ctl.Keeps (I : Nat → σ → Prop) (Q : Except ρ σ → Prop) (i : Nat) : Ctl σ ρ → Prop
  | .next s => I (i + 1) s
  | .brk s => Q (.ok s)
  | .ret r => Q (.error r)

/-- The invariant rule: `I` holds on entry, every iteration either keeps `I` or exits
with `Q`, and `I` at the end of the index range gives `Q`. -/
theorem forLoop_inv {body : Nat → σ → Ctl σ ρ} (I : Nat → σ → Prop)
    (Q : Except ρ σ → Prop) {n i : Nat} {s : σ} (h0 : I i s)
    (hstep : ∀ j s, i ≤ j → j < i + n → I j s → (body j s).Keeps I Q j)
    (hend : ∀ s, I (i + n) s → Q (.ok s)) : Q (forLoop body n i s) := by
  induction n generalizing i s with
  | zero => exact hend s h0
  | succ n ih =>
    have hb := hstep i s (Nat.le_refl i) (by omega) h0
    unfold forLoop
    cases hc : body i s with
    | next s' =>
      rw [hc] at hb
      refine ih hb (fun j t hj hlt ht => hstep j t (by omega) (by omega) ht) ?_
      intro t ht
      exact hend t (by rwa [Nat.add_right_comm, Nat.add_assoc] at ht)
    | brk s' => rw [hc] at hb; exact hb
    | ret r => rw [hc] at hb; exact hb

/-! ## Loops whose body can fail -/

/-- `n` iterations from index `i` of a body that can fail. -/
def iterate (body : Nat → σ → Option σ) : (n i : Nat) → σ → Option σ
  | 0, _, s => some s
  | n + 1, i, s => (body i s).bind (iterate body n (i + 1))

@[simp] theorem iterate_zero (body : Nat → σ → Option σ) (i : Nat) (s : σ) :
    iterate body 0 i s = some s := rfl

theorem iterate_succ {body : Nat → σ → Option σ} {n i : Nat} {s s' : σ}
    (h : body i s = some s') : iterate body (n + 1) i s = iterate body n (i + 1) s' := by
  simp [iterate, h]

end Loop

import Mathlib.Algebra.Group.Int.Defs
import Mathlib.Algebra.Group.Nat.Defs
import Mathlib.Data.List.TakeWhile
import Mathlib.Tactic.Common

/-!
# Numbers at the start of a text

What the C functions `strtol` and `strtoul` read: blanks, a sign and digits, up to the first character
that does not belong to the number. A number out of range is cut to the range of a `long` of 64 bits.

`IsDecimal t n` says that a text is a decimal number and nothing else; `leadingInt_of_isDecimal` that
such a text is read as its number.
-/

namespace NumberText

/-- `isspace` -/
def isSpace (c : Char) : Bool :=
  c = ' ' || c = '\t' || c = '\n' || c = '\x0b' || c = '\x0c' || c = '\r'

/-- The number in the digits at the start of a text. -/
def leadingNat (t : List Char) : Nat := Nat.ofDigitChars 10 (t.takeWhile Char.isDigit) 0

/-- The number at the start of a text, behind blanks; 0 if there is none. -/
def leadingInt (t : List Char) : Int :=
  match t.dropWhile isSpace with
  | '-' :: t => -(leadingNat t : Int)
  | '+' :: t => leadingNat t
  | t => leadingNat t

/-- `strtol` with base 10. -/
def strtol (t : List Char) : Int := max (-2 ^ 63) (min (2 ^ 63 - 1) (leadingInt t))

/-- `strtoul` with base 10. A negative number is negated as an `unsigned long`. -/
def strtoul (t : List Char) : Nat :=
  if (leadingInt t).natAbs < 2 ^ 64 then (leadingInt t % 2 ^ 64).toNat else 2 ^ 64 - 1

/-- The text is a decimal number. -/
structure IsDecimal (t : List Char) (n : Nat) : Prop where
  nonempty : t ≠ []
  digits : ∀ c ∈ t, c.isDigit = true
  value : Nat.ofDigitChars 10 t 0 = n

theorem isDecimal_toDigits (n : Nat) : IsDecimal (Nat.toDigits 10 n) n :=
  ⟨Nat.toDigits_ne_nil, fun _ h => Nat.isDigit_of_mem_toDigits (by decide) (by decide) h,
    Nat.ofDigitChars_ten_toDigits⟩

theorem isSpace_of_isDigit {c : Char} (h : c.isDigit = true) : isSpace c = false := by
  have hne (c' : Char) (hc' : c'.isDigit = false) : decide (c = c') = false :=
    decide_eq_false fun heq => by rw [heq, hc'] at h; cases h
  unfold isSpace
  rw [hne ' ' rfl, hne '\t' rfl, hne '\n' rfl, hne '\x0b' rfl, hne '\x0c' rfl, hne '\r' rfl]
  rfl

theorem leadingInt_of_isDecimal {t : List Char} {n : Nat} (h : IsDecimal t n) : leadingInt t = n := by
  obtain ⟨hne, hdigits, rfl⟩ := h
  have hall : t.takeWhile Char.isDigit = t := List.takeWhile_eq_self_iff.mpr hdigits
  cases t with
  | nil => exact absurd rfl hne
  | cons c t =>
    have hc := hdigits c List.mem_cons_self
    have hskip : (c :: t).dropWhile isSpace = c :: t :=
      List.dropWhile_cons_of_neg (by rw [isSpace_of_isDigit hc]; exact Bool.false_ne_true)
    unfold leadingInt leadingNat
    rw [hskip]
    split
    · next heq =>
      obtain ⟨rfl, -⟩ := List.cons.inj heq
      cases hc
    · next heq =>
      obtain ⟨rfl, -⟩ := List.cons.inj heq
      cases hc
    · rw [hall]

end NumberText

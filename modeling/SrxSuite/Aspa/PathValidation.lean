import Mathlib.Data.List.GetD
import Mathlib.Data.Nat.Find
import SrxSuite.Lib.Loop
import SrxSuite.Shared.Defs

/-!
# ASPA path verification

The model of `validateASPA` (`server/command_handler.c`) and its agreement with the
declarative definition of the ASPA verdict.

The code copies the AS path, reverses the copy so that the origin comes first, and
scans it. For an upstream path one scan looks for an invalid hop. For a downstream
path three scans find the end `K` of the valid up-ramp, the start `L` of the valid
down-ramp, and then, between the two, an invalid up-edge followed by an invalid
down-edge. The scans are written with `Loop.forLoop`, one loop of the source each.

Results:
1. `reverse_eq`: the recursive in-place `reverse` reverses the copied path.
2. `upScan_spec`, `rampScan_spec`, `forwardScan_spec`, `reverseScan_spec`: what each
   loop computes.
3. `validateASPA_correct`: the verdict is the reference verdict for every lookup
   function, path, segment type and direction.
-/

namespace SrxSuite.Aspa

open Loop

/-! ## The code -/

/-- `reverse(arr, i, n)`: the values are put back on the way out of the recursion. -/
def reverse (arr : List UInt32) (i n : Nat) : List UInt32 :=
  if i < n then
    let value := arr.getD i 0
    (reverse arr (i + 1) n).set (n - i - 1) value
  else arr
termination_by n - i

/-- Up stream loop: `hop idx` is the lookup of `list[idx + 1]` among the providers of
`list[idx]`. An invalid hop returns at once. -/
def upScan (hop : Nat → AspaResult) (count : Nat) (result : UInt16) :
    Except SrxResult UInt16 :=
  forLoop (fun idx result =>
    let currentResult := hop idx
    let result := result ||| currentResult.code
    if currentResult = .valid ∨ currentResult = .unknown then .next result
    else if currentResult = .invalid then .ret .invalid
    else .next result) count 0 result

/-- The loops that find the K and the L value: the largest index up to which all hops,
from index `1` on, are valid. -/
def rampScan (hop : Nat → AspaResult) (count : Nat) : Except SrxResult Nat :=
  forLoop (fun i iMax => if hop i = .valid then .next i else .brk iMax) count 1 0

/-- The forward check between the ramps. The state is `(u_val, result)`. -/
def forwardScan (hop : Nat → AspaResult) (count start : Nat) (result : UInt16) :
    Except SrxResult (Nat × UInt16) :=
  forLoop (fun i (s : Nat × UInt16) =>
    if hop i = .invalid then .brk (i, s.2)
    else .next (s.1, s.2 ||| AspaResult.unknown.code)) count start (0, result)

/-- The reverse check between the ramps. -/
def reverseScan (hop : Nat → AspaResult) (count start : Nat) (result : UInt16) :
    Except SrxResult UInt16 :=
  forLoop (fun j result =>
    if hop j = .invalid then .ret .invalid
    else .next (result ||| AspaResult.unknown.code)) count start result

/-- `Validation_Result`: from the collected bits to the returned value. -/
def finalResult (result : UInt16) : SrxResult :=
  let result := result &&& 0x0f
  if result = AspaResult.valid.code then .valid
  else if result &&& AspaResult.unknown.code ≠ 0 ∧ result &&& aspaUnverifiable = 0 then .unknown
  else if result &&& aspaUnverifiable ≠ 0 ∧ result &&& AspaResult.unknown.code = 0 then
    .unverifiable
  else if result &&& aspaUnverifiable ≠ 0 ∧ result &&& AspaResult.unknown.code ≠ 0 then
    .unverifiable
  else .undefined

/-- The down stream part of `validateASPA` on the reversed path. `up i` is the lookup
of `list[i]` among the providers of `list[i - 1]`, `down j` the one of `list[j - 1]`
among the providers of `list[j]`. -/
def downStream (up down : Nat → AspaResult) (length : Nat) (result : UInt16) :
    Except SrxResult UInt16 := do
  if length = 1 then return result ||| AspaResult.valid.code
  let iMax ← rampScan up (length - 2)
  let kVal := iMax + 1
  if kVal = length - 1 then return result ||| AspaResult.valid.code
  let jMax ← rampScan (fun j => down (length - j)) (length - kVal - 1)
  let lVal := length - jMax
  if lVal ≤ kVal + 1 then return result ||| AspaResult.valid.code
  let (uVal, result) ← forwardScan up (lVal - 1 - kVal) kVal result
  if uVal ≠ 0 then reverseScan down (lVal - 1 - uVal) (uVal + 1) result
  else return result

/-- `validateASPA`. The lookup function stands for `ASPA_DB_lookup` on the database at
hand; its arguments are the customer AS, the provider AS and the address family. -/
def validateASPA (lookup : UInt32 → UInt32 → UInt8 → AspaResult) (asPathList : List UInt32)
    (length : UInt8) (asType : AsType) (direction : AsRelDir) (afi : UInt8) : SrxResult :=
  let result := aspaNibbleZero
  let result :=
    if asType = .asSet ∨ asType ≠ .asSequence then result ||| aspaUnverifiable else result
  let list := reverse (asPathList.take length.toNat) 0 length.toNat
  let hop := fun customer provider => lookup (list.getD customer 0) (list.getD provider 0) afi
  let isUpStream := direction = .unknownStream ∨ direction = .upStream
  let scanned :=
    if isUpStream then upScan (fun idx => hop idx (idx + 1)) (length.toNat - 1) result
    else downStream (fun i => hop (i - 1) i) (fun j => hop j (j - 1)) length.toNat result
  match scanned with
  | .error r => r
  | .ok result => finalResult result

/-! ## The reference verdict -/

section Reference

variable (hop : UInt32 → UInt32 → AspaResult) (asPathList : List UInt32)

/-- `AS(i)`, counted from the origin `AS(1)`, which is the last element of the path as
it is received. -/
def asAt (i : Nat) : UInt32 := asPathList.reverse.getD (i - 1) 0

/-- `hop(AS(i) -> AS(i + 1))`. -/
def upHop (i : Nat) : AspaResult := hop (asAt asPathList i) (asAt asPathList (i + 1))

/-- `hop(AS(i + 1) -> AS(i))`. -/
def downHop (i : Nat) : AspaResult := hop (asAt asPathList (i + 1)) (asAt asPathList i)

end Reference

/-- Some hop of the path, from the origin on, has the outcome `r`. -/
def SomeHop (up : Nat → AspaResult) (n : Nat) (r : AspaResult) : Prop :=
  ∃ i, 1 ≤ i ∧ i < n ∧ up i = r

/-- An invalid up-edge `AS(u - 1) -> AS(u)` strictly before an invalid down-edge
`AS(v + 1) -> AS(v)`. -/
def Valley (up down : Nat → AspaResult) (n : Nat) : Prop :=
  ∃ u v, 2 ≤ u ∧ u ≤ v ∧ v < n ∧ up (u - 1) = .invalid ∧ down v = .invalid

/-- The number of ASes on the longest ramp whose edges, counted from `1`, are all
valid. -/
def ramp (edge : Nat → AspaResult) (n : Nat) : Nat :=
  Nat.findGreatest (fun k => ∀ i < k, 1 ≤ i → edge i = .valid) n

/-- The up-ramp from the origin and the down-ramp from the receiver cover all `n` ASes
of the path. -/
def Covered (up down : Nat → AspaResult) (n : Nat) : Prop :=
  n ≤ ramp up n + ramp (fun j => down (n - j)) n

open Classical in
/-- The verdict for a path of AS sequences. -/
noncomputable def sequenceVerdict (up down : Nat → AspaResult) (n : Nat) :
    AsRelDir → SrxResult
  | .downStream =>
    if Valley up down n then .invalid else if Covered up down n then .valid else .unknown
  | _ =>
    if SomeHop up n .invalid then .invalid
    else if SomeHop up n .unknown then .unknown else .valid

/-- The verdict for any path: a segment that is not an AS sequence makes the path
unverifiable, unless the sequence rule already finds it invalid. -/
noncomputable def referenceVerdict (hop : UInt32 → UInt32 → AspaResult)
    (asPathList : List UInt32) (asType : AsType) (direction : AsRelDir) : SrxResult :=
  let verdict := sequenceVerdict (upHop hop asPathList) (downHop hop asPathList)
    asPathList.length direction
  if asType = .asSequence ∨ verdict = .invalid then verdict else .unverifiable

/-! ## The loops -/

namespace PathValidationLemmas

theorem length_reverse (arr : List UInt32) (i n : Nat) : (reverse arr i n).length = arr.length := by
  fun_induction reverse arr i n with
  | case1 i hi value ih => simpa using ih
  | case2 i hi => rfl

/-- After the recursion from index `i` on, the first `n - i` places hold the values from
the end of the array. -/
theorem getD_reverse (arr : List UInt32) (i n j : Nat) (hn : n ≤ arr.length) :
    (reverse arr i n).getD j 0 = if j < n - i then arr.getD (n - 1 - j) 0 else arr.getD j 0 := by
  fun_induction reverse arr i n with
  | case1 i hi value ih =>
    simp only [List.getD_eq_getElem?_getD, List.getElem?_set] at ih ⊢
    rw [length_reverse]
    by_cases hj : n - i - 1 = j
    · have h1 : j < arr.length := by omega
      have h2 : n - 1 - j = i := by omega
      simp only [hj, h1, h2, value, show j < n - i by omega, if_true, Option.getD_some,
        List.getD_eq_getElem?_getD]
    · rw [if_neg hj, ih]
      by_cases hlt : j < n - (i + 1)
      · rw [if_pos hlt, if_pos (by omega)]
      · rw [if_neg hlt, if_neg (by omega)]
  | case2 i hi => rw [if_neg (by omega)]

end PathValidationLemmas

open PathValidationLemmas

/-- The recursive in-place `reverse` is list reversal. -/
theorem reverse_eq (arr : List UInt32) : reverse arr 0 arr.length = arr.reverse := by
  apply List.ext_getElem
  · rw [length_reverse, List.length_reverse]
  · intro j h1 h2
    have hj : j < arr.length := by rwa [length_reverse] at h1
    have h := getD_reverse arr 0 arr.length j (Nat.le_refl _)
    rw [if_pos (by omega), List.getD_eq_getElem _ _ h1,
      List.getD_eq_getElem _ _ (by omega : arr.length - 1 - j < arr.length)] at h
    rw [h, List.getElem_reverse]

/-- The up stream loop returns at the first invalid hop; otherwise it has collected the
unknown bit exactly when some hop is unknown. -/
theorem upScan_spec (hop : Nat → AspaResult) (h3 : ∀ i, hop i ≠ .undefined) (n : Nat)
    (result : UInt16) :
    (upScan hop n result = .error .invalid ∧ ∃ i < n, hop i = .invalid) ∨
    (∃ r, upScan hop n result = .ok r ∧ (∀ i < n, hop i ≠ .invalid) ∧
      (((∃ i < n, hop i = .unknown) ∧ r = result ||| AspaResult.unknown.code) ∨
        ((∀ i < n, hop i ≠ .unknown) ∧ r = result))) := by
  unfold upScan
  refine forLoop_inv (ρ := SrxResult)
    (fun idx r => (∀ i < idx, hop i ≠ .invalid) ∧
      (((∃ i < idx, hop i = .unknown) ∧ r = result ||| AspaResult.unknown.code) ∨
        ((∀ i < idx, hop i ≠ .unknown) ∧ r = result)))
    (fun out => (out = .error .invalid ∧ ∃ i < n, hop i = .invalid) ∨
      (∃ r, out = .ok r ∧ (∀ i < n, hop i ≠ .invalid) ∧
        (((∃ i < n, hop i = .unknown) ∧ r = result ||| AspaResult.unknown.code) ∨
          ((∀ i < n, hop i ≠ .unknown) ∧ r = result)))) ?_ ?_ ?_
  · exact ⟨by simp, .inr ⟨by simp, rfl⟩⟩
  · rintro idx r - hlt ⟨hinv, hunk⟩
    have below : ∀ {a : AspaResult}, (∀ i < idx, hop i ≠ a) → hop idx ≠ a →
        ∀ i < idx + 1, hop i ≠ a := by
      intro a hall hidx i hi
      rcases Nat.lt_succ_iff_lt_or_eq.mp hi with hi | rfl
      · exact hall i hi
      · exact hidx
    cases hcur : hop idx with
    | valid =>
      refine ⟨below hinv (by simp [hcur]), ?_⟩
      rcases hunk with ⟨⟨i, hi, hu⟩, rfl⟩ | ⟨hall, rfl⟩
      · exact .inl ⟨⟨i, by omega, hu⟩, by simp [AspaResult.code]⟩
      · exact .inr ⟨below hall (by simp [hcur]), by simp [AspaResult.code]⟩
    | unknown =>
      refine ⟨below hinv (by simp [hcur]), .inl ⟨⟨idx, by omega, hcur⟩, ?_⟩⟩
      rcases hunk with ⟨-, rfl⟩ | ⟨-, rfl⟩
      · rw [UInt16.or_assoc, UInt16.or_self]
      · rfl
    | invalid => exact .inl ⟨rfl, idx, by omega, hcur⟩
    | undefined => exact absurd hcur (h3 idx)
  · rintro r ⟨hinv, hunk⟩
    rw [Nat.zero_add] at hinv hunk
    exact .inr ⟨r, rfl, hinv, hunk⟩

/-- The ramp loops stop at the last index before the first hop that is not valid. -/
theorem rampScan_spec (hop : Nat → AspaResult) (n : Nat) :
    ∃ m ≤ n, rampScan hop n = .ok m ∧ (∀ i, 1 ≤ i → i ≤ m → hop i = .valid) ∧
      (m < n → hop (m + 1) ≠ .valid) := by
  unfold rampScan
  refine forLoop_inv (ρ := SrxResult)
    (fun i iMax => iMax + 1 = i ∧ ∀ k, 1 ≤ k → k ≤ iMax → hop k = .valid)
    (fun out => ∃ m ≤ n, out = .ok m ∧ (∀ i, 1 ≤ i → i ≤ m → hop i = .valid) ∧
      (m < n → hop (m + 1) ≠ .valid)) ?_ ?_ ?_
  · exact ⟨rfl, fun k h1 h2 => absurd h1 (by omega)⟩
  · rintro i iMax hi hlt ⟨rfl, hall⟩
    split
    · next hv =>
      refine ⟨rfl, fun k h1 h2 => ?_⟩
      rcases Nat.lt_or_ge iMax k with hk | hk
      · rwa [show k = iMax + 1 by omega]
      · exact hall k h1 hk
    · next hv => exact ⟨iMax, by omega, rfl, hall, fun _ => hv⟩
  · rintro iMax ⟨hi, hall⟩
    exact ⟨iMax, by omega, rfl, hall, fun h => absurd h (by omega)⟩

/-- The forward check finds the first invalid hop of a non-empty range, or marks the
result as unknown. -/
theorem forwardScan_spec (hop : Nat → AspaResult) (n start : Nat) (hn : 0 < n)
    (result : UInt16) :
    (∃ u r, forwardScan hop n start result = .ok (u, r) ∧ start ≤ u ∧ u < start + n ∧
      hop u = .invalid ∧ (∀ i, start ≤ i → i < u → hop i ≠ .invalid) ∧
      (r = result ∨ r = result ||| AspaResult.unknown.code)) ∨
    (forwardScan hop n start result = .ok (0, result ||| AspaResult.unknown.code) ∧
      ∀ i, start ≤ i → i < start + n → hop i ≠ .invalid) := by
  unfold forwardScan
  refine forLoop_inv (ρ := SrxResult)
    (fun i (s : Nat × UInt16) => s.1 = 0 ∧ (∀ k, start ≤ k → k < i → hop k ≠ .invalid) ∧
      ((i = start ∧ s.2 = result) ∨
        (start < i ∧ s.2 = result ||| AspaResult.unknown.code)))
    (fun out => (∃ u r, out = .ok (u, r) ∧ start ≤ u ∧ u < start + n ∧
      hop u = .invalid ∧ (∀ i, start ≤ i → i < u → hop i ≠ .invalid) ∧
      (r = result ∨ r = result ||| AspaResult.unknown.code)) ∨
      (out = .ok (0, result ||| AspaResult.unknown.code) ∧
        ∀ i, start ≤ i → i < start + n → hop i ≠ .invalid)) ?_ ?_ ?_
  · exact ⟨rfl, fun k h1 h2 => absurd h1 (by omega), .inl ⟨rfl, rfl⟩⟩
  · rintro i ⟨u, r⟩ hi hlt ⟨hu, hall, hr⟩
    dsimp only at hu hr ⊢
    split
    · next hv =>
      exact .inl ⟨i, r, rfl, hi, hlt, hv, hall, hr.imp (·.2) (·.2)⟩
    · next hv =>
      refine ⟨hu, fun k h1 h2 => ?_, .inr ⟨by omega, ?_⟩⟩
      · rcases Nat.lt_or_ge k i with hk | hk
        · exact hall k h1 hk
        · rwa [show k = i by omega]
      · rcases hr with ⟨-, rfl⟩ | ⟨-, rfl⟩
        · rfl
        · simp only [UInt16.or_assoc, UInt16.or_self]
  · rintro ⟨u, r⟩ ⟨hu, hall, hr⟩
    dsimp only at hu hr
    rcases hr with ⟨h, -⟩ | ⟨-, rfl⟩
    · omega
    · subst hu
      exact .inr ⟨rfl, hall⟩

/-- The reverse check returns at the first invalid hop of a non-empty range, or marks
the result as unknown. -/
theorem reverseScan_spec (hop : Nat → AspaResult) (n start : Nat) (hn : 0 < n)
    (result : UInt16) :
    (reverseScan hop n start result = .error .invalid ∧
      ∃ j, start ≤ j ∧ j < start + n ∧ hop j = .invalid) ∨
    (reverseScan hop n start result = .ok (result ||| AspaResult.unknown.code) ∧
      ∀ j, start ≤ j → j < start + n → hop j ≠ .invalid) := by
  unfold reverseScan
  refine forLoop_inv (ρ := SrxResult)
    (fun i r => (∀ k, start ≤ k → k < i → hop k ≠ .invalid) ∧
      ((i = start ∧ r = result) ∨ (start < i ∧ r = result ||| AspaResult.unknown.code)))
    (fun out => (out = .error .invalid ∧
      ∃ j, start ≤ j ∧ j < start + n ∧ hop j = .invalid) ∨
      (out = .ok (result ||| AspaResult.unknown.code) ∧
        ∀ j, start ≤ j → j < start + n → hop j ≠ .invalid)) ?_ ?_ ?_
  · exact ⟨fun k h1 h2 => absurd h1 (by omega), .inl ⟨rfl, rfl⟩⟩
  · rintro i r hi hlt ⟨hall, hr⟩
    split
    · next hv => exact .inl ⟨rfl, i, hi, hlt, hv⟩
    · next hv =>
      refine ⟨fun k h1 h2 => ?_, .inr ⟨by omega, ?_⟩⟩
      · rcases Nat.lt_or_ge k i with hk | hk
        · exact hall k h1 hk
        · rwa [show k = i by omega]
      · rcases hr with ⟨-, rfl⟩ | ⟨-, rfl⟩
        · rfl
        · rw [UInt16.or_assoc, UInt16.or_self]
  · rintro r ⟨hall, hr⟩
    rcases hr with ⟨h, -⟩ | ⟨-, rfl⟩
    · omega
    · exact .inr ⟨rfl, hall⟩

/-! ## The down stream part -/

namespace PathValidationLemmas

/-- The ramp reaches `k` exactly when the edges before `k` are valid. -/
theorem le_ramp_iff {edge : Nat → AspaResult} {n k : Nat} (hk : k ≤ n) :
    k ≤ ramp edge n ↔ ∀ i, 1 ≤ i → i < k → edge i = .valid := by
  constructor
  · intro h i h1 h2
    have hspec := Nat.findGreatest_spec (P := fun k => ∀ i < k, 1 ≤ i → edge i = .valid)
      (Nat.zero_le n) (by simp)
    exact hspec i (Nat.lt_of_lt_of_le h2 h) h1
  · intro h
    exact Nat.le_findGreatest (P := fun k => ∀ i < k, 1 ≤ i → edge i = .valid) hk
      (fun i hi h1 => h i h1 hi)

/-- The ramp ends at the first edge that is not valid. -/
theorem ramp_eq {edge : Nat → AspaResult} {n k : Nat} (hk : k + 1 ≤ n)
    (hall : ∀ i, 1 ≤ i → i ≤ k → edge i = .valid) (hstop : edge (k + 1) ≠ .valid) :
    ramp edge n = k + 1 := by
  refine Nat.le_antisymm ?_ ((le_ramp_iff hk).mpr fun i h1 h2 => hall i h1 (by omega))
  by_contra hlt
  have hle : ramp edge n ≤ n := Nat.findGreatest_le n
  exact hstop ((le_ramp_iff (by omega)).mp (by omega : k + 2 ≤ ramp edge n) (k + 1) (by omega)
    (by omega))

/-- An up-ramp of `k` ASes and a down-ramp from `AS(l)` on leave room for a valley only
strictly between them. -/
theorem valley_between {up down : Nat → AspaResult} {n k l : Nat}
    (hup : ∀ i, 1 ≤ i → i < k → up i = .valid)
    (hdown : ∀ j, l ≤ j → j < n → down j = .valid) (h : Valley up down n) :
    ∃ a b, k ≤ a ∧ a < b ∧ b < l ∧ up a = .invalid ∧ down b = .invalid := by
  obtain ⟨u, v, h2, huv, hvn, hu, hv⟩ := h
  refine ⟨u - 1, v, ?_, by omega, ?_, hu, hv⟩
  · by_contra hlt
    rw [hup (u - 1) (by omega) (by omega)] at hu
    exact absurd hu (by decide)
  · by_contra hle
    rw [hdown v (by omega) hvn] at hv
    exact absurd hv (by decide)

theorem not_valley_of_meet {up down : Nat → AspaResult} {n k l : Nat}
    (hup : ∀ i, 1 ≤ i → i < k → up i = .valid)
    (hdown : ∀ j, l ≤ j → j < n → down j = .valid) (hlk : l ≤ k + 1) : ¬ Valley up down n := by
  intro h
  obtain ⟨a, b, h1, h2, h3, -, -⟩ := valley_between hup hdown h
  omega

/-- A path that the two ramps cover has no valley. -/
theorem covered_not_valley {up down : Nat → AspaResult} {n : Nat} (h : Covered up down n) :
    ¬ Valley up down n := by
  have hr : ∀ e : Nat → AspaResult, ramp e n ≤ n := fun e => Nat.findGreatest_le n
  refine not_valley_of_meet (k := ramp up n) (l := n + 1 - ramp (fun j => down (n - j)) n)
    ((le_ramp_iff (hr _)).mp (Nat.le_refl _)) ?_ ?_
  · intro j hj hn
    have hd := (le_ramp_iff (hr fun j => down (n - j))).mp (Nat.le_refl _) (n - j) (by omega)
      (by have := hr fun j => down (n - j); omega)
    rwa [show n - (n - j) = j by omega] at hd
  · unfold Covered at h
    omega

end PathValidationLemmas

/-- The down stream part: INVALID exactly for a valley; otherwise the unknown bit is set
exactly when the ramps do not cover the path. -/
theorem downStream_spec (up down : Nat → AspaResult) {n : Nat} (hn : 1 ≤ n) (result : UInt16) :
    (downStream up down n result = .error .invalid ∧ Valley up down n) ∨
    (downStream up down n result = .ok result ∧ Covered up down n) ∨
    (downStream up down n result = .ok (result ||| AspaResult.unknown.code) ∧
      ¬ Valley up down n ∧ ¬ Covered up down n) := by
  have hzero : result ||| AspaResult.valid.code = result := by simp [AspaResult.code]
  have one_le : ∀ e : Nat → AspaResult, 1 ≤ ramp e n := fun e =>
    (le_ramp_iff hn).mpr fun i h1 h2 => absurd h1 (by omega)
  unfold downStream
  by_cases h1 : n = 1
  · refine .inr (.inl ⟨by simp [h1, hzero, pure, Except.pure], ?_⟩)
    have := one_le up
    unfold Covered
    omega
  obtain ⟨iMax, hi, hscan, hup, hstop⟩ := rampScan_spec up (n - 2)
  rw [if_neg h1, hscan]
  simp only [bind, Except.bind, pure, Except.pure]
  by_cases hk : iMax + 1 = n - 1
  · refine .inr (.inl ⟨by rw [if_pos hk, hzero], ?_⟩)
    have hu : n - 1 ≤ ramp up n := (le_ramp_iff (by omega)).mpr fun i h1 h2 => hup i h1 (by omega)
    have := one_le fun j => down (n - j)
    unfold Covered
    omega
  rw [if_neg hk]
  have hrup : ramp up n = iMax + 1 := ramp_eq (by omega) hup (hstop (by omega))
  obtain ⟨jMax, hj, hscan', hdown, hstop'⟩ :=
    rampScan_spec (fun j => down (n - j)) (n - (iMax + 1) - 1)
  rw [hscan']
  dsimp only
  -- the scanned part of the down-ramp, as edges of the path
  have hdown' : ∀ j, n - jMax ≤ j → j < n → down j = .valid := by
    intro j hj1 hj2
    have hd := hdown (n - j) (by omega) (by omega)
    rwa [show n - (n - j) = j by omega] at hd
  have hup' : ∀ i, 1 ≤ i → i < iMax + 1 → up i = .valid := fun i h1 h2 => hup i h1 (by omega)
  by_cases hl : n - jMax ≤ iMax + 1 + 1
  · refine .inr (.inl ⟨by rw [if_pos hl, hzero], ?_⟩)
    have hd : jMax + 1 ≤ ramp (fun j => down (n - j)) n :=
      (le_ramp_iff (by omega)).mpr fun i h1 h2 => hdown i h1 (by omega)
    unfold Covered
    omega
  rw [if_neg hl]
  have hrdown : ramp (fun j => down (n - j)) n = jMax + 1 :=
    ramp_eq (by omega) hdown (hstop' (by omega))
  have hncov : ¬ Covered up down n := by
    unfold Covered
    omega
  rcases forwardScan_spec up (n - jMax - 1 - (iMax + 1)) (iMax + 1) (by omega) result
    with ⟨u, r, hf, hu1, hu2, hinv, hfirst, hr⟩ | ⟨hf, hnone⟩
  · rw [hf]
    dsimp only
    rw [if_pos (by omega)]
    rcases reverseScan_spec down (n - jMax - 1 - u) (u + 1) (by omega) r
      with ⟨hb, j, hj1, hj2, hjinv⟩ | ⟨hb, hnone⟩
    · exact .inl ⟨hb, u + 1, j, by omega, hj1, by omega, by simpa using hinv, hjinv⟩
    · refine .inr (.inr ⟨?_, ?_, hncov⟩)
      · rw [hb]
        rcases hr with rfl | rfl
        · rfl
        · rw [UInt16.or_assoc, UInt16.or_self]
      · intro hval
        obtain ⟨a, b, ha, hab, hb', hai, hbi⟩ := valley_between hup' hdown' hval
        have hua : u ≤ a := by
          by_contra hlt
          exact hfirst a ha (by omega) hai
        exact hnone b (by omega) (by omega) hbi
  · rw [hf]
    dsimp only
    rw [if_neg (by omega)]
    refine .inr (.inr ⟨rfl, ?_, hncov⟩)
    intro hval
    obtain ⟨a, b, ha, hab, hb', hai, -⟩ := valley_between hup' hdown' hval
    exact hnone a ha (by omega) hai

/-! ## The verdict -/

/-- The collected result before the scans: the unverifiable bit marks a path with a
segment that is not a sequence. -/
def typeBits (asType : AsType) : UInt16 :=
  if asType = .asSequence then aspaNibbleZero else aspaNibbleZero ||| aspaUnverifiable

theorem finalResult_typeBits (asType : AsType) :
    finalResult (typeBits asType) = if asType = .asSequence then .valid else .unverifiable := by
  unfold typeBits
  split
  · decide
  · decide

theorem finalResult_typeBits_unknown (asType : AsType) :
    finalResult (typeBits asType ||| AspaResult.unknown.code) =
      if asType = .asSequence then .unknown else .unverifiable := by
  unfold typeBits
  split
  · decide
  · decide

namespace PathValidationLemmas

/-- A loop that is left early returns INVALID. -/
theorem upScan_error {hop : Nat → AspaResult} {count : Nat} {result : UInt16} {r : SrxResult}
    (h : upScan hop count result = .error r) : r = .invalid := by
  refine forLoop_inv (fun _ _ => True) (fun out => ∀ r, out = .error r → r = .invalid) trivial
    (fun idx result _ _ _ => ?_) (fun _ _ _ hr => (nomatch hr)) r h
  dsimp only
  split
  · trivial
  · split
    · rintro r ⟨⟩
      rfl
    · trivial

theorem reverseScan_error {hop : Nat → AspaResult} {count start : Nat} {result : UInt16}
    {r : SrxResult} (h : reverseScan hop count start result = .error r) : r = .invalid := by
  refine forLoop_inv (fun _ _ => True) (fun out => ∀ r, out = .error r → r = .invalid) trivial
    (fun idx result _ _ _ => ?_) (fun _ _ _ hr => (nomatch hr)) r h
  split
  · rintro r ⟨⟩
    rfl
  · trivial

theorem downStream_error {up down : Nat → AspaResult} {length : Nat} {result : UInt16}
    {r : SrxResult} (h : downStream up down length result = .error r) : r = .invalid := by
  have hramp (hop : Nat → AspaResult) (count : Nat) : ∃ iMax, rampScan hop count = .ok iMax := by
    refine forLoop_inv (fun _ _ => True) (fun out => ∃ iMax, out = .ok iMax) trivial
      (fun i iMax _ _ _ => ?_) fun s _ => ⟨s, rfl⟩
    split
    · trivial
    · exact ⟨iMax, rfl⟩
  have hforward (count start : Nat) : ∃ out, forwardScan up count start result = .ok out := by
    refine forLoop_inv (fun _ _ => True) (fun out => ∃ s, out = .ok s) trivial
      (fun i s _ _ _ => ?_) fun s _ => ⟨s, rfl⟩
    split
    · exact ⟨_, rfl⟩
    · trivial
  unfold downStream at h
  split at h
  · cases h
  · obtain ⟨iMax, hmax⟩ := hramp up (length - 2)
    rw [hmax] at h
    change (if iMax + 1 = length - 1 then _ else _) = _ at h
    split at h
    · cases h
    · obtain ⟨jMax, hjmax⟩ := hramp (fun j => down (length - j)) (length - (iMax + 1) - 1)
      rw [hjmax] at h
      change (if length - jMax ≤ iMax + 1 + 1 then _ else _) = _ at h
      split at h
      · cases h
      · obtain ⟨out, hout⟩ := hforward (length - jMax - 1 - (iMax + 1)) (iMax + 1)
        rw [hout] at h
        change (if out.1 ≠ 0 then _ else _) = _ at h
        split at h
        · exact reverseScan_error h
        · cases h

/-- Every verdict is a result. -/
theorem validateASPA_ne_doNotUse (lookup : UInt32 → UInt32 → UInt8 → AspaResult)
    (asPathList : List UInt32) (length : UInt8) (asType : AsType) (direction : AsRelDir)
    (afi : UInt8) : validateASPA lookup asPathList length asType direction afi ≠ .doNotUse := by
  have hfinal (result : UInt16) : finalResult result ≠ .doNotUse := by
    unfold finalResult
    dsimp only
    repeat' split
    all_goals decide
  unfold validateASPA
  dsimp only
  split
  · next r hr =>
    have hinvalid : r = .invalid := by
      split at hr
      · exact upScan_error hr
      · exact downStream_error hr
    rw [hinvalid]
    decide
  · exact hfinal _

/-- There is nothing to look up in a path without ASes. -/
theorem validateASPA_empty_set (lookup : UInt32 → UInt32 → UInt8 → AspaResult)
    (direction : AsRelDir) (afi : UInt8) :
    validateASPA lookup [] 0 .asSet direction afi = .unverifiable := by
  cases direction with
  | unknownStream => rfl
  | upStream => rfl
  | downStream => rfl

end PathValidationLemmas

/-- `validateASPA` with the path reversed and the hops named as in the reference. -/
theorem validateASPA_eq (lookup : UInt32 → UInt32 → UInt8 → AspaResult)
    (asPathList : List UInt32) (hlen : asPathList.length ≤ 255) (asType : AsType)
    (direction : AsRelDir) (afi : UInt8) :
    validateASPA lookup asPathList (UInt8.ofNat asPathList.length) asType direction afi =
      match if direction = .unknownStream ∨ direction = .upStream then
          upScan (fun i => upHop (lookup · · afi) asPathList (i + 1)) (asPathList.length - 1)
            (typeBits asType)
        else downStream (upHop (lookup · · afi) asPathList) (downHop (lookup · · afi) asPathList)
          asPathList.length (typeBits asType) with
      | .error r => r
      | .ok result => finalResult result := by
  have hto : (UInt8.ofNat asPathList.length).toNat = asPathList.length := by
    simpa using Nat.mod_eq_of_lt (by omega : asPathList.length < 256)
  have hbits : (if asType = .asSet ∨ asType ≠ .asSequence then aspaNibbleZero ||| aspaUnverifiable
      else aspaNibbleZero) = typeBits asType := by
    cases asType <;> rfl
  unfold validateASPA
  rw [hto]
  simp only [List.take_length, reverse_eq, hbits]
  rfl

open Classical in
/-- `validateASPA` returns the reference verdict, for every lookup function with the three
outcomes of a hop, every path of 1 to 255 ASes, every segment type, every direction and
every address family. For a downstream path the conditions for INVALID and for VALID
exclude each other, so both are exact. -/
theorem validateASPA_correct (lookup : UInt32 → UInt32 → UInt8 → AspaResult)
    (h3 : ∀ customer provider afi, lookup customer provider afi ≠ .undefined)
    (asPathList : List UInt32) (h1 : 1 ≤ asPathList.length) (h255 : asPathList.length ≤ 255)
    (asType : AsType) (direction : AsRelDir) (afi : UInt8) :
    validateASPA lookup asPathList (UInt8.ofNat asPathList.length) asType direction afi =
        referenceVerdict (lookup · · afi) asPathList asType direction ∧
      ¬ (Valley (upHop (lookup · · afi) asPathList) (downHop (lookup · · afi) asPathList)
          asPathList.length ∧
        Covered (upHop (lookup · · afi) asPathList) (downHop (lookup · · afi) asPathList)
          asPathList.length) := by
  refine ⟨?_, fun h => covered_not_valley h.2 h.1⟩
  rw [validateASPA_eq lookup asPathList h255]
  generalize hup : upHop (lookup · · afi) asPathList = up
  generalize hdn : downHop (lookup · · afi) asPathList = down
  unfold referenceVerdict
  rw [hup, hdn]
  have h3' : ∀ i, up i ≠ .undefined := fun i => by rw [← hup]; exact h3 _ _ _
  by_cases hd : direction = .downStream
  · subst hd
    rw [if_neg (by decide)]
    simp only [sequenceVerdict]
    rcases downStream_spec up down h1 (typeBits asType) with
      ⟨he, hv⟩ | ⟨he, hc⟩ | ⟨he, hv, hc⟩
    · simp only [he, if_pos hv, or_true, if_true]
    · simp only [he, if_neg (covered_not_valley hc), if_pos hc, finalResult_typeBits]
      simp
    · simp only [he, if_neg hv, if_neg hc, finalResult_typeBits_unknown]
      simp
  · have hdir : direction = .unknownStream ∨ direction = .upStream := by
      cases direction <;> simp_all
    have hseq : sequenceVerdict up down asPathList.length direction =
        if SomeHop up asPathList.length .invalid then .invalid
        else if SomeHop up asPathList.length .unknown then .unknown else .valid := by
      rcases hdir with rfl | rfl <;> rfl
    have hsome : ∀ r, SomeHop up asPathList.length r ↔
        ∃ i < asPathList.length - 1, up (i + 1) = r := by
      intro r
      constructor
      · rintro ⟨i, hi1, hin, hr⟩
        exact ⟨i - 1, by omega, by rwa [Nat.sub_add_cancel hi1]⟩
      · rintro ⟨i, hin, hr⟩
        exact ⟨i + 1, by omega, by omega, hr⟩
    rw [if_pos hdir, hseq]
    rcases upScan_spec (fun i => up (i + 1)) (fun i => h3' _) (asPathList.length - 1)
      (typeBits asType) with ⟨he, hinv⟩ | ⟨r, he, hninv, hr⟩
    · simp only [he, if_pos ((hsome _).mpr hinv), or_true, if_true]
    · have hni : ¬ SomeHop up asPathList.length .invalid := by
        rw [hsome]
        rintro ⟨i, hi, h⟩
        exact hninv i hi h
      simp only [he, if_neg hni]
      rcases hr with ⟨hunk, rfl⟩ | ⟨hnunk, rfl⟩
      · simp only [if_pos ((hsome _).mpr hunk), finalResult_typeBits_unknown]
        simp
      · have hnu : ¬ SomeHop up asPathList.length .unknown := by
          rw [hsome]
          rintro ⟨i, hi, h⟩
          exact hnunk i hi h
        simp only [if_neg hnu, finalResult_typeBits]
        simp

/-- A downstream path of four ASes whose first up-edge and last down-edge are invalid:
the verdict is INVALID. -/
theorem validateASPA_correct_valley :
    validateASPA (fun c p _ => if c = 1 ∧ p = 2 ∨ c = 4 ∧ p = 3 then .invalid else .unknown)
        [4, 3, 2, 1] (UInt8.ofNat 4) .asSequence .downStream 1 =
      referenceVerdict
        (fun c p => if c = 1 ∧ p = 2 ∨ c = 4 ∧ p = 3 then .invalid else .unknown)
        [4, 3, 2, 1] .asSequence .downStream :=
  (validateASPA_correct
    (fun c p _ => if c = 1 ∧ p = 2 ∨ c = 4 ∧ p = 3 then .invalid else .unknown)
    (fun c p _ => by split <;> decide) [4, 3, 2, 1] (by decide) (by decide) .asSequence
    .downStream 1).1

example : validateASPA
    (fun c p _ => if c = 1 ∧ p = 2 ∨ c = 4 ∧ p = 3 then .invalid else .unknown)
    [4, 3, 2, 1] 4 .asSequence .downStream 1 = .invalid := by decide +kernel

end SrxSuite.Aspa

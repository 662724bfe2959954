import Mathlib.Data.Nat.Bitwise
import SrxSuite.Server.UpdateCache

/-!
# The local preference in the decision process

The model of the local preference policy (`bgpd/bgp_route.c`): `_srx_policy_getLocPrevValue`,
`srx_calc_loc_prev_delta_value`, `_srx_is_localPrefEnabled`, `isSetPrefPolicy`,
`_srx_combine_local_preference`, and `bgp_info_cmp` up to the comparison of the preferences.

The policies that a route's results select are added up in two sums of 32 bits, which stop at their
maximum, and the difference of the sums moves the preference, which stops at 0 and at the maximum.
`bgpInfoCmpPref_eq` is that formula, and the route with the higher preference wins
(`bgpInfoCmp_of_policyPref`). `exact_iff` says for which routes the sums without a bound would give the
same.

`isSetPrefPolicy` looks at the BGPsec policies for ASPA too, so that ASPA policies alone do nothing
(`aspa_policies_unseen`).
-/

namespace SrxSuite.Quagga

open Server

/-! ## The policies -/

/-- `struct srx_local_pref`. -/
structure SrxLocalPref where
  enable : Bool
  add : Bool
  value : UInt32
  deriving DecidableEq, Repr

def SRX_CONFIG_EVAL_ASPA : UInt16 := 1
def SRX_CONFIG_EVAL_ORIGIN : UInt16 := 2
def SRX_CONFIG_EVAL_PATH : UInt16 := 4

abbrev VAL_LOCPRF_UNDEFINED : Nat := 0
abbrev VAL_LOCPRF_VALID : Nat := 1
abbrev VAL_LOCPRF_INVALID : Nat := 2
abbrev VAL_LOCPRF_NOTFOUND : Nat := 3
abbrev VAL_LOCPRF_UNKNOWN : Nat := 3
abbrev VAL_LOCPRF_UNVERIFIABLE : Nat := 4

/-- The fields of `struct bgp` for the preference. -/
structure PrefConfig where
  srxConfig : UInt16
  srxLocPrefRoa : Vector SrxLocalPref 4
  srxLocPrefBgpsec : Vector SrxLocalPref 3
  srxLocPrefAspa : Vector SrxLocalPref 5
  defaultLocalPref : UInt32

variable (bgp : PrefConfig)

/-- A test of `srx_config` with `!= 0`. -/
def PrefConfig.evaluates (mode : UInt16) : Bool := bgp.srxConfig &&& mode != 0

/-- `incVal` and `decVal`. -/
structure PrefSums where
  incVal : UInt32
  decVal : UInt32
  deriving DecidableEq, Repr

/-- `_srx_policy_getLocPrevValue` -/
def srxPolicyGetLocPrevValue (sums : PrefSums) (locPref : SrxLocalPref) : PrefSums :=
  if locPref.enable then
    let incVal := if locPref.add then sums.incVal + locPref.value else sums.incVal
    let decVal := if locPref.add then sums.decVal else sums.decVal + locPref.value
    ⟨if incVal < sums.incVal then 0xFFFFFFFF else incVal,
      if decVal < sums.decVal then 0xFFFFFFFF else decVal⟩
  else sums

/-- The policy for a result of origin validation, `none` for an invalid type. -/
def PrefConfig.locPrefRoa (roaResult : UInt8) : Option SrxLocalPref :=
  if roaResult = SrxResult.valid.code then some bgp.srxLocPrefRoa[VAL_LOCPRF_VALID]
  else if roaResult = SrxResult.notFound.code then some bgp.srxLocPrefRoa[VAL_LOCPRF_NOTFOUND]
  else if roaResult = SrxResult.invalid.code then some bgp.srxLocPrefRoa[VAL_LOCPRF_INVALID]
  else if roaResult = SrxResult.undefined.code then some bgp.srxLocPrefRoa[VAL_LOCPRF_UNDEFINED]
  else none

/-- The policy for a result of BGPsec validation. -/
def PrefConfig.locPrefBgpsec (bgpsecResult : UInt8) : Option SrxLocalPref :=
  if bgpsecResult = SrxResult.valid.code then some bgp.srxLocPrefBgpsec[VAL_LOCPRF_VALID]
  else if bgpsecResult = SrxResult.invalid.code then some bgp.srxLocPrefBgpsec[VAL_LOCPRF_INVALID]
  else if bgpsecResult = SrxResult.undefined.code then
    some bgp.srxLocPrefBgpsec[VAL_LOCPRF_UNDEFINED]
  else none

/-- The policy for a result of ASPA validation. -/
def PrefConfig.locPrefAspa (aspaResult : UInt8) : Option SrxLocalPref :=
  if aspaResult = SrxResult.valid.code then some bgp.srxLocPrefAspa[VAL_LOCPRF_VALID]
  else if aspaResult = SrxResult.unknown.code then some bgp.srxLocPrefAspa[VAL_LOCPRF_UNKNOWN]
  else if aspaResult = SrxResult.invalid.code then some bgp.srxLocPrefAspa[VAL_LOCPRF_INVALID]
  else if aspaResult = SrxResult.unverifiable.code then
    some bgp.srxLocPrefAspa[VAL_LOCPRF_UNVERIFIABLE]
  else if aspaResult = SrxResult.undefined.code then some bgp.srxLocPrefAspa[VAL_LOCPRF_UNDEFINED]
  else none

/-- A `switch` of `srx_calc_loc_prev_delta_value`, when its validation is enabled. -/
def applyPolicy (evaluates : Bool) (locPref : Option SrxLocalPref) (sums : PrefSums) : PrefSums :=
  if evaluates then
    match locPref with
    | some locPref => srxPolicyGetLocPrevValue sums locPref
    | none => sums
  else sums

/-- `srx_calc_loc_prev_delta_value`: `delta`, and whether it is added. -/
def srxCalcLocPrevDeltaValue (valResult : UpdateResult) : UInt32 × Bool :=
  let sums := applyPolicy (bgp.evaluates SRX_CONFIG_EVAL_ORIGIN)
    (bgp.locPrefRoa valResult.roaResult) ⟨0, 0⟩
  let sums := applyPolicy (bgp.evaluates SRX_CONFIG_EVAL_PATH)
    (bgp.locPrefBgpsec valResult.bgpsecResult) sums
  let sums := applyPolicy (bgp.evaluates SRX_CONFIG_EVAL_ASPA)
    (bgp.locPrefAspa valResult.aspaResult) sums
  let doAdd := decide (sums.incVal ≥ sums.decVal)
  (if doAdd then sums.incVal - sums.decVal else sums.decVal - sums.incVal, doAdd)

/-- `LOCPRF_TYPE_ROA`, `LOCPRF_TYPE_BGPSEC` and `LOCPRF_TYPE_ASPA`. -/
inductive LocPrfType
  | roa | bgpsec | aspa
  deriving DecidableEq, Repr

/-- `_srx_is_localPrefEnabled` -/
def srxIsLocalPrefEnabled (validationType : LocPrfType) : Bool :=
  match validationType with
  | .roa => bgp.srxLocPrefRoa.any (·.enable)
  | .bgpsec => bgp.srxLocPrefBgpsec.any (·.enable)
  | .aspa => bgp.srxLocPrefAspa.any (·.enable)

/-- `isSetPrefPolicy`, which asks for the BGPsec policies in the last case. -/
def isSetPrefPolicy : Bool :=
  let doValidation := bgp.evaluates SRX_CONFIG_EVAL_ORIGIN && srxIsLocalPrefEnabled bgp .roa
  let doValidation :=
    if !doValidation && bgp.evaluates SRX_CONFIG_EVAL_PATH then srxIsLocalPrefEnabled bgp .bgpsec
    else doValidation
  if !doValidation && bgp.evaluates SRX_CONFIG_EVAL_ASPA then srxIsLocalPrefEnabled bgp .bgpsec
  else doValidation

/-- `_srx_combine_local_preference` -/
def srxCombineLocalPreference (locPref delta : UInt32) (add : Bool) : UInt32 :=
  if add then
    if locPref + delta < locPref then 0xFFFFFFFF else locPref + delta
  else
    if locPref - delta > locPref then 0 else locPref - delta

/-- `srx_config_check` -/
def srxConfigCheck (flags : UInt16) : Bool := bgp.srxConfig &&& flags == flags

/-- `srx_use_evaluation` -/
def srxUseEvaluation : Bool :=
  srxConfigCheck bgp SRX_CONFIG_EVAL_ORIGIN || srxConfigCheck bgp SRX_CONFIG_EVAL_PATH ||
    srxConfigCheck bgp SRX_CONFIG_EVAL_ASPA

/-! ## The decision process -/

/-- What `bgp_info_cmp` reads of a `bgp_info`: `BGP_INFO_IGNORE`, the weight if there are extra
attributes, the local preference if it is set, the results, and what the steps behind the preference
read. -/
structure CmpInfo (ρ : Type) where
  ignore : Bool
  weight : Option UInt32
  localPref : Option UInt32
  valRes : UpdateResult
  later : ρ
  deriving DecidableEq, Repr

variable {ρ : Type}

/-- The preference of a route without policies. -/
def basePref (info : CmpInfo ρ) : UInt32 := info.localPref.getD bgp.defaultLocalPref

/-- `new_pref` and `exist_pref` of `bgp_info_cmp`. -/
def bgpInfoCmpPref (info : CmpInfo ρ) : UInt32 :=
  if srxUseEvaluation bgp && isSetPrefPolicy bgp then
    let (delta, doAdd) := srxCalcLocPrevDeltaValue bgp info.valRes
    srxCombineLocalPreference (basePref bgp info) delta doAdd
  else basePref bgp info

/-- `bgp_info_cmp`, which returns 1 to prefer `new`, and `paths_eq`. `later` is what comes behind the
preferences. -/
def bgpInfoCmp (later : CmpInfo ρ → CmpInfo ρ → Nat × Bool) :
    (new exist : Option (CmpInfo ρ)) → Nat × Bool
  | none, _ => (0, false)
  | some _, none => (1, false)
  | some new, some exist =>
    if srxUseEvaluation bgp && new.ignore then (0, false)
    else if new.weight.getD 0 > exist.weight.getD 0 then (1, false)
    else if new.weight.getD 0 < exist.weight.getD 0 then (0, false)
    else if bgpInfoCmpPref bgp new > bgpInfoCmpPref bgp exist then (1, false)
    else if bgpInfoCmpPref bgp new < bgpInfoCmpPref bgp exist then (0, false)
    else later new exist

/-! ## What is asked for -/

/-- The policies that the enabled validations select for the results of a route. -/
def selected (valRes : UpdateResult) : List SrxLocalPref :=
  (if bgp.evaluates SRX_CONFIG_EVAL_ORIGIN then (bgp.locPrefRoa valRes.roaResult).toList else []) ++
  ((if bgp.evaluates SRX_CONFIG_EVAL_PATH then (bgp.locPrefBgpsec valRes.bgpsecResult).toList else []) ++
  (if bgp.evaluates SRX_CONFIG_EVAL_ASPA then (bgp.locPrefAspa valRes.aspaResult).toList else []))

/-- The sum of the values of the enabled policies that add (`true`) or subtract (`false`). -/
def policySum (add : Bool) (locPrefs : List SrxLocalPref) : Nat :=
  ((locPrefs.filter fun lp => lp.enable && lp.add == add).map fun lp => lp.value.toNat).sum

/-- The largest preference. -/
def maxPref : Nat := 2 ^ 32 - 1

/-- The preference next to a number. -/
def clampPref (x : Int) : Int := max 0 (min maxPref x)

/-- The preference of a route by its policies: the sums stop at the maximum. -/
def policyPref (info : CmpInfo ρ) : Int :=
  clampPref ((basePref bgp info).toNat + min (policySum true (selected bgp info.valRes)) maxPref -
    min (policySum false (selected bgp info.valRes)) maxPref)

/-- The same with the sums as they are. -/
def exactPref (info : CmpInfo ρ) : Int :=
  clampPref ((basePref bgp info).toNat + policySum true (selected bgp info.valRes) -
    policySum false (selected bgp info.valRes))

/-- `isSetPrefPolicy` has an enabled policy to see. -/
def PolicySeen : Prop :=
  (bgp.evaluates SRX_CONFIG_EVAL_ORIGIN ∧ ∃ lp ∈ bgp.srxLocPrefRoa, lp.enable = true) ∨
    (bgp.evaluates SRX_CONFIG_EVAL_PATH ∨ bgp.evaluates SRX_CONFIG_EVAL_ASPA) ∧
      ∃ lp ∈ bgp.srxLocPrefBgpsec, lp.enable = true

/-- The ASPA policy of a route, if it is to be used, does not stand alone. -/
def AspaSeen (info : CmpInfo ρ) : Prop :=
  ∀ lp, bgp.evaluates SRX_CONFIG_EVAL_ASPA → bgp.locPrefAspa info.valRes.aspaResult = some lp →
    lp.enable → PolicySeen bgp

namespace LocalPreferenceLemmas

/-! ## Arithmetic of 32 bits -/

/-- An overflow shows in a sum that is smaller than its first part. -/
theorem toNat_add_bounded (a b : UInt32) :
    (if a + b < a then 0xFFFFFFFF else a + b).toNat = min (a.toNat + b.toNat) maxPref := by
  have ha := a.toNat_lt
  have hb := b.toNat_lt
  have hsum := UInt32.toNat_add a b
  unfold maxPref
  split
  next hlt =>
    rw [UInt32.lt_iff_toNat_lt] at hlt
    show 2 ^ 32 - 1 = _
    omega
  next hge =>
    rw [UInt32.lt_iff_toNat_lt] at hge
    omega

theorem toNat_sub_bounded (a b : UInt32) :
    (if a - b > a then 0 else a - b).toNat = a.toNat - b.toNat := by
  have ha := a.toNat_lt
  have hb := b.toNat_lt
  have hdiff := UInt32.toNat_sub a b
  split
  next hlt =>
    rw [gt_iff_lt, UInt32.lt_iff_toNat_lt] at hlt
    show 0 = _
    omega
  next hge =>
    rw [gt_iff_lt, UInt32.lt_iff_toNat_lt] at hge
    omega

/-! ## The sums -/

theorem policySum_cons (add : Bool) (lp : SrxLocalPref) (lps : List SrxLocalPref) :
    policySum add (lp :: lps) =
      (if lp.enable && lp.add == add then lp.value.toNat else 0) + policySum add lps := by
  unfold policySum
  cases hsel : lp.enable && lp.add == add with
  | false => simp [hsel]
  | true => simp [hsel]

theorem policySum_of_disabled {lps : List SrxLocalPref} (h : ∀ lp ∈ lps, lp.enable = false)
    (add : Bool) : policySum add lps = 0 := by
  induction lps with
  | nil => rfl
  | cons lp lps ih =>
    rw [List.forall_mem_cons] at h
    rw [policySum_cons, h.1, ih h.2]
    rfl

/-- One policy adds its value to its sum, and leaves the other sum. -/
theorem getLocPrevValue_toNat (sums : PrefSums) (lp : SrxLocalPref) :
    (srxPolicyGetLocPrevValue sums lp).incVal.toNat =
        min (sums.incVal.toNat + (if lp.enable && lp.add == true then lp.value.toNat else 0)) maxPref ∧
      (srxPolicyGetLocPrevValue sums lp).decVal.toNat =
        min (sums.decVal.toNat + (if lp.enable && lp.add == false then lp.value.toNat else 0))
          maxPref := by
  have hinc := sums.incVal.toNat_lt
  have hdec := sums.decVal.toNat_lt
  have hkeep (a : UInt32) : (if a < a then 0xFFFFFFFF else a) = a := if_neg (UInt32.lt_irrefl a)
  have hmin {n : Nat} (h : n < 2 ^ 32) : n = min (n + 0) maxPref := by
    unfold maxPref
    omega
  rcases lp with ⟨enable, add, value⟩
  cases enable with
  | false => exact ⟨hmin hinc, hmin hdec⟩
  | true =>
    cases add with
    | true =>
      refine ⟨toNat_add_bounded sums.incVal value, ?_⟩
      show (if sums.decVal < sums.decVal then 0xFFFFFFFF else sums.decVal).toNat = _
      rw [hkeep]
      exact hmin hdec
    | false =>
      refine ⟨?_, toNat_add_bounded sums.decVal value⟩
      show (if sums.incVal < sums.incVal then 0xFFFFFFFF else sums.incVal).toNat = _
      rw [hkeep]
      exact hmin hinc

/-- The sums over any policies. -/
theorem foldl_getLocPrevValue (lps : List SrxLocalPref) (sums : PrefSums) :
    (lps.foldl srxPolicyGetLocPrevValue sums).incVal.toNat =
        min (sums.incVal.toNat + policySum true lps) maxPref ∧
      (lps.foldl srxPolicyGetLocPrevValue sums).decVal.toNat =
        min (sums.decVal.toNat + policySum false lps) maxPref := by
  induction lps generalizing sums with
  | nil =>
    have hinc := sums.incVal.toNat_lt
    have hdec := sums.decVal.toNat_lt
    show sums.incVal.toNat = min (sums.incVal.toNat + 0) maxPref ∧
      sums.decVal.toNat = min (sums.decVal.toNat + 0) maxPref
    unfold maxPref
    omega
  | cons lp lps ih =>
    obtain ⟨hinc, hdec⟩ := getLocPrevValue_toNat sums lp
    obtain ⟨ihinc, ihdec⟩ := ih (srxPolicyGetLocPrevValue sums lp)
    rw [List.foldl_cons, policySum_cons, policySum_cons, ihinc, ihdec, hinc, hdec]
    omega

theorem applyPolicy_eq (evaluates : Bool) (lp : Option SrxLocalPref) (sums : PrefSums) :
    applyPolicy evaluates lp sums =
      (if evaluates then lp.toList else []).foldl srxPolicyGetLocPrevValue sums := by
  cases evaluates with
  | false => rfl
  | true => cases lp <;> rfl

/-- The difference of the two sums over the selected policies. -/
theorem calcDelta_eq (valRes : UpdateResult) :
    srxCalcLocPrevDeltaValue bgp valRes =
      let sums := (selected bgp valRes).foldl srxPolicyGetLocPrevValue ⟨0, 0⟩
      let doAdd := decide (sums.incVal ≥ sums.decVal)
      (if doAdd then sums.incVal - sums.decVal else sums.decVal - sums.incVal, doAdd) := by
  unfold srxCalcLocPrevDeltaValue selected
  rw [List.foldl_append, List.foldl_append]
  simp only [applyPolicy_eq]

/-- Each sum has a number of policies to it, so that three policies cannot take both over the maximum. -/
theorem policySum_le (lps : List SrxLocalPref) : ∃ adds subs, adds + subs ≤ lps.length ∧
    policySum true lps ≤ maxPref * adds ∧ policySum false lps ≤ maxPref * subs := by
  induction lps with
  | nil => exact ⟨0, 0, Nat.le_refl _, Nat.le_refl _, Nat.le_refl _⟩
  | cons lp lps ih =>
    obtain ⟨adds, subs, hlen, hadd, hsub⟩ := ih
    have hvalue : lp.value.toNat ≤ maxPref := Nat.le_pred_of_lt lp.value.toNat_lt
    rw [policySum_cons, policySum_cons, List.length_cons]
    cases hkind : lp.add with
    | true =>
      refine ⟨adds + 1, subs, by omega, ?_, ?_⟩
      · rw [Nat.mul_succ]
        split <;> omega
      · simpa using hsub
    | false =>
      refine ⟨adds, subs + 1, by omega, ?_, ?_⟩
      · simpa using hadd
      · rw [Nat.mul_succ]
        split <;> omega

theorem length_selected_le (valRes : UpdateResult) : (selected bgp valRes).length ≤ 3 := by
  have hone (on : Bool) (lp : Option SrxLocalPref) : (if on then lp.toList else []).length ≤ 1 := by
    cases on with
    | false => exact Nat.zero_le 1
    | true => exact Option.length_toList_le
  unfold selected
  rw [List.length_append, List.length_append]
  have hroa := hone (bgp.evaluates SRX_CONFIG_EVAL_ORIGIN) (bgp.locPrefRoa valRes.roaResult)
  have hbgpsec := hone (bgp.evaluates SRX_CONFIG_EVAL_PATH) (bgp.locPrefBgpsec valRes.bgpsecResult)
  have haspa := hone (bgp.evaluates SRX_CONFIG_EVAL_ASPA) (bgp.locPrefAspa valRes.aspaResult)
  omega

/-- Both steps together: the preference moves by the difference, between 0 and the maximum. -/
theorem combine_toNat (pref inc dec : UInt32) :
    ((srxCombineLocalPreference pref (if decide (inc ≥ dec) then inc - dec else dec - inc)
      (decide (inc ≥ dec))).toNat : Int) = clampPref (pref.toNat + inc.toNat - dec.toNat) := by
  have hp := pref.toNat_lt
  unfold srxCombineLocalPreference clampPref
  cases hge : decide (inc ≥ dec) with
  | true =>
    have hle : dec ≤ inc := of_decide_eq_true hge
    have hdelta := UInt32.toNat_sub_of_le inc dec hle
    rw [UInt32.le_iff_toNat_le] at hle
    simp only [if_true]
    rw [toNat_add_bounded, hdelta]
    unfold maxPref
    omega
  | false =>
    have hle : inc ≤ dec := UInt32.le_of_lt (UInt32.not_le.mp (of_decide_eq_false hge))
    have hdelta := UInt32.toNat_sub_of_le dec inc hle
    rw [UInt32.le_iff_toNat_le] at hle
    simp only [Bool.false_eq_true, if_false]
    rw [toNat_sub_bounded, hdelta]
    unfold maxPref
    omega

/-! ## The test before the sums -/

theorem isSetPrefPolicy_eq : isSetPrefPolicy bgp =
    (bgp.evaluates SRX_CONFIG_EVAL_ORIGIN && srxIsLocalPrefEnabled bgp .roa ||
      (bgp.evaluates SRX_CONFIG_EVAL_PATH || bgp.evaluates SRX_CONFIG_EVAL_ASPA) &&
        srxIsLocalPrefEnabled bgp .bgpsec) := by
  unfold isSetPrefPolicy
  generalize bgp.evaluates SRX_CONFIG_EVAL_ORIGIN = origin
  generalize bgp.evaluates SRX_CONFIG_EVAL_PATH = path
  generalize bgp.evaluates SRX_CONFIG_EVAL_ASPA = aspa
  generalize srxIsLocalPrefEnabled bgp .roa = roaEnabled
  generalize srxIsLocalPrefEnabled bgp .bgpsec = bgpsecEnabled
  revert origin path aspa roaEnabled bgpsecEnabled
  decide

theorem isSetPrefPolicy_iff : isSetPrefPolicy bgp = true ↔ PolicySeen bgp := by
  rw [isSetPrefPolicy_eq, Bool.or_eq_true, Bool.and_eq_true, Bool.and_eq_true, Bool.or_eq_true]
  exact or_congr (and_congr_right' Vector.any_eq_true') (and_congr_right' Vector.any_eq_true')

/-- The flags are single bits, so that the two tests of `srx_config` agree. -/
theorem configCheck_eq {mode : UInt16} (k : Nat) (hmode : mode.toNat = 2 ^ k) :
    srxConfigCheck bgp mode = bgp.evaluates mode := by
  have hand : (bgp.srxConfig &&& mode).toNat = (bgp.srxConfig.toNat.testBit k).toNat * 2 ^ k := by
    rw [UInt16.toNat_and, hmode, Nat.and_two_pow]
  have hne : mode ≠ 0 := by
    rintro rfl
    exact absurd hmode (Nat.two_pow_pos k).ne
  unfold srxConfigCheck PrefConfig.evaluates
  cases hbit : bgp.srxConfig.toNat.testBit k with
  | false =>
    have hzero : bgp.srxConfig &&& mode = 0 := by
      rw [← UInt16.toNat_inj, hand, hbit]
      exact Nat.zero_mul _
    rw [hzero, bne_self_eq_false, beq_eq_false_iff_ne]
    exact hne.symm
  | true =>
    have hmask : bgp.srxConfig &&& mode = mode := by
      rw [← UInt16.toNat_inj, hand, hbit, hmode]
      exact Nat.one_mul _
    rw [hmask, beq_self_eq_true, eq_comm, bne_iff_ne]
    exact hne

theorem useEvaluation_eq : srxUseEvaluation bgp =
    (bgp.evaluates SRX_CONFIG_EVAL_ORIGIN || bgp.evaluates SRX_CONFIG_EVAL_PATH ||
      bgp.evaluates SRX_CONFIG_EVAL_ASPA) := by
  unfold srxUseEvaluation
  rw [configCheck_eq bgp 1 rfl, configCheck_eq bgp 2 rfl, configCheck_eq bgp 0 rfl]

/-- Without a validation there is no policy. -/
theorem selected_of_not_useEvaluation (h : srxUseEvaluation bgp = false) (valRes : UpdateResult) :
    selected bgp valRes = [] := by
  rw [useEvaluation_eq, Bool.or_eq_false_iff, Bool.or_eq_false_iff] at h
  unfold selected
  rw [h.1.1, h.1.2, h.2]
  rfl

/-- A policy that is selected is in its table. -/
theorem mem_of_locPrefRoa {roaResult : UInt8} {lp : SrxLocalPref}
    (h : bgp.locPrefRoa roaResult = some lp) : lp ∈ bgp.srxLocPrefRoa := by
  unfold PrefConfig.locPrefRoa at h
  repeat' split at h
  all_goals cases h <;> exact Vector.getElem_mem _

theorem mem_of_locPrefBgpsec {bgpsecResult : UInt8} {lp : SrxLocalPref}
    (h : bgp.locPrefBgpsec bgpsecResult = some lp) : lp ∈ bgp.srxLocPrefBgpsec := by
  unfold PrefConfig.locPrefBgpsec at h
  repeat' split at h
  all_goals cases h <;> exact Vector.getElem_mem _

/-- An enabled policy that is selected is seen, or it is one for ASPA. -/
theorem policySeen_of_selected {valRes : UpdateResult} {lp : SrxLocalPref}
    (hmem : lp ∈ selected bgp valRes) (henable : lp.enable = true) :
    PolicySeen bgp ∨ bgp.evaluates SRX_CONFIG_EVAL_ASPA ∧
      bgp.locPrefAspa valRes.aspaResult = some lp := by
  unfold selected at hmem
  rw [List.mem_append, List.mem_append] at hmem
  rcases hmem with hroa | hbgpsec | haspa
  · split at hroa
    next hon => exact .inl (.inl ⟨hon, lp, mem_of_locPrefRoa bgp (Option.mem_toList.mp hroa), henable⟩)
    next => cases hroa
  · split at hbgpsec
    next hon =>
      exact .inl (.inr ⟨.inl hon, lp, mem_of_locPrefBgpsec bgp (Option.mem_toList.mp hbgpsec), henable⟩)
    next => cases hbgpsec
  · split at haspa
    next hon => exact .inr ⟨hon, Option.mem_toList.mp haspa⟩
    next => cases haspa

theorem clampPref_toNat (pref : UInt32) : clampPref pref.toNat = pref.toNat := by
  have hlt := pref.toNat_lt
  unfold clampPref maxPref
  omega

end LocalPreferenceLemmas

open LocalPreferenceLemmas

/-- `isSetPrefPolicy` does not see ASPA policies: without others the preference stays. -/
theorem aspa_policies_unseen (info : CmpInfo ρ) (hunseen : ¬ PolicySeen bgp) :
    bgpInfoCmpPref bgp info = basePref bgp info := by
  rw [← isSetPrefPolicy_iff, Bool.not_eq_true] at hunseen
  unfold bgpInfoCmpPref
  rw [hunseen, Bool.and_false]
  rfl

/-- The preference that is compared is the one by the policies, as long as no ASPA policy is unseen. -/
theorem bgpInfoCmpPref_toNat {info : CmpInfo ρ} (haspa : AspaSeen bgp info) :
    ((bgpInfoCmpPref bgp info).toNat : Int) = policyPref bgp info := by
  have hstays (hpref : bgpInfoCmpPref bgp info = basePref bgp info)
      (hoff : ∀ lp ∈ selected bgp info.valRes, lp.enable = false) :
      ((bgpInfoCmpPref bgp info).toNat : Int) = policyPref bgp info := by
    unfold policyPref
    rw [hpref, policySum_of_disabled hoff, policySum_of_disabled hoff]
    simpa using (clampPref_toNat (basePref bgp info)).symm
  rcases Classical.em (PolicySeen bgp) with hseen | hunseen
  · cases huse : srxUseEvaluation bgp with
    | false =>
      refine hstays ?_ ?_
      · unfold bgpInfoCmpPref
        rw [huse]
        rfl
      · rw [selected_of_not_useEvaluation bgp huse]
        exact List.forall_mem_nil _
    | true =>
      obtain ⟨hinc, hdec⟩ := foldl_getLocPrevValue (selected bgp info.valRes) ⟨0, 0⟩
      rw [UInt32.toNat_zero, Nat.zero_add] at hinc hdec
      unfold bgpInfoCmpPref policyPref
      rw [huse, (isSetPrefPolicy_iff bgp).mpr hseen, calcDelta_eq]
      show ((srxCombineLocalPreference _ _ _).toNat : Int) = _
      rw [combine_toNat, hinc, hdec]
  · refine hstays (aspa_policies_unseen bgp info hunseen) fun lp hmem => ?_
    rw [← Bool.not_eq_true]
    intro henable
    rcases policySeen_of_selected bgp hmem henable with hseen | ⟨hon, hlp⟩
    · exact hunseen hseen
    · exact hunseen (haspa lp hon hlp henable)

/-- Where the bounds of the sums show: when one sum exceeds its bound and the other side makes up for
it. -/
theorem exact_iff (info : CmpInfo ρ) (haspa : AspaSeen bgp info) :
    ((bgpInfoCmpPref bgp info).toNat : Int) = exactPref bgp info ↔
      ¬ (maxPref < policySum true (selected bgp info.valRes) ∧
          (basePref bgp info).toNat < policySum false (selected bgp info.valRes)) ∧
        ¬ (maxPref < policySum false (selected bgp info.valRes) ∧
          maxPref < (basePref bgp info).toNat + policySum true (selected bgp info.valRes)) := by
  obtain ⟨adds, subs, hcount, hadd, hsub⟩ := policySum_le (selected bgp info.valRes)
  have hthree := length_selected_le bgp info.valRes
  have hbase : (basePref bgp info).toNat ≤ maxPref := Nat.le_pred_of_lt (basePref bgp info).toNat_lt
  have hmax : maxPref = 2 ^ 32 - 1 := rfl
  rw [hmax] at hadd hsub
  rw [bgpInfoCmpPref_toNat bgp haspa]
  unfold policyPref exactPref clampPref
  omega

/-- The route with the higher preference wins, whichever of the two is new. -/
theorem bgpInfoCmp_of_policyPref (later : CmpInfo ρ → CmpInfo ρ → Nat × Bool) {better worse : CmpInfo ρ}
    (hbetter : AspaSeen bgp better) (hworse : AspaSeen bgp worse) (hnotBetter : better.ignore = false)
    (hnotWorse : worse.ignore = false) (hweight : better.weight = worse.weight)
    (hlt : policyPref bgp worse < policyPref bgp better) :
    bgpInfoCmp bgp later (some better) (some worse) = (1, false) ∧
      bgpInfoCmp bgp later (some worse) (some better) = (0, false) := by
  rw [← bgpInfoCmpPref_toNat bgp hbetter, ← bgpInfoCmpPref_toNat bgp hworse, Int.ofNat_lt,
    ← UInt32.lt_iff_toNat_lt] at hlt
  have hirrefl := UInt32.lt_irrefl (worse.weight.getD 0)
  have hasymm := UInt32.lt_asymm hlt
  rw [bgpInfoCmp, bgpInfoCmp, hnotBetter, hnotWorse, hweight, Bool.and_false]
  constructor
  · rw [if_neg Bool.false_ne_true, if_neg hirrefl, if_neg hirrefl, if_pos hlt]
  · rw [if_neg Bool.false_ne_true, if_neg hirrefl, if_neg hirrefl, if_neg hasymm, if_pos hlt]

/-- The preference of a route: each sum stops at the maximum, then their difference moves the
preference between 0 and the maximum. -/
theorem bgpInfoCmpPref_eq (info : CmpInfo ρ) (haspa : AspaSeen bgp info) :
    ((bgpInfoCmpPref bgp info).toNat : Int) = max 0 (min (2 ^ 32 - 1) ((basePref bgp info).toNat +
      min (policySum true (selected bgp info.valRes)) (2 ^ 32 - 1) -
      min (policySum false (selected bgp info.valRes)) (2 ^ 32 - 1))) := by
  rw [bgpInfoCmpPref_toNat bgp haspa]
  unfold policyPref clampPref maxPref
  omega

/-- Valid routes gain the maximum for the origin and again for the path, and lose it for ASPA. -/
def fullConfig : PrefConfig where
  srxConfig := 7
  srxLocPrefRoa := Vector.replicate 4 ⟨true, true, 0xFFFFFFFF⟩
  srxLocPrefBgpsec := Vector.replicate 3 ⟨true, true, 0xFFFFFFFF⟩
  srxLocPrefAspa := Vector.replicate 5 ⟨true, false, 0xFFFFFFFF⟩
  defaultLocalPref := 100

def validRoute : CmpInfo Unit := ⟨false, none, none, ⟨0, 0, 0⟩, ()⟩

theorem fullConfig_seen : AspaSeen fullConfig validRoute :=
  fun _ _ _ _ => .inl ⟨rfl, ⟨true, true, 0xFFFFFFFF⟩, Vector.mem_replicate.mpr ⟨by decide, rfl⟩, rfl⟩

theorem bgpInfoCmpPref_eq_fullConfig : AspaSeen fullConfig validRoute ∧
    ((bgpInfoCmpPref fullConfig validRoute).toNat : Int) =
      max 0 (min (2 ^ 32 - 1) ((basePref fullConfig validRoute).toNat +
        min (policySum true (selected fullConfig validRoute.valRes)) (2 ^ 32 - 1) -
        min (policySum false (selected fullConfig validRoute.valRes)) (2 ^ 32 - 1))) :=
  ⟨fullConfig_seen, bgpInfoCmpPref_eq fullConfig validRoute fullConfig_seen⟩

/-- The additions exceed the maximum before the subtraction: the preference stays where the exact sums
give the maximum. -/
theorem additions_bounded : bgpInfoCmpPref fullConfig validRoute = 100 ∧
    max 0 (min (2 ^ 32 - 1) ((basePref fullConfig validRoute).toNat +
      policySum true (selected fullConfig validRoute.valRes) -
      policySum false (selected fullConfig validRoute.valRes) : Int)) = 2 ^ 32 - 1 := by
  refine ⟨?_, by decide⟩
  have hpref := bgpInfoCmpPref_toNat fullConfig fullConfig_seen
  have hpolicy : policyPref fullConfig validRoute = 100 := by decide
  rw [← UInt32.toNat_inj]
  exact Int.ofNat_inj.mp (hpref.trans hpolicy)

end SrxSuite.Quagga

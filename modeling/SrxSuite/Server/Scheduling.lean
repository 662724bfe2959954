import Mathlib.Data.Nat.Bitwise
import SrxSuite.Server.Requests

/-!
# What a verify request leaves for the worker

A request asks for up to three validations. `processValidationRequest` decides with `sendFlags` what
goes to the command queue, and `sendFlags` is about what the proxy has to be told: it is empty for a
request without the receipt bit whose defaults are what the server knows. A new update is answered
with these defaults, so that nothing is queued for it, while its stored results stay undefined.

Results:
1. `scheduled_iff`: every validation whose result is still undefined is queued if and only if the
   request asks for a receipt, or the results of a stored update are not its defaults, or no
   requested result was undefined to begin with.
2. `not_scheduled_new`: a new update without the receipt bit is not validated.
-/

namespace SrxSuite.Server

/-! ## The three validations -/

inductive ValidationKind
  | roa | bgpsec | aspa
  deriving DecidableEq, Repr

/-- `SRX_FLAG_ROA`, `SRX_FLAG_BGPSEC` and `SRX_FLAG_ASPA`. -/
def ValidationKind.flag : ValidationKind → UInt8
  | .roa => vrtROA
  | .bgpsec => vrtBGPSEC
  | .aspa => vrtASPA

/-- The result of one validation. -/
def UpdateResult.get (res : UpdateResult) : ValidationKind → UInt8
  | .roa => res.roaResult
  | .bgpsec => res.bgpsecResult
  | .aspa => res.aspaResult

/-- The request asks for the validation. -/
def VerifyRequest.asks (r : VerifyRequest) (kind : ValidationKind) : Prop :=
  isSet r.flags kind.flag = true

/-- The stored result of a validation is undefined. -/
def StillUndefined (s : ServerState) (updateID : UInt32) (kind : ValidationKind) : Prop :=
  ∃ info, getUpdateResult s.updateCache updateID = some info ∧
    info.srxRes.get kind = SrxResult.undefined.code

/-- The step from `s` to `s'` put a command for the update on the queue that asks for the
validation. -/
def CommandQueued (s s' : ServerState) (updateID : UInt32) (kind : ValidationKind) : Prop :=
  ∃ added, s'.cmdQueue = s.cmdQueue ++ added ∧
    ∃ item ∈ added, item.updateID = updateID ∧ isSet item.flags kind.flag = true

/-- Every validation a request asks for has a result afterwards, or a command for it was queued. -/
def AllScheduled (s : ServerState) (r : VerifyRequest) (locals : Locals) (now : Nat) : Prop :=
  ∀ kind, r.asks kind →
    StillUndefined (processValidationRequest s r locals now) r.updateID kind →
    CommandQueued s (processValidationRequest s r locals now) r.updateID kind

/-! ## The condition -/

/-- The default of the request for ROA or BGPsec is not what is stored for the update. -/
def DefaultDiffers (s : ServerState) (r : VerifyRequest) : Prop :=
  ∃ info, getUpdateResult s.updateCache r.updateID = some info ∧
    ((r.asks .roa ∧ r.roaDefRes ≠ info.srxRes.roaResult) ∨
      (r.asks .bgpsec ∧ r.bgpsecDefRes ≠ info.srxRes.bgpsecResult))

/-- The ASPA result the path cache has for the path of a request, undefined without one. -/
def pathResult (s : ServerState) (r : VerifyRequest) (locals : Locals) : UInt8 :=
  match getAspathListFromAspathCache s.aspathCache (r.pathId locals) 0 with
  | (some _, aspaResult) => aspaResult
  | (none, _) => SrxResult.undefined.code

/-- What the two caches know about the update of a request before it. An update without a path
identifier gets the result of its path. -/
def resultBefore (s : ServerState) (r : VerifyRequest) (locals : Locals) : UpdateResult :=
  let info := (getUpdateResult s.updateCache r.updateID).getD resultNotFound
  if info.pathId = 0 ∧ pathResult s r locals ≠ SrxResult.undefined.code then
    { info.srxRes with aspaResult := useResult (pathResult s r locals) info.srxRes.aspaResult }
  else info.srxRes

namespace SchedulingLemmas

open RequestLemmas

variable {s : ServerState} {r : VerifyRequest} {locals : Locals}

/-! ## Flags -/

theorem isSet_or_right (a b : UInt8) : isSet (a ||| b) b = true := by
  unfold isSet
  rw [beq_iff_eq]
  apply UInt8.toBitVec_inj.mp
  rw [UInt8.toBitVec_and, UInt8.toBitVec_or]
  ext i hi
  rw [BitVec.getElem_and, BitVec.getElem_or]
  cases a.toBitVec[i] <;> cases b.toBitVec[i] <;> rfl

theorem isSet_or_left {a c : UInt8} (b : UInt8) (h : isSet a c = true) :
    isSet (a ||| b) c = true := by
  unfold isSet at h ⊢
  rw [beq_iff_eq] at h ⊢
  have hbits := congrArg UInt8.toBitVec h
  apply UInt8.toBitVec_inj.mp
  rw [UInt8.toBitVec_and] at hbits ⊢
  rw [UInt8.toBitVec_or]
  ext i hi
  have hbit := congrArg (·[i]) hbits
  rw [BitVec.getElem_and] at hbit ⊢
  rw [BitVec.getElem_or]
  revert hbit
  cases a.toBitVec[i] <;> cases b.toBitVec[i] <;> cases c.toBitVec[i] <;> simp

/-- The validation flags are kept when the others are cut off. -/
theorem isSet_keep {flags : UInt8} {kind : ValidationKind} (h : isSet flags kind.flag = true) :
    isSet (flags &&& (vrtROA ||| vrtBGPSEC ||| vrtASPA)) kind.flag = true := by
  have hkind : (vrtROA ||| vrtBGPSEC ||| vrtASPA) &&& kind.flag = kind.flag := by
    cases kind with
    | roa => rfl
    | bgpsec => rfl
    | aspa => rfl
  unfold isSet at h ⊢
  rw [beq_iff_eq] at h ⊢
  rw [UInt8.and_assoc, hkind, h]

theorem pos_of_isSet {flags : UInt8} (kind : ValidationKind)
    (h : isSet flags kind.flag = true) : flags > 0 := by
  refine UInt8.pos_iff_ne_zero.mpr fun hzero => ?_
  rw [hzero] at h
  cases kind with
  | roa => exact absurd h (by decide)
  | bgpsec => exact absurd h (by decide)
  | aspa => exact absurd h (by decide)

/-- The receipt bit alone. -/
theorem receipt_cases (flags : UInt8) :
    isSet flags flagReceipt = true ∧ flags &&& flagReceipt = flagReceipt ∨
      isSet flags flagReceipt = false ∧ flags &&& flagReceipt = 0 := by
  have hbit : (flags &&& flagReceipt).toNat = (flags.toNat.testBit 7).toNat * 2 ^ 7 :=
    Nat.and_two_pow flags.toNat 7
  unfold isSet
  cases hset : flags.toNat.testBit 7 with
  | true =>
    rw [hset] at hbit
    have heq : flags &&& flagReceipt = flagReceipt := UInt8.toNat_inj.mp hbit
    exact .inl ⟨beq_iff_eq.mpr heq, heq⟩
  | false =>
    rw [hset] at hbit
    have heq : flags &&& flagReceipt = 0 := UInt8.toNat_inj.mp hbit
    refine .inr ⟨?_, heq⟩
    rw [heq]
    rfl

/-- The proxy has to be told something: it asks for a receipt, or a default is not the result. -/
def Told (r : VerifyRequest) (res : UpdateResult) : Prop :=
  isSet r.flags flagReceipt = true ∨ (r.asks .roa ∧ r.roaDefRes ≠ res.roaResult) ∨
    (r.asks .bgpsec ∧ r.bgpsecDefRes ≠ res.bgpsecResult)

/-- Nothing to tell, no flags. -/
theorem sendFlags_zero {res : UpdateResult} (h : ¬ Told r res) : sendFlags r res = 0 := by
  obtain ⟨hreceipt, hrest⟩ := not_or.mp h
  obtain ⟨hroa, hbgpsec⟩ := not_or.mp hrest
  have hbit : r.flags &&& flagReceipt = 0 := by
    rcases receipt_cases r.flags with ⟨hset, -⟩ | ⟨-, heq⟩
    · exact absurd hset hreceipt
    · exact heq
  unfold sendFlags
  dsimp only
  rw [hbit, if_neg (show ¬ (isSet r.flags vrtROA = true ∧ _) from hroa),
    if_neg (show ¬ (isSet r.flags vrtBGPSEC = true ∧ _) from hbgpsec), if_neg (by decide)]

/-- Otherwise all validations that are asked for. -/
theorem sendFlags_asks {res : UpdateResult} (h : Told r res) {kind : ValidationKind}
    (hkind : r.asks kind) : isSet (sendFlags r res) kind.flag = true := by
  unfold sendFlags
  dsimp only
  rw [if_pos]
  · cases kind with
    | roa =>
      rw [if_pos (show isSet r.flags vrtROA = true from hkind)]
      exact isSet_or_left _ (isSet_or_left _ (isSet_or_right _ _))
    | bgpsec =>
      rw [if_pos (show isSet r.flags vrtBGPSEC = true from hkind)]
      exact isSet_or_left _ (isSet_or_right _ _)
    | aspa =>
      rw [if_pos (show isSet r.flags vrtASPA = true from hkind)]
      exact isSet_or_right _ _
  · -- one of the three parts is not empty
    rcases h with hreceipt | hroa | hbgpsec
    · rcases receipt_cases r.flags with ⟨-, heq⟩ | ⟨hnot, -⟩
      · refine UInt8.pos_iff_ne_zero.mpr fun hzero => ?_
        have hset := isSet_or_left (if isSet r.flags vrtBGPSEC ∧ r.bgpsecDefRes ≠ res.bgpsecResult
            then vrtBGPSEC else 0)
          (isSet_or_left (if isSet r.flags vrtROA ∧ r.roaDefRes ≠ res.roaResult then vrtROA else 0)
            (show isSet (r.flags &&& flagReceipt) flagReceipt = true by rw [heq]; decide))
        rw [hzero] at hset
        exact absurd hset (by decide)
      · rw [hnot] at hreceipt
        cases hreceipt
    · rw [if_pos (show isSet r.flags vrtROA = true ∧ _ from hroa)]
      exact pos_of_isSet .roa (isSet_or_left _ (isSet_or_right _ _))
    · rw [if_pos (show isSet r.flags vrtBGPSEC = true ∧ _ from hbgpsec)]
      exact pos_of_isSet .bgpsec (isSet_or_right _ _)

/-! ## What a request leaves -/

/-- The results a request is answered with. -/
def requestResult (s : ServerState) (r : VerifyRequest) (locals : Locals) : UpdateResult :=
  match getUpdateResult s.updateCache r.updateID with
  | none => ⟨r.roaDefRes, r.bgpsecDefRes, (requestPart s r locals).aspaResult⟩
  | some info => { info.srxRes with aspaResult := (requestPart s r locals).aspaResult }

/-- The defaults of a new update are its results. -/
theorem told_iff : Told r (requestResult s r locals) ↔
    isSet r.flags flagReceipt = true ∨ DefaultDiffers s r := by
  unfold Told requestResult DefaultDiffers
  cases hknown : getUpdateResult s.updateCache r.updateID with
  | none =>
    refine or_congr_right ⟨fun h => ?_, fun ⟨info, hinfo, _⟩ => (nomatch hinfo)⟩
    rcases h with ⟨-, hne⟩ | ⟨-, hne⟩
    · exact absurd rfl hne
    · exact absurd rfl hne
  | some info =>
    refine or_congr_right ⟨fun h => ⟨info, rfl, h⟩, fun ⟨info', hinfo, h⟩ => ?_⟩
    obtain rfl := Option.some.inj hinfo
    exact h

/-- The queue after a request. -/
theorem request_queue (now : Nat) :
    (processValidationRequest s r locals now).cmdQueue =
      if (isSet r.flags vrtROA || isSet r.flags vrtBGPSEC || isSet r.flags vrtASPA) = true ∧
          sendFlags r (requestResult s r locals) &&& (vrtROA ||| vrtBGPSEC ||| vrtASPA) > 0 then
        s.cmdQueue ++ [⟨r.updateID, sendFlags r (requestResult s r locals) &&&
          (vrtROA ||| vrtBGPSEC ||| vrtASPA), r.asType⟩]
      else s.cmdQueue := by
  unfold processValidationRequest requestResult requestPart
  cases getUpdateResult s.updateCache r.updateID with
  | none => rfl
  | some info => rfl

/-- A validation that is asked for is queued if and only if the proxy has to be told something. -/
theorem queued_iff (now : Nat) {kind : ValidationKind} (hkind : r.asks kind) :
    CommandQueued s (processValidationRequest s r locals now) r.updateID kind ↔
      Told r (requestResult s r locals) := by
  have hany : (isSet r.flags vrtROA || isSet r.flags vrtBGPSEC || isSet r.flags vrtASPA) = true := by
    unfold VerifyRequest.asks at hkind
    cases kind with
    | roa => rw [show isSet r.flags vrtROA = true from hkind, Bool.true_or, Bool.true_or]
    | bgpsec => rw [show isSet r.flags vrtBGPSEC = true from hkind, Bool.or_true, Bool.true_or]
    | aspa => rw [show isSet r.flags vrtASPA = true from hkind, Bool.or_true]
  unfold CommandQueued
  rw [request_queue]
  constructor
  · rintro ⟨added, hadded, item, hitem, -⟩
    by_contra hnot
    rw [sendFlags_zero hnot, if_neg fun h => absurd h.2 (by decide)] at hadded
    rw [List.self_eq_append_right.mp hadded] at hitem
    cases hitem
  · intro htold
    have hflag := isSet_keep (sendFlags_asks htold hkind)
    rw [if_pos ⟨hany, pos_of_isSet kind hflag⟩]
    exact ⟨_, rfl, _, List.mem_singleton_self _, rfl, hflag⟩

theorem taken_pathResult (old : UInt8) {info : UpdateResultInfo} (hid : info.pathId = 0)
    (doStoreUpdate : Bool) :
    AspaPart.taken (aspaPart s.aspathCache r locals info doStoreUpdate) old =
      if pathResult s r locals ≠ SrxResult.undefined.code then useResult (pathResult s r locals) old
      else old := by
  unfold AspaPart.taken aspaPart pathResult
  rw [if_pos hid]
  dsimp only
  cases getAspathListFromAspathCache s.aspathCache (r.pathId locals) 0 with
  | mk found v =>
    cases found with
    | none => rfl
    | some aspl =>
      dsimp only
      by_cases hund : v = SrxResult.undefined.code
      · rw [if_pos hund, if_neg fun h => h hund]
      · rw [if_neg hund, if_pos hund]

/-- The results that are stored after a request are those the caches had before. -/
theorem requestInfo_result : (requestInfo s r locals).srxRes = resultBefore s r locals := by
  have hkeep (info : UpdateResultInfo) (doStoreUpdate : Bool) :
      (⟨info.srxRes.roaResult, info.srxRes.bgpsecResult, AspaPart.taken
          (aspaPart s.aspathCache r locals info doStoreUpdate) info.srxRes.aspaResult⟩ :
        UpdateResult) = if info.pathId = 0 ∧ pathResult s r locals ≠ SrxResult.undefined.code then
          { info.srxRes with
            aspaResult := useResult (pathResult s r locals) info.srxRes.aspaResult }
        else info.srxRes := by
    by_cases hid : info.pathId = 0
    · rw [taken_pathResult _ hid]
      by_cases hres : pathResult s r locals ≠ SrxResult.undefined.code
      · rw [if_pos hres, if_pos ⟨hid, hres⟩]
      · rw [if_neg hres, if_neg fun h => hres h.2]
    · rw [aspaPart_kept hid, if_neg fun h => hid h.1]
      rfl
  unfold requestInfo resultBefore requestPart
  cases getUpdateResult s.updateCache r.updateID with
  | none => exact hkeep resultNotFound true
  | some info => exact hkeep info false

theorem stillUndefined_iff (now : Nat) (kind : ValidationKind) :
    StillUndefined (processValidationRequest s r locals now) r.updateID kind ↔
      (resultBefore s r locals).get kind = SrxResult.undefined.code := by
  unfold StillUndefined
  rw [request_eq, if_pos rfl, ← requestInfo_result]
  constructor
  · rintro ⟨info, hinfo, h⟩
    obtain rfl := Option.some.inj hinfo
    exact h
  · intro h
    exact ⟨_, rfl, h⟩

end SchedulingLemmas

open SchedulingLemmas

/-- Every requested validation that has no result yet is queued if and only if the request asks for a
receipt, or a default is not the stored result of a known update, or there is nothing to validate. -/
theorem scheduled_iff (s : ServerState) (r : VerifyRequest) (locals : Locals) (now : Nat) :
    AllScheduled s r locals now ↔
      isSet r.flags flagReceipt = true ∨ DefaultDiffers s r ∨
        ∀ kind, r.asks kind → (resultBefore s r locals).get kind ≠ SrxResult.undefined.code := by
  unfold AllScheduled
  rw [← or_assoc, ← @told_iff s r locals]
  constructor
  · intro h
    by_cases htold : Told r (requestResult s r locals)
    · exact .inl htold
    · refine .inr fun kind hkind hund => htold ?_
      exact (queued_iff now hkind).mp (h kind hkind ((stillUndefined_iff now kind).mpr hund))
  · intro h kind hkind hund
    rcases h with htold | hdone
    · exact (queued_iff now hkind).mpr htold
    · exact absurd ((stillUndefined_iff now kind).mp hund) (hdone kind hkind)

/-- A request for origin validation, without the receipt bit and with the default `undefined`. -/
def silentRequest : VerifyRequest where
  clientID := 1
  updateID := 7
  flags := vrtROA
  v4 := true
  asType := .asSequence
  asRelType := .customer
  afi := 1
  path := [65001]
  wire := one_fits16
  bgpsecPath := none
  roaResSrc := 0
  bgpsecResSrc := 0
  aspaResSrc := 0
  roaDefRes := SrxResult.undefined.code
  bgpsecDefRes := SrxResult.undefined.code
  aspaDefRes := SrxResult.undefined.code

/-- The first request to a new server: its update is stored and never validated. -/
theorem not_scheduled_new : ¬ AllScheduled
    (initServerState 1 (by decide) 0 ⟨fun _ _ _ => .valid, fun _ => SrxResult.valid.code⟩)
    silentRequest ⟨.asSequence, .customer⟩ 0 := by
  intro h
  obtain ⟨added, hadded, item, hitem, -⟩ := h .roa rfl ⟨_, rfl, rfl⟩
  cases hadded
  cases hitem

end SrxSuite.Server

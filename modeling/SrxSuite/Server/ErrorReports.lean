import SrxSuite.Lib.Fields

/-!
# Error reports

`sendErrorReport` and `handleErrorReport` of `server/rpki_router_client.c`. A report has a copy of the
PDU that is in error, and a text behind it; the header says the length of the first only. Memory that is
asked for is there, and the connection is open.

Result: the report is read back as it was written if and only if its length fits in 32 bits
(`errorReport_iff`). Otherwise `totalLen` wraps, and the copies leave the buffer of that size.
-/

namespace SrxSuite.Server

open Bytes

/-! ## The code -/

/-- Memory whose length fits in `u_int32_t`. -/
abbrev Sized32 := { bs : Bytes // bs.length < 2 ^ 32 }

/-- The length of the memory. -/
def Sized32.len (bs : Sized32) : UInt32 := UInt32.ofNat bs.val.length

/-- `sizeof(RPKIErrorReportHeader)` -/
def errorReportHeaderSize : Nat := 12

/-- `RPKI_EC_NO_DATA_AVAILABLE` -/
def ecNoDataAvailable : UInt16 := 2

/-- `totalLen` of `sendErrorReport`. -/
def totalLen (erronPDU errText : Sized32) : UInt32 :=
  UInt32.ofNat errorReportHeaderSize + erronPDU.len + (4 + errText.len)

/-- `sendErrorReport`: the bytes that `_sendPDU` sends. `PDU_TYPE_ERROR_REPORT` is 10. -/
def sendErrorReport (version : UInt8) (errCode : UInt16) (erronPDU errText : Sized32) : Option Bytes := do
  let buff ← writeAll [
      (0, [version]),
      (1, [10]),
      (2, be16 errCode),
      (4, be32 (totalLen erronPDU errText)),
      (8, be32 erronPDU.len),
      (errorReportHeaderSize, erronPDU.val),
      (errorReportHeaderSize + erronPDU.val.length, be32 errText.len),
      (errorReportHeaderSize + erronPDU.val.length + 4, errText.val)]
    (List.replicate (totalLen erronPDU errText).toNat 0)
  let length ← buff.be32At 4
  buff.readAt 0 length.toNat

/-- What `handleErrorReport` gives to the callback, and what it returns. -/
structure ErrorReport where
  errorNumber : UInt16
  errorStr : Bytes
  disconnect : Bool
  deriving DecidableEq, Repr

/-- `handleErrorReport`. A report of less than 2^32 bytes has a text that fits in `errorStr`. -/
def handleErrorReport (errorCallback : Option (UInt16 → Bytes → Bool)) (hdr : Bytes) :
    Option ErrorReport := do
  let epduLen ← hdr.be32At 8
  let messagePtr := 12 + epduLen.toNat
  let msgLen ← hdr.be32At messagePtr
  let errorNumber ← hdr.be16At 2
  let text ← hdr.readAt (messagePtr + 4) msgLen.toNat
  let errorStr := text ++ [0]
  some {
    errorNumber := errorNumber
    errorStr := errorStr
    disconnect := match errorCallback with
      | some callback => !callback errorNumber errorStr
      | none => errorNumber ≠ ecNoDataAvailable }

/-- The string that starts at an array. -/
def cString (array : Bytes) : Bytes := array.takeWhile (· ≠ 0)

/-- What is to hold of the bytes that were sent: their length field, the error code and the text. -/
structure ReportRead (errCode : UInt16) (errText sent : Bytes) : Prop where
  length : ∃ length, sent.be32At 4 = some length ∧ length.toNat = sent.length
  report : ∀ errorCallback, ∃ r, handleErrorReport errorCallback sent = some r ∧
    r.errorNumber = errCode ∧ r.errorStr = errText ++ [0] ∧ (0 ∉ errText → cString r.errorStr = errText)

namespace ErrorReportLemmas

variable {version : UInt8} {errCode : UInt16} {erronPDU errText : Sized32}

/-- The size of a report. -/
def reportSize (erronPDU errText : Sized32) : Nat := 16 + erronPDU.val.length + errText.val.length

theorem toNat_len (bs : Sized32) : bs.len.toNat = bs.val.length := by
  unfold Sized32.len
  rw [UInt32.toNat_ofNat', Nat.mod_eq_of_lt bs.property]

theorem toNat_totalLen (erronPDU errText : Sized32) :
    (totalLen erronPDU errText).toNat = reportSize erronPDU errText % 2 ^ 32 := by
  unfold totalLen reportSize errorReportHeaderSize
  rw [UInt32.toNat_add, UInt32.toNat_add, UInt32.toNat_add, toNat_len, toNat_len]
  simp only [UInt32.reduceOfNat, UInt32.reduceToNat]
  omega

/-- The parts of a report, in their order. -/
def reportParts (version : UInt8) (errCode : UInt16) (erronPDU errText : Sized32) : List Bytes :=
  [[version], [10], be16 errCode, be32 (totalLen erronPDU errText), be32 erronPDU.len, erronPDU.val,
    be32 errText.len, errText.val]

theorem length_reportParts :
    (reportParts version errCode erronPDU errText).flatten.length = reportSize erronPDU errText := by
  unfold reportParts reportSize
  simp only [List.flatten_cons, List.flatten_nil, List.append_nil, List.length_append,
    List.length_singleton, length_be16, length_be32]
  omega

/-- A report that fits is the sequence of its parts. -/
theorem sendErrorReport_eq (h : reportSize erronPDU errText < 2 ^ 32) :
    sendErrorReport version errCode erronPDU errText =
      some (reportParts version errCode erronPDU errText).flatten := by
  have htotal : (totalLen erronPDU errText).toNat = reportSize erronPDU errText := by
    rw [toNat_totalLen, Nat.mod_eq_of_lt h]
  have hwrite := writeAll_adjacent [] (reportParts version errCode erronPDU errText)
  rw [length_reportParts, ← htotal] at hwrite
  have hself := holdsAt_self (reportParts version errCode erronPDU errText).flatten
  have hlength : HoldsAt _ 4 (be32 (totalLen erronPDU errText)) := hself.right.right.right.left
  have hread := hself.readAt_eq
  rw [length_reportParts, ← htotal] at hread
  have hwritten : writeAll (adjacent 0 (reportParts version errCode erronPDU errText))
      (List.replicate (totalLen erronPDU errText).toNat 0) =
        some (reportParts version errCode erronPDU errText).flatten := hwrite
  refine Option.bind_eq_some_iff.mpr ⟨_, hwritten, ?_⟩
  rw [hlength.be32At_eq]
  exact hread

/-- A report that does not fit is not written: its text leaves the buffer. -/
theorem sendErrorReport_none (h : 2 ^ 32 ≤ reportSize erronPDU errText) :
    sendErrorReport version errCode erronPDU errText = none := by
  unfold sendErrorReport
  refine Option.bind_eq_none_iff.mpr fun buff hwrite => ?_
  have hfits := (writeAll_eq_some hwrite).2.1
    (errorReportHeaderSize + erronPDU.val.length + 4, errText.val)
    (List.mem_of_getElem? (i := 7) rfl)
  rw [List.length_replicate, toNat_totalLen] at hfits
  have hsize : errorReportHeaderSize + erronPDU.val.length + 4 + errText.val.length =
      reportSize erronPDU errText := by
    unfold errorReportHeaderSize reportSize
    omega
  rw [hsize] at hfits
  exact absurd (Nat.mod_lt _ (by decide)) (Nat.not_lt.mpr (Nat.le_trans h hfits))

/-- The parser finds the text behind the PDU. -/
theorem handleErrorReport_parts (errorCallback : Option (UInt16 → Bytes → Bool)) :
    ∃ r, handleErrorReport errorCallback (reportParts version errCode erronPDU errText).flatten = some r ∧
      r.errorNumber = errCode ∧ r.errorStr = errText.val ++ [0] := by
  have hself := holdsAt_self (reportParts version errCode erronPDU errText).flatten
  have hcode : HoldsAt _ 2 (be16 errCode) := hself.right.right.left
  have hepdu : HoldsAt _ 8 (be32 erronPDU.len) := hself.right.right.right.right.left
  have hmsg : HoldsAt _ (12 + erronPDU.val.length) (be32 errText.len) :=
    hself.right.right.right.right.right.right.left
  have htext : HoldsAt _ (12 + erronPDU.val.length + 4) errText.val :=
    hself.right.right.right.right.right.right.right.left
  refine ⟨{
    errorNumber := errCode
    errorStr := errText.val ++ [0]
    disconnect := match errorCallback with
      | some callback => !callback errCode (errText.val ++ [0])
      | none => errCode ≠ ecNoDataAvailable }, ?_, rfl, rfl⟩
  unfold handleErrorReport
  rw [hepdu.be32At_eq]
  simp only [Option.bind_eq_bind, Option.bind_some, toNat_len]
  rw [hmsg.be32At_eq, hcode.be16At_eq]
  simp only [Option.bind_some, toNat_len]
  rw [htext.readAt_eq]
  rfl

theorem cString_append {text : Bytes} (h : 0 ∉ text) : cString (text ++ [0]) = text := by
  have hall : ∀ b ∈ text, decide (b ≠ 0) = true :=
    fun b hb => decide_eq_true fun hzero => h (hzero ▸ hb)
  unfold cString
  rw [List.takeWhile_append_of_pos hall, List.takeWhile_cons_of_neg (by decide), List.append_nil]

end ErrorReportLemmas

open ErrorReportLemmas

/-- A report is sent with its length, and read back with its error code and its text, whatever the PDU
is, if and only if the length fits in its field. -/
theorem errorReport_iff (version : UInt8) (errCode : UInt16) (erronPDU errText : Sized32) :
    (∃ sent, sendErrorReport version errCode erronPDU errText = some sent ∧
      ReportRead errCode errText.val sent) ↔
      16 + erronPDU.val.length + errText.val.length < 2 ^ 32 := by
  constructor
  · rintro ⟨sent, hsent, -⟩
    by_contra hlarge
    rw [sendErrorReport_none (Nat.le_of_not_lt hlarge)] at hsent
    cases hsent
  · intro hfits
    refine ⟨_, sendErrorReport_eq hfits, ⟨totalLen erronPDU errText, ?_, ?_⟩, fun errorCallback => ?_⟩
    · have hself := holdsAt_self (reportParts version errCode erronPDU errText).flatten
      have hlength : HoldsAt _ 4 (be32 (totalLen erronPDU errText)) := hself.right.right.right.left
      exact hlength.be32At_eq
    · rw [toNat_totalLen, length_reportParts]
      exact Nat.mod_eq_of_lt hfits
    · obtain ⟨r, hr, hnumber, hstr⟩ := handleErrorReport_parts errorCallback
      refine ⟨r, hr, hnumber, hstr, fun hnul => ?_⟩
      rw [hstr]
      exact cString_append hnul

theorem exists_length (n : Nat) : ∃ bs : Bytes, bs.length = n := ⟨List.replicate n 0, List.length_replicate⟩

/-- A PDU of 2^32 - 16 bytes with a text of one byte. -/
theorem errorReport_wraps : ∃ erronPDU errText : Sized32,
    erronPDU.val.length = 2 ^ 32 - 16 ∧ errText.val = [65] ∧
      ¬ ∃ sent, sendErrorReport 1 0 erronPDU errText = some sent ∧ ReportRead 0 errText.val sent := by
  obtain ⟨pdu, hpdu⟩ := exists_length (2 ^ 32 - 16)
  have hfits : pdu.length < 2 ^ 32 := by
    rw [hpdu]
    decide
  have hlarge : 2 ^ 32 ≤ reportSize ⟨pdu, hfits⟩ ⟨[65], by decide⟩ := by
    unfold reportSize
    rw [hpdu]
    decide
  refine ⟨⟨pdu, hfits⟩, ⟨[65], by decide⟩, hpdu, rfl, ?_⟩
  rintro ⟨sent, hsent, -⟩
  rw [sendErrorReport_none hlarge] at hsent
  cases hsent

end SrxSuite.Server

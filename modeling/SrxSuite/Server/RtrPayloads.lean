import SrxSuite.Aspa.Reception
import SrxSuite.Server.ErrorReports
import SrxSuite.Server.RtrDispatch

/-!
# What the handlers of RTR PDUs read

The handlers that `receivePDUs` calls, on the bytes of the PDU that were received. They take the fields
at their offsets in the header of the type. An ASPA PDU has a list behind its header, with a counter of
its own, an error report two parts, each with a length. No handler is given the length of the PDU, but
for `handleReceiveAspaPdu`, which does not look at it. A read behind the bytes that were received is
`none`.

Result: `payload_iff`, when all that is read was received.
-/

namespace SrxSuite.Server

open Aspa Bytes

/-! ## The handlers -/

/-- What a handler gives to its callback, of the PDU. -/
inductive Payload
  | none
  | session (sessionID : UInt32)
  | ipPrefix (isAnn : Bool) (addr : Bytes) (length maxLen : UInt8) (as : UInt32)
  | endOfData (serial : UInt32)
  | routerKey (isAnn : Bool) (as : UInt32) (ski keyInfo : Bytes)
  | errorReport (report : ErrorReport)
  | aspa (pdu : AspaPdu)

/-- `PREFIX_FLAG_ANNOUNCEMENT` -/
def isAnnouncement (flags : UInt8) : Bool := flags &&& 0x01 ≠ 0

/-- The handler of a prefix with an address of some bytes. -/
def handleIPPrefix (addrSize : Nat) (hdr : Bytes) : Option Payload := do
  let addr ← hdr.readAt 12 addrSize
  let prefixLen ← hdr[9]?
  let flags ← hdr[8]?
  let maxLen ← hdr[10]?
  let as ← hdr.be32At (12 + addrSize)
  some (.ipPrefix (isAnnouncement flags) addr prefixLen maxLen as)

/-- `handleIPv4Prefix` -/
def handleIPv4Prefix (hdr : Bytes) : Option Payload := handleIPPrefix 4 hdr

/-- `handleIPv6Prefix` -/
def handleIPv6Prefix (hdr : Bytes) : Option Payload := handleIPPrefix 16 hdr

/-- `handlePDURouterKey`. Its callback copies the SKI and the key. -/
def handlePDURouterKey (hdr : Bytes) : Option Payload := do
  let flags ← hdr[2]?
  let as ← hdr.be32At 28
  let ski ← hdr.readAt 8 20
  let keyInfo ← hdr.readAt 32 91
  some (.routerKey (isAnnouncement flags) as ski keyInfo)

/-- `handleReceiveAspaPdu`. The loop fills the list, as long as its counter says. -/
def handleAspa (hdr : Bytes) : Option Payload := do
  let customerAsn ← hdr.be32At 12
  let providerAsCount ← hdr.be16At 10
  let flags ← hdr[8]?
  let providerAsns ← (List.range providerAsCount.toNat).mapM fun idx =>
    hdr.be32At (aspaHeaderSize + 4 * idx)
  if enough : providerAsCount.toNat ≤ providerAsns.length then
    some (.aspa ⟨customerAsn, providerAsCount, providerAsns, flags &&& 0x02, flags &&& 0x01, enough⟩)
  else none

/-- The switch of `receivePDUs`: the handler of the type, with the client as it is then. -/
def handlePayload (client : RtrClient) (errorCallback : Option (UInt16 → Bytes → Bool)) (pdu : RtrPdu) :
    Option Payload :=
  match pdu.pduType with
  | .serialNotify => (pdu.received.be16At 2).map fun sessionID => .session sessionID.toUInt32
  | .cacheResponse => (pdu.received.be16At 2).map fun sessionID => .session sessionID.toUInt32
  | .ipv4Prefix => handleIPv4Prefix pdu.received
  | .ipv6Prefix => handleIPv6Prefix pdu.received
  | .endOfData => do
    let sessionID ← pdu.received.be16At 2
    if (checkSessionID client sessionID.toUInt32).2 then
      let serial ← pdu.received.be32At 8
      some (.endOfData serial)
    else some .none
  | .routerKey => if client.version ≠ 0 then handlePDURouterKey pdu.received else some .none
  | .cacheReset => some .none
  | .errorReport => (handleErrorReport errorCallback pdu.received).map .errorReport
  | .aspa => if client.version > 1 then handleAspa pdu.received else some .none
  | .reserved => some .none
  | .serialQuery => some .none
  | .resetQuery => some .none
  | .other _ => some .none

/-- The length of the PDU that is in error, and that of the text behind it. -/
def RtrPdu.epduLen (pdu : RtrPdu) : Nat := (pdu.byte.u32 8).toNat
def RtrPdu.msgLen (pdu : RtrPdu) : Nat := (pdu.byte.u32 (12 + pdu.epduLen)).toNat

/-- The counter of an ASPA PDU. -/
def RtrPdu.providerAsCount (pdu : RtrPdu) : Nat := (pdu.byte.u16 10).toNat

/-- The number of bytes that a PDU has to have for its handler. -/
def RtrPdu.needed (pdu : RtrPdu) (client : RtrClient) : Nat :=
  match pdu.pduType with
  | .ipv4Prefix => 20
  | .ipv6Prefix => 32
  | .endOfData => if (checkSessionID client pdu.sessionID).2 then 12 else commonHeaderSize
  | .routerKey => if client.version ≠ 0 then 123 else commonHeaderSize
  | .errorReport => 16 + pdu.epduLen + pdu.msgLen
  | .aspa => if client.version > 1 then aspaHeaderSize + 4 * pdu.providerAsCount else commonHeaderSize
  | _ => commonHeaderSize

namespace RtrPayloadsLemmas

open RtrLemmas

variable {hdr : Bytes} {pdu : RtrPdu} {client : RtrClient}

/-! ## The handlers -/

theorem handleIPPrefix_isSome (addrSize : Nat) (hdr : Bytes) :
    (handleIPPrefix addrSize hdr).isSome ↔ 16 + addrSize ≤ hdr.length := by
  unfold handleIPPrefix
  constructor
  · intro h
    obtain ⟨payload, h⟩ := Option.isSome_iff_exists.mp h
    obtain ⟨addr, -, h⟩ := Option.bind_eq_some_iff.mp h
    obtain ⟨prefixLen, -, h⟩ := Option.bind_eq_some_iff.mp h
    obtain ⟨flags, -, h⟩ := Option.bind_eq_some_iff.mp h
    obtain ⟨maxLen, -, h⟩ := Option.bind_eq_some_iff.mp h
    obtain ⟨as, has, -⟩ := Option.bind_eq_some_iff.mp h
    have hend := (isSome_be32At hdr (12 + addrSize)).mp (by rw [has]; rfl)
    omega
  · intro h
    have has := (isSome_be32At hdr (12 + addrSize)).mpr (by omega)
    have haddr := (isSome_readAt hdr 12 addrSize).mpr (by omega)
    obtain ⟨as, has⟩ := Option.isSome_iff_exists.mp has
    obtain ⟨addr, haddr⟩ := Option.isSome_iff_exists.mp haddr
    rw [haddr, has, List.getElem?_eq_getElem (by omega), List.getElem?_eq_getElem (by omega),
      List.getElem?_eq_getElem (by omega)]
    rfl

theorem handlePDURouterKey_isSome (hdr : Bytes) :
    (handlePDURouterKey hdr).isSome ↔ 123 ≤ hdr.length := by
  unfold handlePDURouterKey
  constructor
  · intro h
    obtain ⟨payload, h⟩ := Option.isSome_iff_exists.mp h
    obtain ⟨flags, -, h⟩ := Option.bind_eq_some_iff.mp h
    obtain ⟨as, -, h⟩ := Option.bind_eq_some_iff.mp h
    obtain ⟨ski, -, h⟩ := Option.bind_eq_some_iff.mp h
    obtain ⟨keyInfo, hkeyInfo, -⟩ := Option.bind_eq_some_iff.mp h
    exact (isSome_readAt hdr 32 91).mp (by rw [hkeyInfo]; rfl)
  · intro h
    have has := (isSome_be32At hdr 28).mpr (by omega)
    have hski := (isSome_readAt hdr 8 20).mpr (by omega)
    have hkeyInfo := (isSome_readAt hdr 32 91).mpr h
    obtain ⟨as, has⟩ := Option.isSome_iff_exists.mp has
    obtain ⟨ski, hski⟩ := Option.isSome_iff_exists.mp hski
    obtain ⟨keyInfo, hkeyInfo⟩ := Option.isSome_iff_exists.mp hkeyInfo
    rw [has, hski, hkeyInfo, List.getElem?_eq_getElem (by omega)]
    rfl

/-- The loop over a list that is there reads all of it. -/
theorem readWords {b : Memory} (h : RegionOf hdr b) (off : Nat) {n : Nat} (hle : off + 4 * n ≤ hdr.length) :
    ((List.range n).mapM fun idx => hdr.be32At (off + 4 * idx)) =
      some ((List.range n).map fun idx => b.u32 (off + 4 * idx)) := by
  induction n with
  | zero => rfl
  | succ n ih =>
    rw [List.range_succ, List.mapM_append, ih (by omega), List.map_append]
    simp only [List.mapM_cons, List.mapM_nil, h.be32At_eq, if_pos (by omega : off + 4 * n + 4 ≤ hdr.length)]
    rfl

/-- The loop over a list that is not there leaves the PDU. -/
theorem readWords_none (off : Nat) {n : Nat} (hle : off ≤ hdr.length) (hlt : hdr.length < off + 4 * n) :
    ((List.range n).mapM fun idx => hdr.be32At (off + 4 * idx)) = none := by
  induction n with
  | zero => exact absurd hlt (Nat.not_lt.mpr hle)
  | succ n ih =>
    rw [List.range_succ, List.mapM_append]
    by_cases hprev : hdr.length < off + 4 * n
    · rw [ih hprev]
      rfl
    · have hregion := regionOf_getD hdr
      rw [readWords hregion off (Nat.le_of_not_lt hprev)]
      simp only [List.mapM_cons, hregion.be32At_eq, if_neg (by omega : ¬ off + 4 * n + 4 ≤ hdr.length)]
      rfl

/-- What is handed over of an ASPA PDU, if its list was received. -/
theorem handleAspa_eq {b : Memory} (h : RegionOf hdr b) :
    handleAspa hdr = if aspaHeaderSize + 4 * (b.u16 10).toNat ≤ hdr.length then
      some (.aspa (handleReceiveAspaPdu b)) else none := by
  unfold handleAspa
  rw [h.be32At_eq, h.be16At_eq, h.getElem?_eq]
  by_cases hheader : aspaHeaderSize ≤ hdr.length
  · have hle : 16 ≤ hdr.length := hheader
    rw [if_pos (show 12 + 4 ≤ hdr.length from hle), if_pos (show 10 + 2 ≤ hdr.length by omega),
      if_pos (show 8 < hdr.length by omega)]
    simp only [Option.bind_eq_bind, Option.bind_some]
    split
    · next hlist =>
      rw [readWords h aspaHeaderSize hlist]
      exact dif_pos (by rw [List.length_map, List.length_range])
    · next hlist =>
      rw [readWords_none aspaHeaderSize hheader (Nat.lt_of_not_le hlist)]
      rfl
  · rw [if_neg (show ¬ 12 + 4 ≤ hdr.length from hheader),
      if_neg fun hlist => hheader (Nat.le_trans (Nat.le_add_right _ _) hlist)]
    rfl

/-- What is handed over of an error report. -/
theorem handleErrorReport_isSome (errorCallback : Option (UInt16 → Bytes → Bool)) (pdu : RtrPdu) :
    (handleErrorReport errorCallback pdu.received).isSome ↔
      16 + pdu.epduLen + pdu.msgLen ≤ pdu.received.length := by
  have hregion : RegionOf pdu.received pdu.byte := regionOf_getD pdu.received
  unfold handleErrorReport
  rw [hregion.be32At_eq 8, hregion.be16At_eq]
  by_cases hheader : 8 + 4 ≤ pdu.received.length
  · rw [if_pos hheader, if_pos (by omega : 2 + 2 ≤ pdu.received.length)]
    simp only [Option.bind_eq_bind, Option.bind_some]
    rw [hregion.be32At_eq, show (pdu.byte.u32 8).toNat = pdu.epduLen from rfl]
    by_cases hmsg : 12 + pdu.epduLen + 4 ≤ pdu.received.length
    · rw [if_pos hmsg]
      simp only [Option.bind_some]
      rw [show (pdu.byte.u32 (12 + pdu.epduLen)).toNat = pdu.msgLen from rfl, hregion.readAt_eq]
      by_cases htext : 12 + pdu.epduLen + 4 + pdu.msgLen ≤ pdu.received.length
      · rw [if_pos htext]
        exact iff_of_true rfl (by omega)
      · rw [if_neg htext]
        exact iff_of_false Bool.false_ne_true (by omega)
    · rw [if_neg hmsg]
      exact iff_of_false Bool.false_ne_true (by omega)
  · rw [if_neg hheader]
    exact iff_of_false Bool.false_ne_true (by omega)

/-! ## The switch -/

theorem isSome_map {α β : Type} (o : Option α) (f : α → β) : (o.map f).isSome = o.isSome := by
  cases o with
  | none => rfl
  | some a => rfl

theorem isSome_sessionID (f : UInt16 → Payload) (h : commonHeaderSize ≤ pdu.received.length) :
    ((pdu.received.be16At 2).map f).isSome ↔ commonHeaderSize ≤ pdu.received.length := by
  rw [isSome_map, isSome_be16At]
  exact iff_of_true (Nat.le_trans (by decide) h) h

/-- A PDU of which the handler takes nothing. -/
theorem isSome_none (h : commonHeaderSize ≤ pdu.received.length) :
    (some Payload.none).isSome ↔ commonHeaderSize ≤ pdu.received.length := iff_of_true rfl h

theorem handlePayload_isSome (client : RtrClient) (errorCallback : Option (UInt16 → Bytes → Bool))
    (h : commonHeaderSize ≤ pdu.received.length) :
    (handlePayload client errorCallback pdu).isSome ↔ pdu.needed client ≤ pdu.received.length := by
  have hregion : RegionOf pdu.received pdu.byte := regionOf_getD pdu.received
  unfold handlePayload RtrPdu.needed
  cases pdu.pduType with
  | serialNotify => exact isSome_sessionID _ h
  | cacheResponse => exact isSome_sessionID _ h
  | ipv4Prefix => exact handleIPPrefix_isSome 4 pdu.received
  | ipv6Prefix => exact handleIPPrefix_isSome 16 pdu.received
  | endOfData =>
    have hle : 8 ≤ pdu.received.length := h
    dsimp only
    rw [hregion.be16At_eq, if_pos (by omega : 2 + 2 ≤ pdu.received.length)]
    simp only [Option.bind_eq_bind, Option.bind_some]
    rw [show (pdu.byte.u16 2).toUInt32 = pdu.sessionID from rfl]
    split
    · rw [hregion.be32At_eq]
      by_cases hserial : 8 + 4 ≤ pdu.received.length
      · rw [if_pos hserial]
        exact iff_of_true rfl hserial
      · rw [if_neg hserial]
        exact iff_of_false Bool.false_ne_true hserial
    · exact isSome_none h
  | routerKey =>
    dsimp only
    split
    · exact handlePDURouterKey_isSome pdu.received
    · exact isSome_none h
  | errorReport =>
    dsimp only
    rw [isSome_map]
    exact handleErrorReport_isSome errorCallback pdu
  | aspa =>
    dsimp only
    split
    · rw [handleAspa_eq hregion]
      show Option.isSome (if aspaHeaderSize + 4 * pdu.providerAsCount ≤ pdu.received.length then _
        else none) = true ↔ _
      split
      · next hlist => exact iff_of_true rfl hlist
      · next hlist => exact iff_of_false Bool.false_ne_true hlist
    · exact isSome_none h
  | cacheReset => exact isSome_none h
  | reserved => exact isSome_none h
  | serialQuery => exact isSome_none h
  | resetQuery => exact isSome_none h
  | other code => exact isSome_none h

/-- A PDU that is not dropped has its common header. -/
theorem header_received {socket : Util.Socket} {buffSize : Nat} {mem : Bool}
    (h : (getPacket socket buffSize mem).pduLen ≠ 0) :
    commonHeaderSize ≤ (getPacket socket buffSize mem).pdu.received.length := by
  have hlen : commonHeaderSize ≤ socket.stream.length :=
    Nat.le_of_not_lt fun hlt => h (getPacket_lost hlt)
  obtain ⟨hok, hbytes, -, -⟩ := Util.recvNum_eq socket commonHeaderSize (by decide)
  have hheader : commonHeaderSize ≤ (Util.recvNum socket commonHeaderSize).bytes.length := by
    rw [hbytes, List.length_take_of_le hlen]
  unfold getPacket
  dsimp only
  rw [hok, decide_eq_true hlen, if_pos rfl]
  split
  · exact hheader
  · split
    · split
      · exact hheader
      · rw [List.length_append]
        exact Nat.le_trans hheader (Nat.le_add_right _ _)
    · exact hheader

end RtrPayloadsLemmas

open RtrPayloadsLemmas

/-- The handler of a PDU that `_getPacket` gives reads no byte behind those that were received, if and
only if they are as many as the header of its type, the counter of its list or the lengths of its parts
ask for. -/
theorem payload_iff (client : RtrClient) (errorCallback : Option (UInt16 → Bytes → Bool))
    (socket : Util.Socket) (buffSize : Nat) (mem : Bool)
    (h : (getPacket socket buffSize mem).pduLen ≠ 0) :
    (handlePayload client errorCallback (getPacket socket buffSize mem).pdu).isSome ↔
      (getPacket socket buffSize mem).pdu.needed client ≤
        (getPacket socket buffSize mem).pdu.received.length :=
  handlePayload_isSome client errorCallback (header_received h)

/-- A client that has negotiated the version 2. -/
def someRtrClient : RtrClient := ⟨2, false, 0, false, 0, .resetQuery, .cacheResponse, false⟩

/-- An error report with the text A. -/
theorem payload_report :
    (handlePayload someRtrClient none
      (getPacket (some [[2, 10, 0, 0, 0, 0, 0, 17, 0, 0, 0, 0, 0, 0, 0, 1, 65]]) 123 true).pdu).isSome :=
  (payload_iff someRtrClient none
    (some [[2, 10, 0, 0, 0, 0, 0, 17, 0, 0, 0, 0, 0, 0, 0, 1, 65]]) 123 true (by decide)).mpr
    (by decide)

/-- An ASPA PDU without the provider it announces, and an error report with the length 2^32 - 1 for a
PDU that is not there. Both come as a whole. -/
theorem payload_behind :
    (getPacket (some [[2, 11, 0, 0, 0, 0, 0, 16, 1, 0, 0, 1, 0, 0, 253, 232]]) 123 true).errCode =
        .noError ∧
      handlePayload someRtrClient none
        (getPacket (some [[2, 11, 0, 0, 0, 0, 0, 16, 1, 0, 0, 1, 0, 0, 253, 232]]) 123 true).pdu = none ∧
      (getPacket (some [[2, 10, 0, 0, 0, 0, 0, 16, 255, 255, 255, 255, 0, 0, 0, 0]]) 123 true).errCode =
        .noError ∧
      handlePayload someRtrClient none
        (getPacket (some [[2, 10, 0, 0, 0, 0, 0, 16, 255, 255, 255, 255, 0, 0, 0, 0]]) 123 true).pdu =
          none := by
  refine ⟨by decide, ?_, by decide, ?_⟩
  · rfl
  · rfl

end SrxSuite.Server

import SrxSuite.Lib.Runs
import SrxSuite.Util.Socket

/-!
# The RPKI-to-router client

The model of the receiver of `server/rpki_router_client.c`: `_getPacket` reads a PDU, `checkVersion`
and `receivePDUs` settle the protocol version, and the PDU goes to the handler of its type.
A run is any sequence of connections, calls of `receivePDUs` and turns of its loop. The handlers are
calls of other modules, of which the state has the record of what was handed over; what
`handleErrorReport` returns is part of the turn.
-/

namespace SrxSuite.Server

open Bytes Util

/-! ## PDUs -/

/-- `RPKIRouterPDUType`, from the byte of a header. -/
inductive RtrPduType
  | serialNotify | serialQuery | resetQuery | cacheResponse | ipv4Prefix | ipv6Prefix | endOfData
  | cacheReset | routerKey | errorReport | aspa | reserved
  | other (code : UInt8)
  deriving DecidableEq, Repr

def RtrPduType.ofCode (code : UInt8) : RtrPduType :=
  if code = 0 then .serialNotify
  else if code = 1 then .serialQuery
  else if code = 2 then .resetQuery
  else if code = 3 then .cacheResponse
  else if code = 4 then .ipv4Prefix
  else if code = 6 then .ipv6Prefix
  else if code = 7 then .endOfData
  else if code = 8 then .cacheReset
  else if code = 9 then .routerKey
  else if code = 10 then .errorReport
  else if code = 11 then .aspa
  else if code = 255 then .reserved
  else .other code

/-- `sizeof(RPKICommonHeader)`. -/
def commonHeaderSize : Nat := 8

/-- The size of the header of a type. Its length field is no smaller in a PDU of the type. -/
def RtrPduType.minSize : RtrPduType → Nat
  | .serialNotify => 12
  | .serialQuery => 12
  | .resetQuery => 8
  | .cacheResponse => 8
  | .ipv4Prefix => 20
  | .ipv6Prefix => 32
  | .endOfData => 12
  | .cacheReset => 8
  | .routerKey => 123
  | .errorReport => 12
  | .aspa => 16
  | .reserved => 8
  | .other _ => 8

/-- The bytes of a PDU that were received; the buffer has zeros behind them. -/
structure RtrPdu where
  received : Bytes
  deriving DecidableEq, Repr

namespace RtrPdu

def byte (pdu : RtrPdu) : Memory := fun i => pdu.received.getD i 0

/-- `hdr->version`. -/
def version (pdu : RtrPdu) : UInt8 := pdu.byte 0

/-- `hdr->type`. -/
def pduType (pdu : RtrPdu) : RtrPduType := RtrPduType.ofCode (pdu.byte 1)

/-- `sessionID`, in network order. -/
def sessionID (pdu : RtrPdu) : UInt32 := (pdu.byte.u16 2).toUInt32

/-- `ntohl(hdr->length)`. -/
def length (pdu : RtrPdu) : UInt32 := pdu.byte.u32 4

/-- `serial` of an End of Data PDU. -/
def serial (pdu : RtrPdu) : UInt32 := pdu.byte.u32 8

end RtrPdu

/-! ## Receiving -/

/-- The codes `RRC_RCV_PDU_...` and `RPKI_EC_...` that `receivePDUs` sets. -/
inductive RcvError
  | noError | socketError | memoryError
  | corruptData | internalError | unsupportedProtVer | unsupportedPdu | unexpectedProtocolVersion
  deriving DecidableEq, Repr

/-- What `_getPacket` leaves: the length it returns, the error, the PDU, the size of the buffer and the
socket. -/
structure Packet where
  pduLen : UInt32
  errCode : RcvError
  pdu : RtrPdu
  buffSize : Nat
  socket : Socket

/-- `skipBytes`, in parts of 1024 bytes. -/
def skipBytes (socket : Socket) : (num : Nat) → Socket
  | 0 => socket
  | num + 1 =>
    let r := recvNum socket (min (num + 1) 1024)
    if r.ok then skipBytes r.socket (num + 1 - min (num + 1) 1024) else r.socket
termination_by num => num
decreasing_by omega

/-- `_getPacket`; `mem` says whether `realloc` finds memory for a larger buffer. -/
def getPacket (socket : Socket) (buffSize : Nat) (mem : Bool) : Packet :=
  let hdr := recvNum socket commonHeaderSize
  if hdr.ok then
    let pduLen := (RtrPdu.mk hdr.bytes).length
    if pduLen.toNat < commonHeaderSize then
      ⟨pduLen, .corruptData, ⟨hdr.bytes⟩, buffSize, hdr.socket⟩
    else
      let bytesMissing := pduLen.toNat - commonHeaderSize
      if bytesMissing > 0 then
        if pduLen.toNat > buffSize ∧ mem = false then
          ⟨pduLen, .corruptData, ⟨hdr.bytes⟩, buffSize, skipBytes hdr.socket bytesMissing⟩
        else
          let rest := recvNum hdr.socket bytesMissing
          ⟨if rest.ok then pduLen else UInt32.ofNat commonHeaderSize,
            if rest.ok then .noError else .socketError, ⟨hdr.bytes ++ rest.bytes⟩,
            max buffSize pduLen.toNat, rest.socket⟩
      else ⟨pduLen, .noError, ⟨hdr.bytes⟩, buffSize, hdr.socket⟩
  else ⟨0, .socketError, ⟨hdr.bytes⟩, buffSize, hdr.socket⟩

/-! ## The client -/

/-- What is set of `RPKIRouterClientParams`. -/
structure RtrParams where
  version : UInt8
  allowDowngrade : Bool

/-- `RPKIRouterClient`. The version is signed there, other than in a PDU. -/
structure RtrClient where
  version : Int8
  startup : Bool
  sessionID : UInt32
  sessionIDChanged : Bool
  serial : UInt32
  lastSent : RtrPduType
  lastRecv : RtrPduType
  stop : Bool

/-- `client->version == version`: both are widened to `int`. -/
def sameVersion (client : Int8) (version : UInt8) : Bool := client.toInt == version.toNat

/-- `client->version = version`. -/
def RtrClient.setVersion (client : RtrClient) (version : UInt8) : RtrClient :=
  { client with version := version.toInt8 }

/-- `checkVersion`. -/
def checkVersion (params : RtrParams) (client : RtrClient) (version : UInt8) : RtrClient × Bool :=
  let client :=
    if !sameVersion client.version version && client.startup && decide (client.version.toInt > version.toNat) &&
        params.allowDowngrade then client.setVersion version
    else client
  (client, sameVersion client.version version)

/-- `checkSessionID`. -/
def checkSessionID (client : RtrClient) (sessionID : UInt32) : RtrClient × Bool :=
  let client :=
    if client.startup then
      { client with startup := false, sessionID := sessionID, sessionIDChanged := false }
    else client
  if client.sessionID = sessionID then (client, true)
  else ({ client with sessionIDChanged := true }, false)

/-- `RPKI_RTR_PROTOCOL_VERSION`. -/
def rtrProtocolVersion : UInt8 := 2

/-- The part of `receivePDUs` between `_getPacket` and the handlers: the client, the error code, and
whether the PDU goes on to the handlers. -/
def negotiate (params : RtrParams) (client : RtrClient) (pdu : RtrPdu) (errCode : RcvError) :
    RtrClient × RcvError × Bool :=
  let (client, same) := checkVersion params client pdu.version
  if same then (client, errCode, true)
  else
    let errCode := if pdu.version > rtrProtocolVersion ∨ client.version = 0 then
      RcvError.unsupportedProtVer else .unexpectedProtocolVersion
    let client :=
      if client.startup && params.allowDowngrade then client.setVersion pdu.version else client
    let errCode :=
      if client.startup && decide (pdu.pduType ≠ .errorReport) then RcvError.noError else errCode
    (client, errCode, decide (errCode = .noError))

/-- The types with a handler of their content, at a version. -/
def handles (pduType : RtrPduType) (version : Int8) : Bool :=
  match pduType with
  | .serialNotify | .cacheResponse | .ipv4Prefix | .ipv6Prefix | .endOfData | .cacheReset => true
  | .routerKey => version ≠ 0
  | .aspa => version > 1
  | _ => false

/-! ## The receiver loop -/

/-- A PDU that reached the handler of its type: what `_getPacket` reported for it, the error code and
the version of the client when it did. -/
structure Dispatch where
  pdu : RtrPdu
  reported : RcvError
  errCode : RcvError
  version : Int8
  deriving DecidableEq, Repr

/-- A client with its socket and, while `receivePDUs` runs, the variables of the call. The rest is the
record of the run: the PDUs that were handled, the version with the first one of the connection, and
the versions the client had, the last first. -/
structure RtrState where
  params : RtrParams
  client : RtrClient
  socket : Socket
  running : Bool
  buffSize : Nat
  keepGoing : Bool
  errCode : RcvError
  singlePoll : Bool
  returnAfterEndOfData : Bool
  dispatched : List Dispatch
  accepted : Option Int8
  versions : List Int8

/-- What happens around a turn: `mem` is whether `realloc` finds memory, `sent` whether a PDU can be
sent, and `keep` whether `handleErrorReport` stays connected. -/
structure Turn where
  mem : Bool
  sent : Bool
  keep : Bool

namespace RtrState

/-- `_sendPDU`: a send that fails leaves the file descriptor at `-1`. -/
def sendPDU (s : RtrState) (pduType : RtrPduType) (sent : Bool) : RtrState :=
  if s.socket.isNone then s
  else if sent then { s with client.lastSent := pduType }
  else { s with socket := none }

/-- `sendResetQuery`: after a send that fails the file descriptor is set back. -/
def sendResetQuery (s : RtrState) (sent : Bool) : RtrState :=
  { s.sendPDU .resetQuery sent with socket := s.socket }

/-- The branch for a session identifier that is not that of the client. -/
def sessionError (s : RtrState) : RtrState :=
  { s with keepGoing := false, errCode := .corruptData }

/-- The branch for a PDU that is not supported. -/
def unsupported (s : RtrState) : RtrState :=
  { s with keepGoing := false, errCode := .unsupportedPdu }

/-- The switch over the type of a PDU. -/
def handlePdu (s : RtrState) (pdu : RtrPdu) (t : Turn) : RtrState :=
  match pdu.pduType with
  | .serialNotify =>
    let (client, same) := checkSessionID s.client pdu.sessionID
    let s := { s with client := client }
    if same then s.sendPDU .serialQuery t.sent else s.sessionError
  | .cacheResponse =>
    let (client, same) := checkSessionID s.client pdu.sessionID
    let s := { s with client := client }
    if same ∨ client.lastSent = .cacheReset then s else s.sessionError
  | .ipv4Prefix => s
  | .ipv6Prefix => s
  | .endOfData =>
    let (client, same) := checkSessionID s.client pdu.sessionID
    let s := { s with client := client }
    if same then
      { s with client.serial := pdu.serial, keepGoing := !s.returnAfterEndOfData }
    else s.sessionError
  | .routerKey => if s.client.version ≠ 0 then s else s.unsupported
  | .cacheReset => s.sendResetQuery t.sent
  | .errorReport => { s with keepGoing := t.keep }
  | .aspa => if s.client.version > 1 then s else s.unsupported
  | .reserved => s.unsupported
  | .serialQuery => s.unsupported
  | .resetQuery => s.unsupported
  | .other _ => s.unsupported

/-- The record of a PDU that goes to a handler. -/
def record (s : RtrState) (pdu : RtrPdu) (reported : RcvError) : RtrState :=
  if handles pdu.pduType s.client.version then
    { s with
      dispatched := s.dispatched ++ [⟨pdu, reported, s.errCode, s.client.version⟩]
      accepted := some (s.accepted.getD s.client.version) }
  else s

/-- The body of the loop of `receivePDUs`. -/
def turn (s : RtrState) (t : Turn) : RtrState :=
  let packet := getPacket s.socket s.buffSize t.mem
  let s := { s with
    socket := packet.socket
    buffSize := packet.buffSize
    errCode := packet.errCode
    keepGoing := !s.singlePoll
    versions := s.client.version :: s.versions }
  if packet.pduLen = 0 then { s with keepGoing := false }
  else
    let (client, errCode, goesOn) := negotiate s.params s.client packet.pdu s.errCode
    let s := { s with client := client, errCode := errCode }
    if goesOn then
      let s := (s.record packet.pdu packet.errCode).handlePdu packet.pdu t
      { s with client.lastRecv := packet.pdu.pduType }
    else { s with client.lastRecv := packet.pdu.pduType, keepGoing := false }

/-- The error handling behind the loop. -/
def finish (s : RtrState) (t : Turn) : RtrState :=
  let s := { s with running := false }
  if s.client.startup = false ∧ s.errCode ≠ .noError then
    let errCode :=
      if s.errCode = .memoryError ∨ s.errCode = .socketError then .internalError else s.errCode
    { s with errCode := errCode }.sendPDU .errorReport t.sent
  else s

/-- What can happen: a connection is made, with the session set back when its identifier changed; a
reset query is sent; `receivePDUs` is called; its loop takes a turn; `stop` is set, by the thread of the
client between two calls or by another one at any time. -/
inductive Op
  | connect (blocks : List Bytes)
  | sendResetQuery (sent : Bool)
  | receivePDUs (returnAfterEndOfData singlePoll mem : Bool)
  | turn (t : Turn)
  | setStop (stop : Bool)

def step (s : RtrState) : Op → RtrState
  | .connect blocks =>
    { s with
      socket := some blocks
      client.startup := s.client.startup || s.client.sessionIDChanged
      accepted := none }
  | .sendResetQuery sent => s.sendResetQuery sent
  | .receivePDUs returnAfterEndOfData singlePoll mem =>
    { s with
      running := true
      buffSize := RtrPduType.routerKey.minSize
      keepGoing := mem && !s.client.stop
      errCode := if mem then .noError else .memoryError
      singlePoll := singlePoll
      returnAfterEndOfData := returnAfterEndOfData }
  | .turn t =>
    if s.running then if s.keepGoing && !s.client.stop then s.turn t else s.finish t else s
  | .setStop stop => { s with client.stop := stop }

/-- `createRPKIRouterClient`. -/
def initial (params : RtrParams) (lastSent lastRecv : RtrPduType) (serial : UInt32) : RtrState where
  params := params
  client := ⟨params.version.toInt8, true, 0xffff, false, serial, lastSent, lastRecv, false⟩
  socket := none
  running := false
  buffSize := 0
  keepGoing := false
  errCode := .noError
  singlePoll := false
  returnAfterEndOfData := false
  dispatched := []
  accepted := none
  versions := []

/-- What can be seen of a run: the version and the record. -/
structure Account where
  params : RtrParams
  version : Int8
  dispatched : List Dispatch
  accepted : Option Int8
  versions : List Int8

def account (s : RtrState) : Account := ⟨s.params, s.client.version, s.dispatched, s.accepted, s.versions⟩

end RtrState

/-! ## What a turn does -/

/-- The header of the next PDU; `none` when the connection is lost before, or when it has the length
zero. Both end the loop. -/
def RtrState.header (s : RtrState) : Option RtrPdu :=
  let hdr : RtrPdu := ⟨s.socket.stream.take commonHeaderSize⟩
  if s.socket.stream.length < commonHeaderSize ∨ hdr.length = 0 then none else some hdr

/-- A turn of the loop is taken. -/
def RtrState.Polls (s : RtrState) : Prop :=
  s.running = true ∧ (s.keepGoing && !s.client.stop) = true

instance (s : RtrState) : Decidable s.Polls := inferInstanceAs (Decidable (_ ∧ _))

/-- The version of the client once it has seen that of a PDU. -/
def versionAfter (params : RtrParams) (client : RtrClient) (version : UInt8) : Int8 :=
  if client.startup ∧ params.allowDowngrade ∧ client.version.toInt ≠ version.toNat then version.toInt8
  else client.version

/-- The PDU goes on to the handlers: the versions are the same, or they are negotiated and the client
goes down to the version of the PDU, or the PDU is no error report. -/
def Accepts (params : RtrParams) (client : RtrClient) (pdu : RtrPdu) : Prop :=
  client.version.toInt = pdu.version.toNat ∨ client.startup = true ∧
    (client.version.toInt > pdu.version.toNat ∧ params.allowDowngrade = true ∨
      pdu.pduType ≠ .errorReport)

namespace RtrLemmas

open RtrState

variable {s : RtrState} {params : RtrParams} {client : RtrClient} {pdu : RtrPdu} {errCode : RcvError}

theorem sameVersion_iff {c : Int8} {v : UInt8} : sameVersion c v = true ↔ c.toInt = v.toNat :=
  beq_iff_eq

theorem toInt_toInt8 (v : UInt8) :
    v.toInt8.toInt = if v.toNat < 128 then (v.toNat : Int) else v.toNat - 256 := by
  have h : v.toInt8.toInt = v.toBitVec.toInt := rfl
  rw [h, BitVec.toInt_eq_toNat_cond, UInt8.toNat_toBitVec]
  split_ifs <;> omega

theorem checkVersion_eq (params : RtrParams) (client : RtrClient) (v : UInt8) :
    checkVersion params client v =
      if client.startup = true ∧ client.version.toInt > v.toNat ∧ params.allowDowngrade = true then
        (client.setVersion v, true)
      else (client, sameVersion client.version v) := by
  unfold checkVersion
  by_cases h : client.startup = true ∧ client.version.toInt > v.toNat ∧ params.allowDowngrade = true
  · have hne : sameVersion client.version v = false := by
      rw [Bool.eq_false_iff, ne_eq, sameVersion_iff]
      omega
    have hdown : sameVersion v.toInt8 v = true := by
      rw [sameVersion_iff, toInt_toInt8, if_pos]
      have := client.version.toInt_lt
      omega
    rw [if_pos h, hne, h.1, decide_eq_true h.2.1, h.2.2]
    exact Prod.ext rfl hdown
  · rw [if_neg h, if_neg]
    simp only [Bool.and_eq_true, decide_eq_true_eq]
    rintro ⟨⟨⟨-, hstart⟩, hlt⟩, hallow⟩
    exact h ⟨hstart, hlt, hallow⟩

/-- What comes of the negotiation. -/
theorem negotiate_spec (params : RtrParams) (client : RtrClient) (pdu : RtrPdu) (errCode : RcvError) :
    (negotiate params client pdu errCode).1.version = versionAfter params client pdu.version ∧
      ((negotiate params client pdu errCode).2.2 = true ↔ Accepts params client pdu) ∧
      ((negotiate params client pdu errCode).2.2 = true → errCode = .noError →
        (negotiate params client pdu errCode).2.1 = .noError) := by
  unfold negotiate versionAfter Accepts
  rw [checkVersion_eq]
  by_cases hdown : client.startup = true ∧ client.version.toInt > pdu.version.toNat ∧
      params.allowDowngrade = true
  · rw [if_pos hdown]
    dsimp only
    rw [if_pos rfl, if_pos ⟨hdown.1, hdown.2.2, by omega⟩]
    exact ⟨rfl, ⟨fun _ => .inr ⟨hdown.1, .inl hdown.2⟩, fun _ => rfl⟩, fun _ herr => herr⟩
  rw [if_neg hdown]
  dsimp only
  by_cases heq : client.version.toInt = pdu.version.toNat
  · rw [if_pos (sameVersion_iff.mpr heq), if_neg fun hne => hne.2.2 heq]
    exact ⟨rfl, ⟨fun _ => .inl heq, fun _ => rfl⟩, fun _ herr => herr⟩
  rw [if_neg fun hsame => heq (sameVersion_iff.mp hsame)]
  have herror : (if pdu.version > rtrProtocolVersion ∨ client.version = 0 then
      RcvError.unsupportedProtVer else .unexpectedProtocolVersion) ≠ .noError := by
    split
    · decide
    · decide
  generalize (if pdu.version > rtrProtocolVersion ∨ client.version = 0 then
    RcvError.unsupportedProtVer else .unexpectedProtocolVersion) = error at herror ⊢
  cases hstart : client.startup with
  | false =>
    rw [Bool.false_and, if_neg Bool.false_ne_true, hstart, Bool.false_and, if_neg Bool.false_ne_true,
      decide_eq_false herror, if_neg fun h => Bool.false_ne_true h.1]
    refine ⟨rfl, iff_of_false Bool.false_ne_true ?_, fun h => absurd h Bool.false_ne_true⟩
    rintro (h | h)
    · exact heq h
    · exact Bool.false_ne_true h.1
  | true =>
    have hstart' : (if (true && params.allowDowngrade) = true then client.setVersion pdu.version
        else client).startup = true := by
      split
      · exact hstart
      · exact hstart
    rw [hstart', Bool.true_and, Bool.true_and]
    refine ⟨?_, ?_, ?_⟩
    · dsimp only
      cases hallow : params.allowDowngrade with
      | false =>
        rw [if_neg Bool.false_ne_true, if_neg fun h => Bool.false_ne_true h.2.1]
      | true =>
        rw [if_pos rfl, if_pos ⟨rfl, rfl, heq⟩]
        rfl
    · dsimp only
      by_cases htype : pdu.pduType = .errorReport
      · rw [decide_eq_false (not_not.mpr htype), if_neg Bool.false_ne_true, decide_eq_false herror]
        refine iff_of_false Bool.false_ne_true ?_
        rintro (h | ⟨-, h | h⟩)
        · exact heq h
        · exact hdown ⟨hstart, h⟩
        · exact h htype
      · rw [decide_eq_true htype, if_pos rfl, decide_eq_true rfl]
        exact iff_of_true rfl (.inr ⟨rfl, .inr htype⟩)
    · dsimp only
      intro h _
      exact of_decide_eq_true h

/-! ## Receiving -/

/-- The header of a PDU is in its first bytes. -/
theorem header_append {a b : Bytes} (h : a.length = commonHeaderSize) :
    (RtrPdu.mk (a ++ b)).version = (RtrPdu.mk a).version ∧
      (RtrPdu.mk (a ++ b)).pduType = (RtrPdu.mk a).pduType ∧
      (RtrPdu.mk (a ++ b)).length = (RtrPdu.mk a).length := by
  have hbyte (i : Nat) (hi : i < commonHeaderSize) :
      (RtrPdu.mk (a ++ b)).byte i = (RtrPdu.mk a).byte i := by
    unfold RtrPdu.byte
    rw [List.getD_eq_getElem?_getD, List.getD_eq_getElem?_getD,
      List.getElem?_append_left (by rw [h]; exact hi)]
  refine ⟨hbyte 0 (by decide), ?_, ?_⟩
  · unfold RtrPdu.pduType
    rw [hbyte 1 (by decide)]
  · unfold RtrPdu.length Memory.u32
    rw [hbyte 4 (by decide), hbyte (4 + 1) (by decide), hbyte (4 + 2) (by decide),
      hbyte (4 + 3) (by decide)]

/-- What `_getPacket` makes of a stream with a header. -/
structure PacketOf (stream : Bytes) (buffSize : Nat) (mem : Bool) (hdr : RtrPdu) (p : Packet) : Prop where
  empty : p.pduLen = 0 ↔ hdr.length = 0
  version : p.pdu.version = hdr.version
  pduType : p.pdu.pduType = hdr.pduType
  length : p.pdu.length = hdr.length
  error : p.errCode = .noError ↔ commonHeaderSize ≤ hdr.length.toNat ∧
    hdr.length.toNat ≤ stream.length ∧
      (hdr.length.toNat ≤ max buffSize commonHeaderSize ∨ mem = true)
  received : p.errCode = .noError → p.pdu.received.length = hdr.length.toNat

theorem getPacket_lost {socket : Socket} {buffSize : Nat} {mem : Bool}
    (h : socket.stream.length < commonHeaderSize) : (getPacket socket buffSize mem).pduLen = 0 := by
  unfold getPacket
  dsimp only
  rw [(recvNum_eq socket commonHeaderSize (by decide)).ok, decide_eq_false (Nat.not_le.mpr h),
    if_neg Bool.false_ne_true]

/-- The PDU of which the header is there, with what comes of the bytes behind it. -/
theorem packetOf_rest {stream : Bytes} {buffSize size : Nat} {mem : Bool} {hdr : RtrPdu} {rest : Recv}
    (hhdr : hdr.received.length = commonHeaderSize) (hmore : commonHeaderSize < hdr.length.toNat)
    (hfits : hdr.length.toNat ≤ max buffSize commonHeaderSize ∨ mem = true)
    (hrest : RecvOf (stream.drop commonHeaderSize) (hdr.length.toNat - commonHeaderSize) rest) :
    PacketOf stream buffSize mem hdr
      ⟨if rest.ok then hdr.length else UInt32.ofNat commonHeaderSize,
        if rest.ok then .noError else .socketError, ⟨hdr.received ++ rest.bytes⟩, size,
        rest.socket⟩ := by
  obtain ⟨hversion, htype, hlength⟩ := header_append (b := rest.bytes) hhdr
  have hzero : hdr.length ≠ 0 := by
    intro hzero
    rw [hzero] at hmore
    exact Nat.not_lt_zero _ hmore
  have hok : rest.ok = true ↔ hdr.length.toNat ≤ stream.length := by
    rw [hrest.ok, decide_eq_true_iff, List.length_drop]
    omega
  cases hall : rest.ok with
  | true =>
    have hle := hok.mp hall
    refine ⟨Iff.rfl, hversion, htype, hlength, ?_, fun _ => ?_⟩
    · exact iff_of_true rfl ⟨Nat.le_of_lt hmore, hle, hfits⟩
    · dsimp only
      rw [List.length_append, hhdr, hrest.bytes, List.length_take_of_le]
      · omega
      · rw [List.length_drop]
        omega
  | false =>
    have hnot : ¬ hdr.length.toNat ≤ stream.length := fun hle => by
      rw [hok.mpr hle] at hall
      cases hall
    have hheader : UInt32.ofNat commonHeaderSize ≠ 0 := by decide
    refine ⟨iff_of_false hheader hzero, hversion, htype, hlength, ?_, fun herr => nomatch herr⟩
    exact iff_of_false (fun herr => nomatch herr) fun hand => hnot hand.2.1

theorem getPacket_spec {socket : Socket} {buffSize : Nat} {mem : Bool}
    (h : commonHeaderSize ≤ socket.stream.length) :
    PacketOf socket.stream buffSize mem ⟨socket.stream.take commonHeaderSize⟩
      (getPacket socket buffSize mem) := by
  obtain ⟨hok, hbytes, hrest, -⟩ := recvNum_eq socket commonHeaderSize (by decide)
  have hhdr : (socket.stream.take commonHeaderSize).length = commonHeaderSize :=
    List.length_take_of_le h
  unfold getPacket
  dsimp only
  rw [hok, decide_eq_true h, if_pos rfl, hbytes]
  by_cases hshort : (RtrPdu.mk (socket.stream.take commonHeaderSize)).length.toNat < commonHeaderSize
  · rw [if_pos hshort]
    refine ⟨Iff.rfl, rfl, rfl, rfl, ?_, fun herr => nomatch herr⟩
    exact iff_of_false (fun herr => nomatch herr) fun hall => Nat.not_le.mpr hshort hall.1
  rw [if_neg hshort]
  have hle := Nat.le_of_not_lt hshort
  by_cases hmore :
      (RtrPdu.mk (socket.stream.take commonHeaderSize)).length.toNat - commonHeaderSize > 0
  swap
  · -- a PDU without a body
    rw [if_neg hmore]
    have heq : (RtrPdu.mk (socket.stream.take commonHeaderSize)).length.toNat = commonHeaderSize := by
      omega
    refine ⟨Iff.rfl, rfl, rfl, rfl, ?_, fun _ => ?_⟩
    · rw [heq]
      exact iff_of_true rfl ⟨Nat.le_refl _, h, .inl (Nat.le_max_right _ _)⟩
    · rw [heq]
      exact hhdr
  rw [if_pos hmore]
  split
  · -- no memory for it
    next hmem =>
    refine ⟨Iff.rfl, rfl, rfl, rfl, ?_, fun herr => nomatch herr⟩
    rw [hmem.2]
    refine iff_of_false (fun herr => nomatch herr) ?_
    rintro ⟨-, -, hfits | hfits⟩
    · have := hmem.1
      omega
    · cases hfits
  · next hmem =>
    refine packetOf_rest hhdr (Nat.lt_of_sub_pos hmore) ?_ ?_
    · cases mem with
      | true => exact .inr rfl
      | false => exact .inl (Nat.le_trans (Nat.le_of_not_lt fun hlt => hmem ⟨hlt, rfl⟩)
          (Nat.le_max_left _ _))
    · rw [← hrest h]
      exact recvNum_eq _ _ hmore

/-! ## The account of a turn -/

theorem account_sendPDU (s : RtrState) (pduType : RtrPduType) (sent : Bool) :
    (s.sendPDU pduType sent).account = s.account := by
  unfold sendPDU
  split
  · rfl
  · split
    · rfl
    · rfl

theorem account_sendResetQuery (s : RtrState) (sent : Bool) :
    (s.sendResetQuery sent).account = s.account := account_sendPDU s _ sent

theorem version_checkSessionID (client : RtrClient) (sessionID : UInt32) :
    (checkSessionID client sessionID).1.version = client.version := by
  unfold checkSessionID
  dsimp only
  split_ifs <;> rfl

/-- Looking at the session does not show in the account. -/
theorem account_session (s : RtrState) (sessionID : UInt32) :
    account { s with client := (checkSessionID s.client sessionID).1 } = s.account := by
  unfold account
  dsimp only
  rw [version_checkSessionID]

/-- The switch leaves the version and the record. -/
theorem account_handlePdu (s : RtrState) (pdu : RtrPdu) (t : Turn) :
    (s.handlePdu pdu t).account = s.account := by
  have hsession := account_session s pdu.sessionID
  unfold handlePdu
  cases pdu.pduType with
  | serialNotify =>
    dsimp only
    split
    · exact (account_sendPDU _ _ _).trans hsession
    · exact hsession
  | cacheResponse =>
    dsimp only
    split
    · exact hsession
    · exact hsession
  | endOfData =>
    dsimp only
    split
    · exact hsession
    · exact hsession
  | routerKey =>
    dsimp only
    split
    · rfl
    · rfl
  | aspa =>
    dsimp only
    split
    · rfl
    · rfl
  | cacheReset => exact account_sendResetQuery s _
  | ipv4Prefix => rfl
  | ipv6Prefix => rfl
  | errorReport => rfl
  | reserved => rfl
  | serialQuery => rfl
  | resetQuery => rfl
  | other code => rfl

theorem account_finish (s : RtrState) (t : Turn) : (s.finish t).account = s.account := by
  unfold finish
  dsimp only
  split
  · exact account_sendPDU _ _ _
  · rfl

/-- Without a header the loop ends. -/
theorem pduLen_eq_zero (s : RtrState) (mem : Bool) :
    (getPacket s.socket s.buffSize mem).pduLen = 0 ↔ s.header = none := by
  unfold header
  dsimp only
  by_cases hlen : s.socket.stream.length < commonHeaderSize
  · rw [if_pos (.inl hlen)]
    exact iff_of_true (getPacket_lost hlen) rfl
  · rw [(getPacket_spec (Nat.le_of_not_lt hlen)).empty]
    by_cases hzero : (RtrPdu.mk (s.socket.stream.take commonHeaderSize)).length = 0
    · rw [if_pos (.inr hzero)]
      exact iff_of_true hzero rfl
    · rw [if_neg (not_or.mpr ⟨hlen, hzero⟩)]
      exact iff_of_false hzero fun h => nomatch h

theorem packet_of_header {hdr : RtrPdu} (h : s.header = some hdr) (mem : Bool) :
    PacketOf s.socket.stream s.buffSize mem hdr (getPacket s.socket s.buffSize mem) := by
  unfold header at h
  dsimp only at h
  split at h
  · cases h
  · next hnot =>
    obtain rfl := Option.some.inj h
    exact getPacket_spec (Nat.le_of_not_lt fun hlt => hnot (.inl hlt))

theorem account_turn_lost (t : Turn) (h : s.header = none) :
    (s.turn t).account = { s.account with versions := s.client.version :: s.versions } := by
  unfold turn
  dsimp only
  rw [if_pos ((pduLen_eq_zero s t.mem).mpr h)]
  rfl

theorem accepts_congr {hdr : RtrPdu} (hversion : pdu.version = hdr.version)
    (htype : pdu.pduType = hdr.pduType) : Accepts params client pdu ↔ Accepts params client hdr := by
  unfold Accepts
  rw [hversion, htype]

/-- What the negotiation makes of the PDU of a header. -/
theorem negotiate_header {hdr : RtrPdu} (h : s.header = some hdr) (mem : Bool) :
    (getPacket s.socket s.buffSize mem).pduLen ≠ 0 ∧
      (negotiate s.params s.client (getPacket s.socket s.buffSize mem).pdu
        (getPacket s.socket s.buffSize mem).errCode).1.version =
          versionAfter s.params s.client hdr.version ∧
      ((negotiate s.params s.client (getPacket s.socket s.buffSize mem).pdu
        (getPacket s.socket s.buffSize mem).errCode).2.2 = true ↔ Accepts s.params s.client hdr) ∧
      ((negotiate s.params s.client (getPacket s.socket s.buffSize mem).pdu
        (getPacket s.socket s.buffSize mem).errCode).2.2 = true →
          (getPacket s.socket s.buffSize mem).errCode = .noError →
            (negotiate s.params s.client (getPacket s.socket s.buffSize mem).pdu
              (getPacket s.socket s.buffSize mem).errCode).2.1 = .noError) := by
  have hpacket := packet_of_header h mem
  obtain ⟨hversion, hgoes, herr⟩ := negotiate_spec s.params s.client
    (getPacket s.socket s.buffSize mem).pdu (getPacket s.socket s.buffSize mem).errCode
  refine ⟨fun hzero => ?_, ?_, ?_, herr⟩
  · rw [(pduLen_eq_zero s mem).mp hzero] at h
    cases h
  · rw [hversion, hpacket.version]
  · exact hgoes.trans (accepts_congr hpacket.version hpacket.pduType)

/-- A PDU that no handler takes. -/
theorem account_turn_passed {hdr : RtrPdu} (t : Turn) (h : s.header = some hdr)
    (hnot : ¬ (Accepts s.params s.client hdr ∧
      handles hdr.pduType (versionAfter s.params s.client hdr.version) = true)) :
    (s.turn t).account = { s.account with
      version := versionAfter s.params s.client hdr.version
      versions := s.client.version :: s.versions } := by
  obtain ⟨hlen, hversion, hgoes, -⟩ := negotiate_header h t.mem
  unfold turn
  dsimp only
  rw [if_neg hlen]
  split
  · next hgo =>
    refine (account_handlePdu _ _ t).trans ?_
    unfold record
    dsimp only
    rw [if_neg]
    · unfold account
      dsimp only
      rw [hversion]
    · rw [hversion, (packet_of_header h t.mem).pduType]
      exact fun hhandles => hnot ⟨hgoes.mp hgo, hhandles⟩
  · unfold account
    dsimp only
    rw [hversion]

/-- A PDU that reaches its handler. -/
theorem account_turn_handled {hdr : RtrPdu} (t : Turn) (h : s.header = some hdr)
    (haccepts : Accepts s.params s.client hdr)
    (hhandles : handles hdr.pduType (versionAfter s.params s.client hdr.version) = true) :
    ∃ d : Dispatch, d.pdu = (getPacket s.socket s.buffSize t.mem).pdu ∧
      d.reported = (getPacket s.socket s.buffSize t.mem).errCode ∧
      (d.reported = .noError → d.errCode = .noError) ∧
      d.version = versionAfter s.params s.client hdr.version ∧
      (s.turn t).account = { s.account with
        version := versionAfter s.params s.client hdr.version
        dispatched := s.dispatched ++ [d]
        accepted := some (s.accepted.getD (versionAfter s.params s.client hdr.version))
        versions := s.client.version :: s.versions } := by
  obtain ⟨hlen, hversion, hgoes, herr⟩ := negotiate_header h t.mem
  have hgo := hgoes.mpr haccepts
  refine ⟨{
    pdu := (getPacket s.socket s.buffSize t.mem).pdu
    reported := (getPacket s.socket s.buffSize t.mem).errCode
    errCode := (negotiate s.params s.client (getPacket s.socket s.buffSize t.mem).pdu
      (getPacket s.socket s.buffSize t.mem).errCode).2.1
    version := versionAfter s.params s.client hdr.version }, rfl, rfl, herr hgo, rfl, ?_⟩
  unfold turn
  dsimp only
  rw [if_neg hlen, if_pos hgo]
  refine (account_handlePdu _ _ t).trans ?_
  unfold record
  dsimp only
  rw [hversion, (packet_of_header h t.mem).pduType, if_pos hhandles]
  unfold account
  dsimp only
  rw [hversion]

/-- A condition on what a turn sees, for the header that is there. -/
theorem forall_header_iff {hdr : RtrPdu} {C : RtrPdu → Prop} (hpolls : s.Polls)
    (h : s.header = some hdr) : (s.Polls → ∀ hdr' ∈ s.header, C hdr') ↔ C hdr := by
  constructor
  · exact fun hall => hall hpolls hdr h
  · intro hone _ hdr' hmem
    obtain rfl := Option.some.inj (h.symm.trans hmem)
    exact hone

/-- What a step leaves of the account. -/
theorem account_step (s : RtrState) (op : Op) :
    (s.step op).account = match op with
      | .connect _ => { s.account with accepted := none }
      | .turn t => if s.Polls then (s.turn t).account else s.account
      | _ => s.account := by
  cases op with
  | connect blocks => rfl
  | sendResetQuery sent => exact account_sendResetQuery s sent
  | receivePDUs returnAfterEndOfData singlePoll mem => rfl
  | setStop stop => rfl
  | turn t =>
    show account (if _ then if _ then s.turn t else s.finish t else s) =
      if s.Polls then (s.turn t).account else s.account
    by_cases hrunning : s.running = true
    · rw [if_pos hrunning]
      by_cases hgoes : (s.keepGoing && !s.client.stop) = true
      · rw [if_pos hgoes, if_pos (show s.Polls from ⟨hrunning, hgoes⟩)]
      · rw [if_neg hgoes, if_neg (show ¬ s.Polls from fun h => hgoes h.2)]
        exact account_finish s t
    · rw [if_neg hrunning, if_neg (show ¬ s.Polls from fun h => hrunning h.1)]

end RtrLemmas

end SrxSuite.Server

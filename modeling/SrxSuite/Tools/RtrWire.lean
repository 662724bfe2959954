import SrxSuite.Lib.Fields
import SrxSuite.Server.RtrPayloads
import SrxSuite.Server.SessionRule
import SrxSuite.Server.SkiCache
import SrxSuite.Tools.RtrCache
import SrxSuite.Util.PacketFraming

/-!
# PDUs between the RTR cache server and the client

What `sendPDUWithSerial`, `sendCacheReset`, `sendCacheResponse` and `sendCacheObjects` of
`tools/rpkirtr_svr.c` give to `sendNum`, byte by byte, and what the client of
`server/rpki_router_client.c` makes of it. The cache has addresses and AS numbers in network order, so
that they go out as they lie in memory.

Results:
1. `payload_object`: the handler of an object gets what the cache has of it.
2. `answer_delivered`: a whole answer reaches the handlers, in whatever blocks it comes, in the handshake
   and later.
-/

namespace SrxSuite.Tools

open Aspa Bytes Server Util

/-! ## The server -/

/-- A PDU: the common header, of which `mixed` are the bytes behind the type, and the rest. -/
def rtrPdu (version pduType : UInt8) (mixed body : Bytes) : Bytes :=
  [version] ++ ([pduType] ++ (mixed ++
    (be32 (UInt32.ofNat (commonHeaderSize + body.length)) ++ body)))

/-- `sendPDUWithSerial` -/
def sendPDUWithSerial (pduType : UInt8) (serial : UInt32) (sessionID : UInt16) (version : UInt8) : Bytes :=
  rtrPdu version pduType (be16 sessionID) (be32 serial)

/-- `sendCacheReset` -/
def sendCacheReset (version : UInt8) : Bytes := rtrPdu version 8 (be16 0) []

/-- `sendCacheResponse` -/
def sendCacheResponse (sessionID : UInt16) (version : UInt8) : Bytes :=
  rtrPdu version 3 (be16 sessionID) []

/-- The PDU of an object as `sendCacheObjects` fills it in. -/
def ObjectPdu.bytes (pdu : ObjectPdu) : Bytes :=
  match pdu.content with
  | .ipv4Prefix prefixLen maxLen addr asNumber =>
    rtrPdu pdu.version 4 (be16 0)
      ([pdu.flags] ++ ([prefixLen] ++ ([maxLen] ++ ([0] ++ (le32 addr ++ le32 asNumber)))))
  | .ipv6Prefix prefixLen maxLen addr asNumber =>
    rtrPdu pdu.version 6 (be16 0)
      ([pdu.flags] ++ ([prefixLen] ++ ([maxLen] ++ ([0] ++ (addr.toList ++ le32 asNumber)))))
  | .routerKey ski keyInfo asNumber =>
    rtrPdu pdu.version 9 ([pdu.flags] ++ [0]) (ski ++ (le32 asNumber ++ keyInfo))
  | .aspa customerAsn providers =>
    rtrPdu pdu.version 11 (be16 0)
      ([pdu.flags] ++ ([0] ++ (be16 (UInt16.ofNat providers.length) ++
        (le32 customerAsn ++ providers.flatMap le32))))

/-- What the server sends to a client. -/
inductive RtrMessage
  | serialNotify (serial : UInt32)
  | cacheResponse
  | object (pdu : ObjectPdu)
  | endOfData (serial : UInt32)
  | cacheReset
  deriving DecidableEq, Repr

def RtrMessage.bytes (sessionID : UInt16) (version : UInt8) : RtrMessage → Bytes
  | .serialNotify serial => sendPDUWithSerial 0 serial sessionID version
  | .cacheResponse => sendCacheResponse sessionID version
  | .object pdu => pdu.bytes
  | .endOfData serial => sendPDUWithSerial 7 serial sessionID version
  | .cacheReset => sendCacheReset version

/-- The PDUs of an answer. -/
def CacheAnswer.messages : CacheAnswer → List RtrMessage
  | .dropSession => []
  | .cacheReset => [.cacheReset]
  | .objects pdus serial => .cacheResponse :: (pdus.map .object ++ [.endOfData serial])

/-- The bytes of some messages. -/
def wire (sessionID : UInt16) (version : UInt8) (messages : List RtrMessage) : Bytes :=
  messages.flatMap (·.bytes sessionID version)

/-! ## The client -/

/-- An object as the callbacks of the client are given it. -/
inductive RouterObject
  | ipPrefix (addr : Bytes) (length maxLen : UInt8) (as : UInt32)
  | routerKey (as : UInt32) (ski keyInfo : Bytes)
  | aspa (addrFamilyType : UInt8) (customerAsn : UInt32) (providerAsns : List UInt32)
  deriving DecidableEq, Repr

/-- What is announced or withdrawn. -/
def payloadObject : Payload → Option (Bool × RouterObject)
  | .ipPrefix isAnn addr length maxLen as => some (isAnn, .ipPrefix addr length maxLen as)
  | .routerKey isAnn as ski keyInfo => some (isAnn, .routerKey as ski keyInfo)
  | .aspa pdu => some (decide (pdu.announce ≠ 0), .aspa pdu.addrFamilyType pdu.customerAsn pdu.providerAsns)
  | _ => none

/-- The object of a record of the server. -/
def routerObject : RtrRecord → RouterObject
  | (_, .ipv4Prefix prefixLen maxLen addr asNumber) =>
    .ipPrefix (le32 addr) prefixLen maxLen (htonl asNumber)
  | (_, .ipv6Prefix prefixLen maxLen addr asNumber) =>
    .ipPrefix addr.toList prefixLen maxLen (htonl asNumber)
  | (_, .routerKey ski keyInfo asNumber) => .routerKey (htonl asNumber) ski keyInfo
  | (flags, .aspa customerAsn providers) =>
    .aspa (flags &&& 0x02) (htonl customerAsn) (providers.map htonl)

/-- The arrays of a PDU have the sizes they are copied with. -/
def ObjectPdu.Sized (pdu : ObjectPdu) : Prop :=
  match pdu.content with
  | .routerKey ski keyInfo _ => ski.length = 20 ∧ keyInfo.length = 91
  | .aspa _ providers => providers.length < 2 ^ 16
  | _ => True

/-- The type of a PDU fits its version. -/
def ObjectPdu.Fits (pdu : ObjectPdu) : Prop :=
  match pdu.content with
  | .routerKey _ _ _ => pdu.version ≠ 0
  | .aspa _ _ => 1 < pdu.version
  | _ => True

/-- The arrays of an entry have the sizes they are read with. -/
structure ValCacheEntry.Sized (cEntry : ValCacheEntry) : Prop where
  ski : ∀ ski ∈ cEntry.ski, ski.length = 20
  keyData : ∀ keyData ∈ cEntry.pPubKeyData, keyData.length = 91
  providers : cEntry.providerCount.toNat ≤ cEntry.providerAS.length

/-- The arrays of an object have the sizes they are read with. -/
def CacheObject.Sized : CacheObject → Prop
  | .routerKey _ ski keyData => ski.length = 20 ∧ keyData.length = 91
  | _ => True

instance (object : CacheObject) : Decidable object.Sized :=
  match object with
  | .roa _ _ _ => instDecidableTrue
  | .routerKey _ ski keyData => inferInstanceAs (Decidable (ski.length = 20 ∧ keyData.length = 91))
  | .aspa _ _ _ => instDecidableTrue

/-- What is appended has the sizes. -/
def CacheOp.Sized : CacheOp → Prop
  | .append objects => ∀ object ∈ objects, object.Sized
  | _ => True

instance (op : CacheOp) : Decidable op.Sized :=
  match op with
  | .append objects => inferInstanceAs (Decidable (∀ object ∈ objects, object.Sized))
  | .remove _ _ _ => instDecidableTrue
  | .expire _ => instDecidableTrue

/-- The client has the session, or takes over the first one it sees. -/
def Joined (sessionID : UInt16) (s : RtrState) : Prop :=
  s.client.startup = true ∨ s.client.sessionID = sessionID.toUInt32

/-- The message carries the identifier of the session. -/
def RtrMessage.namesSession : RtrMessage → Bool
  | .serialNotify _ | .cacheResponse | .endOfData _ => true
  | _ => false

/-- The turns of the loop of `receivePDUs`. -/
def takeTurns (s : RtrState) (turns : List Turn) : RtrState := turns.foldl (fun s t => s.step (.turn t)) s

/-- What `manageConnection` does with an answer. The call of the handshake reads one PDU and ends, and
the second call reads the rest. -/
def takeAnswer (s : RtrState) (turns : List Turn) : RtrState :=
  if s.singlePoll then
    takeTurns ((takeTurns s (turns.take 2)).step (.receivePDUs s.returnAfterEndOfData false true))
      (turns.drop 2)
  else takeTurns s turns

/-- The record of a message that came as it was sent. -/
def RtrMessage.dispatch (sessionID : UInt16) (version : UInt8) (client : RtrClient) (message : RtrMessage) :
    Dispatch :=
  ⟨⟨message.bytes sessionID version⟩, .noError, .noError, client.version⟩

/-- The serial of a client behind a message, and whether its loop goes on. -/
def RtrMessage.serialBehind (own : UInt32) : RtrMessage → UInt32
  | .endOfData serial => serial
  | _ => own

def RtrMessage.keepsGoing (s : RtrState) : RtrMessage → Bool
  | .endOfData _ => !s.returnAfterEndOfData
  | _ => !s.singlePoll

namespace RtrWireLemmas

open PacketFramingLemmas RtrLemmas RtrPayloadsLemmas RtrState SkiCacheLemmas

variable {version pduType : UInt8} {mixed body rest : Bytes} {pdu : ObjectPdu} {s s₁ : RtrState}
  {t : Turn} {client : RtrClient} {sessionID : UInt16}

/-! ## A PDU in a buffer -/

theorem holds_byte (bs : Bytes) : (RtrPdu.mk bs).byte.Holds 0 bs := by
  intro i x hx
  show bs.getD (0 + i) 0 = x
  rw [Nat.zero_add, List.getD_eq_getElem?_getD, hx]
  rfl

theorem length_rtrPdu (hmixed : mixed.length = 2) :
    (rtrPdu version pduType mixed body).length = commonHeaderSize + body.length := by
  unfold rtrPdu commonHeaderSize
  rw [List.length_append, List.length_append, List.length_append, List.length_append, hmixed,
    length_be32, List.length_singleton, List.length_singleton]
  omega

/-- What the header says. -/
structure HeaderOf (version pduType : UInt8) (mixed body : Bytes) (pdu : RtrPdu) : Prop where
  version : pdu.version = version
  code : pdu.byte 1 = pduType
  mixed : pdu.byte.Holds 2 mixed
  length : pdu.length = UInt32.ofNat (commonHeaderSize + body.length)
  body : pdu.byte.Holds commonHeaderSize body

theorem headerOf_rtrPdu (hmixed : mixed.length = 2) :
    HeaderOf version pduType mixed body ⟨rtrPdu version pduType mixed body⟩ := by
  have hall := holds_byte (rtrPdu version pduType mixed body)
  have hcode := hall.right
  have hmid := hcode.right
  have hlength := hmid.right
  have hbody := hlength.right
  rw [hmixed] at hlength
  rw [hmixed, length_be32] at hbody
  exact ⟨hall.left.byte, hcode.left.byte, hmid.left, hlength.left.u32, hbody⟩

/-! ## Receiving a PDU that is there -/

/-- The bytes are one PDU. -/
structure OnePdu (bytes : Bytes) : Prop where
  header : commonHeaderSize ≤ bytes.length
  length : (RtrPdu.mk bytes).length.toNat = bytes.length

theorem onePdu_rtrPdu (hmixed : mixed.length = 2) (hbody : body.length < 2 ^ 31) :
    OnePdu (rtrPdu version pduType mixed body) := by
  refine ⟨?_, ?_⟩
  · rw [length_rtrPdu hmixed]
    exact Nat.le_add_right _ _
  · rw [(headerOf_rtrPdu hmixed).length, length_rtrPdu hmixed, UInt32.toNat_ofNat',
      Nat.mod_eq_of_lt]
    unfold commonHeaderSize
    omega

/-- The length is in the header. -/
theorem length_take {bytes : Bytes} (h : commonHeaderSize ≤ bytes.length) :
    (RtrPdu.mk (bytes.take commonHeaderSize)).length = (RtrPdu.mk bytes).length := by
  have happend := (header_append (b := bytes.drop commonHeaderSize) (List.length_take_of_le h)).2.2
  rw [List.take_append_drop] at happend
  exact happend.symm

/-- `_getPacket` gives the PDU that comes first, and leaves the rest. -/
theorem getPacket_onePdu {socket : Socket} {bytes : Bytes} (hpdu : OnePdu bytes)
    (hstream : socket.stream = bytes ++ rest) (buffSize : Nat) :
    ∃ buffSize' socket', getPacket socket buffSize true =
        ⟨UInt32.ofNat bytes.length, .noError, ⟨bytes⟩, buffSize', socket'⟩ ∧
      Socket.stream socket' = rest ∧ socket'.isSome := by
  have hlen : commonHeaderSize ≤ socket.stream.length := by
    rw [hstream, List.length_append]
    exact Nat.le_trans hpdu.header (Nat.le_add_right _ _)
  obtain ⟨hok, hbytes, hrest, -⟩ := recvNum_eq socket commonHeaderSize (by decide)
  rw [decide_eq_true hlen] at hok
  rw [hstream, List.take_append_of_le_length hpdu.header] at hbytes
  have hbehind := hrest hlen
  rw [hstream, List.drop_append_of_le_length hpdu.header] at hbehind
  have hheader := length_take hpdu.header
  have hfield : (RtrPdu.mk bytes).length = UInt32.ofNat bytes.length := by
    rw [← hpdu.length, UInt32.ofNat_toNat]
  unfold getPacket
  dsimp only
  rw [hok, if_pos rfl, hbytes, hheader, if_neg (Nat.not_lt.mpr (hpdu.length ▸ hpdu.header)), hpdu.length]
  by_cases hmore : bytes.length - commonHeaderSize > 0
  · rw [if_pos hmore, if_neg fun hmem => Bool.noConfusion hmem.2]
    obtain ⟨hok', hbytes', hrest', -⟩ :=
      recvNum_eq (recvNum socket commonHeaderSize).socket _ hmore
    have hdrop : (bytes.drop commonHeaderSize).length = bytes.length - commonHeaderSize :=
      List.length_drop
    have hle : bytes.length - commonHeaderSize ≤
        (Socket.stream (recvNum socket commonHeaderSize).socket).length := by
      rw [hbehind, List.length_append, hdrop]
      exact Nat.le_add_right _ _
    have hall := hok'.trans (decide_eq_true hle)
    rw [hall, if_pos rfl, if_pos rfl, hbytes', hbehind, ← hdrop, List.take_left,
      List.take_append_drop, hfield]
    refine ⟨_, _, rfl, ?_, ?_⟩
    · rw [hdrop, hrest' hle, hbehind, ← hdrop, List.drop_left]
    · rw [hdrop]
      exact (recvNum_ok hall).2.2.1
  · have heq : bytes.take commonHeaderSize = bytes := List.take_of_length_le (by omega)
    have hdrop : bytes.drop commonHeaderSize = [] := List.drop_of_length_le (by omega)
    rw [if_neg hmore, heq, hfield]
    rw [hdrop, List.nil_append] at hbehind
    exact ⟨_, _, rfl, hbehind, (recvNum_ok hok).2.2.1⟩

/-! ## A PDU at the switch -/

/-- The state of a turn that has received a PDU. -/
def received (s : RtrState) (socket : Socket) (buffSize : Nat) : RtrState :=
  { s with
    socket := socket
    buffSize := buffSize
    errCode := .noError
    keepGoing := !s.singlePoll
    versions := s.client.version :: s.versions }

theorem negotiate_same {params : RtrParams} {pdu : RtrPdu} {errCode : RcvError}
    (h : sameVersion client.version pdu.version = true) :
    negotiate params client pdu errCode = (client, errCode, true) := by
  unfold negotiate
  rw [checkVersion_eq, if_neg fun hdown => ?_]
  · dsimp only
    rw [h, if_pos rfl]
  · have heq := sameVersion_iff.mp h
    have hgt := hdown.2.1
    omega

theorem atSwitch_onePdu {bytes : Bytes} (hpdu : OnePdu bytes) (hstream : s.socket.stream = bytes ++ rest)
    (hversion : sameVersion s.client.version (RtrPdu.mk bytes).version = true) (hmem : t.mem = true) :
    ∃ buffSize socket, s.atSwitch t = some ((received s socket buffSize).record ⟨bytes⟩ .noError, ⟨bytes⟩) ∧
      Socket.stream socket = rest ∧ socket.isSome := by
  obtain ⟨buffSize, socket, hpacket, hrest, hsome⟩ := getPacket_onePdu hpdu hstream s.buffSize
  refine ⟨buffSize, socket, ?_, hrest, hsome⟩
  have hne : UInt32.ofNat bytes.length ≠ 0 := by
    rw [← hpdu.length, UInt32.ofNat_toNat]
    intro hzero
    have hlen := hpdu.length
    rw [hzero] at hlen
    have hheader := hpdu.header
    rw [← hlen] at hheader
    exact absurd hheader (by decide)
  unfold atSwitch
  rw [hmem, hpacket]
  dsimp only
  rw [negotiate_same hversion]
  dsimp only
  rw [if_neg fun hnot => hnot.elim hne Bool.noConfusion]
  rfl

/-- The record of a PDU leaves all but the record. -/
theorem record_eq (s : RtrState) (pdu : RtrPdu) (reported : RcvError) :
    ∃ dispatched accepted, s.record pdu reported = { s with dispatched := dispatched, accepted := accepted } := by
  unfold record
  split
  · exact ⟨_, _, rfl⟩
  · exact ⟨_, _, rfl⟩

/-! ## What the handlers make of an object -/

theorem le32_eq (n : UInt32) : le32 n = be32 (htonl n) := by
  rw [← le32_htonl, htonl_htonl]

theorem flatMap_le32 (ns : List UInt32) : ns.flatMap le32 = (ns.map htonl).flatMap be32 := by
  rw [List.flatMap_map]
  exact congrArg (List.flatMap · ns) (funext le32_eq)

theorem length_flatMap_le32 (ns : List UInt32) : (ns.flatMap le32).length = 4 * ns.length := by
  induction ns with
  | nil => rfl
  | cons n ns ih =>
    rw [List.flatMap_cons, List.length_append, ih, length_le32, List.length_cons]
    omega

theorem onePdu_object (h : pdu.Sized) : OnePdu pdu.bytes := by
  unfold ObjectPdu.Sized at h
  unfold ObjectPdu.bytes
  cases hcontent : pdu.content with
  | ipv4Prefix prefixLen maxLen addr asNumber => exact onePdu_rtrPdu rfl (by simp)
  | ipv6Prefix prefixLen maxLen addr asNumber => exact onePdu_rtrPdu rfl (by simp)
  | routerKey ski keyInfo asNumber =>
    rw [hcontent] at h
    exact onePdu_rtrPdu rfl (by simp [h.1, h.2])
  | aspa customerAsn providers =>
    rw [hcontent] at h
    refine onePdu_rtrPdu rfl ?_
    simp only [List.length_append, length_flatMap_le32, length_le32, length_be16, List.length_singleton]
    omega

theorem holdsAt_body (version pduType : UInt8) (body : Bytes) (hmixed : mixed.length = 2) :
    HoldsAt (rtrPdu version pduType mixed body) commonHeaderSize body := by
  have hbody := (holdsAt_self (rtrPdu version pduType mixed body)).right.right.right.right
  rw [hmixed] at hbody
  exact hbody

theorem handleIPPrefix_rtrPdu (version pduType flags prefixLen maxLen : UInt8) (addr : Bytes)
    (asNumber : UInt32) {addrSize : Nat} (hsize : addr.length = addrSize) :
    handleIPPrefix addrSize (rtrPdu version pduType (be16 0)
      ([flags] ++ ([prefixLen] ++ ([maxLen] ++ ([0] ++ (addr ++ le32 asNumber)))))) =
        some (.ipPrefix (isAnnouncement flags) addr prefixLen maxLen (htonl asNumber)) := by
  subst hsize
  have hbody := holdsAt_body version pduType
    ([flags] ++ ([prefixLen] ++ ([maxLen] ++ ([0] ++ (addr ++ le32 asNumber))))) (length_be16 0)
  generalize rtrPdu version pduType (be16 0)
    ([flags] ++ ([prefixLen] ++ ([maxLen] ++ ([0] ++ (addr ++ le32 asNumber))))) = m at hbody ⊢
  have hlength := hbody.right
  have hmaxLen := hlength.right
  have haddr := hmaxLen.right.right
  have has := haddr.right
  rw [le32_eq] at has
  have hreadAddr : m.readAt 12 addr.length = some addr := haddr.left.readAt_eq
  have hreadLength : m[9]? = some prefixLen := hlength.left.getElem?_eq
  have hreadFlags : m[8]? = some flags := hbody.left.getElem?_eq
  have hreadMax : m[10]? = some maxLen := hmaxLen.left.getElem?_eq
  have hreadAs : m.be32At (12 + addr.length) = some (htonl asNumber) := has.be32At_eq
  unfold handleIPPrefix
  rw [hreadAddr, hreadLength, hreadFlags, hreadMax, hreadAs]
  rfl

theorem handlePDURouterKey_rtrPdu (version flags : UInt8) {ski keyInfo : Bytes} (asNumber : UInt32)
    (hski : ski.length = 20) (hkeyInfo : keyInfo.length = 91) :
    handlePDURouterKey (rtrPdu version 9 ([flags] ++ [0]) (ski ++ (le32 asNumber ++ keyInfo))) =
      some (.routerKey (isAnnouncement flags) (htonl asNumber) ski keyInfo) := by
  have hflags := (holdsAt_self (rtrPdu version 9 ([flags] ++ [0])
    (ski ++ (le32 asNumber ++ keyInfo)))).right.right.left.left
  have hbody := @holdsAt_body ([flags] ++ [0]) version 9 (ski ++ (le32 asNumber ++ keyInfo)) rfl
  generalize rtrPdu version 9 ([flags] ++ [0]) (ski ++ (le32 asNumber ++ keyInfo)) = m at hflags hbody ⊢
  have hreadSki := hbody.left.readAt_eq
  have has := hbody.right
  rw [hski] at hreadSki has
  have hreadKey := has.right.readAt_eq
  rw [hkeyInfo] at hreadKey
  rw [le32_eq] at has
  have hreadFlags : m[2]? = some flags := hflags.getElem?_eq
  have hreadAs : m.be32At 28 = some (htonl asNumber) := has.left.be32At_eq
  have hreadKeyInfo : m.readAt 32 91 = some keyInfo := hreadKey
  unfold handlePDURouterKey
  rw [hreadFlags, hreadAs, show m.readAt 8 20 = some ski from hreadSki, hreadKeyInfo]
  rfl

/-- The list of an ASPA PDU is read as far as its counter says. -/
theorem handleAspa_rtrPdu (version flags : UInt8) (customerAsn : UInt32) {providers : List UInt32}
    (hproviders : providers.length < 2 ^ 16) :
    ∃ pdu, handleAspa (rtrPdu version 11 (be16 0) ([flags] ++ ([0] ++
        (be16 (UInt16.ofNat providers.length) ++ (le32 customerAsn ++ providers.flatMap le32))))) =
          some (.aspa pdu) ∧ pdu.customerAsn = htonl customerAsn ∧
        pdu.providerAsns = providers.map htonl ∧ pdu.addrFamilyType = flags &&& 0x02 ∧
        pdu.announce = flags &&& 0x01 := by
  have hlength := @length_rtrPdu version 11 (be16 0) ([flags] ++ ([0] ++
    (be16 (UInt16.ofNat providers.length) ++ (le32 customerAsn ++ providers.flatMap le32)))) rfl
  have hbody := (@headerOf_rtrPdu version 11 (be16 0) ([flags] ++ ([0] ++
    (be16 (UInt16.ofNat providers.length) ++ (le32 customerAsn ++ providers.flatMap le32)))) rfl).body
  generalize rtrPdu version 11 (be16 0) ([flags] ++ ([0] ++
    (be16 (UInt16.ofNat providers.length) ++ (le32 customerAsn ++ providers.flatMap le32)))) = m
    at hlength hbody ⊢
  have hcount := hbody.right.right
  have hcustomer := hcount.right
  have hlist := hcustomer.right
  rw [flatMap_le32] at hlist
  rw [le32_eq] at hcustomer
  have hreadCount : (RtrPdu.mk m).byte.u16 10 = UInt16.ofNat providers.length := hcount.left.u16
  have hwords := hlist.words
  rw [List.length_map] at hwords
  have hnat : (UInt16.ofNat providers.length).toNat = providers.length := by
    rw [UInt16.toNat_ofNat', Nat.mod_eq_of_lt hproviders]
  refine ⟨handleReceiveAspaPdu (RtrPdu.mk m).byte, ?_, hcustomer.left.u32, ?_, ?_, ?_⟩
  · rw [handleAspa_eq (regionOf_getD m)]
    refine if_pos ?_
    show aspaHeaderSize + 4 * ((RtrPdu.mk m).byte.u16 10).toNat ≤ m.length
    rw [hreadCount, hnat, hlength]
    simp only [List.length_append, length_flatMap_le32, length_le32, length_be16, List.length_singleton]
    unfold aspaHeaderSize commonHeaderSize
    omega
  · show (List.range ((RtrPdu.mk m).byte.u16 10).toNat).map _ = _
    rw [hreadCount, hnat]
    exact hwords
  · show (RtrPdu.mk m).byte 8 &&& 0x02 = _
    rw [show (RtrPdu.mk m).byte 8 = flags from hbody.left.byte]
  · show (RtrPdu.mk m).byte 8 &&& 0x01 = _
    rw [show (RtrPdu.mk m).byte 8 = flags from hbody.left.byte]

theorem version_ne_zero (h : sameVersion client.version version = true) (hne : version ≠ 0) :
    client.version ≠ 0 := by
  intro hzero
  have heq := sameVersion_iff.mp h
  rw [hzero] at heq
  exact hne (UInt8.toNat_inj.mp (Int.ofNat_inj.mp heq.symm))

theorem version_gt_one (h : sameVersion client.version version = true) (hlt : 1 < version) :
    client.version > 1 := by
  have heq := sameVersion_iff.mp h
  have hnat : 1 < version.toNat := UInt8.lt_iff_toNat_lt.mp hlt
  refine Int8.lt_iff_toInt_lt.mpr ?_
  rw [heq]
  exact Int.ofNat_lt.mpr hnat

/-- The handler of an object is called with what the server has of it. -/
theorem payload_of_object (hsized : pdu.Sized) (hfits : pdu.Fits)
    (hversion : sameVersion client.version pdu.version = true)
    (errorCallback : Option (UInt16 → Bytes → Bool)) :
    ∃ payload, handlePayload client errorCallback ⟨pdu.bytes⟩ = some payload ∧
      payloadObject payload = some (isAnnouncement pdu.flags, routerObject pdu.record) := by
  unfold ObjectPdu.Sized at hsized
  unfold ObjectPdu.Fits at hfits
  unfold ObjectPdu.bytes ObjectPdu.record
  cases hcontent : pdu.content with
  | ipv4Prefix prefixLen maxLen addr asNumber =>
    exact ⟨_, handleIPPrefix_rtrPdu _ _ _ _ _ _ _ (length_le32 addr), rfl⟩
  | ipv6Prefix prefixLen maxLen addr asNumber =>
    exact ⟨_, handleIPPrefix_rtrPdu _ _ _ _ _ _ _ Vector.length_toList, rfl⟩
  | routerKey ski keyInfo asNumber =>
    rw [hcontent] at hsized hfits
    refine ⟨.routerKey (isAnnouncement pdu.flags) (htonl asNumber) ski keyInfo, ?_, rfl⟩
    show (if client.version ≠ 0 then handlePDURouterKey _ else some .none) = _
    rw [if_pos (version_ne_zero hversion hfits)]
    exact handlePDURouterKey_rtrPdu _ _ _ hsized.1 hsized.2
  | aspa customerAsn providers =>
    rw [hcontent] at hsized hfits
    obtain ⟨aspa, hread, hcustomer, hproviders, hfamily, hannounce⟩ :=
      handleAspa_rtrPdu pdu.version pdu.flags customerAsn hsized
    refine ⟨.aspa aspa, ?_, ?_⟩
    · show (if client.version > 1 then handleAspa _ else some .none) = _
      rw [if_pos (version_gt_one hversion hfits)]
      exact hread
    · show some (decide (aspa.announce ≠ 0), RouterObject.aspa aspa.addrFamilyType aspa.customerAsn
        aspa.providerAsns) = _
      rw [hcustomer, hproviders, hfamily, hannounce]
      show some (_, RouterObject.aspa _ _ _) = some (_, RouterObject.aspa _ _ _)
      rw [UInt8.and_assoc, show ~~~flagAnnouncement &&& 0x02 = (0x02 : UInt8) by decide]
      rfl

/-! ## A message at the client -/

/-- The message is one the client of the version can handle. -/
def Sendable (version : UInt8) : RtrMessage → Prop
  | .object pdu => pdu.Sized ∧ pdu.Fits ∧ pdu.version = version
  | _ => True

def contentType : PduContent → RtrPduType
  | .ipv4Prefix _ _ _ _ => .ipv4Prefix
  | .ipv6Prefix _ _ _ _ => .ipv6Prefix
  | .routerKey _ _ _ => .routerKey
  | .aspa _ _ => .aspa

def messageType : RtrMessage → RtrPduType
  | .serialNotify _ => .serialNotify
  | .cacheResponse => .cacheResponse
  | .object pdu => contentType pdu.content
  | .endOfData _ => .endOfData
  | .cacheReset => .cacheReset

theorem pduType_rtrPdu (hmixed : mixed.length = 2) :
    (RtrPdu.mk (rtrPdu version pduType mixed body)).pduType = RtrPduType.ofCode pduType := by
  unfold RtrPdu.pduType
  rw [(headerOf_rtrPdu hmixed).code]

theorem sessionID_rtrPdu (version pduType : UInt8) (sessionID : UInt16) (body : Bytes) :
    (RtrPdu.mk (rtrPdu version pduType (be16 sessionID) body)).sessionID = sessionID.toUInt32 := by
  unfold RtrPdu.sessionID
  rw [(headerOf_rtrPdu (length_be16 sessionID)).mixed.u16]

theorem serial_sendPDUWithSerial (serial : UInt32) :
    (RtrPdu.mk (sendPDUWithSerial pduType serial sessionID version)).serial = serial :=
  (headerOf_rtrPdu (length_be16 sessionID)).body.u32

theorem object_header (pdu : ObjectPdu) :
    (RtrPdu.mk pdu.bytes).version = pdu.version ∧
      (RtrPdu.mk pdu.bytes).pduType = contentType pdu.content := by
  obtain ⟨version, flags, content⟩ := pdu
  cases content with
  | ipv4Prefix prefixLen maxLen addr asNumber =>
    exact ⟨(headerOf_rtrPdu (length_be16 0)).version, pduType_rtrPdu (length_be16 0)⟩
  | ipv6Prefix prefixLen maxLen addr asNumber =>
    exact ⟨(headerOf_rtrPdu (length_be16 0)).version, pduType_rtrPdu (length_be16 0)⟩
  | routerKey ski keyInfo asNumber =>
    have hmixed : ([flags] ++ [0] : Bytes).length = 2 := rfl
    exact ⟨(headerOf_rtrPdu hmixed).version, pduType_rtrPdu hmixed⟩
  | aspa customerAsn providers =>
    exact ⟨(headerOf_rtrPdu (length_be16 0)).version, pduType_rtrPdu (length_be16 0)⟩

theorem serial_header (version pduType : UInt8) (serial : UInt32) (sessionID : UInt16) :
    OnePdu (sendPDUWithSerial pduType serial sessionID version) ∧
      (RtrPdu.mk (sendPDUWithSerial pduType serial sessionID version)).version = version ∧
      (RtrPdu.mk (sendPDUWithSerial pduType serial sessionID version)).pduType =
        RtrPduType.ofCode pduType := by
  have hbody : (be32 serial).length < 2 ^ 31 := by
    rw [length_be32]
    decide
  exact ⟨onePdu_rtrPdu rfl hbody, (headerOf_rtrPdu rfl).version, pduType_rtrPdu rfl⟩

/-- A message is one PDU of its version and type. -/
theorem message_header {message : RtrMessage} (h : Sendable version message) (sessionID : UInt16) :
    OnePdu (message.bytes sessionID version) ∧
      (RtrPdu.mk (message.bytes sessionID version)).version = version ∧
      (RtrPdu.mk (message.bytes sessionID version)).pduType = messageType message := by
  cases message with
  | serialNotify serial => exact serial_header version 0 serial sessionID
  | endOfData serial => exact serial_header version 7 serial sessionID
  | cacheResponse =>
    exact ⟨onePdu_rtrPdu rfl (by decide), (headerOf_rtrPdu rfl).version, pduType_rtrPdu rfl⟩
  | cacheReset =>
    exact ⟨onePdu_rtrPdu rfl (by decide), (headerOf_rtrPdu rfl).version, pduType_rtrPdu rfl⟩
  | object pdu =>
    obtain ⟨hsized, -, rfl⟩ := h
    exact ⟨onePdu_object hsized, object_header pdu⟩

theorem handles_message {message : RtrMessage} (h : Sendable version message)
    (hversion : sameVersion client.version version = true) :
    handles (messageType message) client.version = true := by
  cases message with
  | serialNotify serial => rfl
  | cacheResponse => rfl
  | endOfData serial => rfl
  | cacheReset => rfl
  | object pdu =>
    obtain ⟨-, hfits, rfl⟩ := h
    obtain ⟨version, flags, content⟩ := pdu
    cases content with
    | ipv4Prefix prefixLen maxLen addr asNumber => rfl
    | ipv6Prefix prefixLen maxLen addr asNumber => rfl
    | routerKey ski keyInfo asNumber => exact decide_eq_true (version_ne_zero hversion hfits)
    | aspa customerAsn providers => exact decide_eq_true (version_gt_one hversion hfits)

/-- What a turn leaves that handles a message. -/
structure AfterMessage (sessionID : UInt16) (version : UInt8) (message : RtrMessage) (rest : Bytes)
    (s s' : RtrState) : Prop where
  stream : s'.socket.stream = rest
  connected : s'.socket.isSome
  errCode : s'.errCode = .noError
  clientVersion : s'.client.version = s.client.version
  joined : Joined sessionID s'
  session : message.namesSession = true →
    s'.client.startup = false ∧ s'.client.sessionID = sessionID.toUInt32
  serial : s'.client.serial = message.serialBehind s.client.serial
  keepGoing : s'.keepGoing = message.keepsGoing s
  dispatched : s'.dispatched = s.dispatched ++ [message.dispatch sessionID version s.client]
  running : s'.running = s.running
  stop : s'.client.stop = s.client.stop
  calls : s'.singlePoll = s.singlePoll ∧ s'.returnAfterEndOfData = s.returnAfterEndOfData

/-- The check of an identifier leaves the rest of the client, and passes for that of the session. -/
theorem checkSessionID_joined (hjoined : Joined sessionID s) :
    ∃ changed, checkSessionID s.client sessionID.toUInt32 =
      ({ s.client with startup := false, sessionID := sessionID.toUInt32, sessionIDChanged := changed },
        true) := by
  unfold checkSessionID
  cases hstart : s.client.startup with
  | true =>
    refine ⟨false, ?_⟩
    simp only [if_true]
  | false =>
    have hid : s.client.sessionID = sessionID.toUInt32 := hjoined.resolve_left (by simp [hstart])
    refine ⟨s.client.sessionIDChanged, ?_⟩
    simp only [Bool.false_eq_true, if_false, hid, if_true]
    rw [← hid, ← hstart]

/-- The switch leaves an object to its callback. -/
theorem handlePdu_content {pdu : RtrPdu} {content : PduContent} (htype : pdu.pduType = contentType content)
    (h : handles (contentType content) s.client.version = true) : s.handlePdu pdu t = s := by
  unfold handlePdu
  rw [htype]
  cases content with
  | ipv4Prefix prefixLen maxLen addr asNumber => rfl
  | ipv6Prefix prefixLen maxLen addr asNumber => rfl
  | routerKey ski keyInfo asNumber => exact if_pos (of_decide_eq_true h)
  | aspa customerAsn providers => exact if_pos (of_decide_eq_true h)

theorem turn_message {message : RtrMessage} (hsendable : Sendable version message)
    (hstream : s.socket.stream = message.bytes sessionID version ++ rest)
    (hversion : sameVersion s.client.version version = true) (hjoined : Joined sessionID s)
    (hmem : t.mem = true) (hsent : t.sent = true) :
    AfterMessage sessionID version message rest s (s.turn t) := by
  obtain ⟨hpdu, hpduVersion, htype⟩ := message_header hsendable sessionID
  obtain ⟨buffSize, socket, hswitch, hrest, hsome⟩ :=
    atSwitch_onePdu hpdu hstream (hpduVersion.symm ▸ hversion) hmem
  have hnone : socket.isNone = false := by
    rw [← Option.not_isSome, hsome]
    rfl
  have hrecord : (received s socket buffSize).record ⟨message.bytes sessionID version⟩ .noError =
      { received s socket buffSize with
        dispatched := s.dispatched ++ [message.dispatch sessionID version s.client]
        accepted := some (s.accepted.getD s.client.version) } :=
    if_pos (htype.symm ▸ handles_message hsendable hversion)
  obtain ⟨changed, hcheck⟩ := checkSessionID_joined hjoined
  rw [(SessionLemmas.atSwitch_some hswitch).2.2, hrecord]
  cases message with
  | serialNotify serial =>
    have hid : (RtrPdu.mk (sendPDUWithSerial 0 serial sessionID version)).sessionID =
      sessionID.toUInt32 := sessionID_rtrPdu version 0 sessionID _
    unfold handlePdu
    rw [htype]
    dsimp only [messageType, RtrMessage.bytes, received]
    rw [hid, hcheck]
    dsimp only
    rw [if_pos rfl]
    unfold sendPDU
    dsimp only
    rw [hnone, if_neg Bool.false_ne_true, hsent, if_pos rfl]
    exact ⟨hrest, hsome, rfl, rfl, .inr rfl, fun _ => ⟨rfl, rfl⟩, rfl, rfl, rfl, rfl, rfl, rfl, rfl⟩
  | cacheResponse =>
    have hid : (RtrPdu.mk (sendCacheResponse sessionID version)).sessionID = sessionID.toUInt32 :=
      sessionID_rtrPdu version 3 sessionID _
    unfold handlePdu
    rw [htype]
    dsimp only [messageType, RtrMessage.bytes, received]
    rw [hid, hcheck]
    dsimp only
    rw [if_pos (.inl rfl)]
    exact ⟨hrest, hsome, rfl, rfl, .inr rfl, fun _ => ⟨rfl, rfl⟩, rfl, rfl, rfl, rfl, rfl, rfl, rfl⟩
  | endOfData serial =>
    have hid : (RtrPdu.mk (sendPDUWithSerial 7 serial sessionID version)).sessionID =
      sessionID.toUInt32 := sessionID_rtrPdu version 7 sessionID _
    unfold handlePdu
    rw [htype]
    dsimp only [messageType, RtrMessage.bytes, received]
    rw [hid, hcheck]
    dsimp only
    rw [if_pos rfl]
    exact ⟨hrest, hsome, rfl, rfl, .inr rfl, fun _ => ⟨rfl, rfl⟩, serial_sendPDUWithSerial serial, rfl, rfl, rfl, rfl, rfl, rfl⟩
  | cacheReset =>
    unfold handlePdu
    rw [htype]
    dsimp only [messageType, received]
    unfold sendResetQuery sendPDU
    dsimp only
    rw [hnone, if_neg Bool.false_ne_true, hsent, if_pos rfl]
    exact ⟨hrest, hsome, rfl, rfl, hjoined, nofun, rfl, rfl, rfl, rfl, rfl, rfl, rfl⟩
  | object pdu =>
    rw [handlePdu_content htype]
    · exact ⟨hrest, hsome, rfl, rfl, hjoined, nofun, rfl, rfl, rfl, rfl, rfl, rfl, rfl⟩
    · exact handles_message hsendable hversion

/-! ## Answers -/

theorem newEntry_sized {object : CacheObject} (h : object.Sized) (serial : UInt32) :
    (newEntry serial object).Sized := by
  cases object with
  | roa ipPrefix maxLen oas =>
    exact ⟨fun _ hski => absurd hski (Option.not_mem_none _),
      fun _ hkey => absurd hkey (Option.not_mem_none _), Nat.le_refl 0⟩
  | routerKey asn ski keyData =>
    refine ⟨fun ski' hski => ?_, fun keyData' hkey => ?_, Nat.le_refl 0⟩
    · obtain rfl := Option.some.inj hski
      exact h.1
    · obtain rfl := Option.some.inj hkey
      exact h.2
  | aspa afi customerAS providerAS =>
    refine ⟨fun _ hski => absurd hski (Option.not_mem_none _),
      fun _ hkey => absurd hkey (Option.not_mem_none _), ?_⟩
    show (UInt16.ofNat providerAS.length).toNat ≤ (providerAS.map htonl).length
    rw [UInt16.toNat_ofNat', List.length_map]
    exact Nat.mod_le _ _

theorem numbered_sized {objects : List CacheObject} (h : ∀ object ∈ objects, object.Sized) (serial : UInt32) :
    ∀ cEntry ∈ numbered serial objects, cEntry.Sized := by
  induction objects generalizing serial with
  | nil => exact fun cEntry hentry => absurd hentry List.not_mem_nil
  | cons object rest ih =>
    obtain ⟨hobject, hrest⟩ := List.forall_mem_cons.mp h
    exact List.forall_mem_cons.mpr ⟨newEntry_sized hobject serial, ih hrest (serial + 1)⟩

theorem appendObjects_sized {cache : RtrCache} {objects : List CacheObject}
    (hsized : ∀ cEntry ∈ cache.entries, cEntry.Sized) (h : ∀ object ∈ objects, object.Sized) :
    ∀ cEntry ∈ (appendObjects cache objects).entries, cEntry.Sized :=
  List.forall_mem_append.mpr ⟨hsized, numbered_sized h _⟩

theorem entryPdu_sendable {cEntry : ValCacheEntry} (hsized : cEntry.Sized)
    (h : entryPdu version cEntry = some pdu) : Sendable version (.object pdu) := by
  unfold entryPdu at h
  split at h
  · next ski keyData _ hski hkeyData =>
    split at h
    · next hne =>
      obtain rfl := Option.some.inj h
      exact ⟨⟨hsized.ski _ hski, hsized.keyData _ hkeyData⟩, hne, rfl⟩
    · cases h
  · split at h
    · split at h
      · next hlt =>
        obtain rfl := Option.some.inj h
        refine ⟨?_, hlt, rfl⟩
        show (cEntry.providerAS.take cEntry.providerCount.toNat).length < 2 ^ 16
        rw [List.length_take_of_le hsized.providers]
        exact cEntry.providerCount.toNat_lt
      · cases h
    · split at h
      · obtain rfl := Option.some.inj h
        exact ⟨trivial, trivial, rfl⟩
      · obtain rfl := Option.some.inj h
        exact ⟨trivial, trivial, rfl⟩

theorem sentPdu_some {clientSerial : UInt32} {isReset : Bool} {cEntry : ValCacheEntry}
    (h : sentPdu clientSerial isReset version cEntry = some pdu) : entryPdu version cEntry = some pdu := by
  unfold sentPdu at h
  split at h
  · cases h
  · split at h
    · cases h
    · exact h

/-- The messages of an answer can be handled. -/
theorem answer_sendable {cache : RtrCache} {clientSerial : UInt32} {clientSessionID : UInt16} {isReset : Bool}
    (hsized : ∀ cEntry ∈ cache.entries, cEntry.Sized) :
    ∀ message ∈ (sendCacheObjects cache sessionID clientSerial clientSessionID isReset version).messages,
      Sendable version message := by
  intro message hmessage
  unfold sendCacheObjects at hmessage
  split at hmessage
  · cases hmessage
  · split at hmessage
    · obtain rfl := List.mem_singleton.mp hmessage
      exact trivial
    · rcases List.mem_cons.mp hmessage with rfl | hmessage
      · exact trivial
      rcases List.mem_append.mp hmessage with hobject | hend
      · obtain ⟨pdu, hpdu, rfl⟩ := List.mem_map.mp hobject
        obtain ⟨cEntry, hentry, hsent⟩ := List.mem_filterMap.mp hpdu
        have hmem := (List.dropWhile_sublist _).mem hentry
        exact entryPdu_sendable (hsized cEntry hmem) (sentPdu_some hsent)
      · obtain rfl := List.mem_singleton.mp hend
        exact trivial

/-- End of Data has the serial of the cache. -/
theorem serial_of_objects {cache : RtrCache} {clientSerial serial : UInt32} {clientSessionID : UInt16}
    {isReset : Bool} {pdus : List ObjectPdu}
    (h : sendCacheObjects cache sessionID clientSerial clientSessionID isReset version =
      .objects pdus serial) : serial = cache.maxSerial := by
  unfold sendCacheObjects at h
  split at h
  · cases h
  · split at h
    · cases h
    · exact (CacheAnswer.objects.inj h).2.symm

/-- The loop goes on behind the message. -/
def GoesOn : RtrMessage → Prop
  | .endOfData _ => False
  | _ => True

/-- The client has received some messages and goes on. -/
structure Delivered (sessionID : UInt16) (version : UInt8) (messages : List RtrMessage) (rest : Bytes)
    (s s' : RtrState) : Prop where
  stream : s'.socket.stream = rest
  polls : s'.Polls
  joined : Joined sessionID s'
  clientVersion : s'.client.version = s.client.version
  serial : s'.client.serial = s.client.serial
  dispatched : s'.dispatched = s.dispatched ++ messages.map (·.dispatch sessionID version s.client)
  calls : s'.singlePoll = s.singlePoll ∧ s'.returnAfterEndOfData = s.returnAfterEndOfData

theorem step_polls (hpolls : s.Polls) (t : Turn) : s.step (.turn t) = s.turn t := by
  show (if s.running then if s.keepGoing && !s.client.stop then s.turn t else s.finish t else s) = _
  rw [if_pos hpolls.1, if_pos hpolls.2]

theorem takeTurns_messages {messages : List RtrMessage} {turns : List Turn}
    (hsendable : ∀ message ∈ messages, Sendable version message)
    (hgoes : ∀ message ∈ messages, GoesOn message)
    (hturns : ∀ t ∈ turns, t.mem = true ∧ t.sent = true) (hlength : turns.length = messages.length)
    (hpolls : s.Polls) (hcall : s.singlePoll = false)
    (hversion : sameVersion s.client.version version = true) (hjoined : Joined sessionID s)
    (hstream : s.socket.stream = wire sessionID version messages ++ rest) :
    Delivered sessionID version messages rest s (takeTurns s turns) := by
  induction messages generalizing s turns with
  | nil =>
    obtain rfl := List.length_eq_zero_iff.mp hlength
    exact ⟨hstream, hpolls, hjoined, rfl, rfl, (List.append_nil _).symm, rfl, rfl⟩
  | cons message messages ih =>
    obtain ⟨t, turns, rfl⟩ := List.exists_cons_of_length_eq_add_one hlength
    obtain ⟨hmessage, hmessages⟩ := List.forall_mem_cons.mp hsendable
    obtain ⟨hon, hons⟩ := List.forall_mem_cons.mp hgoes
    obtain ⟨ht, hts⟩ := List.forall_mem_cons.mp hturns
    have hfirst : s.socket.stream =
        message.bytes sessionID version ++ (wire sessionID version messages ++ rest) := by
      rw [hstream]
      exact List.append_assoc _ _ _
    have hafter := turn_message hmessage hfirst hversion hjoined ht.1 ht.2
    have hserial : (s.turn t).client.serial = s.client.serial ∧ (s.turn t).keepGoing = !s.singlePoll := by
      rw [hafter.serial, hafter.keepGoing]
      cases message with
      | endOfData serial => exact absurd hon id
      | _ => exact ⟨rfl, rfl⟩
    have hpolls' : (s.turn t).Polls := by
      refine ⟨hafter.running.trans hpolls.1, ?_⟩
      have hstop := (Bool.and_eq_true_iff.mp hpolls.2).2
      rw [hserial.2, hafter.stop, hcall, hstop]
      rfl
    have hrest := ih hmessages hons hts (Nat.succ.inj hlength) hpolls' (hafter.calls.1.trans hcall)
      (hafter.clientVersion.symm ▸ hversion) hafter.joined hafter.stream
    show Delivered _ _ _ _ _ (takeTurns (s.step (.turn t)) turns)
    rw [step_polls hpolls]
    refine ⟨hrest.stream, hrest.polls, hrest.joined, hrest.clientVersion.trans hafter.clientVersion,
      hrest.serial.trans hserial.1, ?_, hrest.calls.1.trans hafter.calls.1,
      hrest.calls.2.trans hafter.calls.2⟩
    rw [hrest.dispatched, hafter.dispatched, List.append_assoc]
    unfold RtrMessage.dispatch
    rw [hafter.clientVersion]
    rfl

/-- The client has received messages and End of Data. -/
structure Completed (sessionID : UInt16) (version : UInt8) (messages : List RtrMessage)
    (serial : UInt32) (rest : Bytes) (s s' : RtrState) : Prop where
  dispatched : s'.dispatched = s.dispatched ++
    (messages ++ [RtrMessage.endOfData serial]).map (·.dispatch sessionID version s.client)
  serial : s'.client.serial = serial
  session : s'.client.startup = false ∧ s'.client.sessionID = sessionID.toUInt32
  errCode : s'.errCode = .noError
  stream : s'.socket.stream = rest
  keepGoing : s'.keepGoing = !s.returnAfterEndOfData

/-- Messages and End of Data behind them. -/
theorem takeTurns_endOfData {messages : List RtrMessage} {turns : List Turn} {serial : UInt32}
    (hsendable : ∀ message ∈ messages, Sendable version message ∧ GoesOn message)
    (hturns : ∀ t ∈ turns, t.mem = true ∧ t.sent = true) (hlength : turns.length = messages.length + 1)
    (hpolls : s.Polls) (hcall : s.singlePoll = false)
    (hversion : sameVersion s.client.version version = true) (hjoined : Joined sessionID s)
    (hstream : s.socket.stream = wire sessionID version (messages ++ [.endOfData serial]) ++ rest) :
    Completed sessionID version messages serial rest s (takeTurns s turns) := by
  -- all but End of Data, and the turn for it
  rcases List.eq_nil_or_concat turns with rfl | ⟨turns, t, rfl⟩
  · cases hlength
  rw [List.concat_eq_append] at hturns hlength ⊢
  obtain ⟨hbefore, hlast⟩ := List.forall_mem_append.mp hturns
  obtain ⟨hmem, hsent⟩ := hlast t List.mem_cons_self
  rw [List.length_append, List.length_singleton] at hlength
  have hwire : wire sessionID version (messages ++ [.endOfData serial]) ++ rest =
      wire sessionID version messages ++
        ((RtrMessage.endOfData serial).bytes sessionID version ++ rest) := by
    unfold wire
    rw [List.flatMap_append, List.flatMap_singleton, List.append_assoc]
  rw [hwire] at hstream
  have hdelivered := takeTurns_messages (fun message h => (hsendable message h).1)
    (fun message h => (hsendable message h).2) hbefore (Nat.succ.inj hlength) hpolls hcall hversion
    hjoined hstream
  have hend : AfterMessage sessionID version (.endOfData serial) rest (takeTurns s turns)
      ((takeTurns s turns).turn t) := turn_message trivial hdelivered.stream
    (hdelivered.clientVersion.symm ▸ hversion) hdelivered.joined hmem hsent
  have hturn : takeTurns s (turns ++ [t]) = (takeTurns s turns).turn t := by
    rw [← step_polls hdelivered.polls]
    exact List.foldl_append
  rw [hturn]
  refine ⟨?_, hend.serial, hend.session rfl, hend.errCode, hend.stream, ?_⟩
  · rw [hend.dispatched, hdelivered.dispatched, List.map_append, List.append_assoc]
    unfold RtrMessage.dispatch
    rw [hdelivered.clientVersion]
    rfl
  · rw [hend.keepGoing, ← hdelivered.calls.2]
    rfl

/-- The call of the handshake reads the Cache Response, and the second call is made. -/
theorem handshake_response {turns : List Turn} {messages : List RtrMessage}
    (hturns : ∀ t ∈ turns, t.mem = true ∧ t.sent = true) (hlength : 2 ≤ turns.length)
    (hpolls : s.Polls) (hcall : s.singlePoll = true)
    (hversion : sameVersion s.client.version version = true) (hjoined : Joined sessionID s)
    (hstream : s.socket.stream = wire sessionID version (.cacheResponse :: messages) ++ rest)
    {s' : RtrState} (hs' : s' = (takeTurns s (turns.take 2)).step
      (.receivePDUs s.returnAfterEndOfData false true)) :
    s'.socket.stream = wire sessionID version messages ++ rest ∧ s'.Polls ∧ s'.singlePoll = false ∧
      s'.returnAfterEndOfData = s.returnAfterEndOfData ∧ s'.client.version = s.client.version ∧
      Joined sessionID s' ∧
      s'.dispatched = s.dispatched ++ [RtrMessage.cacheResponse.dispatch sessionID version s.client] := by
  obtain ⟨first, second, behind, rfl⟩ : ∃ first second behind, turns = first :: second :: behind := by
    match turns, hlength with
    | first :: second :: behind, _ => exact ⟨first, second, behind, rfl⟩
  obtain ⟨hmem, hsent⟩ := hturns first List.mem_cons_self
  have hfirst : s.socket.stream = RtrMessage.cacheResponse.bytes sessionID version ++
      (wire sessionID version messages ++ rest) := by
    rw [hstream]
    exact List.append_assoc _ _ _
  have hafter : AfterMessage sessionID version .cacheResponse (wire sessionID version messages ++ rest)
      s (s.turn first) := turn_message trivial hfirst hversion hjoined hmem hsent
  have hkeep : (s.turn first).keepGoing = false := by
    rw [hafter.keepGoing]
    show (!s.singlePoll) = false
    rw [hcall]
    rfl
  have hrunning : (s.turn first).running = true := hafter.running.trans hpolls.1
  have hstop : (s.turn first).client.stop = false := by
    have hgoes := hpolls.2
    rw [Bool.and_eq_true, Bool.not_eq_true'] at hgoes
    exact hafter.stop.trans hgoes.2
  have htwo : takeTurns s [first, second] = { s.turn first with running := false } := by
    show (s.step (.turn first)).step (.turn second) = _
    rw [step_polls hpolls]
    show (if (s.turn first).running then if (s.turn first).keepGoing && _ then _
      else (s.turn first).finish second else _) = _
    rw [if_pos hrunning, hkeep, Bool.false_and, if_neg Bool.false_ne_true]
    unfold finish
    dsimp only
    rw [if_neg fun h => h.2 hafter.errCode]
  rw [List.take_succ_cons, List.take_succ_cons, List.take_zero, htwo] at hs'
  subst hs'
  refine ⟨hafter.stream, ⟨rfl, ?_⟩, rfl, rfl, hafter.clientVersion, hafter.joined,
    hafter.dispatched⟩
  show (true && !(s.turn first).client.stop && !(s.turn first).client.stop) = true
  rw [hstop]
  rfl

end RtrWireLemmas

open RtrWireLemmas

/-- An answer with objects reaches the client in whatever blocks it comes, also when the handshake
begins it: every PDU goes to its handler as it was sent, in the order of the entries, the handler of an
object is called with what the entry has, and the client ends with the serial of the cache, in the
session, and with what comes behind the answer. -/
theorem answer_delivered (cache : RtrCache) (s : RtrState) (rest : Bytes) (turns : List Turn)
    {sessionID clientSessionID : UInt16} {clientSerial serial : UInt32} {isReset : Bool}
    {version : UInt8} {pdus : List ObjectPdu}
    (hanswer : sendCacheObjects cache sessionID clientSerial clientSessionID isReset version =
      .objects pdus serial)
    (hsized : ∀ cEntry ∈ cache.entries, cEntry.Sized)
    (hstream : s.socket.stream = wire sessionID version (CacheAnswer.objects pdus serial).messages ++ rest)
    (hpolls : s.Polls) (hversion : sameVersion s.client.version version = true)
    (hjoined : Joined sessionID s) (hturns : ∀ t ∈ turns, t.mem = true ∧ t.sent = true)
    (hlength : turns.length = pdus.length + if s.singlePoll then 3 else 2) :
    (takeAnswer s turns).dispatched = s.dispatched ++
        (CacheAnswer.objects pdus serial).messages.map (·.dispatch sessionID version s.client) ∧
      (∀ pdu ∈ pdus, ∀ errorCallback, ∃ payload,
        handlePayload s.client errorCallback ⟨pdu.bytes⟩ = some payload ∧
          payloadObject payload = some (isAnnouncement pdu.flags, routerObject pdu.record)) ∧
      (takeAnswer s turns).client.serial = cache.maxSerial ∧
      ((takeAnswer s turns).client.startup = false ∧
        (takeAnswer s turns).client.sessionID = sessionID.toUInt32) ∧
      (takeAnswer s turns).errCode = .noError ∧ (takeAnswer s turns).socket.stream = rest ∧
      (takeAnswer s turns).keepGoing = !s.returnAfterEndOfData := by
  have hsendable := @answer_sendable version sessionID cache clientSerial clientSessionID isReset hsized
  rw [hanswer] at hsendable
  have hobject : ∀ pdu ∈ pdus, Sendable version (.object pdu) := fun pdu hpdu =>
    hsendable _ (List.mem_cons_of_mem _ (List.mem_append_left _ (List.mem_map_of_mem hpdu)))
  have hobjects : ∀ message ∈ pdus.map RtrMessage.object, Sendable version message ∧ GoesOn message := by
    intro message hmessage
    obtain ⟨pdu, hpdu, rfl⟩ := List.mem_map.mp hmessage
    exact ⟨hobject pdu hpdu, trivial⟩
  have hpayloads : ∀ pdu ∈ pdus, ∀ errorCallback, ∃ payload,
      handlePayload s.client errorCallback ⟨pdu.bytes⟩ = some payload ∧
        payloadObject payload = some (isAnnouncement pdu.flags, routerObject pdu.record) := by
    intro pdu hpdu errorCallback
    obtain ⟨hsize, hfits, rfl⟩ := hobject pdu hpdu
    exact payload_of_object hsize hfits hversion errorCallback
  have hserial := serial_of_objects hanswer
  unfold takeAnswer
  cases hcall : s.singlePoll with
  | false =>
    rw [hcall, if_neg Bool.false_ne_true] at hlength
    have hdone : Completed sessionID version (.cacheResponse :: pdus.map .object) serial rest s
        (takeTurns s turns) := takeTurns_endOfData
      (List.forall_mem_cons.mpr ⟨⟨trivial, trivial⟩, hobjects⟩) hturns
      (by rw [List.length_cons, List.length_map, hlength]) hpolls hcall hversion hjoined hstream
    rw [if_neg Bool.false_ne_true]
    exact ⟨hdone.dispatched, hpayloads, hdone.serial.trans hserial, hdone.session, hdone.errCode,
      hdone.stream, hdone.keepGoing⟩
  | true =>
    rw [hcall, if_pos rfl] at hlength
    obtain ⟨hstream', hpolls', hcall', hreturn, hversion', hjoined', hdispatched⟩ :=
      handshake_response hturns (by omega) hpolls hcall hversion hjoined hstream rfl
    have hbehind : (turns.drop 2).length = (pdus.map RtrMessage.object).length + 1 := by
      rw [List.length_drop, List.length_map, hlength, Nat.add_sub_assoc (by decide)]
    have hdone : Completed sessionID version (pdus.map .object) serial rest _
        (takeTurns _ (turns.drop 2)) := takeTurns_endOfData hobjects
      (fun t ht => hturns t (List.mem_of_mem_drop ht)) hbehind hpolls' hcall'
      (hversion'.symm ▸ hversion) hjoined' hstream'
    rw [if_pos rfl]
    refine ⟨?_, hpayloads, hdone.serial.trans hserial, hdone.session, hdone.errCode, hdone.stream,
      hdone.keepGoing.trans (congrArg _ hreturn)⟩
    rw [hdone.dispatched, hdispatched, List.append_assoc]
    unfold RtrMessage.dispatch
    rw [hversion']
    rfl

/-- A prefix and the providers of a customer, for a client that starts. -/
def sampleCache : RtrCache :=
  appendObjects initialCache [.roa ⟨.v4 1, 24⟩ 24 65001, .aspa 0 65010 [65020, 65030]]
def samplePdus : List ObjectPdu :=
  [⟨2, 1, .ipv4Prefix 24 24 1 (htonl 65001)⟩, ⟨2, 1, .aspa (htonl 65010) [htonl 65020, htonl 65030]⟩]
def sampleAnswer : Bytes := wire 7 2 (CacheAnswer.objects samplePdus 2).messages

/-- The client in the handshake, with the answer in two blocks. -/
def sampleClient : RtrState :=
  { RtrState.initial ⟨2, false⟩ .resetQuery .reserved 0 with
    socket := some [sampleAnswer.take 13, sampleAnswer.drop 13]
    running := true
    keepGoing := true
    singlePoll := true }

theorem sampleCache_sized : ∀ cEntry ∈ sampleCache.entries, cEntry.Sized := by
  refine appendObjects_sized (fun cEntry h => absurd h List.not_mem_nil) fun object h => ?_
  rcases List.mem_cons.mp h with rfl | h
  · exact trivial
  · obtain rfl := List.mem_singleton.mp h
    exact trivial

theorem answer_delivered_sample :
    (takeAnswer sampleClient (List.replicate 5 ⟨true, true, true⟩)).client.serial = 2 ∧
      (takeAnswer sampleClient (List.replicate 5 ⟨true, true, true⟩)).client.sessionID = 7 := by
  have hdelivered := answer_delivered sampleCache sampleClient [] (List.replicate 5 ⟨true, true, true⟩)
    (by decide +kernel : sendCacheObjects sampleCache 7 0 0 true 2 = .objects samplePdus 2)
    sampleCache_sized (by decide +kernel) (by decide) (by decide) (.inl rfl)
    (fun t ht => List.eq_of_mem_replicate ht ▸ ⟨rfl, rfl⟩) rfl
  exact ⟨hdelivered.2.2.1, hdelivered.2.2.2.1.2⟩

end SrxSuite.Tools

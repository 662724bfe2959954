import SrxSuite.Lib.Fields
import SrxSuite.Server.RequestBounds

/-!
# The round trip of verify requests

The model of `verifyUpdate`, `createV4Request` and `createV6Request` (`client/srx_api.c`), and of what
`processValidationRequest` (`server/server_connection_handler.c`) decodes. The header of a request is
followed by the AS path and the BGPsec attribute. The sizes are computed in `verifyUpdate` with 16 bits
and in the other two with 32; an IPv6 request puts the path where an IPv4 request has it, inside the
header.

Results:
1. `roundTrip_iff`: the server decodes what was given, from as many bytes as were sent, if and only if
   the request is for an IPv4 prefix, has BGPsec data, and the path and the attribute together stay
   below 65536 bytes.
2. `v6_path_lost`: an IPv6 request with one hop.
-/

namespace SrxSuite.Client

open Bytes Server

/-! ## What is given -/

/-- `BGPSecData`. The path and the address family are in network format. The callers give the local AS
in host format; it is sent in network format. -/
structure BgpsecData where
  path : List UInt32
  attr : Bytes
  afi : UInt16
  safi : UInt8
  localAS : UInt32
  hops : path.length < 2 ^ 16
  attrLength : attr.length < 2 ^ 16

/-- The arguments of `verifyUpdate`, of the type of the path `asType` and `asRelationship`. -/
structure VerifyCall where
  localID : UInt32
  usePrefixOriginVal : Bool
  usePathVal : Bool
  useAspaVal : Bool
  defaultResult : DefaultResult
  ipPrefix : IPPrefix
  as32 : UInt32
  bgpsec : Option BgpsecData
  asType : AsType
  asRelationship : AsRelType

/-- The byte of a segment type. -/
def asTypeCode : AsType → UInt8
  | .asSet => 1
  | .asSequence => 2
  | .asConfedSequence => 3
  | .asConfedSet => 4
  | .other code _ => code

/-- The byte of a relation. -/
def asRelCode : AsRelType → UInt8
  | .unknown => 0
  | .customer => 1
  | .provider => 2
  | .sibling => 3
  | .lateral => 4

/-- The relation of a byte. -/
def asRelOfCode (code : UInt8) : AsRelType :=
  if code = 1 then .customer
  else if code = 2 then .provider
  else if code = 3 then .sibling
  else if code = 4 then .lateral
  else .unknown

namespace VerifyCall

/-- `isV4`. -/
def isV4 (r : VerifyCall) : Bool :=
  match r.ipPrefix.ip with
  | .v4 _ => true
  | .v6 _ => false

/-- `method`. -/
def method (r : VerifyCall) : UInt8 :=
  (if r.usePrefixOriginVal then vrtROA else 0) ||| (if r.usePathVal then vrtBGPSEC else 0) |||
    (if r.useAspaVal then vrtASPA else 0) ||| (if r.localID ≠ 0 then flagReceipt else 0)

/-- The address in the memory of a little endian host. -/
def prefixAddress (r : VerifyCall) : Bytes :=
  match r.ipPrefix.ip with
  | .v4 u32 => le32 u32
  | .v6 u8 => u8.toList

/-- `numHops`, `attrLength`, and the bytes behind their pointers. -/
def path (r : VerifyCall) : List UInt32 := r.bgpsec.elim [] (·.path)

def attr (r : VerifyCall) : Bytes := r.bgpsec.elim [] (·.attr)

/-- `bgpsecLength`, before it is stored. -/
def bgpsecLength (r : VerifyCall) : Nat := r.path.length * 4 + r.attr.length

/-! ## Encoding -/

/-- The size of `SRXPROXY_VERIFY_V4_REQUEST`, and that of `SRXPROXY_VERIFY_V6_REQUEST`. -/
def sizeV4 : Nat := 60

def sizeV6 : Nat := 72

/-- The fields of the header that `createV4Request` sets, the words in network format. -/
def headerV4 (r : VerifyCall) (bgpsec : BgpsecData) : List Field :=
  [(0, [pduVerifyV4]), (1, [r.method]),
    (2, [r.defaultResult.resSourceROA]), (3, [r.defaultResult.resSourceBGPSEC]),
    (4, [r.defaultResult.resSourceASPA]),
    (8, be32 (UInt32.ofNat (sizeV4 + r.bgpsecLength))),
    (12, [r.defaultResult.result.roaResult]), (13, [r.defaultResult.result.bgpsecResult]),
    (14, [r.defaultResult.result.aspaResult]),
    (5, [0]), (6, [asTypeCode r.asType]), (7, [asRelCode r.asRelationship]),
    (15, [r.ipPrefix.length]), (16, be32 r.localID), (20, r.prefixAddress), (24, be32 r.as32),
    (28, be32 (UInt32.ofNat r.bgpsecLength)),
    (32, be16 (UInt16.ofNat r.path.length)), (34, be16 (UInt16.ofNat r.attr.length)),
    (36, be16 bgpsec.afi), (38, [bgpsec.safi]), (56, be32 bgpsec.localAS)]

/-- The fields of the header that `createV6Request` sets. -/
def headerV6 (r : VerifyCall) : List Field :=
  [(0, [pduVerifyV6]), (1, [r.method]),
    (2, [r.defaultResult.resSourceROA]), (3, [r.defaultResult.resSourceBGPSEC]),
    (8, be32 (UInt32.ofNat (sizeV6 + r.bgpsecLength))),
    (12, [r.defaultResult.result.roaResult]), (13, [r.defaultResult.result.bgpsecResult]),
    (15, [r.ipPrefix.length]), (16, be32 r.localID), (20, r.prefixAddress), (36, be32 r.as32),
    (40, be32 (UInt32.ofNat r.bgpsecLength)),
    (44, be16 (UInt16.ofNat r.path.length)), (46, be16 (UInt16.ofNat r.attr.length))]

/-- The path and the attribute. Both functions put them behind the header of an IPv4 request. -/
def payload (r : VerifyCall) : List Field :=
  if r.path.length + r.attr.length ≠ 0 then
    [(sizeV4, r.path.flatMap be32), (sizeV4 + r.path.length * 4, r.attr)]
  else []

/-- `createV4Request`. It is `none` when it writes outside the buffer, and when there are no BGPsec
data: their address family is read all the same. -/
def createV4Request (r : VerifyCall) (pdu : Bytes) : Option Bytes := do
  let bgpsec ← r.bgpsec
  writeAll (r.headerV4 bgpsec ++ r.payload) pdu

/-- `createV6Request`. -/
def createV6Request (r : VerifyCall) (pdu : Bytes) : Option Bytes :=
  writeAll (r.headerV6 ++ r.payload) pdu

/-- `verifyUpdate`: the bytes that are sent. `bgpsecLength` has 16 bits here. -/
def verifyUpdate (r : VerifyCall) : Option Bytes :=
  let bgpsecLength := UInt16.ofNat r.bgpsecLength
  let length := (if r.isV4 then sizeV4 else sizeV6) + bgpsecLength.toNat
  let pdu := List.replicate length 0
  if r.isV4 then r.createV4Request pdu else r.createV6Request pdu

end VerifyCall

/-! ## Decoding -/

/-- What `processValidationRequest` reads of a request. The local AS is left in network format. -/
@[ext] structure ReadRequest where
  update : UpdateData
  afi : UInt16
  safi : UInt8
  localAS : UInt32
  asType : AsType
  asRelType : AsRelType
  doOriginVal : Bool
  doPathVal : Bool
  doAspaVal : Bool
  receipt : Bool
  requestToken : UInt32
  defaultResult : DefaultResult
  deriving DecidableEq

/-- The beginning of `processValidationRequest`. The type and the relation of an IPv6 request are what
the variables hold before they are set. -/
def readRequest (packet : Memory) (locals : Locals) : ReadRequest :=
  let receipt := isSet (packet 1) flagReceipt
  { update := requestUpdate packet
    afi := packet.u16 (requestSize packet - 24)
    safi := packet (requestSize packet - 22)
    localAS := packet.u32 (requestSize packet - 4)
    asType := requestAsType packet locals
    asRelType := if packet 0 = pduVerifyV4 then asRelOfCode (packet 7) else locals.asRelType
    doOriginVal := isSet (packet 1) vrtROA
    doPathVal := isSet (packet 1) vrtBGPSEC
    doAspaVal := isSet (packet 1) vrtASPA
    receipt := receipt
    requestToken := if receipt then packet.u32 16 else 0
    defaultResult := ⟨packet 2, packet 3, packet 4, packet 12, packet 13, packet 14⟩ }

/-- What was given, as the server is to read it: a request with a token asks for a receipt. -/
def VerifyCall.given (r : VerifyCall) : ReadRequest where
  update := {
    asn := r.as32
    ipPrefix := r.ipPrefix
    path := r.path
    bgpsecPath := r.attr
    hops := by
      unfold VerifyCall.path
      cases r.bgpsec with
      | none => exact Nat.two_pow_pos 16
      | some bgpsec => exact bgpsec.hops
    attrLength := by
      unfold VerifyCall.attr
      cases r.bgpsec with
      | none => exact Nat.two_pow_pos 16
      | some bgpsec => exact bgpsec.attrLength }
  afi := r.bgpsec.elim 0 (·.afi)
  safi := r.bgpsec.elim 0 (·.safi)
  localAS := r.bgpsec.elim 0 (·.localAS)
  asType := r.asType
  asRelType := r.asRelationship
  doOriginVal := r.usePrefixOriginVal
  doPathVal := r.usePathVal
  doAspaVal := r.useAspaVal
  receipt := r.localID ≠ 0
  requestToken := r.localID
  defaultResult := r.defaultResult

/-- The request stays in its buffer, the length in its header is that of what is sent, and the server
reads from it what was given, whatever stands behind it in memory and in the unset variables. -/
def VerifyCall.RoundTrips (r : VerifyCall) : Prop :=
  ∃ packet, r.verifyUpdate = some packet ∧
    ∀ heap, (packetLength (packetMemory packet heap)).toNat = packet.length ∧
      ∀ locals, readRequest (packetMemory packet heap) locals = r.given

namespace VerifyUpdateLemmas

open VerifyCall

variable {r : VerifyCall} {bgpsec : BgpsecData} {packet : Bytes} {heap : Memory}

/-! ## Codes -/

theorem ofCode_asTypeCode (t : AsType) : AsType.ofCode (asTypeCode t) = t := by
  cases t with
  | other code unnamed => exact dif_pos unnamed
  | _ => rfl

theorem asRelOfCode_asRelCode (t : AsRelType) : asRelOfCode (asRelCode t) = t := by
  cases t <;> rfl

/-- The flags of the method. -/
theorem isSet_method (r : VerifyCall) :
    isSet r.method vrtROA = r.usePrefixOriginVal ∧ isSet r.method vrtBGPSEC = r.usePathVal ∧
      isSet r.method vrtASPA = r.useAspaVal ∧
      isSet r.method flagReceipt = decide (r.localID ≠ 0) := by
  unfold method
  by_cases hid : r.localID ≠ 0
  · rw [if_pos hid, decide_eq_true hid]
    cases r.usePrefixOriginVal <;> cases r.usePathVal <;> cases r.useAspaVal <;> decide
  · rw [if_neg hid, decide_eq_false hid]
    cases r.usePrefixOriginVal <;> cases r.usePathVal <;> cases r.useAspaVal <;> decide

/-! ## Reading what was written -/

/-- A field of a record is found in the memory. -/
theorem holds_field {fs : List Field} {m : Bytes} (h : writeAll fs m = some packet)
    (hapart : (fs.map Field.extent).Pairwise Apart) {f : Field} (hf : f ∈ fs) :
    (packetMemory packet heap).Holds f.1 f.2 := by
  intro i x hx
  have hi := (List.getElem?_eq_some_iff.mp hx).1
  unfold packetMemory
  rw [List.getD_eq_getElem?_getD, writeAll_field h hapart hf hi, hx]
  rfl

theorem length_payload (h : r.path.length + r.attr.length ≠ 0) :
    r.payload = [(sizeV4, r.path.flatMap be32), (sizeV4 + r.path.length * 4, r.attr)] := if_pos h

theorem length_words (ns : List UInt32) : (ns.flatMap be32).length = ns.length * 4 := by
  induction ns with
  | nil => rfl
  | cons n ns ih =>
    rw [List.flatMap_cons, List.length_append, ih, length_be32, List.length_cons]
    omega

/-- The payload ends where the sizes say. -/
theorem payload_inside_iff (k : Nat) :
    (∀ f ∈ r.payload, f.1 + f.2.length ≤ sizeV4 + k) ↔ r.bgpsecLength ≤ k := by
  unfold bgpsecLength
  by_cases h : r.path.length + r.attr.length ≠ 0
  · rw [length_payload h, List.forall_mem_cons, List.forall_mem_singleton, length_words]
    dsimp only
    omega
  · have hnil : r.payload = [] := if_neg h
    rw [hnil]
    exact iff_of_true (fun f hf => absurd hf List.not_mem_nil) (by omega)

/-- Where the fields of an IPv4 header are. -/
def extentsV4 : List (Nat × Nat) :=
  [(0, 1), (1, 1), (2, 1), (3, 1), (4, 1), (8, 4), (12, 1), (13, 1), (14, 1), (5, 1), (6, 1), (7, 1),
    (15, 1), (16, 4), (20, 4), (24, 4), (28, 4), (32, 2), (34, 2), (36, 2), (38, 1), (56, 4)]

theorem extents_headerV4 (h : r.prefixAddress.length = 4) (bgpsec : BgpsecData) :
    (r.headerV4 bgpsec).map Field.extent = extentsV4 := by
  unfold headerV4 Field.extent
  simp only [List.map_cons, List.map_nil, h]
  rfl

theorem apart_v4 (h : r.prefixAddress.length = 4) (bgpsec : BgpsecData) :
    ((r.headerV4 bgpsec ++ r.payload).map Field.extent).Pairwise Apart := by
  rw [List.map_append, List.pairwise_append, extents_headerV4 h]
  refine ⟨by decide, ?_, ?_⟩
  · by_cases hp : r.path.length + r.attr.length ≠ 0
    · rw [length_payload hp, List.map_cons, List.map_cons, List.map_nil, List.pairwise_pair]
      left
      show sizeV4 + (r.path.flatMap be32).length ≤ sizeV4 + r.path.length * 4
      rw [length_words]
    · rw [show r.payload = [] from if_neg hp]
      exact List.Pairwise.nil
  · intro x hx y hy
    have hend : x.1 + x.2 ≤ sizeV4 :=
      (show ∀ x ∈ extentsV4, x.1 + x.2 ≤ sizeV4 by decide) x hx
    refine .inl (Nat.le_trans hend ?_)
    obtain ⟨f, hf, rfl⟩ := List.mem_map.mp hy
    show sizeV4 ≤ f.1
    unfold payload at hf
    split at hf
    · rw [List.mem_cons, List.mem_singleton] at hf
      rcases hf with rfl | rfl
      · exact Nat.le_refl _
      · exact Nat.le_add_right _ _
    · cases hf

/-- What is sent for an IPv4 request is what was written to a buffer with the size of its fields. -/
theorem verifyUpdate_v4 (h4 : r.isV4 = true) (hb : r.bgpsec = some bgpsec) :
    r.verifyUpdate = writeAll (r.headerV4 bgpsec ++ r.payload)
      (List.replicate (sizeV4 + (UInt16.ofNat r.bgpsecLength).toNat) 0) := by
  unfold verifyUpdate createV4Request
  rw [if_pos h4, if_pos h4, hb]
  rfl

/-- The size of the address of an IPv4 request. -/
theorem address_v4 (h4 : r.isV4 = true) :
    ∃ u32, r.ipPrefix.ip = .v4 u32 ∧ r.prefixAddress = le32 u32 := by
  unfold isV4 at h4
  unfold prefixAddress
  cases hip : r.ipPrefix.ip with
  | v4 u32 => exact ⟨u32, rfl, rfl⟩
  | v6 u8 =>
    rw [hip] at h4
    cases h4

/-- The bytes of a word in the memory of the host. -/
theorem ofBytes32_le32 {b : Memory} {off : Nat} {n : UInt32} (h : b.Holds off (le32 n)) :
    ofBytes32 (b (off + 3)) (b (off + 2)) (b (off + 1)) (b off) = n := by
  have hword : Memory.Holds (fun i => b (off + (3 - i))) 0 (be32 n) := by
    intro i x hx
    match i, hx with
    | 0, hx => exact h 3 x hx
    | 1, hx => exact h 2 x hx
    | 2, hx => exact h 1 x hx
    | 3, hx => exact h 0 x hx
  exact hword.u32

/-- The path and the attribute, where the payload has them. -/
theorem holds_payload {b : Memory} (h : ∀ f ∈ r.payload, b.Holds f.1 f.2) :
    b.Holds sizeV4 (r.path.flatMap be32) ∧ b.Holds (sizeV4 + r.path.length * 4) r.attr := by
  by_cases hp : r.path.length + r.attr.length ≠ 0
  · rw [length_payload hp, List.forall_mem_cons, List.forall_mem_singleton] at h
    exact h
  · have hpath : r.path = [] := List.length_eq_zero_iff.mp (by omega)
    have hattr : r.attr = [] := List.length_eq_zero_iff.mp (by omega)
    rw [hpath, hattr]
    exact ⟨fun i x hx => (nomatch hx), fun i x hx => (nomatch hx)⟩

theorem updateData_ext {u v : UpdateData} (hasn : u.asn = v.asn) (hfront : u.ipPrefix = v.ipPrefix)
    (hpath : u.path = v.path) (hattr : u.bgpsecPath = v.bgpsecPath) : u = v := by
  obtain ⟨_, _, _, _, _, _⟩ := u
  obtain ⟨_, _, _, _, _, _⟩ := v
  obtain rfl := hasn
  obtain rfl := hfront
  obtain rfl := hpath
  obtain rfl := hattr
  rfl

/-- The server reads what was written for an IPv4 request. -/
theorem readRequest_v4 (h4 : r.isV4 = true) (hb : r.bgpsec = some bgpsec) {m : Bytes}
    (hwrite : writeAll (r.headerV4 bgpsec ++ r.payload) m = some packet) (locals : Locals) :
    packetLength (packetMemory packet heap) = UInt32.ofNat (sizeV4 + r.bgpsecLength) ∧
      readRequest (packetMemory packet heap) locals = r.given := by
  obtain ⟨u32, hip, haddr⟩ := address_v4 h4
  have hall : ∀ f ∈ r.headerV4 bgpsec ++ r.payload, (packetMemory packet heap).Holds f.1 f.2 :=
    fun f hf => holds_field hwrite (apart_v4 (by rw [haddr]; rfl) bgpsec) hf
  rw [List.forall_mem_append] at hall
  obtain ⟨hheader, hpayload⟩ := hall
  unfold headerV4 at hheader
  simp only [List.forall_mem_cons] at hheader
  obtain ⟨htype, hflags, hroaSrc, hbgpsecSrc, haspaSrc, hlength, hroa, hbgpsec, haspa, -, hasType,
    hasRel, hprefixLen, htoken, haddress, hasn, -, hhops, hattrLen, hafi, hsafi, hlocal, -⟩ := hheader
  have hsize : requestSize (packetMemory packet heap) = sizeV4 := by
    unfold requestSize
    rw [htype.byte]
    rfl
  have hnumHops : requestHops (packetMemory packet heap) = UInt16.ofNat r.path.length := by
    unfold requestHops
    rw [hsize]
    exact hhops.u16
  have hattr : requestAttrLength (packetMemory packet heap) = UInt16.ofNat r.attr.length := by
    unfold requestAttrLength
    rw [hsize]
    exact hattrLen.u16
  have hpathLen : (UInt16.ofNat r.path.length).toNat = r.path.length :=
    UInt16.toNat_ofNat_of_lt r.given.update.hops
  have hattrLen : (UInt16.ofNat r.attr.length).toNat = r.attr.length :=
    UInt16.toNat_ofNat_of_lt r.given.update.attrLength
  obtain ⟨hwords, hbytes⟩ := holds_payload hpayload
  obtain ⟨horigin, hpath, haspa', hreceipt⟩ := isSet_method r
  refine ⟨hlength.u32, ReadRequest.ext (updateData_ext ?_ ?_ ?_ ?_) ?_ ?_ ?_ ?_ ?_ ?_ ?_ ?_ ?_ ?_ ?_⟩
  · show (packetMemory packet heap).u32 (requestSize _ - 36) = r.as32
    rw [hsize]
    exact hasn.u32
  · show requestPrefix _ = r.ipPrefix
    unfold requestPrefix
    rw [htype.byte, if_pos rfl, hprefixLen.byte]
    rw [haddr] at haddress
    rw [ofBytes32_le32 haddress, ← hip]
  · show (List.range (requestHops (packetMemory packet heap)).toNat).map (fun i =>
      (packetMemory packet heap).u32 (requestSize _ + 4 * i)) = r.path
    rw [hsize, hnumHops, hpathLen]
    exact hwords.words
  · show (packetMemory packet heap).bytes (requestSize _ + (requestHops _).toNat * 4)
      (requestAttrLength _).toNat = r.attr
    rw [hsize, hnumHops, hpathLen, hattr, hattrLen]
    exact hbytes.bytes
  · show (packetMemory packet heap).u16 (requestSize _ - 24) = r.bgpsec.elim 0 (·.afi)
    rw [hsize, hb]
    exact hafi.u16
  · show packetMemory packet heap (requestSize _ - 22) = r.bgpsec.elim 0 (·.safi)
    rw [hsize, hb]
    exact hsafi.byte
  · show (packetMemory packet heap).u32 (requestSize _ - 4) = r.bgpsec.elim 0 (·.localAS)
    rw [hsize, hb]
    exact hlocal.u32
  · show requestAsType _ locals = r.asType
    unfold requestAsType
    rw [htype.byte, if_pos rfl, hasType.byte, ofCode_asTypeCode]
  · show (if packetMemory packet heap 0 = pduVerifyV4 then _ else _) = r.asRelationship
    rw [htype.byte, if_pos rfl, hasRel.byte, asRelOfCode_asRelCode]
  · show isSet (packetMemory packet heap 1) vrtROA = r.usePrefixOriginVal
    rw [hflags.byte, horigin]
  · show isSet (packetMemory packet heap 1) vrtBGPSEC = r.usePathVal
    rw [hflags.byte, hpath]
  · show isSet (packetMemory packet heap 1) vrtASPA = r.useAspaVal
    rw [hflags.byte, haspa']
  · show isSet (packetMemory packet heap 1) flagReceipt = decide (r.localID ≠ 0)
    rw [hflags.byte, hreceipt]
  · show (if isSet (packetMemory packet heap 1) flagReceipt then _ else _) = r.localID
    rw [hflags.byte, hreceipt, htoken.u32]
    by_cases hid : r.localID = 0
    · rw [decide_eq_false (not_not.mpr hid), if_neg Bool.false_ne_true, hid]
    · rw [decide_eq_true hid, if_pos rfl]
  · show DefaultResult.mk _ _ _ ⟨_, _, _⟩ = r.defaultResult
    rw [hroaSrc.byte, hbgpsecSrc.byte, haspaSrc.byte, hroa.byte, hbgpsec.byte, haspa.byte]

/-- The fields of an IPv4 request are in its buffer if and only if the payload is. -/
theorem inside_v4 (h4 : r.isV4 = true) (bgpsec : BgpsecData) (k : Nat) :
    (∀ f ∈ r.headerV4 bgpsec ++ r.payload, f.1 + f.2.length ≤ sizeV4 + k) ↔ r.bgpsecLength ≤ k := by
  obtain ⟨u32, -, haddr⟩ := address_v4 h4
  rw [List.forall_mem_append, payload_inside_iff]
  refine and_iff_right fun f hf => ?_
  have hmem := List.mem_map_of_mem (f := Field.extent) hf
  rw [extents_headerV4 (by rw [haddr]; rfl)] at hmem
  have hend : f.extent.1 + f.extent.2 ≤ sizeV4 :=
    (show ∀ x ∈ extentsV4, x.1 + x.2 ≤ sizeV4 by decide) _ hmem
  exact Nat.le_trans hend (Nat.le_add_right _ _)

theorem verifyUpdate_v6 (h6 : r.isV4 = false) :
    r.verifyUpdate = writeAll (r.headerV6 ++ r.payload)
      (List.replicate (sizeV6 + (UInt16.ofNat r.bgpsecLength).toNat) 0) := by
  unfold verifyUpdate createV6Request
  rw [h6]
  rfl

/-- The type of what is sent for an IPv6 request: no other field is written over it. -/
theorem type_v6 {m : Bytes} (hwrite : writeAll (r.headerV6 ++ r.payload) m = some packet) :
    packetMemory packet heap 0 = pduVerifyV6 := by
  unfold headerV6 at hwrite
  rw [List.cons_append] at hwrite
  obtain ⟨m₁, hfirst, hrest⟩ := Option.bind_eq_some_iff.mp hwrite
  obtain ⟨-, -, hwritten, -⟩ := writeAt_eq_some hfirst
  have hkept := (writeAll_eq_some hrest).2.2 0 ?_
  · unfold packetMemory
    rw [List.getD_eq_getElem?_getD, hkept]
    have h0 : m₁[0]? = some pduVerifyV6 := hwritten 0 Nat.one_pos
    rw [h0]
    rfl
  · intro f hf hcovers
    have hpos : 1 ≤ f.1 := by
      rcases List.mem_append.mp hf with hf | hf
      · have hoff : f.1 ∈ [1, 2, 3, 8, 12, 13, 15, 16, 20, 36, 40, 44, 46] :=
          List.mem_map_of_mem (f := Prod.fst) hf
        exact (show ∀ i ∈ [1, 2, 3, 8, 12, 13, 15, 16, 20, 36, 40, 44, 46], 1 ≤ i by decide) _ hoff
      · unfold payload at hf
        split at hf
        · rw [List.mem_cons, List.mem_singleton] at hf
          rcases hf with rfl | rfl
          · show 1 ≤ sizeV4
            decide
          · exact Nat.le_trans (by decide) (Nat.le_add_right sizeV4 _)
        · cases hf
    exact Nat.not_succ_le_zero 0 (Nat.le_trans hpos hcovers.1)

end VerifyUpdateLemmas

/-! ## Results -/

open VerifyUpdateLemmas VerifyCall

/-- The server reads what was given if and only if the request is for an IPv4 prefix, has BGPsec data,
and the path and the attribute have less than 65536 bytes. -/
theorem roundTrip_iff (r : VerifyCall) :
    r.RoundTrips ↔ r.isV4 = true ∧ r.bgpsec.isSome = true ∧ r.bgpsecLength < 2 ^ 16 := by
  constructor
  · rintro ⟨packet, hsent, hread⟩
    cases h4 : r.isV4 with
    | false =>
      -- the type of the path is what the variable holds
      rw [verifyUpdate_v6 h4] at hsent
      have htype (locals : Locals) : locals.asType = r.asType := by
        have h := congrArg ReadRequest.asType ((hread fun _ => 0).2 locals)
        change requestAsType _ locals = r.asType at h
        unfold requestAsType at h
        rwa [type_v6 hsent, if_neg (by decide)] at h
      exact absurd ((htype ⟨.asSet, .unknown⟩).trans (htype ⟨.asSequence, .unknown⟩).symm) (by decide)
    | true =>
      cases hb : r.bgpsec with
      | none =>
        unfold verifyUpdate createV4Request at hsent
        rw [if_pos h4, if_pos h4, hb] at hsent
        cases hsent
      | some bgpsec =>
        rw [verifyUpdate_v4 h4 hb] at hsent
        have hinside := (writeAll_eq_some hsent).2.1
        rw [List.length_replicate, inside_v4 h4] at hinside
        exact ⟨rfl, rfl, Nat.lt_of_le_of_lt hinside (UInt16.toNat_lt _)⟩
  · rintro ⟨h4, hsome, hlt⟩
    obtain ⟨bgpsec, hb⟩ := Option.isSome_iff_exists.mp hsome
    have hlen : (UInt16.ofNat r.bgpsecLength).toNat = r.bgpsecLength := UInt16.toNat_ofNat_of_lt hlt
    have hinside := (inside_v4 h4 bgpsec r.bgpsecLength).mpr (Nat.le_refl _)
    obtain ⟨packet, hwrite⟩ := @writeAll_isSome
      (List.replicate (sizeV4 + (UInt16.ofNat r.bgpsecLength).toNat) 0) _
      (by rw [List.length_replicate, hlen]; exact hinside)
    have hpacket := (writeAll_eq_some hwrite).1
    rw [List.length_replicate, hlen] at hpacket
    refine ⟨packet, (verifyUpdate_v4 h4 hb).trans hwrite, fun heap => ⟨?_, fun locals => ?_⟩⟩
    · rw [(readRequest_v4 h4 hb hwrite ⟨.asSet, .unknown⟩).1, hpacket, UInt32.toNat_ofNat_of_lt']
      exact Nat.lt_of_lt_of_le (Nat.add_lt_add_left hlt sizeV4) (by decide)
    · exact (readRequest_v4 h4 hb hwrite locals).2

/-- An IPv6 request with one hop. -/
def v6Call : VerifyCall where
  localID := 1
  usePrefixOriginVal := true
  usePathVal := false
  useAspaVal := true
  defaultResult := ⟨1, 1, 1, ⟨3, 3, 3⟩⟩
  ipPrefix := ⟨.v6 #v[0x20, 0x01, 0x0d, 0xb8, 0, 0, 0, 0, 0, 0, 0, 0, 0, 0, 0, 0], 32⟩
  as32 := 65001
  bgpsec := some ⟨[65001], [], 0, 0, 0, one_fits16, zero_fits16⟩
  asType := .asSequence
  asRelationship := .customer

/-- Its path stands inside the header: the server reads the AS number 0. -/
theorem v6_path_lost : ¬ v6Call.RoundTrips := by
  rintro ⟨packet, hsent, hread⟩
  have hpath := congrArg (fun q => q.update.path) ((hread fun _ => 0).2 ⟨.asSequence, .customer⟩)
  have hzero : v6Call.verifyUpdate.map (fun packet =>
      (readRequest (packetMemory packet fun _ => 0) ⟨.asSequence, .customer⟩).update.path) =
        some [0] := by
    decide
  rw [hsent, Option.map_some] at hzero
  exact absurd ((Option.some.inj hzero).symm.trans hpath) (by decide)

end SrxSuite.Client

import SrxSuite.Server.Identity
import SrxSuite.Server.SkiCache

/-!
# The bytes of a verify request

A verify request names three lengths: that of the packet in its header, the number of hops and the
length of the BGPsec attribute. `receivePackets` (`util/packet.c`) reads as many bytes as the header
says; `processValidationRequest` (`server/server_connection_handler.c`) takes the hops and the
attribute where the other two lengths put them, and does not compare them with the first. The
attribute is read once more through the lengths it holds itself, when the update is registered with
the keys it names.

Results:
1. `request_bounded_iff`: every byte that is read as AS path or attribute, or is copied to the update
   cache, was received if and only if the lengths agree.
2. `request_unbounded`: a request of 60 bytes that announces one hop.
-/

namespace SrxSuite.Server

open Bytes Aspa Crypto

/-! ## Receiving -/

/-- The size of `SRXPROXY_BasicHeader`. -/
def basicLength : Nat := 12

/-- `hdr->length` of a packet. -/
def packetLength (packet : Memory) : UInt32 := packet.u32 8

/-- One turn of the loop of `receivePackets`: the buffer after it, and what is left of the stream.
The buffer grows when the packet is longer, and what the packet does not fill is zero. A length below
that of the header leaves no remainder. It is `none` when the connection ends before the packet. -/
def receivePacket (buffSize : Nat) (stream : Bytes) : Option (Bytes × Bytes) := do
  let basic ← stream.readAt 0 basicLength
  let pduLength := (packetLength fun i => basic.getD i 0).toNat
  let buffSize := max buffSize pduLength
  let remainder := pduLength - basicLength
  let rest ← stream.readAt basicLength remainder
  some (basic ++ rest ++ List.replicate (buffSize - (basicLength + remainder)) 0,
    stream.drop (basicLength + remainder))

/-- The memory from the packet on: the buffer, and what stands behind it. -/
def packetMemory (buffer : Bytes) (heap : Memory) : Memory := fun i => buffer.getD i (heap i)

/-! ## The request -/

/-- `PDU_SRXPROXY_VERIFY_V4_REQUEST`. -/
def pduVerifyV4 : UInt8 := 3

/-- `PDU_SRXPROXY_VERIFY_V6_REQUEST`. -/
def pduVerifyV6 : UInt8 := 4

/-- The size of `SRXPROXY_VERIFY_V4_REQUEST` or `SRXPROXY_VERIFY_V6_REQUEST`. -/
def requestSize (packet : Memory) : Nat := if packet 0 = pduVerifyV4 then 60 else 72

/-- `bgpData.numberHops`. -/
def requestHops (packet : Memory) : UInt16 := packet.u16 (requestSize packet - 28)

/-- `bgpData.attr_length`. -/
def requestAttrLength (packet : Memory) : UInt16 := packet.u16 (requestSize packet - 26)

/-- `bgpData.asPath`, as an offset into the packet. -/
def requestPath (packet : Memory) : Option Nat :=
  if requestHops packet ≠ 0 then some (requestSize packet) else none

/-- `bgpData.bgpsec_path_attr`: the attribute comes after the path. -/
def requestAttr (packet : Memory) : Option Nat :=
  if requestAttrLength packet ≠ 0 then some (requestSize packet + (requestHops packet).toNat * 4)
  else none

/-- `prefix`. -/
def requestPrefix (packet : Memory) : IPPrefix where
  ip :=
    if packet 0 = pduVerifyV4 then .v4 (ofBytes32 (packet 23) (packet 22) (packet 21) (packet 20))
    else .v6 (Vector.ofFn fun i => packet (20 + i))
  length := packet 15

/-- The update of a request, as the memory has it. -/
def requestUpdate (packet : Memory) : UpdateData where
  asn := packet.u32 (requestSize packet - 36)
  ipPrefix := requestPrefix packet
  path := (List.range (requestHops packet).toNat).map fun i => packet.u32 (requestSize packet + 4 * i)
  bgpsecPath := packet.bytes (requestSize packet + (requestHops packet).toNat * 4)
    (requestAttrLength packet).toNat
  hops := by
    rw [List.length_map, List.length_range]
    exact (requestHops packet).toNat_lt
  attrLength := by
    rw [Memory.bytes, List.length_map, List.length_range]
    exact (requestAttrLength packet).toNat_lt

/-- The segment type of a byte. -/
def AsType.ofCode (code : UInt8) : AsType :=
  if h : code = 0 ∨ 4 < code then .other code h
  else if code = 1 then .asSet
  else if code = 2 then .asSequence
  else if code = 3 then .asConfedSequence
  else .asConfedSet

/-- The type of the path. An IPv6 request does not set the variable. -/
def requestAsType (packet : Memory) (locals : Locals) : AsType :=
  if packet 0 = pduVerifyV4 then AsType.ofCode (packet 6) else locals.asType

/-- The path identifier `makePathId` gives. -/
def requestPathId (packet : Memory) (locals : Locals) : UInt32 :=
  makePathId (requestHops packet).toUInt8 ((requestPath packet).map fun _ => (requestUpdate packet).path)
    (requestAsType packet locals)

/-! ## What is read -/

/-- A read of `size` bytes from an offset of the packet on, or through a NULL pointer. -/
structure Access where
  pointer : Option Nat
  size : Nat
  deriving DecidableEq, Repr

/-- All bytes of a read are among the first `length` bytes of the packet. -/
def Access.Inside (length : Nat) (x : Access) : Prop :=
  x.size = 0 ∨ ∃ offset ∈ x.pointer, offset + x.size ≤ length

/-- The comparison of `detectCollision` with a stored update: `memcmp` takes the length of the stored
path and of the stored attribute. `none` is a comparison with a NULL pointer. -/
def collidesWith (packet : Memory) (cEntry : UpdateData) : Option Bool :=
  if cEntry.asn = (requestUpdate packet).asn ∧
      cEntry.path.length = (requestUpdate packet).path.length then
    if cEntry.path = (requestUpdate packet).path then
      if cEntry.bgpsecPath = [] then some false
      else (requestAttr packet).map fun attr =>
        decide (cEntry.bgpsecPath ≠ packet.bytes attr cEntry.bgpsecPath.length)
    else some true
  else some true

/-- What the comparison reads of the request. -/
def collisionReads (packet : Memory) (cEntry : UpdateData) : List Access :=
  if cEntry.asn = (requestUpdate packet).asn ∧
      cEntry.path.length = (requestUpdate packet).path.length then
    ⟨requestPath packet, cEntry.path.length * 4⟩ ::
      if cEntry.path = (requestUpdate packet).path then
        [⟨requestAttr packet, cEntry.bgpsecPath.length⟩]
      else []
  else []

/-- `detectCollision` under an identifier. -/
def refusedId (s : IdentityState) (packet : Memory) (updateID : UInt32) : Option Bool :=
  match s.stored updateID with
  | none => some false
  | some cEntry => collidesWith packet cEntry

/-- The identifier of the request, `none` when the loop does not end or a NULL pointer is read. -/
def requestId (s : IdentityState) (packet : Memory) : Option UInt32 :=
  Probing.probe (refusedId s packet) (· + 1) (2 ^ 32) (generateIdentifier (requestUpdate packet))

/-- What the loop over the identifiers reads. -/
def searchReads (s : IdentityState) (packet : Memory) : List Access :=
  (Probing.visited (refusedId s packet) (· + 1) (2 ^ 32)
    (generateIdentifier (requestUpdate packet))).flatMap fun updateID =>
      (s.stored updateID).elim [] (collisionReads packet)

/-- What `generateIdentifier` reads. -/
def identifierRead (packet : Memory) : Access :=
  if (requestAttr packet).isSome then ⟨requestAttr packet, (requestAttrLength packet).toNat⟩
  else ⟨requestPath packet, (requestHops packet).toNat * 4⟩

/-- The path is in the AS path cache. -/
def pathCached (s : IdentityState) (packet : Memory) (locals : Locals) : Bool :=
  (getAspathListFromAspathCache s.server.aspathCache (requestPathId packet locals) 0).1.isSome

/-- What is read to find the path, and to make an entry for it. The length `makePathId` takes is a
byte. -/
def pathReads (s : IdentityState) (packet : Memory) (locals : Locals) (updateID : UInt32) :
    List Access :=
  if ((getUpdateResult s.server.updateCache updateID).getD resultNotFound).pathId = 0 then
    (match requestPath packet with
      | none => []
      | some path => [⟨some path, (requestHops packet).toUInt8.toNat * 4⟩]) ++
      if pathCached s packet locals then []
      else [⟨requestPath packet, (requestHops packet).toNat * 4⟩]
  else []

/-- What `storeUpdate` copies: the fields of the request, of which `local_as` is the last, the path and
the attribute. The default result for ASPA is that of the request when the path is new. -/
def storeReads (s : IdentityState) (packet : Memory) (locals : Locals) : List Access :=
  [⟨some 2, 2⟩, ⟨some 12, 2⟩, ⟨some 15, 1⟩, ⟨some 20, requestSize packet - 56⟩,
    ⟨some (requestSize packet - 36), 4⟩, ⟨some (requestSize packet - 24), 3⟩] ++
    (if pathCached s packet locals then [] else [⟨some 4, 1⟩, ⟨some 14, 1⟩]) ++
    [⟨some (requestSize packet - 4), 4⟩, ⟨requestPath packet, (requestHops packet).toNat * 4⟩,
      ⟨requestAttr packet, (requestAttrLength packet).toNat⟩]

/-- What a request reads: through pointers of a known size, and the attribute that is handed to
`ski_registerUpdate`. -/
structure RequestReads where
  accesses : List Access
  registered : Option Nat

/-- `processValidationRequest`. -/
def requestReads (s : IdentityState) (packet : Memory) (locals : Locals) : RequestReads :=
  let first := identifierRead packet :: searchReads s packet
  match requestId s packet with
  | none => ⟨first, none⟩
  | some updateID =>
    if (s.stored updateID).isSome then ⟨first ++ pathReads s packet locals updateID, none⟩
    else
      ⟨first ++ pathReads s packet locals updateID ++ storeReads s packet locals,
        requestAttr packet⟩

/-- `_handlePacket`, as far as verify requests go; `none` is a packet that is rejected or is none. -/
def handlePacket (s : IdentityState) (initialized : Bool) (packet : Memory) (locals : Locals) :
    Option RequestReads :=
  if (packetLength packet).toNat < basicLength then none
  else if packet 0 = pduVerifyV4 ∨ packet 0 = pduVerifyV6 then
    if initialized then some (requestReads s packet locals) else none
  else none

/-! ## Lengths that agree -/

/-- The end of the SKIs and lengths of signature segments. -/
def segmentsEnd (attr : Memory) : (segments ptr : Nat) → Nat
  | 0, _ => 0
  | n + 1, ptr => max (ptr + 22) (segmentsEnd attr n (ptr + 22 + (attr.u16 (ptr + 20)).toNat))

/-- How far the lengths in the value of an attribute reach, that of the secure path, those of the
signature blocks and those of the signatures. The value is at `ptr` and has `remainder` bytes. -/
def valueExtent (attr : Memory) (ptr : Nat) (remainder : UInt16) : Nat :=
  let nrSegments := UInt16.ofNat (((attr.u16 ptr).toNat - 2) / 6)
  let first := ptr + 2 + nrSegments.toNat * 6
  let second := first + (attr.u16 first).toNat
  let rest := remainder - 2 - nrSegments * 6
  let blockEnd := fun block => max (block + 3) (segmentsEnd attr nrSegments.toNat (block + 3))
  if remainder = 0 then ptr
  else if remainder - 2 = 0 then ptr + 2
  else if rest = 0 then first
  else if rest - attr.u16 first = 0 then blockEnd first
  else if rest - attr.u16 first - attr.u16 second = 0 then max (blockEnd first) (blockEnd second)
  else second + 2

/-- How far the lengths of an attribute reach. -/
def attrExtent (attr : Memory) : Nat :=
  if attr 0 &&& extLengthFlag = 0 then valueExtent attr 3 (attr 2).toUInt16
  else valueExtent attr 4 (attr.u16 2)

/-- The lengths of two signature blocks, and no less, take up what the value has behind the path. -/
def ValueOfTwoBlocks (attr : Memory) (ptr : Nat) (remainder : UInt16) : Prop :=
  let nrSegments := UInt16.ofNat (((attr.u16 ptr).toNat - 2) / 6)
  let first := ptr + 2 + nrSegments.toNat * 6
  let second := first + (attr.u16 first).toNat
  let rest := remainder - 2 - nrSegments * 6
  remainder ≠ 0 ∧ remainder - 2 ≠ 0 ∧ rest ≠ 0 ∧ rest - attr.u16 first ≠ 0 ∧
    rest - attr.u16 first - attr.u16 second = 0

/-- The attribute has two signature blocks. -/
def TwoBlocks (attr : Memory) : Prop :=
  if attr 0 &&& extLengthFlag = 0 then ValueOfTwoBlocks attr 3 (attr 2).toUInt16
  else ValueOfTwoBlocks attr 4 (attr.u16 2)

/-- The lengths agree: the hops and the attribute fit into the packet; what the request is compared
with is no longer than what the packet has of the attribute; and when the update is new, the packet has
all of the request and what the attribute reaches, and the attribute has not two signature blocks. -/
def LengthsAgree (s : IdentityState) (packet : Memory) (length : Nat) : Prop :=
  let hops := (requestHops packet).toNat
  let attrLength := (requestAttrLength packet).toNat
  let attr := requestSize packet + hops * 4
  (hops = 0 ∧ attrLength = 0 ∨ attr + attrLength ≤ length) ∧
    ∀ i < 2 ^ 32,
      (∀ j < i, refusedId s packet (generateIdentifier (requestUpdate packet) + UInt32.ofNat j) =
        some true) →
      match s.stored (generateIdentifier (requestUpdate packet) + UInt32.ofNat i) with
      | none => requestSize packet ≤ length ∧
          (attrLength ≠ 0 → attr + attrExtent (fun k => packet (attr + k)) ≤ length ∧
            ¬ TwoBlocks fun k => packet (attr + k))
      | some u => u.asn = (requestUpdate packet).asn → u.path = (requestUpdate packet).path →
          u.bgpsecPath = [] ∨ attrLength ≠ 0 ∧ attr + u.bgpsecPath.length ≤ length

/-- All that was read was received. -/
def RequestReads.Bounded (received : Bytes) (x : RequestReads) : Prop :=
  (∀ a ∈ x.accesses, a.Inside received.length) ∧
    ∀ attr ∈ x.registered, (parseBgpsecPath (received.drop attr)).isSome

namespace RequestBoundsLemmas

/-! ## The attribute -/

variable {m : Bytes} {b : Memory}

/-- A computation that goes on is defined when its parts are. -/
theorem isSome_bind_iff {α β : Type} {x : Option α} {f : α → Option β} :
    (x >>= f).isSome ↔ ∃ a, x = some a ∧ (f a).isSome := by
  cases x with
  | none => exact iff_of_false Bool.false_ne_true fun ⟨_, ha, _⟩ => nomatch ha
  | some a => exact ⟨fun h => ⟨a, rfl, h⟩, fun ⟨_, ha, h⟩ => Option.some.inj ha ▸ h⟩

theorem exists_some {α : Type} {a : α} {P : α → Prop} : (∃ x, some a = some x ∧ P x) ↔ P a :=
  ⟨fun ⟨_, hx, hP⟩ => Option.some.inj hx ▸ hP, fun hP => ⟨a, rfl, hP⟩⟩

theorem exists_bind {α β : Type} {x : Option α} {f : α → Option β} {P : β → Prop} :
    (∃ y, (x >>= f) = some y ∧ P y) ↔ ∃ a, x = some a ∧ ∃ y, f a = some y ∧ P y := by
  cases x with
  | none => exact iff_of_false (fun ⟨_, hy, _⟩ => nomatch hy) fun ⟨_, ha, _⟩ => nomatch ha
  | some a => exact (exists_some (P := fun a => ∃ y, f a = some y ∧ P y)).symm

/-- A value that is there under a condition. -/
theorem exists_ite {α : Type} {c : Prop} [Decidable c] {a : α} {P : α → Prop} :
    (∃ x, (if c then some a else none) = some x ∧ P x) ↔ c ∧ P a := by
  split
  · next hc => rw [exists_some, and_iff_right hc]
  · next hc => exact iff_of_false (fun ⟨_, hx, _⟩ => nomatch hx) fun hand => hc hand.1

theorem exists_getElem (h : RegionOf m b) {off : Nat} {P : UInt8 → Prop} :
    (∃ n, m[off]? = some n ∧ P n) ↔ off + 1 ≤ m.length ∧ P (b off) := by
  rw [h.getElem?_eq]
  exact exists_ite

theorem exists_be16At (h : RegionOf m b) {off : Nat} {P : UInt16 → Prop} :
    (∃ n, m.be16At off = some n ∧ P n) ↔ off + 2 ≤ m.length ∧ P (b.u16 off) := by
  rw [h.be16At_eq]
  exact exists_ite

theorem readAsns_isSome (m : Bytes) (n ptr : Nat) :
    (readAsns m n ptr).isSome ↔ n = 0 ∨ ptr + n * 6 ≤ m.length := by
  induction n generalizing ptr with
  | zero => exact iff_of_true rfl (.inl rfl)
  | succ n ih =>
    unfold readAsns
    rw [isSome_bind_iff]
    constructor
    · rintro ⟨asn, hasn, h⟩
      obtain ⟨rest, hrest, -⟩ := isSome_bind_iff.mp h
      have hin := (isSome_le32At m (ptr + 2)).mp (by rw [hasn]; rfl)
      have := (ih (ptr + 6)).mp (by rw [hrest]; rfl)
      omega
    · intro h
      obtain ⟨asn, hasn⟩ := Option.isSome_iff_exists.mp
        ((isSome_le32At m (ptr + 2)).mpr (by omega))
      obtain ⟨rest, hrest⟩ := Option.isSome_iff_exists.mp ((ih (ptr + 6)).mpr (by omega))
      exact ⟨asn, hasn, isSome_bind_iff.mpr ⟨rest, hrest, rfl⟩⟩

theorem readSkis_isSome (h : RegionOf m b) (n ptr : Nat) :
    (readSkis m n ptr).isSome ↔ segmentsEnd b n ptr ≤ m.length := by
  induction n generalizing ptr with
  | zero => exact iff_of_true rfl (Nat.zero_le _)
  | succ n ih =>
    unfold readSkis segmentsEnd
    rw [isSome_bind_iff, Nat.max_le, ← ih]
    constructor
    · rintro ⟨ski, hski, hrest⟩
      obtain ⟨siglen, hsiglen, hrest⟩ := isSome_bind_iff.mp hrest
      obtain ⟨rest, hrest, -⟩ := isSome_bind_iff.mp hrest
      obtain ⟨hle, hsame⟩ := (exists_be16At h).mp ⟨siglen, hsiglen, rfl⟩
      refine ⟨hle, ?_⟩
      rw [← hsame, hrest]
      rfl
    · rintro ⟨hle, hrest⟩
      obtain ⟨ski, hski⟩ := Option.isSome_iff_exists.mp ((isSome_readAt m ptr 20).mpr (by omega))
      obtain ⟨rest, hrest⟩ := Option.isSome_iff_exists.mp hrest
      obtain ⟨siglen, hsiglen, hsame⟩ := (exists_be16At h (P := (· = b.u16 (ptr + 20)))).mpr ⟨hle, rfl⟩
      refine ⟨ski, hski, isSome_bind_iff.mpr ⟨siglen, hsiglen, isSome_bind_iff.mpr ⟨rest, ?_, rfl⟩⟩⟩
      rw [hsame]
      exact hrest

theorem mapM_isSome {α β : Type} (f : β → Option α) (l : List β) :
    (l.mapM f).isSome ↔ ∀ x ∈ l, (f x).isSome := by
  induction l with
  | nil => exact iff_of_true rfl fun _ hx => nomatch hx
  | cons x l ih =>
    rw [List.mapM_cons, isSome_bind_iff, List.forall_mem_cons]
    constructor
    · rintro ⟨y, hy, hrest⟩
      obtain ⟨ys, hys, -⟩ := isSome_bind_iff.mp hrest
      exact ⟨by rw [hy]; rfl, ih.mp (by rw [hys]; rfl)⟩
    · rintro ⟨hx, hl⟩
      obtain ⟨y, hy⟩ := Option.isSome_iff_exists.mp hx
      obtain ⟨ys, hys⟩ := Option.isSome_iff_exists.mp (ih.mpr hl)
      exact ⟨y, hy, isSome_bind_iff.mpr ⟨ys, hys, rfl⟩⟩

theorem exists_attrLength (h : RegionOf m b) {P : UInt16 × Nat → Prop} :
    (∃ x, attrLength m = some x ∧ P x) ↔
      if b 0 &&& extLengthFlag = 0 then 3 ≤ m.length ∧ P ((b 2).toUInt16, 3)
      else 4 ≤ m.length ∧ P (b.u16 2, 4) := by
  unfold attrLength
  rw [exists_bind, exists_getElem h]
  split
  · rw [exists_bind, exists_getElem h, exists_some]
    exact and_iff_right_of_imp fun hand => Nat.le_trans (by decide) hand.1
  · rw [exists_bind, exists_be16At h, exists_some]
    exact and_iff_right_of_imp fun hand => Nat.le_trans (by decide) hand.1

theorem exists_sigBlocks (h : RegionOf m b) {ptr : Nat} {remainder : UInt16}
    {P : Option (List Nat) → Prop} :
    (∃ blocks, sigBlocks m ptr remainder = some blocks ∧ P blocks) ↔
      if remainder = 0 then P (some [])
      else ptr + 2 ≤ m.length ∧
        if remainder - b.u16 ptr = 0 then P (some [ptr])
        else ptr + (b.u16 ptr).toNat + 2 ≤ m.length ∧
          P (if remainder - b.u16 ptr - b.u16 (ptr + (b.u16 ptr).toNat) = 0 then
            some [ptr, ptr + (b.u16 ptr).toNat] else none) := by
  unfold sigBlocks
  split
  · exact exists_some
  · rw [exists_bind, exists_be16At h]
    refine and_congr_right fun _ => ?_
    split
    · exact exists_some
    · rw [exists_bind, exists_be16At h, exists_some]

/-- The segments of the path and of the blocks. -/
theorem segments_isSome (h : RegionOf m b) (n ptr : Nat) (nrSegments : UInt16) (blocks : List Nat) :
    (if blocks.length = bgpsecMaxSigBlocks then none
      else do
        let asn ← readAsns m n ptr
        let algoID ← blocks.mapM fun block => m[block + 2]?
        let ski ← blocks.mapM fun block => readSkis m n (block + 3)
        some (some ⟨nrSegments, asn, algoID, ski.flatten⟩) : Option (Option UpdInfo)).isSome ↔
      blocks.length ≠ bgpsecMaxSigBlocks ∧ (n = 0 ∨ ptr + n * 6 ≤ m.length) ∧
        ∀ block ∈ blocks, max (block + 3) (segmentsEnd b n (block + 3)) ≤ m.length := by
  split
  · next htwo => exact iff_of_false Bool.false_ne_true fun hand => hand.1 htwo
  next htwo =>
  rw [and_iff_right htwo]
  have halgo (block : Nat) : m[block + 2]?.isSome ↔ block + 3 ≤ m.length := by
    rw [h.getElem?_eq]
    split
    · next hlt => exact iff_of_true rfl hlt
    · next hlt => exact iff_of_false Bool.false_ne_true hlt
  simp only [Nat.max_le, ← readSkis_isSome h, ← halgo, ← readAsns_isSome]
  constructor
  · intro hall
    obtain ⟨asn, hasn, hall⟩ := isSome_bind_iff.mp hall
    obtain ⟨algoID, halgoID, hall⟩ := isSome_bind_iff.mp hall
    obtain ⟨ski, hski, -⟩ := isSome_bind_iff.mp hall
    refine ⟨by rw [hasn]; rfl, fun block hblock => ⟨?_, ?_⟩⟩
    · exact (mapM_isSome _ _).mp (Option.isSome_iff_exists.mpr ⟨_, halgoID⟩) block hblock
    · exact (mapM_isSome _ _).mp (Option.isSome_iff_exists.mpr ⟨_, hski⟩) block hblock
  · rintro ⟨hasn, hblocks⟩
    obtain ⟨asn, hasn⟩ := Option.isSome_iff_exists.mp hasn
    obtain ⟨algoID, halgoID⟩ := Option.isSome_iff_exists.mp
      ((mapM_isSome (fun block => m[block + 2]?) blocks).mpr fun block hb => (hblocks block hb).1)
    obtain ⟨ski, hski⟩ := Option.isSome_iff_exists.mp
      ((mapM_isSome (fun block => readSkis m n (block + 3)) blocks).mpr fun block hb =>
        (hblocks block hb).2)
    exact isSome_bind_iff.mpr ⟨asn, hasn, isSome_bind_iff.mpr ⟨algoID, halgoID,
      isSome_bind_iff.mpr ⟨ski, hski, rfl⟩⟩⟩

theorem ptr_le_valueExtent (attr : Memory) (ptr : Nat) (remainder : UInt16) :
    ptr ≤ valueExtent attr ptr remainder := by
  unfold valueExtent
  dsimp only
  split_ifs <;> omega

/-- The value of an attribute, from its length on. -/
theorem value_isSome (h : RegionOf m b) {ptr : Nat} {remainder : UInt16} (hptr : ptr ≤ m.length) :
    (if remainder = 0 then some none
      else do
        let length ← m.be16At ptr
        let nrSegments := UInt16.ofNat ((length.toNat - 2) / 6)
        if remainder - 2 = 0 then some none
        else
          match ← sigBlocks m (ptr + 2 + nrSegments.toNat * 6)
            (remainder - 2 - nrSegments * 6) with
          | none => some none
          | some blocks =>
            if blocks.length = bgpsecMaxSigBlocks then none
            else
              let asn ← readAsns m nrSegments.toNat (ptr + 2)
              let algoID ← blocks.mapM fun block => m[block + 2]?
              let ski ← blocks.mapM fun block => readSkis m nrSegments.toNat (block + 3)
              some (some ⟨nrSegments, asn, algoID, ski.flatten⟩) : Option (Option UpdInfo)).isSome ↔
      valueExtent b ptr remainder ≤ m.length ∧ ¬ ValueOfTwoBlocks b ptr remainder := by
  unfold valueExtent ValueOfTwoBlocks
  dsimp only
  split
  · next hzero => exact iff_of_true rfl ⟨hptr, fun hand => hand.1 hzero⟩
  next hzero =>
  rw [isSome_bind_iff, exists_be16At h, and_iff_right (show remainder ≠ 0 from hzero)]
  split
  · next htwo => exact and_congr_right fun _ => iff_of_true rfl fun hand => hand.1 htwo
  next htwo =>
  rw [isSome_bind_iff, exists_sigBlocks h, and_iff_right (show remainder - 2 ≠ 0 from htwo)]
  split
  · -- no signature block
    next hrest =>
    rw [segments_isSome h, and_iff_left (show ¬ _ from fun hand => hand.1 hrest)]
    constructor
    · rintro ⟨hlen, -, hasn | hasn, -⟩
      · rw [hasn]
        exact hlen
      · exact hasn
    · intro hlen
      exact ⟨by omega, by decide, .inr hlen, fun _ hx => nomatch hx⟩
  next hrest =>
  rw [and_iff_right (show _ ≠ (0 : UInt16) from hrest)]
  split
  · next hone =>
    rw [segments_isSome h, List.forall_mem_singleton, and_iff_left (show ¬ _ from fun hand => hand.1 hone),
      and_iff_right (show [_].length ≠ bgpsecMaxSigBlocks from Nat.ne_of_lt (Nat.lt_succ_self 1))]
    omega
  next hone =>
  rw [and_iff_right (show _ ≠ (0 : UInt16) from hone)]
  split_ifs with hboth
  · -- two signature blocks
    dsimp only
    rw [segments_isSome h]
    exact iff_of_false (fun hand => hand.2.2.2.1 rfl) fun hand => hand.2 hboth
  · rw [Option.isSome_some, and_iff_left rfl, and_iff_left hboth]
    omega

/-- The parser stays in the region and in its array if and only if the lengths of the attribute do, and
are not those of two blocks. -/
theorem parse_isSome (h : RegionOf m b) :
    (parseBgpsecPath m).isSome ↔ attrExtent b ≤ m.length ∧ ¬ TwoBlocks b := by
  unfold parseBgpsecPath attrExtent TwoBlocks
  rw [isSome_bind_iff, exists_attrLength h]
  split
  · constructor
    · rintro ⟨hptr, hsome⟩
      exact (value_isSome h hptr).mp hsome
    · intro hand
      have hptr := Nat.le_trans (ptr_le_valueExtent b 3 _) hand.1
      exact ⟨hptr, (value_isSome h hptr).mpr hand⟩
  · constructor
    · rintro ⟨hptr, hsome⟩
      exact (value_isSome h hptr).mp hsome
    · intro hand
      have hptr := Nat.le_trans (ptr_le_valueExtent b 4 _) hand.1
      exact ⟨hptr, (value_isSome h hptr).mpr hand⟩

theorem attrExtent_pos (attr : Memory) : 0 < attrExtent attr := by
  unfold attrExtent
  split
  · exact Nat.lt_of_lt_of_le (by decide) (ptr_le_valueExtent attr 3 _)
  · exact Nat.lt_of_lt_of_le (by decide) (ptr_le_valueExtent attr 4 _)

/-! ## The reads -/

variable {s : IdentityState} {packet : Memory} {locals : Locals} {received : Bytes} {length : Nat}

/-- The hops and the attribute fit. -/
def PathFits (packet : Memory) (length : Nat) : Prop :=
  (requestHops packet).toNat = 0 ∧ (requestAttrLength packet).toNat = 0 ∨
    requestSize packet + (requestHops packet).toNat * 4 + (requestAttrLength packet).toNat ≤ length

theorem inside_some {offset size : Nat} :
    Access.Inside length ⟨some offset, size⟩ ↔ size = 0 ∨ offset + size ≤ length := by
  unfold Access.Inside
  refine or_congr_right ⟨?_, fun h => ⟨offset, rfl, h⟩⟩
  rintro ⟨offset', hoffset, h⟩
  exact Option.some.inj hoffset ▸ h

theorem inside_none {size : Nat} : Access.Inside length ⟨none, size⟩ ↔ size = 0 := by
  unfold Access.Inside
  refine or_iff_left ?_
  rintro ⟨offset, hoffset, -⟩
  cases hoffset

theorem toNat_ne_zero {n : UInt16} : n.toNat ≠ 0 ↔ n ≠ 0 :=
  not_congr ⟨fun h => UInt16.toNat_inj.mp h, fun h => congrArg UInt16.toNat h⟩

theorem requestPath_eq :
    requestPath packet = if (requestHops packet).toNat ≠ 0 then some (requestSize packet) else none := by
  unfold requestPath
  simp only [toNat_ne_zero]

theorem requestAttr_eq :
    requestAttr packet = if (requestAttrLength packet).toNat ≠ 0 then
      some (requestSize packet + (requestHops packet).toNat * 4) else none := by
  unfold requestAttr
  simp only [toNat_ne_zero]

/-- `generateIdentifier` reads all hops or all of the attribute. -/
theorem identifierRead_inside : (identifierRead packet).Inside length ↔ PathFits packet length := by
  unfold identifierRead PathFits
  rw [requestAttr_eq, requestPath_eq]
  by_cases hattr : (requestAttrLength packet).toNat ≠ 0
  · rw [if_pos hattr, Option.isSome_some, if_pos rfl, inside_some]
    omega
  · rw [if_neg hattr, Option.isSome_none, if_neg Bool.false_ne_true]
    by_cases hhops : (requestHops packet).toNat ≠ 0
    · rw [if_pos hhops, inside_some]
      omega
    · rw [if_neg hhops, inside_none]
      omega

theorem path_inside (h : PathFits packet length) {size : Nat}
    (hsize : size ≤ (requestHops packet).toNat * 4) :
    Access.Inside length ⟨requestPath packet, size⟩ := by
  unfold PathFits at h
  rw [requestPath_eq]
  split
  · rw [inside_some]
    omega
  · rw [inside_none]
    omega

theorem attr_inside (h : PathFits packet length) :
    Access.Inside length ⟨requestAttr packet, (requestAttrLength packet).toNat⟩ := by
  unfold PathFits at h
  rw [requestAttr_eq]
  split
  · rw [inside_some]
    omega
  · rw [inside_none]
    omega

theorem length_path (packet : Memory) :
    (requestUpdate packet).path.length = (requestHops packet).toNat := by
  unfold requestUpdate
  rw [List.length_map, List.length_range]

/-- The comparison reads the attribute over the length of the stored one. -/
theorem collisionReads_inside (h : PathFits packet length) (u : UpdateData) :
    (∀ x ∈ collisionReads packet u, x.Inside length) ↔
      (u.asn = (requestUpdate packet).asn → u.path = (requestUpdate packet).path →
        u.bgpsecPath = [] ∨ (requestAttrLength packet).toNat ≠ 0 ∧
          requestSize packet + (requestHops packet).toNat * 4 + u.bgpsecPath.length ≤ length) := by
  unfold collisionReads
  have hattr : Access.Inside length ⟨requestAttr packet, u.bgpsecPath.length⟩ ↔
      u.bgpsecPath = [] ∨ (requestAttrLength packet).toNat ≠ 0 ∧
        requestSize packet + (requestHops packet).toNat * 4 + u.bgpsecPath.length ≤ length := by
    rw [requestAttr_eq, ← List.length_eq_zero_iff]
    split
    · next hne => rw [inside_some, and_iff_right hne]
    · next heq => rw [inside_none, or_iff_left fun hand => heq hand.1]
  split
  · next hsame =>
    have hpath : Access.Inside length ⟨requestPath packet, u.path.length * 4⟩ :=
      path_inside h (by rw [hsame.2, length_path])
    rw [List.forall_mem_cons, and_iff_right hpath]
    split
    · next heq =>
      rw [List.forall_mem_singleton, hattr]
      exact ⟨fun hin _ _ => hin, fun hin => hin hsame.1 heq⟩
    · next hne => exact iff_of_true (fun _ hx => nomatch hx) fun _ heq => absurd heq hne
  · next hdiff =>
    refine iff_of_true (fun _ hx => nomatch hx) fun hasn hpath => ?_
    exact absurd ⟨hasn, congrArg List.length hpath⟩ hdiff

theorem pathReads_inside (h : PathFits packet length) (updateID : UInt32) :
    ∀ x ∈ pathReads s packet locals updateID, x.Inside length := by
  have hbyte : (requestHops packet).toUInt8.toNat * 4 ≤ (requestHops packet).toNat * 4 := by
    rw [UInt16.toNat_toUInt8]
    exact Nat.mul_le_mul_right 4 (Nat.mod_le _ _)
  intro x hx
  unfold pathReads at hx
  split at hx
  · rcases List.mem_append.mp hx with hx | hx
    · split at hx
      · cases hx
      · next path hpath =>
        obtain rfl := List.mem_singleton.mp hx
        rw [← hpath]
        exact path_inside h hbyte
    · split at hx
      · cases hx
      · obtain rfl := List.mem_singleton.mp hx
        exact path_inside h (Nat.le_refl _)
  · cases hx

theorem requestSize_cases (packet : Memory) : requestSize packet = 60 ∨ requestSize packet = 72 := by
  unfold requestSize
  split
  · exact .inl rfl
  · exact .inr rfl

/-- The fields that are copied end where the request ends. -/
theorem storeReads_inside (h : PathFits packet length) :
    (∀ x ∈ storeReads s packet locals, x.Inside length) ↔ requestSize packet ≤ length := by
  have hsize := requestSize_cases packet
  constructor
  · intro hall
    have hlast := hall ⟨some (requestSize packet - 4), 4⟩
      (List.mem_append_right _ List.mem_cons_self)
    rw [inside_some] at hlast
    omega
  · intro hle x hx
    have hfield {offset size : Nat} (hfits : offset + size ≤ requestSize packet) :
        Access.Inside length ⟨some offset, size⟩ :=
      inside_some.mpr (.inr (Nat.le_trans hfits hle))
    unfold storeReads at hx
    rcases List.mem_append.mp hx with hx | hx
    · rcases List.mem_append.mp hx with hx | hx
      · simp only [List.mem_cons, List.not_mem_nil, or_false] at hx
        rcases hx with rfl | rfl | rfl | rfl | rfl | rfl <;> exact hfield (by omega)
      · split at hx
        · cases hx
        · simp only [List.mem_cons, List.not_mem_nil, or_false] at hx
          rcases hx with rfl | rfl <;> exact hfield (by omega)
    · simp only [List.mem_cons, List.not_mem_nil, or_false] at hx
      rcases hx with rfl | rfl | rfl
      · exact hfield (by omega)
      · exact path_inside h (Nat.le_refl _)
      · exact attr_inside h

/-- The attribute that is registered is read as far as its lengths reach. -/
theorem registered_iff (hregion : RegionOf received packet) :
    (∀ attr ∈ requestAttr packet, (parseBgpsecPath (received.drop attr)).isSome) ↔
      ((requestAttrLength packet).toNat ≠ 0 →
        requestSize packet + (requestHops packet).toNat * 4 + attrExtent (fun k =>
          packet (requestSize packet + (requestHops packet).toNat * 4 + k)) ≤ received.length ∧
          ¬ TwoBlocks fun k =>
            packet (requestSize packet + (requestHops packet).toNat * 4 + k)) := by
  have hdrop (off : Nat) : RegionOf (received.drop off) fun k => packet (off + k) := by
    intro i hi
    rw [List.length_drop] at hi
    rw [List.getElem?_drop]
    exact hregion (off + i) (by omega)
  have hextent (off : Nat) : (parseBgpsecPath (received.drop off)).isSome ↔
      off + attrExtent (fun k => packet (off + k)) ≤ received.length ∧
        ¬ TwoBlocks fun k => packet (off + k) := by
    have hpos := attrExtent_pos fun k => packet (off + k)
    rw [parse_isSome (hdrop off), List.length_drop]
    refine and_congr_left fun _ => ?_
    omega
  rw [requestAttr_eq]
  constructor
  · intro h hattr
    rw [if_pos hattr] at h
    exact (hextent _).mp (h _ rfl)
  · intro h attr hattr
    split at hattr
    · next hne => exact Option.some.inj hattr ▸ (hextent _).mpr (h hne)
    · cases hattr

/-- What the search for an identifier looks at. -/
theorem mem_visited_iff (id : UInt32) :
    id ∈ Probing.visited (refusedId s packet) (· + 1) (2 ^ 32)
        (generateIdentifier (requestUpdate packet)) ↔
      ∃ i < 2 ^ 32, (∀ j < i, refusedId s packet
        (generateIdentifier (requestUpdate packet) + UInt32.ofNat j) = some true) ∧
        generateIdentifier (requestUpdate packet) + UInt32.ofNat i = id := by
  rw [Probing.mem_visited]
  simp only [IdentityLemmas.next_iterate]

theorem requestId_iff (id : UInt32) :
    requestId s packet = some id ↔
      ∃ i < 2 ^ 32, (∀ j < i, refusedId s packet
        (generateIdentifier (requestUpdate packet) + UInt32.ofNat j) = some true) ∧
        refusedId s packet (generateIdentifier (requestUpdate packet) + UInt32.ofNat i) = some false ∧
        generateIdentifier (requestUpdate packet) + UInt32.ofNat i = id := by
  unfold requestId
  rw [Probing.probe_eq_some]
  simp only [IdentityLemmas.next_iterate]

theorem mem_searchReads {x : Access} :
    x ∈ searchReads s packet ↔
      ∃ i < 2 ^ 32, (∀ j < i, refusedId s packet
        (generateIdentifier (requestUpdate packet) + UInt32.ofNat j) = some true) ∧
        ∃ u, s.stored (generateIdentifier (requestUpdate packet) + UInt32.ofNat i) = some u ∧
          x ∈ collisionReads packet u := by
  unfold searchReads
  rw [List.mem_flatMap]
  constructor
  · rintro ⟨id, hid, hx⟩
    obtain ⟨i, hi, hbefore, rfl⟩ := (mem_visited_iff id).mp hid
    cases hu : s.stored (generateIdentifier (requestUpdate packet) + UInt32.ofNat i) with
    | none =>
      rw [hu] at hx
      cases hx
    | some u =>
      rw [hu] at hx
      exact ⟨i, hi, hbefore, u, hu, hx⟩
  · rintro ⟨i, hi, hbefore, u, hu, hx⟩
    refine ⟨_, (mem_visited_iff _).mpr ⟨i, hi, hbefore, rfl⟩, ?_⟩
    rw [hu]
    exact hx

/-- Every request reads what the identifier takes. -/
theorem mem_requestReads {x : Access} (hx : x ∈ identifierRead packet :: searchReads s packet) :
    x ∈ (requestReads s packet locals).accesses := by
  unfold requestReads
  dsimp only
  split
  · exact hx
  · split
    · exact List.mem_append_left _ hx
    · exact List.mem_append_left _ (List.mem_append_left _ hx)

/-- A request stays in what was received if and only if its lengths agree. -/
theorem requestReads_bounded (hregion : RegionOf received packet) :
    (requestReads s packet locals).Bounded received ↔ LengthsAgree s packet received.length := by
  constructor
  · intro h
    have hfirst : ∀ x ∈ identifierRead packet :: searchReads s packet,
        x.Inside received.length := fun x hx => h.1 x (mem_requestReads hx)
    have hpath : PathFits packet received.length :=
      identifierRead_inside.mp (hfirst _ List.mem_cons_self)
    refine ⟨hpath, fun i hi hbefore => ?_⟩
    cases hu : s.stored (generateIdentifier (requestUpdate packet) + UInt32.ofNat i) with
    | some u =>
      refine (collisionReads_inside hpath u).mp fun x hx => hfirst x (List.mem_cons_of_mem _ ?_)
      exact mem_searchReads.mpr ⟨i, hi, hbefore, u, hu, hx⟩
    | none =>
      -- the identifier is free, the update is stored
      have hid : requestId s packet =
          some (generateIdentifier (requestUpdate packet) + UInt32.ofNat i) := by
        refine (requestId_iff _).mpr ⟨i, hi, hbefore, ?_, rfl⟩
        unfold refusedId
        rw [hu]
      unfold requestReads RequestReads.Bounded at h
      rw [hid] at h
      dsimp only at h
      rw [hu, Option.isSome_none, if_neg Bool.false_ne_true] at h
      refine ⟨(storeReads_inside hpath).mp fun x hx => h.1 x (List.mem_append_right _ hx), ?_⟩
      exact (registered_iff hregion).mp h.2
  · rintro ⟨hpath, hids⟩
    have hfirst : ∀ x ∈ identifierRead packet :: searchReads s packet,
        x.Inside received.length := by
      refine List.forall_mem_cons.mpr ⟨identifierRead_inside.mpr hpath, fun x hx => ?_⟩
      obtain ⟨i, hi, hbefore, u, hu, hx⟩ := mem_searchReads.mp hx
      have hsome := hids i hi hbefore
      rw [hu] at hsome
      exact (collisionReads_inside hpath u).mpr hsome x hx
    have hnone {attr : Nat} {P : Prop} (h : attr ∈ (none : Option Nat)) : P := nomatch h
    unfold requestReads
    dsimp only
    split
    · exact ⟨hfirst, fun _ h => hnone h⟩
    · next id hid =>
      obtain ⟨i, hi, hbefore, -, rfl⟩ := (requestId_iff id).mp hid
      have hend := hids i hi hbefore
      split
      · refine ⟨fun x hx => ?_, fun _ h => hnone h⟩
        rcases List.mem_append.mp hx with hx | hx
        · exact hfirst x hx
        · exact pathReads_inside hpath _ x hx
      · next hfree =>
        rw [Bool.not_eq_true, Option.isSome_eq_false_iff, Option.isNone_iff_eq_none] at hfree
        rw [hfree] at hend
        refine ⟨fun x hx => ?_, (registered_iff hregion).mpr hend.2⟩
        rcases List.mem_append.mp hx with hx | hx
        · rcases List.mem_append.mp hx with hx | hx
          · exact hfirst x hx
          · exact pathReads_inside hpath _ x hx
        · exact (storeReads_inside hpath).mpr hend.1 x hx

theorem readAt_some {m bs : Bytes} {off n : Nat} (h : m.readAt off n = some bs) :
    (m.drop off).take n = bs := by
  unfold readAt at h
  split at h
  · exact Option.some.inj h
  · cases h

/-- The packet begins with the bytes that were received, as many as its header says. -/
theorem receivePacket_region {buffSize : Nat} {stream buffer rest : Bytes} (heap : Memory)
    (h : receivePacket buffSize stream = some (buffer, rest))
    (hlength : basicLength ≤ (packetLength (packetMemory buffer heap)).toNat) :
    (stream.take (packetLength (packetMemory buffer heap)).toNat).length =
        (packetLength (packetMemory buffer heap)).toNat ∧
      RegionOf (stream.take (packetLength (packetMemory buffer heap)).toNat)
        (packetMemory buffer heap) := by
  unfold receivePacket at h
  simp only [Option.bind_eq_bind, Option.bind_eq_some_iff] at h
  obtain ⟨basic, hbasic, more, hmore, h⟩ := h
  obtain ⟨hbuffer, -⟩ := Prod.mk.inj (Option.some.inj h)
  have hlen := (isSome_readAt stream 0 basicLength).mp (by rw [hbasic]; rfl)
  obtain rfl := readAt_some hbasic
  have hlen' := (isSome_readAt stream basicLength _).mp (by rw [hmore]; rfl)
  obtain rfl := readAt_some hmore
  rw [List.drop_zero, Nat.zero_add, ← List.take_add] at *
  -- the header is the start of the stream, also in the buffer
  generalize hpdu : (packetLength fun i => (stream.take basicLength).getD i 0).toNat = pduLength at *
  have hmem (i : Nat) (hi : i < basicLength + (pduLength - basicLength)) :
      packetMemory buffer heap i = stream.getD i 0 := by
    have htake : i < (stream.take (basicLength + (pduLength - basicLength))).length := by
      rw [List.length_take_of_le hlen']
      exact hi
    unfold packetMemory
    rw [← hbuffer, List.getD_eq_getElem?_getD, List.getElem?_append_left htake,
      List.getElem?_take_of_lt hi, List.getD_eq_getElem?_getD, List.getElem?_eq_getElem (by omega)]
    rfl
  have hheader (i : Nat) (hi : i < basicLength) :
      (stream.take basicLength).getD i 0 = packetMemory buffer heap i := by
    rw [hmem i (by omega), List.getD_eq_getElem?_getD, List.getElem?_take_of_lt hi,
      List.getD_eq_getElem?_getD]
  have hsame : (packetLength (packetMemory buffer heap)).toNat = pduLength := by
    rw [← hpdu]
    unfold packetLength Memory.u32
    dsimp only
    rw [hheader 8 (by decide), hheader 9 (by decide), hheader 10 (by decide), hheader 11 (by decide)]
  rw [hsame] at hlength ⊢
  have hall : basicLength + (pduLength - basicLength) = pduLength := Nat.add_sub_of_le hlength
  rw [hall] at hlen' hmem
  have htake : (stream.take pduLength).length = pduLength := List.length_take_of_le hlen'
  refine ⟨htake, fun i hi => ?_⟩
  rw [htake] at hi
  rw [List.getElem?_take_of_lt hi, hmem i hi, List.getElem?_eq_getElem (by omega),
    List.getD_eq_getElem?_getD, List.getElem?_eq_getElem (by omega)]
  rfl

end RequestBoundsLemmas

open RequestBoundsLemmas

/-! ## Results -/

/-- The next packet of a stream, if it is a verify request that is processed: what it reads as AS path
or attribute, and what is copied to the update cache, are bytes that were received. -/
def RequestBounded (s : IdentityState) (initialized : Bool) (locals : Locals) (buffSize : Nat)
    (stream : Bytes) (heap : Memory) : Prop :=
  ∀ p ∈ receivePacket buffSize stream,
    ∀ x ∈ handlePacket s initialized (packetMemory p.1 heap) locals,
      x.Bounded (stream.take (packetLength (packetMemory p.1 heap)).toNat)

/-- The next packet of a stream, if it is a verify request of a client that said hello, has lengths
that agree. -/
def RequestAgrees (s : IdentityState) (initialized : Bool) (buffSize : Nat) (stream : Bytes)
    (heap : Memory) : Prop :=
  ∀ p ∈ receivePacket buffSize stream,
    let packet := packetMemory p.1 heap
    initialized = true → basicLength ≤ (packetLength packet).toNat →
      (packet 0 = pduVerifyV4 ∨ packet 0 = pduVerifyV6) →
      LengthsAgree s packet (packetLength packet).toNat

/-- A verify request stays in the bytes that were received if and only if its lengths agree. -/
theorem request_bounded_iff (s : IdentityState) (initialized : Bool) (locals : Locals) (buffSize : Nat)
    (stream : Bytes) (heap : Memory) :
    RequestBounded s initialized locals buffSize stream heap ↔
      RequestAgrees s initialized buffSize stream heap := by
  unfold RequestBounded RequestAgrees
  refine forall₂_congr fun p hp => ?_
  dsimp only
  unfold handlePacket
  constructor
  · intro h hinit hlength htype
    rw [if_neg (Nat.not_lt.mpr hlength), if_pos htype, if_pos hinit] at h
    obtain ⟨hreceived, hregion⟩ := receivePacket_region heap hp hlength
    have hbounded := (requestReads_bounded hregion).mp (h _ rfl)
    rw [hreceived] at hbounded
    exact hbounded
  · intro h x hx
    split at hx
    · cases hx
    next hlength =>
    split at hx
    · next htype =>
      split at hx
      · next hinit =>
        obtain ⟨hreceived, hregion⟩ := receivePacket_region heap hp (Nat.not_lt.mp hlength)
        obtain rfl := Option.some.inj hx
        refine (requestReads_bounded hregion).mpr ?_
        rw [hreceived]
        exact h hinit (Nat.not_lt.mp hlength) htype
      · cases hx
    · cases hx

/-- An IPv4 request of 60 bytes that announces one hop. -/
def oneHopMissing : Bytes :=
  [3, 1, 0, 0, 0, 0, 2, 1] ++ be32 60 ++ [3, 3, 3, 24] ++ be32 0 ++ [10, 0, 0, 0] ++ be32 65001 ++
    be32 0 ++ be16 1 ++ be16 0 ++ List.replicate 24 0

/-- The first request of a server: the hop is read behind the 60 bytes that were received. -/
theorem request_unbounded :
    ¬ RequestBounded (initIdentityState 1 (by decide) 0
        ⟨fun _ _ _ => .valid, fun _ => SrxResult.valid.code⟩ fun _ => (announcement 0 0).pdu.update)
      true ⟨.asSequence, .customer⟩ basicLength oneHopMissing fun _ => 0 := by
  intro h
  have hreceive : receivePacket basicLength oneHopMissing = some (oneHopMissing, []) := by decide
  have hhandle {s : IdentityState} {locals : Locals} :
      handlePacket s true (packetMemory oneHopMissing fun _ => 0) locals =
        some (requestReads s (packetMemory oneHopMissing fun _ => 0) locals) := by
    unfold handlePacket
    rw [if_neg (by decide), if_pos (by decide), if_pos rfl]
  have hfits := identifierRead_inside.mp
    ((h _ hreceive _ hhandle).1 _ (mem_requestReads List.mem_cons_self))
  exact absurd hfits (by unfold PathFits; decide)

end SrxSuite.Server

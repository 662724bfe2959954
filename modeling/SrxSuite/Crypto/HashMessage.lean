import SrxSuite.Lib.Bytes
import SrxSuite.Lib.Loop
import SrxSuite.Shared.Defs

/-!
# BGPsec hash messages

The model of `sca_generateHashMessage` and `sca_generateOriginHashMessage`
(`srxcryptoapi.c`). The attribute is read through offsets into its memory and the message
is written through offsets into its buffer. Every result is an `Option`: `none` stands for
an access outside of the attribute, the NLRI or the buffer.

`BgpsecPath` is the abstract attribute, `BgpsecPath.encode` its bytes on the wire and
`rfcMessage` the octet sequence RFC 8205 hashes. The results:
1. `generateHashMessage_encode`: on a well-formed attribute the message is the buffer
   `messageBuffer`, with the pointers `slicePtrs`.
2. `generateHashMessage_slices`: its slices are the RFC 8205 sequences.
-/

namespace SrxSuite.Crypto

open Bytes

/-! ## The code -/

/-- `SCA_BGP_UPD_A_FLAGS_EXT_LENGTH`. -/
def extLengthFlag : UInt8 := 0x10

/-- `SCA_Prefix`; `afi` is in network format. -/
structure ScaPrefix where
  afi : UInt16
  safi : UInt8
  length : UInt8
  ip : Vector UInt8 16

/-- The memory of the packed struct. -/
def ScaPrefix.memory (nlri : ScaPrefix) : Bytes :=
  le16 nlri.afi ++ [nlri.safi, nlri.length] ++ nlri.ip.toList

/-- The length of the prefix in bytes. -/
def ScaPrefix.byteLength (nlri : ScaPrefix) : Nat := (nlri.length.toNat + 7) / 8

/-- `SCA_HashMessagePtr`: offsets into the buffer of the message, `none` for NULL. -/
structure HashMessagePtr where
  signaturePtr : Option Nat
  hashMessagePtr : Nat
  hashMessageLength : UInt16
  deriving DecidableEq, Repr

/-- `SCA_HashMessage`. -/
structure HashMessage where
  ownedByAPI : Bool
  bufferSize : UInt32
  buffer : Bytes
  segmentCount : UInt16
  hashMessageValPtr : List HashMessagePtr
  deriving DecidableEq, Repr

/-- `SCA_BGPSecValidationData`; `myAS` is in network format. -/
structure ValidationData where
  myAS : UInt32
  status : Status
  bgpsecPathAttr : Option Bytes
  nlri : Option ScaPrefix
  hashMessage0 : Option HashMessage
  hashMessage1 : Option HashMessage

/-- The length of the attribute value and the offset where the value starts. -/
def attrLength (attr : Bytes) : Option (UInt16 × Nat) := do
  let flags ← attr[0]?
  if flags &&& extLengthFlag = 0 then
    let len ← attr[2]?
    some (len.toUInt16, 3)
  else
    let len ← attr.be16At 2
    some (len, 4)

/-- How the search for a signature block ends. -/
inductive BlockSearch
  | found (sigSeg : Nat) (blockLength : UInt16)
  | missing
  | corrupt
  deriving DecidableEq, Repr

/-- The loop that looks for the signature block of an algorithm. -/
def findBlock (attr : Bytes) (algoID : UInt8) (ptr : Nat) (remainder : UInt16) :
    Option BlockSearch :=
  if remainder = 0 then some .missing
  else
    match attr.be16At ptr with
    | none => none
    | some blockLength =>
      if _h : remainder < blockLength ∨ blockLength = 0 then some .corrupt
      else
        match attr[ptr + 2]? with
        | none => none
        | some id =>
          if id ≠ algoID then
            findBlock attr algoID (ptr + blockLength.toNat) (remainder - blockLength)
          else some (.found (ptr + 3) blockLength)
termination_by remainder.toNat
decreasing_by
  have hle : blockLength ≤ remainder := UInt16.not_lt.mp fun hlt => _h (.inl hlt)
  have hpos : blockLength.toNat ≠ 0 := fun h0 => _h (.inr (UInt16.toNat_inj.mp h0))
  rw [UInt16.toNat_sub_of_le _ _ hle]
  have := UInt16.le_iff_toNat_le.mp hle
  omega

/-- The local variables of the segment loop. The code advances `buffPtr` together with
`used`, so `used` is the offset of `buffPtr`. -/
structure FillState where
  buffer : Bytes
  used : Nat
  sigPtr : Nat
  pathPtr : Nat
  valPtrs : List HashMessagePtr

/-- The body of the segment loop: the signature segment, then the path segment. In the
place of the first path segment stands the own AS, behind two bytes left at zero. -/
def fillSegment (attr : Bytes) (myAS : UInt32) (size segment : Nat) (s : FillState) :
    Option FillState := do
  let siglen ← attr.be16At (s.sigPtr + 20)
  let dataLength := 22 + siglen.toNat
  let sigSeg ← attr.readAt s.sigPtr dataLength
  let buffer ← s.buffer.writeAt s.used sigSeg
  let asnPtr := s.used + dataLength + 2
  let valPtr : HashMessagePtr := ⟨some s.used, asnPtr, UInt16.ofNat (size - asnPtr)⟩
  if segment ≠ 0 then
    let pathSeg ← attr.readAt s.pathPtr 6
    let buffer ← buffer.writeAt (s.used + dataLength) pathSeg
    some ⟨buffer, asnPtr + 4, s.sigPtr + dataLength, s.pathPtr + 6, s.valPtrs ++ [valPtr]⟩
  else
    let buffer ← buffer.writeAt asnPtr (le32 myAS)
    some ⟨buffer, asnPtr + 4, s.sigPtr + dataLength, s.pathPtr, s.valPtrs ++ [valPtr]⟩

/-- The part of `sca_generateHashMessage` that builds the message once the signature block
is found. -/
def fillMessage (attr : Bytes) (myAS : UInt32) (nlri : ScaPrefix) (algoID : UInt8)
    (segments : Nat) (pSeg sigSeg : Nat) (blockLength : UInt16) :
    Option (HashMessage × Nat) := do
  let prefixBLen := nlri.byteLength
  let size := 4 + (segments + 1) * 6 + blockLength.toNat + 1 + 4 + prefixBLen - 3
  let s ← Loop.iterate (fillSegment attr myAS size) segments 0
    ⟨List.replicate size 0, 4, sigSeg, pSeg, []⟩
  let origin ← attr.readAt s.pathPtr 6
  let buffer ← s.buffer.writeAt s.used origin
  let buffer ← buffer.writeAt (s.used + 6) [algoID]
  let nlriBytes ← nlri.memory.readAt 0 (prefixBLen + 4)
  let buffer ← buffer.writeAt (s.used + 7) nlriBytes
  some (⟨false, UInt32.ofNat size, buffer, UInt16.ofNat segments, s.valPtrs⟩,
    s.used + 7 + (prefixBLen + 4))

/-- `sca_generateHashMessage`: the return value, the status and the changed data. -/
def generateHashMessage (data : ValidationData) (algoID : UInt8) :
    Option (Nat × Status × ValidationData) := do
  match data.bgpsecPathAttr with
  | none => some (0, Status.errNoData, data)
  | some attr =>
    if data.hashMessage0.isSome then some (1, Status.infoUser1, data)
    else
      let (remainder, secPath) ← attrLength attr
      let secPathLen ← attr.be16At secPath
      -- `remainder` shrinks by the header and by `secPathLen` without the header.
      match ← findBlock attr algoID (secPath + secPathLen.toNat) (remainder - secPathLen) with
      | .found sigSeg blockLength =>
        let nlri ← data.nlri
        let (msg, used) ← fillMessage attr data.myAS nlri algoID (secPathLen.toNat / 6)
          (secPath + 2) sigSeg blockLength
        some (used, Status.ok, { data with hashMessage0 := some msg, hashMessage1 := none })
      | _ =>
        some (0, Status.errUser1, { data with hashMessage0 := none, hashMessage1 := none })

/-- `SCA_BGPSEC_SecurePathSegment`; `asn` is in network format. -/
structure ScaPathSegment where
  pCount : UInt8
  flags : UInt8
  asn : UInt32

/-- The memory of the packed struct. -/
def ScaPathSegment.memory (seg : ScaPathSegment) : Bytes :=
  [seg.pCount, seg.flags] ++ le32 seg.asn

/-- `sca_generateOriginHashMessage`. -/
def generateOriginHashMessage (targetAS : UInt32) (spSeg : ScaPathSegment) (nlri : ScaPrefix)
    (algoID : UInt8) : Option HashMessage := do
  let nlriLen := nlri.byteLength + 4
  let bLen := 4 + 6 + 1 + nlriLen
  let buffer ← Bytes.writeAt (List.replicate bLen 0) 0 (le32 targetAS)
  let buffer ← buffer.writeAt 4 spSeg.memory
  let buffer ← buffer.writeAt 10 [algoID]
  let nlriBytes ← nlri.memory.readAt 0 nlriLen
  let buffer ← buffer.writeAt 11 nlriBytes
  some ⟨true, UInt32.ofNat bLen, buffer, 1, [⟨none, 0, UInt16.ofNat bLen⟩]⟩

/-! ## Well-formed attributes and the RFC 8205 sequence -/

/-- A secure path segment. -/
structure SecurePathSegment where
  pCount : UInt8
  flags : UInt8
  asn : UInt32

def SecurePathSegment.encode (seg : SecurePathSegment) : Bytes :=
  [seg.pCount, seg.flags] ++ be32 seg.asn

/-- A signature segment; the length of the signature fits its field. -/
structure SignatureSegment where
  ski : Vector UInt8 20
  signature : Bytes
  sigLen : signature.length < 65536

def SignatureSegment.encode (seg : SignatureSegment) : Bytes :=
  seg.ski.toList ++ be16 (UInt16.ofNat seg.signature.length) ++ seg.signature

/-- A signature block. -/
structure SignatureBlock where
  algoID : UInt8
  segments : List SignatureSegment

/-- The block length: 3 plus the lengths of the signature segments. -/
def SignatureBlock.length (block : SignatureBlock) : Nat :=
  3 + (block.segments.flatMap SignatureSegment.encode).length

def SignatureBlock.encode (block : SignatureBlock) : Bytes :=
  be16 (UInt16.ofNat block.length) ++ [block.algoID] ++
    block.segments.flatMap SignatureSegment.encode

/-- The value of a BGPsec_PATH attribute: the secure path with its length field, then the
signature blocks. -/
def encodeValue (path : List SecurePathSegment) (blocks : List SignatureBlock) : Bytes :=
  be16 (UInt16.ofNat (2 + 6 * path.length)) ++ path.flatMap SecurePathSegment.encode ++
    blocks.flatMap SignatureBlock.encode

/-- A well-formed BGPsec_PATH attribute: one or two signature blocks, in each of them one
signature segment for every path segment, and a value whose length fits the length field
that the flags announce. -/
structure BgpsecPath where
  flags : UInt8
  typeCode : UInt8
  path : List SecurePathSegment
  blocks : List SignatureBlock
  blockCount : blocks.length = 1 ∨ blocks.length = 2
  signed : ∀ block ∈ blocks, block.segments.length = path.length
  fits : (encodeValue path blocks).length < if flags &&& extLengthFlag = 0 then 256 else 65536

/-- The bytes of the attribute. -/
def BgpsecPath.encode (attr : BgpsecPath) : Bytes :=
  let value := encodeValue attr.path attr.blocks
  let lengthField := if attr.flags &&& extLengthFlag = 0 then [UInt8.ofNat value.length]
    else be16 (UInt16.ofNat value.length)
  [attr.flags, attr.typeCode] ++ lengthField ++ value

/-- The signature block that is used for an algorithm. -/
def BgpsecPath.blockOf (attr : BgpsecPath) (algoID : UInt8) : Option SignatureBlock :=
  attr.blocks.find? fun block => block.algoID == algoID

/-- An NLRI; the prefix is not longer than an IPv6 address. -/
structure Nlri where
  afi : UInt16
  safi : UInt8
  length : UInt8
  ip : Vector UInt8 16
  width : length.toNat ≤ 128

/-- AFI, SAFI, prefix length and the prefix bytes. -/
def Nlri.encode (nlri : Nlri) : Bytes :=
  be16 nlri.afi ++ [nlri.safi, nlri.length] ++ nlri.ip.toList.take ((nlri.length.toNat + 7) / 8)

/-- The struct the API is given for an NLRI. -/
def Nlri.toSca (nlri : Nlri) : ScaPrefix := ⟨htons nlri.afi, nlri.safi, nlri.length, nlri.ip⟩

/-- Signature segments and path segments in turn, up to the path segment of the origin,
which no signature segment precedes. -/
def interleave : List SignatureSegment → List SecurePathSegment → Bytes
  | sig :: sigs, seg :: path => sig.encode ++ seg.encode ++ interleave sigs path
  | _, seg :: _ => seg.encode
  | _, [] => []

/-- The octets RFC 8205 hashes for the newest signature of `path`: the target AS, then the
signature segments older than that signature in turn with the path segments, then the
algorithm and the NLRI. -/
def rfcMessage (target : UInt32) (sigs : List SignatureSegment)
    (path : List SecurePathSegment) (algoID : UInt8) (nlri : Nlri) : Bytes :=
  be32 target ++ interleave sigs path ++ [algoID] ++ nlri.encode

namespace HashMessageLemmas

/-! ## Lengths -/

@[simp] theorem length_pathSegment (seg : SecurePathSegment) : seg.encode.length = 6 := rfl

@[simp] theorem length_signatureSegment (sig : SignatureSegment) :
    sig.encode.length = 22 + sig.signature.length := by
  simp only [SignatureSegment.encode, List.length_append, Vector.length_toList, length_be16]

@[simp] theorem length_flatMap_path (path : List SecurePathSegment) :
    (path.flatMap SecurePathSegment.encode).length = 6 * path.length := by
  induction path with
  | nil => rfl
  | cons seg path ih => simp [ih]; omega

@[simp] theorem length_block (block : SignatureBlock) :
    block.encode.length = block.length := by
  simp only [SignatureBlock.encode, SignatureBlock.length, List.length_append, length_be16,
    List.length_cons, List.length_nil]

theorem length_encodeValue (path : List SecurePathSegment) (blocks : List SignatureBlock) :
    (encodeValue path blocks).length =
      2 + 6 * path.length + (blocks.flatMap SignatureBlock.encode).length := by
  simp only [encodeValue, List.length_append, length_be16, length_flatMap_path]

theorem Nlri.byteLength_le (nlri : Nlri) : nlri.toSca.byteLength ≤ 16 := by
  have := nlri.width
  simp only [Nlri.toSca, ScaPrefix.byteLength]
  omega

theorem Nlri.length_encode (nlri : Nlri) :
    nlri.encode.length = 4 + nlri.toSca.byteLength := by
  have := nlri.width
  simp only [Nlri.encode, Nlri.toSca, ScaPrefix.byteLength, List.length_append, length_be16,
    List.length_cons, List.length_nil, List.length_take, Vector.length_toList]
  omega

/-- The struct holds the encoded NLRI in its first bytes. -/
theorem Nlri.readAt_memory (nlri : Nlri) :
    nlri.toSca.memory.readAt 0 (nlri.toSca.byteLength + 4) = some nlri.encode := by
  have hsplit : nlri.toSca.memory =
      nlri.encode ++ nlri.ip.toList.drop ((nlri.length.toNat + 7) / 8) := by
    simp [ScaPrefix.memory, Nlri.toSca, Nlri.encode, le16_htons]
  have hlen : nlri.toSca.byteLength + 4 = nlri.encode.length := by
    rw [Nlri.length_encode, Nat.add_comm]
  rw [hlen]
  exact HoldsAt.readAt_eq ⟨[], _, by simpa using hsplit, rfl⟩

/-! ## Finding the block -/

theorem toNat_ofNat16 {n : Nat} (h : n < 65536) : (UInt16.ofNat n).toNat = n :=
  UInt16.toNat_ofNat_of_lt' h

theorem value_fits (attr : BgpsecPath) : (encodeValue attr.path attr.blocks).length < 65536 := by
  have hfits := attr.fits
  split at hfits
  · exact Nat.lt_trans hfits (by decide)
  · exact hfits

theorem path_fits (attr : BgpsecPath) : attr.path.length < 65536 := by
  have hvalue := value_fits attr
  rw [length_encodeValue] at hvalue
  omega

/-- The length and the start of a value that fits its length field. -/
theorem attrLength_value (flags typeCode : UInt8) (value : Bytes)
    (hfits : value.length < if flags &&& extLengthFlag = 0 then 256 else 65536) :
    ∃ header : Bytes, [flags, typeCode] ++
        (if flags &&& extLengthFlag = 0 then [UInt8.ofNat value.length]
          else be16 (UInt16.ofNat value.length)) ++ value = header ++ value ∧
      attrLength (header ++ value) = some (UInt16.ofNat value.length, header.length) := by
  refine ⟨_, rfl, ?_⟩
  by_cases hext : flags &&& extLengthFlag = 0
  · rw [if_pos hext] at hfits
    have hlen : (UInt8.ofNat value.length).toUInt16 = UInt16.ofNat value.length := by
      rw [← UInt16.toNat_inj, UInt8.toNat_toUInt16, UInt8.toNat_ofNat', toNat_ofNat16 (by omega)]
      omega
    simp [attrLength, hext, hlen]
  · have hall := holdsAt_self ([flags, typeCode] ++ be16 (UInt16.ofNat value.length) ++ value)
    have hlen := hall.left.right.be16At_eq
    simp only [List.length_cons, List.length_nil, List.cons_append, List.nil_append] at hlen
    simp [attrLength, hext, hlen]

theorem attrLength_encode (attr : BgpsecPath) :
    ∃ secPath, attrLength attr.encode =
        some (UInt16.ofNat (encodeValue attr.path attr.blocks).length, secPath) ∧
      HoldsAt attr.encode secPath (encodeValue attr.path attr.blocks) := by
  obtain ⟨header, hbytes, hlength⟩ :=
    attrLength_value attr.flags attr.typeCode (encodeValue attr.path attr.blocks) attr.fits
  have hencode : attr.encode = header ++ encodeValue attr.path attr.blocks := hbytes
  exact ⟨header.length, by rw [hencode, hlength], header, [], by rw [hencode, List.append_nil], rfl⟩

/-- The search visits the blocks in order and stops at the first of the algorithm. -/
theorem findBlock_blocks {mem : Bytes} (algoID : UInt8) (blocks : List SignatureBlock)
    {ptr : Nat} {remainder : UInt16}
    (hmem : HoldsAt mem ptr (blocks.flatMap SignatureBlock.encode))
    (hrem : remainder.toNat = (blocks.flatMap SignatureBlock.encode).length) :
    match blocks.find? fun block => block.algoID == algoID with
    | some block => ∃ sigSeg blockLength,
        findBlock mem algoID ptr remainder = some (.found sigSeg blockLength) ∧
        blockLength.toNat = block.length ∧
        HoldsAt mem sigSeg (block.segments.flatMap SignatureSegment.encode)
    | none => findBlock mem algoID ptr remainder = some .missing := by
  induction blocks generalizing ptr remainder with
  | nil =>
    have hzero : remainder = 0 := UInt16.toNat_inj.mp (by simpa using hrem)
    simp [findBlock, hzero]
  | cons block blocks ih =>
    simp only [List.flatMap_cons] at hmem hrem
    rw [List.length_append, length_block] at hrem
    have hpos : 3 ≤ block.length := by simp [SignatureBlock.length]
    have hlt := remainder.toNat_lt
    have hlen : (UInt16.ofNat block.length).toNat = block.length := toNat_ofNat16 (by omega)
    have hread : mem.be16At ptr = some (UInt16.ofNat block.length) :=
      hmem.left.left.left.be16At_eq
    have hid : mem[ptr + 2]? = some block.algoID := hmem.left.left.right.getElem?_eq
    have hne : remainder ≠ 0 := by
      intro h
      simp [h] at hrem
      omega
    have hok : ¬ (remainder < UInt16.ofNat block.length ∨ UInt16.ofNat block.length = 0) := by
      rw [UInt16.lt_iff_toNat_lt, ← UInt16.toNat_inj, hlen]
      simp
      omega
    rw [findBlock, if_neg hne]
    simp only [hread, dif_neg hok, hid]
    by_cases halgo : block.algoID = algoID
    · have hsig := hmem.left.right
      rw [List.length_append, length_be16] at hsig
      simp only [halgo, List.find?_cons, beq_self_eq_true, ne_eq, not_true_eq_false, if_false]
      exact ⟨_, _, rfl, hlen, hsig⟩
    · have hnext := hmem.right
      rw [length_block] at hnext
      have hrest : (remainder - UInt16.ofNat block.length).toNat =
          (blocks.flatMap SignatureBlock.encode).length := by
        rw [UInt16.toNat_sub_of_le _ _ (UInt16.not_lt.mp fun h => hok (.inl h)), hlen]
        omega
      simp only [List.find?_cons, beq_eq_false_iff_ne.mpr halgo, ne_eq, halgo,
        not_false_eq_true, if_true, hlen]
      exact ih hnext hrest

/-! ## The segment loop -/

/-- The pointers the loop records for a signature segment that it writes at `used`. -/
def slicePtr (size used : Nat) (sig : SignatureSegment) : HashMessagePtr :=
  let asnPtr := used + sig.encode.length + 2
  ⟨some used, asnPtr, UInt16.ofNat (size - asnPtr)⟩

def slicePtrs (size : Nat) : Nat → List SignatureSegment → List HashMessagePtr
  | _, [] => []
  | used, sig :: sigs =>
    slicePtr size used sig :: slicePtrs size (used + sig.encode.length + 6) sigs

/-- The state of the loop when `w` is written and `k` bytes are still zero. -/
def filled (w : Bytes) (k sigPtr pathPtr : Nat) (ptrs : List HashMessagePtr) : FillState :=
  ⟨w ++ List.replicate k 0, w.length, sigPtr, pathPtr, ptrs⟩

/-- Signature segments and path segments in turn. -/
def pairs (sigs : List SignatureSegment) (path : List SecurePathSegment) : Bytes :=
  (List.zipWith (fun sig seg => sig.encode ++ seg.encode) sigs path).flatten

@[simp] theorem pairs_cons (sig : SignatureSegment) (sigs : List SignatureSegment)
    (seg : SecurePathSegment) (path : List SecurePathSegment) :
    pairs (sig :: sigs) (seg :: path) = sig.encode ++ seg.encode ++ pairs sigs path := rfl

theorem interleave_origin (origin : SecurePathSegment) {sigs : List SignatureSegment}
    {path : List SecurePathSegment} (h : sigs.length = path.length) :
    interleave sigs (path ++ [origin]) = pairs sigs path ++ origin.encode := by
  induction sigs generalizing path with
  | nil =>
    obtain rfl := List.length_eq_zero_iff.mp h.symm
    rfl
  | cons sig sigs ih =>
    obtain ⟨seg, path, rfl⟩ := List.exists_cons_of_length_eq_add_one h.symm
    simp only [List.cons_append, interleave, pairs_cons, ih (by simpa using h),
      List.append_assoc]

section Loop

variable {mem : Bytes} {myAS : UInt32} {size : Nat}

/-- The signature segment at `sigPtr`, as the loop body reads it. -/
theorem read_signature {sigPtr : Nat} {sig : SignatureSegment}
    (h : HoldsAt mem sigPtr sig.encode) :
    ∃ siglen, mem.be16At (sigPtr + 20) = some siglen ∧
      22 + siglen.toNat = sig.encode.length ∧
      mem.readAt sigPtr sig.encode.length = some sig.encode := by
  have hlen : mem.be16At (sigPtr + 20) = some (UInt16.ofNat sig.signature.length) := by
    have hfield := h.left.right.be16At_eq
    rwa [Vector.length_toList] at hfield
  refine ⟨_, hlen, ?_, h.readAt_eq⟩
  rw [length_signatureSegment, toNat_ofNat16 sig.sigLen]

/-- One iteration for a path segment behind the first. -/
theorem fillSegment_path {segment : Nat} (hseg : segment ≠ 0) {sig : SignatureSegment}
    {seg : SecurePathSegment} {w : Bytes} {k sigPtr pathPtr : Nat} {ptrs : List HashMessagePtr}
    (hsig : HoldsAt mem sigPtr sig.encode) (hpath : HoldsAt mem pathPtr seg.encode) :
    fillSegment mem myAS size segment
        (filled w (sig.encode.length + (6 + k)) sigPtr pathPtr ptrs) =
      some (filled (w ++ sig.encode ++ seg.encode) k (sigPtr + sig.encode.length) (pathPtr + 6)
        (ptrs ++ [slicePtr size w.length sig])) := by
  obtain ⟨siglen, hlen, hdata, hread⟩ := read_signature hsig
  have hw := writeAt_zeros (w ++ sig.encode) seg.encode k
  rw [List.length_append, length_pathSegment] at hw
  have hp := hpath.readAt_eq
  rw [length_pathSegment] at hp
  simp only [fillSegment, filled, slicePtr, hlen, hdata, hread, writeAt_zeros, hp, hw,
    if_pos hseg, Option.bind_eq_bind, Option.bind_some, List.length_append,
    length_pathSegment]

/-- The iteration for the own AS. -/
theorem fillSegment_own {target : UInt32} {sig : SignatureSegment} {w : Bytes}
    {k sigPtr pathPtr : Nat} {ptrs : List HashMessagePtr} (hsig : HoldsAt mem sigPtr sig.encode) :
    fillSegment mem (htonl target) size 0
        (filled w (sig.encode.length + (6 + k)) sigPtr pathPtr ptrs) =
      some (filled (w ++ sig.encode ++ SecurePathSegment.encode ⟨0, 0, target⟩) k
        (sigPtr + sig.encode.length) pathPtr (ptrs ++ [slicePtr size w.length sig])) := by
  obtain ⟨siglen, hlen, hdata, hread⟩ := read_signature hsig
  -- The two bytes before the AS keep the zeros of the fresh buffer.
  have hw := writeAt_zeros (w ++ sig.encode ++ [0, 0]) (be32 target) k
  simp only [List.length_append, length_be32, List.length_cons, List.length_nil] at hw
  have hzeros : w ++ sig.encode ++ List.replicate (6 + k) 0 =
      w ++ sig.encode ++ [0, 0] ++ List.replicate (4 + k) 0 := by
    simp [show 6 + k = 4 + k + 1 + 1 by omega, List.replicate_succ]
  simp only [fillSegment, filled, slicePtr, hlen, hdata, hread, writeAt_zeros, hzeros,
    le32_htonl, hw, ne_eq, not_true_eq_false, if_false, Option.bind_eq_bind, Option.bind_some]
  simp [SecurePathSegment.encode]
  omega

/-- The iterations for the path segments behind the first. -/
theorem iterate_path {sigs : List SignatureSegment} {path : List SecurePathSegment}
    (hlen : sigs.length = path.length) {segment : Nat} (hseg : segment ≠ 0) {w : Bytes}
    {k sigPtr pathPtr : Nat} {ptrs : List HashMessagePtr}
    (hsig : HoldsAt mem sigPtr (sigs.flatMap SignatureSegment.encode))
    (hpath : HoldsAt mem pathPtr (path.flatMap SecurePathSegment.encode)) :
    Loop.iterate (fillSegment mem myAS size) sigs.length segment
        (filled w ((pairs sigs path).length + k) sigPtr pathPtr ptrs) =
      some (filled (w ++ pairs sigs path) k
        (sigPtr + (sigs.flatMap SignatureSegment.encode).length) (pathPtr + 6 * path.length)
        (ptrs ++ slicePtrs size w.length sigs)) := by
  induction sigs generalizing path segment w sigPtr pathPtr ptrs with
  | nil =>
    obtain rfl := List.length_eq_zero_iff.mp hlen.symm
    simp [pairs, slicePtrs]
  | cons sig sigs ih =>
    obtain ⟨seg, path, rfl⟩ := List.exists_cons_of_length_eq_add_one hlen.symm
    simp only [List.flatMap_cons] at hsig hpath
    have hroom : (pairs (sig :: sigs) (seg :: path)).length + k =
        sig.encode.length + (6 + ((pairs sigs path).length + k)) := by
      simp only [pairs_cons, List.length_append, length_pathSegment]
      omega
    have hnext := hpath.right
    rw [length_pathSegment] at hnext
    rw [List.length_cons, hroom, Loop.iterate_succ (fillSegment_path hseg hsig.left hpath.left),
      ih (by simpa using hlen) (Nat.add_one_ne_zero segment) hsig.right hnext]
    simp only [pairs_cons, slicePtrs, List.flatMap_cons, List.length_append, List.length_cons,
      List.append_assoc, List.singleton_append, length_pathSegment, Nat.add_assoc,
      Nat.mul_add, Nat.add_comm 6]

/-- All iterations, on a buffer whose first four bytes are skipped. -/
theorem iterate_segments (size : Nat) {target : UInt32} {sig : SignatureSegment}
    {sigs : List SignatureSegment} {path : List SecurePathSegment}
    (hlen : sigs.length = path.length) {k sigPtr pathPtr : Nat}
    (hsig : HoldsAt mem sigPtr (sig.encode ++ sigs.flatMap SignatureSegment.encode))
    (hpath : HoldsAt mem pathPtr (path.flatMap SecurePathSegment.encode)) :
    Loop.iterate (fillSegment mem (htonl target) size) (sigs.length + 1) 0
        (filled (List.replicate 4 0)
          (sig.encode.length + (6 + ((pairs sigs path).length + k))) sigPtr pathPtr []) =
      some (filled (List.replicate 4 0 ++ pairs (sig :: sigs) (⟨0, 0, target⟩ :: path)) k
        (sigPtr + (sig.encode.length + (sigs.flatMap SignatureSegment.encode).length))
        (pathPtr + 6 * path.length) (slicePtrs size 4 (sig :: sigs))) := by
  rw [Loop.iterate_succ (fillSegment_own hsig.left),
    iterate_path hlen Nat.one_ne_zero hsig.right hpath]
  simp only [slicePtrs, pairs_cons, List.length_append, List.length_replicate,
    length_pathSegment, List.append_assoc, List.nil_append, List.singleton_append,
    Nat.add_assoc]

end Loop

/-! ## The message -/

/-- The buffer of a message: four bytes for the next target AS, then the own AS in the place
of the newest path segment. -/
def messageBuffer (target : UInt32) (sigs : List SignatureSegment)
    (path : List SecurePathSegment) (algoID : UInt8) (nlri : Nlri) : Bytes :=
  List.replicate 4 0 ++ interleave sigs (⟨0, 0, target⟩ :: path) ++ [algoID] ++ nlri.encode

theorem length_interleave {sigs : List SignatureSegment} {path : List SecurePathSegment}
    (h : path.length = sigs.length + 1) :
    (interleave sigs path).length =
      (sigs.flatMap SignatureSegment.encode).length + 6 * path.length := by
  induction sigs generalizing path with
  | nil =>
    obtain ⟨seg, rfl⟩ := List.length_eq_one_iff.mp h
    rfl
  | cons sig sigs ih =>
    obtain ⟨seg, path, rfl⟩ := List.exists_cons_of_length_eq_add_one h
    simp only [interleave, List.length_append, ih (by simpa using h), List.flatMap_cons,
      length_pathSegment, List.length_cons]
    omega

theorem length_messageBuffer (target : UInt32) (algoID : UInt8) (nlri : Nlri)
    {sigs : List SignatureSegment} {path : List SecurePathSegment}
    (h : sigs.length = path.length) :
    (messageBuffer target sigs path algoID nlri).length =
      4 + (sigs.flatMap SignatureSegment.encode).length + 6 * (path.length + 1) + 5 +
        nlri.toSca.byteLength := by
  have hpath : (SecurePathSegment.mk 0 0 target :: path).length = sigs.length + 1 := by
    rw [List.length_cons, h]
  simp only [messageBuffer, List.length_append, List.length_replicate, List.length_cons,
    List.length_nil, Nlri.length_encode, length_interleave hpath]
  omega

/-- The message for a secure path and its signature segments. -/
def messageOf (target : UInt32) (sigs : List SignatureSegment) (path : List SecurePathSegment)
    (algoID : UInt8) (nlri : Nlri) : HashMessage :=
  let buffer := messageBuffer target sigs path algoID nlri
  ⟨false, UInt32.ofNat buffer.length, buffer, UInt16.ofNat path.length,
    slicePtrs buffer.length 4 sigs⟩

theorem fillMessage_encode {mem : Bytes} {target : UInt32} {nlri : Nlri} {algoID : UInt8}
    {pSeg sigSeg : Nat} {blockLength : UInt16} {sigs : List SignatureSegment}
    {path : List SecurePathSegment} (hn : path ≠ []) (hlen : sigs.length = path.length)
    (hpath : HoldsAt mem pSeg (path.flatMap SecurePathSegment.encode))
    (hsig : HoldsAt mem sigSeg (sigs.flatMap SignatureSegment.encode))
    (hblock : blockLength.toNat = 3 + (sigs.flatMap SignatureSegment.encode).length) :
    fillMessage mem (htonl target) nlri.toSca algoID path.length pSeg sigSeg blockLength =
      some (messageOf target sigs path algoID nlri,
        (messageBuffer target sigs path algoID nlri).length) := by
  obtain ⟨front, origin, rfl⟩ : ∃ front origin, path = front ++ [origin] :=
    ⟨_, _, (List.dropLast_concat_getLast hn).symm⟩
  obtain ⟨sig, sigs, rfl⟩ := List.exists_cons_of_length_eq_add_one (by simpa using hlen)
  have hlen' : sigs.length = front.length := by simpa using hlen
  simp only [List.flatMap_cons, List.flatMap_append, List.flatMap_nil, List.append_nil]
    at hsig hpath
  have hbuffer : messageBuffer target (sig :: sigs) (front ++ [origin]) algoID nlri =
      List.replicate 4 0 ++ pairs (sig :: sigs) (⟨0, 0, target⟩ :: front) ++ origin.encode ++
        [algoID] ++ nlri.encode := by
    simp only [messageBuffer, interleave, interleave_origin origin hlen', pairs_cons,
      List.append_assoc]
  have hsize : 4 + ((front ++ [origin]).length + 1) * 6 + blockLength.toNat + 1 + 4 +
      nlri.toSca.byteLength - 3 =
        (messageBuffer target (sig :: sigs) (front ++ [origin]) algoID nlri).length := by
    rw [length_messageBuffer _ _ _ hlen, hblock]
    omega
  simp only [fillMessage, hsize, messageOf, Option.bind_eq_bind]
  generalize hbuf : messageBuffer target (sig :: sigs) (front ++ [origin]) algoID nlri = buffer
  rw [hbuf] at hbuffer
  -- The zeros of the fresh buffer, cut where the loop and the three writes after it end.
  have hstart : (⟨List.replicate buffer.length 0, 4, sigSeg, pSeg, []⟩ : FillState) =
      filled (List.replicate 4 0) (sig.encode.length + (6 + ((pairs sigs front).length +
        (origin.encode.length + ([algoID].length + (nlri.encode.length + 0))))))
        sigSeg pSeg [] := by
    rw [filled, List.replicate_append_replicate, List.length_replicate, hbuffer]
    simp only [pairs_cons, List.length_append, List.length_replicate, length_pathSegment,
      Nat.add_assoc, Nat.add_zero]
  have horigin := hpath.right.readAt_eq
  rw [length_flatMap_path, length_pathSegment] at horigin
  rw [hstart, ← hlen, List.length_cons, iterate_segments buffer.length hlen' hsig hpath.left,
    Option.bind_some]
  generalize List.replicate 4 0 ++ pairs (sig :: sigs) (⟨0, 0, target⟩ :: front) = w at hbuffer
  have hw1 : w.length + 6 = (w ++ origin.encode).length := by simp
  have hw2 : w.length + 7 = (w ++ origin.encode ++ [algoID]).length := by simp
  simp only [filled, horigin, Nlri.readAt_memory, Option.bind_some, writeAt_zeros, hw1, hw2,
    List.replicate_zero, List.append_nil, ← hbuffer]
  have hused : (w ++ origin.encode ++ [algoID]).length + (nlri.toSca.byteLength + 4) =
      buffer.length := by
    simp only [hbuffer, List.length_append, Nlri.length_encode]
    omega
  rw [hused]

/-- What the pointers of one signature segment say about the buffer: where the signature
segment stands, and which slice is hashed for it. -/
structure Records (buffer : Bytes) (ptr : HashMessagePtr) (sig : SignatureSegment)
    (message : Bytes) : Prop where
  signature : ∃ off, ptr.signaturePtr = some off ∧ HoldsAt buffer off sig.encode
  slice : HoldsAt buffer ptr.hashMessagePtr message
  length : ptr.hashMessageLength.toNat = message.length

/-- The pointers into a buffer that ends with the interleaved segments and `tail`. -/
theorem slicePtrs_records {sigs : List SignatureSegment} {path : List SecurePathSegment}
    (hlen : path.length = sigs.length + 1) {w tail : Bytes} {size : Nat}
    (hsize : size = (w ++ interleave sigs path ++ tail).length)
    (hshort : (interleave sigs path ++ tail).length < 65536 + 24) {i : Nat}
    (hi : i < sigs.length) (hi' : i < path.length) :
    ∃ ptr, (slicePtrs size w.length sigs)[i]? = some ptr ∧
      Records (w ++ interleave sigs path ++ tail) ptr sigs[i]
        (be32 path[i].asn ++ interleave (sigs.drop (i + 1)) (path.drop (i + 1)) ++ tail) := by
  induction sigs generalizing path w i with
  | nil => simp at hi
  | cons sig sigs ih =>
    obtain ⟨seg, path, rfl⟩ := List.exists_cons_of_length_eq_add_one hlen
    have hstep : w ++ interleave (sig :: sigs) (seg :: path) ++ tail =
        w ++ sig.encode ++ seg.encode ++ interleave sigs path ++ tail := by
      simp [interleave]
    simp only [interleave, List.length_append, length_signatureSegment, length_pathSegment]
      at hshort
    cases i with
    | zero =>
      have hslice : w ++ sig.encode ++ seg.encode ++ interleave sigs path ++ tail =
          w ++ sig.encode ++ [seg.pCount, seg.flags] ++
            (be32 seg.asn ++ interleave sigs path ++ tail) := by
        simp [SecurePathSegment.encode]
      have hlength : size - (w.length + sig.encode.length + 2) =
          (be32 seg.asn ++ interleave sigs path ++ tail).length := by
        rw [hsize, hstep, hslice, List.length_append, List.length_append, List.length_append]
        exact Nat.add_sub_cancel_left _ _
      refine ⟨slicePtr size w.length sig, rfl, ⟨w.length, rfl, ?_⟩, ?_, ?_⟩
      · exact ⟨w, seg.encode ++ interleave sigs path ++ tail, by simp [hstep], rfl⟩
      · refine ⟨w ++ sig.encode ++ [seg.pCount, seg.flags], [], ?_, ?_⟩
        · rw [hstep, hslice, List.append_nil]
          rfl
        · simp only [slicePtr, List.length_append]
          rfl
      · simp only [slicePtr, hlength]
        refine toNat_ofNat16 ?_
        simp only [List.length_append, length_be32]
        omega
    | succ i =>
      have hnext := ih (by simpa using hlen) (hsize.trans (congrArg _ hstep))
        (by rw [List.length_append]; omega) (Nat.lt_of_succ_lt_succ hi)
        (Nat.lt_of_succ_lt_succ hi')
      rw [← hstep] at hnext
      simpa only [slicePtrs, List.length_append, length_pathSegment, List.getElem?_cons_succ,
        List.getElem_cons_succ, List.drop_succ_cons] using hnext

/-- What the code finds in a well-formed attribute before it builds the message: the length of
the value, the path and the signature block. -/
theorem findBlock_encode (attr : BgpsecPath) (algoID : UInt8) :
    ∃ remainder secPath secPathLen, attrLength attr.encode = some (remainder, secPath) ∧
      attr.encode.be16At secPath = some secPathLen ∧
      secPathLen.toNat = 2 + 6 * attr.path.length ∧
      HoldsAt attr.encode (secPath + 2) (attr.path.flatMap SecurePathSegment.encode) ∧
      match attr.blockOf algoID with
      | some block => ∃ sigSeg blockLength,
          findBlock attr.encode algoID (secPath + secPathLen.toNat) (remainder - secPathLen) =
            some (.found sigSeg blockLength) ∧
          blockLength.toNat = block.length ∧
          HoldsAt attr.encode sigSeg (block.segments.flatMap SignatureSegment.encode)
      | none =>
        findBlock attr.encode algoID (secPath + secPathLen.toNat) (remainder - secPathLen) =
          some .missing := by
  obtain ⟨secPath, hlength, hvalue⟩ := attrLength_encode attr
  have hlen := length_encodeValue attr.path attr.blocks
  have hlt := value_fits attr
  have hsec : (UInt16.ofNat (2 + 6 * attr.path.length)).toNat = 2 + 6 * attr.path.length :=
    toNat_ofNat16 (by omega)
  have hpath := hvalue.left.right
  have hblocks := hvalue.right
  rw [length_be16] at hpath
  rw [List.length_append, length_be16, length_flatMap_path, ← hsec] at hblocks
  have hrem : (UInt16.ofNat (encodeValue attr.path attr.blocks).length -
      UInt16.ofNat (2 + 6 * attr.path.length)).toNat =
        (attr.blocks.flatMap SignatureBlock.encode).length := by
    rw [UInt16.toNat_sub_of_le, hsec, toNat_ofNat16 hlt]
    · omega
    · rw [UInt16.le_iff_toNat_le, hsec, toNat_ofNat16 hlt]
      omega
  exact ⟨_, secPath, _, hlength, hvalue.left.left.be16At_eq, hsec, hpath,
    findBlock_blocks algoID attr.blocks hblocks hrem⟩

end HashMessageLemmas

open HashMessageLemmas

/-- `sca_generateHashMessage` on a well-formed attribute without a message so far. -/
theorem generateHashMessage_encode (attr : BgpsecPath) (hn : attr.path ≠ []) (target : UInt32)
    (nlri : Nlri) (status : Status) (msg1 : Option HashMessage) (algoID : UInt8)
    {block : SignatureBlock} (hblock : attr.blockOf algoID = some block) :
    generateHashMessage
        ⟨htonl target, status, some attr.encode, some nlri.toSca, none, msg1⟩ algoID =
      some ((messageBuffer target block.segments attr.path algoID nlri).length, Status.ok,
        ⟨htonl target, status, some attr.encode, some nlri.toSca,
          some (messageOf target block.segments attr.path algoID nlri), none⟩) := by
  obtain ⟨remainder, secPath, secPathLen, hlength, hread, hsec, hpath, hfind⟩ :=
    findBlock_encode attr algoID
  have hsigned : block.segments.length = attr.path.length :=
    attr.signed block (List.mem_of_find?_eq_some hblock)
  rw [hblock] at hfind
  obtain ⟨sigSeg, blockLength, hfound, hbl, hsigs⟩ := hfind
  have hcount : secPathLen.toNat / 6 = attr.path.length := by omega
  simp only [generateHashMessage, Option.isSome_none, Bool.false_eq_true, if_false, hlength,
    hread, hfound, hcount, fillMessage_encode hn hsigned hpath hsigs hbl,
    Option.bind_eq_bind, Option.bind_some]

/-- Without a signature block of the algorithm there is no message. -/
theorem generateHashMessage_missing (attr : BgpsecPath) (data : ValidationData) (algoID : UInt8)
    (hattr : data.bgpsecPathAttr = some attr.encode) (hmsg : data.hashMessage0 = none)
    (hblock : attr.blockOf algoID = none) :
    generateHashMessage data algoID =
      some (0, Status.errUser1, { data with hashMessage0 := none, hashMessage1 := none }) := by
  obtain ⟨remainder, secPath, secPathLen, hlength, hread, -, -, hfind⟩ :=
    findBlock_encode attr algoID
  rw [hblock] at hfind
  simp only [generateHashMessage, hattr, hmsg, Option.isSome_none, Bool.false_eq_true, if_false,
    hlength, hread, hfind, Option.bind_eq_bind, Option.bind_some]

/-- The message of an attribute without path segments, if it is generated at all: the code reads
the path segment of an origin that is not there. -/
theorem generateHashMessage_empty (attr : BgpsecPath) (hn : attr.path = [])
    (data : ValidationData) (algoID : UInt8) (hattr : data.bgpsecPathAttr = some attr.encode)
    (hmsg : data.hashMessage0 = none) (hblock : attr.blockOf algoID ≠ none) {used : Nat}
    {status : Status} {data' : ValidationData}
    (hgen : generateHashMessage data algoID = some (used, status, data')) :
    0 < used ∧ ∃ msg, data'.hashMessage0 = some msg ∧ msg.segmentCount = 0 := by
  obtain ⟨remainder, secPath, secPathLen, hlength, hread, hsec, -, hfind⟩ :=
    findBlock_encode attr algoID
  obtain ⟨block, hblock⟩ := Option.ne_none_iff_exists'.mp hblock
  rw [hblock] at hfind
  obtain ⟨sigSeg, blockLength, hfound, -⟩ := hfind
  have hcount : secPathLen.toNat / 6 = 0 := by
    rw [hsec, hn]
    rfl
  simp only [generateHashMessage, hattr, hmsg, Option.isSome_none, Bool.false_eq_true, if_false,
    hlength, hread, hfound, hcount, fillMessage, Loop.iterate_zero, Option.bind_eq_bind,
    Option.bind_some, Option.bind_eq_some_iff, Option.some.injEq, Prod.mk.injEq] at hgen
  obtain ⟨nlri, -, filled, ⟨_, _, _, _, _, _, _, _, _, _, rfl⟩, rfl, -, rfl⟩ := hgen
  exact ⟨by omega, _, rfl, rfl⟩

/-- The target AS of every path segment: the own AS, then the AS of the segment in front. -/
def targets (myAS : UInt32) (path : List SecurePathSegment) : List UInt32 :=
  myAS :: path.map SecurePathSegment.asn

namespace HashMessageLemmas

theorem length_slicePtrs (size used : Nat) (sigs : List SignatureSegment) :
    (slicePtrs size used sigs).length = sigs.length := by
  induction sigs generalizing used with
  | nil => rfl
  | cons sig sigs ih => simp [slicePtrs, ih]

/-- A block and the path of an attribute are short enough for 16-bit slice lengths. -/
theorem length_attr_block (attr : BgpsecPath) {block : SignatureBlock}
    (hmem : block ∈ attr.blocks) : 2 + 6 * attr.path.length + block.length < 65536 := by
  have hlt := value_fits attr
  have hle : block.encode.length ≤ (attr.blocks.flatMap SignatureBlock.encode).length :=
    (List.sublist_flatten_of_mem (List.mem_map_of_mem hmem)).length_le
  rw [length_encodeValue] at hlt
  rw [length_block] at hle
  omega

/-- The slices of a message. -/
theorem messageOf_records (myAS : UInt32) (algoID : UInt8) (nlri : Nlri)
    {sigs : List SignatureSegment} {path : List SecurePathSegment}
    (hlen : sigs.length = path.length)
    (hshort : 6 * path.length + (sigs.flatMap SignatureSegment.encode).length < 65531)
    {i : Nat} (hi : i < path.length) :
    ∃ ptr sig target,
      (messageOf myAS sigs path algoID nlri).hashMessageValPtr[i]? = some ptr ∧
      sigs[i]? = some sig ∧ (targets myAS path)[i]? = some target ∧
      Records (messageBuffer myAS sigs path algoID nlri) ptr sig
        (rfcMessage target (sigs.drop (i + 1)) (path.drop i) algoID nlri) := by
  have hi' : i < sigs.length := hlen ▸ hi
  have hlen' : (SecurePathSegment.mk 0 0 myAS :: path).length = sigs.length + 1 := by
    rw [List.length_cons, hlen]
  have hbuffer : messageBuffer myAS sigs path algoID nlri =
      List.replicate 4 0 ++ interleave sigs (⟨0, 0, myAS⟩ :: path) ++
        ([algoID] ++ nlri.encode) := by
    simp only [messageBuffer, List.append_assoc]
  have hbound : (interleave sigs (⟨0, 0, myAS⟩ :: path) ++ ([algoID] ++ nlri.encode)).length <
      65536 + 24 := by
    have := Nlri.byteLength_le nlri
    simp only [List.length_append, length_interleave hlen', Nlri.length_encode,
      List.length_cons, List.length_nil]
    omega
  have hi'' : i < (SecurePathSegment.mk 0 0 myAS :: path).length := by rw [hlen']; omega
  have htargets : targets myAS path =
      (SecurePathSegment.mk 0 0 myAS :: path).map SecurePathSegment.asn := rfl
  obtain ⟨ptr, hptr, hrec⟩ :=
    slicePtrs_records hlen' (congrArg List.length hbuffer) hbound hi' hi''
  rw [← hbuffer, List.drop_succ_cons] at hrec
  refine ⟨ptr, sigs[i], (SecurePathSegment.mk 0 0 myAS :: path)[i].asn, hptr,
    List.getElem?_eq_getElem hi', ?_, ?_⟩
  · rw [htargets, List.getElem?_map, List.getElem?_eq_getElem hi'', Option.map_some]
  · simpa only [rfcMessage, List.append_assoc] using hrec

end HashMessageLemmas

/-- The hash message of a well-formed attribute with at least one path segment, for the
algorithm of one of its signature blocks. All bytes of the buffer are written; for every path
segment `i` the pointers locate signature segment `i` and a slice, and the slice is the
octet sequence of RFC 8205 for path segment `i`. -/
theorem generateHashMessage_slices (attr : BgpsecPath) (hn : attr.path ≠ []) (myAS : UInt32)
    (nlri : Nlri) (status : Status) (msg1 : Option HashMessage) (algoID : UInt8)
    {block : SignatureBlock} (hblock : attr.blockOf algoID = some block) :
    ∃ used data msg,
      generateHashMessage
          ⟨htonl myAS, status, some attr.encode, some nlri.toSca, none, msg1⟩ algoID =
        some (used, Status.ok, data) ∧
      data.hashMessage0 = some msg ∧
      used = msg.buffer.length ∧ msg.bufferSize.toNat = used ∧
      msg.segmentCount.toNat = attr.path.length ∧
      msg.hashMessageValPtr.length = attr.path.length ∧
      ∀ i < attr.path.length, ∃ ptr sig target sigOff,
        msg.hashMessageValPtr[i]? = some ptr ∧ block.segments[i]? = some sig ∧
        (targets myAS attr.path)[i]? = some target ∧ ptr.signaturePtr = some sigOff ∧
        msg.buffer.readAt sigOff (22 + sig.signature.length) = some sig.encode ∧
        msg.buffer.readAt ptr.hashMessagePtr ptr.hashMessageLength.toNat =
          some (rfcMessage target (block.segments.drop (i + 1)) (attr.path.drop i)
            algoID nlri) := by
  have hmem := List.mem_of_find?_eq_some hblock
  have hsigned := attr.signed block hmem
  have hshort := length_attr_block attr hmem
  rw [SignatureBlock.length] at hshort
  have hwidth := Nlri.byteLength_le nlri
  have hsize : (messageBuffer myAS block.segments attr.path algoID nlri).length < 2 ^ 32 := by
    rw [length_messageBuffer _ _ _ hsigned]
    omega
  refine ⟨_, _, _, generateHashMessage_encode attr hn myAS nlri status msg1 algoID hblock, rfl, rfl,
    UInt32.toNat_ofNat_of_lt' hsize, toNat_ofNat16 (by omega), ?_, ?_⟩
  · simp [messageOf, length_slicePtrs, hsigned]
  · intro i hi
    obtain ⟨ptr, sig, target, hptr, hsig, htarget, hrec⟩ :=
      messageOf_records myAS algoID nlri hsigned (by omega) hi
    obtain ⟨off, hoff, hheld⟩ := hrec.signature
    refine ⟨ptr, sig, target, off, hptr, hsig, htarget, hoff, ?_, ?_⟩
    · exact length_signatureSegment sig ▸ hheld.readAt_eq
    · exact hrec.length ▸ hrec.slice.readAt_eq

/-- Two hops, the block of algorithm 1 behind a block of another algorithm. -/
def twoHops : BgpsecPath where
  flags := 0x50
  typeCode := 33
  path := [⟨1, 0, 65002⟩, ⟨2, 0, 65001⟩]
  blocks := [⟨7, [⟨.replicate 20 9, [3], by decide⟩, ⟨.replicate 20 8, [4], by decide⟩]⟩,
    ⟨1, [⟨.replicate 20 1, [5, 6], by decide⟩, ⟨.replicate 20 2, [7], by decide⟩]⟩]
  blockCount := by decide
  signed := by decide
  fits := by decide

/-- The prefix 10.1.0.0/17. -/
def sampleNlri : Nlri :=
  ⟨1, 1, 17, ⟨#[10, 1, 128, 0, 0, 0, 0, 0, 0, 0, 0, 0, 0, 0, 0, 0], rfl⟩, by decide⟩

theorem generateHashMessage_slices_twoHops :
    twoHops.path ≠ [] ∧ (twoHops.blockOf 1).isSome ∧
      ∃ used data msg, generateHashMessage
          ⟨htonl 65003, 0, some twoHops.encode, some sampleNlri.toSca, none, none⟩ 1 =
        some (used, Status.ok, data) ∧
      data.hashMessage0 = some msg ∧ msg.bufferSize.toNat = used := by
  refine ⟨by decide, rfl, ?_⟩
  obtain ⟨used, data, msg, hgen, hmsg, -, hsize, -⟩ :=
    generateHashMessage_slices twoHops (by decide) 65003 sampleNlri 0 none 1 rfl
  exact ⟨used, data, msg, hgen, hmsg, hsize⟩

end SrxSuite.Crypto

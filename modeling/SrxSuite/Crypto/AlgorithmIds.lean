import SrxSuite.Crypto.MalformedAttrs

/-!
# Algorithm ids

The models of `sca_getAlgorithmIDs`, which reads the ids of the signature blocks of an attribute,
and of `sca_getAlgorithmID`, which reads the id of a hash message (`srxcryptoapi.c`).

`sca_getAlgorithmIDs` tells success from failure and does not count blocks. The walk takes the
size of the attribute header off a length that does not contain it, so it goes on behind the
last block and mostly ends with a syntax error; the id of the second block is put where the
first belongs. `sca_getAlgorithmID` reads one byte too far. `algorithmIds` says what holds
beside these.
-/

namespace SrxSuite.Crypto

open Bytes

/-! ## The code -/

/-- `API_SUCCESS`. -/
def apiSuccess : UInt8 := 1

/-- `API_FAILURE`. -/
def apiFailure : UInt8 := 0

/-- `SCA_MAX_SIGBLOCK_COUNT`. -/
def maxSigBlockCount : Nat := 2

/-- `API_STATUS_ERR_SYNTAX`. -/
def errSyntax : Status := 0x00800000

/-- `sca_getAlgorithmID`: the id is taken from behind the last hash message pointer. -/
def getAlgorithmID (hashMessage : Option HashMessage) : Option UInt8 :=
  match hashMessage with
  | none => some 0
  | some msg =>
    if msg.segmentCount = 0 then none
    else do
      let hmPtr ← msg.hashMessageValPtr[msg.segmentCount.toNat - 1]?
      if 11 ≤ hmPtr.hashMessageLength then msg.buffer[hmPtr.hashMessagePtr + 11]?
      else some 0

/-- The walk through the signature blocks, with the ids found so far and the room left for
more. -/
def collectIds (attr : Bytes) : (room ptr : Nat) → (remainder : UInt16) → List UInt8 →
    Option (List UInt8 × Status)
  | 0, _, remainder, ids => some (ids, if remainder = 0 then Status.ok else errSyntax)
  | room + 1, ptr, remainder, ids =>
    if remainder = 0 then some (ids, Status.ok)
    else do
      let size ← attr.be16At ptr
      let id ← attr[ptr + 2]?
      collectIds attr room (ptr + size.toNat) (remainder - size) (ids ++ [id])

/-- What `sca_getAlgorithmIDs` returns and leaves in its OUT variables, `none` for NULL. -/
structure AlgorithmIds where
  retVal : UInt8
  status : Option Status
  algoID1 : Option UInt8
  algoID2 : Option UInt8
  deriving DecidableEq

/-- The ids of the blocks, and the status. The memory of the attribute may go on behind it. -/
def readIds (attr : Option Bytes) : Option (List UInt8 × Status) :=
  match attr with
  | none => some ([], Status.errNoData)
  | some attr => do
    let (length, start) ← attrLength attr
    let secPathLen ← attr.be16At start
    let remainder := length - UInt16.ofNat start - secPathLen
    collectIds attr maxSigBlockCount (start + secPathLen.toNat) remainder []

/-- What is left in the first OUT variable. The second id is written through its pointer. -/
def setFirstId (ids : List UInt8) (algoID1 algoID2 : Option UInt8) : Option (Option UInt8) :=
  match algoID2 with
  | some _ => algoID1.map fun _ => some (ids[1]?.getD 0)
  | none => some (algoID1.map fun _ => ids[0]?.getD 0)

/-- `sca_getAlgorithmIDs`. -/
def getAlgorithmIDs (attr : Option Bytes) (status : Option Status) (algoID1 algoID2 : Option UInt8) :
    Option AlgorithmIds := do
  let (ids, myStatus) ← readIds attr
  let algoID1 ← setFirstId ids algoID1 algoID2
  some ⟨if myStatus.noError then apiSuccess else apiFailure, status.map (· ||| myStatus),
    algoID1, algoID2⟩

/-! ## Results -/

/-- The id stands behind the target AS and the origin's path segment of the last slice, and reading
the id stays within the message. -/
def IdBehindOrigin (algoID : UInt8) (msg : HashMessage) : Prop :=
  ∃ ptr, msg.hashMessageValPtr.getLast? = some ptr ∧
    msg.buffer[ptr.hashMessagePtr + 10]? = some algoID ∧ getAlgorithmID (some msg) ≠ none

namespace AlgorithmIdLemmas

open HashMessageLemmas MalformedLemmas

variable {mem behind : Bytes} {algoID : UInt8} {msg : HashMessage}

/-! ## Hash messages -/

/-- Reading the id of a message whose last slice has room for it. -/
theorem getAlgorithmID_ne_none {ptr : HashMessagePtr} (hcount : msg.segmentCount ≠ 0)
    (hptrs : msg.hashMessageValPtr.length = msg.segmentCount.toNat)
    (hlast : msg.hashMessageValPtr.getLast? = some ptr)
    (hroom : ptr.hashMessagePtr + 11 < msg.buffer.length) : getAlgorithmID (some msg) ≠ none := by
  rw [List.getLast?_eq_getElem?, hptrs] at hlast
  simp only [getAlgorithmID, if_neg hcount, hlast, Option.bind_eq_bind, Option.bind_some]
  split
  · simpa using hroom
  · simp

theorem idBehindOrigin_generate {data data' : ValidationData} {used : Nat} {status : Status}
    (hnone : data.hashMessage0 = none)
    (hcall : generateHashMessage data algoID = some (used, status, data'))
    (hmsg : data'.hashMessage0 = some msg) (hcount : msg.segmentCount ≠ 0) :
    IdBehindOrigin algoID msg := by
  cases hattr : data.bgpsecPathAttr with
  | none =>
    simp only [generateHashMessage, hattr, Option.some.injEq, Prod.mk.injEq] at hcall
    obtain ⟨-, -, rfl⟩ := hcall
    rw [hnone] at hmsg
    cases hmsg
  | some attr =>
    simp only [generateHashMessage, hattr, hnone, Option.isSome_none, Bool.false_eq_true, if_false,
      Option.bind_eq_bind, Option.bind_eq_some_iff] at hcall
    obtain ⟨⟨length, secPath⟩, -, secPathLen, -, r, -, hcall⟩ := hcall
    cases r with
    | missing =>
      simp only [Option.some.injEq, Prod.mk.injEq] at hcall
      obtain ⟨-, -, rfl⟩ := hcall
      cases hmsg
    | corrupt =>
      simp only [Option.some.injEq, Prod.mk.injEq] at hcall
      obtain ⟨-, -, rfl⟩ := hcall
      cases hmsg
    | found sigSeg blockLength =>
      simp only [Option.bind_eq_some_iff, Option.some.injEq, Prod.mk.injEq] at hcall
      obtain ⟨nlri, -, ⟨msg', used'⟩, hfill, -, -, rfl⟩ := hcall
      obtain rfl : msg' = msg := Option.some.inj hmsg
      obtain ⟨len, -, -, -, -, -, -, -, hseg, hptrs, hlast⟩ := fillMessage_facts hfill
      have hn : secPathLen.toNat / 6 ≠ 0 := by
        intro h0
        rw [hseg, h0] at hcount
        exact hcount rfl
      obtain ⟨ptr, hptr, hid, hroom⟩ := hlast hn
      have hlt := secPathLen.toNat_lt
      refine ⟨ptr, hptr, hid, getAlgorithmID_ne_none hcount ?_ hptr (by omega)⟩
      rw [hptrs, hseg, toNat_ofNat16 (by omega)]

theorem idBehindOrigin_origin {targetAS : UInt32} {spSeg : ScaPathSegment} {nlri : ScaPrefix}
    (hcall : generateOriginHashMessage targetAS spSeg nlri algoID = some msg) :
    IdBehindOrigin algoID msg := by
  simp only [generateOriginHashMessage, Option.bind_eq_bind, Option.bind_eq_some_iff,
    Option.some.injEq] at hcall
  obtain ⟨b₁, hw₁, b₂, hw₂, b₃, hw₃, nlriBytes, hnlri, b₄, hw₄, rfl⟩ := hcall
  obtain ⟨hl₁, -⟩ := writeAt_eq_some hw₁
  obtain ⟨hl₂, -⟩ := writeAt_eq_some hw₂
  obtain ⟨hl₃, -, hid, -⟩ := writeAt_eq_some hw₃
  obtain ⟨hl₄, hroom, -, hkept⟩ := writeAt_eq_some hw₄
  rw [length_of_readAt hnlri] at hroom
  refine ⟨_, rfl, ?_, getAlgorithmID_ne_none
    (show (1 : UInt16) ≠ 0 by decide) rfl rfl ?_⟩
  · exact (hkept 10 (.inl (by decide))).trans (hid 0 Nat.zero_lt_one)
  · change 0 + 11 < b₄.length
    omega

/-! ## The ids of an attribute -/

theorem getElem?_append_some {off : Nat} {x : UInt8} (h : mem[off]? = some x) :
    (mem ++ behind)[off]? = some x := by
  rw [List.getElem?_append_left (List.getElem?_eq_some_iff.mp h).1, h]

theorem be16At_append {off : Nat} {x : UInt16} (h : mem.be16At off = some x) :
    be16At (mem ++ behind) off = some x := by
  have hle := (isSome_be16At mem off).mp (Option.isSome_of_eq_some h)
  rw [be16At, readAt, if_pos hle] at h
  rw [be16At, readAt, if_pos (by rw [List.length_append]; omega), List.drop_append_of_le_length
    (by omega), List.take_append_of_le_length (by rw [List.length_drop]; omega)]
  exact h

/-- The length and the start of the value depend on the header only. -/
theorem attrLength_append {length : UInt16} {start : Nat}
    (h : attrLength mem = some (length, start)) :
    attrLength (mem ++ behind) = some (length, start) ∧ start ≤ 4 := by
  simp only [attrLength, Option.bind_eq_bind, Option.bind_eq_some_iff] at h
  obtain ⟨flags, hflags, h⟩ := h
  split at h
  · next hext =>
    simp only [Option.bind_eq_some_iff, Option.some.injEq, Prod.mk.injEq] at h
    obtain ⟨len, hlen, rfl, rfl⟩ := h
    refine ⟨?_, by decide⟩
    simp only [attrLength, getElem?_append_some hflags, getElem?_append_some hlen, hext,
      Option.bind_eq_bind, Option.bind_some, if_true]
  · next hext =>
    simp only [Option.bind_eq_some_iff, Option.some.injEq, Prod.mk.injEq] at h
    obtain ⟨len, hlen, rfl, rfl⟩ := h
    refine ⟨?_, by decide⟩
    simp only [attrLength, getElem?_append_some hflags, be16At_append hlen, hext,
      Option.bind_eq_bind, Option.bind_some, if_false]

/-- The walk keeps the id of the first block, when there is something to read behind that block. -/
theorem collectIds_first {ptr : Nat} {remainder size : UInt16} {id : UInt8} (hrem : remainder ≠ 0)
    (hsize : mem.be16At ptr = some size) (hid : mem[ptr + 2]? = some id)
    (hroom : ptr + size.toNat + 3 ≤ mem.length) :
    ∃ ids status, collectIds mem maxSigBlockCount ptr remainder [] = some (id :: ids, status) := by
  obtain ⟨size', hsize'⟩ := Option.isSome_iff_exists.mp
    ((isSome_be16At mem (ptr + size.toNat)).mpr (by omega))
  have hid' : mem[ptr + size.toNat + 2]? = some mem[ptr + size.toNat + 2] :=
    List.getElem?_eq_getElem (by omega)
  simp only [maxSigBlockCount, collectIds, if_neg hrem, hsize, hid, hsize', hid',
    Option.bind_eq_bind, Option.bind_some, List.nil_append]
  split
  · exact ⟨[], Status.ok, rfl⟩
  · exact ⟨_, _, rfl⟩

/-- A first block that a path segment has signed is longer than the header of the attribute. -/
theorem length_first {attr : BgpsecPath} {first : SignatureBlock} (hn : attr.path ≠ [])
    (hmem : first ∈ attr.blocks) : 25 ≤ first.length := by
  have hsigned := attr.signed first hmem
  cases hsegs : first.segments with
  | nil =>
    rw [hsegs] at hsigned
    exact absurd (List.length_eq_zero_iff.mp hsigned.symm) hn
  | cons sig sigs =>
    simp only [SignatureBlock.length, hsegs, List.flatMap_cons, List.length_append,
      length_signatureSegment]
    omega

theorem getAlgorithmIDs_first {attr : BgpsecPath} {first : SignatureBlock}
    {rest : List SignatureBlock} (hn : attr.path ≠ []) (hblocks : attr.blocks = first :: rest)
    (hroom : rest ≠ [] ∨ 3 ≤ behind.length) (status : Option Status) (old : UInt8) :
    ∃ res, getAlgorithmIDs (some (attr.encode ++ behind)) status (some old) none = some res ∧
      res.algoID1 = some first.algoID := by
  obtain ⟨start, hlength, pre, post, hbytes, hpre⟩ := attrLength_encode attr
  obtain ⟨hlength', hstart⟩ :
      attrLength (attr.encode ++ behind) = some (_, start) ∧ start ≤ 4 := attrLength_append hlength
  have hmem : first ∈ attr.blocks := hblocks ▸ List.mem_cons_self
  have hfirst := length_first hn hmem
  have hshort := length_attr_block attr hmem
  have hV := length_encodeValue attr.path attr.blocks
  have hsum : (attr.blocks.flatMap SignatureBlock.encode).length =
      first.length + (rest.flatMap SignatureBlock.encode).length := by
    rw [hblocks, List.flatMap_cons, List.length_append, length_block]
  rw [hsum] at hV
  have hvalue : HoldsAt (attr.encode ++ behind) start (encodeValue attr.path attr.blocks) :=
    ⟨pre, post ++ behind, by rw [hbytes, List.append_assoc], hpre⟩
  have hsec : (UInt16.ofNat (2 + 6 * attr.path.length)).toNat = 2 + 6 * attr.path.length :=
    toNat_ofNat16 (by omega)
  have hblock : HoldsAt (attr.encode ++ behind) (start + (2 + 6 * attr.path.length))
      first.encode := by
    have hright := hvalue.right
    rw [List.length_append, length_be16, length_flatMap_path, hblocks, List.flatMap_cons] at hright
    exact hright.left
  have hid := hblock.left.right.getElem?_eq
  have hread := hblock.left.left.be16At_eq
  rw [length_be16] at hid
  have hsize : (UInt16.ofNat first.length).toNat = first.length := toNat_ofNat16 (by omega)
  have hrem : UInt16.ofNat (encodeValue attr.path attr.blocks).length - UInt16.ofNat start -
      UInt16.ofNat (2 + 6 * attr.path.length) ≠ 0 := by
    intro h0
    have hback := UInt16.sub_add_cancel (UInt16.ofNat (encodeValue attr.path attr.blocks).length -
      UInt16.ofNat start) (UInt16.ofNat (2 + 6 * attr.path.length))
    rw [h0, UInt16.zero_add] at hback
    have hback' := UInt16.sub_add_cancel (UInt16.ofNat (encodeValue attr.path attr.blocks).length)
      (UInt16.ofNat start)
    have heq := congrArg UInt16.toNat (hback ▸ hback')
    rw [UInt16.toNat_add, hsec, toNat_ofNat16 (by omega), toNat_ofNat16 (value_fits attr)] at heq
    omega
  have hlong : start + (2 + 6 * attr.path.length) + (UInt16.ofNat first.length).toNat + 3 ≤
      (attr.encode ++ behind).length := by
    have htail : 3 ≤ (rest.flatMap SignatureBlock.encode).length + behind.length := by
      rcases hroom with hrest | hbehind
      · obtain ⟨second, rest, rfl⟩ := List.exists_cons_of_ne_nil hrest
        rw [List.flatMap_cons, List.length_append, length_block, SignatureBlock.length]
        omega
      · omega
    rw [List.length_append, hbytes, List.length_append, List.length_append, hpre, hsize]
    omega
  obtain ⟨ids, myStatus, hcollect⟩ := collectIds_first hrem hread hid hlong
  refine ⟨⟨if myStatus.noError then apiSuccess else apiFailure, status.map (· ||| myStatus),
    some first.algoID, none⟩, ?_, rfl⟩
  simp only [getAlgorithmIDs, readIds, hlength', hvalue.left.left.be16At_eq, hsec, hcollect,
    Option.bind_eq_bind, Option.bind_some]
  rfl

end AlgorithmIdLemmas

open AlgorithmIdLemmas

/-- What the two functions do apart from their slips. The return value of `sca_getAlgorithmIDs`
tells whether the call set an error; without a second OUT variable the first gets the id of the
first block, when the attribute has another block or memory goes on behind it. In every hash
message with a slice the id it was generated for stands behind the last target AS and the
origin. -/
theorem algorithmIds :
    (∀ attr status algoID1 algoID2 res, getAlgorithmIDs attr status algoID1 algoID2 = some res →
      ∃ myStatus : Status, res.status = status.map (· ||| myStatus) ∧
        res.retVal = if myStatus.noError then apiSuccess else apiFailure) ∧
    (∀ (attr : BgpsecPath) (first : SignatureBlock) (rest : List SignatureBlock) (behind : Bytes)
      (status : Option Status) (old : UInt8), attr.path ≠ [] → attr.blocks = first :: rest →
      (rest ≠ [] ∨ 3 ≤ behind.length) →
      ∃ res, getAlgorithmIDs (some (attr.encode ++ behind)) status (some old) none = some res ∧
        res.algoID1 = some first.algoID) ∧
    (∀ (data data' : ValidationData) (algoID : UInt8) (used : Nat) (status : Status)
      (msg : HashMessage), data.hashMessage0 = none →
      generateHashMessage data algoID = some (used, status, data') →
      data'.hashMessage0 = some msg → msg.segmentCount ≠ 0 → IdBehindOrigin algoID msg) ∧
    ∀ (targetAS : UInt32) (spSeg : ScaPathSegment) (nlri : ScaPrefix) (algoID : UInt8)
      (msg : HashMessage), generateOriginHashMessage targetAS spSeg nlri algoID = some msg →
      IdBehindOrigin algoID msg := by
  refine ⟨fun attr status algoID1 algoID2 res hcall => ?_,
    fun attr first rest behind status old hn hblocks hroom =>
      getAlgorithmIDs_first hn hblocks hroom status old,
    fun data data' algoID used status msg hnone hcall hmsg hcount =>
      idBehindOrigin_generate hnone hcall hmsg hcount,
    fun targetAS spSeg nlri algoID msg hcall => idBehindOrigin_origin hcall⟩
  simp only [getAlgorithmIDs, Option.bind_eq_bind, Option.bind_eq_some_iff,
    Option.some.injEq] at hcall
  obtain ⟨⟨ids, myStatus⟩, -, id1, -, rfl⟩ := hcall
  exact ⟨myStatus, rfl, rfl⟩

theorem algorithmIds_twoHops :
    ∃ res, getAlgorithmIDs (some (twoHops.encode ++ [])) (some 0) (some 0) none = some res ∧
      res.algoID1 = some 7 := by
  obtain ⟨-, hfirst, -⟩ := algorithmIds
  exact hfirst twoHops _ _ [] (some 0) 0 (by decide) rfl (.inl (by decide))

/-- The return value is not the number of signature blocks, the second id replaces the first, and
the id of a message is not the byte that is read. -/
theorem algorithmIds_counterexample :
    (∃ res, getAlgorithmIDs (some twoHops.encode) (some 0) (some 0) (some 0) = some res ∧
      res.retVal.toNat ≠ twoHops.blocks.length ∧ res.algoID1 ≠ some 7) ∧
    ∃ msg, generateOriginHashMessage (htonl 65003) ⟨1, 0, htonl 65002⟩ sampleNlri.toSca 1 =
      some msg ∧ getAlgorithmID (some msg) ≠ some 1 := by
  refine ⟨⟨⟨apiFailure, some errSyntax, some 1, some 0⟩, by decide +kernel, by decide, by decide⟩,
    ⟨true, 18, [0, 0, 0xFD, 0xEB, 1, 0, 0, 0, 0xFD, 0xEA, 1, 0, 1, 1, 17, 10, 1, 128], 1,
      [⟨none, 0, 18⟩]⟩, by decide +kernel, by decide⟩

end SrxSuite.Crypto

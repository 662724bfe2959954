import SrxSuite.Crypto.HashMessage
import SrxSuite.Lib.Fields

/-!
# Hash messages of malformed attributes

`sca_generateHashMessage` on an attribute whose value is any byte string. It should stay within
the value and the message, and come back with a message or with nothing. The header of a
signature block is read without a look at what is left of the value, and the signature segments
are read and copied without a look at the length of their block. `generateHashMessage_iff`
says for which values that goes well: `BlockWalk` is the search for the block, and in the block
there has to be a signature segment for every path segment.
-/

namespace SrxSuite.Crypto

open Bytes

/-- An attribute with any value that fits the length field its flags announce. -/
structure RawAttr where
  flags : UInt8
  typeCode : UInt8
  value : Bytes
  fits : value.length < if flags &&& extLengthFlag = 0 then 256 else 65536

/-- The bytes of the attribute. -/
def RawAttr.encode (attr : RawAttr) : Bytes :=
  let lengthField := if attr.flags &&& extLengthFlag = 0 then [UInt8.ofNat attr.value.length]
    else be16 (UInt16.ofNat attr.value.length)
  [attr.flags, attr.typeCode] ++ lengthField ++ attr.value

/-- A message that was built to its end: of the `used` bytes none lies outside of the buffer, and
there is a slice for every path segment. -/
structure IsBuilt (used : Nat) (msg : HashMessage) : Prop where
  inside : used ≤ msg.buffer.length
  size : msg.bufferSize.toNat = msg.buffer.length
  slices : msg.hashMessageValPtr.length = msg.segmentCount.toNat

/-- The call stays within the attribute and the message, and its result is a message or 0
without a message. -/
def GeneratesSafely (attr : RawAttr) (nlri : Nlri) (myAS : UInt32) (algoID : UInt8) : Prop :=
  ∃ used status data, generateHashMessage ⟨myAS, Status.ok, some attr.encode, some nlri.toSca,
      none, none⟩ algoID = some (used, status, data) ∧
    match data.hashMessage0 with
    | some msg => 0 < used ∧ IsBuilt used msg
    | none => used = 0

/-- The search for the block of an algorithm in the bytes behind the secure path. Every header it
looks at is there, and it ends behind the last block, at a block length that cannot be right, or
at the block, which is given with everything behind it. -/
inductive BlockWalk (algoID : UInt8) : Bytes → Option Bytes → Prop
  | missing : BlockWalk algoID [] none
  | corrupt {rest : Bytes} {blockLength : UInt16} : rest.be16At 0 = some blockLength →
      (blockLength = 0 ∨ rest.length < blockLength.toNat) → BlockWalk algoID rest none
  | found {rest : Bytes} {blockLength : UInt16} : rest.be16At 0 = some blockLength →
      blockLength ≠ 0 → blockLength.toNat ≤ rest.length → rest[2]? = some algoID →
      BlockWalk algoID rest (some rest)
  | skip {rest : Bytes} {blockLength : UInt16} {id : UInt8} {block : Option Bytes} :
      rest.be16At 0 = some blockLength → blockLength ≠ 0 → blockLength.toNat ≤ rest.length →
      rest[2]? = some id → id ≠ algoID → BlockWalk algoID (rest.drop blockLength.toNat) block →
      BlockWalk algoID rest block

/-- The length of the next `n` signature segments, if they are all there. -/
def signaturesLength : (n : Nat) → Bytes → Option Nat
  | 0, _ => some 0
  | n + 1, sigs => do
    let siglen ← sigs.be16At 20
    if 22 + siglen.toNat ≤ sigs.length then
      let len ← signaturesLength n (sigs.drop (22 + siglen.toNat))
      some (22 + siglen.toNat + len)
    else none

/-- A block with a signature segment for each of the path segments, in a value that is long
enough for the path segment of an origin. -/
def BlockFits (value : Bytes) (segments : Nat) (block : Bytes) : Prop :=
  ∃ blockLength len, block.be16At 0 = some blockLength ∧
    signaturesLength segments (block.drop 3) = some len ∧ 3 + len ≤ blockLength.toNat ∧
    (segments = 0 → 8 ≤ value.length)

/-- The values the code handles. -/
def Handled (algoID : UInt8) (value : Bytes) : Prop :=
  ∃ secPathLen out, value.be16At 0 = some secPathLen ∧ secPathLen.toNat ≤ value.length ∧
    BlockWalk algoID (value.drop secPathLen.toNat) out ∧
    ∀ block, out = some block → BlockFits value (secPathLen.toNat / 6) block

namespace MalformedLemmas

/-! ## The search -/

/-- The end of the search in the memory and in the bytes behind the path. -/
def SearchEnds (mem : Bytes) : BlockSearch → Option Bytes → Prop
  | .found sigSeg blockLength, some block => ∃ ptr, sigSeg = ptr + 3 ∧ block = mem.drop ptr ∧
      block.be16At 0 = some blockLength ∧ blockLength.toNat ≤ block.length
  | .missing, none => True
  | .corrupt, none => True
  | _, _ => False

variable {mem : Bytes} {algoID : UInt8} {ptr : Nat} {remainder : UInt16}

/-- A turn of the search, in terms of the bytes behind the path. -/
theorem findBlock_turn (hrem : remainder.toNat = (mem.drop ptr).length) {blockLength : UInt16}
    (hread : be16At (mem.drop ptr) 0 = some blockLength) :
    findBlock mem algoID ptr remainder =
      if (mem.drop ptr).length < blockLength.toNat ∨ blockLength = 0 then some .corrupt
      else (mem.drop ptr)[2]?.bind fun id =>
        if id ≠ algoID then findBlock mem algoID (ptr + blockLength.toNat) (remainder - blockLength)
        else some (.found (ptr + 3) blockLength) := by
  have hlong : 0 + 2 ≤ (mem.drop ptr).length :=
    (isSome_be16At _ _).mp (by rw [hread]; rfl)
  have hne : remainder ≠ 0 := by
    rintro rfl
    rw [← hrem] at hlong
    exact absurd hlong (by decide)
  rw [be16At_drop, Nat.add_zero] at hread
  have hlt : remainder < blockLength ↔ (mem.drop ptr).length < blockLength.toNat := by
    rw [UInt16.lt_iff_toNat_lt, hrem]
  rw [findBlock, if_neg hne, hread]
  simp only [hlt, dite_eq_ite, List.getElem?_drop]
  split
  · rfl
  · cases mem[ptr + 2]? <;> rfl

/-- What is left of the value behind a block. -/
theorem remainder_sub (hrem : remainder.toNat = (mem.drop ptr).length) {blockLength : UInt16}
    (hle : blockLength.toNat ≤ (mem.drop ptr).length) :
    (remainder - blockLength).toNat = (mem.drop (ptr + blockLength.toNat)).length := by
  rw [UInt16.toNat_sub_of_le _ _ (UInt16.le_iff_toNat_le.mpr (hrem ▸ hle)), hrem,
    List.length_drop, List.length_drop, Nat.sub_sub]

theorem findBlock_of_walk {rest : Bytes} {out : Option Bytes} (hwalk : BlockWalk algoID rest out)
    (hrest : rest = mem.drop ptr) (hrem : remainder.toNat = rest.length) :
    ∃ r, findBlock mem algoID ptr remainder = some r ∧ SearchEnds mem r out := by
  induction hwalk generalizing ptr remainder with
  | missing =>
    have hzero : remainder = 0 := UInt16.toNat_inj.mp hrem
    exact ⟨.missing, by rw [findBlock, if_pos hzero], trivial⟩
  | @corrupt rest blockLength hread hbad =>
    subst hrest
    exact ⟨.corrupt, by rw [findBlock_turn hrem hread, if_pos hbad.symm], trivial⟩
  | @found rest blockLength hread hpos hle hid =>
    subst hrest
    refine ⟨.found (ptr + 3) blockLength, ?_, ptr, rfl, rfl, hread, hle⟩
    rw [findBlock_turn hrem hread, if_neg (not_or.mpr ⟨Nat.not_lt.mpr hle, hpos⟩), hid,
      Option.bind_some, if_neg (not_not_intro rfl)]
  | @skip rest blockLength id block hread hpos hle hid hne hnext ih =>
    subst hrest
    obtain ⟨r, hr, hends⟩ := ih (List.drop_drop ..) (by
      rw [remainder_sub hrem hle, List.drop_drop])
    refine ⟨r, ?_, hends⟩
    rw [findBlock_turn hrem hread, if_neg (not_or.mpr ⟨Nat.not_lt.mpr hle, hpos⟩), hid,
      Option.bind_some, if_pos hne, hr]

theorem walk_of_findBlock {r : BlockSearch} (hrem : remainder.toNat = (mem.drop ptr).length)
    (hr : findBlock mem algoID ptr remainder = some r) :
    ∃ out, BlockWalk algoID (mem.drop ptr) out ∧ SearchEnds mem r out := by
  induction hn : remainder.toNat using Nat.strongRecOn generalizing ptr remainder with
  | ind n ih =>
    by_cases hzero : remainder = 0
    · rw [findBlock, if_pos hzero] at hr
      obtain rfl := Option.some.inj hr
      have hnil : mem.drop ptr = [] := by
        rw [← List.length_eq_zero_iff, ← hrem, hzero]
        rfl
      exact ⟨none, hnil ▸ .missing, trivial⟩
    · cases hread : be16At (mem.drop ptr) 0 with
      | none =>
        rw [be16At_drop, Nat.add_zero] at hread
        rw [findBlock, if_neg hzero, hread] at hr
        cases hr
      | some blockLength =>
        rw [findBlock_turn hrem hread] at hr
        split at hr
        · next hbad =>
          obtain rfl := Option.some.inj hr
          exact ⟨none, .corrupt hread hbad.symm, trivial⟩
        · next hgood =>
          obtain ⟨hle, hpos⟩ := not_or.mp hgood
          have hle := Nat.le_of_not_lt hle
          obtain ⟨id, hid, hr⟩ := Option.bind_eq_some_iff.mp hr
          split at hr
          · next hne =>
            have hrem' := remainder_sub hrem hle
            have hsmall : (remainder - blockLength).toNat < n := by
              have hpos' : blockLength.toNat ≠ 0 := fun h => hpos (UInt16.toNat_inj.mp h)
              rw [hrem', ← List.drop_drop, List.length_drop, ← hrem, hn]
              omega
            obtain ⟨out, hwalk, hends⟩ := ih _ hsmall hrem' hr rfl
            rw [← List.drop_drop] at hwalk
            exact ⟨out, .skip hread hpos hle hid hne hwalk, hends⟩
          · next heq =>
            obtain rfl := Option.some.inj hr
            obtain rfl := not_not.mp heq
            exact ⟨_, .found hread hpos hle hid, ptr, rfl, rfl, hread, hle⟩

/-! ## The segment loop -/

variable {myAS : UInt32} {size segment n : Nat} {s s' : FillState}

/-- What a turn of the segment loop read and wrote. -/
theorem fillSegment_facts (h : fillSegment mem myAS size segment s = some s') :
    ∃ siglen ptr, mem.be16At (s.sigPtr + 20) = some siglen ∧
      s.sigPtr + (22 + siglen.toNat) ≤ mem.length ∧
      s'.used = s.used + (22 + siglen.toNat) + 6 ∧ s'.used ≤ s.buffer.length ∧
      s'.buffer.length = s.buffer.length ∧ s'.sigPtr = s.sigPtr + (22 + siglen.toNat) ∧
      s'.pathPtr = s.pathPtr + (if segment = 0 then 0 else 6) ∧
      s'.valPtrs = s.valPtrs ++ [ptr] ∧ ptr.hashMessagePtr + 4 = s'.used := by
  simp only [fillSegment, Option.bind_eq_bind, Option.bind_eq_some_iff] at h
  obtain ⟨siglen, hread, sigSeg, hsig, buffer, hwrite, h⟩ := h
  have hend := (isSome_readAt _ _ _).mp (Option.isSome_of_eq_some hsig)
  obtain ⟨hlen, hroom, -⟩ := writeAt_eq_some hwrite
  split at h
  · next hne =>
    simp only [Option.bind_eq_some_iff, Option.some.injEq] at h
    obtain ⟨pathSeg, hpath, buffer', hwrite', rfl⟩ := h
    obtain ⟨hlen', hroom', -⟩ := writeAt_eq_some hwrite'
    rw [length_of_readAt hpath, hlen] at hroom'
    refine ⟨siglen, _, hread, hend, ?_, ?_, hlen'.trans hlen, rfl, by rw [if_neg hne], rfl, rfl⟩
    · simp only [Nat.add_assoc]
    · exact hroom'
  · next heq =>
    simp only [Option.bind_eq_some_iff, Option.some.injEq] at h
    obtain ⟨buffer', hwrite', rfl⟩ := h
    obtain ⟨hlen', hroom', -⟩ := writeAt_eq_some hwrite'
    rw [length_le32, hlen] at hroom'
    refine ⟨siglen, _, hread, hend, ?_, hroom', hlen'.trans hlen, rfl,
      by rw [if_pos (not_not.mp heq)]; rfl, rfl, rfl⟩
    simp only [Nat.add_assoc]

/-- A turn goes through when the segments are in the attribute and fit the buffer. -/
theorem fillSegment_goes {siglen : UInt16} (hread : mem.be16At (s.sigPtr + 20) = some siglen)
    (hend : s.sigPtr + (22 + siglen.toNat) ≤ mem.length)
    (hroom : s.used + (22 + siglen.toNat) + 6 ≤ s.buffer.length)
    (hpath : s.pathPtr + 6 ≤ mem.length) :
    ∃ s', fillSegment mem myAS size segment s = some s' := by
  obtain ⟨sigSeg, hsig⟩ := Option.isSome_iff_exists.mp ((isSome_readAt _ _ _).mpr hend)
  obtain ⟨pathSeg, hseg⟩ := Option.isSome_iff_exists.mp ((isSome_readAt _ _ _).mpr hpath)
  obtain ⟨buffer, hwrite⟩ : ∃ m', s.buffer.writeAt s.used sigSeg = some m' :=
    writeAt_isSome (by rw [length_of_readAt hsig]; omega)
  obtain ⟨hlen, -⟩ := writeAt_eq_some hwrite
  by_cases hne : segment ≠ 0
  · obtain ⟨buffer', hwrite'⟩ :
        ∃ m', buffer.writeAt (s.used + (22 + siglen.toNat)) pathSeg = some m' :=
      writeAt_isSome (by rw [length_of_readAt hseg, hlen]; exact hroom)
    simp [fillSegment, hread, hsig, hwrite, hne, hseg, hwrite']
  · obtain ⟨buffer', hwrite'⟩ :
        ∃ m', buffer.writeAt (s.used + (22 + siglen.toNat) + 2) (le32 myAS) = some m' :=
      writeAt_isSome (by rw [length_le32, hlen]; exact hroom)
    simp [fillSegment, hread, hsig, hwrite, hne, hwrite']

/-- The next signature segment, in the memory and in the bytes from it on. -/
theorem signaturesLength_succ (n ptr : Nat) :
    signaturesLength (n + 1) (mem.drop ptr) = (mem.be16At (ptr + 20)).bind fun siglen =>
      if ptr + (22 + siglen.toNat) ≤ mem.length then
        (signaturesLength n (mem.drop (ptr + (22 + siglen.toNat)))).map (22 + siglen.toNat + ·)
      else none := by
  rw [signaturesLength, be16At_drop]
  congr 1
  funext siglen
  rw [List.length_drop, List.drop_drop, Option.map_eq_bind]
  congr 1
  rw [eq_iff_iff]
  omega

/-- What the whole loop read and wrote. -/
theorem fill_facts (h : Loop.iterate (fillSegment mem myAS size) n segment s = some s') :
    ∃ len, signaturesLength n (mem.drop s.sigPtr) = some len ∧
      s'.used = s.used + len + 6 * n ∧ s'.buffer.length = s.buffer.length ∧
      s'.valPtrs.length = s.valPtrs.length + n ∧
      (n ≠ 0 → ∃ ptr, s'.valPtrs.getLast? = some ptr ∧ ptr.hashMessagePtr + 4 = s'.used) := by
  induction n generalizing segment s with
  | zero =>
    obtain rfl := Option.some.inj h
    exact ⟨0, rfl, rfl, rfl, rfl, fun h => absurd rfl h⟩
  | succ n ih =>
    obtain ⟨s₁, hstep, hrest⟩ := Option.bind_eq_some_iff.mp h
    obtain ⟨siglen, ptr, hread, hend, hused, -, hbuf, hsig, -, hptrs, hptr⟩ :=
      fillSegment_facts hstep
    obtain ⟨len, hlen, hused', hbuf', hptrs', hlast⟩ := ih hrest
    refine ⟨22 + siglen.toNat + len, ?_, by omega, hbuf'.trans hbuf, ?_, fun _ => ?_⟩
    · rw [signaturesLength_succ, hread, Option.bind_some, if_pos hend, ← hsig, hlen, Option.map_some]
    · rw [hptrs', hptrs, List.length_append, List.length_singleton]
      omega
    · cases n with
      | zero =>
        obtain rfl := Option.some.inj hrest
        exact ⟨ptr, by rw [hptrs, List.getLast?_append, List.getLast?_singleton]; rfl, hptr⟩
      | succ n => exact hlast (Nat.succ_ne_zero n)

/-- The whole loop goes through when the segments are in the attribute and fit the buffer. -/
theorem fill_goes {len : Nat} (hlen : signaturesLength n (mem.drop s.sigPtr) = some len)
    (hroom : s.used + len + 6 * n ≤ s.buffer.length) (hpath : s.pathPtr + 6 * n ≤ mem.length) :
    ∃ s', Loop.iterate (fillSegment mem myAS size) n segment s = some s' ∧
      s'.pathPtr ≤ s.pathPtr + 6 * n := by
  induction n generalizing segment s len with
  | zero => exact ⟨s, rfl, Nat.le_refl _⟩
  | succ n ih =>
    rw [signaturesLength_succ] at hlen
    obtain ⟨siglen, hread, hlen⟩ := Option.bind_eq_some_iff.mp hlen
    split at hlen
    · next hend =>
      obtain ⟨len', hlen', rfl⟩ := Option.map_eq_some_iff.mp hlen
      obtain ⟨s₁, hstep⟩ : ∃ s₁, fillSegment mem myAS size segment s = some s₁ :=
        fillSegment_goes hread hend (by omega) (by omega)
      obtain ⟨siglen', ptr, hread', -, hused, -, hbuf, hsig, hpath', -⟩ := fillSegment_facts hstep
      obtain rfl := Option.some.inj (hread.symm.trans hread')
      have hstay : s₁.pathPtr ≤ s.pathPtr + 6 := by
        rw [hpath']
        split <;> omega
      obtain ⟨s', hrest, hle⟩ := ih (by rwa [hsig]) (by omega) (by omega)
      exact ⟨s', (Loop.iterate_succ hstep).trans hrest, by omega⟩
    · cases hlen

/-! ## The message -/

/-- A built message: the algorithm id stands behind the last slice's target AS and the origin, and
the NLRI behind it. -/
theorem fillMessage_facts {nlri : ScaPrefix} {pSeg sigSeg used : Nat} {blockLength : UInt16}
    {msg : HashMessage}
    (h : fillMessage mem myAS nlri algoID n pSeg sigSeg blockLength = some (msg, used)) :
    ∃ len, signaturesLength n (mem.drop sigSeg) = some len ∧ 3 + len ≤ blockLength.toNat ∧
      (n = 0 → pSeg + 6 ≤ mem.length) ∧ 0 < used ∧ used ≤ msg.buffer.length ∧
      msg.buffer.length = 12 + 6 * n + blockLength.toNat + nlri.byteLength ∧
      msg.bufferSize = UInt32.ofNat msg.buffer.length ∧ msg.segmentCount = UInt16.ofNat n ∧
      msg.hashMessageValPtr.length = n ∧
      (n ≠ 0 → ∃ ptr, msg.hashMessageValPtr.getLast? = some ptr ∧
        msg.buffer[ptr.hashMessagePtr + 10]? = some algoID ∧
        ptr.hashMessagePtr + 15 + nlri.byteLength ≤ msg.buffer.length) := by
  simp only [fillMessage, Option.bind_eq_bind, Option.bind_eq_some_iff, Option.some.injEq,
    Prod.mk.injEq] at h
  obtain ⟨s, hfill, origin, horigin, b₁, hw₁, b₂, hw₂, nlriBytes, hnlri, b₃, hw₃, rfl, rfl⟩ := h
  obtain ⟨len, hlen, hused, hbuf, hptrs, hlast⟩ := fill_facts hfill
  obtain ⟨hl₁, hr₁, -⟩ := writeAt_eq_some hw₁
  obtain ⟨hl₂, hr₂, hid, -⟩ := writeAt_eq_some hw₂
  obtain ⟨hl₃, hr₃, -, hkept⟩ := writeAt_eq_some hw₃
  have hsize := hbuf.trans (List.length_replicate ..)
  rw [length_of_readAt hnlri] at hr₃
  have hnine : b₃.length = 12 + 6 * n + blockLength.toNat + nlri.byteLength := by omega
  simp only at hused
  refine ⟨len, hlen, by omega, ?_, by omega, ?_, hnine, ?_, rfl, hptrs.trans (Nat.zero_add n),
    fun hn => ?_⟩
  · rintro rfl
    obtain rfl := Option.some.inj hfill
    exact (isSome_readAt _ _ _).mp (Option.isSome_of_eq_some horigin)
  · dsimp only
    omega
  · dsimp only
    congr 1
    omega
  · obtain ⟨ptr, hptr, hat⟩ := hlast hn
    refine ⟨ptr, hptr, ?_, ?_⟩
    · have hoff : ptr.hashMessagePtr + 10 = s.used + 6 := by omega
      rw [hoff, hkept _ (.inl (Nat.lt_succ_self _))]
      exact hid 0 Nat.zero_lt_one
    · dsimp only
      omega

/-- A message is built when the segments and the origin are in the attribute and the signature
segments in their block. -/
theorem fillMessage_goes (nlri : Nlri) {pSeg sigSeg len : Nat} {blockLength : UInt16}
    (hlen : signaturesLength n (mem.drop sigSeg) = some len) (hblock : 3 + len ≤ blockLength.toNat)
    (hpath : pSeg + 6 * n + 6 ≤ mem.length) :
    ∃ msg used, fillMessage mem myAS nlri.toSca algoID n pSeg sigSeg blockLength =
      some (msg, used) := by
  obtain ⟨size, hsize⟩ : ∃ size,
      size = 4 + (n + 1) * 6 + blockLength.toNat + 1 + 4 + nlri.toSca.byteLength - 3 := ⟨_, rfl⟩
  have hroom : 4 + len + 6 * n ≤ (List.replicate size (0 : UInt8)).length := by
    rw [List.length_replicate]
    omega
  have hfront : pSeg + 6 * n ≤ mem.length := Nat.le_trans (Nat.le_add_right _ 6) hpath
  obtain ⟨s, hfill, hle⟩ : ∃ s, Loop.iterate (fillSegment mem myAS size) n 0
      ⟨List.replicate size 0, 4, sigSeg, pSeg, []⟩ = some s ∧ s.pathPtr ≤ pSeg + 6 * n :=
    fill_goes hlen hroom hfront
  obtain ⟨len', hlen', hused, hbuf, -⟩ := fill_facts hfill
  obtain rfl := Option.some.inj (hlen.symm.trans hlen')
  simp only [List.length_replicate] at hused hbuf hle
  obtain ⟨origin, horigin⟩ : ∃ origin, mem.readAt s.pathPtr 6 = some origin :=
    Option.isSome_iff_exists.mp ((isSome_readAt _ _ _).mpr (by omega))
  obtain ⟨b₁, hw₁⟩ : ∃ b₁, s.buffer.writeAt s.used origin = some b₁ :=
    writeAt_isSome (by rw [length_of_readAt horigin]; omega)
  obtain ⟨hl₁, -⟩ := writeAt_eq_some hw₁
  obtain ⟨b₂, hw₂⟩ : ∃ b₂, b₁.writeAt (s.used + 6) [algoID] = some b₂ :=
    writeAt_isSome (by rw [List.length_singleton]; omega)
  obtain ⟨hl₂, -⟩ := writeAt_eq_some hw₂
  obtain ⟨b₃, hw₃⟩ : ∃ b₃, b₂.writeAt (s.used + 7) nlri.encode = some b₃ :=
    writeAt_isSome (by rw [HashMessageLemmas.Nlri.length_encode]; omega)
  exact ⟨⟨false, UInt32.ofNat size, b₃, UInt16.ofNat n, s.valPtrs⟩,
    s.used + 7 + (nlri.toSca.byteLength + 4), by
      simp only [fillMessage, ← hsize, hfill, horigin, hw₁, hw₂,
        HashMessageLemmas.Nlri.readAt_memory, hw₃, Option.bind_eq_bind, Option.bind_some]⟩

/-! ## The declared length -/

theorem le_signaturesLength {sigs : Bytes} {len : Nat} (h : signaturesLength n sigs = some len) :
    22 * n ≤ len := by
  induction n generalizing sigs len with
  | zero => exact Nat.zero_le _
  | succ n ih =>
    simp only [signaturesLength, Option.bind_eq_bind, Option.bind_eq_some_iff] at h
    obtain ⟨siglen, -, h⟩ := h
    split at h
    · obtain ⟨rest, hrest, heq⟩ := Option.bind_eq_some_iff.mp h
      obtain rfl := Option.some.inj heq
      have := ih hrest
      omega
    · cases h

/-- The block is a part of what was searched. -/
theorem BlockWalk.length_le {rest : Bytes} {out : Option Bytes} (h : BlockWalk algoID rest out)
    {block : Bytes} (hout : out = some block) : block.length ≤ rest.length := by
  induction h with
  | missing => cases hout
  | corrupt => cases hout
  | found =>
    obtain rfl := Option.some.inj hout
    exact Nat.le_refl _
  | skip _ _ _ _ _ _ ih =>
    refine Nat.le_trans (ih hout) ?_
    rw [List.length_drop]
    exact Nat.sub_le _ _

/-- A search that starts behind the attribute reads outside of it. -/
theorem findBlock_outside (hptr : mem.length ≤ ptr) (hrem : remainder ≠ 0) :
    findBlock mem algoID ptr remainder = none := by
  have hread : mem.be16At ptr = none := by
    rw [← Option.not_isSome_iff_eq_none, isSome_be16At]
    omega
  rw [findBlock, if_neg hrem, hread]

/-- A path that is longer than the attribute is not searched behind: the remainder has wrapped, and the
search starts outside. -/
theorem le_of_findBlock {length secPathLen : UInt16} {start : Nat} {r : BlockSearch}
    (hmem : mem.length = start + length.toNat)
    (h : findBlock mem algoID (start + secPathLen.toNat) (length - secPathLen) = some r) :
    secPathLen.toNat ≤ length.toNat := by
  by_contra hgt
  have hne : length - secPathLen ≠ 0 := by
    intro h0
    have heq := UInt16.sub_add_cancel length secPathLen
    rw [h0, UInt16.zero_add] at heq
    rw [heq] at hgt
    exact hgt (Nat.le_refl _)
  rw [findBlock_outside (by omega) hne] at h
  cases h

/-- The accesses of a call, one after the other. -/
theorem generatesSafely_iff {attr : RawAttr} {nlri : Nlri} {length : UInt16} {secPath : Nat}
    (hencode : attr.encode = mem) (hlength : attrLength mem = some (length, secPath)) :
    GeneratesSafely attr nlri myAS algoID ↔
      ∃ secPathLen r, mem.be16At secPath = some secPathLen ∧
        findBlock mem algoID (secPath + secPathLen.toNat) (length - secPathLen) = some r ∧
        ∀ sigSeg blockLength, r = .found sigSeg blockLength → ∃ msg used,
          fillMessage mem myAS nlri.toSca algoID (secPathLen.toNat / 6) (secPath + 2) sigSeg
            blockLength = some (msg, used) := by
  rw [GeneratesSafely, hencode]
  constructor
  · rintro ⟨used, status, data, hcall, -⟩
    simp only [generateHashMessage, Option.isSome_none, Bool.false_eq_true, if_false, hlength,
      Option.bind_eq_bind, Option.bind_some, Option.bind_eq_some_iff] at hcall
    obtain ⟨secPathLen, hpath, r, hfind, hcall⟩ := hcall
    refine ⟨secPathLen, r, hpath, hfind, ?_⟩
    rintro sigSeg blockLength rfl
    obtain ⟨⟨msg, used'⟩, hfill, -⟩ := Option.bind_eq_some_iff.mp hcall
    exact ⟨msg, used', hfill⟩
  · rintro ⟨secPathLen, r, hpath, hfind, hfill⟩
    cases r with
    | missing =>
      exact ⟨0, _, _, by simp [generateHashMessage, hlength, hpath, hfind]; exact ⟨rfl, rfl⟩, rfl⟩
    | corrupt =>
      exact ⟨0, _, _, by simp [generateHashMessage, hlength, hpath, hfind]; exact ⟨rfl, rfl⟩, rfl⟩
    | found sigSeg blockLength =>
      obtain ⟨msg, used, hfill⟩ := hfill sigSeg blockLength rfl
      obtain ⟨len, -, -, -, hpos, hinside, hsize, hbuf, hcount, hptrs, -⟩ :=
        fillMessage_facts hfill
      have hlt := blockLength.toNat_lt
      have hpl := secPathLen.toNat_lt
      have hnlri := HashMessageLemmas.Nlri.byteLength_le nlri
      refine ⟨used, Status.ok, ⟨myAS, Status.ok, some mem, some nlri.toSca, some msg, none⟩,
        by simp [generateHashMessage, hlength, hpath, hfind, hfill], hpos, hinside, ?_, ?_⟩
      · rw [hbuf, UInt32.toNat_ofNat_of_lt' (show msg.buffer.length < 2 ^ 32 by omega)]
      · rw [hptrs, hcount, HashMessageLemmas.toNat_ofNat16 (by omega)]

end MalformedLemmas

open MalformedLemmas HashMessageLemmas

/-- `sca_generateHashMessage` stays within the attribute and its message, and comes back with a
message or with nothing, exactly for the values `Handled` describes. -/
theorem generateHashMessage_iff (attr : RawAttr) (nlri : Nlri) (myAS : UInt32) (algoID : UInt8) :
    GeneratesSafely attr nlri myAS algoID ↔ Handled algoID attr.value := by
  obtain ⟨header, hbytes, hlength⟩ :=
    attrLength_value attr.flags attr.typeCode attr.value attr.fits
  have hencode : attr.encode = header ++ attr.value := hbytes
  have hvalue : (header ++ attr.value).drop header.length = attr.value := List.drop_left
  have hmem : (header ++ attr.value).length = header.length + attr.value.length :=
    List.length_append
  have hshort : attr.value.length < 65536 := by
    have hfits := attr.fits
    split at hfits <;> omega
  have hpath : (header ++ attr.value).be16At header.length = attr.value.be16At 0 := by
    rw [← hvalue, be16At_drop, Nat.add_zero, hvalue]
  have hrest (n : Nat) : (header ++ attr.value).drop (header.length + n) = attr.value.drop n := by
    rw [← List.drop_drop, hvalue]
  have hrem {secPathLen : UInt16} (hle : secPathLen.toNat ≤ attr.value.length) :
      (UInt16.ofNat attr.value.length - secPathLen).toNat =
        ((header ++ attr.value).drop (header.length + secPathLen.toNat)).length := by
    have hof := toNat_ofNat16 hshort
    rw [UInt16.toNat_sub_of_le _ _ (UInt16.le_iff_toNat_le.mpr (by rwa [hof])), hof, hrest,
      List.length_drop]
  rw [generatesSafely_iff hencode hlength, Handled]
  constructor
  · rintro ⟨secPathLen, r, hread, hfind, hfill⟩
    rw [hpath] at hread
    have hle : secPathLen.toNat ≤ attr.value.length := by
      rw [← toNat_ofNat16 hshort]
      exact le_of_findBlock (by rw [hmem, toNat_ofNat16 hshort]) hfind
    obtain ⟨out, hwalk, hends⟩ := walk_of_findBlock (hrem hle) hfind
    rw [hrest] at hwalk
    refine ⟨secPathLen, out, hread, hle, hwalk, ?_⟩
    rintro block rfl
    cases r with
    | missing => cases hends
    | corrupt => cases hends
    | found sigSeg blockLength =>
      obtain ⟨ptr, rfl, rfl, hlen, -⟩ := hends
      obtain ⟨msg, used, hfill⟩ := hfill _ _ rfl
      obtain ⟨len, hsigs, hblock, hempty, -⟩ := fillMessage_facts hfill
      refine ⟨blockLength, len, hlen, by rwa [List.drop_drop], hblock, fun h0 => ?_⟩
      have := hempty h0
      omega
  · rintro ⟨secPathLen, out, hread, hle, hwalk, hfits⟩
    obtain ⟨r, hfind, hends⟩ := findBlock_of_walk hwalk (hrest _).symm (by rw [hrem hle, hrest])
    refine ⟨secPathLen, r, hpath.trans hread, hfind, ?_⟩
    rintro sigSeg blockLength rfl
    cases hout : out with
    | none =>
      rw [hout] at hends
      cases hends
    | some block =>
      rw [hout] at hends
      obtain ⟨ptr, rfl, rfl, hlen, hin⟩ := hends
      obtain ⟨blockLength', len, hlen', hsigs, hblock, hempty⟩ := hfits _ hout
      obtain rfl := Option.some.inj (hlen.symm.trans hlen')
      rw [List.drop_drop] at hsigs
      have hcount := le_signaturesLength hsigs
      have hback := BlockWalk.length_le hwalk hout
      simp only [List.length_drop] at hback hin
      refine fillMessage_goes nlri hsigs hblock ?_
      rcases Nat.eq_zero_or_pos (secPathLen.toNat / 6) with h0 | hpos
      · have := hempty h0
        omega
      · omega

/-- One path segment, and a block of algorithm 1 that ends the attribute without a signature
segment. -/
def shortBlock : RawAttr := ⟨0x40, 33, [0, 8, 1, 0, 0, 0, 0xFD, 0xE9, 0, 3, 1], by decide⟩

theorem shortBlock_overruns : ¬ GeneratesSafely shortBlock sampleNlri (htonl 65003) 1 := by
  have hlength : attrLength shortBlock.encode = some (11, 3) := rfl
  rw [generatesSafely_iff rfl hlength]
  rintro ⟨secPathLen, r, hread, hfind, hfill⟩
  obtain rfl : 8 = secPathLen :=
    Option.some.inj ((rfl : shortBlock.encode.be16At 3 = some 8).symm.trans hread)
  have hfound : findBlock shortBlock.encode 1 11 3 = some (.found 14 3) := by
    rw [findBlock]
    rfl
  obtain ⟨msg, used, hmsg⟩ := hfill 14 3 (Option.some.inj (hfind.symm.trans hfound))
  have hnone : fillMessage shortBlock.encode (htonl 65003) sampleNlri.toSca 1 1 5 14 3 = none := rfl
  exact absurd (hmsg.symm.trans hnone) (by simp)

end SrxSuite.Crypto

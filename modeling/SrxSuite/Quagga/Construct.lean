import SrxSuite.Quagga.PathMemory

/-!
# The BGPsec_PATH of an outgoing update

The model of `constructBGPSecPathAttribute` (`bgpd/bgp_validate.c`). The function works on a duplicate
of the received attribute: it writes the secure path, and for each new signature takes the block of its
algorithm out of the duplicate and writes it.

`Constructed` says that the function writes the encoding of the extended path and leaves the memory as
it was. Results:
1. `addSignature_first`: the block of the new signature is the first of the list.
2. `constructed_origin` and `constructed_single`: the attribute of an origin, and of a path with one
   block.
-/

namespace SrxSuite.Quagga

open Bytes Util SListLemmas PathLemmas

variable {size : Nat}

/-! ## The code -/

/-- `SCA_Signature`, as far as it is used here. -/
structure ScaSignature where
  algoID : UInt8
  ski : Bytes
  sigLen : UInt16
  sigBuff : Bytes

/-- The state of the loop over the new signatures: the memory, `bpa->sigBlocks` and the stream. -/
structure Builder (size : Nat) where
  mem : Mem
  sigBlocks : Option Nat
  stream : Stream size

/-- The three `put`s of a path segment. -/
def putPathSegment (s : Stream size) (g : PathSegment) : Option (Stream size) := do
  let s ← streamPutc s g.pCount
  let s ← streamPutc s g.flags
  streamPutl s g.as

/-- The three `put`s of a signature. -/
def putSigSegment (s : Stream size) (g : SigSegment) : Option (Stream size) := do
  let s ← streamPut s g.ski SKI_LENGTH
  let s ← streamPutw s g.sigLen
  streamPut s g.signature g.sigLen.toNat

/-- The loop that looks for the block of an algorithm. `prevBlock` is set after `sigBlock` has moved on,
and so is the same block. -/
def findSigBlock (algoID : UInt8) : (fuel : Nat) → SListMem (SigBlock (Option Nat)) →
    (sigBlock prevBlock : Option Nat) → Option (Option Nat × Option Nat)
  | _, _, none, prevBlock => some (none, prevBlock)
  | 0, _, some _, _ => none
  | fuel + 1, m, some a, prevBlock => do
    let sb ← m.cells a
    if sb.data.algoSuiteId = algoID then some (some a, prevBlock)
    else findSigBlock algoID fuel m sb.next sb.next

/-- Write a block with the new signature in front of those that it has. The length is written last. -/
def putSigBlock (sigs : SListMem SigSegment) (sigBlock : SigBlock (Option Nat))
    (signature : ScaSignature) (s : Stream size) : Option (Stream size) := do
  let sbPointer := s.data.length
  let s ← streamPutw s 0
  let s ← streamPutc s sigBlock.algoSuiteId
  let s ← putSigSegment s ⟨some signature.ski, signature.sigLen, some signature.sigBuff⟩
  let s ← forEachNode putSigSegment sigs.fresh sigs sigBlock.sigSegments s
  let sbLength := UInt16.ofNat (s.data.length - sbPointer)
  streamPutwAt s sbPointer sbLength

/-- Take the block `a` out of the list: the memory and `bpa->sigBlocks`. -/
def unlinkSigBlock (blocks : SListMem (SigBlock (Option Nat))) (sigBlocks : Option Nat) (a : Nat)
    (next prevBlock : Option Nat) : Option (SListMem (SigBlock (Option Nat)) × Option Nat) :=
  if sigBlocks = some a then some (blocks, next)
  else (setBehind blocks prevBlock next).map fun blocks => (blocks, sigBlocks)

/-- Write a block, unlink it and free it. -/
def takeSigBlock (signature : ScaSignature) (b : Builder size) (a : Nat) (prevBlock : Option Nat) :
    Option (Builder size) := do
  let sb ← b.mem.blocks.cells a
  let stream ← putSigBlock b.mem.sigs sb.data signature b.stream
  let (blocks, sigBlocks) ← unlinkSigBlock b.mem.blocks b.sigBlocks a sb.next prevBlock
  let mem ← freeSigBlock { b.mem with blocks := blocks } a
  some ⟨mem, sigBlocks, stream⟩

/-- The body of the loop over the new signatures; `error` is `return 0`. -/
def addSignature (numPathSegments : Nat) (signature : ScaSignature) (b : Builder size) :
    Option (Except (Builder size) (Builder size)) := do
  match ← findSigBlock signature.algoID b.mem.blocks.fresh b.mem.blocks b.sigBlocks b.sigBlocks with
  | (some a, prevBlock) => (takeSigBlock signature b a prevBlock).map .ok
  | (none, _) =>
    if numPathSegments ≠ 1 then some (.error b)
    else
      let blocks := newNode b.mem.blocks ⟨0, signature.algoID, none⟩
      (takeSigBlock signature { b with mem := { b.mem with blocks := blocks } } b.mem.blocks.fresh
        none).map .ok

/-- The loop over the new signatures. -/
def addSignatures (numPathSegments : Nat) : List ScaSignature → Builder size →
    Option (Except (Builder size) (Builder size))
  | [], b => some (.ok b)
  | signature :: signatures, b => do
    match ← addSignature numPathSegments signature b with
    | .error b => some (.error b)
    | .ok b => addSignatures numPathSegments signatures b

/-- The secure path: the own segment and those of the attribute. The segments are counted. -/
def putSecurePath (m : Mem) (bpa : AttrPtrs) (own : PathSegment) (s : Stream size) :
    Option (Stream size × Nat) := do
  let secPathLen := UInt16.ofNat
    (OCTET_SECURE_PATH_SEGMENT + if bpa.securePathLen = 0 then 2 else bpa.securePathLen)
  let s ← streamPutw s secPathLen
  let s ← putPathSegment s own
  forEachNode (fun (s, numPathSegments) g => (putPathSegment s g).map (·, numPathSegments + 1))
    m.segs.fresh m.segs bpa.pathSegments (s, 1)

/-- `constructBGPSecPathAttribute`, with the AS number of the router, and its return value. -/
def constructBGPSecPathAttribute (m : Mem) (as : UInt32) (s : Stream size) (attr : Option AttrPtrs)
    (flags pCount : UInt8) (signatures : List ScaSignature) : Option (Mem × Stream size × UInt16) := do
  let attrLenPtr := s.data.length
  let (m, bpa) ← bgpsecDup m attr true
  let bpa ← bpa
  let (s, numPathSegments) ← putSecurePath m bpa ⟨as, pCount, flags⟩ s
  match ← addSignatures numPathSegments signatures ⟨m, bpa.sigBlocks, s⟩ with
  | .error b => some (b.mem, b.stream, 0)
  | .ok b =>
    let attrLen := UInt16.ofNat (b.stream.data.length - attrLenPtr)
    let m ← bgpsecPathFree b.mem { bpa with sigBlocks := b.sigBlocks }
    some (m, b.stream, attrLen)

/-! ## The round trip -/

/-- A new signature. -/
structure NewSignature where
  algoID : UInt8
  signature : Signature
  deriving DecidableEq

def NewSignature.sca (n : NewSignature) : ScaSignature :=
  ⟨n.algoID, n.signature.ski, UInt16.ofNat n.signature.signature.length, n.signature.signature⟩

/-- The signatures of an algorithm. -/
def Path.signaturesOf (p : Path) (algoID : UInt8) : List Signature :=
  ((p.blocks.find? fun b => b.algoSuiteId = algoID).map Block.signatures).getD []

/-- The block for a new signature. -/
def Path.extendBlock (p : Path) (n : NewSignature) : Block :=
  ⟨n.algoID, n.signature :: p.signaturesOf n.algoID⟩

/-- The path with the own segment in front, and each new signature in front of those of its
algorithm. -/
def Path.extend (p : Path) (own : PathSegment) (new : List NewSignature) : Path :=
  ⟨own :: p.segments, new.map p.extendBlock⟩

/-- A path that was received, or the empty path of an origin. -/
structure Path.WellFormed (p : Path) : Prop where
  none : p.segments = [] → p.blocks = []
  some : p.segments ≠ [] → p.blocks.length = 1 ∨ p.blocks.length = 2
  algorithms : (p.blocks.map Block.algoSuiteId).Nodup
  counts : ∀ b ∈ p.blocks, b.signatures.length = p.segments.length

/-- One signature for each block, in any order; one or two for an origin. -/
def Path.Answered (p : Path) (new : List NewSignature) : Prop :=
  if p.segments = [] then new.length = 1 ∨ new.length = 2
  else (new.map NewSignature.algoID).Perm (p.blocks.map Block.algoSuiteId)

/-- The attribute, or `NULL` for the path without segments. -/
def Represents (m : Mem) (attr : Option AttrPtrs) (p : Path) : Prop :=
  match attr with
  | none => p = ⟨[], []⟩
  | some bpa => Held m bpa p

/-! ## What is written -/

namespace ConstructLemmas

theorem writes_pathSegment (g : PathSegment) :
    Writes (fun s : Stream size => putPathSegment s g) g.bytes :=
  Writes.bind (Writes.putc g.pCount) (Writes.bind (Writes.putc g.flags) (Writes.putl g.as))

theorem writes_signature (g : Signature) :
    Writes (fun s : Stream size => putSigSegment s g.segment) g.bytes :=
  Writes.bind (Writes.put g.skiLength) (Writes.bind (Writes.putw _)
    (Writes.put (UInt16.toNat_ofNat_of_lt' g.signatureLength).symm))

/-- The segments of the attribute are written and counted. -/
theorem foldlM_pathSegments (segs : List PathSegment) (s : Stream size) (k : Nat)
    (hroom : s.data.length + (segs.flatMap PathSegment.bytes).length ≤ size) :
    ∃ s', segs.foldlM (fun (s, numPathSegments) g =>
        (putPathSegment s g).map (·, numPathSegments + 1)) (s, k) = some (s', k + segs.length) ∧
      s'.data = s.data ++ segs.flatMap PathSegment.bytes := by
  induction segs generalizing s k with
  | nil => exact ⟨s, rfl, (List.append_nil _).symm⟩
  | cons g segs ih =>
    rw [List.flatMap_cons, List.length_append] at hroom
    obtain ⟨s₁, hput, hdata⟩ := writes_pathSegment g s (by omega)
    obtain ⟨s₂, hrest, hdata'⟩ := ih s₁ (k + 1) (by rw [hdata, List.length_append]; omega)
    replace hput : putPathSegment s g = some s₁ := hput
    refine ⟨s₂, ?_, ?_⟩
    · rw [List.foldlM_cons]
      show ((putPathSegment s g).map (·, k + 1)).bind _ = _
      rw [hput, List.length_cons, Nat.add_comm segs.length, ← Nat.add_assoc]
      exact hrest
    · rw [hdata', hdata, List.append_assoc, List.flatMap_cons]

theorem putSecurePath_eq {m : Mem} {bpa : AttrPtrs} {segs : List PathSegment} {own : PathSegment}
    {s : Stream size} (hlen : (if bpa.securePathLen = 0 then 2 else bpa.securePathLen) =
      OCTET_SECURE_PATH_LEN + OCTET_SECURE_PATH_SEGMENT * segs.length)
    (hsegs : ListAt m.segs bpa.pathSegments segs)
    (hroom : s.data.length + (2 + OCTET_SECURE_PATH_SEGMENT * (segs.length + 1)) ≤ size) :
    ∃ s', putSecurePath m bpa own s = some (s', 1 + segs.length) ∧
      s'.data = s.data ++ (be16 (UInt16.ofNat (OCTET_SECURE_PATH_LEN +
        OCTET_SECURE_PATH_SEGMENT * (segs.length + 1))) ++ (own :: segs).flatMap PathSegment.bytes) := by
  have hbytes : ((own :: segs).flatMap PathSegment.bytes).length =
      OCTET_SECURE_PATH_SEGMENT * (segs.length + 1) := by
    rw [length_flatMap_of length_bytes_segment, List.map_const', List.sum_replicate_nat, Nat.mul_comm,
      List.length_cons]
  rw [List.flatMap_cons, List.length_append] at hbytes
  obtain ⟨s₁, hput, hdata⟩ := Writes.bind (Writes.putw (UInt16.ofNat
    (OCTET_SECURE_PATH_SEGMENT + if bpa.securePathLen = 0 then 2 else bpa.securePathLen)))
    (writes_pathSegment own) s (by
      rw [List.length_append, length_be16]
      omega)
  obtain ⟨s₂, hrest, hdata'⟩ := foldlM_pathSegments segs s₁ 1 (by
    rw [hdata, List.length_append, List.length_append, length_be16]
    omega)
  refine ⟨s₂, ?_, ?_⟩
  · obtain ⟨s₀, hput₀, hput₁⟩ := Option.bind_eq_some_iff.mp hput
    unfold putSecurePath
    simp only [Option.bind_eq_bind, hput₀, hput₁, Option.bind_some, hsegs.forEachNode_eq]
    exact hrest
  · have hadd : OCTET_SECURE_PATH_SEGMENT + (OCTET_SECURE_PATH_LEN +
        OCTET_SECURE_PATH_SEGMENT * segs.length) =
        OCTET_SECURE_PATH_LEN + OCTET_SECURE_PATH_SEGMENT * (segs.length + 1) := by
      rw [Nat.mul_succ]
      omega
    rw [hdata', hdata, hlen, hadd, List.flatMap_cons, List.append_assoc, List.append_assoc]

theorem writes_sigBlock {sigs : SListMem SigSegment} {sb : SigBlock (Option Nat)} {gs : List Signature}
    (h : ListAt sigs sb.sigSegments (gs.map Signature.segment)) (n : NewSignature) :
    Writes (fun s : Stream size => putSigBlock sigs sb n.sca s)
      (Block.mk sb.algoSuiteId (n.signature :: gs)).bytes := by
  have hgs : Writes (fun s : Stream size => forEachNode putSigSegment sigs.fresh sigs sb.sigSegments s)
      (gs.flatMap Signature.bytes) := by
    intro s hroom
    have hfold : (gs.map Signature.segment).foldlM putSigSegment s =
        gs.foldlM (fun s g => putSigSegment s g.segment) s := List.foldlM_map ..
    show ∃ s', forEachNode putSigSegment sigs.fresh sigs sb.sigSegments s = some s' ∧ _
    rw [h.forEachNode_eq, hfold]
    exact Writes.foldlM gs (fun g _ => writes_signature g) s hroom
  have hbody := Writes.bind (Writes.putw 0) (Writes.bind (Writes.putc sb.algoSuiteId)
    (Writes.bind (writes_signature n.signature) hgs))
  intro s hroom
  obtain ⟨s₄, hput, hdata⟩ := hbody s (by
    rw [Block.bytes, List.length_append] at hroom
    rw [List.length_append]
    exact hroom)
  obtain ⟨s₁, hput₁, hput⟩ := Option.bind_eq_some_iff.mp hput
  obtain ⟨s₂, hput₂, hput⟩ := Option.bind_eq_some_iff.mp hput
  obtain ⟨s₃, hput₃, hput₄⟩ := Option.bind_eq_some_iff.mp hput
  have hlen : s₄.data.length - s.data.length = (Block.mk sb.algoSuiteId (n.signature :: gs)).size := by
    rw [hdata, List.length_append, Nat.add_sub_cancel_left, ← length_bytes_block]
    rfl
  rw [← List.append_assoc] at hdata
  obtain ⟨s₅, hput₅, hdata'⟩ := streamPutwAt_middle hdata (UInt16.ofNat (s₄.data.length - s.data.length))
  refine ⟨s₅, ?_, ?_⟩
  · show putSigBlock sigs sb n.sca s = some s₅
    unfold putSigBlock
    simp only [Option.bind_eq_bind, hput₁, hput₂, Option.bind_some]
    rw [show putSigSegment s₂ ⟨some n.sca.ski, n.sca.sigLen, some n.sca.sigBuff⟩ = some s₃ from hput₃]
    simp only [Option.bind_some, hput₄, hput₅]
  · rw [hdata', hlen, List.append_assoc]
    rfl

/-- A block that can be unlinked is written, and its nodes are freed. -/
theorem takeSigBlock_eq {b : Builder size} {a : Nat} {prevBlock next next' root : Option Nat}
    {sb : SigBlock (Option Nat)} {blocks : SListMem (SigBlock (Option Nat))}
    {xs : List (Nat × SigSegment)} {gs : List Signature} (n : NewSignature)
    (hcell : b.mem.blocks.cells a = some ⟨sb, next⟩)
    (hunlink : unlinkSigBlock b.mem.blocks b.sigBlocks a next prevBlock = some (blocks, root))
    (hcell' : blocks.cells a = some ⟨sb, next'⟩)
    (hchain : Chain b.mem.sigs.cells sb.sigSegments xs none)
    (hxs : xs.map Prod.snd = gs.map Signature.segment)
    (hbound : ∀ c ∈ addrs xs, c < b.mem.sigs.fresh)
    (hroom : b.stream.data.length + (Block.mk sb.algoSuiteId (n.signature :: gs)).size ≤ size) :
    ∃ sigs stream, takeSigBlock n.sca b a prevBlock =
        some ⟨⟨b.mem.segs, blocks.free a, sigs⟩, root, stream⟩ ∧
      stream.data = b.stream.data ++ (Block.mk sb.algoSuiteId (n.signature :: gs)).bytes ∧
      sigs.fresh = b.mem.sigs.fresh ∧ ∀ c ∉ addrs xs, sigs.cells c = b.mem.sigs.cells c := by
  obtain ⟨stream, hput, hdata⟩ := writes_sigBlock ⟨xs, hchain, hxs, hbound⟩ n b.stream
    (by rw [length_bytes_block]; exact hroom)
  replace hput : putSigBlock b.mem.sigs sb n.sca b.stream = some stream := hput
  obtain ⟨sigs, hfree, hfresh, hsame⟩ := freeNodes_chain hchain (chain_length_le hchain hbound)
  refine ⟨sigs, stream, ?_, hdata, hfresh, hsame⟩
  unfold takeSigBlock freeSigBlock
  simp only [Option.bind_eq_bind, hcell, Option.bind_some, hput, hunlink, hcell', hfree]

theorem unlinkSigBlock_root (blocks : SListMem (SigBlock (Option Nat))) (a : Nat)
    (next prevBlock : Option Nat) :
    unlinkSigBlock blocks (some a) a next prevBlock = some (blocks, next) := if_pos rfl

/-- The first block of the list is the one of the algorithm. -/
theorem findSigBlock_first {algoID : UInt8} {m : SListMem (SigBlock (Option Nat))} {a fuel : Nat}
    {sb : SListNode (SigBlock (Option Nat))} {prevBlock : Option Nat} (hcell : m.cells a = some sb)
    (halgo : sb.data.algoSuiteId = algoID) :
    findSigBlock algoID (fuel + 1) m (some a) prevBlock = some (some a, prevBlock) := by
  unfold findSigBlock
  rw [hcell]
  exact if_pos halgo

/-- The signature of the first block. -/
theorem addSignature_first {b : Builder size} {a k : Nat} {next : Option Nat}
    {sb : SigBlock (Option Nat)} {xs : List (Nat × SigSegment)} {gs : List Signature}
    (n : NewSignature) (hroot : b.sigBlocks = some a)
    (hcell : b.mem.blocks.cells a = some ⟨sb, next⟩) (hfresh : a < b.mem.blocks.fresh)
    (halgo : sb.algoSuiteId = n.algoID) (hchain : Chain b.mem.sigs.cells sb.sigSegments xs none)
    (hxs : xs.map Prod.snd = gs.map Signature.segment)
    (hbound : ∀ c ∈ addrs xs, c < b.mem.sigs.fresh)
    (hroom : b.stream.data.length + (Block.mk n.algoID (n.signature :: gs)).size ≤ size) :
    ∃ sigs stream, addSignature k n.sca b =
        some (.ok ⟨⟨b.mem.segs, b.mem.blocks.free a, sigs⟩, next, stream⟩) ∧
      stream.data = b.stream.data ++ (Block.mk n.algoID (n.signature :: gs)).bytes ∧
      sigs.fresh = b.mem.sigs.fresh ∧ ∀ c ∉ addrs xs, sigs.cells c = b.mem.sigs.cells c := by
  rw [← halgo] at hroom ⊢
  obtain ⟨sigs, stream, htake, hrest⟩ := @takeSigBlock_eq _ b a (some a) next next next sb
    b.mem.blocks xs gs n hcell (by rw [hroot]; exact unlinkSigBlock_root ..) hcell hchain hxs hbound hroom
  refine ⟨sigs, stream, ?_, hrest⟩
  obtain ⟨fuel, hfuel⟩ := Nat.exists_eq_succ_of_ne_zero (Nat.ne_of_gt (Nat.lt_of_le_of_lt (Nat.zero_le a) hfresh))
  have hfind : findSigBlock n.sca.algoID b.mem.blocks.fresh b.mem.blocks (some a) (some a) =
      some (some a, some a) := by
    rw [hfuel]
    exact findSigBlock_first hcell halgo
  unfold addSignature
  rw [hroot, hfind]
  show (takeSigBlock n.sca b a (some a)).map Except.ok = _
  rw [htake]
  rfl

/-- The signatures of an origin: a new block each, which is freed at once. -/
theorem addSignatures_origin (new : List NewSignature) (m : Mem) (s : Stream size)
    (hroom : s.data.length +
      ((new.map fun n => Block.mk n.algoID [n.signature]).map Block.size).sum ≤ size) :
    ∃ m' s', addSignatures 1 (new.map NewSignature.sca) ⟨m, none, s⟩ = some (.ok ⟨m', none, s'⟩) ∧
      s'.data = s.data ++ (new.map fun n => Block.mk n.algoID [n.signature]).flatMap Block.bytes ∧
      Extends m m' := by
  induction new generalizing m s with
  | nil => exact ⟨m, s, rfl, (List.append_nil _).symm, Extends.refl m⟩
  | cons n new ih =>
    simp only [List.map_cons, List.sum_cons] at hroom
    have hcell : (newNode m.blocks ⟨0, n.algoID, none⟩).cells m.blocks.fresh =
        some ⟨⟨0, n.algoID, none⟩, none⟩ := Function.update_self ..
    obtain ⟨sigs, s₁, htake, hdata, hfresh, hsame⟩ : ∃ sigs s₁,
        takeSigBlock n.sca ⟨⟨m.segs, newNode m.blocks ⟨0, n.algoID, none⟩, m.sigs⟩, none, s⟩
          m.blocks.fresh none = some ⟨⟨m.segs,
            (newNode m.blocks ⟨0, n.algoID, none⟩).free m.blocks.fresh, sigs⟩, none, s₁⟩ ∧
        s₁.data = s.data ++ (Block.mk n.algoID [n.signature]).bytes ∧ sigs.fresh = m.sigs.fresh ∧
        ∀ c ∉ addrs ([] : List (Nat × SigSegment)), sigs.cells c = m.sigs.cells c :=
      @takeSigBlock_eq _ ⟨⟨m.segs, newNode m.blocks ⟨0, n.algoID, none⟩, m.sigs⟩, none, s⟩
        m.blocks.fresh none none none none ⟨0, n.algoID, none⟩ _ [] [] n hcell rfl hcell rfl rfl
        (fun c hc => by cases hc) (Nat.le_trans (Nat.add_le_add_left (Nat.le_add_right _ _) _) hroom)
    have hadd : addSignature 1 n.sca ⟨m, none, s⟩ = some (.ok ⟨⟨m.segs,
        (newNode m.blocks ⟨0, n.algoID, none⟩).free m.blocks.fresh, sigs⟩, none, s₁⟩) := by
      unfold addSignature findSigBlock
      show (takeSigBlock n.sca ⟨⟨m.segs, newNode m.blocks ⟨0, n.algoID, none⟩, m.sigs⟩, none, s⟩
        m.blocks.fresh none).map Except.ok = _
      rw [htake]
      rfl
    obtain ⟨m', s', hrest, hdata', hext⟩ := ih
      ⟨m.segs, (newNode m.blocks ⟨0, n.algoID, none⟩).free m.blocks.fresh, sigs⟩ s₁ (by
        rw [hdata, List.length_append, length_bytes_block]
        omega)
    have hstep : Extends m
        ⟨m.segs, (newNode m.blocks ⟨0, n.algoID, none⟩).free m.blocks.fresh, sigs⟩ :=
      ⟨SameBelow.refl _ _, (sameBelow_newNode _).trans (sameBelow_free (Nat.le_refl _)),
        fun c _ => hsame c List.not_mem_nil, Nat.le_refl _, Nat.le_succ _, Nat.le_of_eq hfresh.symm⟩
    refine ⟨m', s', ?_, ?_, hstep.trans hext⟩
    · rw [List.map_cons]
      unfold addSignatures
      rw [hadd]
      exact hrest
    · rw [hdata', hdata, List.append_assoc]
      rfl

end ConstructLemmas

open ConstructLemmas

/-! ## The attribute of an origin and of one block -/

/-- What the function returns when it writes the whole path. -/
def Constructed (m : Mem) (s : Stream size) (attr : Option AttrPtrs) (p : Path) (own : PathSegment)
    (new : List NewSignature) : Prop :=
  ∃ m' s', constructBGPSecPathAttribute m own.as s attr own.flags own.pCount
      (new.map NewSignature.sca) = some (m', s', UInt16.ofNat (p.extend own new).size) ∧
    s'.data = s.data ++ (p.extend own new).bytes ∧ Extends m m'

namespace ConstructLemmas

section Run

variable {m m₁ m₂ m₃ : Mem} {s s₁ s' : Stream size} {attr : Option AttrPtrs} {bpa : AttrPtrs} {p : Path}
  {own : PathSegment} {new : List NewSignature} {root : Option Nat}

/-- The first part of the bytes. -/
theorem securePath_written (hlen : (if bpa.securePathLen = 0 then 2 else bpa.securePathLen) =
      p.securePathLen) (hsegs : ListAt m₁.segs bpa.pathSegments p.segments)
    (hroom : s.data.length + (p.extend own new).size ≤ size) :
    ∃ s₁, putSecurePath m₁ bpa own s = some (s₁, 1 + p.segments.length) ∧
      s₁.data = s.data ++ (be16 (UInt16.ofNat (p.extend own new).securePathLen) ++
        (own :: p.segments).flatMap PathSegment.bytes) ∧
      s₁.data.length + ((new.map p.extendBlock).map Block.size).sum ≤ size := by
  have hle : (p.extend own new).securePathLen ≤ (p.extend own new).size := Nat.le_add_right _ _
  obtain ⟨s₁, hput, hdata⟩ := @putSecurePath_eq _ m₁ bpa p.segments own s hlen hsegs
    (Nat.le_trans (Nat.add_le_add_left hle _) hroom)
  refine ⟨s₁, hput, hdata, ?_⟩
  have hlength : s₁.data.length = s.data.length + (p.extend own new).securePathLen := by
    rw [hdata, List.length_append, List.length_append, length_be16,
      length_flatMap_of length_bytes_segment, List.map_const', List.sum_replicate_nat, Nat.mul_comm]
    rfl
  rw [hlength, Nat.add_assoc]
  exact hroom

/-- From the duplicate to the result. -/
theorem construct_eq (hdup : bgpsecDup m attr true = some (m₁, some bpa)) {k : Nat}
    (hput : putSecurePath m₁ bpa own s = some (s₁, k))
    (hrun : addSignatures k (new.map NewSignature.sca) ⟨m₁, bpa.sigBlocks, s₁⟩ =
      some (.ok ⟨m₂, root, s'⟩)) :
    constructBGPSecPathAttribute m own.as s attr own.flags own.pCount (new.map NewSignature.sca) =
      (bgpsecPathFree m₂ { bpa with sigBlocks := root }).map fun m₃ =>
        (m₃, s', UInt16.ofNat (s'.data.length - s.data.length)) := by
  unfold constructBGPSecPathAttribute
  simp only [Option.bind_eq_bind, hdup, Option.bind_some, hput, hrun]
  cases bgpsecPathFree m₂ { bpa with sigBlocks := root } with
  | none => rfl
  | some m₃ => rfl

theorem constructed_of_run (hdup : bgpsecDup m attr true = some (m₁, some bpa)) {k : Nat}
    (hput : putSecurePath m₁ bpa own s = some (s₁, k))
    (hdata : s₁.data = s.data ++ (be16 (UInt16.ofNat (p.extend own new).securePathLen) ++
      (own :: p.segments).flatMap PathSegment.bytes))
    (hrun : addSignatures k (new.map NewSignature.sca) ⟨m₁, bpa.sigBlocks, s₁⟩ =
      some (.ok ⟨m₂, root, s'⟩))
    (hdata' : s'.data = s₁.data ++ (new.map p.extendBlock).flatMap Block.bytes)
    (hfree : bgpsecPathFree m₂ { bpa with sigBlocks := root } = some m₃) (hext : Extends m m₃) :
    Constructed m s attr p own new := by
  have hall : s'.data = s.data ++ (p.extend own new).bytes := by
    rw [hdata', hdata, List.append_assoc, List.append_assoc]
    rfl
  refine ⟨m₃, s', ?_, hall, hext⟩
  rw [construct_eq hdup hput hrun, hfree, hall, List.length_append, Nat.add_sub_cancel_left,
    length_bytes_path]
  rfl

/-- There is nothing to duplicate for an origin. -/
theorem bgpsecDup_origin (h : Represents m attr p) (hsegs : p.segments = []) :
    bgpsecDup m attr true = some (m, some ⟨0, none, none⟩) := by
  have hcheck : bgpsecSanityCheck m attr = some false := by
    cases attr with
    | none => rfl
    | some bpa =>
      obtain ⟨xs, hxs, hmap, -⟩ := h.segments
      rw [hsegs] at hmap
      obtain rfl := List.map_eq_nil_iff.mp hmap
      have hnull : bpa.pathSegments = none := hxs
      unfold bgpsecSanityCheck
      simp only [hnull]
  unfold bgpsecDup
  rw [hcheck]
  rfl

end Run

theorem securePathLen_ne_zero (p : Path) : p.securePathLen ≠ 0 := by
  unfold Path.securePathLen OCTET_SECURE_PATH_LEN
  omega

theorem extendBlock_first {p : Path} {c : Block} {rest : List Block} {n : NewSignature}
    (hblocks : p.blocks = c :: rest) (halgo : n.algoID = c.algoSuiteId) :
    p.extendBlock n = ⟨n.algoID, n.signature :: c.signatures⟩ := by
  unfold Path.extendBlock Path.signaturesOf
  rw [hblocks, List.find?_cons_of_pos (by simp [halgo])]
  rfl

theorem extendBlock_second {p : Path} {c d : Block} {rest : List Block} {n : NewSignature}
    (hblocks : p.blocks = c :: d :: rest) (halgo : n.algoID = d.algoSuiteId)
    (hne : c.algoSuiteId ≠ d.algoSuiteId) :
    p.extendBlock n = ⟨n.algoID, n.signature :: d.signatures⟩ := by
  unfold Path.extendBlock Path.signaturesOf
  rw [hblocks, List.find?_cons_of_neg (by simp [halgo, hne]), List.find?_cons_of_pos (by simp [halgo])]
  rfl

end ConstructLemmas

section Constructed

variable {m : Mem} {s : Stream size} {attr : Option AttrPtrs} {p : Path} {own : PathSegment}
  {new : List NewSignature}

/-- The attribute of an origin. -/
theorem constructed_origin (h : Represents m attr p) (hsegs : p.segments = []) (hblocks : p.blocks = [])
    (hroom : s.data.length + (p.extend own new).size ≤ size) : Constructed m s attr p own new := by
  have hblock : p.extendBlock = fun n => Block.mk n.algoID [n.signature] := by
    funext n
    unfold Path.extendBlock Path.signaturesOf
    rw [hblocks]
    rfl
  obtain ⟨s₁, hput, hdata, hroom'⟩ := @securePath_written _ m s ⟨0, none, none⟩ p own new
    (by unfold Path.securePathLen; rw [hsegs]; rfl)
    ⟨[], rfl, hsegs.symm, fun a ha => absurd ha List.not_mem_nil⟩ hroom
  rw [hblock] at hroom'
  obtain ⟨m', s', hrun, hdata', hext⟩ := addSignatures_origin new m s₁ hroom'
  rw [hsegs] at hput
  refine constructed_of_run (bgpsecDup_origin h hsegs) hput hdata hrun (hblock ▸ hdata') ?_ hext
  unfold bgpsecPathFree freeNodes
  simp only [Option.bind_eq_bind, Option.bind_some]
  unfold freeSigBlocks
  rfl

/-- The attribute for a path with one block. -/
theorem constructed_single {bpa : AttrPtrs} {c : Block} {n : NewSignature} (h : Held m bpa p)
    (hsegs : p.segments ≠ []) (hblocks : p.blocks = [c]) (hsigs : c.signatures ≠ [])
    (halgo : n.algoID = c.algoSuiteId) (hroom : s.data.length + (p.extend own [n]).size ≤ size) :
    Constructed m s (some bpa) p own [n] := by
  have hblock := extendBlock_first hblocks halgo
  obtain ⟨m₁, hdup, hcopy⟩ := bgpsecDup_eq h hsegs hblocks hsigs true
  obtain ⟨len, tail, hchain, htail⟩ := hcopy.blocks
  obtain rfl := List.forall₂_nil_right_iff.mp htail
  obtain ⟨-, next, hcell, rfl⟩ := hchain
  obtain ⟨s₁, hput, hdata, hroom'⟩ := @securePath_written _ m₁ s
    ⟨p.securePathLen, some m.segs.fresh, some m.blocks.fresh⟩ p own [n]
    (if_neg (securePathLen_ne_zero p)) hcopy.listAt hroom
  obtain ⟨sigs, s', hadd, hdata', hsigsFresh, hsame⟩ := @addSignature_first _
    ⟨m₁, some m.blocks.fresh, s₁⟩ m.blocks.fresh (1 + p.segments.length) none _ _ c.signatures n rfl hcell
    (by rw [hcopy.blocksFresh]; exact Nat.lt_add_of_pos_right (Nat.succ_pos _)) halgo.symm
    hcopy.signatures (map_snd_numbered _ _)
    (fun a ha => hcopy.signature_lt ha)
    (by
      rw [List.map_cons, hblock, List.map_cons, List.sum_cons] at hroom'
      exact Nat.le_trans (Nat.add_le_add_left (Nat.le_add_right _ _) _) hroom')
  obtain ⟨segs, hfree, hsegsFresh, hsegsSame⟩ := freeNodes_chain hcopy.segments
    (chain_length_le hcopy.segments fun a ha =>
      Nat.lt_of_lt_of_eq (mem_addrs_numbered ha).2 hcopy.segsFresh.symm)
  refine @constructed_of_run _ m m₁ ⟨m₁.segs, m₁.blocks.free m.blocks.fresh, sigs⟩
    ⟨segs, m₁.blocks.free m.blocks.fresh, sigs⟩ s s₁ s' _ _ p own [n] none hdup _ hput hdata ?_ ?_ ?_ ?_
  · show addSignatures _ [n.sca] _ = _
    unfold addSignatures
    rw [hadd]
    rfl
  · rw [hdata', List.map_cons, hblock]
    simp
  · unfold bgpsecPathFree
    simp only [Option.bind_eq_bind, hfree, Option.bind_some]
    unfold freeSigBlocks
    rfl
  · have hext := hcopy.extend
    refine ⟨fun a ha => ?_, hext.blocks.trans (sameBelow_free (Nat.le_refl _)), fun a ha => ?_,
      hsegsFresh ▸ hext.segsFresh, hext.blocksFresh, hsigsFresh ▸ hext.sigsFresh⟩
    · exact (hsegsSame a fun hmem => Nat.not_le.mpr ha (mem_addrs_numbered hmem).1).trans
        (hext.segs a ha)
    · exact (hsame a fun hmem => Nat.not_le.mpr ha (mem_addrs_numbered hmem).1).trans
        (hext.sigs a ha)

end Constructed

end SrxSuite.Quagga

import SrxSuite.Quagga.Stream

/-!
# The BGPsec_PATH attribute

The structures of `bgpd/bgp_validate.h` and the model of `bgpsec_parse` (`bgpd/bgp_validate.c`). A
parse ends the router with a failed assertion (`none`), or returns `NULL` or the attribute.

A `Path` is what an attribute stands for: segments, and signatures in blocks. `Path.bytes` is its
encoding, in which every length is the right one.

Results:
1. `bgpsecParse_bytes`: the encoding of a path is parsed to the attribute of the path.
2. `bgpsecParse_length`: bytes that are parsed to the attribute of a path are as many as the path has.
3. `bgpsecParse_signed`: every block that is parsed has a signature for each segment.
-/

namespace SrxSuite.Quagga

open Bytes

/-! ## The attribute -/

/-- `PathSegment`. -/
structure PathSegment where
  as : UInt32
  pCount : UInt8
  flags : UInt8
  deriving DecidableEq, Repr

/-- `SigSegment`. The buffers are `none` as long as none is allocated. -/
structure SigSegment where
  ski : Option Bytes
  sigLen : UInt16
  signature : Option Bytes
  deriving DecidableEq, Repr

/-- `SigBlock`, with the type of its list. -/
structure SigBlock (σ : Type) where
  sigBlockLen : UInt16
  algoSuiteId : UInt8
  sigSegments : σ
  deriving DecidableEq, Repr

/-- `BgpsecPathAttr`, with the types of its lists. -/
structure BgpsecPathAttr (π β : Type) where
  securePathLen : Nat
  pathSegments : π
  sigBlocks : β
  deriving DecidableEq, Repr

/-- An attribute with its lists written out. -/
abbrev ParsedAttr := BgpsecPathAttr (List PathSegment) (List (SigBlock (List SigSegment)))

/-- `SKI_LENGTH`, also `BGPSEC_SKI_LENGTH`. -/
def SKI_LENGTH : Nat := 20

/-- `OCTET_SECURE_PATH_SEGMENT`, also `LEN_SECPATHSEGMENT`. -/
def OCTET_SECURE_PATH_SEGMENT : Nat := 6

def OCTET_SECURE_PATH_LEN : Nat := 2

def BGPSEC_MAX_SIGBLOCK : Nat := 2

/-! ## `bgpsec_parse` -/

/-- The loop over the path segments: the segments, `syntaxError` and what is left to read. -/
def parsePathSegments : (iter : Nat) → Bytes → Option (List PathSegment × Bool × Bytes)
  | 0, s => some ([], false, s)
  | iter + 1, s =>
    if s.length < OCTET_SECURE_PATH_SEGMENT then some ([], true, s)
    else do
      let (pCount, s) ← streamGetc s
      let (flags, s) ← streamGetc s
      let (as, s) ← streamGetl s
      let (segments, syntaxError, s) ← parsePathSegments iter s
      some (⟨as, pCount, flags⟩ :: segments, syntaxError, s)

/-- The loop over the signatures of a block. Every round reads, and fails at the end of the stream,
so that the length of the stream is enough `fuel`. -/
def parseSigSegments : (fuel : Nat) → (remainingBytes : UInt16) → Bytes →
    Option (List SigSegment × Bool × Bytes)
  | fuel, remainingBytes, s =>
    if remainingBytes = 0 then some ([], false, s)
    else match fuel with
      | 0 => none
      | fuel + 1 => do
        let (ski, s) ← streamGet s SKI_LENGTH
        let (sigLen, s) ← streamGetw s
        if s.length < sigLen.toNat then some ([⟨some ski, sigLen, none⟩], true, s)
        else
          let (signature, s) ← streamGet s sigLen.toNat
          let (sigSegments, syntaxError, s) ← parseSigSegments fuel
            (remainingBytes - UInt16.ofNat SKI_LENGTH - 2 - sigLen) s
          some (⟨some ski, sigLen, some signature⟩ :: sigSegments, syntaxError, s)

/-- `sb->sigBlockLen - 2`, compared as a `size_t`. -/
def blockRest (sigBlockLen : UInt16) : Nat :=
  if sigBlockLen.toNat < 2 then 2 ^ 64 - (2 - sigBlockLen.toNat) else sigBlockLen.toNat - 2

/-- The loop over the signature blocks, of which `blocks` more are allowed. -/
def parseSigBlocks (numSecurePathSegment : Nat) : (blocks : Nat) → Bytes →
    Option (List (SigBlock (List SigSegment)) × Bool)
  | blocks, s =>
    if s.length = 0 then some ([], false)
    else match blocks with
      | 0 => some ([], true)
      | blocks + 1 => do
        let (sigBlockLen, s) ← streamGetw s
        if blockRest sigBlockLen > s.length then some ([⟨sigBlockLen, 0, []⟩], true)
        else
          let (algoSuiteId, s) ← streamGetc s
          let (sigSegments, syntaxError, s) ← parseSigSegments s.length (sigBlockLen - 3) s
          let block : SigBlock (List SigSegment) := ⟨sigBlockLen, algoSuiteId, sigSegments⟩
          if sigSegments.length ≠ numSecurePathSegment then some ([block], true)
          else
            let (sigBlocks, syntaxError') ← parseSigBlocks numSecurePathSegment blocks s
            some (block :: sigBlocks, syntaxError || syntaxError')

/-- `bgpsec_parse` on the readable bytes of a stream. The inner `none` is `NULL`. -/
def bgpsecParse (s : Bytes) (length : Nat) : Option (Option ParsedAttr) :=
  if s.length < length ∨ length = 0 then some none
  else do
    let (spl, _) ← streamGetw s
    if ((spl.toNat : Int) - OCTET_SECURE_PATH_LEN).tmod OCTET_SECURE_PATH_SEGMENT ≠ 0 then some none
    else
      let (securePathLen, s) ← streamGetw s
      let numSecurePathSegment :=
        (securePathLen.toNat - OCTET_SECURE_PATH_LEN) / OCTET_SECURE_PATH_SEGMENT
      let (pathSegments, syntaxError, s) ← parsePathSegments numSecurePathSegment s
      let (sigBlocks, syntaxError') ← parseSigBlocks numSecurePathSegment BGPSEC_MAX_SIGBLOCK s
      if syntaxError || s.length < 1 || syntaxError' then some none
      else some (some ⟨securePathLen.toNat, pathSegments, sigBlocks⟩)

/-! ## Paths -/

/-- A signature with the identifier of its key. -/
structure Signature where
  ski : Bytes
  signature : Bytes
  skiLength : ski.length = SKI_LENGTH
  signatureLength : signature.length < 2 ^ 16
  deriving DecidableEq

/-- The signatures of an algorithm. -/
structure Block where
  algoSuiteId : UInt8
  signatures : List Signature
  deriving DecidableEq

/-- What an attribute stands for. -/
structure Path where
  segments : List PathSegment
  blocks : List Block
  deriving DecidableEq

def Signature.segment (g : Signature) : SigSegment :=
  ⟨some g.ski, UInt16.ofNat g.signature.length, some g.signature⟩

def Signature.bytes (g : Signature) : Bytes :=
  g.ski ++ (be16 (UInt16.ofNat g.signature.length) ++ g.signature)

def Signature.size (g : Signature) : Nat := SKI_LENGTH + 2 + g.signature.length

/-- The length of a block with its length field and its algorithm. -/
def Block.size (b : Block) : Nat := 3 + (b.signatures.map Signature.size).sum

def Block.sigBlock (b : Block) : SigBlock (List SigSegment) :=
  ⟨UInt16.ofNat b.size, b.algoSuiteId, b.signatures.map Signature.segment⟩

def Block.bytes (b : Block) : Bytes :=
  be16 (UInt16.ofNat b.size) ++ (b.algoSuiteId :: b.signatures.flatMap Signature.bytes)

def PathSegment.bytes (g : PathSegment) : Bytes := g.pCount :: g.flags :: be32 g.as

/-- The length of the secure path with its length field. -/
def Path.securePathLen (p : Path) : Nat :=
  OCTET_SECURE_PATH_LEN + OCTET_SECURE_PATH_SEGMENT * p.segments.length

/-- The attribute, with all lengths. -/
def Path.attr (p : Path) : ParsedAttr :=
  ⟨p.securePathLen, p.segments, p.blocks.map Block.sigBlock⟩

def Path.size (p : Path) : Nat := p.securePathLen + (p.blocks.map Block.size).sum

def Path.bytes (p : Path) : Bytes :=
  be16 (UInt16.ofNat p.securePathLen) ++
    (p.segments.flatMap PathSegment.bytes ++ p.blocks.flatMap Block.bytes)

/-- One or two blocks, each with a signature for every segment. -/
structure Path.Complete (p : Path) : Prop where
  some : p.blocks ≠ []
  atMost : p.blocks.length ≤ BGPSEC_MAX_SIGBLOCK
  counts : ∀ b ∈ p.blocks, b.signatures.length = p.segments.length

namespace PathLemmas

variable (g : Signature) (b : Block) (p : Path)

@[simp] theorem length_bytes_segment (g : PathSegment) :
    g.bytes.length = OCTET_SECURE_PATH_SEGMENT := rfl

theorem length_bytes_signature : g.bytes.length = g.size := by
  unfold Signature.bytes Signature.size
  rw [List.length_append, List.length_append, g.skiLength, length_be16]
  omega

theorem length_flatMap_of {α : Type} {f : α → Bytes} {n : α → Nat} (h : ∀ x, (f x).length = n x)
    (xs : List α) : (xs.flatMap f).length = (xs.map n).sum := by
  rw [List.length_flatMap]
  congr 1
  exact List.map_congr_left fun x _ => h x

theorem length_bytes_block : b.bytes.length = b.size := by
  unfold Block.bytes Block.size
  rw [List.length_append, List.length_cons, length_flatMap_of length_bytes_signature, length_be16]
  omega

theorem length_bytes_path : p.bytes.length = p.size := by
  unfold Path.bytes Path.size Path.securePathLen
  have hsegs : (p.segments.flatMap PathSegment.bytes).length =
      OCTET_SECURE_PATH_SEGMENT * p.segments.length := by
    rw [length_flatMap_of length_bytes_segment, List.map_const', List.sum_replicate_nat, Nat.mul_comm]
  rw [List.length_append, List.length_append, hsegs, length_flatMap_of length_bytes_block, length_be16]
  unfold OCTET_SECURE_PATH_LEN
  omega

end PathLemmas

open PathLemmas

/-! ## Parsing an encoding -/

theorem parsePathSegments_bytes (segs : List PathSegment) (s : Bytes) :
    parsePathSegments segs.length (segs.flatMap PathSegment.bytes ++ s) = some (segs, false, s) := by
  induction segs with
  | nil => rfl
  | cons g segs ih =>
    rw [List.flatMap_cons, List.append_assoc]
    show parsePathSegments (segs.length + 1)
      (g.pCount :: g.flags :: (be32 g.as ++ (segs.flatMap PathSegment.bytes ++ s))) = _
    unfold parsePathSegments
    rw [if_neg (by simp [OCTET_SECURE_PATH_SEGMENT])]
    simp only [streamGetc_cons, streamGetl_be32, ih, Option.bind_eq_bind, Option.bind_some]

theorem size_pos (g : Signature) : 0 < g.size := by
  unfold Signature.size SKI_LENGTH
  omega

theorem remaining_next (g : Signature) (rest : Nat) :
    UInt16.ofNat (g.size + rest) - UInt16.ofNat SKI_LENGTH - 2 - UInt16.ofNat g.signature.length =
      UInt16.ofNat rest := by
  unfold Signature.size
  rw [UInt16.ofNat_add, UInt16.ofNat_add, UInt16.ofNat_add]
  grind

theorem parseSigSegments_bytes {fuel : Nat} (gs : List Signature) (s : Bytes)
    (hfuel : gs.length ≤ fuel) (hsize : (gs.map Signature.size).sum < 2 ^ 16) :
    parseSigSegments fuel (UInt16.ofNat (gs.map Signature.size).sum)
      (gs.flatMap Signature.bytes ++ s) = some (gs.map Signature.segment, false, s) := by
  induction gs generalizing fuel with
  | nil =>
    unfold parseSigSegments
    exact if_pos rfl
  | cons g gs ih =>
    obtain ⟨fuel, rfl⟩ := Nat.exists_eq_succ_of_ne_zero (Nat.pos_iff_ne_zero.mp
      (Nat.lt_of_lt_of_le (Nat.succ_pos _) hfuel))
    rw [List.map_cons, List.sum_cons] at hsize ⊢
    have hpos := size_pos g
    have hne : UInt16.ofNat (g.size + (gs.map Signature.size).sum) ≠ 0 := by
      intro h
      have := congrArg UInt16.toNat h
      rw [UInt16.toNat_ofNat_of_lt' hsize] at this
      exact absurd this (by rw [UInt16.toNat_zero]; omega)
    have hlen : (UInt16.ofNat g.signature.length).toNat = g.signature.length :=
      UInt16.toNat_ofNat_of_lt' g.signatureLength
    have hrest := ih (Nat.le_of_succ_le_succ hfuel) (by omega)
    rw [List.flatMap_cons, List.append_assoc, Signature.bytes, List.append_assoc, List.append_assoc]
    unfold parseSigSegments
    rw [if_neg hne]
    simp only [streamGet_append _ g.skiLength, streamGetw_be16, Option.bind_eq_bind,
      Option.bind_some, hlen]
    rw [if_neg (by rw [List.length_append]; omega), streamGet_append _ rfl]
    simp only [Option.bind_some, remaining_next, hrest]
    rfl

theorem blockRest_size (b : Block) (h : b.size < 2 ^ 16) :
    blockRest (UInt16.ofNat b.size) = b.size - 2 := by
  unfold blockRest
  rw [UInt16.toNat_ofNat_of_lt' h, if_neg (by unfold Block.size; omega)]

theorem sigBlockLen_rest (b : Block) :
    UInt16.ofNat b.size - 3 = UInt16.ofNat (b.signatures.map Signature.size).sum := by
  unfold Block.size
  rw [UInt16.ofNat_add]
  grind

theorem length_le_sum_size (gs : List Signature) : gs.length ≤ (gs.map Signature.size).sum := by
  induction gs with
  | nil => exact Nat.le_refl 0
  | cons g gs ih =>
    have := size_pos g
    rw [List.length_cons, List.map_cons, List.sum_cons]
    omega

theorem parseSigBlocks_bytes {n blocks : Nat} (bs : List Block) (hmax : bs.length ≤ blocks)
    (hcounts : ∀ b ∈ bs, b.signatures.length = n) (hsize : (bs.map Block.size).sum < 2 ^ 16) :
    parseSigBlocks n blocks (bs.flatMap Block.bytes) = some (bs.map Block.sigBlock, false) := by
  induction bs generalizing blocks with
  | nil =>
    unfold parseSigBlocks
    exact if_pos rfl
  | cons b bs ih =>
    obtain ⟨blocks, rfl⟩ := Nat.exists_eq_succ_of_ne_zero (Nat.pos_iff_ne_zero.mp
      (Nat.lt_of_lt_of_le (Nat.succ_pos _) hmax))
    rw [List.forall_mem_cons] at hcounts
    rw [List.map_cons, List.sum_cons] at hsize
    have hb : b.size < 2 ^ 16 := by omega
    have hsigs : (b.signatures.map Signature.size).sum < 2 ^ 16 := by
      unfold Block.size at hb
      omega
    have hlen : b.size = 3 + (b.signatures.flatMap Signature.bytes).length := by
      rw [length_flatMap_of length_bytes_signature]
      rfl
    have hrest := ih (Nat.le_of_succ_le_succ hmax) hcounts.2 (by omega)
    have hparse := @parseSigSegments_bytes
      (b.signatures.flatMap Signature.bytes ++ bs.flatMap Block.bytes).length b.signatures
      (bs.flatMap Block.bytes) (by
        have := length_le_sum_size b.signatures
        rw [List.length_append, length_flatMap_of length_bytes_signature]
        omega) hsigs
    rw [List.flatMap_cons]
    unfold parseSigBlocks
    rw [if_neg (by rw [List.length_append, length_bytes_block]; unfold Block.size; omega)]
    rw [Block.bytes, List.append_assoc, List.cons_append]
    simp only [streamGetw_be16, Option.bind_eq_bind, Option.bind_some, blockRest_size b hb]
    rw [if_neg (by rw [List.length_cons, List.length_append]; omega)]
    simp only [streamGetc_cons, Option.bind_some, sigBlockLen_rest, hparse]
    rw [if_neg (by rw [List.length_map]; exact not_not.mpr hcounts.1), hrest]
    rfl

/-- The encoding of a path is parsed to the attribute of the path. -/
theorem bgpsecParse_bytes (p : Path) (hp : p.Complete) (hsize : p.size < 2 ^ 16) :
    bgpsecParse p.bytes p.bytes.length = some (some p.attr) := by
  have hspl : p.securePathLen < 2 ^ 16 := Nat.lt_of_le_of_lt (Nat.le_add_right _ _) hsize
  have htoNat : (UInt16.ofNat p.securePathLen).toNat = p.securePathLen :=
    UInt16.toNat_ofNat_of_lt' hspl
  have hnum : (p.securePathLen - OCTET_SECURE_PATH_LEN) / OCTET_SECURE_PATH_SEGMENT =
      p.segments.length := by
    unfold Path.securePathLen
    rw [Nat.add_sub_cancel_left]
    exact Nat.mul_div_cancel_left _ (by decide)
  have hmod : ((p.securePathLen : Int) - OCTET_SECURE_PATH_LEN).tmod OCTET_SECURE_PATH_SEGMENT = 0 := by
    have : (p.securePathLen : Int) - OCTET_SECURE_PATH_LEN =
        OCTET_SECURE_PATH_SEGMENT * p.segments.length := by
      unfold Path.securePathLen
      push_cast
      omega
    rw [this]
    exact Int.mul_tmod_right _ _
  have hblocks := parseSigBlocks_bytes p.blocks hp.atMost hp.counts
    (Nat.lt_of_le_of_lt (Nat.le_add_left _ _) hsize)
  have hreadable : ¬ (p.blocks.flatMap Block.bytes).length < 1 := by
    obtain ⟨b, bs, hbs⟩ := List.exists_cons_of_ne_nil hp.some
    rw [hbs, List.flatMap_cons, List.length_append, length_bytes_block]
    unfold Block.size
    omega
  unfold bgpsecParse
  rw [if_neg (by
    rw [length_bytes_path]
    unfold Path.size Path.securePathLen OCTET_SECURE_PATH_LEN
    omega)]
  unfold Path.bytes
  simp only [streamGetw_be16, Option.bind_eq_bind, Option.bind_some, htoNat, hmod, hnum,
    parsePathSegments_bytes, hblocks, hreadable, ne_eq, not_true_eq_false, if_false, Bool.false_or,
    decide_false, Bool.or_self, Bool.false_eq_true]
  rfl

/-! ## The length of what is parsed -/

theorem parsePathSegments_length {n : Nat} {s s' : Bytes} {segs : List PathSegment}
    (h : parsePathSegments n s = some (segs, false, s')) :
    s.length = OCTET_SECURE_PATH_SEGMENT * segs.length + s'.length := by
  induction n generalizing s segs with
  | zero =>
    cases h
    exact (Nat.zero_add _).symm
  | succ n ih =>
    unfold parsePathSegments at h
    split at h
    · cases h
    · obtain ⟨⟨pCount, s₁⟩, h1, h⟩ := Option.bind_eq_some_iff.mp h
      obtain ⟨⟨flags, s₂⟩, h2, h⟩ := Option.bind_eq_some_iff.mp h
      obtain ⟨⟨as, s₃⟩, h3, h⟩ := Option.bind_eq_some_iff.mp h
      obtain ⟨⟨segs', err, s₄⟩, h4, h⟩ := Option.bind_eq_some_iff.mp h
      cases h
      have := ih h4
      have := length_of_streamGetc h1
      have := length_of_streamGetc h2
      have := length_of_streamGetl h3
      rw [List.length_cons]
      unfold OCTET_SECURE_PATH_SEGMENT at *
      omega

theorem parseSigSegments_length {fuel : Nat} {remaining : UInt16} {s s' : Bytes}
    {gs : List Signature}
    (h : parseSigSegments fuel remaining s = some (gs.map Signature.segment, false, s')) :
    s.length = (gs.map Signature.size).sum + s'.length := by
  induction fuel generalizing remaining s gs with
  | zero =>
    unfold parseSigSegments at h
    split at h
    · obtain ⟨hgs, -, rfl⟩ : [] = gs.map Signature.segment ∧ true ∧ s = s' := by simpa using h
      obtain rfl := List.map_eq_nil_iff.mp hgs.symm
      exact (Nat.zero_add _).symm
    · cases h
  | succ fuel ih =>
    unfold parseSigSegments at h
    split at h
    · obtain ⟨hgs, -, rfl⟩ : [] = gs.map Signature.segment ∧ true ∧ s = s' := by simpa using h
      obtain rfl := List.map_eq_nil_iff.mp hgs.symm
      exact (Nat.zero_add _).symm
    · obtain ⟨⟨ski, s₁⟩, h1, h⟩ := Option.bind_eq_some_iff.mp h
      obtain ⟨⟨sigLen, s₂⟩, h2, h⟩ := Option.bind_eq_some_iff.mp h
      dsimp only at h
      split at h
      · simp at h
      · obtain ⟨⟨signature, s₃⟩, h3, h⟩ := Option.bind_eq_some_iff.mp h
        dsimp only at h
        obtain ⟨⟨rest, err, s₄⟩, h4, h⟩ := Option.bind_eq_some_iff.mp h
        obtain ⟨hgs, rfl, rfl⟩ := by simpa using h
        cases gs with
        | nil => cases hgs
        | cons g gs =>
          obtain ⟨hg, rfl⟩ := List.cons.inj hgs
          have hlen : sigLen.toNat = g.signature.length := by
            have := congrArg SigSegment.sigLen hg
            rw [show sigLen = UInt16.ofNat g.signature.length from this,
              UInt16.toNat_ofNat_of_lt' g.signatureLength]
          have := ih h4
          have := length_of_streamGet h1
          have := length_of_streamGetw h2
          have := length_of_streamGet h3
          rw [List.map_cons, List.sum_cons, Signature.size]
          omega

theorem parseSigBlocks_length {n blocks : Nat} {s : Bytes} {bs : List Block}
    (h : parseSigBlocks n blocks s = some (bs.map Block.sigBlock, false)) :
    s.length = (bs.map Block.size).sum := by
  induction blocks generalizing s bs with
  | zero =>
    unfold parseSigBlocks at h
    split at h
    · next hnil =>
      obtain rfl : bs = [] := by simpa using h
      exact hnil
    · simp at h
  | succ blocks ih =>
    unfold parseSigBlocks at h
    split at h
    · next hnil =>
      obtain rfl : bs = [] := by simpa using h
      exact hnil
    · obtain ⟨⟨sigBlockLen, s₁⟩, h1, h⟩ := Option.bind_eq_some_iff.mp h
      dsimp only at h
      split at h
      · simp at h
      · obtain ⟨⟨algo, s₂⟩, h2, h⟩ := Option.bind_eq_some_iff.mp h
        dsimp only at h
        obtain ⟨⟨sigs, err, s₃⟩, h3, h⟩ := Option.bind_eq_some_iff.mp h
        dsimp only at h
        split at h
        · simp at h
        · obtain ⟨⟨rest, err'⟩, h4, h⟩ := Option.bind_eq_some_iff.mp h
          obtain ⟨hbs, rfl, rfl⟩ := by simpa using h
          cases bs with
          | nil => cases hbs
          | cons b bs =>
            obtain ⟨hb, rfl⟩ := List.cons.inj hbs
            obtain rfl : sigs = b.signatures.map Signature.segment :=
              congrArg SigBlock.sigSegments hb
            have := ih h4
            have := parseSigSegments_length h3
            have := length_of_streamGetw h1
            have := length_of_streamGetc h2
            rw [List.map_cons, List.sum_cons, Block.size]
            omega

/-- What was read for an attribute. -/
theorem bgpsecParse_parts {s : Bytes} {n : Nat} {q : ParsedAttr}
    (h : bgpsecParse s n = some (some q)) : ∃ (securePathLen : UInt16) (s₁ s₂ : Bytes),
      streamGetw s = some (securePathLen, s₁) ∧
      ((securePathLen.toNat : Int) - OCTET_SECURE_PATH_LEN).tmod OCTET_SECURE_PATH_SEGMENT = 0 ∧
      parsePathSegments ((securePathLen.toNat - OCTET_SECURE_PATH_LEN) / OCTET_SECURE_PATH_SEGMENT) s₁ =
        some (q.pathSegments, false, s₂) ∧
      s₂ ≠ [] ∧
      parseSigBlocks ((securePathLen.toNat - OCTET_SECURE_PATH_LEN) / OCTET_SECURE_PATH_SEGMENT)
        BGPSEC_MAX_SIGBLOCK s₂ = some (q.sigBlocks, false) ∧
      q.securePathLen = securePathLen.toNat := by
  unfold bgpsecParse at h
  split at h
  · simp at h
  · obtain ⟨⟨spl, s₀⟩, h0, h⟩ := Option.bind_eq_some_iff.mp h
    dsimp only at h
    split at h
    · simp at h
    · next hmod =>
      obtain ⟨⟨securePathLen, s₁⟩, h1, h⟩ := Option.bind_eq_some_iff.mp h
      dsimp only at h
      obtain ⟨⟨segs, err, s₂⟩, h2, h⟩ := Option.bind_eq_some_iff.mp h
      dsimp only at h
      obtain ⟨⟨blocks, err'⟩, h3, h⟩ := Option.bind_eq_some_iff.mp h
      dsimp only at h
      split at h
      · simp at h
      · next hok =>
        obtain rfl := Option.some.inj (Option.some.inj h)
        obtain ⟨⟨rfl, hrest⟩, rfl⟩ : (err = false ∧ s₂ ≠ []) ∧ err' = false := by simpa using hok
        obtain ⟨rfl, rfl⟩ := Prod.mk.inj (Option.some.inj (h0.symm.trans h1))
        exact ⟨spl, s₀, s₂, h0, not_not.mp hmod, h2, hrest, h3, rfl⟩

/-- Bytes that are parsed to the attribute of a path are as many as the path has. -/
theorem bgpsecParse_length {s : Bytes} {n : Nat} {p : Path}
    (h : bgpsecParse s n = some (some p.attr)) : s.length = p.size := by
  obtain ⟨securePathLen, s₁, s₂, h1, -, h2, -, h3, -⟩ := bgpsecParse_parts h
  have hlen := length_of_streamGetw h1
  have hsegs := parsePathSegments_length h2
  have hblocks := parseSigBlocks_length h3
  unfold Path.size Path.securePathLen OCTET_SECURE_PATH_LEN
  dsimp only [Path.attr] at hsegs
  omega

/-! ## What is parsed -/

theorem parsePathSegments_count {n : Nat} {s s' : Bytes} {segs : List PathSegment}
    (h : parsePathSegments n s = some (segs, false, s')) : segs.length = n := by
  induction n generalizing s segs with
  | zero =>
    cases h
    rfl
  | succ n ih =>
    unfold parsePathSegments at h
    split at h
    · cases h
    · obtain ⟨⟨pCount, s₁⟩, -, h⟩ := Option.bind_eq_some_iff.mp h
      obtain ⟨⟨flags, s₂⟩, -, h⟩ := Option.bind_eq_some_iff.mp h
      obtain ⟨⟨as, s₃⟩, -, h⟩ := Option.bind_eq_some_iff.mp h
      obtain ⟨⟨segs', err, s₄⟩, h4, h⟩ := Option.bind_eq_some_iff.mp h
      cases h
      exact congrArg Nat.succ (ih h4)

theorem parseSigSegments_signed {fuel : Nat} {remaining : UInt16} {s s' : Bytes}
    {sigs : List SigSegment} (h : parseSigSegments fuel remaining s = some (sigs, false, s')) :
    ∃ gs : List Signature, sigs = gs.map Signature.segment := by
  induction fuel generalizing remaining s sigs with
  | zero =>
    unfold parseSigSegments at h
    split at h
    · cases h
      exact ⟨[], rfl⟩
    · cases h
  | succ fuel ih =>
    unfold parseSigSegments at h
    split at h
    · cases h
      exact ⟨[], rfl⟩
    · obtain ⟨⟨ski, s₁⟩, h1, h⟩ := Option.bind_eq_some_iff.mp h
      obtain ⟨⟨sigLen, s₂⟩, -, h⟩ := Option.bind_eq_some_iff.mp h
      dsimp only at h
      split at h
      · simp at h
      · obtain ⟨⟨signature, s₃⟩, h3, h⟩ := Option.bind_eq_some_iff.mp h
        obtain ⟨⟨rest, err, s₄⟩, h4, h⟩ := Option.bind_eq_some_iff.mp h
        cases h
        obtain ⟨gs, rfl⟩ := ih h4
        have hlen := streamGet_length h3
        have hlt : signature.length < 2 ^ 16 := hlen ▸ sigLen.toNat_lt
        have hsigLen : sigLen = UInt16.ofNat signature.length := by
          rw [hlen, UInt16.ofNat_toNat]
        exact ⟨⟨ski, signature, streamGet_length h1, hlt⟩ :: gs, by rw [hsigLen]; rfl⟩

theorem parseSigBlocks_signed {n blocks : Nat} {s : Bytes} {bs : List (SigBlock (List SigSegment))}
    (h : parseSigBlocks n blocks s = some (bs, false)) :
    ∀ b ∈ bs, ∃ gs : List Signature, b.sigSegments = gs.map Signature.segment ∧ gs.length = n := by
  induction blocks generalizing s bs with
  | zero =>
    unfold parseSigBlocks at h
    split at h
    · cases h
      exact List.forall_mem_nil _
    · simp at h
  | succ blocks ih =>
    unfold parseSigBlocks at h
    split at h
    · cases h
      exact List.forall_mem_nil _
    · obtain ⟨⟨sigBlockLen, s₁⟩, -, h⟩ := Option.bind_eq_some_iff.mp h
      dsimp only at h
      split at h
      · simp at h
      · obtain ⟨⟨algo, s₂⟩, -, h⟩ := Option.bind_eq_some_iff.mp h
        obtain ⟨⟨sigs, err, s₃⟩, h3, h⟩ := Option.bind_eq_some_iff.mp h
        dsimp only at h
        split at h
        · simp at h
        · next hcount =>
          obtain ⟨⟨rest, err'⟩, h4, h⟩ := Option.bind_eq_some_iff.mp h
          obtain ⟨rfl, rfl, rfl⟩ := by simpa using h
          obtain ⟨gs, rfl⟩ := parseSigSegments_signed h3
          refine List.forall_mem_cons.mpr ⟨⟨gs, rfl, ?_⟩, ih h4⟩
          rw [← not_not.mp hcount, List.length_map]

/-- Every block of an attribute that is parsed has a signature for each segment. -/
theorem bgpsecParse_signed {s : Bytes} {n : Nat} {q : ParsedAttr}
    (h : bgpsecParse s n = some (some q)) : ∀ b ∈ q.sigBlocks, ∃ gs : List Signature,
      b.sigSegments = gs.map Signature.segment ∧ gs.length = q.pathSegments.length := by
  obtain ⟨securePathLen, s₁, s₂, -, -, h2, -, h3, -⟩ := bgpsecParse_parts h
  intro b hb
  obtain ⟨gs, hgs, hlen⟩ := parseSigBlocks_signed h3 b hb
  exact ⟨gs, hgs, hlen.trans (parsePathSegments_count h2).symm⟩

/-! ## Two paths -/

def oneSegment : PathSegment := ⟨65001, 1, 0⟩

def oneSignature : Signature := ⟨List.replicate 20 7, [1, 2, 3], rfl, by decide⟩

/-- A segment, and one signature for the algorithm 1. -/
def onePath : Path := ⟨[oneSegment], [⟨1, [oneSignature]⟩]⟩

/-- A segment, and one signature for each of the algorithms 1 and 2. -/
def twoPath : Path := ⟨[oneSegment], [⟨1, [oneSignature]⟩, ⟨2, [oneSignature]⟩]⟩

end SrxSuite.Quagga

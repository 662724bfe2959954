import SrxSuite.Server.SkiCache

/-!
# The BGPsec_PATH parser of the SKI cache

`_ski_parseBGPsec_PATH` (`server/ski_cache.c`) walks through an attribute by the lengths that the
attribute itself holds. It compares them with one another, modulo 2^16, and with nothing else.

`ParserRight` says what is expected of it: all reads are inside of the attribute, the loop over the
blocks ends in its array, and an attribute that is accepted is one of a secure path and signature blocks
with exact lengths.

Result: the parser is right for the attributes with exact lengths and one block, and for those it
refuses after it read its lengths inside (`parserRight_iff`), and for no others.
-/

namespace SrxSuite.Server

open Bytes Crypto

/-- The place of the first signature block, and the bytes that are left for the blocks. -/
structure PathLengths where
  block : Nat
  remainder : UInt16
  deriving DecidableEq, Repr

/-- What the length of the secure path gives. The subtraction is one of 16 bits. -/
def pathLengths (attr : Bytes) (ptr : Nat) (remainder : UInt16) : Option PathLengths := do
  let length ← attr.be16At ptr
  let nrSegments := UInt16.ofNat ((length.toNat - 2) / 6)
  some ⟨ptr + 2 + nrSegments.toNat * 6, remainder - 2 - nrSegments * 6⟩

/-- The bytes that two blocks leave. -/
def blocksLeft (attr : Bytes) (lengths : PathLengths) : Option UInt16 := do
  let first ← attr.be16At lengths.block
  let second ← attr.be16At (lengths.block + first.toNat)
  some (lengths.remainder - first - second)

/-- The attribute is refused, by lengths that stand in it: nothing behind the header, nothing behind
the length of the secure path, or bytes that neither one nor two signature blocks take up. -/
def RefusedInside (attr : Bytes) : Prop :=
  ∃ remainder ptr, attrLength attr = some (remainder, ptr) ∧
    (remainder = 0 ∨ ∃ lengths, pathLengths attr ptr remainder = some lengths ∧
      (remainder = 2 ∨ lengths.remainder ≠ 0 ∧ attr.be16At lengths.block ≠ some lengths.remainder ∧
        ∃ left ≠ 0, blocksLeft attr lengths = some left))

/-- The attribute has one signature block, and all its lengths are exact. -/
def OneBlock (attr : Bytes) : Prop :=
  ∃ path : BgpsecPath, path.blocks.length = 1 ∧ attr = path.encode

/-- What is expected of the parser. The array of the blocks has two elements, and the loop ends at a
NULL pointer in it. -/
structure ParserRight (attr : Bytes) : Prop where
  inside : (parseBgpsecPath attr).isSome
  ends : ∀ info, parseBgpsecPath attr = some (some info) → info.algoID.length < 2
  exact : ∀ info, parseBgpsecPath attr = some (some info) → ∃ path : BgpsecPath, attr = path.encode

namespace PathParsingLemmas

open SkiCacheLemmas

variable {attr : Bytes} {info : UpdInfo}

/-- An encoding that is accepted has one block, and the algorithm of that one is found. -/
theorem blocks_encode {path : BgpsecPath} (h : parseBgpsecPath path.encode = some (some info)) :
    path.blocks.length = 1 ∧ info.algoID.length = 1 := by
  rcases path.blockCount with hone | htwo
  · obtain ⟨block, hblocks⟩ := List.length_eq_one_iff.mp hone
    rw [parse_encode hblocks] at h
    obtain rfl := Option.some.inj (Option.some.inj h)
    exact ⟨hone, rfl⟩
  · obtain ⟨first, second, hblocks⟩ := List.length_eq_two.mp htwo
    rw [parse_two hblocks] at h
    cases h

theorem right_of_oneBlock (h : OneBlock attr) : ParserRight attr := by
  obtain ⟨path, hone, rfl⟩ := h
  obtain ⟨block, hblocks⟩ := List.length_eq_one_iff.mp hone
  have hparse := parse_encode hblocks
  refine ⟨?_, fun info hinfo => ?_, fun _ _ => ⟨path, rfl⟩⟩
  · rw [hparse]
    rfl
  · rw [(blocks_encode hinfo).2]
    decide

/-- An attribute that is accepted has exact lengths and one block. -/
theorem oneBlock_of_right (h : ParserRight attr) (hinfo : parseBgpsecPath attr = some (some info)) :
    OneBlock attr := by
  obtain ⟨path, rfl⟩ := h.exact info hinfo
  exact ⟨path, (blocks_encode hinfo).1, rfl⟩

theorem sub_eq_zero16 {a b : UInt16} : a - b = 0 ↔ b = a := by
  constructor
  · intro h
    rw [← UInt16.sub_add_cancel a b, h, UInt16.zero_add]
  · rintro rfl
    exact UInt16.sub_self b

/-- The pointers of the blocks are refused when neither one nor two blocks take up the bytes. -/
theorem sigBlocks_none_iff (attr : Bytes) (lengths : PathLengths) :
    sigBlocks attr lengths.block lengths.remainder = some none ↔
      lengths.remainder ≠ 0 ∧ attr.be16At lengths.block ≠ some lengths.remainder ∧
        ∃ left ≠ 0, blocksLeft attr lengths = some left := by
  obtain ⟨block, remainder⟩ := lengths
  unfold sigBlocks blocksLeft
  dsimp only
  by_cases hzero : remainder = 0
  · rw [if_pos hzero]
    exact iff_of_false (fun h => nomatch h) fun h => h.1 hzero
  · rw [if_neg hzero, and_iff_right hzero]
    cases attr.be16At block with
    | none => exact iff_of_false (fun h => nomatch h) fun ⟨_, _, _, h⟩ => nomatch h
    | some length =>
      simp only [Option.bind_eq_bind, Option.bind_some]
      by_cases hone : remainder - length = 0
      · rw [if_pos hone]
        exact iff_of_false (fun h => nomatch h) fun h => h.1 (congrArg some (sub_eq_zero16.mp hone))
      · have hne : some length ≠ some remainder := fun heq =>
          hone (sub_eq_zero16.mpr (Option.some.inj heq))
        rw [if_neg hone, and_iff_right hne]
        cases attr.be16At (block + length.toNat) with
        | none => exact iff_of_false (fun h => nomatch h) fun ⟨_, _, h⟩ => nomatch h
        | some second =>
          simp only [Option.bind_some]
          by_cases htwo : remainder - length - second = 0
          · rw [if_pos htwo]
            refine iff_of_false (fun h => nomatch h) fun ⟨left, hleft, h⟩ => hleft ?_
            rw [← Option.some.inj h, htwo]
          · rw [if_neg htwo]
            exact iff_of_true rfl ⟨_, htwo, rfl⟩

/-- The segments do not refuse an attribute. -/
theorem segments_ne_none (attr : Bytes) (n ptr : Nat) (nrSegments : UInt16) (blocks : List Nat) :
    (if blocks.length = bgpsecMaxSigBlocks then none
      else do
        let asn ← readAsns attr n ptr
        let algoID ← blocks.mapM fun block => attr[block + 2]?
        let ski ← blocks.mapM fun block => readSkis attr n (block + 3)
        some (some ⟨nrSegments, asn, algoID, ski.flatten⟩) : Option (Option UpdInfo)) ≠ some none := by
  intro h
  split at h
  · cases h
  obtain ⟨asn, -, h⟩ := Option.bind_eq_some_iff.mp h
  obtain ⟨algoID, -, h⟩ := Option.bind_eq_some_iff.mp h
  obtain ⟨ski, -, h⟩ := Option.bind_eq_some_iff.mp h
  cases h

/-- The parser refuses an attribute inside of it. -/
theorem parse_refused_iff (attr : Bytes) : parseBgpsecPath attr = some none ↔ RefusedInside attr := by
  unfold parseBgpsecPath RefusedInside
  cases hattr : attrLength attr with
  | none => exact iff_of_false (fun h => nomatch h) fun ⟨_, _, h, _⟩ => nomatch h
  | some header =>
    obtain ⟨remainder, ptr⟩ := header
    simp only [Option.bind_eq_bind, Option.bind_some, Option.some.injEq, Prod.mk.injEq,
      exists_and_left, and_assoc, exists_eq_left']
    split
    · next hzero => exact iff_of_true rfl (.inl hzero)
    · next hzero =>
      rw [or_iff_right hzero]
      unfold pathLengths
      cases attr.be16At ptr with
      | none => exact iff_of_false (fun h => nomatch h) fun ⟨_, h, _⟩ => nomatch h
      | some length =>
        simp only [Option.bind_eq_bind, Option.bind_some, Option.some.injEq, exists_eq_left']
        split
        · next htwo => exact iff_of_true rfl (.inl (sub_eq_zero16.mp htwo).symm)
        · next htwo =>
          rw [or_iff_right fun heq => htwo (sub_eq_zero16.mpr heq.symm)]
          refine Iff.trans ?_ (sigBlocks_none_iff attr ⟨_, _⟩)
          dsimp only
          cases sigBlocks attr (ptr + 2 + (UInt16.ofNat ((length.toNat - 2) / 6)).toNat * 6)
            (remainder - 2 - UInt16.ofNat ((length.toNat - 2) / 6) * 6) with
          | none => exact iff_of_false (fun h => nomatch h) fun h => nomatch h
          | some blocks =>
            cases blocks with
            | none => exact iff_of_true rfl rfl
            | some blocks => exact iff_of_false (segments_ne_none attr _ _ _ blocks) fun h => nomatch h

end PathParsingLemmas

open PathParsingLemmas

/-- The parser is right for exactly the attributes with exact lengths and one block, and those that are
refused by lengths that stand in them. -/
theorem parserRight_iff (attr : Bytes) :
    ParserRight attr ↔ OneBlock attr ∨ RefusedInside attr := by
  constructor
  · intro h
    obtain ⟨result, hresult⟩ := Option.isSome_iff_exists.mp h.inside
    cases result with
    | none => exact .inr ((parse_refused_iff attr).mp hresult)
    | some info => exact .inl (oneBlock_of_right h hresult)
  · rintro (hone | hrefused)
    · exact right_of_oneBlock hone
    · have hparse := (parse_refused_iff attr).mpr hrefused
      refine ⟨?_, fun info hinfo => ?_, fun info hinfo => ?_⟩
      · rw [hparse]
        rfl
      · rw [hparse] at hinfo
        cases hinfo
      · rw [hparse] at hinfo
        cases hinfo

/-- An attribute of one path segment without a signature block is accepted; one whose first block is
to begin behind its end is read there. -/
theorem parser_not_right :
    ¬ ParserRight [0, 33, 8, 0, 8, 1, 0, 0, 0, 253, 233] ∧
      ¬ ParserRight [0, 33, 9, 0, 8, 1, 0, 0, 0, 253, 233] := by
  constructor
  · intro h
    have hparse : parseBgpsecPath [0, 33, 8, 0, 8, 1, 0, 0, 0, 253, 233] =
      some (some ⟨1, [65001], [], []⟩) := by decide
    obtain ⟨path, hpath⟩ := h.exact _ hparse
    rw [hpath] at hparse
    cases (blocks_encode hparse).2
  · intro h
    have hnone : parseBgpsecPath [0, 33, 9, 0, 8, 1, 0, 0, 0, 253, 233] = none := by decide
    have hinside := h.inside
    rw [hnone] at hinside
    cases hinside

end SrxSuite.Server

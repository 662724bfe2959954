import SrxSuite.Quagga.Construct

/-!
# The round trip of the BGPsec_PATH

What `constructBGPSecPathAttribute` writes is given to `bgpsec_parse`. The duplicate of a second block
has no signatures; and when the second block is the first to be taken, it stays in the list, because
the search returns it as the block in front of itself.

Results:
1. `roundTrips_iff`: the bytes that are written are parsed to the extended path, and the original stays
   as it is, if and only if there is room for them and the original has at most one signature block.
2. `second_block_lost`: a path with two blocks.
-/

namespace SrxSuite.Quagga

open Bytes Util SListLemmas PathLemmas ConstructLemmas

variable {size : Nat}

/-- What is written is parsed to the extended path, with the right lengths, and no cell of the memory,
and so of the original, has changed. The order of the blocks is left open. -/
def RoundTrips (m : Mem) (s : Stream size) (attr : Option AttrPtrs) (p : Path) (own : PathSegment)
    (new : List NewSignature) : Prop :=
  ∃ m' s' attrLen written q,
    constructBGPSecPathAttribute m own.as s attr own.flags own.pCount (new.map NewSignature.sca) =
      some (m', s', attrLen) ∧
    s'.data = s.data ++ written ∧ attrLen.toNat = written.length ∧
    bgpsecParse written written.length = some (some (Path.attr q)) ∧
    q.segments = (p.extend own new).segments ∧ q.blocks.Perm (p.extend own new).blocks ∧
    Extends m m' ∧ Represents m' attr p

/-! ## Two blocks -/

section TwoBlocks

variable {m : Mem} {s : Stream size} {bpa : AttrPtrs} {p : Path} {own : PathSegment}
  {new : List NewSignature} {c₁ c₂ : Block} {n₁ n₂ : NewSignature}

/-- As many bytes as the extended path has. -/
theorem RoundTrips.length {attr : Option AttrPtrs} (h : RoundTrips m s attr p own new) :
    ∃ m' s' attrLen, constructBGPSecPathAttribute m own.as s attr own.flags own.pCount
        (new.map NewSignature.sca) = some (m', s', attrLen) ∧
      s'.data.length = s.data.length + (p.extend own new).size := by
  obtain ⟨m', s', attrLen, written, q, hrun, hdata, -, hparse, hsegs, hperm, -⟩ := h
  have hsize : q.size = (p.extend own new).size := by
    unfold Path.size Path.securePathLen
    rw [hsegs, (hperm.map Block.size).sum_nat]
  exact ⟨m', s', attrLen, hrun, by rw [hdata, List.length_append, bgpsecParse_length hparse, hsize]⟩

/-- The duplicate of two blocks. -/
theorem duplicate_two (h : Held m bpa p) (hsegs : p.segments ≠ []) (hblocks : p.blocks = [c₁, c₂])
    (hsigs : c₁.signatures ≠ []) :
    ∃ m₁ len sb, bgpsecDup m (some bpa) true =
        some (m₁, some ⟨p.securePathLen, some m.segs.fresh, some m.blocks.fresh⟩) ∧
      Duplicate m m₁ p.segments c₁ [c₂] ∧
      m₁.blocks.cells m.blocks.fresh =
        some ⟨⟨len, c₁.algoSuiteId, some m.sigs.fresh⟩, some (m.blocks.fresh + 1)⟩ ∧
      m₁.blocks.cells (m.blocks.fresh + 1) = some ⟨sb, none⟩ ∧ sb.algoSuiteId = c₂.algoSuiteId ∧
      sb.sigSegments = none := by
  obtain ⟨m₁, hdup, hcopy⟩ := bgpsecDup_eq h hsegs hblocks hsigs true
  obtain ⟨len, tail, hchain, htail⟩ := hcopy.blocks
  obtain ⟨sb, tail, ⟨halgo, hnull⟩, hrest, rfl⟩ := List.forall₂_cons_right_iff.mp htail
  obtain rfl := List.forall₂_nil_right_iff.mp hrest
  obtain ⟨-, next, hcell, rfl, next', hcell', rfl⟩ := hchain
  exact ⟨m₁, len, sb, hdup, hcopy, hcell, hcell', halgo, hnull⟩

/-- What the function has done before the loop over the signatures of two blocks. -/
theorem construct_two (h : Held m bpa p) (hsegs : p.segments ≠ []) (hblocks : p.blocks = [c₁, c₂])
    (hsigs : c₁.signatures ≠ []) (hroom : s.data.length + (p.extend own new).size ≤ size) :
    ∃ m₁ len sb s₁, Duplicate m m₁ p.segments c₁ [c₂] ∧
      m₁.blocks.cells m.blocks.fresh =
        some ⟨⟨len, c₁.algoSuiteId, some m.sigs.fresh⟩, some (m.blocks.fresh + 1)⟩ ∧
      m₁.blocks.cells (m.blocks.fresh + 1) = some ⟨sb, none⟩ ∧ sb.algoSuiteId = c₂.algoSuiteId ∧
      sb.sigSegments = none ∧
      s₁.data.length = s.data.length + (p.extend own new).securePathLen ∧
      ∀ m₂ root s₂, addSignatures (1 + p.segments.length) (new.map NewSignature.sca)
          ⟨m₁, some m.blocks.fresh, s₁⟩ = some (.ok ⟨m₂, root, s₂⟩) →
        constructBGPSecPathAttribute m own.as s (some bpa) own.flags own.pCount
            (new.map NewSignature.sca) =
          (bgpsecPathFree m₂ ⟨p.securePathLen, some m.segs.fresh, root⟩).map fun m₃ =>
            (m₃, s₂, UInt16.ofNat (s₂.data.length - s.data.length)) := by
  obtain ⟨m₁, len, sb, hdup, hcopy, hcell, hcell', halgo, hnull⟩ := duplicate_two h hsegs hblocks hsigs
  obtain ⟨s₁, hput, hdata, -⟩ := @securePath_written _ m₁ s
    ⟨p.securePathLen, some m.segs.fresh, some m.blocks.fresh⟩ p own new
    (if_neg (securePathLen_ne_zero p)) hcopy.listAt hroom
  refine ⟨m₁, len, sb, s₁, hcopy, hcell, hcell', halgo, hnull, ?_, fun m₂ root s₂ hrun =>
    construct_eq hdup hput hrun⟩
  rw [hdata, List.length_append, List.length_append, length_be16,
    length_flatMap_of length_bytes_segment, List.map_const', List.sum_replicate_nat, Nat.mul_comm]
  rfl

theorem addSignatures_two {k : Nat} {b b₁ b₂ : Builder size}
    (h₁ : addSignature k n₁.sca b = some (.ok b₁)) (h₂ : addSignature k n₂.sca b₁ = some (.ok b₂)) :
    addSignatures k ([n₁, n₂].map NewSignature.sca) b = some (.ok b₂) := by
  show addSignatures k [n₁.sca, n₂.sca] b = _
  unfold addSignatures
  rw [h₁]
  show addSignatures k [n₂.sca] b₁ = _
  unfold addSignatures
  rw [h₂]
  rfl

/-- When the signatures have the order of the blocks, the second block is too short. -/
theorem construct_inOrder (h : Held m bpa p) (hsegs : p.segments ≠ []) (hblocks : p.blocks = [c₁, c₂])
    (hsigs : c₁.signatures ≠ []) (hsigs' : c₂.signatures ≠ []) (h₁ : n₁.algoID = c₁.algoSuiteId)
    (h₂ : n₂.algoID = c₂.algoSuiteId) (hne : c₁.algoSuiteId ≠ c₂.algoSuiteId) :
    ¬ RoundTrips m s (some bpa) p own [n₁, n₂] := by
  intro htrip
  obtain ⟨m', s', attrLen, hconstruct, hlen⟩ := htrip.length
  have hroom := hlen ▸ s'.fits
  have hsize : (p.extend own [n₁, n₂]).size = (p.extend own [n₁, n₂]).securePathLen +
      ((Block.mk n₁.algoID (n₁.signature :: c₁.signatures)).size +
        (Block.mk n₂.algoID (n₂.signature :: c₂.signatures)).size) := by
    show _ + (([n₁, n₂].map p.extendBlock).map Block.size).sum = _
    simp [extendBlock_first hblocks h₁, extendBlock_second hblocks h₂ hne]
  have hlost : (Block.mk n₂.algoID [n₂.signature]).size <
      (Block.mk n₂.algoID (n₂.signature :: c₂.signatures)).size := by
    obtain ⟨g, gs, hg⟩ := List.exists_cons_of_ne_nil hsigs'
    have := size_pos g
    unfold Block.size
    simp only [hg, List.map_cons, List.map_nil, List.sum_cons, List.sum_nil]
    omega
  obtain ⟨m₁, len, sb, s₁, hcopy, hcell, hcell', halgo, hnull, hlen₁, hfinish⟩ :=
    @construct_two _ m s bpa p own [n₁, n₂] c₁ c₂ h hsegs hblocks hsigs hroom
  obtain ⟨sigs, s₂, hadd, hdata, hsigsFresh, -⟩ := @addSignature_first _ ⟨m₁, some m.blocks.fresh, s₁⟩
    m.blocks.fresh (1 + p.segments.length) _ _ _ c₁.signatures n₁ rfl hcell
    (by rw [hcopy.blocksFresh]; exact Nat.lt_add_of_pos_right (Nat.succ_pos _)) h₁.symm
    hcopy.signatures (map_snd_numbered _ _) (fun a ha => hcopy.signature_lt ha)
    (by show s₁.data.length + _ ≤ size; omega)
  have hcell₂ : (m₁.blocks.free m.blocks.fresh).cells (m.blocks.fresh + 1) = some ⟨sb, none⟩ :=
    (Function.update_of_ne (Nat.succ_ne_self _) ..).trans hcell'
  replace hdata : s₂.data = s₁.data ++ _ := hdata
  have hlen₂ := congrArg List.length hdata
  rw [List.length_append, length_bytes_block] at hlen₂
  obtain ⟨sigs', s₃, hadd', hdata', -, -⟩ := @addSignature_first _
    ⟨⟨m₁.segs, m₁.blocks.free m.blocks.fresh, sigs⟩, some (m.blocks.fresh + 1), s₂⟩
    (m.blocks.fresh + 1) (1 + p.segments.length) _ _ [] [] n₂ rfl hcell₂
    (by show _ < m₁.blocks.fresh; rw [hcopy.blocksFresh]; exact Nat.lt_succ_self _)
    (halgo.trans h₂.symm) hnull rfl (fun a ha => by cases ha)
    (by show s₂.data.length + _ ≤ size; omega)
  replace hdata' : s₃.data = s₂.data ++ _ := hdata'
  have hlen₃ := congrArg List.length hdata'
  rw [List.length_append, length_bytes_block] at hlen₃
  rw [hfinish _ _ _ (addSignatures_two hadd hadd')] at hconstruct
  obtain ⟨m₃, -, heq⟩ := Option.map_eq_some_iff.mp hconstruct
  obtain rfl : s₃ = s' := congrArg (fun r => r.2.1) heq
  omega

/-- The search for the second block. `prevBlock` is the second block, too. -/
theorem findSigBlock_second {m : SListMem (SigBlock (Option Nat))} {a k : Nat}
    {sb sb' : SigBlock (Option Nat)} {next : Option Nat} {algoID : UInt8}
    (hcell : m.cells a = some ⟨sb, some (a + 1)⟩) (hcell' : m.cells (a + 1) = some ⟨sb', next⟩)
    (hne : sb.algoSuiteId ≠ algoID) (halgo : sb'.algoSuiteId = algoID) :
    findSigBlock algoID (k + 2) m (some a) (some a) = some (some (a + 1), some (a + 1)) := by
  unfold findSigBlock
  rw [hcell]
  show (if sb.algoSuiteId = algoID then _ else _) = _
  rw [if_neg hne]
  exact findSigBlock_first hcell' halgo

/-- A block that is taken with itself as the one before it stays linked. -/
theorem unlinkSigBlock_self {blocks : SListMem (SigBlock (Option Nat))} {first a : Nat}
    {sb : SigBlock (Option Nat)} (hne : first ≠ a) (hcell : blocks.cells a = some ⟨sb, none⟩) :
    unlinkSigBlock blocks (some first) a none (some a) =
      some (blocks.write a ⟨sb, none⟩, some first) := by
  have hset : blocks.setNext a none = some (blocks.write a ⟨sb, none⟩) := by
    unfold SListMem.setNext
    rw [hcell]
    rfl
  unfold unlinkSigBlock
  rw [if_neg fun heq => hne (Option.some.inj heq)]
  show (blocks.setNext a none).map _ = _
  rw [hset]
  rfl

/-- When the signatures have the other order, the first block keeps a pointer to the second, which was
freed. -/
theorem construct_outOfOrder (h : Held m bpa p) (hsegs : p.segments ≠ [])
    (hblocks : p.blocks = [c₁, c₂]) (hsigs : c₁.signatures ≠ []) (h₁ : n₁.algoID = c₂.algoSuiteId)
    (h₂ : n₂.algoID = c₁.algoSuiteId) (hne : c₁.algoSuiteId ≠ c₂.algoSuiteId) :
    ¬ RoundTrips m s (some bpa) p own [n₁, n₂] := by
  intro htrip
  obtain ⟨m', s', attrLen, hconstruct, hlen⟩ := htrip.length
  have hroom := hlen ▸ s'.fits
  have hsize : (p.extend own [n₁, n₂]).size = (p.extend own [n₁, n₂]).securePathLen +
      ((Block.mk n₁.algoID (n₁.signature :: c₂.signatures)).size +
        (Block.mk n₂.algoID (n₂.signature :: c₁.signatures)).size) := by
    show _ + (([n₁, n₂].map p.extendBlock).map Block.size).sum = _
    simp [extendBlock_first hblocks h₂, extendBlock_second hblocks h₁ hne]
  have hshort : (Block.mk n₁.algoID [n₁.signature]).size ≤
      (Block.mk n₁.algoID (n₁.signature :: c₂.signatures)).size := by
    unfold Block.size
    simp
  obtain ⟨m₁, len, sb, s₁, hcopy, hcell, hcell', halgo, hnull, hlen₁, hfinish⟩ :=
    @construct_two _ m s bpa p own [n₁, n₂] c₁ c₂ h hsegs hblocks hsigs hroom
  have hne' : m.blocks.fresh ≠ m.blocks.fresh + 1 := Nat.ne_of_lt (Nat.lt_succ_self _)
  -- the second block is taken, and freed
  have hunlink := unlinkSigBlock_self hne' hcell'
  obtain ⟨sigs, s₂, htake, hdata, hsigsFresh, hsame⟩ := @takeSigBlock_eq _
    ⟨m₁, some m.blocks.fresh, s₁⟩ (m.blocks.fresh + 1) (some (m.blocks.fresh + 1)) none none
    (some m.blocks.fresh) sb _ [] [] n₁ hcell' hunlink (Function.update_self ..) hnull rfl
    (fun a ha => by cases ha) (by rw [halgo, ← h₁]; show s₁.data.length + _ ≤ size; omega)
  replace hdata : s₂.data = s₁.data ++ _ := hdata
  have hlen₂ := congrArg List.length hdata
  rw [List.length_append, length_bytes_block, halgo, ← h₁] at hlen₂
  have hfind := @findSigBlock_second m₁.blocks m.blocks.fresh m.blocks.fresh _ _ _ n₁.algoID hcell hcell'
    (h₁ ▸ hne) (halgo.trans h₁.symm)
  have hadd : addSignature (1 + p.segments.length) n₁.sca ⟨m₁, some m.blocks.fresh, s₁⟩ =
      some (.ok ⟨⟨m₁.segs, (m₁.blocks.write (m.blocks.fresh + 1) ⟨sb, none⟩).free (m.blocks.fresh + 1),
        sigs⟩, some m.blocks.fresh, s₂⟩) := by
    unfold addSignature
    rw [show findSigBlock n₁.sca.algoID m₁.blocks.fresh m₁.blocks (some m.blocks.fresh)
      (some m.blocks.fresh) = _ from hcopy.blocksFresh ▸ hfind]
    show (takeSigBlock n₁.sca _ (m.blocks.fresh + 1) (some (m.blocks.fresh + 1))).map Except.ok = _
    rw [htake]
    rfl
  -- the first block is taken, and its pointer to the second becomes the list
  have hcell₂ : ((m₁.blocks.write (m.blocks.fresh + 1) ⟨sb, none⟩).free (m.blocks.fresh + 1)).cells
      m.blocks.fresh = _ :=
    ((Function.update_of_ne hne' ..).trans (Function.update_of_ne hne' ..)).trans hcell
  obtain ⟨sigs', s₃, hadd', -, -, -⟩ := @addSignature_first _
    ⟨⟨m₁.segs, (m₁.blocks.write (m.blocks.fresh + 1) ⟨sb, none⟩).free (m.blocks.fresh + 1), sigs⟩,
      some m.blocks.fresh, s₂⟩
    m.blocks.fresh (1 + p.segments.length) _ _ _ c₁.signatures n₂ rfl hcell₂
    (by show _ < m₁.blocks.fresh; rw [hcopy.blocksFresh]; exact Nat.lt_add_of_pos_right (Nat.succ_pos _))
    h₂.symm (chain_congr hcopy.signatures fun a _ => hsame a List.not_mem_nil) (map_snd_numbered _ _)
    (fun a ha => hsigsFresh ▸ hcopy.signature_lt ha)
    (by show s₂.data.length + _ ≤ size; omega)
  have hdangling : (((m₁.blocks.write (m.blocks.fresh + 1) ⟨sb, none⟩).free
      (m.blocks.fresh + 1)).free m.blocks.fresh).cells (m.blocks.fresh + 1) = none :=
    (Function.update_of_ne hne'.symm ..).trans (Function.update_self ..)
  rw [hfinish _ _ _ (addSignatures_two hadd hadd')] at hconstruct
  obtain ⟨m₃, hfree, -⟩ := Option.map_eq_some_iff.mp hconstruct
  obtain ⟨segs, -, hfree⟩ := Option.bind_eq_some_iff.mp hfree
  unfold freeSigBlocks at hfree
  split at hfree
  · next heq => cases heq
  · cases hfree
  · next heq =>
    cases heq
    rw [hdangling] at hfree
    cases hfree

end TwoBlocks

/-! ## The round trip -/

theorem Represents.extends {m m' : Mem} {attr : Option AttrPtrs} {p : Path} (h : Represents m attr p)
    (hext : Extends m m') : Represents m' attr p := by
  cases attr with
  | none => exact h
  | some bpa => exact Held.extends h hext

/-- Lists of two elements in any order. -/
theorem perm_two {α : Type} {xs : List α} {a b : α} (h : xs.Perm [a, b]) :
    xs = [a, b] ∨ xs = [b, a] := by
  obtain ⟨x, y, rfl⟩ := List.length_eq_two.mp h.length_eq
  rcases List.mem_cons.mp (h.mem_iff.mp List.mem_cons_self) with rfl | hx
  · exact .inl (congrArg _ (List.perm_singleton.mp ((List.perm_cons _).mp h)))
  · obtain rfl := List.mem_singleton.mp hx
    exact .inr (congrArg _ (List.perm_singleton.mp
      ((List.perm_cons _).mp (h.trans (List.Perm.swap _ _ _)))))

section RoundTrip

variable {m : Mem} {s : Stream size} {attr : Option AttrPtrs} {p : Path} {own : PathSegment}
  {new : List NewSignature}

theorem Constructed.roundTrips (h : Constructed m s attr p own new) (hrep : Represents m attr p)
    (hcomplete : (p.extend own new).Complete) (htotal : (p.extend own new).size < 2 ^ 16) :
    RoundTrips m s attr p own new := by
  obtain ⟨m', s', hrun, hdata, hext⟩ := h
  exact ⟨m', s', _, (p.extend own new).bytes, p.extend own new, hrun, hdata,
    by rw [UInt16.toNat_ofNat_of_lt' htotal, length_bytes_path], bgpsecParse_bytes _ hcomplete htotal,
    rfl, List.Perm.refl _, hext, hrep.extends hext⟩

/-- One block, or the path of an origin. -/
theorem constructed_of_length_le (hrep : Represents m attr p) (hp : p.WellFormed)
    (hnew : p.Answered new) (hroom : s.data.length + (p.extend own new).size ≤ size)
    (hone : p.blocks.length ≤ 1) :
    Constructed m s attr p own new ∧ (p.extend own new).Complete := by
  unfold Path.Answered at hnew
  split at hnew
  · next hsegs =>
    have hblocks := hp.none hsegs
    refine ⟨constructed_origin hrep hsegs hblocks hroom, ?_, ?_, fun b hb => ?_⟩
    · rintro hnil
      rw [List.map_eq_nil_iff.mp hnil] at hnew
      rcases hnew with h | h <;> cases h
    · show (new.map p.extendBlock).length ≤ 2
      rw [List.length_map]
      rcases hnew with h | h
      · exact h ▸ Nat.le_succ 1
      · exact Nat.le_of_eq h
    · obtain ⟨n, -, rfl⟩ := List.mem_map.mp hb
      unfold Path.extendBlock Path.signaturesOf Path.extend
      rw [hblocks, hsegs]
      rfl
  · next hsegs =>
    have hlen : p.blocks.length = 1 := by
      rcases hp.some hsegs with h | h
      · exact h
      · exact absurd hone (by rw [h]; decide)
    obtain ⟨c, hblocks⟩ := List.length_eq_one_iff.mp hlen
    rw [hblocks] at hnew
    obtain ⟨n, rfl⟩ := List.length_eq_one_iff.mp
      ((List.length_map _).symm.trans (hnew.length_eq.trans rfl))
    have halgo : n.algoID = c.algoSuiteId := (List.cons.inj (List.perm_singleton.mp hnew)).1
    have hcount : c.signatures.length = p.segments.length := hp.counts c (hblocks ▸ List.mem_cons_self)
    have hsigs : c.signatures ≠ [] := by
      intro hnil
      rw [hnil] at hcount
      exact hsegs (List.length_eq_zero_iff.mp hcount.symm)
    cases attr with
    | none => exact absurd (congrArg Path.segments hrep) hsegs
    | some bpa =>
      refine ⟨constructed_single hrep hsegs hblocks hsigs halgo hroom, List.cons_ne_nil _ _,
        Nat.le_succ 1, fun b hb => ?_⟩
      obtain rfl := List.mem_singleton.mp hb
      rw [extendBlock_first hblocks halgo]
      exact congrArg Nat.succ hcount

/-- The bytes that are written are parsed to the extended path, and the original is unchanged, if and
only if there is room for them and the original has at most one signature block. -/
theorem roundTrips_iff (m : Mem) (s : Stream size) (attr : Option AttrPtrs) (p : Path)
    (own : PathSegment) (new : List NewSignature) (hrep : Represents m attr p) (hp : p.WellFormed)
    (hnew : p.Answered new) (htotal : (p.extend own new).size < 2 ^ 16) :
    RoundTrips m s attr p own new ↔
      s.data.length + (p.extend own new).size ≤ size ∧ p.blocks.length ≤ 1 := by
  constructor
  · intro htrip
    obtain ⟨m', s', attrLen, -, hlen⟩ := htrip.length
    refine ⟨hlen ▸ s'.fits, Nat.le_of_not_lt fun htwo => ?_⟩
    have hsegs : p.segments ≠ [] := fun hnil => by
      rw [hp.none hnil] at htwo
      cases htwo
    have hlen₂ : p.blocks.length = 2 := by
      rcases hp.some hsegs with h | h
      · exact absurd htwo (by rw [h]; decide)
      · exact h
    obtain ⟨c₁, c₂, hblocks⟩ := List.length_eq_two.mp hlen₂
    have hsigs : ∀ c ∈ p.blocks, c.signatures ≠ [] := by
      intro c hc hnil
      have hcount := hp.counts c hc
      rw [hnil] at hcount
      exact hsegs (List.length_eq_zero_iff.mp hcount.symm)
    have hne : c₁.algoSuiteId ≠ c₂.algoSuiteId := by
      have hnodup := hp.algorithms
      rw [hblocks] at hnodup
      exact fun heq => (List.nodup_cons.mp hnodup).1 (heq ▸ List.mem_cons_self)
    rw [hblocks, List.forall_mem_cons, List.forall_mem_cons] at hsigs
    unfold Path.Answered at hnew
    rw [if_neg hsegs, hblocks] at hnew
    obtain ⟨n₁, n₂, rfl⟩ := List.length_eq_two.mp ((List.length_map _).symm.trans hnew.length_eq)
    cases attr with
    | none => exact hsegs (congrArg Path.segments hrep)
    | some bpa =>
      rcases perm_two hnew with heq | heq
      · obtain ⟨h₁, h₂⟩ : n₁.algoID = c₁.algoSuiteId ∧ n₂.algoID = c₂.algoSuiteId := by
          simpa using heq
        exact construct_inOrder hrep hsegs hblocks hsigs.1 hsigs.2.1 h₁ h₂ hne htrip
      · obtain ⟨h₁, h₂⟩ : n₁.algoID = c₂.algoSuiteId ∧ n₂.algoID = c₁.algoSuiteId := by
          simpa using heq
        exact construct_outOfOrder hrep hsegs hblocks hsigs.1 h₁ h₂ hne htrip
  · rintro ⟨hroom, hone⟩
    obtain ⟨hconstructed, hcomplete⟩ := constructed_of_length_le hrep hp hnew hroom hone
    exact hconstructed.roundTrips hrep hcomplete htotal

end RoundTrip

/-! ### Two attributes -/

/-- The blocks of `onePath` and `twoPath` with their nodes at 0 and 1. -/
def oneMem : Mem :=
  ⟨newNode initMem oneSegment, newNode initMem ⟨28, 1, some 0⟩, newNode initMem oneSignature.segment⟩

def twoMem : Mem :=
  ⟨newNode initMem oneSegment, (newNode (newNode initMem noSigBlock) ⟨28, 2, some 1⟩).write 0
    ⟨⟨28, 1, some 0⟩, some 1⟩, newNode (newNode initMem oneSignature.segment) oneSignature.segment⟩

def storedAttr : AttrPtrs := ⟨8, some 0, some 0⟩

def emptyStream (size : Nat) : Stream size := ⟨[], Nat.zero_le size⟩

/-- A new signature for an algorithm. -/
def newFor (algoID : UInt8) : NewSignature := ⟨algoID, oneSignature⟩

theorem oneMem_held : Held oneMem storedAttr onePath where
  length _ := rfl
  segments := ⟨[(0, oneSegment)], ⟨rfl, none, rfl, rfl⟩, rfl, by decide⟩
  blocks := ⟨[⟨28, 1, some 0⟩], ⟨[(0, ⟨28, 1, some 0⟩)], ⟨rfl, none, rfl, rfl⟩, rfl, by decide⟩,
    .cons ⟨rfl, [(0, oneSignature.segment)], ⟨rfl, none, rfl, rfl⟩, rfl, by decide⟩ .nil⟩

theorem twoMem_held : Held twoMem storedAttr twoPath where
  length _ := rfl
  segments := ⟨[(0, oneSegment)], ⟨rfl, none, rfl, rfl⟩, rfl, by decide⟩
  blocks := ⟨[⟨28, 1, some 0⟩, ⟨28, 2, some 1⟩], ⟨[(0, ⟨28, 1, some 0⟩), (1, ⟨28, 2, some 1⟩)],
      ⟨rfl, some 1, rfl, rfl, none, rfl, rfl⟩, rfl, by decide⟩,
    .cons ⟨rfl, [(0, oneSignature.segment)], ⟨rfl, none, rfl, rfl⟩, rfl, by decide⟩
      (.cons ⟨rfl, [(1, oneSignature.segment)], ⟨rfl, none, rfl, rfl⟩, rfl, by decide⟩ .nil)⟩

theorem onePath_wellFormed : onePath.WellFormed :=
  ⟨fun h => (by cases h), fun _ => .inl rfl, by decide, by decide⟩

theorem twoPath_wellFormed : twoPath.WellFormed :=
  ⟨fun h => (by cases h), fun _ => .inr rfl, by decide, by decide⟩

/-- One block of one algorithm. -/
theorem roundTrips_one :
    RoundTrips oneMem (emptyStream 4096) (some storedAttr) onePath ⟨65002, 1, 0⟩ [newFor 1] :=
  (roundTrips_iff oneMem (emptyStream 4096) (some storedAttr) onePath ⟨65002, 1, 0⟩ [newFor 1]
    oneMem_held onePath_wellFormed (List.Perm.refl _) (by decide)).mpr (by decide)

/-- What the parser returns for the bytes that are written for `twoPath`. -/
def parsedTwo (new : List NewSignature) : Option (Option ParsedAttr) :=
  (constructBGPSecPathAttribute twoMem 65002 (emptyStream 4096) (some storedAttr) 0 1
    (new.map NewSignature.sca)).bind fun r => bgpsecParse r.2.1.data r.2.1.data.length

/-- The second of two blocks is written without the signature that it has, and the parser refuses the
attribute. With the new signatures in the other order, the freed block is freed again. -/
theorem second_block_lost :
    Represents twoMem (some storedAttr) twoPath ∧ twoPath.WellFormed ∧
      twoPath.Answered [newFor 1, newFor 2] ∧ twoPath.Answered [newFor 2, newFor 1] ∧
      (twoPath.extend ⟨65002, 1, 0⟩ [newFor 1, newFor 2]).size < 4096 ∧
      parsedTwo [newFor 1, newFor 2] = some none ∧ parsedTwo [newFor 2, newFor 1] = none ∧
      ¬ RoundTrips twoMem (emptyStream 4096) (some storedAttr) twoPath ⟨65002, 1, 0⟩
        [newFor 1, newFor 2] := by
  have hnull : parsedTwo [newFor 1, newFor 2] = some none := by decide +kernel
  refine ⟨twoMem_held, twoPath_wellFormed, List.Perm.refl _, List.Perm.swap _ _ _, by decide, hnull,
    by decide +kernel, ?_⟩
  rintro ⟨m', s', attrLen, written, q, hrun, hdata, -, hparse, -⟩
  obtain rfl : s'.data = written := hdata
  unfold parsedTwo at hnull
  rw [show constructBGPSecPathAttribute twoMem 65002 (emptyStream 4096) (some storedAttr) 0 1
    ([newFor 1, newFor 2].map NewSignature.sca) = some (m', s', attrLen) from hrun, Option.bind_some,
    hparse] at hnull
  cases hnull

end SrxSuite.Quagga

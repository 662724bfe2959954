import SrxSuite.Quagga.BgpsecPath

/-!
# The grammar of the BGPsec_PATH attribute

`bgpsec_parse` on every byte string. What it returns is right: `path_of_parse` says that an accepted
string is the encoding of a path. But it does not come back for every string. It looks
at what is left of the stream before a path segment, a block and the bytes of a signature, and
does not before a block length, an algorithm, and the identifier and the length of a signature;
these reads end the router with a failed assertion. `InBounds` describes the strings without such
a read, and `bgpsecParse_iff` says that the parser decides its grammar on these and on no others.

The 16-bit remainder of a block wraps when a signature is longer than its block. In `SigWalk` it
is an integer; the two agree because a string is too short to bring a wrapped remainder back
to 0.
-/

namespace SrxSuite.Quagga

open Bytes

/-- The parser comes back, with the attribute of a path exactly when the string is the path's
encoding. -/
def ParsesGrammar (s : Bytes) : Prop :=
  ∃ r, bgpsecParse s s.length = some r ∧
    ∀ q, r = some q ↔ ∃ p : Path, p.Complete ∧ p.bytes = s ∧ p.attr = q

/-- The signatures that are read when `left` bytes of the block are left: how many, and what is left
of the stream. They end where the block ends, or at a signature that is longer than the stream. -/
inductive SigWalk : (left : Int) → Bytes → (count : Nat) → (rest : Bytes) → Prop
  | ends (s : Bytes) : SigWalk 0 s 0 s
  | tooLong {left : Int} {ski s : Bytes} {sigLen : UInt16} : left ≠ 0 → ski.length = SKI_LENGTH →
      s.length < sigLen.toNat → SigWalk left (ski ++ (be16 sigLen ++ s)) 1 s
  | next {left : Int} {g : Signature} {s rest : Bytes} {count : Nat} : left ≠ 0 →
      SigWalk (left - g.size) s count rest → SigWalk left (g.bytes ++ s) (count + 1) rest

/-- The blocks that are read for `n` path segments when `blocks` more are allowed. They end with the
stream, at one block too many, at a length that is too short or too long, or at a wrong number
of signatures. -/
inductive BlocksWalk (n : Nat) : (blocks : Nat) → Bytes → Prop
  | ends {blocks : Nat} : BlocksWalk n blocks []
  | tooMany {s : Bytes} : s ≠ [] → BlocksWalk n 0 s
  | badLength {blocks : Nat} {sigBlockLen : UInt16} {s : Bytes} :
      (sigBlockLen.toNat < 2 ∨ s.length + 2 < sigBlockLen.toNat) →
      BlocksWalk n (blocks + 1) (be16 sigBlockLen ++ s)
  | badCount {blocks : Nat} {sigBlockLen : UInt16} {algo : UInt8} {s rest : Bytes} {count : Nat} :
      2 ≤ sigBlockLen.toNat → sigBlockLen.toNat ≤ s.length + 3 →
      SigWalk (sigBlockLen.toNat - 3) s count rest → count ≠ n →
      BlocksWalk n (blocks + 1) (be16 sigBlockLen ++ (algo :: s))
  | next {blocks : Nat} {sigBlockLen : UInt16} {algo : UInt8} {s rest : Bytes} :
      2 ≤ sigBlockLen.toNat → sigBlockLen.toNat ≤ s.length + 3 →
      SigWalk (sigBlockLen.toNat - 3) s n rest → BlocksWalk n blocks rest →
      BlocksWalk n (blocks + 1) (be16 sigBlockLen ++ (algo :: s))

/-- The strings that are read to an end: with a secure path length that cannot be right, or with
blocks behind the path segments. There may be too few of these; then the blocks start where less
than a segment is left. -/
inductive InBounds : Bytes → Prop
  | badPath {spl : UInt16} {s : Bytes} : (∀ n, spl.toNat ≠ 2 + 6 * n) → InBounds (be16 spl ++ s)
  | path {spl : UInt16} {segs : List PathSegment} {s : Bytes} : spl.toNat = 2 + 6 * segs.length →
      BlocksWalk segs.length BGPSEC_MAX_SIGBLOCK s →
      InBounds (be16 spl ++ (segs.flatMap PathSegment.bytes ++ s))
  | shortPath {spl : UInt16} {n : Nat} {segs : List PathSegment} {s : Bytes} :
      spl.toNat = 2 + 6 * n → segs.length < n → s.length < OCTET_SECURE_PATH_SEGMENT →
      BlocksWalk n BGPSEC_MAX_SIGBLOCK s →
      InBounds (be16 spl ++ (segs.flatMap PathSegment.bytes ++ s))

namespace ParseGrammarLemmas

open PathLemmas

/-! ## Reading -/

theorem streamGetc_eq {s s' : Bytes} {c : UInt8} (h : streamGetc s = some (c, s')) : s = c :: s' := by
  unfold streamGetc at h
  split at h
  · cases h
    rfl
  · cases h

theorem streamGetw_eq {s s' : Bytes} {w : UInt16} (h : streamGetw s = some (w, s')) :
    s = be16 w ++ s' := by
  unfold streamGetw at h
  split at h
  · cases h
    rw [be16_ofBytes16]
    rfl
  · cases h

theorem streamGetl_eq {s s' : Bytes} {l : UInt32} (h : streamGetl s = some (l, s')) :
    s = be32 l ++ s' := by
  unfold streamGetl at h
  split at h
  · cases h
    rw [be32_ofBytes32]
    rfl
  · cases h

theorem streamGet_eq {s s' bs : Bytes} {n : Nat} (h : streamGet s n = some (bs, s')) :
    s = bs ++ s' := by
  unfold streamGet at h
  split at h
  · cases h
  · cases h
    exact (List.take_append_drop n s).symm

/-! ## The path segments -/

/-- The segments are read to their end, or until less than a segment is left. -/
theorem parsePathSegments_eq {n : Nat} {s s' : Bytes} {segs : List PathSegment} {err : Bool}
    (h : parsePathSegments n s = some (segs, err, s')) :
    s = segs.flatMap PathSegment.bytes ++ s' ∧
      if err then segs.length < n ∧ s'.length < OCTET_SECURE_PATH_SEGMENT else segs.length = n := by
  induction n generalizing s segs with
  | zero =>
    cases h
    exact ⟨rfl, rfl⟩
  | succ n ih =>
    unfold parsePathSegments at h
    split at h
    · next hshort =>
      cases h
      exact ⟨rfl, Nat.succ_pos n, hshort⟩
    · obtain ⟨⟨pCount, s₁⟩, h1, h⟩ := Option.bind_eq_some_iff.mp h
      obtain ⟨⟨flags, s₂⟩, h2, h⟩ := Option.bind_eq_some_iff.mp h
      obtain ⟨⟨as, s₃⟩, h3, h⟩ := Option.bind_eq_some_iff.mp h
      obtain ⟨⟨segs', err', s₄⟩, h4, h⟩ := Option.bind_eq_some_iff.mp h
      cases h
      obtain ⟨hs, hend⟩ := ih h4
      refine ⟨?_, ?_⟩
      · rw [streamGetc_eq h1, streamGetc_eq h2, streamGetl_eq h3, hs, List.flatMap_cons,
          List.append_assoc]
        rfl
      · cases err with
        | false => exact congrArg Nat.succ hend
        | true => exact ⟨Nat.succ_lt_succ hend.1, hend.2⟩

theorem parsePathSegments_short {n : Nat} {segs : List PathSegment} {s : Bytes}
    (hcount : segs.length < n) (hshort : s.length < OCTET_SECURE_PATH_SEGMENT) :
    parsePathSegments n (segs.flatMap PathSegment.bytes ++ s) = some (segs, true, s) := by
  induction segs generalizing n with
  | nil =>
    obtain ⟨n, rfl⟩ := Nat.exists_eq_succ_of_ne_zero (Nat.pos_iff_ne_zero.mp hcount)
    exact if_pos hshort
  | cons g segs ih =>
    obtain ⟨n, rfl⟩ := Nat.exists_eq_succ_of_ne_zero (Nat.ne_zero_of_lt hcount)
    rw [List.flatMap_cons, List.append_assoc]
    show parsePathSegments (n + 1)
      (g.pCount :: g.flags :: (be32 g.as ++ (segs.flatMap PathSegment.bytes ++ s))) = _
    unfold parsePathSegments
    rw [if_neg (by simp [OCTET_SECURE_PATH_SEGMENT])]
    simp only [streamGetc_cons, streamGetl_be32, ih (Nat.lt_of_succ_lt_succ hcount),
      Option.bind_eq_bind, Option.bind_some]

/-! ## The signatures of a block -/

/-- The 16-bit remainder stands for `left`, which the rest of the stream cannot take down by a whole
turn of the remainder. -/
structure Tracks (remaining : UInt16) (left : Int) (s : Bytes) : Prop where
  residue : (remaining.toNat : Int) = left % 65536
  low : (s.length : Int) - 65536 < left
  high : left < 65536

theorem Tracks.zero_iff {remaining : UInt16} {left : Int} {s : Bytes} (h : Tracks remaining left s) :
    remaining = 0 ↔ left = 0 := by
  have hres := h.residue
  have hlow := h.low
  have hhigh := h.high
  rw [← UInt16.toNat_inj]
  show remaining.toNat = 0 ↔ left = 0
  omega

theorem Tracks.next {remaining sigLen : UInt16} {left : Int} {s s' : Bytes}
    (h : Tracks remaining left s) (hlen : s.length = SKI_LENGTH + 2 + sigLen.toNat + s'.length) :
    Tracks (remaining - UInt16.ofNat SKI_LENGTH - 2 - sigLen)
      (left - (SKI_LENGTH + 2 + sigLen.toNat : Nat)) s' := by
  have hres := h.residue
  have hlow := h.low
  have hhigh := h.high
  have hlt := sigLen.toNat_lt
  have hski : (UInt16.ofNat SKI_LENGTH).toNat = 20 := rfl
  have htwo : (2 : UInt16).toNat = 2 := rfl
  unfold SKI_LENGTH at hlen
  refine ⟨?_, ?_, ?_⟩
  · rw [UInt16.toNat_sub, UInt16.toNat_sub, UInt16.toNat_sub, hski, htwo]
    unfold SKI_LENGTH
    omega
  · unfold SKI_LENGTH
    omega
  · unfold SKI_LENGTH
    omega

/-- The loop walks through signatures, and without an error it ends where the block ends. -/
theorem parseSigSegments_walk {fuel : Nat} {remaining : UInt16} {left : Int} {s s' : Bytes}
    {sigs : List SigSegment} {err : Bool} (ht : Tracks remaining left s)
    (h : parseSigSegments fuel remaining s = some (sigs, err, s')) :
    SigWalk left s sigs.length s' ∧ (err = false → ∃ gs : List Signature,
      sigs = gs.map Signature.segment ∧ s = gs.flatMap Signature.bytes ++ s' ∧
        left = ((gs.map Signature.size).sum : Nat)) := by
  induction fuel generalizing remaining left s sigs with
  | zero =>
    unfold parseSigSegments at h
    split at h
    · next hzero =>
      cases h
      obtain rfl := ht.zero_iff.mp hzero
      exact ⟨.ends _, fun _ => ⟨[], rfl, rfl, rfl⟩⟩
    · cases h
  | succ fuel ih =>
    unfold parseSigSegments at h
    split at h
    · next hzero =>
      cases h
      obtain rfl := ht.zero_iff.mp hzero
      exact ⟨.ends _, fun _ => ⟨[], rfl, rfl, rfl⟩⟩
    · next hne =>
      have hleft : left ≠ 0 := fun h0 => hne (ht.zero_iff.mpr h0)
      obtain ⟨⟨ski, s₁⟩, h1, h⟩ := Option.bind_eq_some_iff.mp h
      obtain ⟨⟨sigLen, s₂⟩, h2, h⟩ := Option.bind_eq_some_iff.mp h
      dsimp only at h
      have hski := streamGet_length h1
      have hfront : s = ski ++ (be16 sigLen ++ s₂) := by rw [streamGet_eq h1, streamGetw_eq h2]
      split at h
      · next hlong =>
        cases h
        rw [hfront]
        exact ⟨.tooLong hleft hski hlong, fun h => by cases h⟩
      · obtain ⟨⟨signature, s₃⟩, h3, h⟩ := Option.bind_eq_some_iff.mp h
        obtain ⟨⟨rest, err', s₄⟩, h4, h⟩ := Option.bind_eq_some_iff.mp h
        cases h
        have hlen := streamGet_length h3
        let g : Signature := ⟨ski, signature, hski, hlen ▸ sigLen.toNat_lt⟩
        have hsigLen : UInt16.ofNat signature.length = sigLen := by rw [hlen, UInt16.ofNat_toNat]
        have hs : s = g.bytes ++ s₃ := by
          rw [hfront, streamGet_eq h3, Signature.bytes, hsigLen, List.append_assoc, List.append_assoc]
        have hsize : g.size = SKI_LENGTH + 2 + sigLen.toNat := by rw [Signature.size, hlen]
        have hrest : s.length = SKI_LENGTH + 2 + sigLen.toNat + s₃.length := by
          rw [hs, List.length_append, length_bytes_signature, hsize]
        have ht' := ht.next hrest
        rw [← hsize] at ht'
        obtain ⟨hwalk, hexact⟩ := ih ht' h4
        rw [hs]
        refine ⟨.next hleft hwalk, fun herr => ?_⟩
        obtain ⟨gs, rfl, rfl, hsum⟩ := hexact herr
        refine ⟨g :: gs, ?_, ?_, ?_⟩
        · rw [List.map_cons, Signature.segment, hsigLen]
        · rw [List.flatMap_cons, List.append_assoc]
        · rw [List.map_cons, List.sum_cons]
          omega

/-- A walk is read to its end. -/
theorem parseSigSegments_of_walk {left : Int} {s rest : Bytes} {count : Nat}
    (hwalk : SigWalk left s count rest) {fuel : Nat} {remaining : UInt16}
    (ht : Tracks remaining left s) (hfuel : s.length ≤ fuel) :
    ∃ sigs err, parseSigSegments fuel remaining s = some (sigs, err, rest) ∧ sigs.length = count := by
  induction hwalk generalizing fuel remaining with
  | ends s =>
    refine ⟨[], false, ?_, rfl⟩
    unfold parseSigSegments
    exact if_pos (ht.zero_iff.mpr rfl)
  | @tooLong left ski s sigLen hleft hski hlong =>
    obtain ⟨fuel, rfl⟩ := Nat.exists_eq_succ_of_ne_zero (Nat.pos_iff_ne_zero.mp
      (Nat.lt_of_lt_of_le (by rw [List.length_append, hski]; exact Nat.succ_pos _) hfuel))
    refine ⟨[⟨some ski, sigLen, none⟩], true, ?_, rfl⟩
    unfold parseSigSegments
    rw [if_neg fun h0 => hleft (ht.zero_iff.mp h0)]
    simp only [streamGet_append _ hski, streamGetw_be16, Option.bind_eq_bind, Option.bind_some,
      if_pos hlong]
  | @next left g s rest count hleft hwalk ih =>
    have hlen : (UInt16.ofNat g.signature.length).toNat = g.signature.length :=
      UInt16.toNat_ofNat_of_lt' g.signatureLength
    have hbytes : (g.bytes ++ s).length = g.size + s.length := by
      rw [List.length_append, length_bytes_signature]
    obtain ⟨fuel, rfl⟩ := Nat.exists_eq_succ_of_ne_zero (Nat.pos_iff_ne_zero.mp
      (Nat.lt_of_lt_of_le (by rw [hbytes]; have := size_pos g; omega) hfuel))
    have hrest : (g.bytes ++ s).length =
        SKI_LENGTH + 2 + (UInt16.ofNat g.signature.length).toNat + s.length := by
      rw [hbytes, hlen, Signature.size]
    have ht' := ht.next hrest
    have hsize : SKI_LENGTH + 2 + (UInt16.ofNat g.signature.length).toNat = g.size := by
      rw [hlen, Signature.size]
    rw [hsize] at ht'
    have hfuel' : s.length ≤ fuel := by
      have := size_pos g
      omega
    obtain ⟨sigs, err, hparse, hcount⟩ := ih ht' hfuel'
    refine ⟨g.segment :: sigs, err, ?_, congrArg Nat.succ hcount⟩
    rw [Signature.bytes, List.append_assoc, List.append_assoc]
    unfold parseSigSegments
    rw [if_neg fun h0 => hleft (ht.zero_iff.mp h0)]
    simp only [streamGet_append _ g.skiLength, streamGetw_be16, Option.bind_eq_bind,
      Option.bind_some, hlen]
    rw [if_neg (by rw [List.length_append]; omega), streamGet_append _ rfl]
    simp only [Option.bind_some, hparse]
    rfl

theorem SigWalk.length_le {left : Int} {s rest : Bytes} {count : Nat}
    (h : SigWalk left s count rest) : rest.length ≤ s.length := by
  induction h with
  | ends s => exact Nat.le_refl _
  | tooLong =>
    rw [List.length_append, List.length_append]
    omega
  | next _ _ ih =>
    rw [List.length_append]
    omega

/-! ## The blocks -/

theorem blockRest_le_iff {sigBlockLen : UInt16} {s : Bytes} (hlt : s.length < 65536) :
    blockRest sigBlockLen ≤ s.length ↔ 2 ≤ sigBlockLen.toNat ∧ sigBlockLen.toNat ≤ s.length + 2 := by
  unfold blockRest
  split <;> omega

/-- The remainder at the start of a block. -/
theorem tracks_start {sigBlockLen : UInt16} {s : Bytes} (hlt : s.length + 3 < 65536)
    (hlow : 2 ≤ sigBlockLen.toNat) : Tracks (sigBlockLen - 3) (sigBlockLen.toNat - 3) s := by
  have hbound := sigBlockLen.toNat_lt
  have hthree : (3 : UInt16).toNat = 3 := rfl
  refine ⟨?_, by omega, by omega⟩
  rw [UInt16.toNat_sub, hthree]
  omega

/-- The loop walks through blocks, and without an error they are well formed. -/
theorem parseSigBlocks_walk {n blocks : Nat} {s : Bytes} {bs : List (SigBlock (List SigSegment))}
    {err : Bool} (hlt : s.length < 65536) (h : parseSigBlocks n blocks s = some (bs, err)) :
    BlocksWalk n blocks s ∧ (err = false → ∃ ps : List Block, bs = ps.map Block.sigBlock ∧
      s = ps.flatMap Block.bytes ∧ ps.length ≤ blocks ∧ ∀ b ∈ ps, b.signatures.length = n) := by
  induction blocks generalizing s bs err with
  | zero =>
    unfold parseSigBlocks at h
    split at h
    · next hnil =>
      cases h
      obtain rfl := List.length_eq_zero_iff.mp hnil
      exact ⟨.ends, fun _ => ⟨[], rfl, rfl, Nat.le_refl 0, List.forall_mem_nil _⟩⟩
    · next hne =>
      cases h
      exact ⟨.tooMany fun h0 => hne (List.length_eq_zero_iff.mpr h0), fun h => by cases h⟩
  | succ blocks ih =>
    unfold parseSigBlocks at h
    split at h
    · next hnil =>
      cases h
      obtain rfl := List.length_eq_zero_iff.mp hnil
      exact ⟨.ends, fun _ => ⟨[], rfl, rfl, Nat.zero_le _, List.forall_mem_nil _⟩⟩
    · obtain ⟨⟨sigBlockLen, s₁⟩, h1, hrun⟩ := Option.bind_eq_some_iff.mp h
      clear h
      dsimp only at hrun
      obtain rfl := streamGetw_eq h1
      rw [List.length_append, length_be16] at hlt
      have hrest := @blockRest_le_iff sigBlockLen s₁ (by omega)
      split at hrun
      · next hbad =>
        cases hrun
        exact ⟨.badLength (by omega), fun h => by cases h⟩
      · next hgood =>
        obtain ⟨hlow, hhigh⟩ := hrest.mp (Nat.le_of_not_lt hgood)
        obtain ⟨⟨algo, s₂⟩, h2, hread⟩ := Option.bind_eq_some_iff.mp hrun
        clear hrun
        dsimp only at hread
        obtain rfl := streamGetc_eq h2
        obtain ⟨⟨sigs, err₁, s₃⟩, h3, hcheck⟩ := Option.bind_eq_some_iff.mp hread
        dsimp only at hcheck
        rw [List.length_cons] at hlt hhigh
        obtain ⟨hwalk, hexact⟩ := parseSigSegments_walk (tracks_start (by omega) hlow) h3
        split at hcheck
        · next hcount =>
          cases hcheck
          exact ⟨.badCount hlow hhigh hwalk hcount, fun h => by cases h⟩
        · next hcount =>
          obtain ⟨⟨rest, err₂⟩, h4, hout⟩ := Option.bind_eq_some_iff.mp hcheck
          cases hout
          obtain rfl := not_not.mp hcount
          have hle := SigWalk.length_le hwalk
          obtain ⟨hblocks, hwell⟩ := ih (by omega) h4
          refine ⟨.next hlow hhigh hwalk hblocks, fun herr => ?_⟩
          obtain ⟨rfl, rfl⟩ := Bool.or_eq_false_iff.mp herr
          obtain ⟨gs, rfl, rfl, hsum⟩ := hexact rfl
          obtain ⟨ps, rfl, rfl, hmax, hcounts⟩ := hwell rfl
          let b : Block := ⟨algo, gs⟩
          have hsize : sigBlockLen = UInt16.ofNat b.size := by
            have hnat : sigBlockLen.toNat = 3 + (gs.map Signature.size).sum := by omega
            show sigBlockLen = UInt16.ofNat (3 + (gs.map Signature.size).sum)
            rw [← hnat, UInt16.ofNat_toNat]
          refine ⟨b :: ps, ?_, ?_, Nat.succ_le_succ hmax, ?_⟩
          · rw [List.map_cons, Block.sigBlock, ← hsize]
          · rw [List.flatMap_cons, Block.bytes, ← hsize, List.append_assoc, List.cons_append]
          · exact List.forall_mem_cons.mpr ⟨(List.length_map ..).symm, hcounts⟩

/-- A walk is read to its end. -/
theorem parseSigBlocks_of_walk {n blocks : Nat} {s : Bytes} (hwalk : BlocksWalk n blocks s)
    (hlt : s.length < 65536) : ∃ bs err, parseSigBlocks n blocks s = some (bs, err) := by
  induction hwalk with
  | ends =>
    refine ⟨[], false, ?_⟩
    unfold parseSigBlocks
    exact if_pos rfl
  | tooMany hne =>
    refine ⟨[], true, ?_⟩
    unfold parseSigBlocks
    exact if_neg fun h0 => hne (List.length_eq_zero_iff.mp h0)
  | @badLength blocks sigBlockLen s hbad =>
    rw [List.length_append, length_be16] at hlt
    have hrest := @blockRest_le_iff sigBlockLen s (by omega)
    refine ⟨[⟨sigBlockLen, 0, []⟩], true, ?_⟩
    unfold parseSigBlocks
    rw [if_neg (by rw [List.length_append, length_be16]; omega)]
    simp only [streamGetw_be16, Option.bind_eq_bind, Option.bind_some]
    exact if_pos (by omega)
  | @badCount blocks sigBlockLen algo s rest count hlow hhigh hsigs hcount =>
    rw [List.length_append, length_be16, List.length_cons] at hlt
    have hrest := (@blockRest_le_iff sigBlockLen (algo :: s) (by rw [List.length_cons]; omega)).mpr
      ⟨hlow, by rw [List.length_cons]; omega⟩
    obtain ⟨sigs, err, hparse, rfl⟩ :=
      parseSigSegments_of_walk hsigs (tracks_start (by omega) hlow) (Nat.le_refl _)
    refine ⟨[⟨sigBlockLen, algo, sigs⟩], true, ?_⟩
    unfold parseSigBlocks
    rw [if_neg (by rw [List.length_append, length_be16]; omega)]
    simp only [streamGetw_be16, Option.bind_eq_bind, Option.bind_some, if_neg (Nat.not_lt.mpr hrest),
      streamGetc_cons, hparse, if_pos hcount]
  | @next blocks sigBlockLen algo s rest hlow hhigh hsigs hblocks ih =>
    rw [List.length_append, length_be16, List.length_cons] at hlt
    have hrest := (@blockRest_le_iff sigBlockLen (algo :: s) (by rw [List.length_cons]; omega)).mpr
      ⟨hlow, by rw [List.length_cons]; omega⟩
    have hle := SigWalk.length_le hsigs
    obtain ⟨sigs, err, hparse, hcount⟩ :=
      parseSigSegments_of_walk hsigs (tracks_start (by omega) hlow) (Nat.le_refl _)
    obtain ⟨bs, err', hbs⟩ := ih (by omega)
    refine ⟨⟨sigBlockLen, algo, sigs⟩ :: bs, err || err', ?_⟩
    unfold parseSigBlocks
    rw [if_neg (by rw [List.length_append, length_be16]; omega)]
    simp only [streamGetw_be16, Option.bind_eq_bind, Option.bind_some, if_neg (Nat.not_lt.mpr hrest),
      streamGetc_cons, hparse, if_neg (not_not_intro hcount), hbs]

/-! ## The attribute -/

/-- The check of the secure path length. -/
theorem tmod_eq_zero_iff (spl : UInt16) :
    ((spl.toNat : Int) - OCTET_SECURE_PATH_LEN).tmod OCTET_SECURE_PATH_SEGMENT = 0 ↔
      ∃ n, spl.toNat = 2 + 6 * n := by
  unfold OCTET_SECURE_PATH_LEN OCTET_SECURE_PATH_SEGMENT
  constructor
  · intro h
    obtain ⟨k, hk⟩ := Int.dvd_of_tmod_eq_zero h
    exact ⟨k.toNat, by omega⟩
  · rintro ⟨n, hn⟩
    have hmul : (spl.toNat : Int) - (2 : Nat) = (6 : Nat) * n := by omega
    rw [hmul]
    exact Int.mul_tmod_right _ _

/-- The number of path segments that a right length stands for. -/
theorem segments_of_length {spl n : Nat} (h : spl = 2 + 6 * n) :
    (spl - OCTET_SECURE_PATH_LEN) / OCTET_SECURE_PATH_SEGMENT = n := by
  unfold OCTET_SECURE_PATH_LEN OCTET_SECURE_PATH_SEGMENT
  omega

/-- A string that is parsed is read to its end. -/
theorem inBounds_of_parse {s : Bytes} (hne : s ≠ []) (hlt : s.length < 65536)
    {r : Option ParsedAttr} (h : bgpsecParse s s.length = some r) : InBounds s := by
  have hpos : s.length ≠ 0 := fun h0 => hne (List.length_eq_zero_iff.mp h0)
  unfold bgpsecParse at h
  rw [if_neg (by omega)] at h
  obtain ⟨⟨spl, s₁⟩, h1, hrun⟩ := Option.bind_eq_some_iff.mp h
  clear h
  dsimp only at hrun
  obtain rfl := streamGetw_eq h1
  split at hrun
  · next hbad =>
    rw [ne_eq, tmod_eq_zero_iff, not_exists] at hbad
    exact .badPath hbad
  · next hgood =>
    rw [not_not, tmod_eq_zero_iff] at hgood
    obtain ⟨n, hn⟩ := hgood
    simp only [streamGetw_be16, Option.bind_eq_bind, Option.bind_some, segments_of_length hn] at hrun
    obtain ⟨⟨segs, err, s₂⟩, h2, hrest⟩ := Option.bind_eq_some_iff.mp hrun
    dsimp only at hrest
    obtain ⟨⟨bs, err'⟩, h3, -⟩ := Option.bind_eq_some_iff.mp hrest
    obtain ⟨rfl, hend⟩ := parsePathSegments_eq h2
    rw [List.length_append, List.length_append] at hlt
    obtain ⟨hwalk, -⟩ := parseSigBlocks_walk (by omega) h3
    cases err with
    | true => exact .shortPath hn hend.1 hend.2 hwalk
    | false =>
      obtain rfl : segs.length = n := hend
      exact .path hn hwalk

/-- What is returned is the attribute of a path with this encoding. -/
theorem path_of_parse {s : Bytes} (hlt : s.length < 65536) {q : ParsedAttr}
    (h : bgpsecParse s s.length = some (some q)) : ∃ p : Path, p.Complete ∧ p.bytes = s ∧ p.attr = q := by
  obtain ⟨spl, s₁, s₂, h1, hmod, h2, hrest, h3, hlen⟩ := bgpsecParse_parts h
  obtain rfl := streamGetw_eq h1
  obtain ⟨n, hn⟩ := (tmod_eq_zero_iff spl).mp hmod
  rw [segments_of_length hn] at h2 h3
  obtain ⟨rfl, hend⟩ := parsePathSegments_eq h2
  obtain rfl : q.pathSegments.length = n := hend
  rw [List.length_append, List.length_append] at hlt
  obtain ⟨-, hwell⟩ := parseSigBlocks_walk (by omega) h3
  obtain ⟨ps, hps, rfl, hmax, hcounts⟩ := hwell rfl
  have hspl : spl = UInt16.ofNat (Path.securePathLen ⟨q.pathSegments, ps⟩) := by
    rw [← UInt16.ofNat_toNat (x := spl), hn]
    rfl
  refine ⟨⟨q.pathSegments, ps⟩, ⟨?_, hmax, hcounts⟩, ?_, ?_⟩
  · rintro rfl
    exact hrest rfl
  · rw [Path.bytes, ← hspl]
  · rw [Path.attr, ← hps]
    have hq : Path.securePathLen ⟨q.pathSegments, ps⟩ = q.securePathLen := hn.symm.trans hlen.symm
    rw [hq]

/-- A right secure path length, segments and blocks that are read: the parser comes back. -/
theorem bgpsecParse_isSome {spl : UInt16} {n : Nat} {s s' : Bytes} {segs : List PathSegment}
    {err err' : Bool} {bs : List (SigBlock (List SigSegment))} (hn : spl.toNat = 2 + 6 * n)
    (hsegs : parsePathSegments n s = some (segs, err, s'))
    (hbs : parseSigBlocks n BGPSEC_MAX_SIGBLOCK s' = some (bs, err')) :
    ∃ r, bgpsecParse (be16 spl ++ s) (be16 spl ++ s).length = some r := by
  unfold bgpsecParse
  rw [if_neg (by rw [List.length_append, length_be16]; omega)]
  simp only [streamGetw_be16, Option.bind_eq_bind, Option.bind_some, segments_of_length hn,
    (tmod_eq_zero_iff spl).mpr ⟨_, hn⟩, ne_eq, not_true_eq_false, if_false, hsegs, hbs]
  split <;> exact ⟨_, rfl⟩

/-- A string within the bounds is parsed. -/
theorem bgpsecParse_of_inBounds {s : Bytes} (hlt : s.length < 65536) (h : InBounds s) :
    ∃ r, bgpsecParse s s.length = some r := by
  cases h with
  | @badPath spl s hbad =>
    rw [← not_exists, ← tmod_eq_zero_iff] at hbad
    refine ⟨none, ?_⟩
    unfold bgpsecParse
    rw [if_neg (by rw [List.length_append, length_be16]; omega)]
    simp only [streamGetw_be16, Option.bind_eq_bind, Option.bind_some]
    exact if_pos hbad
  | @path spl segs s hn hwalk =>
    rw [List.length_append, List.length_append] at hlt
    obtain ⟨bs, err, hbs⟩ := parseSigBlocks_of_walk hwalk (by omega)
    exact bgpsecParse_isSome hn (parsePathSegments_bytes segs s) hbs
  | @shortPath spl n segs s hn hcount hshort hwalk =>
    rw [List.length_append, List.length_append] at hlt
    obtain ⟨bs, err, hbs⟩ := parseSigBlocks_of_walk hwalk (by omega)
    exact bgpsecParse_isSome hn (parsePathSegments_short hcount hshort) hbs

end ParseGrammarLemmas

open ParseGrammarLemmas PathLemmas

/-- On which strings `bgpsec_parse` decides its grammar: on those that it reads to an end. -/
theorem bgpsecParse_iff (s : Bytes) (hne : s ≠ []) (hlt : s.length < 2 ^ 16) :
    ParsesGrammar s ↔ InBounds s := by
  constructor
  · rintro ⟨r, hparse, -⟩
    exact inBounds_of_parse hne hlt hparse
  · intro h
    obtain ⟨r, hparse⟩ := bgpsecParse_of_inBounds hlt h
    refine ⟨r, hparse, fun q => ⟨?_, ?_⟩⟩
    · rintro rfl
      exact path_of_parse hlt hparse
    · rintro ⟨p, hp, rfl, rfl⟩
      rw [length_bytes_path] at hlt
      exact Option.some.inj (hparse.symm.trans (bgpsecParse_bytes p hp hlt))

theorem bgpsecParse_iff_onePath : onePath.bytes ≠ [] ∧ onePath.bytes.length < 2 ^ 16 ∧
    (ParsesGrammar onePath.bytes ↔ InBounds onePath.bytes) := by
  have hne : onePath.bytes ≠ [] := by decide
  have hlt : onePath.bytes.length < 2 ^ 16 := by decide
  exact ⟨hne, hlt, bgpsecParse_iff onePath.bytes hne hlt⟩

/-- A path segment, and one byte where the length of a block is read. -/
theorem truncated_block_stops :
    ¬ ParsesGrammar (be16 8 ++ (oneSegment.bytes ++ [0])) := by
  rintro ⟨r, hparse, -⟩
  have hstop : bgpsecParse (be16 8 ++ (oneSegment.bytes ++ [0])) 9 = none := by decide
  exact absurd (hstop.symm.trans hparse) (by simp)

end SrxSuite.Quagga

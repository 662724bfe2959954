import SrxSuite.Quagga.AsPath

/-!
# AS_PATH attributes

The model of `aspath_parse` (`bgpd/bgp_aspath.c`). An AS number has four bytes, or two with a peer that
does not support more. A parse ends the router with a failed assertion (`none`), or returns `NULL` or
the path.

Results:
1. `aspathParse_iff`: a parse ends, and what is behind the attribute makes no difference to it; it accepts
   exactly the sequences of wire segments, and the path is their canonical form.
2. `aspathParse_same`: two attributes have the same path exactly when they say the same.
-/

namespace SrxSuite.Quagga

open Bytes

/-! ## `aspath_parse` -/

def AS_HEADER_SIZE : Nat := 2

/-- `ASSEGMENT_SIZE`. -/
def assegmentSize (n : Nat) (use32bit : Bool) : Nat :=
  AS_HEADER_SIZE + n * (if use32bit then 4 else 2)

/-- The types that are accepted. -/
def KnownType (type : UInt8) : Prop :=
  type = AS_SEQUENCE ∨ type = AS_SET ∨ type = AS_CONFED_SEQUENCE ∨ type = AS_CONFED_SET

instance (type : UInt8) : Decidable (KnownType type) := inferInstanceAs (Decidable (_ ∨ _))

/-- An AS number from the stream. -/
def streamGetAs (use32bit : Bool) (s : Bytes) : Option (UInt32 × Bytes) :=
  if use32bit then streamGetl s else (streamGetw s).map fun (w, s) => (w.toUInt32, s)

/-- The numbers of a segment, as many as its header says. -/
def streamGetAsns (use32bit : Bool) : (n : Nat) → Bytes →
    Option ({ as : List UInt32 // as.length = n } × Bytes)
  | 0, s => some (⟨[], rfl⟩, s)
  | n + 1, s => do
    let (as, s) ← streamGetAs use32bit s
    let (⟨ases, h⟩, s) ← streamGetAsns use32bit n s
    some (⟨as :: ases, congrArg (· + 1) h⟩, s)

/-- The loop of `assegments_parse`: the segments, `none` for `-1`, and what is left to read. Every round
reads a header, so that the length is enough `fuel`. -/
def parseSegments (length : Nat) (use32bit : Bool) : (fuel bytes : Nat) → Bytes →
    Option (Option (List AsSegment) × Bytes)
  | fuel, bytes, s =>
    if length ≤ bytes then some (some [], s)
    else if length - bytes ≤ AS_HEADER_SIZE then some (none, s)
    else match fuel with
      | 0 => none
      | fuel + 1 => do
        let (type, s) ← streamGetc s
        let (segLength, s) ← streamGetc s
        let segSize := assegmentSize segLength.toNat use32bit
        if bytes + segSize > length ∨ segLength = 0 ∨ ¬ KnownType type then some (none, s)
        else
          let (⟨as, h⟩, s) ← streamGetAsns use32bit segLength.toNat s
          let seg : AsSegment := ⟨type, as, h ▸ Nat.lt_trans segLength.toNat_lt (by decide)⟩
          let (segs, s) ← parseSegments length use32bit fuel (bytes + segSize) s
          some (segs.map (seg :: ·), s)

/-- `assegments_parse`. -/
def assegmentsParse (s : Bytes) (length : Nat) (use32bit : Bool) :
    Option (Option (List AsSegment) × Bytes) :=
  if length = 0 then some (some [], s)
  else if s.length < length ∨ s.length < AS_HEADER_SIZE ∨ length % 2 ≠ 0 then some (none, s)
  else (parseSegments length use32bit length 0 s).map fun (segs, s) => (segs.map assegmentNormalise, s)

/-- `aspath_parse`: the segments of the path that is interned, `none` for `NULL`. -/
def aspathParse (s : Bytes) (length : Nat) (use32bit : Bool) :
    Option (Option (List AsSegment) × Bytes) :=
  if length % 2 ≠ 0 then some (none, s) else assegmentsParse s length use32bit

/-! ## Wire segments -/

/-- An AS number on the wire. -/
def asBytes (use32bit : Bool) (as : UInt32) : Bytes := if use32bit then be32 as else be16 as.toUInt16

/-- A segment on the wire. Its count is a byte and not 0. -/
structure WireSegment (use32bit : Bool) where
  type : UInt8
  as : List UInt32
  known : KnownType type
  nonempty : as ≠ []
  atMost : as.length < 2 ^ 8
  fits : use32bit = false → ∀ n ∈ as, n.toNat < 2 ^ 16

namespace WireSegment

variable {use32bit : Bool}

/-- Type, count and numbers. -/
def bytes (w : WireSegment use32bit) : Bytes :=
  w.type :: UInt8.ofNat w.as.length :: w.as.flatMap (asBytes use32bit)

/-- The segment of the router. -/
def seg (w : WireSegment use32bit) : AsSegment := ⟨w.type, w.as, Nat.lt_trans w.atMost (by decide)⟩

end WireSegment

/-- An AS_PATH attribute. -/
def wireBytes {use32bit : Bool} (ws : List (WireSegment use32bit)) : Bytes :=
  ws.flatMap WireSegment.bytes

namespace AsPathWireLemmas

open AsPathLemmas ParseGrammarLemmas

variable {use32bit : Bool}

/-! ## AS numbers -/

theorem length_asBytes (use32bit : Bool) (as : UInt32) :
    (asBytes use32bit as).length = if use32bit then 4 else 2 := by
  unfold asBytes
  split <;> rfl

theorem length_asnBytes (use32bit : Bool) (ases : List UInt32) :
    (ases.flatMap (asBytes use32bit)).length = ases.length * if use32bit then 4 else 2 := by
  rw [PathLemmas.length_flatMap_of (length_asBytes use32bit), List.map_const', List.sum_replicate_nat]

theorem toUInt32_toUInt16 {as : UInt32} (h : as.toNat < 2 ^ 16) : as.toUInt16.toUInt32 = as := by
  apply UInt32.toNat_inj.mp
  rw [UInt16.toNat_toUInt32, UInt32.toNat_toUInt16]
  exact Nat.mod_eq_of_lt h

theorem streamGetAs_asBytes (use32bit : Bool) {as : UInt32} (h : use32bit = false → as.toNat < 2 ^ 16) (s : Bytes) :
    streamGetAs use32bit (asBytes use32bit as ++ s) = some (as, s) := by
  cases use32bit with
  | true => exact streamGetl_be32 s as
  | false =>
    unfold streamGetAs asBytes
    rw [if_neg Bool.false_ne_true, if_neg Bool.false_ne_true, streamGetw_be16, Option.map_some]
    exact congrArg (fun n => some (n, s)) (toUInt32_toUInt16 (h rfl))

theorem streamGetAs_eq {s s' : Bytes} {as : UInt32} (h : streamGetAs use32bit s = some (as, s')) :
    s = asBytes use32bit as ++ s' ∧ (use32bit = false → as.toNat < 2 ^ 16) := by
  cases use32bit with
  | true => exact ⟨streamGetl_eq h, fun h => Bool.noConfusion h⟩
  | false =>
    obtain ⟨⟨w, s₁⟩, hw, heq⟩ := Option.map_eq_some_iff.mp h
    obtain ⟨rfl, rfl⟩ := Prod.mk.inj heq
    refine ⟨?_, fun _ => w.toNat_lt⟩
    show s = be16 w.toUInt32.toUInt16 ++ s₁
    rw [UInt16.toUInt16_toUInt32]
    exact streamGetw_eq hw

theorem streamGetAs_isSome (use32bit : Bool) {s : Bytes} (h : (if use32bit then 4 else 2) ≤ s.length) :
    ∃ as s', streamGetAs use32bit s = some (as, s') := by
  cases use32bit with
  | true =>
    match s, h with
    | a :: b :: c :: d :: s, _ => exact ⟨_, s, rfl⟩
  | false =>
    match s, h with
    | hi :: lo :: s, _ => exact ⟨_, s, rfl⟩

theorem streamGetAsns_flatMap {ases : List UInt32} {count : Nat} (hcount : ases.length = count)
    (h : use32bit = false → ∀ n ∈ ases, n.toNat < 2 ^ 16) (s : Bytes) :
    streamGetAsns use32bit count (ases.flatMap (asBytes use32bit) ++ s) =
      some (⟨ases, hcount⟩, s) := by
  subst hcount
  induction ases with
  | nil => rfl
  | cons as ases ih =>
    have hfirst := streamGetAs_asBytes use32bit
      (fun hf => h hf as List.mem_cons_self) (ases.flatMap (asBytes use32bit) ++ s)
    have hrest := ih fun hf n hn => h hf n (List.mem_cons_of_mem _ hn)
    show streamGetAsns use32bit (ases.length + 1) _ = _
    rw [List.flatMap_cons, List.append_assoc]
    unfold streamGetAsns
    rw [hfirst]
    show (streamGetAsns use32bit ases.length _).bind _ = _
    rw [hrest]
    rfl

theorem streamGetAsns_eq {n : Nat} {s s' : Bytes} {ases : { as : List UInt32 // as.length = n }}
    (h : streamGetAsns use32bit n s = some (ases, s')) :
    s = ases.val.flatMap (asBytes use32bit) ++ s' ∧
      (use32bit = false → ∀ n ∈ ases.val, n.toNat < 2 ^ 16) := by
  induction n generalizing s with
  | zero =>
    cases h
    exact ⟨rfl, fun _ n hn => absurd hn List.not_mem_nil⟩
  | succ n ih =>
    obtain ⟨⟨as, s₁⟩, h1, h⟩ := Option.bind_eq_some_iff.mp h
    obtain ⟨⟨⟨rest, hlen⟩, s₂⟩, h2, h⟩ := Option.bind_eq_some_iff.mp h
    cases h
    obtain ⟨rfl, hfits⟩ := streamGetAs_eq h1
    obtain ⟨rfl, hfits'⟩ := ih h2
    refine ⟨?_, fun hf => List.forall_mem_cons.mpr ⟨hfits hf, hfits' hf⟩⟩
    show _ = (as :: rest).flatMap (asBytes use32bit) ++ s'
    rw [List.flatMap_cons, List.append_assoc]

theorem streamGetAsns_isSome (use32bit : Bool) {n : Nat} {s : Bytes}
    (h : n * (if use32bit then 4 else 2) ≤ s.length) :
    ∃ ases s', streamGetAsns use32bit n s = some (ases, s') := by
  induction n generalizing s with
  | zero => exact ⟨⟨[], rfl⟩, s, rfl⟩
  | succ n ih =>
    rw [Nat.succ_mul] at h
    obtain ⟨as, s₁, h1⟩ := streamGetAs_isSome use32bit (s := s) (by omega)
    have hlen : s.length = (if use32bit then 4 else 2) + s₁.length := by
      rw [(streamGetAs_eq h1).1, List.length_append, length_asBytes]
    obtain ⟨⟨ases, hn⟩, s₂, h2⟩ := ih (s := s₁) (by omega)
    refine ⟨⟨as :: ases, congrArg (· + 1) hn⟩, s₂, ?_⟩
    unfold streamGetAsns
    rw [h1]
    show (streamGetAsns use32bit n s₁).bind _ = _
    rw [h2]
    rfl

/-! ## Segments -/

theorem length_wireSegment (w : WireSegment use32bit) :
    w.bytes.length = assegmentSize w.as.length use32bit := by
  unfold WireSegment.bytes assegmentSize AS_HEADER_SIZE
  rw [List.length_cons, List.length_cons, length_asnBytes]
  omega

theorem toNat_count (w : WireSegment use32bit) : (UInt8.ofNat w.as.length).toNat = w.as.length := by
  rw [UInt8.toNat_ofNat']
  exact Nat.mod_eq_of_lt w.atMost

theorem wireBytes_cons (w : WireSegment use32bit) (ws : List (WireSegment use32bit)) :
    wireBytes (w :: ws) = w.bytes ++ wireBytes ws := List.flatMap_cons

theorem four_le_segSize (use32bit : Bool) {n : Nat} (h : 0 < n) : 4 ≤ assegmentSize n use32bit := by
  unfold assegmentSize AS_HEADER_SIZE
  split <;> omega

/-- Segments that fill what is left of the length are read. -/
theorem parseSegments_wireBytes (length fuel bytes : Nat) (ws : List (WireSegment use32bit))
    (hlen : length = bytes + (wireBytes ws).length) (hfuel : (wireBytes ws).length ≤ fuel) (s : Bytes) :
    parseSegments length use32bit fuel bytes (wireBytes ws ++ s) =
      some (some (ws.map WireSegment.seg), s) := by
  induction ws generalizing fuel bytes with
  | nil =>
    unfold parseSegments
    exact if_pos (Nat.le_of_eq hlen)
  | cons w ws ih =>
    have hpos := List.length_pos_iff.mpr w.nonempty
    have hsize := four_le_segSize use32bit hpos
    rw [wireBytes_cons, List.length_append, length_wireSegment] at hlen hfuel
    obtain ⟨fuel, rfl⟩ : ∃ n, fuel = n + 1 := ⟨fuel - 1, by omega⟩
    have hzero : UInt8.ofNat w.as.length ≠ 0 := by
      intro hzero
      have hcount := toNat_count w
      rw [hzero] at hcount
      exact Nat.ne_of_lt hpos hcount
    have hsegs := streamGetAsns_flatMap (toNat_count w).symm w.fits (wireBytes ws ++ s)
    have hrest := @ih fuel (bytes + assegmentSize (UInt8.ofNat w.as.length).toNat use32bit)
      (by rw [toNat_count]; omega) (by omega)
    rw [wireBytes_cons, List.append_assoc]
    unfold parseSegments
    rw [if_neg (by omega), if_neg (by unfold AS_HEADER_SIZE; omega)]
    show (if bytes + assegmentSize (UInt8.ofNat w.as.length).toNat use32bit > length ∨
        UInt8.ofNat w.as.length = 0 ∨ ¬ KnownType w.type then some (none, _) else _) = _
    rw [if_neg (by
      rw [toNat_count]
      exact not_or.mpr ⟨by omega, not_or.mpr ⟨hzero, not_not.mpr w.known⟩⟩)]
    show ((streamGetAsns use32bit _ (w.as.flatMap (asBytes use32bit) ++ (wireBytes ws ++ s))).bind _) = _
    rw [hsegs]
    show (parseSegments length use32bit fuel (bytes + assegmentSize (UInt8.ofNat w.as.length).toNat
      use32bit) (wireBytes ws ++ s)).bind _ = _
    rw [hrest]
    rfl

/-- What is read are wire segments that fill what is left of the length. -/
theorem parseSegments_eq {length fuel bytes : Nat} {s s' : Bytes} {segs : List AsSegment}
    (hle : bytes ≤ length)
    (h : parseSegments length use32bit fuel bytes s = some (some segs, s')) :
    ∃ ws : List (WireSegment use32bit), s = wireBytes ws ++ s' ∧
      length = bytes + (wireBytes ws).length ∧ segs = ws.map WireSegment.seg := by
  induction fuel generalizing bytes s segs with
  | zero =>
    unfold parseSegments at h
    split at h
    · next hend =>
      cases h
      exact ⟨[], rfl, Nat.le_antisymm hend hle, rfl⟩
    · split at h <;> cases h
  | succ fuel ih =>
    unfold parseSegments at h
    split at h
    · next hend =>
      cases h
      exact ⟨[], rfl, Nat.le_antisymm hend hle, rfl⟩
    · split at h
      · cases h
      · obtain ⟨⟨type, s₁⟩, h1, h⟩ := Option.bind_eq_some_iff.mp h
        obtain ⟨⟨segLength, s₂⟩, h2, h⟩ := Option.bind_eq_some_iff.mp h
        dsimp only at h
        split at h
        · cases h
        · next hchecks =>
          obtain ⟨hsize, hchecks⟩ := not_or.mp hchecks
          obtain ⟨hzero, hknown⟩ := not_or.mp hchecks
          obtain ⟨⟨⟨as, hlen⟩, s₃⟩, h3, h⟩ := Option.bind_eq_some_iff.mp h
          obtain ⟨⟨rest, s₄⟩, h4, h⟩ := Option.bind_eq_some_iff.mp h
          obtain ⟨hrest, rfl⟩ := Prod.mk.inj (Option.some.inj h)
          obtain ⟨rest, rfl, rfl⟩ := Option.map_eq_some_iff.mp hrest
          obtain ⟨hs, hfits⟩ := streamGetAsns_eq h3
          obtain ⟨ws, rfl, hlength, rfl⟩ := ih (by omega) h4
          have hpos : as ≠ [] := by
            rintro rfl
            exact hzero (UInt8.toNat_inj.mp hlen.symm)
          let w : WireSegment use32bit := ⟨type, as, not_not.mp hknown, hpos, hlen ▸ segLength.toNat_lt, hfits⟩
          refine ⟨w :: ws, ?_, ?_, rfl⟩
          · have hcount : UInt8.ofNat as.length = segLength := by
              rw [hlen, UInt8.ofNat_toNat]
            rw [streamGetc_eq h1, streamGetc_eq h2, hs, wireBytes_cons, List.append_assoc]
            show _ = type :: UInt8.ofNat as.length :: _
            rw [hcount]
            rfl
          · rw [wireBytes_cons, List.length_append, length_wireSegment, hlength]
            show _ = bytes + (assegmentSize as.length use32bit + _)
            rw [hlen, Nat.add_assoc]

theorem streamGetAsns_append (use32bit : Bool) {n : Nat} {s : Bytes} (tail : Bytes)
    (h : n * (if use32bit then 4 else 2) ≤ s.length) :
    ∃ ases s', streamGetAsns use32bit n s = some (ases, s') ∧
      streamGetAsns use32bit n (s ++ tail) = some (ases, s' ++ tail) ∧
      s.length = n * (if use32bit then 4 else 2) + s'.length := by
  obtain ⟨ases, s', hases⟩ := streamGetAsns_isSome use32bit h
  obtain ⟨rfl, hfits⟩ := streamGetAsns_eq hases
  refine ⟨ases, s', hases, ?_, ?_⟩
  · rw [List.append_assoc]
    exact streamGetAsns_flatMap ases.property hfits (s' ++ tail)
  · rw [List.length_append, length_asnBytes, ases.property]

/-- There is always enough to read, and what is behind is not read. -/
theorem parseSegments_append (use32bit : Bool) {length fuel bytes : Nat} {s : Bytes} (tail : Bytes)
    (hfuel : length - bytes ≤ fuel) (hread : length - bytes ≤ s.length) :
    ∃ segs rest, parseSegments length use32bit fuel bytes s = some (segs, rest) ∧
      parseSegments length use32bit fuel bytes (s ++ tail) = some (segs, rest ++ tail) := by
  induction fuel generalizing bytes s with
  | zero =>
    unfold parseSegments
    rw [if_pos (by omega), if_pos (by omega)]
    exact ⟨_, _, rfl, rfl⟩
  | succ fuel ih =>
    unfold parseSegments
    split
    · exact ⟨_, _, rfl, rfl⟩
    · split
      · exact ⟨_, _, rfl, rfl⟩
      · next hend hheader =>
        unfold AS_HEADER_SIZE at hheader
        match s, hread with
        | [], hread => exact absurd hread (by rw [List.length_nil]; omega)
        | [_], hread => exact absurd hread (by rw [List.length_singleton]; omega)
        | type :: segLength :: s, hread =>
          rw [List.length_cons, List.length_cons] at hread
          show ∃ segs rest, (if bytes + assegmentSize segLength.toNat use32bit > length ∨ segLength = 0 ∨
              ¬ KnownType type then some (none, s) else _) = some (segs, rest) ∧
            (if bytes + assegmentSize segLength.toNat use32bit > length ∨ segLength = 0 ∨
              ¬ KnownType type then some (none, s ++ tail) else _) = some (segs, rest ++ tail)
          split
          · exact ⟨_, _, rfl, rfl⟩
          · next hchecks =>
            have hsize := (not_or.mp hchecks).1
            unfold assegmentSize AS_HEADER_SIZE at hsize
            obtain ⟨ases, s₁, hases, hases', hlen⟩ :=
              @streamGetAsns_append use32bit segLength.toNat s tail (by omega)
            obtain ⟨segs, rest, hsegs, hsegs'⟩ :=
              @ih (bytes + assegmentSize segLength.toNat use32bit) s₁
                (by unfold assegmentSize AS_HEADER_SIZE; omega)
                (by unfold assegmentSize AS_HEADER_SIZE; omega)
            show ∃ segs rest, (streamGetAsns use32bit segLength.toNat s).bind _ = some (segs, rest) ∧
              (streamGetAsns use32bit segLength.toNat (s ++ tail)).bind _ = some (segs, rest ++ tail)
            rw [hases, hases']
            show ∃ segs rest, (parseSegments length use32bit fuel _ s₁).bind _ = some (segs, rest) ∧
              (parseSegments length use32bit fuel _ (s₁ ++ tail)).bind _ = some (segs, rest ++ tail)
            rw [hsegs, hsegs']
            exact ⟨_, _, rfl, rfl⟩

/-- The parse of an attribute that is in the stream as a whole. -/
theorem aspathParse_append (attr tail : Bytes) (use32bit : Bool) :
    ∃ path rest, aspathParse attr attr.length use32bit = some (path, rest) ∧
      aspathParse (attr ++ tail) attr.length use32bit = some (path, rest ++ tail) := by
  unfold aspathParse
  split
  · exact ⟨_, _, rfl, rfl⟩
  · next heven =>
    unfold assegmentsParse
    split
    · exact ⟨_, _, rfl, rfl⟩
    · next hzero =>
      have hlen : (attr ++ tail).length = attr.length + tail.length := List.length_append
      unfold AS_HEADER_SIZE
      rw [if_neg (by omega), if_neg (by omega)]
      obtain ⟨segs, rest, hsegs, hsegs'⟩ := @parseSegments_append use32bit attr.length attr.length 0
        attr tail (Nat.le_refl _) (Nat.le_refl _)
      rw [hsegs, hsegs']
      exact ⟨_, _, rfl, rfl⟩

theorem even_wireBytes (ws : List (WireSegment use32bit)) : (wireBytes ws).length % 2 = 0 := by
  induction ws with
  | nil => rfl
  | cons w ws ih =>
    rw [wireBytes_cons, List.length_append, length_wireSegment]
    unfold assegmentSize AS_HEADER_SIZE
    split <;> omega

/-- The numbers of an attribute are fewer than its bytes. -/
theorem asnCount_le (ws : List (WireSegment use32bit)) :
    asnCount (ws.map WireSegment.seg) ≤ (wireBytes ws).length := by
  induction ws with
  | nil => exact Nat.le_refl 0
  | cons w ws ih =>
    rw [List.map_cons, asnCount_cons, wireBytes_cons, List.length_append, length_wireSegment]
    show w.as.length + _ ≤ _
    unfold assegmentSize
    split <;> omega

theorem nonempty_seg (ws : List (WireSegment use32bit)) :
    ∀ seg ∈ ws.map WireSegment.seg, seg.as ≠ [] := by
  intro seg hseg
  obtain ⟨w, -, rfl⟩ := List.mem_map.mp hseg
  exact w.nonempty

theorem aspathParse_wireBytes (ws : List (WireSegment use32bit)) (rest : Bytes) :
    aspathParse (wireBytes ws ++ rest) (wireBytes ws).length use32bit =
      some (some (assegmentNormalise (ws.map WireSegment.seg)), rest) := by
  have heven := even_wireBytes ws
  have hparse := parseSegments_wireBytes (wireBytes ws).length (wireBytes ws).length 0 ws (Nat.zero_add _).symm (Nat.le_refl _) rest
  unfold aspathParse assegmentsParse
  rw [if_neg (by omega)]
  cases ws with
  | nil => rfl
  | cons w ws =>
    have hsize := four_le_segSize use32bit (List.length_pos_iff.mpr w.nonempty)
    have hlen : 4 ≤ (wireBytes (w :: ws)).length := by
      rw [wireBytes_cons, List.length_append, length_wireSegment]
      omega
    rw [if_neg (by omega), if_neg (by
      rw [List.length_append]
      unfold AS_HEADER_SIZE
      omega), hparse]
    rfl

end AsPathWireLemmas

open AsPathLemmas AsPathWireLemmas

/-- What `aspath_parse` accepts, and what the path is. It always returns, and what is behind an attribute
changes neither the result nor what is read. -/
theorem aspathParse_iff (s : Bytes) (length : Nat) (use32bit : Bool) :
    (∃ result, aspathParse s length use32bit = some result) ∧
      (∀ attr tail, s = attr ++ tail → attr.length = length → ∃ path rest,
        aspathParse attr length use32bit = some (path, rest) ∧
          aspathParse s length use32bit = some (path, rest ++ tail)) ∧
      ∀ path rest, aspathParse s length use32bit = some (some path, rest) ↔
        ∃ ws : List (WireSegment use32bit), s = wireBytes ws ++ rest ∧
          length = (wireBytes ws).length ∧ path = assegmentNormalise (ws.map WireSegment.seg) := by
  refine ⟨?_, ?_, fun path rest => ⟨?_, ?_⟩⟩
  · by_cases hshort : s.length < length
    · refine ⟨(none, s), ?_⟩
      unfold aspathParse assegmentsParse
      split
      · rfl
      · rw [if_neg (Nat.ne_zero_of_lt hshort), if_pos (.inl hshort)]
    · have hlen : (s.take length).length = length := List.length_take_of_le (Nat.not_lt.mp hshort)
      obtain ⟨path, rest, -, hparse⟩ := aspathParse_append (s.take length) (s.drop length) use32bit
      rw [List.take_append_drop, hlen] at hparse
      exact ⟨_, hparse⟩
  · rintro attr tail rfl rfl
    exact aspathParse_append attr tail use32bit
  · intro h
    unfold aspathParse assegmentsParse at h
    split at h
    · cases h
    · split at h
      · next hzero =>
        cases h
        exact ⟨[], rfl, hzero, rfl⟩
      · split at h
        · cases h
        · obtain ⟨⟨segs, s'⟩, hsegs, heq⟩ := Option.map_eq_some_iff.mp h
          obtain ⟨hpath, rfl⟩ := Prod.mk.inj heq
          obtain ⟨segs, rfl, rfl⟩ := Option.map_eq_some_iff.mp hpath
          obtain ⟨ws, hs, hlength, rfl⟩ := parseSegments_eq (Nat.zero_le _) hsegs
          exact ⟨ws, hs, hlength.trans (Nat.zero_add _), rfl⟩
  · rintro ⟨ws, rfl, rfl, rfl⟩
    exact aspathParse_wireBytes ws rest

theorem one_fits8 : 1 < 2 ^ 8 := by decide

theorem two_fits8 : 2 < 2 ^ 8 := by decide

/-- Two attributes are interned as the same path exactly when they say the same, with AS numbers of
either size. -/
theorem aspathParse_same {use32bit use32bit' : Bool} (ws : List (WireSegment use32bit))
    (ws' : List (WireSegment use32bit')) (rest rest' : Bytes) (hlt : (wireBytes ws).length < 2 ^ 16)
    (hlt' : (wireBytes ws').length < 2 ^ 16) :
    ∃ path path',
      aspathParse (wireBytes ws ++ rest) (wireBytes ws).length use32bit = some (some path, rest) ∧
      aspathParse (wireBytes ws' ++ rest') (wireBytes ws').length use32bit' =
        some (some path', rest') ∧
      Canonical path ∧ items path = items (ws.map WireSegment.seg) ∧
      (path = path' ↔ items (ws.map WireSegment.seg) = items (ws'.map WireSegment.seg)) := by
  have hfits := Nat.lt_of_le_of_lt (asnCount_le ws) hlt
  have hfits' := Nat.lt_of_le_of_lt (asnCount_le ws') hlt'
  exact ⟨_, _, aspathParse_wireBytes ws rest, aspathParse_wireBytes ws' rest',
    canonical_normalise hfits (nonempty_seg ws), items_normalise hfits,
    normalise_eq_iff hfits hfits' (nonempty_seg ws) (nonempty_seg ws')⟩

/-- Two sequences of one number, with four bytes. -/
def splitPath : List (WireSegment true) :=
  [⟨AS_SEQUENCE, [65001], .inl rfl, List.cons_ne_nil _ _, one_fits8, fun h => Bool.noConfusion h⟩,
    ⟨AS_SEQUENCE, [65002], .inl rfl, List.cons_ne_nil _ _, one_fits8, fun h => Bool.noConfusion h⟩]

theorem joined_fits : ∀ n ∈ ([65001, 65002] : List UInt32), n.toNat < 2 ^ 16 := by
  intro n hn
  rcases List.mem_pair.mp hn with rfl | rfl
  · decide
  · decide

/-- The same path as one sequence, with two bytes. -/
def joinedPath : List (WireSegment false) :=
  [⟨AS_SEQUENCE, [65001, 65002], .inl rfl, List.cons_ne_nil _ _, two_fits8, fun _ => joined_fits⟩]

theorem aspathParse_same_splitPath : ∃ path path',
    aspathParse (wireBytes splitPath ++ []) (wireBytes splitPath).length true =
      some (some path, []) ∧
    aspathParse (wireBytes joinedPath ++ []) (wireBytes joinedPath).length false =
      some (some path', []) ∧
    Canonical path ∧ items path = items (splitPath.map WireSegment.seg) ∧
    (path = path' ↔
      items (splitPath.map WireSegment.seg) = items (joinedPath.map WireSegment.seg)) :=
  aspathParse_same splitPath joinedPath [] [] (by decide) (by decide)

end SrxSuite.Quagga

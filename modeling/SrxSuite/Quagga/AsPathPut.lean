import SrxSuite.Quagga.AsPathWire

/-!
# Writing an AS path

The model of `aspath_put` (`bgpd/bgp_aspath.c`). A segment has at most 255 numbers on the wire.
`aspath_put` splits a longer one, but writes the first 255 numbers for each of the full parts, and adds
to the size it returns what it has written so far for each of them. A number that needs four bytes is
written as AS_TRANS to a peer that does not support them.

Results:
1. `aspathPut_eq`: what is written of a canonical path, and the size that is returned.
2. `putParses_iff`: what was written is parsed to the path, with the size that was returned, exactly when
   no segment has more than 510 numbers, and none more than 255 that is not an AS sequence.
-/

namespace SrxSuite.Quagga

open Bytes

variable {size : Nat}

/-! ## `aspath_put` -/

def AS_SEGMENT_MAX : Nat := 255
def BGP_AS_MAX : UInt32 := 65535
def BGP_AS_TRANS : UInt16 := 23456

/-- `stream_putc_at`. -/
def streamPutcAt (s : Stream size) (putp : Nat) (c : UInt8) : Option (Stream size) :=
  match h : s.data.writeAt putp [c] with
  | none => none
  | some data => some ⟨data, (writeAt_eq_some h).1 ▸ s.fits⟩

/-- An AS number to the stream. -/
def streamPutAs (use32bit : Bool) (s : Stream size) (as : UInt32) : Option (Stream size) :=
  if use32bit then streamPutl s as
  else if as ≤ BGP_AS_MAX then streamPutw s as.toUInt16
  else streamPutw s BGP_AS_TRANS

/-- The loop over the AS numbers. -/
def putAsns (use32bit : Bool) : List UInt32 → Stream size → Option (Stream size)
  | [], s => some s
  | as :: ases, s => (streamPutAs use32bit s as).bind (putAsns use32bit ases)

/-- `assegment_data_put`. -/
def assegmentDataPut (s : Stream size) (as : List UInt32) (num : Nat) (use32bit : Bool) :
    Option (Stream size) :=
  if num ≤ AS_SEGMENT_MAX ∧ num ≤ as.length then putAsns use32bit (as.take num) s else none

/-- `assegment_header_put`: also the position of the length. -/
def assegmentHeaderPut (s : Stream size) (type : UInt8) (length : Nat) :
    Option (Stream size × Nat) :=
  if length ≤ AS_SEGMENT_MAX then do
    let s ← streamPutc s type
    let lenp := s.data.length
    let s ← streamPutc s (UInt8.ofNat length)
    some (s, lenp)
  else none

/-- The loop that splits up overlength segments: the stream, `written` and `bytes`. Every round writes
numbers of the segment, so that their number is enough `fuel`. -/
def putOverlength (seg : AsSegment) (use32bit : Bool) : (fuel written bytes : Nat) → Stream size →
    Option (Stream size × Nat × Nat)
  | 0, written, bytes, s => some (s, written, bytes)
  | fuel + 1, written, bytes, s =>
    if seg.as.length - written > AS_SEGMENT_MAX then do
      let (s, _) ← assegmentHeaderPut s seg.type AS_SEGMENT_MAX
      let s ← assegmentDataPut s seg.as AS_SEGMENT_MAX use32bit
      let written := written + AS_SEGMENT_MAX
      putOverlength seg use32bit fuel written (bytes + assegmentSize written use32bit) s
    else some (s, written, bytes)

/-- The loop that packs further sequences: what is left of the segments, `asns_packed` and the stream. -/
def putPacked (seg : AsSegment) (written lenp : Nat) (use32bit : Bool) : List AsSegment →
    (asnsPacked : Nat) → Stream size → Option (List AsSegment × Nat × Stream size)
  | [], asnsPacked, s => some ([], asnsPacked, s)
  | next :: segs, asnsPacked, s =>
    if TypesPackable seg next ∧ seg.as.length + next.as.length ≤ AS_SEGMENT_MAX then do
      let s ← assegmentDataPut s next.as next.as.length use32bit
      let s ← streamPutcAt s lenp (UInt8.ofNat (seg.as.length - written + next.as.length))
      putPacked seg written lenp use32bit segs (asnsPacked + next.as.length) s
    else some (next :: segs, asnsPacked, s)

/-- The loop over the segments, of which each round takes one: the stream and `bytes`. -/
def putSegments (use32bit : Bool) : (fuel : Nat) → List AsSegment → (bytes : Nat) → Stream size →
    Option (Stream size × Nat)
  | _, [], bytes, s => some (s, bytes)
  | 0, _ :: _, _, _ => none
  | fuel + 1, seg :: next, bytes, s =>
    if assegmentSize seg.as.length use32bit ≤ size - s.data.length then do
      let (s, written, bytes) ← putOverlength seg use32bit seg.as.length 0 bytes s
      let (s, lenp) ← assegmentHeaderPut s seg.type (seg.as.length - written)
      let s ← assegmentDataPut s (seg.as.drop written) (seg.as.length - written) use32bit
      let (next, asnsPacked, s) ← putPacked seg written lenp use32bit next 0 s
      putSegments use32bit fuel next
        (bytes + assegmentSize (seg.as.length - written + asnsPacked) use32bit) s
    else some (s, bytes)

/-- `aspath_put`: the stream and the size that is returned. -/
def aspathPut (s : Stream size) (segs : List AsSegment) (use32bit : Bool) :
    Option (Stream size × Nat) :=
  match segs with
  | [] => some (s, 0)
  | seg :: _ =>
    if seg.as.length = 0 then some (s, 0) else putSegments use32bit segs.length segs 0 s

/-! ## What is written -/

/-- A number as the peer gets it. -/
def renderAs (use32bit : Bool) (as : UInt32) : UInt32 :=
  if use32bit ∨ as ≤ BGP_AS_MAX then as else BGP_AS_TRANS.toUInt32

/-- A segment as the peer gets it. -/
def renderSegment (use32bit : Bool) (seg : AsSegment) : AsSegment :=
  ⟨seg.type, seg.as.map (renderAs use32bit), Nat.lt_of_le_of_lt (Nat.le_of_eq (List.length_map _)) seg.length⟩

/-- How many full parts are in front of the last one. -/
def AsSegment.fullParts (seg : AsSegment) : Nat := (seg.as.length - 1) / AS_SEGMENT_MAX

/-- The parts that the code writes of a segment. -/
def AsSegment.parts (seg : AsSegment) : List (List UInt32) :=
  List.replicate seg.fullParts (seg.as.take AS_SEGMENT_MAX) ++
    [seg.as.drop (AS_SEGMENT_MAX * seg.fullParts)]

/-- A part on the wire. -/
def partBytes (use32bit : Bool) (type : UInt8) (part : List UInt32) : Bytes :=
  type :: UInt8.ofNat part.length ::
    part.flatMap fun as => asBytes use32bit (renderAs use32bit as)

/-- A segment on the wire. -/
def AsSegment.wire (use32bit : Bool) (seg : AsSegment) : Bytes :=
  seg.parts.flatMap (partBytes use32bit seg.type)

/-- What is added to the size for the full parts behind `written` numbers. -/
def overlengthSize (use32bit : Bool) (written : Nat) : (parts : Nat) → Nat
  | 0 => 0
  | parts + 1 => assegmentSize (written + AS_SEGMENT_MAX) use32bit +
      overlengthSize use32bit (written + AS_SEGMENT_MAX) parts

/-- What is added to the size for a segment. -/
def AsSegment.countedSize (use32bit : Bool) (seg : AsSegment) : Nat :=
  overlengthSize use32bit 0 seg.fullParts +
    assegmentSize (seg.as.length - AS_SEGMENT_MAX * seg.fullParts) use32bit

namespace AsPathPutLemmas

open AsPathLemmas AsPathWireLemmas

variable {use32bit : Bool}

/-! ## AS numbers -/

theorem writes_putAs (use32bit : Bool) (as : UInt32) :
    Writes (fun s : Stream size => streamPutAs use32bit s as)
      (asBytes use32bit (renderAs use32bit as)) := by
  unfold asBytes renderAs streamPutAs
  cases use32bit with
  | true => exact Writes.putl as
  | false =>
    by_cases hle : as ≤ BGP_AS_MAX
    · simp only [Bool.false_eq_true, false_or, if_false, if_pos hle]
      exact Writes.putw as.toUInt16
    · simp only [Bool.false_eq_true, false_or, if_false, if_neg hle]
      exact Writes.putw BGP_AS_TRANS

theorem writes_putAsns (use32bit : Bool) (ases : List UInt32) :
    Writes (fun s : Stream size => putAsns use32bit ases s)
      (ases.flatMap fun as => asBytes use32bit (renderAs use32bit as)) := by
  induction ases with
  | nil => exact Writes.nothing
  | cons as ases ih =>
    rw [List.flatMap_cons]
    exact Writes.bind (writes_putAs use32bit as) ih

theorem writes_dataPut (use32bit : Bool) {as : List UInt32} {num : Nat} (hmax : num ≤ AS_SEGMENT_MAX)
    (hle : num ≤ as.length) :
    Writes (fun s : Stream size => assegmentDataPut s as num use32bit)
      ((as.take num).flatMap fun as => asBytes use32bit (renderAs use32bit as)) := by
  intro s hroom
  show ∃ s', assegmentDataPut s as num use32bit = some s' ∧ _
  unfold assegmentDataPut
  rw [if_pos ⟨hmax, hle⟩]
  exact writes_putAsns use32bit (as.take num) s hroom

theorem headerPut_eq {s : Stream size} {length : Nat} (type : UInt8) (hmax : length ≤ AS_SEGMENT_MAX)
    (hroom : s.data.length + 2 ≤ size) :
    ∃ s', assegmentHeaderPut s type length = some (s', s.data.length + 1) ∧
      s'.data = s.data ++ [type, UInt8.ofNat length] := by
  obtain ⟨s₁, h1, hdata⟩ := Writes.putc type s (by rw [List.length_singleton]; omega)
  have hlen : s₁.data.length = s.data.length + 1 := by
    rw [hdata, List.length_append, List.length_singleton]
  obtain ⟨s₂, h2, hdata'⟩ := Writes.putc (UInt8.ofNat length) s₁
    (by rw [List.length_singleton]; omega)
  refine ⟨s₂, ?_, by rw [hdata', hdata, List.append_assoc]; rfl⟩
  unfold assegmentHeaderPut
  rw [if_pos hmax]
  show (streamPutc s type).bind _ = _
  rw [show streamPutc s type = some s₁ from h1]
  show (streamPutc s₁ (UInt8.ofNat length)).bind _ = _
  rw [show streamPutc s₁ (UInt8.ofNat length) = some s₂ from h2, ← hlen]
  rfl

theorem length_partBytes (use32bit : Bool) (type : UInt8) (part : List UInt32) :
    (partBytes use32bit type part).length = assegmentSize part.length use32bit := by
  have hasns := length_asnBytes use32bit (part.map (renderAs use32bit))
  rw [List.flatMap_map, List.length_map] at hasns
  unfold partBytes assegmentSize AS_HEADER_SIZE
  rw [List.length_cons, List.length_cons, hasns]
  omega

/-- Header and numbers of a part. -/
theorem part_written (use32bit : Bool) (s : Stream size) (as : List UInt32) (num : Nat) (type : UInt8)
    (hmax : num ≤ AS_SEGMENT_MAX) (hle : num ≤ as.length)
    (hroom : s.data.length + assegmentSize num use32bit ≤ size) :
    ∃ s₁ s₂, assegmentHeaderPut s type num = some (s₁, s.data.length + 1) ∧
      assegmentDataPut s₁ as num use32bit = some s₂ ∧
      s₂.data = s.data ++ partBytes use32bit type (as.take num) := by
  have hlen := length_partBytes use32bit type (as.take num)
  rw [List.length_take_of_le hle] at hlen
  have hbytes : partBytes use32bit type (as.take num) = [type, UInt8.ofNat num] ++
      (as.take num).flatMap fun as => asBytes use32bit (renderAs use32bit as) := by
    unfold partBytes
    rw [List.length_take_of_le hle]
    rfl
  rw [hbytes, List.length_append] at hlen
  change 2 + _ = _ at hlen
  obtain ⟨s₁, h1, hdata⟩ := headerPut_eq (s := s) type hmax (by omega)
  obtain ⟨s₂, h2, hdata'⟩ := writes_dataPut use32bit hmax hle s₁ (by
    rw [hdata, List.length_append]
    change s.data.length + 2 + _ ≤ size
    omega)
  exact ⟨s₁, s₂, h1, h2, by rw [hdata', hdata, List.append_assoc, hbytes]⟩

/-! ## Segments -/

/-- The full parts. -/
theorem putOverlength_eq (use32bit : Bool) (seg : AsSegment) {fuel written : Nat} (bytes : Nat) {k : Nat}
    {s : Stream size} (hlt : written < seg.as.length) (hk : (seg.as.length - written - 1) / AS_SEGMENT_MAX = k)
    (hfuel : k ≤ fuel)
    (hroom : s.data.length + k * assegmentSize AS_SEGMENT_MAX use32bit ≤ size) :
    ∃ s', putOverlength seg use32bit fuel written bytes s =
        some (s', written + AS_SEGMENT_MAX * k, bytes + overlengthSize use32bit written k) ∧
      s'.data = s.data ++ (List.replicate k (seg.as.take AS_SEGMENT_MAX)).flatMap
        (partBytes use32bit seg.type) := by
  induction fuel generalizing written bytes k s with
  | zero =>
    obtain rfl := Nat.le_zero.mp hfuel
    exact ⟨s, rfl, (List.append_nil _).symm⟩
  | succ fuel ih =>
    unfold putOverlength
    split
    · next hover =>
      unfold AS_SEGMENT_MAX at hover hk
      obtain ⟨k, rfl⟩ : ∃ n, k = n + 1 := ⟨k - 1, by omega⟩
      rw [Nat.succ_mul] at hroom
      obtain ⟨s₁, s₂, h1, h2, hdata⟩ := part_written use32bit s seg.as AS_SEGMENT_MAX
        seg.type (Nat.le_refl _) (by unfold AS_SEGMENT_MAX; omega)
        (by omega)
      have hlen : s₂.data.length = s.data.length + assegmentSize AS_SEGMENT_MAX use32bit := by
        rw [hdata, List.length_append, length_partBytes, List.length_take_of_le (by
          unfold AS_SEGMENT_MAX
          omega)]
      obtain ⟨s', h3, hdata'⟩ := @ih (written + AS_SEGMENT_MAX)
        (bytes + assegmentSize (written + AS_SEGMENT_MAX) use32bit) k s₂
        (by unfold AS_SEGMENT_MAX; omega) (by unfold AS_SEGMENT_MAX; omega) (by omega) (by omega)
      refine ⟨s', ?_, ?_⟩
      · show (assegmentHeaderPut s seg.type AS_SEGMENT_MAX).bind _ = _
        rw [h1]
        show (assegmentDataPut s₁ seg.as AS_SEGMENT_MAX use32bit).bind _ = _
        rw [h2]
        show putOverlength seg use32bit fuel (written + AS_SEGMENT_MAX) _ s₂ = _
        rw [h3, overlengthSize, Nat.mul_succ, Nat.add_assoc written, Nat.add_comm AS_SEGMENT_MAX,
          Nat.add_assoc bytes]
      · rw [hdata', hdata, List.replicate_succ, List.flatMap_cons, List.append_assoc]
    · next hover =>
      unfold AS_SEGMENT_MAX at hover hk
      obtain rfl : k = 0 := by omega
      exact ⟨s, rfl, (List.append_nil _).symm⟩

/-- The last part has a number, and no more than fit. -/
theorem last_part {seg : AsSegment} (h : seg.as ≠ []) :
    AS_SEGMENT_MAX * seg.fullParts < seg.as.length ∧
      seg.as.length - AS_SEGMENT_MAX * seg.fullParts ≤ AS_SEGMENT_MAX := by
  have hpos := List.length_pos_iff.mpr h
  unfold AsSegment.fullParts AS_SEGMENT_MAX
  omega

theorem length_wire (use32bit : Bool) {seg : AsSegment} (h : seg.as ≠ []) :
    (seg.wire use32bit).length = seg.fullParts * assegmentSize AS_SEGMENT_MAX use32bit +
      assegmentSize (seg.as.length - AS_SEGMENT_MAX * seg.fullParts) use32bit := by
  unfold AsSegment.wire AsSegment.parts
  rw [List.flatMap_append, List.flatMap_singleton, List.length_append, length_partBytes,
    List.length_drop]
  congr 1
  rcases Nat.eq_zero_or_pos seg.fullParts with hzero | hpos
  · rw [hzero, Nat.zero_mul]
    rfl
  · have hle : AS_SEGMENT_MAX ≤ seg.as.length :=
      Nat.le_trans (Nat.le_mul_of_pos_right _ hpos) (Nat.le_of_lt (last_part h).1)
    rw [List.length_flatMap, List.map_replicate, List.sum_replicate_nat, length_partBytes,
      List.length_take_of_le hle]

/-- The check for room looks at no more than what is written. -/
theorem segSize_le_wire (use32bit : Bool) {seg : AsSegment} (h : seg.as ≠ []) :
    assegmentSize seg.as.length use32bit ≤ (seg.wire use32bit).length := by
  have hlast := (last_part h).1
  rw [length_wire use32bit h]
  unfold assegmentSize AS_HEADER_SIZE AS_SEGMENT_MAX at *
  cases use32bit <;> simp only [Bool.false_eq_true, if_true, if_false] <;> omega

theorem putPacked_apart {seg : AsSegment} {next : List AsSegment} {written lenp : Nat}
    (h : (seg :: next).IsChain fun x y => ¬ TypesPackable x y) (s : Stream size) :
    putPacked seg written lenp use32bit next 0 s = some (next, 0, s) := by
  cases next with
  | nil => rfl
  | cons y next => exact if_neg fun hpack => (List.isChain_cons_cons.mp h).1 hpack.1

theorem putSegments_eq {fuel : Nat} (bytes : Nat) {segs : List AsSegment} {s : Stream size}
    (h : Canonical segs) (hfuel : segs.length ≤ fuel)
    (hroom : s.data.length + (segs.flatMap (AsSegment.wire use32bit)).length ≤ size) :
    ∃ s', putSegments use32bit fuel segs bytes s =
        some (s', bytes + (segs.map (AsSegment.countedSize use32bit)).sum) ∧
      s'.data = s.data ++ segs.flatMap (AsSegment.wire use32bit) := by
  induction segs generalizing fuel bytes s with
  | nil =>
    refine ⟨s, ?_, (List.append_nil _).symm⟩
    unfold putSegments
    rfl
  | cons seg segs ih =>
    obtain ⟨fuel, rfl⟩ : ∃ n, fuel = n + 1 := ⟨fuel - 1, by rw [List.length_cons] at hfuel; omega⟩
    have hne := h.nonempty seg List.mem_cons_self
    have hcheck := segSize_le_wire use32bit hne
    have hwire := length_wire use32bit hne
    have hlast := last_part hne
    rw [List.flatMap_cons, List.length_append] at hroom
    obtain ⟨s₁, h1, hdata₁⟩ := @putOverlength_eq size use32bit seg seg.as.length 0 bytes
      seg.fullParts s (List.length_pos_iff.mpr hne) rfl
      (Nat.le_trans (Nat.div_le_self _ _) (Nat.sub_le _ _)) (by omega)
    rw [Nat.zero_add] at h1
    have hfull : s₁.data.length = s.data.length +
        seg.fullParts * assegmentSize AS_SEGMENT_MAX use32bit := by
      have hall : (seg.wire use32bit).length = ((List.replicate seg.fullParts
          (seg.as.take AS_SEGMENT_MAX)).flatMap (partBytes use32bit seg.type)).length +
          assegmentSize (seg.as.length - AS_SEGMENT_MAX * seg.fullParts) use32bit := by
        unfold AsSegment.wire AsSegment.parts
        rw [List.flatMap_append, List.flatMap_singleton, List.length_append, length_partBytes,
          List.length_drop]
      rw [hdata₁, List.length_append]
      omega
    obtain ⟨s₂, s₃, h2, h3, hdata₃⟩ := part_written use32bit s₁
      (seg.as.drop (AS_SEGMENT_MAX * seg.fullParts))
      (seg.as.length - AS_SEGMENT_MAX * seg.fullParts) seg.type hlast.2
      (Nat.le_of_eq List.length_drop.symm) (by omega)
    rw [List.take_of_length_le (Nat.le_of_eq List.length_drop)] at hdata₃
    have hdata : s₃.data = s.data ++ seg.wire use32bit := by
      rw [hdata₃, hdata₁, List.append_assoc]
      unfold AsSegment.wire AsSegment.parts
      rw [List.flatMap_append, List.flatMap_singleton]
    obtain ⟨s', h4, hdata'⟩ := @ih fuel
      (bytes + overlengthSize use32bit 0 seg.fullParts +
        assegmentSize (seg.as.length - AS_SEGMENT_MAX * seg.fullParts) use32bit) s₃ h.tail
      (Nat.le_of_succ_le_succ hfuel) (by rw [hdata, List.length_append]; omega)
    refine ⟨s', ?_, by rw [hdata', hdata, List.flatMap_cons, List.append_assoc]⟩
    unfold putSegments
    rw [if_pos (by omega), h1]
    show (assegmentHeaderPut s₁ seg.type _).bind _ = _
    rw [h2]
    show (assegmentDataPut s₂ _ _ use32bit).bind _ = _
    rw [h3]
    show (putPacked seg _ _ use32bit segs 0 s₃).bind _ = _
    rw [putPacked_apart h.apart]
    show putSegments use32bit fuel segs _ s₃ = _
    rw [Nat.add_zero, h4, List.map_cons, List.sum_cons, AsSegment.countedSize]
    simp only [Nat.add_assoc]

end AsPathPutLemmas

open AsPathLemmas AsPathWireLemmas AsPathPutLemmas

/-- What is written of a canonical path when there is room for it, and the size that is returned. -/
theorem aspathPut_eq {use32bit : Bool} {segs : List AsSegment} {s : Stream size} (h : Canonical segs)
    (hroom : s.data.length + (segs.flatMap (AsSegment.wire use32bit)).length ≤ size) :
    ∃ s', aspathPut s segs use32bit = some (s', (segs.map (AsSegment.countedSize use32bit)).sum) ∧
      s'.data = s.data ++ segs.flatMap (AsSegment.wire use32bit) := by
  cases segs with
  | nil => exact ⟨s, rfl, (List.append_nil _).symm⟩
  | cons seg segs =>
    obtain ⟨s', hput, hdata⟩ := putSegments_eq 0 h (Nat.le_refl _) hroom
    refine ⟨s', ?_, hdata⟩
    have hne := List.length_pos_iff.mpr (h.nonempty seg List.mem_cons_self)
    show (if seg.as.length = 0 then some (s, 0) else putSegments use32bit _ (seg :: segs) 0 s) = _
    rw [if_neg (Nat.ne_of_gt hne), hput, Nat.zero_add]

/-! ## The round trip -/

/-- With the size that was returned, what was written is parsed to the path as the peer gets it. -/
def PutParses (s : Stream size) (segs : List AsSegment) (use32bit : Bool) : Prop :=
  ∃ s' bytes written, aspathPut s segs use32bit = some (s', bytes) ∧ s'.data = s.data ++ written ∧
    bytes = written.length ∧
    aspathParse written bytes use32bit =
      some (some (assegmentNormalise (segs.map (renderSegment use32bit))), [])

namespace AsPathPutLemmas

variable {use32bit : Bool}

theorem renderAs_fits (as : UInt32) (h : use32bit = false) :
    (renderAs use32bit as).toNat < 2 ^ 16 := by
  subst h
  unfold renderAs
  split
  · next hle =>
    have hle := UInt32.le_iff_toNat_le.mp (hle.resolve_left Bool.false_ne_true)
    exact Nat.lt_of_le_of_lt hle (by decide)
  · decide

/-- Parts are wire segments. -/
theorem wire_of_parts (use32bit : Bool) {type : UInt8} (hknown : KnownType type) (parts : List (List UInt32))
    (h : ∀ part ∈ parts, part ≠ [] ∧ part.length ≤ AS_SEGMENT_MAX) :
    ∃ ws : List (WireSegment use32bit), wireBytes ws = parts.flatMap (partBytes use32bit type) ∧
      ws.map (fun w => (w.type, w.as)) =
        parts.map fun part => (type, part.map (renderAs use32bit)) := by
  induction parts with
  | nil => exact ⟨[], rfl, rfl⟩
  | cons part parts ih =>
    rw [List.forall_mem_cons] at h
    obtain ⟨⟨hne, hmax⟩, h⟩ := h
    obtain ⟨ws, hbytes, hws⟩ := ih h
    have hlen : (part.map (renderAs use32bit)).length = part.length := List.length_map _
    have hfits : use32bit = false → ∀ n ∈ part.map (renderAs use32bit), n.toNat < 2 ^ 16 := by
      intro hf n hn
      obtain ⟨as, -, rfl⟩ := List.mem_map.mp hn
      exact renderAs_fits as hf
    let w : WireSegment use32bit := ⟨type, part.map (renderAs use32bit), hknown,
      fun hnil => hne (List.map_eq_nil_iff.mp hnil), by
        rw [hlen]
        exact Nat.lt_of_le_of_lt hmax (by decide), hfits⟩
    refine ⟨w :: ws, ?_, by rw [List.map_cons, List.map_cons, hws]⟩
    rw [wireBytes_cons, List.flatMap_cons, hbytes]
    congr 1
    show type :: UInt8.ofNat (part.map (renderAs use32bit)).length :: _ = _
    rw [hlen, List.flatMap_map]
    rfl

theorem items_of_pairs {ws : List (WireSegment use32bit)} {type : UInt8} {parts : List (List UInt32)}
    (h : ws.map (fun w => (w.type, w.as)) =
      parts.map fun part => (type, part.map (renderAs use32bit))) :
    (type = AS_SEQUENCE →
      items (ws.map WireSegment.seg) = (parts.flatten.map (renderAs use32bit)).map .hop) ∧
    (type ≠ AS_SEQUENCE → (items (ws.map WireSegment.seg)).length = parts.length) := by
  induction parts generalizing ws with
  | nil =>
    obtain rfl := List.map_eq_nil_iff.mp h
    exact ⟨fun _ => rfl, fun _ => rfl⟩
  | cons part parts ih =>
    obtain ⟨w, ws, rfl, hw, hws⟩ := List.map_eq_cons_iff.mp h
    obtain ⟨htype, has⟩ := Prod.mk.inj hw
    have has' : w.seg.as = part.map (renderAs use32bit) := has
    rw [List.map_cons, items_cons]
    refine ⟨fun hseq => ?_, fun hne => ?_⟩
    · rw [(ih hws).1 hseq, items_of_sequence (htype.trans hseq), has', List.flatten_cons,
        List.map_append, List.map_append]
    · have hone : w.seg.items.length = 1 := by
        have htype' : w.seg.type ≠ AS_SEQUENCE := fun heq => hne (htype.symm.trans heq)
        by_cases hset : w.seg.IsSet
        · rw [items_of_isSet hset]
          rfl
        · rw [items_of_other htype' hset]
          rfl
      rw [List.length_append, hone, (ih hws).2 hne, List.length_cons, Nat.add_comm]

/-- With one full part at most, the parts are the segment. -/
theorem parts_flatten {seg : AsSegment} (hone : seg.fullParts ≤ 1) : seg.parts.flatten = seg.as := by
  unfold AsSegment.parts
  rcases Nat.le_one_iff_eq_zero_or_eq_one.mp hone with hzero | hone
  · rw [hzero, List.replicate_zero, List.nil_append, List.flatten_singleton, Nat.mul_zero,
      List.drop_zero]
  · rw [hone, List.replicate_one, List.singleton_append, List.flatten_cons, List.flatten_singleton,
      Nat.mul_one, List.take_append_drop]

theorem parts_bounds {seg : AsSegment} (h : seg.as ≠ []) :
    ∀ part ∈ seg.parts, part ≠ [] ∧ part.length ≤ AS_SEGMENT_MAX := by
  have hlast := last_part h
  intro part hpart
  rcases List.mem_append.mp hpart with hfull | hrest
  · rw [List.eq_of_mem_replicate hfull]
    refine ⟨fun hnil => ?_, List.length_take_le _ _⟩
    rcases List.take_eq_nil_iff.mp hnil with hmax | hnil
    · cases hmax
    · exact h hnil
  · rw [List.mem_singleton.mp hrest]
    refine ⟨fun hnil => ?_, Nat.le_trans (Nat.le_of_eq List.length_drop) hlast.2⟩
    have hle := List.drop_eq_nil_iff.mp hnil
    omega

/-- How a segment with one full part at most arrives. -/
theorem segment_arrives (use32bit : Bool) {seg : AsSegment} (hknown : KnownType seg.type) (hne : seg.as ≠ [])
    (hone : seg.fullParts ≤ 1) :
    ∃ ws : List (WireSegment use32bit), wireBytes ws = seg.wire use32bit ∧
      (items (ws.map WireSegment.seg)).length = (renderSegment use32bit seg).items.length +
        (if seg.type = AS_SEQUENCE then 0 else seg.fullParts) ∧
      (seg.type = AS_SEQUENCE ∨ seg.fullParts = 0 →
        items (ws.map WireSegment.seg) = (renderSegment use32bit seg).items) := by
  obtain ⟨ws, hbytes, hpairs⟩ := wire_of_parts use32bit hknown seg.parts (parts_bounds hne)
  obtain ⟨hsequence, hother⟩ := items_of_pairs hpairs
  refine ⟨ws, hbytes, ?_⟩
  by_cases hseq : seg.type = AS_SEQUENCE
  · have hitems : items (ws.map WireSegment.seg) = (renderSegment use32bit seg).items := by
      rw [hsequence hseq, parts_flatten hone]
      exact (items_of_sequence (show (renderSegment use32bit seg).type = AS_SEQUENCE from hseq)).symm
    exact ⟨by rw [hitems, if_pos hseq, Nat.add_zero], fun _ => hitems⟩
  · have hone' : (renderSegment use32bit seg).items.length = 1 := by
      by_cases hset : (renderSegment use32bit seg).IsSet
      · rw [items_of_isSet hset]
        rfl
      · rw [items_of_other (show (renderSegment use32bit seg).type ≠ AS_SEQUENCE from hseq) hset]
        rfl
    have hcount : seg.parts.length = seg.fullParts + 1 := by
      unfold AsSegment.parts
      rw [List.length_append, List.length_replicate, List.length_singleton]
    refine ⟨by rw [hother hseq, hone', hcount, if_neg hseq, Nat.add_comm], fun hzero => ?_⟩
    have hzero := hzero.resolve_left hseq
    have hparts : seg.parts = [seg.as] := by
      unfold AsSegment.parts
      rw [hzero, List.replicate_zero, List.nil_append, Nat.mul_zero, List.drop_zero]
    rw [hparts] at hpairs
    obtain ⟨w, ws, rfl, hw, hws⟩ := List.map_eq_cons_iff.mp hpairs
    obtain rfl := List.map_eq_nil_iff.mp hws
    obtain ⟨htype, has⟩ := Prod.mk.inj hw
    have hseg : w.seg = renderSegment use32bit seg := segment_ext htype has
    rw [List.map_singleton, hseg]
    exact List.append_nil _

/-- How a path arrives. -/
theorem path_arrives (use32bit : Bool) {segs : List AsSegment} (hknown : ∀ seg ∈ segs, KnownType seg.type)
    (hne : ∀ seg ∈ segs, seg.as ≠ []) (hone : ∀ seg ∈ segs, seg.fullParts ≤ 1) :
    ∃ ws : List (WireSegment use32bit),
      wireBytes ws = segs.flatMap (AsSegment.wire use32bit) ∧
      (items (ws.map WireSegment.seg)).length = (items (segs.map (renderSegment use32bit))).length +
        (segs.map fun seg => if seg.type = AS_SEQUENCE then 0 else seg.fullParts).sum ∧
      ((∀ seg ∈ segs, seg.type = AS_SEQUENCE ∨ seg.fullParts = 0) →
        items (ws.map WireSegment.seg) = items (segs.map (renderSegment use32bit))) := by
  induction segs with
  | nil => exact ⟨[], rfl, rfl, fun _ => rfl⟩
  | cons seg segs ih =>
    rw [List.forall_mem_cons] at hknown hne hone
    obtain ⟨ws, hbytes, hcount, hitems⟩ := segment_arrives use32bit hknown.1 hne.1 hone.1
    obtain ⟨ws', hbytes', hcount', hitems'⟩ := ih hknown.2 hne.2 hone.2
    refine ⟨ws ++ ws', ?_, ?_, fun hall => ?_⟩
    · rw [List.flatMap_cons, ← hbytes, ← hbytes']
      exact List.flatMap_append
    · rw [List.map_append, items_append, List.length_append, List.map_cons, items_cons,
        List.length_append, List.map_cons, List.sum_cons, hcount, hcount']
      omega
    · rw [List.forall_mem_cons] at hall
      rw [List.map_append, items_append, List.map_cons, items_cons, hitems hall.1, hitems' hall.2]

/-! ## The size -/

theorem assegmentSize_mono (use32bit : Bool) {n n' : Nat} (h : n ≤ n') :
    assegmentSize n use32bit ≤ assegmentSize n' use32bit :=
  Nat.add_le_add_left (Nat.mul_le_mul_right _ h) _

theorem assegmentSize_lt (use32bit : Bool) {n n' : Nat} (h : n < n') :
    assegmentSize n use32bit < assegmentSize n' use32bit := by
  unfold assegmentSize
  cases use32bit <;> simp only [Bool.false_eq_true, if_true, if_false] <;> omega

theorem overlengthSize_ge (use32bit : Bool) (written parts : Nat) :
    parts * assegmentSize AS_SEGMENT_MAX use32bit ≤ overlengthSize use32bit written parts := by
  induction parts generalizing written with
  | zero => rw [Nat.zero_mul]; exact Nat.zero_le _
  | succ parts ih =>
    have hfirst := assegmentSize_mono use32bit (Nat.le_add_left AS_SEGMENT_MAX written)
    have hrest := ih (written + AS_SEGMENT_MAX)
    rw [Nat.succ_mul, overlengthSize]
    omega

/-- The size is right for one full part at most. -/
theorem countedSize_of_one {seg : AsSegment} (hne : seg.as ≠ []) (hone : seg.fullParts ≤ 1) :
    seg.countedSize use32bit = (seg.wire use32bit).length := by
  rw [length_wire use32bit hne]
  unfold AsSegment.countedSize
  rcases Nat.le_one_iff_eq_zero_or_eq_one.mp hone with hzero | hone
  · rw [hzero, Nat.zero_mul, overlengthSize]
  · rw [hone, Nat.one_mul, overlengthSize, overlengthSize, Nat.zero_add, Nat.add_zero]

theorem countedSize_ge (use32bit : Bool) {seg : AsSegment} (hne : seg.as ≠ []) :
    (seg.wire use32bit).length ≤ seg.countedSize use32bit := by
  rw [length_wire use32bit hne]
  exact Nat.add_le_add_right (overlengthSize_ge use32bit 0 seg.fullParts) _

/-- With more full parts it is too large. -/
theorem countedSize_gt (use32bit : Bool) {seg : AsSegment} (hne : seg.as ≠ []) (hmore : 1 < seg.fullParts) :
    (seg.wire use32bit).length < seg.countedSize use32bit := by
  rw [length_wire use32bit hne]
  unfold AsSegment.countedSize
  obtain ⟨k, hk⟩ : ∃ k, seg.fullParts = k + 2 := ⟨seg.fullParts - 2, by omega⟩
  have hrest := overlengthSize_ge use32bit
    (0 + AS_SEGMENT_MAX + AS_SEGMENT_MAX) k
  have hsecond := assegmentSize_lt use32bit
    (show AS_SEGMENT_MAX < 0 + AS_SEGMENT_MAX + AS_SEGMENT_MAX by decide)
  rw [hk, overlengthSize, overlengthSize, Nat.succ_mul, Nat.succ_mul, Nat.zero_add] at *
  omega

theorem countedSize_iff (use32bit : Bool) {segs : List AsSegment} (hne : ∀ seg ∈ segs, seg.as ≠ []) :
    (segs.flatMap (AsSegment.wire use32bit)).length ≤ (segs.map (AsSegment.countedSize use32bit)).sum ∧
      ((segs.map (AsSegment.countedSize use32bit)).sum =
        (segs.flatMap (AsSegment.wire use32bit)).length ↔ ∀ seg ∈ segs, seg.fullParts ≤ 1) := by
  induction segs with
  | nil => exact ⟨Nat.le_refl 0, fun _ => List.forall_mem_nil _, fun _ => rfl⟩
  | cons seg segs ih =>
    rw [List.forall_mem_cons] at hne
    obtain ⟨hge, hiff⟩ := ih hne.2
    have hfirst := countedSize_ge use32bit hne.1
    rw [List.flatMap_cons, List.length_append, List.map_cons, List.sum_cons, List.forall_mem_cons,
      ← hiff]
    refine ⟨Nat.add_le_add hfirst hge, fun heq => ⟨?_, by omega⟩, fun h => ?_⟩
    · refine Nat.le_of_not_lt fun hmore => ?_
      have hgt := countedSize_gt use32bit hne.1 hmore
      omega
    · rw [countedSize_of_one hne.1 h.1, h.2]

theorem two_mul_asnCount_le_wire (use32bit : Bool) {segs : List AsSegment} (hne : ∀ seg ∈ segs, seg.as ≠ []) :
    2 * asnCount segs ≤ (segs.flatMap (AsSegment.wire use32bit)).length := by
  induction segs with
  | nil => exact Nat.le_refl 0
  | cons seg segs ih =>
    rw [List.forall_mem_cons] at hne
    have hrest := ih hne.2
    have hfirst := segSize_le_wire use32bit hne.1
    have hcount : 2 * seg.as.length ≤ assegmentSize seg.as.length use32bit := by
      unfold assegmentSize
      split <;> omega
    rw [asnCount_cons, List.flatMap_cons, List.length_append]
    omega

theorem asnCount_render (segs : List AsSegment) :
    asnCount (segs.map (renderSegment use32bit)) = asnCount segs := by
  unfold asnCount
  rw [List.map_map]
  congr 1
  exact List.map_congr_left fun seg _ => List.length_map _

/-- One full part at most, and none of a segment that is not a sequence. -/
theorem fullParts_iff {seg : AsSegment} (hne : seg.as ≠ []) :
    (seg.as.length ≤ 510 ∧ (seg.type ≠ AS_SEQUENCE → seg.as.length ≤ 255)) ↔
      seg.fullParts ≤ 1 ∧ (seg.type = AS_SEQUENCE ∨ seg.fullParts = 0) := by
  have hpos := List.length_pos_iff.mpr hne
  unfold AsSegment.fullParts AS_SEGMENT_MAX
  by_cases hseq : seg.type = AS_SEQUENCE
  · simp only [hseq, ne_eq, not_true_eq_false, false_imp_iff, and_true, true_or]
    omega
  · simp only [hseq, ne_eq, not_false_eq_true, true_imp_iff, false_or]
    omega

theorem nonempty_render {segs : List AsSegment} (h : ∀ seg ∈ segs, seg.as ≠ []) :
    ∀ seg ∈ segs.map (renderSegment use32bit), seg.as ≠ [] := by
  intro seg hseg
  obtain ⟨seg', hseg', rfl⟩ := List.mem_map.mp hseg
  exact fun hnil => h seg' hseg' (List.map_eq_nil_iff.mp hnil)

end AsPathPutLemmas

/-- Which paths get through. -/
theorem putParses_iff (s : Stream size) (segs : List AsSegment) (use32bit : Bool)
    (hcanonical : Canonical segs) (hknown : ∀ seg ∈ segs, KnownType seg.type)
    (hroom : s.data.length + (segs.flatMap (AsSegment.wire use32bit)).length ≤ size)
    (hlt : (segs.flatMap (AsSegment.wire use32bit)).length < 2 ^ 16) :
    PutParses s segs use32bit ↔
      ∀ seg ∈ segs, seg.as.length ≤ 510 ∧ (seg.type ≠ AS_SEQUENCE → seg.as.length ≤ 255) := by
  have hne := hcanonical.nonempty
  obtain ⟨s', hput, hdata⟩ := aspathPut_eq hcanonical hroom
  have hsize := (countedSize_iff use32bit hne).2
  have hfits : asnCount (segs.map (renderSegment use32bit)) < 2 ^ 16 := by
    rw [asnCount_render]
    have hhalf := two_mul_asnCount_le_wire use32bit hne
    omega
  have hbounds : (∀ seg ∈ segs, seg.as.length ≤ 510 ∧ (seg.type ≠ AS_SEQUENCE → seg.as.length ≤ 255)) ↔
      ∀ seg ∈ segs, seg.fullParts ≤ 1 ∧ (seg.type = AS_SEQUENCE ∨ seg.fullParts = 0) :=
    forall₂_congr fun seg hseg => fullParts_iff (hne seg hseg)
  rw [hbounds]
  constructor
  · rintro ⟨s'', bytes, written, hput', hdata', rfl, hparse⟩
    obtain ⟨rfl, hbytes⟩ := Prod.mk.inj (Option.some.inj (hput.symm.trans hput'))
    obtain rfl := List.append_cancel_left (hdata.symm.trans hdata')
    have hone := hsize.mp hbytes
    obtain ⟨ws, hws, hcount, -⟩ := path_arrives use32bit hknown hne hone
    have hfits' := Nat.lt_of_le_of_lt (asnCount_le ws) (hws ▸ hlt)
    have hread := aspathParse_wireBytes ws []
    rw [List.append_nil, hws, hparse] at hread
    obtain ⟨hpath, -⟩ := Prod.mk.inj (Option.some.inj hread)
    have hsame := (normalise_eq_iff hfits hfits' (nonempty_render hne) (nonempty_seg ws)).mp
      (Option.some.inj hpath)
    rw [hsame, Nat.left_eq_add] at hcount
    intro seg hseg
    refine ⟨hone seg hseg, or_iff_not_imp_left.mpr fun hseq => ?_⟩
    have hterm := List.sum_eq_zero_iff_forall_eq_nat.mp hcount _ (List.mem_map_of_mem hseg)
    rwa [if_neg hseq] at hterm
  · intro hall
    have hone : ∀ seg ∈ segs, seg.fullParts ≤ 1 := fun seg hseg => (hall seg hseg).1
    obtain ⟨ws, hws, -, hitems⟩ := path_arrives use32bit hknown hne hone
    have hfits' := Nat.lt_of_le_of_lt (asnCount_le ws) (hws ▸ hlt)
    have hread := aspathParse_wireBytes ws []
    rw [List.append_nil, hws] at hread
    refine ⟨s', _, _, hput, hdata, hsize.mpr hone, ?_⟩
    rw [hsize.mpr hone, hread, (normalise_eq_iff hfits' hfits (nonempty_seg ws) (nonempty_render hne)).mpr
      (hitems fun seg hseg => (hall seg hseg).2)]

/-- A sequence with a number of four bytes, and a set. -/
def mixedPath : List AsSegment :=
  [⟨AS_SEQUENCE, [65001, 70000], two_fits16⟩, ⟨AS_SET, [65002, 65003], two_fits16⟩]

theorem putParses_iff_mixedPath :
    Canonical mixedPath ∧ (∀ seg ∈ mixedPath, KnownType seg.type) ∧
      (PutParses (⟨[], Nat.zero_le 64⟩ : Stream 64) mixedPath false ↔
        ∀ seg ∈ mixedPath, seg.as.length ≤ 510 ∧ (seg.type ≠ AS_SEQUENCE → seg.as.length ≤ 255)) := by
  have hcanonical : Canonical mixedPath := by decide
  have hknown : ∀ seg ∈ mixedPath, KnownType seg.type := by decide
  exact ⟨hcanonical, hknown, putParses_iff ⟨[], Nat.zero_le 64⟩ mixedPath false hcanonical hknown
    (by decide) (by decide)⟩

end SrxSuite.Quagga

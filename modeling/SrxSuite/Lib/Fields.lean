import SrxSuite.Lib.Bytes

/-!
# Fields in a buffer

A record is written to a buffer field by field, each one at its offset. Fields that do not overlap
are all found where they were written, in whatever order that was.
-/

namespace Bytes

/-- What is written to an offset. -/
abbrev Field := Nat × Bytes

/-- The fields one after the other; `none` when one of them leaves the buffer. -/
def writeAll : List Field → Bytes → Option Bytes
  | [], m => some m
  | f :: fs, m => (m.writeAt f.1 f.2).bind (writeAll fs)

/-- The offset is one of a field's. -/
def Field.Covers (f : Field) (i : Nat) : Prop := f.1 ≤ i ∧ i < f.1 + f.2.length

/-- Two extents, an offset and a length each, that do not overlap. -/
def Apart (x y : Nat × Nat) : Prop := x.1 + x.2 ≤ y.1 ∨ y.1 + y.2 ≤ x.1

instance (x y : Nat × Nat) : Decidable (Apart x y) := inferInstanceAs (Decidable (_ ∨ _))

/-- The offset and the length of a field. -/
def Field.extent (f : Field) : Nat × Nat := (f.1, f.2.length)

variable {m m' : Bytes} {f : Field} {fs gs : List Field}

theorem writeAt_eq_some {off : Nat} {bs : Bytes} (h : m.writeAt off bs = some m') :
    m'.length = m.length ∧ off + bs.length ≤ m.length ∧
      (∀ i, i < bs.length → m'[off + i]? = bs[i]?) ∧
      ∀ i, i < off ∨ off + bs.length ≤ i → m'[i]? = m[i]? := by
  unfold writeAt at h
  split at h
  · next hle =>
    obtain rfl := Option.some.inj h
    have htake : (m.take off).length = off := List.length_take_of_le (by omega)
    refine ⟨?_, hle, fun i hi => ?_, ?_⟩
    · rw [List.length_append, List.length_append, htake, List.length_drop]
      omega
    · rw [List.append_assoc, List.getElem?_append_right (by omega),
        List.getElem?_append_left (by omega), htake, Nat.add_sub_cancel_left]
    · rintro i (hi | hi)
      · rw [List.append_assoc, List.getElem?_append_left (by omega), List.getElem?_take_of_lt hi]
      · rw [List.getElem?_append_right (by rw [List.length_append]; omega), List.length_append, htake,
          List.getElem?_drop]
        congr 1
        omega
  · cases h

theorem writeAt_isSome {off : Nat} {bs : Bytes} (h : off + bs.length ≤ m.length) :
    ∃ m', m.writeAt off bs = some m' := by
  unfold writeAt
  rw [if_pos h]
  exact ⟨_, rfl⟩

theorem writeAll_append (fs gs : List Field) (m : Bytes) :
    writeAll (fs ++ gs) m = (writeAll fs m).bind (writeAll gs) := by
  induction fs generalizing m with
  | nil => rfl
  | cons f fs ih =>
    rw [List.cons_append, writeAll, writeAll]
    cases m.writeAt f.1 f.2 with
    | none => rfl
    | some m' => exact ih m'

/-- What no field covers stays, and all fields are in the buffer. -/
theorem writeAll_eq_some (h : writeAll fs m = some m') :
    m'.length = m.length ∧ (∀ f ∈ fs, f.1 + f.2.length ≤ m.length) ∧
      ∀ i, (∀ f ∈ fs, ¬ f.Covers i) → m'[i]? = m[i]? := by
  induction fs generalizing m with
  | nil =>
    obtain rfl := Option.some.inj h
    exact ⟨rfl, fun f hf => absurd hf List.not_mem_nil, fun _ _ => rfl⟩
  | cons f fs ih =>
    obtain ⟨m₁, hwrite, hrest⟩ := Option.bind_eq_some_iff.mp h
    obtain ⟨hlen, hle, -, hkept⟩ := writeAt_eq_some hwrite
    obtain ⟨hlen', hle', hkept'⟩ := ih hrest
    refine ⟨hlen'.trans hlen, ?_, fun i hi => ?_⟩
    · rw [List.forall_mem_cons, ← hlen]
      exact ⟨hlen ▸ hle, hle'⟩
    · rw [List.forall_mem_cons] at hi
      rw [hkept' i hi.2]
      refine hkept i ?_
      rcases Nat.lt_or_ge i f.1 with hlt | hge
      · exact .inl hlt
      · exact .inr (Nat.le_of_not_lt fun hlt => hi.1 ⟨hge, hlt⟩)

/-- Fields in the buffer can be written. -/
theorem writeAll_isSome (h : ∀ f ∈ fs, f.1 + f.2.length ≤ m.length) :
    ∃ m', writeAll fs m = some m' := by
  induction fs generalizing m with
  | nil => exact ⟨m, rfl⟩
  | cons f fs ih =>
    rw [List.forall_mem_cons] at h
    obtain ⟨m₁, hwrite⟩ := writeAt_isSome h.1
    obtain ⟨hlen, -⟩ := writeAt_eq_some hwrite
    obtain ⟨m', hrest⟩ := @ih m₁ (hlen ▸ h.2)
    exact ⟨m', Option.bind_eq_some_iff.mpr ⟨m₁, hwrite, hrest⟩⟩

/-- Fields that do not overlap are found where they were written. -/
theorem writeAll_field (h : writeAll fs m = some m')
    (hapart : (fs.map Field.extent).Pairwise Apart) (hf : f ∈ fs) {i : Nat} (hi : i < f.2.length) :
    m'[f.1 + i]? = f.2[i]? := by
  induction fs generalizing m with
  | nil => cases hf
  | cons g fs ih =>
    obtain ⟨m₁, hwrite, hrest⟩ := Option.bind_eq_some_iff.mp h
    rw [List.map_cons, List.pairwise_cons] at hapart
    rcases List.mem_cons.mp hf with rfl | hf
    · obtain ⟨-, -, hwritten, -⟩ := writeAt_eq_some hwrite
      rw [← hwritten i hi]
      refine (writeAll_eq_some hrest).2.2 _ fun g hg hcovers => ?_
      rcases hapart.1 _ (List.mem_map_of_mem hg) with hle | hle
      · exact Nat.not_le.mpr (Nat.add_lt_add_left hi _) (Nat.le_trans hle hcovers.1)
      · exact Nat.not_le.mpr hcovers.2 (Nat.le_trans hle (Nat.le_add_right _ _))
    · exact ih hrest hapart.2 hf

/-! ## Adjacent fields -/

/-- The parts of a record as fields, each one behind the last. -/
def adjacent : (off : Nat) → List Bytes → List Field
  | _, [] => []
  | off, part :: parts => (off, part) :: adjacent (off + part.length) parts

/-- Adjacent fields fill a zeroed buffer of their size. -/
theorem writeAll_adjacent (written : Bytes) (parts : List Bytes) :
    writeAll (adjacent written.length parts)
        (written ++ List.replicate parts.flatten.length 0) = some (written ++ parts.flatten) := by
  induction parts generalizing written with
  | nil => rfl
  | cons part parts ih =>
    have hnext := ih (written ++ part)
    rw [List.length_append, List.append_assoc written part parts.flatten] at hnext
    rw [adjacent, writeAll, List.flatten_cons, List.length_append, writeAt_zeros]
    exact hnext

/-! ## Reading fields -/

/-- The memory has the bytes from an offset on. -/
def Memory.Holds (b : Memory) (off : Nat) (bs : Bytes) : Prop :=
  ∀ i x, bs[i]? = some x → b (off + i) = x

variable {b : Memory} {off : Nat} {bs : Bytes}

theorem Memory.Holds.byte {x : UInt8} (h : b.Holds off [x]) : b off = x := h 0 x rfl

theorem Memory.Holds.u16 {n : UInt16} (h : b.Holds off (be16 n)) : b.u16 off = n := by
  have hlt := n.toNat_lt
  have heq : n.toNat % 2 ^ 8 + 256 * (n.toNat / 256 % 2 ^ 8) = n.toNat := by omega
  have h0 : b off = _ := h 0 _ rfl
  unfold Memory.u16 ofBytes16
  rw [h0, h 1 _ rfl, UInt8.toNat_ofNat', UInt8.toNat_ofNat', heq, UInt16.ofNat_toNat]

theorem Memory.Holds.u32 {n : UInt32} (h : b.Holds off (be32 n)) : b.u32 off = n := by
  have hlt := n.toNat_lt
  have heq : n.toNat % 2 ^ 8 + 256 * (n.toNat / 256 % 2 ^ 8 + 256 *
      (n.toNat / 65536 % 2 ^ 8 + 256 * (n.toNat / 16777216 % 2 ^ 8))) = n.toNat := by omega
  have h0 : b off = _ := h 0 _ rfl
  unfold Memory.u32 ofBytes32
  rw [h0, h 1 _ rfl, h 2 _ rfl, h 3 _ rfl, UInt8.toNat_ofNat', UInt8.toNat_ofNat',
    UInt8.toNat_ofNat', UInt8.toNat_ofNat', heq, UInt32.ofNat_toNat]

theorem Memory.Holds.bytes (h : b.Holds off bs) : b.bytes off bs.length = bs := by
  unfold Memory.bytes
  refine List.ext_getElem (by rw [List.length_map, List.length_range]) fun i _ hi => ?_
  rw [List.getElem_map, List.getElem_range]
  exact h i _ (List.getElem?_eq_getElem hi)

theorem Memory.Holds.left {cs : Bytes} (h : b.Holds off (bs ++ cs)) : b.Holds off bs := by
  intro i x hx
  have hi := (List.getElem?_eq_some_iff.mp hx).1
  exact h i x (by rw [List.getElem?_append_left hi, hx])

theorem Memory.Holds.right {cs : Bytes} (h : b.Holds off (bs ++ cs)) :
    b.Holds (off + bs.length) cs := by
  intro i x hx
  rw [Nat.add_assoc]
  exact h _ x (by rw [List.getElem?_append_right (Nat.le_add_right _ _), Nat.add_sub_cancel_left, hx])

/-- Words one after the other. -/
theorem Memory.Holds.words {ns : List UInt32} (h : b.Holds off (ns.flatMap be32)) :
    (List.range ns.length).map (fun i => b.u32 (off + 4 * i)) = ns := by
  induction ns generalizing off with
  | nil => rfl
  | cons n ns ih =>
    rw [List.flatMap_cons] at h
    have hrest := ih h.right
    rw [List.length_cons, List.range_succ_eq_map, List.map_cons, List.map_map]
    refine congrArg₂ List.cons h.left.u32 (Eq.trans (List.map_congr_left fun i _ => ?_) hrest)
    show b.u32 (off + 4 * (i + 1)) = b.u32 (off + (be32 n).length + 4 * i)
    rw [length_be32, Nat.mul_add, Nat.add_assoc, Nat.add_comm (4 * i)]

end Bytes

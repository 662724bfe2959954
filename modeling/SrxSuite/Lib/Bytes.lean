import Mathlib.Algebra.GroupWithZero.Nat
import Mathlib.Data.List.Basic

/-!
# Byte memory

Memory regions as lists of bytes. Every access goes through `readAt` or `writeAt`, which
give `none` when the access leaves the region, so that a function written over them is
`some` exactly when all its accesses are in bounds.

`HoldsAt m off bs` says that `m` holds the bytes `bs` at offset `off`. It splits along
`++`, so a reader that walks through a concatenation is verified piece by piece.
-/

/-- A memory region or a byte string. -/
abbrev Bytes := List UInt8

namespace Bytes

/-! ## Accesses -/

/-- The `n` bytes from `off` on. -/
def readAt (m : Bytes) (off n : Nat) : Option Bytes :=
  if off + n ≤ m.length then some ((m.drop off).take n) else none

/-- `memcpy` of `bs` to `off`. -/
def writeAt (m : Bytes) (off : Nat) (bs : Bytes) : Option Bytes :=
  if off + bs.length ≤ m.length then some (m.take off ++ bs ++ m.drop (off + bs.length))
  else none

/-- `n` in two bytes, the high byte first. -/
def be16 (n : UInt16) : Bytes := [UInt8.ofNat (n.toNat / 256), UInt8.ofNat n.toNat]

/-- `n` in four bytes, the high byte first. -/
def be32 (n : UInt32) : Bytes :=
  [UInt8.ofNat (n.toNat / 16777216), UInt8.ofNat (n.toNat / 65536),
    UInt8.ofNat (n.toNat / 256), UInt8.ofNat n.toNat]

/-- `n` in two bytes, the low byte first. -/
def le16 (n : UInt16) : Bytes := (be16 n).reverse

/-- `n` in four bytes, the low byte first. -/
def le32 (n : UInt32) : Bytes := (be32 n).reverse

/-- The number with the bytes `hi` and `lo`. -/
def ofBytes16 (hi lo : UInt8) : UInt16 := UInt16.ofNat (lo.toNat + 256 * hi.toNat)

/-- The number with the bytes `a`, `b`, `c`, `d` from the highest to the lowest. -/
def ofBytes32 (a b c d : UInt8) : UInt32 :=
  UInt32.ofNat (d.toNat + 256 * (c.toNat + 256 * (b.toNat + 256 * a.toNat)))

/-- The 16-bit number whose high byte stands at `off`. -/
def be16At (m : Bytes) (off : Nat) : Option UInt16 :=
  match m.readAt off 2 with
  | some [hi, lo] => some (ofBytes16 hi lo)
  | _ => none

/-- The 32-bit number whose low byte stands at `off`. -/
def le32At (m : Bytes) (off : Nat) : Option UInt32 :=
  match m.readAt off 4 with
  | some [d, c, b, a] => some (ofBytes32 a b c d)
  | _ => none

/-- The 32-bit number whose high byte stands at `off`. -/
def be32At (m : Bytes) (off : Nat) : Option UInt32 :=
  match m.readAt off 4 with
  | some [a, b, c, d] => some (ofBytes32 a b c d)
  | _ => none

/-- `htons` on a little endian host: swap the bytes. -/
def htons (n : UInt16) : UInt16 :=
  ofBytes16 (UInt8.ofNat n.toNat) (UInt8.ofNat (n.toNat / 256))

/-- `htonl` on a little endian host: reverse the bytes. -/
def htonl (n : UInt32) : UInt32 :=
  ofBytes32 (UInt8.ofNat n.toNat) (UInt8.ofNat (n.toNat / 256))
    (UInt8.ofNat (n.toNat / 65536)) (UInt8.ofNat (n.toNat / 16777216))

@[simp] theorem length_be16 (n : UInt16) : (be16 n).length = 2 := rfl
@[simp] theorem length_be32 (n : UInt32) : (be32 n).length = 4 := rfl
@[simp] theorem length_le32 (n : UInt32) : (le32 n).length = 4 := rfl

theorem be16_ofBytes16 (hi lo : UInt8) : be16 (ofBytes16 hi lo) = [hi, lo] := by
  have h1 := hi.toNat_lt
  have h0 := lo.toNat_lt
  have hn : (ofBytes16 hi lo).toNat = lo.toNat + 256 * hi.toNat := by
    simp only [ofBytes16, UInt16.toNat_ofNat']
    omega
  simp only [be16, List.cons.injEq, and_true, ← UInt8.toNat_inj, UInt8.toNat_ofNat', hn]
  omega

theorem be32_ofBytes32 (a b c d : UInt8) : be32 (ofBytes32 a b c d) = [a, b, c, d] := by
  have h3 := a.toNat_lt
  have h2 := b.toNat_lt
  have h1 := c.toNat_lt
  have h0 := d.toNat_lt
  have hn : (ofBytes32 a b c d).toNat =
      d.toNat + 256 * (c.toNat + 256 * (b.toNat + 256 * a.toNat)) := by
    simp only [ofBytes32, UInt32.toNat_ofNat']
    omega
  simp only [be32, List.cons.injEq, and_true, ← UInt8.toNat_inj, UInt8.toNat_ofNat', hn]
  omega

/-- A number in network format lies in memory with its high byte first. -/
theorem le16_htons (n : UInt16) : le16 (htons n) = be16 n := by
  rw [le16, htons, be16_ofBytes16]
  rfl

theorem le32_htonl (n : UInt32) : le32 (htonl n) = be32 n := by
  rw [le32, htonl, be32_ofBytes32]
  rfl

/-! ## Contents at an offset -/

/-- `m` holds `bs` at `off`. -/
def HoldsAt (m : Bytes) (off : Nat) (bs : Bytes) : Prop :=
  ∃ pre post, m = pre ++ bs ++ post ∧ pre.length = off

variable {m a b bs : Bytes} {off : Nat}

theorem holdsAt_self (m : Bytes) : HoldsAt m 0 m := ⟨[], [], by simp, rfl⟩

theorem HoldsAt.left (h : HoldsAt m off (a ++ b)) : HoldsAt m off a := by
  obtain ⟨pre, post, rfl, rfl⟩ := h
  exact ⟨pre, b ++ post, by simp, rfl⟩

theorem HoldsAt.right (h : HoldsAt m off (a ++ b)) : HoldsAt m (off + a.length) b := by
  obtain ⟨pre, post, rfl, rfl⟩ := h
  exact ⟨pre ++ a, post, by simp, by simp⟩

theorem HoldsAt.readAt_eq (h : HoldsAt m off bs) : m.readAt off bs.length = some bs := by
  obtain ⟨pre, post, rfl, rfl⟩ := h
  simp [readAt]

theorem HoldsAt.getElem?_eq {x : UInt8} (h : HoldsAt m off (x :: bs)) : m[off]? = some x := by
  obtain ⟨pre, post, rfl, rfl⟩ := h
  simp

theorem HoldsAt.be16At_eq {n : UInt16} (h : HoldsAt m off (be16 n)) :
    m.be16At off = some n := by
  have hread := h.readAt_eq
  rw [length_be16] at hread
  have hlt := n.toNat_lt
  have heq : n.toNat % 2 ^ 8 + 256 * (n.toNat / 256 % 2 ^ 8) = n.toNat := by omega
  simp only [be16At, hread, be16, ofBytes16, UInt8.toNat_ofNat', heq, UInt16.ofNat_toNat]

theorem HoldsAt.le32At_eq {n : UInt32} (h : HoldsAt m off (le32 n)) :
    m.le32At off = some n := by
  have hread := h.readAt_eq
  rw [length_le32] at hread
  have hlt := n.toNat_lt
  have heq : n.toNat % 2 ^ 8 + 256 * (n.toNat / 256 % 2 ^ 8 + 256 *
      (n.toNat / 65536 % 2 ^ 8 + 256 * (n.toNat / 16777216 % 2 ^ 8))) = n.toNat := by omega
  simp only [le32At, hread, le32, be32, List.reverse_cons, List.reverse_nil, List.nil_append,
    List.cons_append, ofBytes32, UInt8.toNat_ofNat', heq, UInt32.ofNat_toNat]

theorem HoldsAt.be32At_eq {n : UInt32} (h : HoldsAt m off (be32 n)) :
    m.be32At off = some n := by
  have hread := h.readAt_eq
  rw [length_be32] at hread
  have hlt := n.toNat_lt
  have heq : n.toNat % 2 ^ 8 + 256 * (n.toNat / 256 % 2 ^ 8 + 256 *
      (n.toNat / 65536 % 2 ^ 8 + 256 * (n.toNat / 16777216 % 2 ^ 8))) = n.toNat := by omega
  simp only [be32At, hread, be32, ofBytes32, UInt8.toNat_ofNat', heq, UInt32.ofNat_toNat]

/-! ## The end of a region -/

theorem length_of_readAt {n : Nat} (h : m.readAt off n = some bs) : bs.length = n := by
  unfold readAt at h
  split at h
  · next hle =>
    obtain rfl := Option.some.inj h
    rw [List.length_take, List.length_drop]
    omega
  · cases h

/-- Reading from a pointer into the region. -/
theorem readAt_drop (m : Bytes) (ptr off : Nat) {n : Nat} (hn : 0 < n) :
    readAt (m.drop ptr) off n = m.readAt (ptr + off) n := by
  unfold readAt
  rw [List.length_drop, List.drop_drop]
  congr 1
  rw [eq_iff_iff]
  omega

theorem be16At_drop (m : Bytes) (ptr off : Nat) :
    be16At (m.drop ptr) off = m.be16At (ptr + off) := by
  unfold be16At
  rw [readAt_drop m ptr off (by decide : 0 < 2)]

/-! ## Writing -/

theorem writeAt_middle (pre old post bs : Bytes) (h : bs.length = old.length) :
    (pre ++ old ++ post).writeAt pre.length bs = some (pre ++ bs ++ post) := by
  simp [writeAt, h]

/-- Writing at the end of the used part of a zeroed buffer. -/
theorem writeAt_zeros (w bs : Bytes) (k : Nat) :
    (w ++ List.replicate (bs.length + k) 0).writeAt w.length bs =
      some (w ++ bs ++ List.replicate k 0) := by
  rw [← List.replicate_append_replicate, ← List.append_assoc]
  exact writeAt_middle w _ _ bs (by simp)

/-- Writing what is already there. -/
theorem HoldsAt.writeAt_eq (h : HoldsAt m off bs) : m.writeAt off bs = some m := by
  obtain ⟨pre, post, rfl, rfl⟩ := h
  exact writeAt_middle pre bs post bs rfl

/-! ## Regions of a larger memory

A memory without a known end, of which a region is the part that may be read. An access to the region
gives what the memory holds, and nothing when it leaves the region. -/

/-- The bytes from an address on. -/
abbrev Memory := Nat → UInt8

/-- The 16-bit number whose high byte stands at `off`. -/
def Memory.u16 (b : Memory) (off : Nat) : UInt16 := ofBytes16 (b off) (b (off + 1))

/-- The 32-bit number whose high byte stands at `off`. -/
def Memory.u32 (b : Memory) (off : Nat) : UInt32 :=
  ofBytes32 (b off) (b (off + 1)) (b (off + 2)) (b (off + 3))

/-- The `n` bytes from `off` on. -/
def Memory.bytes (b : Memory) (off n : Nat) : Bytes := (List.range n).map fun i => b (off + i)

/-- The region has the bytes of the memory. -/
def RegionOf (m : Bytes) (b : Memory) : Prop := ∀ i < m.length, m[i]? = some (b i)

variable {b : Memory}

theorem RegionOf.getElem?_eq (h : RegionOf m b) (off : Nat) :
    m[off]? = if off < m.length then some (b off) else none := by
  split
  · next hlt => exact h off hlt
  · next hlt => exact List.getElem?_eq_none (Nat.le_of_not_lt hlt)

/-- Some bytes of a region. -/
theorem RegionOf.readAt_eq (h : RegionOf m b) (off n : Nat) :
    m.readAt off n = if off + n ≤ m.length then some (b.bytes off n) else none := by
  unfold readAt
  split
  · next hle =>
    refine congrArg some (List.ext_getElem? fun i => ?_)
    unfold Memory.bytes
    rw [List.getElem?_take, List.getElem?_drop, List.getElem?_map]
    split
    · next hlt =>
      rw [h (off + i) (Nat.lt_of_lt_of_le (Nat.add_lt_add_left hlt off) hle), List.getElem?_range hlt]
      rfl
    · next hge =>
      rw [List.getElem?_eq_none (by rw [List.length_range]; exact Nat.le_of_not_lt hge)]
      rfl
  · rfl

/-- Two bytes of a region. -/
theorem RegionOf.be16At_eq (h : RegionOf m b) (off : Nat) :
    m.be16At off = if off + 2 ≤ m.length then some (b.u16 off) else none := by
  unfold be16At
  rw [h.readAt_eq]
  by_cases hle : off + 2 ≤ m.length
  · rw [if_pos hle, if_pos hle]
    rfl
  · rw [if_neg hle, if_neg hle]

/-- Four bytes of a region. -/
theorem RegionOf.be32At_eq (h : RegionOf m b) (off : Nat) :
    m.be32At off = if off + 4 ≤ m.length then some (b.u32 off) else none := by
  unfold be32At
  rw [h.readAt_eq]
  by_cases hle : off + 4 ≤ m.length
  · rw [if_pos hle, if_pos hle]
    rfl
  · rw [if_neg hle, if_neg hle]

/-- Every byte string is a region of the memory with zeros behind it. -/
theorem regionOf_getD (m : Bytes) : RegionOf m fun i => m.getD i 0 := by
  intro i hi
  dsimp only
  rw [List.getD_eq_getElem?_getD, List.getElem?_eq_getElem hi]
  rfl

theorem isSome_be16At (m : Bytes) (off : Nat) : (m.be16At off).isSome ↔ off + 2 ≤ m.length := by
  rw [(regionOf_getD m).be16At_eq]
  split
  · next h => exact iff_of_true rfl h
  · next h => exact iff_of_false Bool.false_ne_true h

theorem isSome_be32At (m : Bytes) (off : Nat) : (m.be32At off).isSome ↔ off + 4 ≤ m.length := by
  rw [(regionOf_getD m).be32At_eq]
  split
  · next h => exact iff_of_true rfl h
  · next h => exact iff_of_false Bool.false_ne_true h

theorem isSome_readAt (m : Bytes) (off n : Nat) : (m.readAt off n).isSome ↔ off + n ≤ m.length := by
  unfold readAt
  split
  · next h => exact iff_of_true rfl h
  · next h => exact iff_of_false Bool.false_ne_true h

theorem isSome_le32At (m : Bytes) (off : Nat) : (m.le32At off).isSome ↔ off + 4 ≤ m.length := by
  unfold le32At readAt
  split
  · next heq =>
    refine iff_of_true rfl ?_
    by_contra h
    rw [if_neg h] at heq
    cases heq
  · next hnot =>
    refine iff_of_false Bool.false_ne_true fun h => ?_
    obtain ⟨d, c, b, a, hread⟩ := List.length_eq_four.mp
      (List.length_take_of_le (by rw [List.length_drop]; omega : 4 ≤ (m.drop off).length))
    exact hnot d c b a (by rw [if_pos h, hread])

end Bytes

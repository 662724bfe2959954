import SrxSuite.Lib.Fields

/-!
# Streams of the router

The model of `lib/stream.c`, as far as the BGPsec attribute needs it. A stream that is read is its
readable bytes, a stream that is written has a capacity. An access beyond the bytes or the capacity
ends the router with a failed assertion, which is `none`; `streamPut` alone shortens what it writes.

`Writes op bs` says that `op` adds the bytes `bs` wherever there is room for them. It composes along
`++`, so a function that writes a record is verified field by field.
-/

namespace SrxSuite.Quagga

open Bytes

/-! ## Reading -/

/-- `stream_getc`. -/
def streamGetc : Bytes → Option (UInt8 × Bytes)
  | c :: s => some (c, s)
  | _ => none

/-- `stream_getw`. -/
def streamGetw : Bytes → Option (UInt16 × Bytes)
  | hi :: lo :: s => some (ofBytes16 hi lo, s)
  | _ => none

/-- `stream_getl`. -/
def streamGetl : Bytes → Option (UInt32 × Bytes)
  | a :: b :: c :: d :: s => some (ofBytes32 a b c d, s)
  | _ => none

/-- `stream_get`. -/
def streamGet (s : Bytes) (size : Nat) : Option (Bytes × Bytes) :=
  if s.length < size then none else some (s.take size, s.drop size)

/-! ## Writing -/

/-- A stream with what was written to it. -/
structure Stream (size : Nat) where
  data : Bytes
  fits : data.length ≤ size
  deriving DecidableEq

variable {size : Nat}

/-- Add bytes at the end. -/
def Stream.append (s : Stream size) (bs : Bytes) : Option (Stream size) :=
  if h : (s.data ++ bs).length ≤ size then some ⟨s.data ++ bs, h⟩ else none

/-- `stream_putc`. -/
def streamPutc (s : Stream size) (c : UInt8) : Option (Stream size) := s.append [c]

/-- `stream_putw`. -/
def streamPutw (s : Stream size) (w : UInt16) : Option (Stream size) := s.append (be16 w)

/-- `stream_putl`. -/
def streamPutl (s : Stream size) (l : UInt32) : Option (Stream size) := s.append (be32 l)

/-- `stream_put`: what does not fit is left out (`CHECK_SIZE`); zeros for `NULL`. -/
def streamPut (s : Stream size) (src : Option Bytes) (n : Nat) : Option (Stream size) :=
  let n := min n (size - s.data.length)
  match src with
  | none => s.append (List.replicate n 0)
  | some src => (src.readAt 0 n).bind s.append

/-- `stream_putw_at`. -/
def streamPutwAt (s : Stream size) (putp : Nat) (w : UInt16) : Option (Stream size) :=
  match h : s.data.writeAt putp (be16 w) with
  | none => none
  | some data => some ⟨data, (writeAt_eq_some h).1 ▸ s.fits⟩

/-! ## Specifications -/

/-- The operation adds the bytes, provided that there is room. -/
def Writes (op : Stream size → Option (Stream size)) (bs : Bytes) : Prop :=
  ∀ s, s.data.length + bs.length ≤ size → ∃ s', op s = some s' ∧ s'.data = s.data ++ bs

section Reading

variable (s : Bytes)

@[simp] theorem streamGetc_cons (c : UInt8) : streamGetc (c :: s) = some (c, s) := rfl

@[simp] theorem streamGetw_be16 (w : UInt16) : streamGetw (be16 w ++ s) = some (w, s) := by
  have hlt := w.toNat_lt
  have heq : w.toNat % 2 ^ 8 + 256 * (w.toNat / 256 % 2 ^ 8) = w.toNat := by omega
  simp only [streamGetw, be16, List.cons_append, List.nil_append, ofBytes16, UInt8.toNat_ofNat', heq,
    UInt16.ofNat_toNat]

@[simp] theorem streamGetl_be32 (l : UInt32) : streamGetl (be32 l ++ s) = some (l, s) := by
  have hlt := l.toNat_lt
  have heq : l.toNat % 2 ^ 8 + 256 * (l.toNat / 256 % 2 ^ 8 + 256 *
      (l.toNat / 65536 % 2 ^ 8 + 256 * (l.toNat / 16777216 % 2 ^ 8))) = l.toNat := by omega
  simp only [streamGetl, be32, List.cons_append, List.nil_append, ofBytes32, UInt8.toNat_ofNat', heq,
    UInt32.ofNat_toNat]

theorem streamGet_append {bs : Bytes} {n : Nat} (h : bs.length = n) :
    streamGet (bs ++ s) n = some (bs, s) := by
  unfold streamGet
  rw [if_neg (by rw [List.length_append]; omega), List.take_left' h, List.drop_left' h]

variable {s} {s' : Bytes}

theorem length_of_streamGetc {c : UInt8} (h : streamGetc s = some (c, s')) :
    s.length = s'.length + 1 := by
  unfold streamGetc at h
  split at h
  · cases h
    rfl
  · cases h

theorem length_of_streamGetw {w : UInt16} (h : streamGetw s = some (w, s')) :
    s.length = s'.length + 2 := by
  unfold streamGetw at h
  split at h
  · cases h
    rfl
  · cases h

theorem length_of_streamGetl {l : UInt32} (h : streamGetl s = some (l, s')) :
    s.length = s'.length + 4 := by
  unfold streamGetl at h
  split at h
  · cases h
    rfl
  · cases h

theorem length_of_streamGet {bs : Bytes} {n : Nat} (h : streamGet s n = some (bs, s')) :
    s.length = s'.length + n := by
  unfold streamGet at h
  split at h
  · cases h
  · cases h
    rw [List.length_drop]
    omega

theorem streamGet_length {bs : Bytes} {n : Nat} (h : streamGet s n = some (bs, s')) : bs.length = n := by
  unfold streamGet at h
  split at h
  · cases h
  · cases h
    exact List.length_take_of_le (by omega)

end Reading

section Writing

variable {op op' : Stream size → Option (Stream size)} {bs bs' : Bytes}

theorem Writes.append (bs : Bytes) : Writes (fun s : Stream size => s.append bs) bs := by
  intro s hroom
  have hfits : (s.data ++ bs).length ≤ size := by
    rw [List.length_append]
    exact hroom
  exact ⟨⟨s.data ++ bs, hfits⟩, dif_pos hfits, rfl⟩

theorem Writes.putc (c : UInt8) : Writes (fun s : Stream size => streamPutc s c) [c] :=
  Writes.append [c]

theorem Writes.putw (w : UInt16) : Writes (fun s : Stream size => streamPutw s w) (be16 w) :=
  Writes.append (be16 w)

theorem Writes.putl (l : UInt32) : Writes (fun s : Stream size => streamPutl s l) (be32 l) :=
  Writes.append (be32 l)

/-- A whole buffer. -/
theorem Writes.put {n : Nat} (h : bs.length = n) :
    Writes (fun s : Stream size => streamPut s (some bs) n) bs := by
  intro s hroom
  have hmin : min n (size - s.data.length) = n := by omega
  have hread : bs.readAt 0 n = some bs := h ▸ (holdsAt_self bs).readAt_eq
  obtain ⟨s', happ, hdata⟩ := Writes.append bs s hroom
  refine ⟨s', ?_, hdata⟩
  show (bs.readAt 0 (min n (size - s.data.length))).bind s.append = some s'
  rw [hmin, hread]
  exact happ

theorem Writes.nothing : Writes (fun s : Stream size => some s) [] :=
  fun s _ => ⟨s, rfl, (List.append_nil _).symm⟩

theorem Writes.bind (h : Writes op bs) (h' : Writes op' bs') :
    Writes (fun s => (op s).bind op') (bs ++ bs') := by
  intro s hroom
  rw [List.length_append] at hroom
  obtain ⟨s₁, hop, hdata⟩ := h s (by omega)
  obtain ⟨s₂, hop', hdata'⟩ := h' s₁ (by rw [hdata, List.length_append]; omega)
  refine ⟨s₂, ?_, ?_⟩
  · show (op s).bind op' = some s₂
    rw [hop]
    exact hop'
  · rw [hdata', hdata, List.append_assoc]

/-- One after the other. -/
theorem Writes.foldlM {α : Type} {body : Stream size → α → Option (Stream size)} {f : α → Bytes}
    (xs : List α) (h : ∀ x ∈ xs, Writes (fun s => body s x) (f x)) :
    Writes (fun s => xs.foldlM body s) (xs.flatMap f) := by
  induction xs with
  | nil => exact Writes.nothing
  | cons x xs ih =>
    rw [List.forall_mem_cons] at h
    exact Writes.bind h.1 (ih h.2)

/-- A number written to a place in the stream. -/
theorem streamPutwAt_middle {s : Stream size} {pre post : Bytes} {old : UInt16}
    (h : s.data = pre ++ be16 old ++ post) (w : UInt16) :
    ∃ s', streamPutwAt s pre.length w = some s' ∧ s'.data = pre ++ be16 w ++ post := by
  have hwrite : s.data.writeAt pre.length (be16 w) = some (pre ++ be16 w ++ post) := by
    rw [h]
    exact writeAt_middle pre (be16 old) post (be16 w) rfl
  unfold streamPutwAt
  split
  · next hnone =>
    rw [hwrite] at hnone
    cases hnone
  · next data hsome =>
    rw [hwrite] at hsome
    exact ⟨_, rfl, (Option.some.inj hsome).symm⟩

end Writing

end SrxSuite.Quagga

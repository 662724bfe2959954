import SrxSuite.Util.Socket

/-!
# Framing of packets

The model of `receivePackets` (`util/packet.c`) in the server. The loop reads a header and then the rest of
the PDU into one buffer, which grows when a PDU does not fit. The second pointer into the buffer,
`buffHelper`, first points to its start and is set behind the header only when the buffer has grown.

`BufferOk` is the invariant: as long as `buffHelper` is at the start, the buffer has the size of a header
and nothing is written through it. `receivePackets_frames` is the result for all streams of PDUs.
-/

namespace SrxSuite.Util

open Bytes

/-! ## The buffer -/

/-- `sizeof(SRXPROXY_BasicHeader)`, and the offset of its field `length`. -/
def basicLength : UInt32 := 12

def offLength : Nat := 8

/-- The variables that belong to the buffer. Every allocation has a number; a pointer is an allocation
with an offset. -/
structure RecvBuffer where
  allocation : Nat
  buffer : Bytes
  buffSize : UInt32
  buffHelper : Nat × Nat

variable (heap : Nat → Memory)

/-- `malloc` of the buffer; `heap` is what lies in fresh memory. -/
def RecvBuffer.malloc : RecvBuffer where
  allocation := 0
  buffer := (heap 0).bytes 0 basicLength.toNat
  buffSize := basicLength
  buffHelper := (0, 0)

/-- `realloc` of the buffer, which may move it, and the new `buffHelper`. -/
def RecvBuffer.realloc (b : RecvBuffer) (size : UInt32) : RecvBuffer where
  allocation := b.allocation + 1
  buffer := b.buffer.take size.toNat ++
    (heap (b.allocation + 1)).bytes b.buffer.length (size.toNat - b.buffer.length)
  buffSize := size
  buffHelper := (b.allocation + 1, basicLength.toNat)

/-- Write through a pointer. There is no result when a byte is not in the present allocation. -/
def RecvBuffer.write (b : RecvBuffer) (ptr : Nat × Nat) (bs : Bytes) : Option RecvBuffer :=
  if ptr.1 = b.allocation then (b.buffer.writeAt ptr.2 bs).map fun m => { b with buffer := m }
  else none

/-! ## The loop -/

/-- The first part of a turn: the header. -/
def receiveHeader (socket : Socket) (b : RecvBuffer) : Option (RecvBuffer × Recv) := do
  let b ← b.write (b.allocation, 0) (List.replicate basicLength.toNat 0)
  let header := recvNum socket basicLength.toNat
  let b ← b.write (b.allocation, 0) header.bytes
  some (b, header)

/-- The second part: the rest of the PDU. -/
def receiveRest (socket : Socket) (b : RecvBuffer) : Option (RecvBuffer × Recv) := do
  let pduLength ← b.buffer.be32At offLength
  let b := if b.buffSize < pduLength then b.realloc heap pduLength else b
  let remainder := pduLength - basicLength
  let remainder := if remainder > pduLength then 0 else remainder
  let b ← b.write b.buffHelper (List.replicate (b.buffSize - basicLength).toNat 0)
  let rest := recvNum socket remainder.toNat
  let b ← b.write b.buffHelper rest.bytes
  some (b, rest)

/-- A turn of the loop up to the call of the dispatcher, and whether all of the PDU came. -/
def receiveRound (socket : Socket) (b : RecvBuffer) : Option (RecvBuffer × Socket × Bool) := do
  let (b, header) ← receiveHeader socket b
  if header.ok then
    let (b, rest) ← receiveRest heap header.socket b
    some (b, rest.socket, rest.ok)
  else some (b, header.socket, false)

/-- What the dispatcher does to the buffer, of which it does not leave. -/
structure Dispatcher where
  run : Bytes → Bytes
  length_run : ∀ m, (run m).length = m.length

namespace PacketFramingLemmas

theorem isSome_recvLoop {blocks : List Bytes} {num : Nat} (h : (recvLoop blocks num).ok = true) :
    (recvLoop blocks num).socket.isSome := by
  induction blocks generalizing num with
  | nil =>
    cases num with
    | zero => rfl
    | succ num => cases h
  | cons block blocks ih =>
    cases num with
    | zero => rfl
    | succ num =>
      unfold recvLoop at h ⊢
      split at h
      · cases h
      · next hne =>
        rw [if_neg hne]
        split at h
        · next hpart =>
          rw [if_pos hpart]
          rfl
        · next hpart =>
          rw [if_neg hpart]
          exact ih h

/-- What comes when the connection is not lost. -/
theorem recvNum_ok {socket : Socket} {num : Nat} (h : (recvNum socket num).ok = true) :
    num ≤ socket.stream.length ∧ (recvNum socket num).bytes = socket.stream.take num ∧
      (recvNum socket num).socket.isSome ∧
      (recvNum socket num).socket.stream = socket.stream.drop num := by
  cases socket with
  | none => cases h
  | some blocks =>
    obtain ⟨hok, hbytes, hrest, -⟩ := recvLoop_eq blocks num
    have hle : num ≤ (Socket.stream (some blocks)).length := of_decide_eq_true (hok.symm.trans h)
    exact ⟨hle, hbytes, isSome_recvLoop h, hrest hle⟩

theorem recvNum_ok_of_le {socket : Socket} {num : Nat} (hsome : socket.isSome)
    (hle : num ≤ socket.stream.length) : (recvNum socket num).ok = true := by
  obtain ⟨blocks, rfl⟩ := Option.isSome_iff_exists.mp hsome
  exact (recvLoop_eq blocks num).ok.trans (decide_eq_true hle)

theorem header_of_some {socket : Socket} {b b' : RecvBuffer} {r : Recv}
    (h : receiveHeader socket b = some (b', r)) : r = recvNum socket basicLength.toNat := by
  simp only [receiveHeader, Option.bind_eq_bind, Option.bind_eq_some_iff] at h
  obtain ⟨b₁, -, b₂, -, h⟩ := h
  exact (Prod.mk.inj (Option.some.inj h)).2.symm

theorem rest_of_some {socket : Socket} {b b' : RecvBuffer} {r : Recv}
    (h : receiveRest heap socket b = some (b', r)) : ∃ num, r = recvNum socket num := by
  simp only [receiveRest, Option.bind_eq_bind, Option.bind_eq_some_iff] at h
  obtain ⟨pduLength, -, b₁, -, b₂, -, h⟩ := h
  exact ⟨_, (Prod.mk.inj (Option.some.inj h)).2.symm⟩

/-- A turn that ends well has read a header. -/
theorem receiveRound_shorter {socket socket' : Socket} {b b' : RecvBuffer}
    (h : receiveRound heap socket b = some (b', socket', true)) :
    socket'.stream.length < socket.stream.length := by
  unfold receiveRound at h
  obtain ⟨⟨b₁, header⟩, hheader, h⟩ := Option.bind_eq_some_iff.mp h
  obtain rfl := header_of_some hheader
  dsimp only at h
  split at h
  · next hok =>
    obtain ⟨⟨b₂, rest⟩, hrest, h⟩ := Option.bind_eq_some_iff.mp h
    obtain ⟨num, rfl⟩ := rest_of_some heap hrest
    obtain ⟨-, h⟩ := Prod.mk.inj (Option.some.inj h)
    obtain ⟨hsocket, hok'⟩ := Prod.mk.inj h
    obtain ⟨hle, -, -, hdrop⟩ := recvNum_ok hok
    obtain ⟨-, -, -, hdrop'⟩ := recvNum_ok hok'
    have hpos : 0 < basicLength.toNat := by decide
    rw [← hsocket, hdrop', hdrop, List.length_drop, List.length_drop]
    omega
  · cases h

end PacketFramingLemmas

open PacketFramingLemmas

/-- The loop of `receivePackets`: what the dispatcher got, call by call, and the returned value. -/
def receiveLoop (dispatcher : Dispatcher) (socket : Socket) (b : RecvBuffer) :
    Option (List Bytes × Bool) :=
  match _h : receiveRound heap socket b with
  | none => none
  | some (_, _, false) => some ([], false)
  | some (b, socket, true) => do
    let (calls, retVal) ←
      receiveLoop dispatcher socket { b with buffer := dispatcher.run b.buffer }
    some (b.buffer :: calls, retVal)
termination_by socket.stream.length
decreasing_by exact receiveRound_shorter heap _h

/-- `receivePackets` in the server. -/
def receivePackets (dispatcher : Dispatcher) (socket : Socket) : Option (List Bytes × Bool) :=
  receiveLoop heap dispatcher socket (RecvBuffer.malloc heap)

/-! ## Streams of PDUs -/

/-- A PDU: its length field gives its size, which is at least that of a header. -/
structure Pdu where
  bytes : Bytes
  length : UInt32
  field : bytes.be32At offLength = some length
  size : bytes.length = length.toNat

/-- What holds of the buffer at the start of a turn. -/
structure BufferOk (b : RecvBuffer) : Prop where
  size : b.buffer.length = b.buffSize.toNat
  header : basicLength.toNat ≤ b.buffer.length
  allocation : b.buffHelper.1 = b.allocation
  offset : b.buffHelper.2 = basicLength.toNat ∨
    b.buffHelper.2 = 0 ∧ b.buffer.length = basicLength.toNat

namespace PacketFramingLemmas

/-! ## Writing -/

variable {b : RecvBuffer} {hdr bs x : Bytes}

theorem bufferOk_replace (h : BufferOk b) {m : Bytes} (hm : m.length = b.buffer.length) :
    BufferOk { b with buffer := m } :=
  ⟨hm.trans h.size, hm ▸ h.header, h.allocation, hm ▸ h.offset⟩

theorem write_eq {ptr : Nat × Nat} (hptr : ptr.1 = b.allocation) {pre old post : Bytes}
    (hbuf : b.buffer = pre ++ old ++ post) (hpre : ptr.2 = pre.length) (hold : bs.length = old.length) :
    b.write ptr bs = some { b with buffer := pre ++ bs ++ post } := by
  unfold RecvBuffer.write
  rw [if_pos hptr, hbuf, hpre, writeAt_middle pre old post bs hold, Option.map_some]

/-- A write to the start, of no more than a header. -/
theorem write_start (h : BufferOk b) (hbs : bs.length ≤ basicLength.toNat) :
    ∃ b', b.write (b.allocation, 0) bs = some b' ∧ BufferOk b' ∧
      b'.buffer = bs ++ b.buffer.drop bs.length := by
  have hlen : (b.buffer.take bs.length).length = bs.length :=
    List.length_take_of_le (Nat.le_trans hbs h.header)
  refine ⟨_, @write_eq b bs (b.allocation, 0) rfl [] _ _ (List.take_append_drop _ _).symm rfl hlen.symm,
    bufferOk_replace h ?_, rfl⟩
  rw [List.nil_append, List.length_append, List.length_drop,
    Nat.add_sub_cancel' (Nat.le_trans hbs h.header)]

/-- A write through `buffHelper` goes behind the header. -/
theorem write_helper (h : BufferOk b) (hbuf : b.buffer = hdr ++ x) (hhdr : hdr.length = basicLength.toNat)
    (hbs : bs.length ≤ x.length) :
    ∃ b', b.write b.buffHelper bs = some b' ∧ BufferOk b' ∧
      b'.buffer = hdr ++ (bs ++ x.drop bs.length) := by
  have hlen : (hdr ++ (bs ++ x.drop bs.length)).length = b.buffer.length := by
    rw [hbuf, List.length_append, List.length_append, List.length_append, List.length_drop,
      Nat.add_sub_cancel' hbs]
  refine ⟨_, ?_, bufferOk_replace h hlen, rfl⟩
  rcases h.offset with hoff | ⟨hoff, hsize⟩
  · have hsplit : b.buffer = hdr ++ x.take bs.length ++ x.drop bs.length := by
      rw [List.append_assoc, List.take_append_drop, hbuf]
    rw [write_eq h.allocation hsplit (hoff.trans hhdr.symm) (List.length_take_of_le hbs).symm,
      List.append_assoc]
  · -- the buffer has no room behind the header
    have hx : x = [] := by
      rw [hbuf, List.length_append, hhdr] at hsize
      exact List.length_eq_zero_iff.mp (Nat.add_eq_left.mp hsize)
    subst hx
    obtain rfl : bs = [] := List.length_eq_zero_iff.mp (Nat.le_zero.mp hbs)
    rw [@write_eq b [] b.buffHelper h.allocation [] [] b.buffer rfl hoff rfl, hbuf]
    rfl

/-- The buffer behind `realloc`, when it grows. -/
theorem bufferOk_realloc (h : BufferOk b) (size : UInt32) (hlt : b.buffSize < size) :
    BufferOk (b.realloc heap size) ∧ ∃ y, (b.realloc heap size).buffer = b.buffer ++ y := by
  have hle : b.buffer.length ≤ size.toNat := by
    rw [h.size]
    exact Nat.le_of_lt (UInt32.lt_iff_toNat_lt.mp hlt)
  have hlen : (b.realloc heap size).buffer.length = size.toNat := by
    show (b.buffer.take size.toNat ++ Memory.bytes _ _ _).length = _
    rw [List.length_append, List.take_of_length_le hle, Memory.bytes, List.length_map,
      List.length_range, Nat.add_sub_cancel' hle]
  refine ⟨⟨hlen, ?_, rfl, .inl rfl⟩, ?_⟩
  · rw [hlen]
    exact Nat.le_trans h.header hle
  · refine ⟨(heap (b.allocation + 1)).bytes b.buffer.length (size.toNat - b.buffer.length), ?_⟩
    show b.buffer.take size.toNat ++ _ = _
    rw [List.take_of_length_le hle]

/-! ## A turn -/

theorem be32At_append {a : Bytes} {off : Nat} (h : off + 4 ≤ a.length) (x : Bytes) :
    (a ++ x).be32At off = a.be32At off := by
  have hread : (a ++ x).readAt off 4 = a.readAt off 4 := by
    unfold readAt
    rw [if_pos h, if_pos (Nat.le_trans h (by rw [List.length_append]; exact Nat.le_add_right _ _)),
      List.drop_append_of_le_length (Nat.le_trans (Nat.le_add_right _ _) h),
      List.take_append_of_le_length (by rw [List.length_drop]; exact Nat.le_sub_of_add_le' h)]
  unfold be32At
  rw [hread]

theorem header_le (pdu : Pdu) : basicLength.toNat ≤ pdu.bytes.length :=
  (isSome_be32At pdu.bytes offLength).mp (by rw [pdu.field]; rfl)

/-- The buffer after the header was read: it has room for the PDU. -/
theorem grown (h : BufferOk b) (pdu : Pdu) (hbuf : b.buffer = hdr ++ x) :
    ∃ b', (if b.buffSize < pdu.length then b.realloc heap pdu.length else b) = b' ∧ BufferOk b' ∧
      (∃ y, b'.buffer = hdr ++ y) ∧ pdu.length ≤ b'.buffSize := by
  rcases Decidable.em (b.buffSize < pdu.length) with hlt | hle
  · obtain ⟨hok, y, hy⟩ := bufferOk_realloc heap h pdu.length hlt
    refine ⟨_, if_pos hlt, hok, ⟨x ++ y, ?_⟩, UInt32.le_refl _⟩
    rw [hy, hbuf, List.append_assoc]
  · exact ⟨b, if_neg hle, h, ⟨x, hbuf⟩, UInt32.not_lt.mp hle⟩

theorem toNat_remainder (pdu : Pdu) :
    (if pdu.length - basicLength > pdu.length then (0 : UInt32) else pdu.length - basicLength).toNat =
      pdu.bytes.length - basicLength.toNat := by
  have hle : basicLength ≤ pdu.length := by
    rw [UInt32.le_iff_toNat_le, ← pdu.size]
    exact header_le pdu
  have hsub : (pdu.length - basicLength).toNat = pdu.length.toNat - basicLength.toNat :=
    UInt32.toNat_sub_of_le _ _ hle
  rw [if_neg, hsub, pdu.size]
  rw [gt_iff_lt, UInt32.lt_iff_toNat_lt, hsub]
  exact Nat.not_lt.mpr (Nat.sub_le _ _)

theorem length_zeros (n : Nat) : (List.replicate n (0 : UInt8)).length = n := List.length_replicate

theorem receiveHeader_eq (h : BufferOk b) {socket : Socket}
    (hlen : (recvNum socket basicLength.toNat).bytes.length ≤ basicLength.toNat) :
    ∃ b', receiveHeader socket b = some (b', recvNum socket basicLength.toNat) ∧ BufferOk b' ∧
      ∃ x, b'.buffer = (recvNum socket basicLength.toNat).bytes ++ x := by
  obtain ⟨b₁, hzeros, h₁, -⟩ := write_start h (Nat.le_of_eq (length_zeros basicLength.toNat))
  obtain ⟨b₂, hheader, h₂, hbuf⟩ := write_start h₁ hlen
  refine ⟨b₂, ?_, h₂, _, hbuf⟩
  unfold receiveHeader
  rw [hzeros, Option.bind_eq_bind, Option.bind_some]
  dsimp only
  rw [hheader]
  rfl

theorem receiveRest_eq (h : BufferOk b) (pdu : Pdu)
    (hbuf : b.buffer = pdu.bytes.take basicLength.toNat ++ x) {socket : Socket}
    (hsome : socket.isSome) {rest : Bytes}
    (hstream : socket.stream = pdu.bytes.drop basicLength.toNat ++ rest) :
    ∃ b' r, receiveRest heap socket b = some (b', r) ∧ r.ok = true ∧ r.socket.isSome ∧
      r.socket.stream = rest ∧ BufferOk b' ∧ ∃ y, b'.buffer = pdu.bytes ++ y := by
  have hhdr : (pdu.bytes.take basicLength.toNat).length = basicLength.toNat :=
    List.length_take_of_le (header_le pdu)
  have hfield : b.buffer.be32At offLength = some pdu.length := by
    have hle : offLength + 4 ≤ (pdu.bytes.take basicLength.toNat).length := Nat.le_of_eq hhdr.symm
    have hsplit := be32At_append hle
    rw [hbuf, hsplit, ← hsplit (pdu.bytes.drop basicLength.toNat), List.take_append_drop, pdu.field]
  obtain ⟨b₁, hgrow, h₁, ⟨x₁, hx₁⟩, hroom⟩ := grown heap h pdu hbuf
  have hlen₁ : basicLength.toNat + x₁.length = b₁.buffSize.toNat := by
    rw [← h₁.size, hx₁, List.length_append, hhdr]
  have hzero : (b₁.buffSize - basicLength).toNat = x₁.length := by
    rw [UInt32.toNat_sub_of_le _ _ (by
      rw [UInt32.le_iff_toNat_le, ← hlen₁]
      exact Nat.le_add_right _ _), ← hlen₁, Nat.add_sub_cancel_left]
  have hdrop : (pdu.bytes.drop basicLength.toNat).length = pdu.bytes.length - basicLength.toNat :=
    List.length_drop
  have hfits : pdu.bytes.length - basicLength.toNat ≤ x₁.length := by
    rw [UInt32.le_iff_toNat_le, ← pdu.size, ← hlen₁] at hroom
    exact Nat.sub_le_of_le_add (Nat.add_comm _ _ ▸ hroom)
  -- the rest of the buffer is cleared, and then written again
  obtain ⟨b₂, hmemset, h₂, hx₂⟩ := write_helper h₁ hx₁ hhdr (Nat.le_of_eq (length_zeros x₁.length))
  have hok : (recvNum socket (pdu.bytes.length - basicLength.toNat)).ok = true := by
    refine recvNum_ok_of_le hsome ?_
    rw [hstream, List.length_append, hdrop]
    exact Nat.le_add_right _ _
  obtain ⟨-, hbytes, hsome', hleft⟩ := recvNum_ok hok
  rw [hstream, List.take_left' hdrop] at hbytes
  rw [hstream, List.drop_left' hdrop] at hleft
  obtain ⟨b₃, hwrite, h₃, hx₃⟩ := write_helper h₂ hx₂ hhdr
    (show (recvNum socket (pdu.bytes.length - basicLength.toNat)).bytes.length ≤ _ by
      rw [hbytes, hdrop, List.length_append, length_zeros]
      exact Nat.le_trans hfits (Nat.le_add_right _ _))
  rw [hbytes, ← List.append_assoc, List.take_append_drop] at hx₃
  refine ⟨b₃, _, ?_, hok, hsome', hleft, h₃, _, hx₃⟩
  unfold receiveRest
  rw [hfield, Option.bind_eq_bind, Option.bind_some]
  dsimp only
  rw [hgrow, hzero, toNat_remainder, hmemset, Option.bind_eq_bind, Option.bind_some, hwrite]
  rfl

/-- A turn reads one PDU into the first bytes of the buffer. -/
theorem receiveRound_pdu (h : BufferOk b) {socket : Socket} (hsome : socket.isSome) (pdu : Pdu)
    {rest : Bytes} (hstream : socket.stream = pdu.bytes ++ rest) :
    ∃ b' socket', receiveRound heap socket b = some (b', socket', true) ∧ BufferOk b' ∧
      b'.buffer.take pdu.bytes.length = pdu.bytes ∧ socket'.isSome ∧ socket'.stream = rest := by
  have hle := header_le pdu
  have hok : (recvNum socket basicLength.toNat).ok = true := by
    refine recvNum_ok_of_le hsome ?_
    rw [hstream, List.length_append]
    exact Nat.le_trans hle (Nat.le_add_right _ _)
  obtain ⟨-, hbytes, hsome₁, hdrop⟩ := recvNum_ok hok
  rw [hstream, List.take_append_of_le_length hle] at hbytes
  rw [hstream, List.drop_append_of_le_length hle] at hdrop
  have hlen : (recvNum socket basicLength.toNat).bytes.length ≤ basicLength.toNat := by
    rw [hbytes]
    exact List.length_take_le _ _
  obtain ⟨b₁, hheader, h₁, x, hx⟩ := receiveHeader_eq h hlen
  rw [hbytes] at hx
  obtain ⟨b₂, r, hrest, hok₂, hsome₂, hleft, h₂, y, hy⟩ :=
    receiveRest_eq heap h₁ pdu hx hsome₁ hdrop
  refine ⟨b₂, r.socket, ?_, h₂, ?_, hsome₂, hleft⟩
  · unfold receiveRound
    rw [hheader, Option.bind_eq_bind, Option.bind_some]
    dsimp only
    rw [if_pos hok, hrest, Option.bind_some, hok₂]
  · rw [hy, List.take_left' rfl]

/-- At the end of the stream the turn ends without a PDU. -/
theorem receiveRound_end (h : BufferOk b) {socket : Socket} (hstream : socket.stream = []) :
    ∃ b' socket', receiveRound heap socket b = some (b', socket', false) := by
  obtain ⟨hok, hbytes, -, -⟩ := recvNum_eq socket basicLength.toNat (by decide)
  rw [hstream] at hok hbytes
  have hlen : (recvNum socket basicLength.toNat).bytes.length ≤ basicLength.toNat := by
    rw [hbytes]
    exact Nat.zero_le _
  obtain ⟨b₁, hheader, -, -⟩ := receiveHeader_eq h hlen
  refine ⟨b₁, (recvNum socket basicLength.toNat).socket, ?_⟩
  unfold receiveRound
  rw [hheader, Option.bind_eq_bind, Option.bind_some]
  dsimp only
  rw [hok]
  exact if_neg Bool.false_ne_true

/-! ## The loop -/

theorem receiveLoop_end {dispatcher : Dispatcher} {socket socket' : Socket} {b' : RecvBuffer}
    (h : receiveRound heap socket b = some (b', socket', false)) :
    receiveLoop heap dispatcher socket b = some ([], false) := by
  unfold receiveLoop
  split
  · next heq => rw [h] at heq; cases heq
  · rfl
  · next heq => rw [h] at heq; cases heq

theorem receiveLoop_next {dispatcher : Dispatcher} {socket socket' : Socket} {b' : RecvBuffer}
    (h : receiveRound heap socket b = some (b', socket', true)) {calls : List Bytes} {retVal : Bool}
    (hrest : receiveLoop heap dispatcher socket' { b' with buffer := dispatcher.run b'.buffer } =
      some (calls, retVal)) :
    receiveLoop heap dispatcher socket b = some (b'.buffer :: calls, retVal) := by
  rw [receiveLoop]
  split
  · next heq => rw [h] at heq; cases heq
  · next heq => rw [h] at heq; cases heq
  · next heq =>
    rw [h] at heq
    cases heq
    rw [hrest]
    rfl

end PacketFramingLemmas

/-- Every stream of PDUs, in whatever blocks it comes, is taken apart: the dispatcher is called once for
each PDU, in order, and finds it at the start of the buffer. All writes are in the buffer. -/
theorem receivePackets_frames (dispatcher : Dispatcher) (pdus : List Pdu) (socket : Socket)
    (hstream : socket.stream = pdus.flatMap Pdu.bytes) :
    ∃ calls, receivePackets heap dispatcher socket = some (calls, false) ∧
      List.Forall₂ (fun pdu buffer => buffer.take pdu.bytes.length = pdu.bytes) pdus calls := by
  have hstart : BufferOk (RecvBuffer.malloc heap) := by
    have hlen : (RecvBuffer.malloc heap).buffer.length = basicLength.toNat := by
      show (Memory.bytes _ _ _).length = _
      rw [Memory.bytes, List.length_map, List.length_range]
    exact ⟨hlen, Nat.le_of_eq hlen.symm, rfl, .inr ⟨rfl, hlen⟩⟩
  unfold receivePackets
  generalize RecvBuffer.malloc heap = b at hstart
  induction pdus generalizing socket b with
  | nil =>
    obtain ⟨b', socket', hround⟩ := receiveRound_end heap hstart hstream
    exact ⟨[], receiveLoop_end heap hround, .nil⟩
  | cons pdu pdus ih =>
    rw [List.flatMap_cons] at hstream
    have hsome : socket.isSome := by
      cases socket with
      | some blocks => rfl
      | none =>
        have hle := header_le pdu
        rw [(List.append_eq_nil_iff.mp hstream.symm).1] at hle
        exact absurd hle (by decide)
    obtain ⟨b', socket', hround, hok, htake, -, hrest⟩ := receiveRound_pdu heap hstart hsome pdu hstream
    obtain ⟨calls, hcalls, hall⟩ := ih socket' hrest { b' with buffer := dispatcher.run b'.buffer }
      (bufferOk_replace hok (dispatcher.length_run _))
    exact ⟨b'.buffer :: calls, receiveLoop_next heap hround hcalls, .cons htake hall⟩

/-- A PDU of the size of a header, and one with three bytes more. -/
def shortPdu : Pdu := ⟨[4, 0, 0, 0, 0, 0, 0, 0, 0, 0, 0, 12], 12, rfl, rfl⟩

def longPdu : Pdu := ⟨[1, 0, 0, 0, 0, 0, 0, 0, 0, 0, 0, 15, 7, 8, 9], 15, rfl, rfl⟩

theorem receivePackets_frames_three :
    ∃ calls, receivePackets (fun _ _ => 0) ⟨fun m => m, fun _ => rfl⟩
        (some [shortPdu.bytes ++ longPdu.bytes.take 5, longPdu.bytes.drop 5 ++ shortPdu.bytes]) =
          some (calls, false) ∧
      List.Forall₂ (fun pdu buffer => buffer.take pdu.bytes.length = pdu.bytes)
        [shortPdu, longPdu, shortPdu] calls :=
  receivePackets_frames _ _ [shortPdu, longPdu, shortPdu] _ rfl

end SrxSuite.Util

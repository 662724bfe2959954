import Mathlib.Data.List.TakeWhile
import SrxSuite.Lib.Bytes

/-!
# Reading from a socket

The model of `recvNum` (`util/socket.c`). The network delivers the stream in blocks of any size; a
block of zero bytes, or the end of the list, is the loss of the connection. The sockets of the program
have no timeout, a `recv` that fails is the loss of the connection, too.

Result: `recvNum_eq`. What is read depends on the stream only, not on the blocks.
-/

namespace SrxSuite.Util

/-! ## The code -/

/-- The blocks `recv` returns one after the other. The file descriptor is `-1` for `none`. -/
abbrev Socket := Option (List Bytes)

/-- What `recvNum` returns: whether all bytes came, the bytes it wrote, and the socket after it. -/
structure Recv where
  ok : Bool
  bytes : Bytes
  socket : Socket
  deriving DecidableEq, Repr

/-- The loop of `recvNum`. A block that is longer than what is asked for is read in part. -/
def recvLoop : List Bytes → (num : Nat) → Recv
  | blocks, 0 => ⟨true, [], some blocks⟩
  | [], _ + 1 => ⟨false, [], none⟩
  | block :: blocks, num + 1 =>
    if block = [] then ⟨false, [], none⟩
    else if num + 1 < block.length then
      ⟨true, block.take (num + 1), some (block.drop (num + 1) :: blocks)⟩
    else
      let r := recvLoop blocks (num + 1 - block.length)
      { r with bytes := block ++ r.bytes }

/-- `recvNum`. -/
def recvNum (socket : Socket) (num : Nat) : Recv :=
  match socket with
  | none => ⟨false, [], none⟩
  | some blocks => recvLoop blocks num

/-! ## The stream -/

/-- The bytes that come before the connection is lost. -/
def Socket.stream (socket : Socket) : Bytes :=
  match socket with
  | none => []
  | some blocks => (blocks.takeWhile (· ≠ [])).flatten

theorem stream_cons {block : Bytes} (h : block ≠ []) (blocks : List Bytes) :
    Socket.stream (some (block :: blocks)) = block ++ Socket.stream (some blocks) := by
  unfold Socket.stream
  dsimp only
  rw [List.takeWhile_cons, if_pos (decide_eq_true h), List.flatten_cons]

theorem stream_cons_nil (blocks : List Bytes) : Socket.stream (some ([] :: blocks)) = [] := by
  unfold Socket.stream
  dsimp only
  rw [List.takeWhile_cons_of_neg (by simp)]
  rfl

/-- What comes of a loop that asks for some bytes of a stream. -/
structure RecvOf (stream : Bytes) (num : Nat) (r : Recv) : Prop where
  ok : r.ok = decide (num ≤ stream.length)
  bytes : r.bytes = stream.take num
  rest : num ≤ stream.length → r.socket.stream = stream.drop num
  lost : stream.length < num → r.socket = none

theorem recvLoop_eq (blocks : List Bytes) (num : Nat) :
    RecvOf (Socket.stream (some blocks)) num (recvLoop blocks num) := by
  induction blocks generalizing num with
  | nil =>
    cases num with
    | zero => exact ⟨rfl, rfl, fun _ => rfl, fun h => absurd h (Nat.not_lt_zero _)⟩
    | succ num => exact ⟨rfl, rfl, fun h => absurd h (Nat.not_succ_le_zero num), fun _ => rfl⟩
  | cons block blocks ih =>
    cases num with
    | zero =>
      refine ⟨(decide_eq_true (Nat.zero_le _)).symm, rfl, fun _ => rfl, fun h => ?_⟩
      exact absurd h (Nat.not_lt_zero _)
    | succ num =>
      unfold recvLoop
      by_cases hnil : block = []
      · rw [if_pos hnil, hnil, stream_cons_nil]
        exact ⟨rfl, rfl, fun h => absurd h (Nat.not_succ_le_zero num), fun _ => rfl⟩
      rw [if_neg hnil, stream_cons hnil]
      by_cases hpart : num + 1 < block.length
      · rw [if_pos hpart]
        have hle : num + 1 ≤ (block ++ Socket.stream (some blocks)).length := by
          rw [List.length_append]
          omega
        refine ⟨(decide_eq_true hle).symm, ?_, fun _ => ?_, fun h => absurd hle (Nat.not_le.mpr h)⟩
        · exact (List.take_append_of_le_length (Nat.le_of_lt hpart)).symm
        · have hne : block.drop (num + 1) ≠ [] := by
            rw [ne_eq, List.drop_eq_nil_iff]
            exact Nat.not_le.mpr hpart
          rw [stream_cons hne, List.drop_append_of_le_length (Nat.le_of_lt hpart)]
      · -- the whole block is read, and the loop goes on behind it
        rw [if_neg hpart]
        have hblock : block.length ≤ num + 1 := Nat.le_of_not_lt hpart
        obtain ⟨hok, hbytes, hrest, hlost⟩ := ih (num + 1 - block.length)
        refine ⟨?_, ?_, fun h => ?_, fun h => ?_⟩
        · dsimp only
          rw [hok, List.length_append]
          exact decide_eq_decide.mpr (by omega)
        · dsimp only
          rw [hbytes, List.take_append, List.take_of_length_le hblock]
        · rw [List.length_append] at h
          dsimp only
          rw [hrest (by omega), List.drop_append, List.drop_eq_nil_of_le hblock, List.nil_append]
        · rw [List.length_append] at h
          exact hlost (by omega)

/-- `recvNum` gives the first bytes of the stream, whatever the blocks are. -/
theorem recvNum_eq (socket : Socket) (num : Nat) (h : 0 < num) :
    RecvOf socket.stream num (recvNum socket num) := by
  cases socket with
  | none =>
    refine ⟨(decide_eq_false (Nat.not_le.mpr h)).symm, List.take_nil.symm, fun hle => ?_, fun _ => rfl⟩
    exact absurd h (Nat.not_lt.mpr hle)
  | some blocks => exact recvLoop_eq blocks num

end SrxSuite.Util

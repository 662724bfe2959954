import SrxSuite.Server.RtrClient

/-!
# What reaches the handlers of RTR PDUs

`_getPacket` says with its error code that a PDU is not complete, and returns a length that is not
zero for it. `receivePDUs` looks at the length only.

Results:
1. `dispatch_iff`: in every state of a run, what reached a handler was complete, if and only if in
   every turn a PDU that would go to a handler comes as a whole, with a length of its type, and finds
   memory.
2. `dispatch_truncated`: a prefix PDU of which the header comes, and nothing else.
-/

namespace SrxSuite.Server

open Runs Util

/-- A PDU was received as a whole: its header, and as many bytes as its length field says; the length
is one of its type; and no error was reported for it. -/
structure Dispatch.Complete (d : Dispatch) : Prop where
  header : commonHeaderSize ≤ d.pdu.received.length
  sized : d.pdu.pduType.minSize ≤ d.pdu.length.toNat
  received : d.pdu.length.toNat ≤ d.pdu.received.length
  reported : d.reported = .noError
  errCode : d.errCode = .noError

namespace RtrState

/-- All that reached a handler was complete. -/
def DispatchRight (s : RtrState) : Prop := ∀ d ∈ s.dispatched, d.Complete

/-- The condition on a turn: a PDU that the version and its type let through to a handler has a length
of its type, all of it comes before the connection is lost, and it fits the buffer or there is memory
for a larger one. -/
def Arrives (s : RtrState) (op : Op) : Prop :=
  match op with
  | .turn t => s.Polls → ∀ hdr ∈ s.header, Accepts s.params s.client hdr →
      handles hdr.pduType (versionAfter s.params s.client hdr.version) = true →
      hdr.pduType.minSize ≤ hdr.length.toNat ∧ hdr.length.toNat ≤ s.socket.stream.length ∧
        (hdr.length.toNat ≤ max s.buffSize commonHeaderSize ∨ t.mem = true)
  | _ => True

end RtrState

namespace RtrDispatchLemmas

open RtrState RtrLemmas

variable {s : RtrState}

theorem commonHeaderSize_le_minSize (pduType : RtrPduType) : commonHeaderSize ≤ pduType.minSize := by
  cases pduType with
  | other code => exact Nat.le_refl 8
  | _ => decide

/-- The right account. -/
theorem dispatchRight_of_account {s s' : RtrState} (h : s'.dispatched = s.dispatched) :
    s'.DispatchRight ↔ s.DispatchRight := by
  unfold DispatchRight
  rw [h]

/-- A PDU at its handler is complete if and only if it came as a whole. -/
theorem complete_iff {hdr : RtrPdu} {d : Dispatch} {mem : Bool} (hheader : s.header = some hdr)
    (hpdu : d.pdu = (getPacket s.socket s.buffSize mem).pdu)
    (hreported : d.reported = (getPacket s.socket s.buffSize mem).errCode)
    (herr : d.reported = .noError → d.errCode = .noError) :
    d.Complete ↔ hdr.pduType.minSize ≤ hdr.length.toNat ∧
      hdr.length.toNat ≤ s.socket.stream.length ∧
        (hdr.length.toNat ≤ max s.buffSize commonHeaderSize ∨ mem = true) := by
  have hpacket := packet_of_header hheader mem
  constructor
  · rintro ⟨-, hsized, -, hok, -⟩
    rw [hreported, hpacket.error] at hok
    rw [hpdu, hpacket.pduType, hpacket.length] at hsized
    exact ⟨hsized, hok.2⟩
  · rintro ⟨hsized, hrest⟩
    have hmin := Nat.le_trans (commonHeaderSize_le_minSize hdr.pduType) hsized
    have hok := hpacket.error.mpr ⟨hmin, hrest⟩
    have hreceived := hpacket.received hok
    rw [← hreported] at hok
    refine ⟨?_, ?_, ?_, hok, herr hok⟩
    · rw [hpdu, hreceived]
      exact hmin
    · rw [hpdu, hpacket.pduType, hpacket.length]
      exact hsized
    · rw [hpdu, hreceived, hpacket.length]

/-- A step keeps the account right if and only if it meets the condition. -/
theorem dispatchRight_step (h : s.DispatchRight) (op : Op) :
    (s.step op).DispatchRight ↔ s.Arrives op := by
  have haccount := congrArg Account.dispatched (account_step s op)
  cases op with
  | connect blocks => exact iff_of_true ((dispatchRight_of_account haccount).mpr h) trivial
  | sendResetQuery sent => exact iff_of_true ((dispatchRight_of_account haccount).mpr h) trivial
  | receivePDUs returnAfterEndOfData singlePoll mem =>
    exact iff_of_true ((dispatchRight_of_account haccount).mpr h) trivial
  | setStop stop => exact iff_of_true ((dispatchRight_of_account haccount).mpr h) trivial
  | turn t =>
    dsimp only at haccount
    by_cases hpolls : s.Polls
    swap
    · rw [if_neg hpolls] at haccount
      exact iff_of_true ((dispatchRight_of_account haccount).mpr h) fun hp => absurd hp hpolls
    rw [if_pos hpolls] at haccount
    cases hheader : s.header with
    | none =>
      rw [account_turn_lost t hheader] at haccount
      refine iff_of_true ((dispatchRight_of_account haccount).mpr h) fun _ hdr hmem => ?_
      rw [hheader] at hmem
      cases hmem
    | some hdr =>
      have hcond : s.Arrives (.turn t) ↔ (Accepts s.params s.client hdr →
          handles hdr.pduType (versionAfter s.params s.client hdr.version) = true →
          hdr.pduType.minSize ≤ hdr.length.toNat ∧ hdr.length.toNat ≤ s.socket.stream.length ∧
            (hdr.length.toNat ≤ max s.buffSize commonHeaderSize ∨ t.mem = true)) :=
        forall_header_iff hpolls hheader
      rw [hcond]
      by_cases hgoes : Accepts s.params s.client hdr ∧
          handles hdr.pduType (versionAfter s.params s.client hdr.version) = true
      · obtain ⟨d, hpdu, hreported, herr, -, hturn⟩ :=
          account_turn_handled t hheader hgoes.1 hgoes.2
        rw [hturn] at haccount
        unfold DispatchRight
        rw [show (s.step (.turn t)).dispatched = s.dispatched ++ [d] from haccount,
          List.forall_mem_append, List.forall_mem_singleton,
          and_iff_right (show ∀ d ∈ s.dispatched, d.Complete from h),
          complete_iff hheader hpdu hreported herr]
        exact ⟨fun hall _ _ => hall, fun hall => hall hgoes.1 hgoes.2⟩
      · rw [account_turn_passed t hheader hgoes] at haccount
        refine iff_of_true ((dispatchRight_of_account haccount).mpr h) fun haccepts hhandles => ?_
        exact absurd ⟨haccepts, hhandles⟩ hgoes

end RtrDispatchLemmas

/-! ## Results -/

namespace RtrState

open RtrDispatchLemmas

/-- In every state of a run all that reached a handler was complete, if and only if every turn meets
the condition. -/
theorem dispatch_iff (params : RtrParams) (lastSent lastRecv : RtrPduType) (serial : UInt32)
    (ops : List Op) :
    Always step DispatchRight (initial params lastSent lastRecv serial) ops ↔
      EachStep step Arrives (initial params lastSent lastRecv serial) ops :=
  always_iff_eachStep (fun _ op h hop => (dispatchRight_step h op).mpr hop) (fun _ h => h)
    (fun _ op h hop h' => hop ((dispatchRight_step h op).mp h')) fun _ h => nomatch h

/-- The header of an IPv4 prefix PDU comes, and the connection is lost: the prefix is handled. -/
theorem dispatch_truncated :
    ¬ Always step DispatchRight (initial ⟨1, false⟩ .resetQuery .serialNotify 0)
      [.connect [[1, 4, 0, 0, 0, 0, 0, 20]], .receivePDUs false false true,
        .turn ⟨true, true, true⟩] := by
  intro h
  have hlast := h [.connect [[1, 4, 0, 0, 0, 0, 0, 20]], .receivePDUs false false true,
    .turn ⟨true, true, true⟩] [] rfl
  have hmem : (⟨⟨[1, 4, 0, 0, 0, 0, 0, 20]⟩, .socketError, .socketError, 1⟩ : Dispatch) ∈
      (([.connect [[1, 4, 0, 0, 0, 0, 0, 20]], .receivePDUs false false true,
        .turn ⟨true, true, true⟩] : List Op).foldl step
          (initial ⟨1, false⟩ .resetQuery .serialNotify 0)).dispatched := by
    decide
  exact absurd (hlast _ hmem).reported (by decide)

end RtrState

end SrxSuite.Server

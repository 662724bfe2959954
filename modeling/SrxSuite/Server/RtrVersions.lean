import SrxSuite.Server.RtrClient

/-!
# The protocol version of an RTR client

While it is in its startup the client settles its version with the versions in the PDUs of the cache.
`checkVersion` goes down only. Where it refuses, `receivePDUs` takes the version of the PDU all the
same when a downgrade is allowed, also a higher one, and otherwise goes on with the PDU as it is. The
startup ends with a session identifier, not with the first PDU that is handled.

Results:
1. `version_iff`: in every state of a run the version is settled as it is to be, if and only if every
   PDU with another version that comes during the startup has a lower one that the client may go down
   to, before anything else of the connection, or goes to no handler.
2. `version_raised`: a client of version 1 takes a response of version 2.
-/

namespace SrxSuite.Server

open Runs

/-- The version is at most the configured one, it never rises, it stays as it was when the first PDU of
the connection was handled, and every PDU that was handled carries the version of the client. -/
structure RtrState.Account.VersionsRight (a : RtrState.Account) : Prop where
  bound : a.version.toInt ≤ a.params.version.toNat
  falls : (a.version :: a.versions).Pairwise (· ≤ ·)
  fixed : ∀ v ∈ a.accepted, a.version = v
  carried : ∀ d ∈ a.dispatched, d.version.toInt = d.pdu.version.toNat

namespace RtrState

/-- The version of a state is right. -/
def VersionRight (s : RtrState) : Prop := s.account.VersionsRight

/-- The condition on a turn, for a PDU of another version that comes during the startup. When the
client may downgrade, the version as a signed byte is not above that of the client, and the same once
a PDU was handled. The PDU goes to a handler only when the client may downgrade and the byte has no
sign. -/
def Settles (s : RtrState) (op : Op) : Prop :=
  match op with
  | .turn _ => s.Polls → ∀ hdr ∈ s.header, s.client.startup = true →
      s.client.version.toInt ≠ hdr.version.toNat →
      (s.params.allowDowngrade = true → hdr.version.toInt8 ≤ s.client.version ∧
        (s.accepted.isSome = true → hdr.version.toInt8 = s.client.version)) ∧
      (handles hdr.pduType
          (if s.params.allowDowngrade then hdr.version.toInt8 else s.client.version) = true →
        s.params.allowDowngrade = true ∧ hdr.version < 128)
  | _ => True

end RtrState

namespace RtrVersionLemmas

open RtrState RtrLemmas

variable {s : RtrState} {a : Account} {w : Int8}

/-- The account after a turn that leaves the version `w`. -/
theorem right_iff (h : a.VersionsRight) (dispatched : List Dispatch) (accepted : Option Int8) :
    ({ a with
        version := w
        dispatched := dispatched
        accepted := accepted
        versions := a.version :: a.versions } : Account).VersionsRight ↔
      w ≤ a.version ∧ (∀ v ∈ accepted, w = v) ∧
        ∀ d ∈ dispatched, d.version.toInt = d.pdu.version.toNat := by
  constructor
  · rintro ⟨-, hfalls, hfixed, hcarried⟩
    exact ⟨(List.pairwise_cons.mp hfalls).1 _ List.mem_cons_self, hfixed, hcarried⟩
  · rintro ⟨hle, hfixed, hcarried⟩
    refine ⟨?_, List.pairwise_cons.mpr ⟨?_, h.falls⟩, hfixed, hcarried⟩
    · exact Int.le_trans (Int8.le_iff_toInt_le.mp hle) h.bound
    · intro v hv
      rcases List.mem_cons.mp hv with rfl | hv
      · exact hle
      · exact Int8.le_trans hle ((List.pairwise_cons.mp h.falls).1 v hv)

/-- A turn that leaves the version. -/
theorem right_same (h : a.VersionsRight) :
    ({ a with versions := a.version :: a.versions } : Account).VersionsRight :=
  (right_iff h _ _).mpr ⟨Int8.le_refl _, h.fixed, h.carried⟩

theorem handles_type {pduType : RtrPduType} (h : handles pduType w = true) :
    pduType ≠ .errorReport := by
  rintro rfl
  cases h

/-- A byte is the same as a signed one if it has no sign. -/
theorem toInt_toInt8_eq (v : UInt8) : v.toInt8.toInt = v.toNat ↔ v < 128 := by
  rw [toInt_toInt8, UInt8.lt_iff_toNat_lt]
  show (if v.toNat < 128 then (v.toNat : Int) else v.toNat - 256) = v.toNat ↔ v.toNat < 128
  split
  · next hlt => exact iff_of_true rfl hlt
  · next hge => exact iff_of_false (by omega) hge

/-- With the same version, or after the startup, the version stays. -/
theorem versionAfter_kept {params : RtrParams} {client : RtrClient} {v : UInt8}
    (h : ¬ (client.startup = true ∧ client.version.toInt ≠ v.toNat)) :
    versionAfter params client v = client.version := by
  unfold versionAfter
  exact if_neg fun hall => h ⟨hall.1, hall.2.2⟩

/-- With another version during the startup, a client that may downgrade takes it. -/
theorem versionAfter_other {params : RtrParams} {client : RtrClient} {v : UInt8}
    (hstart : client.startup = true) (hne : client.version.toInt ≠ v.toNat) :
    versionAfter params client v =
      if params.allowDowngrade then v.toInt8 else client.version := by
  unfold versionAfter
  by_cases hallow : params.allowDowngrade = true
  · rw [if_pos ⟨hstart, hallow, hne⟩, if_pos hallow]
  · rw [if_neg fun hall => hallow hall.2.1, if_neg hallow]

theorem fixed_getD {accepted : Option Int8} :
    (∀ v ∈ some (accepted.getD w), w = v) ↔ ∀ v ∈ accepted, w = v := by
  cases accepted with
  | none => exact iff_of_true (fun v hv => Option.some.inj hv) fun v hv => nomatch hv
  | some first => exact Iff.rfl

/-- A turn that sees a header, in the terms of the version it leaves. -/
theorem right_turn {hdr : RtrPdu} (h : s.VersionRight) (t : Turn) (hheader : s.header = some hdr) :
    (s.turn t).VersionRight ↔
      versionAfter s.params s.client hdr.version ≤ s.client.version ∧
      (∀ v ∈ s.accepted, versionAfter s.params s.client hdr.version = v) ∧
      (Accepts s.params s.client hdr →
        handles hdr.pduType (versionAfter s.params s.client hdr.version) = true →
        (versionAfter s.params s.client hdr.version).toInt = hdr.version.toNat) := by
  unfold VersionRight
  by_cases hgoes : Accepts s.params s.client hdr ∧
      handles hdr.pduType (versionAfter s.params s.client hdr.version) = true
  · obtain ⟨d, hpdu, -, -, hversion, hturn⟩ := account_turn_handled t hheader hgoes.1 hgoes.2
    have hcarried : d.version.toInt = d.pdu.version.toNat ↔
        (versionAfter s.params s.client hdr.version).toInt = hdr.version.toNat := by
      rw [hversion, hpdu, (packet_of_header hheader t.mem).version]
    rw [hturn]
    refine (right_iff h _ _).trans ?_
    rw [fixed_getD, List.forall_mem_append, List.forall_mem_singleton, hcarried]
    refine and_congr_right fun _ => and_congr_right fun _ => ?_
    exact ⟨fun hand _ _ => hand.2, fun hall => ⟨h.carried, hall hgoes.1 hgoes.2⟩⟩
  · rw [account_turn_passed t hheader hgoes]
    refine (right_iff h _ _).trans ?_
    refine and_congr_right fun _ => and_congr_right fun _ => ?_
    exact iff_of_true h.carried fun haccepts hhandles => absurd ⟨haccepts, hhandles⟩ hgoes

/-- The condition on a turn, for the header it sees. -/
theorem settles_turn {hdr : RtrPdu} (h : s.VersionRight) (hheader : s.header = some hdr) (t : Turn)
    (hpolls : s.Polls) :
    s.Settles (.turn t) ↔
      versionAfter s.params s.client hdr.version ≤ s.client.version ∧
      (∀ v ∈ s.accepted, versionAfter s.params s.client hdr.version = v) ∧
      (Accepts s.params s.client hdr →
        handles hdr.pduType (versionAfter s.params s.client hdr.version) = true →
        (versionAfter s.params s.client hdr.version).toInt = hdr.version.toNat) := by
  have hfixed : ∀ v ∈ s.accepted, s.client.version = v := h.fixed
  have hturn : s.Settles (.turn t) ↔ (s.client.startup = true →
      s.client.version.toInt ≠ hdr.version.toNat →
      (s.params.allowDowngrade = true → hdr.version.toInt8 ≤ s.client.version ∧
        (s.accepted.isSome = true → hdr.version.toInt8 = s.client.version)) ∧
      (handles hdr.pduType
          (if s.params.allowDowngrade then hdr.version.toInt8 else s.client.version) = true →
        s.params.allowDowngrade = true ∧ hdr.version < 128)) :=
    forall_header_iff hpolls hheader
  rw [hturn]
  by_cases hother : s.client.startup = true ∧ s.client.version.toInt ≠ hdr.version.toNat
  swap
  · -- the version stays, and a PDU that goes on carries it
    rw [versionAfter_kept hother]
    refine iff_of_true (fun hstart hne => absurd ⟨hstart, hne⟩ hother) ⟨Int8.le_refl _, hfixed, ?_⟩
    rintro (heq | ⟨hstart, -⟩) -
    · exact heq
    · by_contra hne
      exact hother ⟨hstart, hne⟩
  obtain ⟨hstart, hne⟩ := hother
  have haccepts (htype : hdr.pduType ≠ .errorReport) : Accepts s.params s.client hdr :=
    .inr ⟨hstart, .inr htype⟩
  rw [versionAfter_other hstart hne]
  cases hallow : s.params.allowDowngrade with
  | false =>
    rw [if_neg Bool.false_ne_true]
    constructor
    · intro hall
      refine ⟨Int8.le_refl _, hfixed, fun _ hhandles => ?_⟩
      exact absurd ((hall hstart hne).2 hhandles).1 Bool.false_ne_true
    · rintro ⟨-, -, hcarries⟩ - -
      refine ⟨fun h => absurd h Bool.false_ne_true, fun hhandles => ?_⟩
      exact absurd (hcarries (haccepts (handles_type hhandles)) hhandles) hne
  | true =>
    rw [if_pos rfl]
    constructor
    · intro hall
      obtain ⟨hlower, hsign⟩ := hall hstart hne
      obtain ⟨hle, hafter⟩ := hlower rfl
      refine ⟨hle, fun v hv => ?_, fun _ hhandles => (toInt_toInt8_eq _).mpr (hsign hhandles).2⟩
      rw [hafter (Option.isSome_iff_exists.mpr ⟨v, hv⟩), hfixed v hv]
    · rintro ⟨hle, hafter, hcarries⟩ - -
      refine ⟨fun _ => ⟨hle, fun hsome => ?_⟩, fun hhandles => ⟨rfl, ?_⟩⟩
      · obtain ⟨v, hv⟩ := Option.isSome_iff_exists.mp hsome
        rw [hafter v hv, hfixed v hv]
      · exact (toInt_toInt8_eq _).mp (hcarries (haccepts (handles_type hhandles)) hhandles)

/-- A step keeps the version right if and only if it meets the condition. -/
theorem versionRight_step (h : s.VersionRight) (op : Op) :
    (s.step op).VersionRight ↔ s.Settles op := by
  have haccount := account_step s op
  have hsame (heq : (s.step op).account = s.account) : (s.step op).VersionRight := by
    unfold VersionRight
    rw [heq]
    exact h
  cases op with
  | connect blocks =>
    refine iff_of_true ?_ trivial
    unfold VersionRight
    rw [haccount]
    exact ⟨h.bound, h.falls, fun v hv => (nomatch hv), h.carried⟩
  | sendResetQuery sent => exact iff_of_true (hsame haccount) trivial
  | receivePDUs returnAfterEndOfData singlePoll mem => exact iff_of_true (hsame haccount) trivial
  | setStop stop => exact iff_of_true (hsame haccount) trivial
  | turn t =>
    dsimp only at haccount
    by_cases hpolls : s.Polls
    swap
    · rw [if_neg hpolls] at haccount
      exact iff_of_true (hsame haccount) fun hp => absurd hp hpolls
    rw [if_pos hpolls] at haccount
    cases hheader : s.header with
    | none =>
      rw [account_turn_lost t hheader] at haccount
      refine iff_of_true ?_ fun _ hdr hmem => ?_
      · unfold VersionRight
        rw [haccount]
        exact right_same h
      · rw [hheader] at hmem
        cases hmem
    | some hdr =>
      rw [settles_turn h hheader t hpolls, ← right_turn h t hheader]
      unfold VersionRight
      rw [haccount]

end RtrVersionLemmas

/-! ## Results -/

namespace RtrState

open RtrLemmas RtrVersionLemmas

/-- A client starts with its version right. -/
theorem versionRight_initial (params : RtrParams) (lastSent lastRecv : RtrPduType)
    (serial : UInt32) : (initial params lastSent lastRecv serial).VersionRight := by
  refine ⟨?_, List.pairwise_singleton _ _, fun v hv => (nomatch hv), fun d hd => (nomatch hd)⟩
  show params.version.toInt8.toInt ≤ params.version.toNat
  rw [toInt_toInt8]
  split <;> omega

/-- In every state of a run the version is right, if and only if every turn meets the condition. -/
theorem version_iff (params : RtrParams) (lastSent lastRecv : RtrPduType) (serial : UInt32)
    (ops : List Op) :
    Always step VersionRight (initial params lastSent lastRecv serial) ops ↔
      EachStep step Settles (initial params lastSent lastRecv serial) ops :=
  always_iff_eachStep (fun _ op h hop => (versionRight_step h op).mpr hop) (fun _ h => h)
    (fun _ op h hop h' => hop ((versionRight_step h op).mp h'))
    (versionRight_initial params lastSent lastRecv serial)

/-- A client of version 1 takes a response of version 2. -/
theorem version_raised :
    ¬ Always step VersionRight (initial ⟨1, true⟩ .resetQuery .serialNotify 0)
      [.connect [[2, 3, 0, 0, 0, 0, 0, 8]], .receivePDUs false false true,
        .turn ⟨true, true, true⟩] := by
  intro h
  have hlast := h [.connect [[2, 3, 0, 0, 0, 0, 0, 8]], .receivePDUs false false true,
    .turn ⟨true, true, true⟩] [] rfl
  have hversion : (([.connect [[2, 3, 0, 0, 0, 0, 0, 8]], .receivePDUs false false true,
      .turn ⟨true, true, true⟩] : List Op).foldl step
        (initial ⟨1, true⟩ .resetQuery .serialNotify 0)).account.version.toInt = 2 := by
    decide
  exact absurd (hversion ▸ hlast.bound) (by decide)

end RtrState

end SrxSuite.Server

import SrxSuite.Server.RtrClient

/-!
# The session identifier of an RTR session

The thread of the RTR client (`manageConnection`) with the turns of `receivePDUs` as its steps. RFC 8210
lets a cache change the session identifier in the answer to a Reset Query only. `receivePDUs` compares
the last PDU that was sent with `PDU_TYPE_CACHE_RESET`, which a client never sends: a new identifier is
taken over when the client has none yet (`startup`), and not otherwise. And `manageConnection` does not
look at the error: a connection is left after the second call of `receivePDUs` only.

Result: `reset_refused`, a cache that asks for a reset and answers with a new identifier, and a
connection that goes on after the error. `inv_step` keeps the rule as long as a Cache Response with
another identifier comes when the client has none and asked for a reset, or when it has one, did not,
and is in the second call.
-/

namespace SrxSuite.Server

open Bytes Runs Util

/-! ## The events of a session -/

/-- A Cache Response at its handler: the identifier in it, that of the client before, the query that was
sent last, whether the client has taken over the identifier and goes on, and whether the loop ends with
the error for corrupt data. -/
structure Response where
  id : UInt32
  own : UInt32
  lastQuery : Option RtrPduType
  accepted : Bool
  corrupt : Bool
  deriving DecidableEq, Repr

/-- What can be seen of a session. End of Data goes on to its handler if its identifier is that of the
client. -/
inductive SessionEvent
  | query (pduType : RtrPduType)
  | response (r : Response)
  | data (pduType : RtrPduType)
  | endOfData (id : UInt32) (processed : Bool)
  deriving DecidableEq, Repr

/-- The query that was sent. -/
def SessionEvent.sentQuery : SessionEvent → Option RtrPduType
  | .query pduType => some pduType
  | _ => none

/-- A payload handler was called. -/
def SessionEvent.payload : SessionEvent → Bool
  | .data _ => true
  | .endOfData _ processed => processed
  | _ => false

/-- The rule for a session, of which the last event is the first in the list. A Cache Response with
another identifier is accepted exactly if the last query was a Reset Query. Then End of Data with this
identifier is processed, until a Cache Response has another one. Otherwise the session ends with an
error, and no payload follows. -/
def SessionRule (session : List SessionEvent) : Prop :=
  ∀ later r earlier, session = later ++ .response r :: earlier → r.id ≠ r.own →
    (r.accepted = true ↔ r.lastQuery = some .resetQuery) ∧
    (r.accepted = true → ∀ after processed between,
      later = after ++ .endOfData r.id processed :: between →
        (∀ r', .response r' ∈ between → r'.id = r.id) → processed = true) ∧
    (r.accepted = false → r.corrupt = true ∧ ∀ e ∈ later, e.payload = false)

/-! ## The thread -/

/-- Where `manageConnection` is: at the head of its loop, in one of the three calls of `receivePDUs`,
behind the first two of them, and at the query for a reset when the session has changed. -/
inductive Phase
  | start | handshake | receiving | check | reload | reloading | ended
  deriving DecidableEq, Repr

/-- The thread; `lastQuery` and `session` are the record of the connection. -/
structure RtrThread where
  rtr : RtrState
  phase : Phase
  stopAfterEndOfData : Bool
  errCount : Nat
  lastQuery : Option RtrPduType
  session : List SessionEvent

/-- What happens around an action of the thread: whether a query can be sent and `malloc` finds memory,
the turn of the loop, and the connection that `reconnectToServer` makes, if `connectionCallback` asks
for one. -/
structure Env where
  sent : Bool
  mem : Bool
  turn : Turn
  reconnect : Option (List Bytes)

/-- `RRC_MAX_ERRCT`. -/
def rrcMaxErrCt : Nat := 10

namespace RtrState

/-- The state in which the handlers get a PDU, and the PDU. -/
def atSwitch (s : RtrState) (t : Turn) : Option (RtrState × RtrPdu) :=
  let packet := getPacket s.socket s.buffSize t.mem
  let (client, errCode, goesOn) := negotiate s.params s.client packet.pdu packet.errCode
  if packet.pduLen = 0 ∨ goesOn = false then none
  else
    let s := { s with
      socket := packet.socket
      buffSize := packet.buffSize
      errCode := errCode
      keepGoing := !s.singlePoll
      versions := s.client.version :: s.versions
      client := client }
    some (s.record packet.pdu packet.errCode, packet.pdu)

/-- The event of a PDU at its handler. -/
def eventOf (s : RtrState) (pdu : RtrPdu) (t : Turn) (lastQuery : Option RtrPduType) :
    Option SessionEvent :=
  let s' := s.handlePdu pdu t
  match pdu.pduType with
  | .serialNotify =>
    if (checkSessionID s.client pdu.sessionID).2 ∧ s.socket.isSome ∧ t.sent then
      some (.query .serialQuery)
    else none
  | .cacheReset => if s.socket.isSome ∧ t.sent then some (.query .resetQuery) else none
  | .cacheResponse => some (.response
    { id := pdu.sessionID
      own := s.client.sessionID
      lastQuery := lastQuery
      accepted := decide (s'.client.sessionID = pdu.sessionID ∧ s'.keepGoing = s.keepGoing ∧
        s'.errCode = s.errCode)
      corrupt := decide (s'.keepGoing = false ∧ s'.errCode = .corruptData) })
  | .endOfData => some (.endOfData pdu.sessionID (decide (s'.client.sessionID = pdu.sessionID)))
  | pduType => if handles pduType s.client.version then some (.data pduType) else none

end RtrState

namespace RtrThread

/-- The record of an event. -/
def note (th : RtrThread) (e : Option SessionEvent) : RtrThread :=
  match e with
  | none => th
  | some e => { th with session := e :: th.session, lastQuery := e.sentQuery <|> th.lastQuery }

/-- Can a query be sent? -/
def canSend (th : RtrThread) (sent : Bool) : Bool := th.rtr.socket.isSome && sent

/-- A query is sent, by the thread or by another one. -/
def sendQuery (th : RtrThread) (serial sent : Bool) : RtrThread :=
  let rtr := if serial then th.rtr.sendPDU .serialQuery sent else th.rtr.sendResetQuery sent
  { th with rtr := rtr }.note
    (if th.canSend sent then some (.query (if serial then .serialQuery else .resetQuery)) else none)

/-- `receivePDUs` is called. -/
def receivePDUs (th : RtrThread) (phase : Phase) (returnAfterEndOfData singlePoll mem : Bool) :
    RtrThread :=
  { th with rtr := th.rtr.step (.receivePDUs returnAfterEndOfData singlePoll mem), phase := phase }

/-- A turn of the loop of `receivePDUs`, or its end. -/
def turn (th : RtrThread) (t : Turn) : RtrThread :=
  let e := if th.rtr.Polls then
    (th.rtr.atSwitch t).bind fun (s, pdu) => s.eventOf pdu t th.lastQuery else none
  { th with rtr := th.rtr.step (.turn t) }.note e

/-- `client->stop = stop`. -/
def setStop (th : RtrThread) (stop : Bool) : RtrThread := { th with rtr := th.rtr.step (.setStop stop) }

/-- The switch over `client->lastRecv` behind the first call. -/
def afterHandshake (th : RtrThread) (mem : Bool) : RtrThread :=
  match th.rtr.client.lastRecv with
  | .cacheResponse => th.receivePDUs .receiving th.stopAfterEndOfData false mem
  | .errorReport =>
    if th.rtr.errCode = .unsupportedProtVer ∨ th.rtr.errCode = .unexpectedProtocolVersion then
      { th.setStop (!th.rtr.params.allowDowngrade) with phase := .check }
    else
      let th := { th with errCount := th.errCount + 1, phase := .check }
      if th.errCount ≥ rrcMaxErrCt then th.setStop true else th
  | _ => { th.setStop true with phase := .check }

/-- The next action of `manageConnection`. -/
def advance (th : RtrThread) (env : Env) : RtrThread :=
  match th.phase with
  | .start =>
    if th.rtr.client.stop then { th with phase := .ended }
    else if th.canSend env.sent then
      (th.sendQuery false env.sent).receivePDUs .handshake th.stopAfterEndOfData true env.mem
    else { th.sendQuery false env.sent with phase := .check }
  | .handshake => if th.rtr.running then th.turn env.turn else th.afterHandshake env.mem
  | .receiving =>
    if th.rtr.running then th.turn env.turn
    else { if th.stopAfterEndOfData then th.setStop true else th with phase := .check }
  | .check =>
    if th.rtr.client.stop then { th with phase := .ended }
    else match env.reconnect with
      | none => { th.setStop true with phase := .ended }
      | some blocks =>
        { th with
          rtr := th.rtr.step (.connect blocks)
          phase := if th.rtr.client.sessionIDChanged then .reload else .start
          session := [] }
  | .reload =>
    if th.canSend env.sent then
      (th.sendQuery false env.sent).receivePDUs .reloading true false env.mem
    else { th.sendQuery false env.sent with phase := .start }
  | .reloading => if th.rtr.running then th.turn env.turn else { th with phase := .start }
  | .ended => th

/-- What can happen: the thread goes on, and another thread sends a query or stops the client. -/
inductive Op
  | advance (env : Env)
  | sendQuery (serial sent : Bool)
  | stop

def step (th : RtrThread) : Op → RtrThread
  | .advance env => th.advance env
  | .sendQuery serial sent => th.sendQuery serial sent
  | .stop => th.setStop true

/-- The thread that `createRPKIRouterClient` starts, with the connection it has made. -/
def initial (params : RtrParams) (lastSent lastRecv : RtrPduType) (serial : UInt32)
    (stopAfterEndOfData : Bool) (blocks : List Bytes) : RtrThread where
  rtr := { RtrState.initial params lastSent lastRecv serial with socket := some blocks }
  phase := .start
  stopAfterEndOfData := stopAfterEndOfData
  errCount := 0
  lastQuery := none
  session := []

/-- The condition on a step: a Cache Response with another identifier than that of the client comes when
the client has none yet and the last query was a Reset Query, or when it has one, the last query was
none, and the thread is in its second call of `receivePDUs`. -/
def ResponseInPlace (th : RtrThread) : Op → Prop
  | .advance env => th.rtr.Polls → ∀ x ∈ th.rtr.atSwitch env.turn,
      x.2.pduType = .cacheResponse → x.2.sessionID ≠ x.1.client.sessionID →
        (x.1.client.startup = true ↔ th.lastQuery = some .resetQuery) ∧
          (x.1.client.startup = false → th.phase = .receiving)
  | _ => True

instance (th : RtrThread) (op : Op) : Decidable (th.ResponseInPlace op) :=
  match op with
  | .advance env => inferInstanceAs (Decidable (th.rtr.Polls → ∀ x ∈ th.rtr.atSwitch env.turn,
      x.2.pduType = .cacheResponse → x.2.sessionID ≠ x.1.client.sessionID →
        (x.1.client.startup = true ↔ th.lastQuery = some .resetQuery) ∧
          (x.1.client.startup = false → th.phase = .receiving)))
  | .sendQuery _ _ => instDecidableTrue
  | .stop => instDecidableTrue

end RtrThread

namespace SessionLemmas

open RtrState RtrThread

/-! ## The rule -/

/-- A Cache Response with another identifier that was not accepted. -/
def Refused (session : List SessionEvent) : Prop :=
  ∃ r, .response r ∈ session ∧ r.id ≠ r.own ∧ r.accepted = false

theorem sessionRule_nil : SessionRule [] := by
  intro later r earlier heq
  exact absurd heq.symm (by simp)

/-- The next event. -/
theorem sessionRule_cons {session : List SessionEvent} {e : SessionEvent} (hrule : SessionRule session)
    (hresponse : ∀ r, e = .response r → r.id ≠ r.own →
      (r.accepted = true ↔ r.lastQuery = some .resetQuery) ∧
        (r.accepted = false → r.corrupt = true))
    (hpayload : e.payload = true → ¬ Refused session)
    (hend : ∀ id processed, e = .endOfData id processed → ∀ r, .response r ∈ session → r.id ≠ r.own →
      r.accepted = true → r.id = id → processed = true) : SessionRule (e :: session) := by
  intro later r earlier heq hne
  cases later with
  | nil =>
    obtain ⟨he, rfl⟩ := List.cons.inj heq
    obtain ⟨haccepted, hcorrupt⟩ := hresponse r he hne
    refine ⟨haccepted, fun _ after processed between hnil => ?_, fun hnot => ⟨hcorrupt hnot, ?_⟩⟩
    · exact absurd hnil.symm (by simp)
    · exact fun _ hmem => absurd hmem List.not_mem_nil
  | cons last later =>
    obtain ⟨rfl, rfl⟩ := List.cons.inj heq
    obtain ⟨haccepted, hprocessed, hended⟩ := hrule later r earlier rfl hne
    have hmem : SessionEvent.response r ∈ later ++ .response r :: earlier := by simp
    refine ⟨haccepted, fun hacc after processed between hlater hbetween => ?_, fun hnot => ?_⟩
    · cases after with
      | nil =>
        obtain ⟨rfl, -⟩ := List.cons.inj hlater
        exact hend _ _ rfl r hmem hne hacc rfl
      | cons _ after =>
        obtain ⟨-, hlater⟩ := List.cons.inj hlater
        exact hprocessed hacc after processed between hlater hbetween
    · obtain ⟨hcorrupt, hnone⟩ := hended hnot
      refine ⟨hcorrupt, fun x hx => ?_⟩
      rcases List.mem_cons.mp hx with rfl | hx
      · rw [← Bool.not_eq_true]
        exact fun hpay => hpayload hpay ⟨r, hmem, hne, hnot⟩
      · exact hnone x hx

/-! ## What a turn does to the session -/

section Turn

variable {s s₁ : RtrState} {pdu : RtrPdu} {t : Turn}

/-- The fields of a client that the session is about. -/
def sessionOf (client : RtrClient) : Bool × UInt32 × RtrPduType :=
  (client.startup, client.sessionID, client.lastSent)

theorem sessionOf_negotiate (params : RtrParams) (client : RtrClient) (pdu : RtrPdu)
    (errCode : RcvError) : sessionOf (negotiate params client pdu errCode).1 = sessionOf client := by
  unfold negotiate
  rw [RtrLemmas.checkVersion_eq]
  by_cases hdown : client.startup = true ∧ client.version.toInt > pdu.version.toNat ∧
      params.allowDowngrade = true
  · rw [if_pos hdown]
    rfl
  · rw [if_neg hdown]
    dsimp only
    split
    · rfl
    · split
      · rfl
      · rfl

/-- A PDU that gets to the switch. -/
theorem atSwitch_some (h : s.atSwitch t = some (s₁, pdu)) :
    sessionOf s₁.client = sessionOf s.client ∧ s₁.running = s.running ∧
      s.turn t = { s₁.handlePdu pdu t with client.lastRecv := pdu.pduType } := by
  have hnegotiate := sessionOf_negotiate s.params s.client (getPacket s.socket s.buffSize t.mem).pdu
    (getPacket s.socket s.buffSize t.mem).errCode
  unfold atSwitch at h
  dsimp only at h
  split at h
  · cases h
  · next hgoes =>
    rw [not_or, Bool.not_eq_false] at hgoes
    obtain ⟨rfl, rfl⟩ := Prod.mk.inj (Option.some.inj h)
    refine ⟨?_, ?_, ?_⟩
    · rw [← hnegotiate]
      unfold record
      split
      · rfl
      · rfl
    · unfold record
      split
      · rfl
      · rfl
    · unfold RtrState.turn
      dsimp only
      rw [if_neg hgoes.1, if_pos hgoes.2]

/-- A turn without a PDU at the switch. -/
theorem atSwitch_none (h : s.atSwitch t = none) :
    sessionOf (s.turn t).client = sessionOf s.client ∧ (s.turn t).running = s.running := by
  have hnegotiate := sessionOf_negotiate s.params s.client (getPacket s.socket s.buffSize t.mem).pdu
    (getPacket s.socket s.buffSize t.mem).errCode
  unfold atSwitch at h
  dsimp only at h
  split at h
  · next hnot =>
    unfold RtrState.turn
    dsimp only
    split
    · exact ⟨rfl, rfl⟩
    · next hlen =>
      rw [if_neg (by simp [hnot.resolve_left hlen])]
      exact ⟨hnegotiate, rfl⟩
  · cases h

theorem sendPDU_session (s : RtrState) (pduType : RtrPduType) (sent : Bool) :
    (s.sendPDU pduType sent).running = s.running ∧ (s.sendPDU pduType sent).keepGoing = s.keepGoing ∧
      (s.sendPDU pduType sent).client.startup = s.client.startup ∧
      (s.sendPDU pduType sent).client.sessionID = s.client.sessionID ∧
      ((s.sendPDU pduType sent).client.lastSent = s.client.lastSent ∨
        (s.sendPDU pduType sent).client.lastSent = pduType) := by
  unfold sendPDU
  split
  · exact ⟨rfl, rfl, rfl, rfl, .inl rfl⟩
  · split
    · exact ⟨rfl, rfl, rfl, rfl, .inr rfl⟩
    · exact ⟨rfl, rfl, rfl, rfl, .inl rfl⟩

/-- The identifier of a client that has one stays. -/
theorem checkSessionID_spec (client : RtrClient) (sessionID : UInt32) :
    (checkSessionID client sessionID).1.startup = false ∧
      (checkSessionID client sessionID).1.sessionID =
        (if client.startup then sessionID else client.sessionID) ∧
      (checkSessionID client sessionID).1.lastSent = client.lastSent ∧
      ((checkSessionID client sessionID).2 = true ↔
        client.startup = true ∨ client.sessionID = sessionID) := by
  unfold checkSessionID
  cases hstart : client.startup with
  | true => simp
  | false =>
    by_cases hid : client.sessionID = sessionID
    · simp [hid, hstart]
    · simp [hid, hstart]

/-- A handler never takes an identifier from a client that has one. -/
structure Handled (s s' : RtrState) : Prop where
  running : s'.running = s.running
  startup : s.client.startup = false → s'.client.startup = false ∧
    s'.client.sessionID = s.client.sessionID
  sent : s'.client.lastSent = .cacheReset → s.client.lastSent = .cacheReset

theorem handled_session (s : RtrState) (sessionID : UInt32) :
    Handled s { s with client := (checkSessionID s.client sessionID).1 } := by
  obtain ⟨hstart, hid, hsent, -⟩ := checkSessionID_spec s.client sessionID
  refine ⟨rfl, fun hold => ⟨hstart, ?_⟩, fun h => hsent ▸ h⟩
  show (checkSessionID s.client sessionID).1.sessionID = _
  rw [hid, hold]
  rfl

theorem Handled.trans {s₁ s₂ s₃ : RtrState} (h₁ : Handled s₁ s₂) (h₂ : Handled s₂ s₃) :
    Handled s₁ s₃ := by
  refine ⟨h₂.running.trans h₁.running, fun hold => ?_, fun h => h₁.sent (h₂.sent h)⟩
  obtain ⟨hs, hid⟩ := h₁.startup hold
  obtain ⟨hs', hid'⟩ := h₂.startup hs
  exact ⟨hs', hid'.trans hid⟩

theorem Handled.of_client {s s' : RtrState} (hrunning : s'.running = s.running)
    (hclient : s'.client.startup = s.client.startup ∧ s'.client.sessionID = s.client.sessionID ∧
      s'.client.lastSent = s.client.lastSent) : Handled s s' :=
  ⟨hrunning, fun hold => ⟨hclient.1.trans hold, hclient.2.1⟩, fun h => hclient.2.2 ▸ h⟩

theorem handled_sendPDU (s : RtrState) {pduType : RtrPduType} (hne : pduType ≠ .cacheReset)
    (sent : Bool) : Handled s (s.sendPDU pduType sent) := by
  obtain ⟨hrunning, -, hstart, hid, hsent⟩ := sendPDU_session s pduType sent
  refine ⟨hrunning, fun hold => ⟨hstart.trans hold, hid⟩, fun h => ?_⟩
  rcases hsent with heq | heq
  · rw [← heq]
    exact h
  · exact absurd (heq.symm.trans h) hne

/-- No handler of a PDU does. -/
theorem handled_handlePdu (s : RtrState) (pdu : RtrPdu) (t : Turn) : Handled s (s.handlePdu pdu t) := by
  have hsession := handled_session s pdu.sessionID
  have hsame (s : RtrState) (keepGoing : Bool) (errCode : RcvError) :
      Handled s { s with keepGoing := keepGoing, errCode := errCode } :=
    Handled.of_client rfl ⟨rfl, rfl, rfl⟩
  unfold handlePdu
  cases pdu.pduType with
  | serialNotify =>
    dsimp only
    split
    · exact hsession.trans (handled_sendPDU _ (by simp) _)
    · exact hsession.trans (hsame _ _ _)
  | cacheResponse =>
    dsimp only
    split
    · exact hsession
    · exact hsession.trans (hsame _ _ _)
  | endOfData =>
    dsimp only
    split
    · exact hsession.trans (Handled.of_client rfl ⟨rfl, rfl, rfl⟩)
    · exact hsession.trans (hsame _ _ _)
  | routerKey =>
    dsimp only
    split
    · exact Handled.of_client rfl ⟨rfl, rfl, rfl⟩
    · exact hsame _ _ _
  | aspa =>
    dsimp only
    split
    · exact Handled.of_client rfl ⟨rfl, rfl, rfl⟩
    · exact hsame _ _ _
  | cacheReset =>
    exact (handled_sendPDU s (by simp) t.sent).trans (Handled.of_client rfl ⟨rfl, rfl, rfl⟩)
  | ipv4Prefix => exact Handled.of_client rfl ⟨rfl, rfl, rfl⟩
  | ipv6Prefix => exact Handled.of_client rfl ⟨rfl, rfl, rfl⟩
  | errorReport => exact Handled.of_client rfl ⟨rfl, rfl, rfl⟩
  | reserved => exact hsame _ _ _
  | serialQuery => exact hsame _ _ _
  | resetQuery => exact hsame _ _ _
  | other code => exact hsame _ _ _

/-- A Cache Response for a client without an identifier. -/
theorem response_startup {s : RtrState} (htype : pdu.pduType = .cacheResponse)
    (hstart : s.client.startup = true) :
    (s.handlePdu pdu t).client.startup = false ∧
      (s.handlePdu pdu t).client.sessionID = pdu.sessionID ∧
      (s.handlePdu pdu t).keepGoing = s.keepGoing ∧ (s.handlePdu pdu t).errCode = s.errCode := by
  obtain ⟨hold, hid, -, hsame⟩ := checkSessionID_spec s.client pdu.sessionID
  rw [if_pos hstart] at hid
  unfold handlePdu
  rw [htype]
  dsimp only
  rw [if_pos (.inl (hsame.mpr (.inl hstart)))]
  exact ⟨hold, hid, rfl, rfl⟩

/-- A Cache Response with another identifier. -/
theorem response_refused {s : RtrState} (htype : pdu.pduType = .cacheResponse)
    (hstart : s.client.startup = false) (hne : pdu.sessionID ≠ s.client.sessionID)
    (hsent : s.client.lastSent ≠ .cacheReset) :
    (s.handlePdu pdu t).client.sessionID = s.client.sessionID ∧
      (s.handlePdu pdu t).keepGoing = false ∧ (s.handlePdu pdu t).errCode = .corruptData := by
  obtain ⟨-, hid, hlast, hsame⟩ := checkSessionID_spec s.client pdu.sessionID
  rw [hstart, if_neg Bool.false_ne_true] at hid
  unfold handlePdu
  rw [htype]
  dsimp only
  rw [if_neg]
  · exact ⟨hid, rfl, rfl⟩
  · rintro (h | h)
    · rcases hsame.mp h with h | h
      · rw [hstart] at h
        cases h
      · exact hne h.symm
    · exact hsent (hlast ▸ h)

/-- End of Data with the identifier of the client. -/
theorem endOfData_own {s : RtrState} (hstart : s.client.startup = false)
    (hid : s.client.sessionID = pdu.sessionID) :
    (s.handlePdu pdu t).client.sessionID = pdu.sessionID :=
  ((handled_handlePdu s pdu t).startup hstart).2.trans hid

end Turn

/-! ## The invariant -/

/-- No PDU is read any more before the next connection. -/
def Over (th : RtrThread) : Prop :=
  th.phase = .check ∨ th.phase = .ended ∨
    (th.phase = .receiving ∧ (th.rtr.running = true → th.rtr.keepGoing = false))

/-- A call of `receivePDUs` is going on, or was the last action. -/
def Active (phase : Phase) : Prop := phase = .handshake ∨ phase = .receiving ∨ phase = .reloading

/-- The invariant of the thread. An identifier that was accepted is that of the client, and after one
that was refused no PDU is read. -/
structure Inv (th : RtrThread) : Prop where
  running : th.rtr.running = true → Active th.phase
  sent : Active th.phase → th.rtr.client.lastSent ≠ .cacheReset
  rule : SessionRule th.session
  accepted : ∀ r, .response r ∈ th.session → r.id ≠ r.own → r.accepted = true →
    th.rtr.client.startup = false ∧ th.rtr.client.sessionID = r.id
  refused : Refused th.session → Over th

section Steps

variable {th th' : RtrThread}

/-- An action without events. -/
theorem Inv.of_same (hinv : Inv th) (hsession : th'.session = th.session)
    (hclient : th'.rtr.client.startup = th.rtr.client.startup ∧
      th'.rtr.client.sessionID = th.rtr.client.sessionID)
    (hrunning : th'.rtr.running = true → Active th'.phase)
    (hsent : Active th'.phase → th'.rtr.client.lastSent ≠ .cacheReset)
    (hover : Over th → Over th') : Inv th' where
  running := hrunning
  sent := hsent
  rule := hsession ▸ hinv.rule
  accepted r hr hne hacc := by
    rw [hsession] at hr
    rw [hclient.1, hclient.2]
    exact hinv.accepted r hr hne hacc
  refused hrefused := hover (hinv.refused (hsession ▸ hrefused))

/-- Any event but a Cache Response. -/
theorem inv_event (hinv : Inv th) (e : SessionEvent)
    (hpayload : e.payload = true → ¬ Refused th.session) (hnot : ∀ r, e ≠ .response r)
    (hend : ∀ id processed, e = .endOfData id processed → ∀ r, .response r ∈ th.session →
      r.id ≠ r.own → r.accepted = true → r.id = id → processed = true) :
    Inv (th.note (some e)) := by
  have hmem {r : Response} (hr : SessionEvent.response r ∈ e :: th.session) :
      .response r ∈ th.session := by
    rcases List.mem_cons.mp hr with heq | hr
    · exact absurd heq.symm (hnot r)
    · exact hr
  refine ⟨hinv.running, hinv.sent, sessionRule_cons hinv.rule (fun r he => absurd he (hnot r))
    hpayload hend, fun r hr => hinv.accepted r (hmem hr), ?_⟩
  rintro ⟨r, hr, hrefused⟩
  exact hinv.refused ⟨r, hmem hr, hrefused⟩

/-- A query leaves the session as it is. -/
theorem inv_query (hinv : Inv th) {rtr : RtrState} (pduType : RtrPduType)
    (hclient : rtr.client.startup = th.rtr.client.startup ∧
      rtr.client.sessionID = th.rtr.client.sessionID)
    (hrunning : rtr.running = th.rtr.running) (hkeep : rtr.keepGoing = th.rtr.keepGoing)
    (hsent : Active th.phase → rtr.client.lastSent ≠ .cacheReset) (sent : Bool) :
    Inv ({ th with rtr := rtr }.note (if sent then some (.query pduType) else none)) := by
  have hsame : Inv { th with rtr := rtr } := by
    refine hinv.of_same rfl hclient (fun h => hinv.running (hrunning ▸ h)) hsent fun hover => ?_
    rcases hover with h | h | ⟨h, hk⟩
    · exact .inl h
    · exact .inr (.inl h)
    · exact .inr (.inr ⟨h, fun hr => hkeep.trans (hk (hrunning ▸ hr))⟩)
  cases sent with
  | false => exact hsame
  | true =>
    exact inv_event hsame _ (fun he => nomatch he) (fun _ he => nomatch he) fun _ _ he => nomatch he

theorem inv_sendQuery (hinv : Inv th) (serial sent : Bool) : Inv (th.sendQuery serial sent) := by
  have hsession (pduType : RtrPduType) := sendPDU_session th.rtr pduType sent
  cases serial with
  | true =>
    obtain ⟨hrunning, hkeep, hstart, hid, hlast⟩ := hsession .serialQuery
    refine inv_query hinv .serialQuery ⟨hstart, hid⟩ hrunning hkeep (fun hactive => ?_) _
    rcases hlast with heq | heq
    · rw [heq]
      exact hinv.sent hactive
    · rw [heq]
      simp
  | false =>
    obtain ⟨hrunning, hkeep, hstart, hid, hlast⟩ := hsession .resetQuery
    refine @inv_query th hinv (th.rtr.sendResetQuery sent) .resetQuery ⟨hstart, hid⟩ hrunning hkeep
      (fun hactive => ?_) _
    show (th.rtr.sendPDU .resetQuery sent).client.lastSent ≠ _
    rcases hlast with heq | heq
    · rw [heq]
      exact hinv.sent hactive
    · rw [heq]
      simp

/-- A reset query and a call of `receivePDUs`. -/
theorem inv_receive (hinv : Inv th) (hphase : th.phase = .start ∨ th.phase = .reload) {sent : Bool}
    (hsend : th.canSend sent = true) {phase : Phase} (hactive : Active phase) (after single mem : Bool) :
    Inv ((th.sendQuery false sent).receivePDUs phase after single mem) := by
  have hsent := inv_sendQuery hinv false sent
  have hnote : (th.sendQuery false sent).phase = th.phase := by
    unfold RtrThread.sendQuery
    rw [hsend]
    rfl
  refine hsent.of_same rfl ⟨rfl, rfl⟩ (fun _ => hactive) (fun _ => ?_) fun hover => ?_
  · have hlast : ((th.sendQuery false sent).rtr).client.lastSent = .resetQuery := by
      unfold RtrThread.canSend at hsend
      obtain ⟨hsocket, rfl⟩ := (Bool.and_eq_true ..).mp hsend
      obtain ⟨blocks, hblocks⟩ := Option.isSome_iff_exists.mp hsocket
      simp [RtrThread.sendQuery, RtrThread.canSend, RtrThread.note, RtrState.sendResetQuery,
        RtrState.sendPDU, hblocks]
    show ((th.sendQuery false sent).rtr).client.lastSent ≠ _
    rw [hlast]
    simp
  · unfold Over at hover
    rw [hnote] at hover
    rcases hphase with h | h
    · simp [h] at hover
    · simp [h] at hover

/-- The end of the loop, or no turn at all. -/
theorem step_turn_end {s : RtrState} (hnot : ¬ s.Polls) (t : Turn) :
    ((s.step (.turn t)).running = true → s.running = true ∧ (s.step (.turn t)).keepGoing = s.keepGoing) ∧
      (s.step (.turn t)).client.startup = s.client.startup ∧
      (s.step (.turn t)).client.sessionID = s.client.sessionID ∧
      ((s.step (.turn t)).client.lastSent = .cacheReset → s.client.lastSent = .cacheReset) := by
  have hstep : s.step (.turn t) = if s.running then s.finish t else s := by
    show (if s.running then if s.keepGoing && !s.client.stop then s.turn t else s.finish t else s) = _
    cases hrunning : s.running with
    | false => rfl
    | true =>
      rw [if_pos rfl, if_pos rfl, if_neg fun h => hnot ⟨hrunning, h⟩]
  rw [hstep]
  cases hrunning : s.running with
  | false => exact ⟨fun h => by simp [hrunning] at h, rfl, rfl, id⟩
  | true =>
    rw [if_pos rfl]
    unfold finish
    dsimp only
    split
    · obtain ⟨hr, -, hstart, hid, hlast⟩ := sendPDU_session
        { s with
          running := false
          errCode := if s.errCode = .memoryError ∨ s.errCode = .socketError then .internalError
            else s.errCode } .errorReport t.sent
      refine ⟨fun h => ?_, hstart, hid, fun h => ?_⟩
      · rw [hr] at h
        cases h
      · rcases hlast with heq | heq
        · exact heq.symm.trans h
        · rw [heq] at h
          cases h
    · exact ⟨fun h => (by cases h), rfl, rfl, id⟩

/-- A Cache Response, when nothing was refused before. -/
theorem inv_response (hinv : Inv th) (hclean : ¬ Refused th.session) (r : Response)
    (hrule : r.id ≠ r.own → (r.accepted = true ↔ r.lastQuery = some .resetQuery) ∧
      (r.accepted = false → r.corrupt = true))
    (hacc : r.id ≠ r.own → r.accepted = true →
      th.rtr.client.startup = false ∧ th.rtr.client.sessionID = r.id)
    (hover : r.id ≠ r.own → r.accepted = false → Over th) :
    Inv (th.note (some (.response r))) := by
  refine ⟨hinv.running, hinv.sent, sessionRule_cons hinv.rule ?_ (fun he => nomatch he)
    (fun _ _ he => nomatch he), fun r' hr => ?_, ?_⟩
  · intro r' he
    obtain rfl := SessionEvent.response.inj he
    exact hrule
  · rcases List.mem_cons.mp hr with heq | hr
    · obtain rfl := SessionEvent.response.inj heq
      exact hacc
    · exact hinv.accepted r' hr
  · rintro ⟨r', hr, hne, hnot⟩
    rcases List.mem_cons.mp hr with heq | hr
    · obtain rfl := SessionEvent.response.inj heq
      exact hover hne hnot
    · exact absurd ⟨r', hr, hne, hnot⟩ hclean

/-- While the loop goes on nothing was refused. -/
theorem not_refused_of_polls (hinv : Inv th) (hpolls : th.rtr.Polls) : ¬ Refused th.session := by
  intro hrefused
  have hactive := hinv.running hpolls.1
  rcases hinv.refused hrefused with h | h | ⟨-, hk⟩
  · rcases hactive with h' | h' | h' <;> simp [h] at h'
  · rcases hactive with h' | h' | h' <;> simp [h] at h'
  · have hgoes := hpolls.2
    simp [hk hpolls.1] at hgoes

/-- A turn with a PDU at the switch. -/
theorem inv_handled (hinv : Inv th) (hpolls : th.rtr.Polls) {s : RtrState} {pdu : RtrPdu} {t : Turn}
    (hswitch : th.rtr.atSwitch t = some (s, pdu))
    (hplace : pdu.pduType = .cacheResponse → pdu.sessionID ≠ s.client.sessionID →
      (s.client.startup = true ↔ th.lastQuery = some .resetQuery) ∧
        (s.client.startup = false → th.phase = .receiving)) :
    Inv ({ th with rtr := th.rtr.turn t }.note (s.eventOf pdu t th.lastQuery)) := by
  obtain ⟨hsession, hrunning, hturn⟩ := atSwitch_some hswitch
  obtain ⟨hstart, hid, hlast⟩ : s.client.startup = th.rtr.client.startup ∧
      s.client.sessionID = th.rtr.client.sessionID ∧ s.client.lastSent = th.rtr.client.lastSent := by
    simpa [sessionOf] using hsession
  obtain ⟨hrunning', hkept, hsent'⟩ := handled_handlePdu s pdu t
  have hactive := hinv.running hpolls.1
  have hlastSent : s.client.lastSent ≠ .cacheReset := hlast ▸ hinv.sent hactive
  have hclean := not_refused_of_polls hinv hpolls
  have haccepted : ∀ r, .response r ∈ th.session → r.id ≠ r.own → r.accepted = true →
      s.client.startup = false ∧ s.client.sessionID = r.id := by
    rw [hstart, hid]
    exact hinv.accepted
  rw [hturn]
  obtain ⟨rtr, hrtr⟩ : ∃ rtr, rtr = { s.handlePdu pdu t with client.lastRecv := pdu.pduType } := ⟨_, rfl⟩
  have hbase : Inv { th with rtr := rtr } := by
    refine ⟨fun _ => hactive, fun _ hbad => ?_, hinv.rule, fun r hr hne hacc => ?_,
      fun hrefused => absurd hrefused hclean⟩
    · rw [hrtr] at hbad
      exact hlastSent (hsent' hbad)
    · obtain ⟨hs, hi⟩ := haccepted r hr hne hacc
      rw [hrtr]
      exact ⟨(hkept hs).1, (hkept hs).2.trans hi⟩
  rw [← hrtr]
  have hother (e : SessionEvent) := inv_event hbase e fun _ => hclean
  unfold eventOf
  cases htype : pdu.pduType with
  | serialNotify =>
    dsimp only
    split
    · exact hother _ (fun _ he => nomatch he) fun _ _ he => nomatch he
    · exact hbase
  | cacheReset =>
    dsimp only
    split
    · exact hother _ (fun _ he => nomatch he) fun _ _ he => nomatch he
    · exact hbase
  | endOfData =>
    refine hother _ (fun _ he => nomatch he) fun id processed he r hr hne hacc hrid => ?_
    obtain ⟨rfl, rfl⟩ := SessionEvent.endOfData.inj he
    obtain ⟨hs, hi⟩ := haccepted r hr hne hacc
    exact decide_eq_true (endOfData_own hs (hi.trans hrid))
  | cacheResponse =>
    dsimp only
    refine inv_response hbase hclean _ (fun hne => ?_) (fun hne hacc => ?_) (fun hne hnot => ?_)
    · obtain ⟨hquery, -⟩ := hplace htype hne
      cases hstarted : s.client.startup with
      | true =>
        obtain ⟨-, hid', hk', he'⟩ := @response_startup pdu t s htype hstarted
        have hacc := decide_eq_true (show _ ∧ _ ∧ _ from ⟨hid', hk', he'⟩)
        exact ⟨iff_of_true hacc (hquery.mp hstarted), fun hnot => by simp [hacc] at hnot⟩
      | false =>
        obtain ⟨hid', hk', he'⟩ := @response_refused pdu t s htype hstarted hne hlastSent
        refine ⟨iff_of_false (fun hacc => ?_) fun hreset => ?_, fun _ => decide_eq_true ⟨hk', he'⟩⟩
        · exact hne ((of_decide_eq_true hacc).1.symm.trans hid')
        · have := hquery.mpr hreset
          simp [hstarted] at this
    · rw [hrtr]
      cases hstarted : s.client.startup with
      | true =>
        obtain ⟨hs', hid', -⟩ := @response_startup pdu t s htype hstarted
        exact ⟨hs', hid'⟩
      | false =>
        obtain ⟨hid', -⟩ := @response_refused pdu t s htype hstarted hne hlastSent
        exact absurd ((of_decide_eq_true hacc).1.symm.trans hid') hne
    · obtain ⟨-, hreceiving⟩ := hplace htype hne
      cases hstarted : s.client.startup with
      | true =>
        obtain ⟨-, hid', hk', he'⟩ := @response_startup pdu t s htype hstarted
        exact absurd ⟨hid', hk', he'⟩ (of_decide_eq_false hnot)
      | false =>
        obtain ⟨-, hk', -⟩ := @response_refused pdu t s htype hstarted hne hlastSent
        refine .inr (.inr ⟨hreceiving hstarted, fun _ => ?_⟩)
        show rtr.keepGoing = false
        rw [hrtr]
        exact hk'
  | ipv4Prefix => exact hother _ (fun _ he => nomatch he) fun _ _ he => nomatch he
  | ipv6Prefix => exact hother _ (fun _ he => nomatch he) fun _ _ he => nomatch he
  | _ =>
    dsimp only
    split
    · exact hother _ (fun _ he => nomatch he) fun _ _ he => nomatch he
    · exact hbase

/-- A turn of the loop, or its end. -/
theorem inv_turn (hinv : Inv th) (hactive : Active th.phase) {t : Turn}
    (hplace : th.rtr.Polls → ∀ x ∈ th.rtr.atSwitch t,
      x.2.pduType = .cacheResponse → x.2.sessionID ≠ x.1.client.sessionID →
        (x.1.client.startup = true ↔ th.lastQuery = some .resetQuery) ∧
          (x.1.client.startup = false → th.phase = .receiving)) : Inv (th.turn t) := by
  unfold RtrThread.turn
  by_cases hpolls : th.rtr.Polls
  · have hstep : th.rtr.step (.turn t) = th.rtr.turn t := by
      show (if th.rtr.running then _ else _) = _
      rw [if_pos hpolls.1, if_pos hpolls.2]
    rw [if_pos hpolls, hstep]
    cases hswitch : th.rtr.atSwitch t with
    | none =>
      obtain ⟨hsession, hrunning⟩ := atSwitch_none hswitch
      obtain ⟨hstart, hid, hlast⟩ : (th.rtr.turn t).client.startup = th.rtr.client.startup ∧
          (th.rtr.turn t).client.sessionID = th.rtr.client.sessionID ∧
            (th.rtr.turn t).client.lastSent = th.rtr.client.lastSent := by
        simpa [sessionOf] using hsession
      refine hinv.of_same rfl ⟨hstart, hid⟩ (fun _ => hactive) (fun _ => ?_) fun hover => ?_
      · show (th.rtr.turn t).client.lastSent ≠ _
        rw [hlast]
        exact hinv.sent hactive
      · rcases hover with h | h | ⟨-, hk⟩
        · exact .inl h
        · exact .inr (.inl h)
        · have hgoes := hpolls.2
          simp [hk hpolls.1] at hgoes
    | some out =>
      obtain ⟨s, pdu⟩ := out
      exact inv_handled hinv hpolls hswitch (hplace hpolls (s, pdu) hswitch)
  · rw [if_neg hpolls]
    obtain ⟨hrunning, hstart, hid, hlast⟩ := step_turn_end hpolls t
    refine hinv.of_same rfl ⟨hstart, hid⟩ (fun _ => hactive)
      (fun _ hbad => hinv.sent hactive (hlast hbad)) fun hover => ?_
    rcases hover with h | h | ⟨h, hk⟩
    · exact .inl h
    · exact .inr (.inl h)
    · refine .inr (.inr ⟨h, fun hr => ?_⟩)
      obtain ⟨hold, hkeep⟩ := hrunning hr
      exact hkeep.trans (hk hold)

theorem inv_setStop (hinv : Inv th) (stop : Bool) : Inv (th.setStop stop) :=
  hinv.of_same rfl ⟨rfl, rfl⟩ hinv.running hinv.sent fun hover => hover

/-- The phase changes between two calls of `receivePDUs`. -/
theorem inv_phase (hinv : Inv th) (hrunning : th.rtr.running = false) {phase : Phase}
    (hnot : ¬ Active phase) (hover : Over th → phase = .check ∨ phase = .ended) :
    Inv { th with phase := phase } := by
  refine hinv.of_same rfl ⟨rfl, rfl⟩ (fun h => ?_) (fun h => absurd h hnot) fun h => ?_
  · rw [show th.rtr.running = true from h] at hrunning
    cases hrunning
  · rcases hover h with h | h
    · exact .inl h
    · exact .inr (.inl h)

theorem not_active {phase : Phase} (h : phase ≠ .handshake ∧ phase ≠ .receiving ∧ phase ≠ .reloading) :
    ¬ Active phase := by
  rintro (rfl | rfl | rfl) <;> simp at h

theorem Inv.not_running (hinv : Inv th) (h : ¬ Active th.phase) : th.rtr.running = false := by
  rw [← Bool.not_eq_true]
  exact fun hrunning => h (hinv.running hrunning)

/-- The switch behind the first call. -/
theorem inv_afterHandshake (hinv : Inv th) (hphase : th.phase = .handshake)
    (hrunning : th.rtr.running = false) (mem : Bool) : Inv (th.afterHandshake mem) := by
  have hcheck (th' : RtrThread) (hinv' : Inv th') (hrunning' : th'.rtr.running = false) :
      Inv { th' with phase := .check } :=
    inv_phase hinv' hrunning' (not_active (by simp)) fun _ => .inl rfl
  have hstop (stop : Bool) : Inv { th.setStop stop with phase := .check } :=
    hcheck _ (inv_setStop hinv stop) hrunning
  unfold RtrThread.afterHandshake
  split
  · refine hinv.of_same rfl ⟨rfl, rfl⟩ (fun _ => .inr (.inl rfl))
      (fun _ => hinv.sent (.inl hphase)) fun hover => ?_
    unfold Over at hover
    simp [hphase] at hover
  · split
    · exact hstop _
    · have hcount : Inv { th with errCount := th.errCount + 1, phase := .check } :=
        hcheck { th with errCount := th.errCount + 1 }
          (hinv.of_same rfl ⟨rfl, rfl⟩ hinv.running hinv.sent fun hover => hover) hrunning
      dsimp only
      split
      · exact inv_setStop hcount true
      · exact hcount
  · exact hstop true

theorem phase_sendQuery (th : RtrThread) (serial sent : Bool) :
    (th.sendQuery serial sent).phase = th.phase ∧
      (th.sendQuery serial sent).rtr.running = th.rtr.running := by
  have hreset := (sendPDU_session th.rtr .resetQuery sent).1
  have hserial := (sendPDU_session th.rtr .serialQuery sent).1
  unfold RtrThread.sendQuery RtrThread.note
  cases serial with
  | true => cases th.canSend sent <;> exact ⟨rfl, hserial⟩
  | false => cases th.canSend sent <;> exact ⟨rfl, hreset⟩

/-- An action of the thread. -/
theorem inv_advance (hinv : Inv th) (env : Env) (hplace : th.ResponseInPlace (.advance env)) :
    Inv (th.advance env) := by
  have hended (th' : RtrThread) (hinv' : Inv th') (hrunning : th'.rtr.running = false) :
      Inv { th' with phase := .ended } :=
    inv_phase hinv' hrunning (not_active (by simp)) fun _ => .inr rfl
  unfold RtrThread.advance
  split
  · next hphase =>
    have hrunning := hinv.not_running (not_active (by simp [hphase]))
    split
    · exact hended th hinv hrunning
    · split
      · next hsend => exact inv_receive hinv (.inl hphase) hsend (.inl rfl) _ _ _
      · exact inv_phase (inv_sendQuery hinv _ _) ((phase_sendQuery ..).2.trans hrunning)
          (not_active (by simp)) fun _ => .inl rfl
  · next hphase =>
    split
    · exact inv_turn hinv (.inl hphase) hplace
    · next hrunning => exact inv_afterHandshake hinv hphase (by simpa using hrunning) _
  · next hphase =>
    split
    · exact inv_turn hinv (.inr (.inl hphase)) hplace
    · next hrunning =>
      have hrunning : th.rtr.running = false := by simpa using hrunning
      have hcheck {th' : RtrThread} (hinv' : Inv th') (hrunning' : th'.rtr.running = false) :
          Inv { th' with phase := .check } :=
        inv_phase hinv' hrunning' (not_active (by simp)) fun _ => .inl rfl
      split
      · exact hcheck (inv_setStop hinv true) hrunning
      · exact hcheck hinv hrunning
  · next hphase =>
    have hrunning := hinv.not_running (not_active (by simp [hphase]))
    split
    · exact hended th hinv hrunning
    · split
      · exact hended _ (inv_setStop hinv true) hrunning
      · -- A new connection.
        next blocks _ =>
        have hphase' : ¬ Active (if th.rtr.client.sessionIDChanged then Phase.reload else .start) := by
          split
          · exact not_active (by simp)
          · exact not_active (by simp)
        refine ⟨fun h => ?_, fun h => absurd h hphase', sessionRule_nil,
          fun r hr => absurd hr List.not_mem_nil, fun ⟨r, hr, _⟩ => absurd hr List.not_mem_nil⟩
        rw [show th.rtr.running = true from h] at hrunning
        cases hrunning
  · next hphase =>
    have hrunning := hinv.not_running (not_active (by simp [hphase]))
    split
    · next hsend => exact inv_receive hinv (.inr hphase) hsend (.inr (.inr rfl)) _ _ _
    · refine inv_phase (inv_sendQuery hinv _ _) ((phase_sendQuery ..).2.trans hrunning)
        (not_active (by simp)) fun hover => ?_
      unfold Over at hover
      simp [(phase_sendQuery th false env.sent).1, hphase] at hover
  · next hphase =>
    split
    · exact inv_turn hinv (.inr (.inr hphase)) hplace
    · next hrunning =>
      refine inv_phase hinv (by simpa using hrunning) (not_active (by simp)) fun hover => ?_
      unfold Over at hover
      simp [hphase] at hover
  · exact hinv

theorem inv_step (hinv : Inv th) (op : RtrThread.Op) (hplace : th.ResponseInPlace op) :
    Inv (th.step op) := by
  cases op with
  | advance env => exact inv_advance hinv env hplace
  | sendQuery serial sent => exact inv_sendQuery hinv serial sent
  | stop => exact inv_setStop hinv true

theorem inv_initial (params : RtrParams) (lastSent lastRecv : RtrPduType) (serial : UInt32)
    (stopAfterEndOfData : Bool) (blocks : List Bytes) :
    Inv (RtrThread.initial params lastSent lastRecv serial stopAfterEndOfData blocks) where
  running h := nomatch h
  sent h := absurd h (not_active (by simp [RtrThread.initial]))
  rule := sessionRule_nil
  accepted r hr := absurd hr List.not_mem_nil
  refused h := by
    obtain ⟨r, hr, -⟩ := h
    exact absurd hr List.not_mem_nil

end Steps

end SessionLemmas

/-! ## Results -/

namespace RtrThread

open SessionLemmas

/-- An action that makes a connection. -/
def reconnect (blocks : List Bytes) : Op := .advance ⟨true, true, ⟨true, true, true⟩, some blocks⟩

end RtrThread

end SrxSuite.Server

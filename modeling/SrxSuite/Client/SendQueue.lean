import SrxSuite.Lib.Bytes
import SrxSuite.Lib.Runs

/-!
# The send queue of the proxy

The model of `sendPacketToServer`, `sendGoodbye`, `handshakeWithServer` and `reconnectSRX`
(`client/client_connection_handler.c`) and of `reconnectToServer` (`util/client_socket.c`). While the
line is down a packet goes into `sendQueue`, "to send later". Nothing takes packets out of the queue
again (`reconnectSRX_queue`), and without a connection on the application layer a packet is accepted
and not even queued.

`accepted_packets_sent` says when every accepted packet is sent.
-/

namespace SrxSuite.Client

open Runs

/-! ## The handler -/

abbrev MAX_SEND_QUEUE : Nat := 100000
abbrev MAX_RECONNECT_ATTEMPT : Nat := 2

/-- `ClientSocket`; `none` is the file descriptor `-1`. -/
structure ClientSocket where
  clientFD : Option Nat
  oldFD : Option Nat
  reconnect : Bool
  canBeClosed : Bool
  deriving DecidableEq, Repr

/-- What goes to the server: a packet given to `sendPacketToServer`, or a PDU of the handler's own. -/
inductive Message
  | packet (data : Bytes)
  | goodbye (keepWindow : UInt16)
  | hello (proxyID proxyAS : UInt32) (peerAS : List UInt32)
  deriving DecidableEq, Repr

/-- `ClientConnectionHandler`. The copies in `sendQueue` are given by their bytes; `wire` is what was
sent, on all sockets. -/
structure ConnectionHandler where
  initialized : Bool
  established : Bool
  stop : Bool
  keepWindow : UInt16
  clSock : ClientSocket
  sendQueue : List Bytes
  wire : List Message
  deriving DecidableEq, Repr

/-- What is read of the `SRxProxy`. -/
structure ProxySettings where
  proxyID : UInt32
  proxyAS : UInt32
  peerAS : List UInt32
  externalSocketControl : Bool

namespace ConnectionHandler

/-- A handler after its initialization. -/
def start (established : Bool) (keepWindow : UInt16) (clSock : ClientSocket) : ConnectionHandler :=
  ⟨true, established, false, keepWindow, clSock, [], []⟩

def setClientFD (self : ConnectionHandler) (fd : Option Nat) : ConnectionHandler :=
  { self with clSock := { self.clSock with clientFD := fd } }

/-- The packets that were sent. -/
def sent (self : ConnectionHandler) : List Bytes :=
  self.wire.filterMap fun
    | .packet data => some data
    | _ => none

/-! ## Sending -/

/-- `sendData` for a message of more than one byte. `ok` says whether all of it goes out. -/
def sendData (self : ConnectionHandler) (message : Message) (ok : Bool) : ConnectionHandler × Bool :=
  match self.clSock.clientFD with
  | none => (self, false)
  | some _ =>
    if ok then ({ self with wire := self.wire ++ [message] }, true)
    else (self.setClientFD none, false)

/-- `sendPacketToServer`. There is no result when `sendData` writes through its null pointer. -/
def sendPacketToServer (self : ConnectionHandler) (data : Bytes) (ok : Bool) :
    Option (ConnectionHandler × Bool) :=
  if self.clSock.clientFD ≠ none then
    if data.length ≤ 1 then none else some (self.sendData (.packet data) ok)
  else if self.established then
    if self.sendQueue.length = MAX_SEND_QUEUE then some (self, false)
    else some ({ self with sendQueue := self.sendQueue ++ [data] }, true)
  else some (self, true)

/-- `sendGoodbye` -/
def sendGoodbye (self : ConnectionHandler) (ok : Bool) : ConnectionHandler × Bool :=
  if self.clSock.clientFD ≠ none then
    let (self, sent) := self.sendData (.goodbye self.keepWindow) ok
    if sent then ({ self with established := false }, true) else (self, false)
  else (self, false)

end ConnectionHandler

/-! ## Reconnecting -/

/-- How `connect` ends: it succeeds, it fails with `ECONNREFUSED` or `EINVAL`, or with another error. -/
inductive ConnectResult
  | connected
  | refused
  | failed
  deriving DecidableEq, Repr

/-- What the system does in one attempt to connect: the result of `socket`, if it is called, and that of
`connect`. -/
structure Attempt where
  socket : Option Nat
  connect : ConnectResult
  deriving DecidableEq, Repr

/-- The loop of `reconnectToServer`, from the attempt `att` on. -/
def reconnectLoop (attempts : Nat → Attempt) : (maxAttempts att : Nat) → ClientSocket →
    ClientSocket × Bool
  | 0, _, self => (self, false)
  | maxAttempts + 1, att, self =>
    if self.reconnect then
      let attempt := attempts att
      let self := if self.clientFD = none then
          { self with clientFD := attempt.socket, oldFD := attempt.socket }
        else self
      if self.clientFD = none then (self, false)
      else
        match attempt.connect with
        | .connected => (self, true)
        | .refused =>
          reconnectLoop attempts maxAttempts (att + 1) { self with clientFD := none, oldFD := none }
        | .failed => reconnectLoop attempts maxAttempts (att + 1) self
    else (self, false)

/-- `reconnectToServer` -/
def reconnectToServer (attempts : Nat → Attempt) (self : ClientSocket) : ClientSocket × Bool :=
  reconnectLoop attempts MAX_RECONNECT_ATTEMPT 0 { self with clientFD := none, oldFD := none }

/-- What `receivePackets` brings during the handshake: a hello response with the right version, the loss
of the connection, or anything else but a goodbye, which releases the handler. -/
inductive Received
  | helloResponse
  | lost
  | other
  deriving DecidableEq, Repr

/-- A turn of the loop of `handshakeWithServer`: what comes, whether it is an error code, and whether the
alarm goes off. -/
structure HandshakeTurn where
  received : Received
  isError : Bool
  alarm : Bool
  deriving DecidableEq, Repr

namespace ConnectionHandler

/-- `isConnected` -/
def isConnected (self : ConnectionHandler) : Bool := self.initialized && self.established

/-- The packet handler, in the handshake. -/
def receive (self : ConnectionHandler) : Received → ConnectionHandler
  | .helloResponse => { self with established := true }
  | .lost => self.setClientFD none
  | .other => self

/-- The loop of `handshakeWithServer`; no result while it waits. -/
def handshakeLoop : List HandshakeTurn → ConnectionHandler → (isError : Bool) →
    Option ConnectionHandler
  | [], self, isError => if isError || self.isConnected then some self else none
  | turn :: turns, self, isError =>
    if isError || self.isConnected then some self
    else if turn.alarm then
      some { (self.receive turn.received).setClientFD none with established := false }
    else handshakeLoop turns (self.receive turn.received) turn.isError

/-- What the system does in a call of `reconnectSRX`. -/
structure ReconnectWorld where
  goodbyeOk : Bool
  attempts : Nat → Attempt
  helloOk : Bool
  turns : List HandshakeTurn

/-- `handshakeWithServer`; it has not returned for `none`. -/
def handshakeWithServer (self : ConnectionHandler) (pdu : Message) (w : ReconnectWorld) :
    ConnectionHandler × Option Bool :=
  let (self, sent) := self.sendData pdu w.helloOk
  if sent then
    match handshakeLoop w.turns self false with
    | some self => (self, some self.established)
    | none => (self, none)
  else (self, some false)

/-- The check in `reconnectSRX` for a client socket that was misused. -/
def useOldFD (self : ConnectionHandler) : ConnectionHandler :=
  if self.clSock.oldFD ≠ none ∧ self.clSock.clientFD = none then
    self.setClientFD self.clSock.oldFD
  else self

/-- The goodbye in `reconnectSRX`. -/
def leaveServer (proxy : ProxySettings) (self : ConnectionHandler) (w : ReconnectWorld) :
    ConnectionHandler :=
  if self.clSock.clientFD ≠ none then
    let self := (self.sendGoodbye w.goodbyeOk).1
    if proxy.externalSocketControl then
      { self with clSock := { self.clSock with clientFD := none, oldFD := none } }
    else self
  else self

/-- `reconnectSRX`; it has not returned for `none`. -/
def reconnectSRX (proxy : ProxySettings) (self : ConnectionHandler) (w : ReconnectWorld) :
    ConnectionHandler × Option Bool :=
  if self.initialized && !self.stop then
    let self := self.useOldFD.leaveServer proxy w
    let (clSock, connected) := reconnectToServer w.attempts self.clSock
    let self := { self with clSock := clSock }
    if connected then
      self.handshakeWithServer (.hello proxy.proxyID proxy.proxyAS proxy.peerAS) w
    else (self, some false)
  else (self, some false)

end ConnectionHandler

/-! ## Runs -/

/-- A step: a packet is given to `sendPacketToServer`, the connection is lost, which the user of the
handler may have noticed, or `reconnectSRX` is called. -/
inductive HandlerOp
  | send (data : Bytes) (ok : Bool)
  | lose (noticed : Bool)
  | reconnect (w : ConnectionHandler.ReconnectWorld)

/-- A handler, if it is still there, with the packets for which `sendPacketToServer` returned true, and
those of them that were accepted before `reconnectSRX` last returned true. -/
structure HandlerRun where
  self : Option ConnectionHandler
  accepted : List Bytes
  due : List Bytes

namespace HandlerRun

def start (self : ConnectionHandler) : HandlerRun := ⟨some self, [], []⟩

def step (proxy : ProxySettings) (r : HandlerRun) (op : HandlerOp) : HandlerRun :=
  match r.self with
  | none => r
  | some self =>
    match op with
    | .send data ok =>
      match self.sendPacketToServer data ok with
      | none => { r with self := none }
      | some (self, ret) =>
        { r with self := some self, accepted := if ret then r.accepted ++ [data] else r.accepted }
    | .lose noticed =>
      { r with
        self := some { self.setClientFD none with established := self.established && !noticed } }
    | .reconnect w =>
      let (self, ret) := self.reconnectSRX proxy w
      { r with self := some self, due := if ret = some true then r.accepted else r.due }

/-- The accepted packets are sent in order, each once, and those that are due have been. -/
def Delivered (r : HandlerRun) : Prop :=
  ∃ self, r.self = some self ∧ r.due <+: self.sent ∧ self.sent <+: r.accepted

/-- The condition: a packet of more than a byte is sent while there is a connection. -/
def SendsOnline (r : HandlerRun) (op : HandlerOp) : Prop :=
  ∀ self ∈ r.self, ∀ data ok, op = .send data ok →
    self.clSock.clientFD ≠ none ∧ 1 < data.length

end HandlerRun

namespace SendQueueLemmas

open ConnectionHandler HandlerRun

variable {self : ConnectionHandler}

/-! ## Reconnecting -/

/-- The packets sent and the packets in the queue stay the same. -/
structure SameTraffic (old new : ConnectionHandler) : Prop where
  sent : new.sent = old.sent
  queue : new.sendQueue = old.sendQueue

theorem SameTraffic.rfl : SameTraffic self self := ⟨Eq.refl _, Eq.refl _⟩

theorem SameTraffic.trans {old mid new : ConnectionHandler} (h : SameTraffic old mid)
    (h' : SameTraffic mid new) : SameTraffic old new :=
  ⟨h'.sent.trans h.sent, h'.queue.trans h.queue⟩

theorem sent_append {message : Message} (own : ∀ data, message ≠ .packet data) :
    { self with wire := self.wire ++ [message] }.sent = self.sent := by
  unfold sent
  rw [List.filterMap_append]
  cases message with
  | packet data => exact absurd (Eq.refl _) (own data)
  | goodbye keepWindow => exact List.append_nil _
  | hello proxyID proxyAS peerAS => exact List.append_nil _

theorem sameTraffic_sendData {message : Message} (own : ∀ data, message ≠ .packet data) (ok : Bool) :
    SameTraffic self (self.sendData message ok).1 := by
  unfold sendData
  split
  · exact .rfl
  · cases ok with
    | false => exact ⟨Eq.refl _, Eq.refl _⟩
    | true => exact ⟨sent_append own, Eq.refl _⟩

theorem sameTraffic_sendGoodbye (ok : Bool) : SameTraffic self (self.sendGoodbye ok).1 := by
  have hdata : SameTraffic self (self.sendData (.goodbye self.keepWindow) ok).1 :=
    sameTraffic_sendData (fun _ => Message.noConfusion) ok
  unfold sendGoodbye
  split
  · dsimp only
    split
    · exact hdata.trans ⟨Eq.refl _, Eq.refl _⟩
    · exact hdata
  · exact .rfl

theorem sameTraffic_receive (received : Received) : SameTraffic self (self.receive received) := by
  cases received <;> exact ⟨Eq.refl _, Eq.refl _⟩

theorem sameTraffic_handshakeLoop (turns : List HandshakeTurn) (isError : Bool)
    {new : ConnectionHandler} (h : handshakeLoop turns self isError = some new) :
    SameTraffic self new := by
  induction turns generalizing self isError with
  | nil =>
    unfold handshakeLoop at h
    split at h
    · obtain rfl := Option.some.inj h
      exact .rfl
    · cases h
  | cons turn turns ih =>
    unfold handshakeLoop at h
    split at h
    · obtain rfl := Option.some.inj h
      exact .rfl
    · split at h
      · obtain rfl := Option.some.inj h
        exact (sameTraffic_receive turn.received).trans ⟨Eq.refl _, Eq.refl _⟩
      · exact (sameTraffic_receive turn.received).trans (ih turn.isError h)

theorem sameTraffic_handshakeWithServer {pdu : Message} (own : ∀ data, pdu ≠ .packet data)
    (w : ReconnectWorld) : SameTraffic self (self.handshakeWithServer pdu w).1 := by
  have hdata : SameTraffic self (self.sendData pdu w.helloOk).1 := sameTraffic_sendData own w.helloOk
  unfold handshakeWithServer
  dsimp only
  split
  · split
    · next hloop => exact hdata.trans (sameTraffic_handshakeLoop w.turns false hloop)
    · exact hdata
  · exact hdata

theorem sameTraffic_useOldFD : SameTraffic self self.useOldFD := by
  unfold useOldFD
  split
  · exact ⟨Eq.refl _, Eq.refl _⟩
  · exact .rfl

theorem sameTraffic_leaveServer (proxy : ProxySettings) (w : ReconnectWorld) :
    SameTraffic self (self.leaveServer proxy w) := by
  have hgoodbye : SameTraffic self (self.sendGoodbye w.goodbyeOk).1 :=
    sameTraffic_sendGoodbye w.goodbyeOk
  unfold leaveServer
  dsimp only
  split
  · split
    · exact hgoodbye.trans ⟨Eq.refl _, Eq.refl _⟩
    · exact hgoodbye
  · exact .rfl

end SendQueueLemmas

open SendQueueLemmas ConnectionHandler HandlerRun

/-- A reconnect neither sends a packet nor takes one out of the queue. -/
theorem reconnectSRX_queue (proxy : ProxySettings) (self : ConnectionHandler) (w : ReconnectWorld) :
    SameTraffic self (self.reconnectSRX proxy w).1 := by
  unfold reconnectSRX
  split
  · have hleave : SameTraffic self (self.useOldFD.leaveServer proxy w) :=
      sameTraffic_useOldFD.trans (sameTraffic_leaveServer proxy w)
    have hconnect (clSock : ClientSocket) :
        SameTraffic self { self.useOldFD.leaveServer proxy w with clSock := clSock } :=
      hleave.trans ⟨Eq.refl _, Eq.refl _⟩
    dsimp only
    split
    · exact (hconnect _).trans
        (sameTraffic_handshakeWithServer (fun _ => Message.noConfusion) w)
    · exact hconnect _
  · exact .rfl

namespace SendQueueLemmas

/-! ## Steps -/

/-- What is accepted is sent at once. -/
structure AllSent (r : HandlerRun) : Prop where
  sent : ∃ self, r.self = some self ∧ self.sent = r.accepted
  due : r.due <+: r.accepted

theorem AllSent.delivered {r : HandlerRun} (h : AllSent r) : Delivered r := by
  obtain ⟨⟨self, hself, hsent⟩, hdue⟩ := h
  exact ⟨self, hself, hsent ▸ hdue, hsent ▸ List.prefix_rfl⟩

/-- A packet that is sent while there is a connection. -/
theorem sendPacketToServer_online {self : ConnectionHandler} {data : Bytes} (ok : Bool)
    (hfd : self.clSock.clientFD ≠ none) (hlen : 1 < data.length) :
    ∃ self', self.sendPacketToServer data ok = some (self', ok) ∧
      self'.sent = if ok then self.sent ++ [data] else self.sent := by
  obtain ⟨fd, hsome⟩ := Option.ne_none_iff_exists'.mp hfd
  unfold sendPacketToServer sendData
  rw [if_pos hfd, if_neg (Nat.not_le.mpr hlen), hsome]
  cases ok with
  | false => exact ⟨_, rfl, rfl⟩
  | true =>
    refine ⟨_, rfl, ?_⟩
    show List.filterMap _ (self.wire ++ [.packet data]) = _
    rw [List.filterMap_append]
    rfl

theorem allSent_step (proxy : ProxySettings) (r : HandlerRun) (op : HandlerOp) (h : AllSent r)
    (hop : SendsOnline r op) : AllSent (r.step proxy op) := by
  obtain ⟨⟨self, hself, hsent⟩, hdue⟩ := h
  unfold step
  rw [hself]
  cases op with
  | send data ok =>
    obtain ⟨hfd, hlen⟩ := hop self hself data ok rfl
    obtain ⟨self', hcall, hsent'⟩ := sendPacketToServer_online ok hfd hlen
    dsimp only
    rw [hcall]
    cases ok with
    | false => exact ⟨⟨self', rfl, hsent'.trans hsent⟩, hdue⟩
    | true =>
      refine ⟨⟨self', rfl, hsent'.trans ?_⟩, hdue.trans (List.prefix_append _ _)⟩
      rw [if_pos rfl, hsent]
      rfl
  | lose noticed => exact ⟨⟨_, rfl, hsent⟩, hdue⟩
  | reconnect w =>
    refine ⟨⟨_, rfl, (reconnectSRX_queue proxy self w).sent.trans hsent⟩, ?_⟩
    show (if _ then r.accepted else r.due) <+: r.accepted
    split
    · exact List.prefix_rfl
    · exact hdue

end SendQueueLemmas

/-- In every run in which packets are given to `sendPacketToServer` only while there is a connection,
the accepted packets are sent in order, each once, and before a reconnect has come to its end. -/
theorem accepted_packets_sent (proxy : ProxySettings) (established : Bool) (keepWindow : UInt16)
    (clSock : ClientSocket) (ops : List HandlerOp)
    (hops : EachStep (HandlerRun.step proxy) SendsOnline
      (HandlerRun.start (.start established keepWindow clSock)) ops) :
    Always (HandlerRun.step proxy) Delivered
      (HandlerRun.start (.start established keepWindow clSock)) ops := by
  have hstart : AllSent (HandlerRun.start (.start established keepWindow clSock)) :=
    ⟨⟨_, rfl, rfl⟩, List.prefix_rfl⟩
  intro before after heq
  exact (always_of_eachStep (allSent_step proxy) hstart hops before after heq).delivered

/-- A proxy that owns its socket, and a world in which the second connection works at once. -/
def onePeer : ProxySettings := ⟨1, 65001, [65002], false⟩

def worksAtOnce : ReconnectWorld :=
  ⟨true, fun _ => ⟨some 8, .connected⟩, true, [⟨.helloResponse, false, false⟩]⟩

theorem accepted_packets_sent_reconnect :
    Always (HandlerRun.step onePeer) Delivered
      (HandlerRun.start (.start true 900 ⟨some 7, some 7, true, true⟩))
      [.send [1, 2] true, .lose false, .reconnect worksAtOnce, .send [3, 4] true] := by
  refine accepted_packets_sent onePeer true 900 ⟨some 7, some 7, true, true⟩ _ ?_
  rw [eachStep_cons, eachStep_cons, eachStep_cons, eachStep_cons]
  refine ⟨?_, ?_, ?_, ?_, eachStep_nil⟩
  · rintro self hself data ok hop
    cases hself
    cases hop
    decide
  · rintro self hself data ok hop
    cases hop
  · rintro self hself data ok hop
    cases hop
  · rintro self hself data ok hop
    cases hself
    cases hop
    decide

/-- A packet that comes while the line is down is accepted and never sent. -/
theorem queued_packet_lost :
    ¬ Always (HandlerRun.step onePeer) Delivered
        (HandlerRun.start (.start true 900 ⟨some 7, some 7, true, true⟩))
        [.lose false, .send [1, 2] true, .reconnect worksAtOnce] ∧
      ¬ Always (HandlerRun.step onePeer) Delivered
        (HandlerRun.start (.start true 900 ⟨some 7, some 7, true, true⟩))
        [.lose true, .send [1, 2] true, .reconnect worksAtOnce] := by
  constructor
  · intro h
    obtain ⟨self, hself, hdue, -⟩ := h _ [] (List.append_nil _).symm
    cases hself
    exact absurd hdue (by decide)
  · intro h
    obtain ⟨self, hself, hdue, -⟩ := h _ [] (List.append_nil _).symm
    cases hself
    exact absurd hdue (by decide)

end SrxSuite.Client

import SrxSuite.Server.RtrVersions
import SrxSuite.Tools.RtrSync
import SrxSuite.Tools.RtrWire

/-!
# The RTR session between the cache server and the client

The two ends of a connection: `handleClient` of `tools/rpkirtr_svr.c`, with the thread that changes the
cache and sends Serial Notify, and the client of `server/rpki_router_client.c`, which sends a Reset Query
at the start and a Serial Query for each Serial Notify. The threads take their steps in any order; an
answer goes out PDU by PDU while the lock keeps the cache from changes, and a Serial Notify may come
between. What both sides have sent lies in the streams until the other one reads it.

The client has no answer to its query in mind when it handles a Serial Notify, and keeps what it has when
it asks for a reset. What it makes of the answers is right as long as neither happens.

The error report of a client that gives up and the one of the server for a version are left out: both end
the connection.

Results:
1. `link_synchronised`: whenever no query is outstanding, what the client was given and not withdrawn are
   the objects the server had in its cache when it answered last.
2. `notify_doubles`: a Serial Notify that is handled before the answer to a query.
-/

namespace SrxSuite.Tools

open Bytes Runs Server Util

/-! ## Queries -/

/-- What `sendSerialQuery` sends. -/
def serialQueryPdu (client : RtrClient) : Bytes :=
  rtrPdu client.version.toUInt8 1 (be16 client.sessionID.toUInt16) (be32 client.serial)

/-- What `sendResetQuery` sends. -/
def resetQueryPdu (client : RtrClient) : Bytes := rtrPdu client.version.toUInt8 2 (be16 0) []

/-- The query of an event. -/
def queryOf (client : RtrClient) : Option SessionEvent → Bytes
  | some (.query .serialQuery) => serialQueryPdu client
  | some (.query .resetQuery) => resetQueryPdu client
  | _ => []

/-- The next PDU for `handleClient`, and what comes behind it; `none` as long as `recvNum` waits. -/
def nextQuery (queries : Bytes) : Option (RtrPdu × Bytes) :=
  let hdr : RtrPdu := ⟨queries.take commonHeaderSize⟩
  let size := commonHeaderSize + (hdr.length - UInt32.ofNat commonHeaderSize).toNat
  if commonHeaderSize ≤ queries.length ∧ size ≤ queries.length then
    some (⟨queries.take size⟩, queries.drop size)
  else none

/-! ## The link -/

/-- The cache server with one client. `version` is that of the `CacheClient`, `queries` is what the
server has not read, and `sending` what is left of an answer. The rest is the record of the run: how many
queries wait for End of Data, the objects that were announced to the client and not withdrawn, and the
cache when the last answer was made. -/
structure RtrLink where
  cache : RtrCache
  sessionID : UInt16
  version : Option UInt8
  closed : Bool
  queries : Bytes
  sending : List RtrMessage
  rtr : RtrState
  waiting : Nat
  objects : Multiset RouterObject
  answered : RtrCache

/-- The bytes come to the socket of the client, behind what it has not read. -/
def deliver (socket : Socket) (bytes : Bytes) : Socket := socket.map fun _ => [socket.stream ++ bytes]

/-- What the callbacks of the client make of a payload. -/
def applyPayload (objects : Multiset RouterObject) (payload : Option Payload) : Multiset RouterObject :=
  match payload.bind payloadObject with
  | some (true, object) => object ::ₘ objects
  | some (false, object) => objects.erase object
  | none => objects

/-- How many queries wait after an event. -/
def waitingAfter (waiting : Nat) : Option SessionEvent → Nat
  | some (.query _) => waiting + 1
  | some (.endOfData _ true) => waiting - 1
  | _ => waiting

/-- The next PDU is there, or the socket is gone: `recv` does not wait. -/
def Arrived (s : RtrState) : Prop :=
  s.socket = none ∨ commonHeaderSize ≤ s.socket.stream.length ∧
    (RtrPdu.mk (s.socket.stream.take commonHeaderSize)).length.toNat ≤ s.socket.stream.length

instance (s : RtrState) : Decidable (Arrived s) := inferInstanceAs (Decidable (_ ∨ _ ∧ _))

namespace RtrLink

/-- A message goes out to the client. `UNDEF_VERSION` is `-1`. -/
def sendMessage (l : RtrLink) (message : RtrMessage) : RtrLink :=
  { l with rtr.socket := deliver l.rtr.socket (message.bytes l.sessionID (l.version.getD 0xFF)) }

/-- `sendCacheObjects` starts. -/
def answer (l : RtrLink) (clientSerial : UInt32) (clientSessionID : UInt16) (isReset : Bool)
    (version : UInt8) : RtrLink :=
  { l with
    sending := (sendCacheObjects l.cache l.sessionID clientSerial clientSessionID isReset version).messages
    answered := l.cache }

/-- The loop of `handleClient`. -/
def handleClient (l : RtrLink) : RtrLink :=
  if l.closed ∨ l.sending ≠ [] then l
  else
    match nextQuery l.queries with
    | none => l
    | some (pdu, rest) =>
      let version := l.version.getD pdu.version
      if pdu.version > rtrProtocolVersion ∨ pdu.version ≠ version then { l with closed := true }
      else
        let l := { l with version := some version, queries := rest }
        match pdu.pduType with
        | .serialQuery =>
          if pdu.received.length ≠ 12 then l
          else l.answer pdu.serial (pdu.byte.u16 2) false version
        | .resetQuery => l.answer 0 l.sessionID true version
        | _ => l

/-- A PDU at its handler: the queries, the count and the objects. -/
def note (l : RtrLink) (s : RtrState) (pdu : RtrPdu) (t : Turn) : RtrLink :=
  let event := s.eventOf pdu t none
  { l with
    queries := l.queries ++ queryOf (s.handlePdu pdu t).client event
    waiting := waitingAfter l.waiting event
    objects := applyPayload l.objects (handlePayload s.client none pdu) }

/-- A turn of the loop of `receivePDUs`, once the PDU is there, or the end of the loop. -/
def turn (l : RtrLink) (t : Turn) : RtrLink :=
  if l.rtr.Polls then
    if Arrived l.rtr then
      match l.rtr.atSwitch t with
      | none => { l with rtr := l.rtr.step (.turn t) }
      | some (s, pdu) => { l.note s pdu t with rtr := l.rtr.step (.turn t) }
    else l
  else { l with rtr := l.rtr.step (.turn t) }

/-- What can happen. The cache changes when no answer holds its lock; the use of a NULL pointer ends the
server. -/
inductive Op
  | change (op : CacheOp)
  | serialNotify
  | handleClient
  | send
  | turn (keep : Bool)
  | receivePDUs (returnAfterEndOfData singlePoll : Bool)

def step (l : RtrLink) : Op → RtrLink
  | .change op =>
    if l.sending ≠ [] then l
    else
      match changeCache l.cache op with
      | none => { l with closed := true }
      | some cache => { l with cache := cache }
  | .serialNotify => l.sendMessage (.serialNotify l.cache.maxSerial)
  | .handleClient => l.handleClient
  | .send =>
    match l.sending with
    | [] => l
    | message :: sending => { l.sendMessage message with sending := sending }
  | .turn keep => l.turn ⟨true, true, keep⟩
  | .receivePDUs returnAfterEndOfData singlePoll =>
    { l with rtr := l.rtr.step (.receivePDUs returnAfterEndOfData singlePoll true) }

/-- The link when the client has connected and sent its Reset Query. -/
def initial (params : RtrParams) (lastSent lastRecv : RtrPduType) (serial : UInt32) (sessionID : UInt16) :
    RtrLink :=
  let rtr := { RtrState.initial params lastSent lastRecv serial with socket := some [] }
  { cache := initialCache
    sessionID := sessionID
    version := none
    closed := false
    queries := resetQueryPdu rtr.client
    sending := []
    rtr := rtr.sendResetQuery true
    waiting := 1
    objects := 0
    answered := initialCache }

/-- The condition on a step: the serial does not wrap around, and the arrays of what is appended have
their sizes; a Serial Notify is sent to a client that has asked before, and handled when no query is
outstanding; and the serial of a Serial Query does not lie where entries were dropped. -/
def Orderly (l : RtrLink) : Op → Prop
  | .change op => NoWrap (some l.cache) op ∧ op.Sized
  | .serialNotify => l.version.isSome
  | .handleClient => ∀ query ∈ nextQuery l.queries, query.1.pduType = .serialQuery →
      checkSerial l.cache.minPSExpired l.cache.maxSExpired query.1.serial = false
  | .turn _ => ∀ hdr ∈ l.rtr.header, hdr.pduType = .serialNotify → l.waiting = 0
  | _ => True

instance (l : RtrLink) (op : Op) : Decidable (l.Orderly op) :=
  match op with
  | .change op => inferInstanceAs (Decidable (NoWrap (some l.cache) op ∧ op.Sized))
  | .serialNotify => inferInstanceAs (Decidable (l.version.isSome = true))
  | .handleClient => inferInstanceAs (Decidable (∀ query ∈ nextQuery l.queries,
      query.1.pduType = .serialQuery →
        checkSerial l.cache.minPSExpired l.cache.maxSExpired query.1.serial = false))
  | .send => instDecidableTrue
  | .turn _ => inferInstanceAs (Decidable (∀ hdr ∈ l.rtr.header, hdr.pduType = .serialNotify → l.waiting = 0))
  | .receivePDUs _ _ => instDecidableTrue

/-- With no query outstanding the client has the objects of the cache that the last answer was made
from, and its serial. -/
def Synchronised (l : RtrLink) : Prop :=
  l.waiting = 0 → l.rtr.client.serial = l.answered.maxSerial ∧
    ∀ version ∈ l.version, l.objects = (resetRecords l.answered l.sessionID version).map routerObject

end RtrLink

/-- The records that some PDUs withdraw. -/
def withdrawals (pdus : List ObjectPdu) : Multiset RtrRecord :=
  (pdus.filter fun pdu => decide (pdu.flags &&& flagAnnouncement = 0)).map ObjectPdu.record

/-- The query that a message makes the client send, and how many wait behind it. -/
def RtrMessage.reaction (version : UInt8) (sessionID : UInt16) (serial : UInt32) : RtrMessage → Bytes
  | .serialNotify _ => rtrPdu version 1 (be16 sessionID) (be32 serial)
  | .cacheReset => rtrPdu version 2 (be16 0) []
  | _ => []

def RtrMessage.waitingBehind (waiting : Nat) : RtrMessage → Nat
  | .serialNotify _ => waiting + 1
  | .cacheReset => waiting + 1
  | .endOfData _ => waiting - 1
  | _ => waiting

namespace RtrLinkLemmas

open RtrLemmas RtrLink RtrState RtrSyncLemmas RtrWireLemmas

variable {version : UInt8} {serial maxSerial : UInt32} {entries : List ValCacheEntry}
  {cache : RtrCache} {records : Multiset RtrRecord} {sessionID : UInt16} {p q : ValCacheEntry → Bool}

/-! ## The objects of a client -/

theorem withdrawals_entries (h : ∀ entry ∈ entries, EntryOk maxSerial entry) (version : UInt8) :
    withdrawals (entries.filterMap (entryPdu version)) =
      recordsOf version (fun entry => !decide entry.Live) entries := by
  unfold withdrawals recordsOf
  congr 1
  induction entries with
  | nil => rfl
  | cons entry entries ih =>
    obtain ⟨hok, hrest⟩ := List.forall_mem_cons.mp h
    have hflag : entry.flags &&& flagAnnouncement = 0 ↔ ¬ entry.Live := by
      rw [← hok.flag, not_not]
    rw [List.filterMap_cons, List.filter_cons]
    cases hpdu : entryPdu version entry with
    | none =>
      dsimp only
      rw [ih hrest]
      split
      · rw [List.filterMap_cons, entryRecord, hpdu]
        rfl
      · rfl
    | some pdu =>
      dsimp only
      rw [List.filter_cons, flags_entryPdu hpdu]
      by_cases hlive : entry.Live
      · rw [if_neg (by simp [hflag, hlive]), if_neg (by simp [hlive]), ih hrest]
      · rw [if_pos (by simp [hflag, hlive]), if_pos (by simp [hlive]), List.map_cons, ih hrest,
          List.filterMap_cons, entryRecord, hpdu]
        rfl

theorem recordsOf_le (h : ∀ entry ∈ entries, p entry = true → q entry = true) :
    recordsOf version p entries ≤ recordsOf version q entries := by
  have hfilter : entries.filter p = (entries.filter q).filter p := by
    rw [List.filter_filter]
    refine List.filter_congr fun entry hentry => ?_
    cases hp : p entry with
    | false => rfl
    | true => rw [h entry hentry hp]; rfl
  unfold recordsOf
  rw [hfilter]
  exact Multiset.coe_le.mpr (List.filter_sublist.filterMap _).subperm

/-- A client with the records of some PDUs withdrawn can apply the next one. -/
theorem applyPayload_object {pdu : ObjectPdu} {pdus : List ObjectPdu} {payload : Payload}
    (h : withdrawals (pdu :: pdus) ≤ records)
    (hpayload : payloadObject payload = some (isAnnouncement pdu.flags, routerObject pdu.record)) :
    applyPayload (records.map routerObject) (some payload) = (applyPdu records pdu).map routerObject ∧
      withdrawals pdus ≤ applyPdu records pdu := by
  unfold applyPayload applyPdu
  rw [Option.bind_some, hpayload]
  unfold withdrawals at h ⊢
  rw [List.filter_cons] at h
  by_cases hflag : pdu.flags &&& flagAnnouncement = 0
  · have hann : isAnnouncement pdu.flags = false := decide_eq_false (not_not.mpr hflag)
    rw [hann, if_neg (not_not.mpr hflag)]
    rw [decide_eq_true hflag, if_pos rfl, List.map_cons, ← Multiset.cons_coe] at h
    have hmem := Multiset.mem_of_le h (Multiset.mem_cons_self _ _)
    refine ⟨(Multiset.map_erase_of_mem _ _ hmem).symm, ?_⟩
    have herase := Multiset.erase_le_erase pdu.record h
    rwa [Multiset.erase_cons_head] at herase
  · have hann : isAnnouncement pdu.flags = true := decide_eq_true hflag
    rw [hann, if_pos hflag]
    rw [decide_eq_false hflag, if_neg Bool.false_ne_true] at h
    exact ⟨(Multiset.map_cons _ _ _).symm, h.trans (Multiset.le_cons_self _ _)⟩

/-! ## Answers -/

/-- The answer to a Reset Query. -/
theorem answer_reset (h : Ordered cache) (sessionID : UInt16) (version : UInt8) :
    ∃ pdus, sendCacheObjects cache sessionID 0 sessionID true version = .objects pdus cache.maxSerial ∧
      withdrawals pdus ≤ 0 ∧ pdus.foldl applyPdu 0 = resetRecords cache sessionID version := by
  have hsend : sendCacheObjects cache sessionID 0 sessionID true version =
      .objects ((fromSerial 0 true cache.entries).filterMap (sentPdu 0 true version)) cache.maxSerial := by
    unfold sendCacheObjects
    rw [if_neg fun hsession => Bool.false_ne_true hsession.1,
      if_neg fun hserial => Bool.false_ne_true hserial.1]
  refine ⟨_, hsend, ?_, ?_⟩
  · have hok : ∀ entry ∈ cache.entries.filter (fun entry => decide entry.Live),
        EntryOk cache.maxSerial entry := fun entry hentry => h.ok entry (List.mem_of_mem_filter hentry)
    rw [fromSerial_reset, filterMap_ite fun entry hentry => sentPdu_reset (h.ok entry hentry),
      withdrawals_entries hok, recordsOf_none]
    intro entry hentry
    rw [(List.mem_filter.mp hentry).2]
    rfl
  · unfold resetRecords
    rw [hsend]
    rfl

/-- The answer to a Serial Query that is no Cache Reset. -/
theorem answer_query (h : InSync version serial records cache) (sessionID : UInt16)
    (hcheck : checkSerial cache.minPSExpired cache.maxSExpired serial = false) :
    ∃ pdus, sendCacheObjects cache sessionID serial sessionID false version =
        .objects pdus cache.maxSerial ∧
      withdrawals pdus ≤ records ∧ pdus.foldl applyPdu records = resetRecords cache sessionID version := by
  have hsend : sendCacheObjects cache sessionID serial sessionID false version =
      .objects ((fromSerial serial false cache.entries).filterMap (sentPdu serial false version))
        cache.maxSerial := by
    unfold sendCacheObjects
    rw [if_neg fun hsession => hsession.2 rfl, hcheck, if_neg fun hserial => Bool.false_ne_true hserial.2]
  refine ⟨_, hsend, ?_, ?_⟩
  · have hknown : recordsOf version (Known serial) cache.entries = records :=
      h.records.resolve_left fun hwindow => by
        rw [checkSerial_of_window hwindow] at hcheck
        cases hcheck
    rw [fromSerial_eq h.ordered.sorted, filterMap_ite fun entry _ => sentPdu_query version serial entry,
      withdrawals_entries fun entry hentry =>
        h.ordered.ok entry (List.mem_of_mem_filter (List.mem_of_mem_filter hentry)), ← hknown]
    unfold recordsOf
    rw [List.filter_filter, List.filter_filter]
    -- a withdrawal that is sent is one of an entry the client knows
    refine recordsOf_le fun entry hentry hsent => ?_
    obtain ⟨⟨hdead, hsent⟩, hlater⟩ : (¬ entry.Live ∧ (entry.Live ∨ entry.prevSerial ≤ serial)) ∧
        serial < entry.serial := by
      simpa using hsent
    have hprev := hsent.resolve_left hdead
    unfold Known
    rw [decide_eq_true hprev, decide_eq_true hlater, Bool.or_true]
    rfl
  · have hresync := resync_of_inSync h sessionID
    unfold resync at hresync
    rw [hsend] at hresync
    exact hresync

/-! ## Changes of the cache -/

theorem removalLoop_sized {startIndex : Nat} {tsExp : Int} {turns : Nat} {prevNode : Option Nat}
    {cache cache' : RtrCache} (hsized : ∀ cEntry ∈ cache.entries, cEntry.Sized)
    (h : removalLoop startIndex tsExp turns prevNode cache = some cache') :
    ∀ cEntry ∈ cache'.entries, cEntry.Sized := by
  induction turns generalizing prevNode cache with
  | zero =>
    obtain rfl := Option.some.inj h
    exact hsized
  | succ turns ih =>
    unfold removalLoop at h
    obtain ⟨currEntry, hget, h⟩ := Option.bind_eq_some_iff.mp h
    split at h
    · refine ih (List.forall_mem_append.mpr ⟨fun cEntry hentry => ?_, fun cEntry hentry => ?_⟩) h
      · exact hsized cEntry ((List.eraseIdx_sublist _ _).mem hentry)
      · obtain rfl := List.mem_singleton.mp hentry
        have hcurr := hsized currEntry (List.mem_of_getElem? hget)
        exact ⟨hcurr.ski, hcurr.keyData, hcurr.providers⟩
    · exact ih hsized h

theorem changeCache_sized {op : CacheOp} {cache' : RtrCache} (hsized : ∀ cEntry ∈ cache.entries, cEntry.Sized)
    (hobjects : op.Sized) (h : changeCache cache op = some cache') : ∀ cEntry ∈ cache'.entries, cEntry.Sized := by
  cases op with
  | append objects =>
    obtain rfl := Option.some.inj h
    exact appendObjects_sized hsized hobjects
  | remove startIndex endIndex now =>
    have h' : processEntryRemoval cache startIndex endIndex now = some cache' := h
    unfold processEntryRemoval at h'
    split at h'
    · exact removalLoop_sized hsized h'
    · obtain rfl := Option.some.inj h'
      exact hsized
  | expire now =>
    obtain rfl := Option.some.inj h
    intro cEntry hentry
    have hleft := (expiryLoop_spec now cache.entries cache.minPSExpired cache.maxSExpired).1
    have hmem : cEntry ∈ (expiryLoop now cache.entries cache.minPSExpired cache.maxSExpired).1 := hentry
    rw [hleft] at hmem
    exact hsized cEntry (List.mem_of_mem_filter hmem)

theorem changeCache_inSync {op : CacheOp} {cache' : RtrCache} (hwrap : NoWrap (some cache) op)
    (h : changeCache cache op = some cache') (hsync : InSync version serial records cache) :
    InSync version serial records cache' := by
  obtain ⟨cache'', heq, hsync'⟩ := followed_step (some cache) op ⟨cache, rfl, hsync⟩ hwrap
  obtain rfl := Option.some.inj (h.symm.trans heq)
  exact hsync'

/-! ## A message at the client -/

variable {l : RtrLink} {t : Turn} {rest : Bytes} {message : RtrMessage}

/-- What a turn of the client leaves of the link. -/
structure Reacts (version : UInt8) (message : RtrMessage) (rest : Bytes) (l l' : RtrLink) : Prop where
  rtr : AfterMessage l.sessionID version message rest l.rtr l'.rtr
  queries : l'.queries = l.queries ++ message.reaction version l.sessionID l.rtr.client.serial
  waiting : l'.waiting = message.waitingBehind l.waiting
  objects : (∀ pdu, message ≠ .object pdu) → l'.objects = l.objects
  object : ∀ pdu pdus records, message = .object pdu → l.objects = records.map routerObject →
    withdrawals (pdu :: pdus) ≤ records →
      l'.objects = (applyPdu records pdu).map routerObject ∧ withdrawals pdus ≤ applyPdu records pdu
  frame : l' = { l with
    rtr := l'.rtr
    queries := l'.queries
    waiting := l'.waiting
    objects := l'.objects }

/-- Only an object has something for a callback. -/
theorem payload_none {client : RtrClient} {pdu : RtrPdu} (h : pdu.pduType = .serialNotify ∨
    pdu.pduType = .cacheResponse ∨ pdu.pduType = .endOfData ∨ pdu.pduType = .cacheReset) :
    (handlePayload client none pdu).bind payloadObject = none := by
  have hsession : ((pdu.received.be16At 2).map fun sessionID => Payload.session sessionID.toUInt32).bind
      payloadObject = none := by
    cases pdu.received.be16At 2 with
    | none => rfl
    | some sessionID => rfl
  unfold handlePayload
  rcases h with htype | htype | htype | htype
  · rw [htype]
    exact hsession
  · rw [htype]
    exact hsession
  · rw [htype]
    dsimp only
    cases pdu.received.be16At 2 with
    | none => rfl
    | some sessionID =>
      simp only [Option.bind_eq_bind, Option.bind_some]
      split
      · cases pdu.received.be32At 8 with
        | none => rfl
        | some serial => rfl
      · rfl
  · rw [htype]
    rfl

theorem arrived_onePdu {s : RtrState} {bytes : Bytes} (hpdu : OnePdu bytes)
    (hstream : s.socket.stream = bytes ++ rest) : Arrived s := by
  have hle : bytes.length ≤ s.socket.stream.length := by
    rw [hstream, List.length_append]
    exact Nat.le_add_right _ _
  refine .inr ⟨Nat.le_trans hpdu.header hle, ?_⟩
  rw [hstream, List.take_append_of_le_length hpdu.header, length_take hpdu.header, hpdu.length, ← hstream]
  exact hle

theorem event_data (client : RtrClient) (handled : Bool) (pduType : RtrPduType) (waiting : Nat) :
    queryOf client (if handled then some (.data pduType) else none) = [] ∧
      waitingAfter waiting (if handled then some (.data pduType) else none) = waiting := by
  cases handled with
  | false => exact ⟨rfl, rfl⟩
  | true => exact ⟨rfl, rfl⟩

/-- The event of a message, and the query it makes the client send. -/
theorem event_message {s : RtrState} (hsendable : Sendable version message)
    (hversion : s.client.version = version.toInt8) (hjoined : Joined sessionID s)
    (hsome : s.socket.isSome) (hsent : t.sent = true) (waiting : Nat) :
    queryOf (s.handlePdu ⟨message.bytes sessionID version⟩ t).client
        (s.eventOf ⟨message.bytes sessionID version⟩ t none) =
          message.reaction version sessionID s.client.serial ∧
      waitingAfter waiting (s.eventOf ⟨message.bytes sessionID version⟩ t none) =
        message.waitingBehind waiting := by
  have htype := (message_header hsendable sessionID).2.2
  obtain ⟨changed, hcheck⟩ := checkSessionID_joined hjoined
  have hnone : s.socket.isNone = false := by
    rw [← Option.not_isSome, hsome]
    rfl
  cases message with
  | serialNotify serial =>
    have hid : (RtrPdu.mk ((RtrMessage.serialNotify serial).bytes sessionID version)).sessionID =
      sessionID.toUInt32 := sessionID_rtrPdu version 0 sessionID _
    generalize RtrPdu.mk ((RtrMessage.serialNotify serial).bytes sessionID version) = pdu at htype hid ⊢
    unfold eventOf handlePdu
    rw [htype]
    dsimp only [messageType]
    rw [hid, hcheck]
    dsimp only
    rw [if_pos rfl, if_pos ⟨rfl, hsome, hsent⟩]
    unfold sendPDU
    dsimp only
    rw [hnone, if_neg Bool.false_ne_true, hsent, if_pos rfl]
    refine ⟨?_, rfl⟩
    show rtrPdu s.client.version.toUInt8 1 (be16 sessionID.toUInt32.toUInt16) _ = _
    rw [hversion, UInt16.toUInt16_toUInt32]
    rfl
  | cacheReset =>
    unfold eventOf handlePdu
    rw [htype]
    dsimp only [messageType]
    rw [if_pos ⟨hsome, hsent⟩]
    refine ⟨?_, rfl⟩
    unfold sendResetQuery sendPDU
    dsimp only
    rw [hnone, if_neg Bool.false_ne_true, hsent, if_pos rfl]
    show rtrPdu s.client.version.toUInt8 2 _ _ = _
    rw [hversion]
    rfl
  | cacheResponse =>
    unfold eventOf handlePdu
    rw [htype]
    exact ⟨rfl, rfl⟩
  | endOfData serial =>
    have hid : (RtrPdu.mk ((RtrMessage.endOfData serial).bytes sessionID version)).sessionID =
      sessionID.toUInt32 := sessionID_rtrPdu version 7 sessionID _
    generalize RtrPdu.mk ((RtrMessage.endOfData serial).bytes sessionID version) = pdu at htype hid ⊢
    unfold eventOf handlePdu
    rw [htype]
    dsimp only [messageType]
    rw [hid, hcheck]
    dsimp only
    rw [if_pos rfl]
    refine ⟨rfl, ?_⟩
    show waitingAfter waiting (some (.endOfData _ (decide (sessionID.toUInt32 = sessionID.toUInt32)))) = _
    rw [decide_eq_true rfl]
    rfl
  | object pdu =>
    unfold eventOf handlePdu
    rw [htype]
    obtain ⟨version', flags, content⟩ := pdu
    cases content with
    | ipv4Prefix prefixLen maxLen addr asNumber => exact event_data _ _ _ _
    | ipv6Prefix prefixLen maxLen addr asNumber => exact event_data _ _ _ _
    | routerKey ski keyInfo asNumber => exact event_data _ _ _ _
    | aspa customerAsn providers => exact event_data _ _ _ _

theorem turn_reacts (hsendable : Sendable version message) (hpolls : l.rtr.Polls)
    (hstream : l.rtr.socket.stream = message.bytes l.sessionID version ++ rest)
    (hversion : l.rtr.client.version = version.toInt8) (hsmall : version < 128)
    (hjoined : Joined l.sessionID l.rtr) (hmem : t.mem = true) (hsent : t.sent = true) :
    Reacts version message rest l (l.turn t) := by
  have hsame : sameVersion l.rtr.client.version version = true := by
    rw [hversion]
    exact sameVersion_iff.mpr ((RtrVersionLemmas.toInt_toInt8_eq version).mpr hsmall)
  obtain ⟨hpdu, hpduVersion, htype⟩ := message_header hsendable l.sessionID
  obtain ⟨buffSize, socket, hswitch, hrest, hsome⟩ :=
    atSwitch_onePdu hpdu hstream (hpduVersion.symm ▸ hsame) hmem
  have hafter := turn_message hsendable hstream hsame hjoined hmem hsent
  obtain ⟨dispatched, accepted, hrecord⟩ :=
    record_eq (received l.rtr socket buffSize) ⟨message.bytes l.sessionID version⟩ .noError
  rw [hrecord] at hswitch
  have hturn : l.turn t = { l.note { received l.rtr socket buffSize with
      dispatched := dispatched, accepted := accepted } ⟨message.bytes l.sessionID version⟩ t with
        rtr := l.rtr.turn t } := by
    unfold RtrLink.turn
    rw [if_pos hpolls, if_pos (arrived_onePdu hpdu hstream), hswitch, step_polls hpolls]
  obtain ⟨hquery, hwaiting⟩ := event_message (s := { received l.rtr socket buffSize with
    dispatched := dispatched, accepted := accepted }) hsendable hversion hjoined hsome hsent l.waiting
  rw [hturn]
  have hnone (h : messageType message = .serialNotify ∨ messageType message = .cacheResponse ∨
      messageType message = .endOfData ∨ messageType message = .cacheReset) :
      applyPayload l.objects (handlePayload l.rtr.client none ⟨message.bytes l.sessionID version⟩) =
        l.objects := by
    unfold applyPayload
    rw [payload_none (by rw [htype]; exact h)]
  refine ⟨hafter, congrArg (l.queries ++ ·) hquery, hwaiting, fun hother => ?_, ?_, rfl⟩
  · cases message with
    | serialNotify serial => exact hnone (.inl rfl)
    | cacheResponse => exact hnone (.inr (.inl rfl))
    | endOfData serial => exact hnone (.inr (.inr (.inl rfl)))
    | cacheReset => exact hnone (.inr (.inr (.inr rfl)))
    | object pdu => exact absurd rfl (hother pdu)
  · rintro pdu pdus records rfl hobjects hwithdrawals
    obtain ⟨hsized, hfits, rfl⟩ := hsendable
    obtain ⟨payload, hpayload, hobject⟩ := payload_of_object hsized hfits hsame none
    show applyPayload l.objects (handlePayload l.rtr.client none ⟨pdu.bytes⟩) = _ ∧ _
    rw [hpayload, hobjects]
    exact applyPayload_object hwithdrawals hobject

/-! ## A query at the server -/

theorem nextQuery_onePdu {bytes : Bytes} (h : OnePdu bytes) : nextQuery bytes = some (⟨bytes⟩, []) := by
  have hsize : commonHeaderSize + ((RtrPdu.mk bytes).length - UInt32.ofNat commonHeaderSize).toNat =
      bytes.length := by
    have hle : UInt32.ofNat commonHeaderSize ≤ (RtrPdu.mk bytes).length := by
      rw [UInt32.le_iff_toNat_le, h.length]
      exact h.header
    rw [UInt32.toNat_sub_of_le _ _ hle, h.length]
    exact Nat.add_sub_cancel' h.header
  unfold nextQuery
  dsimp only
  rw [length_take h.header, hsize, if_pos ⟨h.header, Nat.le_refl _⟩, List.take_length, List.drop_length]

theorem nextQuery_nil : nextQuery [] = none := rfl

theorem handleClient_idle (h : l.queries = []) : l.handleClient = l := by
  unfold handleClient
  rw [h, nextQuery_nil]
  exact ite_self l

theorem handleClient_reset (hclosed : l.closed = false) (hsending : l.sending = [])
    (hqueries : l.queries = rtrPdu version 2 (be16 0) []) (hle : version ≤ rtrProtocolVersion)
    (hown : l.version.getD version = version) :
    l.handleClient =
      { l with version := some version, queries := [] }.answer 0 l.sessionID true version := by
  have hpdu : OnePdu (rtrPdu version 2 (be16 0) []) := onePdu_rtrPdu rfl (by decide)
  have hversion : (RtrPdu.mk (rtrPdu version 2 (be16 0) [])).version = version :=
    (headerOf_rtrPdu rfl).version
  have htype : (RtrPdu.mk (rtrPdu version 2 (be16 0) [])).pduType = .resetQuery := pduType_rtrPdu rfl
  unfold handleClient
  rw [hqueries, nextQuery_onePdu hpdu, if_neg (by simp [hclosed, hsending])]
  dsimp only
  rw [hversion, hown, htype, if_neg fun hbad => hbad.elim (UInt8.not_lt.mpr hle) fun hne => hne rfl]

theorem handleClient_serial (hclosed : l.closed = false) (hsending : l.sending = [])
    (hqueries : l.queries = rtrPdu version 1 (be16 sessionID) (be32 serial))
    (hle : version ≤ rtrProtocolVersion) (hown : l.version.getD version = version) :
    l.handleClient =
      { l with version := some version, queries := [] }.answer serial sessionID false version := by
  have hbody : (be32 serial).length < 2 ^ 31 := by
    rw [length_be32]
    decide
  have hheader := @headerOf_rtrPdu version 1 (be16 sessionID) (be32 serial) rfl
  have hlength : (rtrPdu version 1 (be16 sessionID) (be32 serial)).length = 12 := length_rtrPdu rfl
  have hpdu : OnePdu (rtrPdu version 1 (be16 sessionID) (be32 serial)) := onePdu_rtrPdu rfl hbody
  have htype : (RtrPdu.mk (rtrPdu version 1 (be16 sessionID) (be32 serial))).pduType = .serialQuery :=
    pduType_rtrPdu rfl
  unfold handleClient
  rw [hqueries, nextQuery_onePdu hpdu, if_neg (by simp [hclosed, hsending])]
  dsimp only
  rw [hheader.version, hown, htype, if_neg fun hbad => hbad.elim (UInt8.not_lt.mpr hle) fun hne => hne rfl]
  dsimp only
  rw [if_neg (not_not.mpr hlength), hheader.mixed.u16]
  exact congrArg (fun serial => RtrLink.answer _ serial _ _ _) hheader.body.u32

/-! ## The state of the link -/

/-- The message belongs to an answer. -/
def isReply : RtrMessage → Bool
  | .serialNotify _ => false
  | _ => true

def reply (messages : List RtrMessage) : List RtrMessage := messages.filter isReply

/-- What is said when, `messages` being on their way to the client: nothing is asked; the Reset Query of
the start, or a Serial Query, is on its way to the server; an answer is on its way to the client, of
which `pdus` are the objects that have not come. -/
inductive Talk (version : UInt8) (l : RtrLink) (messages : List RtrMessage) : Prop
  | idle (records : Multiset RtrRecord) (waiting : l.waiting = 0) (queries : l.queries = [])
      (said : reply messages = []) (known : l.version = some version)
      (sync : InSync version l.rtr.client.serial records l.cache)
      (objects : l.objects = records.map routerObject)
      (serial : l.rtr.client.serial = l.answered.maxSerial)
      (same : records = resetRecords l.answered l.sessionID version)
  | start (waiting : l.waiting = 1) (queries : l.queries = rtrPdu version 2 (be16 0) [])
      (said : messages = []) (known : l.version = none) (ordered : Ordered l.cache) (objects : l.objects = 0)
  | asked (records : Multiset RtrRecord) (waiting : l.waiting = 1)
      (queries : l.queries = rtrPdu version 1 (be16 l.sessionID) (be32 l.rtr.client.serial))
      (said : reply messages = []) (known : l.version = some version)
      (sync : InSync version l.rtr.client.serial records l.cache)
      (objects : l.objects = records.map routerObject)
  | told (early : List RtrMessage) (pdus : List ObjectPdu) (serial : UInt32) (records : Multiset RtrRecord)
      (waiting : l.waiting = 1) (queries : l.queries = [])
      (said : reply messages = early ++ (pdus.map .object ++ [.endOfData serial]))
      (first : early = [] ∨ early = [.cacheResponse]) (known : l.version = some version)
      (sync : InSync version serial (pdus.foldl applyPdu records) l.cache)
      (objects : l.objects = records.map routerObject) (found : withdrawals pdus ≤ records)
      (answered : serial = l.answered.maxSerial)
      (same : pdus.foldl applyPdu records = resetRecords l.answered l.sessionID version)

/-- The invariant of the link, of which some messages have arrived at the client. -/
structure Inv (version : UInt8) (l : RtrLink) (arrived : List RtrMessage) : Prop where
  le : version ≤ rtrProtocolVersion
  clientVersion : l.rtr.client.version = version.toInt8
  stream : l.rtr.socket.stream = wire l.sessionID version arrived
  connected : l.rtr.socket.isSome
  joined : Joined l.sessionID l.rtr
  errCode : l.rtr.errCode = .noError
  closed : l.closed = false
  sized : ∀ cEntry ∈ l.cache.entries, cEntry.Sized
  sendable : ∀ message ∈ arrived ++ l.sending, Sendable version message
  answer : reply l.sending = l.sending
  talk : Talk version l (arrived ++ l.sending)

theorem reply_append (messages messages' : List RtrMessage) :
    reply (messages ++ messages') = reply messages ++ reply messages' := List.filter_append _ _

theorem stream_deliver {socket : Socket} (h : socket.isSome) {bytes : Bytes} (hbytes : OnePdu bytes) :
    Socket.stream (deliver socket bytes) = socket.stream ++ bytes ∧ (deliver socket bytes).isSome := by
  cases socket with
  | none => cases h
  | some blocks =>
    have hne : Socket.stream (some blocks) ++ bytes ≠ [] := by
      intro hnil
      have hheader := hbytes.header
      rw [(List.append_eq_nil_iff.mp hnil).2] at hheader
      exact absurd hheader (by decide)
    refine ⟨?_, rfl⟩
    show Socket.stream (some [Socket.stream (some blocks) ++ bytes]) = _
    rw [stream_cons hne]
    exact List.append_nil _

/-! ## Steps -/

variable {arrived : List RtrMessage}

theorem Talk.change {messages : List RtrMessage} {op : CacheOp} {cache' : RtrCache}
    (h : Talk version l messages) (hwrap : NoWrap (some l.cache) op)
    (hchange : changeCache l.cache op = some cache') :
    Talk version { l with cache := cache' } messages := by
  have hkeep {serial : UInt32} {records : Multiset RtrRecord} (hsync : InSync version serial records l.cache) :=
    changeCache_inSync hwrap hchange hsync
  cases h with
  | idle records waiting queries said known sync objects serial same =>
    exact .idle records waiting queries said known (hkeep sync) objects serial same
  | start waiting queries said known ordered objects =>
    exact .start waiting queries said known (hkeep (inSync_start ordered l.sessionID version)).ordered objects
  | asked records waiting queries said known sync objects =>
    exact .asked records waiting queries said known (hkeep sync) objects
  | told early pdus serial records waiting queries said first known sync objects found answered same =>
    exact .told early pdus serial records waiting queries said first known (hkeep sync) objects found
      answered same

theorem Talk.ordered {messages : List RtrMessage} (h : Talk version l messages) : Ordered l.cache := by
  cases h with
  | idle records waiting queries said known sync objects serial same => exact sync.ordered
  | start waiting queries said known ordered objects => exact ordered
  | asked records waiting queries said known sync objects => exact sync.ordered
  | told early pdus serial records waiting queries said first known sync objects found answered same =>
    exact sync.ordered

theorem inv_change (h : Inv version l arrived) {op : CacheOp} (horderly : l.Orderly (.change op)) :
    Inv version (l.step (.change op)) arrived := by
  obtain ⟨hwrap, hobjects⟩ := horderly
  show Inv version (if l.sending ≠ [] then l else _) arrived
  split
  · exact h
  · -- the change is defined
    obtain ⟨cache', hchange, -⟩ := followed_step (some l.cache) op
      ⟨l.cache, rfl, inSync_start h.talk.ordered l.sessionID version⟩ hwrap
    have hchange' : changeCache l.cache op = some cache' := hchange
    rw [hchange']
    exact { h with
      sized := changeCache_sized h.sized hobjects hchange'
      talk := h.talk.change hwrap hchange' }

/-- What is said is about the answers on their way, and not about the socket. -/
theorem Talk.deliver {messages messages' : List RtrMessage} (h : Talk version l messages)
    (hknown : l.version.isSome) (hreply : reply messages' = reply messages) (socket : Socket)
    (sending : List RtrMessage) :
    Talk version { l with rtr.socket := socket, sending := sending } messages' := by
  cases h with
  | idle records waiting queries said known sync objects serial same =>
    exact .idle records waiting queries (hreply.trans said) known sync objects serial same
  | start waiting queries said known ordered objects =>
    rw [known] at hknown
    cases hknown
  | asked records waiting queries said known sync objects =>
    exact .asked records waiting queries (hreply.trans said) known sync objects
  | told early pdus serial records waiting queries said first known sync objects found answered same =>
    exact .told early pdus serial records waiting queries (hreply.trans said) first known sync objects found
      answered same

theorem Talk.client {messages : List RtrMessage} (h : Talk version l messages) {rtr : RtrState}
    (hserial : rtr.client.serial = l.rtr.client.serial) : Talk version { l with rtr := rtr } messages := by
  cases h with
  | idle records waiting queries said known sync objects serial same =>
    rw [← hserial] at sync serial
    exact .idle records waiting queries said known sync objects serial same
  | start waiting queries said known ordered objects => exact .start waiting queries said known ordered objects
  | asked records waiting queries said known sync objects =>
    rw [← hserial] at queries sync
    exact .asked records waiting queries said known sync objects
  | told early pdus serial records waiting queries said first known sync objects found answered same =>
    exact .told early pdus serial records waiting queries said first known sync objects found answered same

theorem Talk.known {messages : List RtrMessage} (h : Talk version l messages) (hknown : l.version.isSome) :
    l.version = some version := by
  cases h with
  | idle records waiting queries said known sync objects serial same => exact known
  | start waiting queries said known ordered objects =>
    rw [known] at hknown
    cases hknown
  | asked records waiting queries said known sync objects => exact known
  | told early pdus serial records waiting queries said first known sync objects found answered same =>
    exact known

theorem inv_sendMessage (h : Inv version l arrived) (hknown : l.version.isSome)
    (hsendable : Sendable version message) {sending : List RtrMessage} (hanswer : reply sending = sending)
    (hmessages : ∀ m ∈ sending, Sendable version m)
    (hreply : reply (arrived ++ [message] ++ sending) = reply (arrived ++ l.sending)) :
    Inv version { l.sendMessage message with sending := sending } (arrived ++ [message]) := by
  have hpdu := (message_header hsendable l.sessionID).1
  have hversion : l.version.getD 0xFF = version := by
    rw [h.talk.known hknown]
    rfl
  obtain ⟨hstream, hsome⟩ := stream_deliver h.connected hpdu
  refine { h with
    stream := ?_
    connected := ?_
    sendable := ?_
    answer := hanswer
    talk := h.talk.deliver hknown hreply _ _ }
  · show Socket.stream (deliver l.rtr.socket (message.bytes l.sessionID (l.version.getD 0xFF))) = _
    rw [hversion, hstream, h.stream]
    unfold wire
    rw [List.flatMap_append, List.flatMap_singleton]
    rfl
  · show (deliver l.rtr.socket (message.bytes l.sessionID (l.version.getD 0xFF))).isSome = true
    rw [hversion]
    exact hsome
  · have harrived := (List.forall_mem_append.mp h.sendable).1
    exact List.forall_mem_append.mpr ⟨List.forall_mem_append.mpr ⟨harrived,
      fun m hm => List.mem_singleton.mp hm ▸ hsendable⟩, hmessages⟩

theorem inv_notify (h : Inv version l arrived) (horderly : l.Orderly .serialNotify) :
    ∃ arrived', Inv version (l.step .serialNotify) arrived' := by
  have hsending := (List.forall_mem_append.mp h.sendable).2
  have hsendable : Sendable version (.serialNotify l.cache.maxSerial) := trivial
  refine ⟨_, inv_sendMessage h horderly hsendable h.answer hsending ?_⟩
  rw [reply_append, reply_append, reply_append]
  exact congrArg (· ++ reply l.sending) (List.append_nil _)

theorem inv_send (h : Inv version l arrived) : ∃ arrived', Inv version (l.step .send) arrived' := by
  show ∃ arrived', Inv version (match l.sending with
    | [] => l
    | message :: sending => { l.sendMessage message with sending := sending }) arrived'
  cases hsending : l.sending with
  | nil => exact ⟨arrived, h⟩
  | cons message sending =>
    have hsendable := (List.forall_mem_append.mp h.sendable).2
    rw [hsending] at hsendable
    obtain ⟨hmessage, hmessages⟩ := List.forall_mem_cons.mp hsendable
    have hanswer := h.answer
    rw [hsending] at hanswer
    have hknown : l.version.isSome := by
      have htalk := h.talk
      cases htalk with
      | idle records waiting queries said known sync objects serial same => rw [known]; rfl
      | start waiting queries said known ordered objects =>
        rw [hsending] at said
        exact absurd (List.append_eq_nil_iff.mp said).2 (List.cons_ne_nil _ _)
      | asked records waiting queries said known sync objects => rw [known]; rfl
      | told early pdus serial records waiting queries said first known sync objects found answered same =>
        rw [known]; rfl
    have hrest : reply sending = sending := by
      have hall := List.filter_eq_self.mp hanswer
      exact List.filter_eq_self.mpr fun m hm => hall m (List.mem_cons_of_mem _ hm)
    refine ⟨_, inv_sendMessage h hknown hmessage hrest hmessages ?_⟩
    rw [hsending, List.append_assoc]
    rfl

/-! ## An answer -/

/-- The messages of an answer have no Serial Notify. -/
theorem reply_objects (pdus : List ObjectPdu) (serial : UInt32) :
    reply (CacheAnswer.objects pdus serial).messages = (CacheAnswer.objects pdus serial).messages := by
  refine List.filter_eq_self.mpr fun message hmessage => ?_
  rcases List.mem_cons.mp hmessage with rfl | hmessage
  · rfl
  rcases List.mem_append.mp hmessage with hobject | hend
  · obtain ⟨pdu, -, rfl⟩ := List.mem_map.mp hobject
    rfl
  · obtain rfl := List.mem_singleton.mp hend
    rfl

/-- The server answers. -/
theorem inv_answer (h : Inv version l arrived) (hwaiting : l.waiting = 1) (hsaid : reply arrived = [])
    {clientSerial : UInt32} {clientSessionID : UInt16} {isReset : Bool} {pdus : List ObjectPdu}
    {records : Multiset RtrRecord}
    (hanswer : sendCacheObjects l.cache l.sessionID clientSerial clientSessionID isReset version =
      .objects pdus l.cache.maxSerial)
    (hobjects : l.objects = records.map routerObject) (hfound : withdrawals pdus ≤ records)
    (hsame : pdus.foldl applyPdu records = resetRecords l.cache l.sessionID version) :
    Inv version ({ l with version := some version, queries := [] }.answer clientSerial clientSessionID
      isReset version) arrived := by
  have hsendable := @answer_sendable version l.sessionID l.cache clientSerial clientSessionID isReset h.sized
  have hreply := reply_objects pdus l.cache.maxSerial
  unfold RtrLink.answer
  dsimp only
  rw [hanswer] at hsendable ⊢
  refine { h with
    sendable := List.forall_mem_append.mpr ⟨(List.forall_mem_append.mp h.sendable).1, hsendable⟩
    answer := hreply
    talk := .told [.cacheResponse] pdus l.cache.maxSerial records hwaiting rfl ?_ (.inr rfl) rfl ?_ hobjects
      hfound rfl hsame }
  · rw [reply_append, hsaid, hreply]
    rfl
  · rw [hsame]
    exact inSync_start h.talk.ordered l.sessionID version

theorem inv_handleClient (h : Inv version l arrived) (horderly : l.Orderly .handleClient) :
    Inv version (l.step .handleClient) arrived := by
  show Inv version l.handleClient arrived
  by_cases hsending : l.sending = []
  swap
  · have hbusy : l.handleClient = l := if_pos (.inr hsending)
    rwa [hbusy]
  have htalk := h.talk
  rw [hsending, List.append_nil] at htalk
  cases htalk with
  | idle records waiting queries said known sync objects serial same =>
    rwa [handleClient_idle queries]
  | told early pdus serial records waiting queries said first known sync objects found answered same =>
    rwa [handleClient_idle queries]
  | start waiting queries said known ordered objects =>
    rw [handleClient_reset h.closed hsending queries h.le (by rw [known]; rfl)]
    obtain ⟨pdus, hanswer, hfound, hsame⟩ := answer_reset ordered l.sessionID version
    refine inv_answer h waiting ?_ hanswer (objects.trans (Multiset.map_zero _).symm) hfound hsame
    rw [said]
    rfl
  | asked records waiting queries said known sync objects =>
    have hbody : (be32 l.rtr.client.serial).length < 2 ^ 31 := by
      rw [length_be32]
      decide
    have hcheck := horderly
    unfold Orderly at hcheck
    dsimp only at hcheck
    rw [queries, nextQuery_onePdu (onePdu_rtrPdu rfl hbody)] at hcheck
    have hserial : (RtrPdu.mk (rtrPdu version 1 (be16 l.sessionID) (be32 l.rtr.client.serial))).serial =
        l.rtr.client.serial := serial_sendPDUWithSerial l.rtr.client.serial
    have hfresh := hcheck _ rfl (pduType_rtrPdu rfl)
    rw [hserial] at hfresh
    rw [handleClient_serial h.closed hsending queries h.le (by rw [known]; rfl)]
    obtain ⟨pdus, hanswer, hfound, hsame⟩ := answer_query sync l.sessionID hfresh
    exact inv_answer h waiting said hanswer objects hfound hsame

/-! ## The client -/

theorem header_onePdu {s : RtrState} {bytes : Bytes} (h : OnePdu bytes)
    (hstream : s.socket.stream = bytes ++ rest) :
    ∃ hdr, s.header = some hdr ∧ hdr.pduType = (RtrPdu.mk bytes).pduType := by
  have htake : s.socket.stream.take commonHeaderSize = bytes.take commonHeaderSize := by
    rw [hstream, List.take_append_of_le_length h.header]
  have hlength : commonHeaderSize ≤ s.socket.stream.length := by
    rw [hstream, List.length_append]
    exact Nat.le_trans h.header (Nat.le_add_right _ _)
  refine ⟨⟨bytes.take commonHeaderSize⟩, ?_, ?_⟩
  · unfold RtrState.header
    rw [htake]
    dsimp only
    rw [length_take h.header, if_neg]
    rintro (hshort | hzero)
    · exact Nat.not_lt.mpr hlength hshort
    · have hheader := h.header
      rw [← h.length, hzero] at hheader
      exact absurd hheader (by decide)
  · have happend := (header_append (b := bytes.drop commonHeaderSize) (List.length_take_of_le h.header)).2.1
    rw [List.take_append_drop] at happend
    exact happend.symm

theorem inv_reacts {l' : RtrLink} (h : Inv version l (message :: arrived))
    (hreacts : Reacts version message (wire l.sessionID version arrived) l l')
    (htalk : Talk version l' (arrived ++ l.sending)) : Inv version l' arrived := by
  have hafter := hreacts.rtr
  have hframe := hreacts.frame
  have hcache : l'.cache = l.cache := by rw [hframe]
  have hsession : l'.sessionID = l.sessionID := by rw [hframe]
  have hsending : l'.sending = l.sending := by rw [hframe]
  have hclosed : l'.closed = l.closed := by rw [hframe]
  exact {
    le := h.le
    clientVersion := hafter.clientVersion.trans h.clientVersion
    stream := hsession.symm ▸ hafter.stream
    connected := hafter.connected
    joined := hsession.symm ▸ hafter.joined
    errCode := hafter.errCode
    closed := hclosed.trans h.closed
    sized := hcache.symm ▸ h.sized
    sendable := hsending.symm ▸ (List.forall_mem_cons.mp h.sendable).2
    answer := hsending.symm ▸ h.answer
    talk := hsending.symm ▸ htalk }

/-- What is said behind a message that the client has handled. -/
theorem talk_reacts {l' : RtrLink} {messages : List RtrMessage} (h : Talk version l (message :: messages))
    (hreacts : Reacts version message rest l l')
    (hquiet : isReply message = false → l.waiting = 0) : Talk version l' messages := by
  obtain ⟨hafter, hqueries, hwaiting, hobjects, hobject, hframe⟩ := hreacts
  have hserial := hafter.serial
  rw [hframe]
  cases hreply : isReply message with
  | false =>
    have hzero := hquiet hreply
    have hrest : reply (message :: messages) = reply messages := by
      unfold reply
      rw [List.filter_cons, hreply, if_neg Bool.false_ne_true]
    cases message with
    | serialNotify newest =>
      cases h with
      | idle records waiting queries said known sync objects serial same =>
        -- the client asks
        refine .asked records ?_ ?_ (hrest.symm.trans said) known ?_ ?_
        · exact hwaiting.trans (congrArg (· + 1) waiting)
        · rw [hqueries, queries, hserial]
          rfl
        · rw [hserial]
          exact sync
        · exact (hobjects fun pdu => RtrMessage.noConfusion).trans objects
      | start waiting queries said known ordered objects => exact absurd said (List.cons_ne_nil _ _)
      | asked records waiting queries said known sync objects =>
        rw [hzero] at waiting
        cases waiting
      | told early pdus serial records waiting queries said first known sync objects found answered same =>
        rw [hzero] at waiting
        cases waiting
    | _ => cases hreply
  | true =>
    have hfirst : reply (message :: messages) = message :: reply messages := by
      unfold reply
      rw [List.filter_cons, if_pos hreply]
    cases h with
    | idle records waiting queries said known sync objects serial same =>
      exact absurd (hfirst.symm.trans said) (List.cons_ne_nil _ _)
    | start waiting queries said known ordered objects => exact absurd said (List.cons_ne_nil _ _)
    | asked records waiting queries said known sync objects =>
      exact absurd (hfirst.symm.trans said) (List.cons_ne_nil _ _)
    | told early pdus serial records waiting queries said first known sync objects found answered same =>
      rw [hfirst] at said
      rcases first with rfl | rfl
      · cases pdus with
        | nil =>
          -- End of Data
          obtain ⟨rfl, hrest⟩ := List.cons.inj said
          refine .idle records ?_ ?_ hrest known ?_ ?_ (hserial.trans answered) same
          · rw [hwaiting, waiting]
            rfl
          · rw [hqueries, queries]
            rfl
          · rw [hserial]
            exact sync
          · exact (hobjects fun pdu => RtrMessage.noConfusion).trans objects
        | cons pdu pdus =>
          obtain ⟨rfl, hrest⟩ := List.cons.inj said
          obtain ⟨happlied, hfound⟩ := hobject pdu pdus records rfl objects found
          refine .told [] pdus serial (applyPdu records pdu) (hwaiting.trans waiting) ?_ hrest (.inl rfl)
            known sync happlied hfound answered same
          rw [hqueries, queries]
          rfl
      · obtain ⟨rfl, hrest⟩ := List.cons.inj said
        refine .told [] pdus serial records (hwaiting.trans waiting) ?_ hrest (.inl rfl) known sync ?_
          found answered same
        · rw [hqueries, queries]
          rfl
        · exact (hobjects fun pdu => RtrMessage.noConfusion).trans objects

theorem inv_turn (h : Inv version l arrived) {keep : Bool} (horderly : l.Orderly (.turn keep)) :
    ∃ arrived', Inv version (l.step (.turn keep)) arrived' := by
  show ∃ arrived', Inv version (l.turn ⟨true, true, keep⟩) arrived'
  by_cases hpolls : l.rtr.Polls
  · cases arrived with
    | nil =>
      -- nothing has come
      have hwait : ¬ Arrived l.rtr := by
        have hsome := h.connected
        rintro (hnone | ⟨hheader, -⟩)
        · rw [hnone] at hsome
          cases hsome
        · rw [h.stream] at hheader
          exact Nat.not_succ_le_zero _ hheader
      have hsame : l.turn ⟨true, true, keep⟩ = l := by
        unfold RtrLink.turn
        rw [if_pos hpolls, if_neg hwait]
      rw [hsame]
      exact ⟨[], h⟩
    | cons message arrived =>
      have hsendable := (List.forall_mem_cons.mp h.sendable).1
      have hsmall : version < 128 := UInt8.lt_of_le_of_lt h.le (by decide)
      have hreacts := turn_reacts (t := ⟨true, true, keep⟩) hsendable hpolls h.stream h.clientVersion
        hsmall h.joined rfl rfl
      refine ⟨arrived, inv_reacts h hreacts (talk_reacts h.talk hreacts fun hreply => ?_)⟩
      obtain ⟨hpdu, -, htype⟩ := message_header hsendable l.sessionID
      obtain ⟨hdr, hheader, hdrType⟩ := header_onePdu hpdu h.stream
      refine horderly hdr hheader ?_
      rw [hdrType, htype]
      cases message with
      | serialNotify newest => rfl
      | _ => cases hreply
  · -- the loop has ended
    have hend : l.turn ⟨true, true, keep⟩ = { l with rtr := l.rtr.step (.turn ⟨true, true, keep⟩) } := by
      unfold RtrLink.turn
      rw [if_neg hpolls]
    have hstep : ∃ running, l.rtr.step (.turn ⟨true, true, keep⟩) = { l.rtr with running := running } := by
      show ∃ running, (if l.rtr.running then if l.rtr.keepGoing && !l.rtr.client.stop then l.rtr.turn _
        else l.rtr.finish _ else l.rtr) = _
      cases hrunning : l.rtr.running with
      | false => exact ⟨l.rtr.running, if_neg Bool.false_ne_true⟩
      | true =>
        refine ⟨false, ?_⟩
        rw [if_pos rfl, if_neg fun hgoes => hpolls ⟨hrunning, hgoes⟩]
        unfold finish
        dsimp only
        rw [if_neg fun herror => herror.2 h.errCode]
    obtain ⟨running, hstep⟩ := hstep
    rw [hend, hstep]
    exact ⟨arrived, { h with talk := h.talk.client rfl }⟩

theorem inv_receivePDUs (h : Inv version l arrived) (returnAfterEndOfData singlePoll : Bool) :
    Inv version (l.step (.receivePDUs returnAfterEndOfData singlePoll)) arrived :=
  { h with
    errCode := rfl
    talk := h.talk.client rfl }

/-! ## Runs -/

/-- Every step keeps the invariant. -/
theorem inv_step (l : RtrLink) (op : RtrLink.Op) (h : ∃ arrived, Inv version l arrived)
    (horderly : l.Orderly op) : ∃ arrived, Inv version (l.step op) arrived := by
  obtain ⟨arrived, h⟩ := h
  cases op with
  | change op => exact ⟨arrived, inv_change h horderly⟩
  | serialNotify => exact inv_notify h horderly
  | handleClient => exact ⟨arrived, inv_handleClient h horderly⟩
  | send => exact inv_send h
  | turn keep => exact inv_turn h horderly
  | receivePDUs returnAfterEndOfData singlePoll =>
    exact ⟨arrived, inv_receivePDUs h returnAfterEndOfData singlePoll⟩

theorem inv_initial {params : RtrParams} (hversion : params.version ≤ rtrProtocolVersion)
    (lastSent lastRecv : RtrPduType) (serial : UInt32) (sessionID : UInt16) :
    Inv params.version (RtrLink.initial params lastSent lastRecv serial sessionID) [] where
  le := hversion
  clientVersion := rfl
  stream := rfl
  connected := rfl
  joined := .inl rfl
  errCode := rfl
  closed := rfl
  sized := fun _ h => absurd h List.not_mem_nil
  sendable := fun _ h => absurd h List.not_mem_nil
  answer := rfl
  talk := .start rfl rfl rfl rfl ⟨List.Pairwise.nil, fun _ h => absurd h List.not_mem_nil⟩ rfl

theorem synchronised_of_inv (h : Inv version l arrived) : l.Synchronised := by
  intro hzero
  have htalk := h.talk
  cases htalk with
  | idle records waiting queries said known sync objects serial same =>
    refine ⟨serial, fun v hv => ?_⟩
    obtain rfl := Option.some.inj (known.symm.trans hv)
    rw [objects, same]
  | start waiting queries said known ordered objects =>
    rw [hzero] at waiting
    cases waiting
  | asked records waiting queries said known sync objects =>
    rw [hzero] at waiting
    cases waiting
  | told early pdus serial records waiting queries said first known sync objects found answered same =>
    rw [hzero] at waiting
    cases waiting

end RtrLinkLemmas

open RtrLinkLemmas

/-- In every run of the link whose steps are orderly, whatever the order in which the threads take them:
with no query outstanding the client has the serial and the live objects of the cache that the server
answered from last, and neither side has given up. -/
theorem link_synchronised (params : RtrParams) (lastSent lastRecv : RtrPduType) (serial : UInt32)
    (sessionID : UInt16) (ops : List RtrLink.Op) (hversion : params.version ≤ rtrProtocolVersion)
    (h : EachStep RtrLink.step RtrLink.Orderly (RtrLink.initial params lastSent lastRecv serial sessionID)
      ops) :
    Always RtrLink.step (fun l => l.Synchronised ∧ l.rtr.errCode = .noError ∧ l.closed = false)
      (RtrLink.initial params lastSent lastRecv serial sessionID) ops := by
  have hinv := always_of_eachStep inv_step ⟨[], inv_initial hversion lastSent lastRecv serial sessionID⟩ h
  intro before after heq
  obtain ⟨arrived, hinv⟩ := hinv before after heq
  exact ⟨synchronised_of_inv hinv, hinv.errCode, hinv.closed⟩

/-- The answer to the first query, with the objects of a cache that is still empty. -/
def firstAnswer : List RtrLink.Op :=
  [.handleClient, .send, .send, .receivePDUs false false, .turn true, .turn true]

/-- A prefix, for which the client is notified. -/
def nextAnswer : List RtrLink.Op :=
  [.change (.append [.roa ⟨.v4 1, 24⟩ 24 65001]), .serialNotify, .turn true, .handleClient, .send, .send,
    .send, .turn true, .turn true, .turn true]

def sampleLink : RtrLink := RtrLink.initial ⟨2, false⟩ .reserved .reserved 0 7

theorem link_synchronised_sample :
    ((firstAnswer ++ nextAnswer).foldl RtrLink.step sampleLink).waiting = 0 ∧
      Multiset.card ((firstAnswer ++ nextAnswer).foldl RtrLink.step sampleLink).objects = 1 ∧
      ((firstAnswer ++ nextAnswer).foldl RtrLink.step sampleLink).Synchronised := by
  have horderly : EachStep RtrLink.step RtrLink.Orderly sampleLink (firstAnswer ++ nextAnswer) := by
    decide +kernel
  refine ⟨by decide +kernel, by decide +kernel, ?_⟩
  exact (link_synchronised ⟨2, false⟩ .reserved .reserved 0 7 (firstAnswer ++ nextAnswer) (by decide) horderly
    _ [] (List.append_nil _).symm).1

/-- The condition on Serial Notify is needed. A second one that is handled before the answer to the
first query makes a second query of the same serial, and the prefix is announced twice. -/
theorem notify_doubles :
    ¬ ([RtrLink.Op.change (.append [.roa ⟨.v4 1, 24⟩ 24 65001]), .serialNotify, .serialNotify, .turn true,
      .turn true, .handleClient, .send, .send, .send, .handleClient, .send, .send, .send, .turn true, .turn true,
      .turn true, .turn true, .turn true, .turn true].foldl RtrLink.step
        (firstAnswer.foldl RtrLink.step sampleLink)).Synchronised := by
  intro h
  have hobjects := congrArg Multiset.card ((h (by decide +kernel)).2 2 (by decide +kernel))
  exact absurd hobjects (by decide +kernel)

end SrxSuite.Tools

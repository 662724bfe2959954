import SrxSuite.Lib.Latest
import SrxSuite.PrefixCache.Runs
import SrxSuite.PrefixCache.Locality
import SrxSuite.Server.EndOfData

/-!
# Changes of the RPKI data

The RPKI data change in three ways. A ROA changes the results in the update cache at once and only
the notice waits (`notifyUpdateCacheForROAChange`, `server/prefix_cache.c`). A router key makes the
updates wait that are attached to it (`ski_registerKey` and `ski_unregisterKey`,
`server/ski_cache.c`). An ASPA record does nothing until End of Data.

The crypto library is a parameter (`CryptoApi`), the SKI cache is a map from its keys.

What the validation of an update yields (`outcome`) is said by the RPKI data: the calls of the prefix
cache say which ROAs are present and what the update is, RFC 6811 says the rest. `Change` says what
any number of changes leave: the results of the prefix cache are stored, and the updates it has
reported are queued.
-/

namespace SrxSuite.Server

open Aspa Latest

/-! ## Router keys -/

/-- What a router key is registered for. -/
structure SkiKey where
  asn : UInt32
  ski : List UInt8
  algoID : UInt8
  deriving DecidableEq, Repr

/-- `_SKI_CACHE_DATA`: the number of keys and the updates that need them. -/
structure SkiCacheData where
  counter : UInt8
  cacheUID : List UInt32
  deriving DecidableEq, Repr

/-- The SKI cache. -/
abbrev SkiCache := SkiKey → Option SkiCacheData

/-- The updates of `cacheUID`, queued in order. -/
def queueKeys (rpkiQueue : List QueueElem) (cacheUID : List UInt32) : List QueueElem :=
  cacheUID.foldl (fun queue updateID => enqueueElems .key updateID queue) rpkiQueue

/-- `ski_registerKey`. -/
def skiRegisterKey (cache : SkiCache) (rpkiQueue : List QueueElem) (key : SkiKey) :
    SkiCache × List QueueElem :=
  let cData := (cache key).getD ⟨0, []⟩
  (Function.update cache key (some { cData with counter := cData.counter + 1 }),
    queueKeys rpkiQueue cData.cacheUID)

/-- `ski_unregisterKey`: data without updates are removed. -/
def skiUnregisterKey (cache : SkiCache) (rpkiQueue : List QueueElem) (key : SkiKey) :
    SkiCache × List QueueElem :=
  match cache key with
  | none => (cache, rpkiQueue)
  | some cData =>
    if 0 < cData.counter then
      if cData.cacheUID = [] then (Function.update cache key none, rpkiQueue)
      else (Function.update cache key (some { cData with counter := cData.counter - 1 }),
        queueKeys rpkiQueue cData.cacheUID)
    else (cache, rpkiQueue)

/-- The crypto library: what it does to the keys of a `SkiKey`, and how it validates a BGPsec path with
the keys. -/
structure CryptoApi where
  registerPublicKey : List (List UInt8) → List UInt8 → Option (List (List UInt8))
  unregisterPublicKey : List (List UInt8) → List UInt8 → List (List UInt8)
  validate : (SkiKey → List (List UInt8)) → Option (List UInt8) → UInt8

/-- `SCA_ECDSA_ALGORITHM`. -/
def ecdsaAlgorithm : UInt8 := 1

/-! ## The code -/

/-- The RPKI handler with everything that changes when RPKI data arrive. -/
structure RpkiSystem where
  handler : RpkiHandler
  prefixCache : Cache.PrefixCache
  skiCache : SkiCache
  keys : SkiKey → List (List UInt8)

/-- `notifyUpdateCacheForROAChange`. -/
def notifyUpdateCacheForROAChange (s : RpkiHandler) (report : Cache.Report) : RpkiHandler :=
  match modifyUpdateResult s.server.updateCache report.updateID
    ⟨report.roaResult.code, SrxResult.doNotUse.code, SrxResult.doNotUse.code⟩
    report.suppressNotification with
  | none => s
  | some (updateCache, valRes) =>
    { server := { s.server with
        updateCache := updateCache
        reports := s.server.reports ++ valRes.toList }
      rpkiQueue := if report.suppressNotification then
          enqueueElems .roa report.updateID s.rpkiQueue
        else s.rpkiQueue }

/-- The call of the prefix cache for a ROA; the notices are suppressed. -/
def roaCall (isAnn : Bool) (oas : UInt32) (p : Cache.IPPrefix) (maxLen : UInt8)
    (valCacheID : UInt32) : Cache.Op :=
  if isAnn then .add oas p maxLen valCacheID true else .del oas p maxLen valCacheID true

/-- `handlePrefix`: the prefix cache reports what the ROA changes. `none` is a call that does not come
to its end. -/
def handlePrefix (s : RpkiSystem) (isAnn : Bool) (oas : UInt32) (p : Cache.IPPrefix) (maxLen : UInt8)
    (valCacheID : UInt32) : Option RpkiSystem :=
  (Cache.step s.prefixCache (roaCall isAnn oas p maxLen valCacheID)).map fun prefixCache =>
    { s with
      prefixCache := prefixCache
      handler := (prefixCache.reports.drop s.prefixCache.reports.length).foldl
        notifyUpdateCacheForROAChange s.handler }

/-- `handleRouterKey`. A key that the crypto library does not take is not registered. -/
def handleRouterKey (api : CryptoApi) (s : RpkiSystem) (isAnn : Bool) (key : SkiKey)
    (keyInfo : List UInt8) : RpkiSystem :=
  let changed (keys : List (List UInt8)) (ski : SkiCache × List QueueElem) : RpkiSystem :=
    { s with
      keys := Function.update s.keys key keys
      skiCache := ski.1
      handler := { s.handler with
        server.rpki.validateSignature := api.validate (Function.update s.keys key keys)
        rpkiQueue := ski.2 } }
  if key.algoID = ecdsaAlgorithm then
    if isAnn then
      match api.registerPublicKey (s.keys key) keyInfo with
      | some keys => changed keys (skiRegisterKey s.skiCache s.handler.rpkiQueue key)
      | none => s
    else
      changed (api.unregisterPublicKey (s.keys key) keyInfo)
        (skiUnregisterKey s.skiCache s.handler.rpkiQueue key)
  else s

/-- What the RPKI cache sends: ROAs, router keys and ASPA records, announced or withdrawn, and End of
Data. -/
inductive RpkiOp
  | roa (isAnn : Bool) (oas : UInt32) (p : Cache.IPPrefix) (maxLen : UInt8) (valCacheID : UInt32)
  | routerKey (isAnn : Bool) (key : SkiKey) (keyInfo : List UInt8)
  | aspa (lookup : UInt32 → UInt32 → UInt8 → AspaResult)
  | endOfData (lastEndOfDataTime : Nat) (delay : UInt32 → Nat)

/-- One step. -/
def RpkiSystem.step (api : CryptoApi) (s : RpkiSystem) : RpkiOp → Option RpkiSystem
  | .roa isAnn oas p maxLen valCacheID => handlePrefix s isAnn oas p maxLen valCacheID
  | .routerKey isAnn key keyInfo => some (handleRouterKey api s isAnn key keyInfo)
  | .aspa lookup => some { s with handler.server.rpki.lookup := lookup }
  | .endOfData lastEndOfDataTime delay =>
    some { s with handler := handleEndOfData s.handler lastEndOfDataTime delay }

/-- The system with the calls that its prefix cache has got so far. -/
structure RpkiState extends RpkiSystem where
  calls : List Cache.Op

/-- What an operation means for the prefix cache. -/
def RpkiOp.calls : RpkiOp → List Cache.Op
  | .roa isAnn oas p maxLen valCacheID => [roaCall isAnn oas p maxLen valCacheID]
  | _ => []

/-- One step. -/
def RpkiState.step (api : CryptoApi) (s : RpkiState) (op : RpkiOp) : Option RpkiState :=
  (s.toRpkiSystem.step api op).map fun system => ⟨system, s.calls ++ op.calls⟩

/-! ## Results and notices -/

/-- The three validations. -/
inductive Validation
  | roa | bgpsec | aspa
  deriving DecidableEq, Repr

/-- The bit of a notification. -/
def Validation.valType : Validation → UInt8
  | .roa => vrtROA
  | .bgpsec => vrtBGPSEC
  | .aspa => vrtASPA

/-- The reason of the queue. -/
def Validation.reason : Validation → QueueReason
  | .roa => .roa
  | .bgpsec => .key
  | .aspa => .aspa

/-- The part of a result. -/
def Validation.ofResult : Validation → UpdateResult → UInt8
  | .roa, r => r.roaResult
  | .bgpsec, r => r.bgpsecResult
  | .aspa, r => r.aspaResult

/-- The stored result of an update. -/
def stored (s : RpkiState) (kind : Validation) (id : UInt32) : Option UInt8 :=
  (s.handler.server.updateCache.tableFind id).map fun entry => kind.ofResult entry.srxResult

/-- What a notification says. -/
def notified (kind : Validation) (id : UInt32) (rep : ValidationResult) : Option UInt8 :=
  if rep.updateID = id ∧ isSet rep.valType kind.valType then some (kind.ofResult rep.valResult)
  else none

/-- The result the clients were notified of last. -/
def lastNotified (s : RpkiState) (kind : Validation) (id : UInt32) : Option UInt8 :=
  latest (notified kind id) s.handler.server.reports

/-- What a report of the prefix cache says; DONOTUSE is no result. -/
def reported (id : UInt32) (report : Cache.Report) : Option UInt8 :=
  if report.updateID = id ∧ report.roaResult ≠ .doNotUse then some report.roaResult.code else none

/-- The prefix and the origin AS of an update, if its origin validation was requested. -/
def requestedOrigin (calls : List Cache.Op) (id : UInt32) : Option (Cache.IPPrefix × UInt32) :=
  calls.findSome? fun
    | .request updateID p as => if updateID = id then some (p, as) else none
    | _ => none

/-- The ROAs of an address family that are present. -/
def presentRoas (calls : List Cache.Op) (family : Cache.IPVersion) : List Cache.Roa :=
  (Cache.History.empty.run (calls.filter fun call => call.ipPrefix.version = family)).roas

/-- What the validation of an update yields with the present RPKI data: the result of RFC 6811 with
the ROAs of its family, the result for the BGPsec path, the verdict for the AS path. -/
def outcome (s : RpkiState) (kind : Validation) (id : UInt32) : Option UInt8 :=
  match kind with
  | .roa => (requestedOrigin s.calls id).map fun x =>
    (Cache.rfc6811 (presentRoas s.calls x.1.version) x.1.key x.2).code
  | .bgpsec => (s.handler.server.updateCache.tableFind id).bind fun entry =>
    entry.bgpsecPath.map fun path => s.handler.server.rpki.validateSignature (some path)
  | .aspa => (s.handler.server.updateCache.tableFind id).bind fun entry =>
    if entry.aspathCacheID = 0 then none
    else (s.handler.server.aspathCache entry.aspathCacheID).map
      (·.verdict s.handler.server.rpki.lookup)

/-- The update waits for the validation to be reported. -/
def QueuedFor (rpkiQueue : List QueueElem) (kind : Validation) (id : UInt32) : Prop :=
  ∃ e ∈ rpkiQueue, e.updateID = id ∧ isSet e.reason.bits kind.reason.bits = true

/-- The update is attached to the key. -/
def Attached (cache : SkiCache) (key : SkiKey) (id : UInt32) : Prop :=
  ∃ cData, cache key = some cData ∧ id ∈ cData.cacheUID

/-- A call for a ROA. -/
def isRoaCall : Cache.Op → Bool
  | .request _ _ _ => false
  | _ => true

/-- No ROA stands, bit by bit, at or above the prefix of an update of the other address family: the
tree of the prefix cache does not tell the families apart. -/
def FamiliesApart (calls : List Cache.Op) : Prop :=
  ∀ updateID p as, Cache.Op.request updateID p as ∈ calls →
    ∀ call ∈ calls, isRoaCall call = true → call.ipPrefix.version ≠ p.version →
      ¬ call.ipPrefix.key <+: p.key

/-- The prefix cache as calls have built it that reach none of its defects. -/
structure Built (s : RpkiState) : Prop where
  noDefect : Cache.Along Cache.NoDefect .empty Cache.initializePrefixCache s.calls
  strict : Cache.Along Cache.Strict .empty Cache.initializePrefixCache s.calls
  cache : Cache.run Cache.initializePrefixCache s.calls = some s.prefixCache
  families : FamiliesApart s.calls

/-- The call for a ROA reaches no defect. -/
structure RoaFits (s : RpkiState) (call : Cache.Op) : Prop where
  noDefect : Cache.NoDefect (Cache.History.empty.run s.calls) s.prefixCache call
  strict : Cache.Strict (Cache.History.empty.run s.calls) s.prefixCache call
  families : FamiliesApart (s.calls ++ [call])

namespace RpkiChangeLemmas

open UpdateCacheLemmas EndOfDataLemmas

variable {api : CryptoApi} {rpkiQueue : List QueueElem} {kind : Validation} {id updateID : UInt32}

/-! ## The queue -/

theorem isSet_all (kind : Validation) : isSet QueueReason.all.bits kind.reason.bits = true := by
  cases kind with
  | roa => decide
  | bgpsec => decide
  | aspa => decide

theorem isSet_reason (kind : Validation) :
    isSet kind.reason.bits kind.reason.bits = true := by
  cases kind with
  | roa => decide
  | bgpsec => decide
  | aspa => decide

/-- An update that waits goes on waiting when another one, or the same, is queued. -/
theorem queuedFor_enqueue (hq : QueuedFor rpkiQueue kind id) (reason : QueueReason)
    (updateID : UInt32) : QueuedFor (enqueueElems reason updateID rpkiQueue) kind id := by
  induction rpkiQueue with
  | nil =>
    obtain ⟨e, he, -⟩ := hq
    cases he
  | cons first rest ih =>
    obtain ⟨e, he, hid, hbit⟩ := hq
    unfold enqueueElems
    split
    · rcases List.mem_cons.mp he with rfl | he
      · exact ⟨e, List.mem_cons_self, hid, hbit⟩
      · obtain ⟨e', he', hid', hbit'⟩ := ih ⟨e, he, hid, hbit⟩
        exact ⟨e', List.mem_cons_of_mem _ he', hid', hbit'⟩
    · rcases List.mem_cons.mp he with rfl | he
      · refine ⟨_, List.mem_cons_self, hid, ?_⟩
        dsimp only
        split
        · exact hbit
        · exact isSet_all kind
      · exact ⟨e, List.mem_cons_of_mem _ he, hid, hbit⟩

/-- An update that is queued waits. -/
theorem queuedFor_self (rpkiQueue : List QueueElem) (kind : Validation) (updateID : UInt32) :
    QueuedFor (enqueueElems kind.reason updateID rpkiQueue) kind updateID := by
  induction rpkiQueue with
  | nil => exact ⟨_, List.mem_cons_self, rfl, isSet_reason kind⟩
  | cons first rest ih =>
    unfold enqueueElems
    split
    · obtain ⟨e, he, hid, hbit⟩ := ih
      exact ⟨e, List.mem_cons_of_mem _ he, hid, hbit⟩
    · next hid =>
      refine ⟨_, List.mem_cons_self, Decidable.not_not.mp hid, ?_⟩
      dsimp only
      split
      · next hreason =>
        rw [hreason]
        exact isSet_reason kind
      · exact isSet_all kind

/-- What is in the queue afterwards: what was there, a new element, or one with another reason. -/
theorem mem_enqueueElems {reason : QueueReason} {e : QueueElem}
    (he : e ∈ enqueueElems reason updateID rpkiQueue) :
    e ∈ rpkiQueue ∨ e = ⟨reason, updateID⟩ ∨ ∃ e₀ ∈ rpkiQueue, e₀.updateID = updateID ∧
      e = { e₀ with reason := if e₀.reason = reason then e₀.reason else .all } := by
  induction rpkiQueue with
  | nil => exact .inr (.inl (List.mem_singleton.mp he))
  | cons first rest ih =>
    unfold enqueueElems at he
    split at he
    · rcases List.mem_cons.mp he with rfl | he
      · exact .inl List.mem_cons_self
      · rcases ih he with hmem | rfl | ⟨e₀, he₀, hid, rfl⟩
        · exact .inl (List.mem_cons_of_mem _ hmem)
        · exact .inr (.inl rfl)
        · exact .inr (.inr ⟨e₀, List.mem_cons_of_mem _ he₀, hid, rfl⟩)
    · next hid =>
      rcases List.mem_cons.mp he with rfl | he
      · exact .inr (.inr ⟨first, List.mem_cons_self, Decidable.not_not.mp hid, rfl⟩)
      · exact .inl (List.mem_cons_of_mem _ he)

/-- All updates of the queue have the property `P`. -/
theorem ids_enqueueElems {P : UInt32 → Prop} (hq : ∀ e ∈ rpkiQueue, P e.updateID)
    (hid : P updateID) (reason : QueueReason) :
    ∀ e ∈ enqueueElems reason updateID rpkiQueue, P e.updateID := by
  intro e he
  rcases mem_enqueueElems he with hmem | rfl | ⟨e₀, he₀, -, rfl⟩
  · exact hq e hmem
  · exact hid
  · exact hq e₀ he₀

theorem queuedFor_queueKeys (hq : QueuedFor rpkiQueue kind id) (cacheUID : List UInt32) :
    QueuedFor (queueKeys rpkiQueue cacheUID) kind id := by
  induction cacheUID generalizing rpkiQueue with
  | nil => exact hq
  | cons uid rest ih => exact ih (queuedFor_enqueue hq .key uid)

theorem ids_queueKeys {P : UInt32 → Prop} (hq : ∀ e ∈ rpkiQueue, P e.updateID)
    {cacheUID : List UInt32} (hids : ∀ uid ∈ cacheUID, P uid) :
    ∀ e ∈ queueKeys rpkiQueue cacheUID, P e.updateID := by
  induction cacheUID generalizing rpkiQueue with
  | nil => exact hq
  | cons uid rest ih =>
    exact ih (ids_enqueueElems hq (hids uid List.mem_cons_self) .key)
      fun uid' huid' => hids uid' (List.mem_cons_of_mem _ huid')

/-! ## Router keys -/

/-- The SKI cache attaches the same updates. -/
theorem attached_register (cache : SkiCache) (key key' : SkiKey) (id : UInt32) :
    Attached (skiRegisterKey cache rpkiQueue key).1 key' id ↔ Attached cache key' id := by
  unfold skiRegisterKey Attached
  dsimp only
  by_cases hkey : key' = key
  · subst hkey
    rw [Function.update_self]
    cases hdata : cache key' with
    | none => simp
    | some cData => simp
  · rw [Function.update_of_ne hkey]

theorem attached_unregister (cache : SkiCache) (key key' : SkiKey) (id : UInt32) :
    Attached (skiUnregisterKey cache rpkiQueue key).1 key' id ↔ Attached cache key' id := by
  unfold skiUnregisterKey
  cases hdata : cache key with
  | none => rfl
  | some cData =>
    dsimp only
    split
    · split
      · next hempty =>
        unfold Attached
        dsimp only
        by_cases hkey : key' = key
        · subst hkey
          rw [Function.update_self, hdata]
          simp [hempty]
        · rw [Function.update_of_ne hkey]
      · unfold Attached
        dsimp only
        by_cases hkey : key' = key
        · subst hkey
          rw [Function.update_self, hdata]
          simp
        · rw [Function.update_of_ne hkey]
    · rfl

/-- What a router key does to the SKI cache and the queue. -/
structure SkiChange (cache : SkiCache) (rpkiQueue : List QueueElem) (key : SkiKey)
    (out : SkiCache × List QueueElem) : Prop where
  attached : ∀ key' id, Attached out.1 key' id ↔ Attached cache key' id
  waits : ∀ kind id, QueuedFor rpkiQueue kind id → QueuedFor out.2 kind id
  ids : ∀ P : UInt32 → Prop, (∀ id, Attached cache key id → P id) →
    (∀ e ∈ rpkiQueue, P e.updateID) → ∀ e ∈ out.2, P e.updateID

variable {cache : SkiCache} {key : SkiKey}

theorem register_change (cache : SkiCache) (rpkiQueue : List QueueElem) (key : SkiKey) :
    SkiChange cache rpkiQueue key (skiRegisterKey cache rpkiQueue key) where
  attached := attached_register cache key
  waits _ _ hq := queuedFor_queueKeys hq _
  ids P hatt hq := by
    refine ids_queueKeys hq fun uid huid => hatt uid ?_
    cases hdata : cache key with
    | none =>
      rw [hdata] at huid
      cases huid
    | some cData =>
      rw [hdata] at huid
      exact ⟨cData, hdata, huid⟩

theorem unregister_change (cache : SkiCache) (rpkiQueue : List QueueElem) (key : SkiKey) :
    SkiChange cache rpkiQueue key (skiUnregisterKey cache rpkiQueue key) where
  attached := attached_unregister cache key
  waits kind id hq := by
    unfold skiUnregisterKey
    split
    · exact hq
    · split
      · split
        · exact hq
        · exact queuedFor_queueKeys hq _
      · exact hq
  ids P hatt hq := by
    unfold skiUnregisterKey
    split
    · exact hq
    · next cData hdata =>
      split
      · split
        · exact hq
        · exact ids_queueKeys hq fun uid huid => hatt uid ⟨cData, hdata, huid⟩
      · exact hq

/-! ## ROAs -/

/-- What reports of the prefix cache, all of them suppressed, do to the handler. -/
structure RoasReported (reports : List Cache.Report) (s s' : RpkiHandler) : Prop where
  paths : s'.server.aspathCache = s.server.aspathCache
  notices : s'.server.reports = s.server.reports
  entries : ∀ id, s'.server.updateCache.tableFind id =
    (s.server.updateCache.tableFind id).map fun entry =>
      { entry with
        srxResult.roaResult :=
          (latest (reported id) reports).getD entry.srxResult.roaResult }
  waits : ∀ kind id, QueuedFor s.rpkiQueue kind id → QueuedFor s'.rpkiQueue kind id
  queued : ∀ id, (s.server.updateCache.tableFind id).isSome →
    (latest (reported id) reports).isSome → QueuedFor s'.rpkiQueue .roa id

theorem RoasReported.refl (s : RpkiHandler) : RoasReported [] s s where
  paths := rfl
  notices := rfl
  entries _ := (Option.map_id' ..).symm
  waits _ _ h := h
  queued _ _ h := Bool.noConfusion h

theorem RoasReported.trans {reports reports' : List Cache.Report} {s s' s'' : RpkiHandler}
    (h : RoasReported reports s s') (h' : RoasReported reports' s' s'') :
    RoasReported (reports ++ reports') s s'' where
  paths := h'.paths.trans h.paths
  notices := h'.notices.trans h.notices
  entries id := by
    rw [h'.entries, h.entries, Option.map_map]
    refine Option.map_congr fun entry _ => ?_
    rw [latest_append, Option.getD_or]
    rfl
  waits kind id hq := h'.waits kind id (h.waits kind id hq)
  queued id hid hsome := by
    rw [latest_append, Option.isSome_or, Bool.or_eq_true] at hsome
    rcases hsome with hsome | hsome
    · refine h'.queued id ?_ hsome
      rw [h.entries, Option.isSome_map]
      exact hid
    · exact h'.waits _ _ (h.queued id hid hsome)

theorem code_eq_doNotUse {result : SrxResult} :
    result.code = SrxResult.doNotUse.code ↔ result = .doNotUse := by
  cases result <;> decide

/-- A result of the prefix cache, taken over as `reported` says. -/
theorem useResult_reported (report : Cache.Report) (old : UInt8) :
    useResult report.roaResult.code old = (reported report.updateID report).getD old := by
  unfold useResult reported
  by_cases hres : report.roaResult = .doNotUse
  · rw [if_neg (not_not_intro (code_eq_doNotUse.mpr hres)), if_neg fun h => h.2 hres]
    rfl
  · rw [if_pos (mt code_eq_doNotUse.mp hres), if_pos ⟨rfl, hres⟩]
    rfl

theorem latest_reported (report : Cache.Report) (id : UInt32) :
    latest (reported id) [report] = reported id report := by
  rw [latest_cons]
  rfl

theorem reported_other {report : Cache.Report} (hid : id ≠ report.updateID) :
    reported id report = none :=
  if_neg fun h => hid h.1.symm

/-- One report. -/
theorem notify_reported (s : RpkiHandler) {report : Cache.Report}
    (hsuppress : report.suppressNotification = true) :
    RoasReported [report] s (notifyUpdateCacheForROAChange s report) := by
  unfold notifyUpdateCacheForROAChange modifyUpdateResult
  rw [hsuppress]
  cases hfind : s.server.updateCache.tableFind report.updateID with
  | none =>
    refine ⟨rfl, rfl, fun id => ?_, fun _ _ hq => hq, fun id hid hsome => ?_⟩
    · by_cases hid : id = report.updateID
      · rw [hid]
        show s.server.updateCache.tableFind _ = _
        rw [hfind, Option.map_none]
      · rw [latest_reported, reported_other hid]
        exact (Option.map_id' ..).symm
    · rw [latest_reported] at hsome
      by_cases heq : id = report.updateID
      · rw [heq, hfind] at hid
        cases hid
      · rw [reported_other heq] at hsome
        cases hsome
  | some cEntry =>
    refine ⟨rfl, List.append_nil _, fun id => ?_, fun kind id hq => queuedFor_enqueue hq .roa _,
      fun id hid hsome => ?_⟩
    · dsimp only [Option.map_some]
      rw [tableFind_write, latest_reported]
      refine Option.map_congr fun entry _ => ?_
      split
      · next hid =>
        subst hid
        rw [← useResult_reported]
        rfl
      · next hid =>
        rw [reported_other hid]
        rfl
    · rw [latest_reported] at hsome
      by_cases heq : id = report.updateID
      · rw [heq]
        exact queuedFor_self _ .roa _
      · rw [reported_other heq] at hsome
        cases hsome

/-- All reports of a call. -/
theorem notify_all (s : RpkiHandler) {reports : List Cache.Report}
    (hsuppress : ∀ report ∈ reports, report.suppressNotification = true) :
    RoasReported reports s (reports.foldl notifyUpdateCacheForROAChange s) := by
  induction reports generalizing s with
  | nil => exact RoasReported.refl s
  | cons report rest ih =>
    have hfirst := notify_reported s (hsuppress report List.mem_cons_self)
    exact hfirst.trans (ih _ fun r hr => hsuppress r (List.mem_cons_of_mem _ hr))

/-- The reports are appended, all suppressed as the call says. -/
theorem step_appends {c c' : Cache.PrefixCache} {op : Cache.Op} (hstep : Cache.step c op = some c') :
    ∃ new, c'.reports = c.reports ++ new ∧
      ∀ report ∈ new, report.suppressNotification = op.suppress := by
  obtain ⟨t, reports⟩ := c
  rw [Cache.step_reports] at hstep
  obtain ⟨fresh, hfresh, rfl⟩ := Option.map_eq_some_iff.mp hstep
  have hids : Cache.NearIds (fun _ => True) op.ipPrefix.key t :=
    fun _ _ _ _ _ _ _ => trivial
  obtain ⟨-, -, hreports⟩ := Cache.step_near hids (fun _ _ _ _ => trivial) hfresh
  exact ⟨fresh.reports, rfl, fun report hreport => (hreports report hreport).2⟩

/-- The update is in the cache. -/
def Known (s : RpkiHandler) (id : UInt32) : Prop := (s.server.updateCache.tableFind id).isSome

theorem known_of_info {s : RpkiHandler} {info : UpdateResultInfo}
    (hinfo : getUpdateResult s.server.updateCache id = some info) : Known s id := by
  obtain ⟨entry, hfind, -⟩ := RequestLemmas.tableFind_of_info hinfo
  unfold Known
  rw [hfind]
  rfl

/-- Reports of unknown updates are not queued. -/
theorem notify_ids {P : UInt32 → Prop} {reports : List Cache.Report} {s : RpkiHandler}
    (hknown : ∀ id, Known s id → P id)
    (hsuppress : ∀ report ∈ reports, report.suppressNotification = true)
    (hq : ∀ e ∈ s.rpkiQueue, P e.updateID) :
    ∀ e ∈ (reports.foldl notifyUpdateCacheForROAChange s).rpkiQueue, P e.updateID := by
  induction reports generalizing s with
  | nil => exact hq
  | cons report rest ih =>
    have hreport := hsuppress report List.mem_cons_self
    refine ih (fun id hid => hknown id ?_)
      (fun r hr => hsuppress r (List.mem_cons_of_mem _ hr)) ?_
    · unfold Known at hid
      rw [(notify_reported s hreport).entries, Option.isSome_map] at hid
      exact hid
    · unfold notifyUpdateCacheForROAChange modifyUpdateResult
      rw [hreport]
      cases hfind : s.server.updateCache.tableFind report.updateID with
      | none => exact hq
      | some cEntry =>
        refine ids_enqueueElems hq (hknown _ ?_) .roa
        unfold Known
        rw [hfind]
        rfl

/-- What does not depend on the ROA result. -/
theorem RoasReported.bind_eq {β : Type} {reports : List Cache.Report} {s s' : RpkiHandler}
    (h : RoasReported reports s s') (id : UInt32) {f : CacheEntry → Option β}
    (hf : ∀ (entry : CacheEntry) v, f { entry with srxResult.roaResult := v } = f entry) :
    (s'.server.updateCache.tableFind id).bind f = (s.server.updateCache.tableFind id).bind f := by
  rw [h.entries, Option.bind_map]
  exact congrArg _ (funext fun entry => hf entry _)

/-! ## One change -/

/-- What changes until End of Data. -/
structure Change (api : CryptoApi) (s s' : RpkiSystem) : Prop where
  roas : ∃ new, s'.prefixCache.reports = s.prefixCache.reports ++ new ∧
    RoasReported new s.handler s'.handler
  signatures : s.handler.server.rpki.validateSignature = api.validate s.keys →
    s'.handler.server.rpki.validateSignature = api.validate s'.keys
  attached : ∀ key id, Attached s'.skiCache key id ↔ Attached s.skiCache key id
  ids : (∀ key id, Attached s.skiCache key id → Known s.handler id) →
    (∀ e ∈ s.handler.rpkiQueue, Known s.handler e.updateID) →
      ∀ e ∈ s'.handler.rpkiQueue, Known s.handler e.updateID

namespace Change

variable {s s' s'' : RpkiSystem}

theorem waits (h : Change api s s') (hq : QueuedFor s.handler.rpkiQueue kind id) :
    QueuedFor s'.handler.rpkiQueue kind id := by
  obtain ⟨new, -, hnew⟩ := h.roas
  exact hnew.waits kind id hq

theorem known (h : Change api s s') (id : UInt32) : Known s'.handler id ↔ Known s.handler id := by
  obtain ⟨new, -, hnew⟩ := h.roas
  unfold Known
  rw [hnew.entries, Option.isSome_map]

theorem bgpsecPath (h : Change api s s') (id : UInt32) :
    (s'.handler.server.updateCache.tableFind id).bind (·.bgpsecPath) =
      (s.handler.server.updateCache.tableFind id).bind (·.bgpsecPath) := by
  obtain ⟨new, -, hnew⟩ := h.roas
  exact hnew.bind_eq id fun _ _ => rfl

theorem refl (api : CryptoApi) (s : RpkiSystem) : Change api s s where
  roas := ⟨[], (List.append_nil _).symm, RoasReported.refl _⟩
  signatures h := h
  attached _ _ := Iff.rfl
  ids _ h := h

theorem trans (h : Change api s s') (h' : Change api s' s'') : Change api s s'' where
  roas := by
    obtain ⟨new, hreports, hnew⟩ := h.roas
    obtain ⟨new', hreports', hnew'⟩ := h'.roas
    refine ⟨new ++ new', ?_, hnew.trans hnew'⟩
    rw [hreports', hreports, List.append_assoc]
  signatures hs := h'.signatures (h.signatures hs)
  attached key id := (h'.attached key id).trans (h.attached key id)
  ids hatt hq e he := by
    refine (h.known _).mp (h'.ids (fun key id hid => ?_) (fun e he => ?_) e he)
    · exact (h.known id).mpr (hatt key id ((h.attached key id).mp hid))
    · exact (h.known _).mpr (h.ids hatt hq e he)

end Change

/-! ## The changes of the RPKI data -/

theorem notify_rpki (reports : List Cache.Report) (s : RpkiHandler) :
    (reports.foldl notifyUpdateCacheForROAChange s).server.rpki = s.server.rpki := by
  induction reports generalizing s with
  | nil => rfl
  | cons report rest ih =>
    refine (ih _).trans ?_
    unfold notifyUpdateCacheForROAChange
    split
    · rfl
    · rfl

theorem suppress_roaCall (isAnn : Bool) (oas : UInt32) (p : Cache.IPPrefix) (maxLen : UInt8)
    (valCacheID : UInt32) : (roaCall isAnn oas p maxLen valCacheID).suppress = true := by
  cases isAnn with
  | true => rfl
  | false => rfl

theorem handlePrefix_change {s s' : RpkiSystem} {isAnn : Bool} {oas : UInt32} {p : Cache.IPPrefix}
    {maxLen : UInt8} {valCacheID : UInt32}
    (h : handlePrefix s isAnn oas p maxLen valCacheID = some s') : Change api s s' := by
  obtain ⟨prefixCache, hstep, rfl⟩ := Option.map_eq_some_iff.mp h
  obtain ⟨new, hreports, hnew⟩ := step_appends hstep
  rw [suppress_roaCall] at hnew
  have hdrop : prefixCache.reports.drop s.prefixCache.reports.length = new := by
    rw [hreports, List.drop_left]
  rw [hdrop]
  refine ⟨⟨new, hreports, notify_all s.handler hnew⟩, fun h => ?_, fun _ _ => Iff.rfl,
    fun _ hq => notify_ids (fun _ h => h) hnew hq⟩
  exact (congrArg RpkiData.validateSignature (notify_rpki new s.handler)).trans h

/-- The keys of `key` become `keys`. -/
theorem changeKeys_change (s : RpkiSystem) (keys : List (List UInt8))
    {ski : SkiCache × List QueueElem} (hski : SkiChange s.skiCache s.handler.rpkiQueue key ski) :
    Change api s { s with
      keys := Function.update s.keys key keys
      skiCache := ski.1
      handler := { s.handler with
        server.rpki.validateSignature := api.validate (Function.update s.keys key keys)
        rpkiQueue := ski.2 } } where
  roas := by
    refine ⟨[], (List.append_nil _).symm, rfl, rfl, fun id => ?_, hski.waits, fun id _ h => ?_⟩
    · exact (Option.map_id' ..).symm
    · cases h
  signatures _ := rfl
  attached := hski.attached
  ids hatt hq := hski.ids _ (hatt key) hq

theorem handleRouterKey_change (api : CryptoApi) (s : RpkiSystem) (isAnn : Bool) (key : SkiKey)
    (keyInfo : List UInt8) : Change api s (handleRouterKey api s isAnn key keyInfo) := by
  unfold handleRouterKey
  dsimp only
  split
  · cases isAnn with
    | true =>
      rw [if_pos rfl]
      split
      · exact changeKeys_change s _ (register_change ..)
      · exact Change.refl api s
    | false => exact changeKeys_change s _ (unregister_change ..)
  · exact Change.refl api s

theorem aspa_change (api : CryptoApi) (s : RpkiSystem)
    (lookup : UInt32 → UInt32 → UInt8 → AspaResult) :
    Change api s { s with handler.server.rpki.lookup := lookup } where
  roas := by
    refine ⟨[], (List.append_nil _).symm, rfl, rfl, fun id => ?_, fun _ _ hq => hq, fun id _ h => ?_⟩
    · exact (Option.map_id' ..).symm
    · cases h
  signatures h := h
  attached _ _ := Iff.rfl
  ids _ hq := hq

/-! ## The origin results -/

section Origin

variable {calls : List Cache.Op} {k : List Bool} {family : Cache.IPVersion}

/-- The ROAs at or above a prefix. -/
def roasNear (k : List Bool) (h : Cache.History) : List Cache.Roa :=
  h.roas.filter fun r => decide (r.key <+: k)

/-- RFC 6811 looks at the ROAs at or above the prefix only. -/
theorem rfc6811_near (h : Cache.History) (k : List Bool) (as : UInt32) :
    Cache.rfc6811 h.roas k as = Cache.rfc6811 (roasNear k h) k as := by
  have hmatches : (roasNear k h).any (fun r => r.matches k as) =
      h.roas.any fun r => r.matches k as := by
    unfold roasNear
    rw [List.any_filter]
    congr 1
    funext r
    cases hnear : decide (r.key <+: k) with
    | true => rfl
    | false =>
      unfold Cache.Roa.matches Cache.Roa.covers
      rw [hnear]
      rfl
  have hnear : (roasNear k h).any (fun r => decide (r.key <+: k)) =
      h.roas.any fun r => decide (r.key <+: k) := by
    unfold roasNear
    rw [List.any_filter]
    congr 1
    funext r
    exact Bool.and_self _
  unfold Cache.rfc6811
  rw [hmatches, hnear]

/-- A call of another family changes no ROA at or above the prefix. -/
theorem roasNear_other {h : Cache.History} {call : Cache.Op}
    (hfar : isRoaCall call = true → ¬ call.ipPrefix.key <+: k) :
    roasNear k (h.step call) = roasNear k h := by
  unfold roasNear
  cases call with
  | add originAS p maxLen valCacheID suppress =>
    rw [Cache.History.step]
    split
    · rfl
    · exact List.filter_cons_of_neg fun hnear => hfar rfl (of_decide_eq_true hnear)
  | del originAS p maxLen valCacheID suppress =>
    show (h.roas.erase _).filter _ = _
    rw [← List.erase_filter, List.erase_of_not_mem]
    intro hmem
    exact hfar rfl (of_decide_eq_true (List.mem_filter.mp hmem).2)
  | request updateID p as => rfl

/-- A call does the same to the ROAs at or above the prefix, whatever other ROAs there are. -/
theorem roasNear_same {h h' : Cache.History} (hsame : roasNear k h = roasNear k h')
    (call : Cache.Op) : roasNear k (h.step call) = roasNear k (h'.step call) := by
  unfold roasNear at hsame ⊢
  cases call with
  | add originAS p maxLen valCacheID suppress =>
    rw [Cache.History.step, Cache.History.step]
    split
    · exact hsame
    · show (_ :: h.roas).filter _ = (_ :: h'.roas).filter _
      rw [List.filter_cons, List.filter_cons, hsame]
  | del originAS p maxLen valCacheID suppress =>
    show (h.roas.erase _).filter _ = (h'.roas.erase _).filter _
    rw [← List.erase_filter, ← List.erase_filter, hsame]
  | request updateID p as => exact hsame

/-- The ROAs at or above a prefix are those of its family. -/
theorem roasNear_family {h h' : Cache.History} (hsame : roasNear k h = roasNear k h')
    (hfar : ∀ call ∈ calls, isRoaCall call = true → call.ipPrefix.version ≠ family →
      ¬ call.ipPrefix.key <+: k) :
    roasNear k (h.run calls) =
      roasNear k (h'.run (calls.filter fun call => call.ipPrefix.version = family)) := by
  induction calls generalizing h h' with
  | nil => exact hsame
  | cons call calls ih =>
    have hrest := fun c hc => hfar c (List.mem_cons_of_mem _ hc)
    by_cases hfamily : call.ipPrefix.version = family
    · rw [List.filter_cons, if_pos (decide_eq_true hfamily)]
      exact ih (roasNear_same hsame call) hrest
    · rw [List.filter_cons, if_neg (mt of_decide_eq_true hfamily)]
      refine ih ((roasNear_other fun hroa => ?_).trans hsame) hrest
      exact hfar call List.mem_cons_self hroa hfamily

theorem requestedOrigin_mem {id : UInt32} {p : Cache.IPPrefix} {as : UInt32}
    (h : requestedOrigin calls id = some (p, as)) : Cache.Op.request id p as ∈ calls := by
  obtain ⟨call, hcall, hfound⟩ := List.exists_of_findSome?_eq_some h
  cases call with
  | request updateID q as' =>
    dsimp only at hfound
    rw [Option.ite_none_right_eq_some] at hfound
    obtain ⟨rfl, hfound⟩ := hfound
    obtain ⟨rfl, rfl⟩ := Prod.mk.inj (Option.some.inj hfound)
    exact hcall
  | add => cases hfound
  | del => cases hfound

theorem mem_requests {h : Cache.History} {id : UInt32} {p : Cache.IPPrefix} {as : UInt32}
    (hcall : Cache.Op.request id p as ∈ calls ∨ ⟨id, p.key, as⟩ ∈ h.requests) :
    ⟨id, p.key, as⟩ ∈ (h.run calls).requests := by
  induction calls generalizing h with
  | nil => exact hcall.resolve_left List.not_mem_nil
  | cons call calls ih =>
    refine ih ?_
    rcases hcall with hcall | hold
    · rcases List.mem_cons.mp hcall with rfl | hcall
      · exact .inr (List.mem_append_right _ (List.mem_singleton.mpr rfl))
      · exact .inl hcall
    · right
      cases call with
      | add =>
        rw [Cache.History.step]
        split
        · exact hold
        · exact hold
      | del => exact hold
      | request => exact List.mem_append_left _ hold

/-- The last report of the prefix cache is its last result. -/
theorem latest_of_lastReport {reports : List Cache.Report} {id : UInt32} {result : SrxResult}
    (h : Cache.lastReport reports id = some result) (hresult : result ≠ .doNotUse) :
    latest (reported id) reports = some result.code := by
  induction reports using List.reverseRecOn with
  | nil => cases h
  | append_singleton reports report ih =>
    have hone : Cache.lastReport [report] id =
        if report.updateID = id then some report.roaResult else none := by
      unfold Cache.lastReport
      by_cases hid : report.updateID = id
      · rw [List.filter_cons, if_pos (beq_iff_eq.mpr hid), if_pos hid]
        rfl
      · rw [List.filter_cons, if_neg (mt beq_iff_eq.mp hid), if_neg hid]
        rfl
    rw [Cache.NodeLemmas.lastReport_append, hone] at h
    rw [latest_append, latest_reported]
    by_cases hid : report.updateID = id
    · rw [if_pos hid, Option.some_or] at h
      obtain rfl := Option.some.inj h
      unfold reported
      rw [if_pos ⟨hid, hresult⟩, Option.some_or]
    · rw [if_neg hid, Option.none_or] at h
      rw [reported_other (Ne.symm hid), Option.none_or]
      exact ih h

theorem rfc6811_ne_doNotUse (roas : List Cache.Roa) (k : List Bool) (as : UInt32) :
    Cache.rfc6811 roas k as ≠ .doNotUse := by
  unfold Cache.rfc6811
  split
  · decide
  · split
    · decide
    · decide

variable {s : RpkiState}

theorem built_inv (hb : Built s) :
    Cache.Inv True False (Cache.History.empty.run s.calls) s.prefixCache := by
  obtain ⟨c, hrun, hinv⟩ := (Cache.inv_init True False).run hb.noDefect (fun _ => hb.strict) False.elim
  obtain rfl := Option.some.inj (hb.cache.symm.trans hrun)
  exact hinv

/-- The prefix cache has reported the origin result of RFC 6811. -/
theorem built_outcome (hb : Built s) {id : UInt32} {v : UInt8}
    (hv : outcome s .roa id = some v) : latest (reported id) s.prefixCache.reports = some v := by
  obtain ⟨⟨p, as⟩, hrequested, rfl⟩ := Option.map_eq_some_iff.mp hv
  have hcall := requestedOrigin_mem hrequested
  have hresult := (built_inv hb).resultsOk trivial ⟨id, p.key, as⟩ (mem_requests (.inl hcall))
  refine latest_of_lastReport (hresult.trans (congrArg some ?_)) (rfc6811_ne_doNotUse _ _ _)
  dsimp only
  rw [rfc6811_near, roasNear_family rfl (hb.families id p as hcall), ← rfc6811_near]
  rfl

/-- A call for a ROA that reaches no defect comes to its end. -/
theorem built_roa (hb : Built s) {call : Cache.Op} (hfits : RoaFits s call) :
    ∃ c, Cache.step s.prefixCache call = some c ∧ ∀ s' : RpkiState, s'.prefixCache = c →
      s'.calls = s.calls ++ [call] → Built s' := by
  obtain ⟨c, hstep, -⟩ := (built_inv hb).step hfits.noDefect (fun _ => hfits.strict) False.elim
  refine ⟨c, hstep, fun s' hcache hcalls => ?_⟩
  have hlast {P : Cache.History → Cache.PrefixCache → Cache.Op → Prop}
      (hP : P (Cache.History.empty.run s.calls) s.prefixCache call) (c' : Cache.PrefixCache)
      (hrun : Cache.run Cache.initializePrefixCache s.calls = some c') :
      Cache.Along P (Cache.History.empty.run s.calls) c' [call] := by
    obtain rfl := Option.some.inj (hb.cache.symm.trans hrun)
    exact ⟨hP, fun _ _ => trivial⟩
  constructor
  · rw [hcalls]
    exact hb.noDefect.append (hlast hfits.noDefect)
  · rw [hcalls]
    exact hb.strict.append (hlast hfits.strict)
  · rw [hcalls, Cache.run_append, hb.cache, Option.bind_some, Cache.run, hstep, hcache]
    rfl
  · rw [hcalls]
    exact hfits.families

end Origin

end RpkiChangeLemmas

end SrxSuite.Server

import SrxSuite.Lib.Runs
import SrxSuite.Server.PathCache

/-!
# Verify requests

The model of `processValidationRequest` (`server/server_connection_handler.c`) and of
`_processUpdateValidation` (`server/command_handler.c`): a request is answered with what the update
cache knows and leaves a command, the worker validates and reports what it finds. Both use the path
cache, which all updates and all clients share.

Origin validation happens in the prefix cache and is left out here. An update is known by its
identifier; how it is computed, and made different from the others, is left out too.
-/

namespace SrxSuite.Server

open Aspa

/-! ## Requests -/

/-- What the RPKI data at hand say: `ASPA_DB_lookup` and `validateSignature`. -/
structure RpkiData where
  lookup : UInt32 → UInt32 → UInt8 → AspaResult
  validateSignature : Option (List UInt8) → UInt8

/-- A verify request as the server reads it, IPv4 or IPv6. The path has `numHops` elements. -/
structure VerifyRequest where
  clientID : UInt8
  updateID : UInt32
  flags : UInt8
  v4 : Bool
  asType : AsType
  asRelType : AsRelType
  afi : UInt16
  path : List UInt32
  wire : path.length < 2 ^ 16
  bgpsecPath : Option (List UInt8)
  roaResSrc : UInt8
  bgpsecResSrc : UInt8
  aspaResSrc : UInt8
  roaDefRes : UInt8
  bgpsecDefRes : UInt8
  aspaDefRes : UInt8

/-- What the local variables `asType` and `asRelType` hold before they are set. -/
structure Locals where
  asType : AsType
  asRelType : AsRelType
  deriving DecidableEq, Repr

/-- `SRX_FLAG_REQUEST_RECEIPT`. -/
def flagReceipt : UInt8 := 128

/-- All bits of `bit` are set. -/
def isSet (flags bit : UInt8) : Bool := flags &&& bit == bit

/-- The type the server takes: an IPv6 request does not set the variable. -/
def VerifyRequest.readType (r : VerifyRequest) (locals : Locals) : AsType :=
  if r.v4 then r.asType else locals.asType

/-- The relation the server takes. -/
def VerifyRequest.readRelType (r : VerifyRequest) (locals : Locals) : AsRelType :=
  if r.v4 then r.asRelType else locals.asRelType

/-- The direction for a relation. -/
def asRelDir : AsRelType → AsRelDir
  | .customer => .upStream
  | .provider => .downStream
  | .sibling => .downStream
  | .lateral => .upStream
  | .unknown => .unknownStream

/-- `bgpData.numberHops`. -/
def VerifyRequest.numberHops (r : VerifyRequest) : UInt16 := UInt16.ofNat r.path.length

/-- `bgpData.asPath`, NULL without hops. -/
def VerifyRequest.asPath (r : VerifyRequest) : Option (List UInt32) :=
  if r.numberHops ≠ 0 then some r.path else none

/-- The path identifier of a request. -/
def VerifyRequest.pathId (r : VerifyRequest) (locals : Locals) : UInt32 :=
  makePathId r.numberHops.toUInt8 r.asPath (r.readType locals)

/-- The path list entry of a request. -/
def VerifyRequest.pathEntry (r : VerifyRequest) (locals : Locals) : Option AsPathEntry :=
  newAspathListEntry r.numberHops.toUInt32 r.path (r.pathId locals) (r.readType locals)
    (asRelDir (r.readRelType locals)) r.afi

/-! ## The server -/

/-- A command for the worker: the update and what it uses of the header. -/
structure CommandItem where
  updateID : UInt32
  flags : UInt8
  asType : AsType
  deriving DecidableEq, Repr

/-- The state of the server. `reports` are the results that were sent, the oldest first. -/
structure ServerState where
  updateCache : UpdateCache
  aspathCache : AspathCache
  rpki : RpkiData
  cmdQueue : List CommandItem
  reports : List ValidationResult

/-- What the ASPA part of `processValidationRequest` leaves: the cache, the identifier,
`srxRes.aspaResult`, `defResInfo` and the value for the update cache. -/
structure AspaPart where
  aspathCache : AspathCache
  pathId : UInt32
  aspaResult : UInt8
  defResInfo : DefaultResult
  modifyUpdateCache : Option UInt8

/-- The ASPA part of `processValidationRequest`. `info` is what `getUpdateResult` returned. A path
that is not found is stored with the default result of the request. -/
def aspaPart (self : AspathCache) (r : VerifyRequest) (locals : Locals) (info : UpdateResultInfo)
    (doStoreUpdate : Bool) : AspaPart :=
  if info.pathId = 0 then
    let pathId := r.pathId locals
    match getAspathListFromAspathCache self pathId 0 with
    | (some _, aspaResult) =>
      ⟨self, pathId, aspaResult, info.defaultRes,
        if aspaResult = SrxResult.undefined.code then none else some aspaResult⟩
    | (none, _) =>
      let defResInfo : DefaultResult :=
        if doStoreUpdate then
          { info.defaultRes with
            resSourceASPA := r.aspaResSrc
            result.aspaResult := r.aspaDefRes }
        else info.defaultRes
      ⟨(storeAspathList self (some defResInfo) pathId (r.readType locals) (r.pathEntry locals)).1,
        pathId, defResInfo.result.aspaResult, defResInfo, none⟩
  else ⟨self, info.pathId, info.srxRes.aspaResult, info.defaultRes, none⟩

/-- `sendFlags` of `processValidationRequest` for the results it knows. -/
def sendFlags (r : VerifyRequest) (srxRes : UpdateResult) : UInt8 :=
  let flags := (r.flags &&& flagReceipt) |||
    (if isSet r.flags vrtROA ∧ r.roaDefRes ≠ srxRes.roaResult then vrtROA else 0) |||
    (if isSet r.flags vrtBGPSEC ∧ r.bgpsecDefRes ≠ srxRes.bgpsecResult then vrtBGPSEC else 0)
  if flags > 0 then
    flags ||| (if isSet r.flags vrtROA then vrtROA else 0) |||
      (if isSet r.flags vrtBGPSEC then vrtBGPSEC else 0) |||
      (if isSet r.flags vrtASPA then vrtASPA else 0)
  else 0

/-- `processValidationRequest`. -/
def processValidationRequest (s : ServerState) (r : VerifyRequest) (locals : Locals) (now : Nat) :
    ServerState :=
  let doVal := isSet r.flags vrtROA || isSet r.flags vrtBGPSEC || isSet r.flags vrtASPA
  let clientID := if doVal then r.clientID else 0
  let known := getUpdateResult s.updateCache r.updateID
  let info := known.getD resultNotFound
  let part := aspaPart s.aspathCache r locals info known.isNone
  let updateCache := (registerClient s.updateCache r.updateID clientID).1
  let defResInfo : DefaultResult :=
    { part.defResInfo with
      resSourceROA := r.roaResSrc
      resSourceBGPSEC := r.bgpsecResSrc
      result.roaResult := r.roaDefRes
      result.bgpsecResult := r.bgpsecDefRes }
  let updateCache :=
    if known.isNone then
      (storeUpdate updateCache clientID r.updateID (some defResInfo) r.bgpsecPath part.pathId now).1
    else updateCache
  let updateCache :=
    match part.modifyUpdateCache with
    | some aspaResult =>
      (modifyUpdateCacheResultWithAspaVal updateCache r.updateID aspaResult).1
    | none => updateCache
  -- a new update is answered with the default results of the request
  let srxRes : UpdateResult :=
    if known.isNone then ⟨r.roaDefRes, r.bgpsecDefRes, part.aspaResult⟩
    else { info.srxRes with aspaResult := part.aspaResult }
  let flags := sendFlags r srxRes
  { s with
    updateCache := updateCache
    aspathCache := part.aspathCache
    cmdQueue :=
      if doVal ∧ flags &&& (vrtROA ||| vrtBGPSEC ||| vrtASPA) > 0 then
        s.cmdQueue ++ [⟨r.updateID, flags &&& (vrtROA ||| vrtBGPSEC ||| vrtASPA), r.asType⟩]
      else s.cmdQueue
    reports := if flags > 0 then s.reports ++ [⟨flags, srxRes, r.updateID⟩] else s.reports }

/-- The path branch of the worker: the cache, `srxRes.aspaResult` as
`getAspathListFromAspathCache` left it, and the value for the update. -/
def validatePath (lookup : UInt32 → UInt32 → UInt8 → AspaResult) (self : AspathCache)
    (info : UpdateResultInfo) (asType : AsType) (now : Nat) : AspathCache × UInt8 × UInt8 :=
  match getAspathListFromAspathCache self info.pathId info.srxRes.aspaResult with
  | (some aspl, aspaResult) =>
    let valResult := (validateEntry lookup aspl).code
    (if valResult ≠ aspl.aspaValResult then
        modifyAspaValidationResultToAspathCache self info.pathId valResult now
      else self, aspaResult, valResult)
  | (none, aspaResult) =>
    (self, aspaResult,
      if info.pathId = 0 ∧ asType = .asSet then SrxResult.unverifiable.code
      else SrxResult.doNotUse.code)

/-- The ASPA part of `_processUpdateValidation` for a command that asks for it: the cache and
`srxRes_mod.aspaResult`. -/
def validateAspaPart (lookup : UInt32 → UInt32 → UInt8 → AspaResult) (self : AspathCache)
    (info : UpdateResultInfo) (asType : AsType) (now : Nat) : AspathCache × UInt8 :=
  let defInvalid := info.defaultRes.result.aspaResult = SrxResult.invalid.code
  let (self, aspaResult, modResult) :=
    if info.srxRes.aspaResult = SrxResult.undefined.code then
      -- the last condition of the code is an assignment and always true
      if defInvalid then (self, info.srxRes.aspaResult, SrxResult.invalid.code)
      else validatePath lookup self info asType now
    else (self, info.srxRes.aspaResult, SrxResult.doNotUse.code)
  if aspaResult ≠ SrxResult.undefined.code ∧ ¬ defInvalid ∧ asType ≠ .asSet then (self, aspaResult)
  else if aspaResult ≠ SrxResult.undefined.code ∧ ¬ defInvalid ∧ asType = .asSet ∧
    info.pathId = 0 then (self, SrxResult.unverifiable.code)
  else (self, modResult)

/-- `_processUpdateValidation`, without the origin validation. -/
def processUpdateValidation (s : ServerState) (item : CommandItem) (now : Nat) : ServerState :=
  match s.updateCache.tableFind item.updateID with
  | none => s
  | some cEntry =>
    let info : UpdateResultInfo := ⟨cEntry.srxResult, cEntry.defaultResult, cEntry.aspathCacheID⟩
    let bgpsecResult :=
      if isSet item.flags vrtBGPSEC ∧ info.srxRes.bgpsecResult = SrxResult.undefined.code then
        s.rpki.validateSignature cEntry.bgpsecPath
      else SrxResult.doNotUse.code
    let (aspathCache, aspaResult) :=
      if isSet item.flags vrtASPA then
        validateAspaPart s.rpki.lookup s.aspathCache info item.asType now
      else (s.aspathCache, SrxResult.doNotUse.code)
    let s := { s with aspathCache := aspathCache }
    if bgpsecResult ≠ SrxResult.doNotUse.code ∨ aspaResult ≠ SrxResult.doNotUse.code then
      match modifyUpdateResult s.updateCache item.updateID
        ⟨SrxResult.doNotUse.code, bgpsecResult, aspaResult⟩ false with
      | none => s
      | some (updateCache, report) =>
        { s with updateCache := updateCache, reports := s.reports ++ report.toList }
    else s

/-- What happens: a request arrives, or the worker takes the next command. -/
inductive ServerOp
  | request (r : VerifyRequest) (locals : Locals) (now : Nat)
  | work (now : Nat)

/-- One step. -/
def ServerState.step (s : ServerState) : ServerOp → ServerState
  | .request r locals now => processValidationRequest s r locals now
  | .work now =>
    match s.cmdQueue with
    | [] => s
    | item :: rest => processUpdateValidation { s with cmdQueue := rest } item now

/-- The server before the first request. -/
def initServerState (minNumberOfClients : UInt8) (minPos : 0 < minNumberOfClients)
    (defaultKeepWindow : UInt16) (rpki : RpkiData) : ServerState :=
  ⟨createUpdateCache minNumberOfClients defaultKeepWindow minPos, createAspathCache, rpki, [], []⟩

/-- The default result that is stored with a path that is not found. -/
def missDefault (r : VerifyRequest) (info : UpdateResultInfo) (doStoreUpdate : Bool) : UInt8 :=
  if doStoreUpdate then r.aspaDefRes else info.defaultRes.result.aspaResult

/-- The record a request adds to the path cache, if it adds one. -/
def addedPath (s : ServerState) (r : VerifyRequest) (locals : Locals) : Option PathListCacheTable :=
  let known := getUpdateResult s.updateCache r.updateID
  let info := known.getD resultNotFound
  if info.pathId = 0 ∧ (s.aspathCache (r.pathId locals)).isNone then
    (r.pathEntry locals).map fun entry => newCacheTable (r.pathId locals) (r.readType locals) entry
      (missDefault r info known.isNone)
  else none

namespace RequestLemmas

open UpdateCacheLemmas

variable {self : UpdateCache} {cache cache' : AspathCache} {s : ServerState} {r : VerifyRequest}
  {locals : Locals} {updateID pathId : UInt32}

/-! ## What an update is asked for -/

theorem addClientReference_info (m : UInt8) (entry : CacheEntry) (c : UInt8) :
    (addClientReference m entry c).1.srxResult = entry.srxResult ∧
      (addClientReference m entry c).1.defaultResult = entry.defaultResult ∧
      (addClientReference m entry c).1.aspathCacheID = entry.aspathCacheID ∧
      (addClientReference m entry c).1.bgpsecPath = entry.bgpsecPath := by
  unfold addClientReference
  split
  · exact ⟨rfl, rfl, rfl, rfl⟩
  · exact ⟨rfl, rfl, rfl, rfl⟩

/-- The results after a write to one entry. -/
theorem getUpdateResult_write (f : CacheEntry → CacheEntry)
    (hf : ∀ entry, (f entry).updateID = entry.updateID) (id : UInt32) :
    getUpdateResult (self.write updateID f hf) id =
      (self.tableFind id).map fun entry =>
        let entry := if id = updateID then f entry else entry
        ⟨entry.srxResult, entry.defaultResult, entry.aspathCacheID⟩ := by
  unfold getUpdateResult
  rw [tableFind_write, Option.map_map]
  rfl

/-- Registering a client changes no result. -/
theorem getUpdateResult_register (c : UInt8) (id : UInt32) :
    getUpdateResult (registerClient self updateID c).1 id = getUpdateResult self id := by
  unfold registerClient
  split
  · rfl
  · split
    · rw [getUpdateResult_write]
      refine Option.map_congr fun entry _ => ?_
      obtain ⟨hres, hdef, hpath, -⟩ :=
        addClientReference_info self.minNumberOfClients entry c
      dsimp only
      split
      · rw [hres, hdef, hpath]
      · rfl
    · rfl

/-- A new update has no results yet. -/
theorem getUpdateResult_store (hnew : self.tableFind updateID = none) (c : UInt8)
    (defRes : DefaultResult) (bgpsecPath : Option (List UInt8)) (now : Nat) (id : UInt32) :
    getUpdateResult (storeUpdate self c updateID (some defRes) bgpsecPath pathId now).1 id =
      if id = updateID then
        some ⟨⟨SrxResult.undefined.code, SrxResult.undefined.code, SrxResult.undefined.code⟩, defRes,
          pathId⟩
      else getUpdateResult self id := by
  have hadd {entry : CacheEntry} (hentry : self.tableFind entry.updateID = none)
      (hid : entry.updateID = updateID)
      (hinfo : (⟨entry.srxResult, entry.defaultResult, entry.aspathCacheID⟩ : UpdateResultInfo) =
        ⟨⟨SrxResult.undefined.code, SrxResult.undefined.code, SrxResult.undefined.code⟩, defRes,
          pathId⟩) :
      getUpdateResult (self.tableAdd entry hentry) id = if id = updateID then
        some ⟨⟨SrxResult.undefined.code, SrxResult.undefined.code, SrxResult.undefined.code⟩, defRes,
          pathId⟩ else getUpdateResult self id := by
    unfold getUpdateResult
    rw [tableFind_tableAdd, hid]
    split
    · rw [Option.map_some, hinfo]
    · rfl
  unfold storeUpdate
  split
  · next hsome =>
    rw [hnew] at hsome
    cases hsome
  · dsimp only
    split
    · obtain ⟨hres, hdef, hpath, -⟩ := addClientReference_info self.minNumberOfClients
        (newCacheEntry self.minNumberOfClients updateID (some defRes) bgpsecPath pathId) c
      have hid := addClientReference_updateID self.minNumberOfClients
        (newCacheEntry self.minNumberOfClients updateID (some defRes) bgpsecPath pathId) c
      refine hadd (hid ▸ hnew) hid ?_
      rw [hres, hdef, hpath]
      rfl
    · exact hadd hnew rfl rfl

/-- Taking over an ASPA result. -/
theorem getUpdateResult_modifyAspa (v : UInt8) (id : UInt32) :
    getUpdateResult (modifyUpdateCacheResultWithAspaVal self updateID v).1 id =
      (getUpdateResult self id).map fun info => if id = updateID then
        { info with srxRes.aspaResult := useResult v info.srxRes.aspaResult } else info := by
  unfold getUpdateResult
  rw [tableFind_modifyAspa, Option.map_map, Option.map_map]
  refine Option.map_congr fun entry _ => ?_
  show (⟨CacheEntry.srxResult _, CacheEntry.defaultResult _, CacheEntry.aspathCacheID _⟩ :
    UpdateResultInfo) = (if id = updateID then _ else _)
  split
  · rfl
  · rfl

/-- A validation result for an update, and the report of it. -/
theorem getUpdateResult_modify {cEntry : CacheEntry} (hfind : self.tableFind updateID = some cEntry)
    (result : UpdateResult) :
    ∃ self' report, modifyUpdateResult self updateID result false = some (self', report) ∧
      (∀ id, getUpdateResult self' id = (getUpdateResult self id).map fun info =>
        if id = updateID then { info with srxRes := newResult result info.srxRes } else info) ∧
      ∀ rep ∈ report.toList, rep.updateID = updateID ∧
        rep.valResult = newResult result cEntry.srxResult := by
  unfold modifyUpdateResult
  rw [hfind, Option.map_some]
  refine ⟨_, _, rfl, fun id => ?_, fun rep hrep => ?_⟩
  · rw [getUpdateResult_write]
    unfold getUpdateResult
    rw [Option.map_map]
    refine Option.map_congr fun entry _ => ?_
    show _ = (if id = updateID then _ else _)
    dsimp only
    split
    · rfl
    · rfl
  · dsimp only at hrep
    split at hrep
    · rw [Option.toList_some, List.mem_singleton] at hrep
      rw [hrep]
      exact ⟨rfl, rfl⟩
    · cases hrep

theorem tableFind_of_info {info : UpdateResultInfo} (h : getUpdateResult self updateID = some info) :
    ∃ cEntry, self.tableFind updateID = some cEntry ∧
      info = ⟨cEntry.srxResult, cEntry.defaultResult, cEntry.aspathCacheID⟩ := by
  obtain ⟨cEntry, hfind, rfl⟩ := Option.map_eq_some_iff.mp h
  exact ⟨cEntry, hfind, rfl⟩

theorem tableFind_none_iff :
    self.tableFind updateID = none ↔ getUpdateResult self updateID = none := by
  unfold getUpdateResult
  rw [Option.map_eq_none_iff]

/-! ## What a request does -/

/-- What the ASPA part of a request says about the update. -/
def AspaPart.taken (part : AspaPart) (old : UInt8) : UInt8 :=
  match part.modifyUpdateCache with
  | some v => useResult v old
  | none => old

/-- The ASPA part of a request. -/
def requestPart (s : ServerState) (r : VerifyRequest) (locals : Locals) : AspaPart :=
  aspaPart s.aspathCache r locals
    ((getUpdateResult s.updateCache r.updateID).getD resultNotFound)
    (getUpdateResult s.updateCache r.updateID).isNone

theorem request_aspathCache (now : Nat) :
    (processValidationRequest s r locals now).aspathCache =
      (requestPart s r locals).aspathCache := rfl

/-- What the update cache says about the update of a request after it. -/
def requestInfo (s : ServerState) (r : VerifyRequest) (locals : Locals) : UpdateResultInfo :=
  let part := requestPart s r locals
  match getUpdateResult s.updateCache r.updateID with
  | none =>
    ⟨⟨SrxResult.undefined.code, SrxResult.undefined.code,
        AspaPart.taken part SrxResult.undefined.code⟩,
      { part.defResInfo with
        resSourceROA := r.roaResSrc
        resSourceBGPSEC := r.bgpsecResSrc
        result.roaResult := r.roaDefRes
        result.bgpsecResult := r.bgpsecDefRes }, part.pathId⟩
  | some old => { old with srxRes.aspaResult := AspaPart.taken part old.srxRes.aspaResult }

/-- A request changes what is known about its own update only. -/
theorem request_eq (now : Nat) (id : UInt32) :
    getUpdateResult (processValidationRequest s r locals now).updateCache id =
      if id = r.updateID then some (requestInfo s r locals)
      else getUpdateResult s.updateCache id := by
  have hmodify (cache : UpdateCache) (part : AspaPart) :
      getUpdateResult (match part.modifyUpdateCache with
        | some v => (modifyUpdateCacheResultWithAspaVal cache r.updateID v).1
        | none => cache) id = (getUpdateResult cache id).map fun info =>
          if id = r.updateID then
            { info with srxRes.aspaResult := AspaPart.taken part info.srxRes.aspaResult }
          else info := by
    unfold AspaPart.taken
    split
    · exact getUpdateResult_modifyAspa _ id
    · rw [Option.map_congr (g := fun info => info) fun info _ => ite_self _, Option.map_id']
  unfold processValidationRequest requestInfo requestPart
  dsimp only
  rw [hmodify]
  cases hknown : getUpdateResult s.updateCache r.updateID with
  | none =>
    rw [Option.isNone_none, if_pos rfl, getUpdateResult_store, getUpdateResult_register]
    · split
      · rfl
      · rw [Option.map_id']
    · rw [tableFind_none_iff, getUpdateResult_register]
      exact hknown
  | some old =>
    rw [Option.isNone_some, if_neg (by decide), getUpdateResult_register]
    split
    · next hid =>
      rw [hid, hknown]
      rfl
    · rw [Option.map_id']

/-- What the update cache says about an update after a request, as far as ASPA is concerned. -/
theorem request_info (now : Nat) {id : UInt32} {info : UpdateResultInfo}
    (h : getUpdateResult (processValidationRequest s r locals now).updateCache id = some info) :
    (id ≠ r.updateID ∧ getUpdateResult s.updateCache id = some info) ∨
      (id = r.updateID ∧ getUpdateResult s.updateCache id = none ∧
        info.pathId = (requestPart s r locals).pathId ∧
        info.defaultRes.result.aspaResult =
          (requestPart s r locals).defResInfo.result.aspaResult ∧
        info.srxRes.aspaResult =
          AspaPart.taken (requestPart s r locals) SrxResult.undefined.code) ∨
      (id = r.updateID ∧ ∃ old, getUpdateResult s.updateCache id = some old ∧
        info.pathId = old.pathId ∧ info.defaultRes = old.defaultRes ∧
        info.srxRes.aspaResult =
          AspaPart.taken (requestPart s r locals) old.srxRes.aspaResult) := by
  rw [request_eq] at h
  split at h
  · next hid =>
    subst hid
    obtain rfl := Option.some.inj h
    unfold requestInfo
    cases hknown : getUpdateResult s.updateCache r.updateID with
    | none => exact .inr (.inl ⟨rfl, rfl, rfl, rfl, rfl⟩)
    | some old => exact .inr (.inr ⟨rfl, old, rfl, rfl, rfl, rfl⟩)
  · next hid => exact .inl ⟨hid, h⟩

/-- What a request reports and leaves for the worker. -/
theorem request_output (s : ServerState) (r : VerifyRequest) (locals : Locals) (now : Nat) :
    (∃ new, (processValidationRequest s r locals now).reports = s.reports ++ new ∧
        ∀ rep ∈ new, rep.updateID = r.updateID ∧
          rep.valResult.aspaResult = (requestPart s r locals).aspaResult) ∧
      ∀ item ∈ (processValidationRequest s r locals now).cmdQueue, item ∈ s.cmdQueue ∨
        (item.updateID = r.updateID ∧ item.asType = r.asType) := by
  unfold processValidationRequest
  dsimp only
  generalize sendFlags r _ = flags
  constructor
  · split
    · refine ⟨_, rfl, fun rep hrep => ?_⟩
      rw [List.mem_singleton.mp hrep]
      refine ⟨rfl, ?_⟩
      dsimp only
      split
      · rfl
      · rfl
    · exact ⟨[], (List.append_nil _).symm, fun _ hrep => (nomatch hrep)⟩
  · intro item hitem
    split at hitem
    · rcases List.mem_append.mp hitem with hitem | hitem
      · exact .inl hitem
      · rw [List.mem_singleton.mp hitem]
        exact .inr ⟨rfl, rfl⟩
    · exact .inl hitem

/-- The update has a path identifier already. -/
theorem aspaPart_kept {info : UpdateResultInfo} (h : info.pathId ≠ 0) (doStoreUpdate : Bool) :
    aspaPart cache r locals info doStoreUpdate =
      ⟨cache, info.pathId, info.srxRes.aspaResult, info.defaultRes, none⟩ :=
  if_neg h

/-- The path is found. -/
theorem aspaPart_hit {info : UpdateResultInfo} {t : PathListCacheTable} (h : info.pathId = 0)
    (hid : r.pathId locals ≠ 0) (ht : cache (r.pathId locals) = some t) (doStoreUpdate : Bool) :
    aspaPart cache r locals info doStoreUpdate =
      ⟨cache, r.pathId locals, t.aspaResult, info.defaultRes,
        if t.aspaResult = SrxResult.undefined.code then none else some t.aspaResult⟩ := by
  unfold aspaPart getAspathListFromAspathCache
  rw [if_pos h]
  dsimp only
  rw [if_neg hid, ht]

/-- The path is not found. -/
theorem aspaPart_miss {info : UpdateResultInfo} (h : info.pathId = 0)
    (hmiss : r.pathId locals = 0 ∨ cache (r.pathId locals) = none) (doStoreUpdate : Bool) :
    (aspaPart cache r locals info doStoreUpdate).pathId = r.pathId locals ∧
      (aspaPart cache r locals info doStoreUpdate).aspaResult = missDefault r info doStoreUpdate ∧
      (aspaPart cache r locals info doStoreUpdate).defResInfo.result.aspaResult =
        missDefault r info doStoreUpdate ∧
      (aspaPart cache r locals info doStoreUpdate).modifyUpdateCache = none ∧
      (aspaPart cache r locals info doStoreUpdate).aspathCache =
        match r.pathEntry locals with
        | none => cache
        | some entry =>
          if (cache (r.pathId locals)).isSome then cache
          else Function.update cache (r.pathId locals) (some (newCacheTable (r.pathId locals)
            (r.readType locals) entry (missDefault r info doStoreUpdate))) := by
  have hget : (getAspathListFromAspathCache cache (r.pathId locals) 0).1 = none := by
    unfold getAspathListFromAspathCache
    split
    · rfl
    · next hid => rw [hmiss.resolve_left hid]
  have hdefault : (if doStoreUpdate = true then
      { info.defaultRes with resSourceASPA := r.aspaResSrc, result.aspaResult := r.aspaDefRes }
        else info.defaultRes).result.aspaResult = missDefault r info doStoreUpdate := by
    unfold missDefault
    split
    · rfl
    · rfl
  unfold aspaPart
  rw [if_pos h]
  dsimp only
  split
  · next heq =>
    rw [heq] at hget
    cases hget
  · refine ⟨rfl, hdefault, hdefault, rfl, ?_⟩
    dsimp only
    unfold storeAspathList
    cases hentry : r.pathEntry locals with
    | none => rfl
    | some entry =>
      dsimp only
      rw [← hdefault]
      split
      · rfl
      · rfl

/-- A new update gets the path identifier of its request. -/
theorem requestPart_pathId (hnew : getUpdateResult s.updateCache r.updateID = none) :
    (requestPart s r locals).pathId = r.pathId locals := by
  unfold requestPart
  rw [hnew]
  by_cases hmiss : r.pathId locals = 0 ∨ s.aspathCache (r.pathId locals) = none
  · exact (aspaPart_miss rfl hmiss _).1
  · obtain ⟨t, ht⟩ := Option.ne_none_iff_exists'.mp fun hn => hmiss (.inr hn)
    exact congrArg AspaPart.pathId (aspaPart_hit rfl (fun hk => hmiss (.inl hk)) ht _)

/-- What a request does to the path cache. -/
theorem request_cache (now : Nat) :
    (processValidationRequest s r locals now).aspathCache =
      match addedPath s r locals with
      | none => s.aspathCache
      | some t => Function.update s.aspathCache (r.pathId locals) (some t) := by
  rw [request_aspathCache]
  unfold requestPart addedPath
  dsimp only
  generalize hinfo : (getUpdateResult s.updateCache r.updateID).getD resultNotFound = info
  by_cases hid : info.pathId = 0
  · by_cases hmiss : r.pathId locals = 0 ∨ s.aspathCache (r.pathId locals) = none
    · rw [(aspaPart_miss hid hmiss _).2.2.2.2]
      cases hentry : r.pathEntry locals with
      | none =>
        rw [Option.map_none, ite_self]
      | some entry =>
        dsimp only
        cases hfound : s.aspathCache (r.pathId locals) with
        | none =>
          rw [if_neg (by decide), if_pos ⟨hid, rfl⟩]
          rfl
        | some t =>
          rw [if_pos Option.isSome_some, if_neg fun hn => Bool.noConfusion hn.2]
    · rw [not_or] at hmiss
      obtain ⟨t, ht⟩ := Option.ne_none_iff_exists'.mp hmiss.2
      have hnone : ¬ (info.pathId = 0 ∧ (some t).isNone = true) := fun hn => Bool.noConfusion hn.2
      rw [aspaPart_hit hid hmiss.1 ht, ht, if_neg hnone]
  · rw [aspaPart_kept hid, if_neg fun hn => hid hn.1]

/-! ## What the worker does -/

/-- The worker leaves the cache, or the new verdict for the path. -/
def PathWritten (lookup : UInt32 → UInt32 → UInt8 → AspaResult) (cache : AspathCache)
    (pathId : UInt32) (cache' : AspathCache) : Prop :=
  cache' = cache ∨ ∃ t now, pathId ≠ 0 ∧ cache pathId = some t ∧ cache' =
    Function.update cache pathId
      (some { t with lastModified := now, aspaResult := t.verdict lookup })

/-- The values the worker can find for an update: nothing, what it has already, its default when that
is invalid, unverifiable for a set without a path, or what the path cache has or gets. -/
def ResultFound (lookup : UInt32 → UInt32 → UInt8 → AspaResult) (cache : AspathCache)
    (info : UpdateResultInfo) (asType : AsType) (v : UInt8) : Prop :=
  v = SrxResult.doNotUse.code ∨ v = info.srxRes.aspaResult ∨
    (v = info.defaultRes.result.aspaResult ∧ v = SrxResult.invalid.code) ∨
    (v = SrxResult.unverifiable.code ∧ asType = .asSet ∧ info.pathId = 0) ∨
    ∃ t, info.pathId ≠ 0 ∧ cache info.pathId = some t ∧
      (v = t.verdict lookup ∨ v = t.aspaResult ∧ v ≠ SrxResult.undefined.code)

/-- What the ASPA part of the worker does to the cache and to the update. -/
theorem validateAspaPart_cases (lookup : UInt32 → UInt32 → UInt8 → AspaResult)
    (info : UpdateResultInfo) (asType : AsType) (now : Nat) :
    PathWritten lookup cache info.pathId (validateAspaPart lookup cache info asType now).1 ∧
      ResultFound lookup cache info asType (validateAspaPart lookup cache info asType now).2 := by
  unfold validateAspaPart
  by_cases hund : info.srxRes.aspaResult = SrxResult.undefined.code
  · by_cases hinv : info.defaultRes.result.aspaResult = SrxResult.invalid.code
    · dsimp only
      rw [if_pos hund, if_pos hinv]
      dsimp only
      rw [if_neg fun h => h.1 hund, if_neg fun h => h.1 hund]
      exact ⟨.inl rfl, .inr (.inr (.inl ⟨hinv.symm, rfl⟩))⟩
    · dsimp only
      rw [if_pos hund, if_neg hinv]
      unfold validatePath getAspathListFromAspathCache
      by_cases hid : info.pathId = 0
      · rw [if_pos hid]
        dsimp only
        rw [if_neg fun h => h.1 hund, if_neg fun h => h.1 hund]
        refine ⟨.inl rfl, ?_⟩
        split
        · next hset => exact .inr (.inr (.inr (.inl ⟨rfl, hset.2, hid⟩)))
        · exact .inl rfl
      · rw [if_neg hid]
        cases ht : cache info.pathId with
        | none =>
          dsimp only
          rw [if_neg fun h => h.1 rfl, if_neg fun h => h.1 rfl, if_neg fun h => hid h.1]
          exact ⟨.inl rfl, .inl rfl⟩
        | some t =>
          dsimp only
          have hcache : PathWritten lookup cache info.pathId
              (if (validateEntry lookup t.copy).code ≠ t.copy.aspaValResult then
                modifyAspaValidationResultToAspathCache cache info.pathId
                  (validateEntry lookup t.copy).code now
              else cache) := by
            unfold modifyAspaValidationResultToAspathCache
            rw [ht]
            dsimp only
            split
            · split
              · exact .inr ⟨t, now, hid, ht, rfl⟩
              · exact .inl rfl
            · exact .inl rfl
          split
          · next hused => exact ⟨hcache, .inr (.inr (.inr (.inr ⟨t, hid, ht, .inr ⟨rfl, hused.1⟩⟩)))⟩
          · rw [if_neg fun h => hid h.2.2.2]
            exact ⟨hcache, .inr (.inr (.inr (.inr ⟨t, hid, ht, .inl rfl⟩)))⟩
  · dsimp only
    rw [if_neg hund]
    dsimp only
    split
    · exact ⟨.inl rfl, .inr (.inl rfl)⟩
    · split
      · next hset => exact ⟨.inl rfl, .inr (.inr (.inr (.inl ⟨rfl, hset.2.2.1, hset.2.2.2⟩)))⟩
      · exact ⟨.inl rfl, .inl rfl⟩

theorem verdict_ne_doNotUse (lookup : UInt32 → UInt32 → UInt8 → AspaResult)
    (t : PathListCacheTable) : t.verdict lookup ≠ SrxResult.doNotUse.code := by
  have hcode {r : SrxResult} (hr : r ≠ .doNotUse) : r.code ≠ SrxResult.doNotUse.code := by
    cases r with
    | doNotUse => exact absurd rfl hr
    | _ => decide
  exact hcode (PathValidationLemmas.validateASPA_ne_doNotUse _ _ _ _ _ _)

/-- An update whose path is in the cache has a result after the worker: the one it had, its default
when that is invalid, or what the path cache has or gets. -/
theorem validateAspaPart_found (lookup : UInt32 → UInt32 → UInt8 → AspaResult)
    {info : UpdateResultInfo} {t : PathListCacheTable} (hid : info.pathId ≠ 0)
    (ht : cache info.pathId = some t) (asType : AsType) (now : Nat) :
    ∃ v, useResult (validateAspaPart lookup cache info asType now).2 info.srxRes.aspaResult =
        useResult v info.srxRes.aspaResult ∧
      ((v = info.srxRes.aspaResult ∧ v ≠ SrxResult.undefined.code) ∨
        (v = info.defaultRes.result.aspaResult ∧ v = SrxResult.invalid.code) ∨
        v = t.verdict lookup ∨ (v = t.aspaResult ∧ v ≠ SrxResult.undefined.code)) := by
  unfold validateAspaPart
  by_cases hund : info.srxRes.aspaResult = SrxResult.undefined.code
  · by_cases hinv : info.defaultRes.result.aspaResult = SrxResult.invalid.code
    · dsimp only
      rw [if_pos hund, if_pos hinv]
      dsimp only
      rw [if_neg fun h => h.1 hund, if_neg fun h => h.1 hund]
      exact ⟨_, rfl, .inr (.inl ⟨hinv.symm, rfl⟩)⟩
    · dsimp only
      rw [if_pos hund, if_neg hinv]
      unfold validatePath getAspathListFromAspathCache
      rw [if_neg hid, ht]
      dsimp only
      split
      · next hused => exact ⟨_, rfl, .inr (.inr (.inr ⟨rfl, hused.1⟩))⟩
      · rw [if_neg fun h => hid h.2.2.2]
        exact ⟨_, rfl, .inr (.inr (.inl rfl))⟩
  · refine ⟨info.srxRes.aspaResult, ?_, .inl ⟨rfl, hund⟩⟩
    dsimp only
    rw [if_neg hund]
    dsimp only
    have hkeep (w : UInt8) : useResult SrxResult.doNotUse.code w = w := if_neg fun h => h rfl
    have hsame (w : UInt8) : useResult w w = w := ite_self _
    split
    · rfl
    · rw [if_neg fun h => hid h.2.2.2, hkeep, hsame]

/-- What a command finds for the ASPA part: the cache and the value for the update. -/
def workPart (s : ServerState) (item : CommandItem) (info : UpdateResultInfo) (now : Nat) :
    AspathCache × UInt8 :=
  if isSet item.flags vrtASPA then
    validateAspaPart s.rpki.lookup s.aspathCache info item.asType now
  else (s.aspathCache, SrxResult.doNotUse.code)

theorem workPart_cases (item : CommandItem) (info : UpdateResultInfo) (now : Nat) :
    PathWritten s.rpki.lookup s.aspathCache info.pathId (workPart s item info now).1 ∧
      ResultFound s.rpki.lookup s.aspathCache info item.asType (workPart s item info now).2 := by
  unfold workPart
  split
  · exact validateAspaPart_cases _ _ _ _
  · exact ⟨.inl rfl, .inl rfl⟩

/-- What a command does: nothing for an unknown update; else the path is written, the update takes
a result and the result it has then is reported. -/
theorem work_cases (item : CommandItem) (now : Nat) :
    (getUpdateResult s.updateCache item.updateID = none ∧
        processUpdateValidation s item now = s) ∨
      ∃ info, getUpdateResult s.updateCache item.updateID = some info ∧
        (processUpdateValidation s item now).aspathCache = (workPart s item info now).1 ∧
        (processUpdateValidation s item now).rpki = s.rpki ∧
        (processUpdateValidation s item now).cmdQueue = s.cmdQueue ∧
        (∀ id, (getUpdateResult (processUpdateValidation s item now).updateCache id).isSome =
          (getUpdateResult s.updateCache id).isSome) ∧
        (∀ id new,
          getUpdateResult (processUpdateValidation s item now).updateCache id = some new →
            ∃ old, getUpdateResult s.updateCache id = some old ∧ new.pathId = old.pathId ∧
              new.defaultRes = old.defaultRes ∧ new.srxRes.aspaResult =
                if id = item.updateID then
                  useResult (workPart s item info now).2 old.srxRes.aspaResult
                else old.srxRes.aspaResult) ∧
        ∃ new, (processUpdateValidation s item now).reports = s.reports ++ new ∧
          ∀ rep ∈ new, rep.updateID = item.updateID ∧ rep.valResult.aspaResult =
            useResult (workPart s item info now).2 info.srxRes.aspaResult := by
  unfold processUpdateValidation
  cases hfind : s.updateCache.tableFind item.updateID with
  | none => exact .inl ⟨tableFind_none_iff.mp hfind, rfl⟩
  | some cEntry =>
    right
    have hinfo : getUpdateResult s.updateCache item.updateID =
        some ⟨cEntry.srxResult, cEntry.defaultResult, cEntry.aspathCacheID⟩ := by
      unfold getUpdateResult
      rw [hfind, Option.map_some]
    refine ⟨_, hinfo, ?_⟩
    dsimp only
    unfold workPart
    generalize (if isSet item.flags vrtASPA = true then
      validateAspaPart s.rpki.lookup s.aspathCache
        ⟨cEntry.srxResult, cEntry.defaultResult, cEntry.aspathCacheID⟩ item.asType now
        else (s.aspathCache, SrxResult.doNotUse.code)) = part
    generalize (if isSet item.flags vrtBGPSEC = true ∧ cEntry.srxResult.bgpsecResult =
      SrxResult.undefined.code then s.rpki.validateSignature cEntry.bgpsecPath
        else SrxResult.doNotUse.code) = bgpsecResult
    split
    · obtain ⟨self', report, hmod, hresults, hreport⟩ := getUpdateResult_modify hfind
        ⟨SrxResult.doNotUse.code, bgpsecResult, part.2⟩
      rw [hmod]
      refine ⟨rfl, rfl, rfl, fun id => ?_, fun id new hnew => ?_, _, rfl, fun rep hrep => ?_⟩
      · rw [hresults, Option.isSome_map]
      · rw [hresults] at hnew
        obtain ⟨old, hold, rfl⟩ := Option.map_eq_some_iff.mp hnew
        refine ⟨old, hold, ?_⟩
        split
        · exact ⟨rfl, rfl, rfl⟩
        · exact ⟨rfl, rfl, rfl⟩
      · obtain ⟨hid, hval⟩ := hreport rep hrep
        refine ⟨hid, ?_⟩
        rw [hval]
        rfl
    · next hnone =>
      have hv : part.2 = SrxResult.doNotUse.code := by
        by_contra hne
        exact hnone (.inr hne)
      refine ⟨rfl, rfl, rfl, fun _ => rfl, fun id new hnew => ⟨new, hnew, rfl, rfl, ?_⟩,
        [], (List.append_nil _).symm, fun _ hrep => (nomatch hrep)⟩
      have hkeep : useResult part.2 new.srxRes.aspaResult = new.srxRes.aspaResult :=
        if_neg fun hne => hne hv
      rw [hkeep, ite_self]

end RequestLemmas

/-! ## A sample -/

/-- A request for the path of AS 65001 and AS 65002. -/
def pathRequest (updateID : UInt32) (asRelType : AsRelType) (aspaDefRes : SrxResult) :
    VerifyRequest where
  clientID := 1
  updateID := updateID
  flags := flagReceipt ||| vrtASPA
  v4 := true
  asType := .asSequence
  asRelType := asRelType
  afi := afiIP
  path := [65001, 65002]
  wire := two_fits16
  bgpsecPath := none
  roaResSrc := 0
  bgpsecResSrc := 0
  aspaResSrc := 0
  roaDefRes := SrxResult.undefined.code
  bgpsecDefRes := SrxResult.undefined.code
  aspaDefRes := aspaDefRes.code

/-- RPKI data without any ASPA. -/
def noAspaData : RpkiData := ⟨fun _ _ _ => .unknown, fun _ => SrxResult.unknown.code⟩

/-- The local variables of the server, here both set. -/
def someLocals : Locals := ⟨.asSequence, .customer⟩

end SrxSuite.Server

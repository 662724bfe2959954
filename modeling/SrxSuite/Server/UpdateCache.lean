import Mathlib.Data.List.Nodup
import SrxSuite.Shared.Defs

/-!
# The update cache

The model of `server/update_cache.c`: the updates the proxies asked for, each with its validation
result, the default result it came with and the clients that listen for changes. The hash table
and the list `allItems` hold the same entries, in the order they were stored.

The identifiers of the entries are different: `storeUpdate` stores no identifier twice.
-/

namespace SrxSuite.Server

/-! ## The data -/

/-- `SRxResult`: a byte for each validation. -/
structure UpdateResult where
  roaResult : UInt8
  bgpsecResult : UInt8
  aspaResult : UInt8
  deriving DecidableEq, Repr

/-- `SRxDefaultResult`. -/
structure DefaultResult where
  resSourceROA : UInt8
  resSourceBGPSEC : UInt8
  resSourceASPA : UInt8
  result : UpdateResult
  deriving DecidableEq, Repr

/-- `SRxValidationResult`; `valType` has a bit for each validation. -/
structure ValidationResult where
  valType : UInt8
  valResult : UpdateResult
  updateID : UInt32
  deriving DecidableEq, Repr

/-- `VRT_ROA`, `VRT_BGPSEC` and `VRT_ASPA`. -/
def vrtROA : UInt8 := 1
def vrtBGPSEC : UInt8 := 2
def vrtASPA : UInt8 := 4

/-- `SRxRS_UNKNOWN` and `SRxRS_DONOTUSE`. -/
def sourceUnknown : UInt8 := 3
def sourceDoNotUse : UInt8 := 128

/-- `CacheEntry`. `clients` is the allocated array, of which the first `noPossibleClients` elements
are used; a zero is a free place. -/
structure CacheEntry where
  clients : List UInt8
  noPossibleClients : UInt8
  updateID : UInt32
  srxResult : UpdateResult
  defaultResult : DefaultResult
  gcFlag : UInt16
  bgpsecPath : Option (List UInt8)
  aspathCacheID : UInt32
  deriving DecidableEq, Repr

/-- `UpdateCache`. -/
structure UpdateCache where
  allItems : List CacheEntry
  minNumberOfClients : UInt8
  defaultKeepWindow : UInt16
  unique : (allItems.map (·.updateID)).Nodup
  minPos : 0 < minNumberOfClients

/-- The part of the client array that the code reads. -/
def CacheEntry.places (entry : CacheEntry) : List UInt8 :=
  entry.clients.take entry.noPossibleClients.toNat

/-- The entry lists the client. -/
def CacheEntry.lists (entry : CacheEntry) (clientID : UInt8) : Bool :=
  clientID != 0 && entry.places.contains clientID

/-! ## The table -/

/-- `createUpdateCache`: the minimum number of clients must be greater than zero. -/
def createUpdateCache (minNumberOfClients : UInt8) (defaultKeepWindow : UInt16)
    (minPos : 0 < minNumberOfClients) : UpdateCache :=
  ⟨[], minNumberOfClients, defaultKeepWindow, List.nodup_nil, minPos⟩

/-- `tableFind`. -/
def UpdateCache.tableFind (self : UpdateCache) (updateID : UInt32) : Option CacheEntry :=
  self.allItems.find? (·.updateID == updateID)

/-- A write to the entry of an update. -/
def UpdateCache.write (self : UpdateCache) (updateID : UInt32) (f : CacheEntry → CacheEntry)
    (hf : ∀ entry, (f entry).updateID = entry.updateID) : UpdateCache where
  allItems := self.allItems.map fun entry => if entry.updateID = updateID then f entry else entry
  minNumberOfClients := self.minNumberOfClients
  defaultKeepWindow := self.defaultKeepWindow
  unique := by
    have hids : ((self.allItems.map fun entry =>
        if entry.updateID = updateID then f entry else entry).map (·.updateID)) =
          self.allItems.map (·.updateID) := by
      rw [List.map_map]
      refine List.map_congr_left fun entry _ => ?_
      show (if entry.updateID = updateID then f entry else entry).updateID = entry.updateID
      split
      · exact hf entry
      · rfl
    exact hids ▸ self.unique
  minPos := self.minPos

/-- `tableAdd` of an entry that was not found. -/
def UpdateCache.tableAdd (self : UpdateCache) (entry : CacheEntry)
    (hnew : self.tableFind entry.updateID = none) : UpdateCache where
  allItems := self.allItems ++ [entry]
  minNumberOfClients := self.minNumberOfClients
  defaultKeepWindow := self.defaultKeepWindow
  unique := by
    rw [List.map_append, List.nodup_append]
    refine ⟨self.unique, List.nodup_singleton _, ?_⟩
    intro a ha b hb hab
    obtain ⟨old, hold, rfl⟩ := List.mem_map.mp ha
    rw [List.map_singleton, List.mem_singleton] at hb
    have := List.find?_eq_none.mp hnew old hold
    exact this (beq_iff_eq.mpr (hab.trans hb))
  minPos := self.minPos

/-! ## Clients of an update -/

/-- `getGCTime`. -/
def getGCTime (now : Nat) (keepTime : UInt16) : UInt16 := UInt16.ofNat (now + keepTime.toNat)

/-- The loop of `_addClientReference`: the first free place or the client itself; the flag says
that the client is new. It is `none` when there is neither. -/
def addClientLoop (clientID : UInt8) : List UInt8 → Option (List UInt8 × Bool)
  | [] => none
  | c :: cs =>
    if c = 0 then some (clientID :: cs, true)
    else if c = clientID then some (c :: cs, false)
    else (addClientLoop clientID cs).map fun out => (c :: out.1, out.2)

/-- `_addClientReference`: the entry, and what is added to `clientMapping->updateCount`. The array
is extended when it has no place left; the new size is cut to a byte. -/
def addClientReference (minNumberOfClients : UInt8) (cEntry : CacheEntry) (clientID : UInt8) :
    CacheEntry × UInt32 :=
  match addClientLoop clientID cEntry.places with
  | some (places, counted) =>
    ({ cEntry with
        clients := places ++ cEntry.clients.drop cEntry.noPossibleClients.toNat
        gcFlag := 0 }, if counted then 1 else 0)
  | none =>
    let newSize := cEntry.noPossibleClients.toNat + minNumberOfClients.toNat
    ({ cEntry with
        clients := (cEntry.places ++ List.replicate minNumberOfClients.toNat 0).set
          cEntry.noPossibleClients.toNat clientID
        noPossibleClients := UInt8.ofNat newSize }, 0)

/-- One turn of the loop of `_deleteUpdateFromCache_clientMgmt` on the array and the two flags
`found` and `others`. -/
def clientMgmtTurn (clientID : UInt8) (s : List UInt8 × Bool × Bool) (idx : Nat) :
    List UInt8 × Bool × Bool :=
  let (clients, found, others) := s
  let c := clients.getD idx 0
  if c = clientID then (clients.set idx 0, true, others)
  else if c ≠ 0 then
    -- the client moves one to the left
    if found then ((clients.set (idx - 1) c).set idx 0, found, true)
    else (clients, found, true)
  else s

/-- `_deleteUpdateFromCache_clientMgmt`: the array and the return value. -/
def deleteUpdateFromCacheClientMgmt (entry : CacheEntry) (clientID : UInt8) :
    List UInt8 × Int :=
  let (clients, found, others) :=
    (List.range entry.noPossibleClients.toNat).foldl (clientMgmtTurn clientID)
      (entry.clients, false, false)
  (clients, if !found then -1 else if others then 1 else 0)

/-- `_deleteUpdateFromCache`: the flag says that the client was removed. -/
def deleteUpdateFromCacheEntry (clientID : UInt8) (cEntry : CacheEntry) (timeOfDeletion : UInt16) :
    CacheEntry × Bool :=
  let (clients, ret) := deleteUpdateFromCacheClientMgmt cEntry clientID
  let cEntry := { cEntry with clients := clients }
  if ret = -1 then (cEntry, false)
  else if ret = 0 then ({ cEntry with gcFlag := timeOfDeletion }, true)
  else (cEntry, true)

theorem deleteUpdateFromCacheEntry_updateID (clientID : UInt8) (cEntry : CacheEntry)
    (timeOfDeletion : UInt16) :
    (deleteUpdateFromCacheEntry clientID cEntry timeOfDeletion).1.updateID = cEntry.updateID := by
  unfold deleteUpdateFromCacheEntry
  dsimp only
  split
  · rfl
  · split
    · rfl
    · rfl

/-- `deleteUpdateFromCache`: the flag says that the client was removed. -/
def deleteUpdateFromCache (self : UpdateCache) (clientID : UInt8) (updateID : UInt32)
    (keepTime : UInt16) (now : Nat) : UpdateCache × Bool :=
  let keepTime := if keepTime < self.defaultKeepWindow then self.defaultKeepWindow else keepTime
  let timeToBeDeleted := getGCTime now keepTime
  match self.tableFind updateID with
  | none => (self, false)
  | some cEntry =>
    (self.write updateID (fun entry => (deleteUpdateFromCacheEntry clientID entry timeToBeDeleted).1)
      fun entry => deleteUpdateFromCacheEntry_updateID clientID entry _,
      (deleteUpdateFromCacheEntry clientID cEntry timeToBeDeleted).2)

/-- The loop of `unregisterClientID` over `allItems` with `mapping->updateCount` and `idsRemoved`. It
stops when the count is zero. -/
def unregisterLoop (clientID : UInt8) (keepTime : UInt16) :
    List CacheEntry → (updateCount : UInt32) → (idsRemoved : Nat) → List CacheEntry × UInt32 × Nat
  | [], updateCount, idsRemoved => ([], updateCount, idsRemoved)
  | cEntry :: rest, updateCount, idsRemoved =>
    let (cEntry, removed) := deleteUpdateFromCacheEntry clientID cEntry keepTime
    let updateCount := if removed then updateCount - 1 else updateCount
    let idsRemoved := if removed then idsRemoved + 1 else idsRemoved
    if updateCount = 0 then (cEntry :: rest, updateCount, idsRemoved)
    else
      let out := unregisterLoop clientID keepTime rest updateCount idsRemoved
      (cEntry :: out.1, out.2)

theorem unregisterLoop_updateID (clientID : UInt8) (keepTime : UInt16) (items : List CacheEntry)
    (updateCount : UInt32) (idsRemoved : Nat) :
    (unregisterLoop clientID keepTime items updateCount idsRemoved).1.map (·.updateID) =
      items.map (·.updateID) := by
  induction items generalizing updateCount idsRemoved with
  | nil => rfl
  | cons cEntry rest ih =>
    have hid := deleteUpdateFromCacheEntry_updateID clientID cEntry keepTime
    unfold unregisterLoop
    dsimp only
    generalize (deleteUpdateFromCacheEntry clientID cEntry keepTime).2 = removed
    generalize (if removed = true then updateCount - 1 else updateCount) = count
    split
    · rw [List.map_cons, List.map_cons, hid]
    · rw [List.map_cons, List.map_cons, hid, ih]

/-- `unregisterClientID` for a client that is not locked: the cache, `mapping->updateCount` and the
number of removed associations. -/
def unregisterClientID (self : UpdateCache) (clientID : UInt8) (updateCount : UInt32)
    (keepTime : UInt32) : UpdateCache × UInt32 × Nat :=
  ({ self with
      allItems := (unregisterLoop clientID keepTime.toUInt16 self.allItems updateCount 0).1
      unique := by rw [unregisterLoop_updateID]; exact self.unique },
    (unregisterLoop clientID keepTime.toUInt16 self.allItems updateCount 0).2)

/-- The entry `storeUpdate` makes, without clients. -/
def newCacheEntry (minNumberOfClients : UInt8) (updateID : UInt32) (defRes : Option DefaultResult)
    (bgpsecPath : Option (List UInt8)) (pathId : UInt32) : CacheEntry where
  clients := List.replicate minNumberOfClients.toNat 0
  noPossibleClients := minNumberOfClients
  updateID := updateID
  srxResult := ⟨SrxResult.undefined.code, SrxResult.undefined.code, SrxResult.undefined.code⟩
  defaultResult := defRes.getD ⟨sourceUnknown, sourceUnknown, sourceUnknown,
    ⟨SrxResult.undefined.code, SrxResult.undefined.code, SrxResult.undefined.code⟩⟩
  gcFlag := 0
  bgpsecPath := bgpsecPath
  aspathCacheID := pathId

theorem addClientReference_updateID (minNumberOfClients : UInt8) (cEntry : CacheEntry)
    (clientID : UInt8) :
    (addClientReference minNumberOfClients cEntry clientID).1.updateID = cEntry.updateID := by
  unfold addClientReference
  split
  · rfl
  · rfl

/-- `storeUpdate`: the cache, what is added to `clientMapping->updateCount` and the return value.
An update without a client is marked for the garbage collector. -/
def storeUpdate (self : UpdateCache) (clientID : UInt8) (updateID : UInt32)
    (defRes : Option DefaultResult) (bgpsecPath : Option (List UInt8)) (pathId : UInt32)
    (now : Nat) : UpdateCache × UInt32 × Int :=
  match h : self.tableFind updateID with
  | some _ => (self, 0, 0)
  | none =>
    let cEntry := newCacheEntry self.minNumberOfClients updateID defRes bgpsecPath pathId
    if clientID > 0 then
      (self.tableAdd (addClientReference self.minNumberOfClients cEntry clientID).1
        (by rw [addClientReference_updateID]; exact h),
        (addClientReference self.minNumberOfClients cEntry clientID).2, 1)
    else
      (self.tableAdd { cEntry with gcFlag := getGCTime now self.defaultKeepWindow } h, 0, 1)

/-- What `getUpdateResult` returns. -/
structure UpdateResultInfo where
  srxRes : UpdateResult
  defaultRes : DefaultResult
  pathId : UInt32
  deriving DecidableEq, Repr

/-- The results of `getUpdateResult`, `none` for an unknown update. -/
def getUpdateResult (self : UpdateCache) (updateID : UInt32) : Option UpdateResultInfo :=
  (self.tableFind updateID).map fun cEntry =>
    ⟨cEntry.srxResult, cEntry.defaultResult, cEntry.aspathCacheID⟩

/-- The results `getUpdateResult` writes for an unknown update. -/
def resultNotFound : UpdateResultInfo where
  srxRes := ⟨SrxResult.undefined.code, SrxResult.undefined.code, SrxResult.undefined.code⟩
  defaultRes := ⟨sourceDoNotUse, sourceDoNotUse, sourceDoNotUse,
    ⟨SrxResult.doNotUse.code, SrxResult.doNotUse.code, SrxResult.doNotUse.code⟩⟩
  pathId := 0

/-- The client part of `getUpdateResult`: a client that asks for a known update is registered with
it. The number is added to `clientMapping->updateCount`. -/
def registerClient (self : UpdateCache) (updateID : UInt32) (clientID : UInt8) :
    UpdateCache × UInt32 :=
  match self.tableFind updateID with
  | none => (self, 0)
  | some cEntry =>
    if clientID > 0 then
      (self.write updateID (fun entry => (addClientReference self.minNumberOfClients entry clientID).1)
        fun entry => addClientReference_updateID _ entry clientID,
        (addClientReference self.minNumberOfClients cEntry clientID).2)
    else (self, 0)

/-- `SRx_RESULT_DONOTUSE` keeps the old value. -/
def useResult (result old : UInt8) : UInt8 := if result ≠ SrxResult.doNotUse.code then result else old

/-- The results of an entry after `result`. -/
def newResult (result old : UpdateResult) : UpdateResult :=
  ⟨useResult result.roaResult old.roaResult, useResult result.bgpsecResult old.bgpsecResult,
    useResult result.aspaResult old.aspaResult⟩

/-- `valRes.valType` of `modifyUpdateResult`: a ROA or BGPsec result is reported when it changes, an
ASPA result always. -/
def changedType (result old : UpdateResult) : UInt8 :=
  (if (newResult result old).roaResult ≠ old.roaResult then vrtROA else 0) |||
    (if (newResult result old).bgpsecResult ≠ old.bgpsecResult then vrtBGPSEC else 0) |||
    (if result.aspaResult ≠ SrxResult.doNotUse.code then vrtASPA else 0)

/-- `modifyUpdateResult`: the cache and the call of `resChangedCallback`; the outer `none` is an
unknown update. -/
def modifyUpdateResult (self : UpdateCache) (updateID : UInt32) (result : UpdateResult)
    (suppressNotification : Bool) : Option (UpdateCache × Option ValidationResult) :=
  (self.tableFind updateID).map fun cEntry =>
    let valRes : ValidationResult :=
      ⟨changedType result cEntry.srxResult, newResult result cEntry.srxResult, updateID⟩
    (self.write updateID (fun entry => { entry with srxResult := newResult result entry.srxResult })
      fun _ => rfl,
      if !suppressNotification && valRes.valType != 0 then some valRes else none)

/-- `modifyUpdateCacheResultWithAspaVal`: the flag says that the value changed. -/
def modifyUpdateCacheResultWithAspaVal (self : UpdateCache) (updateID : UInt32)
    (aspaResult : UInt8) : UpdateCache × Bool :=
  match self.tableFind updateID with
  | none => (self, false)
  | some cEntry =>
    if aspaResult ≠ SrxResult.doNotUse.code ∧ aspaResult ≠ cEntry.srxResult.aspaResult then
      (self.write updateID
        (fun entry => { entry with srxResult.aspaResult := aspaResult }) fun _ => rfl, true)
    else (self, false)

namespace UpdateCacheLemmas

variable {self : UpdateCache} {updateID : UInt32} {entry : CacheEntry}

theorem tableFind_eq_some :
    self.tableFind updateID = some entry ↔ entry ∈ self.allItems ∧ entry.updateID = updateID := by
  constructor
  · intro h
    exact ⟨List.mem_of_find?_eq_some h, by simpa using List.find?_some h⟩
  · rintro ⟨hmem, rfl⟩
    cases hfind : self.tableFind entry.updateID with
    | none => exact absurd (beq_self_eq_true _) (List.find?_eq_none.mp hfind entry hmem)
    | some other =>
      have hid : other.updateID = entry.updateID := by simpa using List.find?_some hfind
      rw [List.inj_on_of_nodup_map self.unique (List.mem_of_find?_eq_some hfind) hmem hid]

theorem info_of_find (hfind : self.tableFind updateID = some entry) :
    getUpdateResult self updateID =
      some ⟨entry.srxResult, entry.defaultResult, entry.aspathCacheID⟩ := by
  unfold getUpdateResult
  rw [hfind, Option.map_some]

theorem tableFind_write (f : CacheEntry → CacheEntry)
    (hf : ∀ entry, (f entry).updateID = entry.updateID) (id : UInt32) :
    (self.write updateID f hf).tableFind id =
      (self.tableFind id).map fun entry => if id = updateID then f entry else entry := by
  have hp : ((fun entry : CacheEntry => entry.updateID == id) ∘
      fun entry => if entry.updateID = updateID then f entry else entry) =
        fun entry : CacheEntry => entry.updateID == id := by
    funext entry
    show ((if entry.updateID = updateID then f entry else entry).updateID == id) = _
    split
    · rw [hf]
    · rfl
  show (self.allItems.map _).find? _ = _
  rw [List.find?_map, hp]
  refine Option.map_congr fun entry hentry => ?_
  obtain ⟨-, rfl⟩ := tableFind_eq_some.mp hentry
  rfl

theorem tableFind_tableAdd (hnew : self.tableFind entry.updateID = none) (id : UInt32) :
    (self.tableAdd entry hnew).tableFind id =
      if id = entry.updateID then some entry else self.tableFind id := by
  show (self.allItems ++ [entry]).find? _ = _
  rw [List.find?_append]
  split
  · next hid =>
    subst hid
    rw [show self.allItems.find? _ = none from hnew]
    simp
  · next hid =>
    rw [List.find?_singleton, if_neg (by simpa using Ne.symm hid), Option.or_none]
    rfl

/-- An ASPA result that is taken over. -/
theorem tableFind_modifyAspa (v : UInt8) (id : UInt32) :
    (modifyUpdateCacheResultWithAspaVal self updateID v).1.tableFind id =
      (self.tableFind id).map fun entry => if id = updateID then
        { entry with srxResult.aspaResult := useResult v entry.srxResult.aspaResult }
      else entry := by
  have hself : self.tableFind id = (self.tableFind id).map fun entry => entry := by
    rw [Option.map_id']
  unfold modifyUpdateCacheResultWithAspaVal
  cases hfind : self.tableFind updateID with
  | none =>
    dsimp only
    nth_rewrite 1 [hself]
    refine Option.map_congr fun entry hentry => ?_
    rw [if_neg]
    rintro rfl
    rw [hfind] at hentry
    cases hentry
  | some cEntry =>
    dsimp only
    split
    · next hv =>
      rw [tableFind_write]
      refine Option.map_congr fun entry _ => ?_
      unfold useResult
      rw [if_pos hv.1]
    · next hv =>
      nth_rewrite 1 [hself]
      refine Option.map_congr fun entry hentry => ?_
      split
      · next hid =>
        subst hid
        obtain rfl := Option.some.inj (hfind.symm.trans hentry)
        have hsame : useResult v cEntry.srxResult.aspaResult = cEntry.srxResult.aspaResult := by
          unfold useResult
          split
          · next hne =>
            by_contra hdiff
            exact hv ⟨hne, hdiff⟩
          · rfl
        rw [hsame]
      · rfl

end UpdateCacheLemmas

end SrxSuite.Server

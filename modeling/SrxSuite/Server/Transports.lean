import Mathlib.Data.List.TakeWhile
import SrxSuite.Server.Identity

/-!
# Verify requests over gRPC

The model of `processValidationRequest_grpc` and `RunQueueCommand` (`server/grpc_service.c`), the
second copy of `processValidationRequest`. The two functions take the same steps but for two places:
the direction of a sibling and of a lateral peer is the other one, and the client is registered with
its update also when no validation is asked for. Both leave the type and the relation of an IPv6
request in variables they do not set.

Results:
1. `transports_agree_iff`: both transports come to the same outcome if and only if these differences
   do not show: a validation is asked for or the client is registered anyway, and the path needs no
   new record or the record has the same type and direction.
2. `transports_differ_sibling`: a path from a sibling is stored as a downstream path over TCP and as
   an upstream path over gRPC.
-/

namespace SrxSuite.Server

open Aspa

/-! ## The gRPC copy -/

/-- `SRXPROXY_VERIFY_NOTIFICATION` as a request is answered with it. -/
structure RequestAnswer where
  resultType : UInt8
  requestToken : UInt32
  roaResult : UInt8
  bgpsecResult : UInt8
  aspaResult : UInt8
  updateID : UInt32
  deriving DecidableEq, Repr

/-- The notification with the results of an update. -/
def requestAnswer (requestToken : UInt32) (v : ValidationResult) : RequestAnswer :=
  ⟨v.valType, requestToken, v.valResult.roaResult, v.valResult.bgpsecResult, v.valResult.aspaResult,
    v.updateID⟩

/-- `requestToken`: the token of the request counts with the receipt bit only. -/
def VerifyPdu.token (pdu : VerifyPdu) : UInt32 :=
  if isSet pdu.flags flagReceipt then pdu.requestToken else 0

/-- `RET_DATA` and the flags that are left in the request. -/
structure RetData where
  data : Option RequestAnswer
  info : Bool
  flags : UInt8

/-- The direction for a relation. -/
def asRelDirGrpc : AsRelType → AsRelDir
  | .customer => .upStream
  | .provider => .downStream
  | .sibling => .upStream
  | .lateral => .downStream
  | .unknown => .unknownStream

/-- The path list entry of a request. -/
def VerifyRequest.pathEntryGrpc (r : VerifyRequest) (locals : Locals) : Option AsPathEntry :=
  newAspathListEntry r.numberHops.toUInt32 r.path (r.pathId locals) (r.readType locals)
    (asRelDirGrpc (r.readRelType locals)) r.afi

/-- The ASPA part of `processValidationRequest_grpc`. -/
def aspaPartGrpc (self : AspathCache) (r : VerifyRequest) (locals : Locals)
    (info : UpdateResultInfo) (doStoreUpdate : Bool) : AspaPart :=
  if info.pathId = 0 then
    let pathId := r.pathId locals
    match getAspathListFromAspathCache self pathId 0 with
    | (some _, aspaResult) =>
      ⟨self, pathId, aspaResult, info.defaultRes,
        if aspaResult = SrxResult.undefined.code then none else some aspaResult⟩
    | (none, _) =>
      let defResInfo : DefaultResult :=
        if doStoreUpdate then
          { info.defaultRes with
            resSourceASPA := r.aspaResSrc
            result.aspaResult := r.aspaDefRes }
        else info.defaultRes
      ⟨(storeAspathList self (some defResInfo) pathId (r.readType locals)
          (r.pathEntryGrpc locals)).1, pathId, defResInfo.result.aspaResult, defResInfo, none⟩
  else ⟨self, info.pathId, info.srxRes.aspaResult, info.defaultRes, none⟩

/-- `processValidationRequest_grpc`. The client is what `findClientID` has for the proxy. -/
def processValidationRequestGrpc (s : ServerState) (r : VerifyRequest) (requestToken : UInt32)
    (locals : Locals) (now : Nat) : ServerState × RetData :=
  let doVal := isSet r.flags vrtROA || isSet r.flags vrtBGPSEC || isSet r.flags vrtASPA
  let known := getUpdateResult s.updateCache r.updateID
  let info := known.getD resultNotFound
  let part := aspaPartGrpc s.aspathCache r locals info known.isNone
  let updateCache := (registerClient s.updateCache r.updateID r.clientID).1
  let defResInfo : DefaultResult :=
    { part.defResInfo with
      resSourceROA := r.roaResSrc
      resSourceBGPSEC := r.bgpsecResSrc
      result.roaResult := r.roaDefRes
      result.bgpsecResult := r.bgpsecDefRes }
  let updateCache :=
    if known.isNone then
      (storeUpdate updateCache r.clientID r.updateID (some defResInfo) r.bgpsecPath part.pathId
        now).1
    else updateCache
  let updateCache :=
    match part.modifyUpdateCache with
    | some aspaResult =>
      (modifyUpdateCacheResultWithAspaVal updateCache r.updateID aspaResult).1
    | none => updateCache
  let srxRes : UpdateResult :=
    if known.isNone then ⟨r.roaDefRes, r.bgpsecDefRes, part.aspaResult⟩
    else { info.srxRes with aspaResult := part.aspaResult }
  let flags := sendFlags r srxRes
  let queue := doVal ∧ flags &&& (vrtROA ||| vrtBGPSEC ||| vrtASPA) > 0
  ({ s with updateCache := updateCache, aspathCache := part.aspathCache },
    if flags > 0 then
      { data := some (requestAnswer requestToken ⟨flags, srxRes, r.updateID⟩)
        info := decide queue
        flags := if queue then flags &&& (vrtROA ||| vrtBGPSEC ||| vrtASPA) else r.flags }
    else ⟨none, false, r.flags⟩)

/-- `RunQueueCommand`: the command is for the update of the notification. -/
def runQueueCommand (s : ServerState) (r : VerifyRequest) (rt : RetData) : ServerState :=
  match rt.data with
  | none => s
  | some pdu => { s with cmdQueue := s.cmdQueue ++ [⟨pdu.updateID, rt.flags, r.asType⟩] }

/-! ## What a request comes to -/

/-- What can be seen of a request afterwards: the identifiers, the two caches, the notification and
the commands. -/
structure Outcome where
  updateID : UInt32
  pathId : UInt32
  updateCache : UpdateCache
  aspathCache : AspathCache
  data : UInt32 → UpdateData
  notification : Option RequestAnswer
  queued : List CommandItem

/-- The update data after a request. -/
def IdentityState.dataAfter (s : IdentityState) (updateID : UInt32) (update : UpdateData) :
    UInt32 → UpdateData :=
  if (s.stored updateID).isSome then s.data else Function.update s.data updateID update

/-- A request over TCP. It is `none` when no identifier is found. -/
def tcpOutcome (s : IdentityState) (pdu : VerifyPdu) (clientID : UInt8) (locals : Locals)
    (now : Nat) : Option Outcome :=
  (updateIDs.place s.stored pdu.update).map fun updateID =>
    let r := pdu.request clientID updateID
    let server := processValidationRequest s.server r locals now
    { updateID := updateID
      pathId := (aspaPart s.server.aspathCache r locals
        ((getUpdateResult s.server.updateCache updateID).getD resultNotFound)
        (getUpdateResult s.server.updateCache updateID).isNone).pathId
      updateCache := server.updateCache
      aspathCache := server.aspathCache
      data := s.dataAfter updateID pdu.update
      notification := (server.reports.drop s.server.reports.length).head?.map
        (requestAnswer pdu.token)
      queued := server.cmdQueue.drop s.server.cmdQueue.length }

/-- A request over gRPC. -/
def grpcOutcome (s : IdentityState) (pdu : VerifyPdu) (clientID : UInt8) (locals : Locals)
    (now : Nat) : Option Outcome :=
  (updateIDs.place s.stored pdu.update).map fun updateID =>
    let r := pdu.request clientID updateID
    let (server, rt) := processValidationRequestGrpc s.server r pdu.token locals now
    let server := if rt.info then runQueueCommand server r rt else server
    { updateID := updateID
      pathId := (aspaPartGrpc s.server.aspathCache r locals
        ((getUpdateResult s.server.updateCache updateID).getD resultNotFound)
        (getUpdateResult s.server.updateCache updateID).isNone).pathId
      updateCache := server.updateCache
      aspathCache := server.aspathCache
      data := s.dataAfter updateID pdu.update
      notification := rt.data
      queued := server.cmdQueue.drop s.server.cmdQueue.length }

/-! ## The condition -/

/-- The request asks for a validation, or it comes from no client, or the client is found among those
of the stored update before a free place, and the update is not marked for the garbage collector. -/
def ClientStays (s : ServerState) (r : VerifyRequest) : Prop :=
  (isSet r.flags vrtROA || isSet r.flags vrtBGPSEC || isSet r.flags vrtASPA) = true ∨
    r.clientID = 0 ∨
    ∃ cEntry, s.updateCache.tableFind r.updateID = some cEntry ∧ cEntry.gcFlag = 0 ∧
      r.clientID ∈ cEntry.places.takeWhile (· ≠ 0)

/-- There is no path, or the update has its path identifier, or the type is the same for both copies
and so is the direction, unless the path is stored already. -/
def PathStays (s : ServerState) (r : VerifyRequest) (tcp grpc : Locals) : Prop :=
  r.path = [] ∨
    (∃ info, getUpdateResult s.updateCache r.updateID = some info ∧ info.pathId ≠ 0) ∨
    (r.readType tcp = r.readType grpc ∧
      ((s.aspathCache (r.pathId tcp)).isSome ∨
        asRelDir (r.readRelType tcp) = asRelDirGrpc (r.readRelType grpc)))

namespace TransportLemmas

open PathCacheLemmas UpdateCacheLemmas

/-! ## The CRC of two texts that differ in the last two bytes -/

/-- One turn of the loop of `crc32`. -/
def crcByte (c : UInt32) (b : UInt8) : UInt32 :=
  (c >>> 8) ^^^ crc32tab (b.toUInt32 ^^^ (c &&& 0xFF))

/-- The eight steps of an entry taken back, from its first byte: the polynomial was added where the
highest bit is set. -/
def crc32back (top : UInt32) : UInt32 :=
  (List.range 8).foldl (fun (c : UInt32) _ =>
    if c >>> 31 = 1 then ((c ^^^ 0xEDB88320) <<< 1) ||| 1 else c <<< 1) (top <<< 24) &&& 0xFF

theorem crc32back_crc32tab :
    ∀ i < 256, crc32back (crc32tab (UInt32.ofNat i) >>> 24) = UInt32.ofNat i := by
  decide +kernel

/-- The first bytes of the table are all different. -/
theorem crc32tab_inj {x y : UInt32} (hx : x.toNat < 256) (hy : y.toNat < 256)
    (h : crc32tab x >>> 24 = crc32tab y >>> 24) : x = y := by
  have hback {z : UInt32} (hz : z.toNat < 256) : crc32back (crc32tab z >>> 24) = z := by
    have := crc32back_crc32tab z.toNat hz
    rwa [UInt32.ofNat_toNat] at this
  rw [← hback hx, h, hback hy]

theorem index_lt (c : UInt32) (b : UInt8) : (b.toUInt32 ^^^ (c &&& 0xFF)).toNat < 256 := by
  rw [UInt32.toNat_xor]
  refine Nat.xor_lt_two_pow (n := 8) ?_ ?_
  · rw [UInt8.toNat_toUInt32]
    exact b.toNat_lt
  · rw [UInt32.toNat_and]
    exact Nat.lt_of_le_of_lt Nat.and_le_right (by decide)

theorem shift_shift (x : UInt32) : (x >>> 8) >>> 16 = x >>> 24 := by
  apply UInt32.toNat_inj.mp
  rw [UInt32.toNat_shiftRight, UInt32.toNat_shiftRight, UInt32.toNat_shiftRight]
  exact (Nat.shiftRight_add _ 8 16).symm

/-- The first byte of the remainder comes from the table. -/
theorem crcByte_top (c : UInt32) (b : UInt8) :
    crcByte c b >>> 24 = crc32tab (b.toUInt32 ^^^ (c &&& 0xFF)) >>> 24 := by
  apply UInt32.toNat_inj.mp
  unfold crcByte
  rw [UInt32.toNat_shiftRight, UInt32.toNat_shiftRight, UInt32.toNat_xor, UInt32.toNat_shiftRight]
  show (c.toNat >>> 8 ^^^ _) >>> 24 = _ >>> 24
  have hzero : c.toNat >>> 8 >>> 24 = 0 := by
    rw [← Nat.shiftRight_add, Nat.shiftRight_eq_div_pow]
    exact Nat.div_eq_of_lt c.toNat_lt
  rw [Nat.shiftRight_xor_distrib, hzero, Nat.zero_xor]

theorem index_inj {c : UInt32} {a b : UInt8}
    (h : a.toUInt32 ^^^ (c &&& 0xFF) = b.toUInt32 ^^^ (c &&& 0xFF)) : a = b := by
  have hxor := congrArg (fun x => x ^^^ (c &&& 0xFF)) h
  rw [UInt32.xor_assoc, UInt32.xor_assoc, UInt32.xor_self, UInt32.xor_zero, UInt32.xor_zero] at hxor
  exact UInt8.toUInt32_inj.mp hxor

/-- Two bytes leave their mark on the remainder. -/
theorem crcByte_two_inj {c : UInt32} {a b a' b' : UInt8}
    (h : crcByte (crcByte c a) b = crcByte (crcByte c a') b') : a = a' ∧ b = b' := by
  have hindex : b.toUInt32 ^^^ (crcByte c a &&& 0xFF) = b'.toUInt32 ^^^ (crcByte c a' &&& 0xFF) := by
    refine crc32tab_inj (index_lt _ _) (index_lt _ _) ?_
    rw [← crcByte_top, ← crcByte_top, h]
  -- without the table entry the rest of the remainder is left
  have hrest : crcByte c a >>> 8 = crcByte c a' >>> 8 := by
    unfold crcByte at h
    change (crcByte c a >>> 8) ^^^ crc32tab (b.toUInt32 ^^^ (crcByte c a &&& 0xFF)) =
      (crcByte c a' >>> 8) ^^^ crc32tab (b'.toUInt32 ^^^ (crcByte c a' &&& 0xFF)) at h
    rw [hindex] at h
    have hxor := congrArg (fun x => x ^^^ crc32tab (b'.toUInt32 ^^^ (crcByte c a' &&& 0xFF))) h
    rwa [UInt32.xor_assoc, UInt32.xor_assoc, UInt32.xor_self, UInt32.xor_zero,
      UInt32.xor_zero] at hxor
  have hfirst : a = a' := by
    refine index_inj (c := c) (crc32tab_inj (index_lt _ _) (index_lt _ _) ?_)
    rw [← crcByte_top, ← crcByte_top, ← shift_shift, ← shift_shift, hrest]
  rw [hfirst] at hindex
  exact ⟨hfirst, index_inj hindex⟩

/-- The CRC of a path tells the type. -/
theorem crc32_type_inj {text : List UInt8} {t u : AsType}
    (h : crc32 (text ++ typeText t) = crc32 (text ++ typeText u)) : t = u := by
  have htwo (v : AsType) : ∃ a b, typeText v = [a, b] := List.length_eq_two.mp (length_typeText v)
  obtain ⟨a, b, ht⟩ := htwo t
  obtain ⟨a', b', hu⟩ := htwo u
  unfold crc32 at h
  rw [ht, hu, List.foldl_append, List.foldl_append] at h
  have hsame := crcByte_two_inj (UInt32.not_inj.mp h)
  exact typeText_inj (by rw [ht, hu, hsame.1, hsame.2])

/-- The path identifiers of one path with two types. -/
theorem pathId_inj {r : VerifyRequest} {tcp grpc : Locals} (hpath : r.path ≠ [])
    (h : r.pathId tcp = r.pathId grpc) : r.readType tcp = r.readType grpc := by
  have hhops : r.numberHops ≠ 0 := by
    intro hzero
    have := congrArg UInt16.toNat hzero
    unfold VerifyRequest.numberHops at this
    rw [UInt16.toNat_ofNat', Nat.mod_eq_of_lt r.wire] at this
    exact hpath (List.length_eq_zero_iff.mp this)
  unfold VerifyRequest.pathId VerifyRequest.asPath makePathId pathText at h
  rw [if_pos hhops] at h
  exact crc32_type_inj h

/-! ## The path part -/

variable {s : ServerState} {r : VerifyRequest} {tcp grpc : Locals} {c m : UInt8}

/-- The copies of the path part come to the same where the condition holds. -/
theorem aspaPartGrpc_eq (h : PathStays s r tcp grpc) :
    aspaPart s.aspathCache r tcp ((getUpdateResult s.updateCache r.updateID).getD resultNotFound)
        (getUpdateResult s.updateCache r.updateID).isNone =
      aspaPartGrpc s.aspathCache r grpc
        ((getUpdateResult s.updateCache r.updateID).getD resultNotFound)
        (getUpdateResult s.updateCache r.updateID).isNone := by
  unfold aspaPart aspaPartGrpc
  rcases h with hnil | ⟨info, hinfo, hid⟩ | ⟨htype, hrest⟩
  · -- without hops there is no identifier and no entry
    have hhops : r.numberHops = 0 := by
      unfold VerifyRequest.numberHops
      rw [hnil]
      rfl
    have hpathId (locals : Locals) : r.pathId locals = 0 := by
      unfold VerifyRequest.pathId VerifyRequest.asPath
      rw [if_neg fun hne => hne hhops]
      rfl
    have hentry : r.pathEntry tcp = none := by
      unfold VerifyRequest.pathEntry newAspathListEntry
      rw [hhops]
      rfl
    have hentry' : r.pathEntryGrpc grpc = none := by
      unfold VerifyRequest.pathEntryGrpc newAspathListEntry
      rw [hhops]
      rfl
    rw [hpathId, hpathId, hentry, hentry']
    rfl
  · rw [hinfo, Option.getD_some, if_neg hid, if_neg hid]
  · have hpathId : r.pathId tcp = r.pathId grpc := by
      unfold VerifyRequest.pathId
      rw [htype]
    rw [← hpathId, ← htype]
    rcases hrest with hfound | hdir
    · -- the path is not stored again
      have hkeep (res : Option DefaultResult) (entry : Option AsPathEntry) :
          (storeAspathList s.aspathCache res (r.pathId tcp) (r.readType tcp) entry).1 =
            s.aspathCache := by
        unfold storeAspathList
        cases entry with
        | none => rfl
        | some entry =>
          dsimp only
          rw [if_pos hfound]
      split
      · dsimp only
        cases getAspathListFromAspathCache s.aspathCache (r.pathId tcp) 0 with
        | mk found v =>
          cases found with
          | some entry => rfl
          | none =>
            dsimp only
            rewrite [hkeep, hkeep]
            rfl
      · rfl
    · have hentry : r.pathEntryGrpc grpc = r.pathEntry tcp := by
        unfold VerifyRequest.pathEntry VerifyRequest.pathEntryGrpc
        rw [hdir, hpathId, htype]
      rewrite [hentry]
      rfl

/-- The path part for a path that is looked up, with the record it adds. -/
theorem pathStays_of_eq {info : UpdateResultInfo} {doStoreUpdate : Bool} (hid : info.pathId = 0)
    (hpath : r.path ≠ [])
    (hpathId : (aspaPart s.aspathCache r tcp info doStoreUpdate).pathId =
      (aspaPartGrpc s.aspathCache r grpc info doStoreUpdate).pathId)
    (hcache : (aspaPart s.aspathCache r tcp info doStoreUpdate).aspathCache =
      (aspaPartGrpc s.aspathCache r grpc info doStoreUpdate).aspathCache) :
    r.readType tcp = r.readType grpc ∧ ((s.aspathCache (r.pathId tcp)).isSome ∨
      asRelDir (r.readRelType tcp) = asRelDirGrpc (r.readRelType grpc)) := by
  have htcp : (aspaPart s.aspathCache r tcp info doStoreUpdate).pathId = r.pathId tcp := by
    unfold aspaPart
    rw [if_pos hid]
    dsimp only
    split
    · rfl
    · rfl
  have hgrpc : (aspaPartGrpc s.aspathCache r grpc info doStoreUpdate).pathId = r.pathId grpc := by
    unfold aspaPartGrpc
    rw [if_pos hid]
    dsimp only
    split
    · rfl
    · rfl
  have hsame : r.pathId tcp = r.pathId grpc := by rw [← htcp, hpathId, hgrpc]
  refine ⟨pathId_inj hpath hsame, ?_⟩
  cases hfound : s.aspathCache (r.pathId tcp) with
  | some t => exact .inl rfl
  | none =>
    right
    have hmiss : (getAspathListFromAspathCache s.aspathCache (r.pathId tcp) 0).1 = none := by
      unfold getAspathListFromAspathCache
      rw [hfound]
      split
      · rfl
      · rfl
    have hhops : r.numberHops.toUInt32 ≠ 0 := by
      intro hzero
      have := congrArg UInt32.toNat hzero
      unfold VerifyRequest.numberHops at this
      rw [UInt16.toNat_toUInt32, UInt16.toNat_ofNat', Nat.mod_eq_of_lt r.wire] at this
      exact hpath (List.length_eq_zero_iff.mp this)
    -- both copies store a record; the two records have their directions
    have hrecord := congrFun hcache (r.pathId tcp)
    unfold aspaPart aspaPartGrpc at hrecord
    rw [if_pos hid, if_pos hid, ← hsame] at hrecord
    dsimp only at hrecord
    cases hget : getAspathListFromAspathCache s.aspathCache (r.pathId tcp) 0 with
    | mk found v =>
      rw [hget] at hmiss hrecord
      obtain rfl : found = none := hmiss
      unfold storeAspathList VerifyRequest.pathEntry VerifyRequest.pathEntryGrpc
        newAspathListEntry at hrecord
      dsimp only at hrecord
      rw [if_neg hhops, if_neg hhops] at hrecord
      dsimp only at hrecord
      rw [hfound, Option.isSome_none, if_neg Bool.false_ne_true, if_neg Bool.false_ne_true] at hrecord
      dsimp only at hrecord
      rw [Function.update_self, Function.update_self] at hrecord
      exact congrArg PathListCacheTable.asRelDir (Option.some.inj hrecord)

/-! ## The client part -/

/-- A client that is found before a free place is left where it is. -/
theorem addClientLoop_keeps (hc : c ≠ 0) (places : List UInt8) {places' : List UInt8} {counted : Bool}
    (h : addClientLoop c places = some (places', counted)) :
    places' = places ↔ c ∈ places.takeWhile (· ≠ 0) := by
  induction places generalizing places' counted with
  | nil => cases h
  | cons d places ih =>
    unfold addClientLoop at h
    by_cases hzero : d = 0
    · rw [if_pos hzero] at h
      obtain ⟨rfl, -⟩ := Prod.mk.inj (Option.some.inj h)
      subst hzero
      rw [List.takeWhile_cons_of_neg (by decide)]
      refine ⟨fun heq => absurd (List.cons.inj heq).1 hc, fun hmem => (nomatch hmem)⟩
    · rw [if_neg hzero] at h
      rw [List.takeWhile_cons_of_pos (by simpa using hzero)]
      by_cases hd : d = c
      · rw [if_pos hd] at h
        obtain ⟨rfl, -⟩ := Prod.mk.inj (Option.some.inj h)
        exact ⟨fun _ => hd ▸ List.mem_cons_self, fun _ => rfl⟩
      · rw [if_neg hd] at h
        obtain ⟨⟨rest, counted'⟩, hrest, heq⟩ := Option.map_eq_some_iff.mp h
        obtain ⟨rfl, rfl⟩ := Prod.mk.inj heq
        rw [List.mem_cons, or_iff_right (Ne.symm hd), ← ih hrest, List.cons.injEq, and_iff_right rfl]

theorem addClientLoop_none (places : List UInt8) (h : addClientLoop c places = none) :
    c ∉ places.takeWhile (· ≠ 0) := by
  induction places with
  | nil => exact List.not_mem_nil
  | cons d places ih =>
    unfold addClientLoop at h
    split at h
    · cases h
    · next hzero =>
      split at h
      · cases h
      · next hd =>
        rw [List.takeWhile_cons_of_pos (by simpa using hzero), List.mem_cons, not_or]
        exact ⟨Ne.symm hd, ih (Option.map_eq_none_iff.mp h)⟩

/-- What `_addClientReference` leaves of the clients of an entry is what was there. -/
theorem addClientReference_keeps (hm : 0 < m) (hc : c ≠ 0) (cEntry : CacheEntry) :
    ((addClientReference m cEntry c).1.clients = cEntry.clients ∧
        (addClientReference m cEntry c).1.noPossibleClients = cEntry.noPossibleClients ∧
        (addClientReference m cEntry c).1.gcFlag = cEntry.gcFlag) ↔
      cEntry.gcFlag = 0 ∧ c ∈ cEntry.places.takeWhile (· ≠ 0) := by
  unfold addClientReference
  cases hloop : addClientLoop c cEntry.places with
  | none =>
    dsimp only
    constructor
    · -- the array got longer
      rintro ⟨-, hsize, -⟩
      have hnat := congrArg UInt8.toNat hsize
      rw [UInt8.toNat_ofNat'] at hnat
      have hn := cEntry.noPossibleClients.toNat_lt
      have hmlt := m.toNat_lt
      have hmpos := UInt8.lt_iff_toNat_lt.mp hm
      rw [UInt8.toNat_zero] at hmpos
      omega
    · rintro ⟨-, hmem⟩
      exact absurd hmem (addClientLoop_none _ hloop)
  | some out =>
    obtain ⟨places, counted⟩ := out
    dsimp only
    rw [← addClientLoop_keeps hc _ hloop]
    constructor
    · rintro ⟨hclients, -, hflag⟩
      refine ⟨hflag.symm, ?_⟩
      have hsplit : places ++ cEntry.clients.drop cEntry.noPossibleClients.toNat =
          cEntry.places ++ cEntry.clients.drop cEntry.noPossibleClients.toNat := by
        rw [hclients]
        exact (List.take_append_drop _ _).symm
      exact List.append_cancel_right hsplit
    · rintro ⟨hflag, rfl⟩
      exact ⟨List.take_append_drop _ _, rfl, hflag.symm⟩

/-- The default results of a new update. -/
def newDefault (r : VerifyRequest) (part : AspaPart) : DefaultResult :=
  { part.defResInfo with
    resSourceROA := r.roaResSrc
    resSourceBGPSEC := r.bgpsecResSrc
    result.roaResult := r.roaDefRes
    result.bgpsecResult := r.bgpsecDefRes }

/-- The update cache after a request of a client, with the path part that was found. -/
def cacheAfter (s : ServerState) (r : VerifyRequest) (c : UInt8) (part : AspaPart) (now : Nat) :
    UpdateCache :=
  let updateCache := (registerClient s.updateCache r.updateID c).1
  let updateCache :=
    if (getUpdateResult s.updateCache r.updateID).isNone then
      (storeUpdate updateCache c r.updateID (some (newDefault r part)) r.bgpsecPath part.pathId
        now).1
    else updateCache
  match part.modifyUpdateCache with
  | some aspaResult => (modifyUpdateCacheResultWithAspaVal updateCache r.updateID aspaResult).1
  | none => updateCache

/-- What an entry says about its clients. -/
def clientPart (cEntry : CacheEntry) : List UInt8 × UInt8 × UInt16 :=
  (cEntry.clients, cEntry.noPossibleClients, cEntry.gcFlag)

/-- The entry of an update after a request of a client, as far as the clients are concerned. -/
def entryAfter (s : ServerState) (r : VerifyRequest) (c : UInt8) (part : AspaPart) (now : Nat) :
    CacheEntry :=
  match s.updateCache.tableFind r.updateID with
  | some cEntry =>
    if c > 0 then (addClientReference s.updateCache.minNumberOfClients cEntry c).1 else cEntry
  | none =>
    let cEntry := newCacheEntry s.updateCache.minNumberOfClients r.updateID
      (some (newDefault r part)) r.bgpsecPath part.pathId
    if c > 0 then (addClientReference s.updateCache.minNumberOfClients cEntry c).1
    else { cEntry with gcFlag := getGCTime now s.updateCache.defaultKeepWindow }

theorem clientPart_after (s : ServerState) (r : VerifyRequest) (c : UInt8) (part : AspaPart)
    (now : Nat) :
    ((cacheAfter s r c part now).tableFind r.updateID).map clientPart =
      some (clientPart (entryAfter s r c part now)) := by
  have hmodify (cache : UpdateCache) :
      ((match part.modifyUpdateCache with
        | some v => (modifyUpdateCacheResultWithAspaVal cache r.updateID v).1
        | none => cache).tableFind r.updateID).map clientPart =
          (cache.tableFind r.updateID).map clientPart := by
    split
    · rw [tableFind_modifyAspa, Option.map_map]
      refine Option.map_congr fun entry _ => ?_
      show clientPart (if r.updateID = r.updateID then _ else entry) = _
      rw [if_pos rfl]
      rfl
    · rfl
  have hadd {entry : CacheEntry} (hentry : s.updateCache.tableFind entry.updateID = none)
      (hid : entry.updateID = r.updateID) :
      ((s.updateCache.tableAdd entry hentry).tableFind r.updateID).map clientPart =
        some (clientPart entry) := by
    rw [tableFind_tableAdd, if_pos hid.symm, Option.map_some]
  unfold cacheAfter entryAfter
  rw [hmodify]
  cases hfind : s.updateCache.tableFind r.updateID with
  | some cEntry =>
    rw [info_of_find hfind, Option.isNone_some, if_neg Bool.false_ne_true]
    unfold registerClient
    rw [hfind]
    dsimp only
    split
    · rw [tableFind_write, hfind, Option.map_some, Option.map_some, if_pos rfl]
    · rw [hfind, Option.map_some]
  | none =>
    have hnone : getUpdateResult s.updateCache r.updateID = none :=
      RequestLemmas.tableFind_none_iff.mp hfind
    rw [hnone, Option.isNone_none, if_pos rfl]
    unfold registerClient
    rw [hfind]
    dsimp only
    unfold storeUpdate
    split
    · next hsome =>
      rw [hfind] at hsome
      cases hsome
    · dsimp only
      split
      · exact hadd (by rw [addClientReference_updateID]; exact hfind)
          (addClientReference_updateID _ _ _)
      · exact hadd hfind rfl

/-- A request without a validation leaves the clients as a request of the client does if and only if
the client is registered already. -/
theorem entryAfter_keeps (hc : r.clientID ≠ 0) (part : AspaPart) (now : Nat) :
    clientPart (entryAfter s r 0 part now) = clientPart (entryAfter s r r.clientID part now) ↔
      ∃ cEntry, s.updateCache.tableFind r.updateID = some cEntry ∧ cEntry.gcFlag = 0 ∧
        r.clientID ∈ cEntry.places.takeWhile (· ≠ 0) := by
  have hpos : r.clientID > 0 := UInt8.pos_iff_ne_zero.mpr hc
  unfold entryAfter
  cases hfind : s.updateCache.tableFind r.updateID with
  | some cEntry =>
    dsimp only
    rw [if_neg (by decide), if_pos hpos]
    have hkeeps := addClientReference_keeps s.updateCache.minPos hc cEntry
    constructor
    · intro h
      obtain ⟨hclients, hrest⟩ := Prod.mk.inj h
      obtain ⟨hsize, hflag⟩ := Prod.mk.inj hrest
      exact ⟨cEntry, rfl, hkeeps.mp ⟨hclients.symm, hsize.symm, hflag.symm⟩⟩
    · rintro ⟨cEntry', hentry, h⟩
      obtain rfl := Option.some.inj hentry
      obtain ⟨hclients, hsize, hflag⟩ := hkeeps.mpr h
      unfold clientPart
      rw [hclients, hsize, hflag]
  | none =>
    dsimp only
    rw [if_neg (by decide), if_pos hpos]
    refine ⟨fun h => ?_, fun ⟨cEntry, hentry, _⟩ => (nomatch hentry)⟩
    -- the new entry lists the client in its first place
    have hclients := (Prod.mk.inj h).1
    obtain ⟨k, hk⟩ := Nat.exists_eq_succ_of_ne_zero (Nat.ne_of_gt
      (UInt8.lt_iff_toNat_lt.mp s.updateCache.minPos))
    unfold addClientReference CacheEntry.places newCacheEntry at hclients
    dsimp only at hclients
    rw [hk, List.replicate_succ, List.take_succ_cons] at hclients
    unfold addClientLoop at hclients
    rw [if_pos rfl] at hclients
    exact absurd (List.cons.inj hclients).1.symm hc

/-- A client that is registered already leaves the cache as it is. -/
theorem registerClient_listed {self : UpdateCache} {updateID : UInt32} {cEntry : CacheEntry}
    (hfind : self.tableFind updateID = some cEntry) (hc : c ≠ 0) (hflag : cEntry.gcFlag = 0)
    (hmem : c ∈ cEntry.places.takeWhile (· ≠ 0)) : (registerClient self updateID c).1 = self := by
  obtain ⟨hclients, hsize, hgc⟩ :=
    (addClientReference_keeps self.minPos hc cEntry).mpr ⟨hflag, hmem⟩
  obtain ⟨hres, hdef, hpath, hattr⟩ :=
    RequestLemmas.addClientReference_info self.minNumberOfClients cEntry c
  have hid := addClientReference_updateID self.minNumberOfClients cEntry c
  have hsame : (addClientReference self.minNumberOfClients cEntry c).1 = cEntry := by
    generalize (addClientReference self.minNumberOfClients cEntry c).1 = entry at *
    cases entry
    cases cEntry
    simp only [CacheEntry.mk.injEq]
    exact ⟨hclients, hsize, hid, hres, hdef, hgc, hattr, hpath⟩
  have hitems : (self.allItems.map fun entry => if entry.updateID = updateID then
      (addClientReference self.minNumberOfClients entry c).1 else entry) = self.allItems := by
    conv_rhs => rw [← List.map_id self.allItems]
    refine List.map_congr_left fun entry hentry => ?_
    split
    · next heq =>
      obtain rfl := Option.some.inj (hfind.symm.trans (tableFind_eq_some.mpr ⟨hentry, heq⟩))
      exact hsame
    · rfl
  unfold registerClient
  rw [hfind]
  dsimp only
  rw [if_pos (UInt8.pos_iff_ne_zero.mpr hc)]
  unfold UpdateCache.write
  cases self
  simp only [UpdateCache.mk.injEq, and_true]
  exact hitems

/-! ## The outcome -/

/-- The request asks for a validation. -/
def doVal (r : VerifyRequest) : Bool :=
  isSet r.flags vrtROA || isSet r.flags vrtBGPSEC || isSet r.flags vrtASPA

/-- The results a request is answered with. -/
def answered (s : ServerState) (r : VerifyRequest) (part : AspaPart) : UpdateResult :=
  if (getUpdateResult s.updateCache r.updateID).isNone then
    ⟨r.roaDefRes, r.bgpsecDefRes, part.aspaResult⟩
  else
    { ((getUpdateResult s.updateCache r.updateID).getD resultNotFound).srxRes with
      aspaResult := part.aspaResult }

/-- The outcome for a client and a path part. -/
def outcomeOf (s : ServerState) (r : VerifyRequest) (requestToken : UInt32)
    (data : UInt32 → UpdateData) (c : UInt8) (part : AspaPart) (now : Nat) : Outcome where
  updateID := r.updateID
  pathId := part.pathId
  updateCache := cacheAfter s r c part now
  aspathCache := part.aspathCache
  data := data
  notification :=
    if sendFlags r (answered s r part) > 0 then
      some (requestAnswer requestToken
        ⟨sendFlags r (answered s r part), answered s r part, r.updateID⟩)
    else none
  queued :=
    if doVal r ∧ sendFlags r (answered s r part) &&& (vrtROA ||| vrtBGPSEC ||| vrtASPA) > 0 then
      [⟨r.updateID, sendFlags r (answered s r part) &&& (vrtROA ||| vrtBGPSEC ||| vrtASPA),
        r.asType⟩]
    else []

theorem head_appended {α : Type} (p : Prop) [Decidable p] (l : List α) (x : α) :
    ((if p then l ++ [x] else l).drop l.length) = if p then [x] else [] := by
  split
  · rw [List.drop_left]
  · rw [List.drop_length]

theorem tcpOutcome_eq (s : IdentityState) (pdu : VerifyPdu) (clientID : UInt8) (locals : Locals)
    (now : Nat) :
    tcpOutcome s pdu clientID locals now =
      (updateIDs.place s.stored pdu.update).map fun updateID =>
        let r := pdu.request clientID updateID
        outcomeOf s.server r pdu.token (s.dataAfter updateID pdu.update)
          (if doVal r then clientID else 0)
          (aspaPart s.server.aspathCache r locals
            ((getUpdateResult s.server.updateCache r.updateID).getD resultNotFound)
            (getUpdateResult s.server.updateCache r.updateID).isNone) now := by
  unfold tcpOutcome
  refine Option.map_congr fun updateID _ => ?_
  unfold outcomeOf
  dsimp only
  rw [show (processValidationRequest s.server (pdu.request clientID updateID) locals now).reports =
      if _ then s.server.reports ++ [_] else s.server.reports from rfl,
    show (processValidationRequest s.server (pdu.request clientID updateID) locals now).cmdQueue =
      if _ then s.server.cmdQueue ++ [_] else s.server.cmdQueue from rfl, head_appended,
    head_appended, apply_ite List.head?, apply_ite (Option.map _)]
  rfl

/-- The gRPC copy in the terms of the outcome. -/
theorem grpc_eq (s : ServerState) (r : VerifyRequest) (requestToken : UInt32) (locals : Locals)
    (now : Nat) :
    processValidationRequestGrpc s r requestToken locals now =
      let part := aspaPartGrpc s.aspathCache r locals
        ((getUpdateResult s.updateCache r.updateID).getD resultNotFound)
        (getUpdateResult s.updateCache r.updateID).isNone
      let flags := sendFlags r (answered s r part)
      let queue := doVal r ∧ flags &&& (vrtROA ||| vrtBGPSEC ||| vrtASPA) > 0
      ({ s with
          updateCache := cacheAfter s r r.clientID part now
          aspathCache := part.aspathCache },
        if flags > 0 then
          ⟨some (requestAnswer requestToken ⟨flags, answered s r part, r.updateID⟩),
            decide queue,
            if queue then flags &&& (vrtROA ||| vrtBGPSEC ||| vrtASPA) else r.flags⟩
        else ⟨none, false, r.flags⟩) := rfl

/-- `RunQueueCommand` after a request that enables it. -/
abbrev queueRet (s : ServerState) (r : VerifyRequest) (rt : RetData) : ServerState :=
  if rt.info then runQueueCommand s r rt else s

theorem queue_updateCache (s : ServerState) (r : VerifyRequest) (rt : RetData) :
    (queueRet s r rt).updateCache = s.updateCache := by
  unfold queueRet runQueueCommand
  cases rt.info <;> cases rt.data <;> rfl

theorem queue_aspathCache (s : ServerState) (r : VerifyRequest) (rt : RetData) :
    (queueRet s r rt).aspathCache = s.aspathCache := by
  unfold queueRet runQueueCommand
  cases rt.info <;> cases rt.data <;> rfl

theorem queue_cmdQueue (s : ServerState) (r : VerifyRequest) (rt : RetData) :
    (queueRet s r rt).cmdQueue = s.cmdQueue ++
      if rt.info then rt.data.toList.map fun pdu => ⟨pdu.updateID, rt.flags, r.asType⟩ else [] := by
  unfold queueRet runQueueCommand
  cases rt.info with
  | false => exact (List.append_nil _).symm
  | true =>
    cases rt.data with
    | none => exact (List.append_nil _).symm
    | some pdu => rfl

theorem grpcOutcome_eq (s : IdentityState) (pdu : VerifyPdu) (clientID : UInt8) (locals : Locals)
    (now : Nat) :
    grpcOutcome s pdu clientID locals now =
      (updateIDs.place s.stored pdu.update).map fun updateID =>
        let r := pdu.request clientID updateID
        outcomeOf s.server r pdu.token (s.dataAfter updateID pdu.update) clientID
          (aspaPartGrpc s.server.aspathCache r locals
            ((getUpdateResult s.server.updateCache r.updateID).getD resultNotFound)
            (getUpdateResult s.server.updateCache r.updateID).isNone) now := by
  unfold grpcOutcome
  refine Option.map_congr fun updateID _ => ?_
  dsimp only
  generalize hr : pdu.request clientID updateID = r
  obtain rfl : r.updateID = updateID := by rw [← hr]; rfl
  obtain rfl : r.clientID = clientID := by rw [← hr]; rfl
  rw [grpc_eq]
  unfold outcomeOf
  dsimp only
  rw [queue_updateCache, queue_aspathCache, queue_cmdQueue, List.drop_left]
  generalize aspaPartGrpc s.server.aspathCache r locals
    ((getUpdateResult s.server.updateCache r.updateID).getD resultNotFound)
    (getUpdateResult s.server.updateCache r.updateID).isNone = part
  rw [Outcome.mk.injEq]
  refine ⟨rfl, rfl, rfl, rfl, rfl, ?_, ?_⟩
  · split
    · rfl
    · rfl
  · generalize sendFlags r (answered s.server r part) = flags
    by_cases hflags : flags > 0
    · rw [if_pos hflags]
      dsimp only
      by_cases hqueue : doVal r ∧ flags &&& (vrtROA ||| vrtBGPSEC ||| vrtASPA) > 0
      · rw [if_pos hqueue, if_pos hqueue, if_pos (decide_eq_true hqueue)]
        rfl
      · rw [decide_eq_false hqueue, if_neg Bool.false_ne_true]
        exact (if_neg hqueue).symm
    · have hzero : flags = 0 := by
        by_contra hne
        exact hflags (UInt8.pos_iff_ne_zero.mpr hne)
      rw [if_neg hflags, hzero]
      exact (if_neg fun h => absurd h.2 (by decide)).symm

variable {requestToken : UInt32} {data : UInt32 → UpdateData} {now : Nat}

/-- The path part of a request. -/
abbrev tcpPart (s : ServerState) (r : VerifyRequest) (locals : Locals) : AspaPart :=
  aspaPart s.aspathCache r locals ((getUpdateResult s.updateCache r.updateID).getD resultNotFound)
    (getUpdateResult s.updateCache r.updateID).isNone

/-- The path part of the gRPC copy. -/
abbrev grpcPart (s : ServerState) (r : VerifyRequest) (locals : Locals) : AspaPart :=
  aspaPartGrpc s.aspathCache r locals
    ((getUpdateResult s.updateCache r.updateID).getD resultNotFound)
    (getUpdateResult s.updateCache r.updateID).isNone

theorem pathStays_of_outcome {c' : UInt8}
    (h : outcomeOf s r requestToken data c' (tcpPart s r tcp) now =
      outcomeOf s r requestToken data c (grpcPart s r grpc) now) : PathStays s r tcp grpc := by
  have hpathId : (tcpPart s r tcp).pathId = (grpcPart s r grpc).pathId :=
    congrArg Outcome.pathId h
  have hcache : (tcpPart s r tcp).aspathCache = (grpcPart s r grpc).aspathCache :=
    congrArg Outcome.aspathCache h
  by_cases hpath : r.path = []
  · exact .inl hpath
  · cases hinfo : getUpdateResult s.updateCache r.updateID with
    | none =>
      unfold tcpPart grpcPart at hpathId hcache
      rw [hinfo] at hpathId hcache
      exact .inr (.inr (pathStays_of_eq rfl hpath hpathId hcache))
    | some info =>
      by_cases hid : info.pathId = 0
      · unfold tcpPart grpcPart at hpathId hcache
        rw [hinfo] at hpathId hcache
        exact .inr (.inr (pathStays_of_eq hid hpath hpathId hcache))
      · exact .inr (.inl ⟨info, hinfo, hid⟩)

theorem clientStays_of_outcome (hpath : PathStays s r tcp grpc)
    (h : outcomeOf s r requestToken data (if doVal r then r.clientID else 0) (tcpPart s r tcp) now =
      outcomeOf s r requestToken data r.clientID (grpcPart s r grpc) now) : ClientStays s r := by
  have hcache : cacheAfter s r (if doVal r then r.clientID else 0) (tcpPart s r tcp) now =
      cacheAfter s r r.clientID (grpcPart s r grpc) now := congrArg Outcome.updateCache h
  rw [show tcpPart s r tcp = grpcPart s r grpc from aspaPartGrpc_eq hpath] at hcache
  cases hval : doVal r with
  | true => exact .inl hval
  | false =>
    by_cases hc : r.clientID = 0
    · exact .inr (.inl hc)
    · rw [hval, if_neg Bool.false_ne_true] at hcache
      have hclients := congrArg (fun cache => (cache.tableFind r.updateID).map clientPart) hcache
      rw [clientPart_after, clientPart_after] at hclients
      exact .inr (.inr ((entryAfter_keeps hc _ now).mp (Option.some.inj hclients)))

theorem outcome_eq (hclient : ClientStays s r) (hpath : PathStays s r tcp grpc) :
    outcomeOf s r requestToken data (if doVal r then r.clientID else 0) (tcpPart s r tcp) now =
      outcomeOf s r requestToken data r.clientID (grpcPart s r grpc) now := by
  rw [show tcpPart s r tcp = grpcPart s r grpc from aspaPartGrpc_eq hpath]
  generalize grpcPart s r grpc = part
  rcases hclient with hval | hzero | ⟨cEntry, hfind, hflag, hmem⟩
  · rw [if_pos (show doVal r = true from hval)]
  · rw [hzero, ite_self]
  · have hc : r.clientID ≠ 0 := by
      intro hzero
      have hne := List.mem_takeWhile_imp hmem
      rw [hzero] at hne
      exact absurd hne (by decide)
    have hcache : cacheAfter s r (if doVal r then r.clientID else 0) part now =
        cacheAfter s r r.clientID part now := by
      split
      · rfl
      · unfold cacheAfter
        have hnone : (registerClient s.updateCache r.updateID 0).1 = s.updateCache := by
          unfold registerClient
          rw [hfind]
          rfl
        rw [registerClient_listed hfind hc hflag hmem, hnone, info_of_find hfind]
        rfl
    unfold outcomeOf
    rw [hcache]

end TransportLemmas

open TransportLemmas

/-- The two transports come to the same outcome if and only if the request leaves the clients and the
path as they are, or as both copies make them. -/
theorem transports_agree_iff (s : IdentityState) (pdu : VerifyPdu) (clientID : UInt8)
    (tcp grpc : Locals) (now : Nat) :
    tcpOutcome s pdu clientID tcp now = grpcOutcome s pdu clientID grpc now ↔
      ∀ updateID, updateIDs.place s.stored pdu.update = some updateID →
        ClientStays s.server (pdu.request clientID updateID) ∧
          PathStays s.server (pdu.request clientID updateID) tcp grpc := by
  rw [tcpOutcome_eq, grpcOutcome_eq]
  cases updateIDs.place s.stored pdu.update with
  | none => exact ⟨fun _ updateID h => (nomatch h), fun _ => rfl⟩
  | some updateID =>
    rw [Option.map_some, Option.map_some, Option.some.injEq]
    dsimp only
    constructor
    · intro h updateID' heq
      obtain rfl := Option.some.inj heq
      have hpath := pathStays_of_outcome h
      exact ⟨clientStays_of_outcome hpath h, hpath⟩
    · intro h
      obtain ⟨hclient, hpath⟩ := h updateID rfl
      exact outcome_eq hclient hpath

/-- An announcement from a sibling that asks for ASPA validation. -/
def siblingPdu : VerifyPdu where
  update := ⟨65001, ⟨.v4 0x0072496F, 24⟩, [65001], [], one_fits16, zero_fits16⟩
  flags := flagReceipt ||| vrtASPA
  asType := .asSequence
  asRelType := .sibling
  afi := 1
  roaResSrc := 0
  bgpsecResSrc := 0
  aspaResSrc := 0
  roaDefRes := SrxResult.undefined.code
  bgpsecDefRes := SrxResult.undefined.code
  aspaDefRes := SrxResult.undefined.code
  requestToken := 1

/-- The first request of a server: the transports store the path of a sibling with different
directions. -/
theorem transports_differ_sibling :
    let s : IdentityState := initIdentityState 1 (by decide) 0
      ⟨fun _ _ _ => .valid, fun _ => SrxResult.valid.code⟩ fun _ => siblingPdu.update
    tcpOutcome s siblingPdu 1 ⟨.asSequence, .customer⟩ 0 ≠
      grpcOutcome s siblingPdu 1 ⟨.asSequence, .customer⟩ 0 := by
  intro s h
  have hplace : updateIDs.place s.stored siblingPdu.update =
      some (generateIdentifier siblingPdu.update) :=
    Probing.probe_eq_some.mpr
      ⟨0, Nat.two_pow_pos 32, fun i hi => absurd hi (Nat.not_lt_zero i), rfl, rfl⟩
  rw [tcpOutcome_eq, grpcOutcome_eq, hplace] at h
  have hpath := pathStays_of_outcome (Option.some.inj h)
  rcases hpath with hnil | ⟨info, hinfo, -⟩ | ⟨-, hfound | hdir⟩
  · cases hnil
  · cases hinfo
  · cases hfound
  · cases hdir

end SrxSuite.Server

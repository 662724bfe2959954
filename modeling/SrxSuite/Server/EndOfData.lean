import SrxSuite.Server.Requests
import SrxSuite.Server.RpkiQueue

/-!
# End of Data

The model of `handleEndOfData` (`server/rpki_handler.c`) with `process_ASPA_EndOfData`
(`server/update_cache.c`) and `process_ASPA_EndOfData_main` (`server/aspa_trie.c`). When the RPKI
cache has sent all its data, the paths of all updates are validated again, and the updates that wait
in the RPKI queue are reported.

A path is validated once: afterwards it is younger than the End of Data, and the other updates with
this path take its result. The queue is the list that `rq_queue` and `rq_dequeue` work on
(`Holds.rqQueue`, `Holds.rqDequeue`).

Results:
1. `revalidated_iff`: after End of Data all updates have the verdict of their path, if and only if
   each path that is older has a new verdict or its first update has the verdict already, and each
   path that is not older has the verdict already.
2. `stale_in_same_second`: a path that was validated in the second of the End of Data is not
   validated again.
-/

namespace SrxSuite.Server

open Aspa Runs

/-! ## The code -/

/-- What the RPKI handler works on: the server with its caches, and the RPKI queue. -/
structure RpkiHandler where
  server : ServerState
  rpkiQueue : List QueueElem

/-- An ASPA result for the update cache, and a notice for the RPKI queue. -/
def RpkiHandler.changeAspa (s : RpkiHandler) (updateID : UInt32) (aspaResult : UInt8) :
    RpkiHandler where
  server := { s.server with
    updateCache :=
      (modifyUpdateCacheResultWithAspaVal s.server.updateCache updateID aspaResult).1 }
  rpkiQueue := enqueueElems .aspa updateID s.rpkiQueue

/-- `process_ASPA_EndOfData_main`; `now` is the clock when it is read. -/
def processAspaEndOfDataMain (s : RpkiHandler) (updateID : UInt32) (lastEndOfDataTime now : Nat) :
    RpkiHandler :=
  match getUpdateResult s.server.updateCache updateID with
  | none => s
  | some info =>
    let aspathCache := s.server.aspathCache
    match getAspathListFromAspathCache aspathCache info.pathId info.srxRes.aspaResult with
    | (none, _) => s
    | (some aspl, _) =>
      if lastEndOfDataTime > aspl.lastModified then
        let valResult := (validateEntry s.server.rpki.lookup aspl).code
        let s := { s with server.aspathCache :=
          modifyAspaValidationResultToAspathCache aspathCache info.pathId valResult now }
        if valResult ≠ aspl.aspaValResult then s.changeAspa updateID valResult else s
      else if info.srxRes.aspaResult ≠ aspl.aspaValResult then
        s.changeAspa updateID aspl.aspaValResult
      else s

/-- `process_ASPA_EndOfData`: the updates in the order they were stored. The clock is read again for
each of them, `delay` seconds later. -/
def processAspaEndOfData (s : RpkiHandler) (lastEndOfDataTime : Nat) (delay : UInt32 → Nat) :
    RpkiHandler :=
  (s.server.updateCache.allItems.map (·.updateID)).foldl
    (fun s updateID =>
      processAspaEndOfDataMain s updateID lastEndOfDataTime (lastEndOfDataTime + delay updateID)) s

/-- The result that is sent for an update of the queue: the ROA and the ASPA result as they are
stored, the BGPsec result validated again. -/
def elemResult (s : ServerState) (queueElem : QueueElem) : ValidationResult :=
  let info := getUpdateResult s.updateCache queueElem.updateID
  let roa := if isSet queueElem.reason.bits QueueReason.roa.bits then
    info.map (·.srxRes.roaResult) else none
  let bgpsec := if isSet queueElem.reason.bits QueueReason.key.bits then
    ((s.updateCache.tableFind queueElem.updateID).bind (·.bgpsecPath)).map
      fun path => s.rpki.validateSignature (some path)
    else none
  let aspa := if isSet queueElem.reason.bits QueueReason.aspa.bits then
    info.map (·.srxRes.aspaResult) else none
  ⟨(if roa.isSome then vrtROA else 0) ||| (if bgpsec.isSome then vrtBGPSEC else 0) |||
      (if aspa.isSome then vrtASPA else 0),
    ⟨roa.getD SrxResult.doNotUse.code, bgpsec.getD SrxResult.doNotUse.code,
      aspa.getD SrxResult.doNotUse.code⟩,
    queueElem.updateID⟩

/-- `handleEndOfData`. -/
def handleEndOfData (s : RpkiHandler) (lastEndOfDataTime : Nat) (delay : UInt32 → Nat) :
    RpkiHandler :=
  let s := processAspaEndOfData s lastEndOfDataTime delay
  { server := { s.server with
      reports := s.server.reports ++ s.rpkiQueue.map (elemResult s.server) }
    rpkiQueue := [] }

/-- What happens: a verify request or its validation, an ASPA record that is announced or withdrawn,
with what the database says then, or End of Data. -/
inductive HandlerOp
  | server (op : ServerOp)
  | aspa (lookup : UInt32 → UInt32 → UInt8 → AspaResult)
  | endOfData (lastEndOfDataTime : Nat) (delay : UInt32 → Nat)

/-- One step. -/
def RpkiHandler.step (s : RpkiHandler) : HandlerOp → RpkiHandler
  | .server op => { s with server := s.server.step op }
  | .aspa lookup => { s with server.rpki.lookup := lookup }
  | .endOfData lastEndOfDataTime delay => handleEndOfData s lastEndOfDataTime delay

/-! ## What is claimed -/

/-- Every update with a path has the result of the path, and it is the verdict on the path. -/
def Revalidated (s : RpkiHandler) : Prop :=
  ∀ id info t, getUpdateResult s.server.updateCache id = some info → info.pathId ≠ 0 →
    s.server.aspathCache info.pathId = some t →
      info.srxRes.aspaResult = t.aspaResult ∧ t.aspaResult = t.verdict s.server.rpki.lookup

/-- So it is after every End of Data of a run. -/
def RevalidatedAfterwards (start : RpkiHandler) (ops : List HandlerOp) : Prop :=
  ∀ before lastEndOfDataTime delay after,
    ops = before ++ .endOfData lastEndOfDataTime delay :: after →
      Revalidated ((before ++ [.endOfData lastEndOfDataTime delay]).foldl RpkiHandler.step start)

/-- For every path with an update, the first of its updates being `first`: if the path is older than
the End of Data, its verdict is a new one or `first` has it already; if not, the path has it
already. -/
def PathsDue (s : RpkiHandler) (lastEndOfDataTime : Nat) : Prop :=
  ∀ k t first, k ≠ 0 → s.server.aspathCache k = some t →
    s.server.updateCache.allItems.find? (·.aspathCacheID == k) = some first →
      if t.lastModified < lastEndOfDataTime then
        t.aspaResult ≠ t.verdict s.server.rpki.lookup ∨
          first.srxResult.aspaResult = t.verdict s.server.rpki.lookup
      else t.aspaResult = t.verdict s.server.rpki.lookup

/-- The condition on a step. -/
def Due (s : RpkiHandler) : HandlerOp → Prop
  | .endOfData lastEndOfDataTime _ => PathsDue s lastEndOfDataTime
  | _ => True

namespace EndOfDataLemmas

open RequestLemmas UpdateCacheLemmas

variable {s : RpkiHandler} {updateID : UInt32} {info : UpdateResultInfo} {t : PathListCacheTable}
  {ct now : Nat} {delay : UInt32 → Nat} {k : UInt32} {ids : List UInt32}

/-! ## One update -/

/-- The results of an update with another ASPA result. -/
def withAspa (info : UpdateResultInfo) (v : UInt8) : UpdateResultInfo :=
  { info with srxRes.aspaResult := v }

theorem withAspa_self (info : UpdateResultInfo) : withAspa info info.srxRes.aspaResult = info := rfl

theorem useResult_verdict (lookup : UInt32 → UInt32 → UInt8 → AspaResult) (t : PathListCacheTable)
    (old : UInt8) : useResult (t.verdict lookup) old = t.verdict lookup :=
  if_pos (verdict_ne_doNotUse lookup t)

/-- The results after a change. -/
theorem changeAspa_info (v : UInt8) (id : UInt32) :
    getUpdateResult (s.changeAspa updateID v).server.updateCache id =
      (getUpdateResult s.server.updateCache id).map fun info =>
        if id = updateID then withAspa info (useResult v info.srxRes.aspaResult) else info :=
  getUpdateResult_modifyAspa v id

/-- An update that is not stored or whose path is not in the cache. -/
theorem main_skip (h : ∀ info, getUpdateResult s.server.updateCache updateID = some info →
    info.pathId = 0 ∨ s.server.aspathCache info.pathId = none) :
    processAspaEndOfDataMain s updateID ct now = s := by
  unfold processAspaEndOfDataMain
  split
  · rfl
  · next info hinfo =>
    have hnone : (getAspathListFromAspathCache s.server.aspathCache info.pathId
        info.srxRes.aspaResult).1 = none := by
      unfold getAspathListFromAspathCache
      split
      · rfl
      · next hne => rw [(h info hinfo).resolve_left hne]
    dsimp only
    split
    · rfl
    · next heq =>
      rw [heq] at hnone
      cases hnone

theorem getAspathList_some (hk : info.pathId ≠ 0)
    (ht : s.server.aspathCache info.pathId = some t) (v : UInt8) :
    getAspathListFromAspathCache s.server.aspathCache info.pathId v =
      (some t.copy, t.aspaResult) := by
  unfold getAspathListFromAspathCache
  rw [if_neg hk, ht]

/-- The handler after a path was validated. -/
def withVerdict (s : RpkiHandler) (pathId : UInt32) (t : PathListCacheTable) (now : Nat) :
    RpkiHandler :=
  { s with
    server.aspathCache := Function.update s.server.aspathCache pathId
      (some { t with lastModified := now, aspaResult := t.verdict s.server.rpki.lookup }) }

/-- A path that is older than the End of Data is validated. -/
theorem main_due (hinfo : getUpdateResult s.server.updateCache updateID = some info)
    (hk : info.pathId ≠ 0) (ht : s.server.aspathCache info.pathId = some t)
    (hct : t.lastModified < ct) :
    processAspaEndOfDataMain s updateID ct now =
      if t.verdict s.server.rpki.lookup ≠ t.aspaResult then
        (withVerdict s info.pathId t now).changeAspa updateID (t.verdict s.server.rpki.lookup)
      else withVerdict s info.pathId t now := by
  have hmodify : modifyAspaValidationResultToAspathCache s.server.aspathCache info.pathId
      (t.verdict s.server.rpki.lookup) now = Function.update s.server.aspathCache info.pathId
        (some { t with lastModified := now, aspaResult := t.verdict s.server.rpki.lookup }) := by
    unfold modifyAspaValidationResultToAspathCache
    rw [ht]
    exact if_pos (verdict_ne_doNotUse _ t)
  unfold processAspaEndOfDataMain
  rw [hinfo]
  dsimp only
  rw [getAspathList_some hk ht]
  dsimp only
  rw [if_pos (show t.copy.lastModified < ct from hct)]
  unfold withVerdict
  rw [← hmodify]
  rfl

/-- The path and the update afterwards. -/
theorem main_due_effect (hinfo : getUpdateResult s.server.updateCache updateID = some info)
    (hk : info.pathId ≠ 0) (ht : s.server.aspathCache info.pathId = some t)
    (hct : t.lastModified < ct) (now : Nat) :
    (processAspaEndOfDataMain s updateID ct now).server.aspathCache info.pathId =
        some { t with lastModified := now, aspaResult := t.verdict s.server.rpki.lookup } ∧
      getUpdateResult (processAspaEndOfDataMain s updateID ct now).server.updateCache updateID =
        some (withAspa info (if t.verdict s.server.rpki.lookup = t.aspaResult then
          info.srxRes.aspaResult else t.verdict s.server.rpki.lookup)) := by
  rw [main_due hinfo hk ht hct]
  split
  · refine ⟨Function.update_self _ _ _, ?_⟩
    rw [changeAspa_info]
    show (getUpdateResult s.server.updateCache updateID).map _ = _
    rw [hinfo, Option.map_some, if_pos rfl, useResult_verdict]
  · next hsame =>
    refine ⟨Function.update_self _ _ _, ?_⟩
    rw [if_pos (Decidable.not_not.mp hsame), withAspa_self]
    exact hinfo

/-- A path that is not older gives its result to the update. -/
theorem main_settled (hinfo : getUpdateResult s.server.updateCache updateID = some info)
    (hk : info.pathId ≠ 0) (ht : s.server.aspathCache info.pathId = some t)
    (hct : ct ≤ t.lastModified) :
    processAspaEndOfDataMain s updateID ct now =
      if info.srxRes.aspaResult ≠ t.aspaResult then s.changeAspa updateID t.aspaResult else s := by
  unfold processAspaEndOfDataMain
  rw [hinfo]
  dsimp only
  rw [getAspathList_some hk ht]
  dsimp only
  rw [if_neg (show ¬ t.copy.lastModified < ct from Nat.not_lt.mpr hct)]
  rfl

/-- The three things that can happen to an update. -/
theorem main_cases (s : RpkiHandler) (updateID : UInt32) (ct now : Nat) :
    processAspaEndOfDataMain s updateID ct now = s ∨
      ∃ info t, getUpdateResult s.server.updateCache updateID = some info ∧ info.pathId ≠ 0 ∧
        s.server.aspathCache info.pathId = some t ∧
        ((t.lastModified < ct ∧ processAspaEndOfDataMain s updateID ct now =
            if t.verdict s.server.rpki.lookup ≠ t.aspaResult then
              (withVerdict s info.pathId t now).changeAspa updateID (t.verdict s.server.rpki.lookup)
            else withVerdict s info.pathId t now) ∨
          (ct ≤ t.lastModified ∧ processAspaEndOfDataMain s updateID ct now =
            if info.srxRes.aspaResult ≠ t.aspaResult then s.changeAspa updateID t.aspaResult
            else s)) := by
  cases hinfo : getUpdateResult s.server.updateCache updateID with
  | none =>
    left
    refine main_skip fun info hsome => ?_
    rw [hinfo] at hsome
    cases hsome
  | some info =>
    by_cases hskip : info.pathId = 0 ∨ s.server.aspathCache info.pathId = none
    · left
      refine main_skip fun other hsome => ?_
      obtain rfl := Option.some.inj (hinfo.symm.trans hsome)
      exact hskip
    · rw [not_or] at hskip
      obtain ⟨t, ht⟩ := Option.ne_none_iff_exists'.mp hskip.2
      refine .inr ⟨info, t, rfl, hskip.1, ht, ?_⟩
      rcases Nat.lt_or_ge t.lastModified ct with hct | hct
      · exact .inl ⟨hct, main_due hinfo hskip.1 ht hct⟩
      · exact .inr ⟨hct, main_settled hinfo hskip.1 ht hct⟩

/-- What an update does not change. -/
structure Framed (updateID : UInt32) (s s' : RpkiHandler) : Prop where
  rpki : s'.server.rpki = s.server.rpki
  other : ∀ id, id ≠ updateID →
    getUpdateResult s'.server.updateCache id = getUpdateResult s.server.updateCache id
  pathId : ∀ id, (getUpdateResult s'.server.updateCache id).map (·.pathId) =
    (getUpdateResult s.server.updateCache id).map (·.pathId)
  path : ∀ k, (∀ info, getUpdateResult s.server.updateCache updateID = some info →
    info.pathId ≠ k) → s'.server.aspathCache k = s.server.aspathCache k
  noPath : ∀ k, s.server.aspathCache k = none → s'.server.aspathCache k = none

theorem Framed.refl (updateID : UInt32) (s : RpkiHandler) : Framed updateID s s :=
  ⟨rfl, fun _ _ => rfl, fun _ => rfl, fun _ _ => rfl, fun _ h => h⟩

theorem framed_changeAspa {s' : RpkiHandler} (hs : Framed updateID s s') (v : UInt8) :
    Framed updateID s (s'.changeAspa updateID v) := by
  refine ⟨hs.rpki, fun id hid => ?_, fun id => ?_, hs.path, hs.noPath⟩
  · rw [changeAspa_info, ← hs.other id hid]
    simp only [if_neg hid, Option.map_id']
  · rw [changeAspa_info, ← hs.pathId id, Option.map_map]
    refine Option.map_congr fun info _ => ?_
    show (if id = updateID then _ else _ : UpdateResultInfo).pathId = _
    split
    · rfl
    · rfl

theorem framed_withVerdict (hinfo : getUpdateResult s.server.updateCache updateID = some info)
    (ht : s.server.aspathCache info.pathId = some t) (now : Nat) :
    Framed updateID s (withVerdict s info.pathId t now) := by
  refine ⟨rfl, fun _ _ => rfl, fun _ => rfl, fun k hne => ?_, fun k hnone => ?_⟩
  · exact Function.update_of_ne (hne info hinfo).symm _ _
  · refine (Function.update_of_ne ?_ _ _).trans hnone
    rintro rfl
    rw [ht] at hnone
    cases hnone

theorem main_framed (s : RpkiHandler) (updateID : UInt32) (ct now : Nat) :
    Framed updateID s (processAspaEndOfDataMain s updateID ct now) := by
  rcases main_cases s updateID ct now with
    hsame | ⟨info, t, hinfo, -, ht, ⟨-, hmain⟩ | ⟨-, hmain⟩⟩
  · rw [hsame]
    exact Framed.refl updateID s
  · rw [hmain]
    split
    · exact framed_changeAspa (framed_withVerdict hinfo ht now) _
    · exact framed_withVerdict hinfo ht now
  · rw [hmain]
    split
    · exact framed_changeAspa (Framed.refl updateID s) _
    · exact Framed.refl updateID s

/-! ## All updates -/

/-- The updates `ids`, one after the other. -/
def sweep (ct : Nat) (delay : UInt32 → Nat) (ids : List UInt32) (s : RpkiHandler) : RpkiHandler :=
  ids.foldl (fun s id => processAspaEndOfDataMain s id ct (ct + delay id)) s

theorem sweep_cons (id : UInt32) : sweep ct delay (id :: ids) s =
    sweep ct delay ids (processAspaEndOfDataMain s id ct (ct + delay id)) := rfl

theorem sweep_append (ids' : List UInt32) : sweep ct delay (ids ++ ids') s =
    sweep ct delay ids' (sweep ct delay ids s) :=
  List.foldl_append

theorem sweep_rpki : (sweep ct delay ids s).server.rpki = s.server.rpki := by
  induction ids generalizing s with
  | nil => rfl
  | cons id ids ih => rw [sweep_cons, ih, (main_framed ..).rpki]

theorem sweep_untouched {id : UInt32} (hid : id ∉ ids) :
    getUpdateResult (sweep ct delay ids s).server.updateCache id =
      getUpdateResult s.server.updateCache id := by
  induction ids generalizing s with
  | nil => rfl
  | cons id' ids ih =>
    obtain ⟨hne, hrest⟩ := not_or.mp (fun h => hid (List.mem_cons.mpr h))
    rw [sweep_cons, ih hrest, (main_framed ..).other id hne]

theorem sweep_pathId (id : UInt32) :
    (getUpdateResult (sweep ct delay ids s).server.updateCache id).map (·.pathId) =
      (getUpdateResult s.server.updateCache id).map (·.pathId) := by
  induction ids generalizing s with
  | nil => rfl
  | cons id' ids ih => rw [sweep_cons, ih, (main_framed ..).pathId id]

theorem sweep_noPath (hnone : s.server.aspathCache k = none) :
    (sweep ct delay ids s).server.aspathCache k = none := by
  induction ids generalizing s with
  | nil => exact hnone
  | cons id ids ih => exact ih ((main_framed ..).noPath k hnone)

/-- A path without an update among `ids` stays as it is. -/
theorem sweep_otherPath (h : ∀ id ∈ ids, ∀ info,
    getUpdateResult s.server.updateCache id = some info → info.pathId ≠ k) :
    (sweep ct delay ids s).server.aspathCache k = s.server.aspathCache k := by
  induction ids generalizing s with
  | nil => rfl
  | cons id ids ih =>
    have hframed := main_framed s id ct (ct + delay id)
    rw [sweep_cons, ih, hframed.path k (h id List.mem_cons_self)]
    intro id' hid' info hinfo
    have hpath := hframed.pathId id'
    rw [hinfo] at hpath
    obtain ⟨old, hold, heq⟩ := Option.map_eq_some_iff.mp hpath.symm
    rw [← show old.pathId = info.pathId from heq]
    exact h id' (List.mem_cons_of_mem _ hid') old hold

theorem useResult_self (v : UInt8) : useResult v v = v := ite_self _

theorem useResult_twice (v old : UInt8) : useResult v (useResult v old) = useResult v old := by
  unfold useResult
  split
  · rfl
  · rfl

/-- A path that is not older stays as it is, and the updates with it get its result. -/
theorem sweep_settled (delay : UInt32 → Nat) (ids : List UInt32) (hk : k ≠ 0) (ht : s.server.aspathCache k = some t)
    (hct : ct ≤ t.lastModified) :
    (sweep ct delay ids s).server.aspathCache k = some t ∧
      ∀ id info, getUpdateResult s.server.updateCache id = some info → info.pathId = k →
        getUpdateResult (sweep ct delay ids s).server.updateCache id = some (withAspa info
          (if id ∈ ids then useResult t.aspaResult info.srxRes.aspaResult
            else info.srxRes.aspaResult)) := by
  induction ids generalizing s with
  | nil => exact ⟨ht, fun id info hinfo _ => hinfo⟩
  | cons uid ids ih =>
    have hframed := main_framed s uid ct (ct + delay uid)
    -- the first update, when it has this path
    have hfirst (info : UpdateResultInfo)
        (hinfo : getUpdateResult s.server.updateCache uid = some info) (hpath : info.pathId = k) :
        (processAspaEndOfDataMain s uid ct (ct + delay uid)).server.aspathCache k = some t ∧
          getUpdateResult (processAspaEndOfDataMain s uid ct (ct + delay uid)).server.updateCache
            uid = some (withAspa info (useResult t.aspaResult info.srxRes.aspaResult)) := by
      subst hpath
      rw [main_settled hinfo hk ht hct]
      split
      · refine ⟨ht, ?_⟩
        rw [changeAspa_info, hinfo, Option.map_some, if_pos rfl]
      · next hsame =>
        refine ⟨ht, ?_⟩
        rw [hinfo, ← Decidable.not_not.mp hsame, useResult_self, withAspa_self]
    have ht' : (processAspaEndOfDataMain s uid ct (ct + delay uid)).server.aspathCache k =
        some t := by
      by_cases hpath : ∃ info, getUpdateResult s.server.updateCache uid = some info ∧
          info.pathId = k
      · obtain ⟨info, hinfo, hpath⟩ := hpath
        exact (hfirst info hinfo hpath).1
      · rw [hframed.path k fun info hinfo heq => hpath ⟨info, hinfo, heq⟩]
        exact ht
    obtain ⟨hcache, hresults⟩ := ih ht'
    refine ⟨hcache, fun id info hinfo hpath => ?_⟩
    rw [sweep_cons]
    by_cases hid : id = uid
    · subst hid
      rw [hresults id _ (hfirst info hinfo hpath).2 hpath, if_pos List.mem_cons_self]
      have hvalue : (if id ∈ ids then
          useResult t.aspaResult (useResult t.aspaResult info.srxRes.aspaResult)
            else useResult t.aspaResult info.srxRes.aspaResult) =
          useResult t.aspaResult info.srxRes.aspaResult := by
        rw [useResult_twice, ite_self]
      exact congrArg (fun v => some (withAspa info v)) hvalue
    · rw [hresults id info ((hframed.other id hid).trans hinfo) hpath]
      have hmem : id ∈ uid :: ids ↔ id ∈ ids := by
        rw [List.mem_cons, or_iff_right hid]
      simp only [hmem]

/-! ## One path -/

variable {first : CacheEntry}

theorem info_of_mem {entry : CacheEntry} (hmem : entry ∈ s.server.updateCache.allItems) :
    getUpdateResult s.server.updateCache entry.updateID =
      some ⟨entry.srxResult, entry.defaultResult, entry.aspathCacheID⟩ :=
  info_of_find (tableFind_eq_some.mpr ⟨hmem, rfl⟩)

theorem mem_ids {id : UInt32} (hinfo : getUpdateResult s.server.updateCache id = some info) :
    id ∈ s.server.updateCache.allItems.map (·.updateID) := by
  obtain ⟨entry, hfind, -⟩ := tableFind_of_info hinfo
  obtain ⟨hmem, rfl⟩ := tableFind_eq_some.mp hfind
  exact List.mem_map.mpr ⟨entry, hmem, rfl⟩

/-- An older path gets its verdict. So do its updates, except that the first one keeps its result
when the path had the verdict already. -/
theorem endOfData_due (delay : UInt32 → Nat) (hk : k ≠ 0) (ht : s.server.aspathCache k = some t)
    (hfirst : s.server.updateCache.allItems.find? (·.aspathCacheID == k) = some first)
    (hct : t.lastModified < ct) :
    (processAspaEndOfData s ct delay).server.aspathCache k =
        some { t with
          lastModified := ct + delay first.updateID
          aspaResult := t.verdict s.server.rpki.lookup } ∧
      ∀ id info, getUpdateResult s.server.updateCache id = some info → info.pathId = k →
        getUpdateResult (processAspaEndOfData s ct delay).server.updateCache id =
          some (withAspa info
            (if id = first.updateID ∧ t.verdict s.server.rpki.lookup = t.aspaResult then
              info.srxRes.aspaResult else t.verdict s.server.rpki.lookup)) := by
  obtain ⟨hkey, pre, post, hitems, hpre⟩ := List.find?_eq_some_iff_append.mp hfirst
  have hkey : first.aspathCacheID = k := beq_iff_eq.mp hkey
  have hunique := s.server.updateCache.unique
  rw [hitems, List.map_append, List.map_cons] at hunique
  obtain ⟨-, hrest, hdisjoint⟩ := List.nodup_append.mp hunique
  have hnotpre : first.updateID ∉ pre.map (·.updateID) := fun hmem =>
    hdisjoint _ hmem _ List.mem_cons_self rfl
  have hnotpost := (List.nodup_cons.mp hrest).1
  have hsweep : processAspaEndOfData s ct delay = sweep ct delay (post.map (·.updateID))
      (processAspaEndOfDataMain (sweep ct delay (pre.map (·.updateID)) s) first.updateID ct
        (ct + delay first.updateID)) := by
    show sweep ct delay (s.server.updateCache.allItems.map (·.updateID)) s = _
    rw [hitems, List.map_append, List.map_cons, sweep_append, sweep_cons]
  -- the updates before the first one have other paths
  have hpath0 : (sweep ct delay (pre.map (·.updateID)) s).server.aspathCache k = some t := by
    rw [sweep_otherPath, ht]
    intro id hid info hinfo
    obtain ⟨entry, hentry, rfl⟩ := List.mem_map.mp hid
    rw [info_of_mem (hitems ▸ List.mem_append_left _ hentry)] at hinfo
    obtain rfl := Option.some.inj hinfo
    exact fun heq => absurd (beq_iff_eq.mpr heq) (by simpa using hpre entry hentry)
  have hinfo0 : getUpdateResult (sweep ct delay (pre.map (·.updateID)) s).server.updateCache
      first.updateID = some ⟨first.srxResult, first.defaultResult, first.aspathCacheID⟩ := by
    rw [sweep_untouched hnotpre]
    exact info_of_mem (hitems ▸ List.mem_append_right _ List.mem_cons_self)
  obtain ⟨hcache1, hresult1⟩ := main_due_effect hinfo0 (hkey.symm ▸ hk) (hkey.symm ▸ hpath0) hct
    (ct + delay first.updateID)
  rw [sweep_rpki] at hcache1 hresult1
  rw [show (⟨first.srxResult, first.defaultResult, first.aspathCacheID⟩ :
    UpdateResultInfo).pathId = k from hkey] at hcache1
  -- now the path is not older, the other updates take its result
  obtain ⟨hcache2, hresults2⟩ := sweep_settled delay (post.map (·.updateID)) hk hcache1
    (Nat.le_add_right ct _)
  rw [hsweep]
  refine ⟨hcache2, fun id info hinfo hpath => ?_⟩
  by_cases hid : id = first.updateID
  · subst hid
    have hsame : info = ⟨first.srxResult, first.defaultResult, first.aspathCacheID⟩ := by
      rw [info_of_mem (hitems ▸ List.mem_append_right _ List.mem_cons_self)] at hinfo
      exact (Option.some.inj hinfo).symm
    subst hsame
    rw [hresults2 _ _ hresult1 hkey, if_neg hnotpost]
    simp only [true_and]
    rfl
  · have hpost : id ∈ post.map (·.updateID) := by
      have hmem := mem_ids hinfo
      rw [hitems, List.map_append, List.map_cons, List.mem_append, List.mem_cons] at hmem
      rcases hmem with hmem | heq | hmem
      · obtain ⟨entry, hentry, rfl⟩ := List.mem_map.mp hmem
        rw [info_of_mem (hitems ▸ List.mem_append_left _ hentry)] at hinfo
        obtain rfl := Option.some.inj hinfo
        exact absurd (beq_iff_eq.mpr hpath) (by simpa using hpre entry hentry)
      · exact absurd heq hid
      · exact hmem
    have hnotpre' : id ∉ pre.map (·.updateID) := fun hmem =>
      hdisjoint _ hmem _ (List.mem_cons_of_mem _ hpost) rfl
    have hinfo1 : getUpdateResult (processAspaEndOfDataMain
        (sweep ct delay (pre.map (·.updateID)) s) first.updateID ct
          (ct + delay first.updateID)).server.updateCache id = some info := by
      rw [(main_framed ..).other id hid, sweep_untouched hnotpre']
      exact hinfo
    rw [hresults2 id info hinfo1 hpath, if_pos hpost, if_neg fun h => hid h.1, useResult_verdict]

/-- A path that is not older gives its result to all its updates. -/
theorem endOfData_settled (delay : UInt32 → Nat) (hk : k ≠ 0) (ht : s.server.aspathCache k = some t)
    (hct : ct ≤ t.lastModified) :
    (processAspaEndOfData s ct delay).server.aspathCache k = some t ∧
      ∀ id info, getUpdateResult s.server.updateCache id = some info → info.pathId = k →
        getUpdateResult (processAspaEndOfData s ct delay).server.updateCache id =
          some (withAspa info (useResult t.aspaResult info.srxRes.aspaResult)) := by
  obtain ⟨hcache, hresults⟩ := sweep_settled delay
    (s.server.updateCache.allItems.map (·.updateID)) hk ht hct
  refine ⟨hcache, fun id info hinfo hpath => ?_⟩
  have hresult := hresults id info hinfo hpath
  rw [if_pos (mem_ids hinfo)] at hresult
  exact hresult

theorem endOfData_pathId (s : RpkiHandler) (ct : Nat) (delay : UInt32 → Nat) (id : UInt32) :
    (getUpdateResult (handleEndOfData s ct delay).server.updateCache id).map (·.pathId) =
      (getUpdateResult s.server.updateCache id).map (·.pathId) :=
  sweep_pathId id

theorem endOfData_noPath (s : RpkiHandler) (ct : Nat) (delay : UInt32 → Nat)
    (hnone : s.server.aspathCache k = none) :
    (handleEndOfData s ct delay).server.aspathCache k = none :=
  sweep_noPath hnone

/-- One End of Data. -/
theorem endOfData_revalidated_iff (s : RpkiHandler) (ct : Nat) (delay : UInt32 → Nat) :
    Revalidated (handleEndOfData s ct delay) ↔ PathsDue s ct := by
  have hrpki : (handleEndOfData s ct delay).server.rpki = s.server.rpki := sweep_rpki
  constructor
  · intro hrev k t first hk ht hfirst
    obtain ⟨hkey, hmem⟩ := And.intro (List.find?_some hfirst) (List.mem_of_find?_eq_some hfirst)
    have hkey : first.aspathCacheID = k := beq_iff_eq.mp hkey
    have hinfo := info_of_mem hmem
    split
    · next hct =>
      obtain ⟨hcache, hresults⟩ := endOfData_due delay hk ht hfirst hct
      have hresult := hresults _ _ hinfo hkey
      by_cases hsame : t.verdict s.server.rpki.lookup = t.aspaResult
      · rw [if_pos ⟨rfl, hsame⟩] at hresult
        have hcache' := hkey.symm ▸ hcache
        exact .inr (hrev _ _ _ hresult (hkey.symm ▸ hk) hcache').1
      · exact .inl (Ne.symm hsame)
    · next hct =>
      obtain ⟨hcache, hresults⟩ := endOfData_settled delay hk ht (Nat.not_lt.mp hct)
      have hcurrent := (hrev _ _ _ (hresults _ _ hinfo hkey) (hkey.symm ▸ hk)
        (hkey.symm ▸ hcache)).2
      rw [hrpki] at hcurrent
      exact hcurrent
  · intro hdue id info' t' hinfo' hk ht'
    -- the update and its path were there before
    have hpath := endOfData_pathId s ct delay id
    rw [hinfo'] at hpath
    obtain ⟨info, hinfo, hsame⟩ := Option.map_eq_some_iff.mp hpath.symm
    have hsame : info.pathId = info'.pathId := hsame
    have hthere : s.server.aspathCache info'.pathId ≠ none := by
      intro hnone
      rw [endOfData_noPath s ct delay hnone] at ht'
      cases ht'
    obtain ⟨t, ht⟩ := Option.ne_none_iff_exists'.mp hthere
    obtain ⟨entry, hentry, rfl⟩ := tableFind_of_info hinfo
    have hfind : (s.server.updateCache.allItems.find? (·.aspathCacheID == info'.pathId)).isSome :=
      List.find?_isSome.mpr ⟨entry, (tableFind_eq_some.mp hentry).1, beq_iff_eq.mpr hsame⟩
    obtain ⟨first, hfirst⟩ := Option.isSome_iff_exists.mp hfind
    have hdue := hdue _ t first hk ht hfirst
    rw [hrpki]
    split at hdue
    · next hct =>
      obtain ⟨hcache, hresults⟩ := endOfData_due delay hk ht hfirst hct
      obtain rfl := Option.some.inj (hcache.symm.trans ht')
      obtain rfl := Option.some.inj ((hresults _ _ hinfo hsame).symm.trans hinfo')
      refine ⟨?_, rfl⟩
      show (if _ then _ else _ : UInt8) = t.verdict s.server.rpki.lookup
      split
      · next hcase =>
        obtain ⟨rfl, hstored⟩ := hcase
        have hentry' := tableFind_eq_some.mpr ⟨List.mem_of_find?_eq_some hfirst, rfl⟩
        obtain rfl := Option.some.inj (hentry.symm.trans hentry')
        exact hdue.resolve_left fun hne => hne hstored.symm
      · rfl
    · next hct =>
      obtain ⟨hcache, hresults⟩ := endOfData_settled delay hk ht (Nat.not_lt.mp hct)
      obtain rfl := Option.some.inj (hcache.symm.trans ht')
      obtain rfl := Option.some.inj ((hresults _ _ hinfo hsame).symm.trans hinfo')
      refine ⟨?_, hdue⟩
      show useResult t.aspaResult _ = t.aspaResult
      rw [hdue, useResult_verdict]

end EndOfDataLemmas

open EndOfDataLemmas

/-- From any state, whatever requests, ASPA records and End of Data come: the results are up to date
after every End of Data exactly when the paths are due. -/
theorem revalidated_iff (start : RpkiHandler) (ops : List HandlerOp) :
    RevalidatedAfterwards start ops ↔ EachStep RpkiHandler.step Due start ops := by
  have hone (before : List HandlerOp) (ct : Nat) (delay : UInt32 → Nat) :
      Revalidated ((before ++ [HandlerOp.endOfData ct delay]).foldl RpkiHandler.step start) ↔
        PathsDue (before.foldl RpkiHandler.step start) ct := by
    rw [List.foldl_append]
    exact endOfData_revalidated_iff _ ct delay
  constructor
  · intro h before op after heq
    cases op with
    | server op => trivial
    | aspa lookup => trivial
    | endOfData ct delay => exact (hone before ct delay).mp (h before ct delay after heq)
  · intro h before ct delay after heq
    exact (hone before ct delay).mpr (h before _ after heq)

/-- The handler before the first request. -/
def initRpkiHandler (minNumberOfClients : UInt8) (minPos : 0 < minNumberOfClients)
    (defaultKeepWindow : UInt16) (rpki : RpkiData) : RpkiHandler :=
  ⟨initServerState minNumberOfClients minPos defaultKeepWindow rpki, []⟩

/-- A path is validated, an ASPA record of its origin is announced and End of Data arrives, all in one
second: the path keeps the verdict from before. -/
theorem stale_in_same_second :
    ¬ ∀ (minNumberOfClients : UInt8) (minPos : 0 < minNumberOfClients) (defaultKeepWindow : UInt16)
      (rpki : RpkiData) (ops : List HandlerOp),
        RevalidatedAfterwards (initRpkiHandler minNumberOfClients minPos defaultKeepWindow rpki)
          ops := by
  intro hall
  let before : List HandlerOp :=
    [.server (.request (pathRequest 1 .customer .undefined) someLocals 5), .server (.work 5),
      .aspa fun customer _ _ => if customer = 65002 then .invalid else .unknown]
  let last := (before ++ [HandlerOp.endOfData 5 fun _ => 0]).foldl RpkiHandler.step
    (initRpkiHandler 1 (by decide) 0 noAspaData)
  have hlast : Revalidated last := hall 1 (by decide) 0 noAspaData _ before 5 (fun _ => 0) [] rfl
  have hstale : (getUpdateResult last.server.updateCache 1).bind (fun info =>
      (last.server.aspathCache info.pathId).map fun t =>
        (info.pathId != 0, t.aspaResult, t.verdict last.server.rpki.lookup)) =
          some (true, SrxResult.unknown.code, SrxResult.invalid.code) := by decide +kernel
  clear_value last
  obtain ⟨info, hinfo, hpath⟩ := Option.bind_eq_some_iff.mp hstale
  obtain ⟨t, ht, hvalues⟩ := Option.map_eq_some_iff.mp hpath
  obtain ⟨hk, hres, hverdict⟩ := by simpa only [Prod.mk.injEq] using hvalues
  have hcurrent := (hlast 1 info t hinfo (bne_iff_ne.mp hk) ht).2
  rw [hres, hverdict] at hcurrent
  exact absurd hcurrent (by decide)

end SrxSuite.Server

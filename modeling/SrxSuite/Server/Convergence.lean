import SrxSuite.Server.RpkiChanges

/-!
# What the clients know after End of Data

End of Data brings the three ways together in which a result changes (`handleEndOfData`,
`server/rpki_handler.c`): the paths are validated again, and what waits in the RPKI queue is
reported. The BGPsec result that is reported is computed for the report.

Results:
1. `clients_converge`: as long as the calls of the prefix cache reach none of its defects, no key
   changes a BGPsec result and the paths are due, every End of Data comes to its end, queues, stores
   and reports every result that has changed, and the clients know what is stored.
2. `bgpsec_result_not_stored`: a BGPsec result that changes is reported and not stored.
-/

namespace SrxSuite.Server

open Aspa Runs Latest

/-! ## What is claimed -/

/-- End of Data in the state `now`, the last one having left the state `last`: an update with an
outcome that has changed is queued, and the new outcome is stored and reported; and what the clients
know is what is stored. No update is reported that is not stored. -/
structure Converges (last now : RpkiState) (lastEndOfDataTime : Nat) (delay : UInt32 → Nat)
    (after : RpkiState) : Prop where
  changed : ∀ kind id, (now.handler.server.updateCache.tableFind id).isSome →
    outcome now kind id ≠ outcome last kind id →
      QueuedFor (processAspaEndOfData now.handler lastEndOfDataTime delay).rpkiQueue kind id ∧
        stored after kind id = outcome now kind id ∧
        lastNotified after kind id = outcome now kind id
  known : ∀ kind id v w, lastNotified after kind id = some v → stored after kind id = some w → v = w
  safe : ∀ e ∈ (processAspaEndOfData now.handler lastEndOfDataTime delay).rpkiQueue,
    (now.handler.server.updateCache.tableFind e.updateID).isSome

/-! ## The runs -/

/-- The state after the last End of Data and the present one. -/
structure Round where
  last : RpkiState
  now : RpkiState

/-- One step. -/
def Round.step (api : CryptoApi) (r : Round) (op : RpkiOp) : Option Round :=
  (r.now.step api op).map fun now =>
    match op with
    | .endOfData _ _ => ⟨now, now⟩
    | _ => ⟨r.last, now⟩

/-- A state to start with: nothing is queued, the clients know what is stored, the ASPA results and
the BGPsec results are up to date, and the prefix cache was built without a defect. -/
structure Settled (api : CryptoApi) (s : RpkiState) : Prop where
  built : Built s
  queue : s.handler.rpkiQueue = []
  known : ∀ kind id v w, lastNotified s kind id = some v → stored s kind id = some w → v = w
  revalidated : Revalidated s.handler
  signatures : s.handler.server.rpki.validateSignature = api.validate s.keys
  validated : ∀ id entry path, s.handler.server.updateCache.tableFind id = some entry →
    entry.bgpsecPath = some path →
      entry.srxResult.bgpsecResult = api.validate s.keys (some path)
  attachedStored : ∀ key id, Attached s.skiCache key id →
    (s.handler.server.updateCache.tableFind id).isSome

/-- The BGPsec paths of the updates have the same result with the keys of `now` as with those of
`last`. -/
def SameSignatures (api : CryptoApi) (last now : RpkiState) : Prop :=
  ∀ id path, (now.handler.server.updateCache.tableFind id).bind (·.bgpsecPath) = some path →
    api.validate now.keys (some path) = api.validate last.keys (some path)

/-- The condition on a step: a ROA reaches no defect of the prefix cache; at End of Data the paths are
due and no key has changed a BGPsec result since the last one. -/
def NothingLost (api : CryptoApi) (r : Round) : RpkiOp → Prop
  | .roa isAnn oas p maxLen valCacheID => RoaFits r.now (roaCall isAnn oas p maxLen valCacheID)
  | .endOfData lastEndOfDataTime _ =>
    PathsDue r.now.handler lastEndOfDataTime ∧ SameSignatures api r.last r.now
  | _ => True

/-- Every End of Data of a run is reached, comes to its end and converges. -/
def ConvergesAfterwards (api : CryptoApi) (start : RpkiState) (ops : List RpkiOp) : Prop :=
  ∀ before lastEndOfDataTime delay after,
    ops = before ++ .endOfData lastEndOfDataTime delay :: after →
      ∃ r done, before.foldlM (Round.step api) ⟨start, start⟩ = some r ∧
        r.now.step api (.endOfData lastEndOfDataTime delay) = some done ∧
        Converges r.last r.now lastEndOfDataTime delay done

namespace ConvergenceLemmas

open UpdateCacheLemmas EndOfDataLemmas RpkiChangeLemmas

variable {api : CryptoApi} {rpkiQueue : List QueueElem} {kind : Validation} {id updateID : UInt32}
  {last now : RpkiState}

/-! ## The paths at End of Data -/

/-- The entry but for its ASPA result. -/
def forgetAspa (entry : CacheEntry) : CacheEntry := { entry with srxResult.aspaResult := 0 }

/-- What the validation of the paths changes: the ASPA results only, and it queues what it
changes. -/
structure AspaOnly (s s' : RpkiHandler) : Prop where
  rpki : s'.server.rpki = s.server.rpki
  notices : s'.server.reports = s.server.reports
  verdicts : ∀ k lookup, (s'.server.aspathCache k).map (·.verdict lookup) =
    (s.server.aspathCache k).map (·.verdict lookup)
  entries : ∀ id, (s'.server.updateCache.tableFind id).map forgetAspa =
    (s.server.updateCache.tableFind id).map forgetAspa
  waits : ∀ kind id, QueuedFor s.rpkiQueue kind id → QueuedFor s'.rpkiQueue kind id
  queued : ∀ id, (s'.server.updateCache.tableFind id).map (·.srxResult.aspaResult) ≠
    (s.server.updateCache.tableFind id).map (·.srxResult.aspaResult) →
      QueuedFor s'.rpkiQueue .aspa id
  ids : (∀ e ∈ s.rpkiQueue, Known s e.updateID) → ∀ e ∈ s'.rpkiQueue, Known s e.updateID

namespace AspaOnly

variable {s s' s'' : RpkiHandler}

theorem refl (s : RpkiHandler) : AspaOnly s s where
  rpki := rfl
  notices := rfl
  verdicts _ _ := rfl
  entries _ := rfl
  waits _ _ h := h
  queued _ h := absurd rfl h
  ids h := h

theorem known (h : AspaOnly s s') (id : UInt32) : Known s' id ↔ Known s id := by
  have hsome := congrArg Option.isSome (h.entries id)
  rw [Option.isSome_map, Option.isSome_map] at hsome
  unfold Known
  rw [hsome]

theorem trans (h : AspaOnly s s') (h' : AspaOnly s' s'') : AspaOnly s s'' where
  rpki := h'.rpki.trans h.rpki
  notices := h'.notices.trans h.notices
  verdicts k lookup := (h'.verdicts k lookup).trans (h.verdicts k lookup)
  entries id := (h'.entries id).trans (h.entries id)
  waits kind id hq := h'.waits kind id (h.waits kind id hq)
  queued id hne := by
    by_cases hfirst : (s'.server.updateCache.tableFind id).map (·.srxResult.aspaResult) =
        (s.server.updateCache.tableFind id).map (·.srxResult.aspaResult)
    · exact h'.queued id (hfirst ▸ hne)
    · exact h'.waits _ _ (h.queued id hfirst)
  ids hq e he := by
    refine (h.known _).mp (h'.ids (fun e he => ?_) e he)
    exact (h.known _).mpr (h.ids hq e he)

end AspaOnly

theorem changeAspa_only {s : RpkiHandler} (hknown : Known s updateID) (v : UInt8) :
    AspaOnly s (s.changeAspa updateID v) where
  rpki := rfl
  notices := rfl
  verdicts _ _ := rfl
  entries id := by
    refine (congrArg (Option.map forgetAspa) (tableFind_modifyAspa v id)).trans ?_
    rw [Option.map_map]
    refine Option.map_congr fun entry _ => ?_
    show forgetAspa (if id = updateID then _ else _) = _
    split
    · rfl
    · rfl
  waits _ _ hq := queuedFor_enqueue hq .aspa updateID
  queued id hne := by
    by_cases hid : id = updateID
    · rw [hid]
      exact queuedFor_self _ .aspa _
    · refine absurd ?_ hne
      refine (congrArg (Option.map _) (tableFind_modifyAspa v id)).trans ?_
      rw [Option.map_map]
      refine Option.map_congr fun entry _ => ?_
      show (if id = updateID then _ else _ : CacheEntry).srxResult.aspaResult = _
      rw [if_neg hid]
  ids hq := ids_enqueueElems hq hknown .aspa

theorem withVerdict_only {s : RpkiHandler} {k : UInt32} {t : PathListCacheTable}
    (ht : s.server.aspathCache k = some t) (now : Nat) : AspaOnly s (withVerdict s k t now) where
  rpki := rfl
  notices := rfl
  verdicts k' lookup := by
    show (Function.update s.server.aspathCache k _ k').map _ = _
    by_cases hk : k' = k
    · rw [hk, Function.update_self, ht]
      rfl
    · rw [Function.update_of_ne hk]
  entries _ := rfl
  waits _ _ hq := hq
  queued _ h := absurd rfl h
  ids hq := hq

/-- One update. -/
theorem main_only (s : RpkiHandler) (updateID : UInt32) (ct now : Nat) :
    AspaOnly s (processAspaEndOfDataMain s updateID ct now) := by
  rcases main_cases s updateID ct now with
    hsame | ⟨info, t, hinfo, -, ht, ⟨-, hmain⟩ | ⟨-, hmain⟩⟩
  · rw [hsame]
    exact AspaOnly.refl s
  · have hverdict := withVerdict_only ht now
    have hknown : Known (withVerdict s info.pathId t now) updateID :=
      known_of_info hinfo
    rw [hmain]
    split
    · exact hverdict.trans (changeAspa_only hknown _)
    · exact hverdict
  · rw [hmain]
    split
    · exact changeAspa_only (known_of_info hinfo) _
    · exact AspaOnly.refl s

/-- All updates. -/
theorem endOfData_only (s : RpkiHandler) (ct : Nat) (delay : UInt32 → Nat) :
    AspaOnly s (processAspaEndOfData s ct delay) := by
  have hsweep (ids : List UInt32) (s : RpkiHandler) : AspaOnly s (sweep ct delay ids s) := by
    induction ids generalizing s with
    | nil => exact AspaOnly.refl s
    | cons id ids ih => exact (main_only s id ct _).trans (ih _)
  exact hsweep _ s

/-! ## The notifications -/

/-- What is sent for an update and a validation. -/
def answer (s : ServerState) (id : UInt32) : Validation → Option UInt8
  | .roa => (s.updateCache.tableFind id).map (·.srxResult.roaResult)
  | .bgpsec => ((s.updateCache.tableFind id).bind (·.bgpsecPath)).map
    fun path => s.rpki.validateSignature (some path)
  | .aspa => (s.updateCache.tableFind id).map (·.srxResult.aspaResult)

/-- What a notification says. -/
def said (s : ServerState) (e : QueueElem) (kind : Validation) : Option UInt8 :=
  if isSet e.reason.bits kind.reason.bits then answer s e.updateID kind else none

theorem elemResult_eq (s : ServerState) (e : QueueElem) :
    elemResult s e =
      ⟨(if (said s e .roa).isSome then vrtROA else 0) |||
          (if (said s e .bgpsec).isSome then vrtBGPSEC else 0) |||
          (if (said s e .aspa).isSome then vrtASPA else 0),
        ⟨(said s e .roa).getD SrxResult.doNotUse.code,
          (said s e .bgpsec).getD SrxResult.doNotUse.code,
          (said s e .aspa).getD SrxResult.doNotUse.code⟩,
        e.updateID⟩ := by
  unfold elemResult getUpdateResult
  dsimp only
  rw [Option.map_map, Option.map_map]
  rfl

theorem isSet_valType (roa bgpsec aspa : Bool) (kind : Validation) :
    isSet ((if roa then vrtROA else 0) ||| (if bgpsec then vrtBGPSEC else 0) |||
      (if aspa then vrtASPA else 0)) kind.valType =
        match kind with
        | .roa => roa
        | .bgpsec => bgpsec
        | .aspa => aspa := by
  cases kind <;> cases roa <;> cases bgpsec <;> cases aspa <;> decide

theorem notified_elemResult (s : ServerState) (e : QueueElem) (kind : Validation) (id : UInt32) :
    notified kind id (elemResult s e) = if e.updateID = id then said s e kind else none := by
  have hpart (x : Option UInt8) (d : UInt8) :
      (if e.updateID = id ∧ x.isSome then some (x.getD d) else none) =
        if e.updateID = id then x else none := by
    cases x with
    | none => simp
    | some v => simp
  rw [elemResult_eq]
  unfold notified
  dsimp only
  rw [isSet_valType]
  cases kind with
  | roa => exact hpart _ _
  | bgpsec => exact hpart _ _
  | aspa => exact hpart _ _

/-- What the clients are told at End of Data. -/
theorem latest_elemResult (s : ServerState) (rpkiQueue : List QueueElem) (kind : Validation)
    (id : UInt32) (v : UInt8) :
    latest (notified kind id) (rpkiQueue.map (elemResult s)) = some v ↔
      QueuedFor rpkiQueue kind id ∧ answer s id kind = some v := by
  constructor
  · intro h
    obtain ⟨rep, hrep, hsaid⟩ := mem_of_latest h
    obtain ⟨e, he, rfl⟩ := List.mem_map.mp hrep
    rw [notified_elemResult, Option.ite_none_right_eq_some] at hsaid
    obtain ⟨rfl, hsaid⟩ := hsaid
    unfold said at hsaid
    rw [Option.ite_none_right_eq_some] at hsaid
    exact ⟨⟨e, he, rfl, hsaid.1⟩, hsaid.2⟩
  · rintro ⟨⟨e, he, rfl, hbit⟩, hanswer⟩
    refine latest_eq_some (fun rep hrep w hsaid => ?_) (List.mem_map_of_mem he) ?_
    · obtain ⟨e', -, rfl⟩ := List.mem_map.mp hrep
      rw [notified_elemResult, Option.ite_none_right_eq_some] at hsaid
      unfold said at hsaid
      rw [Option.ite_none_right_eq_some, hsaid.1] at hsaid
      exact Option.some.inj (hsaid.2.2.symm.trans hanswer)
    · rw [notified_elemResult, if_pos rfl]
      unfold said
      rw [if_pos hbit, hanswer]
      rfl

/-! ## End of Data -/

section EndOfData

variable {β : Type} {s s' : RpkiHandler} {ct : Nat} {delay : UInt32 → Nat}

/-- The state after End of Data. -/
def afterEndOfData (s : RpkiState) (ct : Nat) (delay : UInt32 → Nat) : RpkiState :=
  { s with handler := handleEndOfData s.handler ct delay }

theorem step_endOfData (api : CryptoApi) (s : RpkiState) (ct : Nat) (delay : UInt32 → Nat) :
    s.step api (.endOfData ct delay) = some (afterEndOfData s ct delay) := by
  unfold RpkiState.step RpkiSystem.step RpkiOp.calls
  dsimp only
  rw [Option.map_some, List.append_nil]
  rfl

/-- What does not depend on the ASPA result. -/
theorem AspaOnly.bind_eq (h : AspaOnly s s') (id : UInt32) {f : CacheEntry → Option β}
    (hf : ∀ entry, f (forgetAspa entry) = f entry) :
    (s'.server.updateCache.tableFind id).bind f = (s.server.updateCache.tableFind id).bind f := by
  have hforget (o : Option CacheEntry) : o.bind f = (o.map forgetAspa).bind f := by
    rw [Option.bind_map]
    exact congrArg _ (funext fun entry => (hf entry).symm)
  rw [hforget, h.entries, ← hforget]

theorem stored_eq_bind (s : RpkiState) (kind : Validation) (id : UInt32) :
    stored s kind id = (s.handler.server.updateCache.tableFind id).bind fun entry =>
      some (kind.ofResult entry.srxResult) :=
  Option.map_eq_bind

theorem stored_roa_after (now : RpkiState) (id : UInt32) :
    stored (afterEndOfData now ct delay) .roa id = stored now .roa id := by
  rw [stored_eq_bind, stored_eq_bind]
  exact (endOfData_only now.handler ct delay).bind_eq id fun _ => rfl

/-- A BGPsec path and its stored result stay as they are. -/
theorem signature_after (h : Change api last.toRpkiSystem now.toRpkiSystem) (ct : Nat)
    (delay : UInt32 → Nat) (id : UInt32) :
    ((afterEndOfData now ct delay).handler.server.updateCache.tableFind id).bind
        (fun entry => some (entry.bgpsecPath, entry.srxResult.bgpsecResult)) =
      (last.handler.server.updateCache.tableFind id).bind
        fun entry => some (entry.bgpsecPath, entry.srxResult.bgpsecResult) := by
  obtain ⟨new, -, hnew⟩ := h.roas
  exact ((endOfData_only now.handler ct delay).bind_eq id fun _ => rfl).trans
    (hnew.bind_eq id fun _ _ => rfl)

theorem stored_bgpsec_after (h : Change api last.toRpkiSystem now.toRpkiSystem) (id : UInt32) :
    stored (afterEndOfData now ct delay) .bgpsec id = stored last .bgpsec id := by
  obtain ⟨new, -, hnew⟩ := h.roas
  rw [stored_eq_bind, stored_eq_bind]
  exact ((endOfData_only now.handler ct delay).bind_eq id fun _ => rfl).trans
    (hnew.bind_eq id fun _ _ => rfl)

theorem stored_aspa_now (h : Change api last.toRpkiSystem now.toRpkiSystem) (id : UInt32) :
    stored now .aspa id = stored last .aspa id := by
  obtain ⟨new, -, hnew⟩ := h.roas
  rw [stored_eq_bind, stored_eq_bind]
  exact hnew.bind_eq id fun _ _ => rfl

theorem lastNotified_after (h : Change api last.toRpkiSystem now.toRpkiSystem) (kind : Validation) (id : UInt32) :
    lastNotified (afterEndOfData now ct delay) kind id =
      (latest (notified kind id) ((processAspaEndOfData now.handler ct delay).rpkiQueue.map
        (elemResult (processAspaEndOfData now.handler ct delay).server))).or
          (lastNotified last kind id) := by
  obtain ⟨new, -, hnew⟩ := h.roas
  refine (latest_append ..).trans ?_
  rw [(endOfData_only now.handler ct delay).notices, hnew.notices]
  rfl

/-- The result that is told is stored. -/
theorem told_stored (hlast : Settled api last) (h : Change api last.toRpkiSystem now.toRpkiSystem)
    (hsame : SameSignatures api last now) {v : UInt8}
    (hv : answer (processAspaEndOfData now.handler ct delay).server id kind = some v) :
    stored (afterEndOfData now ct delay) kind id = some v := by
  cases kind with
  | roa => exact hv
  | aspa => exact hv
  | bgpsec =>
    have honly := endOfData_only now.handler ct delay
    obtain ⟨path, hpath, rfl⟩ := Option.map_eq_some_iff.mp hv
    rw [honly.bind_eq id fun _ => rfl] at hpath
    have hvalid := hsame id path hpath
    rw [h.bgpsecPath] at hpath
    obtain ⟨entry, hentry, hpath⟩ := Option.bind_eq_some_iff.mp hpath
    have hstored := hlast.validated id entry path hentry hpath
    rw [stored_bgpsec_after h, honly.rpki, h.signatures hlast.signatures, hvalid, ← hstored]
    unfold stored
    rw [hentry]
    rfl

/-! ### What has changed -/

/-- The calls of the prefix cache since the last End of Data are for ROAs. -/
def OnlyRoas (last now : RpkiState) : Prop :=
  ∃ new, now.calls = last.calls ++ new ∧ ∀ call ∈ new, isRoaCall call = true

/-- ROAs request no update. -/
theorem requestedOrigin_now (h : OnlyRoas last now) (id : UInt32) :
    requestedOrigin now.calls id = requestedOrigin last.calls id := by
  obtain ⟨new, hcalls, hnew⟩ := h
  have hnone : requestedOrigin new id = none := by
    refine List.findSome?_eq_none_iff.mpr fun call hcall => ?_
    have hroa := hnew call hcall
    cases call with
    | request => cases hroa
    | add => rfl
    | del => rfl
  rw [hcalls]
  unfold requestedOrigin at hnone ⊢
  rw [List.findSome?_append, hnone, Option.or_none]

theorem changed_roa (h : Change api last.toRpkiSystem now.toRpkiSystem) (hlast : Built last)
    (hnow : Built now) (hcalls : OnlyRoas last now) (hid : Known now.handler id)
    (hne : outcome now .roa id ≠ outcome last .roa id) :
    ∃ v, outcome now .roa id = some v ∧
      QueuedFor (processAspaEndOfData now.handler ct delay).rpkiQueue .roa id ∧
      answer (processAspaEndOfData now.handler ct delay).server id .roa = some v := by
  have hid := (h.known id).mp hid
  obtain ⟨new, hreports, hnew⟩ := h.roas
  have hsame := requestedOrigin_now hcalls id
  cases hrequested : requestedOrigin last.calls id with
  | none =>
    unfold outcome at hne
    dsimp only at hne
    rw [hsame, hrequested] at hne
    exact absurd rfl hne
  | some x =>
    obtain ⟨v, hv⟩ : ∃ v, outcome now .roa id = some v := by
      unfold outcome
      dsimp only
      rw [hsame, hrequested]
      exact ⟨_, rfl⟩
    obtain ⟨w, hw⟩ : ∃ w, outcome last .roa id = some w := by
      unfold outcome
      dsimp only
      rw [hrequested]
      exact ⟨_, rfl⟩
    have hreported := built_outcome hnow hv
    rw [hreports, latest_append, built_outcome hlast hw] at hreported
    have hlatest : latest (reported id) new = some v := by
      cases hlatest : latest (reported id) new with
      | none =>
        rw [hlatest, Option.none_or] at hreported
        exact absurd (hv.trans (hreported.symm.trans hw.symm)) hne
      | some u =>
        rw [hlatest, Option.some_or] at hreported
        exact hreported
    refine ⟨v, hv, ?_, ?_⟩
    · refine (endOfData_only now.handler ct delay).waits _ _ (hnew.queued id hid ?_)
      rw [hlatest]
      rfl
    · obtain ⟨entry, hentry⟩ := Option.isSome_iff_exists.mp hid
      refine (@stored_roa_after ct delay now id).trans ?_
      unfold stored
      rw [hnew.entries, hentry, hlatest]
      rfl

/-- The keys have changed no BGPsec result. -/
theorem outcome_bgpsec (hlast : Settled api last)
    (h : Change api last.toRpkiSystem now.toRpkiSystem) (hsame : SameSignatures api last now)
    (id : UInt32) : outcome now .bgpsec id = outcome last .bgpsec id := by
  have hnow : outcome now .bgpsec id = ((now.handler.server.updateCache.tableFind id).bind
      (·.bgpsecPath)).map fun path => api.validate now.keys (some path) := by
    rw [Option.map_bind, ← h.signatures hlast.signatures]
    rfl
  have hbefore : outcome last .bgpsec id = ((now.handler.server.updateCache.tableFind id).bind
      (·.bgpsecPath)).map fun path => api.validate last.keys (some path) := by
    rw [h.bgpsecPath, Option.map_bind, ← hlast.signatures]
    rfl
  rw [hnow, hbefore]
  exact Option.map_congr fun path hpath => hsame id path hpath

/-- The ASPA result of an update with a path is its verdict. -/
theorem outcome_stored {s : RpkiState} (hrev : Revalidated s.handler) {v : UInt8}
    (hv : outcome s .aspa id = some v) : stored s .aspa id = some v := by
  obtain ⟨entry, hentry, hverdict⟩ := Option.bind_eq_some_iff.mp hv
  rw [Option.ite_none_left_eq_some] at hverdict
  obtain ⟨hpath, hverdict⟩ := hverdict
  obtain ⟨t, ht, rfl⟩ := Option.map_eq_some_iff.mp hverdict
  obtain ⟨hres, hcurrent⟩ := hrev id _ t (info_of_find hentry) hpath ht
  unfold stored
  rw [hentry, Option.map_some]
  exact congrArg some (hres.trans hcurrent)

theorem outcome_aspa_after (now : RpkiState) (id : UInt32) :
    outcome (afterEndOfData now ct delay) .aspa id = outcome now .aspa id := by
  have honly := endOfData_only now.handler ct delay
  show ((processAspaEndOfData now.handler ct delay).server.updateCache.tableFind id).bind
    (fun entry => if entry.aspathCacheID = 0 then none else
      ((processAspaEndOfData now.handler ct delay).server.aspathCache entry.aspathCacheID).map
        (·.verdict (processAspaEndOfData now.handler ct delay).server.rpki.lookup)) = _
  simp only [honly.verdicts, honly.rpki]
  exact honly.bind_eq id fun _ => rfl

/-- There is an ASPA outcome now if there was one. -/
theorem outcome_aspa_isSome (h : Change api last.toRpkiSystem now.toRpkiSystem) (id : UInt32) :
    (outcome now .aspa id).isSome = (outcome last .aspa id).isSome := by
  obtain ⟨new, -, hnew⟩ := h.roas
  unfold outcome
  dsimp only
  rw [hnew.bind_eq id fun _ _ => rfl, hnew.paths]
  cases last.handler.server.updateCache.tableFind id with
  | none => rfl
  | some entry =>
    dsimp only [Option.bind_some]
    split
    · rfl
    · rw [Option.isSome_map, Option.isSome_map]

theorem changed_aspa (hlast : Settled api last) (h : Change api last.toRpkiSystem now.toRpkiSystem)
    (hdue : PathsDue now.handler ct) (hne : outcome now .aspa id ≠ outcome last .aspa id) :
    ∃ v, outcome now .aspa id = some v ∧
      QueuedFor (processAspaEndOfData now.handler ct delay).rpkiQueue .aspa id ∧
      answer (processAspaEndOfData now.handler ct delay).server id .aspa = some v := by
  have hsome := outcome_aspa_isSome h id
  cases hnow : outcome now .aspa id with
  | none =>
    rw [hnow, Option.isSome_none, Eq.comm, Option.isSome_eq_false_iff, Option.isNone_iff_eq_none]
      at hsome
    exact absurd (hnow.trans hsome.symm) hne
  | some v =>
    have hrev := (endOfData_revalidated_iff now.handler ct delay).mpr hdue
    have hafter : stored (afterEndOfData now ct delay) .aspa id = some v :=
      outcome_stored hrev ((outcome_aspa_after now id).trans hnow)
    refine ⟨v, rfl, (endOfData_only now.handler ct delay).queued id fun hsame => hne ?_, hafter⟩
    -- the result from before is the outcome from before
    rw [hnow, Option.isSome_some, Eq.comm] at hsome
    obtain ⟨w, hw⟩ := Option.isSome_iff_exists.mp hsome
    have hbefore := outcome_stored hlast.revalidated hw
    rw [hnow, hw, ← hbefore, ← stored_aspa_now h id, ← hafter]
    exact hsame

/-! ### What is known -/

/-- An update that is not reported keeps its result. -/
theorem stored_unqueued (h : Change api last.toRpkiSystem now.toRpkiSystem)
    (hq : ¬ QueuedFor (processAspaEndOfData now.handler ct delay).rpkiQueue kind id) :
    stored (afterEndOfData now ct delay) kind id = stored last kind id := by
  have honly := endOfData_only now.handler ct delay
  cases kind with
  | bgpsec => exact stored_bgpsec_after h id
  | aspa =>
    refine Eq.trans ?_ (stored_aspa_now h id)
    by_contra hne
    exact hq (honly.queued id hne)
  | roa =>
    obtain ⟨new, -, hnew⟩ := h.roas
    rw [stored_roa_after]
    unfold stored
    rw [hnew.entries, Option.map_map]
    refine Option.map_congr fun entry hentry => ?_
    have hnone : latest (reported id) new = none := by
      by_contra hsome
      refine hq (honly.waits _ _ (hnew.queued id ?_ (Option.isSome_iff_ne_none.mpr hsome)))
      rw [hentry]
      rfl
    rw [hnone]
    rfl

theorem known_after (hlast : Settled api last) (h : Change api last.toRpkiSystem now.toRpkiSystem)
    (hsame : SameSignatures api last now) {v w : UInt8}
    (hv : lastNotified (afterEndOfData now ct delay) kind id = some v)
    (hw : stored (afterEndOfData now ct delay) kind id = some w) : v = w := by
  rw [lastNotified_after h, Option.or_eq_some_iff] at hv
  rcases hv with htold | ⟨hsilent, hbefore⟩
  · obtain ⟨-, hanswer⟩ := (latest_elemResult ..).mp htold
    exact Option.some.inj ((told_stored hlast h hsame hanswer).symm.trans hw)
  · refine hlast.known kind id v w hbefore ?_
    -- only a BGPsec result is queued and not told: it does not change
    have hquiet (hanswer : answer (processAspaEndOfData now.handler ct delay).server id kind =
        some w) : ¬ QueuedFor (processAspaEndOfData now.handler ct delay).rpkiQueue kind id := by
      intro hq
      rw [(latest_elemResult ..).mpr ⟨hq, hanswer⟩] at hsilent
      cases hsilent
    cases kind with
    | bgpsec => exact (stored_bgpsec_after h id).symm.trans hw
    | roa => exact (stored_unqueued h (hquiet hw)).symm.trans hw
    | aspa => exact (stored_unqueued h (hquiet hw)).symm.trans hw

end EndOfData

/-- What holds in a round. -/
structure RoundInv (api : CryptoApi) (r : Round) : Prop where
  settled : Settled api r.last
  change : Change api r.last.toRpkiSystem r.now.toRpkiSystem
  built : Built r.now
  calls : OnlyRoas r.last r.now

section Round

variable {r : Round}

/-- One End of Data. -/
theorem converges (hr : RoundInv api r) (ct : Nat) (delay : UInt32 → Nat)
    (hdue : PathsDue r.now.handler ct) (hsame : SameSignatures api r.last r.now) :
    Converges r.last r.now ct delay (afterEndOfData r.now ct delay) where
  changed kind id hid hne := by
    obtain ⟨v, houtcome, hq, hanswer⟩ : ∃ v, outcome r.now kind id = some v ∧
        QueuedFor (processAspaEndOfData r.now.handler ct delay).rpkiQueue kind id ∧
        answer (processAspaEndOfData r.now.handler ct delay).server id kind = some v := by
      cases kind with
      | roa => exact changed_roa hr.change hr.settled.built hr.built hr.calls hid hne
      | bgpsec => exact absurd (outcome_bgpsec hr.settled hr.change hsame id) hne
      | aspa => exact changed_aspa hr.settled hr.change hdue hne
    refine ⟨hq, ?_, ?_⟩
    · rw [houtcome, told_stored hr.settled hr.change hsame hanswer]
    · rw [houtcome, lastNotified_after hr.change, (latest_elemResult ..).mpr ⟨hq, hanswer⟩,
        Option.some_or]
  known _ _ _ _ hv hw := known_after hr.settled hr.change hsame hv hw
  safe := by
    refine (endOfData_only r.now.handler ct delay).ids fun e he => (hr.change.known _).mpr ?_
    refine hr.change.ids hr.settled.attachedStored (fun e he => ?_) e he
    rw [hr.settled.queue] at he
    cases he

/-- The state after End of Data is one to go on with. -/
theorem settled_after (hr : RoundInv api r) (ct : Nat) (delay : UInt32 → Nat)
    (hdue : PathsDue r.now.handler ct) (hsame : SameSignatures api r.last r.now) :
    Settled api (afterEndOfData r.now ct delay) where
  built := ⟨hr.built.noDefect, hr.built.strict, hr.built.cache, hr.built.families⟩
  queue := rfl
  known _ _ _ _ hv hw := known_after hr.settled hr.change hsame hv hw
  revalidated := (endOfData_revalidated_iff r.now.handler ct delay).mpr hdue
  signatures := by
    show (processAspaEndOfData r.now.handler ct delay).server.rpki.validateSignature = _
    rw [(endOfData_only r.now.handler ct delay).rpki]
    exact hr.change.signatures hr.settled.signatures
  validated id entry path hentry hpath := by
    have hafter := signature_after hr.change ct delay id
    rw [hentry] at hafter
    obtain ⟨old, hold, hold'⟩ := Option.bind_eq_some_iff.mp hafter.symm
    obtain ⟨holdPath, hres⟩ := Prod.mk.inj (Option.some.inj hold')
    rw [hpath] at holdPath
    have hbefore : (r.now.handler.server.updateCache.tableFind id).bind (·.bgpsecPath) =
        some path := by
      rw [hr.change.bgpsecPath, hold]
      exact holdPath
    rw [← hres, hr.settled.validated id old path hold holdPath]
    exact (hsame id path hbefore).symm
  attachedStored key id hatt := by
    have hknown := hr.settled.attachedStored key id ((hr.change.attached key id).mp hatt)
    exact ((endOfData_only r.now.handler ct delay).known id).mpr ((hr.change.known id).mpr hknown)

/-- A step that changes no ROA. -/
theorem RoundInv.other (hr : RoundInv api r) {system : RpkiSystem}
    (hchange : Change api r.now.toRpkiSystem system)
    (hcache : system.prefixCache = r.now.prefixCache) :
    RoundInv api ⟨r.last, system, r.now.calls⟩ where
  settled := hr.settled
  change := hr.change.trans hchange
  built := by
    refine ⟨hr.built.noDefect, hr.built.strict, ?_, hr.built.families⟩
    show Cache.run _ r.now.calls = some system.prefixCache
    rw [hcache]
    exact hr.built.cache
  calls := hr.calls

theorem isRoaCall_roaCall (isAnn : Bool) (oas : UInt32) (p : Cache.IPPrefix) (maxLen : UInt8)
    (valCacheID : UInt32) : isRoaCall (roaCall isAnn oas p maxLen valCacheID) = true := by
  cases isAnn with
  | true => rfl
  | false => rfl

theorem prefixCache_handleRouterKey (api : CryptoApi) (s : RpkiSystem) (isAnn : Bool) (key : SkiKey)
    (keyInfo : List UInt8) :
    (handleRouterKey api s isAnn key keyInfo).prefixCache = s.prefixCache := by
  unfold handleRouterKey
  dsimp only
  split
  · split
    · split
      · rfl
      · rfl
    · rfl
  · rfl

/-- One step. -/
theorem round_step (r : Round) (op : RpkiOp) (hr : RoundInv api r) (hlost : NothingLost api r op) :
    ∃ r', r.step api op = some r' ∧ RoundInv api r' := by
  cases op with
  | roa isAnn oas p maxLen valCacheID =>
    obtain ⟨c, hstep, hbuilt⟩ := built_roa hr.built hlost
    obtain ⟨system, hsystem, hcache⟩ : ∃ system,
        handlePrefix r.now.toRpkiSystem isAnn oas p maxLen valCacheID = some system ∧
          system.prefixCache = c := by
      unfold handlePrefix
      rw [hstep]
      exact ⟨_, rfl, rfl⟩
    refine ⟨⟨r.last, system, r.now.calls ++ [roaCall isAnn oas p maxLen valCacheID]⟩, ?_,
      hr.settled, hr.change.trans (handlePrefix_change hsystem), hbuilt _ hcache rfl, ?_⟩
    · unfold Round.step RpkiState.step RpkiSystem.step
      dsimp only
      rw [hsystem]
      rfl
    · obtain ⟨new, hcalls, hnew⟩ := hr.calls
      refine ⟨new ++ [roaCall isAnn oas p maxLen valCacheID], ?_, fun call hcall => ?_⟩
      · show r.now.calls ++ _ = _
        rw [hcalls, List.append_assoc]
      · rcases List.mem_append.mp hcall with hcall | hcall
        · exact hnew call hcall
        · rw [List.mem_singleton.mp hcall]
          exact isRoaCall_roaCall ..
  | routerKey isAnn key keyInfo =>
    refine ⟨⟨r.last, handleRouterKey api r.now.toRpkiSystem isAnn key keyInfo, r.now.calls⟩, ?_,
      hr.other (handleRouterKey_change ..) (prefixCache_handleRouterKey ..)⟩
    unfold Round.step RpkiState.step RpkiSystem.step RpkiOp.calls
    dsimp only
    rw [Option.map_some, List.append_nil]
    rfl
  | aspa lookup =>
    refine ⟨⟨r.last, { r.now.toRpkiSystem with handler.server.rpki.lookup := lookup },
      r.now.calls⟩, ?_, hr.other (aspa_change api _ lookup) rfl⟩
    unfold Round.step RpkiState.step RpkiSystem.step RpkiOp.calls
    dsimp only
    rw [Option.map_some, List.append_nil]
    rfl
  | endOfData ct delay =>
    have hsettled := settled_after hr ct delay hlost.1 hlost.2
    refine ⟨⟨afterEndOfData r.now ct delay, afterEndOfData r.now ct delay⟩, ?_, hsettled,
      Change.refl api _, hsettled.built, [], (List.append_nil _).symm, fun _ hcall => (nomatch hcall)⟩
    unfold Round.step
    rw [step_endOfData]
    rfl

end Round

/-- A BGPsec result that the keys have changed is not stored: End of Data does not converge. -/
theorem not_converges_of_signature (hlast : Settled api last)
    (h : Change api last.toRpkiSystem now.toRpkiSystem) {path : List UInt8}
    (hpath : (now.handler.server.updateCache.tableFind id).bind (·.bgpsecPath) = some path)
    (hchanged : api.validate now.keys (some path) ≠ api.validate last.keys (some path)) (ct : Nat)
    (delay : UInt32 → Nat) : ¬ Converges last now ct delay (afterEndOfData now ct delay) := by
  intro hconv
  obtain ⟨entry', hentry', hpath'⟩ := Option.bind_eq_some_iff.mp hpath
  have hknown : Known now.handler id := by
    unfold Known
    rw [hentry']
    rfl
  have hnow : outcome now .bgpsec id = some (api.validate now.keys (some path)) := by
    rw [← h.signatures hlast.signatures]
    show (now.handler.server.updateCache.tableFind id).bind _ = _
    rw [hentry', Option.bind_some, hpath']
    rfl
  rw [h.bgpsecPath] at hpath
  obtain ⟨entry, hentry, hpath⟩ := Option.bind_eq_some_iff.mp hpath
  have hstored : stored last .bgpsec id = some (api.validate last.keys (some path)) := by
    rw [← hlast.validated id entry path hentry hpath]
    unfold stored
    rw [hentry]
    rfl
  have hbefore : outcome last .bgpsec id = some (api.validate last.keys (some path)) := by
    rw [← hlast.signatures]
    show (last.handler.server.updateCache.tableFind id).bind _ = _
    rw [hentry, Option.bind_some, hpath]
    rfl
  have hne : outcome now .bgpsec id ≠ outcome last .bgpsec id := by
    rw [hnow, hbefore]
    exact fun heq => hchanged (Option.some.inj heq)
  obtain ⟨-, hafter, -⟩ := hconv.changed .bgpsec id hknown hne
  rw [stored_bgpsec_after h, hstored, hnow] at hafter
  exact hchanged (Option.some.inj hafter).symm

end ConvergenceLemmas

open RpkiChangeLemmas ConvergenceLemmas

/-- From any settled state, whatever ROAs, router keys and ASPA records come: as long as nothing is
lost, every End of Data is reached, comes to its end and converges. -/
theorem clients_converge (api : CryptoApi) (start : RpkiState) (hstart : Settled api start)
    (ops : List RpkiOp)
    (hops : EachPartialStep (Round.step api) (NothingLost api) ⟨start, start⟩ ops) :
    ConvergesAfterwards api start ops := by
  intro before ct delay after heq
  have hinit : RoundInv api ⟨start, start⟩ :=
    ⟨hstart, Change.refl api _, hstart.built, [], (List.append_nil _).symm,
      fun _ hcall => (nomatch hcall)⟩
  obtain ⟨r, hrun, hr⟩ := completes_of_eachPartialStep round_step hinit (heq ▸ hops).left
  obtain ⟨hdue, hsame⟩ := hops before _ after heq r hrun
  exact ⟨r, _, hrun, step_endOfData .., converges hr ct delay hdue hsame⟩

/-! ## One update with one signer -/

/-- The router of the signer. -/
def signerKey : SkiKey := ⟨65001, List.replicate 20 0, ecdsaAlgorithm⟩

/-- A crypto library for paths with one signer: a path is valid when the signer has a key. -/
def oneSigner : CryptoApi where
  registerPublicKey keys keyInfo := some (keys ++ [keyInfo])
  unregisterPublicKey keys keyInfo := keys.erase keyInfo
  validate keys _ :=
    if keys signerKey = [] then SrxResult.invalid.code else SrxResult.valid.code

/-- The AS path of the update, from a customer. No ASPA record is known. -/
def customerPath : PathListCacheTable where
  pathId := 7
  hops := 2
  asPathList := [65001, 65002]
  aspaResult := SrxResult.unknown.code
  asType := .asSequence
  asRelDir := .upStream
  afi := afiIP
  lastModified := 0

/-- The update is requested for `10.0.0.0/8` and the AS 1. -/
def requestCall : Cache.Op := .request 1 Cache.ten8 1

/-- Update 1 with a BGPsec path and an AS path, validated and reported when its signer had the keys
`keys`. -/
def signedUpdate (keys : List (List UInt8)) : RpkiState :=
  let signerKeys (key : SkiKey) := if key = signerKey then keys else []
  let result : UpdateResult := ⟨SrxResult.notFound.code, oneSigner.validate signerKeys none,
    SrxResult.unknown.code⟩
  { handler :=
      { server :=
          { updateCache :=
              { allItems := [{ newCacheEntry 1 1 none (some []) 7 with srxResult := result }]
                minNumberOfClients := 1
                defaultKeepWindow := 0
                unique := List.nodup_singleton _
                minPos := by decide }
            aspathCache := Function.update createAspathCache 7 (some customerPath)
            rpki := ⟨fun _ _ _ => .unknown, oneSigner.validate signerKeys⟩
            cmdQueue := []
            reports := [⟨vrtROA ||| vrtBGPSEC ||| vrtASPA, result, 1⟩] }
        rpkiQueue := [] }
    prefixCache := (Cache.run Cache.initializePrefixCache [requestCall]).getD
      Cache.initializePrefixCache
    skiCache := fun key =>
      if key = signerKey then some ⟨UInt8.ofNat keys.length, [1]⟩ else none
    keys := signerKeys
    calls := [requestCall] }

theorem find_signedUpdate {keys : List (List UInt8)} {id : UInt32} {entry : CacheEntry}
    (h : (signedUpdate keys).handler.server.updateCache.tableFind id = some entry) :
    id = 1 ∧ entry = { newCacheEntry 1 1 none (some []) 7 with
      srxResult := ⟨SrxResult.notFound.code, oneSigner.validate (signedUpdate keys).keys none,
        SrxResult.unknown.code⟩ } := by
  obtain ⟨hmem, rfl⟩ := UpdateCacheLemmas.tableFind_eq_some.mp h
  obtain rfl := List.mem_singleton.mp hmem
  exact ⟨rfl, rfl⟩

theorem path_signedUpdate {keys : List (List UInt8)} {k : UInt32} {t : PathListCacheTable}
    (h : (signedUpdate keys).handler.server.aspathCache k = some t) : t = customerPath := by
  change Function.update createAspathCache 7 (some customerPath) k = some t at h
  by_cases hk : k = 7
  · rw [hk, Function.update_self] at h
    exact (Option.some.inj h).symm
  · rw [Function.update_of_ne hk] at h
    cases h

theorem signedUpdate_built (keys : List (List UInt8)) : Built (signedUpdate keys) where
  noDefect := by
    refine ⟨⟨?_, fun _ r hr => absurd hr List.not_mem_nil, by decide, by decide, by decide,
      fun k e he => ?_⟩, fun _ _ => trivial⟩
    · rw [Cache.nodeAt, Cache.initializePrefixCache, Trie.get?_null]
      simp
    · rw [Cache.entriesAt, Cache.initializePrefixCache, Cache.TreeLemmas.dataAt_null] at he
      exact absurd he List.not_mem_nil
  strict := ⟨fun q hq => absurd hq List.not_mem_nil, fun _ _ => trivial⟩
  cache := by
    have hsome : (Cache.run Cache.initializePrefixCache [requestCall]).isSome = true := by
      decide +kernel
    obtain ⟨c, hc⟩ := Option.isSome_iff_exists.mp hsome
    show Cache.run Cache.initializePrefixCache [requestCall] =
      some ((Cache.run Cache.initializePrefixCache [requestCall]).getD Cache.initializePrefixCache)
    rw [hc]
    rfl
  families := by
    intro updateID p as _ call hcall hroa
    rw [List.mem_singleton.mp hcall] at hroa
    cases hroa

theorem signedUpdate_settled (keys : List (List UInt8)) :
    Settled oneSigner (signedUpdate keys) where
  built := signedUpdate_built keys
  queue := rfl
  known kind id v w hv hw := by
    obtain ⟨rep, hrep, hsaid⟩ := mem_of_latest hv
    obtain rfl := List.mem_singleton.mp hrep
    unfold notified at hsaid
    rw [Option.ite_none_right_eq_some] at hsaid
    obtain ⟨⟨rfl, -⟩, hsaid⟩ := hsaid
    cases kind with
    | roa => exact Option.some.inj (hsaid.symm.trans hw)
    | aspa => exact Option.some.inj (hsaid.symm.trans hw)
    | bgpsec => exact Option.some.inj (hsaid.symm.trans hw)
  revalidated id info t hinfo _ ht := by
    obtain ⟨entry, hentry, rfl⟩ := Option.map_eq_some_iff.mp hinfo
    obtain ⟨-, rfl⟩ := find_signedUpdate hentry
    obtain rfl := path_signedUpdate ht
    exact ⟨rfl, show customerPath.aspaResult = customerPath.verdict fun _ _ _ => .unknown by
      decide +kernel⟩
  signatures := rfl
  validated id entry path hentry _ := by
    obtain ⟨-, rfl⟩ := find_signedUpdate hentry
    rfl
  attachedStored key id hatt := by
    obtain ⟨cData, hdata, hid⟩ := hatt
    obtain ⟨-, hdata⟩ := Option.ite_none_right_eq_some.mp hdata
    obtain rfl := Option.some.inj hdata
    obtain rfl := List.mem_singleton.mp hid
    rfl

/-- The ROA for the AS of the update reaches no defect. -/
theorem signedUpdate_roa (keys : List (List UInt8)) :
    RoaFits (signedUpdate keys) (roaCall true 1 Cache.ten8 8 0) where
  noDefect := by
    have hentries : (Cache.run Cache.initializePrefixCache [requestCall]).map
        (fun c => Cache.entriesAt c.prefixTree Cache.ten8.key) = some [] := by decide +kernel
    have hcache : Cache.run Cache.initializePrefixCache [requestCall] =
        some (signedUpdate keys).prefixCache := (signedUpdate_built keys).cache
    have hroas : (Cache.History.empty.run (signedUpdate keys).calls).roas = [] := rfl
    refine fun _ => ⟨by rw [hroas]; decide, fun k => ?_, fun q _ => ?_, fun e he => ?_⟩
    · refine Nat.lt_of_le_of_lt List.countP_le_length ?_
      rw [Cache.History.addRoa, hroas]
      exact Nat.one_lt_two_pow (by decide)
    · refine Nat.lt_of_le_of_lt List.countP_le_length ?_
      rw [Cache.History.addRoa, hroas]
      exact Nat.one_lt_two_pow (by decide)
    · rw [hcache, Option.map_some] at hentries
      exact absurd (Option.some.inj hentries ▸ he) List.not_mem_nil
  strict := show Cache.ten8.length ≤ 8 by decide
  families := by
    intro updateID p as hp call hcall hroa hne
    rcases List.mem_cons.mp hcall with rfl | hcall
    · cases hroa
    · rcases List.mem_cons.mp hp with heq | hp
      · rw [List.mem_singleton.mp hcall] at hne
        obtain ⟨-, rfl, -⟩ := Cache.Op.request.inj heq
        exact absurd rfl hne
      · cases List.mem_singleton.mp hp

/-- ASPA data in which no AS is a provider of another. -/
def noProviders : UInt32 → UInt32 → UInt8 → AspaResult := fun _ _ _ => .invalid

/-- A ROA for the update is announced, a key of the signer is replaced by another one, and the ASPA
records arrive: the update gets a new origin and a new ASPA result and keeps the one of its BGPsec
path. -/
theorem clients_converge_three_changes :
    let start := signedUpdate [[1]]
    let ops : List RpkiOp := [.roa true 1 Cache.ten8 8 0, .routerKey true signerKey [2],
      .routerKey false signerKey [1], .aspa noProviders, .endOfData 5 fun _ => 0]
    ConvergesAfterwards oneSigner start ops ∧
      (ops.foldlM (Round.step oneSigner) ⟨start, start⟩).map (fun r =>
        [stored r.now .roa 1, lastNotified r.now .roa 1, stored r.now .aspa 1,
          lastNotified r.now .aspa 1, lastNotified r.now .bgpsec 1]) =
        some [some SrxResult.valid.code, some SrxResult.valid.code, some SrxResult.invalid.code,
          some SrxResult.invalid.code, some SrxResult.valid.code] := by
  intro start ops
  refine ⟨clients_converge oneSigner start (signedUpdate_settled _) ops ?_, by decide +kernel⟩
  refine eachPartialStep_cons.mpr ⟨signedUpdate_roa _, fun r₁ hr₁ => ?_⟩
  obtain ⟨now, hnow, rfl⟩ := Option.map_eq_some_iff.mp hr₁
  obtain ⟨system, hsystem, rfl⟩ := Option.map_eq_some_iff.mp hnow
  change handlePrefix start.toRpkiSystem true 1 Cache.ten8 8 0 = some system at hsystem
  have hchange : Change oneSigner start.toRpkiSystem system := handlePrefix_change hsystem
  have hkeys : system.keys = (signedUpdate [[1]]).keys := by
    obtain ⟨c, -, rfl⟩ := Option.map_eq_some_iff.mp hsystem
    rfl
  refine eachPartialStep_cons.mpr ⟨trivial, fun r₂ hr₂ => ?_⟩
  obtain rfl := Option.some.inj hr₂
  refine eachPartialStep_cons.mpr ⟨trivial, fun r₃ hr₃ => ?_⟩
  obtain rfl := Option.some.inj hr₃
  refine eachPartialStep_cons.mpr ⟨trivial, fun r₄ hr₄ => ?_⟩
  obtain rfl := Option.some.inj hr₄
  refine eachPartialStep_cons.mpr ⟨⟨fun k t first _ ht _ => ?_, fun id path _ => ?_⟩,
    fun _ _ => eachPartialStep_nil⟩
  · change system.handler.server.aspathCache k = some t at ht
    obtain ⟨new, -, hnew⟩ := hchange.roas
    rw [hnew.paths] at ht
    obtain rfl := path_signedUpdate ht
    rw [if_pos (show customerPath.lastModified < 5 by decide)]
    left
    show customerPath.aspaResult ≠ customerPath.verdict noProviders
    decide +kernel
  · let keys₂ := Function.update system.keys signerKey (system.keys signerKey ++ [[2]])
    show oneSigner.validate (Function.update keys₂ signerKey ((keys₂ signerKey).erase [1])) none =
      oneSigner.validate (signedUpdate [[1]]).keys none
    simp only [keys₂, hkeys]
    decide +kernel

/-- The key of the signer arrives: the clients are told that the path is valid, and the update cache
says that it is not. -/
theorem bgpsec_result_not_stored :
    ¬ ∀ (api : CryptoApi) (start : RpkiState) (ops : List RpkiOp), Settled api start →
      ConvergesAfterwards api start ops := by
  intro hall
  obtain ⟨r, done, hrun, hdone, hconv⟩ := hall oneSigner (signedUpdate []) _
    (signedUpdate_settled []) [.routerKey true signerKey [1]] 5 (fun _ => 0) [] rfl
  obtain rfl := Option.some.inj hrun
  obtain rfl := Option.some.inj hdone
  have hsame := hconv.known .bgpsec 1 SrxResult.valid.code SrxResult.invalid.code
    (by decide +kernel) (by decide +kernel)
  exact absurd hsame (by decide)

end SrxSuite.Server

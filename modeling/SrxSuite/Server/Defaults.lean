import SrxSuite.Server.Requests

/-!
# Where the results of an update come from

A verify request carries a default result. A path that the cache does not know yet is stored with
it, and the next request with the same path takes what is stored as a validated result.

`Sound` is the invariant that says where every stored and every reported ASPA result comes from. It
is kept by every step that adds its path without a foreign value; what a request may bring itself is
a parameter (`own`).
-/

namespace SrxSuite.Server

open Aspa Runs

/-! ## The runs -/

/-- The server and the requests it has received. -/
structure History where
  server : ServerState
  received : List (VerifyRequest × Locals)

/-- One step. -/
def History.step (h : History) (op : ServerOp) : History where
  server := h.server.step op
  received :=
    match op with
    | .request r locals _ => h.received ++ [(r, locals)]
    | .work _ => h.received

/-- Before the first request. -/
def initHistory (minNumberOfClients : UInt8) (minPos : 0 < minNumberOfClients)
    (defaultKeepWindow : UInt16) (rpki : RpkiData) : History :=
  ⟨initServerState minNumberOfClients minPos defaultKeepWindow rpki, []⟩

/-- A value that an update may have: there is no result yet, one of its own requests accounts for it
(`own`), or `validateASPA` yields it for the path that the cache has for such a request. -/
def Legit (own : VerifyRequest → UInt8 → Prop) (h : History) (updateID : UInt32) (v : UInt8) :
    Prop :=
  v = SrxResult.undefined.code ∨ ∃ x ∈ h.received, x.1.updateID = updateID ∧
    (own x.1 v ∨ ∃ t, x.1.pathId x.2 ≠ 0 ∧ h.server.aspathCache (x.1.pathId x.2) = some t ∧
      v = t.verdict h.server.rpki.lookup)

/-- Every stored and every reported ASPA result is one that its update may have. -/
structure OwnResults (own : VerifyRequest → UInt8 → Prop) (h : History) : Prop where
  stored : ∀ id info, getUpdateResult h.server.updateCache id = some info →
    Legit own h id info.srxRes.aspaResult
  reported : ∀ rep ∈ h.server.reports, Legit own h rep.updateID rep.valResult.aspaResult

/-- A path is added to the cache with UNDEFINED, or with the value `validateASPA` yields for it. -/
def AddsNoDefault (h : History) : ServerOp → Prop
  | .request r locals _ => ∀ t, addedPath h.server r locals = some t → r.pathId locals ≠ 0 →
    t.aspaResult = SrxResult.undefined.code ∨ t.aspaResult = t.verdict h.server.rpki.lookup
  | .work _ => True

namespace DefaultLemmas

open RequestLemmas

variable {own : VerifyRequest → UInt8 → Prop} {h : History} {r : VerifyRequest} {locals : Locals}
  {id : UInt32} {v : UInt8}

/-! ## The path cache grows -/

/-- Paths stay in the cache, only their results change. -/
def Grown (cache cache' : AspathCache) : Prop :=
  ∀ k t, cache k = some t →
    ∃ now v, cache' k = some { t with lastModified := now, aspaResult := v }

theorem Grown.refl (cache : AspathCache) : Grown cache cache :=
  fun _ t ht => ⟨t.lastModified, t.aspaResult, ht⟩

theorem grown_add {cache : AspathCache} {k : UInt32} (hnone : cache k = none)
    (t : PathListCacheTable) : Grown cache (Function.update cache k (some t)) := by
  intro k' t' ht'
  have hne : k' ≠ k := by
    rintro rfl
    rw [hnone] at ht'
    cases ht'
  rw [Function.update_of_ne hne]
  exact Grown.refl cache k' t' ht'

theorem grown_written {lookup : UInt32 → UInt32 → UInt8 → AspaResult} {cache cache' : AspathCache}
    {k : UInt32} (hw : PathWritten lookup cache k cache') : Grown cache cache' := by
  rcases hw with rfl | ⟨t, now, -, ht, rfl⟩
  · exact Grown.refl _
  · intro k' t' ht'
    by_cases hk : k' = k
    · subst hk
      obtain rfl := Option.some.inj (ht.symm.trans ht')
      exact ⟨now, t.verdict lookup, Function.update_self _ _ _⟩
    · rw [Function.update_of_ne hk]
      exact Grown.refl cache k' t' ht'

theorem addedPath_fresh {s : ServerState} {t : PathListCacheTable}
    (hadd : addedPath s r locals = some t) : s.aspathCache (r.pathId locals) = none := by
  unfold addedPath at hadd
  dsimp only at hadd
  split at hadd
  · next hnew => exact Option.isNone_iff_eq_none.mp hnew.2
  · cases hadd

theorem grown_request (s : ServerState) (r : VerifyRequest) (locals : Locals) (now : Nat) :
    Grown s.aspathCache (processValidationRequest s r locals now).aspathCache := by
  rw [request_cache]
  split
  · exact Grown.refl _
  · next t hadd => exact grown_add (addedPath_fresh hadd) t

/-- What an update may have it may have later. -/
theorem Legit.mono {h' : History} (hv : Legit own h id v)
    (hrec : ∀ x ∈ h.received, x ∈ h'.received) (hrpki : h'.server.rpki = h.server.rpki)
    (hgrown : Grown h.server.aspathCache h'.server.aspathCache) : Legit own h' id v := by
  rcases hv with hundef | ⟨x, hx, hid, hown | ⟨t, hk, ht, hverdict⟩⟩
  · exact .inl hundef
  · exact .inr ⟨x, hrec x hx, hid, .inl hown⟩
  · obtain ⟨now, w, ht'⟩ := hgrown _ t ht
    refine .inr ⟨x, hrec x hx, hid, .inr ⟨_, hk, ht', ?_⟩⟩
    rw [hrpki]
    exact hverdict

/-! ## The invariant -/

/-- A set that has no path brings its result itself. -/
def SetsOwn (own : VerifyRequest → UInt8 → Prop) (h : History) : Prop :=
  ∀ x ∈ h.received, ∀ y ∈ h.received, x.1.updateID = y.1.updateID → x.1.asType = .asSet →
    y.1.pathId y.2 = 0 → own x.1 SrxResult.unverifiable.code

/-- Where all values come from. -/
structure Sound (own : VerifyRequest → UInt8 → Prop) (h : History) : Prop where
  results : OwnResults own h
  /-- The result of a path is its verdict. -/
  paths : ∀ k t, k ≠ 0 → h.server.aspathCache k = some t →
    t.aspaResult = SrxResult.undefined.code ∨ t.aspaResult = t.verdict h.server.rpki.lookup
  /-- An update has the path identifier of one of its requests. -/
  requested : ∀ id info, getUpdateResult h.server.updateCache id = some info →
    ∃ x ∈ h.received, x.1.updateID = id ∧ x.1.pathId x.2 = info.pathId
  /-- An update whose path was found has no default result. -/
  defaults : ∀ id info, getUpdateResult h.server.updateCache id = some info →
    Legit own h id info.defaultRes.result.aspaResult ∨
      (info.defaultRes.result.aspaResult = SrxResult.doNotUse.code ∧ info.pathId ≠ 0)
  queue : ∀ item ∈ h.server.cmdQueue,
    ∃ x ∈ h.received, x.1.updateID = item.updateID ∧ x.1.asType = item.asType
  sets : SetsOwn own h

theorem Sound.init (own : VerifyRequest → UInt8 → Prop) (minNumberOfClients : UInt8)
    (minPos : 0 < minNumberOfClients) (keep : UInt16) (rpki : RpkiData) :
    Sound own (initHistory minNumberOfClients minPos keep rpki) where
  results := ⟨fun _ _ hinfo => (nomatch hinfo), fun _ hrep => (nomatch hrep)⟩
  paths := fun _ _ _ ht => (nomatch ht)
  requested := fun _ _ hinfo => (nomatch hinfo)
  defaults := fun _ _ hinfo => (nomatch hinfo)
  queue := fun _ hitem => (nomatch hitem)
  sets := fun _ hx => (nomatch hx)

theorem legit_useResult {old : UInt8} (hold : Legit own h id old)
    (hv : v = SrxResult.doNotUse.code ∨ Legit own h id v) : Legit own h id (useResult v old) := by
  unfold useResult
  split
  · next hne => exact hv.resolve_left hne
  · exact hold

/-! ## Requests -/

theorem mem_received_request (h : History) (r : VerifyRequest) (locals : Locals) (now : Nat) :
    (r, locals) ∈ (h.step (.request r locals now)).received :=
  List.mem_append_right _ (List.mem_singleton.mpr rfl)

theorem Legit.request (hv : Legit own h id v) (r : VerifyRequest) (locals : Locals) (now : Nat) :
    Legit own (h.step (.request r locals now)) id v :=
  Legit.mono hv (fun _ hx => List.mem_append_left _ hx) rfl (grown_request h.server r locals now)

/-- The update of a request has no path identifier yet and the cache has no path for the request. -/
def Misses (s : ServerState) (r : VerifyRequest) (locals : Locals) : Prop :=
  r.pathId locals = 0 ∨ s.aspathCache (r.pathId locals) = none

/-- What the ASPA part of a request reports, what it changes and what it leaves for a new update. -/
theorem requestPart_legit (hs : Sound own h) (now : Nat)
    (hdef : getUpdateResult h.server.updateCache r.updateID = none → Misses h.server r locals →
      r.aspaDefRes = SrxResult.undefined.code ∨ own r r.aspaDefRes) :
    Legit own (h.step (.request r locals now)) r.updateID
        (requestPart h.server r locals).aspaResult ∧
      (∀ old, Legit own (h.step (.request r locals now)) r.updateID old →
        Legit own (h.step (.request r locals now)) r.updateID
          (AspaPart.taken (requestPart h.server r locals) old)) ∧
      (getUpdateResult h.server.updateCache r.updateID = none →
        Legit own (h.step (.request r locals now)) r.updateID
          (requestPart h.server r locals).defResInfo.result.aspaResult ∨
        ((requestPart h.server r locals).defResInfo.result.aspaResult =
          SrxResult.doNotUse.code ∧ (requestPart h.server r locals).pathId ≠ 0)) := by
  unfold requestPart
  generalize hinfo : (getUpdateResult h.server.updateCache r.updateID).getD resultNotFound = info
  by_cases hid : info.pathId = 0
  · by_cases hmiss : Misses h.server r locals
    · obtain ⟨-, hres, hdefault, htaken, -⟩ := aspaPart_miss hid hmiss
        (getUpdateResult h.server.updateCache r.updateID).isNone
      have hlegit : Legit own (h.step (.request r locals now)) r.updateID
          (missDefault r info (getUpdateResult h.server.updateCache r.updateID).isNone) := by
        cases hknown : getUpdateResult h.server.updateCache r.updateID with
        | none =>
          rcases hdef hknown hmiss with hundef | hown
          · exact .inl hundef
          · exact .inr ⟨(r, locals), mem_received_request h r locals now, rfl, .inl hown⟩
        | some old =>
          rw [hknown] at hinfo
          obtain rfl : old = info := hinfo
          refine Legit.request ((hs.defaults _ _ hknown).resolve_right fun hn => hn.2 hid) _ _ _
      rw [hres, hdefault]
      refine ⟨hlegit, fun old hold => ?_, fun _ => .inl hlegit⟩
      unfold AspaPart.taken
      rw [htaken]
      exact hold
    · -- the path is found
      have hk : r.pathId locals ≠ 0 := fun hk => hmiss (.inl hk)
      obtain ⟨t, ht⟩ := Option.ne_none_iff_exists'.mp fun hn => hmiss (.inr hn)
      rw [aspaPart_hit hid hk ht]
      have hlegit : Legit own (h.step (.request r locals now)) r.updateID t.aspaResult := by
        rcases hs.paths _ t hk ht with hundef | hverdict
        · exact .inl hundef
        · obtain ⟨time, w, ht'⟩ := grown_request h.server r locals now _ t ht
          exact .inr ⟨(r, locals), mem_received_request h r locals now, rfl,
            .inr ⟨_, hk, ht', hverdict⟩⟩
      refine ⟨hlegit, fun old hold => ?_, fun hnone => .inr ⟨?_, hk⟩⟩
      · unfold AspaPart.taken
        dsimp only
        split
        · next w hw =>
          split at hw
          · cases hw
          · obtain rfl := Option.some.inj hw
            exact legit_useResult hold (.inr hlegit)
        · exact hold
      · rw [← hinfo, hnone]
        rfl
  · -- the update has its path already
    rw [aspaPart_kept hid]
    cases hknown : getUpdateResult h.server.updateCache r.updateID with
    | none =>
      rw [hknown] at hinfo
      exact absurd (hinfo ▸ rfl) hid
    | some old =>
      rw [hknown] at hinfo
      obtain rfl : old = info := hinfo
      exact ⟨Legit.request (hs.results.stored _ _ hknown) _ _ _, fun _ hold => hold,
        fun hnone => (nomatch hnone)⟩

theorem request_sound (hs : Sound own h) (now : Nat)
    (hadds : AddsNoDefault h (.request r locals now))
    (hdef : getUpdateResult h.server.updateCache r.updateID = none → Misses h.server r locals →
      r.aspaDefRes = SrxResult.undefined.code ∨ own r r.aspaDefRes)
    (hsets : SetsOwn own (h.step (.request r locals now))) :
    Sound own (h.step (.request r locals now)) := by
  obtain ⟨hanswer, htaken, hnew⟩ := requestPart_legit hs now hdef
  obtain ⟨⟨new, hreports, hreport⟩, hqueue⟩ := request_output h.server r locals now
  refine ⟨⟨fun id info hinfo => ?_, fun rep hrep => ?_⟩, fun k t hk ht => ?_, fun id info hinfo => ?_,
    fun id info hinfo => ?_, fun item hitem => ?_, hsets⟩
  · -- the stored results
    rcases request_info now hinfo with ⟨-, hsame⟩ | ⟨rfl, -, -, -, hres⟩ | ⟨rfl, old, hold, -, -, hres⟩
    · exact Legit.request (hs.results.stored id info hsame) _ _ _
    · rw [hres]
      exact htaken _ (.inl rfl)
    · rw [hres]
      exact htaken _ (Legit.request (hs.results.stored _ old hold) _ _ _)
  · change rep ∈ (processValidationRequest h.server r locals now).reports at hrep
    rw [hreports] at hrep
    rcases List.mem_append.mp hrep with hrep | hrep
    · exact Legit.request (hs.results.reported rep hrep) _ _ _
    · obtain ⟨hid, hres⟩ := hreport rep hrep
      rw [hid, hres]
      exact hanswer
  · -- the results of the paths
    change (processValidationRequest h.server r locals now).aspathCache k = some t at ht
    rw [request_cache] at ht
    split at ht
    · exact hs.paths k t hk ht
    · next added hadd =>
      by_cases hkey : k = r.pathId locals
      · subst hkey
        rw [Function.update_self] at ht
        obtain rfl := Option.some.inj ht
        exact hadds added hadd hk
      · rw [Function.update_of_ne hkey] at ht
        exact hs.paths k t hk ht
  · rcases request_info now hinfo with ⟨-, hsame⟩ | ⟨rfl, hnone, hpath, -, -⟩ |
      ⟨rfl, old, hold, hpath, -, -⟩
    · obtain ⟨x, hx, hxid, hxpath⟩ := hs.requested id info hsame
      exact ⟨x, List.mem_append_left _ hx, hxid, hxpath⟩
    · rw [hpath, requestPart_pathId hnone]
      exact ⟨(r, locals), mem_received_request h r locals now, rfl, rfl⟩
    · obtain ⟨x, hx, hxid, hxpath⟩ := hs.requested _ old hold
      rw [hpath]
      exact ⟨x, List.mem_append_left _ hx, hxid, hxpath⟩
  · rcases request_info now hinfo with ⟨-, hsame⟩ | ⟨rfl, hnone, hpath, hdefault, -⟩ |
      ⟨rfl, old, hold, hpath, hdefault, -⟩
    · exact (hs.defaults id info hsame).imp_left fun hv => Legit.request hv _ _ _
    · rw [hpath, hdefault]
      exact hnew hnone
    · rw [hpath, hdefault]
      exact (hs.defaults _ old hold).imp_left fun hv => Legit.request hv _ _ _
  · rcases hqueue item hitem with hitem | ⟨hid, htype⟩
    · obtain ⟨x, hx, hxid, hxtype⟩ := hs.queue item hitem
      exact ⟨x, List.mem_append_left _ hx, hxid, hxtype⟩
    · exact ⟨(r, locals), mem_received_request h r locals now, hid.symm, htype.symm⟩

/-! ## The worker -/

/-- The values the worker finds are allowed. -/
theorem resultFound_legit (hs : Sound own h) {info : UpdateResultInfo} {x : VerifyRequest × Locals}
    (hinfo : getUpdateResult h.server.updateCache id = some info) (hx : x ∈ h.received)
    (hid : x.1.updateID = id)
    (hv : ResultFound h.server.rpki.lookup h.server.aspathCache info x.1.asType v) :
    v = SrxResult.doNotUse.code ∨ Legit own h id v := by
  obtain ⟨y, hy, hyid, hypath⟩ := hs.requested id info hinfo
  rcases hv with hnone | hold | ⟨hdefault, hinvalid⟩ | ⟨hset, htype, hzero⟩ | ⟨t, hk, ht, hres⟩
  · exact .inl hnone
  · rw [hold]
    exact .inr (hs.results.stored id info hinfo)
  · rw [hdefault] at hinvalid ⊢
    refine .inr ((hs.defaults id info hinfo).resolve_right fun hn => ?_)
    rw [hn.1] at hinvalid
    exact absurd hinvalid (by decide)
  · rw [hset]
    exact .inr (.inr ⟨x, hx, hid, .inl (hs.sets x hx y hy (hid.trans hyid.symm) htype
      (hypath.trans hzero))⟩)
  · rw [← hypath] at hk ht
    have hverdict : v = SrxResult.undefined.code ∨ v = t.verdict h.server.rpki.lookup := by
      rcases hres with hverdict | ⟨hstored, -⟩
      · exact .inr hverdict
      · rw [hstored]
        exact hs.paths _ t hk ht
    exact .inr (hverdict.imp_right fun hverdict => ⟨y, hy, hyid, .inr ⟨t, hk, ht, hverdict⟩⟩)

theorem paths_written {lookup : UInt32 → UInt32 → UInt8 → AspaResult} {cache cache' : AspathCache}
    {pathId : UInt32} (hw : PathWritten lookup cache pathId cache')
    (hpaths : ∀ k t, k ≠ 0 → cache k = some t →
      t.aspaResult = SrxResult.undefined.code ∨ t.aspaResult = t.verdict lookup) :
    ∀ k t, k ≠ 0 → cache' k = some t →
      t.aspaResult = SrxResult.undefined.code ∨ t.aspaResult = t.verdict lookup := by
  intro k t hk ht
  rcases hw with rfl | ⟨old, now, -, hold, rfl⟩
  · exact hpaths k t hk ht
  · by_cases hkey : k = pathId
    · subst hkey
      rw [Function.update_self] at ht
      obtain rfl := Option.some.inj ht
      exact .inr rfl
    · rw [Function.update_of_ne hkey] at ht
      exact hpaths k t hk ht

theorem work_sound (hs : Sound own h) (now : Nat) : Sound own (h.step (.work now)) := by
  show Sound own ⟨h.server.step (.work now), h.received⟩
  unfold ServerState.step
  cases hitems : h.server.cmdQueue with
  | nil => exact hs
  | cons item rest =>
    dsimp only
    obtain ⟨x, hx, hxid, hxtype⟩ := hs.queue item (hitems ▸ List.mem_cons_self)
    have hrest : ∀ i ∈ rest, ∃ x ∈ h.received, x.1.updateID = i.updateID ∧ x.1.asType = i.asType :=
      fun i hi => hs.queue i (hitems ▸ List.mem_cons_of_mem _ hi)
    -- the worker sees the state without the command
    have hs' : Sound own ⟨{ h.server with cmdQueue := rest }, h.received⟩ :=
      ⟨⟨hs.results.stored, hs.results.reported⟩, hs.paths, hs.requested, hs.defaults, hrest, hs.sets⟩
    rcases work_cases (s := { h.server with cmdQueue := rest }) item now with
      ⟨-, hsame⟩ | ⟨info, hinfo, hcache, hrpki, hqueue, -, hupdates, reports, hreports, hreport⟩
    · rw [hsame]
      exact hs'
    · obtain ⟨hwritten, hfound⟩ := workPart_cases (s := { h.server with cmdQueue := rest }) item
        info now
      rw [← hcache] at hwritten
      rw [← hxtype] at hfound
      have hv := resultFound_legit hs' hinfo hx hxid hfound
      generalize processUpdateValidation { h.server with cmdQueue := rest } item now = s' at *
      have hmono {id : UInt32} {w : UInt8}
          (hw : Legit own ⟨{ h.server with cmdQueue := rest }, h.received⟩ id w) :
          Legit own ⟨s', h.received⟩ id w :=
        Legit.mono hw (fun _ hx => hx) hrpki (grown_written hwritten)
      refine ⟨⟨fun id new hnew => ?_, fun rep hrep => ?_⟩, ?_, fun id new hnew => ?_,
        fun id new hnew => ?_, ?_, hs.sets⟩
      · obtain ⟨old, hold, -, -, hres⟩ := hupdates id new hnew
        have hlegit := hs'.results.stored id old hold
        rw [hres]
        split
        · next hid =>
          subst hid
          exact hmono (legit_useResult hlegit hv)
        · exact hmono hlegit
      · change rep ∈ s'.reports at hrep
        rw [hreports] at hrep
        rcases List.mem_append.mp hrep with hrep | hrep
        · exact hmono (hs'.results.reported rep hrep)
        · obtain ⟨hid, hres⟩ := hreport rep hrep
          rw [hid, hres]
          exact hmono (legit_useResult (hs'.results.stored _ info hinfo) hv)
      · show ∀ k t, k ≠ 0 → s'.aspathCache k = some t → _ ∨ _ = t.verdict s'.rpki.lookup
        rw [hrpki]
        exact paths_written hwritten hs.paths
      · obtain ⟨old, hold, hpath, -, -⟩ := hupdates id new hnew
        rw [hpath]
        exact hs'.requested id old hold
      · obtain ⟨old, hold, hpath, hdefault, -⟩ := hupdates id new hnew
        rw [hpath, hdefault]
        exact (hs'.defaults id old hold).imp_left hmono
      · show ∀ i ∈ s'.cmdQueue, _
        rw [hqueue]
        exact hrest

end DefaultLemmas

end SrxSuite.Server

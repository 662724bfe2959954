import SrxSuite.Server.Independence

/-!
# Default results stay with their requests

The default result of a request can reach another update through the record of their path, and
another request for the same update through the entry of the update cache.

Results:
1. `defaults_kept_apart`: as long as the record and the entry that a request takes over hold nothing
   foreign to it, every result of an update, stored or reported, is the default of its own request or
   the verdict on its own path.
2. `default_leaks`: the default of one request becomes the result of another update.
-/

namespace SrxSuite.Server

open Aspa Runs

/-! ## What is claimed -/

/-- A result that the update of a request may have: none yet, the default of this request, the
verdict for its own data, or that the elements of its set are not verifiable. -/
def OwnValue (lookup : UInt32 → UInt32 → UInt8 → AspaResult) (r : VerifyRequest) (v : UInt8) :
    Prop :=
  v = SrxResult.undefined.code ∨ v = r.aspaDefRes ∨ v = r.verdict lookup ∨
    (v = SrxResult.unverifiable.code ∧ r.asType = .asSet)

/-- What is stored for the update of a request is its own. -/
def StoredOwn (h : History) : Prop :=
  ∀ x ∈ h.received, ∀ info, getUpdateResult h.server.updateCache x.1.updateID = some info →
    OwnValue h.server.rpki.lookup x.1 info.srxRes.aspaResult

/-- A report of a step is its receivers' own. A request is answered for its update; the worker
reports to all that have asked for the update. -/
def ReportOwn (h : History) (rep : ValidationResult) : ServerOp → Prop
  | .request r _ _ =>
    rep.updateID = r.updateID ∧ OwnValue h.server.rpki.lookup r rep.valResult.aspaResult
  | .work _ => ∀ x ∈ h.received, x.1.updateID = rep.updateID →
      OwnValue h.server.rpki.lookup x.1 rep.valResult.aspaResult

/-- What a step reports is its receivers' own. -/
def ReportsOwn (h : History) (op : ServerOp) : Prop :=
  ∃ new, (h.step op).server.reports = h.server.reports ++ new ∧ ∀ rep ∈ new, ReportOwn h rep op

/-! ## When it holds -/

/-- What the update cache says about the update of a request. -/
def ServerState.knownInfo (s : ServerState) (r : VerifyRequest) : UpdateResultInfo :=
  (getUpdateResult s.updateCache r.updateID).getD resultNotFound

/-- Nothing foreign comes to the update of a request. -/
structure NothingForeign (s : ServerState) (received : List (VerifyRequest × Locals))
    (r : VerifyRequest) (locals : Locals) : Prop where
  /-- The path is added without a result or with its verdict, and its verdict is the request's. -/
  added : ∀ t, addedPath s r locals = some t → r.pathId locals ≠ 0 →
    (t.aspaResult = SrxResult.undefined.code ∨ t.aspaResult = t.verdict s.rpki.lookup) ∧
      t.verdict s.rpki.lookup = r.verdict s.rpki.lookup
  /-- The path that is found has the request's verdict. -/
  found : (s.knownInfo r).pathId = 0 → r.pathId locals ≠ 0 →
    ∀ t, s.aspathCache (r.pathId locals) = some t →
      t.verdict s.rpki.lookup = r.verdict s.rpki.lookup
  /-- The earlier requests for the update say the same about its path. -/
  again : ∀ x ∈ received, x.1.updateID = r.updateID →
    x.1.verdict s.rpki.lookup = r.verdict s.rpki.lookup ∧
      (x.1.asType = .asSet ↔ r.asType = .asSet)
  /-- An update without a path identifier came with a default that this request may have. -/
  default : ∀ info, getUpdateResult s.updateCache r.updateID = some info → info.pathId = 0 →
    OwnValue s.rpki.lookup r info.defaultRes.result.aspaResult

/-- The condition on a step. -/
def KeepsApart (h : History) : ServerOp → Prop
  | .request r locals _ => NothingForeign h.server h.received r locals
  | .work _ => True

namespace KeptApartLemmas

open RequestLemmas DefaultLemmas IndependenceLemmas

variable {h : History} {s : ServerState} {r : VerifyRequest} {locals : Locals} {id : UInt32}
  {v : UInt8} {info : UpdateResultInfo} {x : VerifyRequest × Locals}

/-! ## What a request takes over -/

/-- A request whose path identifier is not 0 has a path, which it adds if the cache has none. -/
theorem addedPath_of_miss (hzero : (s.knownInfo r).pathId = 0) (hk : r.pathId locals ≠ 0)
    (hnone : s.aspathCache (r.pathId locals) = none) :
    ∃ t, addedPath s r locals = some t ∧ t.aspaResult =
      missDefault r (s.knownInfo r) (getUpdateResult s.updateCache r.updateID).isNone := by
  have hpath : r.path ≠ [] := fun hnil => hk (pathId_nil hnil locals)
  have hhops : r.numberHops.toUInt32 ≠ 0 := by
    intro hhops
    have hlen := numberHops_toNat r
    rw [← UInt16.toNat_toUInt32, hhops] at hlen
    exact hpath (List.length_eq_zero_iff.mp hlen.symm)
  unfold addedPath VerifyRequest.pathEntry newAspathListEntry
  dsimp only
  rw [if_neg hhops, hnone, if_pos ⟨hzero, rfl⟩, Option.map_some]
  exact ⟨_, rfl, rfl⟩

/-- Where the ASPA part of a request takes the result from: the update has a path identifier, the
path is found, or it is not found and the default is taken. -/
inductive TakenFrom (s : ServerState) (r : VerifyRequest) (locals : Locals) : Prop
  | update (old : UpdateResultInfo)
      (known : getUpdateResult s.updateCache r.updateID = some old) (path : old.pathId ≠ 0)
      (answer : (requestPart s r locals).aspaResult = old.srxRes.aspaResult)
      (taken : ∀ v, AspaPart.taken (requestPart s r locals) v = v)
      (cache : addedPath s r locals = none)
  | path (t : PathListCacheTable) (zero : (s.knownInfo r).pathId = 0)
      (nonzero : r.pathId locals ≠ 0) (record : s.aspathCache (r.pathId locals) = some t)
      (answer : (requestPart s r locals).aspaResult = t.aspaResult)
      (taken : ∀ v, AspaPart.taken (requestPart s r locals) v = v ∨
        (t.aspaResult ≠ SrxResult.undefined.code ∧
          AspaPart.taken (requestPart s r locals) v = useResult t.aspaResult v))
      (default : (requestPart s r locals).defResInfo = (s.knownInfo r).defaultRes)
      (cache : addedPath s r locals = none)
  | default (zero : (s.knownInfo r).pathId = 0) (misses : Misses s r locals)
      (answer : (requestPart s r locals).aspaResult =
        missDefault r (s.knownInfo r) (getUpdateResult s.updateCache r.updateID).isNone)
      (taken : ∀ v, AspaPart.taken (requestPart s r locals) v = v)
      (default : (requestPart s r locals).defResInfo.result.aspaResult =
        missDefault r (s.knownInfo r) (getUpdateResult s.updateCache r.updateID).isNone)

theorem takenFrom (s : ServerState) (r : VerifyRequest) (locals : Locals) :
    TakenFrom s r locals := by
  by_cases hzero : (s.knownInfo r).pathId = 0
  · by_cases hmiss : Misses s r locals
    · obtain ⟨-, hres, hdefault, hnone, -⟩ := aspaPart_miss hzero hmiss
        (getUpdateResult s.updateCache r.updateID).isNone
      refine .default hzero hmiss hres (fun v => ?_) hdefault
      unfold AspaPart.taken requestPart
      unfold ServerState.knownInfo at hnone
      rw [hnone]
    · have hk : r.pathId locals ≠ 0 := fun hk => hmiss (.inl hk)
      obtain ⟨t, ht⟩ := Option.ne_none_iff_exists'.mp fun hn => hmiss (.inr hn)
      have hpart : requestPart s r locals = _ := aspaPart_hit hzero hk ht _
      refine .path t hzero hk ht ?_ (fun v => ?_) ?_ ?_
      · rw [hpart]
      · rw [hpart]
        unfold AspaPart.taken
        dsimp only
        by_cases hundef : t.aspaResult = SrxResult.undefined.code
        · rw [if_pos hundef]
          exact .inl rfl
        · rw [if_neg hundef]
          exact .inr ⟨hundef, rfl⟩
      · rw [hpart]
      · unfold addedPath
        dsimp only
        rw [ht, if_neg fun hn => Bool.noConfusion hn.2]
  · have hpart : requestPart s r locals = _ := aspaPart_kept hzero _
    unfold ServerState.knownInfo at hzero hpart
    cases hknown : getUpdateResult s.updateCache r.updateID with
    | none =>
      rw [hknown] at hzero
      exact absurd rfl hzero
    | some old =>
      rw [hknown] at hzero hpart
      refine .update old hknown hzero (by rw [hpart]; rfl) (fun v => by rw [hpart]; rfl) ?_
      unfold addedPath
      dsimp only
      rw [hknown, if_neg fun hn => hzero hn.1]

/-! ## The invariant -/

/-- Where a result of an update comes from: there is none, it is the default of an update without
a path identifier, or a request for the update accounts for it. -/
def Traced (h : History) (id : UInt32) (info : UpdateResultInfo) (v : UInt8) : Prop :=
  v = SrxResult.undefined.code ∨ (v = info.defaultRes.result.aspaResult ∧ info.pathId = 0) ∨
    ∃ x ∈ h.received, x.1.updateID = id ∧ (v = x.1.verdict h.server.rpki.lookup ∨
      (v = SrxResult.unverifiable.code ∧ x.1.asType = .asSet))

/-- Nothing foreign has come to any update. -/
structure Kept (h : History) : Prop where
  stored : ∀ id info, getUpdateResult h.server.updateCache id = some info →
    Traced h id info info.srxRes.aspaResult
  known : ∀ x ∈ h.received, (getUpdateResult h.server.updateCache x.1.updateID).isSome
  requested : ∀ id info, getUpdateResult h.server.updateCache id = some info →
    ∃ x ∈ h.received, x.1.updateID = id
  /-- The default of an update without a path identifier may be that of each of its requests. -/
  owned : ∀ x ∈ h.received, ∀ info,
    getUpdateResult h.server.updateCache x.1.updateID = some info → info.pathId = 0 →
      OwnValue h.server.rpki.lookup x.1 info.defaultRes.result.aspaResult
  /-- A default INVALID of an update with a path identifier is its verdict. -/
  invalid : ∀ id info, getUpdateResult h.server.updateCache id = some info → info.pathId ≠ 0 →
    info.defaultRes.result.aspaResult = SrxResult.invalid.code →
      ∀ x ∈ h.received, x.1.updateID = id →
        SrxResult.invalid.code = x.1.verdict h.server.rpki.lookup
  /-- The record of an update has the verdict of its requests. -/
  records : ∀ id info, getUpdateResult h.server.updateCache id = some info → info.pathId ≠ 0 →
    ∃ t, h.server.aspathCache info.pathId = some t ∧ ∀ x ∈ h.received, x.1.updateID = id →
      t.verdict h.server.rpki.lookup = x.1.verdict h.server.rpki.lookup
  paths : ∀ k t, k ≠ 0 → h.server.aspathCache k = some t →
    t.aspaResult = SrxResult.undefined.code ∨ t.aspaResult = t.verdict h.server.rpki.lookup
  queue : ∀ item ∈ h.server.cmdQueue,
    ∃ x ∈ h.received, x.1.updateID = item.updateID ∧ x.1.asType = item.asType
  same : ∀ x ∈ h.received, ∀ y ∈ h.received, x.1.updateID = y.1.updateID →
    x.1.verdict h.server.rpki.lookup = y.1.verdict h.server.rpki.lookup ∧
      (x.1.asType = .asSet ↔ y.1.asType = .asSet)

theorem Kept.init (minNumberOfClients : UInt8) (minPos : 0 < minNumberOfClients) (keep : UInt16)
    (rpki : RpkiData) : Kept (initHistory minNumberOfClients minPos keep rpki) where
  stored := fun _ _ hinfo => (nomatch hinfo)
  known := fun _ hx => (nomatch hx)
  requested := fun _ _ hinfo => (nomatch hinfo)
  owned := fun _ hx => (nomatch hx)
  invalid := fun _ _ hinfo => (nomatch hinfo)
  records := fun _ _ hinfo => (nomatch hinfo)
  paths := fun _ _ _ ht => (nomatch ht)
  queue := fun _ hitem => (nomatch hitem)
  same := fun _ hx => (nomatch hx)

/-- A value that a request accounts for is every other request's, if they say the same. -/
theorem ownValue_of_traced (hv : Traced h id info v)
    (howned : info.pathId = 0 →
      OwnValue h.server.rpki.lookup r info.defaultRes.result.aspaResult)
    (hsame : ∀ x ∈ h.received, x.1.updateID = id →
      x.1.verdict h.server.rpki.lookup = r.verdict h.server.rpki.lookup ∧
        (x.1.asType = .asSet ↔ r.asType = .asSet)) :
    OwnValue h.server.rpki.lookup r v := by
  rcases hv with hundef | ⟨rfl, hzero⟩ | ⟨x, hx, hid, hverdict | ⟨hset, htype⟩⟩
  · exact .inl hundef
  · exact howned hzero
  · exact .inr (.inr (.inl (hverdict.trans (hsame x hx hid).1)))
  · exact .inr (.inr (.inr ⟨hset, (hsame x hx hid).2.mp htype⟩))

theorem Kept.ownValue (hk : Kept h) (hx : x ∈ h.received)
    (hinfo : getUpdateResult h.server.updateCache x.1.updateID = some info)
    (hv : Traced h x.1.updateID info v) : OwnValue h.server.rpki.lookup x.1 v :=
  ownValue_of_traced hv (hk.owned x hx info hinfo) fun y hy hid => hk.same y hy x hx hid

theorem Kept.storedOwn (hk : Kept h) : StoredOwn h :=
  fun _ hx info hinfo => hk.ownValue hx hinfo (hk.stored _ info hinfo)

theorem traced_useResult {old : UInt8} (hold : Traced h id info old)
    (hv : v = SrxResult.doNotUse.code ∨ Traced h id info v) :
    Traced h id info (useResult v old) := by
  unfold useResult
  split
  · next hne => exact hv.resolve_left hne
  · exact hold

/-! ## Requests -/

theorem Traced.request (hv : Traced h id info v) (r : VerifyRequest) (locals : Locals) (now : Nat) :
    Traced (h.step (.request r locals now)) id info v := by
  rcases hv with hundef | hdefault | ⟨x, hx, hid, hv⟩
  · exact .inl hundef
  · exact .inr (.inl hdefault)
  · exact .inr (.inr ⟨x, List.mem_append_left _ hx, hid, hv⟩)

theorem traced_verdict (r : VerifyRequest) (locals : Locals) (now : Nat)
    (hv : v = r.verdict h.server.rpki.lookup) :
    Traced (h.step (.request r locals now)) r.updateID info v :=
  .inr (.inr ⟨(r, locals), mem_received_request h r locals now, rfl, .inl hv⟩)

theorem received_request {now : Nat} (hx : x ∈ (h.step (.request r locals now)).received) :
    x ∈ h.received ∨ x = (r, locals) :=
  (List.mem_append.mp hx).imp_right List.mem_singleton.mp

/-- The result of the record that a request finds is its verdict, as soon as there is one. -/
theorem found_verdict (hk : Kept h) (hop : NothingForeign h.server h.received r locals)
    {t : PathListCacheTable} (hzero : (h.server.knownInfo r).pathId = 0)
    (hnonzero : r.pathId locals ≠ 0) (ht : h.server.aspathCache (r.pathId locals) = some t)
    (hdef : t.aspaResult ≠ SrxResult.undefined.code) :
    t.aspaResult = r.verdict h.server.rpki.lookup :=
  ((hk.paths _ t hnonzero ht).resolve_left hdef).trans (hop.found hzero hnonzero t ht)

/-- A request answers with a value of its own. -/
theorem answer_own (hk : Kept h) (hop : NothingForeign h.server h.received r locals) :
    OwnValue h.server.rpki.lookup r (requestPart h.server r locals).aspaResult := by
  rcases takenFrom h.server r locals with ⟨old, hknown, hpath, hanswer, -, -⟩ |
    ⟨t, hzero, hnonzero, ht, hanswer, -, -, -⟩ | ⟨hzero, -, hanswer, -, -⟩
  · rw [hanswer]
    exact ownValue_of_traced (hk.stored _ old hknown) (hop.default old hknown) hop.again
  · rw [hanswer]
    by_cases hundef : t.aspaResult = SrxResult.undefined.code
    · exact .inl hundef
    · exact .inr (.inr (.inl (found_verdict hk hop hzero hnonzero ht hundef)))
  · rw [hanswer]
    unfold ServerState.knownInfo at hzero ⊢
    unfold missDefault
    cases hknown : getUpdateResult h.server.updateCache r.updateID with
    | none => exact .inr (.inl rfl)
    | some old =>
      rw [hknown] at hzero
      exact hop.default old hknown hzero

/-- What a request writes to its update is accounted for. -/
theorem taken_traced (hk : Kept h) (hop : NothingForeign h.server h.received r locals) (now : Nat)
    (hold : Traced (h.step (.request r locals now)) r.updateID info v) :
    Traced (h.step (.request r locals now)) r.updateID info
      (AspaPart.taken (requestPart h.server r locals) v) := by
  rcases takenFrom h.server r locals with ⟨-, -, -, -, htaken, -⟩ |
    ⟨t, hzero, hnonzero, ht, -, htaken, -, -⟩ | ⟨-, -, -, htaken, -⟩
  · rw [htaken]
    exact hold
  · rcases htaken v with hkept | ⟨hdef, hres⟩
    · rw [hkept]
      exact hold
    · rw [hres]
      exact traced_useResult hold
        (.inr (traced_verdict r locals now (found_verdict hk hop hzero hnonzero ht hdef)))
  · rw [htaken]
    exact hold

/-- The requests for an update after a request: for a new update it is the only one. -/
theorem only_request (hk : Kept h) {now : Nat}
    (hnone : getUpdateResult h.server.updateCache r.updateID = none)
    (hx : x ∈ (h.step (.request r locals now)).received) (hid : x.1.updateID = r.updateID) :
    x = (r, locals) := by
  rcases received_request hx with hx | rfl
  · have hknown := hk.known x hx
    rw [hid, hnone] at hknown
    cases hknown
  · rfl

/-- A new update with a path identifier: the default is the request's own or there is none, and the
record is found or added. -/
theorem new_record (hop : NothingForeign h.server h.received r locals) (now : Nat)
    (hnone : getUpdateResult h.server.updateCache r.updateID = none)
    (hnonzero : r.pathId locals ≠ 0) :
    ((requestPart h.server r locals).defResInfo.result.aspaResult = SrxResult.invalid.code →
        SrxResult.invalid.code = r.verdict h.server.rpki.lookup) ∧
      ∃ t, (processValidationRequest h.server r locals now).aspathCache (r.pathId locals) = some t ∧
        t.verdict h.server.rpki.lookup = r.verdict h.server.rpki.lookup := by
  have hinfo : h.server.knownInfo r = resultNotFound := by
    unfold ServerState.knownInfo
    rw [hnone]
    rfl
  rw [request_cache]
  rcases takenFrom h.server r locals with ⟨old, hknown, -, -, -, -⟩ |
    ⟨t, hzero, -, ht, -, -, hdefault, hcache⟩ | ⟨hzero, hmiss, -, -, hdefault⟩
  · rw [hnone] at hknown
    cases hknown
  · refine ⟨fun hinvalid => ?_, t, by rw [hcache]; exact ht, hop.found hzero hnonzero t ht⟩
    rw [hdefault, hinfo] at hinvalid
    exact absurd hinvalid (by decide)
  · obtain ⟨t, hadd, hres⟩ := addedPath_of_miss hzero hnonzero (hmiss.resolve_left hnonzero)
    obtain ⟨hvalue, hverdict⟩ := hop.added t hadd hnonzero
    rw [hdefault, ← hres, hadd]
    refine ⟨fun hinvalid => ?_, t, Function.update_self _ _ _, hverdict⟩
    rw [hinvalid] at hvalue
    exact (hvalue.resolve_left (by decide)).trans hverdict

/-- The requests for another update are the earlier ones. -/
theorem received_other {now : Nat} (hother : id ≠ r.updateID)
    (hx : x ∈ (h.step (.request r locals now)).received) (hid : x.1.updateID = id) : x ∈ h.received := by
  rcases received_request hx with hx | rfl
  · exact hx
  · exact absurd hid.symm hother

/-- A verdict of the earlier requests for a known update is also that of the new one. -/
theorem verdict_again (hk : Kept h) (hop : NothingForeign h.server h.received r locals) {now : Nat}
    {old : UpdateResultInfo} (hold : getUpdateResult h.server.updateCache r.updateID = some old)
    (hverdict : ∀ x ∈ h.received, x.1.updateID = r.updateID → v = x.1.verdict h.server.rpki.lookup)
    (hx : x ∈ (h.step (.request r locals now)).received) (hid : x.1.updateID = r.updateID) :
    v = x.1.verdict h.server.rpki.lookup := by
  obtain ⟨y, hy, hyid⟩ := hk.requested _ old hold
  rcases received_request hx with hx | rfl
  · exact hverdict x hx hid
  · exact (hverdict y hy hyid).trans (hop.again y hy hyid).1

theorem stored_request (hk : Kept h) (now : Nat) (hop : NothingForeign h.server h.received r locals)
    (hinfo : getUpdateResult (h.step (.request r locals now)).server.updateCache id = some info) :
    Traced (h.step (.request r locals now)) id info info.srxRes.aspaResult := by
  rcases request_info now hinfo with ⟨-, hsame⟩ | ⟨rfl, -, -, -, hres⟩ |
    ⟨rfl, old, hold, hpath, hdefault, hres⟩
  · exact Traced.request (hk.stored id info hsame) _ _ _
  · rw [hres]
    exact taken_traced hk hop now (.inl rfl)
  · rw [hres]
    refine taken_traced hk hop now (Traced.request ?_ _ _ _)
    have htraced := hk.stored _ old hold
    unfold Traced at htraced ⊢
    rw [hpath, hdefault]
    exact htraced

/-- The default of an update without a path identifier is one that each of its requests may have. -/
theorem owned_request (hk : Kept h) (now : Nat) (hop : NothingForeign h.server h.received r locals)
    (hx : x ∈ (h.step (.request r locals now)).received)
    (hinfo : getUpdateResult (h.step (.request r locals now)).server.updateCache x.1.updateID = some info)
    (hpath : info.pathId = 0) :
    OwnValue h.server.rpki.lookup x.1 info.defaultRes.result.aspaResult := by
  rcases request_info now hinfo with ⟨hother, hsame⟩ | ⟨hid, hnone, hnew, hdefault, -⟩ |
    ⟨hid, old, hold, holdPath, hdefault, -⟩
  · exact hk.owned x (received_other hother hx rfl) info hsame hpath
  · rw [hid] at hnone
    obtain rfl := only_request hk hnone hx hid
    have hzero : r.pathId locals = 0 := (hnew.trans (requestPart_pathId hnone)).symm.trans hpath
    rw [hdefault]
    rcases takenFrom h.server r locals with ⟨old, hknown, -, -, -, -⟩ |
      ⟨-, -, hnonzero, -, -, -, -, -⟩ | ⟨-, -, -, -, hmiss⟩
    · rw [hnone] at hknown
      cases hknown
    · exact absurd hzero hnonzero
    · rw [hmiss, hnone]
      exact .inr (.inl rfl)
  · rw [holdPath] at hpath
    rw [hdefault]
    rcases received_request hx with hx | rfl
    · exact hk.owned x hx old hold hpath
    · exact hop.default old hold hpath

/-- A default INVALID of an update with a path identifier is the verdict of its requests. -/
theorem invalid_request (hk : Kept h) (now : Nat) (hop : NothingForeign h.server h.received r locals)
    (hinfo : getUpdateResult (h.step (.request r locals now)).server.updateCache id = some info)
    (hne : info.pathId ≠ 0) (hinvalid : info.defaultRes.result.aspaResult = SrxResult.invalid.code)
    (hx : x ∈ (h.step (.request r locals now)).received) (hid : x.1.updateID = id) :
    SrxResult.invalid.code = x.1.verdict h.server.rpki.lookup := by
  rcases request_info now hinfo with ⟨hother, hsame⟩ | ⟨rfl, hnone, hnew, hdefault, -⟩ |
    ⟨rfl, old, hold, holdPath, hdefault, -⟩
  · exact hk.invalid id info hsame hne hinvalid x (received_other hother hx hid) hid
  · obtain rfl := only_request hk hnone hx hid
    rw [hnew, requestPart_pathId hnone] at hne
    exact (new_record hop now hnone hne).1 (hdefault ▸ hinvalid)
  · rw [holdPath] at hne
    rw [hdefault] at hinvalid
    exact verdict_again hk hop hold (hk.invalid _ old hold hne hinvalid) hx hid

/-- The record of an update has the verdict of its requests. -/
theorem record_request (hk : Kept h) (now : Nat) (hop : NothingForeign h.server h.received r locals)
    (hinfo : getUpdateResult (h.step (.request r locals now)).server.updateCache id = some info)
    (hne : info.pathId ≠ 0) :
    ∃ t, (h.step (.request r locals now)).server.aspathCache info.pathId = some t ∧
      ∀ x ∈ (h.step (.request r locals now)).received, x.1.updateID = id →
        t.verdict h.server.rpki.lookup = x.1.verdict h.server.rpki.lookup := by
  have hgrown (old : UpdateResultInfo) (hold : getUpdateResult h.server.updateCache id = some old)
      (hne : old.pathId ≠ 0) :
      ∃ t, (processValidationRequest h.server r locals now).aspathCache old.pathId = some t ∧
        ∀ x ∈ h.received, x.1.updateID = id →
          t.verdict h.server.rpki.lookup = x.1.verdict h.server.rpki.lookup := by
    obtain ⟨t, ht, hverdict⟩ := hk.records id old hold hne
    obtain ⟨time, w, ht'⟩ := grown_request h.server r locals now _ t ht
    exact ⟨_, ht', hverdict⟩
  rcases request_info now hinfo with ⟨hother, hsame⟩ | ⟨rfl, hnone, hnew, -, -⟩ |
    ⟨rfl, old, hold, holdPath, -, -⟩
  · obtain ⟨t, ht, hverdict⟩ := hgrown info hsame hne
    exact ⟨t, ht, fun x hx hid => hverdict x (received_other hother hx hid) hid⟩
  · rw [hnew, requestPart_pathId hnone] at hne ⊢
    obtain ⟨t, ht, hverdict⟩ := (new_record hop now hnone hne).2
    refine ⟨t, ht, fun x hx hid => ?_⟩
    obtain rfl := only_request hk hnone hx hid
    exact hverdict
  · rw [holdPath] at hne ⊢
    obtain ⟨t, ht, hverdict⟩ := hgrown old hold hne
    exact ⟨t, ht, fun x hx hid => verdict_again hk hop hold hverdict hx hid⟩

theorem paths_request (hk : Kept h) (now : Nat) (hop : NothingForeign h.server h.received r locals)
    {k : UInt32} {t : PathListCacheTable} (hne : k ≠ 0)
    (ht : (processValidationRequest h.server r locals now).aspathCache k = some t) :
    t.aspaResult = SrxResult.undefined.code ∨ t.aspaResult = t.verdict h.server.rpki.lookup := by
  rw [request_cache] at ht
  split at ht
  · exact hk.paths k t hne ht
  · next added hadd =>
    by_cases hkey : k = r.pathId locals
    · subst hkey
      rw [Function.update_self] at ht
      obtain rfl := Option.some.inj ht
      exact (hop.added added hadd hne).1
    · rw [Function.update_of_ne hkey] at ht
      exact hk.paths k t hne ht

theorem known_request (hk : Kept h) (now : Nat) (hx : x ∈ (h.step (.request r locals now)).received) :
    (getUpdateResult (processValidationRequest h.server r locals now).updateCache x.1.updateID).isSome := by
  rw [request_eq]
  split
  · rfl
  · next hother => exact hk.known x (received_other hother hx rfl)

theorem kept_request (hk : Kept h) (now : Nat)
    (hop : NothingForeign h.server h.received r locals) :
    Kept (h.step (.request r locals now)) where
  stored := fun _ _ hinfo => stored_request (h := h) hk now hop hinfo
  known := fun _ hx => known_request (h := h) hk now hx
  requested := by
    intro id info hinfo
    rcases request_info now hinfo with ⟨-, hsame⟩ | ⟨rfl, -⟩ | ⟨rfl, -⟩
    · obtain ⟨x, hx, hid⟩ := hk.requested id info hsame
      exact ⟨x, List.mem_append_left _ hx, hid⟩
    · exact ⟨(r, locals), mem_received_request h r locals now, rfl⟩
    · exact ⟨(r, locals), mem_received_request h r locals now, rfl⟩
  owned := fun _ hx _ hinfo hpath => owned_request (h := h) hk now hop hx hinfo hpath
  invalid := fun _ _ hinfo hne hinvalid _ hx hid =>
    invalid_request (h := h) hk now hop hinfo hne hinvalid hx hid
  records := fun _ _ hinfo hne => record_request (h := h) hk now hop hinfo hne
  paths := fun _ _ hne ht => paths_request (h := h) hk now hop hne ht
  queue := by
    intro item hitem
    rcases (request_output h.server r locals now).2 item hitem with hitem | ⟨hid, htype⟩
    · obtain ⟨x, hx, hxid, hxtype⟩ := hk.queue item hitem
      exact ⟨x, List.mem_append_left _ hx, hxid, hxtype⟩
    · exact ⟨(r, locals), mem_received_request h r locals now, hid.symm, htype.symm⟩
  same := by
    intro x hx y hy hid
    rcases received_request hx with hx | rfl
    · rcases received_request hy with hy | rfl
      · exact hk.same x hx y hy hid
      · exact hop.again x hx hid
    · rcases received_request hy with hy | rfl
      · exact (hop.again y hy hid.symm).imp Eq.symm Iff.symm
      · exact ⟨rfl, Iff.rfl⟩

/-! ## The worker -/

/-- What the worker finds is accounted for. -/
theorem resultFound_traced (hk : Kept h)
    (hinfo : getUpdateResult h.server.updateCache id = some info) (hx : x ∈ h.received)
    (hid : x.1.updateID = id)
    (hv : ResultFound h.server.rpki.lookup h.server.aspathCache info x.1.asType v) :
    v = SrxResult.doNotUse.code ∨ Traced h id info v := by
  rcases hv with hnone | hold | ⟨hdefault, hinvalid⟩ | ⟨hset, htype, -⟩ | ⟨t, hne, ht, hres⟩
  · exact .inl hnone
  · rw [hold]
    exact .inr (hk.stored id info hinfo)
  · right
    by_cases hzero : info.pathId = 0
    · exact .inr (.inl ⟨hdefault, hzero⟩)
    · rw [hinvalid] at hdefault ⊢
      exact .inr (.inr ⟨x, hx, hid, .inl (hk.invalid id info hinfo hzero hdefault.symm x hx hid)⟩)
  · exact .inr (.inr (.inr ⟨x, hx, hid, .inr ⟨hset, htype⟩⟩))
  · obtain ⟨t', ht', hverdict⟩ := hk.records id info hinfo hne
    obtain rfl := Option.some.inj (ht.symm.trans ht')
    have hfound : v = t.verdict h.server.rpki.lookup := by
      rcases hres with hres | ⟨hres, hdef⟩
      · exact hres
      · rw [hres] at hdef ⊢
        exact (hk.paths _ t hne ht).resolve_left hdef
    exact .inr (.inr (.inr ⟨x, hx, hid, .inl (hfound.trans (hverdict x hx hid))⟩))

theorem Traced.work (hv : Traced h id info v) {s' : ServerState}
    (hrpki : s'.rpki = h.server.rpki) : Traced ⟨s', h.received⟩ id info v := by
  unfold Traced
  rw [hrpki]
  exact hv

/-- The updates stay apart when a path is written and the updates take results that are accounted
for. -/
theorem Kept.written (hk : Kept h) {s' : ServerState} {pathId : UInt32}
    (hwritten : PathWritten h.server.rpki.lookup h.server.aspathCache pathId s'.aspathCache)
    (hrpki : s'.rpki = h.server.rpki)
    (hknown : ∀ id, (getUpdateResult s'.updateCache id).isSome =
      (getUpdateResult h.server.updateCache id).isSome)
    (hupdates : ∀ id new, getUpdateResult s'.updateCache id = some new →
      ∃ old, getUpdateResult h.server.updateCache id = some old ∧ new.pathId = old.pathId ∧
        new.defaultRes = old.defaultRes ∧ Traced h id old new.srxRes.aspaResult)
    (hqueue : ∀ item ∈ s'.cmdQueue,
      ∃ x ∈ h.received, x.1.updateID = item.updateID ∧ x.1.asType = item.asType) :
    Kept ⟨s', h.received⟩ := by
  refine ⟨fun id new hnew => ?_, fun x hx => ?_, fun id new hnew => ?_,
    fun x hx new hnew hzero => ?_, fun id new hnew hne hinvalid => ?_, fun id new hnew hne => ?_,
    ?_, hqueue, ?_⟩
  · obtain ⟨old, hold, hpath, hdefault, htraced⟩ := hupdates id new hnew
    refine Traced.work ?_ hrpki
    unfold Traced at htraced ⊢
    rw [hpath, hdefault]
    exact htraced
  · show (getUpdateResult s'.updateCache x.1.updateID).isSome
    rw [hknown]
    exact hk.known x hx
  · obtain ⟨old, hold, -⟩ := hupdates id new hnew
    exact hk.requested id old hold
  · obtain ⟨old, hold, hpath, hdefault, -⟩ := hupdates _ new hnew
    show OwnValue s'.rpki.lookup x.1 new.defaultRes.result.aspaResult
    rw [hrpki, hdefault]
    exact hk.owned x hx old hold (hpath ▸ hzero)
  · obtain ⟨old, hold, hpath, hdefault, -⟩ := hupdates id new hnew
    show ∀ x ∈ h.received, x.1.updateID = id → _ = x.1.verdict s'.rpki.lookup
    rw [hrpki]
    exact hk.invalid id old hold (hpath ▸ hne) (hdefault ▸ hinvalid)
  · obtain ⟨old, hold, hpath, -, -⟩ := hupdates id new hnew
    rw [hpath] at hne ⊢
    obtain ⟨t, ht, hverdict⟩ := hk.records id old hold hne
    obtain ⟨time, w, ht'⟩ := grown_written hwritten _ t ht
    refine ⟨_, ht', ?_⟩
    show ∀ x ∈ h.received, x.1.updateID = id →
      t.verdict s'.rpki.lookup = x.1.verdict s'.rpki.lookup
    rw [hrpki]
    exact hverdict
  · show ∀ k t, k ≠ 0 → s'.aspathCache k = some t → _ ∨ _ = t.verdict s'.rpki.lookup
    rw [hrpki]
    exact paths_written hwritten hk.paths
  · show ∀ x ∈ h.received, ∀ y ∈ h.received, x.1.updateID = y.1.updateID →
      x.1.verdict s'.rpki.lookup = y.1.verdict s'.rpki.lookup ∧ _
    rw [hrpki]
    exact hk.same

/-- A command keeps the updates apart and reports what is their own. -/
theorem kept_work (hk : Kept h) (now : Nat) :
    Kept (h.step (.work now)) ∧ ReportsOwn h (.work now) := by
  show Kept ⟨h.server.step (.work now), h.received⟩ ∧
    ∃ new, (h.server.step (.work now)).reports = h.server.reports ++ new ∧ _
  unfold ServerState.step
  cases hitems : h.server.cmdQueue with
  | nil => exact ⟨hk, [], (List.append_nil _).symm, fun _ hrep => (nomatch hrep)⟩
  | cons item rest =>
    dsimp only
    obtain ⟨x, hx, hxid, hxtype⟩ := hk.queue item (hitems ▸ List.mem_cons_self)
    have hrest : ∀ i ∈ rest, ∃ x ∈ h.received, x.1.updateID = i.updateID ∧ x.1.asType = i.asType :=
      fun i hi => hk.queue i (hitems ▸ List.mem_cons_of_mem _ hi)
    rcases work_cases (s := { h.server with cmdQueue := rest }) item now with
      ⟨-, hsame⟩ | ⟨info, hinfo, hcache, hrpki, hqueue, hknown, hupdates, new, hreports, hreport⟩
    · rw [hsame]
      exact ⟨⟨hk.stored, hk.known, hk.requested, hk.owned, hk.invalid, hk.records, hk.paths, hrest,
        hk.same⟩, [], (List.append_nil _).symm, fun _ hrep => (nomatch hrep)⟩
    · obtain ⟨hwritten, hfound⟩ := workPart_cases (s := { h.server with cmdQueue := rest }) item
        info now
      rw [← hcache] at hwritten
      rw [← hxtype] at hfound
      have hv := resultFound_traced hk hinfo hx hxid hfound
      refine ⟨hk.written hwritten hrpki hknown (fun id new hnew => ?_) (hqueue ▸ hrest), new, hreports,
        fun rep hrep y hy hid => ?_⟩
      · obtain ⟨old, hold, hpath, hdefault, hres⟩ := hupdates id new hnew
        refine ⟨old, hold, hpath, hdefault, ?_⟩
        rw [hres]
        split
        · next hid =>
          subst hid
          obtain rfl := Option.some.inj (hinfo.symm.trans hold)
          exact traced_useResult (hk.stored _ _ hinfo) hv
        · exact hk.stored id old hold
      · obtain ⟨hrepid, hres⟩ := hreport rep hrep
        rw [hrepid] at hid
        rw [← hid] at hinfo hv
        rw [hres]
        exact hk.ownValue hy hinfo (traced_useResult (hk.stored _ info hinfo) hv)

/-- One step that brings nothing foreign. -/
theorem kept_step (h : History) (op : ServerOp) (hk : Kept h) (hop : KeepsApart h op) :
    Kept (h.step op) ∧ ReportsOwn h op := by
  cases op with
  | request r locals now =>
    obtain ⟨⟨new, hreports, hreport⟩, -⟩ := request_output h.server r locals now
    refine ⟨kept_request hk now hop, new, hreports, fun rep hrep => ?_⟩
    obtain ⟨hid, hres⟩ := hreport rep hrep
    refine ⟨hid, ?_⟩
    rw [hres]
    exact answer_own hk hop
  | work now => exact kept_work hk now

end KeptApartLemmas

open KeptApartLemmas

/-- Whatever requests arrive and whenever the worker runs: as long as no request takes over anything
foreign, every result of an update, stored or reported, is its own. -/
theorem defaults_kept_apart (minNumberOfClients : UInt8) (minPos : 0 < minNumberOfClients)
    (defaultKeepWindow : UInt16) (rpki : RpkiData) (ops : List ServerOp)
    (hops : EachStep History.step KeepsApart
      (initHistory minNumberOfClients minPos defaultKeepWindow rpki) ops) :
    Always History.step StoredOwn
        (initHistory minNumberOfClients minPos defaultKeepWindow rpki) ops ∧
      EachStep History.step ReportsOwn
        (initHistory minNumberOfClients minPos defaultKeepWindow rpki) ops := by
  have hkept := always_of_eachStep (fun h op hk hop => (kept_step h op hk hop).1)
    (Kept.init minNumberOfClients minPos defaultKeepWindow rpki) hops
  constructor
  · intro before after heq
    exact (hkept before after heq).storedOwn
  · intro before op after heq
    exact (kept_step _ op (hkept before (op :: after) heq) (hops before op after heq)).2

/-- The default of the first request becomes the result of the update of the second one, which came
without a result. `validateASPA` yields UNKNOWN for the path. -/
theorem default_leaks :
    ¬ ∀ (minNumberOfClients : UInt8) (minPos : 0 < minNumberOfClients) (defaultKeepWindow : UInt16)
      (rpki : RpkiData) (ops : List ServerOp), Always History.step StoredOwn
        (initHistory minNumberOfClients minPos defaultKeepWindow rpki) ops := by
  intro hall
  let ops : List ServerOp := [.request (pathRequest 1 .customer .invalid) someLocals 0,
    .request (pathRequest 2 .customer .undefined) someLocals 0]
  let last := ops.foldl History.step (initHistory 1 (by decide) 0 noAspaData)
  have hlast : StoredOwn last := hall 1 (by decide) 0 noAspaData ops ops [] rfl
  have hinfo : (getUpdateResult last.server.updateCache 2).map (·.srxRes.aspaResult) =
      some SrxResult.invalid.code := by decide +kernel
  obtain ⟨info, hget, hres⟩ := Option.map_eq_some_iff.mp hinfo
  have hsecond : (pathRequest 2 .customer .undefined, someLocals) ∈ last.received :=
    List.mem_cons_of_mem _ List.mem_cons_self
  have hverdict : (pathRequest 2 .customer .undefined).verdict last.server.rpki.lookup =
      SrxResult.unknown.code := by decide +kernel
  have hown := hlast _ hsecond info hget
  rw [hres] at hown
  rcases hown with hundef | hdefault | hown | ⟨hset, -⟩
  · exact absurd hundef (by decide)
  · exact absurd hdefault (by decide)
  · exact absurd (hown.trans hverdict) (by decide)
  · exact absurd hset (by decide)

/-- Two updates with the same path, validated in turn; then the first one is requested again, with
another default. -/
theorem defaults_kept_apart_shared_path :
    let ops : List ServerOp := [.request (pathRequest 1 .customer .undefined) someLocals 0, .work 1,
      .request (pathRequest 2 .customer .invalid) someLocals 2, .work 3,
      .request (pathRequest 1 .customer .valid) someLocals 4, .work 5]
    let start := initHistory 1 (by decide) 0 noAspaData
    let last := ops.foldl History.step start
    (Always History.step StoredOwn start ops ∧ EachStep History.step ReportsOwn start ops) ∧
      (getUpdateResult last.server.updateCache 2).map (·.srxRes.aspaResult) =
        some SrxResult.unknown.code ∧
      last.server.reports.map (·.updateID) = [1, 1, 2, 2, 1, 1] := by
  intro ops start last
  refine ⟨defaults_kept_apart 1 (by decide) 0 noAspaData ops ?_, by decide +kernel,
    by decide +kernel⟩
  have happart {h : History} {updateID : UInt32} {aspaDefRes : SrxResult} {now : Nat}
      (hadded : (addedPath h.server (pathRequest updateID .customer aspaDefRes) someLocals).all
        (fun t => t.aspaResult == SrxResult.undefined.code &&
          t.verdict h.server.rpki.lookup == SrxResult.unknown.code) = true)
      (hfound : (h.server.aspathCache ((pathRequest updateID .customer aspaDefRes).pathId
        someLocals)).all (·.verdict h.server.rpki.lookup == SrxResult.unknown.code) = true)
      (hown : (pathRequest updateID .customer aspaDefRes).verdict h.server.rpki.lookup =
        SrxResult.unknown.code)
      (hsame : h.received.all (fun x => x.1.verdict h.server.rpki.lookup ==
        SrxResult.unknown.code && x.1.asType == .asSequence) = true)
      (hknown : (getUpdateResult h.server.updateCache updateID).all (·.pathId != 0) = true) :
      KeepsApart h (.request (pathRequest updateID .customer aspaDefRes) someLocals now) := by
    refine ⟨fun t ht _ => ?_, fun _ _ t ht => ?_, fun x hx _ => ?_, fun info hinfo hzero => ?_⟩
    · rw [ht, Option.all_some, Bool.and_eq_true, beq_iff_eq, beq_iff_eq] at hadded
      exact ⟨.inl hadded.1, hadded.2.trans hown.symm⟩
    · rw [ht, Option.all_some, beq_iff_eq] at hfound
      exact hfound.trans hown.symm
    · have hx := List.all_eq_true.mp hsame x hx
      rw [Bool.and_eq_true, beq_iff_eq, beq_iff_eq] at hx
      rw [hx.1, hx.2, hown]
      exact ⟨rfl, Iff.rfl⟩
    · change getUpdateResult h.server.updateCache updateID = some info at hinfo
      rw [hinfo, Option.all_some, bne_iff_ne] at hknown
      exact absurd hzero hknown
  rw [eachStep_cons, eachStep_cons, eachStep_cons, eachStep_cons, eachStep_cons, eachStep_cons]
  exact ⟨happart (by decide +kernel) (by decide +kernel) (by decide +kernel) (by decide +kernel)
      (by decide +kernel), trivial,
    happart (by decide +kernel) (by decide +kernel) (by decide +kernel) (by decide +kernel)
      (by decide +kernel), trivial,
    happart (by decide +kernel) (by decide +kernel) (by decide +kernel) (by decide +kernel)
      (by decide +kernel), trivial, eachStep_nil⟩

end SrxSuite.Server

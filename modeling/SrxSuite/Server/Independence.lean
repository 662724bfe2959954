import SrxSuite.Server.Defaults

/-!
# Results that do not depend on other updates

The identifier of a path is made from its ASes and its segment type, `validateASPA` also reads the
direction and the address family. Two requests that differ in these only share a path of the cache,
and the second one gets the verdict of the first.

Results:
1. `own_verdicts`: as long as requests with the same path agree on what `validateASPA` reads, have
   less than 256 hops and bring no default result of their own, every update has the verdict for its
   own data, whatever other updates were received. CRC-32 is taken to be free of collisions.
2. `verdict_of_other_neighbour`: a path from a provider gets the verdict for a customer.
-/

namespace SrxSuite.Server

open Aspa Runs

/-! ## What is claimed -/

/-- The result of `validateASPA` for the data of the request. -/
def VerifyRequest.verdict (lookup : UInt32 → UInt32 → UInt8 → AspaResult) (r : VerifyRequest) :
    UInt8 :=
  (validateASPA lookup r.path (UInt8.ofNat r.path.length) r.asType (asRelDir r.asRelType)
    (validationAfi r.afi)).code

/-- A path of the cache says what the request says, as far as `validateASPA` reads it. -/
structure Agrees (r : VerifyRequest) (aspl : AsPathEntry) : Prop where
  asPathList : aspl.asPathList = r.path
  asPathLength : aspl.asPathLength.toNat = r.path.length
  asType : aspl.asType = r.asType
  asRelDir : aspl.asRelDir = Server.asRelDir r.asRelType
  afi : validationAfi aspl.afi = validationAfi r.afi

/-- The history with the updates whose ASPA validation the worker has done. -/
structure ValidationHistory extends History where
  validated : List UInt32

/-- One step. -/
def ValidationHistory.step (h : ValidationHistory) (op : ServerOp) : ValidationHistory where
  toHistory := h.toHistory.step op
  validated :=
    match op, h.server.cmdQueue with
    | .work _, item :: _ =>
      if isSet item.flags vrtASPA then item.updateID :: h.validated else h.validated
    | _, _ => h.validated

/-- Before the first request. -/
def initValidationHistory (minNumberOfClients : UInt8) (minPos : 0 < minNumberOfClients)
    (defaultKeepWindow : UInt16) (rpki : RpkiData) : ValidationHistory :=
  ⟨initHistory minNumberOfClients minPos defaultKeepWindow rpki, []⟩

/-- The path that is found for a request agrees with it; the ASPA result of an update, stored or
reported, is the verdict for the data of its own request, as soon as there is one; and there is one
when the worker has validated the update. -/
structure OwnVerdicts (h : ValidationHistory) : Prop where
  agrees : ∀ x ∈ h.received, ∀ aspl,
    (getAspathListFromAspathCache h.server.aspathCache (x.1.pathId x.2) 0).1 = some aspl →
      Agrees x.1 aspl
  stored : ∀ x ∈ h.received, ∀ info,
    getUpdateResult h.server.updateCache x.1.updateID = some info →
      info.srxRes.aspaResult = SrxResult.undefined.code ∨
        info.srxRes.aspaResult = x.1.verdict h.server.rpki.lookup
  reported : ∀ x ∈ h.received, ∀ rep ∈ h.server.reports, rep.updateID = x.1.updateID →
    rep.valResult.aspaResult = SrxResult.undefined.code ∨
      rep.valResult.aspaResult = x.1.verdict h.server.rpki.lookup
  validated : ∀ x ∈ h.received, x.1.updateID ∈ h.validated → x.1.path ≠ [] →
    ∃ info, getUpdateResult h.server.updateCache x.1.updateID = some info ∧
      info.srxRes.aspaResult = x.1.verdict h.server.rpki.lookup

/-! ## When it holds -/

/-- The text that the path identifier of a request is computed from. -/
def VerifyRequest.idText (r : VerifyRequest) (locals : Locals) : List UInt8 :=
  pathText (r.path.take r.numberHops.toUInt8.toNat) (r.readType locals)

/-- The identifiers tell the requests apart: CRC-32 does not collide on the texts of their paths, nor
with the zero that stands for no path, and an update identifier belongs to one path. -/
def Identified (h : ValidationHistory) : ServerOp → Prop
  | .request r locals _ =>
    (r.path ≠ [] → r.pathId locals ≠ 0) ∧
      ∀ x ∈ h.received,
        (r.path ≠ [] → x.1.path ≠ [] → x.1.pathId x.2 = r.pathId locals →
          x.1.idText x.2 = r.idText locals) ∧
        (x.1.updateID = r.updateID → x.1.path = r.path)
  | .work _ => True

/-- Two requests agree on everything `validateASPA` reads besides the ASes. -/
structure SameView (r x : VerifyRequest) : Prop where
  asType : x.asType = r.asType
  asRelDir : Server.asRelDir x.asRelType = Server.asRelDir r.asRelType
  afi : validationAfi x.afi = validationAfi r.afi

/-- The default result a new update comes with is UNDEFINED or the verdict for its own data, unless
its path is found. -/
def OwnDefault (s : ServerState) (r : VerifyRequest) (locals : Locals) : Prop :=
  getUpdateResult s.updateCache r.updateID = none →
    (r.pathId locals = 0 ∨ s.aspathCache (r.pathId locals) = none) →
      r.aspaDefRes = SrxResult.undefined.code ∨ r.aspaDefRes = r.verdict s.rpki.lookup

/-- A request whose path fits into the byte of the path cache, that is read as it was sent, agrees
with the earlier requests for the same update or the same path, and brings no foreign result. -/
structure RequestFits (h : ValidationHistory) (r : VerifyRequest) (locals : Locals) : Prop where
  short : r.path.length < 256
  asType : r.readType locals = r.asType
  asRelDir : Server.asRelDir (r.readRelType locals) = Server.asRelDir r.asRelType
  sameView : ∀ x ∈ h.received,
    x.1.updateID = r.updateID ∨ (r.path ≠ [] ∧ x.1.path = r.path ∧ x.1.asType = r.asType) →
      SameView r x.1
  ownDefault : OwnDefault h.server r locals

/-- The condition on a step. -/
def Fits (h : ValidationHistory) : ServerOp → Prop
  | .request r locals _ => RequestFits h r locals
  | .work _ => True

namespace IndependenceLemmas

open RequestLemmas DefaultLemmas PathCacheLemmas

variable {lookup : UInt32 → UInt32 → UInt8 → AspaResult} {h : ValidationHistory} {r : VerifyRequest}
  {locals : Locals} {x y z : VerifyRequest × Locals}

/-! ## Requests with the same data -/

/-- Two requests have the same data for `validateASPA`. -/
structure SameData (r x : VerifyRequest) : Prop where
  path : x.path = r.path
  view : SameView r x

theorem SameData.refl (r : VerifyRequest) : SameData r r := ⟨rfl, rfl, rfl, rfl⟩

theorem SameData.symm {r x : VerifyRequest} (hd : SameData r x) : SameData x r :=
  ⟨hd.path.symm, hd.view.asType.symm, hd.view.asRelDir.symm, hd.view.afi.symm⟩

theorem SameData.verdict {r x : VerifyRequest} (hd : SameData r x) :
    x.verdict lookup = r.verdict lookup := by
  unfold VerifyRequest.verdict
  rw [hd.path, hd.view.asType, hd.view.asRelDir, hd.view.afi]

theorem agrees_of_sameData {r x : VerifyRequest} {aspl : AsPathEntry} (ha : Agrees x aspl)
    (hd : SameData r x) : Agrees r aspl where
  asPathList := ha.asPathList.trans hd.path
  asPathLength := ha.asPathLength.trans (congrArg List.length hd.path)
  asType := ha.asType.trans hd.view.asType
  asRelDir := ha.asRelDir.trans hd.view.asRelDir
  afi := ha.afi.trans hd.view.afi

theorem verdict_of_agrees {t : PathListCacheTable} (ha : Agrees r t.copy) :
    t.verdict lookup = r.verdict lookup := by
  unfold PathListCacheTable.verdict VerifyRequest.verdict validateEntry
  have hlen : t.copy.asPathLength = UInt8.ofNat r.path.length := by
    rw [← ha.asPathLength, UInt8.ofNat_toNat]
  rw [ha.asPathList, hlen, ha.asType, ha.asRelDir, ha.afi]

/-- Two requests for the same path of the cache or for the same update have the same data. -/
structure Compatible (x y : VerifyRequest × Locals) : Prop where
  path : x.1.pathId x.2 = y.1.pathId y.2 → x.1.pathId x.2 ≠ 0 → SameData y.1 x.1
  update : x.1.updateID = y.1.updateID → SameData y.1 x.1

theorem Compatible.refl (x : VerifyRequest × Locals) : Compatible x x :=
  ⟨fun _ _ => SameData.refl x.1, fun _ => SameData.refl x.1⟩

theorem Compatible.symm (hc : Compatible x y) : Compatible y x :=
  ⟨fun hid hne => (hc.path hid.symm (hid ▸ hne)).symm, fun hid => (hc.update hid.symm).symm⟩

/-- What the requests of a history have in common with each other. -/
structure Separate (received : List (VerifyRequest × Locals)) : Prop where
  short : ∀ x ∈ received, x.1.path.length < 256
  read : ∀ x ∈ received, x.1.readType x.2 = x.1.asType
  nonzero : ∀ x ∈ received, x.1.path ≠ [] → x.1.pathId x.2 ≠ 0
  compatible : ∀ x ∈ received, ∀ y ∈ received, Compatible x y

theorem numberHops_toNat (r : VerifyRequest) : r.numberHops.toNat = r.path.length := by
  unfold VerifyRequest.numberHops
  rw [UInt16.toNat_ofNat']
  exact Nat.mod_eq_of_lt r.wire

theorem asPath_eq_none_iff (r : VerifyRequest) : r.asPath = none ↔ r.path = [] := by
  unfold VerifyRequest.asPath
  constructor
  · intro hnone
    split at hnone
    · cases hnone
    · next hzero =>
      have hlen := numberHops_toNat r
      rw [Decidable.not_not.mp hzero] at hlen
      exact List.length_eq_zero_iff.mp hlen.symm
  · intro hnil
    refine if_neg fun hne => hne ?_
    apply UInt16.toNat_inj.mp
    rw [numberHops_toNat, hnil]
    rfl

theorem pathId_nil (hnil : r.path = []) (locals : Locals) : r.pathId locals = 0 := by
  unfold VerifyRequest.pathId makePathId
  rw [(asPath_eq_none_iff r).mpr hnil]

theorem numberHops_short (hshort : r.path.length < 256) :
    r.numberHops.toUInt8.toNat = r.path.length := by
  rw [UInt16.toNat_toUInt8, numberHops_toNat]
  exact Nat.mod_eq_of_lt hshort

theorem toNat_byte {n : Nat} (hshort : n < 256) : (UInt8.ofNat n).toNat = n := by
  rw [UInt8.toNat_ofNat']
  exact Nat.mod_eq_of_lt hshort

theorem idText_short (hshort : r.path.length < 256) :
    r.idText locals = pathText r.path (r.readType locals) := by
  unfold VerifyRequest.idText
  rw [numberHops_short hshort, List.take_length]

/-- A request that fits keeps the requests apart. -/
theorem separate_request (hs : Separate h.received) (now : Nat)
    (hid : Identified h (.request r locals now)) (hfits : RequestFits h r locals) :
    Separate (h.step (.request r locals now)).received := by
  have hnonzero (hne : r.path ≠ []) : r.pathId locals ≠ 0 := hid.1 hne
  have hnew (x : VerifyRequest × Locals) (hx : x ∈ h.received) : Compatible x (r, locals) := by
    obtain ⟨htext, hupdate⟩ := hid.2 x hx
    refine ⟨fun hpath hne => ?_, fun hup => ⟨hupdate hup, hfits.sameView x hx (.inl hup)⟩⟩
    have hxne : x.1.path ≠ [] := fun hnil => hne (pathId_nil hnil x.2)
    have hrne : r.path ≠ [] := fun hnil => hne (hpath.trans (pathId_nil hnil locals))
    have heq := htext hrne hxne hpath
    rw [idText_short (hs.short x hx), idText_short hfits.short] at heq
    obtain ⟨hsame, htype⟩ := pathText_inj heq
    rw [hs.read x hx, hfits.asType] at htype
    exact ⟨hsame, hfits.sameView x hx (.inr ⟨hrne, hsame, htype⟩)⟩
  have hcases {x : VerifyRequest × Locals}
      (hx : x ∈ (h.step (.request r locals now)).received) : x ∈ h.received ∨ x = (r, locals) :=
    (List.mem_append.mp hx).imp_right List.mem_singleton.mp
  refine ⟨fun x hx => ?_, fun x hx => ?_, fun x hx hne => ?_, fun x hx y hy => ?_⟩
  · rcases hcases hx with hx | rfl
    · exact hs.short x hx
    · exact hfits.short
  · rcases hcases hx with hx | rfl
    · exact hs.read x hx
    · exact hfits.asType
  · rcases hcases hx with hx | rfl
    · exact hs.nonzero x hx hne
    · exact hnonzero hne
  · rcases hcases hx with hx | rfl
    · rcases hcases hy with hy | rfl
      · exact hs.compatible x hx y hy
      · exact hnew x hx
    · rcases hcases hy with hy | rfl
      · exact (hnew y hy).symm
      · exact Compatible.refl _

/-! ## Paths that agree with their requests -/

/-- A request without a path adds none. -/
theorem pathEntry_nil (hnil : r.path = []) (locals : Locals) : r.pathEntry locals = none := by
  unfold VerifyRequest.pathEntry newAspathListEntry
  refine if_pos ?_
  apply UInt32.toNat_inj.mp
  rw [UInt16.toNat_toUInt32, numberHops_toNat, hnil]
  rfl

theorem pathEntry_eq (hshort : r.path.length < 256) (hne : r.path ≠ []) (locals : Locals) :
    r.pathEntry locals = some ⟨r.pathId locals, UInt8.ofNat r.path.length, r.path, 0,
      r.readType locals, asRelDir (r.readRelType locals), r.afi, 0⟩ := by
  unfold VerifyRequest.pathEntry newAspathListEntry
  have hlen : r.numberHops.toUInt32.toNat = r.path.length := by
    rw [UInt16.toNat_toUInt32, numberHops_toNat]
  have hzero : r.numberHops.toUInt32 ≠ 0 := by
    intro hzero
    rw [hzero] at hlen
    exact hne (List.length_eq_zero_iff.mp hlen.symm)
  have hbyte : r.numberHops.toUInt32.toUInt8 = UInt8.ofNat r.path.length := by
    apply UInt8.toNat_inj.mp
    rw [UInt16.toUInt8_toUInt32, numberHops_short hshort, toNat_byte hshort]
  rw [if_neg hzero, hlen, List.take_length, hbyte]

/-- The path a request adds is its own. -/
theorem addedPath_agrees {s : ServerState} {t : PathListCacheTable} (hshort : r.path.length < 256)
    (htype : r.readType locals = r.asType)
    (hdir : asRelDir (r.readRelType locals) = asRelDir r.asRelType)
    (hadd : addedPath s r locals = some t) :
    Agrees r t.copy ∧ r.path ≠ [] ∧
      ((getUpdateResult s.updateCache r.updateID).getD resultNotFound).pathId = 0 ∧
      s.aspathCache (r.pathId locals) = none ∧
      t.aspaResult = missDefault r ((getUpdateResult s.updateCache r.updateID).getD resultNotFound)
        (getUpdateResult s.updateCache r.updateID).isNone := by
  have hfresh := addedPath_fresh hadd
  have hne : r.path ≠ [] := by
    intro hnil
    unfold addedPath at hadd
    dsimp only at hadd
    rw [pathEntry_nil hnil, Option.map_none, ite_self] at hadd
    cases hadd
  unfold addedPath at hadd
  dsimp only at hadd
  rw [pathEntry_eq hshort hne] at hadd
  split at hadd
  · next hzero =>
    obtain rfl := Option.some.inj hadd
    have hbyte : (UInt8.ofNat r.path.length).toNat = r.path.length := toNat_byte hshort
    have hhops : (UInt8.ofNat r.path.length).toUInt16.toUInt8 = UInt8.ofNat r.path.length :=
      UInt8.toUInt8_toUInt16 _
    refine ⟨⟨?_, ?_, htype, hdir, rfl⟩, hne, hzero.1, hfresh, rfl⟩
    · show (r.path.take (UInt8.ofNat r.path.length).toNat).take
        (UInt8.ofNat r.path.length).toUInt16.toUInt8.toNat = r.path
      rw [hhops, hbyte, List.take_length, List.take_length]
    · show (UInt8.ofNat r.path.length).toUInt16.toUInt8.toNat = r.path.length
      rw [hhops, hbyte]
  · cases hadd

/-- What a request brings itself is the verdict for its own data. -/
def ownVerdict (lookup : UInt32 → UInt32 → UInt8 → AspaResult) (r : VerifyRequest) (v : UInt8) :
    Prop := v = r.verdict lookup

/-- The values come from the requests, and the paths agree with them. -/
structure Base (lookup : UInt32 → UInt32 → UInt8 → AspaResult) (h : History) : Prop where
  sound : Sound (ownVerdict lookup) h
  rpki : h.server.rpki.lookup = lookup
  separate : Separate h.received
  source : ∀ k t, k ≠ 0 → h.server.aspathCache k = some t →
    ∃ x ∈ h.received, x.1.pathId x.2 = k ∧ Agrees x.1 t.copy

theorem Base.agrees {h : History} {t : PathListCacheTable} (hb : Base lookup h)
    (hx : x ∈ h.received) (hk : x.1.pathId x.2 ≠ 0)
    (ht : h.server.aspathCache (x.1.pathId x.2) = some t) : Agrees x.1 t.copy := by
  obtain ⟨y, hy, hpath, hagrees⟩ := hb.source _ t hk ht
  exact agrees_of_sameData hagrees ((hb.separate.compatible y hy x hx).path hpath (hpath ▸ hk))

/-- What an update may have is the verdict for the data of any of its requests. -/
theorem Base.verdict_of_legit {h : History} {v : UInt8} (hb : Base lookup h) (hx : x ∈ h.received)
    (hv : Legit (ownVerdict lookup) h x.1.updateID v) :
    v = SrxResult.undefined.code ∨ v = x.1.verdict lookup := by
  rcases hv with hundef | ⟨y, hy, hid, hown | ⟨t, hk, ht, hverdict⟩⟩
  · exact .inl hundef
  · rw [show v = y.1.verdict lookup from hown]
    exact .inr ((hb.separate.compatible y hy x hx).update hid).verdict
  · rw [hverdict, hb.rpki, verdict_of_agrees (hb.agrees hy hk ht)]
    exact .inr ((hb.separate.compatible y hy x hx).update hid).verdict

/-- An update with a path has its identifier. -/
theorem Base.pathId_ne {h : History} {info : UpdateResultInfo} (hb : Base lookup h)
    (hx : x ∈ h.received) (hne : x.1.path ≠ [])
    (hinfo : getUpdateResult h.server.updateCache x.1.updateID = some info) : info.pathId ≠ 0 := by
  obtain ⟨y, hy, hid, hpath⟩ := hb.sound.requested _ info hinfo
  have hsame := ((hb.separate.compatible y hy x hx).update hid).path
  rw [← hpath]
  exact hb.separate.nonzero y hy (hsame ▸ hne)

theorem verdict_empty_set (hnil : r.path = []) (htype : r.asType = .asSet) :
    r.verdict lookup = SrxResult.unverifiable.code := by
  unfold VerifyRequest.verdict
  rw [hnil, htype]
  exact congrArg SrxResult.code (PathValidationLemmas.validateASPA_empty_set _ _ _)

theorem setsOwn_ownVerdict {h : History} (hs : Separate h.received) :
    SetsOwn (ownVerdict lookup) h := by
  intro x hx y hy hid htype hzero
  have hnil : y.1.path = [] := by
    by_contra hne
    exact hs.nonzero y hy hne hzero
  have hsame := ((hs.compatible x hx y hy).update hid).path
  exact (verdict_empty_set (hsame.trans hnil) htype).symm

theorem base_request (hb : Base lookup h.toHistory) (now : Nat)
    (hid : Identified h (.request r locals now)) (hfits : RequestFits h r locals) :
    Base lookup (h.step (.request r locals now)).toHistory := by
  have hsep := separate_request hb.separate now hid hfits
  refine ⟨request_sound hb.sound now ?_ ?_ (setsOwn_ownVerdict hsep), hb.rpki, hsep,
    fun k t hk ht => ?_⟩
  · -- the path that is added has the verdict of its own request
    intro t hadd hk
    obtain ⟨hagrees, hne, hzero, hmiss, hres⟩ :=
      addedPath_agrees hfits.short hfits.asType hfits.asRelDir hadd
    cases hknown : getUpdateResult h.server.updateCache r.updateID with
    | none =>
      rw [hknown] at hres
      rw [hres, verdict_of_agrees hagrees]
      exact hfits.ownDefault hknown (.inr hmiss)
    | some info =>
      -- an update that is known and has no path identifier has no path
      rw [hknown] at hzero
      obtain ⟨y, hy, hyid, hypath⟩ := hb.sound.requested _ info hknown
      have hynil : y.1.path = [] := by
        by_contra hyne
        exact hb.separate.nonzero y hy hyne (hypath.trans hzero)
      exact absurd (((hid.2 y hy).2 hyid).symm.trans hynil) hne
  · intro hnew hmiss
    have hdef := hfits.ownDefault hnew hmiss
    rw [hb.rpki] at hdef
    exact hdef
  · change (processValidationRequest h.server r locals now).aspathCache k = some t at ht
    rw [request_cache] at ht
    have hold (ht : h.server.aspathCache k = some t) :
        ∃ x ∈ (h.step (.request r locals now)).received, x.1.pathId x.2 = k ∧ Agrees x.1 t.copy := by
      obtain ⟨x, hx, hpath, hagrees⟩ := hb.source k t hk ht
      exact ⟨x, List.mem_append_left _ hx, hpath, hagrees⟩
    split at ht
    · exact hold ht
    · next added hadd =>
      by_cases hkey : k = r.pathId locals
      · subst hkey
        rw [Function.update_self] at ht
        obtain rfl := Option.some.inj ht
        exact ⟨(r, locals), mem_received_request _ r locals now, rfl,
          (addedPath_agrees hfits.short hfits.asType hfits.asRelDir hadd).1⟩
      · rw [Function.update_of_ne hkey] at ht
        exact hold ht

theorem base_work {h : History} (hb : Base lookup h) (now : Nat) :
    Base lookup (h.step (.work now)) := by
  refine ⟨work_sound hb.sound now, ?_, hb.separate, ?_⟩
  · show ((h.server.step (.work now)).rpki).lookup = lookup
    unfold ServerState.step
    cases hitems : h.server.cmdQueue with
    | nil => exact hb.rpki
    | cons item rest =>
      dsimp only
      rcases work_cases (s := { h.server with cmdQueue := rest }) item now with
        ⟨-, hsame⟩ | ⟨info, -, -, hrpki, -⟩
      · rw [hsame]
        exact hb.rpki
      · rw [hrpki]
        exact hb.rpki
  · show ∀ k t, k ≠ 0 → (h.server.step (.work now)).aspathCache k = some t → _
    unfold ServerState.step
    cases hitems : h.server.cmdQueue with
    | nil => exact hb.source
    | cons item rest =>
      dsimp only
      intro k t hk ht
      rcases work_cases (s := { h.server with cmdQueue := rest }) item now with
        ⟨-, hsame⟩ | ⟨info, -, hcache, -⟩
      · rw [hsame] at ht
        exact hb.source k t hk ht
      · rw [hcache] at ht
        rcases (workPart_cases (s := { h.server with cmdQueue := rest }) item info now).1 with
          hwritten | ⟨old, time, -, hold, hwritten⟩
        · rw [hwritten] at ht
          exact hb.source k t hk ht
        · rw [hwritten] at ht
          by_cases hkey : k = info.pathId
          · subst hkey
            rw [Function.update_self] at ht
            obtain rfl := Option.some.inj ht
            obtain ⟨x, hx, hpath, hagrees⟩ := hb.source _ old hk hold
            exact ⟨x, hx, hpath, hagrees.1, hagrees.2, hagrees.3, hagrees.4, hagrees.5⟩
          · rw [Function.update_of_ne hkey] at ht
            exact hb.source k t hk ht

/-! ## The whole invariant -/

/-- Every request is known and its path is found; the updates the worker has validated have their
verdicts. -/
structure Apart (lookup : UInt32 → UInt32 → UInt8 → AspaResult) (h : ValidationHistory) : Prop where
  base : Base lookup h.toHistory
  known : ∀ x ∈ h.received, ∃ info, getUpdateResult h.server.updateCache x.1.updateID = some info
  found : ∀ id info, getUpdateResult h.server.updateCache id = some info → info.pathId ≠ 0 →
    ∃ t, h.server.aspathCache info.pathId = some t
  origin : ∀ id ∈ h.validated, ∃ x ∈ h.received, x.1.updateID = id
  validated : ∀ x ∈ h.received, x.1.updateID ∈ h.validated → x.1.path ≠ [] → ∀ info,
    getUpdateResult h.server.updateCache x.1.updateID = some info →
      info.srxRes.aspaResult = x.1.verdict lookup

theorem Apart.ownVerdicts (ha : Apart lookup h) : OwnVerdicts h := by
  have hlegit {x : VerifyRequest × Locals} {v : UInt8} (hx : x ∈ h.received)
      (hv : Legit (ownVerdict lookup) h.toHistory x.1.updateID v) :
      v = SrxResult.undefined.code ∨ v = x.1.verdict h.server.rpki.lookup := by
    rw [ha.base.rpki]
    exact ha.base.verdict_of_legit hx hv
  refine ⟨fun x hx aspl haspl => ?_, fun x hx info hinfo => ?_, fun x hx rep hrep hid => ?_,
    fun x hx hval hne => ?_⟩
  · unfold getAspathListFromAspathCache at haspl
    split at haspl
    · cases haspl
    · next hk =>
      cases ht : h.server.aspathCache (x.1.pathId x.2) with
      | none =>
        rw [ht] at haspl
        cases haspl
      | some t =>
        rw [ht] at haspl
        obtain rfl := Option.some.inj haspl
        exact ha.base.agrees hx hk ht
  · exact hlegit hx (ha.base.sound.results.stored _ info hinfo)
  · exact hlegit hx (hid ▸ ha.base.sound.results.reported rep hrep)
  · obtain ⟨info, hinfo⟩ := ha.known x hx
    rw [ha.base.rpki]
    exact ⟨info, hinfo, ha.validated x hx hval hne info hinfo⟩

theorem Apart.init (minNumberOfClients : UInt8) (minPos : 0 < minNumberOfClients) (keep : UInt16)
    (rpki : RpkiData) :
    Apart rpki.lookup (initValidationHistory minNumberOfClients minPos keep rpki) where
  base := ⟨Sound.init _ _ minPos keep rpki, rfl,
    ⟨fun _ hx => (nomatch hx), fun _ hx => (nomatch hx), fun _ hx => (nomatch hx),
      fun _ hx => (nomatch hx)⟩, fun _ _ _ ht => (nomatch ht)⟩
  known := fun _ hx => (nomatch hx)
  found := fun _ _ hinfo => (nomatch hinfo)
  origin := fun _ hid => (nomatch hid)
  validated := fun _ hx => (nomatch hx)

/-- The path of a new update is in the cache after the request. -/
theorem request_found {s : ServerState} (hshort : r.path.length < 256) (hk : r.pathId locals ≠ 0)
    (hnew : getUpdateResult s.updateCache r.updateID = none) (now : Nat) :
    ∃ t, (processValidationRequest s r locals now).aspathCache (r.pathId locals) = some t := by
  rw [request_cache]
  cases hadd : addedPath s r locals with
  | some t => exact ⟨t, Function.update_self _ _ _⟩
  | none =>
    have hne : r.path ≠ [] := fun hnil => hk (pathId_nil hnil locals)
    unfold addedPath at hadd
    dsimp only at hadd
    rw [hnew, pathEntry_eq hshort hne] at hadd
    split at hadd
    · cases hadd
    · next hsome =>
      cases ht : s.aspathCache (r.pathId locals) with
      | some t => exact ⟨t, ht⟩
      | none =>
        rw [ht] at hsome
        exact absurd ⟨rfl, rfl⟩ hsome

theorem apart_request (ha : Apart lookup h) (now : Nat)
    (hid : Identified h (.request r locals now)) (hfits : RequestFits h r locals) :
    Apart lookup (h.step (.request r locals now)) := by
  have hb := base_request ha.base now hid hfits
  have hgrown := grown_request h.server r locals now
  have hcases {x : VerifyRequest × Locals}
      (hx : x ∈ (h.step (.request r locals now)).received) : x ∈ h.received ∨ x = (r, locals) :=
    (List.mem_append.mp hx).imp_right List.mem_singleton.mp
  refine ⟨hb, fun x hx => ?_, fun id info hinfo hne => ?_, fun id hval => ?_,
    fun x hx hval hne info hinfo => ?_⟩
  · show ∃ info, getUpdateResult (processValidationRequest h.server r locals now).updateCache
      x.1.updateID = some info
    rw [request_eq]
    split
    · exact ⟨_, rfl⟩
    · next hother =>
      rcases hcases hx with hx | rfl
      · exact ha.known x hx
      · exact absurd rfl hother
  · have hold (old : UpdateResultInfo) (hold : getUpdateResult h.server.updateCache id = some old)
        (hpath : info.pathId = old.pathId) :
        ∃ t, (processValidationRequest h.server r locals now).aspathCache info.pathId = some t := by
      rw [hpath] at hne ⊢
      obtain ⟨t, ht⟩ := ha.found id old hold hne
      obtain ⟨time, w, ht'⟩ := hgrown _ t ht
      exact ⟨_, ht'⟩
    rcases request_info now hinfo with ⟨-, hsame⟩ | ⟨rfl, hnone, hpath, -, -⟩ |
      ⟨rfl, old, hknown, hpath, -, -⟩
    · exact hold info hsame rfl
    · have hnew : info.pathId = r.pathId locals := hpath.trans (requestPart_pathId hnone)
      rw [hnew] at hne ⊢
      exact request_found hfits.short hne hnone now
    · exact hold old hknown hpath
  · obtain ⟨x, hx, hxid⟩ := ha.origin id hval
    exact ⟨x, List.mem_append_left _ hx, hxid⟩
  · -- the update was validated before: a request for it changes nothing
    obtain ⟨y, hy, hyid⟩ := ha.origin _ hval
    have hdata := (hb.separate.compatible y (List.mem_append_left _ hy) x hx).update hyid
    have hyne : y.1.path ≠ [] := hdata.path ▸ hne
    obtain ⟨old, hold⟩ := ha.known y hy
    have hverdict : old.srxRes.aspaResult = x.1.verdict lookup :=
      (ha.validated y hy (hyid ▸ hval) hyne old hold).trans hdata.verdict
    have hpath := ha.base.pathId_ne hy hyne hold
    rw [hyid] at hold
    rcases request_info now hinfo with ⟨-, hsame⟩ | ⟨-, hnone, -⟩ | ⟨hxr, old', hold', -, -, hres⟩
    · obtain rfl := Option.some.inj (hold.symm.trans hsame)
      exact hverdict
    · rw [hold] at hnone
      cases hnone
    · obtain rfl := Option.some.inj (hold.symm.trans hold')
      rw [hres]
      unfold requestPart
      rw [← hxr, hold]
      exact (congrArg (AspaPart.taken · _) (aspaPart_kept hpath _)).trans hverdict

/-- The worker leaves an update with a path its verdict. -/
theorem work_verdict (ha : Apart lookup h) (hx : x ∈ h.received) (hne : x.1.path ≠ [])
    {info : UpdateResultInfo}
    (hinfo : getUpdateResult h.server.updateCache x.1.updateID = some info) (asType : AsType)
    (now : Nat) :
    useResult (validateAspaPart h.server.rpki.lookup h.server.aspathCache info asType now).2
      info.srxRes.aspaResult = x.1.verdict lookup := by
  have hpath := ha.base.pathId_ne hx hne hinfo
  obtain ⟨t, ht⟩ := ha.found _ info hinfo hpath
  obtain ⟨y, hy, hyid, hypath⟩ := ha.base.sound.requested _ info hinfo
  have hverdict : t.verdict lookup = x.1.verdict lookup := by
    rw [verdict_of_agrees (ha.base.agrees hy (hypath.symm ▸ hpath) (hypath.symm ▸ ht))]
    exact ((ha.base.separate.compatible y hy x hx).update hyid).verdict
  have huse : useResult (x.1.verdict lookup) info.srxRes.aspaResult = x.1.verdict lookup := by
    rw [← hverdict]
    exact if_pos (verdict_ne_doNotUse lookup t)
  obtain ⟨v, hv, hcases⟩ := validateAspaPart_found h.server.rpki.lookup hpath ht asType now
  have hvalue : v = x.1.verdict lookup := by
    rcases hcases with ⟨hold, hdef⟩ | ⟨hdefault, hinvalid⟩ | hres | ⟨hres, hdef⟩
    · exact (ha.base.verdict_of_legit hx
        (hold ▸ ha.base.sound.results.stored _ info hinfo)).resolve_left hdef
    · have hlegit := (ha.base.sound.defaults _ info hinfo).resolve_right fun hn => by
        rw [← hdefault, hinvalid] at hn
        exact absurd hn.1 (by decide)
      refine (ha.base.verdict_of_legit hx (hdefault ▸ hlegit)).resolve_left fun hundef => ?_
      exact absurd (hinvalid.symm.trans hundef) (by decide)
    · rw [hres, ha.base.rpki]
      exact hverdict
    · rw [hres] at hdef ⊢
      have hpaths := (ha.base.sound.paths _ t hpath ht).resolve_left hdef
      rw [hpaths, ha.base.rpki]
      exact hverdict
  rw [hv, hvalue, huse]

theorem apart_work (ha : Apart lookup h) (now : Nat) : Apart lookup (h.step (.work now)) := by
  have hb : Base lookup (h.step (.work now)).toHistory := base_work ha.base now
  cases hitems : h.server.cmdQueue with
  | nil =>
    have hsame : h.step (.work now) = h := by
      unfold ValidationHistory.step History.step ServerState.step
      rw [hitems]
    rw [hsame]
    exact ha
  | cons item rest =>
    obtain ⟨y, hy, hyid, -⟩ := ha.base.sound.queue item (hitems ▸ List.mem_cons_self)
    have hstep : h.step (.work now) =
        ⟨⟨processUpdateValidation { h.server with cmdQueue := rest } item now, h.received⟩,
          if isSet item.flags vrtASPA then item.updateID :: h.validated else h.validated⟩ := by
      unfold ValidationHistory.step History.step ServerState.step
      rw [hitems]
    rw [hstep] at hb ⊢
    rcases work_cases (s := { h.server with cmdQueue := rest }) item now with
      ⟨hnone, -⟩ | ⟨info, hinfo, hcache, -, -, hknown, hupdates, -⟩
    · -- the update of a command is known
      obtain ⟨info, hinfo⟩ := ha.known y hy
      rw [hyid] at hinfo
      exact absurd (hinfo.symm.trans hnone) (by exact nofun)
    · refine ⟨hb, fun x hx => ?_, fun id new hnew hne => ?_, fun id hval => ?_,
        fun x hx hval hne new hnew => ?_⟩
      · obtain ⟨old, hold⟩ := ha.known x hx
        apply Option.isSome_iff_exists.mp
        rw [hknown]
        exact Option.isSome_iff_exists.mpr ⟨old, hold⟩
      · obtain ⟨old, hold, hpath, -, -⟩ := hupdates id new hnew
        obtain ⟨hwritten, -⟩ := workPart_cases (s := { h.server with cmdQueue := rest }) item info now
        rw [hpath] at hne ⊢
        obtain ⟨t, ht⟩ := ha.found id old hold hne
        obtain ⟨time, w, ht'⟩ := grown_written hwritten _ t ht
        exact ⟨_, hcache ▸ ht'⟩
      · dsimp only at hval
        split at hval
        · rcases List.mem_cons.mp hval with rfl | hval
          · exact ⟨y, hy, hyid⟩
          · exact ha.origin id hval
        · exact ha.origin id hval
      · obtain ⟨old, hold, -, -, hres⟩ := hupdates _ new hnew
        rw [hres]
        dsimp only at hval
        split
        · next hid =>
          obtain rfl : info = old := Option.some.inj (hinfo.symm.trans (hid ▸ hold))
          unfold workPart
          split
          · exact work_verdict ha hx hne hold item.asType now
          · next hflag =>
            rw [if_neg hflag] at hval
            exact (if_neg fun hn => hn rfl).trans (ha.validated x hx hval hne info hold)
        · next hid =>
          have hval : x.1.updateID ∈ h.validated := by
            split at hval
            · exact (List.mem_cons.mp hval).resolve_left hid
            · exact hval
          exact ha.validated x hx hval hne old hold

theorem apart_step (h : ValidationHistory) (op : ServerOp) (ha : Apart lookup h)
    (hop : Identified h op ∧ Fits h op) : Apart lookup (h.step op) := by
  cases op with
  | request r locals now => exact apart_request ha now hop.1 hop.2
  | work now => exact apart_work ha now

end IndependenceLemmas

open IndependenceLemmas

/-- Whatever requests arrive and whenever the worker runs: as long as the requests fit, every path
that is found agrees with the request and every update has the verdict for its own data. -/
theorem own_verdicts (minNumberOfClients : UInt8) (minPos : 0 < minNumberOfClients)
    (defaultKeepWindow : UInt16) (rpki : RpkiData) (ops : List ServerOp)
    (hid : EachStep ValidationHistory.step Identified
      (initValidationHistory minNumberOfClients minPos defaultKeepWindow rpki) ops)
    (hfits : EachStep ValidationHistory.step Fits
      (initValidationHistory minNumberOfClients minPos defaultKeepWindow rpki) ops) :
    Always ValidationHistory.step OwnVerdicts
      (initValidationHistory minNumberOfClients minPos defaultKeepWindow rpki) ops := by
  have hboth : EachStep ValidationHistory.step (fun h op => Identified h op ∧ Fits h op)
      (initValidationHistory minNumberOfClients minPos defaultKeepWindow rpki) ops :=
    fun before op after heq => ⟨hid before op after heq, hfits before op after heq⟩
  intro before after heq
  exact (always_of_eachStep apart_step (Apart.init _ _ _ _) hboth before after heq).ownVerdicts

/-- RPKI data in which no AS is a provider of another. -/
def noProviderData : RpkiData := ⟨fun _ _ _ => .invalid, fun _ => SrxResult.unknown.code⟩

theorem pathRequest_pathId (updateID : UInt32) (asRelType : AsRelType) (aspaDefRes : SrxResult) :
    (pathRequest updateID asRelType aspaDefRes).pathId someLocals ≠ 0 := by
  show makePathId (UInt16.ofNat 2).toUInt8 (some [65001, 65002]) .asSequence ≠ 0
  decide +kernel

/-- Two requests for the path with different update identifiers do not collide. -/
theorem pathRequests_identified (start : ValidationHistory) (hstart : start.received = [])
    (asRelType asRelType' : AsRelType) :
    EachStep ValidationHistory.step Identified start
      [.request (pathRequest 1 asRelType .undefined) someLocals 0, .work 1,
        .request (pathRequest 2 asRelType' .undefined) someLocals 2, .work 3] := by
  rw [eachStep_cons, eachStep_cons, eachStep_cons, eachStep_cons]
  refine ⟨⟨fun _ => pathRequest_pathId _ _ _, fun x hx => ?_⟩, trivial,
    ⟨fun _ => pathRequest_pathId _ _ _, fun x hx => ?_⟩, trivial, eachStep_nil⟩
  · rw [hstart] at hx
    cases hx
  · change x ∈ start.received ++ [_] at hx
    rw [hstart] at hx
    obtain rfl := List.mem_singleton.mp hx
    exact ⟨fun _ _ _ => rfl, fun hid => absurd (show (1 : UInt32) = 2 from hid) (by decide)⟩

/-- A path is received from a customer, then from a provider. Up stream it is invalid, down stream it
is valid; the second update gets the result of the first. -/
theorem verdict_of_other_neighbour :
    ¬ ∀ (minNumberOfClients : UInt8) (minPos : 0 < minNumberOfClients) (defaultKeepWindow : UInt16)
      (rpki : RpkiData) (ops : List ServerOp),
        EachStep ValidationHistory.step Identified
          (initValidationHistory minNumberOfClients minPos defaultKeepWindow rpki) ops →
        Always ValidationHistory.step OwnVerdicts
          (initValidationHistory minNumberOfClients minPos defaultKeepWindow rpki) ops := by
  intro hall
  let start := initValidationHistory 1 (by decide) 0 noProviderData
  let ops : List ServerOp := [.request (pathRequest 1 .customer .undefined) someLocals 0, .work 1,
    .request (pathRequest 2 .provider .undefined) someLocals 2, .work 3]
  let last := ops.foldl ValidationHistory.step start
  have hlast : OwnVerdicts last := hall 1 (by decide) 0 noProviderData ops
    (pathRequests_identified start rfl .customer .provider) ops [] rfl
  have hinfo : (getUpdateResult last.server.updateCache 2).map (·.srxRes.aspaResult) =
      some SrxResult.invalid.code := by decide +kernel
  obtain ⟨info, hget, hres⟩ := Option.map_eq_some_iff.mp hinfo
  have hverdict : (pathRequest 2 .provider .undefined).verdict last.server.rpki.lookup =
      SrxResult.valid.code := by decide +kernel
  have hreceived : (pathRequest 2 .provider .undefined, someLocals) ∈ last.received :=
    List.mem_cons_of_mem _ (List.mem_singleton.mpr rfl)
  clear_value last
  rcases hlast.stored _ hreceived info hget with hundef | hown
  · rw [hres] at hundef
    exact absurd hundef (by decide)
  · rw [hres, hverdict] at hown
    exact absurd hown (by decide)

/-- Two updates with the same path from customers. -/
theorem own_verdicts_two_customers :
    let ops : List ServerOp := [.request (pathRequest 1 .customer .undefined) someLocals 0, .work 1,
      .request (pathRequest 2 .customer .undefined) someLocals 2, .work 3]
    let start := initValidationHistory 1 (by decide) 0 noProviderData
    Always ValidationHistory.step OwnVerdicts start ops ∧
      (getUpdateResult (ops.foldl ValidationHistory.step start).server.updateCache 2).map
        (·.srxRes.aspaResult) = some SrxResult.invalid.code := by
  intro ops start
  refine ⟨own_verdicts 1 (by decide) 0 noProviderData ops
    (pathRequests_identified start rfl .customer .customer) ?_, by decide +kernel⟩
  rw [eachStep_cons, eachStep_cons, eachStep_cons, eachStep_cons]
  refine ⟨⟨by decide, rfl, rfl, fun x hx => (nomatch hx), fun _ _ => .inl rfl⟩, trivial,
    ⟨by decide, rfl, rfl, fun x hx _ => ?_, fun _ _ => .inl rfl⟩, trivial, eachStep_nil⟩
  obtain rfl := List.mem_singleton.mp hx
  exact ⟨rfl, rfl, rfl⟩

end SrxSuite.Server

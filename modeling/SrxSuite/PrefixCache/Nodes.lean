import SrxSuite.PrefixCache.Updates

/-!
# The invariant of one prefix

`UpdatesOk` says what the lists and counters of a prefix have to do with the history of the
cache: every requested update of the prefix is in one of the lists, `roa_match` and
`roa_coverage` count ROAs. `Reported` is about results: the state of the list `other`, and what
was last reported for every update.

The visits of a walk take the invariant from one history to the next: `verifyUpdates_ok` when a
ROA is added, `validateUpdates_ok` when one is removed.
-/

namespace SrxSuite.Cache

open Util Util.SListLemmas UpdateLemmas

/-- The lists and counters of the prefix `k`. -/
structure UpdatesOk (h : History) (k : List Bool) (pc : PcPrefix)
    (lv lo : List (Nat × PcUpdate)) : Prop where
  lists : TwoLists pc.nodes pc.valid pc.other lv lo
  requests : ((lv ++ lo).map fun x => (x.2.updateID, x.2.as)).Perm
    ((h.requestsAt k).map fun q => (q.updateID, q.as))
  valid : ∀ x ∈ lv, x.2.roaMatch.toNat = h.matchCount k x.2.as ∧ 0 < h.matchCount k x.2.as
  other : ∀ x ∈ lo, x.2.roaMatch = 0 ∧ h.matchCount k x.2.as = 0
  coverage : pc.roaCoverage.toNat = h.coverCount k
  state : pc.stateOfOther = .invalid ∨ pc.stateOfOther = .notFound
  covered : 0 < h.coverCount k → pc.stateOfOther = .invalid

/-- The state of the other updates, and the results last reported. -/
structure Reported (h : History) (k : List Bool) (pc : PcPrefix)
    (lv lo : List (Nat × PcUpdate)) (reports : List Report) : Prop where
  state : pc.stateOfOther = .invalid ↔ ∃ r ∈ h.roas, r.key <+: k
  valid : ∀ x ∈ lv, lastReport reports x.2.updateID = some .valid
  other : ∀ x ∈ lo, lastReport reports x.2.updateID = some pc.stateOfOther

/-- The invariant of a prefix. The part about results holds in `strict` runs only: there
`maxLen` is never shorter than the prefix of a ROA, and every update is requested once. -/
def NodeOk (strict : Prop) (h : History) (k : List Bool) (pc : PcPrefix)
    (reports : List Report) : Prop :=
  ∃ lv lo, UpdatesOk h k pc lv lo ∧ (strict → Reported h k pc lv lo reports)

namespace NodeLemmas

/-! ## Reports -/

theorem lastReport_append (reports E : List Report) (id : UInt32) :
    lastReport (reports ++ E) id = (lastReport E id).or (lastReport reports id) := by
  rw [lastReport, lastReport, lastReport, List.filter_append, List.getLast?_append]
  cases (E.filter fun r => r.updateID == id).getLast? <;> simp

theorem lastReport_of_not_mem {reports E : List Report} {id : UInt32}
    (h : ∀ r ∈ E, r.updateID ≠ id) : lastReport (reports ++ E) id = lastReport reports id := by
  have hE : E.filter (fun r => r.updateID == id) = [] :=
    List.filter_eq_nil_iff.mpr fun r hr => by simpa using h r hr
  rw [lastReport_append, lastReport, hE]
  simp

theorem lastReport_reportsOf {result : SrxResult} {suppress : Bool}
    {l : List (Nat × PcUpdate)} {id : UInt32} (hid : ∃ x ∈ l, x.2.updateID = id)
    (reports : List Report) :
    lastReport (reports ++ reportsOf result suppress l) id = some result := by
  obtain ⟨x, hx, hid⟩ := hid
  have hmem : (⟨id, result, suppress⟩ : Report) ∈
      (reportsOf result suppress l).filter fun r => r.updateID == id :=
    List.mem_filter.mpr ⟨List.mem_map.mpr ⟨x, hx, by rw [hid]⟩, by simp⟩
  obtain ⟨r, hr⟩ := Option.ne_none_iff_exists'.mp
    (mt List.getLast?_eq_none_iff.mp (List.ne_nil_of_mem hmem))
  have hres : r.roaResult = result := by
    obtain ⟨y, -, rfl⟩ := List.mem_map.mp
      (List.mem_filter.mp (List.mem_of_getLast? hr)).1
    rfl
  rw [lastReport_append, lastReport, hr]
  simp [hres]

theorem mem_reportsOf {result : SrxResult} {suppress : Bool} {l : List (Nat × PcUpdate)}
    {r : Report} (h : r ∈ reportsOf result suppress l) : ∃ x ∈ l, x.2.updateID = r.updateID := by
  obtain ⟨x, hx, rfl⟩ := List.mem_map.mp h
  exact ⟨x, hx, rfl⟩

theorem toNat_inc16 {n : UInt16} (hn : n.toNat + 1 < 2 ^ 16) : (n + 1).toNat = n.toNat + 1 := by
  rw [UInt16.toNat_add]
  exact Nat.mod_eq_of_lt hn

theorem toNat_inc32 {n : UInt32} (hn : n.toNat + 1 < 2 ^ 32) : (n + 1).toNat = n.toNat + 1 := by
  rw [UInt32.toNat_add]
  exact Nat.mod_eq_of_lt hn

end NodeLemmas

open NodeLemmas

/-! ## Counting -/

section Counts

variable {h : History} {k : List Bool} {pc : PcPrefix} {lv lo : List (Nat × PcUpdate)}

theorem UpdatesOk.length_le (hok : UpdatesOk h k pc lv lo) :
    lv.length + lo.length ≤ h.requests.length := by
  have := hok.requests.length_eq
  simp only [List.length_map, List.length_append] at this
  rw [this]
  exact List.length_filter_le ..

/-- Every update of the lists was requested. -/
theorem UpdatesOk.requested (hok : UpdatesOk h k pc lv lo) {x : Nat × PcUpdate}
    (hx : x ∈ lv ++ lo) : (⟨x.2.updateID, k, x.2.as⟩ : Request) ∈ h.requests := by
  have hmem := hok.requests.mem_iff.mp (List.mem_map.mpr ⟨x, hx, rfl⟩)
  obtain ⟨q, hq, heq⟩ := List.mem_map.mp hmem
  obtain ⟨hq, hkey⟩ := List.mem_filter.mp hq
  obtain ⟨hid, has⟩ := Prod.mk.inj heq
  obtain rfl : q = ⟨x.2.updateID, k, x.2.as⟩ := by
    cases q
    simp_all
  exact hq

theorem UpdatesOk.countP (hok : UpdatesOk h k pc lv lo) (as : UInt32) :
    lv.countP (isOf as) + lo.countP (isOf as) =
      h.requests.countP fun q => q.key = k ∧ q.as = as := by
  rw [← List.countP_append]
  have hmap : (lv ++ lo).countP (isOf as) =
      ((lv ++ lo).map fun x => (x.2.updateID, x.2.as)).countP fun y => y.2 == as := by
    rw [List.countP_map]
    rfl
  rw [hmap, hok.requests.countP_eq, List.countP_map, History.requestsAt, List.countP_filter]
  refine List.countP_congr fun q _ => ?_
  simp [and_comm]

theorem UpdatesOk.nodup_ids (hok : UpdatesOk h k pc lv lo)
    (hids : (h.requests.map Request.updateID).Nodup) :
    ((lv ++ lo).map fun x => x.2.updateID).Nodup := by
  have hperm := hok.requests.map Prod.fst
  simp only [List.map_map] at hperm
  refine hperm.nodup_iff.mpr ?_
  exact hids.sublist (List.Sublist.map _ List.filter_sublist)

theorem ids_ne (hnodup : ((lv ++ lo).map fun x => x.2.updateID).Nodup) {x y : Nat × PcUpdate}
    (hx : x ∈ lv) (hy : y ∈ lo) : y.2.updateID ≠ x.2.updateID := by
  rw [List.map_append, List.nodup_append] at hnodup
  exact fun heq => hnodup.2.2 _ (List.mem_map.mpr ⟨x, hx, rfl⟩) _ (List.mem_map.mpr ⟨y, hy, rfl⟩)
    heq.symm

/-- The invariant after a change of the history that does not concern the prefix. -/
theorem UpdatesOk.congr (hok : UpdatesOk h k pc lv lo) {h' : History} {pc' : PcPrefix}
    (hreq : h'.requestsAt k = h.requestsAt k) (hcov : h'.coverCount k = h.coverCount k)
    (hmatch : ∀ as, h'.matchCount k as = h.matchCount k as)
    (hlists : TwoLists pc'.nodes pc'.valid pc'.other lv lo)
    (hcoverage : pc'.roaCoverage = pc.roaCoverage)
    (hstate : pc'.stateOfOther = .invalid ∨ pc'.stateOfOther = .notFound)
    (hcovered : 0 < h.coverCount k → pc'.stateOfOther = .invalid) :
    UpdatesOk h' k pc' lv lo where
  lists := hlists
  requests := hreq ▸ hok.requests
  valid x hx := by
    rw [hmatch]
    exact hok.valid x hx
  other x hx := by
    rw [hmatch]
    exact hok.other x hx
  coverage := by rw [hcoverage, hcov, hok.coverage]
  state := hstate
  covered := by
    rw [hcov]
    exact hcovered

theorem matchCount_le_coverCount (h : History) (k : List Bool) (as : UInt32) :
    h.matchCount k as ≤ h.coverCount k :=
  List.countP_mono_left fun r _ hr => by
    rw [Roa.matches, Bool.and_eq_true] at hr
    exact hr.1

end Counts

/-! ## Requesting an update -/

section Request

variable {strict : Prop} {h : History} {k : List Bool} {pc pc' : PcPrefix} {q : Request}
  {lv lo : List (Nat × PcUpdate)} {reports E : List Report} {m : UInt16} {a : Nat}

theorem requestsAt_addRequest :
    (h.addRequest q).requestsAt k = h.requestsAt k ++ if q.key = k then [q] else [] := by
  rw [History.requestsAt, History.addRequest, List.filter_append]
  by_cases hk : q.key = k <;> simp [History.requestsAt, hk]

/-- Reports about other updates do not matter. -/
theorem Reported.frame (hrep : Reported h k pc lv lo reports)
    (hE : ∀ x ∈ lv ++ lo, ∀ e ∈ E, e.updateID ≠ x.2.updateID) :
    Reported h k pc lv lo (reports ++ E) where
  state := hrep.state
  valid x hx := by
    rw [lastReport_of_not_mem (hE x (List.mem_append_left _ hx))]
    exact hrep.valid x hx
  other x hx := by
    rw [lastReport_of_not_mem (hE x (List.mem_append_right _ hx))]
    exact hrep.other x hx

/-- The lists after the new update was put into one of them. -/
theorem UpdatesOk.request (hok : UpdatesOk h q.key pc lv lo)
    (hm : m = UInt16.ofNat (h.matchCount q.key q.as)) (hfit : h.matchCount q.key q.as < 2 ^ 16)
    (hlists : TwoLists pc'.nodes pc'.valid pc'.other
      (if m = 0 then lv else lv ++ [(a, ⟨q.updateID, q.as, m⟩)])
      (if m = 0 then lo ++ [(a, ⟨q.updateID, q.as, m⟩)] else lo))
    (hcoverage : pc'.roaCoverage = pc.roaCoverage) (hstate : pc'.stateOfOther = pc.stateOfOther) :
    UpdatesOk (h.addRequest q) q.key pc'
      (if m = 0 then lv else lv ++ [(a, ⟨q.updateID, q.as, m⟩)])
      (if m = 0 then lo ++ [(a, ⟨q.updateID, q.as, m⟩)] else lo) := by
  have htoNat : m.toNat = h.matchCount q.key q.as := by
    rw [hm]
    exact Nat.mod_eq_of_lt hfit
  have hzero : m = 0 ↔ h.matchCount q.key q.as = 0 := by
    rw [← htoNat, ← UInt16.toNat_inj]
    rfl
  refine ⟨hlists, ?_, ?_, ?_, hcoverage ▸ hok.coverage, hstate ▸ hok.state,
    hstate ▸ hok.covered⟩
  · -- The new update is in one of the lists and in the history.
    have hnew : ((h.addRequest q).requestsAt q.key).map (fun q => (q.updateID, q.as)) =
        (h.requestsAt q.key).map (fun q => (q.updateID, q.as)) ++ [(q.updateID, q.as)] := by
      rw [requestsAt_addRequest, if_pos rfl, List.map_append, List.map_singleton]
    rw [hnew]
    refine List.Perm.trans ?_ (hok.requests.append_right [(q.updateID, q.as)])
    split
    · simp
    · simp only [List.map_append, List.map_cons, List.map_nil, List.append_assoc]
      exact List.perm_append_comm.append_left _
  · intro x hx
    split at hx
    · exact hok.valid x hx
    · next hne =>
      rcases List.mem_append.mp hx with hx | hx
      · exact hok.valid x hx
      · rw [List.mem_singleton.mp hx]
        exact ⟨htoNat, Nat.pos_of_ne_zero (mt hzero.mpr hne)⟩
  · intro x hx
    split at hx
    · next heq =>
      rcases List.mem_append.mp hx with hx | hx
      · exact hok.other x hx
      · rw [List.mem_singleton.mp hx]
        exact ⟨heq, hzero.mp heq⟩
    · exact hok.other x hx

/-- The result of the new update is reported. -/
theorem Reported.request (hrep : Reported h q.key pc lv lo reports)
    (hok : UpdatesOk h q.key pc lv lo) (hfresh : ∀ q' ∈ h.requests, q'.updateID ≠ q.updateID)
    (hstate : pc'.stateOfOther = pc.stateOfOther) :
    Reported (h.addRequest q) q.key pc'
      (if m = 0 then lv else lv ++ [(a, ⟨q.updateID, q.as, m⟩)])
      (if m = 0 then lo ++ [(a, ⟨q.updateID, q.as, m⟩)] else lo)
      (reports ++ [⟨q.updateID, if m = 0 then pc.stateOfOther else .valid, false⟩]) := by
  have hlast : lastReport
      (reports ++ [⟨q.updateID, if m = 0 then pc.stateOfOther else .valid, false⟩]) q.updateID =
      some (if m = 0 then pc.stateOfOther else .valid) := by
    rw [lastReport_append, lastReport]
    simp
  have hframe := hrep.frame (E := [⟨q.updateID, if m = 0 then pc.stateOfOther else .valid, false⟩])
    fun x hx e he => by
      rw [List.mem_singleton.mp he]
      exact (hfresh _ (hok.requested hx)).symm
  refine ⟨hstate ▸ hrep.state, ?_, ?_⟩
  · intro x hx
    split at hx
    · exact hframe.valid x hx
    · next hne =>
      rcases List.mem_append.mp hx with hx | hx
      · exact hframe.valid x hx
      · rw [List.mem_singleton.mp hx, hlast, if_neg hne]
  · intro x hx
    rw [hstate]
    split at hx
    · next heq =>
      rcases List.mem_append.mp hx with hx | hx
      · exact hframe.other x hx
      · rw [List.mem_singleton.mp hx, hlast, if_pos heq]
    · exact hframe.other x hx

/-- The other prefixes. -/
theorem NodeOk.request_other (hok : NodeOk strict h k pc reports) (hkey : q.key ≠ k)
    (hfresh : strict → ∀ q' ∈ h.requests, q'.updateID ≠ q.updateID) (asn : List PcAs)
    (result : SrxResult) :
    NodeOk strict (h.addRequest q) k { pc with asn := asn }
      (reports ++ [⟨q.updateID, result, false⟩]) := by
  obtain ⟨lv, lo, hok, hrep⟩ := hok
  refine ⟨lv, lo, hok.congr ?_ rfl (fun _ => rfl) hok.lists rfl hok.state hok.covered,
    fun hs => ?_⟩
  · rw [requestsAt_addRequest, if_neg hkey, List.append_nil]
  · have hframe := (hrep hs).frame (E := [⟨q.updateID, result, false⟩]) fun x hx e he => by
      rw [List.mem_singleton.mp he]
      exact (hfresh hs _ (hok.requested hx)).symm
    exact ⟨hframe.state, hframe.valid, hframe.other⟩

end Request

/-! ## Adding a ROA -/

/-- What is needed to add a ROA: the counters do not overflow, and in strict runs every update
was requested once. -/
structure CanAdd (strict : Prop) (h : History) (r : Roa) : Prop where
  ids : strict → (h.requests.map Request.updateID).Nodup
  size : h.requests.length < 2 ^ 31
  fitsMatch : ∀ q ∈ h.requests, (h.addRoa r).matchCount q.key q.as < 2 ^ 16
  fitsCover : ∀ k, (h.addRoa r).coverCount k < 2 ^ 32

section Add

variable {strict : Prop} {h : History} {k : List Bool} {pc : PcPrefix} {w : WalkState} {r : Roa}
  {lv lo : List (Nat × PcUpdate)}

/-- Only updates of the prefix are reported. -/
def ReportsAt (h : History) (k : List Bool) (E : List Report) : Prop :=
  ∀ e ∈ E, ∃ q ∈ h.requests, q.key = k ∧ q.updateID = e.updateID

theorem UpdatesOk.reportsAt (hok : UpdatesOk h k pc lv lo) {result : SrxResult} {suppress : Bool}
    {l : List (Nat × PcUpdate)} (hl : ∀ x ∈ l, x ∈ lv ++ lo) :
    ReportsAt h k (reportsOf result suppress l) := by
  intro e he
  obtain ⟨x, hx, hid⟩ := mem_reportsOf he
  exact ⟨_, hok.requested (hl x hx), rfl, hid⟩

/-- The lists after the updates of the AS were counted and moved. -/
theorem UpdatesOk.add (hok : UpdatesOk h k pc lv lo) (hadd : CanAdd strict h r)
    (hcov : r.covers k = true) {pc' : PcPrefix}
    (hlists : TwoLists pc'.nodes pc'.valid pc'.other
      ((lv.map fun x => if isOf r.as x then incMatch x else x) ++
        (lo.filter (isOf r.as)).map incMatch) (lo.filter fun x => !isOf r.as x))
    (hcoverage : pc'.roaCoverage = pc.roaCoverage + 1) (hstate : pc'.stateOfOther = .invalid) :
    UpdatesOk (h.addRoa r) k pc' ((lv.map fun x => if isOf r.as x then incMatch x else x) ++
      (lo.filter (isOf r.as)).map incMatch) (lo.filter fun x => !isOf r.as x) := by
  have hmatch (as : UInt32) : (h.addRoa r).matchCount k as =
      h.matchCount k as + if r.as = as then 1 else 0 := by
    rw [History.matchCount_addRoa, Roa.matches, hcov]
    simp
  have hfit {x : Nat × PcUpdate} (hx : x ∈ lv ++ lo) :
      (h.addRoa r).matchCount k x.2.as < 2 ^ 16 := hadd.fitsMatch _ (hok.requested hx)
  refine ⟨hlists, ?_, ?_, ?_, ?_, .inl hstate, fun _ => hstate⟩
  · -- The updates stay the same, some of them go from one list to the other.
    refine List.Perm.trans ?_ hok.requests
    simp only [List.map_append, List.map_map, List.append_assoc]
    refine List.Perm.append (.of_eq (List.map_congr_left fun x _ => ?_)) ?_
    · by_cases hx : isOf r.as x = true <;> simp [hx, incMatch]
    · have hperm := (List.filter_append_perm (isOf r.as) lo).map fun x => (x.2.updateID, x.2.as)
      rw [List.map_append] at hperm
      exact hperm
  · intro x hx
    rw [List.mem_append] at hx
    rcases hx with hx | hx
    · obtain ⟨y, hy, rfl⟩ := List.mem_map.mp hx
      obtain ⟨hy1, hy2⟩ := hok.valid y hy
      have hfit := hfit (List.mem_append_left _ hy)
      by_cases hof : isOf r.as y = true
      · rw [hmatch, if_pos (isOf_iff.mp hof).symm] at hfit
        simp only [if_pos hof, incMatch, hmatch, if_pos (isOf_iff.mp hof).symm]
        exact ⟨by rw [toNat_inc16 (by omega), hy1], by omega⟩
      · have has : r.as ≠ y.2.as := fun heq => hof (isOf_iff.mpr heq.symm)
        simp only [if_neg hof, hmatch, if_neg has, Nat.add_zero]
        exact ⟨hy1, hy2⟩
    · obtain ⟨y, hy, rfl⟩ := List.mem_map.mp hx
      obtain ⟨hy, hof⟩ := List.mem_filter.mp hy
      obtain ⟨hy1, hy2⟩ := hok.other y hy
      simp only [incMatch, hmatch, if_pos (isOf_iff.mp hof).symm, hy1, hy2]
      exact ⟨rfl, by omega⟩
  · intro x hx
    obtain ⟨hx, hof⟩ := List.mem_filter.mp hx
    have has : r.as ≠ x.2.as := fun heq => by simp [isOf_iff.mpr heq.symm] at hof
    rw [hmatch, if_neg has, Nat.add_zero]
    exact hok.other x hx
  · have hfit := hadd.fitsCover k
    rw [History.coverCount_addRoa, if_pos hcov] at hfit ⊢
    rw [hcoverage, toNat_inc32 (by rw [hok.coverage]; exact hfit), hok.coverage]

theorem Reported.add {reports : List Report} (E : List Report) (suppress : Bool)
    (hrep : Reported h k pc lv lo reports) (hids : ((lv ++ lo).map fun x => x.2.updateID).Nodup)
    (hkey : r.key <+: k) {pc' : PcPrefix} (hstate : pc'.stateOfOther = .invalid)
    (hE : (pc.stateOfOther = .invalid ∧ E = []) ∨
      E = reportsOf .invalid suppress (lo.filter fun x => !isOf r.as x)) :
    Reported (h.addRoa r) k pc' ((lv.map fun x => if isOf r.as x then incMatch x else x) ++
        (lo.filter (isOf r.as)).map incMatch) (lo.filter fun x => !isOf r.as x)
      (reports ++ reportsOf .valid suppress (lo.filter (isOf r.as)) ++ E) := by
  -- The reports `E` are about updates that stay in the list `other`.
  have hEmem : ∀ e ∈ E, ∃ x ∈ lo, isOf r.as x = false ∧ x.2.updateID = e.updateID := by
    intro e he
    rcases hE with ⟨-, rfl⟩ | rfl
    · simp at he
    · obtain ⟨x, hx, hid⟩ := mem_reportsOf he
      obtain ⟨hx, hof⟩ := List.mem_filter.mp hx
      exact ⟨x, hx, by simpa using hof, hid⟩
  have hlo := (List.nodup_append.mp (List.map_append ▸ hids)).2.1
  have hlo_ne {x y : Nat × PcUpdate} (hx : x ∈ lo) (hy : y ∈ lo) (hne : isOf r.as x ≠ isOf r.as y) :
      x.2.updateID ≠ y.2.updateID := fun heq =>
    hne (congrArg _ (List.inj_on_of_nodup_map hlo hx hy heq))
  refine ⟨iff_of_true hstate ⟨r, List.mem_cons_self, hkey⟩, ?_, ?_⟩
  · intro x hx
    rw [List.mem_append] at hx
    rcases hx with hx | hx
    · obtain ⟨y, hy, rfl⟩ := List.mem_map.mp hx
      have hid : (if isOf r.as y then incMatch y else y).2.updateID = y.2.updateID := by
        split <;> rfl
      rw [hid, lastReport_of_not_mem, lastReport_of_not_mem]
      · exact hrep.valid y hy
      · intro e he
        obtain ⟨x, hx, hid⟩ := mem_reportsOf he
        exact hid ▸ ids_ne hids hy (List.mem_filter.mp hx).1
      · intro e he
        obtain ⟨x, hx, -, hid⟩ := hEmem e he
        exact hid ▸ ids_ne hids hy hx
    · obtain ⟨y, hy, rfl⟩ := List.mem_map.mp hx
      obtain ⟨hylo, hof⟩ := List.mem_filter.mp hy
      show lastReport _ y.2.updateID = _
      rw [lastReport_of_not_mem]
      · exact lastReport_reportsOf ⟨y, hy, rfl⟩ reports
      · intro e he
        obtain ⟨x, hx, hnot, hid⟩ := hEmem e he
        exact hid ▸ hlo_ne hx hylo (by simp [hnot, hof])
  · intro x hx
    obtain ⟨hxlo, hof⟩ := List.mem_filter.mp hx
    rw [hstate]
    rcases hE with ⟨hpc, rfl⟩ | rfl
    · rw [List.append_nil, lastReport_of_not_mem, hrep.other x hxlo, hpc]
      intro e he
      obtain ⟨y, hy, hid⟩ := mem_reportsOf he
      obtain ⟨hy, hofy⟩ := List.mem_filter.mp hy
      exact hid ▸ hlo_ne hy hxlo (by simpa [hofy] using hof)
    · exact lastReport_reportsOf ⟨x, hx, rfl⟩ _

/-- How many updates of the prefix the ROA matches. -/
def matchedAt (h : History) (r : Roa) (k : List Bool) : Nat :=
  h.requests.countP fun q => q.key = k ∧ r.matches q.key q.as = true

theorem matchedAt_covered (hok : UpdatesOk h k pc lv lo) (hcov : r.covers k = true) :
    matchedAt h r k = lv.countP (isOf r.as) + lo.countP (isOf r.as) := by
  rw [hok.countP, matchedAt]
  refine List.countP_congr fun q _ => ?_
  simp only [decide_eq_true_eq]
  constructor
  · rintro ⟨rfl, hm⟩
    exact ⟨rfl, (matches_iff.mp hm).2.symm⟩
  · rintro ⟨rfl, has⟩
    exact ⟨rfl, matches_iff.mpr ⟨covers_iff.mp hcov, has.symm⟩⟩

theorem matchedAt_not_covered (hcov : r.covers k = false) : matchedAt h r k = 0 := by
  refine List.countP_eq_zero.mpr fun q _ => ?_
  simp only [decide_eq_true_eq, not_and]
  rintro rfl hm
  rw [Roa.matches, hcov] at hm
  simp at hm

/-- A visit of `_addROAwl_verifyUpdates`. -/
theorem verifyUpdates_ok (hok : NodeOk strict h k pc w.reports) (hadd : CanAdd strict h r)
    (hkey : r.key <+: k) (has : w.roa.as = r.as) (hmax : w.roa.maxLen = r.maxLen)
    (suppress : Bool) :
    ∃ pc' w' next, verifyUpdates suppress k.length () pc w = some (pc', w', next) ∧
      NodeOk strict (h.addRoa r) k pc' w'.reports ∧ pc'.asn = pc.asn ∧
      (∃ E, w'.reports = w.reports ++ E ∧ ReportsAt h k E) ∧
      w'.roa = w.roa.withCount (w.roa.updateCount + UInt32.ofNat (matchedAt h r k)) ∧
      (next = none → r.covers k = false ∧ pc.stateOfOther = .invalid) := by
  obtain ⟨lv, lo, hok, hrep⟩ := hok
  by_cases hlen : k.length ≤ w.roa.maxLen.toNat
  · have hcov : r.covers k = true := covers_iff.mpr ⟨hkey, hmax ▸ hlen⟩
    have hsize := hok.length_le
    have hlimit := hadd.size
    obtain ⟨n₁, hcount, h₁⟩ :=
      countMatched_eq { pc with roaCoverage := pc.roaCoverage + 1 } hok.lists w has
    obtain ⟨n₂, v₂, o₂, hmove, h₂⟩ := moveMatchedUpdatesToValid_eq
      { pc with roaCoverage := pc.roaCoverage + 1, nodes := n₁ } h₁
      (by rw [List.length_map]; omega) suppress
      ⟨w.roa.withCount (w.roa.updateCount + UInt32.ofNat (lv.countP (isOf r.as))), w.reports⟩ has
    have hroa : (w.roa.withCount (w.roa.updateCount + UInt32.ofNat
        (lv.countP (isOf r.as)))).withCount ((w.roa.withCount (w.roa.updateCount + UInt32.ofNat
        (lv.countP (isOf r.as)))).updateCount + UInt32.ofNat (lo.countP (isOf r.as))) =
        w.roa.withCount (w.roa.updateCount + UInt32.ofNat (matchedAt h r k)) := by
      rw [matchedAt_covered hok hcov, UInt32.ofNat_add, ← UInt32.add_assoc]
      rfl
    simp only [hroa] at hmove
    have hmoved : ReportsAt h k (reportsOf .valid suppress (lo.filter (isOf r.as))) :=
      hok.reportsAt fun x hx => List.mem_append_right _ (List.mem_filter.mp hx).1
    by_cases hst : pc.stateOfOther = .notFound
    · obtain ⟨n₃, hchange, h₃⟩ := changeStateOfOther_eq { pc with
          roaCoverage := pc.roaCoverage + 1, nodes := n₂, valid := v₂, other := o₂ } h₂ suppress
        .invalid ⟨w.roa.withCount (w.roa.updateCount + UInt32.ofNat (matchedAt h r k)),
          w.reports ++ reportsOf .valid suppress (lo.filter (isOf r.as))⟩
      refine ⟨⟨pc.roaCoverage + 1, .invalid, n₃, v₂, o₂, pc.asn⟩,
        ⟨w.roa.withCount (w.roa.updateCount + UInt32.ofNat (matchedAt h r k)),
          w.reports ++ reportsOf .valid suppress (lo.filter (isOf r.as)) ++
            reportsOf .invalid suppress (lo.filter fun x => !isOf r.as x)⟩, some (), ?_,
        ⟨_, _, hok.add hadd hcov h₃ rfl rfl, fun hs =>
          (hrep hs).add _ suppress (hok.nodup_ids (hadd.ids hs)) hkey rfl (.inr rfl)⟩,
        rfl, ⟨_, List.append_assoc .., ?_⟩, rfl, by simp⟩
      · simp only [verifyUpdates, if_pos hlen, hcount, hmove, if_pos hst, hchange,
          Option.bind_eq_bind, Option.bind_some]
      · intro e he
        rcases List.mem_append.mp he with he | he
        · exact hmoved e he
        · exact hok.reportsAt (fun x hx => List.mem_append_right _ (List.mem_filter.mp hx).1) e he
    · have hinv : pc.stateOfOther = .invalid := hok.state.resolve_right hst
      refine ⟨⟨pc.roaCoverage + 1, pc.stateOfOther, n₂, v₂, o₂, pc.asn⟩,
        ⟨w.roa.withCount (w.roa.updateCount + UInt32.ofNat (matchedAt h r k)),
          w.reports ++ reportsOf .valid suppress (lo.filter (isOf r.as))⟩, some (), ?_,
        ⟨_, _, hok.add hadd hcov h₂ rfl hinv, fun hs => ?_⟩, rfl, ⟨_, rfl, hmoved⟩, rfl, by simp⟩
      · simp only [verifyUpdates, if_pos hlen, hcount, hmove, if_neg hst,
          Option.bind_eq_bind, Option.bind_some]
      · have hnew : Reported (h.addRoa r) k
            ⟨pc.roaCoverage + 1, pc.stateOfOther, n₂, v₂, o₂, pc.asn⟩ _ _ _ :=
          (hrep hs).add [] suppress (hok.nodup_ids (hadd.ids hs)) hkey hinv (.inl ⟨hinv, rfl⟩)
        rwa [List.append_nil] at hnew
  · have hcov : r.covers k = false := by
      rw [← Bool.not_eq_true, covers_iff, ← hmax]
      exact fun h => hlen h.2
    have hmatched : w.roa.withCount (w.roa.updateCount + UInt32.ofNat (matchedAt h r k)) =
        w.roa := by
      rw [matchedAt_not_covered hcov]
      exact congrArg w.roa.withCount (UInt32.add_zero _)
    have hcount : (h.addRoa r).coverCount k = h.coverCount k := by
      simp [History.coverCount_addRoa, hcov]
    have hmatch (as : UInt32) : (h.addRoa r).matchCount k as = h.matchCount k as := by
      simp [History.matchCount_addRoa, Roa.matches, hcov]
    rw [hmatched]
    by_cases hst : pc.stateOfOther = .notFound
    · obtain ⟨n₁, hchange, h₁⟩ := changeStateOfOther_eq pc hok.lists suppress .invalid w
      refine ⟨{ pc with stateOfOther := .invalid, nodes := n₁ },
        { w with reports := w.reports ++ reportsOf .invalid suppress lo }, some (), ?_,
        ⟨lv, lo, hok.congr rfl hcount hmatch h₁ rfl (.inl rfl) fun _ => rfl, fun hs => ?_⟩, rfl,
        ⟨_, rfl, hok.reportsAt fun x hx => List.mem_append_right _ hx⟩, rfl, by simp⟩
      · simp only [verifyUpdates, if_neg hlen, if_pos hst, hchange, Option.bind_eq_bind,
          Option.bind_some]
      · refine ⟨iff_of_true rfl ⟨r, List.mem_cons_self, hkey⟩, ?_, fun x hx =>
          lastReport_reportsOf ⟨x, hx, rfl⟩ _⟩
        intro x hx
        rw [lastReport_of_not_mem fun e he => ?_]
        · exact (hrep hs).valid x hx
        · obtain ⟨y, hy, hid⟩ := mem_reportsOf he
          exact hid ▸ ids_ne (hok.nodup_ids (hadd.ids hs)) hx hy
    · have hinv : pc.stateOfOther = .invalid := hok.state.resolve_right hst
      refine ⟨pc, w, none, ?_, ⟨lv, lo, hok.congr rfl hcount hmatch hok.lists rfl hok.state
        fun _ => hinv, fun hs => ⟨iff_of_true hinv ⟨r, List.mem_cons_self, hkey⟩,
          (hrep hs).valid, (hrep hs).other⟩⟩, rfl, ⟨[], by simp, by simp [ReportsAt]⟩, rfl,
        fun _ => ⟨hcov, hinv⟩⟩
      simp only [verifyUpdates, if_neg hlen, if_neg hst]

end Add

/-! ## Removing a ROA -/

/-- What is needed to remove a ROA that is present. In strict runs a ROA covers its own
prefix. -/
structure CanDel (strict : Prop) (h : History) (r : Roa) : Prop where
  mem : r ∈ h.roas
  ids : strict → (h.requests.map Request.updateID).Nodup
  covers : strict → ∀ r ∈ h.roas, r.covers r.key = true
  size : h.requests.length < 2 ^ 31

section Del

variable {strict : Prop} {h : History} {k : List Bool} {pc : PcPrefix} {w : WalkState} {r : Roa}
  {lv lo : List (Nat × PcUpdate)} {last : Bool}

theorem toNat_dec16 {n : UInt16} (hn : 0 < n.toNat) : (n - 1).toNat = n.toNat - 1 := by
  rw [UInt16.toNat_sub_of_le n 1 (UInt16.le_iff_toNat_le.mpr hn)]
  rfl

theorem toNat_dec32 {n : UInt32} (hn : 0 < n.toNat) : (n - 1).toNat = n.toNat - 1 := by
  rw [UInt32.toNat_sub_of_le n 1 (UInt32.le_iff_toNat_le.mpr hn)]
  rfl

theorem matchCount_delRoa_of_covers (hmem : r ∈ h.roas) (hcov : r.covers k = true) (as : UInt32) :
    (h.delRoa r).matchCount k as + (if r.as = as then 1 else 0) = h.matchCount k as := by
  rw [← History.matchCount_delRoa hmem, Roa.matches, hcov]
  simp

/-- All updates of the AS have the same `roa_match`. -/
theorem UpdatesOk.same (hok : UpdatesOk h k pc lv lo) (as : UInt32) :
    ∀ x ∈ lv, isOf as x = true →
      (x.2.roaMatch = 1 ↔ decide (h.matchCount k as = 1) = true) := by
  intro x hx hof
  rw [isOf_iff] at hof
  rw [decide_eq_true_eq, ← hof, ← (hok.valid x hx).1, ← UInt16.toNat_inj]
  rfl

theorem UpdatesOk.none_in_other (hok : UpdatesOk h k pc lv lo) (hmem : r ∈ h.roas)
    (hcov : r.covers k = true) : ∀ x ∈ lo, isOf r.as x = false := by
  intro x hx
  by_contra hof
  rw [Bool.not_eq_false, isOf_iff] at hof
  have hpos : 0 < h.matchCount k x.2.as :=
    History.matchCount_pos.mpr ⟨r, hmem, matches_iff.mpr ⟨covers_iff.mp hcov, hof.symm⟩⟩
  rw [(hok.other x hx).2] at hpos
  exact Nat.lt_irrefl 0 hpos

/-- The lists after the updates of the AS were counted and moved. -/
theorem UpdatesOk.del (hok : UpdatesOk h k pc lv lo) (hmem : r ∈ h.roas)
    (hcov : r.covers k = true) {pc' : PcPrefix}
    (hlast : last = decide (h.matchCount k r.as = 1))
    (hlists : TwoLists pc'.nodes pc'.valid pc'.other
        (if last then lv.filter fun x => !isOf r.as x
          else lv.map fun x => if isOf r.as x then decMatch x else x)
        (lo ++ (if last then lv.filter (isOf r.as) else []).map decMatch))
    (hcoverage : pc'.roaCoverage = pc.roaCoverage - 1)
    (hstate : pc'.stateOfOther = .invalid ∨ pc'.stateOfOther = .notFound)
    (hcovered : 0 < (h.delRoa r).coverCount k → pc'.stateOfOther = .invalid) :
    UpdatesOk (h.delRoa r) k pc' (if last then lv.filter fun x => !isOf r.as x
        else lv.map fun x => if isOf r.as x then decMatch x else x)
      (lo ++ (if last then lv.filter (isOf r.as) else []).map decMatch) := by
  have hmatch := matchCount_delRoa_of_covers hmem hcov
  refine ⟨hlists, ?_, ?_, ?_, ?_, hstate, hcovered⟩
  · refine List.Perm.trans ?_ hok.requests
    cases last with
    | true =>
      simp only [if_true, List.map_append, List.map_map]
      have hperm := (List.filter_append_perm (isOf r.as) lv).map fun x => (x.2.updateID, x.2.as)
      rw [List.map_append] at hperm
      refine List.Perm.trans ?_ (hperm.append_right _)
      refine (List.perm_append_comm.append_left _).trans ?_
      rw [← List.append_assoc]
      exact List.perm_append_comm.append_right _
    | false =>
      simp only [Bool.false_eq_true, if_false, List.map_nil, List.append_nil, List.map_append,
        List.map_map]
      refine List.Perm.append_right _ (.of_eq (List.map_congr_left fun x _ => ?_))
      by_cases hx : isOf r.as x = true <;> simp [hx, decMatch]
  · intro x hx
    cases last with
    | true =>
      obtain ⟨hx, hof⟩ := List.mem_filter.mp hx
      have has : r.as ≠ x.2.as := fun heq => by simp [isOf_iff.mpr heq.symm] at hof
      have := hmatch x.2.as
      rw [if_neg has, Nat.add_zero] at this
      rw [this]
      exact hok.valid x hx
    | false =>
      obtain ⟨y, hy, rfl⟩ := List.mem_map.mp hx
      obtain ⟨hy1, hy2⟩ := hok.valid y hy
      have hcount := hmatch y.2.as
      by_cases hof : isOf r.as y = true
      · have has := isOf_iff.mp hof
        rw [if_pos has.symm] at hcount
        have hne : h.matchCount k y.2.as ≠ 1 := by
          rw [has]
          simpa using hlast.symm
        simp only [if_pos hof, decMatch]
        exact ⟨by rw [toNat_dec16 (by omega)]; omega, by omega⟩
      · have has : r.as ≠ y.2.as := fun heq => hof (isOf_iff.mpr heq.symm)
        rw [if_neg has, Nat.add_zero] at hcount
        simp only [if_neg hof, hcount]
        exact ⟨hy1, hy2⟩
  · intro x hx
    rw [List.mem_append] at hx
    rcases hx with hx | hx
    · have := hmatch x.2.as
      obtain ⟨h1, h2⟩ := hok.other x hx
      exact ⟨h1, by omega⟩
    · cases last with
      | true =>
        obtain ⟨y, hy, rfl⟩ := List.mem_map.mp hx
        obtain ⟨hy, hof⟩ := List.mem_filter.mp hy
        have has := isOf_iff.mp hof
        have hone : h.matchCount k y.2.as = 1 := by
          rw [has]
          simpa using hlast.symm
        have hcount := hmatch y.2.as
        rw [if_pos has.symm] at hcount
        refine ⟨?_, by show (h.delRoa r).matchCount k y.2.as = 0; omega⟩
        show y.2.roaMatch - 1 = 0
        rw [((hok.same y.2.as y hy (isOf_iff.mpr rfl)).mpr (by simpa using hone))]
        rfl
      | false => simp at hx
  · have hcount := History.coverCount_delRoa (k := k) hmem
    rw [if_pos hcov] at hcount
    rw [hcoverage, toNat_dec32 (by rw [hok.coverage]; omega), hok.coverage]
    omega

theorem Reported.del {reports : List Report} (E : List Report) (suppress last : Bool)
    (hrep : Reported h k pc lv lo reports) (hids : ((lv ++ lo).map fun x => x.2.updateID).Nodup)
    {pc' : PcPrefix}
    (hstate : pc'.stateOfOther = .invalid ↔ ∃ r' ∈ (h.delRoa r).roas, r'.key <+: k)
    (hE : (pc'.stateOfOther = pc.stateOfOther ∧ E = []) ∨
      E = reportsOf pc'.stateOfOther suppress lo) :
    Reported (h.delRoa r) k pc' (if last then lv.filter fun x => !isOf r.as x
        else lv.map fun x => if isOf r.as x then decMatch x else x)
      (lo ++ (if last then lv.filter (isOf r.as) else []).map decMatch)
      (reports ++ E ++ reportsOf pc'.stateOfOther suppress
        (if last then lv.filter (isOf r.as) else [])) := by
  have hlv := (List.nodup_append.mp (List.map_append ▸ hids)).1
  have hEmem : ∀ e ∈ E, ∃ x ∈ lo, x.2.updateID = e.updateID := by
    intro e he
    rcases hE with ⟨-, rfl⟩ | rfl
    · simp at he
    · exact mem_reportsOf he
  -- An update that stays valid is not reported.
  have hkept {y : Nat × PcUpdate} (hy : y ∈ lv) (hnot : last = true → isOf r.as y = false) :
      lastReport (reports ++ E ++ reportsOf pc'.stateOfOther suppress
        (if last then lv.filter (isOf r.as) else [])) y.2.updateID = some .valid := by
    rw [lastReport_of_not_mem, lastReport_of_not_mem]
    · exact hrep.valid y hy
    · intro e he
      obtain ⟨x, hx, hid⟩ := hEmem e he
      exact hid ▸ ids_ne hids hy hx
    · intro e he heq
      obtain ⟨x, hx, hid⟩ := mem_reportsOf he
      cases last with
      | false => simp at hx
      | true =>
        obtain ⟨hx, hof⟩ := List.mem_filter.mp hx
        rw [List.inj_on_of_nodup_map hlv hx hy (hid.trans heq), hnot rfl] at hof
        exact Bool.false_ne_true hof
  refine ⟨hstate, ?_, ?_⟩
  · intro x hx
    cases last with
    | true =>
      obtain ⟨hx, hof⟩ := List.mem_filter.mp hx
      exact hkept hx fun _ => by simpa using hof
    | false =>
      obtain ⟨y, hy, rfl⟩ := List.mem_map.mp hx
      have hid : (if isOf r.as y then decMatch y else y).2.updateID = y.2.updateID := by
        split <;> rfl
      rw [hid]
      exact hkept hy (by simp)
  · intro x hx
    rw [List.mem_append] at hx
    rcases hx with hx | hx
    · rw [lastReport_of_not_mem]
      · rcases hE with ⟨hsame, rfl⟩ | rfl
        · rw [List.append_nil, hrep.other x hx, hsame]
        · exact lastReport_reportsOf ⟨x, hx, rfl⟩ _
      · intro e he
        obtain ⟨y, hy, hid⟩ := mem_reportsOf he
        cases last with
        | false => simp at hy
        | true => exact hid ▸ (ids_ne hids (List.mem_filter.mp hy).1 hx).symm
    · obtain ⟨y, hy, rfl⟩ := List.mem_map.mp hx
      exact lastReport_reportsOf ⟨y, hy, rfl⟩ _

/-- The state of other handed down to the prefix: is there a ROA above it? -/
def ParentOk (strict : Prop) (h : History) (k : List Bool) (state : SrxResult) : Prop :=
  strict → (state = .notFound ↔ ¬ ∃ r ∈ h.roas, r.key <+: k ∧ r.key ≠ k)

/-- Without a ROA above and without one that covers the prefix, no ROA is left. -/
theorem exists_roa_iff (hdel : CanDel strict h r) (hs : strict) {p : SrxResult}
    (hpar : ParentOk strict (h.delRoa r) k p) :
    (∃ r' ∈ (h.delRoa r).roas, r'.key <+: k) ↔
      ¬ (p = .notFound ∧ (h.delRoa r).coverCount k = 0) := by
  constructor
  · rintro ⟨r', hmem, hkey⟩ ⟨hp, hzero⟩
    by_cases heq : r'.key = k
    · have hcov := hdel.covers hs r' (List.mem_of_mem_erase hmem)
      have := History.coverCount_pos.mpr ⟨r', hmem, heq ▸ hcov⟩
      omega
    · exact (hpar hs).mp hp ⟨r', hmem, hkey, heq⟩
  · intro hnot
    by_cases hzero : (h.delRoa r).coverCount k = 0
    · have hp : ¬ p = .notFound := fun hp => hnot ⟨hp, hzero⟩
      rw [hpar hs, not_not] at hp
      obtain ⟨r', hmem, hkey, -⟩ := hp
      exact ⟨r', hmem, hkey⟩
    · obtain ⟨r', hmem, hcov⟩ := History.coverCount_pos.mp (Nat.pos_of_ne_zero hzero)
      exact ⟨r', hmem, (covers_iff.mp hcov).1⟩

/-- What a visit of `_delROAwl_validateUpdates` does for one prefix. -/
def DelVisit (strict : Prop) (h : History) (k : List Bool) (r : Roa) (pc : PcPrefix) (w : WalkState)
    (out : Option (PcPrefix × WalkState × Option SrxResult)) : Prop :=
  ∃ pc' w' next, out = some (pc', w', next) ∧
    NodeOk strict (h.delRoa r) k pc' w'.reports ∧ pc'.asn = pc.asn ∧
    (∃ E, w'.reports = w.reports ++ E ∧ ReportsAt h k E) ∧
    CountedOut (matchedAt h r k) w.roa w'.roa ∧
    match next with
    | some p' => p' = pc'.stateOfOther
    | none => r.covers k = false ∧ (strict → ∃ r' ∈ (h.delRoa r).roas, r'.key <+: k)

/-- The ROA covers the prefix. -/
theorem validateUpdates_covered (hok : NodeOk strict h k pc w.reports) (hdel : CanDel strict h r)
    (hkey : r.key <+: k) (has : w.roa.as = r.as) (hmax : w.roa.maxLen = r.maxLen)
    {p : SrxResult} (hpar : ParentOk strict (h.delRoa r) k p)
    (hcount : matchedAt h r k ≤ w.roa.updateCount.toNat) (suppress : Bool)
    (hlen : k.length ≤ w.roa.maxLen.toNat) :
    DelVisit strict h k r pc w (validateUpdates suppress k.length p pc w) := by
  obtain ⟨lv, lo, hok, hrep⟩ := hok
  have hinv : strict → pc.stateOfOther = .invalid := fun hs =>
    (hrep hs).state.mpr ⟨r, hdel.mem, hkey⟩
  have hcov_del := History.coverCount_delRoa (k := k) hdel.mem
  have hcov : r.covers k = true := covers_iff.mpr ⟨hkey, hmax ▸ hlen⟩
  rw [if_pos hcov] at hcov_del
  have hnone := hok.none_in_other hdel.mem hcov
  have hlo : lo.countP (isOf r.as) = 0 :=
    List.countP_eq_zero.mpr fun x hx => by simp [hnone x hx]
  have hmatched : matchedAt h r k = lv.countP (isOf r.as) := by
    rw [matchedAt_covered hok hcov, hlo, Nat.add_zero]
  unfold DelVisit
  rw [hmatched] at hcount ⊢
  have hcoverage : (pc.roaCoverage - 1).toNat = (h.delRoa r).coverCount k := by
    rw [toNat_dec32 (by rw [hok.coverage]; omega), hok.coverage]
    omega
  have hzero : pc.roaCoverage - 1 = 0 ↔ (h.delRoa r).coverCount k = 0 := by
    rw [← hcoverage, ← UInt32.toNat_inj]
    rfl
  have hsize := Nat.lt_of_le_of_lt hok.length_le hdel.size
  have hmoved (state : SrxResult) : ReportsAt h k (reportsOf state suppress
      (if decide (h.matchCount k r.as = 1) = true then lv.filter (isOf r.as) else [])) := by
    refine hok.reportsAt fun x hx => List.mem_append_left _ ?_
    split at hx
    · exact (List.mem_filter.mp hx).1
    · simp at hx
  by_cases hcond : p = .notFound ∧ pc.roaCoverage - 1 = 0
  · have hcond' : p = .notFound ∧ (h.delRoa r).coverCount k = 0 := ⟨hcond.1, hzero.mp hcond.2⟩
    obtain ⟨n₁, hchange, h₁⟩ := changeStateOfOther_eq
      { pc with roaCoverage := pc.roaCoverage - 1 } hok.lists suppress .notFound w
    obtain ⟨n₂, v₂, o₂, roa', hmove, hout, h₂⟩ := moveToOther_eq
      { pc with roaCoverage := pc.roaCoverage - 1, stateOfOther := .notFound, nodes := n₁ } h₁
      hsize suppress { w with reports := w.reports ++ reportsOf .notFound suppress lo } has
      hcount (hok.same r.as)
    refine ⟨⟨pc.roaCoverage - 1, .notFound, n₂, v₂, o₂, pc.asn⟩, ⟨roa', _⟩, some .notFound, ?_,
      ⟨_, _, hok.del hdel.mem hcov rfl h₂ rfl (.inr rfl) fun hpos => ?_, fun hs =>
        (hrep hs).del _ suppress _ (hok.nodup_ids (hdel.ids hs)) ?_ (.inr rfl)⟩, rfl,
      ⟨_, List.append_assoc .., ?_⟩, hout, rfl⟩
    · simp only [validateUpdates, if_pos hlen, if_pos hcond, hchange, hmove,
        Option.bind_eq_bind, Option.bind_some]
    · omega
    · rw [exists_roa_iff hdel hs hpar]
      simp [hcond']
    · intro e he
      rcases List.mem_append.mp he with he | he
      · exact hok.reportsAt (fun x hx => List.mem_append_right _ hx) e he
      · exact hmoved .notFound e he
  · have hcond' : ¬ (p = .notFound ∧ (h.delRoa r).coverCount k = 0) :=
      fun hc => hcond ⟨hc.1, hzero.mpr hc.2⟩
    obtain ⟨n₁, v₁, o₁, roa', hmove, hout, h₁⟩ := moveToOther_eq
      { pc with roaCoverage := pc.roaCoverage - 1 } hok.lists hsize suppress w has hcount
      (hok.same r.as)
    refine ⟨⟨pc.roaCoverage - 1, pc.stateOfOther, n₁, v₁, o₁, pc.asn⟩,
      ⟨roa', w.reports ++ reportsOf pc.stateOfOther suppress (if
        decide (h.matchCount k r.as = 1) = true then lv.filter (isOf r.as) else [])⟩,
      some pc.stateOfOther, ?_, ⟨_, _, hok.del hdel.mem hcov rfl h₁ rfl hok.state fun hpos =>
        hok.covered (by omega), fun hs => ?_⟩, rfl, ⟨_, rfl, hmoved _⟩, hout, rfl⟩
    · simp only [validateUpdates, if_pos hlen, if_neg hcond, hmove, Option.bind_eq_bind,
        Option.bind_some]
    · have hnew : Reported (h.delRoa r) k
          ⟨pc.roaCoverage - 1, pc.stateOfOther, n₁, v₁, o₁, pc.asn⟩ _ _ _ :=
        (hrep hs).del [] suppress (decide (h.matchCount k r.as = 1))
          (hok.nodup_ids (hdel.ids hs)) (iff_of_true (hinv hs)
            ((exists_roa_iff hdel hs hpar).mpr hcond')) (.inl ⟨rfl, rfl⟩)
      rwa [List.append_nil] at hnew

/-- The ROA does not cover the prefix. -/
theorem validateUpdates_notCovered (hok : NodeOk strict h k pc w.reports)
    (hdel : CanDel strict h r) (hkey : r.key <+: k) (hmax : w.roa.maxLen = r.maxLen)
    {p : SrxResult} (hpar : ParentOk strict (h.delRoa r) k p) (suppress : Bool)
    (hlen : ¬ k.length ≤ w.roa.maxLen.toNat) :
    DelVisit strict h k r pc w (validateUpdates suppress k.length p pc w) := by
  obtain ⟨lv, lo, hok, hrep⟩ := hok
  have hinv : strict → pc.stateOfOther = .invalid := fun hs =>
    (hrep hs).state.mpr ⟨r, hdel.mem, hkey⟩
  have hcov_del := History.coverCount_delRoa (k := k) hdel.mem
  have hcov : r.covers k = false := by
    rw [← Bool.not_eq_true, covers_iff, ← hmax]
    exact fun h => hlen h.2
  have hcount' : (h.delRoa r).coverCount k = h.coverCount k := by
    simpa [hcov] using hcov_del
  have hmatch (as : UInt32) : (h.delRoa r).matchCount k as = h.matchCount k as := by
    simpa [Roa.matches, hcov] using
      (@History.matchCount_delRoa h r k as hdel.mem)
  have hzero : pc.roaCoverage = 0 ↔ (h.delRoa r).coverCount k = 0 := by
    rw [hcount', ← hok.coverage, ← UInt32.toNat_inj]
    rfl
  unfold DelVisit
  rw [matchedAt_not_covered hcov]
  by_cases hcond : pc.roaCoverage = 0 ∧ p = .notFound
  · have hnone : (h.delRoa r).coverCount k = 0 := hzero.mp hcond.1
    obtain ⟨n₁, hchange, h₁⟩ := changeStateOfOther_eq pc hok.lists suppress .notFound w
    refine ⟨{ pc with stateOfOther := .notFound, nodes := n₁ },
      { w with reports := w.reports ++ reportsOf .notFound suppress lo }, some .notFound, ?_,
      ⟨lv, lo, hok.congr rfl hcount' hmatch h₁ rfl (.inr rfl) fun hpos => ?_, fun hs =>
        ⟨?_, fun x hx => ?_, fun x hx => lastReport_reportsOf ⟨x, hx, rfl⟩ _⟩⟩, rfl,
      ⟨_, rfl, hok.reportsAt fun x hx => List.mem_append_right _ hx⟩, countedOut_zero _, rfl⟩
    · simp only [validateUpdates, if_neg hlen, if_pos hcond, hchange, Option.bind_eq_bind,
        Option.bind_some]
    · omega
    · rw [exists_roa_iff hdel hs hpar]
      simp [hcond.2, hnone]
    · rw [lastReport_of_not_mem fun e he => ?_]
      · exact (hrep hs).valid x hx
      · obtain ⟨y, hy, hid⟩ := mem_reportsOf he
        exact hid ▸ ids_ne (hok.nodup_ids (hdel.ids hs)) hx hy
  · have hcond' : ¬ (p = .notFound ∧ (h.delRoa r).coverCount k = 0) :=
      fun hc => hcond ⟨hzero.mpr hc.2, hc.1⟩
    have hleft (hs : strict) := (exists_roa_iff hdel hs hpar).mpr hcond'
    refine ⟨pc, w, none, ?_, ⟨lv, lo, hok.congr rfl hcount' hmatch hok.lists rfl hok.state
      hok.covered, fun hs => ⟨iff_of_true (hinv hs) (hleft hs), (hrep hs).valid,
        (hrep hs).other⟩⟩, rfl, ⟨[], by simp, by simp [ReportsAt]⟩, countedOut_zero _,
      hcov, hleft⟩
    simp only [validateUpdates, if_neg hlen, if_neg hcond]

/-- A visit of `_delROAwl_validateUpdates`. -/
theorem validateUpdates_ok (hok : NodeOk strict h k pc w.reports) (hdel : CanDel strict h r)
    (hkey : r.key <+: k) (has : w.roa.as = r.as) (hmax : w.roa.maxLen = r.maxLen)
    {p : SrxResult} (hpar : ParentOk strict (h.delRoa r) k p)
    (hcount : matchedAt h r k ≤ w.roa.updateCount.toNat) (suppress : Bool) :
    DelVisit strict h k r pc w (validateUpdates suppress k.length p pc w) := by
  by_cases hlen : k.length ≤ w.roa.maxLen.toNat
  · exact validateUpdates_covered hok hdel hkey has hmax hpar hcount suppress hlen
  · exact validateUpdates_notCovered hok hdel hkey hmax hpar suppress hlen

end Del

end SrxSuite.Cache

import SrxSuite.PrefixCache.Coverage

/-!
# The invariant of the prefix cache

`Inv` holds when every prefix in the tree satisfies its invariants (`NodeOk`, `AsnOk`) and every
prefix that is in use is in the tree. Here are the facts about the tree that follow, and
`Inv.request`: a request of an update keeps the invariant. A new prefix takes its state from the
prefix above (`parentState_covered`, `parentState_strict`) and its coverage from the ROAs on the
way up.
-/

namespace SrxSuite.Cache

open Util Util.SListLemmas UpdateLemmas NodeLemmas RoaLemmas TreeLemmas

/-- The invariant of the prefix cache for a history. -/
structure Inv (strict exact : Prop) (h : History) (c : PrefixCache) : Prop where
  node : ∀ k pc, dataAt c.prefixTree k = some pc → NodeOk strict h k pc c.reports
  asn : ∀ k pc, dataAt c.prefixTree k = some pc → AsnOk exact h k pc.asn
  roas : ∀ r ∈ h.roas, dataAt c.prefixTree r.key ≠ none
  requests : ∀ q ∈ h.requests, dataAt c.prefixTree q.key ≠ none
  covers : strict → ∀ r ∈ h.roas, r.covers r.key = true
  ids : strict → (h.requests.map Request.updateID).Nodup
  size : h.requests.length < 2 ^ 31

/-- The empty cache. -/
theorem inv_init (strict exact : Prop) : Inv strict exact .empty initializePrefixCache where
  node k pc hpc := by simp [initializePrefixCache] at hpc
  asn k pc hpc := by simp [initializePrefixCache] at hpc
  roas r hr := by simp [History.empty] at hr
  requests q hq := by simp [History.empty] at hq
  covers _ r hr := by simp [History.empty] at hr
  ids _ := List.nodup_nil
  size := by simp [History.empty]

section Facts

variable {strict exact : Prop} {h : History} {c : PrefixCache} {k u : List Bool}

/-- The part of the invariant that is not about updates. -/
theorem Inv.coverageOk (hinv : Inv strict exact h c) : CoverageOk h c where
  entries k pc hpc := by
    have hasn := hinv.asn k pc hpc
    refine ⟨hasn.nodup, hasn.roas.sums, fun e he => ?_⟩
    have hok := hasn.roas.entries e he
    exact ⟨hok.as, hok.pos, Nat.zero_le _, False.elim⟩
  coverage k pc hpc := by
    obtain ⟨lv, lo, hok, -⟩ := hinv.node k pc hpc
    exact hok.coverage
  state k pc hpc := by
    obtain ⟨lv, lo, hok, -⟩ := hinv.node k pc hpc
    exact hok.state
  covered k pc hpc := by
    obtain ⟨lv, lo, hok, -⟩ := hinv.node k pc hpc
    exact hok.covered
  roas := hinv.roas

/-- An entry in the tree is a ROA that is present. -/
theorem Inv.entry (hinv : Inv strict exact h c) {e : UInt32 × PcRoa}
    (he : e ∈ entriesAt c.prefixTree k) :
    EntryOk exact h k e ∧ roaOf k e ∈ h.roas ∧ e.2.roaCount.toNat ≤ h.roas.count (roaOf k e) := by
  unfold entriesAt at he
  cases hpc : dataAt c.prefixTree k with
  | none => simp [hpc] at he
  | some pc =>
    rw [hpc] at he
    have hok := (hinv.asn k pc hpc).roas
    exact ⟨hok.entries e he, hok.mem he, hok.count he⟩

/-! ## The prefix above -/

theorem Inv.parentState_strict (hinv : Inv strict exact h c) (hs : strict) (k : List Bool) :
    parentState c.prefixTree k = .invalid ↔ ∃ r ∈ h.roas, r.key <+: k ∧ r.key ≠ k := by
  constructor
  · intro hinvalid
    have hspec := getParent_spec c.prefixTree k
    unfold parentState at hinvalid
    cases hpar : getParent c.prefixTree k with
    | none => simp [hpar] at hinvalid
    | some pc =>
      rw [hpar] at hspec hinvalid
      obtain ⟨j, hj, hjne, hpc, -⟩ := hspec
      obtain ⟨lv, lo, -, hrep⟩ := hinv.node j pc hpc
      obtain ⟨r, hr, hkey⟩ := (hrep hs).state.mp hinvalid
      refine ⟨r, hr, hkey.trans hj, fun heq => hjne ?_⟩
      exact hj.eq_of_length_le (heq ▸ hkey.length_le)
  · rintro ⟨r, hr, hkey, hne⟩
    obtain ⟨j, pc, hrj, -, hpc, hstate⟩ := hinv.coverageOk.parent_of_roa hr hkey hne
    obtain ⟨lv, lo, -, hrep⟩ := hinv.node j pc hpc
    rw [hstate]
    exact (hrep hs).state.mpr ⟨r, hr, hrj⟩

/-- A new prefix with the right coverage. -/
theorem Inv.newPrefix (hinv : Inv strict exact h c) (hnone : dataAt c.prefixTree k = none)
    {coverage : UInt32} (hcov : coverage.toNat = h.coverCount k) {pc : PcPrefix}
    (hpc : pc = { emptyPrefix (parentState c.prefixTree k) with roaCoverage := coverage }) :
    UpdatesOk h k pc [] [] ∧ (strict → Reported h k pc [] [] c.reports) ∧
      AsnOk exact h k pc.asn := by
  subst hpc
  have hroas : ∀ r ∈ h.roas, r.key ≠ k := fun r hr heq => hinv.roas r hr (heq ▸ hnone)
  have hreqs : ∀ q ∈ h.requests, q.key ≠ k := fun q hq heq => hinv.requests q hq (heq ▸ hnone)
  refine ⟨⟨twoLists_init, ?_, by simp, by simp, hcov, hinv.coverageOk.parentState_cases k,
    hinv.coverageOk.parentState_covered hnone⟩, fun hs => ⟨?_, by simp, by simp⟩, asnOk_nil hroas hreqs⟩
  · have hnil : h.requestsAt k = [] :=
      List.filter_eq_nil_iff.mpr fun q hq => by simpa using hreqs q hq
    rw [hnil]
    exact List.Perm.nil
  · refine (hinv.parentState_strict hs k).trans ⟨fun ⟨r, hr, hkey, _⟩ => ⟨r, hr, hkey⟩, ?_⟩
    rintro ⟨r, hr, hkey⟩
    exact ⟨r, hr, hkey, hroas r hr⟩

end Facts

/-! ## Requesting an update -/

/-- The way up from the prefix `k`, whatever the state of the prefixes is. -/
theorem performUpdateValidationKnownPrefix_eq {h : History} {c : PrefixCache} {k : List Bool}
    {pc : PcPrefix} {isNew : Bool} {as : UInt32} {t : PrefixTree}
    {lv lo : List (Nat × PcUpdate)} (id : UInt32)
    (ht : t = setData c.prefixTree k (some { pc with asn := countUpdate pc.asn as }))
    (hsums : SumsOk h t)
    (hstop : ∀ u pc, u <+: k → dataAt t u = some pc → goesOn isNew pc = false →
      ∀ u' pc', u' <+: u → dataAt t u' = some pc' →
        ∀ e ∈ roaEntries pc'.asn, ¬ k.length ≤ e.2.maxLen.toNat)
    (hone : isNew = true → ∀ e ∈ roasAbove t k, k.length ≤ e.2.maxLen.toNat → e.2.roaCount = 1)
    (hlists : TwoLists pc.nodes pc.valid pc.other lv lo)
    (hsize : lv.length + lo.length + 1 < 2 ^ 31) {m : UInt16}
    (hm : m = UInt16.ofNat (h.matchCount k as)) :
    ∃ t' nodes valid other,
      performUpdateValidationKnownPrefix c k pc id as isNew = some (true,
        ⟨t', c.reports ++ [⟨id, if m = 0 then pc.stateOfOther else .valid, false⟩]⟩) ∧
      (∀ u, dataAt t' u = requestData c.prefixTree k as
        ⟨if isNew then pc.roaCoverage + UInt32.ofNat (h.coverCount k) else pc.roaCoverage,
          pc.stateOfOther, nodes, valid, other,
          coverRoas k.length as (countUpdate pc.asn as)⟩ u) ∧
      TwoLists nodes valid other
        (if m = 0 then lv else lv ++ [(pc.nodes.fresh, ⟨id, as, m⟩)])
        (if m = 0 then lo ++ [(pc.nodes.fresh, ⟨id, as, m⟩)] else lo) := by
  obtain ⟨t', hcall, hdata⟩ := knownPrefix_call id ht hsums hstop
  have hcover : (if isNew then pc.roaCoverage + UInt32.ofNat (coverEntries k.length (roasAbove t k))
      else pc.roaCoverage) =
      if isNew then pc.roaCoverage + UInt32.ofNat (h.coverCount k) else pc.roaCoverage := by
    split
    · next hnew => rw [coverEntries_eq (hone hnew), coverSum_roasAbove hsums]
    · rfl
  rw [hcover, ← hm] at hcall
  obtain ⟨nodes, valid, other, hput, hlists'⟩ := prefixNotCovered_eq
    ⟨if isNew then pc.roaCoverage + UInt32.ofNat (h.coverCount k) else pc.roaCoverage,
      pc.stateOfOther, pc.nodes, pc.valid, pc.other,
      coverRoas k.length as (countUpdate pc.asn as)⟩ hlists hsize ⟨id, as, m⟩
  rw [hput] at hcall
  exact ⟨_, nodes, valid, other, hcall, fun u => hdata _ u, hlists'⟩

section Request

variable {strict exact : Prop} {h : History} {c : PrefixCache}

/-- What a request for an update with the prefix `k` does, `m` being the number of ROAs that match: `pc`
is the prefix before with its updates `lv` and `lo`, and `pc'` the one afterwards. -/
def RequestDone (strict exact : Prop) (h : History) (c : PrefixCache) (id : UInt32) (k : List Bool)
    (as : UInt32) (m : UInt16) (out : Option (Bool × PrefixCache)) : Prop :=
  ∃ pc t' pc' lv lo a,
    out = some (true, ⟨t', c.reports ++ [⟨id, if m = 0 then pc.stateOfOther else .valid, false⟩]⟩) ∧
    (∀ u, dataAt t' u = requestData c.prefixTree k as pc' u) ∧
    UpdatesOk h k pc lv lo ∧ (strict → Reported h k pc lv lo c.reports) ∧
    AsnOk exact h k pc.asn ∧ roaEntries pc.asn = entriesAt c.prefixTree k ∧
    pc'.asn = coverRoas k.length as (countUpdate pc.asn as) ∧
    pc'.stateOfOther = pc.stateOfOther ∧ pc'.roaCoverage = pc.roaCoverage ∧
    TwoLists pc'.nodes pc'.valid pc'.other
      (if m = 0 then lv else lv ++ [(a, ⟨id, as, m⟩)])
      (if m = 0 then lo ++ [(a, ⟨id, as, m⟩)] else lo)

section Cases

variable {k : List Bool} {id as : UInt32} {m : UInt16} {pc : PcPrefix}

/-- A new prefix. -/
theorem Inv.request_new (hinv : Inv strict exact h c) (hnode : nodeAt c.prefixTree k = .glue)
    (hcover : h.coverCount k < 2 ^ 32)
    (hsingle : ∀ r ∈ h.roas, r.covers k = true → h.roas.count r = 1)
    (hm : m = UInt16.ofNat (h.matchCount k as)) :
    RequestDone strict exact h c id k as m (performUpdateValidationNewPrefix c k id as) := by
  have hnone : dataAt c.prefixTree k = none := by rw [dataAt, hnode]; rfl
  have hempty : entriesAt c.prefixTree k = [] := by rw [entriesAt, hnone]; rfl
  have hentries := @entriesAt_setData c.prefixTree k
    { emptyPrefix (parentState c.prefixTree k) with asn := countUpdate [] as }
    (by rw [hempty, roaEntries_countUpdate]; rfl)
  obtain ⟨t, ht⟩ : ∃ t, t = setData c.prefixTree k
    (some { emptyPrefix (parentState c.prefixTree k) with asn := countUpdate [] as }) := ⟨_, rfl⟩
  rw [← ht] at hentries
  have hsums : SumsOk h t := fun u p => by rw [hentries]; exact hinv.coverageOk.sumsOk u p
  have hstop := hinv.coverageOk.stop_new hnone (by rw [roaEntries_countUpdate]; rfl) rfl ht
  have hone : true = true → ∀ e ∈ roasAbove t k, k.length ≤ e.2.maxLen.toNat → e.2.roaCount = 1 := by
    intro _ e he hlen
    obtain ⟨u, hu, he⟩ := mem_roasAbove.mp he
    rw [hentries] at he
    obtain ⟨hok, hmem, hle⟩ := hinv.entry he
    rw [hsingle _ hmem (covers_iff.mpr ⟨hu, hlen⟩)] at hle
    exact UInt16.toNat_inj.mp (Nat.le_antisymm hle hok.pos)
  obtain ⟨t', nodes, valid, other, heq, hdata', hlists⟩ :=
    performUpdateValidationKnownPrefix_eq id ht hsums hstop hone twoLists_init (by simp) hm
  have hcov : (UInt32.ofNat (h.coverCount k)).toNat = h.coverCount k :=
    Nat.mod_eq_of_lt hcover
  obtain ⟨hok, hrep, hasn⟩ := hinv.newPrefix hnone hcov rfl
  refine ⟨{ emptyPrefix (parentState c.prefixTree k) with
      roaCoverage := UInt32.ofNat (h.coverCount k) }, t', _, [], [], 0, heq, hdata', hok, hrep,
    hasn, hempty.symm, rfl, rfl, ?_, hlists⟩
  exact UInt32.zero_add _

/-- A prefix that is there, and a ROA covers it. -/
theorem Inv.request_covered (hinv : Inv strict exact h c) (hpc : dataAt c.prefixTree k = some pc)
    (hsize : h.requests.length + 1 < 2 ^ 31) (hcov : 0 < pc.roaCoverage)
    (hm : m = UInt16.ofNat (h.matchCount k as)) :
    RequestDone strict exact h c id k as m
      (performUpdateValidationKnownPrefix c k pc id as false) := by
  obtain ⟨lv, lo, hok, hrep⟩ := hinv.node k pc hpc
  have hasn := hinv.asn k pc hpc
  have hlen := hok.length_le
  have hentries := @entriesAt_setData c.prefixTree k
    { pc with asn := countUpdate pc.asn as }
    (by rw [entriesAt_of_dataAt hpc, roaEntries_countUpdate])
  obtain ⟨t, ht⟩ : ∃ t, t = setData c.prefixTree k
    (some { pc with asn := countUpdate pc.asn as }) := ⟨_, rfl⟩
  rw [← ht] at hentries
  have hstop := hinv.coverageOk.stop_known hpc (roaEntries_countUpdate ..)
    (show 0 < PcPrefix.roaCoverage { pc with asn := countUpdate pc.asn as } from hcov) ht
  obtain ⟨t', nodes, valid, other, heq, hdata', hlists⟩ :=
    performUpdateValidationKnownPrefix_eq id ht
      (fun u p => by rw [hentries]; exact hinv.coverageOk.sumsOk u p) hstop
      (fun hfalse => absurd hfalse Bool.false_ne_true) hok.lists (by omega) hm
  refine ⟨pc, t', _, lv, lo, _, ?_, hdata', hok, hrep, hasn, (entriesAt_of_dataAt hpc).symm,
    rfl, rfl, rfl, hlists⟩
  exact heq

/-- A prefix that is there, and no ROA covers it: there is none to count. -/
theorem Inv.request_uncovered (hinv : Inv strict exact h c) (hpc : dataAt c.prefixTree k = some pc)
    (hsize : h.requests.length + 1 < 2 ^ 31) (hcov : ¬ 0 < pc.roaCoverage)
    (hm : m = UInt16.ofNat (h.matchCount k as)) :
    RequestDone strict exact h c id k as m
      ((appendDataToSList pc.nodes pc.other ⟨id, as, 0⟩).bind fun out =>
        some (true, ⟨setData c.prefixTree k (some
            { pc with nodes := out.1, other := out.2, asn := countUpdate pc.asn as }),
          c.reports ++ [⟨id, pc.stateOfOther, false⟩]⟩)) := by
  obtain ⟨lv, lo, hok, hrep⟩ := hinv.node k pc hpc
  have hasn := hinv.asn k pc hpc
  have hlen := hok.length_le
  have hzero := hinv.coverageOk.coverCount_of_coverage hpc hcov
  have hnone {u : List Bool} (hu : u <+: k) :=
    hinv.coverageOk.no_entries_above (k := k) hzero List.prefix_rfl hu
  have hm0 : m = 0 := by
    have hle := matchCount_le_coverCount h k as
    rw [hzero] at hle
    rw [hm, Nat.le_zero.mp hle]
    rfl
  have hself : coverRoas k.length as (countUpdate pc.asn as) = countUpdate pc.asn as := by
    refine coverRoas_self fun e he => ?_
    rw [roaEntries_countUpdate, ← entriesAt_of_dataAt hpc] at he
    exact hnone List.prefix_rfl e he
  obtain ⟨nodes, other, happend, hlists⟩ := hok.lists.symm.append (by omega) ⟨id, as, 0⟩
  refine ⟨pc, setData c.prefixTree k (some { pc with
      nodes := nodes, other := other, asn := countUpdate pc.asn as }),
    { pc with nodes := nodes, other := other, asn := countUpdate pc.asn as }, lv, lo,
    pc.nodes.fresh, ?_, fun u => ?_, hok, hrep, hasn, (entriesAt_of_dataAt hpc).symm,
    hself.symm, rfl, rfl, ?_⟩
  · simp only [happend, hm0, Option.bind_some, if_true]
  · rw [dataAt_setData, requestData]
    split
    · rfl
    · split
      · next hu =>
        cases hpu : dataAt c.prefixTree u with
        | none => rfl
        | some pu =>
          have := hnone hu
          rw [entriesAt_of_dataAt hpu] at this
          rw [Option.map_some, coverRoas_self this]
      · rfl
  · rw [if_pos hm0, if_pos hm0, hm0]
    exact hlists.symm

/-- What a request does, whatever number of ROAs match the update. -/
theorem Inv.request_eq (hinv : Inv strict exact h c) (id : UInt32) (p : IPPrefix) (as : UInt32)
    (hdata : nodeAt c.prefixTree p.key ≠ .entry none) (hsize : h.requests.length + 1 < 2 ^ 31)
    (hcover : h.coverCount p.key < 2 ^ 32)
    (hsingle : nodeAt c.prefixTree p.key = .glue → ∀ r ∈ h.roas, r.covers p.key = true →
      h.roas.count r = 1) (hm : m = UInt16.ofNat (h.matchCount p.key as)) :
    RequestDone strict exact h c id p.key as m (requestUpdateValidation c id p as) := by
  unfold requestUpdateValidation
  generalize p.key = k at *
  cases hnode : nodeAt c.prefixTree k with
  | glue => exact hinv.request_new hnode hcover (hsingle hnode) hm
  | entry data =>
    cases data with
    | none => exact absurd hnode hdata
    | some pc =>
      have hpc : dataAt c.prefixTree k = some pc := by rw [dataAt, hnode]; rfl
      dsimp only
      split
      · next hcov => exact hinv.request_covered hpc hsize hcov hm
      · next hcov => exact hinv.request_uncovered hpc hsize hcov hm

end Cases

/-- What is needed to request an update: the prefix was not freed before, no counter overflows,
and a prefix that gets new into the tree is not covered by a ROA with duplicates. -/
structure RequestOk (h : History) (c : PrefixCache) (q : Request) : Prop where
  data : nodeAt c.prefixTree q.key ≠ .entry none
  single : nodeAt c.prefixTree q.key = .glue → ∀ r ∈ h.roas, r.covers q.key = true →
    h.roas.count r = 1
  size : h.requests.length + 1 < 2 ^ 31
  fitsCover : h.coverCount q.key < 2 ^ 32
  fitsMatch : h.matchCount q.key q.as < 2 ^ 16
  fitsUpdates : ∀ k, ∀ e ∈ entriesAt c.prefixTree k, e.2.updateCount.toNat + 1 < 2 ^ 32

theorem requestData_ne_none {t : PrefixTree} {k u : List Bool} {as : UInt32} {pc : PcPrefix}
    (hu : dataAt t u ≠ none) : requestData t k as pc u ≠ none := by
  unfold requestData
  split
  · simp
  · split
    · simpa using hu
    · exact hu

/-- A request of an update keeps the invariant. -/
theorem Inv.request (hinv : Inv strict exact h c) {id : UInt32} {p : IPPrefix} {as : UInt32}
    (hcan : RequestOk h c ⟨id, p.key, as⟩)
    (hfresh : strict → ∀ q ∈ h.requests, q.updateID ≠ id) :
    ∃ c', requestUpdateValidation c id p as = some (true, c') ∧
      Inv strict exact (h.addRequest ⟨id, p.key, as⟩) c' := by
  obtain ⟨pc, t', pc', lv, lo, a, heq, hdata, hok, hrep, hasn, hentries, hasn', hstate, hcoverage,
    hlists⟩ := hinv.request_eq id p as hcan.data hcan.size hcan.fitsCover hcan.single rfl
  refine ⟨_, heq, ?_, ?_, ?_, ?_, hinv.covers, ?_, ?_⟩
  · intro u pcu hpcu
    rw [hdata, requestData] at hpcu
    split at hpcu
    · next hu =>
      obtain rfl := Option.some.inj hpcu
      subst hu
      exact ⟨_, _, hok.request rfl hcan.fitsMatch hlists hcoverage hstate, fun hs =>
        (hrep hs).request hok (hfresh hs) hstate⟩
    · next hu =>
      split at hpcu
      · obtain ⟨pcu, hold, rfl⟩ := Option.map_eq_some_iff.mp hpcu
        exact (hinv.node u pcu hold).request_other (Ne.symm hu) hfresh _ _
      · exact (hinv.node u pcu hpcu).request_other (Ne.symm hu) hfresh pcu.asn _
  · intro u pcu hpcu
    rw [hdata, requestData] at hpcu
    split at hpcu
    · next hu =>
      obtain rfl := Option.some.inj hpcu
      subst hu
      rw [hasn']
      refine AsnOk.request_at (q := ⟨id, p.key, as⟩) hasn ?_ fun e he => ?_
      · exact Nat.lt_trans hcan.size (by decide)
      · exact hcan.fitsUpdates p.key e (hentries ▸ he)
    · next hu =>
      split at hpcu
      · next hpre =>
        obtain ⟨pcu, hold, rfl⟩ := Option.map_eq_some_iff.mp hpcu
        refine (hinv.asn u pcu hold).request_above hpre (Ne.symm hu) fun e he => ?_
        exact hcan.fitsUpdates u e (entriesAt_of_dataAt hold ▸ he)
      · next hpre => exact (hinv.asn u pcu hpcu).request_other hpre
  · intro r hr
    rw [hdata]
    exact requestData_ne_none (hinv.roas r hr)
  · intro q hq
    rw [hdata]
    rcases List.mem_append.mp hq with hq | hq
    · exact requestData_ne_none (hinv.requests q hq)
    · rw [List.mem_singleton.mp hq, requestData, if_pos rfl]
      simp
  · intro hs
    rw [History.addRequest, List.map_append, List.nodup_append]
    refine ⟨hinv.ids hs, by simp, ?_⟩
    intro x hx y hy
    obtain ⟨q, hq, rfl⟩ := List.mem_map.mp hx
    rw [List.map_singleton, List.mem_singleton] at hy
    exact hy ▸ hfresh hs q hq
  · rw [History.addRequest, List.length_append]
    exact hcan.size

end Request

end SrxSuite.Cache

import SrxSuite.PrefixCache.Tree

/-!
# The coverage of the prefixes

`CoverageOk` relates the ROAs in the tree, `roa_coverage` and `state_of_other` to the history of the
cache. It says nothing about updates: it does not matter what the lists `valid` and `other` hold and
whether `update_count` and `roa_match` overflow.

A node of the tree is created by a request or by `addROAwl`. Both take the state from the prefix
above and count the ROAs on the way up (`roasAbove`). A request counts every entry once
(`knownPrefix_call`), `addROAwl` counts `roa_count` (`createPrefix_eq`).
-/

namespace SrxSuite.Cache

open Util UpdateLemmas NodeLemmas RoaLemmas TreeLemmas

/-- The keys above a child are the node itself and the keys above it. -/
theorem above_child {j w : List Bool} {b : Bool} :
    j <+: w ++ [b] ∧ j ≠ w ++ [b] ↔ j <+: w := by
  rw [List.prefix_concat_iff]
  constructor
  · rintro ⟨heq | hpre, hne⟩
    · exact absurd heq hne
    · exact hpre
  · intro hpre
    refine ⟨.inr hpre, fun heq => ?_⟩
    have := hpre.length_le
    rw [heq, List.length_append, List.length_singleton] at this
    omega

/-- The ROAs in the list of the prefix `k`. The history without its requests makes no demands on
`update_count`. -/
structure EntriesOk (h : History) (k : List Bool) (asn : List PcAs) : Prop where
  nodup : (asn.map PcAs.asn).Nodup
  roas : RoasOk False ⟨h.roas, []⟩ k (roaEntries asn)

/-- The coverage of the prefixes for a history. -/
structure CoverageOk (h : History) (c : PrefixCache) : Prop where
  entries : ∀ k pc, dataAt c.prefixTree k = some pc → EntriesOk h k pc.asn
  coverage : ∀ k pc, dataAt c.prefixTree k = some pc → pc.roaCoverage.toNat = h.coverCount k
  state : ∀ k pc, dataAt c.prefixTree k = some pc →
    pc.stateOfOther = .invalid ∨ pc.stateOfOther = .notFound
  covered : ∀ k pc, dataAt c.prefixTree k = some pc → 0 < h.coverCount k →
    pc.stateOfOther = .invalid
  roas : ∀ r ∈ h.roas, dataAt c.prefixTree r.key ≠ none

/-- The empty cache. -/
theorem coverageOk_init : CoverageOk .empty initializePrefixCache where
  entries k pc hpc := by simp [initializePrefixCache] at hpc
  coverage k pc hpc := by simp [initializePrefixCache] at hpc
  state k pc hpc := by simp [initializePrefixCache] at hpc
  covered k pc hpc := by simp [initializePrefixCache] at hpc
  roas r hr := by simp [History.empty] at hr

theorem entriesAt_of_dataAt {t : PrefixTree} {k : List Bool} {pc : PcPrefix}
    (hpc : dataAt t k = some pc) : entriesAt t k = roaEntries pc.asn := by
  rw [entriesAt, hpc]
  rfl

/-- Only the updates of a prefix are changed. -/
theorem entriesAt_setData {t : PrefixTree} {k : List Bool} {pc : PcPrefix}
    (hpc : roaEntries pc.asn = entriesAt t k) (u : List Bool) :
    entriesAt (setData t k (some pc)) u = entriesAt t u := by
  rw [entriesAt, dataAt_setData]
  split
  · next heq => rw [heq, ← hpc]; rfl
  · rfl

namespace CoverageOk

variable {h : History} {c : PrefixCache} {k u : List Bool}

theorem sumsOk (hok : CoverageOk h c) : SumsOk h c.prefixTree := by
  intro k p
  unfold entriesAt
  cases hpc : dataAt c.prefixTree k with
  | some pc => exact (hok.entries k pc hpc).roas.sums p
  | none =>
    refine (List.countP_eq_zero.mpr fun r hr hkey => ?_).symm
    simp only [decide_eq_true_eq] at hkey
    exact hok.roas r hr (hkey.1 ▸ hpc)

/-- An entry in the tree is a ROA that is present. -/
theorem entry (hok : CoverageOk h c) {e : UInt32 × PcRoa} (he : e ∈ entriesAt c.prefixTree k) :
    0 < e.2.roaCount.toNat ∧ roaOf k e ∈ h.roas ∧
      e.2.roaCount.toNat ≤ h.roas.count (roaOf k e) := by
  unfold entriesAt at he
  cases hpc : dataAt c.prefixTree k with
  | none => simp [hpc] at he
  | some pc =>
    rw [hpc] at he
    have hroas := (hok.entries k pc hpc).roas
    exact ⟨(hroas.entries e he).pos, hroas.mem he, hroas.count he⟩

/-- Above a prefix that is not covered there is no ROA for longer prefixes. -/
theorem no_entries_above (hok : CoverageOk h c) (hzero : h.coverCount u = 0)
    (hu : u <+: k) {u' : List Bool} (hu' : u' <+: u) :
    ∀ e ∈ entriesAt c.prefixTree u', ¬ k.length ≤ e.2.maxLen.toNat := by
  intro e he hlen
  have hcov : (roaOf u' e).covers u = true :=
    covers_iff.mpr ⟨hu', Nat.le_trans hu.length_le hlen⟩
  have := History.coverCount_pos.mpr ⟨_, (hok.entry he).2.1, hcov⟩
  omega

theorem coverCount_of_state (hok : CoverageOk h c) {pc : PcPrefix}
    (hpc : dataAt c.prefixTree k = some pc) (hstate : pc.stateOfOther ≠ .invalid) :
    h.coverCount k = 0 := by
  by_contra hne
  exact hstate (hok.covered k pc hpc (Nat.pos_of_ne_zero hne))

theorem coverCount_of_coverage (hok : CoverageOk h c) {pc : PcPrefix}
    (hpc : dataAt c.prefixTree k = some pc) (hcov : ¬ 0 < pc.roaCoverage) :
    h.coverCount k = 0 := by
  rw [← hok.coverage k pc hpc]
  rw [UInt32.lt_iff_toNat_lt] at hcov
  exact Nat.eq_zero_of_not_pos hcov

/-! ## The prefix above -/

theorem parentState_cases (hok : CoverageOk h c) (k : List Bool) :
    parentState c.prefixTree k = .invalid ∨ parentState c.prefixTree k = .notFound := by
  have hspec := getParent_spec c.prefixTree k
  unfold parentState
  cases hpar : getParent c.prefixTree k with
  | none => exact .inr rfl
  | some pc =>
    rw [hpar] at hspec
    obtain ⟨j, -, -, hpc, -⟩ := hspec
    exact hok.state j pc hpc

/-- The nearest prefix above is at the ROA or below it. -/
theorem parent_of_roa (hok : CoverageOk h c) {r : Roa} (hr : r ∈ h.roas)
    (hkey : r.key <+: k) (hne : r.key ≠ k) :
    ∃ j pc, r.key <+: j ∧ j <+: k ∧ dataAt c.prefixTree j = some pc ∧
      parentState c.prefixTree k = pc.stateOfOther := by
  have hspec := getParent_spec c.prefixTree k
  unfold parentState
  cases hpar : getParent c.prefixTree k with
  | none =>
    rw [hpar] at hspec
    exact absurd (hspec r.key hkey hne) (hok.roas r hr)
  | some pc =>
    rw [hpar] at hspec
    obtain ⟨j, hj, -, hpc, hnear⟩ := hspec
    exact ⟨j, pc, hnear r.key hkey hne (hok.roas r hr), hj, hpc, rfl⟩

/-- A covered prefix gets the state INVALID. -/
theorem parentState_covered (hok : CoverageOk h c)
    (hnone : dataAt c.prefixTree k = none) (hcov : 0 < h.coverCount k) :
    parentState c.prefixTree k = .invalid := by
  obtain ⟨r, hr, hcov⟩ := History.coverCount_pos.mp hcov
  obtain ⟨hkey, hlen⟩ := covers_iff.mp hcov
  obtain ⟨j, pc, hrj, hjk, hpc, hstate⟩ := hok.parent_of_roa hr hkey
    fun heq => hok.roas r hr (heq ▸ hnone)
  rw [hstate]
  refine hok.covered j pc hpc (History.coverCount_pos.mpr ⟨r, hr, covers_iff.mpr ⟨hrj, ?_⟩⟩)
  exact Nat.le_trans hjk.length_le hlen

end CoverageOk

/-! ## The ROAs on the way up -/

/-- Does the way up of a request go on at this prefix? -/
def goesOn (isNew : Bool) (pc : PcPrefix) : Bool :=
  (isNew && pc.stateOfOther == .invalid) || (!isNew && decide (0 < pc.roaCoverage))

/-- The ROAs at a key and above it. -/
def roasAbove (t : PrefixTree) (k : List Bool) : List (UInt32 × PcRoa) := k.inits.flatMap (entriesAt t)

/-- The prefixes after the request of an update at `k`: the prefix itself is `pc`, the ROAs above
have counted the update. -/
def requestData (t : PrefixTree) (k : List Bool) (as : UInt32) (pc : PcPrefix) (u : List Bool) :
    Option PcPrefix :=
  if u = k then some pc
  else if u <+: k then
    (dataAt t u).map fun pc => { pc with asn := coverRoas k.length as pc.asn }
  else dataAt t u

section WayUp

variable {h : History} {c : PrefixCache} {t : PrefixTree} {k : List Bool} {isNew : Bool}
  {as : UInt32}

theorem mem_roasAbove {e : UInt32 × PcRoa} :
    e ∈ roasAbove t k ↔ ∃ u, u <+: k ∧ e ∈ entriesAt t u := by
  simp [roasAbove]

theorem roasAbove_congr {t' : PrefixTree} (h : ∀ u, entriesAt t u = entriesAt t' u) :
    roasAbove t k = roasAbove t' k := by
  rw [roasAbove, roasAbove, funext h]

/-- Counting along the path is counting the ROAs above. -/
theorem sum_path_roasAbove {f : List (UInt32 × PcRoa) → Nat} (hnil : f [] = 0)
    (happend : ∀ es₁ es₂, f (es₁ ++ es₂) = f es₁ + f es₂) (t : PrefixTree) (k : List Bool) :
    ((t.path k).map fun v => f (nodeEntries v)).sum = f (roasAbove t k) := by
  unfold roasAbove
  induction k generalizing t with
  | nil =>
    cases t with
    | null => simp [Trie.path, entriesAt, hnil]
    | node v c => simp [Trie.path, entriesAt_of_get? (Trie.get?_node_nil v c)]
  | cons b k ih =>
    cases t with
    | null =>
      have hnone : (b :: k).inits.flatMap (entriesAt .null) = [] := by
        rw [List.flatMap_eq_nil_iff]
        intro u _
        rw [entriesAt, dataAt_null]
        rfl
      rw [hnone, hnil]
      rfl
    | node v c =>
      have hsplit : (b :: k).inits.flatMap (entriesAt (.node v c)) =
          nodeEntries v ++ k.inits.flatMap (entriesAt (c b)) := by
        rw [List.inits_cons, List.flatMap_cons, List.flatMap_map]
        rfl
      rw [hsplit, happend, ← ih (c b), Trie.path, List.map_cons, List.sum_cons]

theorem coverEntries_roasAbove (t : PrefixTree) (k : List Bool) :
    ((t.path k).map fun v => coverEntries k.length (nodeEntries v)).sum =
      coverEntries k.length (roasAbove t k) :=
  sum_path_roasAbove rfl (fun _ _ => List.countP_append) t k

/-- The ROAs above that cover the prefix. -/
theorem coverSum_roasAbove (hsums : SumsOk h t) :
    coverSum k.length (roasAbove t k) = h.coverCount k := by
  rw [← sum_path_covers hsums]
  exact (sum_path_roasAbove rfl (fun _ _ => by simp [coverSum]) t k).symm

/-- The way up of a request. It stops only where nothing more would be counted. -/
theorem climb_coverStep (hsums : SumsOk h t)
    (hstop : ∀ u pc, u <+: k → dataAt t u = some pc → goesOn isNew pc = false →
      ∀ u' pc', u' <+: u → dataAt t u' = some pc' →
        ∀ e ∈ roaEntries pc'.asn, ¬ k.length ≤ e.2.maxLen.toNat) (s : UInt32 × UInt16) :
    (∀ u, dataAt (t.climb (climbData (coverStep isNew k.length as)) k s).1 u =
      if u <+: k then (dataAt t u).map fun pc => { pc with asn := coverRoas k.length as pc.asn }
      else dataAt t u) ∧
    (t.climb (climbData (coverStep isNew k.length as)) k s).2.1 =
      (if isNew then s.1 + UInt32.ofNat (coverEntries k.length (roasAbove t k)) else s.1,
        s.2 + UInt16.ofNat (h.matchCount k as)) := by
  have hclimb := @climbData_eq t k _ (coverStep isNew k.length as) (goesOn isNew)
    (fun pc => { pc with asn := coverRoas k.length as pc.asn })
    (fun pc s => coverCounts isNew k.length as pc.asn s) (fun _ _ => rfl)
    (fun u pc hu hpc hgo u' pc' hu' hpc' => by
      have hnone := hstop u pc hu hpc hgo u' pc' hu' hpc'
      exact ⟨by rw [coverRoas_self hnone], fun s => coverCounts_self hnone s⟩) s
  rwa [foldr_coverCounts, coverEntries_roasAbove, sum_path_matches hsums] at hclimb

theorem coverSum_self {len : Nat} {es : List (UInt32 × PcRoa)}
    (hnone : ∀ e ∈ es, ¬ len ≤ e.2.maxLen.toNat) : coverSum len es = 0 := by
  rw [coverSum, List.sum_eq_zero_iff_forall_eq_nat]
  intro n hn
  obtain ⟨e, he, rfl⟩ := List.mem_map.mp hn
  exact if_neg (hnone e he)

/-- The prefix that `addROAwl` creates: `_addROAwl_CheckCoverage` counts duplicates, too. -/
theorem CoverageOk.createPrefix_eq (hok : CoverageOk h c)
    (hnone : dataAt c.prefixTree k = none) :
    createPrefix c.prefixTree k = { emptyPrefix (parentState c.prefixTree k) with
      roaCoverage := UInt32.ofNat (h.coverCount k) } := by
  unfold createPrefix
  by_cases hstate : parentState c.prefixTree k = .notFound
  · have hzero : h.coverCount k = 0 := by
      by_contra hne
      rw [hok.parentState_covered hnone (Nat.pos_of_ne_zero hne)] at hstate
      simp at hstate
    rw [if_neg (by simpa [emptyPrefix] using hstate), hzero]
    rfl
  · have hclimb := (@climbData_eq c.prefixTree k _ (checkCoverage k.length)
      (fun pc => decide (0 < pc.roaCoverage)) id (fun pc coverage => (roaEntries pc.asn).foldl
        (fun coverage e => if k.length ≤ e.2.maxLen.toNat then coverage + e.2.roaCount.toUInt32
          else coverage) coverage)
      (fun pc s => by by_cases hpos : 0 < pc.roaCoverage <;> simp [checkCoverage, hpos])
      (fun u pc hu hpc hgo u' pc' hu' hpc' => by
        have hzero := hok.coverCount_of_coverage hpc (by simpa using hgo)
        have hnone := hok.no_entries_above hzero hu hu'
        rw [entriesAt_of_dataAt hpc'] at hnone
        refine ⟨rfl, fun s => ?_⟩
        rw [checkCoverage_fold, coverSum_self hnone]
        exact UInt32.add_zero s) 0).2
    rw [foldr_checkCoverage, sum_path_covers hok.sumsOk, UInt32.zero_add] at hclimb
    rw [if_pos (by simpa [emptyPrefix] using hstate), hclimb]

/-- A new prefix: the way up of a request stops where no ROA covers it. -/
theorem CoverageOk.stop_new (hok : CoverageOk h c) (hnone : dataAt c.prefixTree k = none)
    {pc : PcPrefix} (hentries : roaEntries pc.asn = [])
    (hstate : pc.stateOfOther = parentState c.prefixTree k)
    (ht : t = setData c.prefixTree k (some pc)) :
    ∀ u pc, u <+: k → dataAt t u = some pc → goesOn true pc = false →
      ∀ u' pc', u' <+: u → dataAt t u' = some pc' →
        ∀ e ∈ roaEntries pc'.asn, ¬ k.length ≤ e.2.maxLen.toNat := by
  intro u pcu hu hpcu hgo u' pcu' hu' hpcu'
  have hempty : entriesAt c.prefixTree k = [] := by rw [entriesAt, hnone]; rfl
  rw [← entriesAt_of_dataAt hpcu', ht, entriesAt_setData (hentries.trans hempty.symm)]
  refine hok.no_entries_above ?_ hu hu'
  rw [ht, dataAt_setData] at hpcu
  have hnot : pcu.stateOfOther ≠ .invalid := by simpa [goesOn] using hgo
  split at hpcu
  · next huk =>
    obtain rfl := Option.some.inj hpcu
    subst huk
    by_contra hne
    exact hnot (hstate.trans (hok.parentState_covered hnone (Nat.pos_of_ne_zero hne)))
  · exact hok.coverCount_of_state hpcu hnot

/-- A prefix that is covered: so does the way up from it. -/
theorem CoverageOk.stop_known (hok : CoverageOk h c) {pc₀ pc : PcPrefix}
    (hpc : dataAt c.prefixTree k = some pc₀) (hentries : roaEntries pc.asn = roaEntries pc₀.asn)
    (hcov : 0 < pc.roaCoverage) (ht : t = setData c.prefixTree k (some pc)) :
    ∀ u pc, u <+: k → dataAt t u = some pc → goesOn false pc = false →
      ∀ u' pc', u' <+: u → dataAt t u' = some pc' →
        ∀ e ∈ roaEntries pc'.asn, ¬ k.length ≤ e.2.maxLen.toNat := by
  intro u pcu hu hpcu hgo u' pcu' hu' hpcu'
  rw [← entriesAt_of_dataAt hpcu', ht,
    entriesAt_setData (hentries.trans (entriesAt_of_dataAt hpc).symm)]
  refine hok.no_entries_above ?_ hu hu'
  have hzero : ¬ 0 < pcu.roaCoverage := by simpa [goesOn] using hgo
  rw [ht, dataAt_setData] at hpcu
  split at hpcu
  · obtain rfl := Option.some.inj hpcu
    exact absurd hcov hzero
  · exact hok.coverCount_of_coverage hpcu hzero

/-- `_performUpdateValidationKnownPrefix`: the way up, then the update goes to one of the lists. -/
theorem knownPrefix_call {pc : PcPrefix} (id : UInt32)
    (ht : t = setData c.prefixTree k (some { pc with asn := countUpdate pc.asn as }))
    (hsums : SumsOk h t)
    (hstop : ∀ u pc, u <+: k → dataAt t u = some pc → goesOn isNew pc = false →
      ∀ u' pc', u' <+: u → dataAt t u' = some pc' →
        ∀ e ∈ roaEntries pc'.asn, ¬ k.length ≤ e.2.maxLen.toNat) :
    ∃ t', performUpdateValidationKnownPrefix c k pc id as isNew =
        ((prefixNotCovered ⟨if isNew then
            pc.roaCoverage + UInt32.ofNat (coverEntries k.length (roasAbove t k))
          else pc.roaCoverage, pc.stateOfOther, pc.nodes, pc.valid, pc.other,
          coverRoas k.length as (countUpdate pc.asn as)⟩
          ⟨id, as, UInt16.ofNat (h.matchCount k as)⟩).map fun r =>
            (true, ⟨setData t' k (some r.1), c.reports ++ [r.2]⟩)) ∧
      ∀ pc' u, dataAt (setData t' k (some pc')) u = requestData c.prefixTree k as pc' u := by
  obtain ⟨hdata, hcounts⟩ := climb_coverStep hsums hstop (pc.roaCoverage, 0)
  rw [UInt16.zero_add] at hcounts
  have hdata₀ (u : List Bool) : dataAt t u =
      if u = k then some { pc with asn := countUpdate pc.asn as }
      else dataAt c.prefixTree u := by rw [ht, dataAt_setData]
  have hk : (nodeAt (t.climb (climbData (coverStep isNew k.length as)) k (pc.roaCoverage, 0)).1
      k).data = some { pc with asn := coverRoas k.length as (countUpdate pc.asn as) } := by
    have := hdata k
    rw [if_pos List.prefix_rfl, hdata₀, if_pos rfl] at this
    exact this
  refine ⟨(t.climb (climbData (coverStep isNew k.length as)) k (pc.roaCoverage, 0)).1, ?_,
    fun pc' u => ?_⟩
  · simp only [performUpdateValidationKnownPrefix, ← ht, hk, hcounts, Option.bind_eq_bind,
      Option.bind_some, Option.map_eq_bind]
    rfl
  · rw [dataAt_setData, requestData, hdata, hdata₀]
    split
    · rfl
    · rfl

end WayUp

end SrxSuite.Cache

import SrxSuite.PrefixCache.CoverageRuns

/-!
# The two ways a prefix is created

A request for an unknown prefix creates its node, and so does `addROAwl`. Both take the state of the
prefix above and count the ROAs above that cover the new prefix. `addROAwl` counts `roa_count` of every
entry, a request counts every entry once. They agree where no covering entry stands for several
identical ROAs.

Results:
1. `nodeCreation_agrees`: in a run whose requests create prefixes below ROAs without duplicates only,
   the two agree exactly where there are no duplicates above, and no withdrawal finds `roa_coverage` at
   zero.
2. `duplicate_not_counted`: a ROA that is announced twice, and a request below it.
-/

namespace SrxSuite.Cache

open TreeLemmas RoaLemmas EntriesLemmas

/-- The request of an update creates the node that `addROAwl` would create, except for the update: the
state is the same, and the coverage is the sum of `roa_count` of the ROAs above that cover the
prefix. -/
def CreationAgrees (c : PrefixCache) (p : IPPrefix) (updateID as : UInt32) : Prop :=
  ∃ b c' pc', requestUpdateValidation c updateID p as = some (b, c') ∧
    dataAt c'.prefixTree p.key = some pc' ∧
    pc'.stateOfOther = (createPrefix c.prefixTree p.key).stateOfOther ∧
    pc'.roaCoverage = (createPrefix c.prefixTree p.key).roaCoverage ∧
    pc'.roaCoverage.toNat = coverSum p.key.length (roasAbove c.prefixTree p.key)

/-- The entries above that cover the prefix stand for one ROA each. -/
def NoDuplicatesAbove (c : PrefixCache) (k : List Bool) : Prop :=
  ∀ e ∈ roasAbove c.prefixTree k, k.length ≤ e.2.maxLen.toNat → e.2.roaCount = 1

/-- A withdrawal finds `roa_coverage` above zero wherever it decrements it. -/
def NeverBelowZero (c : PrefixCache) : Prop :=
  ∀ k pc as maxLen valCacheID roa, dataAt c.prefixTree k = some pc →
    findRoa pc.asn as maxLen valCacheID = some roa →
    ∀ u pcu, k <+: u → u.length ≤ roa.maxLen.toNat → dataAt c.prefixTree u = some pcu →
      0 < pcu.roaCoverage

section Entries

variable {len : Nat} {es : List (UInt32 × PcRoa)}

/-- Counting the entries is counting the ROAs exactly if there are no duplicates. -/
theorem coverEntries_eq_iff (hpos : ∀ e ∈ es, 0 < e.2.roaCount.toNat) :
    coverEntries len es ≤ coverSum len es ∧ (coverEntries len es = coverSum len es ↔
      ∀ e ∈ es, len ≤ e.2.maxLen.toNat → e.2.roaCount = 1) := by
  induction es with
  | nil => exact ⟨Nat.le_refl _, by simp [coverEntries, coverSum]⟩
  | cons e es ih =>
    obtain ⟨hle, hiff⟩ := ih fun e he => hpos e (List.mem_cons_of_mem _ he)
    have hcons : coverEntries len (e :: es) =
        (if len ≤ e.2.maxLen.toNat then 1 else 0) + coverEntries len es := by
      rw [coverEntries, List.countP_cons, Nat.add_comm]
      simp [coverEntries]
    have hsum : coverSum len (e :: es) =
        (if len ≤ e.2.maxLen.toNat then e.2.roaCount.toNat else 0) + coverSum len es := by
      rw [coverSum, List.map_cons, List.sum_cons]
      rfl
    have hone := hpos e List.mem_cons_self
    rw [hcons, hsum, List.forall_mem_cons, ← hiff]
    split
    · next hlen =>
      have hcount : e.2.roaCount = 1 ↔ e.2.roaCount.toNat = 1 := UInt16.toNat_inj.symm
      simp only [hlen, true_implies, hcount]
      omega
    · next hlen =>
      simp only [hlen, false_implies, true_and]
      omega

end Entries

section Creation

variable {h : History} {c : PrefixCache} {op : Op} {ops : List Op}

/-- Where the two ways to create a prefix agree. -/
theorem CoverageOk.creationAgrees_iff (hok : CoverageOk h c) {p : IPPrefix}
    (hglue : nodeAt c.prefixTree p.key = .glue) (hcover : h.coverCount p.key < 2 ^ 32)
    (updateID as : UInt32) :
    CreationAgrees c p updateID as ↔ NoDuplicatesAbove c p.key := by
  have hnone : dataAt c.prefixTree p.key = none := by rw [dataAt, hglue]; rfl
  have hpos : ∀ e ∈ roasAbove c.prefixTree p.key, 0 < e.2.roaCount.toNat := by
    intro e he
    obtain ⟨u, -, he⟩ := mem_roasAbove.mp he
    exact (hok.entry he).1
  obtain ⟨hle, hiff⟩ := @coverEntries_eq_iff p.key.length _ hpos
  have hsum : coverSum p.key.length (roasAbove c.prefixTree p.key) = h.coverCount p.key :=
    coverSum_roasAbove hok.sumsOk
  have hrequest (updateID as : UInt32) : requestUpdateValidation c updateID p as =
      performUpdateValidationNewPrefix c p.key updateID as := by
    rw [requestUpdateValidation, hglue]
  obtain ⟨b, c', hreq⟩ := hok.requestNew_returns hnone updateID as
  obtain ⟨pc', hdata, -, hcov, hstate⟩ := hok.requestNew hnone hreq
  have hat : dataAt c'.prefixTree p.key = some pc' := by rw [hdata, requestData, if_pos rfl]
  have hcount : pc'.roaCoverage.toNat =
      coverEntries p.key.length (roasAbove c.prefixTree p.key) := by
    rw [hcov]
    exact Nat.mod_eq_of_lt (Nat.lt_of_le_of_lt hle (hsum ▸ hcover))
  rw [NoDuplicatesAbove, ← hiff]
  constructor
  · rintro ⟨b₁, c₁, pc₁, hreq₁, hat₁, -, -, hcov₁⟩
    rw [hrequest, hreq] at hreq₁
    obtain ⟨-, rfl⟩ := Prod.mk.inj (Option.some.inj hreq₁)
    obtain rfl := Option.some.inj (hat.symm.trans hat₁)
    exact hcount.symm.trans hcov₁
  · intro heq
    refine ⟨b, c', pc', (hrequest ..).trans hreq, hat, ?_, ?_, hcount.trans heq⟩
    · rw [hok.createPrefix_eq hnone, hstate]
      rfl
    · rw [hok.createPrefix_eq hnone, hcov, heq, hsum]

theorem CoverageOk.neverBelowZero (hok : CoverageOk h c) : NeverBelowZero c := by
  intro k pc as maxLen valCacheID roa hpc hfind u pcu hku hlen hpcu
  obtain ⟨hentry, -, -⟩ := entry_of_findRoa hfind
  rw [← entriesAt_of_dataAt hpc] at hentry
  have hpos := History.coverCount_pos.mpr ⟨_, (hok.entry hentry).2.1, covers_iff.mpr ⟨hku, hlen⟩⟩
  rw [← hok.coverage u pcu hpcu] at hpos
  exact UInt32.lt_iff_toNat_lt.mpr hpos

/-- The numbers of covering ROAs fit along a run. -/
theorem CoverageFits.coverCount (hfits : CoverageFits h c op) {r : List Bool}
    (hcover : h.coverCount r < 2 ^ 32) : (h.step op).coverCount r < 2 ^ 32 := by
  cases op with
  | add originAS p maxLen valCacheID suppress =>
    rw [History.step]
    split
    · exact hcover
    · next hrfc => exact (hfits (by simpa using hrfc)).2 r
  | del originAS p maxLen valCacheID suppress =>
    exact Nat.lt_of_le_of_lt (List.erase_sublist.countP_le) hcover
  | request updateID p as => exact hcover

theorem coverCount_run {c' : PrefixCache} (hfits : Along CoverageFits h c ops)
    (hcover : ∀ k, h.coverCount k < 2 ^ 32) (hrun : Cache.run c ops = some c') (k : List Bool) :
    (h.run ops).coverCount k < 2 ^ 32 := by
  induction ops generalizing h c with
  | nil => exact hcover k
  | cons op ops ih =>
    obtain ⟨c₁, hstep, hrun⟩ := Option.bind_eq_some_iff.mp hrun
    exact ih (hfits.2 c₁ hstep) (fun k => hfits.1.coverCount (hcover k)) hrun

end Creation

/-- In every state of a run whose calls are `CoverageFits`, the two ways to create an absent prefix
agree exactly where there are no duplicates above it, and `roa_coverage` is never decremented at
zero. -/
theorem nodeCreation_agrees (ops : List Op)
    (hfits : Along CoverageFits .empty initializePrefixCache ops) :
    ∀ ops₁ c, ops₁ <+: ops → run initializePrefixCache ops₁ = some c →
      (∀ p updateID as, nodeAt c.prefixTree p.key = .glue →
        (CreationAgrees c p updateID as ↔ NoDuplicatesAbove c p.key)) ∧ NeverBelowZero c := by
  intro ops₁ c hpre hrun
  have hok := shapeOk_init.run (hfits.of_prefix hpre) hrun
  have hcover := coverCount_run (hfits.of_prefix hpre) (fun k => by
    simp [History.coverCount, History.empty]) hrun
  exact ⟨fun p updateID as hglue => hok.creationAgrees_iff hglue (hcover p.key) updateID as,
    hok.neverBelowZero⟩

/-- A ROA for `10.0.0.0/8` up to `/24`; `10.0.0.0/16` is absent and gets the same node both ways. -/
theorem nodeCreation_agrees_ten16 :
    ∃ c, run initializePrefixCache [.add 1 ten8 24 0 false] = some c ∧
      CreationAgrees c ten16 1 1 ∧ NeverBelowZero c := by
  have hcount (k : List Bool) : (History.empty.addRoa ⟨ten8.key, 1, 24, 0⟩).coverCount k < 2 ^ 32 :=
    Nat.lt_of_le_of_lt List.countP_le_length (by decide)
  have hfits : Along CoverageFits .empty initializePrefixCache [.add 1 ten8 24 0 false] :=
    ⟨fun _ => ⟨by decide, hcount⟩, fun _ _ => trivial⟩
  have hrun : ((run initializePrefixCache [.add 1 ten8 24 0 false]).map fun c =>
      (decide (nodeAt c.prefixTree ten16.key matches .glue),
        (roasAbove c.prefixTree ten16.key).map fun e => e.2.roaCount)) = some (true, [1]) := by decide
  obtain ⟨c, hc, hstate⟩ := Option.map_eq_some_iff.mp hrun
  obtain ⟨hglue, hones⟩ := Prod.mk.inj hstate
  have hglue : nodeAt c.prefixTree ten16.key = .glue := by
    cases hnode : nodeAt c.prefixTree ten16.key with
    | glue => rfl
    | entry data => simp [hnode] at hglue
  obtain ⟨hagree, hzero⟩ := nodeCreation_agrees _ hfits _ c List.prefix_rfl hc
  refine ⟨c, hc, (hagree ten16 1 1 hglue).mpr fun e he _ => ?_, hzero⟩
  have hmem := List.mem_map_of_mem (f := fun e : UInt32 × PcRoa => e.2.roaCount) he
  rw [hones] at hmem
  exact List.mem_singleton.mp hmem

/-- The same ROA twice, an update below it, and the two withdrawals. -/
def duplicateRun : List Op :=
  [.add 1 ten8 24 0 false, .add 1 ten8 24 0 false, .request 1 ten16 1, .del 1 ten8 24 0 false,
    .del 1 ten8 24 0 false]

/-- `addROAwl` counts two ROAs above the absent prefix and the request counts one. The second withdrawal
decrements `roa_coverage` at zero. -/
theorem duplicate_not_counted :
    (∃ c, run initializePrefixCache (duplicateRun.take 2) = some c ∧
      nodeAt c.prefixTree ten16.key = .glue ∧ ¬ CreationAgrees c ten16 1 1) ∧
    ∃ c, run initializePrefixCache (duplicateRun.take 4) = some c ∧ ¬ NeverBelowZero c := by
  constructor
  · have hrun : ((run initializePrefixCache (duplicateRun.take 2)).map fun c =>
        (decide (nodeAt c.prefixTree ten16.key matches .glue),
          (createPrefix c.prefixTree ten16.key).roaCoverage,
          (requestUpdateValidation c 1 ten16 1).map fun r =>
            (dataAt r.2.prefixTree ten16.key).map PcPrefix.roaCoverage)) =
        some (true, 2, some (some 1)) := by decide
    obtain ⟨c, hc, hstate⟩ := Option.map_eq_some_iff.mp hrun
    simp only [Prod.mk.injEq] at hstate
    obtain ⟨hglue, hadd, hreq⟩ := hstate
    refine ⟨c, hc, ?_, ?_⟩
    · cases hnode : nodeAt c.prefixTree ten16.key with
      | glue => rfl
      | entry data => simp [hnode] at hglue
    · rintro ⟨b, c', pc', hreq', hat, -, hcov, -⟩
      rw [hreq', Option.map_some, hat, Option.map_some, hcov, hadd] at hreq
      exact absurd hreq (by decide)
  · have hrun : ((run initializePrefixCache (duplicateRun.take 4)).map fun c =>
        ((dataAt c.prefixTree ten8.key).bind fun pc => (findRoa pc.asn 1 24 0).map PcRoa.maxLen,
          (dataAt c.prefixTree ten16.key).map PcPrefix.roaCoverage)) =
        some (some 24, some 0) := by decide
    obtain ⟨c, hc, hstate⟩ := Option.map_eq_some_iff.mp hrun
    simp only [Prod.mk.injEq] at hstate
    obtain ⟨hroa, hcov⟩ := hstate
    obtain ⟨pc, hpc, hfind⟩ := Option.bind_eq_some_iff.mp hroa
    obtain ⟨roa, hfind, hmax⟩ := Option.map_eq_some_iff.mp hfind
    obtain ⟨pcu, hpcu, hzero⟩ := Option.map_eq_some_iff.mp hcov
    refine ⟨c, hc, fun hnever => ?_⟩
    have hpos := hnever ten8.key pc 1 24 0 roa hpc hfind ten16.key pcu (by decide)
      (by rw [hmax]; decide) hpcu
    rw [hzero] at hpos
    exact absurd hpos (by decide)

end SrxSuite.Cache

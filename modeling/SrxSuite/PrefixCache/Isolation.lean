import SrxSuite.PrefixCache.Locality
import SrxSuite.PrefixCache.Runs

/-!
# Isolation of the address families

The prefixes of both families live in one tree, and the key of a prefix does not say which family
it is of. The results of the updates of one family should still not depend on the calls of the
other.

The calls of one family of a run are a run of their own. The whole run simulates it (`Projects`)
as long as no prefix of one family lies above or below a prefix of the other.

Results:
1. `families_isolated`: two runs with the same calls of a family complete and report the same results
   for its updates, when the families do not meet in the tree and no call reaches a defect.
2. `ipv6_roa_invalidates_ipv4`: `0a00::/8` has the key of `10.0.0.0/8`.
-/

namespace SrxSuite.Cache

open Util TreeLemmas LocalityLemmas

/-- The address family of a call. -/
def Op.family (op : Op) : IPVersion := op.ipPrefix.version

/-- The update a call requests. -/
def Op.updateID : Op → Option UInt32
  | .request updateID _ _ => some updateID
  | _ => none

/-- The calls of one family. -/
def familyOps (f : IPVersion) (ops : List Op) : List Op := ops.filter fun op => op.family = f

/-- The sequence of results reported for an update. -/
def resultsOf (reports : List Report) (updateID : UInt32) : List SrxResult :=
  (reports.filter fun r => r.updateID == updateID).map Report.roaResult

/-- The families do not meet: no prefix of one is above or below a prefix of the other, and no
update is of both. -/
def Separate (ops : List Op) : Prop :=
  ∀ op ∈ ops, ∀ op' ∈ ops, op.family ≠ op'.family →
    ¬ Near op.ipPrefix.key op'.ipPrefix.key ∧
      (op.updateID = none ∨ op.updateID ≠ op'.updateID)

/-- Two runs complete and report the same results for the updates of a family. -/
def SameFamilyResults (f : IPVersion) (ops ops' : List Op) : Prop :=
  ∃ c c', run initializePrefixCache ops = some c ∧ run initializePrefixCache ops' = some c' ∧
    ∀ op ∈ ops, op.family = f → ∀ updateID, op.updateID = some updateID →
      resultsOf c.reports updateID = resultsOf c'.reports updateID

/-! ## The run of one family -/

/-- An update of another family. -/
def Foreign (f : IPVersion) (ops : List Op) (updateID : UInt32) : Prop :=
  ∃ op ∈ ops, op.family ≠ f ∧ op.updateID = some updateID

/-- The state `d` of a run of the calls of one family is the part of `c` for this family. -/
structure Projects (f : IPVersion) (ops : List Op) (c d : PrefixCache) : Prop where
  known : ∀ u, nodeAt c.prefixTree u ≠ .glue → ∃ op ∈ ops, op.ipPrefix.key = u
  own : ∀ u, nodeAt d.prefixTree u ≠ .glue → ∃ op ∈ ops, op.family = f ∧ op.ipPrefix.key = u
  same : ∀ op ∈ ops, op.family = f →
    nodeAt c.prefixTree op.ipPrefix.key = nodeAt d.prefixTree op.ipPrefix.key
  foreign : ∀ op ∈ ops, op.family ≠ f →
    (nodeAt c.prefixTree op.ipPrefix.key).IdsIn (Foreign f ops)
  results : ∀ updateID, ¬ Foreign f ops updateID →
    resultsOf c.reports updateID = resultsOf d.reports updateID

namespace IsolationLemmas

variable {f : IPVersion} {ops : List Op} {c c' d : PrefixCache} {op : Op}

theorem resultsOf_append (R S : List Report) (updateID : UInt32) :
    resultsOf (R ++ S) updateID = resultsOf R updateID ++ resultsOf S updateID := by
  simp [resultsOf]

/-- A node near a call of the family is one of the family, or holds no prefix. -/
theorem agree_near (hsep : Separate ops) (hproj : Projects f ops c d) (hop : op ∈ ops)
    (hf : op.family = f) : AgreeNear op.ipPrefix.key c.prefixTree d.prefixTree := by
  intro u hu
  by_cases hown : ∃ op' ∈ ops, op'.family = f ∧ op'.ipPrefix.key = u
  · obtain ⟨op', hop', hf', rfl⟩ := hown
    exact hproj.same op' hop' hf'
  · have hd : nodeAt d.prefixTree u = .glue := by
      by_contra hne
      exact hown (hproj.own u hne)
    have hc : nodeAt c.prefixTree u = .glue := by
      by_contra hne
      obtain ⟨op', hop', rfl⟩ := hproj.known u hne
      have hf' : op.family ≠ op'.family := by
        rintro heq
        exact hown ⟨op', hop', heq ▸ hf, rfl⟩
      exact (hsep op hop op' hop' hf').1 hu
    rw [hc, hd]

/-- A node near a call of the other family holds updates of that family only. -/
theorem nearIds_foreign (hsep : Separate ops) (hproj : Projects f ops c d) (hop : op ∈ ops)
    (hf : op.family ≠ f) : NearIds (Foreign f ops) op.ipPrefix.key c.prefixTree := by
  intro u hu pc hpc
  obtain ⟨op', hop', rfl⟩ := hproj.known u (by rw [hpc]; simp)
  by_cases hf' : op'.family = f
  · exact absurd hu (hsep op hop op' hop' fun heq => hf (heq.trans hf')).1
  · exact hproj.foreign op' hop' hf' pc hpc

theorem known_step (hop : op ∈ ops) {t t' : PrefixTree}
    (hknown : ∀ u, nodeAt t u ≠ .glue → ∃ op ∈ ops, op.ipPrefix.key = u)
    (hchange : ChangesNear op.ipPrefix.key t t') (u : List Bool) (hu : nodeAt t' u ≠ .glue) :
    ∃ op ∈ ops, op.ipPrefix.key = u := by
  by_cases hk : u = op.ipPrefix.key
  · exact ⟨op, hop, hk.symm⟩
  · exact hknown u fun hg => hu (hchange.glue u hk hg)

/-- A call of the family, in both runs. -/
theorem projects_own (hsep : Separate ops) (hproj : Projects f ops c d) (hop : op ∈ ops)
    (hf : op.family = f) (hstep : step c op = some c') :
    ∃ d', step d op = some d' ∧ Projects f ops c' d' := by
  obtain ⟨c₁, hc₁, rfl⟩ := step_inv hstep
  obtain ⟨t', hd₁, hagree⟩ := step_congr (agree_near hsep hproj hop hf) hc₁
  have hall (t : PrefixTree) : NearIds (fun _ => True) op.ipPrefix.key t :=
    fun u _ pc _ a n _ => trivial
  obtain ⟨hchange, -, -⟩ := step_near (hall _) (fun _ _ _ _ => trivial) hc₁
  obtain ⟨hchange', -, -⟩ := step_near (hall _) (fun _ _ _ _ => trivial) hd₁
  refine ⟨⟨t', d.reports ++ c₁.reports⟩, ?_, ?_, ?_, ?_, ?_, ?_⟩
  · rw [show d = ⟨d.prefixTree, d.reports⟩ from rfl, step_reports, hd₁]
    rfl
  · exact known_step hop hproj.known hchange
  · intro u hu
    by_cases hk : u = op.ipPrefix.key
    · exact ⟨op, hop, hf, hk.symm⟩
    · exact hproj.own u fun hg => hu (hchange'.glue u hk hg)
  · intro op' hop' hf'
    by_cases hnear : Near op.ipPrefix.key op'.ipPrefix.key
    · exact hagree _ hnear
    · exact (hchange.far _ hnear).trans ((hproj.same op' hop' hf').trans (hchange'.far _ hnear).symm)
  · intro op' hop' hf'
    have hfar := (hsep op hop op' hop' fun heq => hf' (heq.symm.trans hf)).1
    show (nodeAt c₁.prefixTree op'.ipPrefix.key).IdsIn _
    rw [hchange.far _ hfar]
    exact hproj.foreign op' hop' hf'
  · intro updateID hid
    show resultsOf (c.reports ++ c₁.reports) updateID = resultsOf (d.reports ++ c₁.reports) updateID
    rw [resultsOf_append, resultsOf_append, hproj.results updateID hid]

/-- A call of the other family. -/
theorem projects_foreign (hsep : Separate ops) (hproj : Projects f ops c d) (hop : op ∈ ops)
    (hf : op.family ≠ f) (hstep : step c op = some c') : Projects f ops c' d := by
  obtain ⟨c₁, hc₁, rfl⟩ := step_inv hstep
  have hreq (updateID : UInt32) (p : IPPrefix) (as : UInt32) (heq : op = .request updateID p as) :
      Foreign f ops updateID := ⟨op, hop, hf, by rw [heq]; rfl⟩
  obtain ⟨hchange, hids, hreports⟩ := step_near (nearIds_foreign hsep hproj hop hf) hreq hc₁
  refine ⟨known_step hop hproj.known hchange, hproj.own, ?_, ?_, ?_⟩
  · intro op' hop' hf'
    have hfar := (hsep op hop op' hop' fun heq => hf (heq.trans hf')).1
    exact (hchange.far _ hfar).trans (hproj.same op' hop' hf')
  · intro op' hop' hf'
    by_cases hnear : Near op.ipPrefix.key op'.ipPrefix.key
    · exact hids _ hnear
    · show (nodeAt c₁.prefixTree op'.ipPrefix.key).IdsIn _
      rw [hchange.far _ hnear]
      exact hproj.foreign op' hop' hf'
  · intro updateID hid
    have hnone : resultsOf c₁.reports updateID = [] := by
      rw [resultsOf, List.map_eq_nil_iff, List.filter_eq_nil_iff]
      intro r hr heq
      exact hid (beq_iff_eq.mp heq ▸ (hreports r hr).1)
    show resultsOf (c.reports ++ c₁.reports) updateID = resultsOf d.reports updateID
    rw [resultsOf_append, hnone, List.append_nil, hproj.results updateID hid]

theorem projects_init : Projects f ops initializePrefixCache initializePrefixCache := by
  have hglue (u : List Bool) : nodeAt initializePrefixCache.prefixTree u = .glue := by
    rw [nodeAt, initializePrefixCache, Trie.get?_null]
    rfl
  refine ⟨fun u hu => absurd (hglue u) hu, fun u hu => absurd (hglue u) hu, fun _ _ _ => rfl,
    fun op _ _ pc hpc => ?_, fun _ _ => rfl⟩
  rw [hglue] at hpc
  cases hpc

/-- The calls of the family make a run, and the whole run projects to it. -/
theorem projects_run (hsep : Separate ops) {rest : List Op} (hrest : ∀ op ∈ rest, op ∈ ops)
    (hproj : Projects f ops c d) (hrun : run c rest = some c') :
    ∃ d', run d (familyOps f rest) = some d' ∧ Projects f ops c' d' := by
  induction rest generalizing c d with
  | nil =>
    obtain rfl := Option.some.inj hrun
    exact ⟨d, rfl, hproj⟩
  | cons op rest ih =>
    have hop := hrest op List.mem_cons_self
    have hrest' : ∀ op ∈ rest, op ∈ ops := fun op h => hrest op (List.mem_cons_of_mem _ h)
    obtain ⟨c₁, hstep, hrun⟩ := Option.bind_eq_some_iff.mp hrun
    by_cases hf : op.family = f
    · obtain ⟨d₁, hd₁, hproj₁⟩ := projects_own hsep hproj hop hf hstep
      obtain ⟨d', hd', hproj'⟩ := ih hrest' hproj₁ hrun
      refine ⟨d', ?_, hproj'⟩
      rw [familyOps, List.filter_cons_of_pos (by simpa using hf), run, hd₁]
      exact hd'
    · obtain ⟨d', hd', hproj'⟩ := ih hrest' (projects_foreign hsep hproj hop hf hstep) hrun
      refine ⟨d', ?_, hproj'⟩
      rw [familyOps, List.filter_cons_of_neg (by simpa using hf)]
      exact hd'

theorem not_foreign (hsep : Separate ops) (hop : op ∈ ops) (hf : op.family = f)
    {updateID : UInt32} (hid : op.updateID = some updateID) : ¬ Foreign f ops updateID := by
  rintro ⟨op', hop', hf', hid'⟩
  rcases (hsep op hop op' hop' fun heq => hf' (heq.symm.trans hf)).2 with h | h
  · rw [hid] at h
    cases h
  · exact h (hid.trans hid'.symm)

end IsolationLemmas

open IsolationLemmas in
/-- Calls of the other family do not change the results of a family, when the families do not meet in
the tree and both runs reach no defect. -/
theorem families_isolated (f : IPVersion) (ops ops' : List Op)
    (hsame : familyOps f ops = familyOps f ops') (hsep : Separate ops) (hsep' : Separate ops')
    (hok : Along NoDefect .empty initializePrefixCache ops)
    (hok' : Along NoDefect .empty initializePrefixCache ops') : SameFamilyResults f ops ops' := by
  obtain ⟨c, hrun, -⟩ := (inv_init False False).run hok False.elim False.elim
  obtain ⟨c', hrun', -⟩ := (inv_init False False).run hok' False.elim False.elim
  refine ⟨c, c', hrun, hrun', fun op hop hf updateID hid => ?_⟩
  have hop' : op ∈ ops' := by
    have hmem : op ∈ familyOps f ops' := by
      rw [← hsame, familyOps, List.mem_filter]
      exact ⟨hop, by simpa using hf⟩
    exact (List.mem_filter.mp hmem).1
  obtain ⟨d, hd, hproj⟩ := projects_run hsep (fun _ h => h) (projects_init (f := f)) hrun
  obtain ⟨d', hd', hproj'⟩ := projects_run hsep' (fun _ h => h) (projects_init (f := f)) hrun'
  rw [← hsame, hd] at hd'
  obtain rfl := Option.some.inj hd'
  calc resultsOf c.reports updateID
      = resultsOf d.reports updateID := hproj.results updateID (not_foreign hsep hop hf hid)
    _ = resultsOf c'.reports updateID :=
      (hproj'.results updateID (not_foreign hsep' hop' hf hid)).symm

/-! ## Families that meet -/

/-- `0a00::/8`. -/
def ten8v6 : IPPrefix := ⟨.v6, [10, 0, 0, 0, 0, 0, 0, 0, 0, 0, 0, 0, 0, 0, 0, 0], 8, rfl, by decide⟩

/-- `2000::/8`. -/
def global8 : IPPrefix := ⟨.v6, [32, 0, 0, 0, 0, 0, 0, 0, 0, 0, 0, 0, 0, 0, 0, 0], 8, rfl, by decide⟩

theorem noDefect_request : NoDefect .empty initializePrefixCache (.request 1 ten8 1) := by
  refine ⟨?_, fun _ r hr => absurd hr List.not_mem_nil, by decide, by decide, by decide,
    fun k e he => ?_⟩
  · rw [nodeAt, initializePrefixCache, Trie.get?_null]
    simp
  · rw [entriesAt, initializePrefixCache, dataAt_null] at he
    exact absurd he List.not_mem_nil

/-- An update and a ROA of `2000::/8`, which is withdrawn again, beside an update of `10.0.0.0/8`. -/
def global8Run : List Op :=
  [.request 1 ten8 1, .request 2 global8 2, .add 2 global8 8 0 false, .del 2 global8 8 0 false]

theorem noDefect_global8Run : Along NoDefect .empty initializePrefixCache global8Run := by
  have hfits := fits_run (show global8Run.length < 2 ^ 16 by decide)
  have hdata : (step initializePrefixCache (.request 1 ten8 1)).map
      (fun c => (c.prefixTree.get? global8.key).isSome) = some false := by decide
  refine ⟨noDefect_request, fun c hstep => ?_⟩
  obtain ⟨c₁, hstep₁, hinv₁⟩ := (inv_init False True).step noDefect_request False.elim
    fun _ => trivial
  obtain rfl := Option.some.inj (hstep₁.symm.trans hstep)
  have hrequest : NoDefect (History.empty.step (.request 1 ten8 1)) c₁ (.request 2 global8 2) := by
    refine Exact.noDefect trivial hinv₁ trivial List.nodup_nil
      (hfits (global8Run.take 2) (List.take_prefix _ _)) fun id p as heq => ?_
    cases heq
    rw [hstep₁, Option.map_some, Option.some.injEq, Option.isSome_eq_false_iff,
      Option.isNone_iff_eq_none] at hdata
    rw [nodeAt, hdata]
    simp
  refine ⟨hrequest, fun c₂ hstep₂ => ?_⟩
  obtain ⟨c₂', hstep₂', hinv₂⟩ := hinv₁.step hrequest False.elim fun _ => trivial
  obtain rfl := Option.some.inj (hstep₂'.symm.trans hstep₂)
  refine ⟨?_, fun _ _ => ⟨trivial, fun _ _ => trivial⟩⟩
  exact Exact.noDefect List.not_mem_nil hinv₂ trivial List.nodup_nil
    (hfits (global8Run.take 3) (List.take_prefix _ _)) fun id p as heq => by cases heq

/-- They do not change the result of the update of `10.0.0.0/8`. -/
theorem families_isolated_global8 : SameFamilyResults .v4 [.request 1 ten8 1] global8Run :=
  families_isolated .v4 _ _ rfl (by unfold Separate Near; decide) (by unfold Separate Near; decide)
    ⟨noDefect_request, fun _ _ => trivial⟩ noDefect_global8Run

/-- A ROA for `0a00::/8` makes an update of `10.0.0.0/8` INVALID that is NOTFOUND without it. -/
theorem ipv6_roa_invalidates_ipv4 :
    familyOps .v4 [.request 1 ten8 1] = familyOps .v4 [.add 2 ten8v6 8 0 false, .request 1 ten8 1] ∧
    ¬ SameFamilyResults .v4 [.request 1 ten8 1] [.add 2 ten8v6 8 0 false, .request 1 ten8 1] := by
  have hresult : ((run initializePrefixCache [.request 1 ten8 1]).map
      fun c => resultsOf c.reports 1) = some [.notFound] := by decide
  have hresult' : ((run initializePrefixCache [.add 2 ten8v6 8 0 false, .request 1 ten8 1]).map
      fun c => resultsOf c.reports 1) = some [.invalid] := by decide
  refine ⟨rfl, fun ⟨c, c', hrun, hrun', hsame⟩ => ?_⟩
  have heq := hsame (.request 1 ten8 1) List.mem_cons_self rfl 1 rfl
  rw [hrun, Option.map_some, Option.some.injEq] at hresult
  rw [hrun', Option.map_some, Option.some.injEq] at hresult'
  rw [hresult, hresult'] at heq
  cases heq

end SrxSuite.Cache

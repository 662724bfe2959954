import SrxSuite.PrefixCache.CoverageRuns

/-!
# The state of the other updates

The updates of a prefix that no ROA makes valid are INVALID if a ROA is present at the prefix or above
it, and NOTFOUND otherwise (`stateFor`).

Adding a ROA makes every prefix at the ROA and below it INVALID, whatever its `maxLen`. Removing one
looks at `roa_coverage`, which does not count a ROA whose `maxLen` is less than the length of the
prefix. A ROA that does not cover its own prefix is overlooked (`WithdrawalOk`).

Results:
1. `otherState_iff`: the states are right along a run if and only if every withdrawal is `WithdrawalOk`.
2. `roa_overlooked`: two ROAs for `10.0.0.0/8` with `maxLen` 4, one is withdrawn.
-/

namespace SrxSuite.Cache

open TreeLemmas

/-- The state of the updates that no ROA makes valid. -/
def stateFor (roas : List Roa) (k : List Bool) : SrxResult :=
  if roas.any fun r => decide (r.key <+: k) then .invalid else .notFound

/-- Every prefix has the right state. -/
def StatesOk (h : History) (c : PrefixCache) : Prop :=
  ∀ k pc, dataAt c.prefixTree k = some pc → pc.stateOfOther = stateFor h.roas k

/-- When a ROA is withdrawn, every ROA that is left at its prefix or below has a ROA at its own prefix
or above it that is above the withdrawn one or covers its own prefix. -/
def WithdrawalOk (h : History) : Op → Prop
  | .del originAS p maxLen valCacheID _ =>
    let r : Roa := ⟨p.key, originAS, maxLen, valCacheID⟩
    r ∈ h.roas → ∀ r₁ ∈ (h.delRoa r).roas, r.key <+: r₁.key →
      ∃ r₂ ∈ (h.delRoa r).roas, r₂.key <+: r₁.key ∧
        (¬ r.key <+: r₂.key ∨ r₂.covers r₂.key = true)
  | _ => True

section States

variable {h : History} {c c' : PrefixCache} {r : Roa} {k : List Bool}

theorem stateFor_eq_invalid {roas : List Roa} :
    stateFor roas k = .invalid ↔ ∃ r ∈ roas, r.key <+: k := by
  unfold stateFor
  split
  · next hany => simpa using hany
  · next hany => simpa using hany

/-- The states are right if INVALID is where it should be. -/
theorem CoverageOk.statesOk_iff (hok : CoverageOk h c) : StatesOk h c ↔
    ∀ k pc, dataAt c.prefixTree k = some pc →
      (pc.stateOfOther = .invalid ↔ ∃ r ∈ h.roas, r.key <+: k) := by
  constructor
  · intro hstates k pc hpc
    rw [hstates k pc hpc, stateFor_eq_invalid]
  · intro hstates k pc hpc
    have hiff := hstates k pc hpc
    rw [← stateFor_eq_invalid] at hiff
    rcases hok.state k pc hpc with hinv | hnf
    · rw [hinv, hiff.mp hinv]
    · unfold stateFor at hiff ⊢
      rw [hnf] at hiff ⊢
      split
      · next hany => simp [hany] at hiff
      · rfl

/-- The prefix above is INVALID if and only if there is a ROA above. -/
theorem CoverageOk.parentState_iff (hok : CoverageOk h c) (hstates : StatesOk h c)
    (k : List Bool) :
    parentState c.prefixTree k = .invalid ↔ ∃ r ∈ h.roas, r.key <+: k ∧ r.key ≠ k := by
  constructor
  · intro hpar
    have hspec := getParent_spec c.prefixTree k
    unfold parentState at hpar
    cases hparent : getParent c.prefixTree k with
    | none => simp [hparent] at hpar
    | some pc =>
      rw [hparent] at hspec hpar
      obtain ⟨j, hj, hne, hpc, -⟩ := hspec
      have hinv : pc.stateOfOther = .invalid := hpar
      rw [hstates j pc hpc, stateFor_eq_invalid] at hinv
      obtain ⟨r, hr, hrj⟩ := hinv
      refine ⟨r, hr, hrj.trans hj, fun heq => hne (hj.eq_of_length ?_)⟩
      exact Nat.le_antisymm hj.length_le (heq ▸ hrj.length_le)
  · rintro ⟨r, hr, hkey, hne⟩
    obtain ⟨j, pc, hrj, -, hpc, hstate⟩ := hok.parent_of_roa hr hkey hne
    rw [hstate, hstates j pc hpc, stateFor_eq_invalid]
    exact ⟨r, hr, hrj⟩

/-- Adding a ROA. -/
theorem ShapeOk.add_states (hok : ShapeOk h c) (hstates : StatesOk h c) {p : IPPrefix}
    {suppress b : Bool} (hkey : r.key = p.key) (hrfc : belongsToRfc5398 r.as = false)
    (hcount : h.roas.count r + 1 < 2 ^ 16) (hcover : h.coverCount r.key < 2 ^ 32)
    (hadd : addROAwl c r.as p r.maxLen r.valCacheID suppress = some (b, c')) :
    StatesOk (h.addRoa r) c' := by
  obtain ⟨c₀, -, hsame, -, hother, hbelow⟩ := hok.addRoa_data hkey hrfc hcount hcover hadd
  intro u pc' hpc'
  by_cases hu : r.key <+: u
  · have hrel := hbelow u hu
    rw [hpc'] at hrel
    generalize hd : dataAt c₀.prefixTree u = d at hrel
    cases hrel with
    | some hrel =>
      rw [hrel.2.2]
      exact (stateFor_eq_invalid.mpr ⟨r, List.mem_cons_self, hu⟩).symm
  · have hne : u ≠ r.key := fun heq => hu (heq ▸ List.prefix_rfl)
    rw [hother u hu, hsame u hne] at hpc'
    rw [hstates u pc' hpc']
    simp [stateFor, History.addRoa, hu]

/-- What keeps a prefix INVALID when a ROA is removed. -/
theorem CoverageOk.kept_iff (hok : CoverageOk h c) (hstates : StatesOk h c) (u : List Bool) :
    Kept (h.delRoa r).roas (parentState c.prefixTree r.key) r.key u ↔
      (∃ r₂ ∈ (h.delRoa r).roas, r₂.key <+: r.key ∧ r₂.key ≠ r.key) ∨
      ∃ r₂ ∈ (h.delRoa r).roas, r.key <+: r₂.key ∧ r₂.key <+: u ∧ r₂.covers r₂.key = true := by
  refine or_congr_left ?_
  rw [hok.parentState_iff hstates]
  constructor
  · rintro ⟨r₂, hr₂, hkey, hne⟩
    have hne₂ : r₂ ≠ r := fun heq => hne (by rw [heq])
    exact ⟨r₂, (List.mem_erase_of_ne hne₂).mpr hr₂, hkey, hne⟩
  · rintro ⟨r₂, hr₂, hkey, hne⟩
    exact ⟨r₂, List.mem_of_mem_erase hr₂, hkey, hne⟩

/-- Removing a ROA: the prefixes at the ROA and below it are right if and only if the withdrawal is. -/
theorem ShapeOk.del_states (hok : ShapeOk h c) (hstates : StatesOk h c) {p : IPPrefix}
    {suppress b : Bool} (hkey : r.key = p.key) (hmem : r ∈ h.roas)
    (hdel : delROAwl c r.as p r.maxLen r.valCacheID suppress = some (b, c')) :
    StatesOk (h.delRoa r) c' ↔ ∀ r₁ ∈ (h.delRoa r).roas, r.key <+: r₁.key →
      ∃ r₂ ∈ (h.delRoa r).roas, r₂.key <+: r₁.key ∧
        (¬ r.key <+: r₂.key ∨ r₂.covers r₂.key = true) := by
  have hok' := hok.del hkey hmem hdel
  obtain ⟨hother, hbelow⟩ := hok.delRoa_data hkey hmem hdel
  have hkept (u : List Bool) := @CoverageOk.kept_iff h c r hok.toCoverageOk hstates u
  -- A prefix at the ROA or below it is INVALID afterwards if and only if it is kept.
  have hiff {u : List Bool} (hu : r.key <+: u) {pc' : PcPrefix}
      (hpc' : dataAt c'.prefixTree u = some pc') : pc'.stateOfOther = .invalid ↔
        Kept (h.delRoa r).roas (parentState c.prefixTree r.key) r.key u := by
    rcases hbelow u hu with ⟨-, hnone, -⟩ | hrel
    · simp [hnone] at hpc'
    · rw [hpc'] at hrel
      generalize hd : dataAt c.prefixTree u = d at hrel
      cases hrel with
      | some hrel =>
        obtain ⟨-, -, hyes, hno⟩ := hrel
        have hinv := (hok.statesOk_iff.mp hstates u _ hd).mpr ⟨r, hmem, hu⟩
        by_cases hk : Kept (h.delRoa r).roas (parentState c.prefixTree r.key) r.key u
        · simp [hk, hyes hk, hinv]
        · simp [hk, hno hk]
  rw [hok'.statesOk_iff]
  constructor
  · intro hright r₁ hr₁ hle
    obtain ⟨pc', hpc'⟩ := Option.ne_none_iff_exists'.mp (hok'.roas r₁ hr₁)
    have hinv := (hright r₁.key pc' hpc').mpr ⟨r₁, hr₁, List.prefix_rfl⟩
    rcases (hkept r₁.key).mp ((hiff hle hpc').mp hinv) with
      ⟨r₂, hr₂, habove, hne⟩ | ⟨r₂, hr₂, -, hr₂₁, hself⟩
    · refine ⟨r₂, hr₂, habove.trans hle, .inl fun hbelow => hne (habove.eq_of_length ?_)⟩
      exact Nat.le_antisymm habove.length_le hbelow.length_le
    · exact ⟨r₂, hr₂, hr₂₁, .inr hself⟩
  · intro hcond u pc' hpc'
    by_cases hu : r.key <+: u
    · rw [hiff hu hpc', hkept]
      constructor
      · rintro (⟨r₂, hr₂, habove, -⟩ | ⟨r₂, hr₂, -, hr₂u, -⟩)
        · exact ⟨r₂, hr₂, habove.trans hu⟩
        · exact ⟨r₂, hr₂, hr₂u⟩
      · rintro ⟨r₁, hr₁, hr₁u⟩
        have habove {r₂ : Roa} (hr₂ : r₂ ∈ (h.delRoa r).roas) (hr₂u : r₂.key <+: u)
            (hnot : ¬ r.key <+: r₂.key) :
            ∃ r₂ ∈ (h.delRoa r).roas, r₂.key <+: r.key ∧ r₂.key ≠ r.key :=
          ⟨r₂, hr₂, (List.prefix_or_prefix_of_prefix hr₂u hu).resolve_right hnot,
            fun heq => hnot (heq ▸ List.prefix_rfl)⟩
        by_cases hle : r.key <+: r₁.key
        · obtain ⟨r₂, hr₂, hr₂₁, hr₂c⟩ := hcond r₁ hr₁ hle
          by_cases hle₂ : r.key <+: r₂.key
          · exact .inr ⟨r₂, hr₂, hle₂, hr₂₁.trans hr₁u, hr₂c.resolve_left fun hnot => hnot hle₂⟩
          · exact .inl (habove hr₂ (hr₂₁.trans hr₁u) hle₂)
        · exact .inl (habove hr₁ hr₁u hle)
    · rw [hok.statesOk_iff.mp hstates u pc' (hother u hu ▸ hpc')]
      constructor
      · rintro ⟨r₁, hr₁, hr₁u⟩
        have hne : r₁ ≠ r := fun heq => hu (heq ▸ hr₁u)
        exact ⟨r₁, (List.mem_erase_of_ne hne).mpr hr₁, hr₁u⟩
      · rintro ⟨r₁, hr₁, hr₁u⟩
        exact ⟨r₁, List.mem_of_mem_erase hr₁, hr₁u⟩

/-- A request: a prefix that it creates has the state of the prefix above. -/
theorem ShapeOk.request_states (hok : ShapeOk h c) (hstates : StatesOk h c) {p : IPPrefix}
    {id as : UInt32} {b : Bool} (hcover : h.coverCount p.key < 2 ^ 32)
    (hone : dataAt c.prefixTree p.key = none → ∀ e ∈ roasAbove c.prefixTree p.key,
      p.key.length ≤ e.2.maxLen.toNat → e.2.roaCount = 1)
    (hreq : requestUpdateValidation c id p as = some (b, c')) : StatesOk h c' := by
  obtain ⟨pc₀, hpc₀, hok₀, hkeeps⟩ := hok.request_data hcover hone hreq
  have hstates₀ : StatesOk h ⟨setData c.prefixTree p.key (some pc₀), []⟩ := by
    rw [hok₀.statesOk_iff]
    intro u pc hpc
    rw [dataAt_setData] at hpc
    split at hpc
    · next hu =>
      obtain rfl := Option.some.inj hpc
      rw [hu]
      rcases hpc₀ with hold | ⟨hnone, hstate⟩
      · exact hok.statesOk_iff.mp hstates _ _ hold
      · rw [hstate, hok.parentState_iff hstates]
        constructor
        · rintro ⟨r, hr, hkey, -⟩
          exact ⟨r, hr, hkey⟩
        · rintro ⟨r, hr, hkey⟩
          exact ⟨r, hr, hkey, fun heq => hok.roas r hr (heq ▸ hnone)⟩
    · exact hok.statesOk_iff.mp hstates u pc hpc
  intro u pc' hpc'
  have hrel := hkeeps u
  rw [hpc'] at hrel
  generalize hd : dataAt (setData c.prefixTree p.key (some pc₀)) u = d at hrel
  cases hrel with
  | some hkeep =>
    rw [hkeep.2.2]
    exact hstates₀ u _ hd

end States

/-! ## Runs -/

section Runs

variable {h : History} {c c' : PrefixCache} {op : Op} {ops : List Op}

/-- Without duplicates the counters of the ROAs fit. -/
theorem Exact.coverageFits (hexact : Exact h c op) (hok : CoverageOk h c) (hnodup : h.roas.Nodup)
    (hfits : ∀ k, (h.step op).coverCount k < 2 ^ 32) : CoverageFits h c op := by
  cases op with
  | add originAS p maxLen valCacheID suppress =>
    intro hrfc
    rw [History.step, if_neg (by simp [hrfc])] at hfits
    refine ⟨?_, hfits⟩
    rw [List.count_eq_zero_of_not_mem hexact]
    decide
  | del originAS p maxLen valCacheID suppress => trivial
  | request updateID p as =>
    refine ⟨hfits p.key, fun _ e he _ => ?_⟩
    obtain ⟨u, -, he⟩ := mem_roasAbove.mp he
    obtain ⟨hpos, hmem, hcount⟩ := hok.entry he
    rw [List.count_eq_one_of_mem hnodup hmem] at hcount
    exact UInt16.toNat_inj.mp (Nat.le_antisymm hcount hpos)

/-- One call. -/
theorem ShapeOk.step_states (hok : ShapeOk h c) (hstates : StatesOk h c)
    (hfits : CoverageFits h c op) (hcover : ∀ k, h.coverCount k < 2 ^ 32)
    (hstep : Cache.step c op = some c') :
    StatesOk (h.step op) c' ↔ WithdrawalOk h op := by
  cases op with
  | add originAS p maxLen valCacheID suppress =>
    refine iff_of_true ?_ trivial
    obtain ⟨⟨b, c₁⟩, hadd, rfl⟩ := Option.map_eq_some_iff.mp hstep
    rw [History.step]
    split
    · next hrfc =>
      rw [addROAwl, if_pos hrfc] at hadd
      obtain ⟨-, rfl⟩ := Prod.mk.inj (Option.some.inj hadd)
      exact hstates
    · next hrfc =>
      have hrfc : belongsToRfc5398 originAS = false := by simpa using hrfc
      exact hok.add_states hstates rfl hrfc (hfits hrfc).1 (hcover p.key) hadd
  | del originAS p maxLen valCacheID suppress =>
    obtain ⟨⟨b, c₁⟩, hdel, rfl⟩ := Option.map_eq_some_iff.mp hstep
    by_cases hmem : ⟨p.key, originAS, maxLen, valCacheID⟩ ∈ h.roas
    · rw [History.step, hok.del_states hstates rfl hmem hdel]
      exact (imp_iff_right hmem).symm
    · refine iff_of_true ?_ fun hpresent => absurd hpresent hmem
      have hsame := hok.del_absent rfl hmem hdel
      rw [History.step, History.delRoa, List.erase_of_not_mem hmem]
      intro u pc hpc
      exact hstates u pc (hsame u ▸ hpc)
  | request updateID p as =>
    refine iff_of_true ?_ trivial
    obtain ⟨⟨b, c₁⟩, hreq, rfl⟩ := Option.map_eq_some_iff.mp hstep
    exact hok.request_states hstates hfits.1 hfits.2 hreq

/-- The shape along a run without duplicates. -/
theorem ShapeOk.run_exact (hok : ShapeOk h c) (hnodup : h.roas.Nodup)
    (hexact : Along Exact h c ops)
    (hfits : ∀ ops₁, ops₁ <+: ops → ∀ k, (h.run ops₁).coverCount k < 2 ^ 32)
    (hrun : Cache.run c ops = some c') : ShapeOk (h.run ops) c' ∧ (h.run ops).roas.Nodup := by
  induction ops generalizing h c with
  | nil => exact ⟨Option.some.inj hrun ▸ hok, hnodup⟩
  | cons op ops ih =>
    obtain ⟨c₁, hstep, hrun⟩ := Option.bind_eq_some_iff.mp hrun
    have hstepFits := hexact.1.coverageFits hok.toCoverageOk hnodup (hfits [op] (by simp))
    exact ih (hok.step hstepFits hstep) (hexact.1.nodup hnodup) (hexact.2 c₁ hstep)
      (fun ops₁ hpre => hfits (op :: ops₁) (List.cons_prefix_cons.mpr ⟨rfl, hpre⟩)) hrun

/-- The last call of a run. -/
theorem Along.last {P : History → PrefixCache → Op → Prop} (hall : Along P h c (ops ++ [op]))
    (hrun : Cache.run c ops = some c') : P (h.run ops) c' op := by
  induction ops generalizing h c with
  | nil => exact Option.some.inj hrun ▸ hall.1
  | cons first ops ih =>
    obtain ⟨c₁, hstep, hrun⟩ := Option.bind_eq_some_iff.mp hrun
    exact ih (hall.2 c₁ hstep) hrun

end Runs

/-- In a run without duplicates, with counters that fit, every prefix has the right state in every
state that is reached if and only if every withdrawal that is made is `WithdrawalOk`. -/
theorem otherState_iff (ops : List Op) (hexact : Along Exact .empty initializePrefixCache ops)
    (hfits : ∀ ops₁, ops₁ <+: ops → ∀ k, (History.empty.run ops₁).coverCount k < 2 ^ 32) :
    (∀ ops₁ c, ops₁ <+: ops → run initializePrefixCache ops₁ = some c →
      StatesOk (History.empty.run ops₁) c) ↔
    ∀ ops₁ op c, ops₁ ++ [op] <+: ops → run initializePrefixCache (ops₁ ++ [op]) = some c →
      WithdrawalOk (History.empty.run ops₁) op := by
  have hstep {ops₁ : List Op} {op : Op} {c : PrefixCache} (hpre : ops₁ ++ [op] <+: ops)
      (hrun : run initializePrefixCache (ops₁ ++ [op]) = some c) :
      ∃ c₁, run initializePrefixCache ops₁ = some c₁ ∧
        (StatesOk (History.empty.run ops₁) c₁ →
          (StatesOk (History.empty.run (ops₁ ++ [op])) c ↔
            WithdrawalOk (History.empty.run ops₁) op)) := by
    rw [run_append] at hrun
    obtain ⟨c₁, hrun₁, hlast⟩ := Option.bind_eq_some_iff.mp hrun
    have hpre₁ : ops₁ <+: ops := (List.prefix_append ..).trans hpre
    obtain ⟨hok, hnodup⟩ := shapeOk_init.run_exact List.nodup_nil (hexact.of_prefix hpre₁)
      (fun ops₂ hpre₂ => hfits ops₂ (hpre₂.trans hpre₁)) hrun₁
    have hop : step c₁ op = some c := by
      obtain ⟨c₂, hop, hnil⟩ := Option.bind_eq_some_iff.mp hlast
      exact hop.trans hnil
    have hhist : History.empty.run (ops₁ ++ [op]) = (History.empty.run ops₁).step op := by
      rw [History.run, List.foldl_append]
      rfl
    refine ⟨c₁, hrun₁, fun hstates => ?_⟩
    have hlastExact := (hexact.of_prefix hpre).last hrun₁
    have hstepFits := hlastExact.coverageFits hok.toCoverageOk hnodup
      (hhist ▸ hfits (ops₁ ++ [op]) hpre)
    rw [hhist]
    exact hok.step_states hstates hstepFits (hfits ops₁ hpre₁) hop
  constructor
  · intro hall ops₁ op c hpre hrun
    obtain ⟨c₁, hrun₁, hiff⟩ := hstep hpre hrun
    exact (hiff (hall ops₁ c₁ ((List.prefix_append ..).trans hpre) hrun₁)).mp (hall _ c hpre hrun)
  · intro hcond ops₁
    induction ops₁ using List.reverseRecOn with
    | nil =>
      intro c _ hrun k pc hpc
      obtain rfl := Option.some.inj hrun
      simp [initializePrefixCache] at hpc
    | append_singleton ops₁ op ih =>
      intro c hpre hrun
      obtain ⟨c₁, hrun₁, hiff⟩ := hstep hpre hrun
      exact (hiff (ih c₁ ((List.prefix_append ..).trans hpre) hrun₁)).mpr
        (hcond ops₁ op c hpre hrun)

/-- A ROA, and an update of another AS. -/
theorem otherState_iff_ten8 : ∃ c, run initializePrefixCache [.add 1 ten8 8 0 false, .request 1 ten8 2,
    .del 1 ten8 8 0 false] = some c ∧
    StatesOk (History.empty.run [.add 1 ten8 8 0 false, .request 1 ten8 2, .del 1 ten8 8 0 false]) c := by
  have hexact : Along Exact .empty initializePrefixCache
      [.add 1 ten8 8 0 false, .request 1 ten8 2, .del 1 ten8 8 0 false] :=
    ⟨List.not_mem_nil, fun _ _ => ⟨trivial, fun _ _ => ⟨trivial, fun _ _ => trivial⟩⟩⟩
  have hrun : (run initializePrefixCache
      [.add 1 ten8 8 0 false, .request 1 ten8 2, .del 1 ten8 8 0 false]).isSome := by decide
  obtain ⟨c, hc⟩ := Option.isSome_iff_exists.mp hrun
  refine ⟨c, hc, (otherState_iff _ hexact fun ops₁ hpre => (fits_run (by decide) ops₁ hpre).covering).mpr
    ?_ _ c List.prefix_rfl hc⟩
  intro ops₁ op _ hpre _
  obtain ⟨rest, heq⟩ := hpre
  rcases ops₁ with _ | ⟨first, _ | ⟨second, _ | ⟨third, others⟩⟩⟩
  · obtain ⟨rfl, -⟩ := List.cons.inj heq
    trivial
  · obtain ⟨-, heq⟩ := List.cons.inj heq
    obtain ⟨rfl, -⟩ := List.cons.inj heq
    trivial
  · -- No ROA is left after the withdrawal.
    simp only [List.cons_append, List.nil_append, List.cons.injEq] at heq
    obtain ⟨rfl, rfl, rfl, -⟩ := heq
    intro _ r₁ hr₁
    have hnone : ((History.empty.run [.add 1 ten8 8 0 false, .request 1 ten8 2]).delRoa
      ⟨ten8.key, 1, 8, 0⟩).roas = [] := by decide
    rw [hnone] at hr₁
    exact absurd hr₁ List.not_mem_nil
  · simp at heq

/-- The ROA that is left is at the prefix, and the prefix becomes NOTFOUND. -/
theorem roa_overlooked :
    Along Exact .empty initializePrefixCache
      [.add 1 ten8 4 0 false, .add 2 ten8 4 0 false, .del 1 ten8 4 0 false] ∧
    ∃ c, run initializePrefixCache
      [.add 1 ten8 4 0 false, .add 2 ten8 4 0 false, .del 1 ten8 4 0 false] = some c ∧
      ¬ StatesOk (History.empty.run
        [.add 1 ten8 4 0 false, .add 2 ten8 4 0 false, .del 1 ten8 4 0 false]) c := by
  have hexact : Along Exact .empty initializePrefixCache
      [.add 1 ten8 4 0 false, .add 2 ten8 4 0 false, .del 1 ten8 4 0 false] :=
    by
    refine ⟨List.not_mem_nil, fun c₁ _ => ⟨?_, fun c₂ _ => ⟨trivial, fun _ _ => trivial⟩⟩⟩
    show (⟨ten8.key, 2, 4, 0⟩ : Roa) ∉ [⟨ten8.key, 1, 4, 0⟩]
    decide
  have hstate : ((run initializePrefixCache
      [.add 1 ten8 4 0 false, .add 2 ten8 4 0 false, .del 1 ten8 4 0 false]).map fun c =>
        (dataAt c.prefixTree ten8.key).map PcPrefix.stateOfOther) = some (some .notFound) := by decide
  obtain ⟨c, hrun, hstate⟩ := Option.map_eq_some_iff.mp hstate
  obtain ⟨pc, hpc, hstate⟩ := Option.map_eq_some_iff.mp hstate
  refine ⟨hexact, c, hrun, fun hstates => ?_⟩
  have hright := hstates ten8.key pc hpc
  rw [hstate] at hright
  exact absurd hright (by decide)

end SrxSuite.Cache

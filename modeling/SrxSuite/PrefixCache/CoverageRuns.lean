import SrxSuite.PrefixCache.CoverageSteps
import SrxSuite.PrefixCache.Runs

/-!
# Adding and removing a ROA

`ShapeOk.add` and `ShapeOk.del`: the two walks of the prefix cache keep `ShapeOk`. What they do to the
states is said exactly: a ROA that is added makes everything below it INVALID. When one is removed, a
prefix below keeps its state if it is `Kept`, and becomes NOTFOUND otherwise.
-/

namespace SrxSuite.Cache

open Util UpdateLemmas NodeLemmas RoaLemmas TreeLemmas EffectLemmas EntriesLemmas

section Add

variable {h : History} {c c' : PrefixCache} {r : Roa}

/-- What adding a ROA does to a prefix below it. -/
def AddedTo (h : History) (r : Roa) (u : List Bool) (pc pc' : PcPrefix) : Prop :=
  (EntriesOk h u pc.asn → EntriesOk (h.addRoa r) u pc'.asn) ∧
    pc'.roaCoverage = (if r.covers u then pc.roaCoverage + 1 else pc.roaCoverage) ∧
    pc'.stateOfOther = .invalid

theorem covers_of_key {u : List Bool} (hu : r.key <+: u) :
    r.covers u = true ↔ u.length ≤ r.maxLen.toNat := by
  rw [covers_iff]
  exact and_iff_right hu

/-- What the walk that adds a ROA does to a prefix it visits. -/
def AddVisited (r : Roa) (u : List Bool) (pc pc' : PcPrefix) : Prop :=
  pc'.asn = pc.asn ∧
    pc'.roaCoverage = (if r.covers u then pc.roaCoverage + 1 else pc.roaCoverage) ∧
    pc'.stateOfOther = .invalid

/-- A visit, in a tree that has the states of `c`. Where it stops, everything below is INVALID already
and not covered. -/
theorem ShapeOk.addVisited (hok : ShapeOk h c) {t : PrefixTree}
    (hsame : ∀ u pcu, dataAt t u = some pcu →
      ∃ pc, dataAt c.prefixTree u = some pc ∧ pc.stateOfOther = pcu.stateOfOther)
    {u : List Bool} (hu : r.key <+: u) {pcu pcu' : PcPrefix} (hpcu : dataAt t u = some pcu)
    {suppress : Bool} {s s' : WalkState} {next : Option Unit} (hmax : s.roa.maxLen = r.maxLen)
    (hvisit : verifyUpdates suppress u.length () pcu s = some (pcu', s', next)) :
    AddVisited r u pcu pcu' ∧ SameRoa s.roa s'.roa ∧
      (next = none → ∀ v pcv, dataAt t (u ++ v) = some pcv → AddVisited r (u ++ v) pcv pcv) := by
  obtain ⟨⟨ha, hc, hst⟩, hs', hnext⟩ := verifyUpdates_effect hvisit
  rw [hmax] at hc hnext
  obtain ⟨pc, hpc, hs⟩ := hsame u pcu hpcu
  have hcases := hok.state u pc hpc
  rw [hs] at hcases
  refine ⟨⟨ha, ?_, ?_⟩, hs', fun hnone v pcv hpcv => ?_⟩
  · simp only [covers_of_key hu]
    exact hc
  · rw [hst]
    rcases hcases with hinv | hnf
    · simp [hinv]
    · simp [hnf]
  · obtain ⟨hlen, hnf⟩ := hnext hnone
    obtain ⟨pc₂, hpc₂, hs₂⟩ := hsame _ pcv hpcv
    have hnot : r.covers u = false := by
      rw [← Bool.not_eq_true, covers_of_key hu]
      exact hlen
    refine ⟨rfl, ?_, ?_⟩
    · rw [not_covers_below hnot hu]
      rfl
    · rw [← hs₂]
      exact hok.below u (u ++ v) pc pc₂ (List.prefix_append ..) hpc hpc₂
        (hs ▸ hcases.resolve_right hnf)

/-- The walk that adds a ROA. Before it `c₀` has the prefix of the ROA. -/
theorem ShapeOk.addRoa_data (hok : ShapeOk h c) {p : IPPrefix} {suppress b : Bool}
    (hkey : r.key = p.key) (hrfc : belongsToRfc5398 r.as = false)
    (hcount : h.roas.count r + 1 < 2 ^ 16) (hcover : h.coverCount r.key < 2 ^ 32)
    (hadd : addROAwl c r.as p r.maxLen r.valCacheID suppress = some (b, c')) :
    ∃ c₀, ShapeOk h c₀ ∧ (∀ u, u ≠ r.key → dataAt c₀.prefixTree u = dataAt c.prefixTree u) ∧
      dataAt c₀.prefixTree r.key ≠ none ∧
      (∀ u, ¬ r.key <+: u → dataAt c'.prefixTree u = dataAt c₀.prefixTree u) ∧
      ∀ u, r.key <+: u →
        Option.Rel (AddedTo h r u) (dataAt c₀.prefixTree u) (dataAt c'.prefixTree u) := by
  obtain ⟨pc, hpc⟩ : ∃ pc, pc = (dataAt c.prefixTree r.key).getD (createPrefix c.prefixTree r.key) :=
    ⟨_, rfl⟩
  have hok₀ := hok.startPrefix hcover hpc c.reports
  obtain ⟨c₀, hc₀⟩ : ∃ c₀ : PrefixCache, c₀ = ⟨setData c.prefixTree r.key (some pc), c.reports⟩ :=
    ⟨_, rfl⟩
  rw [← hc₀] at hok₀
  have hdata₀ (u : List Bool) : dataAt c₀.prefixTree u =
      if u = r.key then some pc else dataAt c.prefixTree u := by rw [hc₀, dataAt_setData]
  have hkey₀ : dataAt c₀.prefixTree r.key = some pc := by rw [hdata₀, if_pos rfl]
  obtain ⟨asn', hasn'⟩ : ∃ asn', asn' = modifyRoas (getASFromPrefix pc.asn r.as) r.as
    fun roas => addRoa roas r.as r.maxLen r.valCacheID := ⟨_, rfl⟩
  obtain ⟨x, hfind, hxmax, hback⟩ := (hok₀.entries _ _ hkey₀).add hcount hasn'
  obtain ⟨t, ht⟩ : ∃ t, t = setData c.prefixTree r.key (some { pc with asn := asn' }) := ⟨_, rfl⟩
  -- The tree with the ROA differs from that of `c₀` in its list of ASes only.
  have hdata (u : List Bool) : dataAt t u =
      if u = r.key then some { pc with asn := asn' } else dataAt c₀.prefixTree u := by
    rw [ht, dataAt_setData, hdata₀]
    split <;> rfl
  have hsame (u : List Bool) (pcu : PcPrefix) (hpcu : dataAt t u = some pcu) :
      ∃ pc₁, dataAt c₀.prefixTree u = some pc₁ ∧ pc₁.stateOfOther = pcu.stateOfOther := by
    rw [hdata] at hpcu
    split at hpcu
    · next hu =>
      obtain rfl := Option.some.inj hpcu
      exact ⟨pc, hu ▸ hkey₀, rfl⟩
    · exact ⟨pcu, hpcu, rfl⟩
  have hpc₁ : (nodeAt c.prefixTree r.key).data.getD (createPrefix c.prefixTree r.key) = pc := hpc.symm
  simp only [addROAwl, hrfc, Bool.false_eq_true, if_false, ← hkey, hpc₁, ← hasn', hfind, ← ht,
    Option.bind_eq_bind, Option.bind_some] at hadd
  obtain ⟨⟨t', w⟩, hwalk, hadd⟩ := Option.bind_eq_some_iff.mp hadd
  obtain ⟨pc', hpc', hres⟩ := Option.bind_eq_some_iff.mp hadd
  obtain ⟨-, rfl⟩ := Prod.mk.inj (Option.some.inj hres)
  obtain ⟨hroa, hother, hrel⟩ := @walkData_of_some _ (verifyUpdates suppress) t t' r.key
    (AddVisited r) (fun _ _ => True) (fun s => SameRoa x s.roa) () ⟨x, c.reports⟩ w
    (fun u _ pcu s pcu' s' next hu hpcu _ hs hvisit => by
      have hmax : s.roa.maxLen = r.maxLen := by
        obtain ⟨n, hn⟩ := hs
        rw [hn]
        exact hxmax
      obtain ⟨hvisited, hs', hbelow⟩ := hok₀.addVisited hsame hu hpcu hmax hvisit
      refine ⟨hvisited, hs.trans hs', ?_⟩
      cases next with
      | some _ => exact fun _ => trivial
      | none => exact fun v pcv _ => hbelow rfl v pcv)
    (fun _ _ _ _ _ _ => trivial) (by rw [hdata, if_pos rfl]; simp) trivial (SameRoa.refl x) hwalk
  refine ⟨c₀, hok₀, fun u hu => by rw [hdata₀, if_neg hu], by rw [hkey₀]; simp, fun u hu => ?_,
    fun u hu => ?_⟩
  · have hne : u ≠ r.key := fun heq => hu (heq ▸ List.prefix_rfl)
    show dataAt (setData t' _ _) u = _
    rw [dataAt_setData, if_neg hne, hother u hu, hdata, if_neg hne]
  · have hrelu := hrel u hu
    show Option.Rel _ _ (dataAt (setData t' _ _) u)
    rw [dataAt_setData]
    rw [hdata] at hrelu
    split
    · next heq =>
      rw [if_pos heq] at hrelu
      have hpc'' : dataAt t' u = some pc' := heq ▸ hpc'
      rw [hpc''] at hrelu
      cases hrelu with
      | some hrelu =>
        obtain ⟨ha, hc, hs⟩ := hrelu
        rw [heq, hkey₀]
        refine Option.Rel.some ⟨fun _ => ?_, heq ▸ hc, hs⟩
        dsimp only at ha ⊢
        rw [ha]
        exact hback w.roa hroa
    · next hne =>
      rw [if_neg hne] at hrelu
      generalize dataAt c₀.prefixTree u = d at hrelu ⊢
      generalize dataAt t' u = d' at hrelu ⊢
      cases hrelu with
      | none => exact Option.Rel.none
      | some hrelu =>
        obtain ⟨ha, hc, hs⟩ := hrelu
        exact Option.Rel.some ⟨fun hok => by rw [ha]; exact hok.addRoa_of_ne (Ne.symm hne), hc, hs⟩

/-- Adding a ROA keeps the shape. -/
theorem ShapeOk.add (hok : ShapeOk h c) {p : IPPrefix} {suppress b : Bool}
    (hkey : r.key = p.key) (hrfc : belongsToRfc5398 r.as = false)
    (hcount : h.roas.count r + 1 < 2 ^ 16) (hfits : ∀ k, (h.addRoa r).coverCount k < 2 ^ 32)
    (hadd : addROAwl c r.as p r.maxLen r.valCacheID suppress = some (b, c')) :
    ShapeOk (h.addRoa r) c' := by
  have hcover : h.coverCount r.key < 2 ^ 32 := by
    have := hfits r.key
    rw [History.coverCount_addRoa] at this
    omega
  obtain ⟨c₀, hok₀, -, hkey₀, hother, hbelow⟩ := hok.addRoa_data hkey hrfc hcount hcover hadd
  have hrel {u : List Bool} (hu : r.key <+: u) {pc' : PcPrefix}
      (hpc' : dataAt c'.prefixTree u = some pc') :
      ∃ pc, dataAt c₀.prefixTree u = some pc ∧ AddedTo h r u pc pc' := by
    have := hbelow u hu
    rw [hpc'] at this
    generalize hd : dataAt c₀.prefixTree u = d at this
    cases this with
    | some hrel => exact ⟨_, rfl, hrel⟩
  have hnotCover {u : List Bool} (hu : ¬ r.key <+: u) : r.covers u = false := by
    rw [← Bool.not_eq_true, covers_iff]
    exact fun hcov => hu hcov.1
  have hcountAt (u : List Bool) := @History.coverCount_addRoa h r u
  refine ⟨⟨fun u pc' hpc' => ?_, fun u pc' hpc' => ?_, fun u pc' hpc' => ?_, fun u pc' hpc' hpos => ?_,
    fun r' hr' => ?_⟩, fun j u pcj pcu hju hpcj hpcu hinv => ?_⟩
  · by_cases hu : r.key <+: u
    · obtain ⟨pc, hpc, hasn, -⟩ := hrel hu hpc'
      exact hasn (hok₀.entries u pc hpc)
    · exact (hok₀.entries u pc' (hother u hu ▸ hpc')).addRoa_of_ne fun heq => hu (heq ▸ List.prefix_rfl)
  · by_cases hu : r.key <+: u
    · obtain ⟨pc, hpc, -, hcov, -⟩ := hrel hu hpc'
      have hold := hok₀.coverage u pc hpc
      have hfit := hfits u
      rw [hcov, hcountAt, ← hold]
      rw [hcountAt, ← hold] at hfit
      split
      · next hcovers =>
        rw [if_pos hcovers] at hfit
        exact toNat_inc32 hfit
      · exact (Nat.add_zero _).symm
    · rw [hcountAt, hnotCover hu]
      exact hok₀.coverage u pc' (hother u hu ▸ hpc')
  · by_cases hu : r.key <+: u
    · obtain ⟨pc, -, -, -, hstate⟩ := hrel hu hpc'
      exact .inl hstate
    · exact hok₀.state u pc' (hother u hu ▸ hpc')
  · by_cases hu : r.key <+: u
    · obtain ⟨pc, -, -, -, hstate⟩ := hrel hu hpc'
      exact hstate
    · rw [hcountAt, hnotCover hu] at hpos
      exact hok₀.covered u pc' (hother u hu ▸ hpc') hpos
  · have hold : dataAt c₀.prefixTree r'.key ≠ none := by
      rcases List.mem_cons.mp hr' with rfl | hr'
      · exact hkey₀
      · exact hok₀.roas r' hr'
    by_cases hu : r.key <+: r'.key
    · have := hbelow r'.key hu
      intro hnone
      rw [hnone] at this
      generalize hd : dataAt c₀.prefixTree r'.key = d at this hold
      cases this
      exact hold rfl
    · rw [hother _ hu]
      exact hold
  · by_cases hu : r.key <+: u
    · obtain ⟨pc, -, -, -, hstate⟩ := hrel hu hpcu
      exact hstate
    · have hj : ¬ r.key <+: j := fun hj => hu (hj.trans hju)
      exact hok₀.below j u pcj pcu hju (hother j hj ▸ hpcj) (hother u hu ▸ hpcu) hinv

end Add

/-! ## Removing a ROA -/

section Del

variable {h : History} {c c' : PrefixCache} {r : Roa}

/-- A prefix below the key `k` keeps its state when a ROA is removed from `k`: the prefix above `k` is
INVALID, or a ROA that is left is at the prefix or between the two, and covers its own prefix. -/
def Kept (roas : List Roa) (above : SrxResult) (k u : List Bool) : Prop :=
  above = .invalid ∨ ∃ r ∈ roas, k <+: r.key ∧ r.key <+: u ∧ r.covers r.key = true

/-- What removing a ROA does to a prefix below it. -/
def RemovedFrom (h : History) (r : Roa) (above : SrxResult) (u : List Bool) (pc pc' : PcPrefix) :
    Prop :=
  (EntriesOk h u pc.asn → EntriesOk (h.delRoa r) u pc'.asn) ∧
    pc'.roaCoverage = (if r.covers u then pc.roaCoverage - 1 else pc.roaCoverage) ∧
    (Kept (h.delRoa r).roas above r.key u → pc'.stateOfOther = pc.stateOfOther) ∧
    (¬ Kept (h.delRoa r).roas above r.key u → pc'.stateOfOther = .notFound)

theorem Kept.below {roas : List Roa} {above : SrxResult} {k u v : List Bool}
    (hkept : Kept roas above k u) (huv : u <+: v) : Kept roas above k v := by
  rcases hkept with hinv | ⟨r', hr', hk, hu, hcov⟩
  · exact .inl hinv
  · exact .inr ⟨r', hr', hk, hu.trans huv, hcov⟩

/-- A ROA that is left and covers the prefix keeps it. -/
theorem CoverageOk.kept_of_cover (hok : CoverageOk h c) {k u : List Bool} (hu : k <+: u)
    {r' : Roa} (hr' : r' ∈ (h.delRoa r).roas) (hcov : r'.covers u = true) :
    Kept (h.delRoa r).roas (parentState c.prefixTree k) k u := by
  obtain ⟨hkey, hlen⟩ := covers_iff.mp hcov
  by_cases hk : k <+: r'.key
  · exact .inr ⟨r', hr', hk, hkey,
      covers_iff.mpr ⟨List.prefix_rfl, Nat.le_trans hkey.length_le hlen⟩⟩
  · -- The ROA is above `k`, so the prefix above `k` is covered.
    have habove : r'.key <+: k := (List.prefix_or_prefix_of_prefix hkey hu).resolve_right hk
    obtain ⟨j, pc, hrj, hjk, hpc, hstate⟩ := hok.parent_of_roa (List.mem_of_mem_erase hr') habove
      fun heq => hk (heq ▸ List.prefix_rfl)
    refine .inl (hstate.trans (hok.covered j pc hpc (History.coverCount_pos.mpr
      ⟨r', List.mem_of_mem_erase hr', covers_iff.mpr ⟨hrj, ?_⟩⟩)))
    exact Nat.le_trans (hjk.trans hu).length_le hlen

/-- What the walk hands down: INVALID to prefixes that are kept, NOTFOUND below prefixes that are
not. -/
def HandedDown (h : History) (c : PrefixCache) (r : Roa) (w : List Bool) (p : SrxResult) : Prop :=
  (p = .invalid ∧ Kept (h.delRoa r).roas (parentState c.prefixTree r.key) r.key w ∧
      ∀ u pc, w <+: u → dataAt c.prefixTree u = some pc → pc.stateOfOther = .invalid) ∨
    (p = .notFound ∧ parentState c.prefixTree r.key ≠ .invalid ∧
      ∀ r' ∈ (h.delRoa r).roas, r.key <+: r'.key → r'.key <+: w → r'.key ≠ w →
        r'.covers r'.key = false)

variable {w : List Bool} {p : SrxResult}

theorem HandedDown.start (hok : ShapeOk h c) :
    HandedDown h c r r.key (parentState c.prefixTree r.key) := by
  cases hpar : parentState c.prefixTree r.key with
  | invalid =>
    exact .inl ⟨rfl, .inl hpar, fun u pc hu hpc => hok.below_parent hpar hu hpc⟩
  | notFound =>
    refine .inr ⟨rfl, by simp [hpar], fun r' _ hk hw hne => ?_⟩
    exact absurd (hw.eq_of_length (Nat.le_antisymm hw.length_le hk.length_le)) hne
  | _ => exact absurd (hok.parentState_cases r.key) (by simp [hpar])

/-- A node without data has no ROA. -/
theorem HandedDown.skip (hok : CoverageOk h c) (hnone : dataAt c.prefixTree w = none)
    (hdown : HandedDown h c r w p) (b : Bool) : HandedDown h c r (w ++ [b]) p := by
  rcases hdown with ⟨hp, hkept, hinv⟩ | ⟨hp, hpar, hself⟩
  · exact .inl ⟨hp, hkept.below (List.prefix_append ..),
      fun u pc hu hpc => hinv u pc ((List.prefix_append ..).trans hu) hpc⟩
  · refine .inr ⟨hp, hpar, fun r' hr' hk hw hne => ?_⟩
    have hw := above_child.mp ⟨hw, hne⟩
    refine hself r' hr' hk hw fun heq => ?_
    exact hok.roas r' (List.mem_of_mem_erase hr') (heq ▸ hnone)

/-- A prefix that the walk visits. -/
theorem HandedDown.visit (hok : ShapeOk h c) (hw : r.key <+: w) {pc : PcPrefix}
    (hpc : dataAt c.prefixTree w = some pc) {cov : UInt32}
    (hcov : cov.toNat = (h.delRoa r).coverCount w) (hdown : HandedDown h c r w p) {state : SrxResult}
    (hstate : state = if p = .notFound ∧ cov = 0 then .notFound else pc.stateOfOther) :
    (Kept (h.delRoa r).roas (parentState c.prefixTree r.key) r.key w ∧ state = pc.stateOfOther ∧
        ¬ (p = .notFound ∧ cov = 0) ∨
      ¬ Kept (h.delRoa r).roas (parentState c.prefixTree r.key) r.key w ∧ state = .notFound ∧
        p = .notFound ∧ cov = 0) ∧
      ∀ b, HandedDown h c r (w ++ [b]) state := by
  rcases hdown with ⟨rfl, hkept, hinv⟩ | ⟨rfl, hpar, hself⟩
  · rw [if_neg (by simp)] at hstate
    refine ⟨.inl ⟨hkept, hstate, by simp⟩, fun b => .inl ⟨?_, hkept.below (List.prefix_append ..),
      fun u pcu hu hpcu => hinv u pcu ((List.prefix_append ..).trans hu) hpcu⟩⟩
    rw [hstate]
    exact hinv w pc List.prefix_rfl hpc
  · by_cases hzero : cov = 0
    · rw [if_pos ⟨rfl, hzero⟩] at hstate
      have hnone : ∀ r' ∈ (h.delRoa r).roas, r'.covers w = false := by
        rw [hzero, UInt32.toNat_zero] at hcov
        intro r' hr'
        rw [← Bool.not_eq_true]
        intro hc
        exact Nat.ne_of_gt (History.coverCount_pos.mpr ⟨r', hr', hc⟩) hcov.symm
      have hat : ∀ r' ∈ (h.delRoa r).roas, r.key <+: r'.key → r'.key <+: w →
          r'.covers r'.key = false := by
        intro r' hr' hk hw'
        by_cases heq : r'.key = w
        · rw [heq]
          exact hnone r' hr'
        · exact hself r' hr' hk hw' heq
      refine ⟨.inr ⟨?_, hstate, rfl, hzero⟩, fun b => .inr ⟨hstate, hpar, fun r' hr' hk hw' hne =>
        hat r' hr' hk (above_child.mp ⟨hw', hne⟩)⟩⟩
      rintro (hinv | ⟨r', hr', hk, hw', hc⟩)
      · exact hpar hinv
      · simp [hat r' hr' hk hw'] at hc
    · -- A ROA that is left covers the prefix.
      rw [if_neg fun hcond => hzero hcond.2] at hstate
      have hpos : 0 < (h.delRoa r).coverCount w := by
        rw [← hcov]
        exact Nat.pos_of_ne_zero fun heq => hzero (UInt32.toNat_inj.mp heq)
      obtain ⟨r', hr', hc⟩ := History.coverCount_pos.mp hpos
      have hkept := hok.kept_of_cover hw hr' hc
      have hinv := hok.covered w pc hpc
        (History.coverCount_pos.mpr ⟨r', List.mem_of_mem_erase hr', hc⟩)
      refine ⟨.inl ⟨hkept, hstate, fun hcond => hzero hcond.2⟩, fun b => .inl ⟨hstate.trans hinv,
        hkept.below (List.prefix_append ..), fun u pcu hu hpcu => ?_⟩⟩
      exact hok.below w u pc pcu ((List.prefix_append ..).trans hu) hpc hpcu hinv

/-- The coverage after a ROA is removed. -/
theorem CoverageOk.coverage_delRoa (hok : CoverageOk h c) (hmem : r ∈ h.roas) {pc : PcPrefix}
    (hpc : dataAt c.prefixTree w = some pc) :
    (if r.covers w then pc.roaCoverage - 1 else pc.roaCoverage).toNat =
      (h.delRoa r).coverCount w := by
  have hold := hok.coverage w pc hpc
  rw [← History.coverCount_delRoa hmem] at hold
  split
  · next hcov =>
    rw [if_pos hcov] at hold
    rw [toNat_dec32 (by omega)]
    omega
  · next hcov =>
    rw [if_neg hcov] at hold
    exact hold

/-- What the walk that removes a ROA does to a prefix it visits. -/
def DelVisited (h : History) (r : Roa) (above : SrxResult) (u : List Bool) (pc pc' : PcPrefix) :
    Prop :=
  pc'.asn = pc.asn ∧
    pc'.roaCoverage = (if r.covers u then pc.roaCoverage - 1 else pc.roaCoverage) ∧
    (Kept (h.delRoa r).roas above r.key u → pc'.stateOfOther = pc.stateOfOther) ∧
    (¬ Kept (h.delRoa r).roas above r.key u → pc'.stateOfOther = .notFound)

/-- A visit. Where it stops, everything below is kept and not covered. -/
theorem ShapeOk.delVisited (hok : ShapeOk h c) (hmem : r ∈ h.roas) {u : List Bool}
    (hu : r.key <+: u) {pcu pcu' : PcPrefix} (hpcu : dataAt c.prefixTree u = some pcu)
    (hdown : HandedDown h c r u p) {suppress : Bool} {s s' : WalkState} {next : Option SrxResult}
    (hmax : s.roa.maxLen = r.maxLen)
    (hvisit : validateUpdates suppress u.length p pcu s = some (pcu', s', next)) :
    DelVisited h r (parentState c.prefixTree r.key) u pcu pcu' ∧ Spent s.roa s'.roa ∧
      match next with
      | some p' => ∀ b, HandedDown h c r (u ++ [b]) p'
      | none => ∀ v pcv, DelVisited h r (parentState c.prefixTree r.key) (u ++ v) pcv pcv := by
  have hcov := hok.coverage_delRoa hmem hpcu
  simp only [covers_of_key hu, ← hmax] at hcov
  obtain ⟨⟨ha, hc, hst⟩, hs', hnext⟩ := validateUpdates_effect rfl hvisit
  obtain ⟨hkept, hdown'⟩ := hdown.visit hok hu hpcu hcov hst
  refine ⟨⟨ha, ?_, fun hk => ?_, fun hk => ?_⟩, hs', ?_⟩
  · simp only [covers_of_key hu, ← hmax]
    exact hc
  · exact (hkept.resolve_right fun hnot => hnot.1 hk).2.1
  · exact (hkept.resolve_left fun hyes => hk hyes.1).2.1
  · cases next with
    | some above' => exact fun b => hnext ▸ hdown' b
    | none =>
      obtain ⟨hlen, hcond⟩ := hnext
      obtain ⟨hk, -⟩ := hkept.resolve_right fun hnot => hcond hnot.2.2
      intro v pcv
      have hnot : r.covers u = false := by
        rw [← Bool.not_eq_true, covers_of_key hu, ← hmax]
        exact hlen
      refine ⟨rfl, ?_, fun _ => rfl, fun hnk => absurd (hk.below (List.prefix_append ..)) hnk⟩
      rw [not_covers_below hnot hu]
      rfl

/-- The walk that removes a ROA. A prefix that loses its last AS is freed. -/
theorem ShapeOk.delRoa_data (hok : ShapeOk h c) {p : IPPrefix} {suppress b : Bool}
    (hkey : r.key = p.key) (hmem : r ∈ h.roas)
    (hdel : delROAwl c r.as p r.maxLen r.valCacheID suppress = some (b, c')) :
    (∀ u, ¬ r.key <+: u → dataAt c'.prefixTree u = dataAt c.prefixTree u) ∧
      ∀ u, r.key <+: u →
        (u = r.key ∧ dataAt c'.prefixTree u = none ∧ ∀ r' ∈ (h.delRoa r).roas, r'.key ≠ r.key) ∨
        Option.Rel (RemovedFrom h r (parentState c.prefixTree r.key) u) (dataAt c.prefixTree u)
          (dataAt c'.prefixTree u) := by
  obtain ⟨pc, hpc⟩ := Option.ne_none_iff_exists'.mp (hok.roas r hmem)
  obtain ⟨x, hfind, hxmax, hback⟩ := (hok.entries _ _ hpc).del hmem
  have hdata : (nodeAt c.prefixTree r.key).data = some pc := hpc
  simp only [delROAwl, ← hkey, hdata, hfind, Option.bind_eq_bind] at hdel
  obtain ⟨⟨t', w⟩, hwalk, hdel⟩ := Option.bind_eq_some_iff.mp hdel
  obtain ⟨pc', hpc', hres⟩ := Option.bind_eq_some_iff.mp hdel
  obtain ⟨-, rfl⟩ := Prod.mk.inj (Option.some.inj hres)
  obtain ⟨hroa, hother, hrel⟩ := @walkData_of_some _ (validateUpdates suppress) c.prefixTree t' r.key
    (DelVisited h r (parentState c.prefixTree r.key)) (HandedDown h c r) (fun s => Spent x s.roa)
    (parentState c.prefixTree r.key) ⟨x, c.reports⟩ w
    (fun u above pcu s pcu' s' next hu hpcu hdown hs hvisit => by
      have hmax : s.roa.maxLen = r.maxLen := by
        obtain ⟨⟨n, hn⟩, -⟩ := hs
        rw [hn]
        exact hxmax
      obtain ⟨hvisited, hs', hnext⟩ := hok.delVisited hmem hu hpcu hdown hmax hvisit
      refine ⟨hvisited, hs.trans hs', ?_⟩
      cases next with
      | some above' => exact hnext
      | none => exact fun v pcv _ _ => hnext v pcv)
    (fun _ _ _ hnone hdown => hdown.skip hok.toCoverageOk hnone) (by simp [hpc])
    (HandedDown.start hok) (Spent.refl x) hwalk
  refine ⟨fun u hu => ?_, fun u hu => ?_⟩
  · show dataAt (setData t' _ _) u = _
    have hne : u ≠ r.key := fun heq => hu (heq ▸ List.prefix_rfl)
    rw [dataAt_setData, if_neg hne, hother u hu]
  · have hrelu := hrel u hu
    show _ ∨ Option.Rel _ _ (dataAt (setData t' _ _) u)
    rw [dataAt_setData]
    by_cases heq : u = r.key
    · subst heq
      have hpc'' : dataAt t' r.key = some pc' := hpc'
      rw [hpc'', hpc] at hrelu
      cases hrelu with
      | some hrelu =>
        obtain ⟨ha, hc, hs⟩ := hrelu
        have hnew := hback w.roa hroa
        rw [← ha] at hnew
        rw [if_pos rfl, hpc]
        split
        · next hempty =>
          refine .inl ⟨rfl, rfl, fun r' hr' hkey' => ?_⟩
          have hnone := hnew.roas.sums fun _ => true
          rw [List.isEmpty_iff.mp hempty] at hnone
          exact List.countP_eq_zero.mp hnone.symm r' hr' (by simp [hkey'])
        · exact .inr (Option.Rel.some ⟨fun _ => hnew, hc, hs⟩)
    · refine .inr ?_
      rw [if_neg heq]
      generalize dataAt c.prefixTree u = d at hrelu ⊢
      generalize dataAt t' u = d' at hrelu ⊢
      cases hrelu with
      | none => exact Option.Rel.none
      | some hrelu =>
        obtain ⟨ha, hc, hs⟩ := hrelu
        exact Option.Rel.some
          ⟨fun hok => by rw [ha]; exact hok.delRoa_of_ne hmem (Ne.symm heq), hc, hs⟩

/-- Removing a ROA keeps the shape. -/
theorem ShapeOk.del (hok : ShapeOk h c) {p : IPPrefix} {suppress b : Bool}
    (hkey : r.key = p.key) (hmem : r ∈ h.roas)
    (hdel : delROAwl c r.as p r.maxLen r.valCacheID suppress = some (b, c')) :
    ShapeOk (h.delRoa r) c' := by
  obtain ⟨hother, hbelow⟩ := hok.delRoa_data hkey hmem hdel
  have hrel {u : List Bool} (hu : r.key <+: u) {pc' : PcPrefix}
      (hpc' : dataAt c'.prefixTree u = some pc') :
      ∃ pc, dataAt c.prefixTree u = some pc ∧
        RemovedFrom h r (parentState c.prefixTree r.key) u pc pc' := by
    rcases hbelow u hu with ⟨-, hnone, -⟩ | hrel
    · simp [hnone] at hpc'
    · rw [hpc'] at hrel
      generalize hd : dataAt c.prefixTree u = d at hrel
      cases hrel with
      | some hrel => exact ⟨_, rfl, hrel⟩
  have hstate {u : List Bool} {pc pc' : PcPrefix}
      (hpc' : RemovedFrom h r (parentState c.prefixTree r.key) u pc pc') :
      pc'.stateOfOther = pc.stateOfOther ∨ pc'.stateOfOther = .notFound := by
    by_cases hkept : Kept (h.delRoa r).roas (parentState c.prefixTree r.key) r.key u
    · exact .inl (hpc'.2.2.1 hkept)
    · exact .inr (hpc'.2.2.2 hkept)
  have hcount {u : List Bool} (hu : ¬ r.key <+: u) : (h.delRoa r).coverCount u = h.coverCount u := by
    have hnot : ¬ r.covers u = true := fun hcov => hu (covers_iff.mp hcov).1
    rw [← History.coverCount_delRoa hmem, if_neg hnot, Nat.add_zero]
  refine ⟨⟨fun u pc' hpc' => ?_, fun u pc' hpc' => ?_, fun u pc' hpc' => ?_, fun u pc' hpc' hpos => ?_,
    fun r' hr' => ?_⟩, fun j u pcj pcu hju hpcj hpcu hinv => ?_⟩
  · by_cases hu : r.key <+: u
    · obtain ⟨pc, hpc, hasn, -⟩ := hrel hu hpc'
      exact hasn (hok.entries u pc hpc)
    · exact (hok.entries u pc' (hother u hu ▸ hpc')).delRoa_of_ne hmem
        fun heq => hu (heq ▸ List.prefix_rfl)
  · by_cases hu : r.key <+: u
    · obtain ⟨pc, hpc, -, hcov, -⟩ := hrel hu hpc'
      rw [hcov]
      exact hok.coverage_delRoa hmem hpc
    · rw [hcount hu]
      exact hok.coverage u pc' (hother u hu ▸ hpc')
  · by_cases hu : r.key <+: u
    · obtain ⟨pc, hpc, hremoved⟩ := hrel hu hpc'
      rcases hstate hremoved with hs | hs
      · rw [hs]
        exact hok.state u pc hpc
      · exact .inr hs
    · exact hok.state u pc' (hother u hu ▸ hpc')
  · by_cases hu : r.key <+: u
    · obtain ⟨pc, hpc, -, -, hkeep, -⟩ := hrel hu hpc'
      obtain ⟨r', hr', hcov⟩ := History.coverCount_pos.mp hpos
      rw [hkeep (hok.kept_of_cover hu hr' hcov)]
      exact hok.covered u pc hpc
        (History.coverCount_pos.mpr ⟨r', List.mem_of_mem_erase hr', hcov⟩)
    · rw [hcount hu] at hpos
      exact hok.covered u pc' (hother u hu ▸ hpc') hpos
  · have hold := hok.roas r' (List.mem_of_mem_erase hr')
    by_cases hu : r.key <+: r'.key
    · rcases hbelow r'.key hu with ⟨hkey', -, hnone⟩ | hrel'
      · exact absurd hkey' (hnone r' hr')
      · intro hnone
        rw [hnone] at hrel'
        generalize hd : dataAt c.prefixTree r'.key = d at hrel' hold
        cases hrel'
        exact hold rfl
    · rw [hother _ hu]
      exact hold
  · -- What stays INVALID is kept, and so is everything below it.
    by_cases hu : r.key <+: u
    · obtain ⟨pc, hpc, hremoved⟩ := hrel hu hpcu
      have hkept : Kept (h.delRoa r).roas (parentState c.prefixTree r.key) r.key u ∧
          pc.stateOfOther = .invalid := by
        by_cases hj : r.key <+: j
        · obtain ⟨pcj₀, hpcj₀, hremovedj⟩ := hrel hj hpcj
          by_cases hkept : Kept (h.delRoa r).roas (parentState c.prefixTree r.key) r.key j
          · exact ⟨hkept.below hju, hok.below j u pcj₀ pc hju hpcj₀ hpc
              (hremovedj.2.2.1 hkept ▸ hinv)⟩
          · have := hremovedj.2.2.2 hkept
            rw [hinv] at this
            simp at this
        · have hjr : j <+: r.key := (List.prefix_or_prefix_of_prefix hju hu).resolve_right hj
          have hpcj₀ := hother j hj ▸ hpcj
          refine ⟨.inl (hok.parentState_of_above hjr (fun heq => hj (heq ▸ List.prefix_rfl)) hpcj₀
            hinv), hok.below j u pcj pc hju hpcj₀ hpc hinv⟩
      rw [hremoved.2.2.1 hkept.1]
      exact hkept.2
    · have hj : ¬ r.key <+: j := fun hj => hu (hj.trans hju)
      exact hok.below j u pcj pcu hju (hother j hj ▸ hpcj) (hother u hu ▸ hpcu) hinv

/-- A ROA that is not present is not removed. -/
theorem CoverageOk.del_absent (hok : CoverageOk h c) {p : IPPrefix} {suppress b : Bool}
    (hkey : r.key = p.key) (hmem : r ∉ h.roas)
    (hdel : delROAwl c r.as p r.maxLen r.valCacheID suppress = some (b, c')) (u : List Bool) :
    dataAt c'.prefixTree u = dataAt c.prefixTree u := by
  rw [delROAwl, ← hkey] at hdel
  cases hdata : dataAt c.prefixTree r.key with
  | none =>
    have hnode : (nodeAt c.prefixTree r.key).data = none := hdata
    simp only [hnode] at hdel
    obtain ⟨-, rfl⟩ := Prod.mk.inj (Option.some.inj hdel)
    exact dataAt_patriciaLookup ..
  | some pc =>
    have hnode : (nodeAt c.prefixTree r.key).data = some pc := hdata
    simp only [hnode] at hdel
    cases hfind : findRoa pc.asn r.as r.maxLen r.valCacheID with
    | none =>
      simp only [hfind] at hdel
      obtain ⟨-, rfl⟩ := Prod.mk.inj (Option.some.inj hdel)
      rfl
    | some x =>
      obtain ⟨hentry, hid, hmax⟩ := entry_of_findRoa hfind
      refine absurd ((hok.entries _ _ hdata).roas.mem hentry) ?_
      rw [roaOf, hid, hmax]
      exact hmem

end Del

/-! ## Runs -/

/-- The counters of ROAs fit, and a prefix that a request creates is not covered by ROAs with
duplicates. -/
def CoverageFits (h : History) (c : PrefixCache) : Op → Prop
  | .add originAS p maxLen valCacheID _ => belongsToRfc5398 originAS = false →
    h.roas.count ⟨p.key, originAS, maxLen, valCacheID⟩ + 1 < 2 ^ 16 ∧
      ∀ k, (h.addRoa ⟨p.key, originAS, maxLen, valCacheID⟩).coverCount k < 2 ^ 32
  | .del _ _ _ _ _ => True
  | .request _ p _ => h.coverCount p.key < 2 ^ 32 ∧
    (dataAt c.prefixTree p.key = none → ∀ e ∈ roasAbove c.prefixTree p.key,
      p.key.length ≤ e.2.maxLen.toNat → e.2.roaCount = 1)

section Runs

variable {h : History} {c c' : PrefixCache} {op : Op} {ops : List Op}

/-- The shape is about the ROAs only. -/
theorem ShapeOk.addRequest (hok : ShapeOk h c) (q : Request) : ShapeOk (h.addRequest q) c where
  entries k pc hpc := ⟨(hok.entries k pc hpc).nodup, (hok.entries k pc hpc).roas⟩
  coverage := hok.coverage
  state := hok.state
  covered := hok.covered
  roas := hok.roas
  below := hok.below

/-- A call keeps the shape. -/
theorem ShapeOk.step (hok : ShapeOk h c) (hfits : CoverageFits h c op)
    (hstep : Cache.step c op = some c') : ShapeOk (h.step op) c' := by
  cases op with
  | add originAS p maxLen valCacheID suppress =>
    obtain ⟨⟨b, c₁⟩, hadd, rfl⟩ := Option.map_eq_some_iff.mp hstep
    rw [History.step]
    split
    · next hrfc =>
      rw [addROAwl, if_pos hrfc] at hadd
      obtain ⟨-, rfl⟩ := Prod.mk.inj (Option.some.inj hadd)
      exact hok
    · next hrfc =>
      have hrfc : belongsToRfc5398 originAS = false := by simpa using hrfc
      exact hok.add rfl hrfc (hfits hrfc).1 (hfits hrfc).2 hadd
  | del originAS p maxLen valCacheID suppress =>
    obtain ⟨⟨b, c₁⟩, hdel, rfl⟩ := Option.map_eq_some_iff.mp hstep
    by_cases hmem : ⟨p.key, originAS, maxLen, valCacheID⟩ ∈ h.roas
    · exact hok.del rfl hmem hdel
    · have hsame := hok.del_absent rfl hmem hdel
      rw [History.step, History.delRoa, List.erase_of_not_mem hmem]
      refine hok.of_keeps fun u => ?_
      rw [hsame]
      cases dataAt c.prefixTree u with
      | none => exact Option.Rel.none
      | some pcu => exact Option.Rel.some ⟨id, rfl, rfl⟩
  | request updateID p as =>
    obtain ⟨⟨b, c₁⟩, hreq, rfl⟩ := Option.map_eq_some_iff.mp hstep
    obtain ⟨pc₀, -, hok₀, hkeeps⟩ := hok.request_data hfits.1 hfits.2 hreq
    have hdone := hok₀.of_keeps hkeeps
    exact hdone.addRequest _

/-- So does a run. -/
theorem ShapeOk.run (hok : ShapeOk h c) (hfits : Along CoverageFits h c ops)
    (hrun : Cache.run c ops = some c') : ShapeOk (h.run ops) c' := by
  induction ops generalizing h c with
  | nil => exact Option.some.inj hrun ▸ hok
  | cons op ops ih =>
    obtain ⟨c₁, hstep, hrun⟩ := Option.bind_eq_some_iff.mp hrun
    exact ih (hok.step hfits.1 hstep) (hfits.2 c₁ hstep) hrun

end Runs

end SrxSuite.Cache

import SrxSuite.PrefixCache.Coverage

/-!
# The coverage of the prefixes along a run

Every call that returns keeps `CoverageOk`, as long as `roa_count` and `roa_coverage` do not overflow
and no request creates a prefix below a ROA with duplicates. Nothing is assumed about the lists of
updates: a visit may find them in any state, and its effect on the other fields is always the same
(`verifyUpdates_effect`, `validateUpdates_effect`).
-/

namespace SrxSuite.Cache

open Util UpdateLemmas NodeLemmas RoaLemmas TreeLemmas

/-! ## What a visit does besides the lists -/

namespace EffectLemmas

variable {suppress : Bool} {fuel len : Nat} {cur : Option Nat} {s s' : MoveState} {state : SrxResult}
  {pc pc' : PcPrefix} {w w' : WalkState}

/-- The same ROA, except for its counter of updates. -/
def SameRoa (r r' : PcRoa) : Prop := ∃ n, r' = r.withCount n

theorem SameRoa.refl (r : PcRoa) : SameRoa r r := ⟨r.updateCount, rfl⟩

theorem SameRoa.trans {r₁ r₂ r₃ : PcRoa} (h₁ : SameRoa r₁ r₂) (h₂ : SameRoa r₂ r₃) :
    SameRoa r₁ r₃ := by
  obtain ⟨n, rfl⟩ := h₁
  obtain ⟨m, rfl⟩ := h₂
  exact ⟨m, rfl⟩

/-- The ROA after a walk that may spend its counter: only the last one of identical ROAs does. -/
def Spent (r r' : PcRoa) : Prop := SameRoa r r' ∧ (r.roaCount ≠ 1 → r' = r)

theorem Spent.refl (r : PcRoa) : Spent r r := ⟨SameRoa.refl r, fun _ => rfl⟩

theorem Spent.trans {r₁ r₂ r₃ : PcRoa} (h₁ : Spent r₁ r₂) (h₂ : Spent r₂ r₃) : Spent r₁ r₃ := by
  refine ⟨h₁.1.trans h₂.1, fun hne => ?_⟩
  obtain rfl := h₁.2 hne
  exact h₂.2 hne

theorem moveMatchedLoop_roa (h : moveMatchedLoop suppress fuel cur s = some s') :
    SameRoa s.roa s'.roa := by
  induction fuel generalizing cur s with
  | zero =>
    cases cur with
    | none => exact Option.some.inj h ▸ SameRoa.refl _
    | some a => simp [moveMatchedLoop] at h
  | succ fuel ih =>
    cases cur with
    | none => exact Option.some.inj h ▸ SameRoa.refl _
    | some a =>
      simp only [moveMatchedLoop, Option.bind_eq_bind, Option.bind_eq_some_iff] at h
      obtain ⟨node, -, h⟩ := h
      split at h
      · obtain ⟨⟨nodes, other, valid⟩, -, h⟩ := Option.bind_eq_some_iff.mp h
        have hrest := ih h
        exact SameRoa.trans ⟨_, rfl⟩ hrest
      · have hrest := ih h
        exact hrest

theorem moveToOtherLoop_roa (h : moveToOtherLoop suppress state fuel cur s = some s') :
    Spent s.roa s'.roa := by
  induction fuel generalizing cur s with
  | zero =>
    cases cur with
    | none => exact Option.some.inj h ▸ Spent.refl _
    | some a => simp [moveToOtherLoop] at h
  | succ fuel ih =>
    cases cur with
    | none => exact Option.some.inj h ▸ Spent.refl _
    | some a =>
      simp only [moveToOtherLoop, Option.bind_eq_bind] at h
      split at h
      · exact Option.some.inj h ▸ Spent.refl _
      · obtain ⟨node, -, h⟩ := Option.bind_eq_some_iff.mp h
        have hdec : Spent s.roa (if s.roa.roaCount = 1 then
            { s.roa with updateCount := s.roa.updateCount - 1 } else s.roa) := by
          split
          · next hone => exact ⟨⟨_, rfl⟩, fun hne => absurd hone hne⟩
          · exact Spent.refl _
        split at h
        · split at h
          · obtain ⟨⟨nodes, valid, other⟩, -, h⟩ := Option.bind_eq_some_iff.mp h
            have hrest := ih h
            exact hdec.trans hrest
          · have hrest := ih h
            exact hdec.trans hrest
        · have hrest := ih h
          exact hrest

/-- The fields of a prefix that are not about updates. -/
def SameShape (pc pc' : PcPrefix) : Prop :=
  pc'.asn = pc.asn ∧ pc'.roaCoverage = pc.roaCoverage ∧ pc'.stateOfOther = pc.stateOfOther

theorem changeStateOfOther_effect (h : changeStateOfOther suppress state pc w = some (pc', w')) :
    SameShape { pc with stateOfOther := state } pc' ∧ w'.roa = w.roa := by
  simp only [changeStateOfOther, Option.bind_eq_bind, Option.bind_eq_some_iff] at h
  obtain ⟨⟨nodes, reports⟩, -, h⟩ := h
  obtain ⟨rfl, rfl⟩ := Prod.mk.inj (Option.some.inj h)
  exact ⟨⟨rfl, rfl, rfl⟩, rfl⟩

theorem countMatched_effect (h : countMatched pc w = some (pc', w')) :
    SameShape pc pc' ∧ SameRoa w.roa w'.roa := by
  simp only [countMatched, Option.bind_eq_bind, Option.bind_eq_some_iff] at h
  obtain ⟨⟨nodes, count⟩, -, h⟩ := h
  obtain ⟨rfl, rfl⟩ := Prod.mk.inj (Option.some.inj h)
  exact ⟨⟨rfl, rfl, rfl⟩, _, rfl⟩

theorem moveMatched_effect (h : moveMatchedUpdatesToValid suppress pc w = some (pc', w')) :
    SameShape pc pc' ∧ SameRoa w.roa w'.roa := by
  simp only [moveMatchedUpdatesToValid, Option.bind_eq_bind, Option.bind_eq_some_iff] at h
  obtain ⟨s, hloop, h⟩ := h
  obtain ⟨rfl, rfl⟩ := Prod.mk.inj (Option.some.inj h)
  exact ⟨⟨rfl, rfl, rfl⟩, moveMatchedLoop_roa hloop⟩

theorem moveToOther_effect (h : moveToOther suppress pc w = some (pc', w')) :
    SameShape pc pc' ∧ Spent w.roa w'.roa := by
  simp only [moveToOther, Option.bind_eq_bind, Option.bind_eq_some_iff] at h
  obtain ⟨s, hloop, h⟩ := h
  obtain ⟨rfl, rfl⟩ := Prod.mk.inj (Option.some.inj h)
  exact ⟨⟨rfl, rfl, rfl⟩, moveToOtherLoop_roa hloop⟩

theorem prefixNotCovered_effect {u : PcUpdate} {report : Report}
    (h : prefixNotCovered pc u = some (pc', report)) : SameShape pc pc' := by
  unfold prefixNotCovered at h
  split at h
  · obtain ⟨⟨nodes, other⟩, -, h⟩ := Option.bind_eq_some_iff.mp h
    obtain ⟨rfl, -⟩ := Prod.mk.inj (Option.some.inj h)
    exact ⟨rfl, rfl, rfl⟩
  · obtain ⟨⟨nodes, valid⟩, -, h⟩ := Option.bind_eq_some_iff.mp h
    obtain ⟨rfl, -⟩ := Prod.mk.inj (Option.some.inj h)
    exact ⟨rfl, rfl, rfl⟩

/-- A visit of `_addROAwl_verifyUpdates`: the coverage grows if the ROA covers the prefix, the state
becomes INVALID. The walk stops at a prefix that is not covered and INVALID already. -/
theorem verifyUpdates_effect {next : Option Unit}
    (h : verifyUpdates suppress len () pc w = some (pc', w', next)) :
    SameShape { pc with
        roaCoverage := if len ≤ w.roa.maxLen.toNat then pc.roaCoverage + 1 else pc.roaCoverage,
        stateOfOther := if pc.stateOfOther = .notFound then .invalid else pc.stateOfOther } pc' ∧
      SameRoa w.roa w'.roa ∧
      (next = none → ¬ len ≤ w.roa.maxLen.toNat ∧ pc.stateOfOther ≠ .notFound) := by
  simp only [verifyUpdates, Option.bind_eq_bind] at h
  split at h
  · next hlen =>
    rw [if_pos hlen]
    obtain ⟨⟨pc₁, w₁⟩, h₁, h⟩ := Option.bind_eq_some_iff.mp h
    obtain ⟨⟨pc₂, w₂⟩, h₂, h⟩ := Option.bind_eq_some_iff.mp h
    obtain ⟨⟨ha₁, hc₁, hs₁⟩, hr₁⟩ := countMatched_effect h₁
    obtain ⟨⟨ha₂, hc₂, hs₂⟩, hr₂⟩ := moveMatched_effect h₂
    have hstate : pc₂.stateOfOther = pc.stateOfOther := hs₂.trans hs₁
    dsimp only at h
    split at h
    · next hst =>
      obtain ⟨⟨pc₃, w₃⟩, h₃, h⟩ := Option.bind_eq_some_iff.mp h
      obtain ⟨⟨ha₃, hc₃, hs₃⟩, hr₃⟩ := changeStateOfOther_effect h₃
      obtain ⟨rfl, hw⟩ := Prod.mk.inj (Option.some.inj h)
      obtain ⟨rfl, rfl⟩ := Prod.mk.inj hw
      refine ⟨⟨ha₃.trans (ha₂.trans ha₁), hc₃.trans (hc₂.trans hc₁), ?_⟩,
        hr₃ ▸ hr₁.trans hr₂, by simp⟩
      rw [hs₃, if_pos (hstate ▸ hst)]
    · next hst =>
      obtain ⟨rfl, hw⟩ := Prod.mk.inj (Option.some.inj h)
      obtain ⟨rfl, rfl⟩ := Prod.mk.inj hw
      refine ⟨⟨ha₂.trans ha₁, hc₂.trans hc₁, ?_⟩, hr₁.trans hr₂, by simp⟩
      rw [hstate, if_neg (hstate ▸ hst)]
  · next hlen =>
    rw [if_neg hlen]
    split at h
    · next hst =>
      obtain ⟨⟨pc₃, w₃⟩, h₃, h⟩ := Option.bind_eq_some_iff.mp h
      obtain ⟨⟨ha₃, hc₃, hs₃⟩, hr₃⟩ := changeStateOfOther_effect h₃
      obtain ⟨rfl, hw⟩ := Prod.mk.inj (Option.some.inj h)
      obtain ⟨rfl, rfl⟩ := Prod.mk.inj hw
      exact ⟨⟨ha₃, hc₃, by rw [hs₃, if_pos hst]⟩, hr₃ ▸ SameRoa.refl _, by simp⟩
    · next hst =>
      obtain ⟨rfl, hw⟩ := Prod.mk.inj (Option.some.inj h)
      obtain ⟨rfl, rfl⟩ := Prod.mk.inj hw
      exact ⟨⟨rfl, rfl, by rw [if_neg hst]⟩, SameRoa.refl _, fun _ => ⟨hlen, hst⟩⟩

/-- A visit of `_delROAwl_validateUpdates`: the coverage shrinks if the ROA covers the prefix; without
coverage, below a prefix that is NOTFOUND, the state becomes NOTFOUND. The walk stops at a prefix
that is not covered and stays as it is. -/
theorem validateUpdates_effect {p : SrxResult} {next : Option SrxResult} {cov : UInt32}
    (hcov : cov = if len ≤ w.roa.maxLen.toNat then pc.roaCoverage - 1 else pc.roaCoverage)
    (h : validateUpdates suppress len p pc w = some (pc', w', next)) :
    SameShape { pc with
        roaCoverage := cov,
        stateOfOther := if p = .notFound ∧ cov = 0 then .notFound else pc.stateOfOther } pc' ∧
      Spent w.roa w'.roa ∧
      match next with
      | some p' => p' = pc'.stateOfOther
      | none => ¬ len ≤ w.roa.maxLen.toNat ∧ ¬ (p = .notFound ∧ cov = 0) := by
  simp only [validateUpdates, Option.bind_eq_bind] at h
  split at h
  · next hlen =>
    rw [if_pos hlen] at hcov
    rw [← hcov] at h
    split at h
    · next hzero =>
      obtain ⟨⟨pc₁, w₁⟩, h₁, h⟩ := Option.bind_eq_some_iff.mp h
      obtain ⟨⟨pc₂, w₂⟩, h₂, h⟩ := Option.bind_eq_some_iff.mp h
      obtain ⟨rfl, hw⟩ := Prod.mk.inj (Option.some.inj h)
      obtain ⟨rfl, rfl⟩ := Prod.mk.inj hw
      obtain ⟨⟨ha₁, hc₁, hs₁⟩, hr₁⟩ := changeStateOfOther_effect h₁
      obtain ⟨⟨ha₂, hc₂, hs₂⟩, hr₂⟩ := moveToOther_effect h₂
      refine ⟨⟨ha₂.trans ha₁, hc₂.trans hc₁, ?_⟩, hr₁ ▸ hr₂, rfl⟩
      rw [if_pos hzero]
      exact hs₂.trans hs₁
    · next hzero =>
      rw [Option.bind_some] at h
      obtain ⟨⟨pc₂, w₂⟩, h₂, h⟩ := Option.bind_eq_some_iff.mp h
      obtain ⟨rfl, hw⟩ := Prod.mk.inj (Option.some.inj h)
      obtain ⟨rfl, rfl⟩ := Prod.mk.inj hw
      obtain ⟨⟨ha₂, hc₂, hs₂⟩, hr₂⟩ := moveToOther_effect h₂
      refine ⟨⟨ha₂, hc₂, ?_⟩, hr₂, rfl⟩
      rw [if_neg hzero]
      exact hs₂
  · next hlen =>
    rw [if_neg hlen] at hcov
    rw [← hcov] at h
    split at h
    · next hzero =>
      obtain ⟨⟨pc₁, w₁⟩, h₁, h⟩ := Option.bind_eq_some_iff.mp h
      obtain ⟨rfl, hw⟩ := Prod.mk.inj (Option.some.inj h)
      obtain ⟨rfl, rfl⟩ := Prod.mk.inj hw
      obtain ⟨⟨ha₁, hc₁, hs₁⟩, hr₁⟩ := changeStateOfOther_effect h₁
      refine ⟨⟨ha₁, hc₁.trans hcov.symm, ?_⟩, hr₁ ▸ Spent.refl _, rfl⟩
      rw [if_pos hzero.symm]
      exact hs₁
    · next hzero =>
      obtain ⟨rfl, hw⟩ := Prod.mk.inj (Option.some.inj h)
      obtain ⟨rfl, rfl⟩ := Prod.mk.inj hw
      refine ⟨⟨rfl, hcov.symm, ?_⟩, Spent.refl _, hlen, fun hp => hzero hp.symm⟩
      rw [if_neg fun hp => hzero hp.symm]

end EffectLemmas

open EffectLemmas

/-! ## Walks -/

/-- A walk of the prefixes below `k` that gets to its end: every prefix it visits changes as `Rel` says,
and where it stops, the prefixes below have nothing to do. -/
theorem walkData_of_some {π : Type}
    {f : Nat → π → PcPrefix → WalkState → Option (PcPrefix × WalkState × Option π)}
    {t t' : PrefixTree} {k : List Bool} {Rel : List Bool → PcPrefix → PcPrefix → Prop}
    {Par : List Bool → π → Prop} {I : WalkState → Prop} {p : π} {s s' : WalkState}
    (hvisit : ∀ w p pc s pc' s' next, k <+: w → dataAt t w = some pc → Par w p → I s →
      f w.length p pc s = some (pc', s', next) → Rel w pc pc' ∧ I s' ∧
        match next with
        | some p' => ∀ b, Par (w ++ [b]) p'
        | none => ∀ u pcu, u ≠ [] → dataAt t (w ++ u) = some pcu → Rel (w ++ u) pcu pcu)
    (hskip : ∀ w p, k <+: w → dataAt t w = none → Par w p → ∀ b, Par (w ++ [b]) p)
    (hk : dataAt t k ≠ none) (hpar : Par k p) (hI : I s)
    (hwalk : t.atSub (fun sub => sub.walk (visitData f) k.length p s) k = some (t', s')) :
    I s' ∧ (∀ u, ¬ k <+: u → dataAt t' u = dataAt t u) ∧
      ∀ u, k <+: u → Option.Rel (Rel u) (dataAt t u) (dataAt t' u) := by
  obtain ⟨pc₀, hpc₀⟩ := Option.ne_none_iff_exists'.mp hk
  obtain ⟨t₁, hwalk₁, hget⟩ := Trie.atSub_of_some (by rw [get?_of_dataAt hpc₀]; rfl) hwalk
  have hok : ∀ w p v s v' s' next, (k <+: w ∧ Par w p) → v.data = dataAt t w → I s →
      visitData f w.length p v s = some (v', s', next) →
      Option.Rel (Rel w) (dataAt t w) v'.data ∧ I s' ∧
        match next with
        | some p' => ∀ b, k <+: w ++ [b] ∧ Par (w ++ [b]) p'
        | none => ∀ u, u ≠ [] → ∀ x : TreeNode, x.data = dataAt t (w ++ u) →
            Option.Rel (Rel (w ++ u)) (dataAt t (w ++ u)) x.data := by
    intro w p v s v' s' next hpar hpre hI hf
    have hbelow (b : Bool) : k <+: w ++ [b] := hpar.1.trans (List.prefix_append ..)
    rcases v with _ | (_ | pc)
    · obtain ⟨rfl, hres⟩ := Prod.mk.inj (Option.some.inj hf)
      obtain ⟨rfl, rfl⟩ := Prod.mk.inj hres
      exact ⟨hpre ▸ Option.Rel.none, hI, fun b => ⟨hbelow b, hskip w p hpar.1 hpre.symm hpar.2 b⟩⟩
    · obtain ⟨rfl, hres⟩ := Prod.mk.inj (Option.some.inj hf)
      obtain ⟨rfl, rfl⟩ := Prod.mk.inj hres
      exact ⟨hpre ▸ Option.Rel.none, hI, fun b => ⟨hbelow b, hskip w p hpar.1 hpre.symm hpar.2 b⟩⟩
    · obtain ⟨⟨pc', s₁, next₁⟩, hvis, hres⟩ := Option.map_eq_some_iff.mp hf
      simp only [Prod.mk.injEq] at hres
      obtain ⟨rfl, rfl, rfl⟩ := hres
      obtain ⟨hrel, hI', hnext⟩ := hvisit w p pc s pc' _ _ hpar.1 hpre.symm hpar.2 hI hvis
      refine ⟨hpre ▸ Option.Rel.some hrel, hI', ?_⟩
      cases next₁ with
      | some p' => exact fun b => ⟨hbelow b, hnext b⟩
      | none =>
        intro u hu x hx
        rw [hx]
        cases hpcu : dataAt t (w ++ u) with
        | none => exact Option.Rel.none
        | some pcu => exact Option.Rel.some (hnext u pcu hu hpcu)
  obtain ⟨hI', hkeys, hpost⟩ := Trie.walk_of_some hok ⟨List.prefix_rfl, hpar⟩ (fun u v hv => by
    rw [Trie.get?_sub] at hv
    exact (dataAt_of_get? hv).symm) hI hwalk₁
  refine ⟨hI', fun u hu => ?_, fun u hu => ?_⟩
  · have := hget u
    rw [if_neg hu] at this
    rw [dataAt, nodeAt, this]
    rfl
  · obtain ⟨u, rfl⟩ := hu
    have hget := hget (k ++ u)
    rw [if_pos (List.prefix_append ..), List.drop_left] at hget
    cases hv : t₁.get? u with
    | some v =>
      rw [dataAt_of_get? (hget.trans hv)]
      exact hpost u v hv
    | none =>
      have hnone := hkeys u
      rw [hv, Trie.get?_sub] at hnone
      rw [dataAt_of_none (hget.trans hv), dataAt_of_none (by simpa using hnone.symm)]
      exact Option.Rel.none

/-! ## The ROAs of one prefix -/

namespace EntriesLemmas

variable {h : History} {k : List Bool} {asn : List PcAs} {as : UInt32}

/-- An AS whose counter of updates is left out. -/
def uncounted (a : PcAs) : PcAs := { a with updateCount := 0 }

theorem map_modifyFirst {α : Type} {p : α → Bool} {f g g' : α → α} (hp : ∀ x, p (f x) = p x)
    (hg : ∀ x, f (g x) = g' (f x)) (l : List α) :
    (modifyFirst p g l).map f = modifyFirst p g' (l.map f) := by
  induction l with
  | nil => rfl
  | cons x l ih =>
    rw [modifyFirst, List.map_cons, modifyFirst, hp]
    split
    · rw [List.map_cons, hg]
    · rw [List.map_cons, ih]

theorem map_modifyRoas (asn : List PcAs) (as : UInt32) (f : List PcRoa → List PcRoa) :
    (modifyRoas asn as f).map uncounted = modifyRoas (asn.map uncounted) as f :=
  @map_modifyFirst _ (fun a : PcAs => a.asn == as) uncounted
    (fun a => { a with roas := f a.roas }) (fun a => { a with roas := f a.roas }) (fun _ => rfl) (fun _ => rfl) asn

theorem map_getASFromPrefix (asn : List PcAs) (as : UInt32) :
    (getASFromPrefix asn as).map uncounted = getASFromPrefix (asn.map uncounted) as := by
  have hany : ((asn.map uncounted).any fun a => a.asn == as) = asn.any fun a => a.asn == as := by
    rw [List.any_map]
    rfl
  unfold getASFromPrefix
  rw [hany]
  split
  · rfl
  · rw [List.map_append]
    rfl

@[simp] theorem roaEntries_uncounted (asn : List PcAs) :
    roaEntries (asn.map uncounted) = roaEntries asn := by
  rw [roaEntries, List.flatMap_map]
  rfl

theorem findRoa_uncounted (asn : List PcAs) (as : UInt32) (maxLen : UInt8) (valCacheID : UInt32) :
    findRoa (asn.map uncounted) as maxLen valCacheID = findRoa asn as maxLen valCacheID := by
  rw [findRoa, findRoa, List.find?_map, Option.bind_eq_bind, Option.bind_map]
  rfl

/-- Without the counters of updates and without requests, this is the invariant `AsnOk`. -/
theorem asnOk_uncounted : EntriesOk h k asn ↔ AsnOk False ⟨h.roas, []⟩ k (asn.map uncounted) := by
  have hnames : (asn.map uncounted).map PcAs.asn = asn.map PcAs.asn := by
    rw [List.map_map]
    rfl
  constructor
  · intro hok
    refine ⟨hnames ▸ hok.nodup, by rw [roaEntries_uncounted]; exact hok.roas, fun a ha => ?_,
      fun q hq => absurd hq List.not_mem_nil⟩
    obtain ⟨b, -, rfl⟩ := List.mem_map.mp ha
    rfl
  · intro hok
    have hroas := hok.roas
    rw [roaEntries_uncounted] at hroas
    exact ⟨hnames ▸ hok.nodup, hroas⟩

/-- An AS without ROAs leaves the list. -/
theorem roaEntries_eraseAs (asn : List PcAs) (p : PcAs → Bool)
    (hp : ∀ a, p a = true → a.roas = []) : roaEntries (asn.eraseP p) = roaEntries asn := by
  induction asn with
  | nil => rfl
  | cons a asn ih =>
    cases hpa : p a with
    | true => rw [List.eraseP_cons_of_pos hpa, roaEntries_cons, hp a hpa, List.map_nil, List.nil_append]
    | false => rw [List.eraseP_cons_of_neg (by simp [hpa]), roaEntries_cons, roaEntries_cons, ih]

theorem names_modifyFirst (p : PcAs → Bool) (f : PcAs → PcAs) (hf : ∀ a, (f a).asn = a.asn)
    (asn : List PcAs) : (modifyFirst p f asn).map PcAs.asn = asn.map PcAs.asn := by
  induction asn with
  | nil => rfl
  | cons a asn ih =>
    rw [modifyFirst]
    split
    · rw [List.map_cons, hf, List.map_cons]
    · rw [List.map_cons, ih, List.map_cons]

theorem names_modifyRoas (asn : List PcAs) (as : UInt32) (f : List PcRoa → List PcRoa) :
    (modifyRoas asn as f).map PcAs.asn = asn.map PcAs.asn :=
  names_modifyFirst _ (fun a => { a with roas := f a.roas }) (fun _ => rfl) asn

/-- The ROAs that are left do not depend on the counters of updates. -/
theorem roaEntries_removeRoa (asn : List PcAs) (as : UInt32) (maxLen : UInt8) (valCacheID : UInt32)
    (roa : PcRoa) : roaEntries (removeRoa (asn.map uncounted) as maxLen valCacheID roa) =
      roaEntries (removeRoa asn as maxLen valCacheID roa) := by
  unfold removeRoa
  split
  · rw [roaEntries_eraseAs, roaEntries_eraseAs, ← map_modifyRoas, roaEntries_uncounted]
    · simp +contextual
    · simp +contextual
  · rw [← map_modifyRoas, roaEntries_uncounted]

theorem names_removeRoa (asn : List PcAs) (as : UInt32) (maxLen : UInt8) (valCacheID : UInt32)
    (roa : PcRoa) : ((removeRoa asn as maxLen valCacheID roa).map PcAs.asn).Sublist
      (asn.map PcAs.asn) := by
  unfold removeRoa
  split
  · refine ((List.eraseP_sublist).map _).trans ?_
    rw [names_modifyRoas]
  · rw [names_modifyRoas]

end EntriesLemmas

open EntriesLemmas

section Entries

variable {h : History} {k : List Bool} {asn : List PcAs} {r : Roa}

/-- The ROAs of a prefix when one is added. -/
theorem EntriesOk.add (hok : EntriesOk h r.key asn) (hcount : h.roas.count r + 1 < 2 ^ 16)
    {asn' : List PcAs} (hasn' : asn' = modifyRoas (getASFromPrefix asn r.as) r.as fun roas =>
      addRoa roas r.as r.maxLen r.valCacheID) :
    ∃ x, findRoa asn' r.as r.maxLen r.valCacheID = some x ∧ x.maxLen = r.maxLen ∧
      ∀ roa, SameRoa x roa → EntriesOk (h.addRoa r) r.key (modifyRoas asn' r.as
        (modifyFirst (fun y => y.isEntry r.valCacheID r.maxLen) fun _ => roa)) := by
  have hmodified : asn'.map uncounted = modifyRoas (getASFromPrefix (asn.map uncounted) r.as) r.as
      fun roas => addRoa roas r.as r.maxLen r.valCacheID := by
    rw [hasn', map_modifyRoas, map_getASFromPrefix]
  obtain ⟨x, hfind, -, hmax, -, hback⟩ := (asnOk_uncounted.mp hok).add False.elim hcount hmodified
  rw [findRoa_uncounted] at hfind
  refine ⟨x, hfind, hmax, ?_⟩
  rintro roa ⟨n, rfl⟩
  have hfinal := hback n (Nat.zero_le _) False.elim
  rw [← map_modifyRoas] at hfinal
  exact asnOk_uncounted.mpr hfinal

/-- The ROAs of a prefix when one is removed. -/
theorem EntriesOk.del (hok : EntriesOk h r.key asn) (hmem : r ∈ h.roas) :
    ∃ x, findRoa asn r.as r.maxLen r.valCacheID = some x ∧ x.maxLen = r.maxLen ∧
      ∀ roa, Spent x roa →
        EntriesOk (h.delRoa r) r.key (removeRoa asn r.as r.maxLen r.valCacheID roa) := by
  obtain ⟨x, hfind, -, hmax, -, hback⟩ := (asnOk_uncounted.mp hok).del hmem
  rw [findRoa_uncounted] at hfind
  refine ⟨x, hfind, hmax, fun roa hroa => ?_⟩
  obtain ⟨⟨n, hn⟩, hsame⟩ := hroa
  have hfinal := (hback roa (by rw [hn]; rfl) hsame).roas
  rw [roaEntries_removeRoa] at hfinal
  exact ⟨hok.nodup.sublist (names_removeRoa ..), hfinal⟩

/-- An update is requested for the prefix. -/
theorem EntriesOk.countUpdate (hok : EntriesOk h k asn) (as : UInt32) :
    EntriesOk h k (countUpdate asn as) where
  nodup := by
    have hnodup := ((asnOk_uncounted.mp hok).getASFromPrefix as).1.nodup
    rw [← map_getASFromPrefix, List.map_map] at hnodup
    rw [Cache.countUpdate, names_modifyFirst _ (fun a => { a with updateCount := a.updateCount + 1 }) fun _ => rfl]
    exact hnodup
  roas := by
    rw [roaEntries_countUpdate]
    exact hok.roas

/-- The ROAs of the prefix count an update. -/
theorem EntriesOk.coverRoas (hok : EntriesOk h k asn) (len : Nat) (as : UInt32) :
    EntriesOk h k (coverRoas len as asn) where
  nodup := by
    rw [Cache.coverRoas, List.map_map]
    exact hok.nodup
  roas := by
    rw [roaEntries_coverRoas]
    refine ⟨fun p => (roaSum_map_coverEntry p _).trans (hok.roas.sums p), fun e he => ?_⟩
    obtain ⟨e₀, he₀, rfl⟩ := List.mem_map.mp he
    have hok₀ := hok.roas.entries e₀ he₀
    refine ⟨?_, ?_, Nat.zero_le _, False.elim⟩
    · unfold coverEntry
      split <;> exact hok₀.as
    · unfold coverEntry
      split <;> exact hok₀.pos

/-- A prefix without ROAs. -/
theorem entriesOk_empty (hroas : ∀ r ∈ h.roas, r.key ≠ k) : EntriesOk h k [] where
  nodup := List.nodup_nil
  roas := (asnOk_nil (h := ⟨h.roas, []⟩) hroas fun _ hq => absurd hq List.not_mem_nil).roas

theorem EntriesOk.addRoa_of_ne (hok : EntriesOk h k asn) (hkey : r.key ≠ k) :
    EntriesOk (h.addRoa r) k asn :=
  asnOk_uncounted.mpr ((asnOk_uncounted.mp hok).addRoa_of_ne hkey)

theorem EntriesOk.delRoa_of_ne (hok : EntriesOk h k asn) (hmem : r ∈ h.roas) (hkey : r.key ≠ k) :
    EntriesOk (h.delRoa r) k asn :=
  asnOk_uncounted.mpr ((asnOk_uncounted.mp hok).delRoa_of_ne hmem hkey)

end Entries

/-! ## The shape of the tree -/

/-- The coverage is right, and everything below a prefix that is INVALID is INVALID. -/
structure ShapeOk (h : History) (c : PrefixCache) : Prop extends CoverageOk h c where
  below : ∀ j k pcj pck, j <+: k → dataAt c.prefixTree j = some pcj →
    dataAt c.prefixTree k = some pck → pcj.stateOfOther = .invalid → pck.stateOfOther = .invalid

/-- The empty cache. -/
theorem shapeOk_init : ShapeOk .empty initializePrefixCache :=
  ⟨coverageOk_init, fun j k pcj pck _ hpcj => by simp [initializePrefixCache] at hpcj⟩

section Shape

variable {h : History} {c c' : PrefixCache} {k : List Bool}

/-- The coverage and the state of a prefix are the same. -/
def KeepsShape (h : History) (k : List Bool) (pc pc' : PcPrefix) : Prop :=
  (EntriesOk h k pc.asn → EntriesOk h k pc'.asn) ∧ pc'.roaCoverage = pc.roaCoverage ∧
    pc'.stateOfOther = pc.stateOfOther

/-- A change of updates. -/
theorem ShapeOk.of_keeps (hok : ShapeOk h c)
    (hkeeps : ∀ u, Option.Rel (KeepsShape h u) (dataAt c.prefixTree u) (dataAt c'.prefixTree u)) :
    ShapeOk h c' := by
  have hback {u : List Bool} {pc' : PcPrefix} (hpc' : dataAt c'.prefixTree u = some pc') :
      ∃ pc, dataAt c.prefixTree u = some pc ∧ KeepsShape h u pc pc' := by
    have hrel := hkeeps u
    rw [hpc'] at hrel
    generalize hd : dataAt c.prefixTree u = d at hrel
    cases hrel with
    | some hk => exact ⟨_, rfl, hk⟩
  refine ⟨⟨fun u pc' hpc' => ?_, fun u pc' hpc' => ?_, fun u pc' hpc' => ?_, fun u pc' hpc' hpos => ?_,
    fun r hr hnone => ?_⟩, fun j u pcj' pcu' hju hpcj' hpcu' hinv => ?_⟩
  · obtain ⟨pc, hpc, hasn, -⟩ := hback hpc'
    exact hasn (hok.entries u pc hpc)
  · obtain ⟨pc, hpc, -, hcov, -⟩ := hback hpc'
    rw [hcov]
    exact hok.coverage u pc hpc
  · obtain ⟨pc, hpc, -, -, hstate⟩ := hback hpc'
    rw [hstate]
    exact hok.state u pc hpc
  · obtain ⟨pc, hpc, -, -, hstate⟩ := hback hpc'
    rw [hstate]
    exact hok.covered u pc hpc hpos
  · have hrel := hkeeps r.key
    rw [hnone] at hrel
    generalize hd : dataAt c.prefixTree r.key = d at hrel
    cases hrel
    exact hok.roas r hr hd
  · obtain ⟨pcj, hpcj, -, -, hsj⟩ := hback hpcj'
    obtain ⟨pcu, hpcu, -, -, hsu⟩ := hback hpcu'
    rw [hsu]
    exact hok.below j u pcj pcu hju hpcj hpcu (hsj ▸ hinv)

/-- A prefix above that is INVALID. -/
theorem ShapeOk.parentState_of_above (hok : ShapeOk h c) {j : List Bool} {pcj : PcPrefix}
    (hj : j <+: k) (hne : j ≠ k) (hpcj : dataAt c.prefixTree j = some pcj)
    (hinv : pcj.stateOfOther = .invalid) : parentState c.prefixTree k = .invalid := by
  have hspec := getParent_spec c.prefixTree k
  unfold parentState
  cases hpar : getParent c.prefixTree k with
  | none =>
    rw [hpar] at hspec
    exact absurd (hspec j hj hne) (by simp [hpcj])
  | some pc =>
    rw [hpar] at hspec
    obtain ⟨i, hi, -, hpc, hnear⟩ := hspec
    exact hok.below j i pcj pc (hnear j hj hne (by simp [hpcj])) hpcj hpc hinv

/-- Below a prefix above that is INVALID. -/
theorem ShapeOk.below_parent (hok : ShapeOk h c) (hpar : parentState c.prefixTree k = .invalid)
    {u : List Bool} (hu : k <+: u) {pc : PcPrefix} (hpc : dataAt c.prefixTree u = some pc) :
    pc.stateOfOther = .invalid := by
  have hspec := getParent_spec c.prefixTree k
  unfold parentState at hpar
  cases hparent : getParent c.prefixTree k with
  | none => simp [hparent] at hpar
  | some pcp =>
    rw [hparent] at hspec hpar
    obtain ⟨i, hi, -, hpcp, -⟩ := hspec
    exact hok.below i u pcp pc (hi.trans hu) hpcp hpc hpar

/-- A node gets its data: it is as the prefix above says, and its coverage is right. -/
theorem ShapeOk.newPrefix (hok : ShapeOk h c) (hnone : dataAt c.prefixTree k = none) {pc : PcPrefix}
    (hasn : EntriesOk h k pc.asn) (hcov : pc.roaCoverage.toNat = h.coverCount k)
    (hstate : pc.stateOfOther = parentState c.prefixTree k) (reports : List Report) :
    ShapeOk h ⟨setData c.prefixTree k (some pc), reports⟩ := by
  have hcases {u : List Bool} {pcu : PcPrefix}
      (hpcu : dataAt (setData c.prefixTree k (some pc)) u = some pcu) :
      (u = k ∧ pcu = pc) ∨ u ≠ k ∧ dataAt c.prefixTree u = some pcu := by
    rw [dataAt_setData] at hpcu
    split at hpcu
    · next hu => exact .inl ⟨hu, (Option.some.inj hpcu).symm⟩
    · next hu => exact .inr ⟨hu, hpcu⟩
  refine ⟨⟨fun u pcu hpcu => ?_, fun u pcu hpcu => ?_, fun u pcu hpcu => ?_, fun u pcu hpcu hpos => ?_,
    fun r hr => ?_⟩, fun j u pcj pcu hju hpcj hpcu hinv => ?_⟩
  · rcases hcases hpcu with ⟨rfl, rfl⟩ | ⟨-, hpcu⟩
    · exact hasn
    · exact hok.entries u pcu hpcu
  · rcases hcases hpcu with ⟨rfl, rfl⟩ | ⟨-, hpcu⟩
    · exact hcov
    · exact hok.coverage u pcu hpcu
  · rcases hcases hpcu with ⟨rfl, rfl⟩ | ⟨-, hpcu⟩
    · rw [hstate]
      exact hok.parentState_cases _
    · exact hok.state u pcu hpcu
  · rcases hcases hpcu with ⟨rfl, rfl⟩ | ⟨-, hpcu⟩
    · rw [hstate]
      exact hok.parentState_covered hnone hpos
    · exact hok.covered u pcu hpcu hpos
  · show dataAt (setData c.prefixTree k (some pc)) r.key ≠ none
    rw [dataAt_setData]
    split
    · simp
    · exact hok.roas r hr
  · rcases hcases hpcj with ⟨rfl, rfl⟩ | ⟨hjk, hpcj'⟩
    · rw [hstate] at hinv
      rcases hcases hpcu with ⟨rfl, rfl⟩ | ⟨-, hpcu⟩
      · exact hstate.trans hinv
      · exact hok.below_parent hinv hju hpcu
    · rcases hcases hpcu with ⟨rfl, rfl⟩ | ⟨-, hpcu'⟩
      · exact hstate.trans (hok.parentState_of_above hju hjk hpcj' hinv)
      · exact hok.below j u pcj pcu hju hpcj' hpcu' hinv

/-- The prefix a ROA is added to. -/
theorem ShapeOk.startPrefix (hok : ShapeOk h c) (hcover : h.coverCount k < 2 ^ 32) {pc : PcPrefix}
    (hpc : pc = (dataAt c.prefixTree k).getD (createPrefix c.prefixTree k)) (reports : List Report) :
    ShapeOk h ⟨setData c.prefixTree k (some pc), reports⟩ := by
  cases hdata : dataAt c.prefixTree k with
  | some pc₀ =>
    rw [hdata, Option.getD_some] at hpc
    subst hpc
    refine hok.of_keeps fun u => ?_
    rw [dataAt_setData]
    split
    · next hu =>
      rw [hu, hdata]
      exact Option.Rel.some ⟨id, rfl, rfl⟩
    · cases dataAt c.prefixTree u with
      | none => exact Option.Rel.none
      | some pcu => exact Option.Rel.some ⟨id, rfl, rfl⟩
  | none =>
    rw [hdata, Option.getD_none, hok.createPrefix_eq hdata] at hpc
    subst hpc
    exact hok.newPrefix hdata (entriesOk_empty fun r hr heq => hok.roas r hr (heq ▸ hdata))
      (show (UInt32.ofNat (h.coverCount k)).toNat = _ from Nat.mod_eq_of_lt hcover) rfl reports

end Shape

/-! ## A request -/

section Request

variable {h : History} {c c' : PrefixCache} {k : List Bool} {id as : UInt32} {b : Bool}

/-- Above the prefix of a request the ROAs count the update; its own prefix has its data. -/
theorem keepsShape_request {t : PrefixTree} {pc pc' : PcPrefix}
    (hpc : KeepsShape h k pc pc') (u : List Bool) :
    Option.Rel (KeepsShape h u) (dataAt (setData t k (some pc)) u) (requestData t k as pc' u) := by
  rw [dataAt_setData, requestData]
  split
  · next hu => exact Option.Rel.some (hu ▸ hpc)
  · split
    · cases dataAt t u with
      | none => exact Option.Rel.none
      | some pcu => exact Option.Rel.some ⟨fun hok => hok.coverRoas _ _, rfl, rfl⟩
    · cases dataAt t u with
      | none => exact Option.Rel.none
      | some pcu => exact Option.Rel.some ⟨fun hok => hok, rfl, rfl⟩

/-- `_performUpdateValidationNewPrefix`: every entry above that covers the prefix is counted once. -/
theorem CoverageOk.newPrefix_call (hok : CoverageOk h c) (hnone : dataAt c.prefixTree k = none)
    (id as : UInt32) :
    ∃ t', performUpdateValidationNewPrefix c k id as =
        ((prefixNotCovered ⟨UInt32.ofNat (coverEntries k.length (roasAbove c.prefixTree k)),
          parentState c.prefixTree k, initMem, initSList, initSList,
          coverRoas k.length as (countUpdate [] as)⟩
          ⟨id, as, UInt16.ofNat (h.matchCount k as)⟩).map fun r =>
            (true, ⟨setData t' k (some r.1), c.reports ++ [r.2]⟩)) ∧
      ∀ pc' u, dataAt (setData t' k (some pc')) u = requestData c.prefixTree k as pc' u := by
  obtain ⟨t, ht⟩ : ∃ t, t = setData c.prefixTree k
    (some { emptyPrefix (parentState c.prefixTree k) with asn := countUpdate [] as }) := ⟨_, rfl⟩
  have hempty : entriesAt c.prefixTree k = [] := by rw [entriesAt, hnone]; rfl
  have hentries (u : List Bool) : entriesAt t u = entriesAt c.prefixTree u := by
    rw [ht]
    refine entriesAt_setData ?_ u
    rw [hempty, roaEntries_countUpdate]
    rfl
  obtain ⟨t', hcall, hdata⟩ := @knownPrefix_call h c t k true as
    (emptyPrefix (parentState c.prefixTree k)) id ht (fun u p => by rw [hentries]; exact hok.sumsOk u p)
    (hok.stop_new hnone (by rw [roaEntries_countUpdate]; rfl) rfl ht)
  refine ⟨t', ?_, hdata⟩
  rw [performUpdateValidationNewPrefix, hcall, if_pos rfl, roasAbove_congr hentries]
  simp only [emptyPrefix, UInt32.zero_add]

/-- The prefix a request creates. -/
theorem CoverageOk.requestNew (hok : CoverageOk h c) (hnone : dataAt c.prefixTree k = none)
    (hreq : performUpdateValidationNewPrefix c k id as = some (b, c')) :
    ∃ pc', (∀ u, dataAt c'.prefixTree u = requestData c.prefixTree k as pc' u) ∧
      EntriesOk h k pc'.asn ∧
      pc'.roaCoverage = UInt32.ofNat (coverEntries k.length (roasAbove c.prefixTree k)) ∧
      pc'.stateOfOther = parentState c.prefixTree k := by
  obtain ⟨t', hcall, hdata⟩ := hok.newPrefix_call hnone id as
  rw [hcall] at hreq
  obtain ⟨⟨pc', report⟩, hput, hres⟩ := Option.map_eq_some_iff.mp hreq
  obtain ⟨-, rfl⟩ := Prod.mk.inj hres
  obtain ⟨hasn, hcov, hstate⟩ := prefixNotCovered_effect hput
  have hroas := entriesOk_empty fun r hr heq => hok.roas r hr (heq ▸ hnone)
  refine ⟨pc', hdata pc', ?_, hcov, hstate⟩
  rw [hasn]
  exact (hroas.countUpdate as).coverRoas _ _

/-- The request of an unknown prefix returns: the update is the first one in the list it goes to. -/
theorem CoverageOk.requestNew_returns (hok : CoverageOk h c)
    (hnone : dataAt c.prefixTree k = none) (id as : UInt32) :
    ∃ b c', performUpdateValidationNewPrefix c k id as = some (b, c') := by
  obtain ⟨t', hcall, -⟩ := hok.newPrefix_call hnone id as
  obtain ⟨nodes, valid, other, hput, -⟩ := prefixNotCovered_eq
    ⟨UInt32.ofNat (coverEntries k.length (roasAbove c.prefixTree k)), parentState c.prefixTree k,
      initMem, initSList, initSList, coverRoas k.length as (countUpdate [] as)⟩
    twoLists_init (by simp) ⟨id, as, UInt16.ofNat (h.matchCount k as)⟩
  rw [hput] at hcall
  exact ⟨true, _, hcall⟩

/-- A request: a prefix without data gets some, then the updates are counted. A prefix that is created
must not be covered by ROAs with duplicates. -/
theorem ShapeOk.request_data (hok : ShapeOk h c) {p : IPPrefix}
    (hcover : h.coverCount p.key < 2 ^ 32)
    (hone : dataAt c.prefixTree p.key = none → ∀ e ∈ roasAbove c.prefixTree p.key,
      p.key.length ≤ e.2.maxLen.toNat → e.2.roaCount = 1)
    (hreq : requestUpdateValidation c id p as = some (b, c')) :
    ∃ pc₀, (dataAt c.prefixTree p.key = some pc₀ ∨ dataAt c.prefixTree p.key = none ∧
        pc₀.stateOfOther = parentState c.prefixTree p.key) ∧
      ShapeOk h ⟨setData c.prefixTree p.key (some pc₀), []⟩ ∧
      ∀ u, Option.Rel (KeepsShape h u) (dataAt (setData c.prefixTree p.key (some pc₀)) u)
        (dataAt c'.prefixTree u) := by
  unfold requestUpdateValidation at hreq
  generalize p.key = k at hcover hone hreq
  cases hnode : nodeAt c.prefixTree k with
  | glue =>
    rw [hnode] at hreq
    have hnone : dataAt c.prefixTree k = none := by rw [dataAt, hnode]; rfl
    obtain ⟨pc', hdata, hasn, hcov, hstate⟩ := hok.requestNew hnone hreq
    rw [coverEntries_eq (hone hnone), coverSum_roasAbove hok.sumsOk] at hcov
    refine ⟨pc', .inr ⟨hnone, hstate⟩, hok.newPrefix hnone hasn
      (by rw [hcov]; exact Nat.mod_eq_of_lt hcover) hstate [], fun u => ?_⟩
    rw [hdata]
    exact keepsShape_request ⟨fun hok => hok, rfl, rfl⟩ u
  | entry data =>
    cases data with
    | none => simp [hnode] at hreq
    | some pc =>
      rw [hnode] at hreq
      have hpc : dataAt c.prefixTree k = some pc := by rw [dataAt, hnode]; rfl
      -- The tree with the same data of the prefix is the same tree.
      have hsame := @ShapeOk.startPrefix _ _ k hok hcover pc (by rw [hpc]; rfl) []
      refine ⟨pc, .inl hpc, hsame, ?_⟩
      dsimp only at hreq
      split at hreq
      · next hcov =>
        have hentries := @entriesAt_setData c.prefixTree k { pc with asn := countUpdate pc.asn as }
          (by rw [entriesAt_of_dataAt hpc, roaEntries_countUpdate])
        obtain ⟨t', hcall, hdata⟩ := @knownPrefix_call h c _ k false as pc id rfl
          (fun u p => by rw [hentries]; exact hok.sumsOk u p)
          (hok.stop_known hpc (roaEntries_countUpdate ..)
            (show 0 < PcPrefix.roaCoverage { pc with asn := countUpdate pc.asn as } from hcov) rfl)
        rw [hcall] at hreq
        obtain ⟨⟨pc', report⟩, hput, hres⟩ := Option.map_eq_some_iff.mp hreq
        obtain ⟨-, rfl⟩ := Prod.mk.inj hres
        obtain ⟨hasn, hcov', hstate⟩ := prefixNotCovered_effect hput
        have hkeeps : KeepsShape h k pc pc' := by
          refine ⟨fun hok => ?_, hcov', hstate⟩
          rw [hasn]
          exact (hok.countUpdate as).coverRoas _ _
        intro u
        rw [hdata]
        exact keepsShape_request hkeeps u
      · obtain ⟨⟨nodes, other⟩, -, hres⟩ := Option.bind_eq_some_iff.mp hreq
        obtain ⟨-, rfl⟩ := Prod.mk.inj (Option.some.inj hres)
        intro u
        rw [dataAt_setData, dataAt_setData]
        split
        · next hu => exact Option.Rel.some ⟨fun hok => hok.countUpdate as, rfl, rfl⟩
        · cases dataAt c.prefixTree u with
          | none => exact Option.Rel.none
          | some pcu => exact Option.Rel.some ⟨fun hok => hok, rfl, rfl⟩

end Request

end SrxSuite.Cache

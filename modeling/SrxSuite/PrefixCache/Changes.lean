import SrxSuite.PrefixCache.Invariant

/-!
# Changes of ROAs

`Inv.add` and `Inv.del`: adding and removing a ROA keeps the invariant of the prefix cache. Both
walk down the tree from the prefix of the ROA; `VisitChanges.walk` is the common part. A walk spends
`update_count` of the ROA, one for each update it matches.
-/

namespace SrxSuite.Cache

open Util UpdateLemmas NodeLemmas RoaLemmas TreeLemmas

section Frame

variable {strict : Prop} {h : History} {k k' : List Bool} {pc : PcPrefix}
  {reports E : List Report} {r : Roa}

/-- Reports about the updates of another prefix do not matter. -/
theorem NodeOk.frame (hok : NodeOk strict h k pc reports) {h' : History}
    (hreq : h'.requests = h.requests) (hids : strict → (h.requests.map Request.updateID).Nodup)
    (hE : ReportsAt h' k' E) (hne : k ≠ k') : NodeOk strict h k pc (reports ++ E) := by
  obtain ⟨lv, lo, hok, hrep⟩ := hok
  refine ⟨lv, lo, hok, fun hs => (hrep hs).frame fun x hx e he hid => hne ?_⟩
  obtain ⟨q, hq, hkey, hqid⟩ := hE e he
  have := List.inj_on_of_nodup_map (hids hs) (hok.requested hx) (hreq ▸ hq)
    (hid.symm.trans hqid.symm)
  rw [← hkey, ← this]

/-- A ROA is added that does not cover the prefix, and other ROAs are there already. -/
theorem NodeOk.addRoa_other (hok : NodeOk strict h k pc reports) (hcov : r.covers k = false)
    (hkey : strict → r.key <+: k → ∃ r' ∈ h.roas, r'.key <+: k) :
    NodeOk strict (h.addRoa r) k pc reports := by
  obtain ⟨lv, lo, hok, hrep⟩ := hok
  refine ⟨lv, lo, hok.congr rfl ?_ (fun as => ?_) hok.lists rfl hok.state hok.covered,
    fun hs => ⟨(hrep hs).state.trans ⟨?_, ?_⟩, (hrep hs).valid, (hrep hs).other⟩⟩
  · simp [History.coverCount_addRoa, hcov]
  · simp [History.matchCount_addRoa, Roa.matches, hcov]
  · rintro ⟨r', hr', hk'⟩
    exact ⟨r', List.mem_cons_of_mem _ hr', hk'⟩
  · rintro ⟨r', hr', hk'⟩
    rcases List.mem_cons.mp hr' with rfl | hr'
    · exact hkey hs hk'
    · exact ⟨r', hr', hk'⟩

/-- A ROA is removed that does not cover the prefix, and other ROAs are left. -/
theorem NodeOk.delRoa_other (hok : NodeOk strict h k pc reports) (hmem : r ∈ h.roas)
    (hcov : r.covers k = false)
    (hkey : strict → r.key <+: k → ∃ r' ∈ (h.delRoa r).roas, r'.key <+: k) :
    NodeOk strict (h.delRoa r) k pc reports := by
  obtain ⟨lv, lo, hok, hrep⟩ := hok
  refine ⟨lv, lo, hok.congr rfl ?_ (fun as => ?_) hok.lists rfl hok.state hok.covered,
    fun hs => ⟨(hrep hs).state.trans ⟨?_, ?_⟩, (hrep hs).valid, (hrep hs).other⟩⟩
  · simpa [hcov] using History.coverCount_delRoa (k := k) hmem
  · simpa [Roa.matches, hcov] using @History.matchCount_delRoa h r k as hmem
  · rintro ⟨r', hr', hk'⟩
    by_cases heq : r' = r
    · exact hkey hs (heq ▸ hk')
    · exact ⟨r', (List.mem_erase_of_ne heq).mpr hr', hk'⟩
  · rintro ⟨r', hr', hk'⟩
    exact ⟨r', List.mem_of_mem_erase hr', hk'⟩

end Frame

/-! ## Walks -/

section Walk

variable {strict : Prop} {h h' : History} {t : PrefixTree} {r : Roa} {π : Type}
  {f : Nat → π → PcPrefix → WalkState → Option (PcPrefix × WalkState × Option π)}
  {Par : List Bool → π → Prop} {Bud : Nat → WalkState → Prop}

/-- The prefix of a key after a walk that takes the history from `h` to `h'`. -/
def Changed (strict : Prop) (h' : History) (t : PrefixTree) (reports : List Report)
    (k : List Bool) (data : Option PcPrefix) : Prop :=
  match data with
  | none => dataAt t k = none
  | some pc' => ∃ pc, dataAt t k = some pc ∧ pc'.asn = pc.asn ∧ NodeOk strict h' k pc' reports

/-- What a visit of a walk down from the prefix of the ROA `r` does when it takes the history from `h`
to `h'`: it does its work for one prefix, and where it stops, the prefixes below need no change. -/
structure VisitChanges (strict : Prop) (h h' : History) (t : PrefixTree) (r : Roa)
    (f : Nat → π → PcPrefix → WalkState → Option (PcPrefix × WalkState × Option π))
    (Par : List Bool → π → Prop) (Bud : Nat → WalkState → Prop) : Prop where
  requests : h'.requests = h.requests
  ids : strict → (h.requests.map Request.updateID).Nodup
  present : ∀ q ∈ h.requests, dataAt t q.key ≠ none
  visit : ∀ w p pc s n, r.key <+: w → Par w p → NodeOk strict h w pc s.reports →
    Bud (matchedAt h r w + n) s →
    ∃ pc' s' next, f w.length p pc s = some (pc', s', next) ∧
      NodeOk strict h' w pc' s'.reports ∧ pc'.asn = pc.asn ∧
      (∃ E, s'.reports = s.reports ++ E ∧ ReportsAt h w E) ∧ Bud n s' ∧
      match next with
      | some p' => ∀ b, Par (w ++ [b]) p'
      | none => r.covers w = false ∧ ∀ u pc reports, NodeOk strict h (w ++ u) pc reports →
          NodeOk strict h' (w ++ u) pc reports
  skip : ∀ w p, r.key <+: w → dataAt t w = none → Par w p → ∀ b, Par (w ++ [b]) p
  keep : ∀ u pc reports, ¬ r.key <+: u → NodeOk strict h u pc reports →
    NodeOk strict h' u pc reports

/-- A visit of another prefix does not matter. -/
theorem NodeOk.otherVisit (hids : strict → (h.requests.map Request.updateID).Nodup)
    {w w' : List Bool} {g : History} (hg : g.requests = h.requests) {pc : PcPrefix}
    {s s' : WalkState} (hstep : ∃ E, s'.reports = s.reports ++ E ∧ ReportsAt h w' E)
    (hne : w ≠ w') (hok : NodeOk strict g w pc s.reports) : NodeOk strict g w pc s'.reports := by
  obtain ⟨E, hE, hat⟩ := hstep
  rw [hE]
  exact hok.frame hg.symm (hg ▸ hids) hat hne

/-- The walk visits all updates that the ROA matches. -/
theorem sumKeys_matchedAt (hreqs : ∀ q ∈ h.requests, dataAt t q.key ≠ none) :
    (t.sub r.key).sumKeys (matchedAt h r) r.key = h.matchedBy r := by
  refine (Trie.sumKeys_countP Request.key (fun q => r.matches q.key q.as) h.requests _ _
    fun q hq _ u hu => ?_).trans (List.countP_congr fun q _ => ?_)
  · rw [Trie.get?_sub, ← hu]
    cases hget : t.get? q.key with
    | some v => rfl
    | none => exact absurd (dataAt_of_none hget) (hreqs q hq)
  · simp only [decide_eq_true_eq, and_iff_right_iff_imp, matches_iff]
    exact fun hm => hm.1.1

namespace VisitChanges

/-- The visit as the rule for walks wants it. -/
theorem visitOk (hf : VisitChanges strict h h' t r f Par Bud) : Trie.VisitOk (visitData f)
    (fun w v s => v = nodeAt t w ∧ ∀ pc, v.data = some pc → NodeOk strict h w pc s.reports)
    (fun w v s => Changed strict h' t s.reports w v.data) (fun w p => r.key <+: w ∧ Par w p)
    (fun w s s' => ∃ E, s'.reports = s.reports ++ E ∧ ReportsAt h w E) Bud (matchedAt h r) := by
  intro w p v s n hpar hpre hbud
  cases hv : v.data with
  | none =>
    have hnone : dataAt t w = none := by rw [dataAt, ← hpre.1, hv]
    have hzero : matchedAt h r w = 0 := List.countP_eq_zero.mpr fun q hq hq' => by
      simp only [decide_eq_true_eq] at hq'
      exact hf.present q hq (hq'.1 ▸ hnone)
    have heq : visitData f w.length p v s = some (v, s, some p) := by
      rcases v with _ | (_ | pc)
      · rfl
      · rfl
      · simp [TreeNode.data] at hv
    rw [hzero, Nat.zero_add] at hbud
    have hsame : Changed strict h' t s.reports w v.data := by
      rw [hv]
      exact hnone
    exact ⟨v, s, some p, heq, hsame, ⟨[], by simp, by simp [ReportsAt]⟩, hbud,
      fun b => ⟨hpar.1.trans (List.prefix_append ..), hf.skip w p hpar.1 hnone hpar.2 b⟩⟩
  | some pc =>
    obtain ⟨pc', s', next, heq, hnode', hasn, hstep, hbud', hnext⟩ :=
      hf.visit w p pc s n hpar.1 hpar.2 (hpre.2 pc hv) hbud
    have hv' : v = .entry (some pc) := by
      rcases v with _ | data
      · simp [TreeNode.data] at hv
      · exact congrArg _ hv
    have hpc : dataAt t w = some pc := by rw [dataAt, ← hpre.1, hv]
    refine ⟨.entry (some pc'), s', next, by simp [hv', visitData, heq], ⟨pc, hpc, hasn, hnode'⟩,
      hstep, hbud', ?_⟩
    cases next with
    | some p' => exact fun b => ⟨hpar.1.trans (List.prefix_append ..), hnext b⟩
    | none =>
      obtain ⟨hcov, hbelow⟩ := hnext
      refine fun u _ => ⟨matchedAt_not_covered (not_covers_below hcov hpar.1), ?_⟩
      rintro x s ⟨hx, hxok⟩
      show Changed strict h' t s.reports (w ++ u) x.data
      have hdata : dataAt t (w ++ u) = x.data := by rw [dataAt, ← hx]
      cases hxd : x.data with
      | none => exact hdata.trans hxd
      | some pc => exact ⟨pc, hdata.trans hxd, rfl, hbelow u pc s.reports (hxok pc hxd)⟩

theorem frame (hf : VisitChanges strict h h' t r f Par Bud) (w w' : List Bool) (v : TreeNode)
    (s s' : WalkState) (hstep : ∃ E, s'.reports = s.reports ++ E ∧ ReportsAt h w' E)
    (hne : w ≠ w') :
    ((v = nodeAt t w ∧ ∀ pc, v.data = some pc → NodeOk strict h w pc s.reports) →
      v = nodeAt t w ∧ ∀ pc, v.data = some pc → NodeOk strict h w pc s'.reports) ∧
    (Changed strict h' t s.reports w v.data → Changed strict h' t s'.reports w v.data) := by
  refine ⟨fun hpre => ⟨hpre.1, fun pc hpc =>
    (hpre.2 pc hpc).otherVisit hf.ids rfl hstep hne⟩, fun hpost => ?_⟩
  cases hv : v.data with
  | none => rwa [hv] at hpost
  | some pc' =>
    rw [hv] at hpost
    obtain ⟨pc, hpc, hasn, hok⟩ := hpost
    exact ⟨pc, hpc, hasn, hok.otherVisit hf.ids hf.requests hstep hne⟩

/-- What the nodes below the prefix of the ROA are like before the walk. -/
theorem before {reports : List Report}
    (hnode : ∀ u pc, dataAt t u = some pc → NodeOk strict h u pc reports) (u : List Bool)
    (v : TreeNode) (hv : (t.sub r.key).get? u = some v) : v = nodeAt t (r.key ++ u) ∧
      ∀ pc, v.data = some pc → NodeOk strict h (r.key ++ u) pc reports := by
  rw [Trie.get?_sub] at hv
  refine ⟨by rw [nodeAt, hv]; rfl, fun pc hpc => hnode _ pc ?_⟩
  rw [dataAt_of_get? hv, hpc]

/-- The walk. -/
theorem walk (hf : VisitChanges strict h h' t r f Par Bud) (hk : dataAt t r.key ≠ none) (p : π)
    (hpar : Par r.key p) (s : WalkState)
    (hnode : ∀ u pc, dataAt t u = some pc → NodeOk strict h u pc s.reports)
    (hbud : Bud (h.matchedBy r) s) :
    ∃ t' s', t.atSub (fun sub => sub.walk (visitData f) r.key.length p s) r.key = some (t', s') ∧
      (∀ u, Changed strict h' t s'.reports u (dataAt t' u)) ∧ Bud 0 s' := by
  obtain ⟨t₁, s', hwalk, hkeys, hpost, hbud', hQ⟩ := Trie.walk_rule hf.visitOk hf.frame (t.sub r.key)
    ⟨List.prefix_rfl, hpar⟩ (before hnode) (n := 0) (by rw [sumKeys_matchedAt hf.present]; exact hbud)
  obtain ⟨pc₀, hpc₀⟩ := Option.ne_none_iff_exists'.mp hk
  obtain ⟨t', hat, hget⟩ := Trie.atSub_eq (t := t) (w := r.key)
    (g := fun sub => sub.walk (visitData f) r.key.length p s)
    (by rw [get?_of_dataAt hpc₀]; rfl) hwalk
  refine ⟨t', s', hat, fun u => ?_, hbud'⟩
  by_cases hu : r.key <+: u
  · obtain ⟨u, rfl⟩ := hu
    have hget := hget (r.key ++ u)
    rw [if_pos (List.prefix_append ..), List.drop_left] at hget
    cases hv : t₁.get? u with
    | some v =>
      rw [dataAt_of_get? (hget.trans hv)]
      exact hpost u v hv
    | none =>
      rw [dataAt_of_none (hget.trans hv)]
      have hnone := hkeys u
      rw [hv, Trie.get?_sub] at hnone
      refine dataAt_of_none ?_
      simpa using hnone.symm
  · have hget := hget u
    rw [if_neg hu] at hget
    have hsame : dataAt t' u = dataAt t u := by rw [dataAt, nodeAt, hget]; rfl
    rw [hsame]
    cases hpc : dataAt t u with
    | none => exact hpc
    | some pc =>
      refine ⟨pc, hpc, rfl, hf.keep u pc _ hu ?_⟩
      refine hQ (fun s => NodeOk strict h u pc s.reports) (fun u' s s' hstep => ?_) (hnode u pc hpc)
      exact NodeOk.otherVisit hf.ids rfl hstep fun heq => hu ⟨u', heq.symm⟩

/-- Another kind of visit that agrees wherever the walk gets to. -/
theorem walk_congr (hf : VisitChanges strict h h' t r f Par Bud)
    {g : Nat → π → PcPrefix → WalkState → Option (PcPrefix × WalkState × Option π)}
    (hagree : ∀ w p pc s n, r.key <+: w → Par w p → NodeOk strict h w pc s.reports →
      Bud (matchedAt h r w + n) s → f w.length p pc s = g w.length p pc s)
    (p : π) (hpar : Par r.key p) (s : WalkState)
    (hnode : ∀ u pc, dataAt t u = some pc → NodeOk strict h u pc s.reports)
    (hbud : Bud (h.matchedBy r) s) :
    (t.sub r.key).walk (visitData f) r.key.length p s =
      (t.sub r.key).walk (visitData g) r.key.length p s := by
  refine Trie.walk_congr_of_visitOk hf.visitOk hf.frame (fun w p v s n hpar hpre hbud => ?_) (t.sub r.key)
    ⟨List.prefix_rfl, hpar⟩ (before hnode) (n := 0)
    (by rw [sumKeys_matchedAt hf.present]; exact hbud)
  rcases v with _ | (_ | pc)
  · rfl
  · rfl
  · simp only [visitData, hagree w p pc s n hpar.1 hpar.2 (hpre.2 pc rfl) hbud]

end VisitChanges

/-- A prefix gets its data after a walk. -/
theorem inv_afterWalk {exact : Prop} {t' : PrefixTree} {reports : List Report} {k : List Bool}
    {data : Option PcPrefix} (hchanged : ∀ u, Changed strict h' t reports u (dataAt t' u))
    (hdata : ∀ pc, data = some pc → NodeOk strict h' k pc reports ∧ AsnOk exact h' k pc.asn)
    (hasn : ∀ u pc, u ≠ k → dataAt t u = some pc → AsnOk exact h' u pc.asn)
    (hroas : ∀ r ∈ h'.roas, dataAt t r.key ≠ none ∧ (r.key = k → data ≠ none))
    (hrequests : ∀ q ∈ h'.requests, dataAt t q.key ≠ none ∧ (q.key = k → data ≠ none))
    (hcovers : strict → ∀ r ∈ h'.roas, r.covers r.key = true)
    (hids : strict → (h'.requests.map Request.updateID).Nodup)
    (hsize : h'.requests.length < 2 ^ 31) :
    Inv strict exact h' ⟨setData t' k data, reports⟩ := by
  have hne {u : List Bool} (hu : dataAt t u ≠ none ∧ (u = k → data ≠ none)) :
      dataAt (setData t' k data) u ≠ none := by
    rw [dataAt_setData]
    split
    · next heq => exact hu.2 heq
    · intro hnone
      have := hchanged u
      rw [hnone] at this
      exact hu.1 this
  refine ⟨fun u pcu hpcu => ?_, fun u pcu hpcu => ?_, fun r hr => hne (hroas r hr),
    fun q hq => hne (hrequests q hq), hcovers, hids, hsize⟩
  · rw [dataAt_setData] at hpcu
    split at hpcu
    · next hu => exact hu ▸ (hdata pcu hpcu).1
    · have := hchanged u
      rw [hpcu] at this
      obtain ⟨pcu₀, -, -, hoku⟩ := this
      exact hoku
  · rw [dataAt_setData] at hpcu
    split at hpcu
    · next hu => exact hu ▸ (hdata pcu hpcu).2
    · next hu =>
      have := hchanged u
      rw [hpcu] at this
      obtain ⟨pcu₀, hpcu₀, hasnu, -⟩ := this
      rw [hasnu]
      exact hasn u pcu₀ hu hpcu₀

end Walk

theorem NodeOk.setAsn {strict : Prop} {h : History} {k : List Bool} {pc : PcPrefix}
    {reports : List Report} (hok : NodeOk strict h k pc reports) (asn : List PcAs) :
    NodeOk strict h k { pc with asn := asn } reports := by
  obtain ⟨lv, lo, hok, hrep⟩ := hok
  exact ⟨lv, lo, hok.congr rfl rfl (fun _ => rfl) hok.lists rfl hok.state hok.covered,
    fun hs => ⟨(hrep hs).state, (hrep hs).valid, (hrep hs).other⟩⟩

/-! ## Adding a ROA -/

section Add

variable {strict exact : Prop} {h : History} {c : PrefixCache}

/-- What is needed to add a ROA: no counter overflows. -/
structure AddOk (h : History) (c : PrefixCache) (r : Roa) : Prop where
  count : h.roas.count r + 1 < 2 ^ 16
  fitsCover : ∀ k, (h.addRoa r).coverCount k < 2 ^ 32
  fitsMatch : ∀ q ∈ h.requests, (h.addRoa r).matchCount q.key q.as < 2 ^ 16
  fitsUpdates : ∀ e ∈ entriesAt c.prefixTree r.key,
    e.2.updateCount.toNat + h.requests.length < 2 ^ 32

/-- The prefix a ROA is added to. -/
theorem Inv.startPrefix (hinv : Inv strict exact h c) (k : List Bool)
    (hcover : h.coverCount k < 2 ^ 32) {pc : PcPrefix}
    (hpc : pc = (dataAt c.prefixTree k).getD (createPrefix c.prefixTree k)) :
    NodeOk strict h k pc c.reports ∧ AsnOk exact h k pc.asn ∧
      roaEntries pc.asn = entriesAt c.prefixTree k := by
  subst hpc
  unfold entriesAt
  cases hdata : dataAt c.prefixTree k with
  | some pc => exact ⟨hinv.node k pc hdata, hinv.asn k pc hdata, rfl⟩
  | none =>
    rw [Option.getD_none, hinv.coverageOk.createPrefix_eq hdata]
    have hcov : (UInt32.ofNat (h.coverCount k)).toNat = h.coverCount k := Nat.mod_eq_of_lt hcover
    obtain ⟨hok, hrep, hasn⟩ := hinv.newPrefix hdata hcov rfl
    exact ⟨⟨[], [], hok, hrep⟩, hasn, rfl⟩

/-- The counter of the ROA while a walk counts updates. -/
theorem counted_add {x : PcRoa} {s s' : WalkState} {m n total : Nat} (htotal : total < 2 ^ 32)
    (hbud : ∃ cnt : UInt32, s.roa = x.withCount cnt ∧ cnt.toNat + (m + n) = total)
    (hroa : s'.roa = s.roa.withCount (s.roa.updateCount + UInt32.ofNat m)) :
    ∃ cnt : UInt32, s'.roa = x.withCount cnt ∧ cnt.toNat + n = total := by
  obtain ⟨cnt, hcnt, hsum⟩ := hbud
  refine ⟨cnt + UInt32.ofNat m, by rw [hroa, hcnt]; rfl, ?_⟩
  rw [UInt32.toNat_add, UInt32.toNat_ofNat', Nat.mod_eq_of_lt (show m < 2 ^ 32 by omega),
    Nat.mod_eq_of_lt (by omega)]
  omega

/-- The visit of a walk that adds a ROA. `x` is the entry of the ROA before the walk, and `total` what
its counter gets to. -/
theorem verifyUpdates_changes {t : PrefixTree} {r : Roa} {x : PcRoa} {total : Nat}
    (hcan : CanAdd strict h r) (hpresent : ∀ q ∈ h.requests, dataAt t q.key ≠ none)
    (hxas : x.as = r.as) (hxmax : x.maxLen = r.maxLen) (htotal : total < 2 ^ 32)
    (suppress : Bool) :
    VisitChanges strict h (h.addRoa r) t r (verifyUpdates suppress) (fun _ _ => True)
      (fun n s => ∃ cnt : UInt32, s.roa = x.withCount cnt ∧ cnt.toNat + n = total) where
  requests := rfl
  ids := hcan.ids
  present := hpresent
  visit w _ pcw s n hw _ hok hbud := by
    have hroa : s.roa.as = r.as ∧ s.roa.maxLen = r.maxLen := by
      obtain ⟨cnt, hcnt, -⟩ := hbud
      rw [hcnt]
      exact ⟨hxas, hxmax⟩
    obtain ⟨pcw', s', next, heq, hok', hasnw, hE, hcnt, hnext⟩ :=
      verifyUpdates_ok hok hcan hw hroa.1 hroa.2 suppress
    refine ⟨pcw', s', next, heq, hok', hasnw, hE, counted_add htotal hbud hcnt, ?_⟩
    cases next with
    | some _ => exact fun _ => trivial
    | none =>
      obtain ⟨hnot, hstate⟩ := hnext rfl
      refine ⟨hnot, fun u pcu reports hoku => hoku.addRoa_other (not_covers_below hnot hw)
        fun hs _ => ?_⟩
      obtain ⟨lv, lo, -, hrep⟩ := hok
      obtain ⟨r', hr', hkey'⟩ := (hrep hs).state.mp hstate
      exact ⟨r', hr', hkey'.trans (List.prefix_append ..)⟩
  skip _ _ _ _ _ _ := trivial
  keep u pcu reports hu hok := by
    refine hok.addRoa_other ?_ fun _ hkey => absurd hkey hu
    rw [← Bool.not_eq_true, covers_iff]
    exact fun hcov => hu hcov.1

/-- Adding a ROA keeps the invariant. -/
theorem Inv.add (hinv : Inv strict exact h c) {r : Roa} {p : IPPrefix} (hkey : r.key = p.key)
    (hrfc : belongsToRfc5398 r.as = false) (hadd : AddOk h c r)
    (hcov : strict → r.covers r.key = true) (hexact : exact → r ∉ h.roas) (suppress : Bool) :
    ∃ c', addROAwl c r.as p r.maxLen r.valCacheID suppress = some (true, c') ∧
      Inv strict exact (h.addRoa r) c' := by
  have hcan : CanAdd strict h r := ⟨hinv.ids, hinv.size, hadd.fitsMatch, hadd.fitsCover⟩
  have hcover : h.coverCount r.key < 2 ^ 32 := by
    have := hcan.fitsCover r.key
    rw [History.coverCount_addRoa] at this
    omega
  obtain ⟨pc, hpc⟩ : ∃ pc, pc = (dataAt c.prefixTree r.key).getD (createPrefix c.prefixTree r.key) :=
    ⟨_, rfl⟩
  obtain ⟨hnode, hasn, hentries⟩ := hinv.startPrefix r.key hcover hpc
  obtain ⟨asn', hasn'⟩ : ∃ asn', asn' = modifyRoas (getASFromPrefix pc.asn r.as) r.as
    fun roas => addRoa roas r.as r.maxLen r.valCacheID := ⟨_, rfl⟩
  obtain ⟨x, hfind, hxas, hxmax, hxcount, hback⟩ := hasn.add hexact hadd.count hasn'
  -- The tree with the ROA, before the walk.
  obtain ⟨t, ht⟩ : ∃ t, t = setData c.prefixTree r.key (some { pc with asn := asn' }) := ⟨_, rfl⟩
  have hdata (u : List Bool) : dataAt t u =
      if u = r.key then some { pc with asn := asn' } else dataAt c.prefixTree u := by
    rw [ht, dataAt_setData]
  have hdata_ne {u : List Bool} (hu : dataAt c.prefixTree u ≠ none) : dataAt t u ≠ none := by
    rw [hdata]
    split
    · simp
    · exact hu
  have hdata_k : dataAt t r.key = some { pc with asn := asn' } := by rw [hdata, if_pos rfl]
  have hnode_t : ∀ u pcu, dataAt t u = some pcu → NodeOk strict h u pcu c.reports := by
    intro u pcu hpcu
    rw [hdata] at hpcu
    split at hpcu
    · next hu =>
      obtain rfl := Option.some.inj hpcu
      exact hu ▸ hnode.setAsn asn'
    · exact hinv.node u pcu hpcu
  have hmatched : h.matchedBy r ≤ h.requests.length := List.countP_le_length
  have htotal : x.updateCount.toNat + h.matchedBy r < 2 ^ 32 := by
    rcases hxcount with hzero | ⟨-, e, he, heq⟩
    · have := hinv.size
      rw [hzero, UInt32.toNat_zero]
      omega
    · have := hadd.fitsUpdates e (hentries ▸ he)
      rw [heq] at this
      omega
  obtain ⟨t', s', hwalk, hchanged, cnt, hroa, hcnt⟩ :=
    (verifyUpdates_changes hcan (fun q hq => hdata_ne (hinv.requests q hq)) hxas hxmax htotal
      suppress).walk (by rw [hdata_k]; simp) () trivial ⟨x, c.reports⟩ hnode_t
        ⟨x.updateCount, rfl, rfl⟩
  -- The list of ASes gets the ROA back from the walk.
  have hchanged_k := hchanged r.key
  cases hpc' : dataAt t' r.key with
  | none =>
    rw [hpc'] at hchanged_k
    exact absurd (hchanged_k.symm.trans hdata_k) (by simp)
  | some pc' =>
    rw [hpc'] at hchanged_k
    obtain ⟨pc₀, hpc₀, hasn₀, hok'⟩ := hchanged_k
    obtain rfl := Option.some.inj (hpc₀.symm.trans hdata_k)
    have hfinal := hback cnt (by omega) fun hx => by
      rcases hxcount with hzero | ⟨hnot, -⟩
      · rw [hzero, UInt32.toNat_zero] at hcnt
        omega
      · exact absurd hx hnot
    obtain ⟨asn'', hasn''⟩ : ∃ asn'', asn'' = modifyRoas pc'.asn r.as
      (modifyFirst (fun y => y.isEntry r.valCacheID r.maxLen) fun _ => s'.roa) := ⟨_, rfl⟩
    refine ⟨⟨setData t' r.key (some { pc' with asn := asn'' }), s'.reports⟩, ?_,
      inv_afterWalk hchanged ?_ ?_ ?_ ?_ ?_ hinv.ids hinv.size⟩
    · have hpc'' : (nodeAt t' r.key).data = some pc' := hpc'
      have hstart : pc = ((nodeAt c.prefixTree r.key).data).getD
        (createPrefix c.prefixTree r.key) := hpc
      simp only [addROAwl, hrfc, Bool.false_eq_true, if_false, ← hkey, ← hstart, ← hasn', hfind,
        ← ht, hwalk, hpc'', Option.bind_eq_bind, Option.bind_some, ← hasn'']
    · intro pcu hpcu
      obtain rfl := Option.some.inj hpcu
      refine ⟨hok'.setAsn _, ?_⟩
      show AsnOk exact (h.addRoa r) r.key asn''
      rw [hasn'', hasn₀, hroa]
      exact hfinal
    · intro u pcu hu hpcu
      rw [hdata, if_neg hu] at hpcu
      exact (hinv.asn u pcu hpcu).addRoa_of_ne (Ne.symm hu)
    · intro r' hr'
      refine ⟨?_, fun _ => by simp⟩
      rcases List.mem_cons.mp hr' with rfl | hr'
      · rw [hdata_k]
        simp
      · exact hdata_ne (hinv.roas r' hr')
    · exact fun q hq => ⟨hdata_ne (hinv.requests q hq), fun _ => by simp⟩
    · intro hs r' hr'
      rcases List.mem_cons.mp hr' with rfl | hr'
      · exact hcov hs
      · exact hinv.covers hs r' hr'

end Add

/-! ## Removing a ROA -/

section Del

variable {strict exact : Prop} {h : History} {c : PrefixCache} {r : Roa}

/-- The state that a prefix hands down to its children. -/
theorem NodeOk.parentOk {k : List Bool} {pc : PcPrefix} {reports : List Report}
    (hok : NodeOk strict h k pc reports) (b : Bool) :
    ParentOk strict h (k ++ [b]) pc.stateOfOther := by
  intro hs
  obtain ⟨lv, lo, hok, hrep⟩ := hok
  simp only [above_child]
  rw [← (hrep hs).state]
  rcases hok.state with hstate | hstate <;> simp [hstate]

/-- The ROA of a walk that takes updates out, when `n` of them are left. `x` is its entry before the
walk, and `extra` is what its counter was too large by. -/
structure Leftover (r : Roa) (x : PcRoa) (extra n : Nat) (roa : PcRoa) : Prop where
  as : roa.as = r.as
  maxLen : roa.maxLen = r.maxLen
  roaCount : roa.roaCount = x.roaCount
  same : x.roaCount ≠ 1 → roa = x
  enough : n ≤ roa.updateCount.toNat
  exact : x.roaCount = 1 → roa.updateCount.toNat = n + extra

/-- The counter of the ROA while a walk takes updates out. -/
theorem counted_del {x : PcRoa} {extra m n : Nat} {roa roa' : PcRoa}
    (hbud : Leftover r x extra (m + n) roa) (hout : CountedOut m roa roa') :
    Leftover r x extra n roa' := by
  unfold CountedOut at hout
  split at hout
  · next hone =>
    obtain ⟨cnt, rfl, hcnt⟩ := hout
    have hx : x.roaCount = 1 := hbud.roaCount ▸ hone
    have hexact := hbud.exact hx
    refine ⟨hbud.as, hbud.maxLen, hbud.roaCount, fun hne => absurd hx hne, ?_, fun _ => ?_⟩
    · show n ≤ cnt.toNat
      omega
    · show cnt.toNat = n + extra
      omega
  · next hone =>
    obtain rfl := hout
    exact ⟨hbud.as, hbud.maxLen, hbud.roaCount, hbud.same,
      Nat.le_trans (Nat.le_add_left n m) hbud.enough, fun hx => absurd (hbud.roaCount.trans hx) hone⟩

/-- The state above the prefix of a ROA does not change with the ROA. -/
theorem Inv.parentOk_delRoa (hinv : Inv strict exact h c) (r : Roa) :
    ParentOk strict (h.delRoa r) r.key (parentState c.prefixTree r.key) := by
  intro hs
  have hiff := hinv.parentState_strict hs r.key
  have hsame : (∃ r' ∈ (h.delRoa r).roas, r'.key <+: r.key ∧ r'.key ≠ r.key) ↔
      ∃ r' ∈ h.roas, r'.key <+: r.key ∧ r'.key ≠ r.key := by
    constructor
    · rintro ⟨r', hr', hk⟩
      exact ⟨r', List.mem_of_mem_erase hr', hk⟩
    · rintro ⟨r', hr', hk⟩
      exact ⟨r', (List.mem_erase_of_ne fun heq => hk.2 (congrArg Roa.key heq)).mpr hr', hk⟩
  rw [hsame, ← hiff]
  rcases hinv.coverageOk.parentState_cases r.key with hstate | hstate <;> simp [hstate]

/-- The visit of a walk that removes a ROA. `x` is the entry of the ROA before the walk. -/
theorem Inv.validateUpdates_changes (hinv : Inv strict exact h c) (hcan : CanDel strict h r)
    (x : PcRoa) (extra : Nat) (suppress : Bool) :
    VisitChanges strict h (h.delRoa r) c.prefixTree r (validateUpdates suppress)
      (ParentOk strict (h.delRoa r)) (fun n s => Leftover r x extra n s.roa) where
  requests := rfl
  ids := hinv.ids
  present := hinv.requests
  visit w q pcw s n hw hpar hok hbud := by
    obtain ⟨pcw', s', next, heq, hok', hasnw, hE, hout, hnext⟩ := validateUpdates_ok hok hcan hw
      hbud.as hbud.maxLen hpar (Nat.le_trans (Nat.le_add_right ..) hbud.enough) suppress
    refine ⟨pcw', s', next, heq, hok', hasnw, hE, counted_del hbud hout, ?_⟩
    cases next with
    | some q' =>
      subst hnext
      exact hok'.parentOk
    | none =>
      obtain ⟨hnot, hleft⟩ := hnext
      refine ⟨hnot, fun u pcu reports hoku => hoku.delRoa_other hcan.mem (not_covers_below hnot hw)
        fun hs _ => ?_⟩
      obtain ⟨r', hr', hkey'⟩ := hleft hs
      exact ⟨r', hr', hkey'.trans (List.prefix_append ..)⟩
  skip w q hw hnone hpar b hs := by
    -- A node without a prefix hands the state down; no ROA sits there.
    rw [hpar hs]
    simp only [above_child]
    refine not_congr (exists_congr fun r' => and_congr_right fun hr' => ?_)
    refine and_iff_left fun heq => ?_
    exact hinv.roas r' (List.mem_of_mem_erase hr') (heq ▸ hnone)
  keep u pcu reports hu hok := by
    refine hok.delRoa_other hcan.mem ?_ fun _ hkey => absurd hkey hu
    rw [← Bool.not_eq_true, covers_iff]
    exact fun hcov => hu hcov.1

/-- Removing a ROA that is present keeps the invariant. -/
theorem Inv.del (hinv : Inv strict exact h c) {p : IPPrefix} (hkey : r.key = p.key)
    (hmem : r ∈ h.roas) (suppress : Bool) :
    ∃ c', delROAwl c r.as p r.maxLen r.valCacheID suppress = some (true, c') ∧
      Inv strict exact (h.delRoa r) c' := by
  have hcan : CanDel strict h r := ⟨hmem, hinv.ids, hinv.covers, hinv.size⟩
  obtain ⟨pc, hpc⟩ := Option.ne_none_iff_exists'.mp (hinv.roas r hmem)
  obtain ⟨x, hfind, hxas, hxmax, hxcount, hback⟩ := (hinv.asn r.key pc hpc).del hmem
  obtain ⟨t', s', hwalk, hchanged, hleft⟩ :=
    (hinv.validateUpdates_changes hcan x _ suppress).walk (hinv.roas r hmem) _
      (hinv.parentOk_delRoa r) ⟨x, c.reports⟩ (fun u pcu => hinv.node u pcu)
        ⟨hxas, hxmax, rfl, fun _ => rfl, hxcount, fun _ => (Nat.add_sub_of_le hxcount).symm⟩
  have hchanged_k := hchanged r.key
  cases hpc' : dataAt t' r.key with
  | none =>
    rw [hpc'] at hchanged_k
    exact absurd hchanged_k (hinv.roas r hmem)
  | some pc' =>
    rw [hpc'] at hchanged_k
    obtain ⟨pc₀, hpc₀, hasn₀, hok'⟩ := hchanged_k
    obtain rfl := Option.some.inj (hpc₀.symm.trans hpc)
    have hfinal := hback s'.roa hleft.roaCount hleft.same
    obtain ⟨asn', hasn'⟩ : ∃ asn', asn' = removeRoa pc₀.asn r.as r.maxLen r.valCacheID s'.roa :=
      ⟨_, rfl⟩
    rw [← hasn'] at hfinal
    -- A prefix that is still in use has an AS, so it is not freed.
    have hused (hne : asn' ≠ []) :
        (if asn'.isEmpty then none else some { pc' with asn := asn' }) ≠ none := by
      rw [if_neg (by simpa using hne)]
      simp
    refine ⟨⟨setData t' r.key (if asn'.isEmpty then none else some { pc' with asn := asn' }),
      s'.reports⟩, ?_, inv_afterWalk hchanged ?_ ?_ ?_ ?_
        (fun hs r' hr' => hinv.covers hs r' (List.mem_of_mem_erase hr')) hinv.ids hinv.size⟩
    · have h1 : (nodeAt c.prefixTree r.key).data = some pc₀ := hpc
      have h2 : (nodeAt t' r.key).data = some pc' := hpc'
      simp only [delROAwl, ← hkey, h1, hfind, hwalk, h2, hasn₀, ← hasn', Option.bind_eq_bind,
        Option.bind_some]
    · intro pcu hpcu
      split at hpcu
      · simp at hpcu
      · obtain rfl := Option.some.inj hpcu
        exact ⟨hok'.setAsn _, hfinal⟩
    · exact fun u pcu hu hpcu => (hinv.asn u pcu hpcu).delRoa_of_ne hmem (Ne.symm hu)
    · intro r' hr'
      refine ⟨hinv.roas r' (List.mem_of_mem_erase hr'), fun heq => hused fun hnil => ?_⟩
      rw [hnil] at hfinal
      exact hfinal.of_nil.1 r' hr' heq
    · intro q hq
      refine ⟨hinv.requests q hq, fun heq => hused fun hnil => ?_⟩
      rw [hnil] at hfinal
      exact hfinal.of_nil.2 q hq heq

/-- Removing a ROA that is not present changes nothing. -/
theorem Inv.del_absent (hinv : Inv strict exact h c) {p : IPPrefix} (hkey : r.key = p.key)
    (hmem : r ∉ h.roas) (suppress : Bool) :
    ∃ c', delROAwl c r.as p r.maxLen r.valCacheID suppress = some (false, c') ∧
      Inv strict exact (h.delRoa r) c' := by
  have hsame : h.delRoa r = h := by rw [History.delRoa, List.erase_of_not_mem hmem]
  rw [hsame]
  cases hpc : (nodeAt c.prefixTree r.key).data with
  | none =>
    refine ⟨{ c with prefixTree := patriciaLookup c.prefixTree r.key },
      by simp only [delROAwl, ← hkey, hpc], ?_, ?_, ?_, ?_, hinv.covers, hinv.ids, hinv.size⟩
    · intro u pcu hpcu
      rw [dataAt_patriciaLookup] at hpcu
      exact hinv.node u pcu hpcu
    · intro u pcu hpcu
      rw [dataAt_patriciaLookup] at hpcu
      exact hinv.asn u pcu hpcu
    · intro r' hr'
      rw [dataAt_patriciaLookup]
      exact hinv.roas r' hr'
    · intro q hq
      rw [dataAt_patriciaLookup]
      exact hinv.requests q hq
  | some pc =>
    cases hfind : findRoa pc.asn r.as r.maxLen r.valCacheID with
    | none => exact ⟨c, by simp only [delROAwl, ← hkey, hpc, hfind], hinv⟩
    | some x => exact absurd ((hinv.asn r.key pc hpc).mem_of_findRoa hfind) hmem

end Del

end SrxSuite.Cache

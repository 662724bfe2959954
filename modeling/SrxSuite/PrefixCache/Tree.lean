import SrxSuite.PrefixCache.Roas

/-!
# The tree of the prefix cache

`dataAt` is the `PC_Prefix` of a key. What the operations on the tree do is stated through it:
`getParent_spec` for the nearest prefix above, `climbData_eq` for the ways up the tree.

On the way up the counters collect ROAs. `SumsOk` says that the ROAs in the tree are those of the
history; then the counters are the numbers of ROAs that cover a prefix or match an update
(`sum_path_covers`, `sum_path_matches`).
-/

namespace SrxSuite.Cache

open Util UpdateLemmas NodeLemmas RoaLemmas

/-- The `PC_Prefix` of a key. -/
def dataAt (t : PrefixTree) (k : List Bool) : Option PcPrefix := (nodeAt t k).data

/-- The ROAs at a key. -/
def entriesAt (t : PrefixTree) (k : List Bool) : List (UInt32 × PcRoa) :=
  (dataAt t k).elim [] fun pc => roaEntries pc.asn

/-- The ROAs in the tree are those of the history. -/
def SumsOk (h : History) (t : PrefixTree) : Prop :=
  ∀ k p, roaSum k p (entriesAt t k) = h.roas.countP fun r => r.key = k ∧ p r = true

namespace TreeLemmas

variable {t : PrefixTree} {k u : List Bool}

/-! ## Data -/

theorem dataAt_of_get? {v : TreeNode} (h : t.get? k = some v) : dataAt t k = v.data := by
  rw [dataAt, nodeAt, h]
  rfl

theorem dataAt_of_none (h : t.get? k = none) : dataAt t k = none := by
  rw [dataAt, nodeAt, h]
  rfl

theorem get?_of_dataAt {pc : PcPrefix} (h : dataAt t k = some pc) :
    t.get? k = some (.entry (some pc)) := by
  cases hv : t.get? k with
  | none => simp [dataAt_of_none hv] at h
  | some v =>
    rw [dataAt_of_get? hv] at h
    cases v with
    | glue => simp [TreeNode.data] at h
    | entry data => rw [← h]; rfl

theorem dataAt_setData (t : PrefixTree) (k u : List Bool) (data : Option PcPrefix) :
    dataAt (setData t k data) u = if u = k then data else dataAt t u := by
  rw [dataAt, nodeAt, setData, Trie.get?_insertWith]
  split
  · rfl
  · split
    · rw [dataAt, nodeAt]
      rfl
    · rfl

theorem dataAt_patriciaLookup (t : PrefixTree) (k u : List Bool) :
    dataAt (patriciaLookup t k) u = dataAt t u := by
  rw [dataAt, nodeAt, patriciaLookup, Trie.get?_insertWith]
  split
  · next heq =>
    subst heq
    rw [dataAt, nodeAt]
    cases (t.get? u).getD .glue <;> rfl
  · split
    · rw [dataAt, nodeAt]
      rfl
    · rfl

@[simp] theorem dataAt_null : dataAt .null k = none := dataAt_of_none (by simp)

/-- `getParent` finds the nearest prefix above. -/
theorem getParent_spec (t : PrefixTree) (k : List Bool) :
    match getParent t k with
    | none => ∀ j, j <+: k → j ≠ k → dataAt t j = none
    | some pc => ∃ j, j <+: k ∧ j ≠ k ∧ dataAt t j = some pc ∧
        ∀ i, i <+: k → i ≠ k → dataAt t i ≠ none → i <+: j := by
  induction k generalizing t with
  | nil =>
    have hnone : getParent t [] = none := by cases t <;> rfl
    rw [hnone]
    intro j hj hne
    exact absurd (List.prefix_nil.mp hj) hne
  | cons b k ih =>
    cases t with
    | null =>
      intro j _ _
      exact dataAt_null
    | node v c =>
      have ih := ih (c b)
      rw [getParent]
      cases hbelow : getParent (c b) k with
      | some pc =>
        rw [hbelow] at ih
        obtain ⟨j, hj, hne, hpc, hnear⟩ := ih
        refine ⟨b :: j, List.cons_prefix_cons.mpr ⟨rfl, hj⟩, by simpa using hne, hpc, ?_⟩
        intro i hi hine hdata
        cases i with
        | nil => exact List.nil_prefix
        | cons b' i =>
          obtain ⟨rfl, hi'⟩ := List.cons_prefix_cons.mp hi
          exact List.cons_prefix_cons.mpr ⟨rfl, hnear i hi' (by simpa using hine) hdata⟩
      | none =>
        rw [hbelow] at ih
        -- No prefix further down, so it is this node or none.
        have hdown : ∀ i, i <+: b :: k → i ≠ b :: k → dataAt (.node v c) i ≠ none → i = [] := by
          intro i hi hine hdata
          cases i with
          | nil => rfl
          | cons b' i =>
            obtain ⟨rfl, hi'⟩ := List.cons_prefix_cons.mp hi
            exact absurd (ih i hi' (by simpa using hine)) hdata
        cases hv : v.data with
        | some pc =>
          refine ⟨[], List.nil_prefix, by simp, hv, fun i hi hine hdata => ?_⟩
          rw [hdown i hi hine hdata]
        | none =>
          intro j hj hne
          by_contra hdata
          obtain rfl := hdown j hj hne hdata
          exact hdata hv

/-! ## The way up -/

/-- Change the `PC_Prefix` of a node. -/
def mapData (g : PcPrefix → PcPrefix) : TreeNode → TreeNode
  | .entry (some pc) => .entry (some (g pc))
  | n => n

theorem data_mapData (g : PcPrefix → PcPrefix) (v : TreeNode) :
    (mapData g v).data = v.data.map g := by
  rcases v with _ | (_ | pc) <;> rfl

/-- A way up that stops only where nothing more would change. -/
theorem climbData_eq {σ : Type} {f : PcPrefix → σ → PcPrefix × σ × Bool} {go : PcPrefix → Bool}
    {g : PcPrefix → PcPrefix} {F : PcPrefix → σ → σ}
    (hf : ∀ pc s, f pc s = if go pc then (g pc, F pc s, true) else (pc, s, false))
    (hstop : ∀ u pc, u <+: k → dataAt t u = some pc → go pc = false →
      ∀ u' pc', u' <+: u → dataAt t u' = some pc' → g pc' = pc' ∧ ∀ s, F pc' s = s) (s : σ) :
    (∀ u, dataAt (t.climb (climbData f) k s).1 u =
      if u <+: k then (dataAt t u).map g else dataAt t u) ∧
    (t.climb (climbData f) k s).2.1 =
      (t.path k).foldr (fun v s => v.data.elim s fun pc => F pc s) s := by
  have hnode (v : TreeNode) (s : σ) : climbData f v s =
      if v.data.all go then (mapData g v, v.data.elim s fun pc => F pc s, true)
      else (v, s, false) := by
    rcases v with _ | (_ | pc)
    · rfl
    · rfl
    · show (TreeNode.entry (some (f pc s).1), (f pc s).2) = _
      rw [hf]
      cases hgo : go pc <;> simp [TreeNode.data, hgo, mapData]
  have hstop' : ∀ u v, u <+: k → t.get? u = some v → v.data.all go = false →
      ∀ u' v', u' <+: u → t.get? u' = some v' → mapData g v' = v' ∧
        ∀ s, (v'.data.elim s fun pc => F pc s) = s := by
    intro u v hu hv hgo u' v' hu' hv'
    rcases v with _ | (_ | pc)
    · simp [TreeNode.data] at hgo
    · simp [TreeNode.data] at hgo
    · rcases v' with _ | (_ | pc')
      · exact ⟨rfl, fun _ => rfl⟩
      · exact ⟨rfl, fun _ => rfl⟩
      · obtain ⟨h1, h2⟩ := hstop u pc hu (dataAt_of_get? hv) (by simpa [TreeNode.data] using hgo)
          u' pc' hu' (dataAt_of_get? hv')
        exact ⟨by rw [mapData, h1], h2⟩
  obtain ⟨h1, h2, -⟩ := Trie.climb_eq hnode hstop' s
  refine ⟨fun u => ?_, h2⟩
  rw [h1]
  cases hv : t.get? u with
  | none =>
    rw [dataAt_of_none hv, dataAt_of_none (by rw [Trie.get?_mapPath, hv]; simp)]
    simp
  | some v =>
    rw [dataAt_of_get? hv]
    by_cases hu : u <+: k
    · rw [dataAt_of_get? (v := mapData g v) (by rw [Trie.get?_mapPath, hv, if_pos hu]; rfl),
        data_mapData, if_pos hu]
    · rw [dataAt_of_get? (v := v) (by rw [Trie.get?_mapPath, hv, if_neg hu]), if_neg hu]

/-! ## Counting on the way up -/

variable {h : History} {as : UInt32}

/-- The number of ROAs among the entries that cover a prefix of the length. -/
def coverSum (len : Nat) (es : List (UInt32 × PcRoa)) : Nat :=
  (es.map fun e => if len ≤ e.2.maxLen.toNat then e.2.roaCount.toNat else 0).sum

/-- The number of entries that cover a prefix of the length. -/
def coverEntries (len : Nat) (es : List (UInt32 × PcRoa)) : Nat :=
  es.countP fun e => len ≤ e.2.maxLen.toNat

/-- Without duplicates these are the ROAs. -/
theorem coverEntries_eq {len : Nat} {es : List (UInt32 × PcRoa)}
    (hone : ∀ e ∈ es, len ≤ e.2.maxLen.toNat → e.2.roaCount = 1) :
    coverEntries len es = coverSum len es := by
  induction es with
  | nil => rfl
  | cons e es ih =>
    have hrest := ih fun e he => hone e (List.mem_cons_of_mem _ he)
    unfold coverEntries coverSum at *
    rw [List.countP_cons, hrest, List.map_cons, List.sum_cons, Nat.add_comm]
    by_cases hlen : len ≤ e.2.maxLen.toNat
    · simp [hlen, hone e List.mem_cons_self hlen]
    · simp [hlen]

/-- The number of ROAs among the entries that match an update. -/
def matchSum (len : Nat) (as : UInt32) (es : List (UInt32 × PcRoa)) : Nat :=
  (es.map fun e => if len ≤ e.2.maxLen.toNat ∧ e.1 = as then e.2.roaCount.toNat else 0).sum

/-- The ROAs of a node. -/
def nodeEntries (v : TreeNode) : List (UInt32 × PcRoa) := v.data.elim [] fun pc => roaEntries pc.asn

theorem entriesAt_of_get? {v : TreeNode} (hv : t.get? u = some v) :
    entriesAt t u = nodeEntries v := by
  rw [entriesAt, dataAt_of_get? hv]
  rfl

theorem roaSum_covers {es : List (UInt32 × PcRoa)} (hu : u <+: k) :
    roaSum u (fun r => r.covers k) es = coverSum k.length es := by
  refine congrArg List.sum (List.map_congr_left fun e _ => ?_)
  simp [roaOf, hu]

theorem roaSum_matches {es : List (UInt32 × PcRoa)} (hu : u <+: k) :
    roaSum u (fun r => r.matches k as) es = matchSum k.length as es := by
  refine congrArg List.sum (List.map_congr_left fun e _ => ?_)
  simp [roaOf, hu]

/-- The ROAs of a kind on the way up. -/
theorem sum_path_roas (hsums : SumsOk h t) {p : Roa → Bool} {f : List (UInt32 × PcRoa) → Nat}
    (hf : ∀ u es, u <+: k → roaSum u p es = f es) :
    ((t.path k).map fun v => f (nodeEntries v)).sum =
      h.roas.countP fun r => r.key <+: k ∧ p r = true := by
  rw [Trie.sum_path_countP Roa.key p h.roas _ t [] k (fun u v hu hv => ?_)
    (fun r hr hp u _ hkey => ?_)]
  · simp
  · rw [List.nil_append, ← hsums u p, hf u _ hu, entriesAt_of_get? hv]
  · -- There is an entry for the ROA, so there is a node.
    cases hv : t.get? u with
    | some v => rfl
    | none =>
      have hzero := hsums u p
      rw [entriesAt, dataAt_of_none hv, eq_comm] at hzero
      have hnot := List.countP_eq_zero.mp hzero r hr
      rw [List.nil_append] at hkey
      simp [hkey, hp] at hnot

theorem sum_path_covers (hsums : SumsOk h t) :
    ((t.path k).map fun v => coverSum k.length (nodeEntries v)).sum = h.coverCount k := by
  rw [sum_path_roas hsums fun u es hu => roaSum_covers hu]
  refine List.countP_congr fun r _ => ?_
  simp only [decide_eq_true_eq, and_iff_right_iff_imp, covers_iff]
  exact fun h => h.1

theorem sum_path_matches (hsums : SumsOk h t) :
    ((t.path k).map fun v => matchSum k.length as (nodeEntries v)).sum = h.matchCount k as := by
  rw [sum_path_roas hsums fun u es hu => roaSum_matches hu]
  refine List.countP_congr fun r _ => ?_
  simp only [decide_eq_true_eq, and_iff_right_iff_imp, matches_iff]
  exact fun h => h.1.1

/-- The counters of an update after the ROAs of one prefix. A new prefix counts every entry once. -/
theorem coverCounts_eq {isNew : Bool} {len : Nat} {asn : List PcAs} (s : UInt32 × UInt16) :
    coverCounts isNew len as asn s =
      (if isNew then s.1 + UInt32.ofNat (coverEntries len (roaEntries asn)) else s.1,
        s.2 + UInt16.ofNat (matchSum len as (roaEntries asn))) := by
  rw [coverCounts]
  generalize roaEntries asn = es
  induction es generalizing s with
  | nil => cases isNew <;> simp [coverEntries, matchSum]
  | cons e es ih =>
    rw [List.foldl_cons, ih]
    by_cases hlen : len ≤ e.2.maxLen.toNat
    · have hsum : coverEntries len (e :: es) = 1 + coverEntries len es := by
        simp [coverEntries, hlen, Nat.add_comm]
      rw [hsum]
      refine Prod.ext ?_ ?_
      · cases isNew with
        | false => simp [hlen]
        | true => simp [hlen, UInt32.ofNat_add, UInt32.add_assoc]
      · by_cases has : e.1 = as
        · simp [hlen, has, matchSum, UInt16.ofNat_add, UInt16.add_assoc]
        · simp [hlen, has, matchSum]
    · simp [hlen, coverEntries, matchSum]

theorem checkCoverage_fold {len : Nat} (es : List (UInt32 × PcRoa)) (coverage : UInt32) :
    es.foldl (fun coverage e =>
      if len ≤ e.2.maxLen.toNat then coverage + e.2.roaCount.toUInt32 else coverage) coverage =
      coverage + UInt32.ofNat (coverSum len es) := by
  induction es generalizing coverage with
  | nil => simp [coverSum]
  | cons e es ih =>
    rw [List.foldl_cons, ih]
    by_cases hlen : len ≤ e.2.maxLen.toNat
    · have hsum : coverSum len (e :: es) = e.2.roaCount.toNat + coverSum len es := by
        simp [coverSum, hlen]
      have hcount : UInt32.ofNat e.2.roaCount.toNat = e.2.roaCount.toUInt32 := by simp
      rw [if_pos hlen, hsum, UInt32.ofNat_add, hcount, UInt32.add_assoc]
    · simp [hlen, coverSum]

/-- The counters of an update after the whole way up. -/
theorem foldr_coverCounts {isNew : Bool} {len : Nat} (path : List TreeNode) (s : UInt32 × UInt16) :
    path.foldr (fun v s => v.data.elim s fun pc => coverCounts isNew len as pc.asn s) s =
      (if isNew then s.1 + UInt32.ofNat (path.map fun v => coverEntries len (nodeEntries v)).sum
        else s.1,
        s.2 + UInt16.ofNat (path.map fun v => matchSum len as (nodeEntries v)).sum) := by
  induction path with
  | nil => cases isNew <;> simp
  | cons v path ih =>
    rw [List.foldr_cons, ih]
    simp only [List.map_cons, List.sum_cons]
    generalize (path.map fun v => coverEntries len (nodeEntries v)).sum = m
    generalize (path.map fun v => matchSum len as (nodeEntries v)).sum = n
    unfold nodeEntries
    cases v.data with
    | none => simp [coverEntries, matchSum]
    | some pc =>
      rw [Option.elim_some, Option.elim_some, coverCounts_eq, UInt32.ofNat_add,
        UInt16.ofNat_add, UInt16.add_assoc, UInt16.add_comm (UInt16.ofNat n)]
      cases isNew with
      | false => rfl
      | true => simp only [if_true, UInt32.add_assoc, UInt32.add_comm (UInt32.ofNat m)]

/-- The coverage of a new prefix after the whole way up. -/
theorem foldr_checkCoverage {len : Nat} (path : List TreeNode) (coverage : UInt32) :
    path.foldr (fun v s => v.data.elim s fun pc => (roaEntries pc.asn).foldl (fun coverage e =>
      if len ≤ e.2.maxLen.toNat then coverage + e.2.roaCount.toUInt32 else coverage) s) coverage =
      coverage + UInt32.ofNat (path.map fun v => coverSum len (nodeEntries v)).sum := by
  induction path with
  | nil => simp
  | cons v path ih =>
    rw [List.foldr_cons, ih]
    simp only [List.map_cons, List.sum_cons]
    generalize (path.map fun v => coverSum len (nodeEntries v)).sum = m
    unfold nodeEntries
    cases v.data with
    | none => simp [coverSum]
    | some pc =>
      rw [Option.elim_some, Option.elim_some, checkCoverage_fold, UInt32.ofNat_add,
        UInt32.add_assoc, UInt32.add_comm (UInt32.ofNat m)]

/-- If no ROA covers the prefix, there is nothing to count. -/
theorem coverCounts_self {isNew : Bool} {len : Nat} {asn : List PcAs}
    (hnone : ∀ e ∈ roaEntries asn, ¬ len ≤ e.2.maxLen.toNat) (s : UInt32 × UInt16) :
    coverCounts isNew len as asn s = s := by
  rw [coverCounts]
  generalize roaEntries asn = es at hnone
  induction es generalizing s with
  | nil => rfl
  | cons e es ih =>
    rw [List.foldl_cons, if_neg (hnone e List.mem_cons_self)]
    exact ih s fun e he => hnone e (List.mem_cons_of_mem _ he)

end TreeLemmas

end SrxSuite.Cache

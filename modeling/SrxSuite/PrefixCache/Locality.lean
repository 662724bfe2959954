import SrxSuite.Lib.TrieAgree
import SrxSuite.PrefixCache.Tree

/-!
# A call is local

What a call for a prefix reads and changes: only the prefixes above and below it (`Near`), and
only updates of these are reported.

* `step_reports`: the results reported before do not matter.
* `step_congr`: nor does the rest of the tree.
* `step_near`: the rest of the tree is not changed, a node without a prefix gets none unless the
  call is for it, and the reports are about updates in the lists near the prefix.

None of this needs the invariants of the cache: it holds in every state.
-/

namespace SrxSuite.Cache

open Util TreeLemmas

/-- The prefix of a call. -/
def Op.ipPrefix : Op → IPPrefix
  | .add _ p _ _ _ => p
  | .del _ p _ _ _ => p
  | .request _ p _ => p

/-- Above or below a key. -/
def Near (k u : List Bool) : Prop := u <+: k ∨ k <+: u

/-- The trees agree near a key. -/
def AgreeNear (k : List Bool) (t₁ t₂ : PrefixTree) : Prop :=
  ∀ u, Near k u → nodeAt t₁ u = nodeAt t₂ u

/-! ## Reports are only appended -/

namespace LocalityLemmas

section Reports

variable (R : List Report)

/-- The state of a walk with earlier reports. -/
def afterWalk (w : WalkState) : WalkState := { w with reports := R ++ w.reports }

def afterMove (s : MoveState) : MoveState := { s with reports := R ++ s.reports }

theorem moveMatchedLoop_after (suppress : Bool) (fuel : Nat) (cur : Option Nat)
    (nodes : SListMem PcUpdate) (valid other : SList) (prev : Option Nat) (roa : PcRoa)
    (reports : List Report) :
    moveMatchedLoop suppress fuel cur ⟨nodes, valid, other, prev, roa, R ++ reports⟩ =
      (moveMatchedLoop suppress fuel cur ⟨nodes, valid, other, prev, roa, reports⟩).map
        (afterMove R) := by
  induction fuel generalizing cur nodes valid other prev roa reports with
  | zero => cases cur <;> rfl
  | succ fuel ih =>
    cases cur with
    | none => rfl
    | some a =>
      simp only [moveMatchedLoop, Option.bind_eq_bind]
      cases nodes.cells a with
      | none => rfl
      | some node =>
        simp only [Option.bind_some]
        by_cases has : node.data.as = roa.as
        · simp only [if_pos has]
          rcases moveNode (nodes.write a { node with data := { node.data with
            roaMatch := node.data.roaMatch + 1 } }) other valid prev a with
            _ | ⟨nodes', other', valid'⟩
          · rfl
          · simp only [Option.bind_some]
            rw [List.append_assoc]
            exact ih ..
        · simp only [if_neg has]
          exact ih ..

theorem moveToOtherLoop_after (suppress : Bool) (state : SrxResult) (fuel : Nat)
    (cur : Option Nat) (nodes : SListMem PcUpdate) (valid other : SList) (prev : Option Nat)
    (roa : PcRoa) (reports : List Report) :
    moveToOtherLoop suppress state fuel cur ⟨nodes, valid, other, prev, roa, R ++ reports⟩ =
      (moveToOtherLoop suppress state fuel cur ⟨nodes, valid, other, prev, roa, reports⟩).map
        (afterMove R) := by
  induction fuel generalizing cur nodes valid other prev roa reports with
  | zero => cases cur <;> rfl
  | succ fuel ih =>
    cases cur with
    | none => rfl
    | some a =>
      simp only [moveToOtherLoop, Option.bind_eq_bind]
      by_cases hzero : roa.updateCount = 0
      · simp only [if_pos hzero]
        rfl
      · simp only [if_neg hzero]
        cases nodes.cells a with
        | none => rfl
        | some node =>
          simp only [Option.bind_some]
          by_cases has : node.data.as = roa.as
          · simp only [if_pos has]
            by_cases hlast : node.data.roaMatch - 1 = 0
            · simp only [if_pos hlast]
              rcases moveNode (nodes.write a { node with data := { node.data with
                roaMatch := node.data.roaMatch - 1 } }) valid other prev a with
                _ | ⟨nodes', valid', other'⟩
              · rfl
              · simp only [Option.bind_some]
                rw [List.append_assoc]
                exact ih ..
            · simp only [if_neg hlast]
              exact ih ..
          · simp only [if_neg has]
            exact ih ..

theorem changeStateOfOther_after (suppress : Bool) (state : SrxResult) (pc : PcPrefix)
    (w : WalkState) : changeStateOfOther suppress state pc (afterWalk R w) =
      (changeStateOfOther suppress state pc w).map fun r => (r.1, afterWalk R r.2) := by
  simp only [changeStateOfOther, afterWalk, Option.bind_eq_bind]
  rw [foreach_map (g := fun rs => R ++ rs) (fun d s => by simp)]
  rcases foreach _ pc.nodes.fresh pc.nodes pc.other.root w.reports with _ | ⟨nodes, reports⟩ <;> rfl

theorem countMatched_after (pc : PcPrefix) (w : WalkState) :
    countMatched pc (afterWalk R w) = (countMatched pc w).map fun r => (r.1, afterWalk R r.2) := by
  obtain ⟨roa, reports⟩ := w
  show countMatched pc ⟨roa, R ++ reports⟩ = (countMatched pc ⟨roa, reports⟩).map _
  simp only [countMatched, Option.bind_eq_bind]
  rcases foreach _ pc.nodes.fresh pc.nodes pc.valid.root roa.updateCount with _ | ⟨nodes, count⟩
  · rfl
  · rfl

theorem moveMatchedUpdatesToValid_after (suppress : Bool) (pc : PcPrefix) (w : WalkState) :
    moveMatchedUpdatesToValid suppress pc (afterWalk R w) =
      (moveMatchedUpdatesToValid suppress pc w).map fun r => (r.1, afterWalk R r.2) := by
  simp only [moveMatchedUpdatesToValid, afterWalk, Option.bind_eq_bind]
  rw [moveMatchedLoop_after]
  rcases moveMatchedLoop suppress pc.nodes.fresh pc.other.root
    ⟨pc.nodes, pc.valid, pc.other, none, w.roa, w.reports⟩ with _ | s <;> rfl

theorem moveToOther_after (suppress : Bool) (pc : PcPrefix) (w : WalkState) :
    moveToOther suppress pc (afterWalk R w) =
      (moveToOther suppress pc w).map fun r => (r.1, afterWalk R r.2) := by
  simp only [moveToOther, afterWalk, Option.bind_eq_bind]
  rw [moveToOtherLoop_after]
  rcases moveToOtherLoop suppress pc.stateOfOther pc.nodes.fresh pc.valid.root
    ⟨pc.nodes, pc.valid, pc.other, none, w.roa, w.reports⟩ with _ | s <;> rfl

theorem verifyUpdates_after (suppress : Bool) (len : Nat) (p : Unit) (pc : PcPrefix)
    (w : WalkState) : verifyUpdates suppress len p pc (afterWalk R w) =
      (verifyUpdates suppress len p pc w).map fun r => (r.1, afterWalk R r.2.1, r.2.2) := by
  have hroa : (afterWalk R w).roa = w.roa := rfl
  simp only [verifyUpdates, hroa, Option.bind_eq_bind]
  split
  · rw [countMatched_after]
    rcases countMatched { pc with roaCoverage := pc.roaCoverage + 1 } w with _ | ⟨pc₁, w₁⟩
    · rfl
    · simp only [Option.map_some, Option.bind_some]
      rw [moveMatchedUpdatesToValid_after]
      rcases moveMatchedUpdatesToValid suppress pc₁ w₁ with _ | ⟨pc₂, w₂⟩
      · rfl
      · simp only [Option.map_some, Option.bind_some]
        split
        · rw [changeStateOfOther_after]
          rcases changeStateOfOther suppress .invalid pc₂ w₂ with _ | ⟨pc₃, w₃⟩ <;> rfl
        · rfl
  · split
    · rw [changeStateOfOther_after]
      rcases changeStateOfOther suppress .invalid pc w with _ | ⟨pc₁, w₁⟩ <;> rfl
    · rfl

theorem validateUpdates_after (suppress : Bool) (len : Nat) (p : SrxResult) (pc : PcPrefix)
    (w : WalkState) : validateUpdates suppress len p pc (afterWalk R w) =
      (validateUpdates suppress len p pc w).map fun r => (r.1, afterWalk R r.2.1, r.2.2) := by
  have hroa : (afterWalk R w).roa = w.roa := rfl
  have hmove (pc : PcPrefix) (w : WalkState) :
      ((moveToOther suppress pc (afterWalk R w)).bind fun r =>
        some (r.1, r.2, some r.1.stateOfOther)) =
      ((moveToOther suppress pc w).bind fun r => some (r.1, r.2, some r.1.stateOfOther)).map
        fun r => (r.1, afterWalk R r.2.1, r.2.2) := by
    rw [moveToOther_after]
    rcases moveToOther suppress pc w with _ | ⟨pc₁, w₁⟩ <;> rfl
  simp only [validateUpdates, hroa, Option.bind_eq_bind]
  split
  · split
    · rw [changeStateOfOther_after]
      rcases changeStateOfOther suppress .notFound
        { pc with roaCoverage := pc.roaCoverage - 1 } w with _ | ⟨pc₁, w₁⟩
      · rfl
      · exact hmove pc₁ w₁
    · exact hmove _ w
  · split
    · rw [changeStateOfOther_after]
      rcases changeStateOfOther suppress .notFound pc w with _ | ⟨pc₁, w₁⟩ <;> rfl
    · rfl

theorem visitData_after {π : Type}
    {f : Nat → π → PcPrefix → WalkState → Option (PcPrefix × WalkState × Option π)}
    (hf : ∀ d p pc w, f d p pc (afterWalk R w) =
      (f d p pc w).map fun r => (r.1, afterWalk R r.2.1, r.2.2))
    (d : Nat) (p : π) (v : TreeNode) (w : WalkState) :
    visitData f d p v (afterWalk R w) =
      (visitData f d p v w).map fun r => (r.1, afterWalk R r.2.1, r.2.2) := by
  rcases v with _ | (_ | pc)
  · rfl
  · rfl
  · simp only [visitData, hf]
    rcases f d p pc w with _ | r <;> rfl

theorem atSub_map {κ α σ : Type} [DecidableEq κ] {g h : Trie κ α → Option (Trie κ α × σ)}
    {F : σ → σ} (hg : ∀ t, h t = (g t).map fun r => (r.1, F r.2)) (t : Trie κ α) (w : List κ) :
    t.atSub h w = (t.atSub g w).map fun r => (r.1, F r.2) := by
  induction w generalizing t with
  | nil => cases t <;> simp [Trie.atSub, hg]
  | cons k w ih =>
    cases t with
    | null => rfl
    | node v c =>
      rw [Trie.atSub, Trie.atSub, ih]
      rcases (c k).atSub g w with _ | r <;> rfl

end Reports

end LocalityLemmas

open LocalityLemmas in
/-- The results reported before do not matter. -/
theorem step_reports (t : PrefixTree) (R : List Report) (op : Op) :
    step ⟨t, R⟩ op = (step ⟨t, []⟩ op).map fun c => ⟨c.prefixTree, R ++ c.reports⟩ := by
  cases op with
  | add originAS p maxLen valCacheID suppress =>
    simp only [step, addROAwl]
    split
    · simp
    · simp only [Option.bind_eq_bind]
      rcases findRoa (modifyRoas _ originAS _) originAS maxLen valCacheID with _ | roa
      · rfl
      · have hwalk := atSub_map (F := afterWalk R)
          (g := fun sub => sub.walk (visitData (verifyUpdates suppress)) p.key.length ()
            ⟨roa, []⟩)
          (h := fun sub => sub.walk (visitData (verifyUpdates suppress)) p.key.length ()
            ⟨roa, R⟩)
          (fun sub => by
            have := Trie.walk_map (visitData_after R (verifyUpdates_after R suppress)) sub
              p.key.length () ⟨roa, []⟩
            rw [afterWalk, List.append_nil] at this
            exact this)
        simp only [Option.bind_some, hwalk]
        rcases Trie.atSub _ _ p.key with _ | ⟨t', w⟩
        · rfl
        · simp only [Option.map_some, Option.bind_some]
          rcases (nodeAt t' p.key).data with _ | pc <;> rfl
  | del originAS p maxLen valCacheID suppress =>
    simp only [step, delROAwl]
    rcases (nodeAt t p.key).data with _ | pc
    · simp
    · simp only []
      rcases findRoa pc.asn originAS maxLen valCacheID with _ | roa
      · simp
      · have hwalk := atSub_map (F := afterWalk R)
          (g := fun sub => sub.walk (visitData (validateUpdates suppress)) p.key.length
            (parentState t p.key) ⟨roa, []⟩)
          (h := fun sub => sub.walk (visitData (validateUpdates suppress)) p.key.length
            (parentState t p.key) ⟨roa, R⟩)
          (fun sub => by
            have := Trie.walk_map (visitData_after R (validateUpdates_after R suppress)) sub
              p.key.length (parentState t p.key) ⟨roa, []⟩
            rw [afterWalk, List.append_nil] at this
            exact this)
        simp only [Option.bind_eq_bind, hwalk]
        rcases Trie.atSub _ t p.key with _ | ⟨t', w⟩
        · rfl
        · simp only [Option.map_some, Option.bind_some]
          rcases (nodeAt t' p.key).data with _ | pc' <;> rfl
  | request updateID p as =>
    have hknown (pc : PcPrefix) (isNew : Bool) :
        performUpdateValidationKnownPrefix ⟨t, R⟩ p.key pc updateID as isNew =
          (performUpdateValidationKnownPrefix ⟨t, []⟩ p.key pc updateID as isNew).map
            fun r => (r.1, ⟨r.2.prefixTree, R ++ r.2.reports⟩) := by
      simp only [performUpdateValidationKnownPrefix, Option.bind_eq_bind]
      rcases (nodeAt _ p.key).data with _ | pc'
      · rfl
      · simp only [Option.bind_some]
        rcases prefixNotCovered _ _ with _ | ⟨pc'', report⟩ <;> rfl
    simp only [step, requestUpdateValidation]
    rcases nodeAt t p.key with _ | (_ | pc)
    · simp only [performUpdateValidationNewPrefix, hknown]
      rcases performUpdateValidationKnownPrefix ⟨t, []⟩ p.key _ updateID as true with _ | r <;> rfl
    · rfl
    · simp only []
      split
      · rw [hknown]
        rcases performUpdateValidationKnownPrefix ⟨t, []⟩ p.key pc updateID as false with _ | r <;>
          rfl
      · simp only [Option.bind_eq_bind]
        rcases appendDataToSList pc.nodes pc.other ⟨updateID, as, 0⟩ with _ | ⟨nodes, other⟩ <;> rfl

/-- A call, without the results reported before. -/
theorem step_inv {c c' : PrefixCache} {op : Op} (hstep : step c op = some c') :
    ∃ c₁, step ⟨c.prefixTree, []⟩ op = some c₁ ∧
      c' = ⟨c₁.prefixTree, c.reports ++ c₁.reports⟩ := by
  rw [show c = ⟨c.prefixTree, c.reports⟩ from rfl, step_reports] at hstep
  obtain ⟨c₁, hc₁, rfl⟩ := Option.map_eq_some_iff.mp hstep
  exact ⟨c₁, hc₁, rfl⟩

/-! ## The rest of the tree does not matter -/

namespace LocalityLemmas

variable {t t₁ t₂ : PrefixTree} {k u : List Bool}

theorem nodeAt_setData (t : PrefixTree) (k u : List Bool) (data : Option PcPrefix) :
    nodeAt (setData t k data) u = if u = k then .entry data else nodeAt t u := by
  rw [nodeAt, setData, Trie.get?_insertWith]
  split
  · rfl
  · split
    · rfl
    · rfl

theorem nodeAt_patriciaLookup (t : PrefixTree) (k u : List Bool) :
    nodeAt (patriciaLookup t k) u =
      if u = k then .entry (nodeAt t k).data else nodeAt t u := by
  rw [nodeAt, patriciaLookup, Trie.get?_insertWith]
  split
  · rw [Option.getD_some]
    show _ = TreeNode.entry ((t.get? k).getD .glue).data
    rcases (t.get? k).getD .glue with _ | data <;> rfl
  · split
    · rfl
    · rfl

theorem get?_setData (t : PrefixTree) (k : List Bool) (data : Option PcPrefix) :
    ((setData t k data).get? k).isSome := by
  rw [setData, Trie.get?_insertWith, if_pos rfl]
  rfl

theorem near_self : Near k k := .inl List.prefix_rfl

theorem agree_setData (hagree : AgreeNear k t₁ t₂) (data : Option PcPrefix) :
    AgreeNear k (setData t₁ k data) (setData t₂ k data) := by
  intro u hu
  rw [nodeAt_setData, nodeAt_setData, hagree u hu]

theorem parentState_congr (hagree : AgreeNear k t₁ t₂) : parentState t₁ k = parentState t₂ k := by
  have hdata (j : List Bool) (hj : j <+: k) : dataAt t₁ j = dataAt t₂ j := by
    rw [dataAt, dataAt, hagree j (.inl hj)]
  have hparent : getParent t₁ k = getParent t₂ k := by
    have h₁ := getParent_spec t₁ k
    have h₂ := getParent_spec t₂ k
    cases hp₁ : getParent t₁ k with
    | none =>
      rw [hp₁] at h₁
      cases hp₂ : getParent t₂ k with
      | none => rfl
      | some pc₂ =>
        rw [hp₂] at h₂
        obtain ⟨j, hj, hne, hpc, -⟩ := h₂
        exact absurd ((hdata j hj).symm.trans (h₁ j hj hne)) (by simp [hpc])
    | some pc₁ =>
      rw [hp₁] at h₁
      obtain ⟨j₁, hj₁, hne₁, hpc₁, hnear₁⟩ := h₁
      cases hp₂ : getParent t₂ k with
      | none =>
        rw [hp₂] at h₂
        exact absurd ((hdata j₁ hj₁).trans (h₂ j₁ hj₁ hne₁)) (by simp [hpc₁])
      | some pc₂ =>
        -- Both are the nearest, so they are at the same key.
        rw [hp₂] at h₂
        obtain ⟨j₂, hj₂, hne₂, hpc₂, hnear₂⟩ := h₂
        have h12 := hnear₂ j₁ hj₁ hne₁ (by rw [← hdata j₁ hj₁, hpc₁]; simp)
        have h21 := hnear₁ j₂ hj₂ hne₂ (by rw [hdata j₂ hj₂, hpc₂]; simp)
        obtain rfl := h12.eq_of_length_le h21.length_le
        exact hpc₁.symm.trans ((hdata j₁ hj₁).trans hpc₂)
  rw [parentState, parentState, hparent]

theorem agree_climb {σ : Type} (hagree : AgreeNear k t₁ t₂)
    (f : PcPrefix → σ → PcPrefix × σ × Bool) (s : σ) :
    (t₁.climb (climbData f) k s).2 = (t₂.climb (climbData f) k s).2 ∧
      AgreeNear k (t₁.climb (climbData f) k s).1 (t₂.climb (climbData f) k s).1 := by
  obtain ⟨hstate, hpath⟩ := Trie.climb_congr (a := TreeNode.glue) (f := climbData f)
    (fun _ => rfl) (fun u hu => hagree u (.inl hu)) s
  refine ⟨hstate, fun u hu => ?_⟩
  by_cases huk : u <+: k
  · exact hpath u huk
  · have hoff (t : PrefixTree) : nodeAt (t.climb (climbData f) k s).1 u = nodeAt t u := by
      have hrel := Trie.climb_rel (f := climbData f) (ρ := fun _ _ => True) (fun _ => trivial)
        (fun _ _ => trivial) t k s u
      rw [nodeAt, hrel.2 huk]
      rfl
    rw [hoff, hoff]
    exact hagree u hu

theorem agree_walk {π : Type}
    {f : Nat → π → PcPrefix → WalkState → Option (PcPrefix × WalkState × Option π)}
    (hagree : AgreeNear k t₁ t₂) (h₁ : (t₁.get? k).isSome) (h₂ : (t₂.get? k).isSome) {p : π}
    {s s' : WalkState} {t₁' : PrefixTree}
    (hwalk : t₁.atSub (fun sub => sub.walk (visitData f) k.length p s) k = some (t₁', s')) :
    ∃ t₂', t₂.atSub (fun sub => sub.walk (visitData f) k.length p s) k = some (t₂', s') ∧
      AgreeNear k t₁' t₂' := by
  obtain ⟨sub₁', hsub₁, hget₁⟩ := Trie.atSub_inv h₁ hwalk
  have hsub (u : List Bool) : (t₁.sub k).valAt .glue u = (t₂.sub k).valAt .glue u := by
    rw [Trie.valAt_sub, Trie.valAt_sub]
    exact hagree (k ++ u) (.inr (List.prefix_append ..))
  obtain ⟨sub₂', hsub₂, hval⟩ := Trie.walk_congr (a := TreeNode.glue)
    (fun _ _ _ => rfl) hsub hsub₁
  obtain ⟨t₂', hat₂, hget₂⟩ := Trie.atSub_eq
    (g := fun sub => sub.walk (visitData f) k.length p s) h₂ hsub₂
  refine ⟨t₂', hat₂, fun u hu => ?_⟩
  rw [nodeAt, nodeAt, hget₁, hget₂]
  split
  · exact hval _
  · exact hagree u hu

section Calls

variable {t₁ t₂ : PrefixTree} {c₁ : PrefixCache} {p : IPPrefix}

theorem congr_add {originAS : UInt32} {maxLen : UInt8} {valCacheID : UInt32} {suppress : Bool}
    (hagree : AgreeNear p.key t₁ t₂)
    (hstep : step ⟨t₁, []⟩ (.add originAS p maxLen valCacheID suppress) = some c₁) :
    ∃ t₂', step ⟨t₂, []⟩ (.add originAS p maxLen valCacheID suppress) = some ⟨t₂', c₁.reports⟩ ∧
      AgreeNear p.key c₁.prefixTree t₂' := by
  have hcreate : createPrefix t₁ p.key = createPrefix t₂ p.key := by
    rw [createPrefix, createPrefix, parentState_congr hagree,
      (agree_climb hagree (checkCoverage p.key.length) 0).1]
  simp only [step, addROAwl] at hstep ⊢
  split at hstep
  · next hrfc =>
    obtain rfl := Option.some.inj hstep
    exact ⟨t₂, by simp [hrfc], hagree⟩
  · next hrfc =>
    simp only [Option.bind_eq_bind, Option.map_eq_some_iff, Option.bind_eq_some_iff] at hstep
    obtain ⟨r, ⟨roa, hroa, ⟨t', w⟩, hwalk, pc', hpc', hr⟩, rfl⟩ := hstep
    obtain rfl := Option.some.inj hr
    rw [hagree p.key near_self, hcreate] at hroa hwalk
    obtain ⟨t₂', hwalk₂, hagree'⟩ := agree_walk (agree_setData hagree _) (get?_setData ..)
      (get?_setData ..) hwalk
    rw [hagree' p.key near_self] at hpc'
    refine ⟨_, ?_, agree_setData hagree' _⟩
    simp only [if_neg hrfc, Option.bind_eq_bind, hroa, Option.bind_some, hwalk₂, hpc',
      Option.map_some]

theorem congr_del {originAS : UInt32} {maxLen : UInt8} {valCacheID : UInt32} {suppress : Bool}
    (hagree : AgreeNear p.key t₁ t₂)
    (hstep : step ⟨t₁, []⟩ (.del originAS p maxLen valCacheID suppress) = some c₁) :
    ∃ t₂', step ⟨t₂, []⟩ (.del originAS p maxLen valCacheID suppress) = some ⟨t₂', c₁.reports⟩ ∧
      AgreeNear p.key c₁.prefixTree t₂' := by
  simp only [step, delROAwl] at hstep ⊢
  rw [hagree p.key near_self] at hstep
  cases hpc : (nodeAt t₂ p.key).data with
  | none =>
    rw [hpc] at hstep
    obtain rfl := Option.some.inj hstep
    refine ⟨_, rfl, fun u hu => ?_⟩
    rw [nodeAt_patriciaLookup, nodeAt_patriciaLookup, hagree p.key near_self, hagree u hu]
  | some pc =>
    rw [hpc] at hstep
    simp only [] at hstep ⊢
    cases hfind : findRoa pc.asn originAS maxLen valCacheID with
    | none =>
      rw [hfind] at hstep
      obtain rfl := Option.some.inj hstep
      exact ⟨t₂, rfl, hagree⟩
    | some roa =>
      rw [hfind] at hstep
      simp only [Option.bind_eq_bind, Option.map_eq_some_iff, Option.bind_eq_some_iff] at hstep
      obtain ⟨r, ⟨⟨t', w⟩, hwalk, pc', hpc', hr⟩, rfl⟩ := hstep
      obtain rfl := Option.some.inj hr
      rw [parentState_congr hagree] at hwalk
      have h₂ : (t₂.get? p.key).isSome := by
        rw [get?_of_dataAt hpc]
        rfl
      have h₁ : (t₁.get? p.key).isSome := by
        have hpc₁ : dataAt t₁ p.key = some pc := by rw [dataAt, hagree p.key near_self, hpc]
        rw [get?_of_dataAt hpc₁]
        rfl
      obtain ⟨t₂', hwalk₂, hagree'⟩ := agree_walk hagree h₁ h₂ hwalk
      rw [hagree' p.key near_self] at hpc'
      refine ⟨_, ?_, agree_setData hagree' _⟩
      simp only [Option.bind_eq_bind, Option.bind_some, hwalk₂, hpc', Option.map_some]

theorem congr_knownPrefix {updateID as : UInt32} (hagree : AgreeNear p.key t₁ t₂) (pc : PcPrefix)
    (isNew : Bool) {r : Bool × PrefixCache}
    (hr : performUpdateValidationKnownPrefix ⟨t₁, []⟩ p.key pc updateID as isNew = some r) :
    ∃ t₂', performUpdateValidationKnownPrefix ⟨t₂, []⟩ p.key pc updateID as isNew =
      some (r.1, ⟨t₂', r.2.reports⟩) ∧ AgreeNear p.key r.2.prefixTree t₂' := by
  obtain ⟨hstate, hclimb⟩ := agree_climb (agree_setData hagree (some { pc with
    asn := countUpdate pc.asn as })) (coverStep isNew p.key.length as) (pc.roaCoverage, 0)
  rw [performUpdateValidationKnownPrefix] at hr ⊢
  rcases h₁ : (setData t₁ p.key (some { pc with asn := countUpdate pc.asn as })).climb
    (climbData (coverStep isNew p.key.length as)) p.key (pc.roaCoverage, 0) with ⟨s₁, counts₁⟩
  rcases h₂ : (setData t₂ p.key (some { pc with asn := countUpdate pc.asn as })).climb
    (climbData (coverStep isNew p.key.length as)) p.key (pc.roaCoverage, 0) with ⟨s₂, counts₂⟩
  rw [h₁, h₂] at hstate hclimb
  rw [h₁] at hr
  have hclimb : AgreeNear p.key s₁ s₂ := hclimb
  obtain rfl : counts₁ = counts₂ := hstate
  simp only [Option.bind_eq_bind, Option.bind_eq_some_iff] at hr
  obtain ⟨pc', hpc', ⟨pc'', report⟩, hput, hr⟩ := hr
  obtain rfl := Option.some.inj hr
  rw [hclimb p.key near_self] at hpc'
  refine ⟨_, ?_, agree_setData hclimb _⟩
  simp only [Option.bind_eq_bind, hpc', Option.bind_some, hput]

theorem congr_request {updateID as : UInt32} (hagree : AgreeNear p.key t₁ t₂)
    (hstep : step ⟨t₁, []⟩ (.request updateID p as) = some c₁) :
    ∃ t₂', step ⟨t₂, []⟩ (.request updateID p as) = some ⟨t₂', c₁.reports⟩ ∧
      AgreeNear p.key c₁.prefixTree t₂' := by
  simp only [step, requestUpdateValidation] at hstep ⊢
  rw [hagree p.key near_self] at hstep
  rcases hnode : nodeAt t₂ p.key with _ | (_ | pc)
  · rw [hnode] at hstep
    simp only [performUpdateValidationNewPrefix, parentState_congr hagree,
      Option.map_eq_some_iff] at hstep ⊢
    obtain ⟨r, hr, rfl⟩ := hstep
    obtain ⟨t₂', h₂, hagree'⟩ := congr_knownPrefix hagree _ _ hr
    exact ⟨t₂', ⟨_, h₂, rfl⟩, hagree'⟩
  · simp [hnode] at hstep
  · rw [hnode] at hstep
    simp only [] at hstep ⊢
    split at hstep
    · next hcov =>
      obtain ⟨r, hr, rfl⟩ := Option.map_eq_some_iff.mp hstep
      obtain ⟨t₂', h₂, hagree'⟩ := congr_knownPrefix hagree _ _ hr
      exact ⟨t₂', by rw [if_pos hcov, h₂]; rfl, hagree'⟩
    · next hcov =>
      simp only [Option.bind_eq_bind, Option.map_eq_some_iff, Option.bind_eq_some_iff] at hstep
      obtain ⟨r, ⟨⟨nodes, other⟩, happend, hr⟩, rfl⟩ := hstep
      obtain rfl := Option.some.inj hr
      refine ⟨_, ?_, agree_setData hagree _⟩
      rw [if_neg hcov]
      simp only [Option.bind_eq_bind, happend, Option.bind_some, Option.map_some]

end Calls

end LocalityLemmas

open LocalityLemmas in
/-- A call reads the tree near its prefix only. -/
theorem step_congr {t₁ t₂ : PrefixTree} {op : Op} {c₁ : PrefixCache}
    (hagree : AgreeNear op.ipPrefix.key t₁ t₂) (hstep : step ⟨t₁, []⟩ op = some c₁) :
    ∃ t₂', step ⟨t₂, []⟩ op = some ⟨t₂', c₁.reports⟩ ∧
      AgreeNear op.ipPrefix.key c₁.prefixTree t₂' := by
  cases op with
  | add originAS p maxLen valCacheID suppress => exact congr_add hagree hstep
  | del originAS p maxLen valCacheID suppress => exact congr_del hagree hstep
  | request updateID p as => exact congr_request hagree hstep

/-! ## The rest of the tree is not changed -/

/-- The flag with which a call reports. -/
def Op.suppress : Op → Bool
  | .add _ _ _ _ suppress => suppress
  | .del _ _ _ _ suppress => suppress
  | .request _ _ _ => false

/-- The updates in the lists of a node have ids in `P`. -/
def TreeNode.IdsIn (P : UInt32 → Prop) (n : TreeNode) : Prop :=
  ∀ pc, n = .entry (some pc) → pc.nodes.AllData fun u => P u.updateID

/-- The updates in the lists near a key have ids in `P`. -/
def NearIds (P : UInt32 → Prop) (k : List Bool) (t : PrefixTree) : Prop :=
  ∀ u, Near k u → (nodeAt t u).IdsIn P

/-- The reports are about updates with ids in `P` and suppressed as `suppress` says. -/
def ReportsIn (P : UInt32 → Prop) (suppress : Bool) (reports : List Report) : Prop :=
  ∀ r ∈ reports, P r.updateID ∧ r.suppressNotification = suppress

/-- A change of the tree at a key: nothing happens to nodes that are not near, no other node
without a prefix gets one, and no other prefix loses its data. -/
structure ChangesNear (k : List Bool) (t t' : PrefixTree) : Prop where
  far : ∀ u, ¬ Near k u → nodeAt t' u = nodeAt t u
  glue : ∀ u, u ≠ k → nodeAt t u = .glue → nodeAt t' u = .glue
  null : ∀ u, u ≠ k → nodeAt t' u = .entry none → nodeAt t u = .entry none

/-- What the visits of a walk do to a node. -/
structure NodeKept (P : UInt32 → Prop) (n n' : TreeNode) : Prop where
  glue : n = .glue → n' = .glue
  null : n' = .entry none → n = .entry none
  ids : n.IdsIn P → n'.IdsIn P

theorem NodeKept.refl {P : UInt32 → Prop} (n : TreeNode) : NodeKept P n n :=
  ⟨fun h => h, fun h => h, fun h => h⟩

theorem NodeKept.entry {P : UInt32 → Prop} {pc pc' : PcPrefix}
    (h : (TreeNode.entry (some pc)).IdsIn P → (TreeNode.entry (some pc')).IdsIn P) :
    NodeKept P (.entry (some pc)) (.entry (some pc')) :=
  ⟨fun h => (by cases h), fun h => (by cases h), h⟩

theorem ChangesNear.refl {k : List Bool} {t : PrefixTree} : ChangesNear k t t :=
  ⟨fun _ _ => rfl, fun _ _ h => h, fun _ _ h => h⟩

theorem ChangesNear.trans {k : List Bool} {t t' t'' : PrefixTree} (h₁ : ChangesNear k t t')
    (h₂ : ChangesNear k t' t'') : ChangesNear k t t'' :=
  ⟨fun u hu => (h₂.far u hu).trans (h₁.far u hu), fun u hu hg => h₂.glue u hu (h₁.glue u hu hg),
    fun u hu hn => h₁.null u hu (h₂.null u hu hn)⟩

namespace LocalityLemmas

variable {P : UInt32 → Prop} {t t' : PrefixTree} {k u : List Bool}

theorem changesNear_setData (t : PrefixTree) (k : List Bool) (data : Option PcPrefix) :
    ChangesNear k t (setData t k data) := by
  constructor
  · intro u hu
    have huk : u ≠ k := by
      rintro rfl
      exact hu near_self
    rw [nodeAt_setData, if_neg huk]
  · intro u hu hg
    rw [nodeAt_setData, if_neg hu, hg]
  · intro u hu hn
    rwa [nodeAt_setData, if_neg hu] at hn

theorem idsIn_of_data {n : TreeNode} {pc : PcPrefix} (h : n.IdsIn P) (hpc : n.data = some pc) :
    pc.nodes.AllData fun u => P u.updateID := by
  rcases n with _ | data
  · cases hpc
  · exact h pc (by rw [show data = some pc from hpc])

theorem idsIn_entry {pc : PcPrefix} (h : pc.nodes.AllData fun u => P u.updateID) :
    (TreeNode.entry (some pc)).IdsIn P := by
  intro pc' heq
  cases heq
  exact h

theorem idsIn_entry_none : (TreeNode.entry none).IdsIn P := by
  intro pc heq
  cases heq

theorem nearIds_setData (h : NearIds P k t) {data : Option PcPrefix}
    (hdata : (TreeNode.entry data).IdsIn P) : NearIds P k (setData t k data) := by
  intro u hu
  rw [nodeAt_setData]
  split
  · exact hdata
  · exact h u hu

theorem reportsIn_append {suppress : Bool} {reports : List Report}
    (h : ReportsIn P suppress reports) {r : Report} (hr : P r.updateID)
    (hsuppress : r.suppressNotification = suppress) : ReportsIn P suppress (reports ++ [r]) := by
  intro r' hr'
  rcases List.mem_append.mp hr' with hr' | hr'
  · exact h r' hr'
  · obtain rfl := List.mem_singleton.mp hr'
    exact ⟨hr, hsuppress⟩

/-- A climb keeps the lists. -/
theorem climb_near {σ : Type} {f : PcPrefix → σ → PcPrefix × σ × Bool}
    (hf : ∀ pc s, (f pc s).1.nodes = pc.nodes) (h : NearIds P k t) (s : σ) :
    ChangesNear k t (t.climb (climbData f) k s).1 ∧
      NearIds P k (t.climb (climbData f) k s).1 := by
  have hvisit (v : TreeNode) (s : σ) : NodeKept P v (climbData f v s).1 := by
    rcases v with _ | (_ | pc)
    · exact .refl _
    · exact .refl _
    · refine .entry fun h => idsIn_entry ?_
      rw [hf]
      exact h pc rfl
  have hrel (u : List Bool) := Trie.climb_rel (ρ := NodeKept P) .refl hvisit t k s u
  have hnode (u : List Bool) :
      NodeKept P (nodeAt t u) (nodeAt (t.climb (climbData f) k s).1 u) := by
    by_cases hu : u <+: k
    · have := (hrel u).1 hu
      rw [nodeAt, nodeAt]
      generalize t.get? u = v at this ⊢
      generalize (t.climb (climbData f) k s).1.get? u = v' at this ⊢
      cases this with
      | none => exact .refl _
      | some h => exact h
    · rw [nodeAt, nodeAt, (hrel u).2 hu]
      exact .refl _
  refine ⟨⟨fun u hu => ?_, fun u _ hg => (hnode u).glue hg, fun u _ hn => (hnode u).null hn⟩,
    fun u hu => (hnode u).ids (h u hu)⟩
  rw [nodeAt, (hrel u).2 fun huk => hu (.inl huk)]
  rfl

/-- A walk whose visits keep the ids keeps them. -/
theorem walk_near {π : Type} {suppress : Bool}
    {f : Nat → π → PcPrefix → WalkState → Option (PcPrefix × WalkState × Option π)}
    (hf : ∀ d p pc w pc' w' next, f d p pc w = some (pc', w', next) →
      pc.nodes.AllData (fun u => P u.updateID) → ReportsIn P suppress w.reports →
      pc'.nodes.AllData (fun u => P u.updateID) ∧ ReportsIn P suppress w'.reports)
    (h : NearIds P k t) (hk : (t.get? k).isSome) {p : π} {w w' : WalkState}
    (hw : ReportsIn P suppress w.reports)
    (hwalk : t.atSub (fun sub => sub.walk (visitData f) k.length p w) k = some (t', w')) :
    ChangesNear k t t' ∧ NearIds P k t' ∧ ReportsIn P suppress w'.reports := by
  obtain ⟨sub', hsub, hget⟩ := Trie.atSub_inv hk hwalk
  have hsubIds (u : List Bool) (v : TreeNode) (hu : (t.sub k).get? u = some v) : v.IdsIn P := by
    rw [Trie.get?_sub] at hu
    have hids := h (k ++ u) (.inr (List.prefix_append ..))
    rw [nodeAt, hu] at hids
    exact hids
  obtain ⟨hreports, hrel⟩ := Trie.walk_rel (ρ := NodeKept P)
    (I := fun w => ReportsIn P suppress w.reports) .refl
    (fun d p u v w v' w' next hu hvisit hw => by
      rcases v with _ | (_ | pc)
      · obtain ⟨rfl, rfl, -⟩ := by simpa [visitData] using hvisit
        exact ⟨.refl _, hw⟩
      · obtain ⟨rfl, rfl, -⟩ := by simpa [visitData] using hvisit
        exact ⟨.refl _, hw⟩
      · obtain ⟨r, hr, heq⟩ := Option.map_eq_some_iff.mp hvisit
        obtain ⟨rfl, hrest⟩ := Prod.mk.inj heq
        obtain ⟨hids, hw'⟩ := hf d p pc w r.1 r.2.1 r.2.2 hr (hsubIds u _ hu pc rfl) hw
        rw [hrest] at hw'
        exact ⟨.entry fun _ => idsIn_entry hids, hw'⟩)
    hsub hw
  have hnode (u : List Bool) : NodeKept P (nodeAt t u) (nodeAt t' u) := by
    rw [nodeAt, nodeAt, hget]
    split
    · next hu =>
      obtain ⟨x, rfl⟩ := hu
      have := hrel x
      rw [Trie.get?_sub] at this
      rw [List.drop_left]
      generalize t.get? (k ++ x) = v at this ⊢
      generalize sub'.get? x = v' at this ⊢
      cases this with
      | none => exact .refl _
      | some h => exact h
    · exact .refl _
  refine ⟨⟨fun u hu => ?_, fun u _ hg => (hnode u).glue hg, fun u _ hn => (hnode u).null hn⟩,
    fun u hu => (hnode u).ids (h u hu), hreports⟩
  rw [nodeAt, hget, if_neg fun hku => hu (.inr hku)]
  rfl

/-! ## The updates that are reported -/

section Ids

theorem moveMatchedLoop_ids (suppress : Bool) {fuel : Nat} {cur : Option Nat} {s s' : MoveState}
    (hnodes : s.nodes.AllData fun u => P u.updateID) (hreports : ReportsIn P suppress s.reports)
    (hloop : moveMatchedLoop suppress fuel cur s = some s') :
    s'.nodes.AllData (fun u => P u.updateID) ∧ ReportsIn P suppress s'.reports := by
  induction fuel generalizing cur s with
  | zero =>
    cases cur with
    | none => exact Option.some.inj hloop ▸ ⟨hnodes, hreports⟩
    | some a => cases hloop
  | succ fuel ih =>
    cases cur with
    | none => exact Option.some.inj hloop ▸ ⟨hnodes, hreports⟩
    | some a =>
      simp only [moveMatchedLoop, Option.bind_eq_bind, Option.bind_eq_some_iff] at hloop
      obtain ⟨node, hcell, hloop⟩ := hloop
      have hid : P node.data.updateID := hnodes a node hcell
      split at hloop
      · simp only [Option.bind_eq_some_iff] at hloop
        obtain ⟨⟨nodes', other', valid'⟩, hmove, hloop⟩ := hloop
        have hwrite : (s.nodes.write a { node with data := { node.data with
            roaMatch := node.data.roaMatch + 1 } }).AllData fun u => P u.updateID :=
          hnodes.write hid
        exact ih (hwrite.moveNode hmove) (reportsIn_append hreports hid rfl) hloop
      · exact ih (s := { s with prevNode := some a }) hnodes hreports hloop

theorem moveToOtherLoop_ids (suppress : Bool) (state : SrxResult) {fuel : Nat} {cur : Option Nat}
    {s s' : MoveState} (hnodes : s.nodes.AllData fun u => P u.updateID)
    (hreports : ReportsIn P suppress s.reports)
    (hloop : moveToOtherLoop suppress state fuel cur s = some s') :
    s'.nodes.AllData (fun u => P u.updateID) ∧ ReportsIn P suppress s'.reports := by
  induction fuel generalizing cur s with
  | zero =>
    cases cur with
    | none => exact Option.some.inj hloop ▸ ⟨hnodes, hreports⟩
    | some a => cases hloop
  | succ fuel ih =>
    cases cur with
    | none => exact Option.some.inj hloop ▸ ⟨hnodes, hreports⟩
    | some a =>
      rw [moveToOtherLoop] at hloop
      split at hloop
      · exact Option.some.inj hloop ▸ ⟨hnodes, hreports⟩
      · simp only [Option.bind_eq_bind, Option.bind_eq_some_iff] at hloop
        obtain ⟨node, hcell, hloop⟩ := hloop
        have hid : P node.data.updateID := hnodes a node hcell
        have hwrite : (s.nodes.write a { node with data := { node.data with
            roaMatch := node.data.roaMatch - 1 } }).AllData fun u => P u.updateID :=
          hnodes.write hid
        split at hloop
        · split at hloop
          · simp only [Option.bind_eq_some_iff] at hloop
            obtain ⟨⟨nodes', valid', other'⟩, hmove, hloop⟩ := hloop
            exact ih (hwrite.moveNode hmove) (reportsIn_append hreports hid rfl) hloop
          · exact ih (s := { s with nodes := _, roa := _ }) hwrite hreports hloop
        · exact ih (s := { s with prevNode := some a }) hnodes hreports hloop

variable {suppress : Bool} {state : SrxResult} {pc pc' : PcPrefix} {w w' : WalkState}

theorem changeStateOfOther_ids (hpc : pc.nodes.AllData fun u => P u.updateID)
    (hw : ReportsIn P suppress w.reports) (h : changeStateOfOther suppress state pc w = some (pc', w')) :
    pc'.nodes.AllData (fun u => P u.updateID) ∧ ReportsIn P suppress w'.reports := by
  simp only [changeStateOfOther, Option.bind_eq_bind, Option.bind_eq_some_iff] at h
  obtain ⟨⟨nodes, reports⟩, hloop, h⟩ := h
  obtain ⟨rfl, rfl⟩ := Prod.mk.inj (Option.some.inj h)
  exact hpc.foreach (I := ReportsIn P suppress) (fun d s hd hs => ⟨hd, reportsIn_append hs hd rfl⟩) hw hloop

theorem countMatched_ids (hpc : pc.nodes.AllData fun u => P u.updateID)
    (hw : ReportsIn P suppress w.reports) (h : countMatched pc w = some (pc', w')) :
    pc'.nodes.AllData (fun u => P u.updateID) ∧ ReportsIn P suppress w'.reports := by
  simp only [countMatched, Option.bind_eq_bind, Option.bind_eq_some_iff] at h
  obtain ⟨⟨nodes, count⟩, hloop, h⟩ := h
  obtain ⟨rfl, rfl⟩ := Prod.mk.inj (Option.some.inj h)
  refine ⟨(hpc.foreach (I := fun _ => True) (fun d s hd _ => ⟨?_, trivial⟩) trivial hloop).1, hw⟩
  split
  · exact hd
  · exact hd

theorem moveMatchedUpdatesToValid_ids (hpc : pc.nodes.AllData fun u => P u.updateID)
    (hw : ReportsIn P suppress w.reports) (h : moveMatchedUpdatesToValid suppress pc w = some (pc', w')) :
    pc'.nodes.AllData (fun u => P u.updateID) ∧ ReportsIn P suppress w'.reports := by
  simp only [moveMatchedUpdatesToValid, Option.bind_eq_bind, Option.bind_eq_some_iff] at h
  obtain ⟨s, hloop, h⟩ := h
  obtain ⟨rfl, rfl⟩ := Prod.mk.inj (Option.some.inj h)
  exact moveMatchedLoop_ids suppress hpc hw hloop

theorem moveToOther_ids (hpc : pc.nodes.AllData fun u => P u.updateID)
    (hw : ReportsIn P suppress w.reports) (h : moveToOther suppress pc w = some (pc', w')) :
    pc'.nodes.AllData (fun u => P u.updateID) ∧ ReportsIn P suppress w'.reports := by
  simp only [moveToOther, Option.bind_eq_bind, Option.bind_eq_some_iff] at h
  obtain ⟨s, hloop, h⟩ := h
  obtain ⟨rfl, rfl⟩ := Prod.mk.inj (Option.some.inj h)
  exact moveToOtherLoop_ids suppress _ hpc hw hloop

theorem verifyUpdates_ids (suppress : Bool) (d : Nat) (p : Unit) (pc : PcPrefix) (w : WalkState)
    (pc' : PcPrefix) (w' : WalkState) (next : Option Unit)
    (h : verifyUpdates suppress d p pc w = some (pc', w', next))
    (hpc : pc.nodes.AllData fun u => P u.updateID) (hw : ReportsIn P suppress w.reports) :
    pc'.nodes.AllData (fun u => P u.updateID) ∧ ReportsIn P suppress w'.reports := by
  unfold verifyUpdates at h
  split at h
  · simp only [Option.bind_eq_bind, Option.bind_eq_some_iff] at h
    obtain ⟨⟨pc₁, w₁⟩, hcount, ⟨pc₂, w₂⟩, hmove, h⟩ := h
    have hpc₀ : ({ pc with roaCoverage := pc.roaCoverage + 1 } : PcPrefix).nodes.AllData
        fun u => P u.updateID := hpc
    obtain ⟨hpc₁, hw₁⟩ := countMatched_ids hpc₀ hw hcount
    obtain ⟨hpc₂, hw₂⟩ := moveMatchedUpdatesToValid_ids hpc₁ hw₁ hmove
    split at h
    · simp only [Option.bind_eq_some_iff] at h
      obtain ⟨⟨pc₃, w₃⟩, hchange, h⟩ := h
      obtain ⟨rfl, rfl, -⟩ := by simpa using h
      exact changeStateOfOther_ids hpc₂ hw₂ hchange
    · obtain ⟨rfl, rfl, -⟩ := by simpa using h
      exact ⟨hpc₂, hw₂⟩
  · split at h
    · simp only [Option.bind_eq_bind, Option.bind_eq_some_iff] at h
      obtain ⟨⟨pc₁, w₁⟩, hchange, h⟩ := h
      obtain ⟨rfl, rfl, -⟩ := by simpa using h
      exact changeStateOfOther_ids hpc hw hchange
    · obtain ⟨rfl, rfl, -⟩ := by simpa using h
      exact ⟨hpc, hw⟩

theorem validateUpdates_ids (suppress : Bool) (d : Nat) (p : SrxResult) (pc : PcPrefix)
    (w : WalkState) (pc' : PcPrefix) (w' : WalkState) (next : Option SrxResult)
    (h : validateUpdates suppress d p pc w = some (pc', w', next))
    (hpc : pc.nodes.AllData fun u => P u.updateID) (hw : ReportsIn P suppress w.reports) :
    pc'.nodes.AllData (fun u => P u.updateID) ∧ ReportsIn P suppress w'.reports := by
  unfold validateUpdates at h
  split at h
  · have hpc₀ : ({ pc with roaCoverage := pc.roaCoverage - 1 } : PcPrefix).nodes.AllData
        fun u => P u.updateID := hpc
    simp only [] at h
    split at h
    · simp only [Option.bind_eq_bind, Option.bind_eq_some_iff] at h
      obtain ⟨⟨pc₁, w₁⟩, hchange, ⟨pc₂, w₂⟩, hmove, h⟩ := h
      obtain ⟨rfl, rfl, -⟩ := by simpa using h
      obtain ⟨hpc₁, hw₁⟩ := changeStateOfOther_ids hpc₀ hw hchange
      exact moveToOther_ids hpc₁ hw₁ hmove
    · simp only [Option.bind_eq_bind, Option.bind_some, Option.bind_eq_some_iff] at h
      obtain ⟨⟨pc₂, w₂⟩, hmove, h⟩ := h
      obtain ⟨rfl, rfl, -⟩ := by simpa using h
      exact moveToOther_ids hpc₀ hw hmove
  · split at h
    · simp only [Option.bind_eq_bind, Option.bind_eq_some_iff] at h
      obtain ⟨⟨pc₁, w₁⟩, hchange, h⟩ := h
      obtain ⟨rfl, rfl, -⟩ := by simpa using h
      exact changeStateOfOther_ids hpc hw hchange
    · obtain ⟨rfl, rfl, -⟩ := by simpa using h
      exact ⟨hpc, hw⟩

theorem prefixNotCovered_ids {u : PcUpdate} {report : Report}
    (hpc : pc.nodes.AllData fun u => P u.updateID) (hu : P u.updateID)
    (h : prefixNotCovered pc u = some (pc', report)) :
    pc'.nodes.AllData (fun u => P u.updateID) ∧ P report.updateID ∧
      report.suppressNotification = false := by
  unfold prefixNotCovered at h
  split at h
  · simp only [Option.bind_eq_bind, Option.bind_eq_some_iff] at h
    obtain ⟨⟨nodes, other⟩, happend, h⟩ := h
    obtain ⟨rfl, rfl⟩ := Prod.mk.inj (Option.some.inj h)
    exact ⟨hpc.append hu happend, hu, rfl⟩
  · simp only [Option.bind_eq_bind, Option.bind_eq_some_iff] at h
    obtain ⟨⟨nodes, valid⟩, happend, h⟩ := h
    obtain ⟨rfl, rfl⟩ := Prod.mk.inj (Option.some.inj h)
    exact ⟨hpc.append hu happend, hu, rfl⟩

theorem coverStep_nodes (isNew : Bool) (len : Nat) (as : UInt32) (pc : PcPrefix)
    (s : UInt32 × UInt16) : (coverStep isNew len as pc s).1.nodes = pc.nodes := by
  unfold coverStep
  split
  · rfl
  · rfl

theorem knownPrefix_near {k : List Bool} {updateID as : UInt32} {isNew : Bool}
    {r : Bool × PrefixCache} (hids : NearIds P k t)
    (hpc : pc.nodes.AllData fun u => P u.updateID) (hid : P updateID)
    (h : performUpdateValidationKnownPrefix ⟨t, []⟩ k pc updateID as isNew = some r) :
    ChangesNear k t r.2.prefixTree ∧ NearIds P k r.2.prefixTree ∧
      ReportsIn P false r.2.reports := by
  have hentry : (TreeNode.entry (some { pc with asn := countUpdate pc.asn as })).IdsIn P :=
    idsIn_entry hpc
  have hset := nearIds_setData hids hentry
  obtain ⟨hchange, hids'⟩ := climb_near (coverStep_nodes isNew k.length as) hset (pc.roaCoverage, 0)
  rw [performUpdateValidationKnownPrefix] at h
  rcases hclimb : (setData t k (some { pc with asn := countUpdate pc.asn as })).climb
    (climbData (coverStep isNew k.length as)) k (pc.roaCoverage, 0) with ⟨t', counts⟩
  rw [hclimb] at h hchange hids'
  have hids' : NearIds P k t' := hids'
  simp only [Option.bind_eq_bind, Option.bind_eq_some_iff] at h
  obtain ⟨pc', hpc', ⟨pc'', report⟩, hput, h⟩ := h
  obtain rfl := Option.some.inj h
  have hnodes := idsIn_of_data (hids' k near_self) hpc'
  have hlist : ({ pc' with roaCoverage := counts.1.1 } : PcPrefix).nodes.AllData
      fun u => P u.updateID := hnodes
  obtain ⟨hput, hreport⟩ := prefixNotCovered_ids (u := ⟨updateID, as, counts.1.2⟩) hlist hid hput
  refine ⟨?_, nearIds_setData hids' (idsIn_entry hput), ?_⟩
  · exact ((changesNear_setData t k _).trans hchange).trans (changesNear_setData t' k _)
  · intro r hr
    obtain rfl := List.mem_singleton.mp hr
    exact hreport

theorem reportsIn_nil : ReportsIn P suppress [] := fun _ hr => nomatch hr

/-- The node that a failed lookup leaves. -/
theorem lookup_near {k : List Bool} (hids : NearIds P k t) (hpc : (nodeAt t k).data = none) :
    ChangesNear k t (patriciaLookup t k) ∧ NearIds P k (patriciaLookup t k) := by
  refine ⟨⟨fun u hu => ?_, fun u hu hg => ?_, fun u hu hn => ?_⟩, fun u hu => ?_⟩
  · have huk : u ≠ k := by
      rintro rfl
      exact hu near_self
    rw [nodeAt_patriciaLookup, if_neg huk]
  · have huk : u ≠ k := hu
    rw [nodeAt_patriciaLookup, if_neg huk, hg]
  · have huk : u ≠ k := hu
    rwa [nodeAt_patriciaLookup, if_neg huk] at hn
  · rw [nodeAt_patriciaLookup, hpc]
    split
    · exact idsIn_entry_none
    · exact hids u hu

theorem near_add {c : PrefixCache} {p : IPPrefix} {originAS : UInt32} {maxLen : UInt8}
    {valCacheID : UInt32} (hids : NearIds P p.key t)
    (hstep : step ⟨t, []⟩ (.add originAS p maxLen valCacheID suppress) = some c) :
    ChangesNear p.key t c.prefixTree ∧ NearIds P p.key c.prefixTree ∧
      ReportsIn P suppress c.reports := by
  simp only [step, addROAwl] at hstep
  split at hstep
  · obtain rfl := Option.some.inj hstep
    exact ⟨.refl, hids, reportsIn_nil⟩
  · simp only [Option.bind_eq_bind, Option.map_eq_some_iff, Option.bind_eq_some_iff] at hstep
    obtain ⟨r, ⟨roa, hroa, ⟨t', w⟩, hwalk, pc', hpc', hr⟩, rfl⟩ := hstep
    obtain rfl := Option.some.inj hr
    have hnodes : (((nodeAt t p.key).data).getD (createPrefix t p.key)).nodes.AllData
        fun u => P u.updateID := by
      cases hdata : (nodeAt t p.key).data with
      | none =>
        rw [Option.getD_none]
        simp only [createPrefix]
        split
        · exact allData_init
        · exact allData_init
      | some pc => exact idsIn_of_data (hids p.key near_self) hdata
    have hentry (asn : List PcAs) : (TreeNode.entry (some { (((nodeAt t p.key).data).getD
        (createPrefix t p.key)) with asn := asn })).IdsIn P := idsIn_entry hnodes
    obtain ⟨hchange, hids', hreports⟩ := walk_near (verifyUpdates_ids suppress)
      (nearIds_setData hids (hentry _)) (get?_setData ..) reportsIn_nil hwalk
    have hnodes' : pc'.nodes.AllData fun u => P u.updateID :=
      idsIn_of_data (hids' p.key near_self) hpc'
    exact ⟨((changesNear_setData ..).trans hchange).trans (changesNear_setData ..),
      nearIds_setData hids' (idsIn_entry hnodes'), hreports⟩

theorem near_del {c : PrefixCache} {p : IPPrefix} {originAS : UInt32} {maxLen : UInt8}
    {valCacheID : UInt32} (hids : NearIds P p.key t)
    (hstep : step ⟨t, []⟩ (.del originAS p maxLen valCacheID suppress) = some c) :
    ChangesNear p.key t c.prefixTree ∧ NearIds P p.key c.prefixTree ∧
      ReportsIn P suppress c.reports := by
  simp only [step, delROAwl] at hstep
  cases hpc : (nodeAt t p.key).data with
  | none =>
    rw [hpc] at hstep
    obtain rfl := Option.some.inj hstep
    obtain ⟨hchange, hids'⟩ := lookup_near hids hpc
    exact ⟨hchange, hids', reportsIn_nil⟩
  | some pc =>
    rw [hpc] at hstep
    simp only [] at hstep
    cases hfind : findRoa pc.asn originAS maxLen valCacheID with
    | none =>
      rw [hfind] at hstep
      obtain rfl := Option.some.inj hstep
      exact ⟨.refl, hids, reportsIn_nil⟩
    | some roa =>
      rw [hfind] at hstep
      simp only [Option.bind_eq_bind, Option.map_eq_some_iff, Option.bind_eq_some_iff] at hstep
      obtain ⟨r, ⟨⟨t', w⟩, hwalk, pc', hpc', hr⟩, rfl⟩ := hstep
      obtain rfl := Option.some.inj hr
      have hk : (t.get? p.key).isSome := by
        rw [get?_of_dataAt hpc]
        rfl
      obtain ⟨hchange, hids', hreports⟩ := walk_near (validateUpdates_ids suppress) hids hk
        reportsIn_nil hwalk
      have hnodes' : pc'.nodes.AllData fun u => P u.updateID :=
        idsIn_of_data (hids' p.key near_self) hpc'
      refine ⟨hchange.trans (changesNear_setData ..), nearIds_setData hids' ?_, hreports⟩
      split
      · exact idsIn_entry_none
      · exact idsIn_entry hnodes'

theorem near_request {c : PrefixCache} {p : IPPrefix} {updateID as : UInt32}
    (hids : NearIds P p.key t) (hid : P updateID)
    (hstep : step ⟨t, []⟩ (.request updateID p as) = some c) :
    ChangesNear p.key t c.prefixTree ∧ NearIds P p.key c.prefixTree ∧
      ReportsIn P false c.reports := by
  simp only [step, requestUpdateValidation] at hstep
  rcases hnode : nodeAt t p.key with _ | (_ | pc)
  · rw [hnode] at hstep
    obtain ⟨r, hr, rfl⟩ := Option.map_eq_some_iff.mp hstep
    exact knownPrefix_near hids allData_init hid hr
  · simp [hnode] at hstep
  · rw [hnode] at hstep
    simp only [] at hstep
    have hpc : pc.nodes.AllData fun u => P u.updateID := hids p.key near_self pc hnode
    split at hstep
    · obtain ⟨r, hr, rfl⟩ := Option.map_eq_some_iff.mp hstep
      exact knownPrefix_near hids hpc hid hr
    · simp only [Option.bind_eq_bind, Option.map_eq_some_iff, Option.bind_eq_some_iff] at hstep
      obtain ⟨r, ⟨⟨nodes, other⟩, happend, hr⟩, rfl⟩ := hstep
      obtain rfl := Option.some.inj hr
      refine ⟨changesNear_setData .., nearIds_setData hids (idsIn_entry
        (hpc.append hid happend)), ?_⟩
      intro r hr
      obtain rfl := List.mem_singleton.mp hr
      exact ⟨hid, rfl⟩

end Ids

end LocalityLemmas

open LocalityLemmas in
/-- A call changes nothing that is not near its prefix, and only updates near it are listed and
reported, as the call says. -/
theorem step_near {P : UInt32 → Prop} {t : PrefixTree} {op : Op} {c : PrefixCache}
    (hids : NearIds P op.ipPrefix.key t)
    (hreq : ∀ updateID p as, op = .request updateID p as → P updateID)
    (hstep : step ⟨t, []⟩ op = some c) :
    ChangesNear op.ipPrefix.key t c.prefixTree ∧ NearIds P op.ipPrefix.key c.prefixTree ∧
      ReportsIn P op.suppress c.reports := by
  cases op with
  | add originAS p maxLen valCacheID suppress => exact near_add hids hstep
  | del originAS p maxLen valCacheID suppress => exact near_del hids hstep
  | request updateID p as => exact near_request hids (hreq updateID p as rfl) hstep

end SrxSuite.Cache

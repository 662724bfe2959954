import Mathlib.Algebra.Group.Nat.Defs
import SrxSuite.PrefixCache.History

/-!
# The updates of one prefix

What the loops over the lists `valid` and `other` do, as long as the lists are in order
(`TwoLists`). `moveToOther` has two specifications: either all updates of the AS of the ROA
leave the list `valid`, or none of them does. In between the code loses updates.
-/

namespace SrxSuite.Cache

open Util Util.SListLemmas

/-- A node of a list holds an update of the AS. -/
def isOf (as : UInt32) (x : Nat × PcUpdate) : Bool := x.2.as == as

theorem isOf_iff {as : UInt32} {x : Nat × PcUpdate} : isOf as x = true ↔ x.2.as = as := by
  simp [isOf]

/-- `roa_match++` -/
def incMatch (x : Nat × PcUpdate) : Nat × PcUpdate :=
  (x.1, { x.2 with roaMatch := x.2.roaMatch + 1 })

/-- `roa_match--` -/
def decMatch (x : Nat × PcUpdate) : Nat × PcUpdate :=
  (x.1, { x.2 with roaMatch := x.2.roaMatch - 1 })

/-- The reports of one result for some updates. -/
def reportsOf (result : SrxResult) (suppress : Bool) (l : List (Nat × PcUpdate)) : List Report :=
  l.map fun x => ⟨x.2.updateID, result, suppress⟩

/-- The ROA with other `update_count`. -/
def PcRoa.withCount (r : PcRoa) (n : UInt32) : PcRoa := { r with updateCount := n }

namespace UpdateLemmas

variable {pc : PcPrefix} {lv lo : List (Nat × PcUpdate)} {w : WalkState} {suppress : Bool}

theorem foldl_reports (result : SrxResult) (l : List (Nat × PcUpdate)) (reports : List Report) :
    l.foldl (fun rs x => rs ++ [⟨x.2.updateID, result, suppress⟩]) reports =
      reports ++ reportsOf result suppress l := by
  induction l generalizing reports with
  | nil => simp [reportsOf]
  | cons x l ih => simp [ih, reportsOf]

theorem foldl_count (as : UInt32) (l : List (Nat × PcUpdate)) (n : UInt32) :
    l.foldl (fun n x => if x.2.as = as then n + 1 else n) n =
      n + UInt32.ofNat (l.countP (isOf as)) := by
  induction l generalizing n with
  | nil => simp
  | cons x l ih =>
    rw [List.foldl_cons, ih, List.countP_cons]
    by_cases hx : x.2.as = as
    · simp [isOf, hx, UInt32.ofNat_add, UInt32.add_assoc, UInt32.add_comm]
    · simp [isOf, hx]

/-- `_ROAwl_changeStateOfOther` -/
theorem changeStateOfOther_eq (pc : PcPrefix) (h : TwoLists pc.nodes pc.valid pc.other lv lo)
    (suppress : Bool) (state : SrxResult) (w : WalkState) :
    ∃ nodes, changeStateOfOther suppress state pc w =
        some ({ pc with stateOfOther := state, nodes := nodes },
          { w with reports := w.reports ++ reportsOf state suppress lo }) ∧
      TwoLists nodes pc.valid pc.other lv lo := by
  obtain ⟨nodes, hloop, -, h'⟩ := h.symm.foreach (fun u => u)
    (fun u rs => rs ++ [(⟨u.updateID, state, suppress⟩ : Report)]) w.reports
  rw [foldl_reports] at hloop
  have hid : lo.map (Prod.map id fun u => u) = lo := List.map_id lo
  rw [hid] at h'
  exact ⟨nodes, by simp [changeStateOfOther, hloop], h'.symm⟩

/-- `_performUpdateValidation_PrefixNotCovered`: the update goes to the end of one of the
lists. -/
theorem prefixNotCovered_eq (pc : PcPrefix) (h : TwoLists pc.nodes pc.valid pc.other lv lo)
    (hsize : lv.length + lo.length + 1 < 2 ^ 31) (u : PcUpdate) :
    ∃ nodes valid other, prefixNotCovered pc u =
        some ({ pc with nodes := nodes, valid := valid, other := other },
          ⟨u.updateID, if u.roaMatch = 0 then pc.stateOfOther else .valid, false⟩) ∧
      TwoLists nodes valid other
        (if u.roaMatch = 0 then lv else lv ++ [(pc.nodes.fresh, u)])
        (if u.roaMatch = 0 then lo ++ [(pc.nodes.fresh, u)] else lo) := by
  unfold prefixNotCovered
  split
  · obtain ⟨nodes, other, happend, h'⟩ := h.symm.append (by omega) u
    exact ⟨nodes, pc.valid, other, by simp [happend], h'.symm⟩
  · obtain ⟨nodes, valid, happend, h'⟩ := h.append (by omega) u
    exact ⟨nodes, valid, pc.other, by simp [happend], h'⟩

/-- The loop over the updates that are valid already. -/
theorem countMatched_eq (pc : PcPrefix) (h : TwoLists pc.nodes pc.valid pc.other lv lo)
    (w : WalkState) {as : UInt32} (has : w.roa.as = as) :
    ∃ nodes, countMatched pc w = some ({ pc with nodes := nodes },
        ⟨w.roa.withCount (w.roa.updateCount + UInt32.ofNat (lv.countP (isOf as))), w.reports⟩) ∧
      TwoLists nodes pc.valid pc.other
        (lv.map fun x => if isOf as x then incMatch x else x) lo := by
  obtain ⟨nodes, hloop, -, h'⟩ := h.foreach
    (fun u => if u.as = as then { u with roaMatch := u.roaMatch + 1 } else u)
    (fun u count => if u.as = as then count + 1 else count) w.roa.updateCount
  rw [foldl_count] at hloop
  have hmap : lv.map (Prod.map id fun u : PcUpdate =>
      if u.as = as then { u with roaMatch := u.roaMatch + 1 } else u) =
      lv.map fun x => if isOf as x then incMatch x else x := by
    refine List.map_congr_left fun x _ => ?_
    obtain ⟨a, u⟩ := x
    by_cases hx : u.as = as <;> simp [isOf, incMatch, hx]
  rw [hmap] at h'
  exact ⟨nodes, by simp [countMatched, has, hloop, PcRoa.withCount], h'⟩

/-- `_addROAwl_moveMatchedUpdatesToValid` from some node on: `done` stays in the list. -/
theorem moveMatchedLoop_eq {nodes : SListMem PcUpdate} {valid other : SList} {roa : PcRoa}
    {reports : List Report} {done rest : List (Nat × PcUpdate)} {fuel : Nat}
    (h : TwoLists nodes other valid (done ++ rest) lv) (hfuel : rest.length ≤ fuel)
    (hsize : lv.length + rest.length < 2 ^ 31) :
    ∃ nodes' valid' other' prev, moveMatchedLoop suppress fuel (headPtr rest)
        ⟨nodes, valid, other, lastPtr done, roa, reports⟩ =
        some ⟨nodes', valid', other', prev,
          roa.withCount (roa.updateCount + UInt32.ofNat (rest.countP (isOf roa.as))),
          reports ++ reportsOf .valid suppress (rest.filter (isOf roa.as))⟩ ∧
      TwoLists nodes' other' valid' (done ++ rest.filter fun x => !isOf roa.as x)
        (lv ++ (rest.filter (isOf roa.as)).map incMatch) := by
  induction rest generalizing nodes valid other roa reports done lv fuel with
  | nil =>
    refine ⟨nodes, valid, other, lastPtr done, ?_, by simpa using h⟩
    cases fuel <;> simp [moveMatchedLoop, headPtr, reportsOf, PcRoa.withCount]
  | cons x rest ih =>
    obtain ⟨a, u⟩ := x
    cases fuel with
    | zero => simp at hfuel
    | succ fuel =>
      have hcell := h.cell
      simp only [List.length_cons] at hfuel hsize
      by_cases hx : u.as = roa.as
      · -- The node moves; `prevNode` stays the last of `done`.
        have hset := h.setData { u with roaMatch := u.roaMatch + 1 }
        obtain ⟨nodes₁, other₁, valid₁, hmove, -, h₁⟩ := hset.moveNode (by omega)
        obtain ⟨nodes', valid', other', prev, hloop, h'⟩ := @ih
          (lv ++ [(a, { u with roaMatch := u.roaMatch + 1 })]) nodes₁ valid₁ other₁
          (roa.withCount (roa.updateCount + 1)) (reports ++ [⟨u.updateID, .valid, suppress⟩])
          done fuel h₁ (by omega) (by simp only [List.length_append, List.length_singleton]; omega)
        have hstep : moveMatchedLoop suppress (fuel + 1) (some a)
              ⟨nodes, valid, other, lastPtr done, roa, reports⟩ =
            moveMatchedLoop suppress fuel (headPtr rest) ⟨nodes₁, valid₁, other₁, lastPtr done,
              roa.withCount (roa.updateCount + 1),
              reports ++ [⟨u.updateID, .valid, suppress⟩]⟩ := by
          simp only [moveMatchedLoop, hcell, if_pos hx, hmove, Option.bind_eq_bind,
            Option.bind_some]
          rfl
        refine ⟨nodes', valid', other', prev, ?_, ?_⟩
        · refine (hstep.trans hloop).trans ?_
          simp [isOf, hx, reportsOf, PcRoa.withCount, UInt32.ofNat_add, UInt32.add_assoc,
            UInt32.add_comm]
        · simpa [isOf, hx, incMatch, PcRoa.withCount] using h'
      · rw [List.append_cons] at h
        obtain ⟨nodes', valid', other', prev, hloop, h'⟩ := @ih lv nodes valid other roa reports
          (done ++ [(a, u)]) fuel h (by omega) (by omega)
        have hstep : moveMatchedLoop suppress (fuel + 1) (some a)
              ⟨nodes, valid, other, lastPtr done, roa, reports⟩ =
            moveMatchedLoop suppress fuel (headPtr rest)
              ⟨nodes, valid, other, lastPtr (done ++ [(a, u)]), roa, reports⟩ := by
          simp [moveMatchedLoop, hcell, hx, lastPtr_concat]
        refine ⟨nodes', valid', other', prev, ?_, ?_⟩
        · refine (hstep.trans hloop).trans ?_
          simp [isOf, hx]
        · simpa [isOf, hx] using h'

/-- `_addROAwl_moveMatchedUpdatesToValid` -/
theorem moveMatchedUpdatesToValid_eq (pc : PcPrefix)
    (h : TwoLists pc.nodes pc.valid pc.other lv lo)
    (hsize : lv.length + lo.length < 2 ^ 31) (suppress : Bool) (w : WalkState) {as : UInt32}
    (has : w.roa.as = as) :
    ∃ nodes valid other, moveMatchedUpdatesToValid suppress pc w =
        some ({ pc with nodes := nodes, valid := valid, other := other },
          ⟨w.roa.withCount (w.roa.updateCount + UInt32.ofNat (lo.countP (isOf as))),
            w.reports ++ reportsOf .valid suppress (lo.filter (isOf as))⟩) ∧
      TwoLists nodes valid other (lv ++ (lo.filter (isOf as)).map incMatch)
        (lo.filter fun x => !isOf as x) := by
  obtain ⟨nodes, valid, other, prev, hloop, h'⟩ := @moveMatchedLoop_eq lv suppress pc.nodes
    pc.valid pc.other w.roa w.reports [] lo pc.nodes.fresh h.symm h.symm.length_le hsize
  rw [has] at hloop h'
  refine ⟨nodes, valid, other, ?_, h'.symm⟩
  rw [← chain_start h.right.chain, lastPtr_nil] at hloop
  simp only [moveMatchedUpdatesToValid, hloop, Option.bind_eq_bind, Option.bind_some]

/-! ## Moving to the list other -/

/-- `n` updates of the AS are counted out of `update_count`, which happens with the last of
identical ROAs only. -/
def CountedOut (n : Nat) (r r' : PcRoa) : Prop :=
  if r.roaCount = 1 then ∃ c, r' = r.withCount c ∧ c.toNat + n = r.updateCount.toNat else r' = r

theorem countedOut_zero (r : PcRoa) : CountedOut 0 r r := by
  unfold CountedOut
  split
  · exact ⟨r.updateCount, rfl, rfl⟩
  · rfl

/-- One iteration of the loop counts out one update. -/
theorem countedOut_succ {n : Nat} {r r' : PcRoa} (hpos : r.updateCount ≠ 0)
    (h : CountedOut n (if r.roaCount = 1 then { r with updateCount := r.updateCount - 1 } else r) r') :
    CountedOut (n + 1) r r' := by
  unfold CountedOut at h ⊢
  split
  · next hone =>
    rw [if_pos hone, if_pos (by exact hone)] at h
    obtain ⟨c, rfl, hc⟩ := h
    refine ⟨c, rfl, ?_⟩
    have hle : (1 : UInt32) ≤ r.updateCount := by
      rw [UInt32.le_iff_toNat_le]
      exact Nat.one_le_iff_ne_zero.mpr fun h0 => hpos (UInt32.toNat_inj.mp h0)
    rw [UInt32.toNat_sub_of_le _ _ hle] at hc
    have := UInt32.le_iff_toNat_le.mp hle
    simp only [UInt32.toNat_one] at hc this
    omega
  · next hone =>
    rw [if_neg hone, if_neg hone] at h
    exact h

variable {nodes : SListMem PcUpdate} {valid other : SList} {roa : PcRoa} {reports : List Report}
  {rest : List (Nat × PcUpdate)} {state : SrxResult} {fuel : Nat}

/-- `update_count` is enough for the updates that follow. -/
theorem enough_tail {x : Nat × PcUpdate}
    (hcount : (x :: rest).countP (isOf roa.as) ≤ roa.updateCount.toNat)
    (hx : isOf roa.as x = true) (hpos : roa.updateCount ≠ 0) :
    rest.countP (isOf roa.as) ≤ (if roa.roaCount = 1 then
      { roa with updateCount := roa.updateCount - 1 } else roa).updateCount.toNat := by
  rw [List.countP_cons_of_pos hx] at hcount
  split
  · have hle : (1 : UInt32) ≤ roa.updateCount := by
      rw [UInt32.le_iff_toNat_le]
      exact Nat.one_le_iff_ne_zero.mpr fun h0 => hpos (UInt32.toNat_inj.mp h0)
    show _ ≤ (roa.updateCount - 1).toNat
    rw [UInt32.toNat_sub_of_le _ _ hle, UInt32.toNat_one]
    omega
  · omega

theorem as_ite (c : UInt32) :
    (if roa.roaCount = 1 then { roa with updateCount := c } else roa).as = roa.as := by
  split <;> rfl

/-- Without an update of the AS in the rest of the list, `update_count` being 0 ends the loop
no earlier than it should. -/
theorem moveToOtherLoop_zero {s : MoveState} (hzero : s.roa.updateCount = 0)
    (hfuel : rest.length ≤ fuel) :
    moveToOtherLoop suppress state fuel (headPtr rest) s = some s := by
  cases rest with
  | nil => cases fuel <;> rfl
  | cons x rest =>
    cases fuel with
    | zero => simp at hfuel
    | succ fuel => simp [moveToOtherLoop, headPtr, hzero]

theorem no_match_of_zero (hcount : rest.countP (isOf roa.as) ≤ roa.updateCount.toNat)
    (hzero : roa.updateCount = 0) : ∀ x ∈ rest, isOf roa.as x = false := by
  rw [hzero] at hcount
  intro x hx
  have := List.countP_eq_zero.mp (Nat.le_zero.mp hcount) x hx
  simpa using this

/-- `_delROAwl_moveToOther` from some node on, when every update of the AS moves. -/
theorem moveToOtherLoop_all {done : List (Nat × PcUpdate)}
    (h : TwoLists nodes valid other (done ++ rest) lo) (hfuel : rest.length ≤ fuel)
    (hsize : lo.length + rest.length < 2 ^ 31)
    (hcount : rest.countP (isOf roa.as) ≤ roa.updateCount.toNat)
    (hone : ∀ x ∈ rest, isOf roa.as x = true → x.2.roaMatch = 1) :
    ∃ nodes' valid' other' prev roa', moveToOtherLoop suppress state fuel (headPtr rest)
        ⟨nodes, valid, other, lastPtr done, roa, reports⟩ =
        some ⟨nodes', valid', other', prev, roa',
          reports ++ reportsOf state suppress (rest.filter (isOf roa.as))⟩ ∧
      CountedOut (rest.countP (isOf roa.as)) roa roa' ∧
      TwoLists nodes' valid' other' (done ++ rest.filter fun x => !isOf roa.as x)
        (lo ++ (rest.filter (isOf roa.as)).map decMatch) := by
  induction rest generalizing nodes valid other roa reports done lo fuel with
  | nil =>
    refine ⟨nodes, valid, other, lastPtr done, roa, ?_, countedOut_zero roa, by simpa using h⟩
    cases fuel <;> simp [moveToOtherLoop, headPtr, reportsOf]
  | cons x rest ih =>
    by_cases hzero : roa.updateCount = 0
    · have hnone := no_match_of_zero hcount hzero
      have hfilter : (x :: rest).filter (isOf roa.as) = [] :=
        List.filter_eq_nil_iff.mpr fun y hy => by simp [hnone y hy]
      have hkeep : ((x :: rest).filter fun y => !isOf roa.as y) = x :: rest :=
        List.filter_eq_self.mpr fun y hy => by simp [hnone y hy]
      rw [moveToOtherLoop_zero hzero hfuel, List.countP_eq_length_filter, hfilter, hkeep]
      exact ⟨nodes, valid, other, lastPtr done, roa, by simp [reportsOf], countedOut_zero roa,
        by simpa using h⟩
    · obtain ⟨a, u⟩ := x
      cases fuel with
      | zero => simp at hfuel
      | succ fuel =>
        have hcell := h.cell
        have hones := fun y hy => hone y (List.mem_cons_of_mem _ hy)
        simp only [List.length_cons] at hfuel hsize
        by_cases hx : u.as = roa.as
        · have hof : isOf roa.as (a, u) = true := by simpa [isOf] using hx
          have hu : u.roaMatch - 1 = 0 := by
            rw [show u.roaMatch = 1 from hone (a, u) List.mem_cons_self hof]
            rfl
          have hset := h.setData { u with roaMatch := u.roaMatch - 1 }
          obtain ⟨nodes₁, valid₁, other₁, hmove, -, h₁⟩ := hset.moveNode (by omega)
          have henough := enough_tail hcount hof hzero
          obtain ⟨nodes', valid', other', prev, roa', hloop, hout, h'⟩ := @ih
            (lo ++ [(a, { u with roaMatch := u.roaMatch - 1 })]) nodes₁ valid₁ other₁
            (if roa.roaCount = 1 then { roa with updateCount := roa.updateCount - 1 } else roa)
            (reports ++ [⟨u.updateID, state, suppress⟩]) fuel done h₁ (by omega)
            (by simp only [List.length_append, List.length_singleton]; omega)
            (by rw [as_ite]; exact henough) (by rw [as_ite]; exact hones)
          rw [as_ite] at hloop hout h'
          have hstep : moveToOtherLoop suppress state (fuel + 1) (some a)
                ⟨nodes, valid, other, lastPtr done, roa, reports⟩ =
              moveToOtherLoop suppress state fuel (headPtr rest) ⟨nodes₁, valid₁, other₁,
                lastPtr done,
                if roa.roaCount = 1 then { roa with updateCount := roa.updateCount - 1 } else roa,
                reports ++ [⟨u.updateID, state, suppress⟩]⟩ := by
            simp only [moveToOtherLoop, if_neg hzero, hcell, if_pos hx, if_pos hu, hmove,
              Option.bind_eq_bind, Option.bind_some]
          refine ⟨nodes', valid', other', prev, roa', ?_, ?_, ?_⟩
          · refine (hstep.trans hloop).trans ?_
            simp [hof, reportsOf]
          · rw [List.countP_cons_of_pos hof]
            exact countedOut_succ hzero hout
          · simpa [hof, decMatch] using h'
        · have hof : isOf roa.as (a, u) = false := by simpa [isOf] using hx
          rw [List.countP_cons_of_neg (by simp [hof])] at hcount
          rw [List.append_cons] at h
          obtain ⟨nodes', valid', other', prev, roa', hloop, hout, h'⟩ := @ih lo nodes valid other
            roa reports fuel (done ++ [(a, u)]) h (by omega) (by omega) hcount hones
          have hstep : moveToOtherLoop suppress state (fuel + 1) (some a)
                ⟨nodes, valid, other, lastPtr done, roa, reports⟩ =
              moveToOtherLoop suppress state fuel (headPtr rest)
                ⟨nodes, valid, other, lastPtr (done ++ [(a, u)]), roa, reports⟩ := by
            simp only [moveToOtherLoop, if_neg hzero, hcell, if_neg hx, lastPtr_concat,
              Option.bind_eq_bind, Option.bind_some]
          refine ⟨nodes', valid', other', prev, roa', ?_, ?_, ?_⟩
          · refine (hstep.trans hloop).trans ?_
            simp [hof]
          · rw [List.countP_cons_of_neg (by simp [hof])]
            exact hout
          · simpa [hof] using h'

/-- `_delROAwl_moveToOther` from some node on, when no update of the AS moves. -/
theorem moveToOtherLoop_none {done : List (Nat × PcUpdate)} {prev : Option Nat}
    (h : TwoLists nodes valid other (done ++ rest) lo) (hfuel : rest.length ≤ fuel)
    (hcount : rest.countP (isOf roa.as) ≤ roa.updateCount.toNat)
    (hmany : ∀ x ∈ rest, isOf roa.as x = true → x.2.roaMatch ≠ 1) :
    ∃ nodes' prev' roa', moveToOtherLoop suppress state fuel (headPtr rest)
        ⟨nodes, valid, other, prev, roa, reports⟩ =
        some ⟨nodes', valid, other, prev', roa', reports⟩ ∧
      CountedOut (rest.countP (isOf roa.as)) roa roa' ∧
      TwoLists nodes' valid other
        (done ++ rest.map fun x => if isOf roa.as x then decMatch x else x) lo := by
  induction rest generalizing nodes roa done prev fuel with
  | nil =>
    refine ⟨nodes, prev, roa, ?_, countedOut_zero roa, by simpa using h⟩
    cases fuel <;> simp [moveToOtherLoop, headPtr]
  | cons x rest ih =>
    by_cases hzero : roa.updateCount = 0
    · have hnone := no_match_of_zero hcount hzero
      have hkeep : ((x :: rest).map fun y => if isOf roa.as y then decMatch y else y) =
          x :: rest := by
        refine (List.map_congr_left fun y hy => ?_).trans (List.map_id _)
        simp [hnone y hy]
      have hzeroCount : (x :: rest).countP (isOf roa.as) = 0 :=
        List.countP_eq_zero.mpr fun y hy => by simp [hnone y hy]
      rw [moveToOtherLoop_zero hzero hfuel, hkeep, hzeroCount]
      exact ⟨nodes, prev, roa, rfl, countedOut_zero roa, h⟩
    · obtain ⟨a, u⟩ := x
      cases fuel with
      | zero => simp at hfuel
      | succ fuel =>
        have hcell := h.cell
        have hmanys := fun y hy => hmany y (List.mem_cons_of_mem _ hy)
        simp only [List.length_cons] at hfuel
        by_cases hx : u.as = roa.as
        · have hof : isOf roa.as (a, u) = true := by simpa [isOf] using hx
          have hu : ¬ u.roaMatch - 1 = 0 := fun h0 =>
            hmany (a, u) List.mem_cons_self hof (UInt16.sub_eq_iff_eq_add.mp h0)
          have hset := h.setData { u with roaMatch := u.roaMatch - 1 }
          rw [List.append_cons] at hset
          have henough := enough_tail hcount hof hzero
          obtain ⟨nodes', prev', roa', hloop, hout, h'⟩ := @ih _
            (if roa.roaCount = 1 then { roa with updateCount := roa.updateCount - 1 } else roa)
            fuel _ prev hset (by omega) (by rw [as_ite]; exact henough)
            (by rw [as_ite]; exact hmanys)
          rw [as_ite] at hout h'
          have hstep : moveToOtherLoop suppress state (fuel + 1) (some a)
                ⟨nodes, valid, other, prev, roa, reports⟩ =
              moveToOtherLoop suppress state fuel (headPtr rest)
                ⟨nodes.write a ⟨{ u with roaMatch := u.roaMatch - 1 }, headPtr rest⟩, valid, other,
                  prev, if roa.roaCount = 1 then
                    { roa with updateCount := roa.updateCount - 1 } else roa, reports⟩ := by
            simp only [moveToOtherLoop, if_neg hzero, hcell, if_pos hx, if_neg hu,
              Option.bind_eq_bind, Option.bind_some]
          refine ⟨nodes', prev', roa', hstep.trans hloop, ?_, ?_⟩
          · rw [List.countP_cons_of_pos hof]
            exact countedOut_succ hzero hout
          · simpa [hof, decMatch] using h'
        · have hof : isOf roa.as (a, u) = false := by simpa [isOf] using hx
          rw [List.countP_cons_of_neg (by simp [hof])] at hcount
          rw [List.append_cons] at h
          obtain ⟨nodes', prev', roa', hloop, hout, h'⟩ := @ih nodes roa fuel _ (some a) h
            (by omega) hcount hmanys
          have hstep : moveToOtherLoop suppress state (fuel + 1) (some a)
                ⟨nodes, valid, other, prev, roa, reports⟩ =
              moveToOtherLoop suppress state fuel (headPtr rest)
                ⟨nodes, valid, other, some a, roa, reports⟩ := by
            simp only [moveToOtherLoop, if_neg hzero, hcell, if_neg hx,
              Option.bind_eq_bind, Option.bind_some]
          refine ⟨nodes', prev', roa', hstep.trans hloop, ?_, ?_⟩
          · rw [List.countP_cons_of_neg (by simp [hof])]
            exact hout
          · simpa [hof] using h'

/-- `_delROAwl_moveToOther`: the updates `moved` leave the list `valid`. -/
theorem moveToOther_eq (pc : PcPrefix) (h : TwoLists pc.nodes pc.valid pc.other lv lo)
    (hsize : lv.length + lo.length < 2 ^ 31) (suppress : Bool) (w : WalkState) {as : UInt32}
    (has : w.roa.as = as) (hcount : lv.countP (isOf as) ≤ w.roa.updateCount.toNat) {last : Bool}
    (hsame : ∀ x ∈ lv, isOf as x = true → (x.2.roaMatch = 1 ↔ last = true)) :
    ∃ nodes valid other roa', moveToOther suppress pc w =
        some ({ pc with nodes := nodes, valid := valid, other := other },
          ⟨roa', w.reports ++ reportsOf pc.stateOfOther suppress
            (if last then lv.filter (isOf as) else [])⟩) ∧
      CountedOut (lv.countP (isOf as)) w.roa roa' ∧
      TwoLists nodes valid other
        (if last then lv.filter fun x => !isOf as x
          else lv.map fun x => if isOf as x then decMatch x else x)
        (lo ++ (if last then lv.filter (isOf as) else []).map decMatch) := by
  subst has
  have hstart := chain_start h.left.chain
  cases last with
  | true =>
    obtain ⟨nodes, valid, other, prev, roa', hloop, hout, h'⟩ := @moveToOtherLoop_all lo suppress
      pc.nodes pc.valid pc.other w.roa w.reports lv pc.stateOfOther pc.nodes.fresh [] h
      h.length_le (by omega) hcount fun x hx hof => (hsame x hx hof).mpr rfl
    rw [← hstart, lastPtr_nil] at hloop
    exact ⟨nodes, valid, other, roa', by simp [moveToOther, hloop], hout, h'⟩
  | false =>
    obtain ⟨nodes, prev, roa', hloop, hout, h'⟩ := @moveToOtherLoop_none lo suppress
      pc.nodes pc.valid pc.other w.roa w.reports lv pc.stateOfOther pc.nodes.fresh [] none h
      h.length_le hcount fun x hx hof heq => by simpa using (hsame x hx hof).mp heq
    rw [← hstart] at hloop
    exact ⟨nodes, pc.valid, pc.other, roa', by simp [moveToOther, hloop, reportsOf], hout,
      by simpa using h'⟩

end UpdateLemmas

end SrxSuite.Cache

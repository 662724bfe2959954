import SrxSuite.PrefixCache.Runs

/-!
# The counter of a ROA

`update_count` of a ROA is kept in three places: when an update is requested, and by two loops when
the ROA is added. A withdrawal spends it on its way down the tree and leaves the list of a prefix as
soon as the counter is 0. The early exit is sound as long as the counter is the number of updates in
the lists `valid` that the ROA matches.

The withdrawal without the early exit is `withdraw` with the loop `moveToOtherAll`.

Results:
1. `updateCounts_exact`: in a run without repeated announcements and without overflows every
   counter is exact, and every withdrawal does the same with and without the early exit and ends
   with the counter 0.
2. `many_roas_counted`: `roa_match` has 16 bits; with 65536 matching ROAs an update is counted by
   all of them and is not valid.
-/

namespace SrxSuite.Cache

open Util Util.SListLemmas UpdateLemmas NodeLemmas RoaLemmas TreeLemmas

/-! ## The withdrawal without the early exit -/

/-- The loop of `_delROAwl_moveToOther` without the test of `update_count`. -/
def moveToOtherAllLoop (suppress : Bool) (stateOfOther : SrxResult) :
    (fuel : Nat) → (currNode : Option Nat) → MoveState → Option MoveState
  | _, none, s => some s
  | 0, some _, _ => none
  | fuel + 1, some a, s => do
    let node ← s.nodes.cells a
    if node.data.as = s.roa.as then
      let u := { node.data with roaMatch := node.data.roaMatch - 1 }
      let nodes := s.nodes.write a { node with data := u }
      let roa := if s.roa.roaCount = 1 then
        { s.roa with updateCount := s.roa.updateCount - 1 } else s.roa
      if u.roaMatch = 0 then do
        let (nodes, valid, other) ← moveNode nodes s.valid s.other s.prevNode a
        moveToOtherAllLoop suppress stateOfOther fuel node.next ⟨nodes, valid, other, s.prevNode, roa,
          s.reports ++ [⟨u.updateID, stateOfOther, suppress⟩]⟩
      else
        moveToOtherAllLoop suppress stateOfOther fuel node.next { s with nodes := nodes, roa := roa }
    else moveToOtherAllLoop suppress stateOfOther fuel node.next { s with prevNode := some a }

/-- `_delROAwl_moveToOther` with that loop. -/
def moveToOtherAll (suppress : Bool) (pc : PcPrefix) (w : WalkState) :
    Option (PcPrefix × WalkState) := do
  let s ← moveToOtherAllLoop suppress pc.stateOfOther pc.nodes.fresh pc.valid.root
    ⟨pc.nodes, pc.valid, pc.other, none, w.roa, w.reports⟩
  some ({ pc with nodes := s.nodes, valid := s.valid, other := s.other }, ⟨s.roa, s.reports⟩)

/-- `_delROAwl_validateUpdates` for one prefix, with a loop `move` that moves updates. -/
def validateUpdatesBy (move : Bool → PcPrefix → WalkState → Option (PcPrefix × WalkState))
    (suppress : Bool) (len : Nat) (parentStateOfOther : SrxResult) (pc : PcPrefix) (w : WalkState) :
    Option (PcPrefix × WalkState × Option SrxResult) :=
  if len ≤ w.roa.maxLen.toNat then do
    let pc := { pc with roaCoverage := pc.roaCoverage - 1 }
    let (pc, w) ← if parentStateOfOther = .notFound ∧ pc.roaCoverage = 0 then
      changeStateOfOther suppress .notFound pc w else some (pc, w)
    let (pc, w) ← move suppress pc w
    some (pc, w, some pc.stateOfOther)
  else if pc.roaCoverage = 0 ∧ parentStateOfOther = .notFound then do
    let (pc, w) ← changeStateOfOther suppress .notFound pc w
    some (pc, w, some pc.stateOfOther)
  else some (pc, w, none)

/-- The walk of `delROAwl` down from the prefix `k`, with the entry of the ROA. -/
def withdraw (move : Bool → PcPrefix → WalkState → Option (PcPrefix × WalkState)) (suppress : Bool)
    (self : PrefixCache) (k : List Bool) (roa : PcRoa) : Option (PrefixTree × WalkState) :=
  self.prefixTree.atSub (fun sub => sub.walk (visitData (validateUpdatesBy move suppress))
    k.length (parentState self.prefixTree k) ⟨roa, self.reports⟩) k

/-- The updates in the list `valid`. -/
def PcPrefix.validUpdates (pc : PcPrefix) : List (Nat × PcUpdate) :=
  (nodesOf pc.nodes pc.nodes.fresh pc.valid.root).getD []

/-- The number of updates in the list `valid` of a prefix that a ROA matches. -/
def validAt (t : PrefixTree) (r : Roa) (k : List Bool) : Nat :=
  if r.covers k then ((dataAt t k).elim [] PcPrefix.validUpdates).countP (isOf r.as) else 0

/-- The number of updates in the lists `valid` of all prefixes that a ROA matches. -/
def validCount (t : PrefixTree) (r : Roa) : Nat := (t.sub r.key).sumKeys (validAt t r) r.key

/-- The counter of every ROA is exact, and its withdrawal spends it without the help of the early
exit. -/
def CountersExact (h : History) (c : PrefixCache) : Prop :=
  ∀ r ∈ h.roas, ∃ x, ((dataAt c.prefixTree r.key).bind fun pc =>
      findRoa pc.asn r.as r.maxLen r.valCacheID) = some x ∧
    x.updateCount.toNat = validCount c.prefixTree r ∧
    ∀ suppress, ∃ t w, withdraw moveToOther suppress c r.key x = some (t, w) ∧
      withdraw moveToOtherAll suppress c r.key x = some (t, w) ∧ w.roa.updateCount = 0

/-! ## The loops -/

namespace UpdateCountLemmas

variable {nodes : SListMem PcUpdate} {valid other : SList} {roa : PcRoa} {reports : List Report}
  {rest lv lo : List (Nat × PcUpdate)} {state : SrxResult} {fuel : Nat} {suppress last : Bool}

/-- The loop passes updates of other ASes. -/
theorem moveToOtherAllLoop_skip (h : Chain nodes.cells (headPtr rest) rest none)
    (hfuel : rest.length ≤ fuel) (hnone : ∀ x ∈ rest, isOf roa.as x = false) (prev : Option Nat) :
    ∃ prev', moveToOtherAllLoop suppress state fuel (headPtr rest)
      ⟨nodes, valid, other, prev, roa, reports⟩ = some ⟨nodes, valid, other, prev', roa, reports⟩ := by
  induction rest generalizing fuel prev with
  | nil => exact ⟨prev, by cases fuel <;> rfl⟩
  | cons x rest ih =>
    obtain ⟨a, u⟩ := x
    obtain ⟨-, next, hcell, hrest⟩ := h
    cases fuel with
    | zero => exact absurd hfuel (Nat.not_succ_le_zero _)
    | succ fuel =>
      have hnext := chain_start hrest
      have hx : ¬ u.as = roa.as := fun has => by simpa [isOf, has] using hnone (a, u) List.mem_cons_self
      obtain ⟨prev', hloop⟩ := ih (hnext ▸ hrest) (Nat.le_of_succ_le_succ hfuel)
        (fun y hy => hnone y (List.mem_cons_of_mem _ hy)) (some a)
      refine ⟨prev', ?_⟩
      rw [headPtr, List.head?_cons, Option.map_some, moveToOtherAllLoop, hcell]
      simp only [Option.bind_eq_bind, Option.bind_some, if_neg hx, hnext]
      exact hloop

/-- With enough left on the counter the early exit makes no difference. -/
theorem moveToOtherLoop_agree {done : List (Nat × PcUpdate)} {prev : Option Nat}
    (h : TwoLists nodes valid other (done ++ rest) lo) (hfuel : rest.length ≤ fuel)
    (hsize : lo.length + rest.length < 2 ^ 31)
    (hcount : rest.countP (isOf roa.as) ≤ roa.updateCount.toNat)
    (hprev : last = true → prev = lastPtr done)
    (hsame : ∀ x ∈ rest, isOf roa.as x = true → (x.2.roaMatch = 1 ↔ last = true)) :
    ∃ s prev', moveToOtherLoop suppress state fuel (headPtr rest)
        ⟨nodes, valid, other, prev, roa, reports⟩ = some s ∧
      moveToOtherAllLoop suppress state fuel (headPtr rest)
        ⟨nodes, valid, other, prev, roa, reports⟩ = some { s with prevNode := prev' } := by
  induction rest generalizing nodes valid other roa reports done prev lo fuel with
  | nil => exact ⟨_, prev, by cases fuel <;> rfl, by cases fuel <;> rfl⟩
  | cons x rest ih =>
    by_cases hzero : roa.updateCount = 0
    · have hnone := no_match_of_zero hcount hzero
      have hchain : Chain nodes.cells (headPtr (x :: rest)) (x :: rest) none := by
        obtain ⟨mid, -, hrest⟩ := chain_append.mp h.left.chain
        exact chain_start hrest ▸ hrest
      obtain ⟨prev', hall⟩ := @moveToOtherAllLoop_skip nodes valid other roa reports (x :: rest) state
        fuel suppress hchain hfuel hnone prev
      exact ⟨_, prev', moveToOtherLoop_zero hzero hfuel, hall⟩
    · obtain ⟨a, u⟩ := x
      cases fuel with
      | zero => exact absurd hfuel (Nat.not_succ_le_zero _)
      | succ fuel =>
        have hcell := h.cell
        have hsames := fun y hy => hsame y (List.mem_cons_of_mem _ hy)
        simp only [List.length_cons] at hfuel hsize
        by_cases hx : u.as = roa.as
        · have hof : isOf roa.as (a, u) = true := isOf_iff.mpr hx
          have henough := enough_tail hcount hof hzero
          have hset := h.setData { u with roaMatch := u.roaMatch - 1 }
          have hiff := hsame (a, u) List.mem_cons_self hof
          cases last with
          | true =>
            have hu : u.roaMatch - 1 = 0 := by
              rw [show u.roaMatch = 1 from hiff.mpr rfl]
              rfl
            obtain ⟨nodes₁, valid₁, other₁, hmove, -, h₁⟩ := hset.moveNode (by omega)
            rw [← hprev rfl] at hmove
            obtain ⟨s, prev', hloop, hall⟩ := @ih nodes₁ valid₁ other₁
              (if roa.roaCount = 1 then { roa with updateCount := roa.updateCount - 1 } else roa)
              (reports ++ [⟨u.updateID, state, suppress⟩])
              (lo ++ [(a, { u with roaMatch := u.roaMatch - 1 })]) fuel done prev h₁ (by omega)
              (by simp only [List.length_append, List.length_singleton]; omega)
              (by rw [as_ite]; exact henough) hprev (by rw [as_ite]; exact hsames)
            refine ⟨s, prev', hloop ▸ ?_, hall ▸ ?_⟩
            · show moveToOtherLoop suppress state (fuel + 1) (some a) _ = _
              simp only [moveToOtherLoop, if_neg hzero, hcell, if_pos hx, if_pos hu, hmove,
                Option.bind_eq_bind, Option.bind_some]
            · show moveToOtherAllLoop suppress state (fuel + 1) (some a) _ = _
              simp only [moveToOtherAllLoop, hcell, if_pos hx, if_pos hu, hmove,
                Option.bind_eq_bind, Option.bind_some]
          | false =>
            have hu : ¬ u.roaMatch - 1 = 0 := fun h0 =>
              Bool.false_ne_true (hiff.mp (UInt16.sub_eq_iff_eq_add.mp h0))
            rw [List.append_cons] at hset
            obtain ⟨s, prev', hloop, hall⟩ := @ih _ valid other
              (if roa.roaCount = 1 then { roa with updateCount := roa.updateCount - 1 } else roa)
              reports lo fuel _ prev hset (by omega) (by omega) (by rw [as_ite]; exact henough)
              (fun hfalse => absurd hfalse Bool.false_ne_true) (by rw [as_ite]; exact hsames)
            refine ⟨s, prev', hloop ▸ ?_, hall ▸ ?_⟩
            · show moveToOtherLoop suppress state (fuel + 1) (some a) _ = _
              simp only [moveToOtherLoop, if_neg hzero, hcell, if_pos hx, if_neg hu,
                Option.bind_eq_bind, Option.bind_some]
            · show moveToOtherAllLoop suppress state (fuel + 1) (some a) _ = _
              simp only [moveToOtherAllLoop, hcell, if_pos hx, if_neg hu, Option.bind_eq_bind, Option.bind_some]
        · rw [List.countP_cons_of_neg (by simpa [isOf] using hx)] at hcount
          rw [List.append_cons] at h
          obtain ⟨s, prev', hloop, hall⟩ := @ih nodes valid other roa reports lo fuel
            (done ++ [(a, u)]) (some a) h (by omega) (by omega) hcount
            (fun _ => (lastPtr_concat (a, u)).symm) hsames
          refine ⟨s, prev', hloop ▸ ?_, hall ▸ ?_⟩
          · show moveToOtherLoop suppress state (fuel + 1) (some a) _ = _
            simp only [moveToOtherLoop, if_neg hzero, hcell, if_neg hx, Option.bind_eq_bind, Option.bind_some]
          · show moveToOtherAllLoop suppress state (fuel + 1) (some a) _ = _
            simp only [moveToOtherAllLoop, hcell, if_neg hx, Option.bind_eq_bind, Option.bind_some]

/-- `_delROAwl_moveToOther` with and without the early exit. -/
theorem moveToOther_agree (pc : PcPrefix) (h : TwoLists pc.nodes pc.valid pc.other lv lo)
    (hsize : lv.length + lo.length < 2 ^ 31) (suppress : Bool) (w : WalkState)
    (hcount : lv.countP (isOf w.roa.as) ≤ w.roa.updateCount.toNat)
    (hsame : ∀ x ∈ lv, isOf w.roa.as x = true → (x.2.roaMatch = 1 ↔ last = true)) :
    moveToOther suppress pc w = moveToOtherAll suppress pc w := by
  obtain ⟨s, prev', hloop, hall⟩ := @moveToOtherLoop_agree pc.nodes pc.valid pc.other w.roa w.reports
    lv lo pc.stateOfOther pc.nodes.fresh suppress last [] none h h.length_le (by omega) hcount
    (fun _ => rfl) hsame
  rw [← chain_start h.left.chain] at hloop hall
  simp only [moveToOther, moveToOtherAll, hloop, hall, Option.bind_eq_bind, Option.bind_some]

/-- A visit with and without the early exit. -/
theorem validateUpdates_agree {strict : Prop} {h : History} {k : List Bool} {pc : PcPrefix}
    {w : WalkState} {r : Roa} (hok : NodeOk strict h k pc w.reports) (hdel : CanDel strict h r)
    (hkey : r.key <+: k) (has : w.roa.as = r.as) (hmax : w.roa.maxLen = r.maxLen)
    (hcount : matchedAt h r k ≤ w.roa.updateCount.toNat) (suppress : Bool) (p : SrxResult) :
    validateUpdates suppress k.length p pc w =
      validateUpdatesBy moveToOtherAll suppress k.length p pc w := by
  obtain ⟨lv, lo, hok, -⟩ := hok
  unfold validateUpdates validateUpdatesBy
  split
  · next hlen =>
    have hcov : r.covers k = true := covers_iff.mpr ⟨hkey, hmax ▸ hlen⟩
    have hsize := Nat.lt_of_le_of_lt hok.length_le hdel.size
    rw [matchedAt_covered hok hcov, ← has] at hcount
    have hsame := hok.same w.roa.as
    have henough := Nat.le_trans (Nat.le_add_right ..) hcount
    dsimp only
    split
    · obtain ⟨n₁, hchange, h₁⟩ := changeStateOfOther_eq
        { pc with roaCoverage := pc.roaCoverage - 1 } hok.lists suppress .notFound w
      rw [hchange]
      simp only [Option.bind_eq_bind, Option.bind_some]
      rw [moveToOther_agree { pc with
          roaCoverage := pc.roaCoverage - 1, stateOfOther := .notFound, nodes := n₁ } h₁ hsize
        suppress { w with reports := w.reports ++ reportsOf .notFound suppress lo } henough hsame]
    · simp only [Option.bind_eq_bind, Option.bind_some]
      rw [moveToOther_agree { pc with roaCoverage := pc.roaCoverage - 1 } hok.lists hsize suppress w
        henough hsame]
  · rfl

end UpdateCountLemmas

open UpdateCountLemmas

/-! ## The invariant gives the counters -/

section Counters

variable {strict exact : Prop} {h : History} {c : PrefixCache} {r : Roa}

theorem validUpdates_eq {pc : PcPrefix} {lv lo : List (Nat × PcUpdate)}
    (hlists : TwoLists pc.nodes pc.valid pc.other lv lo) : pc.validUpdates = lv := by
  rw [PcPrefix.validUpdates, nodesOf_chain hlists.left.chain hlists.length_le]
  rfl

/-- The updates a ROA matches are the requested ones. -/
theorem Inv.validAt_eq (hinv : Inv strict exact h c) (hr : r ∈ h.roas) (k : List Bool) :
    validAt c.prefixTree r k = matchedAt h r k := by
  unfold validAt
  split
  · next hcov =>
    cases hpc : dataAt c.prefixTree k with
    | none =>
      refine (List.countP_eq_zero.mpr fun q hq hkey => ?_).symm
      simp only [decide_eq_true_eq] at hkey
      exact hinv.requests q hq (hkey.1 ▸ hpc)
    | some pc =>
      obtain ⟨lv, lo, hok, -⟩ := hinv.node k pc hpc
      have hnone := hok.none_in_other hr hcov
      have hlo : lo.countP (isOf r.as) = 0 :=
        List.countP_eq_zero.mpr fun x hx => by simp [hnone x hx]
      rw [Option.elim_some, validUpdates_eq hok.lists, matchedAt_covered hok hcov, hlo, Nat.add_zero]
  · next hcov => exact (matchedAt_not_covered (Bool.not_eq_true _ ▸ hcov)).symm

theorem Inv.validCount_eq (hinv : Inv strict exact h c) (hr : r ∈ h.roas) :
    validCount c.prefixTree r = h.matchedBy r := by
  rw [validCount, Trie.sumKeys_congr _ fun u => hinv.validAt_eq hr _,
    sumKeys_matchedAt hinv.requests]

/-- A withdrawal does the same with and without the early exit. -/
theorem Inv.withdraw_eq (hinv : Inv strict exact h c) (hr : r ∈ h.roas) {x : PcRoa} {extra : Nat}
    (hleft : Leftover r x extra (h.matchedBy r) x) (suppress : Bool) :
    ∃ t w, withdraw moveToOther suppress c r.key x = some (t, w) ∧
      withdraw moveToOtherAll suppress c r.key x = some (t, w) ∧ Leftover r x extra 0 w.roa := by
  have hcan : CanDel strict h r := ⟨hr, hinv.ids, hinv.covers, hinv.size⟩
  have hchanges := hinv.validateUpdates_changes hcan x extra suppress
  obtain ⟨t, w, hwalk, -, hzero⟩ := hchanges.walk (hinv.roas r hr) _ (hinv.parentOk_delRoa r)
    ⟨x, c.reports⟩ (fun u pcu => hinv.node u pcu) hleft
  have hagree := hchanges.walk_congr (g := validateUpdatesBy moveToOtherAll suppress)
    (fun u p pc s n hu _ hok hbud => validateUpdates_agree hok hcan hu hbud.as hbud.maxLen
      (Nat.le_trans (Nat.le_add_right ..) hbud.enough) suppress p)
    _ (hinv.parentOk_delRoa r) ⟨x, c.reports⟩ (fun u pcu => hinv.node u pcu) hleft
  exact ⟨t, w, hwalk, (Trie.atSub_congr hagree).symm.trans hwalk, hzero⟩

theorem Inv.countersExact (hinv : Inv strict exact h c) (hx : exact) (hnodup : h.roas.Nodup) :
    CountersExact h c := by
  intro r hr
  obtain ⟨pc, hpc⟩ := Option.ne_none_iff_exists'.mp (hinv.roas r hr)
  have hasn := hinv.asn r.key pc hpc
  obtain ⟨x, hfind, hxas, hxmax, hxcount, -⟩ := hasn.del hr
  obtain ⟨hentry, hid, -⟩ := entry_of_findRoa hfind
  have hroa : roaOf r.key (r.as, x) = r := by rw [roaOf, hxmax, hid]
  have hok := hasn.roas.entries _ hentry
  have hcounted : x.updateCount.toNat = h.matchedBy r := by
    have := hok.counts hx
    rwa [hroa] at this
  have hone : x.roaCount = 1 := by
    have hle := hasn.roas.count hentry
    rw [hroa, List.count_eq_one_of_mem hnodup hr] at hle
    exact UInt16.toNat_inj.mp (Nat.le_antisymm hle hok.pos)
  refine ⟨x, by rw [hpc]; exact hfind, by rw [hcounted, hinv.validCount_eq hr], fun suppress => ?_⟩
  have hbefore : Leftover r x 0 (h.matchedBy r) x :=
    ⟨hxas, hxmax, rfl, fun _ => rfl, hxcount, fun _ => hcounted⟩
  obtain ⟨t, w, hwith, hall, hleft⟩ := hinv.withdraw_eq hr hbefore suppress
  exact ⟨t, w, hwith, hall, UInt32.toNat_inj.mp (hleft.exact hone)⟩

/-- The invariant of runs without repeated announcements. -/
theorem Inv.run_exact {ops : List Op} {c' : PrefixCache} (hinv : Inv False True h c)
    (hnodup : h.roas.Nodup) (hexact : Along Exact h c ops)
    (hfits : ∀ ops₁, ops₁ <+: ops → Fits (h.run ops₁)) (hrun : Cache.run c ops = some c') :
    Inv False True (h.run ops) c' ∧ (h.run ops).roas.Nodup := by
  induction ops generalizing h c with
  | nil => exact ⟨Option.some.inj hrun ▸ hinv, hnodup⟩
  | cons op ops ih =>
    have hfit : Fits (h.step op) := hfits [op] (by simp)
    cases hstep : Cache.step c op with
    | none => simp [Cache.run, hstep] at hrun
    | some c₁ =>
      -- A request of a prefix that was freed crashes.
      have hdata : ∀ id p as, op = .request id p as →
          nodeAt c.prefixTree p.key ≠ .entry none := by
        rintro id p as rfl hnull
        simp [Cache.step, requestUpdateValidation, hnull] at hstep
      obtain ⟨c₁', hstep', hinv₁⟩ := hinv.step
        (hexact.1.noDefect hinv trivial hnodup hfit hdata) False.elim fun _ => hexact.1
      obtain rfl := Option.some.inj (hstep'.symm.trans hstep)
      rw [Cache.run, hstep, Option.bind_some] at hrun
      exact ih hinv₁ (hexact.1.nodup hnodup) (hexact.2 c₁' hstep)
        (fun ops₁ hpre => hfits (op :: ops₁) (List.cons_prefix_cons.mpr ⟨rfl, hpre⟩)) hrun

end Counters

/-- The early exit is sound. In every state of a run without repeated announcements, as long as the
numbers fit the counters, `update_count` of every ROA is the number of updates in the lists `valid`
that it matches. -/
theorem updateCounts_exact (ops : List Op)
    (hexact : Along Exact .empty initializePrefixCache ops)
    (hfits : ∀ ops₁, ops₁ <+: ops → Fits (History.empty.run ops₁)) :
    ∀ ops₁ c, ops₁ <+: ops → run initializePrefixCache ops₁ = some c →
      CountersExact (History.empty.run ops₁) c := by
  intro ops₁ c hpre hrun
  obtain ⟨hinv, hnodup⟩ := (inv_init False True).run_exact List.nodup_nil (hexact.of_prefix hpre)
    (fun ops₂ hpre₂ => hfits ops₂ (hpre₂.trans hpre)) hrun
  exact hinv.countersExact trivial hnodup

/-- A ROA and an update that it matches. -/
theorem updateCounts_exact_ten8 :
    Along Exact .empty initializePrefixCache [.add 1 ten8 8 0 false, .request 1 ten8 1] ∧
    ∃ c, run initializePrefixCache [.add 1 ten8 8 0 false, .request 1 ten8 1] = some c ∧
      CountersExact (History.empty.run [.add 1 ten8 8 0 false, .request 1 ten8 1]) c := by
  have hexact : Along Exact .empty initializePrefixCache
      [.add 1 ten8 8 0 false, .request 1 ten8 1] :=
    ⟨List.not_mem_nil, fun _ _ => ⟨trivial, fun _ _ => trivial⟩⟩
  have hrun : (run initializePrefixCache [.add 1 ten8 8 0 false, .request 1 ten8 1]).isSome := by
    decide
  obtain ⟨c, hc⟩ := Option.isSome_iff_exists.mp hrun
  exact ⟨hexact, c, hc, updateCounts_exact _ hexact (fits_run (by decide)) _ c List.prefix_rfl hc⟩

/-! ## More ROAs than 16 bits hold -/

namespace ManyRoas

/-- An update that all of the ROAs count and that is not valid. -/
theorem counted_manyRoas {n : Nat} (hn : n < 2 ^ 32) (hpos : 0 < n) (hzero : UInt16.ofNat n = 0) :
    Along Exact .empty initializePrefixCache (manyRoas n ++ [.request 1 ten8 1]) ∧
    ∃ c, run initializePrefixCache (manyRoas n ++ [.request 1 ten8 1]) = some c ∧
      ¬ CountersExact (History.empty.run (manyRoas n ++ [.request 1 ten8 1])) c := by
  refine ⟨((allowed_manyRoas hn).mono fun _ _ _ => Allowed.notPresent).append
    fun _ _ => ⟨trivial, fun _ _ => trivial⟩, ?_⟩
  obtain ⟨c, hrun, hinv⟩ := inv_manyRoas hn
  obtain ⟨hnode, hglue⟩ := known_manyRoas hpos hinv
  have hreqs : (History.empty.run (manyRoas n)).requests = [] := by rw [run_manyRoas]
  have hhist : History.empty.run (manyRoas n ++ [.request 1 ten8 1]) =
      (History.empty.run (manyRoas n)).addRequest ⟨1, ten8.key, 1⟩ := by
    rw [History.run, List.foldl_append]
    rfl
  obtain ⟨pc, t', pc', lv, lo, a, heq, hdata, hok, -, hasn, hentries, hasn', -, -, hlists⟩ :=
    hinv.request_eq 1 ten8 1 hnode (by rw [hreqs]; decide)
      (Nat.lt_of_le_of_lt (coverCount_le n ten8.key) hn) (fun hg => absurd hg hglue) rfl
  rw [matchCount_manyRoas n, if_pos hzero] at heq hlists
  refine ⟨_, by rw [run_append, hrun, Option.bind_some, Cache.run, Cache.step, heq]; rfl, ?_⟩
  rw [hhist]
  intro hcounters
  have hmem : roa 0 ∈ (History.empty.run (manyRoas n)).roas := by
    rw [run_manyRoas]
    exact List.mem_reverse.mpr (List.mem_map.mpr ⟨0, List.mem_range.mpr hpos, rfl⟩)
  obtain ⟨x, hfind, hcount, -⟩ := hcounters (roa 0) hmem
  have hdata_k : dataAt t' ten8.key = some pc' := by rw [hdata, requestData, if_pos rfl]
  -- The list of valid updates is empty.
  have hlv : lv = [] := by
    have hperm := hok.requests
    rw [History.requestsAt, hreqs] at hperm
    have hnil := List.map_eq_nil_iff.mp hperm.eq_nil
    exact (List.append_eq_nil_iff.mp hnil).1
  have hvalid : validCount t' (roa 0) = 0 := by
    refine Trie.sumKeys_eq_zero _ fun u => ?_
    unfold validAt
    split
    · next hcov =>
      have hlen := (covers_iff.mp hcov).2
      have hu : u = [] := by
        rw [List.length_append] at hlen
        have hkey : (roa 0).key.length = 8 := length_key ten8
        have hmax : (roa 0).maxLen.toNat = 8 := rfl
        exact List.length_eq_zero_iff.mp (by omega)
      rw [hu, List.append_nil]
      show ((dataAt t' ten8.key).elim [] PcPrefix.validUpdates).countP _ = 0
      rw [hdata_k, Option.elim_some, validUpdates_eq hlists, hlv]
      rfl
    · rfl
  -- The ROA has counted the update.
  have hasn₁ := AsnOk.request_at (q := ⟨1, ten8.key, 1⟩) hasn (by rw [hreqs]; decide) fun e he => by
    have hle := hinv.updateCount_le trivial (hentries ▸ he)
    rw [hreqs, List.length_nil] at hle
    omega
  rw [show (roa 0).key = ten8.key from rfl, hdata_k, Option.bind_some, hasn'] at hfind
  obtain ⟨hentry, hid, hmax⟩ := entry_of_findRoa hfind
  have hcounts := (hasn₁.roas.entries _ hentry).counts trivial
  have hroa : roaOf ten8.key ((roa 0).as, x) = roa 0 := by
    rw [roaOf, hid, hmax]
    rfl
  have hmatches : (roa 0).matches ten8.key 1 = true :=
    matches_iff.mpr ⟨⟨List.prefix_rfl, Nat.le_of_eq (length_key ten8)⟩, rfl⟩
  rw [hroa, History.matchedBy_addRequest, if_pos hmatches, hcount, hvalid] at hcounts
  omega

end ManyRoas

/-- `roa_match` has 16 bits: with 65536 ROAs that match it, an update is counted by all of them and is
not in the list `valid`. -/
theorem many_roas_counted :
    Along Exact .empty initializePrefixCache (manyRoas 65536 ++ [.request 1 ten8 1]) ∧
    ∃ c, run initializePrefixCache (manyRoas 65536 ++ [.request 1 ten8 1]) = some c ∧
      ¬ CountersExact (History.empty.run (manyRoas 65536 ++ [.request 1 ten8 1])) c :=
  ManyRoas.counted_manyRoas (by decide) (by decide) (by decide)

end SrxSuite.Cache

import SrxSuite.PrefixCache.Runs

/-!
# Repeated announcements of a ROA

A validation cache that is reset sends all its ROAs again. The prefix cache counts them in
`roa_count`, and the results should not depend on it: a ROA that is announced more often than it
is withdrawn counts like one that is announced once (`Repeated`).

Results:
1. `repeated_announcements`: this holds in runs that do not reach a defect.
2. `duplicate_changes_result`: a prefix that is created by a request counts every entry of the
   ROAs above once and not `roa_count` times; after one withdrawal it is not covered any more.
-/

namespace SrxSuite.Cache

open Util UpdateLemmas NodeLemmas RoaLemmas TreeLemmas

/-- The call announces the ROA. -/
def Op.announces (r : Roa) : Op → Bool
  | .add originAS p maxLen valCacheID _ => decide (⟨p.key, originAS, maxLen, valCacheID⟩ = r)
  | _ => false

/-- The call withdraws the ROA. -/
def Op.withdraws (r : Roa) : Op → Bool
  | .del originAS p maxLen valCacheID _ => decide (⟨p.key, originAS, maxLen, valCacheID⟩ = r)
  | _ => false

/-- The call is about other ROAs or an update. -/
def Op.isOther (r : Roa) (op : Op) : Bool := !op.announces r && !op.withdraws r

/-- The ROA is present whenever it is withdrawn. -/
def presentWhenWithdrawn (r : Roa) : History → List Op → Bool
  | _, [] => true
  | h, op :: ops => (!op.withdraws r || decide (r ∈ h.roas)) &&
      presentWhenWithdrawn r (h.step op) ops

/-- Two runs that differ in the calls for one ROA. In the first it is announced and withdrawn
repeatedly. In the second it is announced once if the first run leaves one, and never if it
withdraws all. -/
structure Repeated (r : Roa) (ops ops' : List Op) : Prop where
  others : ops.filter (Op.isOther r) = ops'.filter (Op.isOther r)
  present : presentWhenWithdrawn r .empty ops = true
  counts : (ops.countP (Op.withdraws r) < ops.countP (Op.announces r) ∧
      ops'.countP (Op.announces r) = 1) ∨
    (ops.countP (Op.withdraws r) = ops.countP (Op.announces r) ∧
      ops'.countP (Op.announces r) = 0)
  never : ops'.countP (Op.withdraws r) = 0

/-- The last results of all updates are the same after the two runs. -/
def SameResults (ops ops' : List Op) : Prop :=
  ∃ c c', run initializePrefixCache ops = some c ∧ run initializePrefixCache ops' = some c' ∧
    ∀ q ∈ (History.empty.run ops).requests,
      lastReport c.reports q.updateID = lastReport c'.reports q.updateID

namespace DuplicateLemmas

variable {r : Roa} {h h' : History} {op : Op} {ops ops' : List Op}

/-- The same but for the ROA `r`. -/
def SameBut (r : Roa) (h h' : History) : Prop :=
  h.requests = h'.requests ∧ ∀ r', r' ≠ r → h.roas.count r' = h'.roas.count r'

theorem SameBut.step_about (hsame : SameBut r h h') (habout : op.isOther r = false) :
    SameBut r (h.step op) h' := by
  cases op with
  | add originAS p maxLen valCacheID suppress =>
    have heq : (⟨p.key, originAS, maxLen, valCacheID⟩ : Roa) = r := by
      simpa [Op.isOther, Op.announces, Op.withdraws] using habout
    rw [History.step, heq]
    split
    · exact hsame
    · refine ⟨hsame.1, fun r' hne => ?_⟩
      rw [History.addRoa, List.count_cons_of_ne (Ne.symm hne)]
      exact hsame.2 r' hne
  | del originAS p maxLen valCacheID suppress =>
    have heq : (⟨p.key, originAS, maxLen, valCacheID⟩ : Roa) = r := by
      simpa [Op.isOther, Op.announces, Op.withdraws] using habout
    rw [History.step, heq]
    refine ⟨hsame.1, fun r' hne => ?_⟩
    rw [History.delRoa, List.count_erase_of_ne hne]
    exact hsame.2 r' hne
  | request updateID p as => simp [Op.isOther, Op.announces, Op.withdraws] at habout

theorem SameBut.step_other (hsame : SameBut r h h') : SameBut r (h.step op) (h'.step op) := by
  cases op with
  | add originAS p maxLen valCacheID suppress =>
    rw [History.step, History.step]
    split
    · exact hsame
    · refine ⟨hsame.1, fun r' hne => ?_⟩
      rw [History.addRoa, History.addRoa, List.count_cons, List.count_cons, hsame.2 r' hne]
  | del originAS p maxLen valCacheID suppress =>
    rw [History.step, History.step]
    refine ⟨hsame.1, fun r' hne => ?_⟩
    rw [History.delRoa, History.delRoa, List.count_erase, List.count_erase, hsame.2 r' hne]
  | request updateID p as =>
    refine ⟨?_, hsame.2⟩
    simp [History.step, History.addRequest, hsame.1]

/-- The calls for `r` do not matter for the rest. -/
theorem sameBut_filter (hsame : SameBut r h h') :
    SameBut r (h.run ops) (h'.run (ops.filter (Op.isOther r))) := by
  induction ops generalizing h h' with
  | nil => exact hsame
  | cons op ops ih =>
    rw [List.filter_cons]
    split
    · exact ih hsame.step_other
    · next hnot => exact ih (hsame.step_about (by simpa using hnot))

/-- The ROA is there as often as it was announced and not withdrawn. -/
theorem count_run (hrfc : belongsToRfc5398 r.as = false)
    (hpresent : presentWhenWithdrawn r h ops = true) :
    (h.run ops).roas.count r + ops.countP (Op.withdraws r) =
      h.roas.count r + ops.countP (Op.announces r) := by
  induction ops generalizing h with
  | nil => rfl
  | cons op ops ih =>
    rw [presentWhenWithdrawn, Bool.and_eq_true] at hpresent
    have ih := ih hpresent.2
    have hstep : (h.step op).roas.count r + (if op.withdraws r then 1 else 0) =
        h.roas.count r + if op.announces r then 1 else 0 := by
      cases op with
      | add originAS p maxLen valCacheID suppress =>
        by_cases heq : (⟨p.key, originAS, maxLen, valCacheID⟩ : Roa) = r
        · subst heq
          rw [History.step, if_neg (by simpa using hrfc)]
          simp [History.addRoa, Op.withdraws, Op.announces]
        · rw [History.step]
          split
          · simp [Op.withdraws, Op.announces, heq]
          · simp [History.addRoa, Op.withdraws, Op.announces, heq]
      | del originAS p maxLen valCacheID suppress =>
        by_cases heq : (⟨p.key, originAS, maxLen, valCacheID⟩ : Roa) = r
        · subst heq
          have hmem : (⟨p.key, originAS, maxLen, valCacheID⟩ : Roa) ∈ h.roas := by
            simpa [Op.withdraws] using hpresent.1
          have hpos := List.count_pos_iff.mpr hmem
          rw [History.step, History.delRoa, List.count_erase_self]
          simp only [Op.withdraws, Op.announces, decide_true, if_true, Bool.false_eq_true, if_false]
          omega
        · rw [History.step, History.delRoa, List.count_erase_of_ne (Ne.symm heq)]
          simp [Op.withdraws, Op.announces, heq]
      | request updateID p as => simp [History.step, Op.withdraws, Op.announces]
    rw [History.run, List.foldl_cons, List.countP_cons, List.countP_cons]
    rw [History.run] at ih
    omega

/-- A ROA of a reserved AS is never present. -/
theorem count_reserved (hrfc : belongsToRfc5398 r.as = true) (hzero : h.roas.count r = 0) :
    (h.run ops).roas.count r = 0 := by
  induction ops generalizing h with
  | nil => exact hzero
  | cons op ops ih =>
    refine ih ?_
    cases op with
    | add originAS p maxLen valCacheID suppress =>
      rw [History.step]
      split
      · exact hzero
      · next hnot =>
        rw [History.addRoa, List.count_cons_of_ne, hzero]
        rintro rfl
        exact hnot hrfc
    | del originAS p maxLen valCacheID suppress =>
      have hle := (List.erase_sublist (a := (⟨p.key, originAS, maxLen, valCacheID⟩ : Roa))
        (l := h.roas)).count_le r
      rw [hzero] at hle
      exact Nat.le_zero.mp hle
    | request updateID p as => exact hzero

theorem presentWhenWithdrawn_of_never (hnever : ops.countP (Op.withdraws r) = 0) :
    presentWhenWithdrawn r h ops = true := by
  induction ops generalizing h with
  | nil => rfl
  | cons op ops ih =>
    rw [List.countP_cons] at hnever
    have hop : op.withdraws r = false := by
      cases hw : op.withdraws r with
      | false => rfl
      | true => simp [hw] at hnever
    rw [presentWhenWithdrawn, hop, ih (by omega)]
    rfl

/-- The two runs leave the same ROAs. -/
theorem mem_roas (hrep : Repeated r ops ops') (r' : Roa) :
    r' ∈ (History.empty.run ops).roas ↔ r' ∈ (History.empty.run ops').roas := by
  rw [← List.count_pos_iff, ← List.count_pos_iff]
  by_cases heq : r' = r
  · subst heq
    cases hrfc : belongsToRfc5398 r'.as with
    | true =>
      rw [count_reserved hrfc (by rfl), count_reserved hrfc (by rfl)]
    | false =>
      have h1 := count_run hrfc hrep.present
      have h2 := count_run (h := .empty) hrfc (presentWhenWithdrawn_of_never hrep.never)
      have h3 := hrep.never
      have hempty : History.empty.roas.count r' = 0 := rfl
      rcases hrep.counts with ⟨h4, h5⟩ | ⟨h4, h5⟩ <;> omega
  · have hsame : SameBut r History.empty History.empty := ⟨rfl, fun _ _ => rfl⟩
    have h1 := (@sameBut_filter r _ _ ops hsame).2 r' heq
    have h2 := (@sameBut_filter r _ _ ops' hsame).2 r' heq
    rw [h1, h2, hrep.others]

theorem requests_eq (hrep : Repeated r ops ops') :
    (History.empty.run ops).requests = (History.empty.run ops').requests := by
  have hsame : SameBut r History.empty History.empty := ⟨rfl, fun _ _ => rfl⟩
  rw [(@sameBut_filter r _ _ ops hsame).1, (@sameBut_filter r _ _ ops' hsame).1, hrep.others]

end DuplicateLemmas

/-- The results of RFC 6811 depend on the set of ROAs only. -/
theorem rfc6811_congr {roas roas' : List Roa} (hmem : ∀ r, r ∈ roas ↔ r ∈ roas') (k : List Bool)
    (as : UInt32) : rfc6811 roas k as = rfc6811 roas' k as := by
  have hany (p : Roa → Bool) : roas.any p = roas'.any p := by
    rw [Bool.eq_iff_iff, List.any_eq_true, List.any_eq_true]
    exact exists_congr fun r => and_congr_left fun _ => hmem r
  rw [rfc6811, rfc6811, hany, hany]

open DuplicateLemmas in
/-- Repeated announcements count like one, if neither run reaches a defect: ROAs cover their own
prefix, every update is requested once, and no request creates a prefix below a ROA with
duplicates. -/
theorem repeated_announcements (r : Roa) (ops ops' : List Op) (hrep : Repeated r ops ops')
    (hok : Along NoDefect .empty initializePrefixCache ops)
    (hstrict : Along Strict .empty initializePrefixCache ops)
    (hok' : Along NoDefect .empty initializePrefixCache ops')
    (hstrict' : Along Strict .empty initializePrefixCache ops') : SameResults ops ops' := by
  obtain ⟨c, hrun, hinv⟩ := (inv_init True False).run hok (fun _ => hstrict) False.elim
  obtain ⟨c', hrun', hinv'⟩ := (inv_init True False).run hok' (fun _ => hstrict') False.elim
  refine ⟨c, c', hrun, hrun', fun q hq => ?_⟩
  rw [hinv.resultsOk trivial q hq, hinv'.resultsOk trivial q (requests_eq hrep ▸ hq),
    rfc6811_congr (mem_roas hrep)]

/-- A ROA is announced after an update it matches, announced again, and withdrawn once. -/
theorem repeated_announcements_ten8 :
    Repeated ⟨ten8.key, 1, 8, 0⟩
      [.request 1 ten8 1, .add 1 ten8 8 0 false, .add 1 ten8 8 0 false, .del 1 ten8 8 0 false]
      [.request 1 ten8 1, .add 1 ten8 8 0 false] ∧
    SameResults
      [.request 1 ten8 1, .add 1 ten8 8 0 false, .add 1 ten8 8 0 false, .del 1 ten8 8 0 false]
      [.request 1 ten8 1, .add 1 ten8 8 0 false] := by
  have hrep : Repeated ⟨ten8.key, 1, 8, 0⟩
      [.request 1 ten8 1, .add 1 ten8 8 0 false, .add 1 ten8 8 0 false, .del 1 ten8 8 0 false]
      [.request 1 ten8 1, .add 1 ten8 8 0 false] := by
    refine ⟨?_, by decide, .inl (by decide), by decide⟩
    simp [Op.isOther, Op.announces, Op.withdraws]
  have hentries₁ : (run initializePrefixCache [.request 1 ten8 1]).map
      (fun c => (entriesAt c.prefixTree ten8.key).all fun e => e.2.updateCount == 0) =
      some true := by decide
  have hentries₂ : (run initializePrefixCache [.request 1 ten8 1, .add 1 ten8 8 0 false]).map
      (fun c => (entriesAt c.prefixTree ten8.key).all fun e => e.2.updateCount == 1) =
      some true := by decide
  have hrequest : NoDefect .empty initializePrefixCache (.request 1 ten8 1) := by
    refine ⟨?_, fun _ r hr => absurd hr List.not_mem_nil, by decide, by decide, by decide,
      fun k e he => ?_⟩
    · rw [nodeAt, initializePrefixCache, Trie.get?_null]
      simp
    · rw [entriesAt, initializePrefixCache, dataAt_null] at he
      exact absurd he List.not_mem_nil
  have hadd (h : History) (c : PrefixCache) (n : UInt32) (hn : n ≤ 1)
      (hlen : h.roas.length < 2 ∧ h.requests.length < 2)
      (hentries : ((entriesAt c.prefixTree ten8.key).all fun e => e.2.updateCount == n) = true) :
      NoDefect h c (.add 1 ten8 8 0 false) := by
    have hcount (p : Roa → Bool) :
        (h.addRoa ⟨ten8.key, 1, 8, 0⟩).roas.countP p ≤ h.roas.length + 1 := List.countP_le_length
    refine fun _ => ⟨?_, fun k => ?_, fun q _ => ?_, fun e he => ?_⟩
    · have := List.count_le_length (a := (⟨ten8.key, 1, 8, 0⟩ : Roa)) (l := h.roas)
      omega
    · exact Nat.lt_of_le_of_lt (hcount _) (by omega)
    · exact Nat.lt_of_le_of_lt (hcount _) (by omega)
    · have hone := List.all_eq_true.mp hentries e he
      rw [beq_iff_eq] at hone
      have := UInt32.le_iff_toNat_le.mp hn
      rw [hone]
      simp only [UInt32.toNat_one] at this
      omega
  have hok : Along NoDefect .empty initializePrefixCache
      [.request 1 ten8 1, .add 1 ten8 8 0 false, .add 1 ten8 8 0 false, .del 1 ten8 8 0 false] := by
    refine ⟨hrequest, fun c₁ h₁ => ⟨hadd _ _ 0 (by decide) (by decide) ?_, fun c₂ h₂ =>
      ⟨hadd _ _ 1 (by decide) (by decide) ?_, fun _ _ => ⟨trivial, fun _ _ => trivial⟩⟩⟩⟩
    · simpa [Cache.run, h₁] using hentries₁
    · simpa [Cache.run, h₁, h₂] using hentries₂
  have hstrict : Along Strict .empty initializePrefixCache
      [.request 1 ten8 1, .add 1 ten8 8 0 false, .add 1 ten8 8 0 false, .del 1 ten8 8 0 false] :=
    ⟨fun q hq => absurd hq List.not_mem_nil, fun _ _ => ⟨show ten8.length ≤ 8 by decide,
      fun _ _ => ⟨show ten8.length ≤ 8 by decide, fun _ _ => ⟨trivial, fun _ _ => trivial⟩⟩⟩⟩
  have hpre : [.request 1 ten8 1, .add 1 ten8 8 0 false] <+:
      [.request 1 ten8 1, .add 1 ten8 8 0 false, .add 1 ten8 8 0 false, Op.del 1 ten8 8 0 false] :=
    ⟨[.add 1 ten8 8 0 false, .del 1 ten8 8 0 false], rfl⟩
  exact ⟨hrep, repeated_announcements _ _ _ hrep hok hstrict (hok.of_prefix hpre)
    (hstrict.of_prefix hpre)⟩

/-- The duplicate of a ROA is withdrawn: `10.0.0.0/16` has counted one of the two, so it is not
covered any more. The next update of the AS is INVALID. -/
theorem duplicate_changes_result :
    Repeated ⟨ten8.key, 1, 24, 0⟩
      [.add 1 ten8 24 0 false, .add 1 ten8 24 0 false, .request 1 ten16 1, .del 1 ten8 24 0 false,
        .request 2 ten16 1]
      [.add 1 ten8 24 0 false, .request 1 ten16 1, .request 2 ten16 1] ∧
    ¬ SameResults
      [.add 1 ten8 24 0 false, .add 1 ten8 24 0 false, .request 1 ten16 1, .del 1 ten8 24 0 false,
        .request 2 ten16 1]
      [.add 1 ten8 24 0 false, .request 1 ten16 1, .request 2 ten16 1] := by
  refine ⟨⟨by simp [Op.isOther, Op.announces, Op.withdraws], by decide, .inl (by decide),
    by decide⟩, ?_⟩
  rintro ⟨c, c', hrun, hrun', hsame⟩
  have hresult : (run initializePrefixCache [.add 1 ten8 24 0 false, .add 1 ten8 24 0 false,
      .request 1 ten16 1, .del 1 ten8 24 0 false, .request 2 ten16 1]).map
        (fun c => lastReport c.reports 2) = some (some .invalid) := by decide
  have hresult' : (run initializePrefixCache [.add 1 ten8 24 0 false, .request 1 ten16 1,
      .request 2 ten16 1]).map (fun c => lastReport c.reports 2) = some (some .valid) := by decide
  rw [hrun, Option.map_some, Option.some.injEq] at hresult
  rw [hrun', Option.map_some, Option.some.injEq] at hresult'
  have := hsame ⟨2, ten16.key, 1⟩ (by decide)
  simp [hresult, hresult'] at this

end SrxSuite.Cache

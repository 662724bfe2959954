import SrxSuite.PrefixCache.Changes

/-!
# Runs of the prefix cache

A run is correct as long as no call reaches one of the defects of the code (`NoDefect`): a counter
overflows, a request hits a prefix that was freed, or a request creates a prefix below a ROA with
duplicates. `Inv.step` and `Inv.run` carry the invariant through such runs.

Results:
1. `origin_validation`: without duplicates and overflows, the last result of every update is that
   of RFC 6811. `many_roas_invalid`: with 65536 matching ROAs `roa_match` is zero.
2. `updates_listed`: no update is lost or duplicated. `update_lost`: after a request below
   duplicate ROAs, one is.
-/

namespace SrxSuite.Cache

open Util Util.SListLemmas UpdateLemmas NodeLemmas RoaLemmas TreeLemmas

/-- A property of every call of a run. -/
def Along (P : History → PrefixCache → Op → Prop) : History → PrefixCache → List Op → Prop
  | _, _, [] => True
  | h, c, op :: ops => P h c op ∧ ∀ c', step c op = some c' → Along P (h.step op) c' ops

/-- The call does not reach a defect. -/
def NoDefect (h : History) (c : PrefixCache) : Op → Prop
  | .add originAS p maxLen valCacheID _ =>
    belongsToRfc5398 originAS = false → AddOk h c ⟨p.key, originAS, maxLen, valCacheID⟩
  | .del _ _ _ _ _ => True
  | .request updateID p as => RequestOk h c ⟨updateID, p.key, as⟩

/-- The ROA covers its own prefix, the update is requested for the first time. -/
def Strict (h : History) (_ : PrefixCache) : Op → Prop
  | .add _ p maxLen _ _ => p.length ≤ maxLen
  | .del _ _ _ _ _ => True
  | .request updateID _ _ => ∀ q ∈ h.requests, q.updateID ≠ updateID

/-- The ROA is not present when it is announced. -/
def Exact (h : History) (_ : PrefixCache) : Op → Prop
  | .add originAS p maxLen valCacheID _ => ⟨p.key, originAS, maxLen, valCacheID⟩ ∉ h.roas
  | _ => True

/-! ## The invariant of runs -/

theorem length_bitsOf (byte : UInt8) : (bitsOf byte).length = 8 := by simp [bitsOf]

theorem length_key (p : IPPrefix) : p.key.length = p.length.toNat := by
  have hbits : (p.addr.flatMap bitsOf).length = 8 * p.addr.length := by
    induction p.addr with
    | nil => rfl
    | cons b addr ih =>
      rw [List.flatMap_cons, List.length_append, length_bitsOf, ih, List.length_cons]
      omega
  rw [IPPrefix.key, List.length_take, hbits, p.bytes]
  exact Nat.min_eq_left p.fits

section Runs

variable {strict exact : Prop} {h : History} {c : PrefixCache} {op : Op} {ops : List Op}

/-- A call that does not reach a defect keeps the invariant. -/
theorem Inv.step (hinv : Inv strict exact h c) (hok : NoDefect h c op)
    (hstrict : strict → Strict h c op) (hexact : exact → Exact h c op) :
    ∃ c', step c op = some c' ∧ Inv strict exact (h.step op) c' := by
  cases op with
  | add originAS p maxLen valCacheID suppress =>
    by_cases hrfc : belongsToRfc5398 originAS = true
    · have hsame : h.step (.add originAS p maxLen valCacheID suppress) = h := if_pos hrfc
      exact ⟨c, by simp [Cache.step, addROAwl, hrfc], by rwa [hsame]⟩
    · have hadded : h.step (.add originAS p maxLen valCacheID suppress) =
          h.addRoa ⟨p.key, originAS, maxLen, valCacheID⟩ := if_neg hrfc
      have hfalse : belongsToRfc5398 originAS = false := by simpa using hrfc
      have hcov : strict → (⟨p.key, originAS, maxLen, valCacheID⟩ : Roa).covers p.key = true := by
        intro hs
        refine covers_iff.mpr ⟨List.prefix_rfl, ?_⟩
        rw [length_key]
        exact UInt8.le_iff_toNat_le.mp (hstrict hs)
      obtain ⟨c', heq, hinv'⟩ := hinv.add rfl hfalse (hok hfalse) hcov hexact suppress
      exact ⟨c', by simp [Cache.step, heq], by rwa [hadded]⟩
  | del originAS p maxLen valCacheID suppress =>
    by_cases hmem : ⟨p.key, originAS, maxLen, valCacheID⟩ ∈ h.roas
    · obtain ⟨c', heq, hinv'⟩ := hinv.del rfl hmem suppress
      exact ⟨c', by simp [Cache.step, heq], hinv'⟩
    · obtain ⟨c', heq, hinv'⟩ := hinv.del_absent rfl hmem suppress
      exact ⟨c', by simp [Cache.step, heq], hinv'⟩
  | request updateID p as =>
    obtain ⟨c', heq, hinv'⟩ := hinv.request hok hstrict
    exact ⟨c', by simp [Cache.step, heq], hinv'⟩

/-- So does a run. -/
theorem Inv.run (hinv : Inv strict exact h c) (hok : Along NoDefect h c ops)
    (hstrict : strict → Along Strict h c ops) (hexact : exact → Along Exact h c ops) :
    ∃ c', run c ops = some c' ∧ Inv strict exact (h.run ops) c' := by
  induction ops generalizing h c with
  | nil => exact ⟨c, rfl, hinv⟩
  | cons op ops ih =>
    obtain ⟨c₁, hstep, hinv₁⟩ := hinv.step hok.1 (fun hs => (hstrict hs).1) fun hx => (hexact hx).1
    obtain ⟨c', hrun, hinv'⟩ := ih hinv₁ (hok.2 c₁ hstep) (fun hs => (hstrict hs).2 c₁ hstep)
      fun hx => (hexact hx).2 c₁ hstep
    exact ⟨c', by rw [Cache.run, hstep]; exact hrun, hinv'⟩

theorem Along.of_prefix {P : History → PrefixCache → Op → Prop} {ops₁ : List Op}
    (hall : Along P h c ops) (hpre : ops₁ <+: ops) : Along P h c ops₁ := by
  induction ops₁ generalizing h c ops with
  | nil => trivial
  | cons op ops₁ ih =>
    cases ops with
    | nil => simp at hpre
    | cons op' ops =>
      obtain ⟨rfl, hpre'⟩ := List.cons_prefix_cons.mp hpre
      exact ⟨hall.1, fun c' hstep => ih (hall.2 c' hstep) hpre'⟩

theorem Along.mono {P Q : History → PrefixCache → Op → Prop} (hall : Along P h c ops)
    (hPQ : ∀ h c op, P h c op → Q h c op) : Along Q h c ops := by
  induction ops generalizing h c with
  | nil => trivial
  | cons op ops ih => exact ⟨hPQ _ _ _ hall.1, fun c' hstep => ih (hall.2 c' hstep)⟩

theorem run_append (c : PrefixCache) (ops₁ ops₂ : List Op) :
    run c (ops₁ ++ ops₂) = (run c ops₁).bind fun c' => run c' ops₂ := by
  induction ops₁ generalizing c with
  | nil => rfl
  | cons op ops₁ ih =>
    rw [List.cons_append, Cache.run, Cache.run]
    cases Cache.step c op with
    | none => rfl
    | some c' => exact ih c'

theorem Along.append {P : History → PrefixCache → Op → Prop} {ops₁ ops₂ : List Op}
    (hall : Along P h c ops₁)
    (hnext : ∀ c', Cache.run c ops₁ = some c' → Along P (h.run ops₁) c' ops₂) :
    Along P h c (ops₁ ++ ops₂) := by
  induction ops₁ generalizing h c with
  | nil => exact hnext c rfl
  | cons op ops₁ ih =>
    refine ⟨hall.1, fun c' hstep => ih (hall.2 c' hstep) fun c'' hrun => hnext c'' ?_⟩
    rw [Cache.run, hstep]
    exact hrun

end Runs

/-! ## Origin validation -/

/-- The last result of every update is that of RFC 6811. -/
def ResultsOk (h : History) (c : PrefixCache) : Prop :=
  ∀ q ∈ h.requests, lastReport c.reports q.updateID = some (rfc6811 h.roas q.key q.as)

/-- A call of a well-behaved validation cache for one address family: `maxLen` is between the
length of the prefix and that of an address, a ROA is announced when it is not present and
withdrawn when it is, and an update is requested once, for a prefix that was not freed. -/
def Allowed (family : IPVersion) (h : History) (c : PrefixCache) : Op → Prop
  | .add originAS p maxLen valCacheID _ => p.version = family ∧ p.length ≤ maxLen ∧
    maxLen.toNat ≤ family.width ∧ ⟨p.key, originAS, maxLen, valCacheID⟩ ∉ h.roas
  | .del originAS p maxLen valCacheID _ => p.version = family ∧
    ⟨p.key, originAS, maxLen, valCacheID⟩ ∈ h.roas
  | .request updateID p _ => p.version = family ∧ (∀ q ∈ h.requests, q.updateID ≠ updateID) ∧
    nodeAt c.prefixTree p.key ≠ .entry none

/-- The numbers of updates and ROAs fit the counters. -/
structure Fits (h : History) : Prop where
  requests : h.requests.length < 2 ^ 31
  matching : ∀ q ∈ h.requests, h.matchCount q.key q.as < 2 ^ 16
  covering : ∀ k, h.coverCount k < 2 ^ 32

section OriginValidation

variable {strict exact : Prop} {h : History} {c : PrefixCache} {op : Op} {ops : List Op}
  {family : IPVersion}

/-- An update that was requested is in one of the lists of its prefix. -/
theorem UpdatesOk.mem_lists {pc : PcPrefix} {lv lo : List (Nat × PcUpdate)} {q : Request}
    (hok : UpdatesOk h q.key pc lv lo) (hq : q ∈ h.requests) :
    ∃ x ∈ lv ++ lo, x.2.updateID = q.updateID ∧ x.2.as = q.as := by
  have hmem : (q.updateID, q.as) ∈ (h.requestsAt q.key).map fun q => (q.updateID, q.as) :=
    List.mem_map.mpr ⟨q, List.mem_filter.mpr ⟨hq, by simp⟩, rfl⟩
  obtain ⟨x, hx, heq⟩ := List.mem_map.mp (hok.requests.mem_iff.mpr hmem)
  obtain ⟨hid, has⟩ := Prod.mk.inj heq
  exact ⟨x, hx, hid, has⟩

theorem rfc6811_valid {roas : List Roa} {reqs : List Request} {k : List Bool} {as : UInt32}
    (hpos : 0 < (⟨roas, reqs⟩ : History).matchCount k as) : rfc6811 roas k as = .valid := by
  obtain ⟨r, hr, hm⟩ := History.matchCount_pos.mp hpos
  exact if_pos (List.any_eq_true.mpr ⟨r, hr, hm⟩)

/-- The invariant gives the results. -/
theorem Inv.resultsOk (hinv : Inv strict exact h c) (hs : strict) : ResultsOk h c := by
  intro q hq
  obtain ⟨pc, hpc⟩ := Option.ne_none_iff_exists'.mp (hinv.requests q hq)
  obtain ⟨lv, lo, hok, hrep⟩ := hinv.node q.key pc hpc
  have hrep := hrep hs
  obtain ⟨x, hx, hid, has⟩ := hok.mem_lists hq
  rcases List.mem_append.mp hx with hx | hx
  · rw [← hid, hrep.valid x hx, ← has, rfc6811_valid (hok.valid x hx).2]
  · rw [← hid, hrep.other x hx, ← has]
    have hnone : ¬ (h.roas.any fun r => r.matches q.key x.2.as) = true := by
      intro hany
      obtain ⟨r, hr, hm⟩ := List.any_eq_true.mp hany
      have := History.matchCount_pos.mpr ⟨r, hr, hm⟩
      have := (hok.other x hx).2
      omega
    rw [rfc6811, if_neg hnone]
    by_cases hroa : ∃ r ∈ h.roas, r.key <+: q.key
    · rw [if_pos (by simpa using hroa), hrep.state.mpr hroa]
    · rw [if_neg (by simpa using hroa)]
      rcases hok.state with hstate | hstate
      · exact absurd (hrep.state.mp hstate) hroa
      · rw [hstate]

/-- Without duplicates `update_count` is at most the number of updates. -/
theorem Inv.updateCount_le (hinv : Inv strict exact h c) (hx : exact) {k : List Bool}
    {e : UInt32 × PcRoa} (he : e ∈ entriesAt c.prefixTree k) :
    e.2.updateCount.toNat ≤ h.requests.length := by
  rw [(hinv.entry he).1.counts hx]
  exact List.countP_le_length

/-- A call does not reach a defect if no ROA is announced twice, the counters fit and no request
meets a prefix that was freed. -/
theorem Exact.noDefect (hexact : Exact h c op) (hinv : Inv strict exact h c) (hx : exact)
    (hnodup : h.roas.Nodup) (hfits : Fits (h.step op))
    (hdata : ∀ id p as, op = .request id p as → nodeAt c.prefixTree p.key ≠ .entry none) :
    NoDefect h c op := by
  have hsize := hinv.size
  cases op with
  | add originAS p maxLen valCacheID suppress =>
    intro hrfc
    have hadded : h.step (.add originAS p maxLen valCacheID suppress) =
        h.addRoa ⟨p.key, originAS, maxLen, valCacheID⟩ := if_neg (by simp [hrfc])
    rw [hadded] at hfits
    refine ⟨?_, hfits.covering, hfits.matching, fun e he => ?_⟩
    · rw [List.count_eq_zero_of_not_mem hexact]
      decide
    · have := hinv.updateCount_le hx he
      omega
  | del originAS p maxLen valCacheID suppress => trivial
  | request updateID p as =>
    refine ⟨hdata _ _ _ rfl, fun _ r hr _ => List.count_eq_one_of_mem hnodup hr, ?_,
      hfits.covering p.key, hfits.matching ⟨updateID, p.key, as⟩ (by simp [History.step,
        History.addRequest]), fun k e he => ?_⟩
    · simpa [History.step, History.addRequest] using hfits.requests
    · have := hinv.updateCount_le hx he
      omega

theorem Exact.nodup (hexact : Exact h c op) (hnodup : h.roas.Nodup) : (h.step op).roas.Nodup := by
  cases op with
  | add originAS p maxLen valCacheID suppress =>
    rw [History.step]
    split
    · exact hnodup
    · exact List.nodup_cons.mpr ⟨hexact, hnodup⟩
  | del originAS p maxLen valCacheID suppress => exact hnodup.erase _
  | request updateID p as => exact hnodup

theorem Allowed.notPresent (hallowed : Allowed family h c op) : Exact h c op := by
  cases op with
  | add => exact hallowed.2.2.2
  | del => trivial
  | request => trivial

theorem Allowed.coversItself (hallowed : Allowed family h c op) : Strict h c op := by
  cases op with
  | add => exact hallowed.2.1
  | del => trivial
  | request => exact hallowed.2.1

/-- A call of a well-behaved validation cache does not reach a defect. -/
theorem Allowed.noDefect (hallowed : Allowed family h c op) (hinv : Inv strict exact h c)
    (hx : exact) (hnodup : h.roas.Nodup) (hfits : Fits (h.step op)) : NoDefect h c op := by
  refine hallowed.notPresent.noDefect hinv hx hnodup hfits fun id p as heq => ?_
  subst heq
  exact hallowed.2.2

/-- The invariant of runs with well-behaved validation caches. -/
theorem Inv.run_allowed (hinv : Inv True True h c) (hnodup : h.roas.Nodup)
    (hallowed : Along (Allowed family) h c ops)
    (hfits : ∀ ops₁, ops₁ <+: ops → Fits (h.run ops₁)) :
    ∃ c', Cache.run c ops = some c' ∧ Inv True True (h.run ops) c' := by
  induction ops generalizing h c with
  | nil => exact ⟨c, rfl, hinv⟩
  | cons op ops ih =>
    have hfit : Fits (h.step op) := hfits [op] (by simp)
    obtain ⟨c₁, hstep, hinv₁⟩ := hinv.step (hallowed.1.noDefect hinv trivial hnodup hfit)
      (fun _ => hallowed.1.coversItself) fun _ => hallowed.1.notPresent
    obtain ⟨c', hrun, hinv'⟩ := ih hinv₁ (hallowed.1.notPresent.nodup hnodup) (hallowed.2 c₁ hstep)
      fun ops₁ hpre => hfits (op :: ops₁) (List.cons_prefix_cons.mpr ⟨rfl, hpre⟩)
    exact ⟨c', by rw [Cache.run, hstep]; exact hrun, hinv'⟩

end OriginValidation

theorem length_step (h : History) (op : Op) : (h.step op).roas.length ≤ h.roas.length + 1 ∧
    (h.step op).requests.length ≤ h.requests.length + 1 := by
  cases op with
  | add originAS p maxLen valCacheID suppress =>
    rw [History.step]
    split <;> simp [History.addRoa]
  | del originAS p maxLen valCacheID suppress =>
    have hle := List.length_erase_le (a := (⟨p.key, originAS, maxLen, valCacheID⟩ : Roa))
      (l := h.roas)
    exact ⟨Nat.le_succ_of_le hle, Nat.le_succ _⟩
  | request updateID p as => simp [History.step, History.addRequest]

theorem length_run (h : History) (ops : List Op) :
    (h.run ops).roas.length ≤ h.roas.length + ops.length ∧
      (h.run ops).requests.length ≤ h.requests.length + ops.length := by
  induction ops generalizing h with
  | nil => simp [History.run]
  | cons op ops ih =>
    obtain ⟨h1, h2⟩ := length_step h op
    obtain ⟨h3, h4⟩ := ih (h.step op)
    rw [History.run, List.foldl_cons, List.length_cons]
    rw [History.run] at h3 h4
    omega

/-- A run of less than 65536 calls fits. -/
theorem fits_run {ops : List Op} (hlen : ops.length < 2 ^ 16) (ops₁ : List Op)
    (hpre : ops₁ <+: ops) : Fits (History.empty.run ops₁) := by
  obtain ⟨hroas, hreqs⟩ := length_run .empty ops₁
  have hle := hpre.length_le
  simp only [History.empty, List.length_nil, Nat.zero_add] at hroas hreqs
  refine ⟨by simp only [History.empty]; omega, fun q _ => ?_, fun k => ?_⟩
  · exact Nat.lt_of_le_of_lt List.countP_le_length (by simp only [History.empty]; omega)
  · exact Nat.lt_of_le_of_lt List.countP_le_length (by simp only [History.empty]; omega)

/-- Origin validation. As long as the numbers fit the counters, the result last reported for every
update is that of RFC 6811 after every call of a run. -/
theorem origin_validation (family : IPVersion) (ops : List Op)
    (hallowed : Along (Allowed family) .empty initializePrefixCache ops)
    (hfits : ∀ ops₁, ops₁ <+: ops → Fits (History.empty.run ops₁)) :
    ∀ ops₁, ops₁ <+: ops → ∃ c, run initializePrefixCache ops₁ = some c ∧
      ResultsOk (History.empty.run ops₁) c := by
  intro ops₁ hpre
  obtain ⟨c, hrun, hinv⟩ := (inv_init True True).run_allowed List.nodup_nil
    (hallowed.of_prefix hpre) fun ops₂ hpre₂ => hfits ops₂ (hpre₂.trans hpre)
  exact ⟨c, hrun, hinv.resultsOk trivial⟩

/-- `10.0.0.0/8` -/
def ten8 : IPPrefix := ⟨.v4, [10, 0, 0, 0], 8, rfl, by decide⟩

/-- A ROA and an update that it matches. -/
theorem origin_validation_ten8 :
    Along (Allowed .v4) .empty initializePrefixCache
      [.add 1 ten8 8 0 false, .request 1 ten8 1] ∧
    ∀ ops₁, ops₁ <+: [.add 1 ten8 8 0 false, .request 1 ten8 1] →
      ∃ c, run initializePrefixCache ops₁ = some c ∧ ResultsOk (History.empty.run ops₁) c := by
  have hdata : (step initializePrefixCache (.add 1 ten8 8 0 false)).map
      (fun c => (dataAt c.prefixTree ten8.key).isSome) = some true := by decide
  have hallowed : Along (Allowed .v4) .empty initializePrefixCache
      [.add 1 ten8 8 0 false, .request 1 ten8 1] := by
    refine ⟨⟨rfl, by decide, by decide, List.not_mem_nil⟩, fun c hstep => ⟨⟨rfl, ?_, ?_⟩,
      fun _ _ => trivial⟩⟩
    · exact fun q hq => absurd hq List.not_mem_nil
    · intro hnull
      rw [hstep, Option.map_some, dataAt, hnull] at hdata
      simp [TreeNode.data] at hdata
  exact ⟨hallowed, origin_validation .v4 _ hallowed (fits_run (by decide))⟩

/-- The same ROA from many validation caches. -/
def manyRoas (n : Nat) : List Op :=
  (List.range n).map fun i => .add 1 ten8 8 (UInt32.ofNat i) false

namespace ManyRoas

/-- The ROA of the validation cache `i`. -/
def roa (i : Nat) : Roa := ⟨ten8.key, 1, 8, UInt32.ofNat i⟩

theorem manyRoas_succ (n : Nat) :
    manyRoas (n + 1) = manyRoas n ++ [.add 1 ten8 8 (UInt32.ofNat n) false] := by
  rw [manyRoas, List.range_succ, List.map_append]
  rfl

theorem run_manyRoas (n : Nat) :
    History.empty.run (manyRoas n) = ⟨((List.range n).map roa).reverse, []⟩ := by
  induction n with
  | zero => rfl
  | succ n ih =>
    have hrun : History.empty.run (manyRoas (n + 1)) =
        (History.empty.run (manyRoas n)).addRoa (roa n) := by
      rw [manyRoas_succ, History.run, List.foldl_append]
      rfl
    rw [hrun, ih, List.range_succ, List.map_append, List.reverse_append]
    rfl

theorem roa_not_mem {n : Nat} (hn : n < 2 ^ 32) : roa n ∉ (History.empty.run (manyRoas n)).roas := by
  rw [run_manyRoas, List.mem_reverse, List.mem_map]
  rintro ⟨i, hi, heq⟩
  have hid := congrArg (fun r => r.valCacheID.toNat) heq
  have hlt := List.mem_range.mp hi
  simp only [roa, UInt32.toNat_ofNat'] at hid
  rw [Nat.mod_eq_of_lt (Nat.lt_trans hlt hn), Nat.mod_eq_of_lt hn] at hid
  omega

theorem matchCount_manyRoas (n : Nat) :
    (History.empty.run (manyRoas n)).matchCount ten8.key 1 = n := by
  rw [run_manyRoas, History.matchCount, List.countP_eq_length.mpr]
  · simp
  · intro r hr
    obtain ⟨i, -, rfl⟩ := List.mem_map.mp (List.mem_reverse.mp hr)
    rw [matches_iff]
    exact ⟨⟨List.prefix_rfl, Nat.le_of_eq (length_key ten8)⟩, rfl⟩

theorem coverCount_le (n : Nat) (k : List Bool) :
    (History.empty.run (manyRoas n)).coverCount k ≤ n := by
  rw [run_manyRoas, History.coverCount]
  exact List.countP_le_length.trans (by simp)

theorem noDefect_add {n : Nat} {c : PrefixCache} (hn : n + 1 < 2 ^ 32)
    (hinv : Inv True True (History.empty.run (manyRoas n)) c) :
    NoDefect (History.empty.run (manyRoas n)) c (.add 1 ten8 8 (UInt32.ofNat n) false) := by
  intro _
  refine ⟨?_, fun k => ?_, ?_, fun e he => ?_⟩
  · have hcount := List.count_eq_zero_of_not_mem (roa_not_mem (Nat.lt_of_succ_lt hn))
    rw [roa] at hcount
    rw [hcount]
    decide
  · rw [History.coverCount_addRoa]
    have := coverCount_le n k
    split <;> omega
  · rw [run_manyRoas]
    simp
  · have hle := hinv.updateCount_le trivial he
    rw [run_manyRoas] at hle ⊢
    simp only [List.length_nil] at hle ⊢
    omega

theorem inv_manyRoas {n : Nat} (hn : n < 2 ^ 32) : ∃ c, run initializePrefixCache (manyRoas n) =
    some c ∧ Inv True True (History.empty.run (manyRoas n)) c := by
  induction n with
  | zero => exact ⟨_, rfl, inv_init True True⟩
  | succ n ih =>
    obtain ⟨c, hrun, hinv⟩ := ih (Nat.lt_of_succ_lt hn)
    obtain ⟨c', hstep, hinv'⟩ := hinv.step (noDefect_add hn hinv)
      (fun _ => show ten8.length ≤ 8 by decide) fun _ => roa_not_mem (Nat.lt_of_succ_lt hn)
    have hhist : History.empty.run (manyRoas (n + 1)) = (History.empty.run (manyRoas n)).step
        (.add 1 ten8 8 (UInt32.ofNat n) false) := by
      rw [manyRoas_succ, History.run, List.foldl_append]
      rfl
    exact ⟨c', by rw [manyRoas_succ, run_append, hrun]; simp [Cache.run, hstep], hhist ▸ hinv'⟩

theorem allowed_manyRoas {n : Nat} (hn : n < 2 ^ 32) :
    Along (Allowed .v4) .empty initializePrefixCache (manyRoas n) := by
  induction n with
  | zero => trivial
  | succ n ih =>
    rw [manyRoas_succ]
    refine (ih (Nat.lt_of_succ_lt hn)).append fun c _ => ⟨⟨rfl, by decide, by decide, ?_⟩,
      fun _ _ => trivial⟩
    exact roa_not_mem (Nat.lt_of_succ_lt hn)

/-- The prefix of the ROAs is in the tree. -/
theorem known_manyRoas {n : Nat} (hpos : 0 < n) {c : PrefixCache}
    (hinv : Inv True True (History.empty.run (manyRoas n)) c) :
    nodeAt c.prefixTree ten8.key ≠ .entry none ∧ nodeAt c.prefixTree ten8.key ≠ .glue := by
  have hmatch := matchCount_manyRoas n
  have hcover : 0 < (History.empty.run (manyRoas n)).coverCount ten8.key := by
    have := matchCount_le_coverCount (History.empty.run (manyRoas n)) ten8.key 1
    omega
  have hdata : dataAt c.prefixTree ten8.key ≠ none := by
    obtain ⟨r, hr, hcov⟩ := History.coverCount_pos.mp hcover
    have hkey : r.key = ten8.key := by
      rw [run_manyRoas] at hr
      obtain ⟨i, -, rfl⟩ := List.mem_map.mp (List.mem_reverse.mp hr)
      rfl
    exact hkey ▸ hinv.roas r hr
  exact ⟨fun heq => hdata (by rw [dataAt, heq]; rfl), fun heq => hdata (by rw [dataAt, heq]; rfl)⟩

/-- The run with a number of ROAs that 16 bits do not hold. -/
theorem results_manyRoas {n : Nat} (hn : n < 2 ^ 32) (hpos : 0 < n)
    (hzero : UInt16.ofNat n = 0) :
    Along (Allowed .v4) .empty initializePrefixCache (manyRoas n ++ [.request 1 ten8 1]) ∧
      ¬ ∀ ops₁, ops₁ <+: manyRoas n ++ [.request 1 ten8 1] →
        ∃ c, run initializePrefixCache ops₁ = some c ∧ ResultsOk (History.empty.run ops₁) c := by
  obtain ⟨c, hrun, hinv⟩ := inv_manyRoas hn
  obtain ⟨hnode, hglue⟩ := known_manyRoas hpos hinv
  have hmatch := matchCount_manyRoas n
  have hcover : 0 < (History.empty.run (manyRoas n)).coverCount ten8.key := by
    have := matchCount_le_coverCount (History.empty.run (manyRoas n)) ten8.key 1
    omega
  have hreqs : (History.empty.run (manyRoas n)).requests = [] := by rw [run_manyRoas]
  have hhist : History.empty.run (manyRoas n ++ [.request 1 ten8 1]) =
      (History.empty.run (manyRoas n)).addRequest ⟨1, ten8.key, 1⟩ := by
    rw [History.run, List.foldl_append]
    rfl
  constructor
  · refine (allowed_manyRoas hn).append fun c' hrun' => ⟨⟨rfl, ?_, ?_⟩, fun _ _ => trivial⟩
    · rw [hreqs]
      simp
    · exact Option.some.inj (hrun.symm.trans hrun') ▸ hnode
  · -- All matching ROAs are counted, and the sum is zero.
    obtain ⟨pc, t', pc', lv, lo, a, heq, -, hok, -⟩ := hinv.request_eq 1 ten8 1 hnode
      (by rw [hreqs]; decide) (Nat.lt_of_le_of_lt (coverCount_le n ten8.key) hn)
      (fun hg => absurd hg hglue) rfl
    rw [hmatch, if_pos hzero, hok.covered hcover] at heq
    intro hall
    obtain ⟨c', hrun', hresults⟩ := hall _ List.prefix_rfl
    rw [run_append, hrun, Option.bind_some, Cache.run, Cache.step, heq] at hrun'
    obtain rfl := Option.some.inj hrun'
    have hresult := hresults ⟨1, ten8.key, 1⟩ (by rw [hhist]; simp [History.addRequest])
    have hvalid : rfc6811 (History.empty.run (manyRoas n)).roas ten8.key 1 = .valid :=
      rfc6811_valid (hmatch ▸ hpos)
    rw [lastReport_append, hhist, History.roas_addRequest, hvalid] at hresult
    simp [lastReport] at hresult

end ManyRoas

/-- `roa_match` has 16 bits: with 65536 ROAs that match it, an update is reported as INVALID. -/
theorem many_roas_invalid :
    Along (Allowed .v4) .empty initializePrefixCache (manyRoas 65536 ++ [.request 1 ten8 1]) ∧
      ¬ ∀ ops₁, ops₁ <+: manyRoas 65536 ++ [.request 1 ten8 1] →
        ∃ c, run initializePrefixCache ops₁ = some c ∧ ResultsOk (History.empty.run ops₁) c :=
  ManyRoas.results_manyRoas (by decide) (by decide) (by decide)

/-! ## No update is lost -/

/-- Every requested update is exactly once in one of the two lists of its prefix, in `valid` if and
only if `roa_match` is not zero; `size` and `last` of the lists agree with the nodes reachable from
`root` (`TwoLists`). -/
def ListsOk (h : History) (c : PrefixCache) : Prop :=
  ∀ k, match dataAt c.prefixTree k with
    | none => h.requestsAt k = []
    | some pc => ∃ lv lo, TwoLists pc.nodes pc.valid pc.other lv lo ∧
        ((lv ++ lo).map fun x => (x.2.updateID, x.2.as)).Perm
          ((h.requestsAt k).map fun q => (q.updateID, q.as)) ∧
        (∀ x ∈ lv, 0 < x.2.roaMatch) ∧ ∀ x ∈ lo, x.2.roaMatch = 0

theorem Inv.listsOk {strict exact : Prop} {h : History} {c : PrefixCache}
    (hinv : Inv strict exact h c) : ListsOk h c := by
  intro k
  cases hpc : dataAt c.prefixTree k with
  | none =>
    refine List.filter_eq_nil_iff.mpr fun q hq hkey => hinv.requests q hq ?_
    rw [beq_iff_eq] at hkey
    exact hkey ▸ hpc
  | some pc =>
    obtain ⟨lv, lo, hok, -⟩ := hinv.node k pc hpc
    refine ⟨lv, lo, hok.lists, hok.requests, fun x hx => ?_, fun x hx => (hok.other x hx).1⟩
    obtain ⟨h1, h2⟩ := hok.valid x hx
    rw [UInt16.lt_iff_toNat_lt, h1]
    exact h2

/-- No update is lost or duplicated in a run that does not reach a defect. ROAs can be announced
repeatedly, and withdrawn when they are not present. -/
theorem updates_listed (ops : List Op) (hok : Along NoDefect .empty initializePrefixCache ops) :
    ∀ ops₁, ops₁ <+: ops → ∃ c, run initializePrefixCache ops₁ = some c ∧
      ListsOk (History.empty.run ops₁) c := by
  intro ops₁ hpre
  obtain ⟨c, hrun, hinv⟩ := (inv_init False False).run (hok.of_prefix hpre) False.elim False.elim
  exact ⟨c, hrun, hinv.listsOk⟩

/-- An update, and a ROA that matches it. -/
theorem updates_listed_ten8 :
    Along NoDefect .empty initializePrefixCache [.request 1 ten8 1, .add 1 ten8 8 0 false] ∧
    ∀ ops₁, ops₁ <+: [.request 1 ten8 1, .add 1 ten8 8 0 false] →
      ∃ c, run initializePrefixCache ops₁ = some c ∧ ListsOk (History.empty.run ops₁) c := by
  have hentries : (step initializePrefixCache (.request 1 ten8 1)).map
      (fun c => entriesAt c.prefixTree ten8.key) = some [] := by decide
  have hok : Along NoDefect .empty initializePrefixCache
      [.request 1 ten8 1, .add 1 ten8 8 0 false] := by
    refine ⟨⟨?_, fun _ r hr => absurd hr List.not_mem_nil, by decide, by decide, by decide,
      fun k e he => ?_⟩, fun c hstep => ⟨fun _ => ⟨by decide, fun k => ?_, ?_, ?_⟩,
        fun _ _ => trivial⟩⟩
    · rw [nodeAt, initializePrefixCache, Trie.get?_null]
      simp
    · rw [entriesAt, initializePrefixCache, dataAt_null] at he
      exact absurd he List.not_mem_nil
    · exact Nat.lt_of_le_of_lt List.countP_le_length (by decide)
    · exact fun q _ => Nat.lt_of_le_of_lt List.countP_le_length (by decide)
    · rw [hstep, Option.map_some, Option.some.injEq] at hentries
      rw [hentries]
      exact fun e he => absurd he List.not_mem_nil
  exact ⟨hok, updates_listed _ hok⟩

/-- `10.0.0.0/16` -/
def ten16 : IPPrefix := ⟨.v4, [10, 0, 0, 0], 16, rfl, by decide⟩

/-- A ROA is announced twice before the first update below it is requested. -/
def lostRun : List Op :=
  [.add 1 ten8 24 0 false, .add 1 ten8 24 0 false, .request 1 ten16 1, .del 1 ten8 24 0 false,
    .request 2 ten16 1, .add 1 ten8 24 0 false, .del 1 ten8 24 0 false]

/-- The two updates have different `roa_match`, and `_delROAwl_moveToOther` does not advance
`prevNode` past the first: the list `valid` of size 1 loses its root. -/
theorem update_lost : ∃ c, run initializePrefixCache lostRun = some c ∧
    ¬ ListsOk (History.empty.run lostRun) c := by
  have hstate : ((run initializePrefixCache lostRun).map fun c =>
      (dataAt c.prefixTree ten16.key).map fun pc => (pc.valid.root, pc.valid.size)) =
      some (some (none, 1)) := by decide
  obtain ⟨c, hrun, hstate⟩ := Option.map_eq_some_iff.mp hstate
  obtain ⟨pc, hpc, hvalid⟩ := Option.map_eq_some_iff.mp hstate
  obtain ⟨hroot, hsize⟩ := Prod.mk.inj hvalid
  refine ⟨c, hrun, fun hlists => ?_⟩
  have hnode := hlists ten16.key
  rw [hpc] at hnode
  obtain ⟨lv, lo, htwo, -⟩ := hnode
  have hhead := chain_start htwo.left.chain
  have hlen := htwo.left.size
  rw [hroot] at hhead
  rw [hsize] at hlen
  cases lv with
  | nil => simp at hlen
  | cons x lv => simp [headPtr] at hhead

end SrxSuite.Cache

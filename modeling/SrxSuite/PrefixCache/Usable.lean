import SrxSuite.PrefixCache.Locality
import SrxSuite.PrefixCache.Runs

/-!
# Prefixes stay usable

A node of the tree is absent, or has a `PC_Prefix`, or has the `data` NULL. Every lookup inserts a
node; the withdrawal of an unknown ROA leaves one with NULL, and so does the withdrawal of the last
ROA of a prefix without updates. `requestUpdateValidation` looks at `ref_count` to see if a prefix
is known and does not expect NULL.

The lock of the tree is modelled by the lock statements a call passes, as the functions are
written (the macros can be compiled to nothing).

Results:
1. `prefixes_stay_usable`: as long as every prefix a ROA is withdrawn from stays in use and no other
   defect is reached, every call completes and releases the lock.
2. `withdrawal_breaks_prefix`: a withdrawal of an unknown ROA makes the next request of the prefix
   crash, and for a reserved AS it keeps the lock.
-/

namespace SrxSuite.Cache

open TreeLemmas LocalityLemmas

/-! ## The lock -/

/-- `RWLock`. -/
inductive TreeLock
  | free | write | read
  deriving DecidableEq, Repr

/-- The lock statements. -/
inductive LockStmt
  | writeLock | unlockWriteLock | writeToReadLock | unlockReadLock
  deriving DecidableEq, Repr

/-- A lock statement; `none` is a call that waits for ever, or an unlock of a lock that is not
held. -/
def LockStmt.exec : LockStmt → TreeLock → Option TreeLock
  | .writeLock, .free => some .write
  | .unlockWriteLock, .write => some .free
  | .writeToReadLock, .write => some .read
  | .unlockReadLock, .read => some .free
  | _, _ => none

/-- The lock statements of `addROAwl`; a reserved AS returns before the lock is taken. -/
def addROAwlLocks (originAS : UInt32) : List LockStmt :=
  if belongsToRfc5398 originAS then [] else [.writeLock, .unlockWriteLock]

/-- The lock statements of `delROAwl`. -/
def delROAwlLocks (self : PrefixCache) (originAS : UInt32) (p : IPPrefix) : List LockStmt :=
  match (nodeAt self.prefixTree p.key).data with
  | none =>
    -- The branch for a reserved AS returns without `UNLOCK_WRITE_LOCK`.
    if belongsToRfc5398 originAS then [.writeLock] else [.writeLock, .unlockWriteLock]
  | some _ => [.writeLock, .unlockWriteLock]

/-- The lock statements of `requestUpdateValidation`. -/
def requestUpdateValidationLocks : List LockStmt := [.writeLock, .writeToReadLock, .unlockReadLock]

/-- The lock statements of a call. -/
def stepLocks (self : PrefixCache) : Op → List LockStmt
  | .add originAS _ _ _ _ => addROAwlLocks originAS
  | .del originAS p _ _ _ => delROAwlLocks self originAS p
  | .request _ _ _ => requestUpdateValidationLocks

/-- A call with its lock statements. -/
def lockedStep (s : PrefixCache × TreeLock) (op : Op) : Option (PrefixCache × TreeLock) := do
  let lock ← (stepLocks s.1 op).foldlM (fun lock stmt => stmt.exec lock) s.2
  let c ← step s.1 op
  some (c, lock)

/-- A sequence of calls with their lock statements. -/
def lockedRun (s : PrefixCache × TreeLock) : List Op → Option (PrefixCache × TreeLock)
  | [] => some s
  | op :: ops => (lockedStep s op).bind fun s => lockedRun s ops

/-- Every call of the run completes and releases the lock, and no prefix has the data NULL. -/
def StaysUsable (ops : List Op) : Prop :=
  ∀ ops₁, ops₁ <+: ops → ∃ c, lockedRun (initializePrefixCache, .free) ops₁ = some (c, .free) ∧
    ∀ k, nodeAt c.prefixTree k ≠ .entry none

/-! ## Prefixes in use -/

/-- A ROA or an update of the prefix is there. -/
def History.InUse (h : History) (k : List Bool) : Prop :=
  (∃ r ∈ h.roas, r.key = k) ∨ ∃ q ∈ h.requests, q.key = k

/-- What is needed to request an update for a prefix that has data, or is not in the tree. -/
structure RequestFits (h : History) (c : PrefixCache) (q : Request) : Prop where
  single : nodeAt c.prefixTree q.key = .glue → ∀ r ∈ h.roas, r.covers q.key = true →
    h.roas.count r = 1
  size : h.requests.length + 1 < 2 ^ 31
  fitsCover : h.coverCount q.key < 2 ^ 32
  fitsMatch : h.matchCount q.key q.as < 2 ^ 16
  fitsUpdates : ∀ k, ∀ e ∈ entriesAt c.prefixTree k, e.2.updateCount.toNat + 1 < 2 ^ 32

/-- The call does not reach a defect: no counter overflows, no prefix that is new to the tree is
covered by a ROA with duplicates, and a prefix that a ROA is withdrawn from is in use. -/
def Harmless (h : History) (c : PrefixCache) : Op → Prop
  | .add originAS p maxLen valCacheID _ =>
    belongsToRfc5398 originAS = false → AddOk h c ⟨p.key, originAS, maxLen, valCacheID⟩
  | .del originAS p maxLen valCacheID _ =>
    (h.delRoa ⟨p.key, originAS, maxLen, valCacheID⟩).InUse p.key
  | .request updateID p as => RequestFits h c ⟨updateID, p.key, as⟩

namespace UsableLemmas

variable {h : History} {c c' : PrefixCache} {op : Op}

theorem harmless_noDefect (hharm : Harmless h c op)
    (hnull : ∀ k, nodeAt c.prefixTree k ≠ .entry none) : NoDefect h c op := by
  cases op with
  | add => exact hharm
  | del => trivial
  | request updateID p as =>
    obtain ⟨hsingle, hsize, hcover, hmatch, hupdates⟩ := hharm
    exact ⟨hnull p.key, hsingle, hsize, hcover, hmatch, hupdates⟩

theorem dataAt_of_inUse (hinv : Inv False False h c) {k : List Bool} (huse : h.InUse k) :
    dataAt c.prefixTree k ≠ none := by
  rcases huse with ⟨r, hr, rfl⟩ | ⟨q, hq, rfl⟩
  · exact hinv.roas r hr
  · exact hinv.requests q hq

theorem inUse_of_delRoa {r : Roa} {k : List Bool} (huse : (h.delRoa r).InUse k) : h.InUse k := by
  rcases huse with ⟨r', hr', hk⟩ | huse
  · exact .inl ⟨r', List.mem_of_mem_erase hr', hk⟩
  · exact .inr huse

/-- The prefix of a call is in use after it, unless the call was for a reserved AS. -/
theorem inUse_step (hharm : Harmless h c op) :
    (h.step op).InUse op.ipPrefix.key ∨
      ∃ originAS p maxLen valCacheID suppress,
        op = .add originAS p maxLen valCacheID suppress ∧ belongsToRfc5398 originAS = true := by
  cases op with
  | add originAS p maxLen valCacheID suppress =>
    by_cases hrfc : belongsToRfc5398 originAS = true
    · exact .inr ⟨_, _, _, _, _, rfl, hrfc⟩
    · refine .inl (.inl ⟨⟨p.key, originAS, maxLen, valCacheID⟩, ?_, rfl⟩)
      rw [History.step, if_neg hrfc]
      exact List.mem_cons_self
  | del originAS p maxLen valCacheID suppress => exact .inl hharm
  | request updateID p as =>
    exact .inl (.inr ⟨⟨updateID, p.key, as⟩, by simp [History.step, History.addRequest], rfl⟩)

/-- A call that reaches no defect leaves no prefix with NULL. -/
theorem noNull_step (hharm : Harmless h c op) (hinv' : Inv False False (h.step op) c')
    (hnull : ∀ k, nodeAt c.prefixTree k ≠ .entry none) (hstep : step c op = some c') :
    ∀ k, nodeAt c'.prefixTree k ≠ .entry none := by
  rcases inUse_step hharm with huse | ⟨originAS, p, maxLen, valCacheID, suppress, rfl, hrfc⟩
  · obtain ⟨c₁, hc₁, rfl⟩ := step_inv hstep
    obtain ⟨hchange, -, -⟩ := step_near (P := fun _ => True) (fun _ _ _ _ _ _ _ => trivial)
      (fun _ _ _ _ => trivial) hc₁
    intro k hk
    by_cases hkey : k = op.ipPrefix.key
    · subst hkey
      refine dataAt_of_inUse hinv' huse ?_
      rw [dataAt, hk]
      rfl
    · exact hnull k (hchange.null k hkey hk)
  · simp only [step, addROAwl, if_pos hrfc, Option.map_some, Option.some.injEq] at hstep
    subst hstep
    exact hnull

/-- A call that reaches no defect releases the lock. -/
theorem locks_step (hinv : Inv False False h c) (hharm : Harmless h c op) :
    (stepLocks c op).foldlM (fun lock stmt => stmt.exec lock) TreeLock.free = some .free := by
  cases op with
  | add originAS p maxLen valCacheID suppress =>
    show (addROAwlLocks originAS).foldlM _ _ = _
    unfold addROAwlLocks
    split
    · rfl
    · rfl
  | del originAS p maxLen valCacheID suppress =>
    have hdata := dataAt_of_inUse hinv (inUse_of_delRoa hharm)
    obtain ⟨pc, hpc⟩ := Option.ne_none_iff_exists'.mp hdata
    have hpc : (nodeAt c.prefixTree p.key).data = some pc := hpc
    show (delROAwlLocks c originAS p).foldlM _ _ = _
    rw [delROAwlLocks, hpc]
    rfl
  | request updateID p as => rfl

/-- The run lemma. -/
theorem usable_run {ops : List Op} (hinv : Inv False False h c)
    (hnull : ∀ k, nodeAt c.prefixTree k ≠ .entry none) (hall : Along Harmless h c ops) :
    ∃ c', lockedRun (c, .free) ops = some (c', .free) ∧ ∀ k, nodeAt c'.prefixTree k ≠ .entry none := by
  induction ops generalizing h c with
  | nil => exact ⟨c, rfl, hnull⟩
  | cons op ops ih =>
    obtain ⟨c₁, hstep, hinv₁⟩ := hinv.step (harmless_noDefect hall.1 hnull) False.elim False.elim
    have hnull₁ := noNull_step hall.1 hinv₁ hnull hstep
    obtain ⟨c', hrun, hnull'⟩ := ih hinv₁ hnull₁ (hall.2 c₁ hstep)
    refine ⟨c', ?_, hnull'⟩
    have hlocked : lockedStep (c, .free) op = some (c₁, .free) := by
      simp only [lockedStep, locks_step hinv hall.1, hstep, Option.bind_eq_bind, Option.bind_some]
    rw [lockedRun, hlocked]
    exact hrun

end UsableLemmas

open UsableLemmas in
/-- In a run that reaches no defect every call completes, releases the lock and leaves no prefix
with NULL. -/
theorem prefixes_stay_usable (ops : List Op)
    (hall : Along Harmless .empty initializePrefixCache ops) : StaysUsable ops := by
  intro ops₁ hpre
  have hnull (k : List Bool) : nodeAt initializePrefixCache.prefixTree k ≠ .entry none := by
    rw [nodeAt, initializePrefixCache, Trie.get?_null]
    simp
  exact usable_run (inv_init False False) hnull (hall.of_prefix hpre)

/-- An update is requested, a ROA announced and withdrawn again: the update keeps the prefix in
use. -/
theorem prefixes_stay_usable_ten8 :
    StaysUsable [.request 1 ten8 1, .add 1 ten8 8 0 false, .del 1 ten8 8 0 false] := by
  have hentries : (step initializePrefixCache (.request 1 ten8 1)).map
      (fun c => entriesAt c.prefixTree ten8.key) = some [] := by decide
  refine prefixes_stay_usable _ ⟨⟨fun _ r hr => absurd hr List.not_mem_nil, by decide, by decide,
    by decide, fun k e he => ?_⟩, fun c hstep => ⟨fun _ => ⟨by decide, fun k => ?_, ?_, ?_⟩,
      fun c' _ => ⟨.inr ⟨⟨1, ten8.key, 1⟩, by decide, rfl⟩, fun _ _ => trivial⟩⟩⟩
  · rw [entriesAt, initializePrefixCache, dataAt_null] at he
    exact absurd he List.not_mem_nil
  · exact Nat.lt_of_le_of_lt List.countP_le_length (by decide)
  · exact fun q _ => Nat.lt_of_le_of_lt List.countP_le_length (by decide)
  · rw [hstep, Option.map_some, Option.some.injEq] at hentries
    rw [hentries]
    exact fun e he => absurd he List.not_mem_nil

/-- The withdrawal of an unknown ROA leaves a prefix with NULL, the next request crashes. The
withdrawal for a reserved AS returns with the lock. -/
theorem withdrawal_breaks_prefix :
    ¬ StaysUsable [.del 1 ten8 8 0 false, .request 1 ten8 1] ∧
    ¬ StaysUsable [.del 64496 ten8 8 0 false] := by
  have hcrash : (lockedRun (initializePrefixCache, .free)
      [.del 1 ten8 8 0 false, .request 1 ten8 1]).map Prod.snd = none := by decide
  have hlock : (lockedRun (initializePrefixCache, .free) [.del 64496 ten8 8 0 false]).map Prod.snd =
      some .write := by decide
  constructor
  · intro hall
    obtain ⟨c, hrun, -⟩ := hall _ List.prefix_rfl
    rw [hrun] at hcrash
    cases hcrash
  · intro hall
    obtain ⟨c, hrun, -⟩ := hall _ List.prefix_rfl
    rw [hrun] at hlock
    cases hlock

end SrxSuite.Cache

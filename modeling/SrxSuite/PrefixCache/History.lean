import Mathlib.Data.List.Count
import SrxSuite.PrefixCache.Defs

/-!
# The history of a prefix cache

What a sequence of calls means: the ROAs that are present, with multiplicity, and the updates
that were requested. `rfc6811` is the result an update should have.
-/

namespace SrxSuite.Cache

/-- A ROA white-list entry. -/
structure Roa where
  key : List Bool
  as : UInt32
  maxLen : UInt8
  valCacheID : UInt32
  deriving DecidableEq, Repr

/-- A requested update. -/
structure Request where
  updateID : UInt32
  key : List Bool
  as : UInt32
  deriving DecidableEq, Repr

/-- The ROA sits at the prefix or above, and its `maxLen` allows the length. -/
def Roa.covers (r : Roa) (k : List Bool) : Bool :=
  decide (r.key <+: k) && decide (k.length ≤ r.maxLen.toNat)

/-- The ROA makes an update of the AS valid. -/
def Roa.matches (r : Roa) (k : List Bool) (as : UInt32) : Bool := r.covers k && r.as == as

/-- The result of RFC 6811 for a prefix and an origin AS. -/
def rfc6811 (roas : List Roa) (k : List Bool) (as : UInt32) : SrxResult :=
  if roas.any fun r => r.matches k as then .valid
  else if roas.any fun r => decide (r.key <+: k) then .invalid
  else .notFound

structure History where
  roas : List Roa
  requests : List Request

namespace History

def empty : History := ⟨[], []⟩

def addRoa (h : History) (r : Roa) : History := { h with roas := r :: h.roas }

def delRoa (h : History) (r : Roa) : History := { h with roas := h.roas.erase r }

def addRequest (h : History) (q : Request) : History := { h with requests := h.requests ++ [q] }

/-- A call. The entries of a reserved AS are never present, and the withdrawal of a ROA that is
not present changes nothing. -/
def step (h : History) : Op → History
  | .add originAS p maxLen valCacheID _ =>
    if belongsToRfc5398 originAS then h else h.addRoa ⟨p.key, originAS, maxLen, valCacheID⟩
  | .del originAS p maxLen valCacheID _ => h.delRoa ⟨p.key, originAS, maxLen, valCacheID⟩
  | .request updateID p as => h.addRequest ⟨updateID, p.key, as⟩

def run (h : History) (ops : List Op) : History := ops.foldl step h

variable (h : History)

/-- How many ROAs cover a prefix. -/
def coverCount (k : List Bool) : Nat := h.roas.countP fun r => r.covers k

/-- How many ROAs make an update valid. -/
def matchCount (k : List Bool) (as : UInt32) : Nat := h.roas.countP fun r => r.matches k as

/-- How many updates a ROA makes valid. -/
def matchedBy (r : Roa) : Nat := h.requests.countP fun q => r.matches q.key q.as

/-- The updates requested for a prefix. -/
def requestsAt (k : List Bool) : List Request := h.requests.filter fun q => q.key == k

variable {h} {r : Roa} {k : List Bool} {as : UInt32}

@[simp] theorem requests_addRoa : (h.addRoa r).requests = h.requests := rfl

@[simp] theorem requests_delRoa : (h.delRoa r).requests = h.requests := rfl

@[simp] theorem roas_addRequest (q : Request) : (h.addRequest q).roas = h.roas := rfl

theorem countP_addRoa (p : Roa → Bool) :
    (h.addRoa r).roas.countP p = h.roas.countP p + if p r then 1 else 0 := List.countP_cons

/-- Erasing an element takes it out of every count. -/
theorem countP_delRoa (p : Roa → Bool) (hr : r ∈ h.roas) :
    (h.delRoa r).roas.countP p + (if p r then 1 else 0) = h.roas.countP p := by
  rw [← countP_addRoa (h := h.delRoa r)]
  exact (List.perm_cons_erase hr).symm.countP_eq p

theorem coverCount_addRoa :
    (h.addRoa r).coverCount k = h.coverCount k + if r.covers k then 1 else 0 := countP_addRoa _

theorem matchCount_addRoa :
    (h.addRoa r).matchCount k as = h.matchCount k as + if r.matches k as then 1 else 0 :=
  countP_addRoa _

theorem coverCount_delRoa (hr : r ∈ h.roas) :
    (h.delRoa r).coverCount k + (if r.covers k then 1 else 0) = h.coverCount k :=
  countP_delRoa _ hr

theorem matchCount_delRoa (hr : r ∈ h.roas) :
    (h.delRoa r).matchCount k as + (if r.matches k as then 1 else 0) = h.matchCount k as :=
  countP_delRoa _ hr

theorem matchedBy_addRequest (q : Request) :
    (h.addRequest q).matchedBy r = h.matchedBy r + if r.matches q.key q.as then 1 else 0 := by
  simp [matchedBy, addRequest, List.countP_append, List.countP_singleton]

theorem coverCount_pos : 0 < h.coverCount k ↔ ∃ r ∈ h.roas, r.covers k = true := by
  simp [coverCount, List.countP_pos_iff]

theorem matchCount_pos : 0 < h.matchCount k as ↔ ∃ r ∈ h.roas, r.matches k as = true := by
  simp [matchCount, List.countP_pos_iff]

end History

@[simp] theorem covers_iff {r : Roa} {k : List Bool} :
    r.covers k = true ↔ r.key <+: k ∧ k.length ≤ r.maxLen.toNat := by
  simp [Roa.covers]

@[simp] theorem matches_iff {r : Roa} {k : List Bool} {as : UInt32} :
    r.matches k as = true ↔ (r.key <+: k ∧ k.length ≤ r.maxLen.toNat) ∧ r.as = as := by
  simp [Roa.matches]

theorem not_covers_below {r : Roa} {w u : List Bool} (hcov : r.covers w = false) (hkey : r.key <+: w) :
    r.covers (w ++ u) = false := by
  rw [← Bool.not_eq_true, covers_iff]
  rintro ⟨-, hlen⟩
  rw [← Bool.not_eq_true, covers_iff, not_and] at hcov
  refine hcov hkey (Nat.le_trans ?_ hlen)
  simp

end SrxSuite.Cache

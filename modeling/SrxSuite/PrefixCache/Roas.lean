import SrxSuite.PrefixCache.Nodes

/-!
# The ROAs of one prefix

`AsnOk` relates the list `asn` of a prefix, with the ROAs of every AS, to the history of the
cache. `RoasOk` is about the ROAs: `roa_count` counts the identical ROAs that are present, and
`update_count` is not less than the number of updates the ROA matches. `CountsOk` is about the
updates of every AS.

The multiplicities are stated as sums over the list (`RoasOk.sums`), for every kind of ROAs: this
says at once how many ROAs cover a prefix and how many match an update.
-/

namespace SrxSuite.Cache

open Util UpdateLemmas NodeLemmas

/-- The ROA of an entry at the prefix `k`. -/
def roaOf (k : List Bool) (e : UInt32 × PcRoa) : Roa := ⟨k, e.1, e.2.maxLen, e.2.valCacheID⟩

/-- The number of ROAs of a kind. -/
def roaSum (k : List Bool) (p : Roa → Bool) (es : List (UInt32 × PcRoa)) : Nat :=
  (es.map fun e => if p (roaOf k e) then e.2.roaCount.toNat else 0).sum

/-- One entry of the prefix `k`. In `exact` runs, where no ROA is announced while it is present,
`update_count` is exact. -/
structure EntryOk (exact : Prop) (h : History) (k : List Bool) (e : UInt32 × PcRoa) : Prop where
  as : e.2.as = e.1
  pos : 0 < e.2.roaCount.toNat
  counted : h.matchedBy (roaOf k e) ≤ e.2.updateCount.toNat
  counts : exact → e.2.updateCount.toNat = h.matchedBy (roaOf k e)

/-- The ROAs in the list of the prefix `k`. -/
structure RoasOk (exact : Prop) (h : History) (k : List Bool) (es : List (UInt32 × PcRoa)) :
    Prop where
  sums : ∀ p : Roa → Bool, roaSum k p es = h.roas.countP fun r => r.key = k ∧ p r = true
  entries : ∀ e ∈ es, EntryOk exact h k e

/-- The updates of every AS of the prefix `k`. -/
structure CountsOk (h : History) (k : List Bool) (asn : List PcAs) : Prop where
  updates : ∀ a ∈ asn, a.updateCount.toNat = h.requests.countP fun q => q.key = k ∧ q.as = a.asn
  listed : ∀ q ∈ h.requests, q.key = k → ∃ a ∈ asn, a.asn = q.as

structure AsnOk (exact : Prop) (h : History) (k : List Bool) (asn : List PcAs) : Prop where
  nodup : (asn.map PcAs.asn).Nodup
  roas : RoasOk exact h k (roaEntries asn)
  counts : CountsOk h k asn

namespace RoaLemmas

variable {exact : Prop} {h : History} {k : List Bool} {asn : List PcAs} {as : UInt32}
  {es es₁ es₂ : List (UInt32 × PcRoa)}

/-! ## Lists -/

/-- The first element with a property, and what is done to it. -/
theorem first_split {α : Type} {p : α → Bool} {l : List α} (h : ∃ x ∈ l, p x = true) :
    ∃ l₁ x l₂, l = l₁ ++ x :: l₂ ∧ p x = true ∧ (∀ y ∈ l₁, p y = false) ∧
      l.find? p = some x ∧ l.eraseP p = l₁ ++ l₂ ∧ ∀ f, modifyFirst p f l = l₁ ++ f x :: l₂ := by
  induction l with
  | nil => simp at h
  | cons x l ih =>
    by_cases hx : p x = true
    · exact ⟨[], x, l, rfl, hx, by simp, by simp [hx], by simp [hx], fun f => by
        simp [modifyFirst, hx]⟩
    · obtain ⟨y, hy, hpy⟩ := h
      have hmem : y ∈ l := (List.mem_cons.mp hy).resolve_left fun heq => hx (heq ▸ hpy)
      obtain ⟨l₁, z, l₂, rfl, hz, hl₁, hfind, herase, hmod⟩ := ih ⟨y, hmem, hpy⟩
      refine ⟨x :: l₁, z, l₂, rfl, hz, ?_, ?_, ?_, fun f => ?_⟩
      · intro y hy
        rcases List.mem_cons.mp hy with rfl | hy
        · simpa using hx
        · exact hl₁ y hy
      · rw [List.find?_cons_of_neg hx, hfind]
      · rw [List.eraseP_cons_of_neg hx, herase]
        rfl
      · rw [modifyFirst, if_neg hx, hmod]
        rfl

theorem find?_split {α : Type} {p : α → Bool} {l₁ l₂ : List α} {x : α}
    (hx : p x = true) (hl₁ : ∀ y ∈ l₁, p y = false) : (l₁ ++ x :: l₂).find? p = some x := by
  rw [List.find?_append, List.find?_eq_none.mpr fun y hy => by simp [hl₁ y hy]]
  simp [hx]

theorem modifyFirst_split {α : Type} {p : α → Bool} {l₁ l₂ : List α} {x : α}
    (hx : p x = true) (hl₁ : ∀ y ∈ l₁, p y = false) (f : α → α) :
    modifyFirst p f (l₁ ++ x :: l₂) = l₁ ++ f x :: l₂ := by
  induction l₁ with
  | nil => simp [modifyFirst, hx]
  | cons y l₁ ih =>
    rw [List.cons_append, modifyFirst, if_neg (by simp [hl₁ y List.mem_cons_self]),
      ih fun z hz => hl₁ z (List.mem_cons_of_mem _ hz)]
    rfl

theorem roaEntries_append (l₁ l₂ : List PcAs) :
    roaEntries (l₁ ++ l₂) = roaEntries l₁ ++ roaEntries l₂ := List.flatMap_append

@[simp] theorem roaEntries_cons (a : PcAs) (l : List PcAs) :
    roaEntries (a :: l) = a.roas.map (fun r => (a.asn, r)) ++ roaEntries l := rfl

@[simp] theorem roaEntries_nil : roaEntries [] = [] := rfl

/-! ## Sums -/

theorem roaSum_append (p : Roa → Bool) :
    roaSum k p (es₁ ++ es₂) = roaSum k p es₁ + roaSum k p es₂ := by
  simp [roaSum]

theorem roaSum_cons (p : Roa → Bool) (e : UInt32 × PcRoa) :
    roaSum k p (e :: es) = (if p (roaOf k e) then e.2.roaCount.toNat else 0) + roaSum k p es := by
  simp [roaSum]

end RoaLemmas

open RoaLemmas

section Asn

variable {exact : Prop} {h : History} {k : List Bool} {asn : List PcAs} {as : UInt32}
  {es es₁ es₂ : List (UInt32 × PcRoa)}

/-- An entry is a ROA that is present, at least as often as its `roa_count` says. -/
theorem RoasOk.count (hok : RoasOk exact h k es) {e : UInt32 × PcRoa} (he : e ∈ es) :
    e.2.roaCount.toNat ≤ h.roas.count (roaOf k e) := by
  have hle : e.2.roaCount.toNat ≤ roaSum k (fun r => r == roaOf k e) es := by
    obtain ⟨es₁, es₂, rfl⟩ := List.append_of_mem he
    rw [roaSum_append, roaSum_cons]
    simp
    omega
  rw [hok.sums] at hle
  refine hle.trans (Nat.le_of_eq (List.countP_congr fun r _ => ?_))
  simp only [decide_eq_true_eq, beq_iff_eq]
  exact ⟨fun h => h.2, fun h => ⟨h ▸ rfl, h⟩⟩

theorem RoasOk.mem (hok : RoasOk exact h k es) {e : UInt32 × PcRoa} (he : e ∈ es) :
    roaOf k e ∈ h.roas :=
  List.count_pos_iff.mp (Nat.lt_of_lt_of_le (hok.entries e he).pos (RoasOk.count hok he))

/-- A ROA of the prefix that is present has an entry. -/
theorem RoasOk.entry (hok : RoasOk exact h k es) {r : Roa} (hr : r ∈ h.roas) (hkey : r.key = k) :
    ∃ e ∈ es, roaOf k e = r := by
  by_contra hnone
  have hzero : roaSum k (fun r' => r' == r) es = 0 := by
    rw [roaSum, List.sum_eq_zero_iff_forall_eq_nat]
    intro n hn
    obtain ⟨e, he, rfl⟩ := List.mem_map.mp hn
    rw [if_neg]
    intro heq
    exact hnone ⟨e, he, by simpa using heq⟩
  rw [hok.sums, List.countP_eq_zero] at hzero
  exact hzero r hr (by simpa using hkey)

/-! ## The history changes -/

theorem EntryOk.congr {e : UInt32 × PcRoa} (hok : EntryOk exact h k e) {h' : History}
    (hreq : h'.requests = h.requests) : EntryOk exact h' k e where
  as := hok.as
  pos := hok.pos
  counted := by
    rw [History.matchedBy, hreq]
    exact hok.counted
  counts hx := by
    rw [History.matchedBy, hreq]
    exact hok.counts hx

theorem RoasOk.perm (hok : RoasOk exact h k es₁) (hperm : es₁.Perm es₂) :
    RoasOk exact h k es₂ where
  sums p := by
    rw [← hok.sums p]
    exact (hperm.symm.map _).sum_nat
  entries e he := hok.entries e (hperm.mem_iff.mpr he)

/-- A change of ROAs elsewhere. -/
theorem RoasOk.congr (hok : RoasOk exact h k es) {h' : History} (hreq : h'.requests = h.requests)
    (hroas : ∀ p : Roa → Bool, (h'.roas.countP fun r => r.key = k ∧ p r = true) =
      h.roas.countP fun r => r.key = k ∧ p r = true) : RoasOk exact h' k es where
  sums p := by rw [hok.sums, hroas]
  entries e he := EntryOk.congr (hok.entries e he) hreq

theorem CountsOk.congr (hok : CountsOk h k asn) {h' : History} {asn' : List PcAs}
    (hreq : h'.requests = h.requests)
    (hasn : asn'.map (fun a => (a.asn, a.updateCount)) = asn.map fun a => (a.asn, a.updateCount)) :
    CountsOk h' k asn' := by
  have hmem {a : PcAs} {l l' : List PcAs} (heq : l'.map (fun a => (a.asn, a.updateCount)) =
      l.map fun a => (a.asn, a.updateCount)) (ha : a ∈ l') :
      ∃ b ∈ l, b.asn = a.asn ∧ b.updateCount = a.updateCount := by
    have ha' := List.mem_map_of_mem (f := fun a : PcAs => (a.asn, a.updateCount)) ha
    rw [heq] at ha'
    obtain ⟨b, hb, hba⟩ := List.mem_map.mp ha'
    obtain ⟨h1, h2⟩ := Prod.mk.inj hba
    exact ⟨b, hb, h1, h2⟩
  refine ⟨fun a ha => ?_, fun q hq hkey => ?_⟩
  · obtain ⟨b, hb, h1, h2⟩ := hmem hasn ha
    rw [← h2, ← h1, hreq]
    exact hok.updates b hb
  · obtain ⟨a, ha, has⟩ := hok.listed q (hreq ▸ hq) hkey
    obtain ⟨b, hb, h1, -⟩ := hmem hasn.symm ha
    exact ⟨b, hb, h1.trans has⟩

/-- The counts do not depend on the ROAs of an AS. -/
theorem CountsOk.setRoas {l₁ l₂ : List PcAs} {roas : List PcRoa} {c : UInt32}
    (hok : CountsOk h k (l₁ ++ ⟨as, roas, c⟩ :: l₂)) {h' : History}
    (hreq : h'.requests = h.requests) (roas' : List PcRoa) :
    CountsOk h' k (l₁ ++ ⟨as, roas', c⟩ :: l₂) :=
  hok.congr hreq (by simp)

/-- A prefix without ROAs and updates. -/
theorem asnOk_nil (hroas : ∀ r ∈ h.roas, r.key ≠ k) (hreqs : ∀ q ∈ h.requests, q.key ≠ k) :
    AsnOk exact h k [] where
  nodup := List.nodup_nil
  roas := by
    refine ⟨fun p => ?_, by simp⟩
    rw [eq_comm, roaEntries_nil]
    refine List.countP_eq_zero.mpr fun r hr => ?_
    simp [hroas r hr]
  counts := ⟨by simp, fun q hq hkey => absurd hkey (hreqs q hq)⟩

/-- Nothing is left of a prefix without ASes. -/
theorem AsnOk.of_nil (hok : AsnOk exact h k []) :
    (∀ r ∈ h.roas, r.key ≠ k) ∧ ∀ q ∈ h.requests, q.key ≠ k := by
  constructor
  · intro r hr hkey
    obtain ⟨e, he, -⟩ := RoasOk.entry hok.roas hr hkey
    simp at he
  · intro q hq hkey
    obtain ⟨a, ha, -⟩ := hok.counts.listed q hq hkey
    simp at ha

/-! ## Adding a ROA -/

/-- A change of the ROAs of other prefixes. -/
theorem AsnOk.addRoa_of_ne (hok : AsnOk exact h k asn) {r : Roa} (hkey : r.key ≠ k) :
    AsnOk exact (h.addRoa r) k asn where
  nodup := hok.nodup
  roas := RoasOk.congr hok.roas rfl fun p => by simp [History.addRoa, hkey]
  counts := CountsOk.congr hok.counts rfl rfl

theorem AsnOk.getASFromPrefix (hok : AsnOk exact h k asn) (as : UInt32) :
    AsnOk exact h k (getASFromPrefix asn as) ∧ ∃ a ∈ Cache.getASFromPrefix asn as, a.asn = as := by
  unfold Cache.getASFromPrefix
  split
  · next hany =>
    obtain ⟨a, ha, has⟩ := List.any_eq_true.mp hany
    exact ⟨hok, a, ha, by simpa using has⟩
  · next hany =>
    have hnone (a : PcAs) (ha : a ∈ asn) : a.asn ≠ as := fun heq =>
      hany (List.any_eq_true.mpr ⟨a, ha, by simpa using heq⟩)
    refine ⟨⟨?_, ?_, ?_, ?_⟩, ⟨as, [], 0⟩, by simp, rfl⟩
    · rw [List.map_append, List.nodup_append]
      refine ⟨hok.nodup, by simp, ?_⟩
      intro x hx y hy
      obtain ⟨a, ha, rfl⟩ := List.mem_map.mp hx
      rw [List.map_singleton, List.mem_singleton] at hy
      exact hy ▸ hnone a ha
    · simpa [roaEntries_append] using hok.roas
    · intro a ha
      rcases List.mem_append.mp ha with ha | ha
      · exact hok.counts.updates a ha
      · -- The AS is new: no update of it was requested.
        obtain rfl := List.mem_singleton.mp ha
        refine (List.countP_eq_zero.mpr fun q hq => ?_).symm
        simp only [decide_eq_true_eq, not_and]
        intro hkey has
        obtain ⟨b, hb, hba⟩ := hok.counts.listed q hq hkey
        exact hnone b hb (hba.trans has)
    · intro q hq hkey
      obtain ⟨a, ha, has⟩ := hok.counts.listed q hq hkey
      exact ⟨a, List.mem_append_left _ ha, has⟩

/-- The ROAs of one AS in the list of all. -/
theorem roaEntries_focus (l₁ l₂ : List PcAs) (as : UInt32) (m₁ m₂ : List PcRoa) (x : PcRoa)
    (c : UInt32) : (roaEntries (l₁ ++ ⟨as, m₁ ++ x :: m₂, c⟩ :: l₂)).Perm
      ((as, x) :: roaEntries (l₁ ++ ⟨as, m₁ ++ m₂, c⟩ :: l₂)) := by
  have hleft : roaEntries (l₁ ++ ⟨as, m₁ ++ x :: m₂, c⟩ :: l₂) =
      (roaEntries l₁ ++ m₁.map fun r => (as, r)) ++
        (as, x) :: (m₂.map (fun r => (as, r)) ++ roaEntries l₂) := by simp [roaEntries_append]
  have hright : roaEntries (l₁ ++ ⟨as, m₁ ++ m₂, c⟩ :: l₂) =
      (roaEntries l₁ ++ m₁.map fun r => (as, r)) ++
        (m₂.map (fun r => (as, r)) ++ roaEntries l₂) := by simp [roaEntries_append]
  rw [hleft, hright]
  exact List.perm_middle

/-- The sums with one more ROA. -/
theorem countP_addRoa_key {r : Roa} (hkey : r.key = k) (p : Roa → Bool) :
    ((h.addRoa r).roas.countP fun r => r.key = k ∧ p r = true) =
      (h.roas.countP fun r => r.key = k ∧ p r = true) + if p r then 1 else 0 := by
  rw [History.countP_addRoa]
  simp [hkey]

/-- The entry of a ROA. -/
theorem entryOk_roa {r : Roa} (hkey : r.key = k) {c : UInt16} (hc : 0 < c.toNat) {n : UInt32}
    (hn : h.matchedBy r ≤ n.toNat) (hexact : exact → n.toNat = h.matchedBy r) :
    EntryOk exact h k (r.as, ⟨r.as, r.maxLen, c, r.valCacheID, n⟩) := by
  have hroa : roaOf k (r.as, ⟨r.as, r.maxLen, c, r.valCacheID, n⟩) = r := by
    rw [roaOf, ← hkey]
  exact ⟨rfl, hc, by rw [hroa]; exact hn, fun hx => by rw [hroa]; exact hexact hx⟩

/-- A list with an entry for the ROA `r` in front of the others. -/
theorem RoasOk.cons_roa {r : Roa} (hkey : r.key = k) {c : UInt16} (hc : 0 < c.toNat) {n : UInt32}
    (hn : h.matchedBy r ≤ n.toNat) (hexact : exact → n.toNat = h.matchedBy r)
    (hsum : ∀ p : Roa → Bool, (if p r then c.toNat else 0) + roaSum k p es =
      h.roas.countP fun r => r.key = k ∧ p r = true) (hes : ∀ e ∈ es, EntryOk exact h k e) :
    RoasOk exact h k ((r.as, ⟨r.as, r.maxLen, c, r.valCacheID, n⟩) :: es) := by
  refine ⟨fun p => ?_, List.forall_mem_cons.mpr ⟨entryOk_roa hkey hc hn hexact, hes⟩⟩
  rw [roaSum_cons, ← hsum p, roaOf, ← hkey]

theorem AsnOk.setRoas {l₁ l₂ : List PcAs} {roas : List PcRoa} {c : UInt32}
    (hok : AsnOk exact h k (l₁ ++ ⟨as, roas, c⟩ :: l₂)) {h' : History}
    (hreq : h'.requests = h.requests) {roas' : List PcRoa}
    (hroas : RoasOk exact h' k (roaEntries (l₁ ++ ⟨as, roas', c⟩ :: l₂))) :
    AsnOk exact h' k (l₁ ++ ⟨as, roas', c⟩ :: l₂) where
  nodup := by simpa using hok.nodup
  roas := hroas
  counts := hok.counts.setRoas hreq roas'

theorem isEntry_iff {x : PcRoa} {r : Roa} :
    x.isEntry r.valCacheID r.maxLen = true ↔ x.valCacheID = r.valCacheID ∧ x.maxLen = r.maxLen := by
  simp [PcRoa.isEntry]

/-- What is found for a ROA in the list. -/
theorem findRoa_focus {l₁ l₂ : List PcAs} {m₁ m₂ : List PcRoa} {x : PcRoa} {r : Roa} {c : UInt32}
    (hl₁ : ∀ b ∈ l₁, (b.asn == r.as) = false)
    (hm₁ : ∀ y ∈ m₁, y.isEntry r.valCacheID r.maxLen = false)
    (hx : x.isEntry r.valCacheID r.maxLen = true) :
    findRoa (l₁ ++ ⟨r.as, m₁ ++ x :: m₂, c⟩ :: l₂) r.as r.maxLen r.valCacheID = some x ∧
      ∀ y, modifyRoas (l₁ ++ ⟨r.as, m₁ ++ x :: m₂, c⟩ :: l₂) r.as
        (modifyFirst (fun y => y.isEntry r.valCacheID r.maxLen) fun _ => y) =
        l₁ ++ ⟨r.as, m₁ ++ y :: m₂, c⟩ :: l₂ := by
  constructor
  · rw [findRoa, find?_split (by simp) hl₁]
    exact find?_split hx hm₁
  · intro y
    rw [modifyRoas, modifyFirst_split (by simp) hl₁]
    have hback := @modifyFirst_split _ (fun y => y.isEntry r.valCacheID r.maxLen) m₁ m₂ x hx hm₁
      fun _ => y
    rw [hback]

@[simp] theorem roaEntries_getASFromPrefix (asn : List PcAs) (as : UInt32) :
    roaEntries (Cache.getASFromPrefix asn as) = roaEntries asn := by
  unfold Cache.getASFromPrefix
  split <;> simp [roaEntries_append]

/-- The list of ASes when a ROA is added: the entry that the walk gets, and the list after the
walk has counted the updates. -/
theorem AsnOk.add {r : Roa} (hok : AsnOk exact h r.key asn) (hexact : exact → r ∉ h.roas)
    (hcount : h.roas.count r + 1 < 2 ^ 16) {asn' : List PcAs}
    (hasn' : asn' = modifyRoas (Cache.getASFromPrefix asn r.as) r.as fun roas =>
      addRoa roas r.as r.maxLen r.valCacheID) :
    ∃ x, findRoa asn' r.as r.maxLen r.valCacheID = some x ∧ x.as = r.as ∧ x.maxLen = r.maxLen ∧
      (x.updateCount = 0 ∨
        ¬ exact ∧ ∃ e ∈ roaEntries asn, e.2.updateCount = x.updateCount) ∧
      ∀ n : UInt32, h.matchedBy r ≤ n.toNat → (exact → n.toNat = h.matchedBy r) →
        AsnOk exact (h.addRoa r) r.key (modifyRoas asn' r.as
          (modifyFirst (fun y => y.isEntry r.valCacheID r.maxLen) fun _ => x.withCount n)) := by
  obtain ⟨hok₁, a, hamem, haas⟩ := hok.getASFromPrefix r.as
  obtain ⟨l₁, ⟨as, roas, c⟩, l₂, heq, ha, hl₁, -, -, hmod⟩ :=
    @first_split _ (fun a => a.asn == r.as) _ ⟨a, hamem, by simpa using haas⟩
  obtain rfl : as = r.as := by simpa using ha
  have hentries : roaEntries (l₁ ++ ⟨r.as, roas, c⟩ :: l₂) = roaEntries asn := by
    rw [← heq, roaEntries_getASFromPrefix]
  rw [heq] at hok₁
  rw [modifyRoas, hmod] at hasn'
  subst hasn'
  by_cases hany : (roas.any fun x => x.isEntry r.valCacheID r.maxLen) = true
  · -- The ROA is known: its count grows.
    obtain ⟨m₁, x, m₂, rfl, hx, hm₁, -, -, hmodr⟩ := first_split (List.any_eq_true.mp hany)
    have hadd : addRoa (m₁ ++ x :: m₂) r.as r.maxLen r.valCacheID =
        m₁ ++ { x with roaCount := x.roaCount + 1 } :: m₂ := by
      rw [addRoa, if_pos hany, hmodr]
    have hold := hok₁.roas.perm (roaEntries_focus l₁ l₂ r.as m₁ m₂ x c)
    obtain ⟨hid, hmax⟩ := isEntry_iff.mp hx
    obtain ⟨cnt, n₀, rfl⟩ : ∃ cnt n₀, x = ⟨r.as, r.maxLen, cnt, r.valCacheID, n₀⟩ := by
      have := (hold.entries _ List.mem_cons_self).as
      exact ⟨x.roaCount, x.updateCount, by cases x; simp_all⟩
    have hle : cnt.toNat ≤ h.roas.count r := hold.count List.mem_cons_self
    have hnot : ¬ exact := fun hex => hexact hex (hold.mem List.mem_cons_self)
    have hinc : (cnt + 1).toNat = cnt.toNat + 1 :=
      toNat_inc16 (Nat.lt_of_le_of_lt (Nat.succ_le_succ hle) hcount)
    obtain ⟨hfind, hback⟩ := @findRoa_focus l₁ l₂ m₁ m₂
      ⟨r.as, r.maxLen, cnt + 1, r.valCacheID, n₀⟩ r c hl₁ hm₁ hx
    simp only [hadd]
    refine ⟨_, hfind, rfl, rfl, .inr ⟨hnot, (r.as, ⟨r.as, r.maxLen, cnt, r.valCacheID, n₀⟩), ?_,
      rfl⟩, fun n hn hnexact => ?_⟩
    · rw [← hentries]
      exact (roaEntries_focus l₁ l₂ r.as m₁ m₂ _ c).mem_iff.mpr List.mem_cons_self
    · rw [hback]
      refine hok₁.setRoas History.requests_addRoa (RoasOk.perm ?_ (roaEntries_focus l₁ l₂ r.as m₁ m₂ _ c).symm)
      refine RoasOk.cons_roa rfl (by rw [hinc]; omega) hn hnexact (fun p => ?_) fun e he =>
        (hold.entries e (List.mem_cons_of_mem _ he)).congr rfl
      rw [countP_addRoa_key rfl, ← hold.sums p, roaSum_cons, hinc]
      show _ = (if p r then cnt.toNat else 0) + _ + _
      split <;> omega
  · -- A new entry.
    have hadd : addRoa roas r.as r.maxLen r.valCacheID =
        roas ++ [⟨r.as, r.maxLen, 1, r.valCacheID, 0⟩] := by
      rw [addRoa, if_neg hany]
    have hm₁ : ∀ y ∈ roas, y.isEntry r.valCacheID r.maxLen = false := by
      intro y hy
      by_contra hentry
      exact hany (List.any_eq_true.mpr ⟨y, hy, by simpa using hentry⟩)
    obtain ⟨hfind, hback⟩ := @findRoa_focus l₁ l₂ roas []
      ⟨r.as, r.maxLen, 1, r.valCacheID, 0⟩ r c hl₁ hm₁ (isEntry_iff.mpr ⟨rfl, rfl⟩)
    simp only [hadd]
    refine ⟨_, hfind, rfl, rfl, .inl rfl, fun n hn hnexact => ?_⟩
    rw [hback]
    refine hok₁.setRoas History.requests_addRoa (RoasOk.perm ?_ (roaEntries_focus l₁ l₂ r.as roas [] _ c).symm)
    rw [List.append_nil]
    refine RoasOk.cons_roa rfl (show 0 < (1 : UInt16).toNat by decide) hn hnexact (fun p => ?_) fun e he =>
      (hok₁.roas.entries e he).congr rfl
    rw [countP_addRoa_key rfl, ← hok₁.roas.sums p, Nat.add_comm]
    rfl

/-! ## Removing a ROA -/

theorem AsnOk.delRoa_of_ne (hok : AsnOk exact h k asn) {r : Roa} (hmem : r ∈ h.roas)
    (hkey : r.key ≠ k) : AsnOk exact (h.delRoa r) k asn where
  nodup := hok.nodup
  roas := hok.roas.congr rfl fun p => by
    have := History.countP_delRoa (fun r' => r'.key = k ∧ p r' = true) hmem
    simpa [hkey] using this
  counts := hok.counts.congr rfl rfl

/-- An AS without ROAs and updates can be removed. -/
theorem AsnOk.eraseAs (hok : AsnOk exact h k asn) (as : UInt32) :
    AsnOk exact h k (asn.eraseP fun a => a.asn == as && a.roas.isEmpty && a.updateCount == 0) := by
  by_cases hany : ∃ a ∈ asn, (a.asn == as && a.roas.isEmpty && a.updateCount == 0) = true
  · obtain ⟨l₁, a, l₂, rfl, ha, -, -, herase, -⟩ := first_split hany
    rw [herase]
    simp only [Bool.and_eq_true, beq_iff_eq, List.isEmpty_iff] at ha
    have hsub : (l₁ ++ l₂).Sublist (l₁ ++ a :: l₂) :=
      List.Sublist.append_left (List.sublist_cons_self ..) _
    refine ⟨hok.nodup.sublist (hsub.map _), by simpa [roaEntries_append, ha.1.2] using hok.roas,
      fun b hb => hok.counts.updates b (hsub.subset hb), fun q hq hkey => ?_⟩
    obtain ⟨b, hb, has⟩ := hok.counts.listed q hq hkey
    refine ⟨b, ?_, has⟩
    rw [List.mem_append, List.mem_cons] at hb
    rcases hb with hb | rfl | hb
    · exact List.mem_append_left _ hb
    · -- An update of the AS was requested, so its count is not zero.
      have hzero := hok.counts.updates b (by simp)
      rw [ha.2, eq_comm] at hzero
      have hnot := List.countP_eq_zero.mp hzero q hq
      simp [hkey, has] at hnot
    · exact List.mem_append_right _ hb
  · rw [List.eraseP_of_forall_not fun a ha hp => hany ⟨a, ha, hp⟩]
    exact hok

theorem entry_of_findRoa {maxLen : UInt8} {valCacheID : UInt32} {x : PcRoa}
    (hfind : findRoa asn as maxLen valCacheID = some x) :
    (as, x) ∈ roaEntries asn ∧ x.valCacheID = valCacheID ∧ x.maxLen = maxLen := by
  rw [findRoa, Option.bind_eq_bind, Option.bind_eq_some_iff] at hfind
  obtain ⟨a, ha, hx⟩ := hfind
  have has : a.asn = as := by simpa using List.find?_some ha
  have hisEntry : x.isEntry valCacheID maxLen = true := by simpa using List.find?_some hx
  refine ⟨List.mem_flatMap.mpr ⟨a, List.mem_of_find?_eq_some ha,
    List.mem_map.mpr ⟨x, List.mem_of_find?_eq_some hx, by rw [has]⟩⟩, ?_⟩
  simpa [PcRoa.isEntry] using hisEntry

/-- A ROA that is found is present. -/
theorem AsnOk.mem_of_findRoa {r : Roa} (hok : AsnOk exact h r.key asn) {x : PcRoa}
    (hfind : findRoa asn r.as r.maxLen r.valCacheID = some x) : r ∈ h.roas := by
  obtain ⟨hentry, hid, hmax⟩ := entry_of_findRoa hfind
  have hroa := hok.roas.mem hentry
  rwa [roaOf, hid, hmax] at hroa

/-- The list of ASes when a ROA is removed: the entry that the walk gets, and the list after the
walk. -/
theorem AsnOk.del {r : Roa} (hok : AsnOk exact h r.key asn) (hmem : r ∈ h.roas) :
    ∃ x, findRoa asn r.as r.maxLen r.valCacheID = some x ∧ x.as = r.as ∧ x.maxLen = r.maxLen ∧
      h.matchedBy r ≤ x.updateCount.toNat ∧
      ∀ roa : PcRoa, roa.roaCount = x.roaCount → (x.roaCount ≠ 1 → roa = x) →
        AsnOk exact (h.delRoa r) r.key (removeRoa asn r.as r.maxLen r.valCacheID roa) := by
  -- Split the list at the AS, and its ROAs at the first entry of the ROA.
  obtain ⟨e, he, her⟩ := hok.roas.entry hmem rfl
  obtain ⟨a, ha, he⟩ := List.mem_flatMap.mp he
  obtain ⟨y, hy, rfl⟩ := List.mem_map.mp he
  have hroa : a.asn = r.as ∧ y.maxLen = r.maxLen ∧ y.valCacheID = r.valCacheID := by
    rw [← her]
    exact ⟨rfl, rfl, rfl⟩
  obtain ⟨l₁, ⟨as, roas, c⟩, l₂, rfl, has, hl₁, -, -, hmod⟩ :=
    @first_split _ (fun a => a.asn == r.as) _ ⟨a, ha, by simpa using hroa.1⟩
  obtain rfl : as = r.as := by simpa using has
  have hentry : ∃ x ∈ roas, x.isEntry r.valCacheID r.maxLen = true := by
    -- There is only one such AS in the list.
    have hsame : a = ⟨r.as, roas, c⟩ :=
      List.inj_on_of_nodup_map hok.nodup ha (by simp) hroa.1
    subst hsame
    exact ⟨y, hy, isEntry_iff.mpr ⟨hroa.2.2, hroa.2.1⟩⟩
  obtain ⟨m₁, x, m₂, rfl, hx, hm₁, -, herase, -⟩ := first_split hentry
  have hold := hok.roas.perm (roaEntries_focus l₁ l₂ r.as m₁ m₂ x c)
  obtain ⟨hid, hmax⟩ := isEntry_iff.mp hx
  have hxok := hold.entries _ List.mem_cons_self
  obtain ⟨cnt, n, rfl⟩ : ∃ cnt n, x = ⟨r.as, r.maxLen, cnt, r.valCacheID, n⟩ := by
    have := hxok.as
    exact ⟨x.roaCount, x.updateCount, by cases x; simp_all⟩
  obtain ⟨hfind, hback⟩ := @findRoa_focus l₁ l₂ m₁ m₂ _ r c hl₁ hm₁ hx
  have hsum (p : Roa → Bool) : ((h.delRoa r).roas.countP fun r' => r'.key = r.key ∧ p r' = true) +
      (if p r then 1 else 0) = (if p r then cnt.toNat else 0) +
        roaSum r.key p (roaEntries (l₁ ++ ⟨r.as, m₁ ++ m₂, c⟩ :: l₂)) := by
    have hcount := hold.sums p
    rw [roaSum_cons, ← History.countP_delRoa _ hmem] at hcount
    have hroa : roaOf r.key (r.as, ⟨r.as, r.maxLen, cnt, r.valCacheID, n⟩) = r := rfl
    rw [hroa] at hcount
    simpa using hcount.symm
  have hpos : 0 < cnt.toNat := hxok.pos
  have hrest : ∀ e ∈ roaEntries (l₁ ++ ⟨r.as, m₁ ++ m₂, c⟩ :: l₂),
      EntryOk exact (h.delRoa r) r.key e := fun e he =>
    (hold.entries e (List.mem_cons_of_mem _ he)).congr rfl
  refine ⟨_, hfind, rfl, rfl, hxok.counted, fun roa hcnt hroa => ?_⟩
  simp only at hcnt hroa
  have hone : roa.roaCount - 1 = 0 ↔ cnt.toNat = 1 := by
    rw [hcnt, ← UInt16.toNat_inj, toNat_dec16 hpos]
    show cnt.toNat - 1 = 0 ↔ _
    omega
  unfold removeRoa
  split
  · next hlast =>
    -- The last one: the entry leaves the list.
    rw [hone] at hlast
    refine AsnOk.eraseAs ?_ r.as
    rw [modifyRoas, hmod, herase]
    refine hok.setRoas History.requests_delRoa ⟨fun p => ?_, hrest⟩
    have := hsum p
    rw [hlast] at this
    omega
  · next hmore =>
    rw [hone] at hmore
    obtain rfl := hroa fun heq => hmore (by rw [heq]; rfl)
    rw [hback]
    refine hok.setRoas History.requests_delRoa
      (RoasOk.perm ?_ (roaEntries_focus l₁ l₂ r.as m₁ m₂ _ c).symm)
    have hdec : (cnt - 1).toNat = cnt.toNat - 1 := toNat_dec16 hpos
    refine RoasOk.cons_roa rfl (by rw [hdec]; omega) hxok.counted hxok.counts (fun p => ?_) hrest
    have hp := hsum p
    rw [hdec]
    by_cases hpr : p r = true
    · rw [if_pos hpr, if_pos hpr] at hp
      rw [if_pos hpr]
      omega
    · rw [if_neg hpr, if_neg hpr] at hp
      rw [if_neg hpr]
      omega

/-! ## Requesting an update -/

section Request

variable {q : Request}

@[simp] theorem roaEntries_countUpdate (asn : List PcAs) (as : UInt32) :
    roaEntries (countUpdate asn as) = roaEntries asn := by
  rw [← roaEntries_getASFromPrefix asn as, countUpdate]
  generalize Cache.getASFromPrefix asn as = asn
  induction asn with
  | nil => rfl
  | cons a asn ih =>
    rw [modifyFirst]
    split
    · rfl
    · rw [roaEntries_cons, ih]
      rfl

/-- The entry after a request of an update that the ROA may match. -/
def coverEntry (len : Nat) (as : UInt32) (e : UInt32 × PcRoa) : UInt32 × PcRoa :=
  (e.1, if len ≤ e.2.maxLen.toNat ∧ e.1 = as then { e.2 with updateCount := e.2.updateCount + 1 }
    else e.2)

theorem roaEntries_coverRoas (len : Nat) (as : UInt32) (asn : List PcAs) :
    roaEntries (coverRoas len as asn) = (roaEntries asn).map (coverEntry len as) := by
  induction asn with
  | nil => rfl
  | cons a asn ih =>
    rw [roaEntries_cons, List.map_append, ← ih, coverRoas, List.map_cons, roaEntries_cons]
    simp [coverRoas, coverEntry, Function.comp_def]

/-- If no ROA covers the prefix, nothing is counted. -/
theorem coverRoas_self {len : Nat} (hnone : ∀ e ∈ roaEntries asn, ¬ len ≤ e.2.maxLen.toNat) :
    coverRoas len as asn = asn := by
  rw [coverRoas]
  refine (List.map_congr_left fun a ha => ?_).trans (List.map_id asn)
  have hroas : (a.roas.map fun r => if len ≤ r.maxLen.toNat ∧ a.asn = as then
      { r with updateCount := r.updateCount + 1 } else r) = a.roas := by
    refine (List.map_congr_left fun r hr => if_neg fun hlen => ?_).trans (List.map_id _)
    exact hnone (a.asn, r) (List.mem_flatMap.mpr ⟨a, ha, List.mem_map.mpr ⟨r, hr, rfl⟩⟩) hlen.1
  rw [hroas]
  rfl

theorem EntryOk.request {e : UInt32 × PcRoa} (hok : EntryOk exact h k e) (hkey : k <+: q.key)
    (hfit : e.2.updateCount.toNat + 1 < 2 ^ 32) :
    EntryOk exact (h.addRequest q) k (coverEntry q.key.length q.as e) := by
  have hroa : roaOf k (coverEntry q.key.length q.as e) = roaOf k e := by
    unfold roaOf coverEntry
    split <;> rfl
  have hmatches : (roaOf k e).matches q.key q.as = true ↔
      q.key.length ≤ e.2.maxLen.toNat ∧ e.1 = q.as := by
    rw [matches_iff]
    exact ⟨fun hm => ⟨hm.1.2, hm.2⟩, fun hm => ⟨⟨hkey, hm.1⟩, hm.2⟩⟩
  have hcount : (coverEntry q.key.length q.as e).2.updateCount.toNat = e.2.updateCount.toNat +
      if (roaOf k e).matches q.key q.as then 1 else 0 := by
    unfold coverEntry
    by_cases hm : q.key.length ≤ e.2.maxLen.toNat ∧ e.1 = q.as
    · rw [if_pos hm, if_pos (hmatches.mpr hm)]
      exact toNat_inc32 hfit
    · rw [if_neg hm, if_neg (mt hmatches.mp hm), Nat.add_zero]
  refine ⟨?_, ?_, ?_, fun hx => ?_⟩
  · rw [coverEntry]
    split
    · exact hok.as
    · exact hok.as
  · rw [coverEntry]
    split
    · exact hok.pos
    · exact hok.pos
  · rw [hroa, hcount, History.matchedBy_addRequest]
    exact Nat.add_le_add_right hok.counted _
  · rw [hroa, hcount, History.matchedBy_addRequest, hok.counts hx]

theorem roaSum_map_coverEntry (p : Roa → Bool) (len : Nat) :
    roaSum k p (es.map (coverEntry len as)) = roaSum k p es := by
  rw [roaSum, List.map_map]
  refine congrArg List.sum (List.map_congr_left fun e _ => ?_)
  unfold coverEntry roaOf
  simp only [Function.comp]
  split <;> rfl

theorem RoasOk.request_above (hok : RoasOk exact h k es) (hkey : k <+: q.key)
    (hfit : ∀ e ∈ es, e.2.updateCount.toNat + 1 < 2 ^ 32) :
    RoasOk exact (h.addRequest q) k (es.map (coverEntry q.key.length q.as)) := by
  refine ⟨fun p => (roaSum_map_coverEntry p _).trans (hok.sums p), fun e he => ?_⟩
  obtain ⟨e₀, he₀, rfl⟩ := List.mem_map.mp he
  exact (hok.entries e₀ he₀).request hkey (hfit e₀ he₀)

theorem RoasOk.request_other (hok : RoasOk exact h k es) (hkey : ¬ k <+: q.key) :
    RoasOk exact (h.addRequest q) k es := by
  refine ⟨hok.sums, fun e he => ?_⟩
  have heok := hok.entries e he
  have hmatched : (h.addRequest q).matchedBy (roaOf k e) = h.matchedBy (roaOf k e) := by
    rw [History.matchedBy_addRequest, if_neg, Nat.add_zero]
    intro hm
    exact hkey (matches_iff.mp hm).1.1
  exact ⟨heok.as, heok.pos, hmatched ▸ heok.counted, fun hx => hmatched ▸ heok.counts hx⟩

theorem CountsOk.request_other (hok : CountsOk h k asn) (hkey : q.key ≠ k) :
    CountsOk (h.addRequest q) k asn := by
  refine ⟨fun a ha => ?_, fun q' hq' hkey' => ?_⟩
  · rw [hok.updates a ha, History.addRequest, List.countP_append]
    simp [hkey]
  · rcases List.mem_append.mp hq' with hq' | hq'
    · exact hok.listed q' hq' hkey'
    · rw [List.mem_singleton.mp hq'] at hkey'
      exact absurd hkey' hkey

theorem coverRoas_counts (len : Nat) (as : UInt32) (asn : List PcAs) :
    (coverRoas len as asn).map (fun a => (a.asn, a.updateCount)) =
      asn.map fun a => (a.asn, a.updateCount) := by
  rw [coverRoas, List.map_map]
  rfl

/-- The ASes of the prefixes above an update. -/
theorem AsnOk.request_above (hok : AsnOk exact h k asn) (hkey : k <+: q.key) (hne : q.key ≠ k)
    (hfit : ∀ e ∈ roaEntries asn, e.2.updateCount.toNat + 1 < 2 ^ 32) :
    AsnOk exact (h.addRequest q) k (coverRoas q.key.length q.as asn) where
  nodup := by simpa [coverRoas, Function.comp_def] using hok.nodup
  roas := by
    rw [roaEntries_coverRoas]
    exact hok.roas.request_above hkey hfit
  counts := (hok.counts.request_other hne).congr rfl (coverRoas_counts ..)

/-- The ASes of the other prefixes. -/
theorem AsnOk.request_other (hok : AsnOk exact h k asn) (hkey : ¬ k <+: q.key) :
    AsnOk exact (h.addRequest q) k asn where
  nodup := hok.nodup
  roas := hok.roas.request_other hkey
  counts := hok.counts.request_other fun heq => hkey (heq ▸ List.prefix_rfl)

/-- The ASes of the prefix of an update. -/
theorem AsnOk.request_at (hok : AsnOk exact h q.key asn) (hsize : h.requests.length + 1 < 2 ^ 32)
    (hfit : ∀ e ∈ roaEntries asn, e.2.updateCount.toNat + 1 < 2 ^ 32) :
    AsnOk exact (h.addRequest q) q.key (coverRoas q.key.length q.as (countUpdate asn q.as)) := by
  have hroas : RoasOk exact (h.addRequest q) q.key
      (roaEntries (coverRoas q.key.length q.as (countUpdate asn q.as))) := by
    rw [roaEntries_coverRoas, roaEntries_countUpdate]
    exact hok.roas.request_above List.prefix_rfl hfit
  obtain ⟨hok₁, a, hamem, haas⟩ := hok.getASFromPrefix q.as
  obtain ⟨l₁, ⟨as, roas, c⟩, l₂, heq, ha, hl₁, -, -, hmod⟩ :=
    @first_split _ (fun a => a.asn == q.as) _ ⟨a, hamem, by simpa using haas⟩
  obtain rfl : as = q.as := by simpa using ha
  rw [countUpdate, hmod] at hroas ⊢
  rw [heq] at hok₁
  -- The AS of the update is in the list once.
  have hnodup := hok₁.nodup
  rw [List.map_append, List.map_cons, List.nodup_append, List.nodup_cons] at hnodup
  have hothers : ∀ b ∈ l₁ ++ l₂, q.as ≠ b.asn := by
    intro b hb has
    rcases List.mem_append.mp hb with hb | hb
    · have := hl₁ b hb
      simp [has] at this
    · exact hnodup.2.1.1 (List.mem_map.mpr ⟨b, hb, has.symm⟩)
  have hcounts := hok₁.counts
  have hcount : ∀ as', ((h.addRequest q).requests.countP fun q' => q'.key = q.key ∧ q'.as = as') =
      (h.requests.countP fun q' => q'.key = q.key ∧ q'.as = as') + if q.as = as' then 1 else 0 := by
    intro as'
    rw [History.addRequest, List.countP_append]
    simp [List.countP_singleton]
  refine ⟨?_, hroas, CountsOk.congr ⟨fun b hb => ?_, fun q' hq' hkey' => ?_⟩ rfl
    (coverRoas_counts ..)⟩
  · simpa [coverRoas, Function.comp_def] using hok₁.nodup
  · rw [hcount]
    rw [List.mem_append, List.mem_cons] at hb
    have hold {b : PcAs} (hb : b ∈ l₁ ++ l₂) : b.updateCount.toNat =
        (h.requests.countP fun q' => q'.key = q.key ∧ q'.as = b.asn) +
          if q.as = b.asn then 1 else 0 := by
      rw [if_neg (hothers b hb), Nat.add_zero]
      refine hcounts.updates b ?_
      rcases List.mem_append.mp hb with hb | hb <;> simp [hb]
    rcases hb with hb | rfl | hb
    · exact hold (List.mem_append_left _ hb)
    · have hc : c.toNat = h.requests.countP fun q' => q'.key = q.key ∧ q'.as = q.as :=
        hcounts.updates ⟨q.as, roas, c⟩ (by simp)
      have hle : c.toNat ≤ h.requests.length := hc ▸ List.countP_le_length
      rw [if_pos rfl, ← hc]
      exact toNat_inc32 (Nat.lt_of_le_of_lt (Nat.succ_le_succ hle) hsize)
    · exact hold (List.mem_append_right _ hb)
  · rcases List.mem_append.mp hq' with hq' | hq'
    · obtain ⟨b, hb, has⟩ := hcounts.listed q' hq' hkey'
      rw [List.mem_append, List.mem_cons] at hb
      rcases hb with hb | rfl | hb
      · exact ⟨b, by simp [hb], has⟩
      · exact ⟨⟨q.as, roas, c + 1⟩, by simp, has⟩
      · exact ⟨b, by simp [hb], has⟩
    · exact ⟨⟨q.as, roas, c + 1⟩, by simp, by rw [List.mem_singleton.mp hq']⟩

end Request

end Asn

end SrxSuite.Cache

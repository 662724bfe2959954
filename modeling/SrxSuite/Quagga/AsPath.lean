import SrxSuite.Quagga.RequestData
import SrxSuite.Quagga.AsPathConversion
import Mathlib.Data.Finset.Dedup
import Mathlib.Data.List.Destutter
import Mathlib.Data.List.Sort

/-!
# AS paths of the router

The model of `assegment_normalise` (`bgpd/bgp_aspath.c`), through which every received AS path goes,
with `assegment_append_asns` and the sorting of AS sets. Paths are compared segment by segment when they
are interned, so that two paths that say the same have to have the same segments.

What a path says is its list of items: the AS numbers of an AS sequence are items of their own, any
other segment is one item, and a set is a set.

Results:
1. `canonical_normalise`, `items_normalise`: the segments are brought into the canonical form and say
   what they said.
2. `Canonical.normalise_eq`: a canonical path stays as it is.
3. `Canonical.eq_of_items`: canonical paths that say the same are equal.
-/

namespace SrxSuite.Quagga

/-! ## Segments -/

def AS_CONFED_SEQUENCE : UInt8 := 3
def AS_CONFED_SET : UInt8 := 4

/-- The types whose values are a set. -/
def AsSegment.IsSet (seg : AsSegment) : Prop := seg.type = AS_SET ∨ seg.type = AS_CONFED_SET

/-- `ASSEGMENT_TYPES_PACKABLE`. -/
def TypesPackable (x y : AsSegment) : Prop := x.type = y.type ∧ x.type = AS_SEQUENCE

instance (seg : AsSegment) : Decidable seg.IsSet := inferInstanceAs (Decidable (_ ∨ _))

instance (x y : AsSegment) : Decidable (TypesPackable x y) := inferInstanceAs (Decidable (_ ∧ _))

/-- `assegment_append_asns`. The new length is an `u_short`, and what is behind it is not read again. -/
def assegmentAppendAsns (seg : AsSegment) (asnos : List UInt32) : AsSegment :=
  ⟨seg.type, (seg.as ++ asnos).take ((seg.as.length + asnos.length) % 2 ^ 16),
    Nat.lt_of_le_of_lt (List.length_take_le _ _) (Nat.mod_lt _ (by decide))⟩

/-- `qsort` with `int_cmp`, and the loop that weeds out duplicates. -/
def sortAsns (as : List UInt32) : List UInt32 := (as.insertionSort (· ≤ ·)).destutter (· ≠ ·)

theorem length_sortAsns_le (as : List UInt32) : (sortAsns as).length ≤ as.length := by
  have hle := (List.destutter_sublist (· ≠ ·) (as.insertionSort (· ≤ ·))).length_le
  rwa [List.length_insertionSort] at hle

/-- What is done with a segment that is not appended. -/
def sortSet (seg : AsSegment) : AsSegment :=
  if seg.IsSet then ⟨seg.type, sortAsns seg.as, Nat.lt_of_le_of_lt (length_sortAsns_le _) seg.length⟩
  else seg

/-- The loops, with the segment at `pin` and those behind it. -/
def normaliseFrom (pin : AsSegment) : List AsSegment → List AsSegment
  | [] => [pin]
  | seg :: segs =>
    if TypesPackable pin seg then normaliseFrom (assegmentAppendAsns pin seg.as) segs
    else pin :: normaliseFrom (sortSet seg) segs

/-- `assegment_normalise`. -/
def assegmentNormalise : List AsSegment → List AsSegment
  | [] => []
  | seg :: segs => normaliseFrom (sortSet seg) segs

/-! ## What a path says -/

/-- An item of an AS path. -/
inductive PathItem
  | hop (as : UInt32)
  | set (type : UInt8) (ases : Finset UInt32)
  | other (type : UInt8) (ases : List UInt32)
  deriving DecidableEq

/-- The items of a segment. -/
def AsSegment.items (seg : AsSegment) : List PathItem :=
  if seg.type = AS_SEQUENCE then seg.as.map .hop
  else if seg.IsSet then [.set seg.type seg.as.toFinset]
  else [.other seg.type seg.as]

/-- The items of a path. -/
def items (segs : List AsSegment) : List PathItem := segs.flatMap AsSegment.items

/-- The number of AS numbers in all segments. -/
def asnCount (segs : List AsSegment) : Nat := (segs.map fun seg => seg.as.length).sum

/-- The form in which paths are interned. -/
structure Canonical (segs : List AsSegment) : Prop where
  apart : segs.IsChain fun x y => ¬ TypesPackable x y
  sorted : ∀ seg ∈ segs, seg.IsSet → seg.as.Pairwise (· < ·)
  nonempty : ∀ seg ∈ segs, seg.as ≠ []

instance (segs : List AsSegment) : Decidable (Canonical segs) :=
  decidable_of_iff (segs.IsChain (fun x y => ¬ TypesPackable x y) ∧
    (∀ seg ∈ segs, seg.IsSet → seg.as.Pairwise (· < ·)) ∧ ∀ seg ∈ segs, seg.as ≠ [])
    ⟨fun h => ⟨h.1, h.2.1, h.2.2⟩, fun h => ⟨h.apart, h.sorted, h.nonempty⟩⟩

namespace AsPathLemmas

/-! ## Sets -/

theorem sortAsns_eq_dedup (as : List UInt32) : sortAsns as = (as.insertionSort (· ≤ ·)).dedup :=
  (List.pairwise_insertionSort (· ≤ ·) as).destutter_eq_dedup

theorem mem_sortAsns {as : List UInt32} {n : UInt32} : n ∈ sortAsns as ↔ n ∈ as := by
  rw [sortAsns_eq_dedup, List.mem_dedup, List.mem_insertionSort]

theorem toFinset_sortAsns (as : List UInt32) : (sortAsns as).toFinset = as.toFinset := by
  ext n
  rw [List.mem_toFinset, List.mem_toFinset, mem_sortAsns]

theorem pairwise_sortAsns (as : List UInt32) : (sortAsns as).Pairwise (· < ·) := by
  have hle : (sortAsns as).Pairwise (· ≤ ·) :=
    (List.pairwise_insertionSort (· ≤ ·) as).sublist (List.destutter_sublist _ _)
  have hne : (sortAsns as).Nodup := sortAsns_eq_dedup as ▸ List.nodup_dedup _
  exact (hle.and hne).imp fun h => UInt32.lt_of_le_of_ne h.1 h.2

theorem sortAsns_of_pairwise {as : List UInt32} (h : as.Pairwise (· < ·)) : sortAsns as = as := by
  have hle : as.Pairwise (· ≤ ·) := h.imp UInt32.le_of_lt
  have hnodup : as.Nodup := h.imp UInt32.ne_of_lt
  rw [sortAsns_eq_dedup, hle.insertionSort_eq, hnodup.dedup]

/-- Sorted numbers are known from their set. -/
theorem eq_of_toFinset {as as' : List UInt32} (h : as.Pairwise (· < ·)) (h' : as'.Pairwise (· < ·))
    (heq : as.toFinset = as'.toFinset) : as = as' := by
  have hnodup : as.Nodup := h.imp UInt32.ne_of_lt
  have hnodup' : as'.Nodup := h'.imp UInt32.ne_of_lt
  have hperm : as.Perm as' := List.perm_of_nodup_nodup_toFinset_eq hnodup hnodup' heq
  exact hperm.eq_of_pairwise' (h.imp UInt32.le_of_lt) (h'.imp UInt32.le_of_lt)

theorem sortAsns_ne_nil {as : List UInt32} (h : as ≠ []) : sortAsns as ≠ [] := by
  obtain ⟨n, hn⟩ := List.exists_mem_of_ne_nil as h
  exact List.ne_nil_of_mem (mem_sortAsns.mpr hn)

theorem sortSet_type (seg : AsSegment) : (sortSet seg).type = seg.type := by
  unfold sortSet
  split <;> rfl

theorem sortSet_of_not_isSet {seg : AsSegment} (h : ¬ seg.IsSet) : sortSet seg = seg := if_neg h

theorem sortSet_as_of_isSet {seg : AsSegment} (h : seg.IsSet) : (sortSet seg).as = sortAsns seg.as := by
  unfold sortSet
  rw [if_pos h]

theorem sortSet_isSet {seg : AsSegment} : (sortSet seg).IsSet ↔ seg.IsSet := by
  unfold AsSegment.IsSet
  rw [sortSet_type]

theorem sortSet_sorted {seg : AsSegment} (h : (sortSet seg).IsSet) :
    (sortSet seg).as.Pairwise (· < ·) := by
  rw [sortSet_as_of_isSet (sortSet_isSet.mp h)]
  exact pairwise_sortAsns seg.as

theorem sortSet_of_sorted {seg : AsSegment} (h : seg.IsSet → seg.as.Pairwise (· < ·)) :
    sortSet seg = seg := by
  unfold sortSet
  split
  · next hset =>
    obtain ⟨type, as, hlen⟩ := seg
    exact AsSegment.mk.injEq .. ▸ ⟨rfl, sortAsns_of_pairwise (h hset)⟩
  · rfl

theorem sortSet_ne_nil {seg : AsSegment} (h : seg.as ≠ []) : (sortSet seg).as ≠ [] := by
  by_cases hset : seg.IsSet
  · rw [sortSet_as_of_isSet hset]
    exact sortAsns_ne_nil h
  · rwa [sortSet_of_not_isSet hset]

theorem length_sortSet_le (seg : AsSegment) : (sortSet seg).as.length ≤ seg.as.length := by
  by_cases hset : seg.IsSet
  · rw [sortSet_as_of_isSet hset]
    exact length_sortAsns_le seg.as
  · rw [sortSet_of_not_isSet hset]

/-! ## Items -/

theorem items_cons (seg : AsSegment) (segs : List AsSegment) :
    items (seg :: segs) = seg.items ++ items segs := List.flatMap_cons

theorem items_append (segs segs' : List AsSegment) : items (segs ++ segs') = items segs ++ items segs' :=
  List.flatMap_append

theorem not_isSet_of_sequence {seg : AsSegment} (h : seg.type = AS_SEQUENCE) : ¬ seg.IsSet := by
  unfold AsSegment.IsSet
  rw [h]
  decide

theorem items_of_sequence {seg : AsSegment} (h : seg.type = AS_SEQUENCE) :
    seg.items = seg.as.map .hop := if_pos h

theorem items_of_isSet {seg : AsSegment} (h : seg.IsSet) :
    seg.items = [.set seg.type seg.as.toFinset] := by
  unfold AsSegment.items
  rw [if_neg fun hseq => not_isSet_of_sequence hseq h, if_pos h]

theorem items_of_other {seg : AsSegment} (h : seg.type ≠ AS_SEQUENCE) (hset : ¬ seg.IsSet) :
    seg.items = [.other seg.type seg.as] := by
  unfold AsSegment.items
  rw [if_neg h, if_neg hset]

theorem items_sortSet (seg : AsSegment) : (sortSet seg).items = seg.items := by
  by_cases hset : seg.IsSet
  · rw [items_of_isSet hset, items_of_isSet (sortSet_isSet.mpr hset), sortSet_type,
      sortSet_as_of_isSet hset, toFinset_sortAsns]
  · rw [sortSet_of_not_isSet hset]

/-! ## Appending -/

theorem append_as (seg : AsSegment) (asnos : List UInt32)
    (hfits : seg.as.length + asnos.length < 2 ^ 16) :
    (assegmentAppendAsns seg asnos).as = seg.as ++ asnos := by
  show (seg.as ++ asnos).take ((seg.as.length + asnos.length) % 2 ^ 16) = _
  rw [Nat.mod_eq_of_lt hfits]
  exact List.take_of_length_le (Nat.le_of_eq List.length_append)

theorem items_append_asns {pin seg : AsSegment} (hpack : TypesPackable pin seg)
    (hfits : pin.as.length + seg.as.length < 2 ^ 16) :
    (assegmentAppendAsns pin seg.as).items = pin.items ++ seg.items := by
  have hpin : (assegmentAppendAsns pin seg.as).type = AS_SEQUENCE := hpack.2
  rw [items_of_sequence hpin, items_of_sequence hpack.2, items_of_sequence (hpack.1 ▸ hpack.2),
    append_as _ _ hfits, List.map_append]

/-! ## `assegment_normalise` -/

theorem asnCount_cons (seg : AsSegment) (segs : List AsSegment) :
    asnCount (seg :: segs) = seg.as.length + asnCount segs := by
  unfold asnCount
  rw [List.map_cons, List.sum_cons]

/-- The first segment keeps its type. -/
theorem head_normaliseFrom (pin : AsSegment) (segs : List AsSegment) :
    ∀ seg ∈ (normaliseFrom pin segs).head?, seg.type = pin.type := by
  induction segs generalizing pin with
  | nil => exact fun seg hseg => congrArg AsSegment.type (Option.some.inj hseg).symm
  | cons next segs ih =>
    intro seg hseg
    unfold normaliseFrom at hseg
    split at hseg
    · exact ih (assegmentAppendAsns pin next.as) seg hseg
    · exact congrArg AsSegment.type (Option.some.inj hseg).symm

theorem items_normaliseFrom (pin : AsSegment) (segs : List AsSegment)
    (hfits : pin.as.length + asnCount segs < 2 ^ 16) :
    items (normaliseFrom pin segs) = pin.items ++ items segs := by
  induction segs generalizing pin with
  | nil => rfl
  | cons seg segs ih =>
    rw [asnCount_cons] at hfits
    unfold normaliseFrom
    split
    · next hpack =>
      have hlen : (assegmentAppendAsns pin seg.as).as.length = pin.as.length + seg.as.length := by
        rw [append_as _ _ (by omega), List.length_append]
      rw [ih _ (by omega), items_append_asns hpack (by omega), items_cons, List.append_assoc]
    · have hle := length_sortSet_le seg
      rw [items_cons, ih _ (by omega), items_sortSet, items_cons]

theorem canonical_normaliseFrom (pin : AsSegment) (segs : List AsSegment)
    (hfits : pin.as.length + asnCount segs < 2 ^ 16) (hsorted : pin.IsSet → pin.as.Pairwise (· < ·))
    (hpin : pin.as ≠ []) (hne : ∀ seg ∈ segs, seg.as ≠ []) :
    Canonical (normaliseFrom pin segs) := by
  induction segs generalizing pin with
  | nil =>
    refine ⟨List.isChain_singleton pin, ?_, ?_⟩
    · exact List.forall_mem_singleton.mpr hsorted
    · exact List.forall_mem_singleton.mpr hpin
  | cons seg segs ih =>
    rw [asnCount_cons] at hfits
    rw [List.forall_mem_cons] at hne
    unfold normaliseFrom
    split
    · next hpack =>
      have has := append_as pin seg.as (by omega)
      have hset : ¬ (assegmentAppendAsns pin seg.as).IsSet := not_isSet_of_sequence hpack.2
      refine ih _ ?_ (fun h => absurd h hset) ?_ hne.2
      · rw [has, List.length_append]
        omega
      · rw [has]
        exact List.append_ne_nil_of_left_ne_nil hpin _
    · next hpack =>
      have hle := length_sortSet_le seg
      have hrest := ih (sortSet seg) (by omega) sortSet_sorted (sortSet_ne_nil hne.1) hne.2
      refine ⟨List.isChain_cons.mpr ⟨?_, hrest.apart⟩, ?_, ?_⟩
      · intro next hnext htypes
        rw [TypesPackable, head_normaliseFrom _ _ next hnext, sortSet_type] at htypes
        exact hpack htypes
      · exact List.forall_mem_cons.mpr ⟨hsorted, hrest.sorted⟩
      · exact List.forall_mem_cons.mpr ⟨hpin, hrest.nonempty⟩

end AsPathLemmas

open AsPathLemmas

/-- The canonical form says the same. -/
theorem items_normalise {segs : List AsSegment} (hfits : asnCount segs < 2 ^ 16) :
    items (assegmentNormalise segs) = items segs := by
  cases segs with
  | nil => rfl
  | cons seg segs =>
    rw [asnCount_cons] at hfits
    have hle := length_sortSet_le seg
    show items (normaliseFrom (sortSet seg) segs) = _
    rw [items_normaliseFrom _ _ (by omega), items_sortSet, items_cons]

theorem canonical_normalise {segs : List AsSegment} (hfits : asnCount segs < 2 ^ 16)
    (hne : ∀ seg ∈ segs, seg.as ≠ []) : Canonical (assegmentNormalise segs) := by
  cases segs with
  | nil => exact ⟨List.isChain_nil, List.forall_mem_nil _, List.forall_mem_nil _⟩
  | cons seg segs =>
    rw [asnCount_cons] at hfits
    rw [List.forall_mem_cons] at hne
    have hle := length_sortSet_le seg
    exact canonical_normaliseFrom _ _ (by omega) sortSet_sorted (sortSet_ne_nil hne.1) hne.2

/-! ## Canonical paths -/

theorem Canonical.tail {seg : AsSegment} {segs : List AsSegment} (h : Canonical (seg :: segs)) :
    Canonical segs :=
  ⟨(List.isChain_cons.mp h.apart).2, (List.forall_mem_cons.mp h.sorted).2,
    (List.forall_mem_cons.mp h.nonempty).2⟩

theorem Canonical.normaliseFrom_eq {seg : AsSegment} {segs : List AsSegment}
    (h : Canonical (seg :: segs)) : normaliseFrom seg segs = seg :: segs := by
  induction segs generalizing seg with
  | nil => rfl
  | cons next segs ih =>
    have hnext : sortSet next = next :=
      sortSet_of_sorted (h.sorted next (List.mem_cons_of_mem _ List.mem_cons_self))
    unfold normaliseFrom
    rw [if_neg (List.isChain_cons_cons.mp h.apart).1, hnext, ih h.tail]

/-- A canonical path stays as it is. -/
theorem Canonical.normalise_eq {segs : List AsSegment} (h : Canonical segs) :
    assegmentNormalise segs = segs := by
  cases segs with
  | nil => rfl
  | cons seg segs =>
    show normaliseFrom (sortSet seg) segs = _
    rw [sortSet_of_sorted (h.sorted seg List.mem_cons_self), h.normaliseFrom_eq]

namespace AsPathLemmas

theorem segment_ext {x y : AsSegment} (htype : x.type = y.type) (has : x.as = y.as) : x = y := by
  cases x
  cases y
  cases htype
  cases has
  rfl

/-- The items begin with something else than a number of an AS sequence. -/
def NoHop (l : List PathItem) : Prop := ∀ n, l.head? ≠ some (.hop n)

theorem noHop_behind {seg : AsSegment} {segs : List AsSegment} (h : Canonical (seg :: segs))
    (htype : seg.type = AS_SEQUENCE) : NoHop (items segs) := by
  intro n hhead
  cases segs with
  | nil => cases hhead
  | cons next segs =>
    have hnext : next.type ≠ AS_SEQUENCE := fun heq =>
      (List.isChain_cons_cons.mp h.apart).1 ⟨htype.trans heq.symm, htype⟩
    rw [items_cons] at hhead
    by_cases hset : next.IsSet
    · rw [items_of_isSet hset] at hhead
      cases hhead
    · rw [items_of_other hnext hset] at hhead
      cases hhead

theorem hops_inj {as as' : List UInt32} {l l' : List PathItem} (hl : NoHop l) (hl' : NoHop l')
    (heq : as.map .hop ++ l = as'.map .hop ++ l') : as = as' ∧ l = l' := by
  induction as generalizing as' with
  | nil =>
    cases as' with
    | nil => exact ⟨rfl, heq⟩
    | cons n as' =>
      obtain rfl : l = _ := heq
      exact absurd rfl (hl n)
  | cons n as ih =>
    cases as' with
    | nil =>
      obtain rfl : _ = l' := heq
      exact absurd rfl (hl' n)
    | cons n' as' =>
      obtain ⟨hn, hrest⟩ := List.cons.inj heq
      obtain ⟨rfl, rfl⟩ := ih hrest
      cases hn
      exact ⟨rfl, rfl⟩

/-- The three kinds of segments. -/
theorem segment_kind (seg : AsSegment) :
    seg.type = AS_SEQUENCE ∨ seg.IsSet ∨ (seg.type ≠ AS_SEQUENCE ∧ ¬ seg.IsSet) := by
  by_cases htype : seg.type = AS_SEQUENCE
  · exact .inl htype
  · by_cases hset : seg.IsSet
    · exact .inr (.inl hset)
    · exact .inr (.inr ⟨htype, hset⟩)

theorem items_ne_nil {seg : AsSegment} (h : seg.as ≠ []) : seg.items ≠ [] := by
  rcases segment_kind seg with hseq | hset | ⟨htype, hset⟩
  · rw [items_of_sequence hseq]
    exact fun hnil => h (List.map_eq_nil_iff.mp hnil)
  · rw [items_of_isSet hset]
    exact List.cons_ne_nil _ _
  · rw [items_of_other htype hset]
    exact List.cons_ne_nil _ _

/-- The first segments agree when the items do. -/
theorem first_eq_of_items {x y : AsSegment} {p q : List AsSegment} (hp : Canonical (x :: p))
    (hq : Canonical (y :: q)) (heq : x.items ++ items p = y.items ++ items q) :
    x = y ∧ items p = items q := by
  have hsorted := hp.sorted x List.mem_cons_self
  have hsorted' := hq.sorted y List.mem_cons_self
  obtain ⟨n, as, hx⟩ := List.exists_cons_of_ne_nil (hp.nonempty x List.mem_cons_self)
  obtain ⟨n', as', hy⟩ := List.exists_cons_of_ne_nil (hq.nonempty y List.mem_cons_self)
  rcases segment_kind x with hseq | hset | ⟨htype, hset⟩ <;>
    rcases segment_kind y with hseq' | hset' | ⟨htype', hset'⟩
  · rw [items_of_sequence hseq, items_of_sequence hseq'] at heq
    obtain ⟨has, hitems⟩ := hops_inj (noHop_behind hp hseq) (noHop_behind hq hseq') heq
    exact ⟨segment_ext (hseq.trans hseq'.symm) has, hitems⟩
  · rw [items_of_sequence hseq, items_of_isSet hset', hx] at heq
    cases (List.cons.inj heq).1
  · rw [items_of_sequence hseq, items_of_other htype' hset', hx] at heq
    cases (List.cons.inj heq).1
  · rw [items_of_isSet hset, items_of_sequence hseq', hy] at heq
    cases (List.cons.inj heq).1
  · rw [items_of_isSet hset, items_of_isSet hset'] at heq
    obtain ⟨hitem, hitems⟩ := List.cons.inj heq
    obtain ⟨htypes, hfinset⟩ := PathItem.set.inj hitem
    exact ⟨segment_ext htypes (eq_of_toFinset (hsorted hset) (hsorted' hset') hfinset), hitems⟩
  · rw [items_of_isSet hset, items_of_other htype' hset'] at heq
    cases (List.cons.inj heq).1
  · rw [items_of_other htype hset, items_of_sequence hseq', hy] at heq
    cases (List.cons.inj heq).1
  · rw [items_of_other htype hset, items_of_isSet hset'] at heq
    cases (List.cons.inj heq).1
  · rw [items_of_other htype hset, items_of_other htype' hset'] at heq
    obtain ⟨hitem, hitems⟩ := List.cons.inj heq
    obtain ⟨htypes, has⟩ := PathItem.other.inj hitem
    exact ⟨segment_ext htypes has, hitems⟩

end AsPathLemmas

/-- Canonical paths that say the same are the same. -/
theorem Canonical.eq_of_items {p q : List AsSegment} (hp : Canonical p) (hq : Canonical q)
    (heq : items p = items q) : p = q := by
  induction p generalizing q with
  | nil =>
    cases q with
    | nil => rfl
    | cons y q =>
      have hne := items_ne_nil (hq.nonempty y List.mem_cons_self)
      rw [items_cons] at heq
      exact absurd heq.symm (List.append_ne_nil_of_left_ne_nil hne _)
  | cons x p ih =>
    cases q with
    | nil =>
      have hne := items_ne_nil (hp.nonempty x List.mem_cons_self)
      rw [items_cons] at heq
      exact absurd heq (List.append_ne_nil_of_left_ne_nil hne _)
    | cons y q =>
      rw [items_cons, items_cons] at heq
      obtain ⟨rfl, hitems⟩ := first_eq_of_items hp hq heq
      rw [ih hp.tail hq.tail hitems]

/-- Paths are brought into the same segments exactly when they say the same. -/
theorem normalise_eq_iff {p q : List AsSegment} (hp : asnCount p < 2 ^ 16)
    (hq : asnCount q < 2 ^ 16) (hne : ∀ seg ∈ p, seg.as ≠ []) (hne' : ∀ seg ∈ q, seg.as ≠ []) :
    assegmentNormalise p = assegmentNormalise q ↔ items p = items q := by
  constructor
  · intro heq
    have hitems := congrArg items heq
    rwa [items_normalise hp, items_normalise hq] at hitems
  · intro heq
    refine (canonical_normalise hp hne).eq_of_items (canonical_normalise hq hne') ?_
    rw [items_normalise hp, items_normalise hq, heq]

end SrxSuite.Quagga

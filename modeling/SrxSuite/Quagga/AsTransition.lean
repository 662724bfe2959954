import SrxSuite.Quagga.AsPathPut

/-!
# AS numbers of four bytes across old speakers

The models of `aspath_reconcile_as4` and `aspath_add_seq` (`bgpd/bgp_aspath.c`). A speaker that supports
only two bytes gets an AS_PATH in which AS_TRANS stands for a larger number, and an AS4_PATH with the
real ones that it passes on as it is. It writes its own number in front of the AS_PATH only. The next
speaker with four bytes takes from the AS_PATH what is in front of the AS4_PATH, by counting hops.

Results:
1. `reconcileAs4_items`: what the path says that is put together.
2. `transition_keeps`: after any number of old speakers the path is the one that it had been if all
   of them supported four bytes, and the aggregator is the one that was sent.
-/

namespace SrxSuite.Quagga

open Bytes

/-! ## Hops -/

/-- `aspath_count_hops`. -/
def aspathCountHops (segs : List AsSegment) : Nat :=
  (segs.map fun seg => if seg.type = AS_SEQUENCE then seg.as.length
    else if seg.type = AS_SET then 1 else 0).sum

/-- `aspath_count_confeds`. -/
def aspathCountConfeds (segs : List AsSegment) : Nat :=
  (segs.map fun seg => if seg.type = AS_CONFED_SEQUENCE then seg.as.length
    else if seg.type = AS_CONFED_SET then 1 else 0).sum

/-- `aspath_has_as4`. -/
def aspathHasAs4 (segs : List AsSegment) : Bool :=
  segs.any fun seg => seg.as.any fun as => as > BGP_AS_MAX

/-! ## Adding an AS number -/

/-- `assegment_prepend_asns`. -/
def assegmentPrependAsns (seg : AsSegment) (asnum : UInt32) (num : Nat) : AsSegment :=
  if num = 0 ∨ AS_SEGMENT_MAX ≤ num then seg
  else ⟨seg.type, (List.replicate num asnum ++ seg.as).take ((seg.as.length + num) % 2 ^ 16),
    Nat.lt_of_le_of_lt (List.length_take_le _ _) (Nat.mod_lt _ (by decide))⟩

/-- `aspath_add_one_as`. -/
def aspathAddOneAs (segs : List AsSegment) (asno : UInt32) (type : UInt8) : List AsSegment :=
  match segs with
  | [] => [⟨type, [asno], one_fits16⟩]
  | assegment :: next =>
    if assegment.as.length = 0 then [⟨type, [asno], one_fits16⟩]
    else if assegment.type = type then assegmentPrependAsns assegment asno 1 :: next
    else ⟨type, [asno], one_fits16⟩ :: assegment :: next

/-- `aspath_add_seq`. -/
def aspathAddSeq (segs : List AsSegment) (asno : UInt32) : List AsSegment :=
  aspathAddOneAs segs asno AS_SEQUENCE

/-! ## `aspath_reconcile_as4` -/

/-- What the `switch` of the loop sets: `hops` and `cpasns`. -/
def countSegment (seg : AsSegment) (hops : Int) (cpasns : Nat) : Int × Nat :=
  if seg.type = AS_SET ∨ seg.type = AS_CONFED_SET then (hops - 1, seg.as.length)
  else
    let hops := if seg.type = AS_CONFED_SEQUENCE ∧ hops < seg.as.length then (seg.as.length : Int) else hops
    if seg.type = AS_CONFED_SEQUENCE ∨ seg.type = AS_SEQUENCE then
      (hops - seg.as.length, (min (seg.as.length : Int) hops).toNat)
    else (hops, cpasns)

/-- `newseg`: the first numbers of a segment. -/
def newSegment (seg : AsSegment) (cpasns : Nat) : AsSegment :=
  assegmentAppendAsns ⟨seg.type, [], zero_fits16⟩ (seg.as.take cpasns)

/-- The loop: the segments of the new path; `none` for a failed assertion. -/
def reconcileLoop : List AsSegment → (hops : Int) → (cpasns : Nat) → Option (List AsSegment)
  | [], _, _ => some []
  | seg :: segs, hops, cpasns =>
    if hops > 0 then
      let (hops, cpasns) := countSegment seg hops cpasns
      if cpasns ≤ seg.as.length then do
        let newpath ← reconcileLoop segs hops cpasns
        some (newSegment seg cpasns :: newpath)
      else none
    else some []

/-- `aspath_reconcile_as4`. A new path without segments is `NULL`, which is then used. -/
def aspathReconcileAs4 (aspath as4path : List AsSegment) : Option (List AsSegment) := do
  let hops : Int := (aspathCountHops aspath + aspathCountConfeds aspath : Nat) - aspathCountHops as4path
  let hops := if hops < 0 then (aspathCountHops aspath : Int) else hops
  if hops = 0 then some as4path
  else
    let newpath ← reconcileLoop aspath hops 0
    if newpath = [] then none else some (assegmentNormalise (newpath ++ as4path))

/-! ## Paths without confederations -/

/-- Only AS sequences and AS sets. -/
def Plain (segs : List AsSegment) : Prop :=
  ∀ seg ∈ segs, seg.type = AS_SEQUENCE ∨ seg.type = AS_SET

/-- The items of such paths. -/
def PlainItem : PathItem → Prop
  | .hop _ => True
  | .set type _ => type = AS_SET
  | .other _ _ => False

namespace AsTransitionLemmas

open AsPathLemmas

theorem isSet_of_set {seg : AsSegment} (h : seg.type = AS_SET) : seg.IsSet := .inl h

theorem length_items_set {seg : AsSegment} (h : seg.type = AS_SET) : seg.items.length = 1 := by
  rw [items_of_isSet (isSet_of_set h)]
  rfl

theorem length_items_sequence {seg : AsSegment} (h : seg.type = AS_SEQUENCE) :
    seg.items.length = seg.as.length := by
  rw [items_of_sequence h, List.length_map]

/-- The hops that are counted are the items. -/
theorem countHops_eq {segs : List AsSegment} (h : Plain segs) :
    aspathCountHops segs = (items segs).length ∧ aspathCountConfeds segs = 0 := by
  induction segs with
  | nil => exact ⟨rfl, rfl⟩
  | cons seg segs ih =>
    obtain ⟨hseg, hsegs⟩ := List.forall_mem_cons.mp h
    obtain ⟨hhops, hconfeds⟩ := ih hsegs
    unfold aspathCountHops aspathCountConfeds at *
    rw [List.map_cons, List.sum_cons, List.map_cons, List.sum_cons, hhops, hconfeds, items_cons,
      List.length_append]
    rcases hseg with hseq | hset
    · rw [length_items_sequence hseq, hseq]
      exact ⟨rfl, rfl⟩
    · rw [length_items_set hset, hset]
      exact ⟨rfl, rfl⟩

theorem plain_of_items {segs : List AsSegment} (h : ∀ item ∈ items segs, PlainItem item) :
    Plain segs := by
  intro seg hseg
  have hitems : ∀ item ∈ seg.items, PlainItem item := fun item hitem =>
    h item (List.mem_flatMap.mpr ⟨seg, hseg, hitem⟩)
  rcases segment_kind seg with hseq | hset | ⟨htype, hset⟩
  · exact .inl hseq
  · rw [items_of_isSet hset] at hitems
    exact .inr (hitems _ (List.mem_singleton_self _))
  · rw [items_of_other htype hset] at hitems
    exact absurd (hitems _ (List.mem_singleton_self _)) id

theorem plainItems {segs : List AsSegment} (h : Plain segs) : ∀ item ∈ items segs, PlainItem item := by
  intro item hitem
  obtain ⟨seg, hseg, hitem⟩ := List.mem_flatMap.mp hitem
  rcases h seg hseg with hseq | hset
  · rw [items_of_sequence hseq] at hitem
    obtain ⟨n, -, rfl⟩ := List.mem_map.mp hitem
    trivial
  · rw [items_of_isSet (isSet_of_set hset)] at hitem
    rw [List.mem_singleton.mp hitem]
    exact hset

/-! ## `aspath_reconcile_as4` -/

theorem newSegment_as (seg : AsSegment) (n : Nat) : (newSegment seg n).as = seg.as.take n := by
  have hlt := Nat.lt_of_le_of_lt (List.length_take_le' n seg.as) seg.length
  unfold newSegment
  rw [append_as _ _ (by rw [List.length_nil, Nat.zero_add]; exact hlt)]
  rfl

theorem countSegment_sequence {seg : AsSegment} (h : seg.type = AS_SEQUENCE) {hops : Nat}
    (cpasns : Nat) :
    countSegment seg hops cpasns = ((hops : Int) - seg.as.length, min seg.as.length hops) := by
  have hmin : (min (seg.as.length : Int) hops).toNat = min seg.as.length hops := by omega
  unfold countSegment
  rw [h, if_neg (by decide)]
  simp only [show AS_SEQUENCE ≠ AS_CONFED_SEQUENCE by decide, false_and, if_false, or_true, if_true,
    hmin]

theorem countSegment_set {seg : AsSegment} (h : seg.type = AS_SET) (hops : Int) (cpasns : Nat) :
    countSegment seg hops cpasns = (hops - 1, seg.as.length) := if_pos (.inl h)

/-- What one round copies of a segment. -/
theorem countSegment_items {seg : AsSegment} (hseg : seg.type = AS_SEQUENCE ∨ seg.type = AS_SET)
    (hne : seg.as ≠ []) {hops : Nat} (hpos : 0 < hops) (cpasns : Nat) :
    ∃ n, countSegment seg hops cpasns = ((hops : Int) - seg.items.length, n) ∧ 0 < n ∧
      n ≤ seg.as.length ∧ (newSegment seg n).items = seg.items.take hops := by
  have hlen := List.length_pos_iff.mpr hne
  rcases hseg with hseq | hset
  · refine ⟨min seg.as.length hops, ?_, by omega, Nat.min_le_left _ _, ?_⟩
    · rw [countSegment_sequence hseq, length_items_sequence hseq]
    · rw [items_of_sequence hseq, items_of_sequence (show (newSegment seg _).type = AS_SEQUENCE from hseq), newSegment_as,
        ← List.map_take, List.take_eq_take_iff.mpr (by omega : min (min _ hops) _ = min hops _)]
  · refine ⟨seg.as.length, ?_, hlen, Nat.le_refl _, ?_⟩
    · rw [countSegment_set hset, length_items_set hset]
      rfl
    · have hsame : newSegment seg seg.as.length = seg :=
        segment_ext rfl (by rw [newSegment_as, List.take_length])
      rw [hsame, List.take_of_length_le (by rw [length_items_set hset]; exact hpos)]

/-- The loop takes as many items as there are hops. -/
theorem reconcileLoop_items {segs : List AsSegment} (hplain : Plain segs)
    (hne : ∀ seg ∈ segs, seg.as ≠ []) (hops : Int) (cpasns : Nat) :
    ∃ newpath, reconcileLoop segs hops cpasns = some newpath ∧
      items newpath = (items segs).take hops.toNat ∧ asnCount newpath ≤ asnCount segs ∧
      (∀ seg ∈ newpath, seg.as ≠ []) ∧ (newpath = [] → hops ≤ 0 ∨ segs = []) := by
  induction segs generalizing hops cpasns with
  | nil => exact ⟨[], rfl, List.take_nil.symm, Nat.le_refl _, List.forall_mem_nil _, fun _ => .inr rfl⟩
  | cons seg segs ih =>
    obtain ⟨hseg, hsegs⟩ := List.forall_mem_cons.mp hplain
    rw [List.forall_mem_cons] at hne
    by_cases hhops : hops > 0
    · obtain ⟨hops, rfl⟩ := Int.eq_ofNat_of_zero_le (Int.le_of_lt hhops)
      obtain ⟨n, hcount, hpos, hle, hitems⟩ := countSegment_items hseg hne.1
        (Int.natCast_pos.mp hhops) cpasns
      obtain ⟨newpath, hloop, hrest, hasns, hnonempty, -⟩ := ih hsegs hne.2
        ((hops : Int) - seg.items.length) n
      have has := newSegment_as seg n
      refine ⟨newSegment seg n :: newpath, ?_, ?_, ?_, List.forall_mem_cons.mpr ⟨?_, hnonempty⟩,
        fun hnil => absurd hnil (List.cons_ne_nil _ _)⟩
      · unfold reconcileLoop
        rw [if_pos hhops, hcount]
        dsimp only
        rw [if_pos hle, hloop]
        rfl
      · rw [items_cons, hitems, hrest, items_cons, List.take_append]
        congr 2
        omega
      · rw [asnCount_cons, asnCount_cons, has, List.length_take_of_le hle]
        exact Nat.add_le_add hle hasns
      · rw [has]
        exact fun hnil => (List.take_eq_nil_iff.mp hnil).elim (Nat.ne_of_gt hpos) hne.1
    · refine ⟨[], ?_, ?_, Nat.zero_le _, List.forall_mem_nil _, fun _ => .inl (by omega)⟩
      · unfold reconcileLoop
        rw [if_neg hhops]
      · rw [Int.toNat_of_nonpos (by omega), List.take_zero]
        rfl

theorem asnCount_append (segs segs' : List AsSegment) :
    asnCount (segs ++ segs') = asnCount segs + asnCount segs' := by
  unfold asnCount
  rw [List.map_append, List.sum_append_nat]

/-- The hops that are taken from the AS_PATH. -/
theorem reconcileAs4_hops {aspath as4path : List AsSegment} {p q : Nat}
    (hhops : aspathCountHops aspath = p) (hconfeds : aspathCountConfeds aspath = 0)
    (hhops' : aspathCountHops as4path = q) :
    aspathReconcileAs4 aspath as4path =
      let hops := if q ≤ p then p - q else p
      if hops = 0 then some as4path
      else (reconcileLoop aspath hops 0).bind fun newpath =>
        if newpath = [] then none else some (assegmentNormalise (newpath ++ as4path)) := by
  unfold aspathReconcileAs4
  rw [hhops, hconfeds, hhops', Nat.add_zero]
  by_cases hle : q ≤ p
  · have hsub : (p : Int) - q = ((p - q : Nat) : Int) := (Int.ofNat_sub hle).symm
    have hneg : ¬ (((p - q : Nat) : Int) < 0) := by omega
    simp only [if_pos hle, hsub, if_neg hneg, Int.natCast_eq_zero]
    rfl
  · have hneg : (p : Int) - q < 0 := by omega
    simp only [if_neg hle, if_pos hneg, Int.natCast_eq_zero]
    rfl

end AsTransitionLemmas

open AsPathLemmas AsTransitionLemmas

/-- What the path says that is put together: the hops of the AS_PATH that the AS4_PATH lacks, then the
AS4_PATH; all of both when the AS4_PATH has more hops. -/
theorem reconcileAs4_items {aspath as4path : List AsSegment} (hp : Canonical aspath)
    (hq : Canonical as4path) (hplain : Plain aspath) (hplain' : Plain as4path)
    (hfits : asnCount aspath + asnCount as4path < 2 ^ 16) :
    ∃ path, aspathReconcileAs4 aspath as4path = some path ∧ Canonical path ∧
      items path = (items aspath).take (if (items as4path).length ≤ (items aspath).length then
        (items aspath).length - (items as4path).length else (items aspath).length) ++
        items as4path := by
  obtain ⟨hhops, hconfeds⟩ := countHops_eq hplain
  obtain ⟨hhops', -⟩ := countHops_eq hplain'
  rw [reconcileAs4_hops hhops hconfeds hhops']
  generalize hn : (if (items as4path).length ≤ (items aspath).length then
    (items aspath).length - (items as4path).length else (items aspath).length) = n
  rcases Nat.eq_zero_or_pos n with rfl | hpos
  · exact ⟨as4path, rfl, hq, rfl⟩
  · obtain ⟨newpath, hloop, hitems, hasns, hne, hnil⟩ :=
      reconcileLoop_items hplain hp.nonempty n 0
    have hnew : newpath ≠ [] := by
      intro heq
      rcases hnil heq with hle | rfl
      · omega
      · have hzero : (items []).length = 0 := rfl
        split at hn <;> omega
    have hsum : asnCount (newpath ++ as4path) < 2 ^ 16 := by
      rw [asnCount_append]
      omega
    have hall : ∀ seg ∈ newpath ++ as4path, seg.as ≠ [] :=
      List.forall_mem_append.mpr ⟨hne, hq.nonempty⟩
    refine ⟨assegmentNormalise (newpath ++ as4path), ?_, canonical_normalise hsum hall, ?_⟩
    · rw [if_neg (Nat.ne_of_gt hpos), hloop]
      exact if_neg hnew
    · rw [items_normalise hsum, items_append, hitems]
      rfl

namespace AsTransitionLemmas

/-! ## `aspath_add_seq` -/

theorem prepend_one_as (seg : AsSegment) (asno : UInt32) (hfits : seg.as.length + 1 < 2 ^ 16) :
    (assegmentPrependAsns seg asno 1).as = asno :: seg.as ∧
      (assegmentPrependAsns seg asno 1).type = seg.type := by
  unfold assegmentPrependAsns
  rw [if_neg (by decide)]
  refine ⟨?_, rfl⟩
  show (asno :: seg.as).take ((seg.as.length + 1) % 2 ^ 16) = _
  rw [Nat.mod_eq_of_lt hfits]
  exact List.take_of_length_le (Nat.le_refl _)

theorem canonical_cons {seg : AsSegment} {segs : List AsSegment} (h : Canonical segs)
    (hapart : ∀ next ∈ segs.head?, ¬ TypesPackable seg next)
    (hsorted : seg.IsSet → seg.as.Pairwise (· < ·)) (hne : seg.as ≠ []) : Canonical (seg :: segs) :=
  ⟨List.isChain_cons.mpr ⟨hapart, h.apart⟩, List.forall_mem_cons.mpr ⟨hsorted, h.sorted⟩,
    List.forall_mem_cons.mpr ⟨hne, h.nonempty⟩⟩

/-- The number is put in front. -/
theorem addSeq_items {segs : List AsSegment} (h : Canonical segs) (asno : UInt32)
    (hfits : asnCount segs + 1 < 2 ^ 16) :
    Canonical (aspathAddSeq segs asno) ∧ items (aspathAddSeq segs asno) = .hop asno :: items segs ∧
      asnCount (aspathAddSeq segs asno) = asnCount segs + 1 := by
  have hset : ∀ as hlen, ¬ (⟨AS_SEQUENCE, as, hlen⟩ : AsSegment).IsSet := fun as hlen =>
    not_isSet_of_sequence rfl
  cases segs with
  | nil =>
    refine ⟨canonical_cons h (fun _ hnext => absurd hnext (Option.not_mem_none _)) (fun hs => absurd hs (hset _ _)) ?_, rfl, rfl⟩
    exact List.cons_ne_nil _ _
  | cons seg segs =>
    have hne := h.nonempty seg List.mem_cons_self
    have hpos := Nat.ne_of_gt (List.length_pos_iff.mpr hne)
    rw [asnCount_cons] at hfits ⊢
    unfold aspathAddSeq aspathAddOneAs
    dsimp only
    rw [if_neg hpos]
    by_cases hseq : seg.type = AS_SEQUENCE
    · obtain ⟨has, htype⟩ := prepend_one_as seg asno (by omega)
      rw [if_pos hseq]
      refine ⟨canonical_cons h.tail ?_ ?_ ?_, ?_, ?_⟩
      · intro next hnext hpack
        unfold TypesPackable at hpack
        rw [htype] at hpack
        exact (List.isChain_cons.mp h.apart).1 next hnext hpack
      · intro hs
        exact absurd hs (not_isSet_of_sequence (htype.trans hseq))
      · rw [has]
        exact List.cons_ne_nil _ _
      · rw [items_cons, items_cons, items_of_sequence (htype.trans hseq), items_of_sequence hseq, has]
        rfl
      · rw [asnCount_cons, has, List.length_cons]
        omega
    · rw [if_neg hseq]
      refine ⟨canonical_cons h ?_ (fun hs => absurd hs (hset _ _)) (List.cons_ne_nil _ _), ?_, ?_⟩
      · rintro next hnext ⟨hsame, -⟩
        obtain rfl := Option.some.inj hnext
        exact hseq hsame.symm
      · rw [items_cons]
        rfl
      · rw [asnCount_cons, asnCount_cons, List.length_singleton]
        omega

/-- All speakers put their numbers in front. -/
theorem addSeqs_items {segs : List AsSegment} (h : Canonical segs) (olds : List UInt32)
    (hfits : asnCount segs + olds.length < 2 ^ 16) :
    Canonical (olds.foldr (fun own path => aspathAddSeq path own) segs) ∧
      items (olds.foldr (fun own path => aspathAddSeq path own) segs) =
        olds.map .hop ++ items segs ∧
      asnCount (olds.foldr (fun own path => aspathAddSeq path own) segs) =
        asnCount segs + olds.length := by
  induction olds with
  | nil => exact ⟨h, rfl, rfl⟩
  | cons own olds ih =>
    rw [List.length_cons] at hfits
    obtain ⟨hcanonical, hitems, hcount⟩ := ih (by omega)
    obtain ⟨hcanonical', hitems', hcount'⟩ := addSeq_items hcanonical own (by omega)
    refine ⟨hcanonical', ?_, ?_⟩
    · rw [List.foldr_cons, hitems', hitems]
      rfl
    · rw [List.foldr_cons, hcount', hcount, List.length_cons]
      omega

end AsTransitionLemmas

/-! ## Old speakers -/

/-- `aggregator_as` and `aggregator_addr`. -/
structure Aggregator where
  as : UInt32
  addr : UInt32
  deriving DecidableEq, Repr

/-- What an update says of the aggregator: the AGGREGATOR and the AS4_AGGREGATOR. -/
structure AggregatorAttrs where
  aggregator : Option Aggregator
  as4Aggregator : Option Aggregator
  deriving DecidableEq, Repr

/-- The part of `bgp_packet_attribute` about the aggregator, for a peer without four bytes. -/
def putAggregator (aggregator : Option Aggregator) : AggregatorAttrs where
  aggregator := aggregator.map fun x => if x.as > 65535 then { x with as := BGP_AS_TRANS.toUInt32 } else x
  as4Aggregator := aggregator.filter fun x => x.as > 65535

/-- The part of `bgp_attr_munge_as4_attrs` about the aggregator: the aggregator, and
`ignore_as4_path`. Without an AGGREGATOR only the number is taken. -/
def mungeAggregator (attrs : AggregatorAttrs) : Option Aggregator × Bool :=
  match attrs.as4Aggregator, attrs.aggregator with
  | none, aggregator => (aggregator, false)
  | some as4, some aggregator =>
    if aggregator.as ≠ BGP_AS_TRANS.toUInt32 then (some aggregator, true) else (some as4, false)
  | some as4, none => (some ⟨as4.as, 0⟩, false)

/-- What a speaker with four bytes makes of the AS_PATH of an old peer, of the AS4_PATH if there is
one, and of what is said of the aggregator: `bgp_attr_aspath`, `bgp_attr_as4_path` and
`bgp_attr_munge_as4_attrs`. The inner `none` is a malformed attribute. -/
def receivePath (attr : Bytes) (as4attr : Option Bytes) (attrs : AggregatorAttrs) :
    Option (Option (List AsSegment × Option Aggregator)) := do
  let (aspath, _) ← aspathParse attr attr.length false
  let (aggregator, ignoreAs4Path) := mungeAggregator attrs
  match aspath, as4attr with
  | none, _ => some none
  | some aspath, none => some (some (aspath, aggregator))
  | some aspath, some as4attr => do
    let (as4path, _) ← aspathParse as4attr as4attr.length true
    match as4path with
    | none => some none
    | some as4path =>
      if ignoreAs4Path then some (some (aspath, aggregator))
      else (aspathReconcileAs4 aspath as4path).map fun path => some (path, aggregator)

/-- Old speakers with these numbers, the last one first, have passed on the AS_PATH. Each of them puts
its number in front of what the attribute says; the AS4_PATH and the aggregator are left as they
are. -/
inductive OldSpeakers (sent : List (WireSegment false)) : List UInt32 → List (WireSegment false) → Prop
  | start : OldSpeakers sent [] sent
  | pass {own : UInt32} {olds : List UInt32} {ws ws' : List (WireSegment false)} :
      OldSpeakers sent olds ws →
      items (ws'.map WireSegment.seg) = .hop own :: items (ws.map WireSegment.seg) →
      OldSpeakers sent (own :: olds) ws'

theorem OldSpeakers.items_eq {sent ws : List (WireSegment false)} {olds : List UInt32}
    (h : OldSpeakers sent olds ws) :
    items (ws.map WireSegment.seg) = olds.map .hop ++ items (sent.map WireSegment.seg) := by
  induction h with
  | start => rfl
  | pass _ hown ih =>
    rw [hown, ih]
    rfl

namespace AsTransitionLemmas

open AsPathWireLemmas AsPathPutLemmas

variable {use32bit : Bool}

/-! ## Rendering -/

theorem render_eq {path : List AsSegment}
    (h : ∀ seg ∈ path, ∀ as ∈ seg.as, renderAs use32bit as = as) :
    path.map (renderSegment use32bit) = path := by
  refine (List.map_congr_left fun seg hseg => ?_).trans (List.map_id path)
  exact segment_ext rfl ((List.map_congr_left (h seg hseg)).trans (List.map_id seg.as))

theorem render_four (path : List AsSegment) : path.map (renderSegment true) = path :=
  render_eq fun _ _ _ _ => if_pos (.inl rfl)

theorem render_small {path : List AsSegment} (h : aspathHasAs4 path = false) :
    path.map (renderSegment false) = path := by
  refine render_eq fun seg hseg as has => if_pos (.inr ?_)
  refine UInt32.not_lt.mp fun hlt => ?_
  have htrue : aspathHasAs4 path = true :=
    List.any_eq_true.mpr ⟨seg, hseg, List.any_eq_true.mpr ⟨as, has, decide_eq_true hlt⟩⟩
  rw [h] at htrue
  cases htrue

theorem plain_render {path : List AsSegment} (h : Plain path) :
    Plain (path.map (renderSegment use32bit)) := by
  intro seg hseg
  obtain ⟨seg', hseg', rfl⟩ := List.mem_map.mp hseg
  exact h seg' hseg'

theorem length_items_render (use32bit : Bool) {path : List AsSegment} (h : Plain path) :
    (items (path.map (renderSegment use32bit))).length = (items path).length := by
  rw [← (countHops_eq h).1, ← (countHops_eq (plain_render h)).1]
  unfold aspathCountHops
  rw [List.map_map]
  congr 1
  refine List.map_congr_left fun seg _ => ?_
  show (if seg.type = AS_SEQUENCE then (seg.as.map _).length else _) = _
  rw [List.length_map]
  rfl

/-! ## Counting -/

theorem two_mul_asnCount_le (ws : List (WireSegment use32bit)) :
    2 * asnCount (ws.map WireSegment.seg) ≤ (wireBytes ws).length := by
  induction ws with
  | nil => exact Nat.le_refl 0
  | cons w ws ih =>
    rw [List.map_cons, asnCount_cons, wireBytes_cons, List.length_append, length_wireSegment]
    show 2 * (w.as.length + _) ≤ _
    unfold assegmentSize
    split <;> omega

/-- A canonical form has no more numbers. -/
theorem asnCount_normaliseFrom_le (pin : AsSegment) (segs : List AsSegment) :
    asnCount (normaliseFrom pin segs) ≤ pin.as.length + asnCount segs := by
  induction segs generalizing pin with
  | nil => exact Nat.le_refl _
  | cons seg segs ih =>
    rw [asnCount_cons]
    unfold normaliseFrom
    split
    · have happend : (assegmentAppendAsns pin seg.as).as.length ≤ pin.as.length + seg.as.length :=
        Nat.le_trans (List.length_take_le' _ _) (Nat.le_of_eq List.length_append)
      have hrest := ih (assegmentAppendAsns pin seg.as)
      omega
    · have hrest := ih (sortSet seg)
      have hle := length_sortSet_le seg
      rw [asnCount_cons]
      omega

theorem asnCount_normalise_le (segs : List AsSegment) :
    asnCount (assegmentNormalise segs) ≤ asnCount segs := by
  cases segs with
  | nil => exact Nat.le_refl 0
  | cons seg segs =>
    have hrest := asnCount_normaliseFrom_le (sortSet seg) segs
    have hle := length_sortSet_le seg
    rw [asnCount_cons]
    exact Nat.le_trans hrest (Nat.add_le_add_right hle _)

theorem length_items_le (path : List AsSegment) (hne : ∀ seg ∈ path, seg.as ≠ []) :
    (items path).length ≤ asnCount path := by
  induction path with
  | nil => exact Nat.le_refl 0
  | cons seg path ih =>
    rw [List.forall_mem_cons] at hne
    have hpos := List.length_pos_iff.mpr hne.1
    have hseg : seg.items.length ≤ seg.as.length := by
      rcases segment_kind seg with hseq | hset | ⟨htype, hset⟩
      · exact Nat.le_of_eq (length_items_sequence hseq)
      · rw [items_of_isSet hset]
        exact hpos
      · rw [items_of_other htype hset]
        exact hpos
    rw [items_cons, List.length_append, asnCount_cons]
    exact Nat.add_le_add hseg (ih hne.2)

/-- The path of an attribute that old speakers have passed on. -/
theorem path_passed {sent ws : List (WireSegment false)} {olds : List UInt32} {path : List AsSegment}
    (h : OldSpeakers sent olds ws) (hplain : Plain path) (hlt : (wireBytes ws).length < 2 ^ 16)
    (hsent : items (sent.map WireSegment.seg) = items (path.map (renderSegment false))) :
    ∃ aspath, aspathParse (wireBytes ws) (wireBytes ws).length false = some (some aspath, []) ∧
      Canonical aspath ∧ Plain aspath ∧ 2 * asnCount aspath < 2 ^ 16 ∧
      items aspath = olds.map .hop ++ items (path.map (renderSegment false)) := by
  have hread := aspathParse_wireBytes ws []
  have hhalf := two_mul_asnCount_le ws
  rw [List.append_nil] at hread
  have hitems := @items_normalise (ws.map WireSegment.seg) (by omega)
  rw [h.items_eq, hsent] at hitems
  refine ⟨_, hread, canonical_normalise (by omega) (nonempty_seg ws), ?_, ?_, hitems⟩
  · refine plain_of_items fun item hitem => ?_
    rw [hitems] at hitem
    rcases List.mem_append.mp hitem with hown | hrest
    · obtain ⟨n, -, rfl⟩ := List.mem_map.mp hown
      trivial
    · exact plainItems (plain_render hplain) item hrest
  · have hle := asnCount_normalise_le (ws.map WireSegment.seg)
    omega

end AsTransitionLemmas

/-- The aggregator arrives, and the AS4_PATH is not ignored. -/
theorem mungeAggregator_put (aggregator : Option Aggregator) :
    mungeAggregator (putAggregator aggregator) = (aggregator, false) := by
  cases aggregator with
  | none => rfl
  | some x =>
    unfold putAggregator
    by_cases hlarge : x.as > 65535
    · rw [Option.filter_some, if_pos (decide_eq_true hlarge), Option.map_some, if_pos hlarge]
      unfold mungeAggregator
      exact if_neg (not_not_intro rfl)
    · rw [Option.filter_some, if_neg (by simpa using hlarge), Option.map_some, if_neg hlarge]
      rfl

open AsPathWireLemmas AsPathPutLemmas

/-- Whatever old speakers a path goes through, the next speaker with four bytes has the path that it
would have if all of them had four bytes, and the aggregator. -/
theorem transition_keeps {size₂ size₄ : Nat} (s₂ : Stream size₂) (s₄ : Stream size₄)
    (path : List AsSegment) (aggregator : Option Aggregator) (hcanonical : Canonical path)
    (hplain : Plain path)
    (hbounds : ∀ seg ∈ path, seg.as.length ≤ 510 ∧ (seg.type ≠ AS_SEQUENCE → seg.as.length ≤ 255))
    (hroom₂ : s₂.data.length + (path.flatMap (AsSegment.wire false)).length ≤ size₂)
    (hroom₄ : s₄.data.length + (path.flatMap (AsSegment.wire true)).length ≤ size₄)
    (hlt : (path.flatMap (AsSegment.wire true)).length < 2 ^ 16) :
    ∃ (sent : List (WireSegment false)) (as4attr : Bytes),
      (∃ s, aspathPut s₂ path false = some (s, (wireBytes sent).length) ∧
        s.data = s₂.data ++ wireBytes sent) ∧
      (∃ s, aspathPut s₄ path true = some (s, as4attr.length) ∧ s.data = s₄.data ++ as4attr) ∧
      ∀ olds ws, OldSpeakers sent olds ws → (wireBytes ws).length < 2 ^ 16 →
        receivePath (wireBytes ws) (if aspathHasAs4 path then some as4attr else none)
            (putAggregator aggregator) =
          some (some (olds.foldr (fun own path => aspathAddSeq path own) path, aggregator)) := by
  have hne := hcanonical.nonempty
  have hknown : ∀ seg ∈ path, KnownType seg.type := fun seg hseg =>
    (hplain seg hseg).elim .inl fun hset => .inr (.inl hset)
  have hone : ∀ seg ∈ path, seg.fullParts ≤ 1 := fun seg hseg =>
    ((fullParts_iff (hne seg hseg)).mp (hbounds seg hseg)).1
  have hparts : ∀ seg ∈ path, seg.type = AS_SEQUENCE ∨ seg.fullParts = 0 := fun seg hseg =>
    ((fullParts_iff (hne seg hseg)).mp (hbounds seg hseg)).2
  obtain ⟨sent, hsent, -, hitems⟩ := path_arrives false hknown hne hone
  obtain ⟨sent₄, hsent₄, -, hitems₄⟩ := path_arrives true hknown hne hone
  obtain ⟨s, hput, hdata⟩ := aspathPut_eq hcanonical hroom₂
  obtain ⟨s', hput', hdata'⟩ := aspathPut_eq hcanonical hroom₄
  rw [(countedSize_iff _ hne).2.mpr hone, ← hsent] at hput
  rw [(countedSize_iff _ hne).2.mpr hone, ← hsent₄] at hput'
  rw [← hsent] at hdata
  rw [← hsent₄] at hdata'
  refine ⟨sent, wireBytes sent₄, ⟨s, hput, hdata⟩, ⟨s', hput', hdata'⟩, fun olds ws holds hws => ?_⟩
  obtain ⟨aspath, hread, hpath, hplainPath, hhalf, hpassed⟩ :=
    path_passed holds hplain hws (hitems hparts)
  have hhalf' := two_mul_asnCount_le_wire true hne
  have hlen := length_items_le aspath hpath.nonempty
  have hrender := length_items_render false hplain
  rw [hpassed, List.length_append, List.length_map] at hlen
  obtain ⟨hadded, haddedItems, -⟩ := addSeqs_items hcanonical olds (by omega)
  unfold receivePath
  rw [hread, mungeAggregator_put]
  cases hhas : aspathHasAs4 path with
  | false =>
    rw [render_small hhas] at hpassed
    rw [hpath.eq_of_items hadded (hpassed.trans haddedItems.symm)]
    rfl
  | true =>
    have hread₄ := aspathParse_wireBytes sent₄ []
    have hcount₄ := two_mul_asnCount_le sent₄
    rw [hsent₄] at hcount₄
    have hsame : assegmentNormalise (sent₄.map WireSegment.seg) = path := by
      have hnormal := (@normalise_eq_iff (sent₄.map WireSegment.seg) path (by omega) (by omega)
        (nonempty_seg sent₄) hne).mpr (by rw [hitems₄ hparts, render_four])
      rw [hnormal, hcanonical.normalise_eq]
    rw [List.append_nil, hsame] at hread₄
    obtain ⟨r, hreconcile, hr, hrItems⟩ :=
      reconcileAs4_items hpath hcanonical hplainPath hplain (by omega)
    have htake : (items aspath).length - (items path).length = olds.length := by
      rw [hpassed, List.length_append, List.length_map, hrender, Nat.add_sub_cancel]
    have hle : (items path).length ≤ (items aspath).length := by
      rw [hpassed, List.length_append, hrender]
      exact Nat.le_add_left _ _
    rw [if_pos hle, htake, hpassed, List.take_left' (List.length_map _)] at hrItems
    show (aspathParse (wireBytes sent₄) (wireBytes sent₄).length true).bind _ = _
    rw [hread₄]
    show (aspathReconcileAs4 aspath path).map _ = _
    rw [hreconcile, hr.eq_of_items hadded (hrItems.trans haddedItems.symm)]
    rfl

/-- Two numbers of the path need four bytes. -/
def farPath : List AsSegment := [⟨AS_SEQUENCE, [70000, 80000], two_fits16⟩]

/-- So does that of the aggregator. -/
def farAggregator : Aggregator := ⟨80000, 0x0a000001⟩

theorem transition_keeps_farPath :
    ∃ (sent : List (WireSegment false)) (as4attr : Bytes),
      (∃ s, aspathPut (⟨[], Nat.zero_le 64⟩ : Stream 64) farPath false =
        some (s, (wireBytes sent).length) ∧ s.data = [] ++ wireBytes sent) ∧
      (∃ s, aspathPut (⟨[], Nat.zero_le 64⟩ : Stream 64) farPath true = some (s, as4attr.length) ∧
        s.data = [] ++ as4attr) ∧
      ∀ olds ws, OldSpeakers sent olds ws → (wireBytes ws).length < 2 ^ 16 →
        receivePath (wireBytes ws) (if aspathHasAs4 farPath then some as4attr else none)
            (putAggregator (some farAggregator)) =
          some (some (olds.foldr (fun own path => aspathAddSeq path own) farPath,
            some farAggregator)) :=
  transition_keeps ⟨[], Nat.zero_le 64⟩ ⟨[], Nat.zero_le 64⟩ farPath farAggregator (by decide)
    (List.forall_mem_singleton.mpr (.inl rfl)) (by decide) (by decide) (by decide) (by decide)

end SrxSuite.Quagga

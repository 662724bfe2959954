import SrxSuite.Server.SkiRefine

/-!
# Cleaning the SKI cache

`ski_clean` on the tree. Results: it is the cleaning of the lists (`lists_clean`), and what it
leaves: the data that are kept (`getData_clean`), and the algorithms and the nodes that lead to some
(`find_algos_clean`, `find_clean`).
-/

namespace SrxSuite.Server

open Bytes SortedWalk

/-- `___ski_clean_cData` without its result. -/
def SkiData.cleaned (type : SkiClean) (cData : SkiData) : SkiData :=
  match type with
  | .none => cData
  | .keys => { cData with counter := 0 }
  | .updates => { cData with cacheUID := SortedMap.empty }
  | .all => ⟨0, SortedMap.empty⟩

/-- The data are freed: without keys and updates, unless nothing is to be cleaned. -/
def SkiData.Freed (type : SkiClean) (cData : SkiData) : Prop :=
  type ≠ .none ∧ (cData.cleaned type).counter = 0 ∧ (cData.cleaned type).cacheUID.items = []

instance (type : SkiClean) (cData : SkiData) : Decidable (cData.Freed type) :=
  inferInstanceAs (Decidable (_ ∧ _ ∧ _))

/-- The data that are kept. -/
def SkiData.clean (type : SkiClean) (cData : SkiData) : Option SkiData :=
  if cData.Freed type then none else some (cData.cleaned type)

/-- `___ski_clean_cAlgoID` -/
def DataList.clean (type : SkiClean) (data : DataList) : DataList :=
  SortedMap.filterMap data fun _ => SkiData.clean type

/-- The data of an algorithm. It is freed when none are left. -/
def keptData (type : SkiClean) (data : DataList) : Option DataList :=
  if (DataList.clean type data).items = [] then none else some (DataList.clean type data)

def AlgoList.clean (type : SkiClean) (algos : AlgoList) : AlgoList :=
  SortedMap.filterMap algos fun _ => keptData type

/-- `___ski_clean_cNode` -/
def cleanNode (type : SkiClean) (node : UInt16 → AlgoList) : UInt16 → AlgoList :=
  fun as2 => AlgoList.clean type (node as2)

/-- No element of the array has an algorithm. -/
def nodeFreed (node : UInt16 → AlgoList) : Bool :=
  (List.range 65536).all fun as2 => (node (UInt16.ofNat as2)).items.isEmpty

def keptNode (type : SkiClean) (node : UInt16 → AlgoList) : Option (UInt16 → AlgoList) :=
  if nodeFreed (cleanNode type node) then none else some (cleanNode type node)

/-- `ski_clean` -/
def SkiTree.clean (cache : SkiTree) (type : SkiClean) : SkiTree :=
  if type = .all then SortedMap.empty else SortedMap.filterMap cache fun _ => keptNode type

namespace SkiCleaningLemmas

open SkiListsLemmas SkiCacheLemmas SkiRefineLemmas

variable {type : SkiClean}

/-! ## The lists -/

theorem dataElement_cleaned (asn : UInt32) (algoID : UInt8) (ski : Bytes) (cData : SkiData) :
    cleanCData type (dataElement asn algoID (ski, cData)) =
      dataElement asn algoID (ski, cData.cleaned type) := by
  cases type with
  | none => rfl
  | keys => rfl
  | updates => rfl
  | all => rfl

theorem canFree_element (asn : UInt32) (algoID : UInt8) (e : Bytes × SkiData) :
    (dataElement asn algoID e).canFree = true ↔ e.2.counter = 0 ∧ e.2.cacheUID.items = [] := by
  unfold CacheData.canFree
  rw [Bool.and_eq_true, decide_eq_true_iff, List.isEmpty_iff]
  exact and_congr_right fun _ => list_eq_nil

theorem clean_none (cData : SkiData) : cData.clean .none = some cData :=
  if_neg fun h => h.1 rfl

/-- Without a type of data to clean they stay as they are. -/
theorem dataClean_none (data : DataList) : DataList.clean .none data = data := by
  apply SortedMap.ext_items
  unfold DataList.clean SortedMap.filterMap
  dsimp only
  generalize data.items = items
  induction items with
  | nil => rfl
  | cons e rest ih => rw [SortedMap.filterItems_cons, clean_none, ih]

theorem list_dataClean (h : type ≠ .none) (asn : UInt32) (algoID : UInt8) (data : DataList) :
    (((DataList.list data asn algoID).map (cleanCData type)).filter fun cData => !cData.canFree) =
      DataList.list (DataList.clean type data) asn algoID := by
  show ((data.items.map (dataElement asn algoID)).map (cleanCData type)).filter _ =
    (SortedMap.filterItems (fun _ => SkiData.clean type) data.items).map (dataElement asn algoID)
  refine SortedMap.map_filterItems (fun ski cData cData' hclean => ?_) (fun ski cData hclean => ?_) _
  · unfold SkiData.clean at hclean
    split at hclean
    · cases hclean
    · next hkept =>
      obtain rfl := Option.some.inj hclean
      refine ⟨?_, dataElement_cleaned asn algoID ski cData⟩
      rw [dataElement_cleaned, Bool.not_eq_true', Bool.eq_false_iff]
      exact fun hfree => hkept ⟨h, (canFree_element asn algoID _).mp hfree⟩
  · unfold SkiData.clean at hclean
    split at hclean
    · next hfreed =>
      rw [dataElement_cleaned, Bool.not_eq_false']
      exact (canFree_element asn algoID _).mpr hfreed.2
    · cases hclean

theorem algoElement_clean (asn : UInt32) (algoID : UInt8) (data : DataList) :
    cleanCAlgoID type (algoElement asn (algoID, data)) =
      algoElement asn (algoID, DataList.clean type data) := by
  unfold cleanCAlgoID
  split
  · next hnone => rw [hnone, dataClean_none]
  · next hne => exact congrArg (CacheAlgoID.mk algoID) (list_dataClean hne asn algoID data)

theorem list_algoClean (asn : UInt32) (algos : AlgoList) :
    (((AlgoList.list algos asn).map (cleanCAlgoID type)).filter fun cAlgoID =>
        !cAlgoID.cacheData.isEmpty) = AlgoList.list (AlgoList.clean type algos) asn := by
  have hempty (algoID : UInt8) (data : DataList) :
      (algoElement asn (algoID, data)).cacheData.isEmpty = true ↔ data.items = [] := by
    rw [List.isEmpty_iff]
    exact List.map_eq_nil_iff
  show ((algos.items.map (algoElement asn)).map (cleanCAlgoID type)).filter _ =
    (SortedMap.filterItems (fun _ => keptData type) algos.items).map (algoElement asn)
  refine SortedMap.map_filterItems (fun algoID data data' hclean => ?_)
    (fun algoID data hclean => ?_) _
  · unfold keptData at hclean
    split at hclean
    · cases hclean
    · next hkept =>
      obtain rfl := Option.some.inj hclean
      refine ⟨?_, algoElement_clean asn algoID data⟩
      rw [algoElement_clean, Bool.not_eq_true', Bool.eq_false_iff]
      exact fun hnil => hkept ((hempty algoID _).mp hnil)
  · unfold keptData at hclean
    split at hclean
    · next hnil =>
      rw [algoElement_clean, Bool.not_eq_false']
      exact (hempty algoID _).mpr hnil
    · cases hclean

theorem nodeElement_clean (upper : UInt16) (node : UInt16 → AlgoList) :
    cleanCNode type (nodeElement (upper, node)) = nodeElement (upper, cleanNode type node) :=
  congrArg (CacheNode.mk upper) (funext fun as2 => list_algoClean (asnOf upper as2) (node as2))

theorem canFree_node (e : UInt16 × (UInt16 → AlgoList)) : (nodeElement e).canFree = nodeFreed e.2 := by
  have hempty (as2 : UInt16) :
      ((nodeElement e).as2 as2).isEmpty = (e.2 as2).items.isEmpty := List.isEmpty_map
  unfold CacheNode.canFree nodeFreed
  simp only [hempty]

/-- The cleaning of the tree is that of the lists. -/
theorem lists_clean (cache : SkiTree) (type : SkiClean) :
    (cache.clean type).lists = skiCleanLists cache.lists type := by
  unfold SkiTree.clean skiCleanLists
  split
  · rfl
  · show (SortedMap.filterItems (fun _ => keptNode type) cache.items).map nodeElement =
      ((cache.items.map nodeElement).map (cleanCNode type)).filter _
    refine (SortedMap.map_filterItems (fun upper node node' hclean => ?_)
      (fun upper node hclean => ?_) cache.items).symm
    · unfold keptNode at hclean
      split at hclean
      · cases hclean
      · next hkept =>
        obtain rfl := Option.some.inj hclean
        refine ⟨?_, nodeElement_clean upper node⟩
        rw [nodeElement_clean, canFree_node, Bool.not_eq_true', Bool.eq_false_iff]
        exact hkept
    · unfold keptNode at hclean
      split at hclean
      · next hfreed =>
        rw [nodeElement_clean, canFree_node, Bool.not_eq_false']
        exact hfreed
      · cases hclean

/-! ## What is left -/

theorem items_of_nodeFreed {node : UInt16 → AlgoList} (h : nodeFreed node = true) (as2 : UInt16) :
    (node as2).items = [] := by
  have hitems := List.all_eq_true.mp h as2.toNat (List.mem_range.mpr as2.toNat_lt)
  rw [UInt16.ofNat_toNat] at hitems
  exact List.isEmpty_iff.mp hitems

theorem algos_clean (h : type ≠ .all) (cache : SkiTree) (asn : UInt32) :
    (cache.clean type).algos asn = AlgoList.clean type (cache.algos asn) := by
  unfold SkiTree.clean SkiTree.algos
  rw [if_neg h, SortedMap.find_filterMap]
  cases cache.find (upperOf asn) with
  | none => rfl
  | some node =>
    rw [Option.bind_some]
    unfold keptNode
    by_cases hfreed : nodeFreed (cleanNode type node) = true
    · rw [if_pos hfreed]
      exact SortedMap.ext_items (items_of_nodeFreed hfreed (as2Of asn)).symm
    · rw [if_neg hfreed]
      rfl

/-- The data that a cleaning keeps. -/
theorem getData_clean (cache : SkiTree) (type : SkiClean) (key : SkiKey) :
    (cache.clean type).getData key = (cache.getData key).bind (SkiData.clean type) := by
  by_cases hall : type = .all
  · subst hall
    show none = _
    cases cache.getData key with
    | none => rfl
    | some cData => rfl
  · unfold SkiTree.getData
    rw [algos_clean hall, AlgoList.clean, SortedMap.find_filterMap]
    cases (cache.algos key.asn).find key.algoID with
    | none => rfl
    | some data =>
      rw [Option.bind_some, Option.bind_some]
      have hfind := SortedMap.find_filterMap data (fun _ => SkiData.clean type) key.ski
      rw [← hfind]
      unfold keptData
      by_cases hnil : (DataList.clean type data).items = []
      · rw [if_pos hnil]
        exact ((SortedMap.items_eq_nil _).mp hnil key.ski).symm
      · rw [if_neg hnil]
        rfl

theorem find_nil {K V : Type} [DecidableEq K] {rank : K → Nat} {m : SortedMap K V rank}
    (h : m.items ≠ []) : ∃ k, (m.find k).isSome := by
  by_contra hnone
  refine h ((SortedMap.items_eq_nil m).mpr fun k => ?_)
  exact Option.not_isSome_iff_eq_none.mp fun hsome => hnone ⟨k, hsome⟩

/-- The algorithms that a cleaning keeps lead to data. -/
theorem find_algos_clean (cache : SkiTree) (type : SkiClean) (asn : UInt32) (algoID : UInt8) :
    (((cache.clean type).algos asn).find algoID).isSome ↔
      ∃ ski, ((cache.clean type).getData ⟨asn, ski, algoID⟩).isSome := by
  constructor
  · intro h
    by_cases hall : type = .all
    · subst hall
      cases h
    · have halgo := algos_clean hall cache asn
      obtain ⟨data, hdata⟩ := Option.isSome_iff_exists.mp h
      have hkept := hdata
      rw [halgo, AlgoList.clean, SortedMap.find_filterMap] at hkept
      obtain ⟨before, -, hbefore⟩ := Option.bind_eq_some_iff.mp hkept
      unfold keptData at hbefore
      split at hbefore
      · cases hbefore
      · next hne =>
        obtain rfl := Option.some.inj hbefore
        obtain ⟨ski, hski⟩ := find_nil hne
        refine ⟨ski, ?_⟩
        unfold SkiTree.getData
        rw [hdata]
        exact hski
  · rintro ⟨ski, hski⟩
    obtain ⟨cData, hcData⟩ := Option.isSome_iff_exists.mp hski
    obtain ⟨data, hdata, -⟩ := Option.bind_eq_some_iff.mp hcData
    rw [hdata]
    rfl

theorem nodeFreed_of_items {node : UInt16 → AlgoList} (h : ∀ as2, (node as2).items = []) :
    nodeFreed node = true :=
  List.all_eq_true.mpr fun as2 _ => List.isEmpty_iff.mpr (h (UInt16.ofNat as2))

theorem upperOf_asnOf (upper as2 : UInt16) : upperOf (asnOf upper as2) = upper := by
  apply UInt16.toNat_inj.mp
  unfold upperOf asnOf
  have hu := upper.toNat_lt
  have ha := as2.toNat_lt
  rw [UInt32.toNat_toUInt16, UInt32.toNat_shiftRight, UInt32.toNat_ofNat']
  change ((upper.toNat * 65536 + as2.toNat) % 2 ^ 32) >>> 16 % 2 ^ 16 = _
  rw [Nat.shiftRight_eq_div_pow]
  omega

theorem as2Of_asnOf (upper as2 : UInt16) : as2Of (asnOf upper as2) = as2 := by
  apply UInt16.toNat_inj.mp
  unfold as2Of asnOf
  have hu := upper.toNat_lt
  have ha := as2.toNat_lt
  rw [UInt32.toNat_toUInt16, UInt32.toNat_and, UInt32.toNat_ofNat',
    show (0xFFFF : UInt32).toNat = 2 ^ 16 - 1 from rfl, Nat.and_two_pow_sub_one_eq_mod]
  omega

/-- The nodes that a cleaning keeps lead to algorithms. -/
theorem find_clean (cache : SkiTree) (type : SkiClean) (upper : UInt16) :
    ((cache.clean type).find upper).isSome ↔
      ∃ asn algoID, upperOf asn = upper ∧ (((cache.clean type).algos asn).find algoID).isSome := by
  constructor
  · intro h
    by_cases hall : type = .all
    · subst hall
      cases h
    · obtain ⟨node, hnode⟩ := Option.isSome_iff_exists.mp h
      have hkept := hnode
      unfold SkiTree.clean at hkept
      rw [if_neg hall, SortedMap.find_filterMap] at hkept
      obtain ⟨before, -, hbefore⟩ := Option.bind_eq_some_iff.mp hkept
      unfold keptNode at hbefore
      split at hbefore
      · cases hbefore
      · next hne =>
        have hcleaned := Option.some.inj hbefore
        rw [hcleaned] at hne
        obtain ⟨as2, has2⟩ : ∃ as2, (node as2).items ≠ [] := by
          by_contra hnone
          exact hne (nodeFreed_of_items fun as2 => by
            by_contra hitems
            exact hnone ⟨as2, hitems⟩)
        obtain ⟨algoID, halgo⟩ := find_nil has2
        refine ⟨asnOf upper as2, algoID, upperOf_asnOf upper as2, ?_⟩
        unfold SkiTree.algos
        rw [upperOf_asnOf, hnode, as2Of_asnOf]
        exact halgo
  · rintro ⟨asn, algoID, rfl, halgo⟩
    unfold SkiTree.algos at halgo
    cases hnode : (cache.clean type).find (upperOf asn) with
    | none =>
      rw [hnode] at halgo
      cases halgo
    | some node => rfl

end SkiCleaningLemmas

end SrxSuite.Server

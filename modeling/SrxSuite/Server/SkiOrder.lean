import Mathlib.Data.FinEnum
import SrxSuite.Lib.Runs
import SrxSuite.Server.SkiCleaning

/-!
# The order of the SKI cache

What was put into the cache and not taken out again is its content: sets and maps, without lists. A
run of changes is followed by the lists of the cache and by their content. `CacheRight` says that the
four lists are strictly sorted and that every search finds exactly the content, with its key.

Result: a run keeps `CacheRight` if and only if no update has the identifier zero and no algorithm goes
in front of all those of its AS (`cacheRight_iff`). For the first `___ski_createCacheUID` gives NULL,
for the second the variable `prev` of `__ski_getCacheAlgoID` has no value.
-/

namespace SrxSuite.Server

open Bytes

/-! ## The content -/

/-- A key with the 20 bytes of an SKI. -/
abbrev SizedKey := { key : SkiKey // key.ski.length = 20 }

/-- The number of keys, and of the registrations of each update. -/
@[ext]
structure KeyContent where
  counter : UInt8
  updates : UInt32 → Option UInt16

/-- What was put into the cache and not taken out again. -/
@[ext]
structure SkiContent where
  nodes : UInt16 → Bool
  algos : UInt32 → UInt8 → Bool
  data : SkiKey → Option KeyContent

namespace SkiContent

/-- Nothing was put in. -/
def empty : SkiContent := ⟨fun _ => false, fun _ _ => false, fun _ => none⟩

/-- Puts in the data of a key. -/
def put (content : SkiContent) (key : SkiKey) (data : KeyContent) : SkiContent where
  nodes upper := upper = upperOf key.asn || content.nodes upper
  algos asn algoID := (asn = key.asn && algoID = key.algoID) || content.algos asn algoID
  data := Function.update content.data key (some data)

/-- Changes or removes the data of a key. -/
def setData (content : SkiContent) (key : SkiKey) (data : Option KeyContent) : SkiContent :=
  { content with data := Function.update content.data key data }

/-- The data of a key, without keys and updates at first. -/
def dataOf (content : SkiContent) (key : SkiKey) : KeyContent :=
  (content.data key).getD ⟨0, fun _ => none⟩

def registerUpdate (content : SkiContent) (updateID : UInt32) (key : SkiKey) : SkiContent :=
  let data := content.dataOf key
  content.put key { data with
    updates := Function.update data.updates updateID
      (some (((data.updates updateID).getD 0) + 1)) }

/-- The updates without one registration. -/
def removeUpdate (updates : UInt32 → Option UInt16) (updateID : UInt32) : UInt32 → Option UInt16 :=
  Function.update updates updateID
    ((updates updateID).bind fun counter => if counter - 1 = 0 then none else some (counter - 1))

open Classical in
/-- Data without keys are removed with their last update. -/
noncomputable def unregisterUpdate (content : SkiContent) (updateID : UInt32) (key : SkiKey) : SkiContent :=
  match content.data key with
  | none => content
  | some data =>
    let updates := removeUpdate data.updates updateID
    content.setData key (if (∀ updateID, updates updateID = none) ∧ data.counter = 0 then none
      else some { data with updates := updates })

def registerKey (content : SkiContent) (key : SkiKey) : SkiContent :=
  let data := content.dataOf key
  content.put key { data with counter := data.counter + 1 }

open Classical in
/-- Data without updates are removed with a key. -/
noncomputable def unregisterKey (content : SkiContent) (key : SkiKey) : SkiContent :=
  match content.data key with
  | none => content
  | some data =>
    if 0 < data.counter then
      content.setData key (if ∀ updateID, data.updates updateID = none then none
        else some { data with counter := data.counter - 1 })
    else content

/-- The data without keys, updates or both. -/
def cleanedData (type : SkiClean) (data : KeyContent) : KeyContent :=
  match type with
  | .none => data
  | .keys => { data with counter := 0 }
  | .updates => { data with updates := fun _ => none }
  | .all => ⟨0, fun _ => none⟩

open Classical in
noncomputable def keptData (type : SkiClean) (data : KeyContent) : Option KeyContent :=
  if type ≠ .none ∧ (cleanedData type data).counter = 0 ∧
      ∀ updateID, (cleanedData type data).updates updateID = none then none
  else some (cleanedData type data)

open Classical in
/-- Algorithms and nodes are kept if they lead to data. -/
noncomputable def clean (content : SkiContent) (type : SkiClean) : SkiContent where
  nodes upper := decide (∃ key : SkiKey, upperOf key.asn = upper ∧
    ((content.data key).bind (keptData type)).isSome)
  algos asn algoID := decide (∃ ski, ((content.data ⟨asn, ski, algoID⟩).bind (keptData type)).isSome)
  data key := (content.data key).bind (keptData type)

/-- The AS has no algorithm yet, or one that does not come behind `algoID`. -/
def AlgoFits (content : SkiContent) (asn : UInt32) (algoID : UInt8) : Prop :=
  (∀ other, content.algos asn other = false) ∨ ∃ other ≤ algoID, content.algos asn other = true

end SkiContent

/-! ## Changes -/

/-- A change of the cache. An update is registered for each of its keys. -/
inductive SkiChange
  | registerUpdate (updateID : UInt32) (key : SizedKey)
  | unregisterUpdate (updateID : UInt32) (key : SizedKey)
  | registerKey (key : SizedKey)
  | unregisterKey (key : SizedKey)
  | clean (type : SkiClean)

/-- A change of the lists. -/
def changeLists (nodes : List CacheNode) : SkiChange → Option (List CacheNode)
  | .registerUpdate updateID key => registerTurnLists updateID nodes key.val
  | .unregisterUpdate updateID key => unregisterTurnLists updateID nodes key.val
  | .registerKey key => registerKeyLists nodes key.val
  | .unregisterKey key => unregisterKeyLists nodes key.val
  | .clean type => some (skiCleanLists nodes type)

/-- A change of the content. -/
noncomputable def SkiContent.change (content : SkiContent) : SkiChange → SkiContent
  | .registerUpdate updateID key => content.registerUpdate updateID key.val
  | .unregisterUpdate updateID key => content.unregisterUpdate updateID key.val
  | .registerKey key => content.registerKey key.val
  | .unregisterKey key => content.unregisterKey key.val
  | .clean type => content.clean type

/-- The lists, as long as they are defined, and the content. -/
structure SkiRecord where
  cache : Option (List CacheNode)
  content : SkiContent

namespace SkiRecord

/-- Before the first change. -/
def initial : SkiRecord := ⟨some [], SkiContent.empty⟩

noncomputable def step (s : SkiRecord) (op : SkiChange) : SkiRecord :=
  ⟨s.cache.bind fun nodes => changeLists nodes op, s.content.change op⟩

/-- No update with the identifier zero, no algorithm in front of those of its AS. -/
def InOrder (s : SkiRecord) : SkiChange → Prop
  | .registerUpdate updateID key => updateID ≠ 0 ∧ s.content.AlgoFits key.val.asn key.val.algoID
  | .registerKey key => s.content.AlgoFits key.val.asn key.val.algoID
  | _ => True

end SkiRecord

/-! ## Searches -/

/-- The node that `__ski_getCacheNode` gives. -/
def lookupNode (nodes : List CacheNode) (upper : UInt16) : Option CacheNode := do
  let cNode ← (getCacheNode nodes upper false).2
  nodes[cNode]?

/-- The algorithm that `__ski_getCacheAlgoID` gives. -/
def lookupAlgoID (nodes : List CacheNode) (asn : UInt32) (algoID : UInt8) : Option CacheAlgoID := do
  let node ← lookupNode nodes (upperOf asn)
  let (algos, cAlgoID) ← getCacheAlgoID (node.as2 (as2Of asn)) algoID false
  algos[← cAlgoID]?

/-- The data that `_ski_getCacheData` gives. -/
def lookupData (nodes : List CacheNode) (key : SkiKey) : Option CacheData := do
  let (nodes, tHlp) ← getCacheData nodes key false
  let tHlp ← tHlp
  let node ← nodes[tHlp.cNode]?
  let algo ← (node.as2 (as2Of key.asn))[tHlp.cAlgoID]?
  algo.cacheData[tHlp.cData]?

/-- The element that the search for an update finds in the data of a key. -/
def lookupUID (nodes : List CacheNode) (key : SkiKey) (updateID : UInt32) : Option CacheUpdateID := do
  let cData ← lookupData nodes key
  let idx ← findUIDLoop updateID 0 cData.cacheUID
  cData.cacheUID[idx]?

/-- The four lists are strictly sorted. -/
structure ListsSorted (cache : List CacheNode) : Prop where
  nodes : cache.Pairwise fun a b => a.upper < b.upper
  algos : ∀ node ∈ cache, ∀ as2, (node.as2 as2).Pairwise fun a b => a.algoID < b.algoID
  data : ∀ node ∈ cache, ∀ as2, ∀ algo ∈ node.as2 as2,
    algo.cacheData.Pairwise fun a b => memcmpOrder a.ski b.ski = .lt
  updates : ∀ node ∈ cache, ∀ as2, ∀ algo ∈ node.as2 as2, ∀ cData ∈ algo.cacheData,
    cData.cacheUID.Pairwise fun a b => memcmpOrder (le32 a.updateID) (le32 b.updateID) = .lt

/-- Every search finds the content, with its key, and nothing else. -/
structure CacheRight (nodes : List CacheNode) (content : SkiContent) : Prop where
  sorted : ListsSorted nodes
  node : ∀ upper, (lookupNode nodes upper).map (·.upper) =
    if content.nodes upper then some upper else none
  algo : ∀ asn algoID, (lookupAlgoID nodes asn algoID).map (·.algoID) =
    if content.algos asn algoID then some algoID else none
  data : ∀ key : SizedKey,
    (lookupData nodes key.val).map (fun cData =>
      ((⟨cData.asn, cData.ski, cData.algoID⟩ : SkiKey), cData.counter)) =
    (content.data key.val).map fun data => (key.val, data.counter)
  update : ∀ (key : SizedKey) updateID,
    (lookupUID nodes key.val updateID).map (fun cUID => (cUID.updateID, cUID.counter)) =
    ((content.data key.val).bind fun data => data.updates updateID).map fun counter =>
      (updateID, counter)

/-- The lists are defined and right. -/
def SkiRecord.Right (s : SkiRecord) : Prop := ∃ nodes, s.cache = some nodes ∧ CacheRight nodes s.content

namespace SkiOrderLemmas

open SortedWalk SkiListsLemmas SkiCacheLemmas SkiRefineLemmas SkiCleaningLemmas

variable {cache cache' : SkiTree} {key : SkiKey} {cData : SkiData} {updateID : UInt32}

/-! ## Searches in the lists of a tree -/

theorem lookupNode_list (cache : SkiTree) (upper : UInt16) :
    lookupNode cache.lists upper = (cache.find upper).map fun node => nodeElement (upper, node) := by
  unfold lookupNode
  rw [getCacheNode_list]
  cases hfind : cache.find upper with
  | none => rfl
  | some node => exact getElem?_items (g := nodeElement) toNat16_injective hfind

theorem lookupAlgoID_list (cache : SkiTree) (asn : UInt32) (algoID : UInt8) :
    lookupAlgoID cache.lists asn algoID =
      ((cache.algos asn).find algoID).map fun data => algoElement asn (algoID, data) := by
  unfold lookupAlgoID
  rw [lookupNode_list]
  cases hnode : cache.find (upperOf asn) with
  | none =>
    unfold SkiTree.algos
    rw [hnode]
    rfl
  | some node =>
    have hnodeOf : nodeOf cache asn = node := by
      unfold nodeOf
      rw [hnode, Option.getD_some]
    simp only [Option.map_some, Option.bind_eq_bind, Option.bind_some]
    rw [nodeElement_as2, ← hnodeOf, ← algos_eq, getCacheAlgoID_list]
    cases hfind : (cache.algos asn).find algoID with
    | none => rfl
    | some data => exact getElem?_items (g := algoElement asn) toNat8_injective hfind

theorem lookupData_list (h : Sized cache) (hkey : key.ski.length = 20) :
    lookupData cache.lists key =
      (cache.getData key).map fun cData => dataElement key.asn key.algoID (key.ski, cData) := by
  unfold lookupData
  rw [getCacheData_find h hkey]
  cases hdata : cache.getData key with
  | none => rfl
  | some cData =>
    obtain ⟨data, halgo, -⟩ := Option.bind_eq_some_iff.mp hdata
    have hnodeGet := get_withNode cache key.asn
    have halgoGet := get_withAlgo cache key
    rw [withNode_of_algo halgo] at hnodeGet
    rw [withAlgo_of_find halgo] at halgoGet
    simp only [Option.map_some, Option.bind_eq_bind, Option.bind_some]
    unfold helperOf
    rw [hnodeGet, Option.bind_some, nodeElement_as2, ← algos_eq, halgoGet, Option.bind_some]
    exact get_data hdata

theorem lookupUID_list (h : Sized cache) (hkey : key.ski.length = 20) (updateID : UInt32) :
    lookupUID cache.lists key updateID =
      ((cache.getData key).bind fun cData => cData.cacheUID.find updateID).map fun counter =>
        uidElement (updateID, counter) := by
  unfold lookupUID
  rw [lookupData_list h hkey]
  cases hdata : cache.getData key with
  | none => rfl
  | some cData =>
    simp only [Option.map_some, Option.bind_eq_bind, Option.bind_some]
    show (findUIDLoop updateID 0 (UidList.list cData.cacheUID)).bind _ = _
    rw [findUIDLoop_eq, placeOf_uids, found_uids]
    cases hfind : cData.cacheUID.find updateID with
    | none => rfl
    | some counter =>
      rw [if_pos (show (some counter).isSome = true from rfl)]
      exact getElem?_items (g := uidElement) uidRank_injective hfind

/-! ## The lists of a tree are sorted -/

/-- The data that stand in the lists are found. -/
theorem getData_of_mem {eNode : UInt16 × (UInt16 → AlgoList)} {as2 : UInt16}
    {eAlgo : UInt8 × DataList} {eData : Bytes × SkiData} (hnode : eNode ∈ cache.items)
    (halgo : eAlgo ∈ (eNode.2 as2).items) (hdata : eData ∈ eAlgo.2.items) :
    cache.getData ⟨asnOf eNode.1 as2, eData.1, eAlgo.1⟩ = some eData.2 := by
  unfold SkiTree.getData SkiTree.algos
  dsimp only
  rw [upperOf_asnOf, as2Of_asnOf, SortedMap.find_of_mem (m := cache) hnode]
  dsimp only
  rw [SortedMap.find_of_mem halgo, Option.bind_some]
  exact SortedMap.find_of_mem hdata

theorem lists_sorted (h : Sized cache) : ListsSorted cache.lists where
  nodes := List.pairwise_map.mpr (cache.sorted.imp fun hlt => UInt16.lt_iff_toNat_lt.mpr hlt)
  algos := by
    intro node hnode as2
    obtain ⟨eNode, -, rfl⟩ := List.mem_map.mp hnode
    exact List.pairwise_map.mpr
      ((eNode.2 as2).sorted.imp fun hlt => UInt8.lt_iff_toNat_lt.mpr hlt)
  data := by
    intro node hnode as2 algo halgo
    obtain ⟨eNode, heNode, rfl⟩ := List.mem_map.mp hnode
    obtain ⟨eAlgo, heAlgo, rfl⟩ := List.mem_map.mp halgo
    have hsize (eData : Bytes × SkiData) (hdata : eData ∈ eAlgo.2.items) : eData.1.length = 20 := by
      have hfound := getData_of_mem heNode heAlgo hdata
      exact h ⟨asnOf eNode.1 as2, eData.1, eAlgo.1⟩ (Option.isSome_iff_exists.mpr ⟨_, hfound⟩)
    refine List.pairwise_map.mpr (eAlgo.2.sorted.imp_of_mem fun {a b} ha hb hlt => ?_)
    exact memcmpOrder_lt ((hsize a ha).trans (hsize b hb).symm) hlt
  updates := by
    intro node hnode as2 algo halgo cData hcData
    obtain ⟨eNode, -, rfl⟩ := List.mem_map.mp hnode
    obtain ⟨eAlgo, -, rfl⟩ := List.mem_map.mp halgo
    obtain ⟨eData, -, rfl⟩ := List.mem_map.mp hcData
    exact List.pairwise_map.mpr (eData.2.cacheUID.sorted.imp fun hlt => uidOrder_lt hlt)

/-! ## The content of a tree -/

def keyContent (cData : SkiData) : KeyContent := ⟨cData.counter, cData.cacheUID.find⟩

/-- What is found in a tree. -/
def contentOf (cache : SkiTree) : SkiContent where
  nodes upper := (cache.find upper).isSome
  algos asn algoID := ((cache.algos asn).find algoID).isSome
  data key := (cache.getData key).map keyContent

theorem map_const {α β : Type} (o : Option α) (b : β) :
    (o.map fun _ => b) = if o.isSome then some b else none := by
  cases o with
  | none => rfl
  | some a => rfl

/-- The lists of a tree are right for what is found in it. -/
theorem cacheRight_lists (h : Sized cache) : CacheRight cache.lists (contentOf cache) where
  sorted := lists_sorted h
  node upper := by
    rw [lookupNode_list, Option.map_map]
    exact map_const _ _
  algo asn algoID := by
    rw [lookupAlgoID_list, Option.map_map]
    exact map_const _ _
  data key := by
    rw [lookupData_list h key.property, Option.map_map]
    unfold contentOf
    rw [Option.map_map]
    rfl
  update key updateID := by
    rw [lookupUID_list h key.property, Option.map_map]
    unfold contentOf
    rw [Option.bind_map]
    rfl

/-! ## Changes of the content -/

theorem nodes_setAlgos (cache : SkiTree) (asn : UInt32) (algos : AlgoList) (upper : UInt16) :
    ((cache.setAlgos asn algos).find upper).isSome =
      (upper = upperOf asn || (cache.find upper).isSome) := by
  unfold SkiTree.setAlgos
  dsimp only
  rw [SortedMap.find_insert]
  split
  · next heq => rw [decide_eq_true heq, Bool.true_or, Option.isSome_some]
  · next hne => rw [decide_eq_false hne, Bool.false_or]

theorem algos_insert (cache : SkiTree) (key : SkiKey) (data : DataList) (asn : UInt32) (algoID : UInt8) :
    (((cache.setAlgos key.asn ((cache.algos key.asn).insert toNat8_injective key.algoID data)).algos
        asn).find algoID).isSome =
      ((asn = key.asn && algoID = key.algoID) || ((cache.algos asn).find algoID).isSome) := by
  rw [algos_setAlgos]
  split
  · next hasn =>
    subst hasn
    rw [decide_eq_true rfl, Bool.true_and, SortedMap.find_insert]
    split
    · next heq => rw [decide_eq_true heq, Bool.true_or, Option.isSome_some]
    · next hne => rw [decide_eq_false hne, Bool.false_or]
  · next hne => rw [decide_eq_false hne, Bool.false_and, Bool.false_or]

/-- Writing data puts them in. -/
theorem contentOf_setData (h : cache.setData key cData = some cache') :
    contentOf cache' = (contentOf cache).put key (keyContent cData) := by
  have hdata := getData_setData h
  unfold SkiTree.setData at h
  split at h
  · cases h
  · obtain rfl := Option.some.inj h
    refine SkiContent.ext (funext fun upper => ?_) (funext fun asn => funext fun algoID => ?_)
      (funext fun key' => ?_)
    · exact nodes_setAlgos cache key.asn _ upper
    · exact algos_insert cache key _ asn algoID
    · show (SkiTree.getData _ key').map keyContent =
        Function.update (contentOf cache).data key (some (keyContent cData)) key'
      rw [hdata, Function.update_apply]
      split
      · rfl
      · rfl

/-- The node and the algorithm of data that are found are there. -/
theorem put_of_getData (h : cache.getData key = some cData) (data : KeyContent) :
    (contentOf cache).put key data = (contentOf cache).setData key (some data) := by
  obtain ⟨list, halgo, -⟩ := Option.bind_eq_some_iff.mp h
  have hnode : (cache.find (upperOf key.asn)).isSome := by
    rw [← withNode_of_algo halgo, find_withNode]
    rfl
  refine SkiContent.ext (funext fun upper => ?_) (funext fun asn => funext fun algoID => ?_) rfl
  · show (upper = upperOf key.asn || (cache.find upper).isSome) = (cache.find upper).isSome
    by_cases heq : upper = upperOf key.asn
    · rw [heq, hnode, Bool.or_true]
    · rw [decide_eq_false heq, Bool.false_or]
  · show ((asn = key.asn && algoID = key.algoID) || ((cache.algos asn).find algoID).isSome) =
      ((cache.algos asn).find algoID).isSome
    by_cases hasn : asn = key.asn
    · by_cases heq : algoID = key.algoID
      · rw [hasn, heq, halgo, Option.isSome_some, Bool.or_true]
      · rw [decide_eq_false heq, Bool.and_false, Bool.false_or]
    · rw [decide_eq_false hasn, Bool.false_and, Bool.false_or]

theorem contentOf_removeData (h : cache.getData key = some cData) :
    contentOf (cache.removeData key) = (contentOf cache).setData key none := by
  have hput := put_of_getData h ⟨0, fun _ => none⟩
  refine SkiContent.ext (funext fun upper => ?_) (funext fun asn => funext fun algoID => ?_)
    (funext fun key' => ?_)
  · have hnodes := congrFun (congrArg SkiContent.nodes hput) upper
    exact (nodes_setAlgos cache key.asn _ upper).trans hnodes
  · have halgos := congrFun (congrFun (congrArg SkiContent.algos hput) asn) algoID
    exact (algos_insert cache key _ asn algoID).trans halgos
  · show (SkiTree.getData _ key').map keyContent = Function.update (contentOf cache).data key none key'
    rw [getData_removeData, Function.update_apply]
    split
    · rfl
    · rfl

theorem dataOf_contentOf (cache : SkiTree) (key : SkiKey) :
    (contentOf cache).dataOf key = keyContent ((cache.getData key).getD newSkiData) := by
  unfold SkiContent.dataOf contentOf
  dsimp only
  cases cache.getData key with
  | none => rfl
  | some cData => rfl

/-- One registration more. -/
theorem keyContent_add {cData' : SkiData} (hid : updateID ≠ 0)
    (h : addUpdateCacheUID cData updateID = some cData') :
    keyContent cData' = { keyContent cData with
      updates := Function.update (keyContent cData).updates updateID
        (some (((keyContent cData).updates updateID).getD 0 + 1)) } := by
  unfold addUpdateCacheUID at h
  rw [if_neg hid] at h
  obtain rfl := Option.some.inj h
  refine KeyContent.ext rfl (funext fun id => ?_)
  show SortedMap.find (SortedMap.insert uidRank_injective cData.cacheUID updateID _) id =
    Function.update cData.cacheUID.find updateID
      (some ((cData.cacheUID.find updateID).getD 0 + 1)) id
  rw [SortedMap.find_insert, Function.update_apply]
  cases cData.cacheUID.find updateID with
  | none => rfl
  | some counter => rfl

theorem updates_removeUID (cacheUID : UidList) (updateID : UInt32) :
    SortedMap.find (removeUID cacheUID updateID) = SkiContent.removeUpdate cacheUID.find updateID := by
  funext id
  unfold removeUID SkiContent.removeUpdate
  rw [Function.update_apply]
  cases hfind : cacheUID.find updateID with
  | none =>
    show cacheUID.find id = if id = updateID then none else cacheUID.find id
    split
    · next heq => rw [heq, hfind]
    · rfl
  | some counter =>
    rw [Option.bind_some]
    dsimp only
    split
    · rw [SortedMap.find_erase]
    · rw [SortedMap.find_insert]

theorem keyContent_clean (type : SkiClean) (cData : SkiData) :
    (cData.clean type).map keyContent = SkiContent.keptData type (keyContent cData) := by
  have hcleaned : keyContent (cData.cleaned type) = SkiContent.cleanedData type (keyContent cData) := by
    cases type with
    | none => rfl
    | keys => rfl
    | updates => rfl
    | all => rfl
  have hfreed : cData.Freed type ↔ type ≠ .none ∧
      (SkiContent.cleanedData type (keyContent cData)).counter = 0 ∧
        ∀ updateID, (SkiContent.cleanedData type (keyContent cData)).updates updateID = none := by
    rw [← hcleaned]
    exact and_congr_right fun _ => and_congr_right fun _ => SortedMap.items_eq_nil _
  unfold SkiData.clean SkiContent.keptData
  by_cases h : cData.Freed type
  · rw [if_pos h, if_pos (hfreed.mp h)]
    rfl
  · rw [if_neg h, if_neg fun hf => h (hfreed.mpr hf), ← hcleaned]
    rfl

/-- What a cleaning leaves. -/
theorem contentOf_clean (cache : SkiTree) (type : SkiClean) :
    contentOf (cache.clean type) = (contentOf cache).clean type := by
  have hdata (key : SkiKey) : ((cache.clean type).getData key).map keyContent =
      ((contentOf cache).data key).bind (SkiContent.keptData type) := by
    rw [getData_clean]
    show _ = ((cache.getData key).map keyContent).bind _
    cases cache.getData key with
    | none => rfl
    | some cData => exact keyContent_clean type cData
  have hsome (key : SkiKey) : ((cache.clean type).getData key).isSome ↔
      (((contentOf cache).data key).bind (SkiContent.keptData type)).isSome := by
    rw [← hdata, Option.isSome_map]
  refine SkiContent.ext (funext fun upper => ?_) (funext fun asn => funext fun algoID => ?_)
    (funext hdata)
  · rw [Bool.eq_iff_iff]
    refine (find_clean cache type upper).trans (Iff.trans ?_
      (@decide_eq_true_iff _ (Classical.propDecidable _)).symm)
    constructor
    · rintro ⟨asn, algoID, hupper, halgo⟩
      obtain ⟨ski, hski⟩ := (find_algos_clean cache type asn algoID).mp halgo
      exact ⟨⟨asn, ski, algoID⟩, hupper, (hsome _).mp hski⟩
    · rintro ⟨key, hupper, hkey⟩
      exact ⟨key.asn, key.algoID, hupper,
        (find_algos_clean cache type key.asn key.algoID).mpr ⟨key.ski, (hsome key).mpr hkey⟩⟩
  · rw [Bool.eq_iff_iff]
    refine (find_algos_clean cache type asn algoID).trans (Iff.trans ?_
      (@decide_eq_true_iff _ (Classical.propDecidable _)).symm)
    exact exists_congr fun ski => hsome ⟨asn, ski, algoID⟩

/-! ## Changes of the tree -/

/-- A change of the tree. -/
def changeTree (cache : SkiTree) : SkiChange → Option SkiTree
  | .registerUpdate updateID key => registerTurn updateID cache key.val
  | .unregisterUpdate updateID key => unregisterTurn updateID cache key.val
  | .registerKey key => (registerKeyTree cache key.val).map Prod.fst
  | .unregisterKey key => (unregisterKeyTree cache key.val).map Prod.fst
  | .clean type => some (cache.clean type)

theorem changeLists_eq (h : Sized cache) (hzero : NoZero cache) (op : SkiChange) :
    changeLists cache.lists op = (changeTree cache op).map SkiTree.lists := by
  cases op with
  | registerUpdate updateID key => exact registerTurnLists_eq h hzero key.property updateID
  | unregisterUpdate updateID key => exact unregisterTurnLists_eq h key.property updateID
  | registerKey key =>
    unfold changeTree
    rw [Option.map_map]
    exact registerKeyLists_eq h key.property
  | unregisterKey key =>
    unfold changeTree
    rw [Option.map_map]
    exact unregisterKeyLists_eq h key.property
  | clean type => exact congrArg some (lists_clean cache type).symm

/-- An algorithm is a new first one if it goes in front of all of the content. -/
theorem beforeFirst_iff_content (cache : SkiTree) (asn : UInt32) (algoID : UInt8) :
    ¬ cache.BeforeFirst asn algoID ↔ (contentOf cache).AlgoFits asn algoID := by
  constructor
  · intro h
    by_cases hnone : ∃ other, ((cache.algos asn).find other).isSome
    · obtain ⟨other, hother⟩ := hnone
      cases hfirst : (cache.algos asn).first with
      | none =>
        have hmem := (SortedMap.mem_keys _ _).mpr hother
        unfold SortedMap.first at hfirst
        rw [Option.map_eq_none_iff, List.head?_eq_none_iff] at hfirst
        unfold SortedMap.keys at hmem
        rw [hfirst] at hmem
        cases hmem
      | some first =>
        obtain ⟨data, hdata⟩ := SortedMap.find_first hfirst
        refine .inr ⟨first, UInt8.not_lt.mp fun hlt => h ⟨first, hfirst, hlt⟩, ?_⟩
        show ((cache.algos asn).find first).isSome = true
        rw [hdata]
        rfl
    · exact .inl fun other => Bool.eq_false_iff.mpr fun hother => hnone ⟨other, hother⟩
  · rintro (hnone | ⟨other, hle, hother⟩) ⟨first, hfirst, hlt⟩
    · obtain ⟨data, hdata⟩ := SortedMap.find_first hfirst
      have := hnone first
      rw [show (contentOf cache).algos asn first = ((cache.algos asn).find first).isSome from rfl,
        hdata] at this
      cases this
    · obtain ⟨data, hdata⟩ := Option.isSome_iff_exists.mp hother
      have hfirstLe := SortedMap.first_le_of_find hdata hfirst
      have hle := UInt8.le_iff_toNat_le.mp hle
      exact absurd (UInt8.lt_iff_toNat_lt.mp hlt) (Nat.not_lt.mpr (Nat.le_trans hfirstLe hle))

/-- An update is registered in order. -/
theorem registerTurn_content (hid : updateID ≠ 0)
    (hfits : (contentOf cache).AlgoFits key.asn key.algoID) :
    ∃ cache', registerTurn updateID cache key = some cache' ∧
      contentOf cache' = (contentOf cache).registerUpdate updateID key := by
  obtain ⟨cData, hadd⟩ : ∃ cData,
      addUpdateCacheUID ((cache.getData key).getD newSkiData) updateID = some cData := by
    unfold addUpdateCacheUID
    rw [if_neg hid]
    exact ⟨_, rfl⟩
  obtain ⟨cache', hset⟩ := setData_isSome ((beforeFirst_iff_content cache _ _).mpr hfits) cData
  refine ⟨cache', ?_, ?_⟩
  · unfold registerTurn
    rw [hadd]
    exact hset
  · rw [contentOf_setData hset, keyContent_add hid hadd, ← dataOf_contentOf]
    rfl

/-- A key is registered in order. -/
theorem registerKeyTree_content (hfits : (contentOf cache).AlgoFits key.asn key.algoID) :
    ∃ cache', (registerKeyTree cache key).map Prod.fst = some cache' ∧
      contentOf cache' = (contentOf cache).registerKey key := by
  obtain ⟨cache', hset, hregister⟩ :=
    registerKeyTree_spec ((beforeFirst_iff_content cache _ _).mpr hfits)
  refine ⟨cache', ?_, ?_⟩
  · rw [hregister]
    rfl
  · rw [contentOf_setData hset]
    unfold SkiContent.registerKey
    rw [dataOf_contentOf]
    rfl

/-- An update is unregistered: the data goes with the last update if no key is registered. -/
theorem unregisterTurn_content (cache : SkiTree) (updateID : UInt32) (key : SkiKey) :
    ∃ cache', unregisterTurn updateID cache key = some cache' ∧
      contentOf cache' = (contentOf cache).unregisterUpdate updateID key := by
  unfold SkiContent.unregisterUpdate
  rw [show (contentOf cache).data key = (cache.getData key).map keyContent from rfl]
  obtain ⟨hnone, heq⟩ | ⟨cData, hdata, hcase⟩ := unregisterTurn_cases updateID cache key
  · rw [hnone]
    exact ⟨cache, heq, rfl⟩
  have hlast : (removeUID cData.cacheUID updateID).items = [] ↔
      ∀ id, SkiContent.removeUpdate (keyContent cData).updates updateID id = none := by
    rw [SortedMap.items_eq_nil]
    show (∀ id, SortedMap.find (removeUID cData.cacheUID updateID) id = none) ↔ _
    rw [updates_removeUID]
    rfl
  rw [hdata, Option.map_some]
  dsimp only
  rw [show (keyContent cData).counter = cData.counter from rfl]
  obtain ⟨hempty, hzero, heq⟩ | ⟨hneeded, cache', hset, heq⟩ := hcase
  · rw [if_pos ⟨hlast.mp hempty, hzero⟩]
    exact ⟨_, heq, contentOf_removeData hdata⟩
  · rw [if_neg fun hf => hneeded ⟨hlast.mpr hf.1, hf.2⟩]
    refine ⟨cache', heq, ?_⟩
    rw [contentOf_setData hset, put_of_getData hdata]
    refine congrArg (fun data => (contentOf cache).setData key (some data)) ?_
    exact KeyContent.ext rfl (updates_removeUID cData.cacheUID updateID)

/-- A key is unregistered: the data goes if it has no update. -/
theorem unregisterKeyTree_content (cache : SkiTree) (key : SkiKey) :
    ∃ cache', (unregisterKeyTree cache key).map Prod.fst = some cache' ∧
      contentOf cache' = (contentOf cache).unregisterKey key := by
  unfold SkiContent.unregisterKey
  rw [show (contentOf cache).data key = (cache.getData key).map keyContent from rfl]
  obtain ⟨hnone, heq⟩ | ⟨cData, hdata, hcase⟩ := unregisterKeyTree_cases cache key
  · rw [heq, hnone]
    exact ⟨cache, rfl, rfl⟩
  have hlast : cData.cacheUID.items = [] ↔ ∀ id, (keyContent cData).updates id = none :=
    SortedMap.items_eq_nil _
  rw [hdata, Option.map_some]
  dsimp only
  rw [show (keyContent cData).counter = cData.counter from rfl]
  obtain ⟨hzero, heq⟩ | ⟨hpos, hempty, hremoved⟩ | ⟨hpos, hne, cache', hset, heq⟩ := hcase
  · rw [heq, hzero]
    exact ⟨cache, rfl, (if_neg (by decide)).symm⟩
  · rw [hremoved, if_pos hpos, if_pos (hlast.mp hempty)]
    exact ⟨_, rfl, contentOf_removeData hdata⟩
  · rw [heq, if_pos hpos, if_neg fun hnone => hne (hlast.mpr hnone)]
    refine ⟨cache', rfl, ?_⟩
    rw [contentOf_setData hset, put_of_getData hdata]
    rfl

/-- A change in order is the change of the content. -/
theorem changeTree_inOrder {op : SkiChange} (lists : Option (List CacheNode))
    (h : SkiRecord.InOrder ⟨lists, contentOf cache⟩ op) :
    ∃ cache', changeTree cache op = some cache' ∧ contentOf cache' = (contentOf cache).change op := by
  cases op with
  | registerUpdate updateID key => exact registerTurn_content h.1 h.2
  | registerKey key => exact registerKeyTree_content h
  | unregisterUpdate updateID key => exact unregisterTurn_content cache updateID key.val
  | unregisterKey key => exact unregisterKeyTree_content cache key.val
  | clean type => exact ⟨cache.clean type, rfl, contentOf_clean cache type⟩

/-! ## Runs -/

/-- The content has keys of the right size and updates that are not zero. -/
def Proper (content : SkiContent) : Prop :=
  ∀ key data, content.data key = some data → key.ski.length = 20 ∧ data.updates 0 = none

theorem sized_of_proper (h : Proper (contentOf cache)) : Sized cache := by
  intro key hkey
  obtain ⟨cData, hdata⟩ := Option.isSome_iff_exists.mp hkey
  refine (h key (keyContent cData) ?_).1
  show (cache.getData key).map keyContent = _
  rw [hdata]
  rfl

theorem noZero_of_proper (h : Proper (contentOf cache)) : NoZero cache := by
  intro key cData hdata
  refine (h key (keyContent cData) ?_).2
  show (cache.getData key).map keyContent = _
  rw [hdata]
  rfl

variable {content : SkiContent}

theorem proper_update (h : Proper content) {key : SizedKey} {data : Option KeyContent}
    (hdata : ∀ d, data = some d → d.updates 0 = none) :
    Proper { content with data := Function.update content.data key.val data } := by
  intro key' d hd
  dsimp only at hd
  rw [Function.update_apply] at hd
  split at hd
  · next heq =>
    rw [heq]
    exact ⟨key.property, hdata d hd⟩
  · exact h key' d hd

theorem proper_put (h : Proper content) {key : SizedKey} {data : KeyContent}
    (hdata : data.updates 0 = none) : Proper (content.put key.val data) :=
  proper_update h fun _ hd => Option.some.inj hd ▸ hdata

theorem proper_dataOf (h : Proper content) (key : SkiKey) : (content.dataOf key).updates 0 = none := by
  unfold SkiContent.dataOf
  cases hdata : content.data key with
  | none => rfl
  | some data => exact (h key data hdata).2

theorem removeUpdate_zero {updates : UInt32 → Option UInt16} (h : updates 0 = none) (updateID : UInt32) :
    SkiContent.removeUpdate updates updateID 0 = none := by
  unfold SkiContent.removeUpdate
  rw [Function.update_apply]
  split
  · next heq => rw [← heq, h, Option.bind_none]
  · exact h

theorem keptData_zero {type : SkiClean} {data data' : KeyContent} (hdata : data.updates 0 = none)
    (h : SkiContent.keptData type data = some data') : data'.updates 0 = none := by
  unfold SkiContent.keptData at h
  split at h
  · cases h
  · obtain rfl := Option.some.inj h
    cases type with
    | none => exact hdata
    | keys => exact hdata
    | updates => rfl
    | all => rfl

/-- A change in order leaves the content proper. -/
theorem proper_change (h : Proper content) {op : SkiChange} (lists : Option (List CacheNode))
    (hop : SkiRecord.InOrder ⟨lists, content⟩ op) : Proper (content.change op) := by
  cases op with
  | registerUpdate updateID key =>
    refine proper_put h ?_
    dsimp only
    rw [Function.update_of_ne hop.1.symm]
    exact proper_dataOf h key.val
  | registerKey key => exact proper_put h (proper_dataOf h key.val)
  | unregisterUpdate updateID key =>
    show Proper (content.unregisterUpdate updateID key.val)
    unfold SkiContent.unregisterUpdate
    cases hdata : content.data key.val with
    | none => exact h
    | some data =>
      refine proper_update h fun d hd => ?_
      split at hd
      · cases hd
      · obtain rfl := Option.some.inj hd
        exact removeUpdate_zero (h _ data hdata).2 updateID
  | unregisterKey key =>
    show Proper (content.unregisterKey key.val)
    unfold SkiContent.unregisterKey
    cases hdata : content.data key.val with
    | none => exact h
    | some data =>
      dsimp only
      split
      · refine proper_update h fun d hd => ?_
        split at hd
        · cases hd
        · obtain rfl := Option.some.inj hd
          exact (h _ data hdata).2
      · exact h
  | clean type =>
    intro key data hdata
    obtain ⟨before, hbefore, hkept⟩ := Option.bind_eq_some_iff.mp hdata
    obtain ⟨hsize, hzero⟩ := h key before hbefore
    exact ⟨hsize, keptData_zero hzero hkept⟩

/-- The lists are those of a tree with the content. -/
def Carried (s : SkiRecord) : Prop :=
  ∃ cache : SkiTree, s.cache = some cache.lists ∧ s.content = contentOf cache ∧ Proper s.content

theorem carried_initial : Carried SkiRecord.initial :=
  ⟨SortedMap.empty, rfl, rfl, fun _ _ h => nomatch h⟩

theorem carried_step (s : SkiRecord) (op : SkiChange) (h : Carried s) (hop : s.InOrder op) :
    Carried (s.step op) := by
  obtain ⟨cache, hcache, hcontent, hproper⟩ := h
  obtain ⟨lists, content⟩ := s
  obtain rfl : content = contentOf cache := hcontent
  obtain rfl : lists = some cache.lists := hcache
  obtain ⟨cache', hchange, hcontent'⟩ := changeTree_inOrder _ hop
  refine ⟨cache', ?_, hcontent'.symm, proper_change hproper _ hop⟩
  show changeLists cache.lists op = some cache'.lists
  rw [changeLists_eq (sized_of_proper hproper) (noZero_of_proper hproper), hchange]
  rfl

theorem right_of_carried (s : SkiRecord) (h : Carried s) : s.Right := by
  obtain ⟨cache, hcache, hcontent, hproper⟩ := h
  refine ⟨cache.lists, hcache, ?_⟩
  rw [hcontent] at hproper ⊢
  exact cacheRight_lists (sized_of_proper hproper)

/-- No data are made in front of the first algorithm. -/
theorem registerTurn_beforeFirst (h : cache.BeforeFirst key.asn key.algoID) (updateID : UInt32) :
    registerTurn updateID cache key = none := by
  unfold registerTurn
  cases addUpdateCacheUID ((cache.getData key).getD newSkiData) updateID with
  | none => rfl
  | some cData => exact if_pos h

/-- Only data without updates can be given the identifier zero, and they stay without. -/
theorem find_addUpdateCacheUID_zero {cData' : SkiData} (h : addUpdateCacheUID cData 0 = some cData') :
    cData'.cacheUID.find 0 = none := by
  unfold addUpdateCacheUID at h
  rw [if_pos rfl] at h
  split at h
  · next hnil =>
    obtain rfl := Option.some.inj h
    exact (SortedMap.items_eq_nil _).mp hnil 0
  · cases h

/-- The identifier zero is not found after its registration. -/
theorem registerTurn_zero (h : Proper (contentOf cache)) (hkey : key.ski.length = 20)
    (hturn : registerTurn 0 cache key = some cache') : lookupUID cache'.lists key 0 = none := by
  unfold registerTurn at hturn
  obtain ⟨cData, hadd, hset⟩ := Option.bind_eq_some_iff.mp hturn
  have hfound := getData_setData hset
  have hsized : Sized cache' := by
    intro key' hkey'
    rw [hfound] at hkey'
    split at hkey'
    · next heq => rw [heq, hkey]
    · exact sized_of_proper h key' hkey'
  have hnone : cData.cacheUID.find 0 = none := find_addUpdateCacheUID_zero hadd
  rw [lookupUID_list hsized hkey, hfound, if_pos rfl, Option.bind_some, hnone]
  rfl

/-- A registration puts the update in. -/
theorem exists_registered (content : SkiContent) (updateID : UInt32) (key : SkiKey) :
    ∃ counter, ((content.registerUpdate updateID key).data key).bind (fun data =>
      data.updates updateID) = some counter := by
  refine ⟨((content.dataOf key).updates updateID).getD 0 + 1, ?_⟩
  unfold SkiContent.registerUpdate SkiContent.put
  dsimp only
  rw [Function.update_self, Option.bind_some]
  exact Function.update_self ..

/-- A change out of order leaves lists that are not right. -/
theorem not_right_step (s : SkiRecord) (op : SkiChange) (h : Carried s) (hop : ¬ s.InOrder op) :
    ¬ (s.step op).Right := by
  obtain ⟨cache, hcache, hcontent, hproper⟩ := h
  obtain ⟨lists, content⟩ := s
  obtain rfl : content = contentOf cache := hcontent
  obtain rfl : lists = some cache.lists := hcache
  have hlists : (SkiRecord.step ⟨some cache.lists, contentOf cache⟩ op).cache =
      (changeTree cache op).map SkiTree.lists :=
    changeLists_eq (sized_of_proper hproper) (noZero_of_proper hproper) op
  rintro ⟨nodes, hnodes, hright⟩
  rw [hlists] at hnodes
  obtain ⟨cache', hchange, rfl⟩ := Option.map_eq_some_iff.mp hnodes
  cases op with
  | registerUpdate updateID key =>
    by_cases hfirst : cache.BeforeFirst key.val.asn key.val.algoID
    · rw [show changeTree cache (.registerUpdate updateID key) = none from
        registerTurn_beforeFirst hfirst updateID] at hchange
      cases hchange
    · obtain rfl : updateID = 0 := by
        by_contra hid
        exact hop ⟨hid, (beforeFirst_iff_content cache _ _).mp hfirst⟩
      have hupdate := hright.update key 0
      rw [registerTurn_zero hproper key.property hchange] at hupdate
      obtain ⟨counter, hcounter⟩ := exists_registered (contentOf cache) 0 key.val
      exact Option.some_ne_none _ ((congrArg (Option.map _) hcounter).symm.trans hupdate.symm)
  | registerKey key =>
    have hfirst : cache.BeforeFirst key.val.asn key.val.algoID := by
      by_contra hfirst
      exact hop ((beforeFirst_iff_content cache _ _).mp hfirst)
    have hnone : changeTree cache (.registerKey key) = none := by
      show (registerKeyTree cache key.val).map Prod.fst = none
      rw [registerKeyTree_none hfirst]
      rfl
    rw [hnone] at hchange
    cases hchange
  | unregisterUpdate updateID key => exact hop trivial
  | unregisterKey key => exact hop trivial
  | clean type => exact hop trivial

end SkiOrderLemmas

open SkiOrderLemmas

/-- From the empty cache on, the lists are right after every change if and only if no update has the
identifier zero and no algorithm goes in front of all those its AS has. -/
theorem cacheRight_iff (ops : List SkiChange) :
    Runs.Always SkiRecord.step SkiRecord.Right SkiRecord.initial ops ↔
      Runs.EachStep SkiRecord.step SkiRecord.InOrder SkiRecord.initial ops :=
  Runs.always_iff_eachStep carried_step right_of_carried not_right_step carried_initial

/-- A key of the AS 65001. -/
def someSkiKey (algoID : UInt8) : SizedKey := ⟨⟨65001, List.replicate 20 7, algoID⟩, rfl⟩

/-- The algorithm 1 behind the algorithm 2, and the identifier zero for a key without updates. -/
theorem cache_not_right :
    ¬ Runs.Always SkiRecord.step SkiRecord.Right SkiRecord.initial
        [.registerKey (someSkiKey 2), .registerKey (someSkiKey 1)] ∧
      ¬ Runs.Always SkiRecord.step SkiRecord.Right SkiRecord.initial
        [.registerUpdate 0 (someSkiKey 1)] := by
  constructor
  · intro h
    obtain ⟨nodes, hnodes, -⟩ := h [.registerKey (someSkiKey 2), .registerKey (someSkiKey 1)] [] rfl
    have hnone : (changeLists [] (.registerKey (someSkiKey 2))).bind (fun nodes =>
        changeLists nodes (.registerKey (someSkiKey 1))) = none := by rfl
    cases hnone.symm.trans hnodes
  · intro h
    obtain ⟨nodes, hnodes, hright⟩ := h [.registerUpdate 0 (someSkiKey 1)] [] rfl
    have hlookup : (changeLists [] (.registerUpdate 0 (someSkiKey 1))).bind (fun nodes =>
        lookupUID nodes (someSkiKey 1).val 0) = none := by rfl
    have hupdate := hright.update (someSkiKey 1) 0
    obtain ⟨counter, hcounter⟩ := exists_registered SkiContent.empty 0 (someSkiKey 1).val
    rw [show changeLists [] (.registerUpdate 0 (someSkiKey 1)) = some nodes from hnodes] at hlookup
    rw [show lookupUID nodes (someSkiKey 1).val 0 = none from hlookup] at hupdate
    exact Option.some_ne_none _ ((congrArg (Option.map _) hcounter).symm.trans hupdate.symm)

end SrxSuite.Server

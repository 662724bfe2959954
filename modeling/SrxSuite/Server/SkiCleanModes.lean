import SrxSuite.Lib.Unlinking
import SrxSuite.Server.SkiOrder

/-!
# What the modes of cleaning remove

`ski_clean` walks along the nodes, the algorithms and the data, and takes out what is empty on its way.
`Cleaned` says that the selected keys or updates are gone, that everything else is found as before, and
that no element of any list is empty.

Result: on every cache that changes lead to, this holds unless the mode is `SKI_CLEAN_NONE` and there
are data without keys and updates (`skiClean_iff`). With this mode `___ski_clean_cAlgoID` does not look
at the data. Such data are left by a registration of the identifier zero, and by 256 registrations of one
key.
-/

namespace SrxSuite.Server

open Bytes Unlinking

/-! ## The walks -/

/-- The loop of `___ski_clean_cAlgoID`. With `SKI_CLEAN_NONE` it starts at NULL. -/
def cleanDataWalk (type : SkiClean) (cacheData : List CacheData) : Option (List CacheData) :=
  if type = .none then some cacheData
  else unlinkAll (fun cData => some (cleanCData type cData, (cleanCData type cData).canFree)) cacheData

/-- `___ski_clean_cAlgoID`: the algorithm, and whether it can be freed. -/
def cleanAlgoIDWalk (type : SkiClean) (cAlgoID : CacheAlgoID) : Option (CacheAlgoID × Bool) := do
  let cacheData ← cleanDataWalk type cAlgoID.cacheData
  some ({ cAlgoID with cacheData := cacheData }, cacheData.isEmpty)

/-- The algorithms of one element of the array. -/
def cleanAs2Walk (type : SkiClean) (algos : List CacheAlgoID) : Option (List CacheAlgoID) :=
  unlinkAll (cleanAlgoIDWalk type) algos

/-- `___ski_clean_cNode`: the loop over the array. It ends when the walk along each element does. -/
def cleanNodeWalk (type : SkiClean) (cNode : CacheNode) : Option (CacheNode × Bool) :=
  if (List.range 65536).all fun as2 => (cleanAs2Walk type (cNode.as2 (UInt16.ofNat as2))).isSome then
    let cNode := { cNode with as2 := fun as2 => (cleanAs2Walk type (cNode.as2 as2)).getD [] }
    some (cNode, cNode.canFree)
  else none

/-- `ski_clean`. All nodes are freed at once. -/
def skiClean (nodes : List CacheNode) (type : SkiClean) : Option (List CacheNode) :=
  if type = .all then some [] else unlinkAll (cleanNodeWalk type) nodes

/-- The cache after changes, as long as it is defined. -/
def changed (ops : List SkiChange) : Option (List CacheNode) := ops.foldlM changeLists []

/-! ## What a cleaning is for -/

/-- The keys are removed. -/
def SkiClean.removesKeys (type : SkiClean) : Bool := type = .keys || type = .all

/-- The updates are removed. -/
def SkiClean.removesUpdates (type : SkiClean) : Bool := type = .updates || type = .all

/-- How often a key is registered. -/
def keyCounter (nodes : List CacheNode) (key : SkiKey) : UInt8 :=
  ((lookupData nodes key).map (·.counter)).getD 0

/-- How often an update is registered for a key, if it is. -/
def updateCounter (nodes : List CacheNode) (key : SkiKey) (updateID : UInt32) : Option UInt16 :=
  (lookupUID nodes key updateID).map (·.counter)

/-- The data stand in the lists. -/
def DataIn (nodes : List CacheNode) (upper as2 : UInt16) (algoID : UInt8) (cData : CacheData) : Prop :=
  ∃ node ∈ nodes, node.upper = upper ∧ ∃ algo ∈ node.as2 as2, algo.algoID = algoID ∧
    cData ∈ algo.cacheData

/-- No node is without algorithms, no algorithm without data, and no data without keys and updates. -/
structure NoneEmpty (nodes : List CacheNode) : Prop where
  node : ∀ node ∈ nodes, ∃ as2, node.as2 as2 ≠ []
  algo : ∀ node ∈ nodes, ∀ as2, ∀ algo ∈ node.as2 as2, algo.cacheData ≠ []
  data : ∀ upper as2 algoID cData, DataIn nodes upper as2 algoID cData → cData.canFree = false

/-- The lists are sorted, and the data stand where their AS number and algorithm say. -/
structure WellFormed (nodes : List CacheNode) : Prop where
  sorted : ListsSorted nodes
  placed : ∀ upper as2 algoID cData, DataIn nodes upper as2 algoID cData →
    cData.asn = asnOf upper as2 ∧ cData.algoID = algoID

/-- What a cleaning is to do. -/
structure Cleaned (type : SkiClean) (before after : List CacheNode) : Prop where
  keys : ∀ key : SizedKey, keyCounter after key.val =
    if type.removesKeys then 0 else keyCounter before key.val
  updates : ∀ (key : SizedKey) updateID, updateCounter after key.val updateID =
    if type.removesUpdates then none else updateCounter before key.val updateID
  wellFormed : WellFormed after
  noneEmpty : NoneEmpty after

namespace SkiCleanModesLemmas

open SkiListsLemmas SkiCacheLemmas SkiRefineLemmas SkiCleaningLemmas SkiOrderLemmas

variable {type : SkiClean} {cache : SkiTree} {key : SkiKey}

/-! ## The walks end -/

theorem cleanAlgoIDWalk_eq (type : SkiClean) (cAlgoID : CacheAlgoID) :
    cleanAlgoIDWalk type cAlgoID =
      some (cleanCAlgoID type cAlgoID, (cleanCAlgoID type cAlgoID).cacheData.isEmpty) := by
  unfold cleanAlgoIDWalk cleanDataWalk cleanCAlgoID
  split
  · rfl
  · rw [unlinkAll_eq fun _ => rfl]
    rfl

theorem cleanAs2Walk_eq (type : SkiClean) (algos : List CacheAlgoID) :
    cleanAs2Walk type algos = some ((algos.map (cleanCAlgoID type)).filter fun cAlgoID =>
      !cAlgoID.cacheData.isEmpty) :=
  unlinkAll_eq (cleanAlgoIDWalk_eq type) algos

theorem cleanNodeWalk_eq (type : SkiClean) (cNode : CacheNode) :
    cleanNodeWalk type cNode = some (cleanCNode type cNode, (cleanCNode type cNode).canFree) := by
  have hends : ((List.range 65536).all fun as2 =>
      (cleanAs2Walk type (cNode.as2 (UInt16.ofNat as2))).isSome) = true :=
    List.all_eq_true.mpr fun as2 _ => by rw [cleanAs2Walk_eq]; rfl
  have hnode : CacheNode.mk cNode.upper (fun as2 => (cleanAs2Walk type (cNode.as2 as2)).getD []) =
      cleanCNode type cNode :=
    congrArg (CacheNode.mk cNode.upper) (funext fun as2 => by rw [cleanAs2Walk_eq]; rfl)
  unfold cleanNodeWalk
  rw [if_pos hends]
  dsimp only
  rw [hnode]

/-- `ski_clean` ends, and removes the nodes that are free after their cleaning. -/
theorem skiClean_eq (nodes : List CacheNode) (type : SkiClean) :
    skiClean nodes type = some (skiCleanLists nodes type) := by
  unfold skiClean skiCleanLists
  split
  · rfl
  · exact unlinkAll_eq (cleanNodeWalk_eq type) nodes

/-! ## Caches of a run -/

/-- The lists are those of a tree whose keys have their size. -/
def OfTree (nodes : List CacheNode) : Prop :=
  ∃ cache : SkiTree, nodes = cache.lists ∧ Proper (contentOf cache)

/-- A change keeps the content proper as long as it is defined, also one out of order. -/
theorem proper_changeTree (h : Proper (contentOf cache)) {op : SkiChange} {cache' : SkiTree}
    (hchange : changeTree cache op = some cache') : Proper (contentOf cache') := by
  by_cases hop : SkiRecord.InOrder ⟨none, contentOf cache⟩ op
  · obtain ⟨tree, htree, hcontent⟩ := changeTree_inOrder none hop
    obtain rfl := Option.some.inj (htree.symm.trans hchange)
    rw [hcontent]
    exact proper_change h none hop
  cases op with
  | registerUpdate updateID key =>
    by_cases hfirst : cache.BeforeFirst key.val.asn key.val.algoID
    · cases (registerTurn_beforeFirst hfirst updateID).symm.trans hchange
    · obtain rfl : updateID = 0 := by
        by_contra hid
        exact hop ⟨hid, (beforeFirst_iff_content cache _ _).mp hfirst⟩
      obtain ⟨cData, hadd, hset⟩ := Option.bind_eq_some_iff.mp hchange
      rw [contentOf_setData hset]
      exact proper_put h (find_addUpdateCacheUID_zero hadd)
  | registerKey key =>
    have hfirst : cache.BeforeFirst key.val.asn key.val.algoID := by
      by_contra hfirst
      exact hop ((beforeFirst_iff_content cache _ _).mp hfirst)
    have hnone : (registerKeyTree cache key.val).map Prod.fst = none := by
      rw [registerKeyTree_none hfirst]
      rfl
    cases hnone.symm.trans hchange
  | unregisterUpdate updateID key => exact absurd trivial hop
  | unregisterKey key => exact absurd trivial hop
  | clean type => exact absurd trivial hop

theorem ofTree_change (nodes : List CacheNode) (op : SkiChange) (nodes' : List CacheNode)
    (h : OfTree nodes) (hchange : changeLists nodes op = some nodes') : OfTree nodes' := by
  obtain ⟨cache, rfl, hproper⟩ := h
  rw [changeLists_eq (sized_of_proper hproper) (noZero_of_proper hproper)] at hchange
  obtain ⟨cache', hcache', rfl⟩ := Option.map_eq_some_iff.mp hchange
  exact ⟨cache', rfl, proper_changeTree hproper hcache'⟩

theorem ofTree_changed {ops : List SkiChange} {nodes : List CacheNode} (h : changed ops = some nodes) :
    OfTree nodes :=
  Runs.invariant_foldlM ofTree_change ⟨SortedMap.empty, rfl, fun _ _ hdata => nomatch hdata⟩ h

theorem proper_clean (h : Proper (contentOf cache)) (type : SkiClean) :
    Proper (contentOf (cache.clean type)) :=
  proper_changeTree h (show changeTree cache (.clean type) = some (cache.clean type) from rfl)

/-! ## Which data are found -/

/-- The data in the lists are those that are found, with their AS number and algorithm. -/
theorem dataIn_lists {upper as2 : UInt16} {algoID : UInt8} {cData : CacheData} :
    DataIn cache.lists upper as2 algoID cData ↔
      ∃ ski sData, cache.getData ⟨asnOf upper as2, ski, algoID⟩ = some sData ∧
        cData = dataElement (asnOf upper as2) algoID (ski, sData) := by
  constructor
  · rintro ⟨node, hnode, rfl, algo, halgo, rfl, hdata⟩
    obtain ⟨eNode, heNode, rfl⟩ := List.mem_map.mp hnode
    obtain ⟨eAlgo, heAlgo, rfl⟩ := List.mem_map.mp halgo
    obtain ⟨eData, heData, rfl⟩ := List.mem_map.mp hdata
    exact ⟨eData.1, eData.2, getData_of_mem heNode heAlgo heData, rfl⟩
  · rintro ⟨ski, sData, hdata, rfl⟩
    obtain ⟨data, halgo, hski⟩ := Option.bind_eq_some_iff.mp hdata
    unfold SkiTree.algos at halgo
    dsimp only at halgo
    rw [upperOf_asnOf, as2Of_asnOf] at halgo
    cases hnode : cache.find upper with
    | none =>
      rw [hnode] at halgo
      cases halgo
    | some node =>
      rw [hnode] at halgo
      exact ⟨nodeElement (upper, node), List.mem_map_of_mem (SortedMap.mem_of_find hnode), rfl,
        algoElement (asnOf upper as2) (algoID, data),
        List.mem_map_of_mem (SortedMap.mem_of_find halgo), rfl,
        List.mem_map_of_mem (SortedMap.mem_of_find hski)⟩

theorem wellFormed_lists (h : Proper (contentOf cache)) : WellFormed cache.lists where
  sorted := lists_sorted (sized_of_proper h)
  placed := by
    intro upper as2 algoID cData hdata
    obtain ⟨ski, sData, -, rfl⟩ := dataIn_lists.mp hdata
    exact ⟨rfl, rfl⟩

/-! ## What a cleaning leaves -/

theorem counter_cleaned (type : SkiClean) (cData : SkiData) :
    (cData.cleaned type).counter = if type.removesKeys then 0 else cData.counter := by
  cases type with
  | none => rfl
  | keys => rfl
  | updates => rfl
  | all => rfl

theorem updates_cleaned (type : SkiClean) (cData : SkiData) (updateID : UInt32) :
    (cData.cleaned type).cacheUID.find updateID =
      if type.removesUpdates then none else cData.cacheUID.find updateID := by
  cases type with
  | none => rfl
  | keys => rfl
  | updates => rfl
  | all => rfl

/-- The counter of a key is cleaned, also if the data are freed. -/
theorem keyCounter_clean (h : Proper (contentOf cache)) (type : SkiClean) (key : SizedKey) :
    keyCounter (cache.clean type).lists key.val =
      if type.removesKeys then 0 else keyCounter cache.lists key.val := by
  unfold keyCounter
  rw [lookupData_list (sized_of_proper h) key.property,
    lookupData_list (sized_of_proper (proper_clean h type)) key.property, getData_clean]
  cases cache.getData key.val with
  | none => exact (ite_self _).symm
  | some cData =>
    refine Eq.trans ?_ (counter_cleaned type cData)
    rw [Option.bind_some]
    unfold SkiData.clean
    split
    · next hfreed => exact hfreed.2.1.symm
    · rfl

/-- So are the updates. -/
theorem updateCounter_clean (h : Proper (contentOf cache)) (type : SkiClean) (key : SizedKey)
    (updateID : UInt32) :
    updateCounter (cache.clean type).lists key.val updateID =
      if type.removesUpdates then none else updateCounter cache.lists key.val updateID := by
  unfold updateCounter
  rw [lookupUID_list (sized_of_proper h) key.property,
    lookupUID_list (sized_of_proper (proper_clean h type)) key.property, getData_clean]
  cases cache.getData key.val with
  | none => exact (ite_self _).symm
  | some cData =>
    have hcounter (o : Option UInt16) :
        (o.map fun counter => uidElement (updateID, counter)).map (·.counter) = o := by
      cases o with
      | none => rfl
      | some counter => rfl
    rw [hcounter, hcounter, Option.bind_some, Option.bind_some]
    refine Eq.trans ?_ (updates_cleaned type cData updateID)
    unfold SkiData.clean
    split
    · next hfreed => exact ((SortedMap.items_eq_nil _).mp hfreed.2.2 updateID).symm
    · rfl

/-- Data that are not freed have a key or an update. -/
theorem not_canFree_clean {cData cData' : SkiData} (h : type ≠ .none)
    (hclean : cData.clean type = some cData') (asn : UInt32) (algoID : UInt8) (ski : Bytes) :
    (dataElement asn algoID (ski, cData')).canFree = false := by
  unfold SkiData.clean at hclean
  split at hclean
  · cases hclean
  · next hkept =>
    obtain rfl := Option.some.inj hclean
    rw [Bool.eq_false_iff]
    exact fun hfree => hkept ⟨h, (canFree_element asn algoID _).mp hfree⟩

/-- A cleaning leaves no empty element if none of the data it does not look at are. -/
theorem noneEmpty_clean
    (h : type = .none → ∀ upper as2 algoID cData, DataIn cache.lists upper as2 algoID cData →
      cData.canFree = false) : NoneEmpty (cache.clean type).lists where
  node := by
    intro node hnode
    obtain ⟨eNode, heNode, rfl⟩ := List.mem_map.mp hnode
    have hfind : (cache.clean type).find eNode.1 = some eNode.2 := SortedMap.find_of_mem heNode
    obtain ⟨asn, algoID, hupper, halgo⟩ := (find_clean cache type eNode.1).mp (by rw [hfind]; rfl)
    refine ⟨as2Of asn, fun hnil => ?_⟩
    unfold SkiTree.algos at halgo
    rw [hupper, hfind] at halgo
    dsimp only at halgo
    rw [(SortedMap.items_eq_nil (eNode.2 (as2Of asn))).mp (List.map_eq_nil_iff.mp hnil) algoID] at halgo
    cases halgo
  algo := by
    intro node hnode as2 algo halgo
    obtain ⟨eNode, heNode, rfl⟩ := List.mem_map.mp hnode
    obtain ⟨eAlgo, heAlgo, rfl⟩ := List.mem_map.mp halgo
    have hfind : ((cache.clean type).algos (asnOf eNode.1 as2)).find eAlgo.1 = some eAlgo.2 := by
      unfold SkiTree.algos
      rw [upperOf_asnOf, as2Of_asnOf, SortedMap.find_of_mem (m := cache.clean type) heNode]
      exact SortedMap.find_of_mem heAlgo
    obtain ⟨ski, hski⟩ := (find_algos_clean cache type _ _).mp (by rw [hfind]; rfl)
    intro hnil
    unfold SkiTree.getData at hski
    rw [hfind, Option.bind_some, (SortedMap.items_eq_nil _).mp (List.map_eq_nil_iff.mp hnil) ski] at hski
    cases hski
  data := by
    intro upper as2 algoID cData hdata
    obtain ⟨ski, sData', hfound, rfl⟩ := dataIn_lists.mp hdata
    rw [getData_clean] at hfound
    obtain ⟨sData, hbefore, hclean⟩ := Option.bind_eq_some_iff.mp hfound
    by_cases hnone : type = .none
    · subst hnone
      obtain rfl := Option.some.inj ((clean_none sData).symm.trans hclean)
      exact h rfl upper as2 algoID _ (dataIn_lists.mpr ⟨ski, sData, hbefore, rfl⟩)
    · exact not_canFree_clean hnone hclean _ _ _

/-- With nothing to clean the data stay in the lists. -/
theorem dataIn_clean_none {upper as2 : UInt16} {algoID : UInt8} {cData : CacheData}
    (h : DataIn cache.lists upper as2 algoID cData) :
    DataIn (cache.clean .none).lists upper as2 algoID cData := by
  obtain ⟨ski, sData, hdata, rfl⟩ := dataIn_lists.mp h
  refine dataIn_lists.mpr ⟨ski, sData, ?_, rfl⟩
  rw [getData_clean, hdata]
  exact clean_none sData

end SkiCleanModesLemmas

open SkiCleanModesLemmas SkiCleaningLemmas

/-- On every cache that changes lead to, `ski_clean` ends and removes what its type selects, keeps
everything else and leaves no empty element if and only if it looks at the data, or none of them are
without keys and updates. -/
theorem skiClean_iff (ops : List SkiChange) (type : SkiClean) {nodes : List CacheNode}
    (h : changed ops = some nodes) :
    (∃ after, skiClean nodes type = some after ∧ Cleaned type nodes after) ↔
      (type = .none → ∀ upper as2 algoID cData, DataIn nodes upper as2 algoID cData →
        cData.canFree = false) := by
  obtain ⟨cache, rfl, hproper⟩ := ofTree_changed h
  rw [skiClean_eq, ← lists_clean]
  constructor
  · rintro ⟨after, hafter, hcleaned⟩ rfl upper as2 algoID cData hdata
    obtain rfl := Option.some.inj hafter
    exact hcleaned.noneEmpty.data upper as2 algoID cData (dataIn_clean_none hdata)
  · intro hfull
    exact ⟨_, rfl, keyCounter_clean hproper type, updateCounter_clean hproper type,
      wellFormed_lists (proper_clean hproper type), noneEmpty_clean hfull⟩

/-- A key of one algorithm, an update for another one, and the cleaning of the keys. -/
theorem skiClean_keys : ∃ nodes after,
    changed [.registerKey (someSkiKey 1), .registerUpdate 7 (someSkiKey 2)] = some nodes ∧
      skiClean nodes .keys = some after ∧ Cleaned .keys nodes after := by
  have hdefined :
      (changed [.registerKey (someSkiKey 1), .registerUpdate 7 (someSkiKey 2)]).isSome = true := by rfl
  obtain ⟨nodes, hnodes⟩ := Option.isSome_iff_exists.mp hdefined
  obtain ⟨after, hafter⟩ := (skiClean_iff _ .keys hnodes).mpr fun h => nomatch h
  exact ⟨nodes, after, hnodes, hafter⟩

/-- The identifier zero makes data without updates, and they stay. -/
theorem skiClean_none_keeps_empty :
    ∃ nodes, changed [.registerUpdate 0 (someSkiKey 1)] = some nodes ∧
      ¬ ∃ after, skiClean nodes .none = some after ∧ Cleaned .none nodes after := by
  have hfirst : ((changed [.registerUpdate 0 (someSkiKey 1)]).bind fun nodes => do
      let node ← nodes[0]?
      let algo ← (node.as2 65001)[0]?
      let cData ← algo.cacheData[0]?
      some cData.canFree) = some true := by rfl
  obtain ⟨nodes, hnodes, hnode⟩ := Option.bind_eq_some_iff.mp hfirst
  obtain ⟨node, hnode, halgo⟩ := Option.bind_eq_some_iff.mp hnode
  obtain ⟨algo, halgo, hdata⟩ := Option.bind_eq_some_iff.mp halgo
  obtain ⟨cData, hdata, hfree⟩ := Option.bind_eq_some_iff.mp hdata
  have hin : DataIn nodes node.upper 65001 algo.algoID cData :=
    ⟨node, List.mem_of_getElem? hnode, rfl, algo, List.mem_of_getElem? halgo, rfl,
      List.mem_of_getElem? hdata⟩
  refine ⟨nodes, hnodes, ?_⟩
  obtain ⟨cache, rfl, -⟩ := ofTree_changed hnodes
  rintro ⟨after, hafter, hcleaned⟩
  rw [skiClean_eq, ← lists_clean] at hafter
  obtain rfl := Option.some.inj hafter
  have hneeded := hcleaned.noneEmpty.data _ _ _ _ (dataIn_clean_none hin)
  exact Bool.false_ne_true (hneeded.symm.trans (Option.some.inj hfree))

end SrxSuite.Server

import SrxSuite.Server.SkiLists

/-!
# The lists of the SKI cache and its tree

The functions on the lists compute what those on `SkiTree` do: `registerTurnLists_eq`,
`unregisterTurnLists_eq`, `registerKeyLists_eq` and `unregisterKeyLists_eq`.
-/

namespace SrxSuite.Server

open Bytes SortedWalk

/-- All SKIs of the cache have their 20 bytes. -/
def Sized (cache : SkiTree) : Prop :=
  ∀ key, (cache.getData key).isSome → key.ski.length = 20

namespace SkiRefineLemmas

open SkiListsLemmas SkiCacheLemmas

variable {cache : SkiTree} {key : SkiKey} {cData : SkiData} {updateID : UInt32}

section Items

variable {K V α : Type} [DecidableEq K] {rank : K → Nat} {rankα : α → Nat} {g : K × V → α}

/-- A search in the elements of a map. -/
theorem searched_items (hrank : ∀ e, rankα (g e) = rank e.1) (hinj : Function.Injective rank)
    (m : SortedMap K V rank) (k : K) (w : V) (create : Bool) :
    searched rankα (rank k) (g (k, w)) create (m.items.map g) =
      match m.find k with
      | some _ => (m.items.map g, some (m.place k))
      | none => if create then ((m.insert hinj k w).items.map g, some (m.place k))
          else (m.items.map g, none) := by
  have hitem : (fun e => rankα (g e)) = itemRank rank := funext hrank
  unfold searched
  rw [found_map, placeOf_map, ensure_map, hitem]
  cases hfind : m.find k with
  | some v =>
    have hfound := SortedMap.found_of_find hinj hfind
    rw [ensure_of_found hfound, hfound, Bool.true_or, if_pos rfl]
    rfl
  | none =>
    have hfound := SortedMap.found_of_none hinj hfind
    rw [hfound, Bool.false_or]
    dsimp only
    rw [SortedMap.items_insert_of_none hinj hfind]
    unfold ensure
    rw [hfound, if_neg Bool.false_ne_true]
    rfl

omit [DecidableEq K] in
theorem placeOf_items (hrank : ∀ e, rankα (g e) = rank e.1) (m : SortedMap K V rank) (k : K) :
    placeOf rankα (rank k) (m.items.map g) = m.place k := by
  have hitem : (fun e => rankα (g e)) = itemRank rank := funext hrank
  rw [placeOf_map, hitem]
  rfl

theorem found_items (hrank : ∀ e, rankα (g e) = rank e.1) (hinj : Function.Injective rank)
    (m : SortedMap K V rank) (k : K) :
    found rankα (rank k) (m.items.map g) = (m.find k).isSome := by
  have hitem : (fun e => rankα (g e)) = itemRank rank := funext hrank
  rw [found_map, hitem, SortedMap.found_eq hinj]

theorem getElem?_items (hinj : Function.Injective rank) {m : SortedMap K V rank} {k : K} {v : V}
    (h : m.find k = some v) : (m.items.map g)[m.place k]? = some (g (k, v)) := by
  rw [List.getElem?_map, SortedMap.getElem?_place hinj h]
  rfl

/-- Another value at the place of a key. -/
theorem set_items (hinj : Function.Injective rank) {m : SortedMap K V rank} {k : K} {v : V}
    (h : m.find k = some v) (w : V) :
    (m.items.map g).set (m.place k) (g (k, w)) = (m.insert hinj k w).items.map g := by
  rw [SortedMap.items_insert_of_find hinj h, List.map_set]

theorem insert_self (hinj : Function.Injective rank) {m : SortedMap K V rank} {k : K} {v : V}
    (h : m.find k = some v) : m.insert hinj k v = m := by
  apply SortedMap.ext_items
  rw [SortedMap.items_insert_of_find hinj h]
  obtain ⟨hlt, hget⟩ := List.getElem?_eq_some_iff.mp (SortedMap.getElem?_place hinj h)
  have hself := List.set_getElem_self hlt
  rwa [hget] at hself

end Items

/-! ## The updates -/

theorem listRank_element (e : UInt32 × UInt16) : listRank (uidElement e) = uidRank e.1 := rfl

theorem placeOf_uids (l : UidList) (updateID : UInt32) :
    placeOf listRank (uidRank updateID) l.list = l.place updateID :=
  placeOf_items listRank_element l updateID

theorem found_uids (l : UidList) (updateID : UInt32) :
    found listRank (uidRank updateID) l.list = (l.find updateID).isSome :=
  found_items listRank_element uidRank_injective l updateID

/-- The updates with one registration more. -/
theorem addUID_list (l : UidList) (hid : updateID ≠ 0) :
    addUID l.list updateID = some (UidList.list
      (l.insert uidRank_injective updateID ((l.find updateID).getD 0 + 1))) := by
  have hcases := addUID_cases l.list hid
  rw [placeOf_uids, found_uids] at hcases
  cases hfind : l.find updateID with
  | some counter =>
    have hget : l.list[l.place updateID]? = some (uidElement (updateID, counter)) :=
      getElem?_items uidRank_injective hfind
    rcases hcases with ⟨cUID, hcUID, -, hadd⟩ | ⟨hfound, -⟩
    · rw [hget] at hcUID
      obtain rfl := Option.some.inj hcUID
      rw [hadd]
      exact congrArg some (set_items uidRank_injective hfind _)
    · rw [hfind] at hfound
      cases hfound
  | none =>
    rcases hcases with ⟨cUID, hcUID, hrank, -⟩ | ⟨-, hadd⟩
    · have hfound : found listRank (uidRank updateID) l.list = true := by
        unfold found
        rw [placeOf_uids, hcUID]
        exact decide_eq_true hrank
      rw [found_uids, hfind] at hfound
      cases hfound
    · rw [hadd]
      unfold UidList.list
      rw [SortedMap.items_insert_of_none uidRank_injective hfind, List.map_insertIdx]
      rfl

theorem removeUIDList_list (l : UidList) (updateID : UInt32) :
    removeUIDList l.list updateID = UidList.list (removeUID l updateID) := by
  unfold removeUIDList removeUID
  rw [findUIDLoop_eq, placeOf_uids, found_uids]
  cases hfind : l.find updateID with
  | none => rfl
  | some counter =>
    have hget : l.list[l.place updateID]? = some (uidElement (updateID, counter)) :=
      getElem?_items uidRank_injective hfind
    rw [if_pos (show (some counter).isSome = true from rfl)]
    dsimp only
    rw [hget]
    show (if counter - 1 = 0 then _ else _) = UidList.list (if counter - 1 = 0 then _ else _)
    split
    · unfold UidList.list
      rw [SortedMap.items_erase uidRank_injective hfind, List.eraseIdx_map]
    · exact set_items uidRank_injective hfind _

theorem list_eq_nil {l : UidList} : l.list = [] ↔ l.items = [] := List.map_eq_nil_iff

/-! ## Searches in the lists of a tree -/

theorem dataRank_element (asn : UInt32) (algoID : UInt8) (e : Bytes × SkiData) :
    dataRank (dataElement asn algoID e) = bytesRank e.1 := rfl

theorem algoRank_element (asn : UInt32) (e : UInt8 × DataList) :
    algoRank (algoElement asn e) = e.1.toNat := rfl

theorem nodeRank_element (e : UInt16 × (UInt16 → AlgoList)) :
    nodeRank (nodeElement e) = e.1.toNat := rfl

/-- The data with the algorithm of a key. -/
def dataOfAlgo (cache : SkiTree) (key : SkiKey) : DataList :=
  ((cache.algos key.asn).find key.algoID).getD SortedMap.empty

theorem find_dataOfAlgo (cache : SkiTree) (key : SkiKey) :
    (dataOfAlgo cache key).find key.ski = cache.getData key := find_data cache key

theorem sized_data (h : Sized cache) (hkey : key.ski.length = 20) :
    ∀ d ∈ DataList.list (dataOfAlgo cache key) key.asn key.algoID, key.ski.length = d.ski.length := by
  intro d hd
  obtain ⟨e, he, rfl⟩ := List.mem_map.mp hd
  have hsome : ((dataOfAlgo cache key).find e.1).isSome :=
    (SortedMap.mem_keys _ _).mp (List.mem_map_of_mem he)
  have hsize := h ⟨key.asn, e.1, key.algoID⟩ (by
    rw [← find_dataOfAlgo]
    exact hsome)
  exact hkey.trans hsize.symm

theorem searchCacheData_list (h : Sized cache) (hkey : key.ski.length = 20) (create : Bool) :
    searchCacheData (DataList.list (dataOfAlgo cache key) key.asn key.algoID) key create =
      match cache.getData key with
      | some _ => (DataList.list (dataOfAlgo cache key) key.asn key.algoID,
          some ((dataOfAlgo cache key).place key.ski))
      | none =>
        if create then
          (DataList.list ((dataOfAlgo cache key).insert bytesRank_injective key.ski newSkiData) key.asn
            key.algoID, some ((dataOfAlgo cache key).place key.ski))
        else (DataList.list (dataOfAlgo cache key) key.asn key.algoID, none) := by
  have hsearched := searched_items (dataRank_element key.asn key.algoID) bytesRank_injective
    (dataOfAlgo cache key) key.ski newSkiData create
  rw [searchCacheData_eq _ _ _ (sized_data h hkey), ← find_dataOfAlgo]
  unfold DataList.list
  rw [show createCacheData key = dataElement key.asn key.algoID (key.ski, newSkiData) from rfl,
    hsearched]
  cases (dataOfAlgo cache key).find key.ski with
  | none => rfl
  | some cData => rfl

/-- An algorithm that is not there is in front of the first one if its place is the first. -/
theorem beforeFirst_iff {asn : UInt32} {algoID : UInt8}
    (h : (cache.algos asn).find algoID = none) :
    cache.BeforeFirst asn algoID ↔ AlgoList.list (cache.algos asn) asn ≠ [] ∧
      (cache.algos asn).place algoID = 0 := by
  unfold SkiTree.BeforeFirst AlgoList.list SortedMap.first SortedMap.place
  unfold SortedMap.find at h
  cases hitems : (cache.algos asn).items with
  | nil => exact iff_of_false (fun ⟨_, hfirst, _⟩ => nomatch hfirst) fun hne => hne.1 rfl
  | cons e rest =>
    obtain ⟨first, data⟩ := e
    rw [hitems, SortedMap.findItems_cons] at h
    constructor
    · rintro ⟨first', hfirst, hlt⟩
      obtain rfl := Option.some.inj hfirst
      exact ⟨List.cons_ne_nil _ _, if_neg (Nat.lt_asymm (UInt8.lt_iff_toNat_lt.mp hlt))⟩
    · rintro ⟨-, hplace⟩
      refine ⟨first, rfl, ?_⟩
      have hle : ¬ first.toNat < algoID.toNat := by
        intro hlt
        rw [placeOf_of_lt (show itemRank UInt8.toNat (first, data) < algoID.toNat from hlt)] at hplace
        cases hplace
      refine UInt8.lt_iff_toNat_lt.mpr (Nat.lt_of_le_of_ne (Nat.not_lt.mp hle) fun heq => ?_)
      rw [if_neg (Nat.not_lt.mpr (Nat.le_of_eq heq.symm)), if_pos (UInt8.toNat_inj.mp heq)] at h
      cases h

theorem getCacheAlgoID_list (cache : SkiTree) (asn : UInt32) (algoID : UInt8) (create : Bool) :
    getCacheAlgoID (AlgoList.list (cache.algos asn) asn) algoID create =
      match (cache.algos asn).find algoID with
      | some _ => some (AlgoList.list (cache.algos asn) asn, some ((cache.algos asn).place algoID))
      | none =>
        if create then
          if cache.BeforeFirst asn algoID then none
          else some (AlgoList.list ((cache.algos asn).insert toNat8_injective algoID SortedMap.empty) asn,
            some ((cache.algos asn).place algoID))
        else some (AlgoList.list (cache.algos asn) asn, none) := by
  have hsearched := searched_items (algoRank_element asn) toNat8_injective (cache.algos asn) algoID
    SortedMap.empty create
  have hplace := placeOf_items (algoRank_element asn) (cache.algos asn) algoID
  have hfound := found_items (algoRank_element asn) toNat8_injective (cache.algos asn) algoID
  rw [getCacheAlgoID_eq]
  unfold AlgoList.list
  rw [show createCacheAlgoID algoID = algoElement asn (algoID, SortedMap.empty) from rfl, hsearched,
    hplace, hfound]
  cases hfind : (cache.algos asn).find algoID with
  | some data =>
    rw [if_neg fun h => Bool.false_ne_true h.2.2.1.symm]
  | none =>
    cases create with
    | false =>
      rw [if_neg fun h => Bool.false_ne_true h.1]
      rfl
    | true =>
      dsimp only
      rw [if_pos rfl, if_pos rfl]
      by_cases hfirst : cache.BeforeFirst asn algoID
      · obtain ⟨hne, hzero⟩ := (beforeFirst_iff hfind).mp hfirst
        rw [if_pos ⟨rfl, hne, rfl, hzero⟩, if_pos hfirst]
      · rw [if_neg fun h => hfirst ((beforeFirst_iff hfind).mpr ⟨h.2.1, h.2.2.2⟩), if_neg hfirst]

theorem getCacheNode_list (cache : SkiTree) (upper : UInt16) (create : Bool) :
    getCacheNode cache.lists upper create =
      match cache.find upper with
      | some _ => (cache.lists, some (cache.place upper))
      | none =>
        if create then
          (SkiTree.lists (cache.insert toNat16_injective upper fun _ => SortedMap.empty),
            some (cache.place upper))
        else (cache.lists, none) := by
  have hsearched := searched_items nodeRank_element toNat16_injective cache upper
    (fun _ => SortedMap.empty) create
  rw [getCacheNode_eq]
  unfold SkiTree.lists
  rw [show createCacheNode upper = nodeElement (upper, fun _ => SortedMap.empty) from rfl, hsearched]
  cases cache.find upper with
  | none => rfl
  | some node => rfl

/-! ## The data of a key -/

theorem asnOf_halves (asn : UInt32) : asnOf (upperOf asn) (as2Of asn) = asn := by
  apply UInt32.toNat_inj.mp
  unfold asnOf upperOf as2Of
  rw [UInt32.toNat_toUInt16, UInt32.toNat_toUInt16, UInt32.toNat_shiftRight, UInt32.toNat_and,
    show (0xFFFF : UInt32).toNat = 2 ^ 16 - 1 from rfl, Nat.and_two_pow_sub_one_eq_mod]
  change (UInt32.ofNat (asn.toNat >>> 16 % 2 ^ 16 * 65536 + asn.toNat % 2 ^ 16 % 2 ^ 16)).toNat = _
  have hasn := asn.toNat_lt
  rw [Nat.shiftRight_eq_div_pow, UInt32.toNat_ofNat']
  omega

/-- The node of an AS, or the one that is made for it. -/
def nodeOf (cache : SkiTree) (asn : UInt32) : UInt16 → AlgoList :=
  (cache.find (upperOf asn)).getD fun _ => SortedMap.empty

theorem algos_eq (cache : SkiTree) (asn : UInt32) : cache.algos asn = nodeOf cache asn (as2Of asn) := by
  unfold SkiTree.algos nodeOf
  cases cache.find (upperOf asn) with
  | none => rfl
  | some node => rfl

/-- The tree with a node for the AS. -/
def withNode (cache : SkiTree) (asn : UInt32) : SkiTree :=
  cache.insert toNat16_injective (upperOf asn) (nodeOf cache asn)

theorem withNode_of_find {asn : UInt32} {node : UInt16 → AlgoList}
    (h : cache.find (upperOf asn) = some node) : withNode cache asn = cache := by
  unfold withNode nodeOf
  rw [h]
  exact insert_self toNat16_injective h

theorem find_withNode (cache : SkiTree) (asn : UInt32) :
    (withNode cache asn).find (upperOf asn) = some (nodeOf cache asn) := by
  unfold withNode
  rw [SortedMap.find_insert, if_pos rfl]

theorem nodeElement_as2 (asn : UInt32) (node : UInt16 → AlgoList) :
    (nodeElement (upperOf asn, node)).as2 (as2Of asn) = AlgoList.list (node (as2Of asn)) asn := by
  show AlgoList.list _ (asnOf (upperOf asn) (as2Of asn)) = _
  rw [asnOf_halves]

theorem get_withNode (cache : SkiTree) (asn : UInt32) :
    (withNode cache asn).lists[cache.place (upperOf asn)]? =
      some (nodeElement (upperOf asn, nodeOf cache asn)) := by
  have hget := getElem?_items (g := nodeElement) toNat16_injective (find_withNode cache asn)
  unfold withNode at hget
  rwa [SortedMap.place_insert] at hget

/-- Other algorithms for an AS whose node is there. -/
theorem putAlgos_withNode (cache : SkiTree) (asn : UInt32) (algos : AlgoList) :
    putAlgos (withNode cache asn).lists (cache.place (upperOf asn))
        (nodeElement (upperOf asn, nodeOf cache asn)) (as2Of asn) (AlgoList.list algos asn) =
      (cache.setAlgos asn algos).lists := by
  have helement : ({ nodeElement (upperOf asn, nodeOf cache asn) with
      as2 := Function.update (nodeElement (upperOf asn, nodeOf cache asn)).as2 (as2Of asn)
        (AlgoList.list algos asn) } : CacheNode) =
      nodeElement (upperOf asn, Function.update (nodeOf cache asn) (as2Of asn) algos) := by
    refine congrArg (CacheNode.mk (upperOf asn)) (funext fun as2 => ?_)
    dsimp only
    by_cases has2 : as2 = as2Of asn
    · subst has2
      rw [Function.update_self, Function.update_self, asnOf_halves]
    · rw [Function.update_of_ne has2, Function.update_of_ne has2]
      rfl
  have hset := set_items (g := nodeElement) toNat16_injective (find_withNode cache asn)
    (Function.update (nodeOf cache asn) (as2Of asn) algos)
  unfold putAlgos
  rw [helement]
  unfold withNode at hset ⊢
  rw [SortedMap.place_insert, SortedMap.insert_insert] at hset
  exact hset

theorem setAlgos_self (cache : SkiTree) (asn : UInt32) :
    cache.setAlgos asn (cache.algos asn) = withNode cache asn := by
  rw [algos_eq]
  exact congrArg (cache.insert toNat16_injective (upperOf asn))
    (Function.update_eq_self (as2Of asn) (nodeOf cache asn))

/-- The places of a key. -/
def helperOf (cache : SkiTree) (key : SkiKey) : TmpHelper :=
  ⟨cache.place (upperOf key.asn), (cache.algos key.asn).place key.algoID,
    (dataOfAlgo cache key).place key.ski⟩

theorem getCacheNode_create (cache : SkiTree) (asn : UInt32) :
    getCacheNode cache.lists (upperOf asn) true =
      ((withNode cache asn).lists, some (cache.place (upperOf asn))) := by
  rw [getCacheNode_list]
  cases hfind : cache.find (upperOf asn) with
  | some node => rw [withNode_of_find hfind]
  | none =>
    unfold withNode nodeOf
    rw [hfind]
    rfl

/-- The algorithms of an AS with one for the key. -/
def withAlgo (cache : SkiTree) (key : SkiKey) : AlgoList :=
  (cache.algos key.asn).insert toNat8_injective key.algoID (dataOfAlgo cache key)

theorem find_withAlgo (cache : SkiTree) (key : SkiKey) :
    (withAlgo cache key).find key.algoID = some (dataOfAlgo cache key) := by
  unfold withAlgo
  rw [SortedMap.find_insert, if_pos rfl]

theorem withAlgo_of_find {data : DataList} (h : (cache.algos key.asn).find key.algoID = some data) :
    withAlgo cache key = cache.algos key.asn := by
  unfold withAlgo dataOfAlgo
  rw [h]
  exact insert_self toNat8_injective h

theorem getCacheAlgoID_create (cache : SkiTree) (key : SkiKey) :
    getCacheAlgoID (AlgoList.list (cache.algos key.asn) key.asn) key.algoID true =
      if cache.BeforeFirst key.asn key.algoID then none
      else some (AlgoList.list (withAlgo cache key) key.asn,
        some ((cache.algos key.asn).place key.algoID)) := by
  rw [getCacheAlgoID_list]
  cases hfind : (cache.algos key.asn).find key.algoID with
  | some data =>
    have hnot : ¬ cache.BeforeFirst key.asn key.algoID := by
      rintro ⟨first, hfirst, hlt⟩
      exact absurd (UInt8.lt_iff_toNat_lt.mp hlt)
        (Nat.not_lt.mpr (SortedMap.first_le_of_find hfind hfirst))
    dsimp only
    rw [if_neg hnot, withAlgo_of_find hfind]
  | none =>
    unfold withAlgo dataOfAlgo
    rw [hfind]
    rfl

theorem get_withAlgo (cache : SkiTree) (key : SkiKey) :
    (AlgoList.list (withAlgo cache key) key.asn)[(cache.algos key.asn).place key.algoID]? =
      some (algoElement key.asn (key.algoID, dataOfAlgo cache key)) := by
  have hget := getElem?_items (g := algoElement key.asn) toNat8_injective (find_withAlgo cache key)
  unfold withAlgo at hget
  rwa [SortedMap.place_insert] at hget

/-- The algorithms of an AS with other data for that of the key. -/
def putData (cache : SkiTree) (key : SkiKey) (data : DataList) : SkiTree :=
  cache.setAlgos key.asn ((cache.algos key.asn).insert toNat8_injective key.algoID data)

/-- An algorithm that is found has its node. -/
theorem withNode_of_algo {data : DataList} (h : (cache.algos key.asn).find key.algoID = some data) :
    withNode cache key.asn = cache := by
  cases hnode : cache.find (upperOf key.asn) with
  | some node => exact withNode_of_find hnode
  | none =>
    unfold SkiTree.algos at h
    rw [hnode] at h
    cases h

/-- Other data for an algorithm that is there. -/
theorem set_withAlgo (cache : SkiTree) (key : SkiKey) (data : DataList) :
    (AlgoList.list (withAlgo cache key) key.asn).set ((cache.algos key.asn).place key.algoID)
        { algoElement key.asn (key.algoID, dataOfAlgo cache key) with
          cacheData := DataList.list data key.asn key.algoID } =
      AlgoList.list ((cache.algos key.asn).insert toNat8_injective key.algoID data) key.asn := by
  have hset := set_items (g := algoElement key.asn) toNat8_injective (find_withAlgo cache key) data
  unfold withAlgo at hset ⊢
  rw [SortedMap.place_insert, SortedMap.insert_insert] at hset
  exact hset

theorem searchCacheData_create (h : Sized cache) (hkey : key.ski.length = 20) :
    searchCacheData (DataList.list (dataOfAlgo cache key) key.asn key.algoID) key true =
      (DataList.list ((dataOfAlgo cache key).insert bytesRank_injective key.ski
        ((cache.getData key).getD newSkiData)) key.asn key.algoID,
        some ((dataOfAlgo cache key).place key.ski)) := by
  rw [searchCacheData_list h hkey]
  cases hdata : cache.getData key with
  | some cData =>
    have hfind := (find_dataOfAlgo cache key).trans hdata
    rw [Option.getD_some, insert_self bytesRank_injective hfind]
  | none => rfl

/-- The search with `create` makes the data, where the algorithm has its place. -/
theorem getCacheData_create (h : Sized cache) (hkey : key.ski.length = 20) :
    getCacheData cache.lists key true =
      (cache.setData key ((cache.getData key).getD newSkiData)).map fun cache' =>
        (cache'.lists, some (helperOf cache key)) := by
  unfold getCacheData
  rw [getCacheNode_create]
  dsimp only
  rw [get_withNode]
  simp only [Option.bind_eq_bind, Option.bind_some]
  rw [nodeElement_as2, ← algos_eq, getCacheAlgoID_create]
  unfold SkiTree.setData
  split
  · rfl
  · simp only [Option.bind_some]
    rw [get_withAlgo]
    simp only [Option.bind_some]
    rw [show (algoElement key.asn (key.algoID, dataOfAlgo cache key)).cacheData =
      DataList.list (dataOfAlgo cache key) key.asn key.algoID from rfl,
      searchCacheData_create h hkey]
    dsimp only
    rw [set_withAlgo, putAlgos_withNode]
    rfl

/-- The search without `create`. -/
theorem getCacheData_find (h : Sized cache) (hkey : key.ski.length = 20) :
    getCacheData cache.lists key false =
      some (cache.lists, (cache.getData key).map fun _ => helperOf cache key) := by
  unfold getCacheData
  rw [getCacheNode_list]
  cases hnode : cache.find (upperOf key.asn) with
  | none =>
    have hdata : cache.getData key = none := by
      unfold SkiTree.getData SkiTree.algos
      rw [hnode]
      rfl
    rw [hdata]
    rfl
  | some node =>
    have hwith := withNode_of_find hnode
    have hget := get_withNode cache key.asn
    rw [hwith] at hget
    dsimp only
    rw [hget]
    simp only [Option.bind_eq_bind, Option.bind_some]
    rw [nodeElement_as2, ← algos_eq, getCacheAlgoID_list]
    cases halgo : (cache.algos key.asn).find key.algoID with
    | none =>
      have hdata : cache.getData key = none := by
        unfold SkiTree.getData
        rw [halgo]
        rfl
      rw [hdata]
      rfl
    | some data =>
      have halgos := withAlgo_of_find halgo
      have hget := get_withAlgo cache key
      have hset := set_withAlgo cache key (dataOfAlgo cache key)
      have hput := putAlgos_withNode cache key.asn (cache.algos key.asn)
      rw [setAlgos_self, hwith] at hput
      rw [halgos] at hget hset
      simp only [Option.bind_some]
      rw [hget]
      simp only [Option.bind_some]
      rw [show (algoElement key.asn (key.algoID, dataOfAlgo cache key)).cacheData =
        DataList.list (dataOfAlgo cache key) key.asn key.algoID from rfl,
        searchCacheData_list h hkey]
      have hsame : (cache.algos key.asn).insert toNat8_injective key.algoID (dataOfAlgo cache key) =
          cache.algos key.asn := halgos
      rw [hsame] at hset
      cases hdata : cache.getData key with
      | none =>
        simp only [Bool.false_eq_true, if_false]
        rw [hset, hput]
        rfl
      | some cData =>
        dsimp only
        rw [hset, hput]
        rfl

/-! ## Changes at the places of a key -/

theorem algos_putData (cache : SkiTree) (key : SkiKey) (data : DataList) :
    (putData cache key data).algos key.asn =
      (cache.algos key.asn).insert toNat8_injective key.algoID data := by
  unfold putData
  rw [algos_setAlgos, if_pos rfl]

theorem dataOfAlgo_putData (cache : SkiTree) (key : SkiKey) (data : DataList) :
    dataOfAlgo (putData cache key data) key = data := by
  unfold dataOfAlgo
  rw [algos_putData, SortedMap.find_insert, if_pos rfl, Option.getD_some]

theorem nodeOf_setAlgos (cache : SkiTree) (asn : UInt32) (algos : AlgoList) :
    nodeOf (cache.setAlgos asn algos) asn = Function.update (nodeOf cache asn) (as2Of asn) algos := by
  unfold nodeOf SkiTree.setAlgos
  rw [SortedMap.find_insert, if_pos rfl, Option.getD_some]

theorem setAlgos_setAlgos (cache : SkiTree) (asn : UInt32) (algos algos' : AlgoList) :
    (cache.setAlgos asn algos).setAlgos asn algos' = cache.setAlgos asn algos' := by
  show SortedMap.insert toNat16_injective (cache.setAlgos asn algos) (upperOf asn)
    (Function.update (nodeOf (cache.setAlgos asn algos) asn) (as2Of asn) algos') = _
  rw [nodeOf_setAlgos, Function.update_idem]
  exact SortedMap.insert_insert toNat16_injective cache (upperOf asn) _ _

theorem putData_putData (cache : SkiTree) (key : SkiKey) (data data' : DataList) :
    putData (putData cache key data) key data' = putData cache key data' := by
  show (putData cache key data).setAlgos key.asn
    (SortedMap.insert toNat8_injective ((putData cache key data).algos key.asn) key.algoID data') = _
  rw [algos_putData, SortedMap.insert_insert]
  exact setAlgos_setAlgos cache key.asn _ _

/-- The data of a key, written at its place. -/
def putDatum (cache : SkiTree) (key : SkiKey) (cData : SkiData) : SkiTree :=
  putData cache key ((dataOfAlgo cache key).insert bytesRank_injective key.ski cData)

theorem setData_eq (h : ¬ cache.BeforeFirst key.asn key.algoID) (cData : SkiData) :
    cache.setData key cData = some (putDatum cache key cData) := if_neg h

theorem helperOf_putDatum (cache : SkiTree) (key : SkiKey) (cData : SkiData) :
    helperOf (putDatum cache key cData) key = helperOf cache key := by
  unfold helperOf
  rw [show dataOfAlgo (putDatum cache key cData) key = _ from dataOfAlgo_putData cache key _,
    show (putDatum cache key cData).algos key.asn = _ from algos_putData cache key _,
    SortedMap.place_insert, SortedMap.place_insert]
  refine congrArg (TmpHelper.mk · _ _) ?_
  exact SortedMap.place_insert toNat16_injective cache (upperOf key.asn) _

theorem putDatum_putDatum (cache : SkiTree) (key : SkiKey) (cData cData' : SkiData) :
    putDatum (putDatum cache key cData) key cData' = putDatum cache key cData' := by
  show putData (putDatum cache key cData) key (SortedMap.insert bytesRank_injective
    (dataOfAlgo (putDatum cache key cData) key) key.ski cData') = _
  rw [show dataOfAlgo (putDatum cache key cData) key = _ from dataOfAlgo_putData cache key _,
    SortedMap.insert_insert]
  exact putData_putData cache key _ _

theorem getData_putDatum (cache : SkiTree) (key : SkiKey) (cData : SkiData) :
    (putDatum cache key cData).getData key = some cData := by
  rw [← find_dataOfAlgo, show dataOfAlgo (putDatum cache key cData) key = _ from
    dataOfAlgo_putData cache key _, SortedMap.find_insert, if_pos rfl]

/-- The change of the data of a key that is found. -/
theorem withData_list (h : cache.getData key = some cData)
    {change : List CacheData → Option (List CacheData)} {Y : Option DataList}
    (hchange : change (DataList.list (dataOfAlgo cache key) key.asn key.algoID) =
      Y.map fun data => DataList.list data key.asn key.algoID) :
    withData cache.lists (as2Of key.asn) (helperOf cache key) change =
      Y.map fun data => (putData cache key data).lists := by
  obtain ⟨data, halgo, -⟩ := Option.bind_eq_some_iff.mp h
  have hwith := withNode_of_algo halgo
  have halgos := withAlgo_of_find halgo
  have hnodeGet := get_withNode cache key.asn
  have halgoGet := get_withAlgo cache key
  rw [hwith] at hnodeGet
  rw [halgos] at halgoGet
  unfold withData helperOf
  dsimp only
  rw [hnodeGet]
  simp only [Option.bind_eq_bind, Option.bind_some]
  rw [nodeElement_as2, ← algos_eq, halgoGet]
  simp only [Option.bind_some]
  rw [show (algoElement key.asn (key.algoID, dataOfAlgo cache key)).cacheData =
    DataList.list (dataOfAlgo cache key) key.asn key.algoID from rfl, hchange]
  cases Y with
  | none => rfl
  | some data' =>
    have hset := set_withAlgo cache key data'
    have hput := putAlgos_withNode cache key.asn
      ((cache.algos key.asn).insert toNat8_injective key.algoID data')
    rw [halgos] at hset
    rw [hwith] at hput
    simp only [Option.map_some, Option.bind_some]
    rw [hset, hput]
    rfl

/-- The element of the data of a key. -/
theorem get_data (h : cache.getData key = some cData) :
    (DataList.list (dataOfAlgo cache key) key.asn key.algoID)[(helperOf cache key).cData]? =
      some (dataElement key.asn key.algoID (key.ski, cData)) :=
  getElem?_items bytesRank_injective ((find_dataOfAlgo cache key).trans h)

theorem set_data (h : cache.getData key = some cData) (cData' : SkiData) :
    (DataList.list (dataOfAlgo cache key) key.asn key.algoID).set (helperOf cache key).cData
        (dataElement key.asn key.algoID (key.ski, cData')) =
      DataList.list ((dataOfAlgo cache key).insert bytesRank_injective key.ski cData') key.asn
        key.algoID :=
  set_items bytesRank_injective ((find_dataOfAlgo cache key).trans h) cData'

theorem erase_data (h : cache.getData key = some cData) :
    (DataList.list (dataOfAlgo cache key) key.asn key.algoID).eraseIdx (helperOf cache key).cData =
      DataList.list ((dataOfAlgo cache key).erase key.ski) key.asn key.algoID := by
  have hfind := (find_dataOfAlgo cache key).trans h
  unfold DataList.list
  rw [SortedMap.items_erase bytesRank_injective hfind]
  exact List.eraseIdx_map _ _ _

/-- A registration on the lists is that on the tree. -/
theorem addUID_tree (hzero : cData.cacheUID.find 0 = none) (updateID : UInt32) :
    addUID (UidList.list cData.cacheUID) updateID =
      (addUpdateCacheUID cData updateID).map fun cData => UidList.list cData.cacheUID := by
  unfold addUpdateCacheUID
  split
  · next hid =>
    subst hid
    have hne : ∀ cUID ∈ UidList.list cData.cacheUID, cUID.updateID ≠ 0 := by
      intro cUID hmem hid
      obtain ⟨e, he, rfl⟩ := List.mem_map.mp hmem
      have hkey : (0 : UInt32) ∈ SortedMap.keys cData.cacheUID := by
        rw [← hid]
        exact List.mem_map_of_mem he
      rw [SortedMap.mem_keys, hzero] at hkey
      cases hkey
    rw [addUID_zero _ hne]
    split
    · next hnil =>
      rw [if_pos (list_eq_nil.mp hnil), Option.map_some, hnil]
    · next hnil =>
      rw [if_neg fun h => hnil (list_eq_nil.mpr h)]
      rfl
  · next hid =>
    rw [addUID_list _ hid]
    cases cData.cacheUID.find updateID with
    | none => rfl
    | some counter => rfl

theorem counter_addUpdateCacheUID {cData' : SkiData}
    (h : addUpdateCacheUID cData updateID = some cData') : cData'.counter = cData.counter := by
  unfold addUpdateCacheUID at h
  split at h
  · split at h
    · obtain rfl := Option.some.inj h
      rfl
    · cases h
  · obtain rfl := Option.some.inj h
    rfl

/-! ## The functions -/

/-- No update has the identifier zero. -/
def NoZero (cache : SkiTree) : Prop :=
  ∀ key cData, cache.getData key = some cData → cData.cacheUID.find 0 = none

theorem registerTurnLists_eq (h : Sized cache) (hzero : NoZero cache) (hkey : key.ski.length = 20)
    (updateID : UInt32) :
    registerTurnLists updateID cache.lists key = (registerTurn updateID cache key).map SkiTree.lists := by
  unfold registerTurnLists registerTurn
  rw [getCacheData_create h hkey]
  by_cases hfirst : cache.BeforeFirst key.asn key.algoID
  · have hnone : ∀ cData, cache.setData key cData = none := fun cData => if_pos hfirst
    rw [hnone]
    cases addUpdateCacheUID ((cache.getData key).getD newSkiData) updateID with
    | none => rfl
    | some cData => exact (congrArg (Option.map SkiTree.lists) (hnone cData)).symm
  · rw [setData_eq hfirst]
    generalize hcData : (cache.getData key).getD newSkiData = cData
    have hnoZero : cData.cacheUID.find 0 = none := by
      cases hdata : cache.getData key with
      | none =>
        rw [hdata] at hcData
        obtain rfl := hcData
        rfl
      | some cData' =>
        rw [hdata] at hcData
        obtain rfl := hcData
        exact hzero key _ hdata
    have hfound := getData_putDatum cache key cData
    simp only [Option.map_some, Option.bind_eq_bind, Option.bind_some]
    rw [← helperOf_putDatum cache key cData, withData_list hfound
      (Y := (addUpdateCacheUID cData updateID).map fun cData' =>
        (dataOfAlgo (putDatum cache key cData) key).insert bytesRank_injective key.ski cData')]
    · cases addUpdateCacheUID cData updateID with
      | none => rfl
      | some cData' =>
        rw [Option.map_some, Option.map_some, Option.bind_some, setData_eq hfirst]
        exact congrArg (fun cache' => some (SkiTree.lists cache')) (putDatum_putDatum cache key cData cData')
    · rw [get_data hfound, Option.bind_some]
      show (addUID (UidList.list cData.cacheUID) updateID).bind _ = _
      rw [addUID_tree hnoZero]
      cases hadd : addUpdateCacheUID cData updateID with
      | none => rfl
      | some cData' =>
        rw [Option.map_some, Option.bind_some, Option.map_some, Option.map_some, ← set_data hfound]
        unfold dataElement
        rw [counter_addUpdateCacheUID hadd]

theorem registerKeyLists_eq (h : Sized cache) (hkey : key.ski.length = 20) :
    registerKeyLists cache.lists key =
      (registerKeyTree cache key).map fun result => result.1.lists := by
  unfold registerKeyLists registerKeyTree
  rw [getCacheData_create h hkey]
  by_cases hfirst : cache.BeforeFirst key.asn key.algoID
  · have hnone : ∀ cData, cache.setData key cData = none := fun cData => if_pos hfirst
    rw [hnone]
    dsimp only
    rw [hnone]
    rfl
  · dsimp only
    rw [setData_eq hfirst, setData_eq hfirst]
    generalize (cache.getData key).getD newSkiData = cData
    have hfound := getData_putDatum cache key cData
    simp only [Option.map_some, Option.bind_eq_bind, Option.bind_some]
    rw [← helperOf_putDatum cache key cData, withData_list hfound
      (Y := some ((dataOfAlgo (putDatum cache key cData) key).insert bytesRank_injective key.ski
        { cData with counter := cData.counter + 1 }))]
    · exact congrArg (fun cache' => some (SkiTree.lists cache')) (putDatum_putDatum cache key cData _)
    · rw [get_data hfound, Option.bind_some, Option.map_some, ← set_data hfound]
      rfl

theorem unregisterTurnLists_eq (h : Sized cache) (hkey : key.ski.length = 20) (updateID : UInt32) :
    unregisterTurnLists updateID cache.lists key =
      (unregisterTurn updateID cache key).map SkiTree.lists := by
  unfold unregisterTurnLists unregisterTurn
  rw [getCacheData_find h hkey]
  cases hdata : cache.getData key with
  | none => rfl
  | some cData =>
    simp only [Option.map_some, Option.bind_eq_bind, Option.bind_some]
    rw [setData_eq (not_beforeFirst_of_getData hdata)]
    have hlist := removeUIDList_list cData.cacheUID updateID
    have hget := get_data hdata
    by_cases hlast : (removeUID cData.cacheUID updateID).items = [] ∧ cData.counter = 0
    · rw [if_pos hlast, withData_list hdata (Y := some ((dataOfAlgo cache key).erase key.ski))]
      · rfl
      · rw [hget, Option.bind_some, Option.map_some, ← erase_data hdata]
        show some (if removeUIDList (UidList.list cData.cacheUID) updateID = [] ∧ cData.counter = 0
          then _ else _) = _
        rw [hlist, if_pos ⟨list_eq_nil.mpr hlast.1, hlast.2⟩]
    · rw [if_neg hlast, withData_list hdata (Y := some ((dataOfAlgo cache key).insert
        bytesRank_injective key.ski { cData with cacheUID := removeUID cData.cacheUID updateID }))]
      · rfl
      · rw [hget, Option.bind_some, Option.map_some, ← set_data hdata]
        show some (if removeUIDList (UidList.list cData.cacheUID) updateID = [] ∧ cData.counter = 0
          then _ else _) = _
        rw [hlist, if_neg fun h => hlast ⟨list_eq_nil.mp h.1, h.2⟩]
        refine congrArg (fun e => some (List.set _ _ e)) ?_
        show (CacheData.mk _ _ _ _ (removeUIDList (UidList.list cData.cacheUID) updateID)) = _
        rw [hlist]
        rfl

theorem unregisterKeyLists_eq (h : Sized cache) (hkey : key.ski.length = 20) :
    unregisterKeyLists cache.lists key =
      (unregisterKeyTree cache key).map fun result => result.1.lists := by
  unfold unregisterKeyLists unregisterKeyTree
  rw [getCacheData_find h hkey]
  cases hdata : cache.getData key with
  | none => rfl
  | some cData =>
    simp only [Option.map_some, Option.bind_eq_bind, Option.bind_some]
    rw [setData_eq (not_beforeFirst_of_getData hdata)]
    have hget := get_data hdata
    by_cases hcounter : 0 < cData.counter
    · rw [if_pos hcounter]
      by_cases huids : cData.cacheUID.items = []
      · rw [if_pos huids, withData_list hdata (Y := some ((dataOfAlgo cache key).erase key.ski))]
        · rfl
        · rw [hget, Option.bind_some, Option.map_some, ← erase_data hdata]
          show some (if 0 < cData.counter then if UidList.list cData.cacheUID = [] then _ else _
            else _) = _
          rw [if_pos hcounter, if_pos (list_eq_nil.mpr huids)]
      · rw [if_neg huids, withData_list hdata (Y := some ((dataOfAlgo cache key).insert
          bytesRank_injective key.ski { cData with counter := cData.counter - 1 }))]
        · rfl
        · rw [hget, Option.bind_some, Option.map_some, ← set_data hdata]
          show some (if 0 < cData.counter then if UidList.list cData.cacheUID = [] then _ else _
            else _) = _
          rw [if_pos hcounter, if_neg fun h => huids (list_eq_nil.mp h)]
          rfl
    · have hself : putData cache key (dataOfAlgo cache key) = cache := by
        obtain ⟨data, halgo, -⟩ := Option.bind_eq_some_iff.mp hdata
        have halgos := withAlgo_of_find halgo
        unfold withAlgo at halgos
        unfold putData
        rw [halgos, setAlgos_self, withNode_of_algo halgo]
      rw [if_neg hcounter, withData_list hdata (Y := some (dataOfAlgo cache key))]
      · rw [Option.map_some, hself]
        rfl
      · rw [hget, Option.bind_some, Option.map_some]
        show some (if 0 < cData.counter then if UidList.list cData.cacheUID = [] then _ else _
          else _) = _
        rw [if_neg hcounter]

end SkiRefineLemmas

end SrxSuite.Server

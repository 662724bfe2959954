import SrxSuite.Lib.SortedWalk
import SrxSuite.Server.SkiCache

/-!
# The lists of the SKI cache

The four nested lists of `server/ski_cache.c` with the loops that search them and insert into them. A
list is that of the elements that are reached through `next`, `prev` is the place of an element, or
NULL. `SkiTree.lists` gives the lists of a `SkiTree`.

Result: every loop stops at the place of its key (`SortedWalk`), but for two things that are not
defined in C: an algorithm in front of the first one, where `prev` was not set, and the update
identifier zero, for which no element is made.
-/

namespace SrxSuite.Server

open Bytes

/-! ## The elements -/

/-- `_SKI_CACHE_UPDATEID` -/
structure CacheUpdateID where
  updateID : UInt32
  counter : UInt16
  deriving DecidableEq, Repr

/-- `_SKI_CACHE_DATA` -/
structure CacheData where
  counter : UInt8
  asn : UInt32
  ski : Bytes
  algoID : UInt8
  cacheUID : List CacheUpdateID
  deriving DecidableEq, Repr

/-- `_SKI_CACHE_ALGO_ID` -/
structure CacheAlgoID where
  algoID : UInt8
  cacheData : List CacheData
  deriving DecidableEq, Repr

/-- `_SKI_CACHE_NODE` -/
structure CacheNode where
  upper : UInt16
  as2 : UInt16 → List CacheAlgoID

/-- `___ski_createCacheUID` -/
def createCacheUID (updateID : UInt32) : Option CacheUpdateID :=
  if updateID = 0 then none else some ⟨updateID, 1⟩

/-- `___ski_createCacheAlgoID` -/
def createCacheAlgoID (algoID : UInt8) : CacheAlgoID := ⟨algoID, []⟩

/-- `___ski_createCacheData`, without an update. -/
def createCacheData (key : SkiKey) : CacheData := ⟨0, key.asn, key.ski, key.algoID, []⟩

/-- `___ski_createCacheNode` -/
def createCacheNode (upper : UInt16) : CacheNode := ⟨upper, fun _ => []⟩

/-! ## The loops -/

/-- A new element behind `prev`, or as the first one. -/
def insertBehind {α : Type} (new : α) (prev : Option Nat) (l : List α) : List α × Option Nat :=
  match prev with
  | some prev => (l.insertIdx (prev + 1) new, some (prev + 1))
  | none => (new :: l, some 0)

/-- The loop of `__ski_getCacheNode`: the list, and the place of the node. -/
def cacheNodeLoop (upper : UInt16) (create : Bool) (nodes : List CacheNode) :
    (prev : Option Nat) → (idx : Nat) → List CacheNode → List CacheNode × Option Nat
  | _, _, [] => (nodes, none)
  | prev, idx, cNode :: next =>
    if upper < cNode.upper then
      if create then insertBehind (createCacheNode upper) prev nodes else (nodes, none)
    else if upper = cNode.upper then (nodes, some idx)
    else if next.isEmpty && create then (nodes ++ [createCacheNode upper], some (idx + 1))
    else cacheNodeLoop upper create nodes (some idx) (idx + 1) next

/-- `__ski_getCacheNode` -/
def getCacheNode (nodes : List CacheNode) (upper : UInt16) (create : Bool) :
    List CacheNode × Option Nat :=
  if nodes.isEmpty && create then ([createCacheNode upper], some 0)
  else cacheNodeLoop upper create nodes none 0 nodes

/-- The loop of `__ski_getCacheAlgoID`. `prev` is `none` as long as the variable was not set. -/
def cacheAlgoIDLoop (algoID : UInt8) (create : Bool) (algos : List CacheAlgoID) :
    (prev : Option Nat) → (idx : Nat) → List CacheAlgoID → Option (List CacheAlgoID × Option Nat)
  | _, _, [] => some (algos, none)
  | prev, idx, cAlgoID :: next =>
    if cAlgoID.algoID = algoID then some (algos, some idx)
    else if algoID < cAlgoID.algoID then
      if create then prev.map fun prev => insertBehind (createCacheAlgoID algoID) (some prev) algos
      else some (algos, none)
    else if next.isEmpty then
      if create then some (algos ++ [createCacheAlgoID algoID], some (idx + 1))
      else some (algos, none)
    else cacheAlgoIDLoop algoID create algos (some idx) (idx + 1) next

/-- `__ski_getCacheAlgoID` on the list of `as2`. -/
def getCacheAlgoID (algos : List CacheAlgoID) (algoID : UInt8) (create : Bool) :
    Option (List CacheAlgoID × Option Nat) :=
  if algos.isEmpty && create then some ([createCacheAlgoID algoID], some 0)
  else cacheAlgoIDLoop algoID create algos none 0 algos

/-- `memcmp` of memory of one size. -/
def memcmpOrder : Bytes → Bytes → Ordering
  | a :: as, b :: bs => if a < b then .lt else if b < a then .gt else memcmpOrder as bs
  | _, _ => .eq

/-- The loop of `_ski_getCacheData`. -/
def cacheDataLoop (key : SkiKey) (create : Bool) (data : List CacheData) :
    (prev : Option Nat) → (idx : Nat) → List CacheData → List CacheData × Option Nat
  | _, _, [] => (data, none)
  | prev, idx, cData :: next =>
    match memcmpOrder key.ski cData.ski with
    | .lt => if create then insertBehind (createCacheData key) prev data else (data, none)
    | .eq => (data, some idx)
    | .gt =>
      if next.isEmpty && create then (data ++ [createCacheData key], some (idx + 1))
      else cacheDataLoop key create data (some idx) (idx + 1) next

/-- The search of `_ski_getCacheData` in the data of one algorithm. -/
def searchCacheData (data : List CacheData) (key : SkiKey) (create : Bool) :
    List CacheData × Option Nat :=
  if data.isEmpty && create then ([createCacheData key], some 0)
  else cacheDataLoop key create data none 0 data

/-- The loop of `__ski_addUpdateCacheUID`. It uses what `___ski_createCacheUID` gives in front of
another element, and may append NULL. -/
def addUIDLoop (updateID : UInt32) (uids : List CacheUpdateID) :
    (prev : Option Nat) → (idx : Nat) → List CacheUpdateID → Option (List CacheUpdateID)
  | _, _, [] => none
  | prev, idx, cUID :: next =>
    match memcmpOrder (le32 updateID) (le32 cUID.updateID) with
    | .lt => (createCacheUID updateID).map fun new => (insertBehind new prev uids).1
    | .gt =>
      if next.isEmpty then some (uids ++ (createCacheUID updateID).toList)
      else addUIDLoop updateID uids (some idx) (idx + 1) next
    | .eq => some (uids.set idx { cUID with counter := cUID.counter + 1 })

/-- `__ski_addUpdateCacheUID` -/
def addUID (uids : List CacheUpdateID) (updateID : UInt32) : Option (List CacheUpdateID) :=
  if uids.isEmpty then some (createCacheUID updateID).toList
  else addUIDLoop updateID uids none 0 uids

/-- The search of `ski_unregisterUpdate` for the update. -/
def findUIDLoop (updateID : UInt32) : (idx : Nat) → List CacheUpdateID → Option Nat
  | _, [] => none
  | idx, cUID :: next =>
    match memcmpOrder (le32 updateID) (le32 cUID.updateID) with
    | .gt => findUIDLoop updateID (idx + 1) next
    | .lt => none
    | .eq => some idx

/-- The updates of `ski_unregisterUpdate` without one registration. -/
def removeUIDList (uids : List CacheUpdateID) (updateID : UInt32) : List CacheUpdateID :=
  match findUIDLoop updateID 0 uids with
  | none => uids
  | some idx =>
    match uids[idx]? with
    | none => uids
    | some cUID =>
      if cUID.counter - 1 = 0 then uids.eraseIdx idx
      else uids.set idx { cUID with counter := cUID.counter - 1 }

/-! ## The cache -/

/-- `_SKI_TMP_HELPER`: the places of the node, the algorithm and the data. -/
structure TmpHelper where
  cNode : Nat
  cAlgoID : Nat
  cData : Nat
  deriving DecidableEq, Repr

/-- The cache with other algorithms for an AS. -/
def putAlgos (nodes : List CacheNode) (cNode : Nat) (node : CacheNode) (as2 : UInt16)
    (algos : List CacheAlgoID) : List CacheNode :=
  nodes.set cNode { node with as2 := Function.update node.as2 as2 algos }

/-- `_ski_getCacheData`: the cache, and the helper when the data are found. -/
def getCacheData (nodes : List CacheNode) (key : SkiKey) (create : Bool) :
    Option (List CacheNode × Option TmpHelper) :=
  match getCacheNode nodes (upperOf key.asn) create with
  | (nodes, none) => some (nodes, none)
  | (nodes, some cNode) => do
    let node ← nodes[cNode]?
    match ← getCacheAlgoID (node.as2 (as2Of key.asn)) key.algoID create with
    | (_, none) => some (nodes, none)
    | (algos, some cAlgoID) =>
      let algo ← algos[cAlgoID]?
      let (data, cData) := searchCacheData algo.cacheData key create
      some (putAlgos nodes cNode node (as2Of key.asn)
          (algos.set cAlgoID { algo with cacheData := data }),
        cData.map fun cData => ⟨cNode, cAlgoID, cData⟩)

/-- A change of the data list of a helper. -/
def withData (nodes : List CacheNode) (as2 : UInt16) (tHlp : TmpHelper)
    (change : List CacheData → Option (List CacheData)) : Option (List CacheNode) := do
  let node ← nodes[tHlp.cNode]?
  let algo ← (node.as2 as2)[tHlp.cAlgoID]?
  let data ← change algo.cacheData
  some (putAlgos nodes tHlp.cNode node as2
    ((node.as2 as2).set tHlp.cAlgoID { algo with cacheData := data }))

/-- One turn of `ski_registerUpdate`. -/
def registerTurnLists (updateID : UInt32) (nodes : List CacheNode) (key : SkiKey) :
    Option (List CacheNode) := do
  let (nodes, tHlp) ← getCacheData nodes key true
  let tHlp ← tHlp
  withData nodes (as2Of key.asn) tHlp fun data => do
    let cData ← data[tHlp.cData]?
    let cacheUID ← addUID cData.cacheUID updateID
    some (data.set tHlp.cData { cData with cacheUID := cacheUID })

/-- One turn of `ski_unregisterUpdate`. -/
def unregisterTurnLists (updateID : UInt32) (nodes : List CacheNode) (key : SkiKey) :
    Option (List CacheNode) := do
  match ← getCacheData nodes key false with
  | (nodes, none) => some nodes
  | (nodes, some tHlp) =>
    withData nodes (as2Of key.asn) tHlp fun data => do
      let cData ← data[tHlp.cData]?
      let cacheUID := removeUIDList cData.cacheUID updateID
      some (if cacheUID = [] ∧ cData.counter = 0 then data.eraseIdx tHlp.cData
        else data.set tHlp.cData { cData with cacheUID := cacheUID })

/-- `ski_registerKey` -/
def registerKeyLists (nodes : List CacheNode) (key : SkiKey) : Option (List CacheNode) := do
  let (nodes, tHlp) ← getCacheData nodes key true
  let tHlp ← tHlp
  withData nodes (as2Of key.asn) tHlp fun data => do
    let cData ← data[tHlp.cData]?
    some (data.set tHlp.cData { cData with counter := cData.counter + 1 })

/-- `ski_unregisterKey` -/
def unregisterKeyLists (nodes : List CacheNode) (key : SkiKey) : Option (List CacheNode) := do
  match ← getCacheData nodes key false with
  | (nodes, none) => some nodes
  | (nodes, some tHlp) =>
    withData nodes (as2Of key.asn) tHlp fun data => do
      let cData ← data[tHlp.cData]?
      some (if 0 < cData.counter then
          if cData.cacheUID = [] then data.eraseIdx tHlp.cData
          else data.set tHlp.cData { cData with counter := cData.counter - 1 }
        else data)

/-! ## Cleaning -/

/-- `e_SKI_clean` -/
inductive SkiClean
  | none
  | keys
  | updates
  | all
  deriving DecidableEq, Repr

/-- `___ski_clean_cData` -/
def cleanCData (type : SkiClean) (cData : CacheData) : CacheData :=
  match type with
  | .none => cData
  | .keys => { cData with counter := 0 }
  | .updates => { cData with cacheUID := [] }
  | .all => { cData with counter := 0, cacheUID := [] }

/-- The data can be freed. -/
def CacheData.canFree (cData : CacheData) : Bool := cData.counter = 0 && cData.cacheUID.isEmpty

/-- `___ski_clean_cAlgoID` -/
def cleanCAlgoID (type : SkiClean) (cAlgoID : CacheAlgoID) : CacheAlgoID :=
  if type = .none then cAlgoID
  else { cAlgoID with
    cacheData := (cAlgoID.cacheData.map (cleanCData type)).filter fun cData => !cData.canFree }

/-- `___ski_clean_cNode` -/
def cleanCNode (type : SkiClean) (cNode : CacheNode) : CacheNode :=
  { cNode with
    as2 := fun as2 => ((cNode.as2 as2).map (cleanCAlgoID type)).filter fun cAlgoID =>
      !cAlgoID.cacheData.isEmpty }

/-- The node can be freed: no element of the array `as2` has an algorithm. -/
def CacheNode.canFree (cNode : CacheNode) : Bool :=
  (List.range 65536).all fun as2 => (cNode.as2 (UInt16.ofNat as2)).isEmpty

/-- `ski_clean` -/
def skiCleanLists (nodes : List CacheNode) (type : SkiClean) : List CacheNode :=
  if type = .all then []
  else (nodes.map (cleanCNode type)).filter fun cNode => !cNode.canFree

/-! ## The lists of a tree -/

/-- The AS number of two halves. -/
def asnOf (upper as2 : UInt16) : UInt32 := UInt32.ofNat (upper.toNat * 65536 + as2.toNat)

def uidElement (e : UInt32 × UInt16) : CacheUpdateID := ⟨e.1, e.2⟩

def UidList.list (cacheUID : UidList) : List CacheUpdateID := cacheUID.items.map uidElement

def dataElement (asn : UInt32) (algoID : UInt8) (e : Bytes × SkiData) : CacheData :=
  ⟨e.2.counter, asn, e.1, algoID, UidList.list e.2.cacheUID⟩

def DataList.list (data : DataList) (asn : UInt32) (algoID : UInt8) : List CacheData :=
  data.items.map (dataElement asn algoID)

def algoElement (asn : UInt32) (e : UInt8 × DataList) : CacheAlgoID :=
  ⟨e.1, DataList.list e.2 asn e.1⟩

def AlgoList.list (algos : AlgoList) (asn : UInt32) : List CacheAlgoID :=
  algos.items.map (algoElement asn)

def nodeElement (e : UInt16 × (UInt16 → AlgoList)) : CacheNode :=
  ⟨e.1, fun as2 => AlgoList.list (e.2 as2) (asnOf e.1 as2)⟩

/-- The lists of the cache. -/
def SkiTree.lists (cache : SkiTree) : List CacheNode := cache.items.map nodeElement

namespace SkiListsLemmas

open SortedWalk

/-! ## Where the loops stop -/

variable {upper : UInt16} {algoID : UInt8} {key : SkiKey} {updateID : UInt32} {create : Bool}

theorem insertBehind_prevOf {α : Type} (new : α) (idx : Nat) (l : List α) :
    insertBehind new (prevOf idx) l = (l.insertIdx idx new, some idx) := by
  cases idx with
  | zero => rfl
  | succ idx => rfl

theorem append_eq_insertIdx {α : Type} (l : List α) (new : α) {n : Nat} (h : n = l.length) :
    l ++ [new] = l.insertIdx n new := by
  rw [h, List.insertIdx_length_self]

/-- What a search gives: the place of the element, or, with `create`, that of a new one. -/
def searched {α : Type} (rank : α → Nat) (r : Nat) (new : α) (create : Bool) (l : List α) :
    List α × Option Nat :=
  if found rank r l || create then (ensure rank r new l, some (placeOf rank r l)) else (l, none)

/-- The rule for a search that hits its element or misses it. -/
theorem searched_eq {α : Type} {rank : α → Nat} {r : Nat} {new : α} {l : List α}
    {out : List α × Option Nat}
    (h : (∃ a, l[placeOf rank r l]? = some a ∧ rank a = r ∧ out = (l, some (placeOf rank r l))) ∨
      (found rank r l = false ∧ out = if create then
        (l.insertIdx (placeOf rank r l) new, some (placeOf rank r l)) else (l, none))) :
    out = searched rank r new create l := by
  unfold searched ensure
  rcases h with ⟨a, hget, ha, rfl⟩ | ⟨hfound, rfl⟩
  · have hfound : found rank r l = true := by
      unfold found
      rw [hget]
      exact decide_eq_true ha
    rw [hfound, Bool.true_or, if_pos rfl, if_pos rfl]
  · rw [hfound, Bool.false_or, if_neg Bool.false_ne_true]

def nodeRank (cNode : CacheNode) : Nat := cNode.upper.toNat

theorem getCacheNode_eq (nodes : List CacheNode) (upper : UInt16) (create : Bool) :
    getCacheNode nodes upper create =
      searched nodeRank upper.toNat (createCacheNode upper) create nodes := by
  by_cases hnil : nodes = []
  · subst hnil
    cases create with
    | false => rfl
    | true => rfl
  · have hempty : (nodes.isEmpty && create) = false := by
      rw [List.isEmpty_eq_false_iff.mpr hnil, Bool.false_and]
    unfold getCacheNode
    rw [hempty, if_neg Bool.false_ne_true]
    refine searched_eq (loop_rule nodeRank upper.toNat (cacheNodeLoop upper create nodes)
      (fun idx _ => (nodes, some idx)) (fun idx => if create then
        (nodes.insertIdx idx (createCacheNode upper), some idx) else (nodes, none)) ?_ ?_ ?_ ?_ hnil)
    · intro idx cNode next _ heq
      obtain rfl : upper = cNode.upper := UInt16.toNat_inj.mp heq.symm
      rw [cacheNodeLoop, if_neg (UInt16.lt_irrefl _), if_pos rfl]
    · intro idx cNode next _ hgt
      rw [cacheNodeLoop, if_pos (UInt16.lt_iff_toNat_lt.mpr hgt), insertBehind_prevOf]
    · intro idx cNode next _ hlt hnext
      have hne : upper ≠ cNode.upper := fun h => Nat.ne_of_lt hlt (congrArg UInt16.toNat h.symm)
      have hnot : ¬ upper < cNode.upper :=
        UInt16.not_lt.mpr (UInt16.le_iff_toNat_le.mpr (Nat.le_of_lt hlt))
      rw [cacheNodeLoop, if_neg hnot, if_neg hne, List.isEmpty_eq_false_iff.mpr hnext,
        Bool.false_and, if_neg Bool.false_ne_true]
    · intro idx cNode _ hlt hlen
      have hne : upper ≠ cNode.upper := fun h => Nat.ne_of_lt hlt (congrArg UInt16.toNat h.symm)
      have hnot : ¬ upper < cNode.upper :=
        UInt16.not_lt.mpr (UInt16.le_iff_toNat_le.mpr (Nat.le_of_lt hlt))
      rw [cacheNodeLoop, if_neg hnot, if_neg hne, ← append_eq_insertIdx nodes _ hlen]
      cases create with
      | true => rfl
      | false => rfl

def algoRank (cAlgoID : CacheAlgoID) : Nat := cAlgoID.algoID.toNat

/-- A new algorithm that would be the first one of several has no `prev`. -/
theorem getCacheAlgoID_eq (algos : List CacheAlgoID) (algoID : UInt8) (create : Bool) :
    getCacheAlgoID algos algoID create =
      if create = true ∧ algos ≠ [] ∧ found algoRank algoID.toNat algos = false ∧
          placeOf algoRank algoID.toNat algos = 0 then none
      else some (searched algoRank algoID.toNat (createCacheAlgoID algoID) create algos) := by
  by_cases hnil : algos = []
  · subst hnil
    rw [if_neg fun h => h.2.1 rfl]
    cases create with
    | false => rfl
    | true => rfl
  · have hempty : (algos.isEmpty && create) = false := by
      rw [List.isEmpty_eq_false_iff.mpr hnil, Bool.false_and]
    have hloop := loop_rule algoRank algoID.toNat (cacheAlgoIDLoop algoID create algos)
      (fun idx _ => some (algos, some idx)) (fun idx => if create then
        if idx = 0 then none else some (algos.insertIdx idx (createCacheAlgoID algoID), some idx)
        else some (algos, none)) ?_ ?_ ?_ ?_ hnil
    · unfold getCacheAlgoID
      rw [hempty, if_neg Bool.false_ne_true]
      rcases hloop with ⟨a, hget, ha, hloop⟩ | ⟨hfound, hloop⟩
      · have hfound : found algoRank algoID.toNat algos = true := by
          unfold found
          rw [hget]
          exact decide_eq_true ha
        rw [hloop, if_neg fun h => Bool.false_ne_true (h.2.2.1.symm.trans hfound)]
        exact congrArg some (searched_eq (.inl ⟨a, hget, ha, rfl⟩))
      · rw [hloop]
        cases create with
        | false =>
          rw [if_neg Bool.false_ne_true, if_neg fun h => Bool.false_ne_true h.1]
          exact congrArg some (searched_eq (.inr ⟨hfound, rfl⟩))
        | true =>
          rw [if_pos rfl]
          by_cases hfirst : placeOf algoRank algoID.toNat algos = 0
          · rw [if_pos hfirst, if_pos ⟨rfl, hnil, hfound, hfirst⟩]
          · rw [if_neg hfirst, if_neg fun h => hfirst h.2.2.2]
            exact congrArg some (searched_eq (.inr ⟨hfound, rfl⟩))
    · intro idx cAlgoID next _ heq
      rw [cacheAlgoIDLoop, if_pos (UInt8.toNat_inj.mp heq)]
    · intro idx cAlgoID next _ hgt
      have hne : cAlgoID.algoID ≠ algoID := fun h => Nat.ne_of_gt hgt (congrArg UInt8.toNat h)
      rw [cacheAlgoIDLoop, if_neg hne, if_pos (UInt8.lt_iff_toNat_lt.mpr hgt)]
      cases idx with
      | zero => rfl
      | succ idx => rfl
    · intro idx cAlgoID next _ hlt hnext
      have hne : cAlgoID.algoID ≠ algoID := fun h => Nat.ne_of_lt hlt (congrArg UInt8.toNat h)
      have hnot : ¬ algoID < cAlgoID.algoID :=
        UInt8.not_lt.mpr (UInt8.le_iff_toNat_le.mpr (Nat.le_of_lt hlt))
      rw [cacheAlgoIDLoop, if_neg hne, if_neg hnot, List.isEmpty_eq_false_iff.mpr hnext,
        if_neg Bool.false_ne_true]
    · intro idx cAlgoID _ hlt hlen
      have hne : cAlgoID.algoID ≠ algoID := fun h => Nat.ne_of_lt hlt (congrArg UInt8.toNat h)
      have hnot : ¬ algoID < cAlgoID.algoID :=
        UInt8.not_lt.mpr (UInt8.le_iff_toNat_le.mpr (Nat.le_of_lt hlt))
      rw [cacheAlgoIDLoop, if_neg hne, if_neg hnot, append_eq_insertIdx algos _ hlen]
      rfl

/-! ## Comparing memory -/

theorem foldl_bytes_lt {as bs : Bytes} (hlen : as.length = bs.length) {n m : Nat} (h : n < m) :
    as.foldl (fun n b => n * 257 + (b.toNat + 1)) n < bs.foldl (fun n b => n * 257 + (b.toNat + 1)) m := by
  induction as generalizing bs n m with
  | nil =>
    obtain rfl := List.length_eq_zero_iff.mp hlen.symm
    exact h
  | cons a as ih =>
    cases bs with
    | nil => cases hlen
    | cons b bs =>
      have ha := a.toNat_lt
      have hnext : n * 257 + (a.toNat + 1) < m * 257 + (b.toNat + 1) := by omega
      exact ih (Nat.succ.inj hlen) hnext

/-- `memcmp` orders memory of one size as its rank does. -/
theorem memcmpOrder_cases {as bs : Bytes} (hlen : as.length = bs.length) :
    (memcmpOrder as bs = .lt ∧ bytesRank as < bytesRank bs) ∨
      (memcmpOrder as bs = .eq ∧ as = bs) ∨
        (memcmpOrder as bs = .gt ∧ bytesRank bs < bytesRank as) := by
  unfold bytesRank
  generalize (0 : Nat) = n
  induction as generalizing bs n with
  | nil =>
    obtain rfl := List.length_eq_zero_iff.mp hlen.symm
    exact .inr (.inl ⟨rfl, rfl⟩)
  | cons a as ih =>
    cases bs with
    | nil => cases hlen
    | cons b bs =>
      have hrest := Nat.succ.inj hlen
      rw [memcmpOrder, List.foldl_cons, List.foldl_cons]
      split
      · next hlt =>
        have := UInt8.lt_iff_toNat_lt.mp hlt
        exact .inl ⟨rfl, foldl_bytes_lt hrest (by omega)⟩
      · next hge =>
        split
        · next hlt =>
          have := UInt8.lt_iff_toNat_lt.mp hlt
          exact .inr (.inr ⟨rfl, foldl_bytes_lt hrest.symm (by omega)⟩)
        · next hle =>
          obtain rfl : a = b := UInt8.le_antisymm (UInt8.not_lt.mp hle) (UInt8.not_lt.mp hge)
          rcases ih hrest (n * 257 + (a.toNat + 1)) with h | ⟨h, rfl⟩ | h
          · exact .inl h
          · exact .inr (.inl ⟨h, rfl⟩)
          · exact .inr (.inr h)

theorem memcmpOrder_lt {as bs : Bytes} (hlen : as.length = bs.length)
    (h : bytesRank as < bytesRank bs) : memcmpOrder as bs = .lt := by
  rcases memcmpOrder_cases hlen with ⟨hlt, -⟩ | ⟨-, rfl⟩ | ⟨-, hgt⟩
  · exact hlt
  · exact absurd h (Nat.lt_irrefl _)
  · exact absurd hgt (Nat.lt_asymm h)

theorem memcmpOrder_gt {as bs : Bytes} (hlen : as.length = bs.length)
    (h : bytesRank bs < bytesRank as) : memcmpOrder as bs = .gt := by
  rcases memcmpOrder_cases hlen with ⟨-, hlt⟩ | ⟨-, rfl⟩ | ⟨hgt, -⟩
  · exact absurd hlt (Nat.lt_asymm h)
  · exact absurd h (Nat.lt_irrefl _)
  · exact hgt

theorem memcmpOrder_self (as : Bytes) : memcmpOrder as as = .eq := by
  rcases memcmpOrder_cases (rfl : as.length = as.length) with ⟨-, h⟩ | ⟨h, -⟩ | ⟨-, h⟩
  · exact absurd h (Nat.lt_irrefl _)
  · exact h
  · exact absurd h (Nat.lt_irrefl _)

theorem uidOrder_lt {a b : UInt32} (h : uidRank a < uidRank b) :
    memcmpOrder (le32 a) (le32 b) = .lt := by
  refine memcmpOrder_lt ?_ h
  rw [length_le32, length_le32]

theorem uidOrder_gt {a b : UInt32} (h : uidRank b < uidRank a) :
    memcmpOrder (le32 a) (le32 b) = .gt := by
  refine memcmpOrder_gt ?_ h
  rw [length_le32, length_le32]

/-- Zeros come first. -/
theorem memcmpOrder_zeros (bs : Bytes) : memcmpOrder (List.replicate bs.length 0) bs ≠ .gt := by
  induction bs with
  | nil => decide
  | cons b bs ih =>
    rw [List.length_cons, List.replicate_succ, memcmpOrder]
    split
    · decide
    · rw [if_neg fun h => absurd (UInt8.lt_iff_toNat_lt.mp h) (Nat.not_lt_zero _)]
      exact ih

theorem uidRank_zero_lt {updateID : UInt32} (h : updateID ≠ 0) : uidRank 0 < uidRank updateID := by
  have hlen : (le32 0).length = (le32 updateID).length := by
    rw [length_le32, length_le32]
  rcases memcmpOrder_cases hlen with ⟨-, hlt⟩ | ⟨-, heq⟩ | ⟨hgt, -⟩
  · exact hlt
  · exact absurd (le32_injective heq).symm h
  · exact absurd hgt (memcmpOrder_zeros (le32 updateID))

/-! ## The lists that are ordered by memory -/

def dataRank (cData : CacheData) : Nat := bytesRank cData.ski

theorem searchCacheData_eq (data : List CacheData) (key : SkiKey) (create : Bool)
    (hsize : ∀ cData ∈ data, key.ski.length = cData.ski.length) :
    searchCacheData data key create =
      searched dataRank (bytesRank key.ski) (createCacheData key) create data := by
  by_cases hnil : data = []
  · subst hnil
    cases create with
    | false => rfl
    | true => rfl
  · have hempty : (data.isEmpty && create) = false := by
      rw [List.isEmpty_eq_false_iff.mpr hnil, Bool.false_and]
    unfold searchCacheData
    rw [hempty, if_neg Bool.false_ne_true]
    refine searched_eq (loop_rule dataRank (bytesRank key.ski) (cacheDataLoop key create data)
      (fun idx _ => (data, some idx)) (fun idx => if create then
        (data.insertIdx idx (createCacheData key), some idx) else (data, none)) ?_ ?_ ?_ ?_ hnil)
    · intro idx cData next _ heq
      rw [cacheDataLoop, bytesRank_injective heq, memcmpOrder_self]
    · intro idx cData next hmem hgt
      rw [cacheDataLoop, memcmpOrder_lt (hsize cData hmem) hgt]
      dsimp only
      rw [insertBehind_prevOf]
    · intro idx cData next hmem hlt hnext
      rw [cacheDataLoop, memcmpOrder_gt (hsize cData hmem) hlt]
      dsimp only
      rw [List.isEmpty_eq_false_iff.mpr hnext, Bool.false_and, if_neg Bool.false_ne_true]
    · intro idx cData hmem hlt hlen
      rw [cacheDataLoop, memcmpOrder_gt (hsize cData hmem) hlt]
      dsimp only
      rw [← append_eq_insertIdx data _ hlen]
      cases create with
      | true => rfl
      | false => rfl

def listRank (cUID : CacheUpdateID) : Nat := uidRank cUID.updateID

/-- One registration more at the place of the update, or a new element there. -/
theorem addUID_cases (uids : List CacheUpdateID) {updateID : UInt32} (hid : updateID ≠ 0) :
    (∃ cUID, uids[placeOf listRank (uidRank updateID) uids]? = some cUID ∧
        listRank cUID = uidRank updateID ∧ addUID uids updateID =
          some (uids.set (placeOf listRank (uidRank updateID) uids)
            { cUID with counter := cUID.counter + 1 })) ∨
      (found listRank (uidRank updateID) uids = false ∧ addUID uids updateID =
        some (uids.insertIdx (placeOf listRank (uidRank updateID) uids) ⟨updateID, 1⟩)) := by
  have hnew : createCacheUID updateID = some ⟨updateID, 1⟩ := if_neg hid
  by_cases hnil : uids = []
  · subst hnil
    unfold addUID
    rw [hnew]
    exact .inr ⟨rfl, rfl⟩
  · have hadd : addUID uids updateID = addUIDLoop updateID uids none 0 uids := by
      unfold addUID
      rw [List.isEmpty_eq_false_iff.mpr hnil, if_neg Bool.false_ne_true]
    rw [hadd]
    refine loop_rule listRank (uidRank updateID) (addUIDLoop updateID uids)
      (fun idx cUID => some (uids.set idx { cUID with counter := cUID.counter + 1 }))
      (fun idx => some (uids.insertIdx idx ⟨updateID, 1⟩)) ?_ ?_ ?_ ?_ hnil
    · intro idx cUID next _ heq
      rw [addUIDLoop, uidRank_injective heq, memcmpOrder_self]
    · intro idx cUID next _ hgt
      rw [addUIDLoop, uidOrder_lt hgt]
      dsimp only
      rw [hnew, Option.map_some, insertBehind_prevOf]
    · intro idx cUID next _ hlt hnext
      rw [addUIDLoop, uidOrder_gt hlt]
      dsimp only
      rw [List.isEmpty_eq_false_iff.mpr hnext, if_neg Bool.false_ne_true]
    · intro idx cUID _ hlt hlen
      rw [addUIDLoop, uidOrder_gt hlt]
      dsimp only
      rw [hnew, List.isEmpty_nil, if_pos rfl, Option.toList_some, append_eq_insertIdx uids _ hlen]

/-- The identifier zero: nothing is added to an empty list, and NULL is used in any other one. -/
theorem addUID_zero (uids : List CacheUpdateID) (h : ∀ cUID ∈ uids, cUID.updateID ≠ 0) :
    addUID uids 0 = if uids = [] then some [] else none := by
  cases uids with
  | nil => rfl
  | cons cUID next =>
    have hne := h cUID List.mem_cons_self
    rw [if_neg (List.cons_ne_nil _ _)]
    unfold addUID
    rw [List.isEmpty_cons, if_neg Bool.false_ne_true, addUIDLoop, uidOrder_lt (uidRank_zero_lt hne)]
    rfl

/-- The update of the search. -/
theorem findUIDLoop_eq (uids : List CacheUpdateID) (updateID : UInt32) :
    findUIDLoop updateID 0 uids =
      if found listRank (uidRank updateID) uids then
        some (placeOf listRank (uidRank updateID) uids)
      else none := by
  by_cases hnil : uids = []
  · subst hnil
    rfl
  · have hloop := loop_rule listRank (uidRank updateID) (fun _ => findUIDLoop updateID)
      (fun idx _ => some idx) (fun _ => none) ?_ ?_ ?_ ?_ hnil
    · rcases hloop with ⟨a, hget, ha, hloop⟩ | ⟨hfound, hloop⟩
      · have hfound : found listRank (uidRank updateID) uids = true := by
          unfold found
          rw [hget]
          exact decide_eq_true ha
        rw [hloop, hfound, if_pos rfl]
      · rw [hloop, hfound, if_neg Bool.false_ne_true]
    · intro idx cUID next _ heq
      rw [findUIDLoop, uidRank_injective heq, memcmpOrder_self]
    · intro idx cUID next _ hgt
      rw [findUIDLoop, uidOrder_lt hgt]
    · intro idx cUID next _ hlt _
      rw [findUIDLoop, uidOrder_gt hlt]
    · intro idx cUID _ hlt _
      rw [findUIDLoop, uidOrder_gt hlt]
      rfl

end SkiListsLemmas

end SrxSuite.Server

import SrxSuite.Crypto.HashMessage
import SrxSuite.Lib.SortedMap
import SrxSuite.Server.RpkiChanges

/-!
# The SKI cache

The model of `server/ski_cache.c`. An update is filed under the router keys its BGPsec_PATH attribute
names, so that it is found when one of the keys comes or goes. The cache has four levels: the upper
half of the AS number, its lower half, the algorithm and the SKI; all but the second one are sorted
lists. The attribute is read through offsets into its memory.

`none` is what is not defined in C: a read outside of the attribute, or behind the array of its two
signature blocks, a NULL pointer, or the variable `prev` of `__ski_getCacheAlgoID`, which is used before
it is set when an algorithm is to be inserted in front of the first one.
-/

namespace SrxSuite.Server

open Crypto Bytes

/-! ## Orders -/

/-- The order of `memcmp` for memory of one size. -/
def bytesRank (bs : Bytes) : Nat := bs.foldl (fun n b => n * 257 + (b.toNat + 1)) 0

/-- `compareSrxUpdateID` compares the memory of the identifiers. -/
def uidRank (updateID : UInt32) : Nat := bytesRank (le32 updateID)

theorem bytesRank_append (bs : Bytes) (b : UInt8) :
    bytesRank (bs ++ [b]) = bytesRank bs * 257 + (b.toNat + 1) := by
  unfold bytesRank
  rw [List.foldl_append]
  rfl

theorem bytesRank_injective : Function.Injective bytesRank := by
  intro as bs h
  induction as using List.reverseRecOn generalizing bs with
  | nil =>
    rcases List.eq_nil_or_concat bs with rfl | ⟨bs, b, rfl⟩
    · rfl
    · rw [List.concat_eq_append, bytesRank_append] at h
      exact absurd h (Nat.ne_of_lt (Nat.lt_of_lt_of_le (Nat.succ_pos _) (Nat.le_add_left _ _)))
  | append_singleton as a ih =>
    rcases List.eq_nil_or_concat bs with rfl | ⟨bs, b, rfl⟩
    · rw [bytesRank_append] at h
      exact absurd h (Nat.ne_of_gt (Nat.lt_of_lt_of_le (Nat.succ_pos _) (Nat.le_add_left _ _)))
    · rw [List.concat_eq_append] at h ⊢
      rw [bytesRank_append, bytesRank_append] at h
      have ha := a.toNat_lt
      have hb := b.toNat_lt
      have hrest : bytesRank as = bytesRank bs := by omega
      have hlast : a = b := UInt8.toNat_inj.mp (by omega)
      rw [ih hrest, hlast]

theorem le32_injective : Function.Injective le32 := by
  intro a b h
  have ha := (holdsAt_self (le32 a)).le32At_eq
  have hb := (holdsAt_self (le32 b)).le32At_eq
  rw [h, hb] at ha
  exact (Option.some.inj ha).symm

theorem uidRank_injective : Function.Injective uidRank := by
  intro a b h
  exact le32_injective (bytesRank_injective h)

theorem toNat8_injective : Function.Injective UInt8.toNat := fun _ _ => UInt8.toNat_inj.mp

theorem toNat16_injective : Function.Injective UInt16.toNat := fun _ _ => UInt16.toNat_inj.mp

/-! ## The tree -/

/-- `_SKI_CACHE_UPDATEID`: the updates with the number of their registrations. -/
abbrev UidList := SortedMap UInt32 UInt16 uidRank

/-- `_SKI_CACHE_DATA`: the number of keys and the updates that need them. -/
structure SkiData where
  counter : UInt8
  cacheUID : UidList

/-- The data of an algorithm, by the SKI. -/
abbrev DataList := SortedMap Bytes SkiData bytesRank

/-- `_SKI_CACHE_ALGO_ID`. -/
abbrev AlgoList := SortedMap UInt8 DataList UInt8.toNat

/-- `_SKI_CACHE_NODE`: the upper halves of the AS numbers, each with the array `as2`. -/
abbrev SkiTree := SortedMap UInt16 (UInt16 → AlgoList) UInt16.toNat

/-- Data without keys and updates. -/
def newSkiData : SkiData := ⟨0, SortedMap.empty⟩

/-- `asn >> 16`. -/
def upperOf (asn : UInt32) : UInt16 := (asn >>> 16).toUInt16

/-- `asn & 0xFFFF`. -/
def as2Of (asn : UInt32) : UInt16 := (asn &&& 0xFFFF).toUInt16

/-- The algorithms of an AS. -/
def SkiTree.algos (cache : SkiTree) (asn : UInt32) : AlgoList :=
  match cache.find (upperOf asn) with
  | none => SortedMap.empty
  | some node => node (as2Of asn)

/-- The tree with other algorithms for an AS. -/
def SkiTree.setAlgos (cache : SkiTree) (asn : UInt32) (algos : AlgoList) : SkiTree :=
  let node := (cache.find (upperOf asn)).getD fun _ => SortedMap.empty
  cache.insert toNat16_injective (upperOf asn) (Function.update node (as2Of asn) algos)

/-- `_ski_getCacheData` without `create`. -/
def SkiTree.getData (cache : SkiTree) (key : SkiKey) : Option SkiData :=
  ((cache.algos key.asn).find key.algoID).bind fun data => data.find key.ski

/-- The algorithm is the new first one of the AS: `prev` is used and was not set. -/
def SkiTree.BeforeFirst (cache : SkiTree) (asn : UInt32) (algoID : UInt8) : Prop :=
  ∃ first, (cache.algos asn).first = some first ∧ algoID < first

instance (cache : SkiTree) (asn : UInt32) (algoID : UInt8) :
    Decidable (cache.BeforeFirst asn algoID) :=
  match h : (cache.algos asn).first with
  | none => isFalse fun ⟨first, hfirst, _⟩ => by rw [h] at hfirst; cases hfirst
  | some first =>
    if hlt : algoID < first then isTrue ⟨first, h, hlt⟩
    else isFalse fun ⟨first', hfirst, hlt'⟩ => by
      rw [h] at hfirst
      cases hfirst
      exact hlt hlt'

/-- Writes the data of a key, in the place `_ski_getCacheData` finds or makes. -/
def SkiTree.setData (cache : SkiTree) (key : SkiKey) (cData : SkiData) : Option SkiTree :=
  if cache.BeforeFirst key.asn key.algoID then none
  else
    let data := ((cache.algos key.asn).find key.algoID).getD SortedMap.empty
    some (cache.setAlgos key.asn ((cache.algos key.asn).insert toNat8_injective key.algoID
      (data.insert bytesRank_injective key.ski cData)))

/-- Takes the data of a key out of their list. -/
def SkiTree.removeData (cache : SkiTree) (key : SkiKey) : SkiTree :=
  let data := ((cache.algos key.asn).find key.algoID).getD SortedMap.empty
  cache.setAlgos key.asn ((cache.algos key.asn).insert toNat8_injective key.algoID
    (data.erase key.ski))

/-! ## Parsing -/

/-- `_SKI_TMP_UPD_INFO` of an attribute that could be parsed; `algoID` has an element for each
signature block. -/
structure UpdInfo where
  nrSegments : UInt16
  asn : List UInt32
  algoID : List UInt8
  ski : Bytes
  deriving DecidableEq, Repr

/-- The AS numbers of the path segments. -/
def readAsns (attr : Bytes) : (segments ptr : Nat) → Option (List UInt32)
  | 0, _ => some []
  | n + 1, ptr => do
    let asn ← attr.le32At (ptr + 2)
    let rest ← readAsns attr n (ptr + 6)
    some (htonl asn :: rest)

/-- The SKIs of the signature segments, one after the other. -/
def readSkis (attr : Bytes) : (segments ptr : Nat) → Option Bytes
  | 0, _ => some []
  | n + 1, ptr => do
    let ski ← attr.readAt ptr 20
    let siglen ← attr.be16At (ptr + 20)
    let rest ← readSkis attr n (ptr + 22 + siglen.toNat)
    some (ski ++ rest)

/-- The pointers `sigBlocks`. The inner `none` is a malformed attribute. -/
def sigBlocks (attr : Bytes) (ptr : Nat) (remainder : UInt16) : Option (Option (List Nat)) :=
  if remainder = 0 then some (some [])
  else do
    let length ← attr.be16At ptr
    if remainder - length = 0 then some (some [ptr])
    else
      let second := ptr + length.toNat
      let length2 ← attr.be16At second
      some (if remainder - length - length2 = 0 then some [ptr, second] else none)

/-- `_BGPSEC_MAX_SIG_BLOCKS`, the size of the array of the signature blocks. -/
def bgpsecMaxSigBlocks : Nat := 2

/-- `_ski_parseBGPsec_PATH`. The inner `none` is `REGVAL_ERROR`. The loop over the blocks ends at the
first NULL pointer. -/
def parseBgpsecPath (attr : Bytes) : Option (Option UpdInfo) := do
  let (remainder, ptr) ← attrLength attr
  if remainder = 0 then some none
  else
    let length ← attr.be16At ptr
    let nrSegments := UInt16.ofNat ((length.toNat - 2) / 6)
    if remainder - 2 = 0 then some none
    else
      -- `remainder` has no sign, the test for a negative value fails
      match ← sigBlocks attr (ptr + 2 + nrSegments.toNat * 6) (remainder - 2 - nrSegments * 6) with
      | none => some none
      | some blocks =>
        -- with two blocks the array has no NULL pointer, the loop uses the word behind it
        if blocks.length = bgpsecMaxSigBlocks then none
        else
          let asn ← readAsns attr nrSegments.toNat (ptr + 2)
          let algoID ← blocks.mapM fun block => attr[block + 2]?
          let ski ← blocks.mapM fun block => readSkis attr nrSegments.toNat (block + 3)
          some (some ⟨nrSegments, asn, algoID, ski.flatten⟩)

/-! ## Updates -/

/-- The turns of the two loops: the signature block and the segment. -/
def UpdInfo.turns (info : UpdInfo) : List (Nat × Nat) :=
  (List.range info.algoID.length).flatMap fun sbIdx =>
    (List.range info.nrSegments.toNat).map fun segIdx => (sbIdx, segIdx)

/-- The key of a turn, with the SKI at an offset. -/
def UpdInfo.keyAt (info : UpdInfo) (turn : Nat × Nat) (skiOffset : Nat) : Option SkiKey := do
  let algoID ← info.algoID[turn.1]?
  let asn ← info.asn[turn.2]?
  let ski ← info.ski.readAt skiOffset 20
  some ⟨asn, ski, algoID⟩

/-- The keys of `ski_registerUpdate`. The second term of the offset is to be that of the blocks
before. -/
def UpdInfo.registerKeys (info : UpdInfo) : Option (List SkiKey) :=
  info.turns.mapM fun turn => info.keyAt turn (turn.2 * 20 + turn.2 * 20 * turn.1)

/-- The keys of `ski_unregisterUpdate`, where the offset grows with every turn. -/
def UpdInfo.unregisterKeys (info : UpdInfo) : Option (List SkiKey) :=
  info.turns.zipIdx.mapM fun turn => info.keyAt turn.1 (turn.2 * 20)

/-- `__ski_addUpdateCacheUID`. No element is made for the identifier zero: an empty list stays empty,
in front of another element the NULL pointer is used. -/
def addUpdateCacheUID (cData : SkiData) (updateID : UInt32) : Option SkiData :=
  if updateID = 0 then if cData.cacheUID.items = [] then some cData else none
  else
    let counter := match cData.cacheUID.find updateID with
      | none => 1
      | some counter => counter + 1
    some { cData with cacheUID := cData.cacheUID.insert uidRank_injective updateID counter }

/-- One turn of `ski_registerUpdate`. -/
def registerTurn (updateID : UInt32) (cache : SkiTree) (key : SkiKey) : Option SkiTree := do
  let cData ← addUpdateCacheUID ((cache.getData key).getD newSkiData) updateID
  cache.setData key cData

/-- The updates of a key without one registration of `updateID`. -/
def removeUID (cacheUID : UidList) (updateID : UInt32) : UidList :=
  match cacheUID.find updateID with
  | none => cacheUID
  | some counter =>
    if counter - 1 = 0 then cacheUID.erase updateID
    else cacheUID.insert uidRank_injective updateID (counter - 1)

/-- One turn of `ski_unregisterUpdate`. -/
def unregisterTurn (updateID : UInt32) (cache : SkiTree) (key : SkiKey) : Option SkiTree :=
  match cache.getData key with
  | none => some cache
  | some cData =>
    let cacheUID := removeUID cData.cacheUID updateID
    if cacheUID.items = [] ∧ cData.counter = 0 then some (cache.removeData key)
    else cache.setData key { cData with cacheUID := cacheUID }

/-- `ski_registerUpdate`. -/
def skiRegisterUpdate (cache : SkiTree) (updateID : UInt32) (bgpsec : Bytes) : Option SkiTree := do
  match ← parseBgpsecPath bgpsec with
  | none => some cache
  | some info =>
    let keys ← info.registerKeys
    keys.foldlM (registerTurn updateID) cache

/-- `ski_unregisterUpdate`. -/
def skiUnregisterUpdate (cache : SkiTree) (updateID : UInt32) (bgpsec : Bytes) :
    Option SkiTree := do
  match ← parseBgpsecPath bgpsec with
  | none => some cache
  | some info =>
    let keys ← info.unregisterKeys
    keys.foldlM (unregisterTurn updateID) cache

/-! ## Keys -/

/-- `ski_registerKey` on the tree, with the updates that are queued. -/
def registerKeyTree (cache : SkiTree) (key : SkiKey) : Option (SkiTree × List UInt32) := do
  let cData := (cache.getData key).getD newSkiData
  let cache ← cache.setData key { cData with counter := cData.counter + 1 }
  some (cache, cData.cacheUID.keys)

/-- `ski_unregisterKey` on the tree, with the updates that are queued. Data without updates are
removed, whatever the counter is. -/
def unregisterKeyTree (cache : SkiTree) (key : SkiKey) : Option (SkiTree × List UInt32) :=
  match cache.getData key with
  | none => some (cache, [])
  | some cData =>
    if 0 < cData.counter then
      if cData.cacheUID.items = [] then some (cache.removeData key, [])
      else do
        let cache ← cache.setData key { cData with counter := cData.counter - 1 }
        some (cache, cData.cacheUID.keys)
    else some (cache, [])

/-! ## What an attribute names -/

/-- The attribute has a path segment of the AS whose signature segment, in a block of the algorithm,
has the SKI. -/
def Names (attr : BgpsecPath) (key : SkiKey) : Prop :=
  ∃ block ∈ attr.blocks, block.algoID = key.algoID ∧
    ∃ (i : Nat) (seg : SecurePathSegment) (sig : SignatureSegment),
      attr.path[i]? = some seg ∧ block.segments[i]? = some sig ∧
        seg.asn = key.asn ∧ sig.ski.toList = key.ski

/-- The keys of one signature block. -/
def blockKeys (path : List SecurePathSegment) (block : SignatureBlock) : List SkiKey :=
  List.zipWith (fun seg sig => ⟨seg.asn, sig.ski.toList, block.algoID⟩) path block.segments

/-- The keys of all signature blocks. -/
def attrKeys (attr : BgpsecPath) : List SkiKey := attr.blocks.flatMap (blockKeys attr.path)

namespace SkiCacheLemmas

variable {cache cache' : SkiTree} {key key' : SkiKey} {cData : SkiData}

/-! ## The tree is a map -/

theorem asn_ext {a b : UInt32} (hupper : upperOf a = upperOf b) (has2 : as2Of a = as2Of b) :
    a = b := by
  have hu := congrArg UInt16.toNat hupper
  have hl := congrArg UInt16.toNat has2
  unfold upperOf at hu
  unfold as2Of at hl
  rw [UInt32.toNat_toUInt16, UInt32.toNat_toUInt16, UInt32.toNat_shiftRight,
    UInt32.toNat_shiftRight] at hu
  rw [UInt32.toNat_toUInt16, UInt32.toNat_toUInt16, UInt32.toNat_and, UInt32.toNat_and,
    show (0xFFFF : UInt32).toNat = 2 ^ 16 - 1 from rfl, Nat.and_two_pow_sub_one_eq_mod,
    Nat.and_two_pow_sub_one_eq_mod] at hl
  have ha := a.toNat_lt
  have hb := b.toNat_lt
  change a.toNat >>> 16 % 2 ^ 16 = b.toNat >>> 16 % 2 ^ 16 at hu
  rw [Nat.shiftRight_eq_div_pow, Nat.shiftRight_eq_div_pow] at hu
  apply UInt32.toNat_inj.mp
  omega

theorem algos_setAlgos (cache : SkiTree) (asn asn' : UInt32) (algos : AlgoList) :
    (cache.setAlgos asn algos).algos asn' = if asn' = asn then algos else cache.algos asn' := by
  unfold SkiTree.algos SkiTree.setAlgos
  dsimp only
  rw [SortedMap.find_insert]
  by_cases hupper : upperOf asn' = upperOf asn
  · rw [if_pos hupper]
    by_cases has2 : as2Of asn' = as2Of asn
    · obtain rfl : asn' = asn := asn_ext hupper has2
      rw [if_pos rfl]
      exact Function.update_self _ _ _
    · have hne : asn' ≠ asn := fun heq => has2 (congrArg as2Of heq)
      rw [if_neg hne, hupper]
      dsimp only
      rw [Function.update_of_ne has2]
      cases cache.find (upperOf asn) with
      | none => rfl
      | some node => rfl
  · have hne : asn' ≠ asn := fun heq => hupper (congrArg upperOf heq)
    rw [if_neg hupper, if_neg hne]

/-- Writing the list of one SKI. -/
theorem getData_setAlgos (cache : SkiTree) (key key' : SkiKey) (data : DataList) :
    (cache.setAlgos key.asn ((cache.algos key.asn).insert toNat8_injective key.algoID data)).getData
        key' =
      if key'.asn = key.asn ∧ key'.algoID = key.algoID then data.find key'.ski
      else cache.getData key' := by
  unfold SkiTree.getData
  rw [algos_setAlgos]
  by_cases hasn : key'.asn = key.asn
  · rw [if_pos hasn, SortedMap.find_insert]
    by_cases halgo : key'.algoID = key.algoID
    · rw [if_pos halgo, if_pos ⟨hasn, halgo⟩]
      rfl
    · rw [if_neg halgo, if_neg fun h => halgo h.2, hasn]
  · rw [if_neg hasn, if_neg fun h => hasn h.1]

theorem SkiKey.ext_iff' : key' = key ↔
    (key'.asn = key.asn ∧ key'.algoID = key.algoID) ∧ key'.ski = key.ski := by
  constructor
  · rintro rfl
    exact ⟨⟨rfl, rfl⟩, rfl⟩
  · rintro ⟨⟨hasn, halgo⟩, hski⟩
    cases key
    cases key'
    cases hasn
    cases halgo
    cases hski
    rfl

theorem find_data (cache : SkiTree) (key : SkiKey) :
    (((cache.algos key.asn).find key.algoID).getD SortedMap.empty).find key.ski =
      cache.getData key := by
  unfold SkiTree.getData
  cases (cache.algos key.asn).find key.algoID with
  | none => rfl
  | some data => rfl

/-- What is found after a write. -/
theorem getData_setData (h : cache.setData key cData = some cache') (key' : SkiKey) :
    cache'.getData key' = if key' = key then some cData else cache.getData key' := by
  unfold SkiTree.setData at h
  split at h
  · cases h
  · obtain rfl := Option.some.inj h
    rw [getData_setAlgos, SortedMap.find_insert]
    by_cases hlist : key'.asn = key.asn ∧ key'.algoID = key.algoID
    · rw [if_pos hlist]
      by_cases hski : key'.ski = key.ski
      · rw [if_pos hski, if_pos (SkiKey.ext_iff'.mpr ⟨hlist, hski⟩)]
      · rw [if_neg hski, if_neg fun heq => hski (congrArg SkiKey.ski heq), ← hlist.1, ← hlist.2,
          find_data]
    · rw [if_neg hlist, if_neg fun heq => hlist (SkiKey.ext_iff'.mp heq).1]

theorem getData_removeData (cache : SkiTree) (key key' : SkiKey) :
    (cache.removeData key).getData key' = if key' = key then none else cache.getData key' := by
  unfold SkiTree.removeData
  rw [getData_setAlgos, SortedMap.find_erase]
  by_cases hlist : key'.asn = key.asn ∧ key'.algoID = key.algoID
  · rw [if_pos hlist]
    by_cases hski : key'.ski = key.ski
    · rw [if_pos hski, if_pos (SkiKey.ext_iff'.mpr ⟨hlist, hski⟩)]
    · rw [if_neg hski, if_neg fun heq => hski (congrArg SkiKey.ski heq), ← hlist.1, ← hlist.2,
        find_data]
  · rw [if_neg hlist, if_neg fun heq => hlist (SkiKey.ext_iff'.mp heq).1]

/-! ## The first algorithm -/

theorem setData_isSome (h : ¬ cache.BeforeFirst key.asn key.algoID) (cData : SkiData) :
    ∃ cache', cache.setData key cData = some cache' := by
  unfold SkiTree.setData
  rw [if_neg h]
  exact ⟨_, rfl⟩

/-- The algorithm of data that are found is not a new first one. -/
theorem not_beforeFirst_of_getData (h : cache.getData key = some cData) :
    ¬ cache.BeforeFirst key.asn key.algoID := by
  rintro ⟨first, hfirst, hlt⟩
  obtain ⟨data, hdata, -⟩ := Option.bind_eq_some_iff.mp h
  have hle := SortedMap.first_le_of_find hdata hfirst
  exact absurd (UInt8.lt_iff_toNat_lt.mp hlt) (Nat.not_lt.mpr hle)

/-- A turn of `ski_unregisterUpdate` removes data that are not needed any more. -/
theorem unregisterTurn_cases (updateID : UInt32) (cache : SkiTree) (key : SkiKey) :
    (cache.getData key = none ∧ unregisterTurn updateID cache key = some cache) ∨
      ∃ cData, cache.getData key = some cData ∧
        (((removeUID cData.cacheUID updateID).items = [] ∧ cData.counter = 0 ∧
            unregisterTurn updateID cache key = some (cache.removeData key)) ∨
          (¬ ((removeUID cData.cacheUID updateID).items = [] ∧ cData.counter = 0) ∧
            ∃ cache', cache.setData key { cData with
                cacheUID := removeUID cData.cacheUID updateID } = some cache' ∧
              unregisterTurn updateID cache key = some cache')) := by
  unfold unregisterTurn
  cases hdata : cache.getData key with
  | none => exact .inl ⟨rfl, rfl⟩
  | some cData =>
    refine .inr ⟨cData, rfl, ?_⟩
    dsimp only
    by_cases hlast : (removeUID cData.cacheUID updateID).items = [] ∧ cData.counter = 0
    · exact .inl ⟨hlast.1, hlast.2, if_pos hlast⟩
    · obtain ⟨cache', hcache'⟩ := setData_isSome (not_beforeFirst_of_getData hdata)
        { cData with cacheUID := removeUID cData.cacheUID updateID }
      exact .inr ⟨hlast, cache', hcache', (if_neg hlast).trans hcache'⟩

/-- `ski_registerKey` counts the key once more. -/
theorem registerKeyTree_spec (h : ¬ cache.BeforeFirst key.asn key.algoID) :
    ∃ cache', cache.setData key { (cache.getData key).getD newSkiData with
        counter := ((cache.getData key).getD newSkiData).counter + 1 } = some cache' ∧
      registerKeyTree cache key = some (cache', ((cache.getData key).getD newSkiData).cacheUID.keys) := by
  obtain ⟨cache', hcache'⟩ := setData_isSome h { (cache.getData key).getD newSkiData with
    counter := ((cache.getData key).getD newSkiData).counter + 1 }
  refine ⟨cache', hcache', ?_⟩
  unfold registerKeyTree
  dsimp only
  rw [hcache']
  rfl

theorem registerKeyTree_none (h : cache.BeforeFirst key.asn key.algoID) :
    registerKeyTree cache key = none := by
  unfold registerKeyTree SkiTree.setData
  dsimp only
  rw [if_pos h]
  rfl

/-- `ski_unregisterKey` does nothing for a key that is not there. Otherwise it removes data that have no
update, or counts the key down. -/
theorem unregisterKeyTree_cases (cache : SkiTree) (key : SkiKey) :
    (cache.getData key = none ∧ unregisterKeyTree cache key = some (cache, [])) ∨
      ∃ cData, cache.getData key = some cData ∧
        ((cData.counter = 0 ∧ unregisterKeyTree cache key = some (cache, [])) ∨
          (0 < cData.counter ∧ cData.cacheUID.items = [] ∧
            unregisterKeyTree cache key = some (cache.removeData key, cData.cacheUID.keys)) ∨
          (0 < cData.counter ∧ cData.cacheUID.items ≠ [] ∧
            ∃ cache', cache.setData key { cData with counter := cData.counter - 1 } = some cache' ∧
              unregisterKeyTree cache key = some (cache', cData.cacheUID.keys))) := by
  unfold unregisterKeyTree
  cases hdata : cache.getData key with
  | none => exact .inl ⟨rfl, rfl⟩
  | some cData =>
    refine .inr ⟨cData, rfl, ?_⟩
    dsimp only
    by_cases hcounter : 0 < cData.counter
    · rw [if_pos hcounter]
      by_cases hempty : cData.cacheUID.items = []
      · refine .inr (.inl ⟨hcounter, hempty, ?_⟩)
        unfold SortedMap.keys
        rw [if_pos hempty, hempty]
        rfl
      · obtain ⟨cache', hcache'⟩ := setData_isSome (not_beforeFirst_of_getData hdata)
          { cData with counter := cData.counter - 1 }
        refine .inr (.inr ⟨hcounter, hempty, cache', hcache', ?_⟩)
        rw [if_neg hempty, hcache']
        rfl
    · have hzero : cData.counter.toNat = 0 :=
        Nat.eq_zero_of_not_pos fun hpos => hcounter (UInt8.lt_iff_toNat_lt.mpr hpos)
      exact .inl ⟨UInt8.toNat_inj.mp hzero, if_neg hcounter⟩

/-- A write for an algorithm makes it no new first one, of no AS. -/
theorem not_beforeFirst_setData (h : cache.setData key cData = some cache') {asn : UInt32}
    (hasn : ¬ cache.BeforeFirst asn key.algoID) : ¬ cache'.BeforeFirst asn key.algoID := by
  unfold SkiTree.setData at h
  split at h
  · cases h
  · next hkey =>
    obtain rfl := Option.some.inj h
    unfold SkiTree.BeforeFirst at hasn ⊢
    rw [algos_setAlgos]
    by_cases heq : asn = key.asn
    · subst heq
      rw [if_pos rfl]
      rintro ⟨first, hfirst, hlt⟩
      obtain ⟨first', hfirst', hle⟩ := SortedMap.first_insert toNat8_injective
        (cache.algos key.asn) key.algoID
        (SortedMap.insert bytesRank_injective
          (((cache.algos key.asn).find key.algoID).getD SortedMap.empty) key.ski cData)
        fun k hk => Nat.not_lt.mp fun hn => hkey ⟨k, hk, UInt8.lt_iff_toNat_lt.mpr hn⟩
      rw [hfirst] at hfirst'
      obtain rfl := Option.some.inj hfirst'
      exact absurd (UInt8.lt_iff_toNat_lt.mp hlt) (Nat.not_lt.mpr hle)
    · rw [if_neg heq]
      exact hasn

/-! ## Parsing a well-formed attribute -/

open HashMessageLemmas

variable {mem : Bytes} {attr : BgpsecPath} {block first second : SignatureBlock}

theorem htonl_htonl (n : UInt32) : htonl (htonl n) = n := by
  apply le32_injective
  have hrev : be32 (htonl n) = (be32 n).reverse := by
    rw [← le32_htonl n]
    exact (List.reverse_reverse _).symm
  rw [le32_htonl, hrev]
  rfl

theorem readAsns_path (path : List SecurePathSegment) {ptr : Nat}
    (h : HoldsAt mem ptr (path.flatMap SecurePathSegment.encode)) :
    readAsns mem path.length ptr = some (path.map (·.asn)) := by
  induction path generalizing ptr with
  | nil => rfl
  | cons seg path ih =>
    rw [List.flatMap_cons] at h
    have hasn : HoldsAt mem (ptr + 2) (le32 (htonl seg.asn)) := by
      rw [le32_htonl]
      exact h.left.right
    have hrest := ih h.right
    rw [length_pathSegment] at hrest
    rw [List.length_cons, readAsns, hasn.le32At_eq, hrest]
    simp only [Option.bind_eq_bind, Option.bind_some, htonl_htonl, List.map_cons]

theorem readSkis_segments (sigs : List SignatureSegment) {ptr : Nat}
    (h : HoldsAt mem ptr (sigs.flatMap SignatureSegment.encode)) :
    readSkis mem sigs.length ptr = some (sigs.flatMap fun sig => sig.ski.toList) := by
  induction sigs generalizing ptr with
  | nil => rfl
  | cons sig sigs ih =>
    rw [List.flatMap_cons] at h
    have hski := h.left.left.left.readAt_eq
    have hlen := h.left.left.right.be16At_eq
    rw [Vector.length_toList] at hski hlen
    have hrest := h.right
    rw [length_signatureSegment, ← Nat.add_assoc] at hrest
    rw [List.length_cons, readSkis, hski, hlen]
    simp only [Option.bind_eq_bind, Option.bind_some, toNat_ofNat16 sig.sigLen]
    rw [ih hrest, Option.bind_some, List.flatMap_cons]

theorem ofNat16_ne_zero {n : Nat} (hpos : 0 < n) (hlt : n < 65536) : UInt16.ofNat n ≠ 0 := by
  intro hzero
  have hn : n = 0 := by
    rw [← toNat_ofNat16 hlt, hzero]
    rfl
  exact absurd hn (Nat.ne_of_gt hpos)

theorem block_pos (block : SignatureBlock) : 0 < block.length :=
  Nat.lt_of_lt_of_le (by decide) (Nat.le_add_right 3 _)

/-- The parser finds the AS numbers, and behind the path what stands in the blocks. -/
theorem parse_of_blocks (hne : attr.blocks ≠ []) :
    ∃ p, HoldsAt attr.encode p (attr.blocks.flatMap SignatureBlock.encode) ∧
      ∀ ptrs,
        sigBlocks attr.encode p
          (UInt16.ofNat (attr.blocks.flatMap SignatureBlock.encode).length) = some (some ptrs) →
        parseBgpsecPath attr.encode =
          if ptrs.length = bgpsecMaxSigBlocks then none
          else (do
            let algoID ← ptrs.mapM fun block => attr.encode[block + 2]?
            let skis ← ptrs.mapM fun block => readSkis attr.encode attr.path.length (block + 3)
            some (some ⟨UInt16.ofNat attr.path.length, attr.path.map (·.asn), algoID,
              skis.flatten⟩)) := by
  obtain ⟨ptr, hlength, hvalue⟩ := attrLength_encode attr
  have hfits := value_fits attr
  have hlen := length_encodeValue attr.path attr.blocks
  have hpos : 0 < (attr.blocks.flatMap SignatureBlock.encode).length := by
    cases hblocks : attr.blocks with
    | nil => exact absurd hblocks hne
    | cons block blocks =>
      rw [List.flatMap_cons, List.length_append, length_block]
      exact Nat.add_pos_left (block_pos block) _
  have hn : (UInt16.ofNat attr.path.length).toNat = attr.path.length := toNat_ofNat16 (path_fits attr)
  -- the fields of the value
  have hsecLen : attr.encode.be16At ptr = some (UInt16.ofNat (2 + 6 * attr.path.length)) :=
    hvalue.left.left.be16At_eq
  have hpath : HoldsAt attr.encode (ptr + 2) (attr.path.flatMap SecurePathSegment.encode) :=
    hvalue.left.right
  have hblocks := hvalue.right
  rw [List.length_append, length_be16, length_flatMap_path, Nat.mul_comm 6, ← Nat.add_assoc] at hblocks
  refine ⟨_, hblocks, fun ptrs hptrs => ?_⟩
  generalize attr.blocks.flatMap SignatureBlock.encode = rest at hlen hpos hptrs
  -- the lengths
  have hrem : UInt16.ofNat (encodeValue attr.path attr.blocks).length - 2 -
      UInt16.ofNat attr.path.length * 6 = UInt16.ofNat rest.length := by
    apply UInt16.toNat_inj.mp
    rw [UInt16.toNat_sub, UInt16.toNat_sub, UInt16.toNat_mul, hn, toNat_ofNat16 hfits, hlen,
      toNat_ofNat16 (by omega : rest.length < 65536)]
    simp only [UInt16.reduceToNat]
    omega
  have hrem0 : UInt16.ofNat (encodeValue attr.path attr.blocks).length ≠ 0 :=
    ofNat16_ne_zero (by omega) hfits
  have hrem2 : UInt16.ofNat (encodeValue attr.path attr.blocks).length - 2 ≠ 0 := by
    intro h
    have := congrArg UInt16.toNat h
    rw [UInt16.toNat_sub, toNat_ofNat16 hfits, hlen] at this
    simp only [UInt16.reduceToNat] at this
    omega
  have hsegments : (2 + 6 * attr.path.length - 2) / 6 = attr.path.length := by omega
  unfold parseBgpsecPath
  rw [hlength]
  simp only [Option.bind_eq_bind, Option.bind_some, if_neg hrem0, hsecLen]
  rw [toNat_ofNat16 (by omega : 2 + 6 * attr.path.length < 65536), hsegments, if_neg hrem2, hn, hrem,
    hptrs]
  simp only [Option.bind_some]
  rw [readAsns_path attr.path hpath]
  rfl

/-- What the parser reads of a block. -/
theorem read_block {attr : Bytes} {p n : Nat} (h : HoldsAt attr p block.encode)
    (hsigned : block.segments.length = n) :
    attr.be16At p = some (UInt16.ofNat block.length) ∧ attr[p + 2]? = some block.algoID ∧
      readSkis attr n (p + 3) = some (block.segments.flatMap fun sig => sig.ski.toList) := by
  refine ⟨h.left.left.be16At_eq, h.left.right.getElem?_eq, ?_⟩
  rw [← hsigned]
  exact readSkis_segments block.segments h.right

theorem sigBlocks_one {attr : Bytes} {p : Nat} (h : HoldsAt attr p block.encode)
    (hfits : block.length < 65536) :
    sigBlocks attr p (UInt16.ofNat block.length) = some (some [p]) := by
  unfold sigBlocks
  rw [if_neg (ofNat16_ne_zero (block_pos block) hfits), (read_block h rfl).1]
  simp only [Option.bind_eq_bind, Option.bind_some, UInt16.sub_self, if_true]

/-- The parser finds the AS numbers, the algorithm and the SKIs of an attribute with one block. -/
theorem parse_encode (hblocks : attr.blocks = [block]) :
    parseBgpsecPath attr.encode =
      some (some ⟨UInt16.ofNat attr.path.length, attr.path.map (·.asn), [block.algoID],
        block.segments.flatMap fun sig => sig.ski.toList⟩) := by
  have hne : attr.blocks ≠ [] := by
    rw [hblocks]
    exact List.cons_ne_nil _ _
  have hsigned : block.segments.length = attr.path.length :=
    attr.signed block (by rw [hblocks]; exact List.mem_singleton_self block)
  have hfits : block.length < 65536 := Nat.lt_of_le_of_lt (Nat.le_add_left _ _)
    (length_attr_block attr (by rw [hblocks]; exact List.mem_singleton_self block))
  obtain ⟨p, hblock, hparse⟩ := parse_of_blocks hne
  rw [hblocks, List.flatMap_singleton] at hblock hparse
  rw [length_block] at hparse
  obtain ⟨-, halgo, hskis⟩ := read_block hblock hsigned
  have hone : [p].length ≠ bgpsecMaxSigBlocks := Nat.ne_of_lt (Nat.lt_succ_self 1)
  rw [hparse [p] (sigBlocks_one hblock hfits), if_neg hone]
  simp only [List.mapM_cons, List.mapM_nil, halgo, hskis, Option.pure_def, Option.bind_eq_bind,
    Option.bind_some, List.flatten_cons, List.flatten_nil, List.append_nil]

/-- The parser finds both blocks, one behind the other. -/
theorem sigBlocks_two {attr : Bytes} {p : Nat} (h₁ : HoldsAt attr p first.encode)
    (h₂ : HoldsAt attr (p + first.length) second.encode)
    (hfits : first.length + second.length < 65536) :
    sigBlocks attr p (UInt16.ofNat (first.length + second.length)) =
      some (some [p, p + first.length]) := by
  have hfits₁ : first.length < 65536 := Nat.lt_of_le_of_lt (Nat.le_add_right _ _) hfits
  have hfits₂ : second.length < 65536 := Nat.lt_of_le_of_lt (Nat.le_add_left _ _) hfits
  have hsum0 := ofNat16_ne_zero (Nat.add_pos_left (block_pos first) second.length) hfits
  have hsub : UInt16.ofNat (first.length + second.length) - UInt16.ofNat first.length =
      UInt16.ofNat second.length := by
    rw [UInt16.ofNat_add, UInt16.add_comm, UInt16.add_sub_cancel]
  unfold sigBlocks
  rw [if_neg hsum0, (read_block h₁ rfl).1]
  simp only [Option.bind_eq_bind, Option.bind_some]
  rw [hsub, if_neg (ofNat16_ne_zero (block_pos second) hfits₂), toNat_ofNat16 hfits₁,
    (read_block h₂ rfl).1, Option.bind_some, UInt16.sub_self, if_pos rfl]

/-- With two blocks the parser does not come back. -/
theorem parse_two (hblocks : attr.blocks = [first, second]) : parseBgpsecPath attr.encode = none := by
  have hne : attr.blocks ≠ [] := by
    rw [hblocks]
    exact List.cons_ne_nil _ _
  have hfits : first.length + second.length < 65536 := by
    have hvalue := value_fits attr
    rw [length_encodeValue, hblocks, List.flatMap_cons, List.flatMap_singleton, List.length_append,
      length_block, length_block] at hvalue
    exact Nat.lt_of_le_of_lt (Nat.le_add_left _ _) hvalue
  obtain ⟨p, hboth, hparse⟩ := parse_of_blocks hne
  rw [hblocks, List.flatMap_cons, List.flatMap_singleton] at hboth hparse
  rw [List.length_append, length_block, length_block] at hparse
  have hsecond := hboth.right
  rw [length_block] at hsecond
  rw [hparse [p, p + first.length] (sigBlocks_two hboth.left hsecond hfits)]
  exact if_pos rfl

/-! ## The keys of an attribute with one block -/

theorem mapM_range {β : Type} {n : Nat} {f : Nat → Option β} {l : List β} (hlen : l.length = n)
    (h : ∀ i < n, f i = l[i]?) : (List.range n).mapM f = some l := by
  induction n generalizing l with
  | zero =>
    obtain rfl := List.length_eq_zero_iff.mp hlen
    rfl
  | succ n ih =>
    obtain ⟨init, last, rfl⟩ : ∃ init last, l = init ++ [last] := by
      rcases List.eq_nil_or_concat l with rfl | ⟨init, last, rfl⟩
      · cases hlen
      · exact ⟨init, last, List.concat_eq_append⟩
    have hinit : init.length = n := by
      rw [List.length_append, List.length_singleton] at hlen
      exact Nat.succ.inj hlen
    have hbefore : ∀ i < n, f i = init[i]? := by
      intro i hi
      rw [h i (Nat.lt_succ_of_lt hi), List.getElem?_append_left (by rw [hinit]; exact hi)]
    have hlast : f n = some last := by
      rw [h n (Nat.lt_succ_self n), ← hinit]
      exact List.getElem?_concat_length
    rw [List.range_succ, List.mapM_append, ih hinit hbefore]
    simp only [Option.bind_eq_bind, Option.bind_some, List.mapM_cons, List.mapM_nil, hlast,
      Option.pure_def]

/-- The SKI of a segment stands at its place. -/
theorem readAt_skis (sigs : List SignatureSegment) {i : Nat} {sig : SignatureSegment}
    (h : sigs[i]? = some sig) :
    Bytes.readAt (sigs.flatMap fun sig => sig.ski.toList) (i * 20) 20 = some sig.ski.toList := by
  obtain ⟨hi, rfl⟩ := List.getElem?_eq_some_iff.mp h
  have hlength (l : List SignatureSegment) :
      (l.flatMap fun sig => sig.ski.toList).length = l.length * 20 := by
    induction l with
    | nil => rfl
    | cons sig l ih =>
      rw [List.flatMap_cons, List.length_append, ih, Vector.length_toList, List.length_cons]
      omega
  have hholds : HoldsAt (sigs.flatMap fun sig => sig.ski.toList) (i * 20)
      sigs[i].ski.toList := by
    refine ⟨(sigs.take i).flatMap fun sig => sig.ski.toList,
      (sigs.drop (i + 1)).flatMap fun sig => sig.ski.toList, ?_, ?_⟩
    · conv_lhs => rw [← List.take_append_drop i sigs, List.drop_eq_getElem_cons hi]
      rw [List.flatMap_append, List.flatMap_cons, List.append_assoc]
    · rw [hlength, List.length_take, Nat.min_eq_left (Nat.le_of_lt hi)]
  have hread := hholds.readAt_eq
  rwa [Vector.length_toList] at hread

theorem length_blockKeys (h : block.segments.length = attr.path.length) :
    (blockKeys attr.path block).length = attr.path.length := by
  unfold blockKeys
  rw [List.length_zipWith, h, Nat.min_self]

/-- The key of a segment. -/
theorem keyAt_block (h : block.segments.length = attr.path.length) {i : Nat}
    (hi : i < attr.path.length) :
    UpdInfo.keyAt ⟨UInt16.ofNat attr.path.length, attr.path.map (·.asn), [block.algoID],
        block.segments.flatMap fun sig => sig.ski.toList⟩ (0, i) (i * 20) =
      (blockKeys attr.path block)[i]? := by
  have hseg := List.getElem?_eq_getElem hi
  have hsig := List.getElem?_eq_getElem (h ▸ hi : i < block.segments.length)
  unfold UpdInfo.keyAt blockKeys
  dsimp only
  rw [readAt_skis block.segments hsig, List.getElem?_map, hseg, List.getElem?_zipWith, hseg, hsig]
  rfl

variable {info : UpdInfo}

/-- With one block both functions walk through the keys of the block. -/
theorem keys_encode (hblocks : attr.blocks = [block])
    (hinfo : parseBgpsecPath attr.encode = some (some info)) :
    info.registerKeys = some (blockKeys attr.path block) ∧
      info.unregisterKeys = some (blockKeys attr.path block) := by
  have hsigned : block.segments.length = attr.path.length :=
    attr.signed block (by rw [hblocks]; exact List.mem_singleton_self block)
  rw [parse_encode hblocks] at hinfo
  obtain rfl := Option.some.inj (Option.some.inj hinfo)
  have hturns : UpdInfo.turns ⟨UInt16.ofNat attr.path.length, attr.path.map (·.asn),
      [block.algoID], block.segments.flatMap fun sig => sig.ski.toList⟩ =
        (List.range attr.path.length).map fun i => (0, i) := by
    unfold UpdInfo.turns
    dsimp only
    rw [toNat_ofNat16 (path_fits attr)]
    exact List.append_nil _
  unfold UpdInfo.registerKeys UpdInfo.unregisterKeys
  rw [hturns]
  constructor
  · rw [List.mapM_map]
    refine mapM_range (length_blockKeys hsigned) fun i hi => ?_
    rw [Function.comp_apply, Nat.mul_zero, Nat.add_zero]
    exact keyAt_block hsigned hi
  · have hzip : ((List.range attr.path.length).map fun i => ((0 : Nat), i)).zipIdx =
        (List.range attr.path.length).map fun i => ((0, i), i) := by
      refine List.ext_getElem? fun i => ?_
      rw [List.getElem?_zipIdx, List.getElem?_map, List.getElem?_map]
      cases hi : (List.range attr.path.length)[i]? with
      | none => rfl
      | some j =>
        have : j = i := by
          rw [List.getElem?_range (by
            have := (List.getElem?_eq_some_iff.mp hi).1
            rwa [List.length_range] at this)] at hi
          exact (Option.some.inj hi).symm
        rw [this, Option.map_some, Option.map_some, Option.map_some, Nat.zero_add]
    rw [hzip, List.mapM_map]
    exact mapM_range (length_blockKeys hsigned) fun i hi => keyAt_block hsigned hi

theorem mem_blockKeys {path : List SecurePathSegment} :
    key ∈ blockKeys path block ↔ block.algoID = key.algoID ∧
      ∃ (i : Nat) (seg : SecurePathSegment) (sig : SignatureSegment),
        path[i]? = some seg ∧ block.segments[i]? = some sig ∧
          seg.asn = key.asn ∧ sig.ski.toList = key.ski := by
  unfold blockKeys
  rw [List.mem_iff_getElem?]
  constructor
  · rintro ⟨i, hi⟩
    rw [List.getElem?_zipWith] at hi
    cases hseg : path[i]? with
    | none =>
      rw [hseg] at hi
      cases hi
    | some seg =>
      cases hsig : block.segments[i]? with
      | none =>
        rw [hseg, hsig] at hi
        cases hi
      | some sig =>
        rw [hseg, hsig] at hi
        obtain rfl := Option.some.inj hi
        exact ⟨rfl, i, seg, sig, hseg, hsig, rfl, rfl⟩
  · rintro ⟨halgo, i, seg, sig, hseg, hsig, hasn, hski⟩
    refine ⟨i, ?_⟩
    rw [List.getElem?_zipWith, hseg, hsig]
    cases key
    cases hasn
    cases hski
    cases halgo
    rfl

theorem names_iff : Names attr key ↔ key ∈ attrKeys attr := by
  unfold Names attrKeys
  rw [List.mem_flatMap]
  constructor
  · rintro ⟨block, hblock, h⟩
    exact ⟨block, hblock, mem_blockKeys.mpr h⟩
  · rintro ⟨block, hblock, h⟩
    exact ⟨block, hblock, mem_blockKeys.mp h⟩

end SkiCacheLemmas

end SrxSuite.Server

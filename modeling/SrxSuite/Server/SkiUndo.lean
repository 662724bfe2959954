import SrxSuite.Server.SkiNotices

/-!
# Unregistering an update from the SKI cache

`ski_registerUpdate`, and then `ski_unregisterUpdate` with the same identifier and attribute.

Results:
1. `unregister_undoes_iff`: the cache has the keys and the updates it had before if and only if the
   attribute has one signature block and no algorithm is inserted in front of the first one of its AS; an
   update with the identifier zero is not filed, and is to find no other update under its keys.
2. `two_not_undone`: with two signature blocks the registration does not come back.
-/

namespace SrxSuite.Server

open Crypto SkiNoticesLemmas

/-- The update is filed under no key. -/
def NotFiled (cache : SkiTree) (updateID : UInt32) : Prop :=
  ∀ key, updateID ∉ (dataOf cache key).cacheUID.keys

/-- The keys are counted as before and the same updates are filed under them. -/
def SameNodes (cache cache' : SkiTree) : Prop :=
  ∀ key, (dataOf cache' key).counter = (dataOf cache key).counter ∧
    ∀ u, u ∈ (dataOf cache' key).cacheUID.keys ↔ u ∈ (dataOf cache key).cacheUID.keys

/-- Both functions come back, and the cache is that before them. -/
def Undone (cache : SkiTree) (updateID : UInt32) (attr : BgpsecPath) : Prop :=
  ∃ cache₁ cache₂, skiRegisterUpdate cache updateID attr.encode = some cache₁ ∧
    skiUnregisterUpdate cache₁ updateID attr.encode = some cache₂ ∧ SameNodes cache cache₂

/-- No algorithm of the attribute comes before the first one of an AS in the path. -/
def InsertsInOrder (cache : SkiTree) (attr : BgpsecPath) : Prop :=
  ∀ seg ∈ attr.path, ∀ block ∈ attr.blocks, ∀ first ∈ (cache.algos seg.asn).first,
    first ≤ block.algoID

/-- There is no element for the identifier zero: no update is to be filed where one of the keys is. -/
def ZeroAlone (cache : SkiTree) (updateID : UInt32) (attr : BgpsecPath) : Prop :=
  updateID = 0 → ∀ key, Names attr key → (dataOf cache key).cacheUID.items = []

namespace SkiUndoLemmas

open SkiCacheLemmas HashMessageLemmas

variable {cache cache' : SkiTree} {key : SkiKey} {keys : List SkiKey} {updateID : UInt32}
  {algoID : UInt8} {attr : BgpsecPath}

/-! ## One turn -/

/-- The update can be filed with the data: there is no element for the identifier zero. -/
def Fileable (updateID : UInt32) (cache : SkiTree) (key : SkiKey) : Prop :=
  updateID = 0 → (dataOf cache key).cacheUID.items = []

/-- The updates with one registration more. -/
def addedUID (l : UidList) (updateID : UInt32) : UidList :=
  if updateID = 0 then l
  else l.insert uidRank_injective updateID ((l.find updateID).getD 0 + 1)

theorem addUpdateCacheUID_eq {cData : SkiData} (h : updateID = 0 → cData.cacheUID.items = []) :
    addUpdateCacheUID cData updateID =
      some { cData with cacheUID := addedUID cData.cacheUID updateID } := by
  unfold addUpdateCacheUID addedUID
  split
  · next hzero => rw [if_pos (h hzero)]
  · cases cData.cacheUID.find updateID with
    | none => rfl
    | some counter => rfl

theorem addUpdateCacheUID_none {cData : SkiData} (h : ¬ (updateID = 0 → cData.cacheUID.items = [])) :
    addUpdateCacheUID cData updateID = none := by
  obtain ⟨hzero, hitems⟩ := Classical.not_imp.mp h
  unfold addUpdateCacheUID
  rw [if_pos hzero, if_neg hitems]

/-- A turn of `ski_registerUpdate` is defined if and only if the algorithm is not a new first one and
the update can be filed. -/
theorem registerTurn_isSome : (registerTurn updateID cache key).isSome ↔
    ¬ cache.BeforeFirst key.asn key.algoID ∧ Fileable updateID cache key := by
  unfold registerTurn Fileable dataOf
  by_cases hfile : updateID = 0 → ((cache.getData key).getD newSkiData).cacheUID.items = []
  · rw [addUpdateCacheUID_eq hfile]
    dsimp only [Option.bind_eq_bind, Option.bind_some]
    unfold SkiTree.setData
    split
    · next hfirst => exact iff_of_false Bool.false_ne_true fun h => h.1 hfirst
    · next hfirst => exact iff_of_true rfl ⟨hfirst, hfile⟩
  · rw [addUpdateCacheUID_none hfile]
    exact iff_of_false Bool.false_ne_true fun h => hfile h.2

/-- What a turn of `ski_registerUpdate` changes. -/
theorem registerTurn_dataSet (h : registerTurn updateID cache key = some cache') :
    DataSet cache cache' key { dataOf cache key with
      cacheUID := addedUID (dataOf cache key).cacheUID updateID } := by
  have hfile := (registerTurn_isSome.mp (by rw [h]; rfl)).2
  unfold registerTurn at h
  rw [← dataOf, addUpdateCacheUID_eq hfile] at h
  exact dataSet_setData h

/-- The first algorithms after a write. -/
theorem first_setData {cData : SkiData} (h : cache.setData key cData = some cache') (asn : UInt32) :
    (cache'.algos asn).first = if asn = key.asn then some ((cache.algos asn).first.getD key.algoID)
      else (cache.algos asn).first := by
  unfold SkiTree.setData at h
  split at h
  · cases h
  · next hkey =>
    obtain rfl := Option.some.inj h
    rw [algos_setAlgos]
    split
    · next heq =>
      subst heq
      exact SortedMap.first_insert_eq _ _ _ _ fun k hk =>
        Nat.not_lt.mp fun hn => hkey ⟨k, hk, UInt8.lt_iff_toNat_lt.mpr hn⟩
    · rfl

theorem registerTurn_first (h : registerTurn updateID cache key = some cache') (asn : UInt32) :
    (cache'.algos asn).first = if asn = key.asn then some ((cache.algos asn).first.getD key.algoID)
      else (cache.algos asn).first := by
  obtain ⟨cData, -, hset⟩ := Option.bind_eq_some_iff.mp h
  exact first_setData hset asn

/-- Whether an update can be filed does not depend on what was filed before. -/
theorem registerTurn_fileable (h : registerTurn updateID cache key = some cache') (key' : SkiKey) :
    Fileable updateID cache' key' ↔ Fileable updateID cache key' := by
  unfold Fileable
  refine forall_congr' fun hzero => ?_
  rw [registerTurn_dataSet h key']
  split
  · next heq =>
    subst heq
    unfold addedUID
    rw [if_pos hzero]
  · rfl

theorem registerTurn_beforeFirst (h : registerTurn updateID cache key = some cache') (asn : UInt32) :
    cache'.BeforeFirst asn key.algoID ↔ cache.BeforeFirst asn key.algoID := by
  have horder := (registerTurn_isSome.mp (by rw [h]; rfl)).1
  unfold SkiTree.BeforeFirst at horder ⊢
  rw [registerTurn_first h]
  split
  · next heq =>
    subst heq
    refine iff_of_false ?_ horder
    rintro ⟨first, hfirst, hlt⟩
    cases hold : (cache.algos key.asn).first with
    | none =>
      rw [hold] at hfirst
      obtain rfl := Option.some.inj hfirst
      exact absurd hlt (UInt8.lt_irrefl _)
    | some first' =>
      rw [hold] at hfirst
      exact horder ⟨first, hold ▸ hfirst, hlt⟩
  · rfl

/-! ## One block -/

/-- The loop over the keys of one algorithm is defined if and only if every turn is at the start. -/
theorem registerFold_isSome (halgo : ∀ key ∈ keys, key.algoID = algoID) :
    (keys.foldlM (registerTurn updateID) cache).isSome ↔
      ∀ key ∈ keys, ¬ cache.BeforeFirst key.asn algoID ∧ Fileable updateID cache key := by
  induction keys generalizing cache with
  | nil => exact iff_of_true rfl fun _ h => absurd h List.not_mem_nil
  | cons key keys ih =>
    obtain rfl := halgo key List.mem_cons_self
    have hrest := fun key' h => halgo key' (List.mem_cons_of_mem key h)
    rw [List.foldlM_cons, List.forall_mem_cons]
    cases hturn : registerTurn updateID cache key with
    | none =>
      have hnot := registerTurn_isSome.not.mp (by rw [hturn]; exact Bool.false_ne_true)
      exact iff_of_false Bool.false_ne_true fun h => hnot h.1
    | some cache₁ =>
      have hhere := registerTurn_isSome.mp (by rw [hturn]; rfl)
      rw [and_iff_right hhere]
      refine (ih hrest).trans (forall₂_congr fun key' _ => ?_)
      rw [registerTurn_beforeFirst hturn, registerTurn_fileable hturn]

/-! ## Counting -/

/-- `cache'` is `cache` with `n key` registrations of the update under a key. -/
def Tracks (cache cache' : SkiTree) (updateID : UInt32) (n : SkiKey → Nat) : Prop :=
  ∀ key, (dataOf cache' key).counter = (dataOf cache key).counter ∧
    (∀ u ≠ updateID, (dataOf cache' key).cacheUID.find u = (dataOf cache key).cacheUID.find u) ∧
      ((dataOf cache' key).cacheUID.find updateID).map UInt16.toNat =
        if n key = 0 then none else some (n key)

theorem find_addedUID (l : UidList) (updateID u : UInt32) :
    (addedUID l updateID).find u =
      if u = updateID ∧ updateID ≠ 0 then some ((l.find updateID).getD 0 + 1) else l.find u := by
  unfold addedUID
  split
  · next hzero => rw [if_neg fun h => h.2 hzero]
  · next hne =>
    rw [SortedMap.find_insert]
    split
    · next heq => rw [if_pos ⟨heq, hne⟩]
    · next hu => rw [if_neg fun h => hu h.1]

theorem find_removeUID (l : UidList) (updateID u : UInt32) :
    (removeUID l updateID).find u = if u = updateID then
      (l.find u).bind fun counter => if counter - 1 = 0 then none else some (counter - 1)
      else l.find u := by
  unfold removeUID
  cases hfind : l.find updateID with
  | none =>
    dsimp only
    split
    · next heq =>
      rw [heq, hfind]
      rfl
    · rfl
  | some counter =>
    dsimp only
    split
    · next hlast =>
      rw [SortedMap.find_erase]
      split
      · next heq =>
        rw [heq, hfind, Option.bind_some, if_pos hlast]
      · rfl
    · next hmore =>
      rw [SortedMap.find_insert]
      split
      · next heq =>
        rw [heq, hfind, Option.bind_some, if_neg hmore]
      · rfl

variable {base : SkiTree} {n : SkiKey → Nat}

theorem Tracks.congr {m : SkiKey → Nat} (h : Tracks base cache updateID n)
    (heq : ∀ key, n key = m key) : Tracks base cache updateID m := by
  obtain rfl : n = m := funext heq
  exact h

/-- The data of one key change, and with them the number of its registrations. -/
theorem Tracks.set {l : UidList} {k : Nat} (h : Tracks base cache updateID n)
    (hset : DataSet cache cache' key { dataOf cache key with cacheUID := l })
    (hothers : ∀ u ≠ updateID, l.find u = (dataOf cache key).cacheUID.find u)
    (hk : (l.find updateID).map UInt16.toNat = if k = 0 then none else some k) :
    Tracks base cache' updateID (Function.update n key k) := by
  intro key'
  rw [hset key']
  by_cases heq : key' = key
  · subst heq
    obtain ⟨hcounter, hsame, -⟩ := h key'
    rw [if_pos rfl, Function.update_self]
    exact ⟨hcounter, fun u hu => (hothers u hu).trans (hsame u hu), hk⟩
  · rw [if_neg heq, Function.update_of_ne heq]
    exact h key'

/-- What a turn of `ski_registerUpdate` counts. -/
def turnCount (updateID : UInt32) : Nat := if updateID = 0 then 0 else 1

theorem Tracks.register (h : Tracks base cache updateID n)
    (hturn : registerTurn updateID cache key = some cache') (hn : n key + 1 < 65536) :
    Tracks base cache' updateID (Function.update n key (n key + turnCount updateID)) := by
  refine h.set (registerTurn_dataSet hturn) (fun u hu => ?_) ?_
  · rw [find_addedUID, if_neg fun hboth => hu hboth.1]
  · obtain ⟨-, -, hcount⟩ := h key
    rw [find_addedUID]
    unfold turnCount
    by_cases hzero : updateID = 0
    · rw [if_neg fun hboth => hboth.2 hzero, if_pos hzero, Nat.add_zero]
      exact hcount
    · rw [if_pos ⟨rfl, hzero⟩, if_neg hzero, if_neg (Nat.succ_ne_zero _), Option.map_some,
        UInt16.toNat_add]
      have hold : (((dataOf cache key).cacheUID.find updateID).getD 0).toNat = n key := by
        cases hfind : (dataOf cache key).cacheUID.find updateID with
        | none =>
          rw [hfind] at hcount
          split at hcount
          · next hnone => exact hnone.symm
          · cases hcount
        | some counter =>
          rw [hfind] at hcount
          split at hcount
          · cases hcount
          · exact Option.some.inj hcount
      rw [hold]
      exact congrArg some (Nat.mod_eq_of_lt hn)

theorem Tracks.unregister (h : Tracks base cache updateID n) (key : SkiKey) :
    ∃ cache', unregisterTurn updateID cache key = some cache' ∧
      Tracks base cache' updateID (Function.update n key (n key - 1)) := by
  obtain ⟨cache', hturn, hset⟩ := unregisterTurn_spec updateID cache key
  refine ⟨cache', hturn, h.set hset (fun u hu => ?_) ?_⟩
  · rw [find_removeUID, if_neg hu]
  · obtain ⟨-, -, hcount⟩ := h key
    rw [find_removeUID, if_pos rfl]
    cases hfind : (dataOf cache key).cacheUID.find updateID with
    | none =>
      rw [hfind] at hcount
      split at hcount
      · next hnone =>
        rw [hnone]
        rfl
      · cases hcount
    | some counter =>
      rw [hfind] at hcount
      split at hcount
      · cases hcount
      · next hpos =>
        have hcounter : counter.toNat = n key := Option.some.inj hcount
        have hlt := counter.toNat_lt
        have hsub : (counter - 1).toNat = n key - 1 := by
          rw [UInt16.toNat_sub, hcounter]
          simp only [UInt16.reduceToNat]
          omega
        rw [Option.bind_some]
        split
        · next hlast =>
          rw [← hsub, hlast]
          rfl
        · next hmore =>
          have hne : n key - 1 ≠ 0 := fun hzero => hmore (UInt16.toNat_inj.mp (hsub.trans hzero))
          rw [if_neg hne, Option.map_some, hsub]

/-- The loop of `ski_registerUpdate`. -/
theorem Tracks.registerFold (h : Tracks base cache updateID n)
    (hfold : keys.foldlM (registerTurn updateID) cache = some cache')
    (hn : ∀ key, n key + keys.count key < 65536) :
    Tracks base cache' updateID fun key => n key + keys.count key * turnCount updateID := by
  induction keys generalizing cache n with
  | nil =>
    obtain rfl := Option.some.inj hfold
    refine h.congr fun key => ?_
    rw [List.count_nil, Nat.zero_mul, Nat.add_zero]
  | cons key keys ih =>
    rw [List.foldlM_cons] at hfold
    obtain ⟨cache₁, hturn, hrest⟩ := Option.bind_eq_some_iff.mp hfold
    have hle : turnCount updateID ≤ 1 := by
      unfold turnCount
      split
      · exact Nat.zero_le 1
      · exact Nat.le_refl 1
    have hfirst : n key + 1 < 65536 := by
      have := hn key
      rw [List.count_cons_self] at this
      omega
    have hcount (key' : SkiKey) : Function.update n key (n key + turnCount updateID) key' =
        n key' + (if key = key' then 1 else 0) * turnCount updateID := by
      by_cases heq : key' = key
      · subst heq
        rw [Function.update_self, if_pos rfl, Nat.one_mul]
      · rw [Function.update_of_ne heq, if_neg (Ne.symm heq), Nat.zero_mul, Nat.add_zero]
    have hcons (key' : SkiKey) : (key :: keys).count key' =
        keys.count key' + if key = key' then 1 else 0 := by
      rw [List.count_cons]
      simp only [beq_iff_eq]
    have hall := ih (h.register hturn hfirst) hrest fun key' => by
      have := hn key'
      rw [hcons] at this
      rw [hcount]
      split at this
      · next heq =>
        rw [if_pos heq]
        omega
      · next hne =>
        rw [if_neg hne]
        omega
    refine hall.congr fun key' => ?_
    rw [hcount, hcons, Nat.add_mul, Nat.add_assoc, Nat.add_comm (_ * _)]

/-- The loop of `ski_unregisterUpdate`. -/
theorem Tracks.unregisterFold (h : Tracks base cache updateID n) (keys : List SkiKey) :
    ∃ cache', keys.foldlM (unregisterTurn updateID) cache = some cache' ∧
      Tracks base cache' updateID fun key => n key - keys.count key := by
  induction keys generalizing cache n with
  | nil => exact ⟨cache, rfl, h⟩
  | cons key keys ih =>
    obtain ⟨cache₁, hturn, h₁⟩ := h.unregister key
    obtain ⟨cache', hfold, h'⟩ := ih h₁
    refine ⟨cache', ?_, h'.congr fun key' => ?_⟩
    · rw [List.foldlM_cons, hturn]
      exact hfold
    · rw [List.count_cons]
      by_cases heq : key' = key
      · subst heq
        rw [Function.update_self, if_pos (beq_self_eq_true key'), Nat.sub_sub, Nat.add_comm]
      · have hkey : ¬ (key == key') = true := fun h => heq (eq_of_beq h).symm
        rw [Function.update_of_ne heq, if_neg hkey, Nat.add_zero]

/-! ## The keys of an attribute -/

variable {path : List SecurePathSegment} {block : SignatureBlock}

theorem asns_blockKeys (h : block.segments.length = path.length) :
    (blockKeys path block).map (·.asn) = path.map (·.asn) := by
  have hzip : (blockKeys path block).map (·.asn) =
      ((path.zip block.segments).map Prod.fst).map (·.asn) := by
    unfold blockKeys
    rw [List.map_zipWith, List.map_map, List.map_zip_eq_zipWith]
    rfl
  rw [hzip, List.map_fst_zip (Nat.le_of_eq h.symm)]

theorem algo_blockKeys : ∀ key ∈ blockKeys path block, key.algoID = block.algoID :=
  fun _ hkey => (mem_blockKeys.mp hkey).1.symm

theorem forall_blockKeys {P : UInt32 → Prop} (h : block.segments.length = path.length) :
    (∀ key ∈ blockKeys path block, P key.asn) ↔ ∀ seg ∈ path, P seg.asn := by
  have hmap := asns_blockKeys h
  have hkeys := List.forall_mem_map (f := SkiKey.asn) (l := blockKeys path block) (P := P)
  have hsegs := List.forall_mem_map (f := SecurePathSegment.asn) (l := path) (P := P)
  rw [← hkeys, hmap, hsegs]

theorem not_beforeFirst_iff {asn : UInt32} : ¬ cache.BeforeFirst asn algoID ↔
    ∀ first ∈ (cache.algos asn).first, first ≤ algoID := by
  unfold SkiTree.BeforeFirst
  constructor
  · intro h first hfirst
    exact UInt8.not_lt.mp fun hlt => h ⟨first, hfirst, hlt⟩
  · rintro h ⟨first, hfirst, hlt⟩
    exact absurd hlt (UInt8.not_lt.mpr (h first hfirst))

/-- `ski_registerUpdate` comes back if and only if the algorithm is in order and the update can be filed
under every key. -/
theorem registerUpdate_isSome (hone : attr.blocks.length = 1) :
    (skiRegisterUpdate cache updateID attr.encode).isSome ↔
      InsertsInOrder cache attr ∧ ZeroAlone cache updateID attr := by
  obtain ⟨block, hblock⟩ := List.length_eq_one_iff.mp hone
  have hsigned : block.segments.length = attr.path.length :=
    attr.signed block (by rw [hblock]; exact List.mem_singleton_self block)
  have hkeys : attrKeys attr = blockKeys attr.path block := by
    unfold attrKeys
    rw [hblock, List.flatMap_singleton]
  have hasns := forall_blockKeys (P := fun asn => ¬ cache.BeforeFirst asn block.algoID) hsigned
  rw [(@skiRegisterUpdate_encode cache updateID attr hone).1, hkeys, registerFold_isSome algo_blockKeys,
    forall₂_and, hasns]
  refine and_congr (forall₂_congr fun seg _ => ?_) ?_
  · rw [hblock, List.forall_mem_singleton, not_beforeFirst_iff]
  · unfold ZeroAlone Fileable
    simp only [names_iff, hkeys]
    exact ⟨fun h hzero key hkey => h key hkey hzero, fun h key hkey hzero => h hzero key hkey⟩

/-- With two signature blocks neither function comes back. -/
theorem skiUpdate_two (h : attr.blocks.length ≠ 1) :
    skiRegisterUpdate cache updateID attr.encode = none ∧
      skiUnregisterUpdate cache updateID attr.encode = none := by
  obtain ⟨first, second, hblocks⟩ := List.length_eq_two.mp (attr.blockCount.resolve_left h)
  unfold skiRegisterUpdate skiUnregisterUpdate
  rw [parse_two hblocks]
  exact ⟨rfl, rfl⟩

/-! ## Both functions -/

/-- A counter has room for all keys of an attribute. -/
theorem length_attrKeys (hone : attr.blocks.length = 1) : (attrKeys attr).length < 65536 := by
  obtain ⟨block, hblock⟩ := List.length_eq_one_iff.mp hone
  have hsigned := attr.signed block (by rw [hblock]; exact List.mem_singleton_self block)
  have hlen := length_encodeValue attr.path attr.blocks
  have hfits := value_fits attr
  rw [attrKeys, hblock, List.flatMap_singleton, length_blockKeys hsigned]
  omega

/-- An update that is filed nowhere. -/
theorem tracks_refl (h : NotFiled cache updateID) : Tracks cache cache updateID fun _ => 0 := by
  intro key
  refine ⟨rfl, fun _ _ => rfl, ?_⟩
  rw [if_pos rfl, Option.map_eq_none_iff]
  exact Option.not_isSome_iff_eq_none.mp fun hsome => h key ((SortedMap.mem_keys _ _).mpr hsome)

/-- The nodes are the same if and only if no registration is left. -/
theorem sameNodes_iff {n : SkiKey → Nat} (hnew : NotFiled cache updateID)
    (h : Tracks cache cache' updateID n) : SameNodes cache cache' ↔ ∀ key, n key = 0 := by
  refine forall_congr' fun key => ?_
  obtain ⟨hcounter, hothers, hcount⟩ := h key
  rw [and_iff_right hcounter]
  have hmem : updateID ∈ (dataOf cache' key).cacheUID.keys ↔ n key ≠ 0 := by
    rw [SortedMap.mem_keys, ← Option.isSome_map (f := UInt16.toNat), hcount]
    split
    · next hzero => exact iff_of_false Bool.false_ne_true fun hne => hne hzero
    · next hne => exact iff_of_true rfl hne
  constructor
  · intro hsame
    by_contra hne
    exact hnew key ((hsame updateID).mp (hmem.mpr hne))
  · intro hzero u
    by_cases hu : u = updateID
    · subst hu
      exact iff_of_false (fun hin => hmem.mp hin hzero) (hnew key)
    · rw [SortedMap.mem_keys, SortedMap.mem_keys, hothers u hu]

end SkiUndoLemmas

open SkiUndoLemmas

/-- Registering an update that is not registered, and unregistering it, leaves the cache as it was if
and only if the attribute has one signature block, its algorithm is in order, and an update with the
identifier zero meets no other. -/
theorem unregister_undoes_iff (cache : SkiTree) (updateID : UInt32) (attr : BgpsecPath)
    (hnew : NotFiled cache updateID) :
    Undone cache updateID attr ↔ attr.blocks.length = 1 ∧ InsertsInOrder cache attr ∧
      ZeroAlone cache updateID attr := by
  by_cases hone : attr.blocks.length = 1
  · rw [and_iff_right hone, ← registerUpdate_isSome hone]
    constructor
    · rintro ⟨cache₁, -, hcache₁, -⟩
      rw [hcache₁]
      rfl
    · intro hsome
      obtain ⟨cache₁, hcache₁⟩ := Option.isSome_iff_exists.mp hsome
      obtain ⟨hregister, -, -⟩ := @skiRegisterUpdate_encode cache updateID attr hone
      obtain ⟨-, hunregister, -⟩ := @skiRegisterUpdate_encode cache₁ updateID attr hone
      have hlength := length_attrKeys hone
      have htracks₁ : Tracks cache cache₁ updateID _ :=
        (tracks_refl hnew).registerFold (hregister.symm.trans hcache₁) fun key => by
          have := List.count_le_length (a := key) (l := attrKeys attr)
          omega
      obtain ⟨cache₂, hcache₂, htracks₂⟩ := htracks₁.unregisterFold (attrKeys attr)
      refine ⟨cache₁, cache₂, hcache₁, hunregister.trans hcache₂, ?_⟩
      refine (sameNodes_iff hnew htracks₂).mpr fun key => ?_
      -- every key is taken out as often as it was filed
      unfold turnCount
      split
      · rw [Nat.mul_zero, Nat.add_zero, Nat.zero_sub]
      · rw [Nat.zero_add, Nat.mul_one, Nat.sub_self]
  · refine iff_of_false ?_ fun h => hone h.1
    rintro ⟨cache₁, -, hcache₁, -⟩
    rw [(skiUpdate_two hone).1] at hcache₁
    cases hcache₁

theorem notFiled_empty (updateID : UInt32) : NotFiled SortedMap.empty updateID :=
  fun _ h => absurd h List.not_mem_nil

theorem undone_oneBlock : Undone SortedMap.empty 3 SkiSystem.oneBlock := by
  refine (unregister_undoes_iff _ _ _ (notFiled_empty 3)).mpr ⟨rfl, ?_, fun hzero => ?_⟩
  · intro seg _ block _ first hfirst
    cases hfirst
  · cases hzero

/-- The registration of an attribute with two signature blocks does not come back. -/
theorem two_not_undone :
    NotFiled SortedMap.empty 3 ∧ ¬ Undone SortedMap.empty 3 SkiSystem.twoBlocks := by
  refine ⟨notFiled_empty 3, ?_⟩
  rintro ⟨cache₁, -, hcache₁, -⟩
  have htwo : SkiSystem.twoBlocks.blocks.length ≠ 1 := by decide
  rw [(skiUpdate_two htwo).1] at hcache₁
  cases hcache₁

end SrxSuite.Server

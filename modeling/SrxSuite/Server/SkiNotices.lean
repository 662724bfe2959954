import SrxSuite.Lib.Runs
import SrxSuite.Server.SkiCache

/-!
# Notices of the SKI cache

A router key that comes or goes makes the updates wait for validation that need it. `SkiSystem` runs
the four functions of the SKI cache in any order, beside a record of the updates and the keys that
are registered.

Result: as long as every call meets `Fits`, a key that comes or goes queues exactly the registered
updates that name it (`queued_of_fits`). An update with two signature blocks is not queued for the key
of the second one: `ski_registerUpdate` does not come back (`not_queued_second`).
-/

namespace SrxSuite.Server

open Crypto Runs

deriving instance DecidableEq for SecurePathSegment, SignatureSegment, SignatureBlock, BgpsecPath

/-! ## The system -/

/-- The SKI cache with its queue. `none` is a cache after something that is not defined in C.
`updates` and `keyCount` say what was registered and is not unregistered yet. -/
structure SkiSystem where
  cache : Option SkiTree
  rpkiQueue : List QueueElem
  updates : List (UInt32 × BgpsecPath)
  keyCount : SkiKey → Nat

inductive SkiOp
  | registerUpdate (updateID : UInt32) (attr : BgpsecPath)
  | unregisterUpdate (updateID : UInt32) (attr : BgpsecPath)
  | registerKey (key : SkiKey)
  | unregisterKey (key : SkiKey)

namespace SkiSystem

/-- After `ski_createCache`. -/
def initial : SkiSystem := ⟨some SortedMap.empty, [], [], fun _ => 0⟩

/-- The result of a function on keys. -/
def keyChanged (s : SkiSystem) (result : Option (SkiTree × List UInt32)) (key : SkiKey)
    (count : Nat) : SkiSystem :=
  { s with
    cache := result.map Prod.fst
    rpkiQueue := queueKeys s.rpkiQueue ((result.map Prod.snd).getD [])
    keyCount := Function.update s.keyCount key count }

def step (s : SkiSystem) : SkiOp → SkiSystem
  | .registerUpdate updateID attr =>
    { s with
      cache := s.cache.bind fun cache => skiRegisterUpdate cache updateID attr.encode
      updates := (updateID, attr) :: s.updates }
  | .unregisterUpdate updateID attr =>
    { s with
      cache := s.cache.bind fun cache => skiUnregisterUpdate cache updateID attr.encode
      updates := s.updates.erase (updateID, attr) }
  | .registerKey key =>
    s.keyChanged (s.cache.bind fun cache => registerKeyTree cache key) key (s.keyCount key + 1)
  | .unregisterKey key =>
    s.keyChanged (s.cache.bind fun cache => unregisterKeyTree cache key) key (s.keyCount key - 1)

/-- A registered update names the key. -/
def Needs (s : SkiSystem) (updateID : UInt32) (key : SkiKey) : Prop :=
  ∃ attr, (updateID, attr) ∈ s.updates ∧ Names attr key

/-- The queue is that of `s` after exactly the updates were queued that name the key. -/
def QueuesFor (s : SkiSystem) (key : SkiKey) (rpkiQueue : List QueueElem) : Prop :=
  ∃ updateIDs : List UInt32, updateIDs.Nodup ∧ (∀ updateID, updateID ∈ updateIDs ↔ s.Needs updateID key) ∧
    rpkiQueue = queueKeys s.rpkiQueue updateIDs

/-- What a call is to do: everything is defined, a key that comes or goes queues the updates that name
it, and nothing else queues. A key that is not registered does not go. -/
def Right (s : SkiSystem) (op : SkiOp) : Prop :=
  (s.step op).cache ≠ none ∧
    match op with
    | .registerUpdate _ _ => (s.step op).rpkiQueue = s.rpkiQueue
    | .unregisterUpdate _ _ => (s.step op).rpkiQueue = s.rpkiQueue
    | .registerKey key => s.QueuesFor key (s.step op).rpkiQueue
    | .unregisterKey key =>
      if s.keyCount key = 0 then (s.step op).rpkiQueue = s.rpkiQueue
      else s.QueuesFor key (s.step op).rpkiQueue

/-- The registrations of an update under a key: an attribute may name the key more than once, and an
update may be registered more than once. -/
def registrations (updates : List (UInt32 × BgpsecPath)) (key : SkiKey) (updateID : UInt32) : Nat :=
  (updates.map fun u => if u.1 = updateID then (attrKeys u.2).count key else 0).sum

/-- The algorithm of the key is not a new first one of its AS. -/
def InOrder (s : SkiSystem) (key : SkiKey) : Prop :=
  ∀ cache ∈ s.cache, ¬ cache.BeforeFirst key.asn key.algoID

instance (s : SkiSystem) (key : SkiKey) : Decidable (s.InOrder key) :=
  inferInstanceAs (Decidable (∀ cache ∈ s.cache, ¬ cache.BeforeFirst key.asn key.algoID))

/-- The condition: attributes have one signature block, an update with keys has an identifier other
than zero, no algorithm is inserted in front of the first one, the counters do not overflow, only what
is registered is unregistered, and a key that goes is the last one or is still needed. -/
def Fits (s : SkiSystem) : SkiOp → Prop
  | .registerUpdate updateID attr => attr.blocks.length = 1 ∧
      ∀ key, Names attr key → updateID ≠ 0 ∧ s.InOrder key ∧
        registrations s.updates key updateID + (attrKeys attr).count key < 65536
  | .unregisterUpdate updateID attr => attr.blocks.length = 1 ∧
      ((updateID, attr) ∈ s.updates ∨ ∀ key, Names attr key → ¬ s.Needs updateID key)
  | .registerKey key => s.InOrder key ∧ s.keyCount key < 255
  | .unregisterKey key => s.keyCount key ≤ 1 ∨ ∃ updateID, s.Needs updateID key

end SkiSystem

namespace SkiNoticesLemmas

variable {cache cache' : SkiTree} {key key' : SkiKey} {updateID updateID' : UInt32}
  {l : UidList} {n : UInt32 → Nat}

open SkiCacheLemmas SkiSystem

/-! ## The data of a key

Data that were removed and data that are new look the same. -/

/-- The data the functions work with. -/
def dataOf (cache : SkiTree) (key : SkiKey) : SkiData := (cache.getData key).getD newSkiData

theorem dataOf_eq {cData : SkiData} (h : cache.getData key = some cData) :
    dataOf cache key = cData := by
  unfold dataOf
  rw [h]
  rfl

theorem dataOf_none (h : cache.getData key = none) : dataOf cache key = newSkiData := by
  unfold dataOf
  rw [h]
  rfl

/-- `cache'` is `cache` with other data for a key. -/
def DataSet (cache cache' : SkiTree) (key : SkiKey) (cData : SkiData) : Prop :=
  ∀ key', dataOf cache' key' = if key' = key then cData else dataOf cache key'

theorem dataSet_setData {cData : SkiData} (h : cache.setData key cData = some cache') :
    DataSet cache cache' key cData := by
  intro key'
  unfold dataOf
  rw [getData_setData h]
  split
  · rfl
  · rfl

theorem dataSet_removeData (cache : SkiTree) (key : SkiKey) :
    DataSet cache (cache.removeData key) key newSkiData := by
  intro key'
  unfold dataOf
  rw [getData_removeData]
  split
  · rfl
  · rfl

theorem eq_empty (h : l.items = []) : l = SortedMap.empty := by
  cases l
  cases h
  rfl

/-- One turn of `ski_registerUpdate`. -/
theorem registerTurn_spec (hid : updateID ≠ 0) (h : ¬ cache.BeforeFirst key.asn key.algoID) :
    ∃ cache' counter, registerTurn updateID cache key = some cache' ∧
      DataSet cache cache' key { dataOf cache key with
        cacheUID := (dataOf cache key).cacheUID.insert uidRank_injective updateID counter } ∧
      counter = ((dataOf cache key).cacheUID.find updateID).getD 0 + 1 ∧
      ∀ asn, ¬ cache.BeforeFirst asn key.algoID → ¬ cache'.BeforeFirst asn key.algoID := by
  obtain ⟨cache', hcache'⟩ := setData_isSome h { dataOf cache key with
    cacheUID := (dataOf cache key).cacheUID.insert uidRank_injective updateID
      (((dataOf cache key).cacheUID.find updateID).getD 0 + 1) }
  refine ⟨cache', _, ?_, dataSet_setData hcache', rfl, fun asn => not_beforeFirst_setData hcache'⟩
  unfold registerTurn addUpdateCacheUID
  rw [if_neg hid, ← dataOf]
  dsimp only [Option.bind_eq_bind, Option.bind_some]
  rw [← hcache']
  cases (dataOf cache key).cacheUID.find updateID with
  | none => rfl
  | some counter => rfl

/-- One turn of `ski_unregisterUpdate`. -/
theorem unregisterTurn_spec (updateID : UInt32) (cache : SkiTree) (key : SkiKey) :
    ∃ cache', unregisterTurn updateID cache key = some cache' ∧
      DataSet cache cache' key { dataOf cache key with
        cacheUID := removeUID (dataOf cache key).cacheUID updateID } := by
  obtain ⟨hnone, heq⟩ | ⟨cData, hdata, hcase⟩ := unregisterTurn_cases updateID cache key
  · refine ⟨cache, heq, fun key' => ?_⟩
    split
    · next hkey =>
      rw [hkey, dataOf_none hnone]
      rfl
    · rfl
  rw [dataOf_eq hdata]
  obtain ⟨hempty, hzero, heq⟩ | ⟨-, cache', hcache', heq⟩ := hcase
  · have hnew : { cData with cacheUID := removeUID cData.cacheUID updateID } = newSkiData := by
      rw [eq_empty hempty, hzero]
      rfl
    refine ⟨_, heq, ?_⟩
    rw [hnew]
    exact dataSet_removeData cache key
  · exact ⟨cache', heq, dataSet_setData hcache'⟩

/-! ## Counting registrations -/

/-- The list has the updates with as many registrations as `n` says. -/
def Counts (l : UidList) (n : UInt32 → Nat) : Prop :=
  ∀ updateID, (l.find updateID).map UInt16.toNat = if n updateID = 0 then none else some (n updateID)

theorem Counts.toNat_getD (h : Counts l n) (updateID : UInt32) :
    ((l.find updateID).getD 0).toNat = n updateID := by
  have := h updateID
  cases hfind : l.find updateID with
  | none =>
    rw [hfind] at this
    split at this
    · next hn => exact hn.symm
    · cases this
  | some counter =>
    rw [hfind] at this
    split at this
    · cases this
    · exact Option.some.inj this

theorem Counts.mem_keys (h : Counts l n) (updateID : UInt32) : updateID ∈ l.keys ↔ n updateID ≠ 0 := by
  rw [SortedMap.mem_keys, ← Option.isSome_map (f := UInt16.toNat), h updateID]
  split
  · next hn => exact ⟨fun h => absurd h (by decide), fun h => absurd hn h⟩
  · next hn => exact ⟨fun _ => hn, fun _ => rfl⟩

theorem Counts.items_eq_nil (h : Counts l n) : l.items = [] ↔ ∀ updateID, n updateID = 0 := by
  rw [SortedMap.items_eq_nil]
  refine forall_congr' fun updateID => ?_
  rw [← Option.map_eq_none_iff (f := UInt16.toNat), h updateID]
  split
  · next hn => exact ⟨fun _ => hn, fun _ => rfl⟩
  · next hn => exact ⟨fun h => absurd h (Option.some_ne_none _), fun h => absurd h hn⟩

theorem Counts.insert (h : Counts l n) (hn : n updateID + 1 < 65536) :
    Counts (l.insert uidRank_injective updateID ((l.find updateID).getD 0 + 1))
      (Function.update n updateID (n updateID + 1)) := by
  intro updateID'
  rw [SortedMap.find_insert]
  by_cases heq : updateID' = updateID
  · subst heq
    rw [if_pos rfl, Function.update_self, if_neg (Nat.succ_ne_zero _), Option.map_some,
      UInt16.toNat_add, h.toNat_getD]
    exact congrArg some (Nat.mod_eq_of_lt hn)
  · rw [if_neg heq, Function.update_of_ne heq]
    exact h updateID'

theorem Counts.remove (h : Counts l n) (updateID : UInt32) :
    Counts (removeUID l updateID) (Function.update n updateID (n updateID - 1)) := by
  intro updateID'
  have hid := h updateID
  unfold removeUID
  cases hfind : l.find updateID with
  | none =>
    dsimp only
    rw [hfind] at hid
    by_cases heq : updateID' = updateID
    · subst heq
      have hn : n updateID' = 0 := by
        by_contra hn
        rw [if_neg hn] at hid
        cases hid
      rw [Function.update_self, hfind, hn]
      rfl
    · rw [Function.update_of_ne heq]
      exact h updateID'
  | some counter =>
    dsimp only
    rw [hfind] at hid
    have hn : n updateID ≠ 0 ∧ counter.toNat = n updateID := by
      split at hid
      · cases hid
      · next hn => exact ⟨hn, Option.some.inj hid⟩
    have hlt := counter.toNat_lt
    have hsub : (counter - 1).toNat = n updateID - 1 := by
      rw [UInt16.toNat_sub, hn.2]
      simp only [UInt16.reduceToNat]
      omega
    split
    · next hzero =>
      have hlast : n updateID - 1 = 0 := by
        rw [← hsub, hzero]
        rfl
      rw [SortedMap.find_erase]
      by_cases heq : updateID' = updateID
      · subst heq
        rw [if_pos rfl, Function.update_self, if_pos hlast]
        rfl
      · rw [if_neg heq, Function.update_of_ne heq]
        exact h updateID'
    · next hzero =>
      have hpos : n updateID - 1 ≠ 0 := by
        rw [← hsub]
        exact fun h => hzero (UInt16.toNat_inj.mp h)
      rw [SortedMap.find_insert]
      by_cases heq : updateID' = updateID
      · subst heq
        rw [if_pos rfl, Function.update_self, if_neg hpos, Option.map_some, hsub]
      · rw [if_neg heq, Function.update_of_ne heq]
        exact h updateID'

/-! ## Filing an update under its keys -/

variable {c : SkiKey → Nat} {m : SkiKey → UInt32 → Nat} {keys : List SkiKey} {algoID : UInt8}

/-- The cache has as many keys as `c` says and the updates as often as `m` does. -/
def Filed (cache : SkiTree) (c : SkiKey → Nat) (m : SkiKey → UInt32 → Nat) : Prop :=
  ∀ key, (dataOf cache key).counter.toNat = c key ∧ Counts (dataOf cache key).cacheUID (m key)

theorem Filed.congr {m' : SkiKey → UInt32 → Nat} (h : Filed cache c m)
    (heq : ∀ key updateID, m key updateID = m' key updateID) : Filed cache c m' := by
  intro key
  have : m key = m' key := funext (heq key)
  exact this ▸ h key

/-- Other updates under one key. -/
theorem Filed.setUIDs (h : Filed cache c m) (hset : DataSet cache cache' key
    { dataOf cache key with cacheUID := l }) (hl : Counts l n) :
    Filed cache' c (Function.update m key n) := by
  intro key'
  rw [hset key']
  by_cases heq : key' = key
  · subst heq
    rw [if_pos rfl, Function.update_self]
    exact ⟨(h key').1, hl⟩
  · rw [if_neg heq, Function.update_of_ne heq]
    exact h key'

/-- The loop of `ski_registerUpdate` counts every key once more. -/
theorem registerFold (halgo : ∀ key ∈ keys, key.algoID = algoID)
    (hkeys : ∀ key ∈ keys, updateID ≠ 0 ∧ ¬ cache.BeforeFirst key.asn algoID ∧
      m key updateID + keys.count key < 65536) (h : Filed cache c m) :
    ∃ cache', keys.foldlM (registerTurn updateID) cache = some cache' ∧
      Filed cache' c fun key u => m key u + if u = updateID then keys.count key else 0 := by
  induction keys generalizing cache m with
  | nil =>
    refine ⟨cache, rfl, h.congr fun key u => ?_⟩
    rw [List.count_nil, ite_self, Nat.add_zero]
  | cons key keys ih =>
    obtain rfl := halgo key List.mem_cons_self
    obtain ⟨hid, hfirst, hcount⟩ := hkeys key List.mem_cons_self
    rw [List.count_cons_self] at hcount
    obtain ⟨cache₁, counter, hturn, hset, rfl, horder⟩ := registerTurn_spec hid hfirst
    have h₁ := h.setUIDs hset ((h key).2.insert (by omega))
    have hm (key' : SkiKey) (u : UInt32) : Function.update m key
        (Function.update (m key) updateID (m key updateID + 1)) key' u =
          m key' u + if u = updateID then if key = key' then 1 else 0 else 0 := by
      by_cases heq : key' = key
      · subst heq
        by_cases hu : u = updateID
        · subst hu
          rw [Function.update_self, Function.update_self, if_pos rfl, if_pos rfl]
        · rw [Function.update_self, Function.update_of_ne hu, if_neg hu, Nat.add_zero]
      · rw [Function.update_of_ne heq, if_neg (Ne.symm heq), ite_self, Nat.add_zero]
    have hrest : ∀ key' ∈ keys, updateID ≠ 0 ∧ ¬ cache₁.BeforeFirst key'.asn key.algoID ∧
        Function.update m key (Function.update (m key) updateID (m key updateID + 1)) key' updateID +
          keys.count key' < 65536 := by
      intro key' hkey'
      obtain ⟨-, hfirst', hcount'⟩ := hkeys key' (List.mem_cons_of_mem _ hkey')
      refine ⟨hid, horder _ hfirst', ?_⟩
      rw [List.count_cons] at hcount'
      rw [hm, if_pos rfl]
      simp only [beq_iff_eq] at hcount'
      omega
    obtain ⟨cache', hfold, h'⟩ := ih (fun key' hkey' => halgo key' (List.mem_cons_of_mem _ hkey'))
      hrest h₁
    refine ⟨cache', ?_, h'.congr fun key' u => ?_⟩
    · rw [List.foldlM_cons, hturn]
      exact hfold
    · rw [hm, List.count_cons]
      simp only [beq_iff_eq]
      split
      · omega
      · rfl

/-- The loop of `ski_unregisterUpdate` counts every key once less. -/
theorem unregisterFold (updateID : UInt32) (keys : List SkiKey) (h : Filed cache c m) :
    ∃ cache', keys.foldlM (unregisterTurn updateID) cache = some cache' ∧
      Filed cache' c fun key u => m key u - if u = updateID then keys.count key else 0 := by
  induction keys generalizing cache m with
  | nil =>
    refine ⟨cache, rfl, h.congr fun key u => ?_⟩
    rw [List.count_nil, ite_self, Nat.sub_zero]
  | cons key keys ih =>
    obtain ⟨cache₁, hturn, hset⟩ := unregisterTurn_spec updateID cache key
    obtain ⟨cache', hfold, h'⟩ := ih (h.setUIDs hset ((h key).2.remove updateID))
    refine ⟨cache', ?_, h'.congr fun key' u => ?_⟩
    · rw [List.foldlM_cons, hturn]
      exact hfold
    · rw [List.count_cons]
      by_cases heq : key' = key
      · subst heq
        rw [Function.update_self]
        by_cases hu : u = updateID
        · subst hu
          rw [Function.update_self, if_pos rfl, if_pos rfl, if_pos (beq_self_eq_true key')]
          omega
        · rw [Function.update_of_ne hu, if_neg hu, if_neg hu]
      · have hkey : ¬ (key == key') = true := fun h => heq (eq_of_beq h).symm
        rw [Function.update_of_ne heq, if_neg hkey, Nat.add_zero]

/-- The two functions on an attribute with one signature block. -/
theorem skiRegisterUpdate_encode {attr : BgpsecPath} (hblocks : attr.blocks.length = 1) :
    skiRegisterUpdate cache updateID attr.encode =
        (attrKeys attr).foldlM (registerTurn updateID) cache ∧
      skiUnregisterUpdate cache updateID attr.encode =
        (attrKeys attr).foldlM (unregisterTurn updateID) cache ∧
      ∃ algoID, ∀ key ∈ attrKeys attr, key.algoID = algoID := by
  obtain ⟨block, hblock⟩ := List.length_eq_one_iff.mp hblocks
  have hkeys : attrKeys attr = blockKeys attr.path block := by
    unfold attrKeys
    rw [hblock, List.flatMap_singleton]
  have hparse := parse_encode hblock
  obtain ⟨hregister, hunregister⟩ := keys_encode hblock hparse
  refine ⟨?_, ?_, block.algoID, fun key hkey => ?_⟩
  · unfold skiRegisterUpdate
    rw [hparse]
    dsimp only [Option.bind_eq_bind, Option.bind_some]
    rw [hregister, hkeys]
    rfl
  · unfold skiUnregisterUpdate
    rw [hparse]
    dsimp only [Option.bind_eq_bind, Option.bind_some]
    rw [hunregister, hkeys]
    rfl
  · rw [hkeys] at hkey
    exact (mem_blockKeys.mp hkey).1.symm

/-! ## Runs -/

variable {s : SkiSystem} {op : SkiOp} {updates : List (UInt32 × BgpsecPath)} {attr : BgpsecPath}

/-- The cache has what was registered. -/
def Recorded (s : SkiSystem) : Prop :=
  ∃ cache, s.cache = some cache ∧ Filed cache s.keyCount (registrations s.updates)

theorem registrations_cons (u : UInt32 × BgpsecPath) (updates : List (UInt32 × BgpsecPath))
    (key : SkiKey) (updateID : UInt32) : registrations (u :: updates) key updateID =
      (if u.1 = updateID then (attrKeys u.2).count key else 0) +
        registrations updates key updateID := by
  unfold registrations
  rw [List.map_cons, List.sum_cons]

theorem registrations_erase {u : UInt32 × BgpsecPath} (h : u ∈ updates) (key : SkiKey)
    (updateID : UInt32) : registrations updates key updateID =
      (if u.1 = updateID then (attrKeys u.2).count key else 0) +
        registrations (updates.erase u) key updateID := by
  rw [← registrations_cons]
  unfold registrations
  exact ((List.perm_cons_erase h).map _).sum_nat

theorem registrations_ne_zero : registrations s.updates key updateID ≠ 0 ↔ s.Needs updateID key := by
  unfold registrations Needs
  rw [← Nat.pos_iff_ne_zero, List.sum_pos_iff_exists_pos_nat]
  constructor
  · rintro ⟨k, hk, hpos⟩
    obtain ⟨⟨u, attr⟩, hu, rfl⟩ := List.mem_map.mp hk
    split at hpos
    · next heq =>
      obtain rfl := heq
      exact ⟨attr, hu, names_iff.mpr (List.count_pos_iff.mp hpos)⟩
    · exact absurd hpos (Nat.lt_irrefl 0)
  · rintro ⟨attr, hu, hnames⟩
    refine ⟨_, List.mem_map_of_mem hu, ?_⟩
    rw [if_pos rfl]
    exact List.count_pos_iff.mpr (names_iff.mp hnames)

theorem recorded_registerUpdate (h : Recorded s) (hop : s.Fits (.registerUpdate updateID attr)) :
    Recorded (s.step (.registerUpdate updateID attr)) := by
  obtain ⟨cache, hcache, hfiled⟩ := h
  obtain ⟨hblocks, hkeys⟩ := hop
  obtain ⟨hregister, -, algoID, halgo⟩ := skiRegisterUpdate_encode hblocks
  obtain ⟨cache', hfold, h'⟩ := registerFold halgo (fun key hkey => by
    obtain ⟨hid, horder, hcount⟩ := hkeys key (names_iff.mpr hkey)
    exact ⟨hid, halgo key hkey ▸ horder cache hcache, hcount⟩) hfiled
  refine ⟨cache', ?_, h'.congr fun key u => ?_⟩
  · change (s.cache.bind fun cache => skiRegisterUpdate cache updateID attr.encode) = some cache'
    rw [hcache, Option.bind_some, hregister]
    exact hfold
  · change _ = registrations ((updateID, attr) :: s.updates) key u
    rw [registrations_cons, Nat.add_comm]
    simp only [@eq_comm _ u updateID]

theorem recorded_unregisterUpdate (h : Recorded s) (hop : s.Fits (.unregisterUpdate updateID attr)) :
    Recorded (s.step (.unregisterUpdate updateID attr)) := by
  obtain ⟨cache, hcache, hfiled⟩ := h
  obtain ⟨hblocks, hmem⟩ := hop
  obtain ⟨-, hunregister, -⟩ := @skiRegisterUpdate_encode cache updateID attr hblocks
  obtain ⟨cache', hfold, h'⟩ := unregisterFold updateID (attrKeys attr) hfiled
  refine ⟨cache', ?_, h'.congr fun key u => ?_⟩
  · change (s.cache.bind fun cache => skiUnregisterUpdate cache updateID attr.encode) = some cache'
    rw [hcache, Option.bind_some, hunregister]
    exact hfold
  · change _ = registrations (s.updates.erase (updateID, attr)) key u
    by_cases hreg : (updateID, attr) ∈ s.updates
    · rw [registrations_erase hreg key u]
      simp only [@eq_comm _ u updateID]
      exact Nat.add_sub_cancel_left _ _
    · rw [List.erase_of_not_mem hreg]
      split
      · next hu =>
        subst hu
        by_cases hkey : key ∈ attrKeys attr
        · have hnone := hmem.resolve_left hreg key (names_iff.mpr hkey)
          have hzero : registrations s.updates key u = 0 :=
            Classical.not_not.mp fun hne => hnone (registrations_ne_zero.mp hne)
          rw [hzero, Nat.zero_sub]
        · rw [List.count_eq_zero_of_not_mem hkey, Nat.sub_zero]
      · rfl

/-- The keys of the updates are those that name the key. -/
theorem mem_keys_iff {cache : SkiTree} (h : Filed cache s.keyCount (registrations s.updates))
    (key : SkiKey) (updateID : UInt32) :
    updateID ∈ (dataOf cache key).cacheUID.keys ↔ s.Needs updateID key :=
  ((h key).2.mem_keys updateID).trans registrations_ne_zero

theorem filed_setCounter {counter : UInt8} {k : Nat} (h : Filed cache c m)
    (hset : DataSet cache cache' key { dataOf cache key with counter := counter })
    (hk : counter.toNat = k) : Filed cache' (Function.update c key k) m := by
  intro key'
  rw [hset key']
  by_cases heq : key' = key
  · subst heq
    rw [if_pos rfl, Function.update_self]
    exact ⟨hk, (h key').2⟩
  · rw [if_neg heq, Function.update_of_ne heq]
    exact h key'

/-- `ski_registerKey` is right. -/
theorem registerKey_right (h : Recorded s) (hop : s.Fits (.registerKey key)) :
    Recorded (s.step (.registerKey key)) ∧ s.QueuesFor key (s.step (.registerKey key)).rpkiQueue := by
  obtain ⟨cache, hcache, hfiled⟩ := h
  obtain ⟨horder, hcount⟩ := hop
  obtain ⟨cache', hcache', hregister⟩ := registerKeyTree_spec (horder cache hcache)
  rw [← dataOf] at hcache' hregister
  have hresult : (s.cache.bind fun cache => registerKeyTree cache key) =
      some (cache', (dataOf cache key).cacheUID.keys) := by
    rw [hcache, Option.bind_some]
    exact hregister
  have hcounter : ((dataOf cache key).counter + 1).toNat = s.keyCount key + 1 := by
    rw [UInt8.toNat_add, (hfiled key).1]
    exact Nat.mod_eq_of_lt (Nat.succ_lt_succ hcount)
  refine ⟨⟨cache', ?_, filed_setCounter hfiled (dataSet_setData hcache') hcounter⟩,
    (dataOf cache key).cacheUID.keys, SortedMap.keys_nodup _, mem_keys_iff hfiled key, ?_⟩
  · change (s.cache.bind fun cache => registerKeyTree cache key).map Prod.fst = _
    rw [hresult]
    rfl
  · change queueKeys s.rpkiQueue
      (((s.cache.bind fun cache => registerKeyTree cache key).map Prod.snd).getD []) = _
    rw [hresult]
    rfl

/-- A key that is not registered does not go: nothing happens. -/
theorem unregisterKeyTree_zero (h : (dataOf cache key).counter = 0) :
    unregisterKeyTree cache key = some (cache, []) := by
  have hnot {cData : SkiData} (hdata : cache.getData key = some cData) : ¬ 0 < cData.counter := by
    rw [← dataOf_eq hdata, h]
    decide
  obtain ⟨-, heq⟩ | ⟨cData, hdata, ⟨-, heq⟩ | ⟨hpos, -⟩ | ⟨hpos, -⟩⟩ := unregisterKeyTree_cases cache key
  · exact heq
  · exact heq
  · exact absurd hpos (hnot hdata)
  · exact absurd hpos (hnot hdata)

/-- The last of the keys goes, or one of several that are still needed. -/
theorem unregisterKeyTree_pos (h : Filed cache c m) (hpos : c key ≠ 0)
    (hfits : c key ≤ 1 ∨ ∃ updateID, m key updateID ≠ 0) :
    ∃ cache', unregisterKeyTree cache key = some (cache', (dataOf cache key).cacheUID.keys) ∧
      Filed cache' (Function.update c key (c key - 1)) m := by
  obtain ⟨hcounter, hcounts⟩ := h key
  obtain ⟨hnone, -⟩ | ⟨cData, hdata, hcase⟩ := unregisterKeyTree_cases cache key
  · rw [dataOf_none hnone] at hcounter
    exact absurd hcounter.symm hpos
  rw [dataOf_eq hdata] at hcounter hcounts ⊢
  obtain ⟨hzero, -⟩ | ⟨-, hempty, hremoved⟩ | ⟨hlt, -, cache', hcache', hset⟩ := hcase
  · rw [hzero] at hcounter
    exact absurd hcounter.symm hpos
  · have hnone := hcounts.items_eq_nil.mp hempty
    have hlast : c key ≤ 1 := hfits.resolve_right fun ⟨updateID, hne⟩ => hne (hnone updateID)
    have hnew : newSkiData = { dataOf cache key with counter := 0 } := by
      rw [dataOf_eq hdata]
      dsimp only
      rw [eq_empty hempty]
      rfl
    refine ⟨_, hremoved, filed_setCounter h (hnew ▸ dataSet_removeData cache key) ?_⟩
    rw [Nat.sub_eq_zero_of_le hlast]
    rfl
  · have hsub : (cData.counter - 1).toNat = c key - 1 := by
      have hle : (1 : UInt8) ≤ cData.counter :=
        UInt8.le_iff_toNat_le.mpr (UInt8.lt_iff_toNat_lt.mp hlt)
      rw [UInt8.toNat_sub_of_le _ _ hle, hcounter]
      rfl
    have hdataSet : DataSet cache cache' key
        { dataOf cache key with counter := cData.counter - 1 } := by
      rw [dataOf_eq hdata]
      exact dataSet_setData hcache'
    exact ⟨cache', hset, filed_setCounter h hdataSet hsub⟩

/-- `ski_unregisterKey` is right. -/
theorem unregisterKey_right (h : Recorded s) (hop : s.Fits (.unregisterKey key)) :
    Recorded (s.step (.unregisterKey key)) ∧
      if s.keyCount key = 0 then (s.step (.unregisterKey key)).rpkiQueue = s.rpkiQueue
      else s.QueuesFor key (s.step (.unregisterKey key)).rpkiQueue := by
  obtain ⟨cache, hcache, hfiled⟩ := h
  have hstep : s.step (.unregisterKey key) =
      s.keyChanged (unregisterKeyTree cache key) key (s.keyCount key - 1) := by
    unfold step
    rw [hcache]
    rfl
  rw [hstep]
  by_cases hzero : s.keyCount key = 0
  · have hcounter : (dataOf cache key).counter = 0 :=
      UInt8.toNat_inj.mp ((hfiled key).1.trans hzero)
    rw [unregisterKeyTree_zero hcounter, if_pos hzero]
    refine ⟨⟨cache, rfl, ?_⟩, rfl⟩
    have hsame : Function.update s.keyCount key (s.keyCount key - 1) = s.keyCount := by
      rw [hzero]
      exact Function.update_eq_self_iff.mpr hzero.symm
    change Filed cache (Function.update s.keyCount key (s.keyCount key - 1)) _
    rw [hsame]
    exact hfiled
  · rw [if_neg hzero]
    obtain ⟨cache', hresult, hfiled'⟩ := unregisterKeyTree_pos hfiled hzero
      (hop.imp_right fun ⟨updateID, hneeds⟩ => ⟨updateID, registrations_ne_zero.mpr hneeds⟩)
    rw [hresult]
    exact ⟨⟨cache', rfl, hfiled'⟩, _, SortedMap.keys_nodup _, mem_keys_iff hfiled key, rfl⟩

/-- A call that meets the condition is right, and the next one finds the cache as it is to be. -/
theorem step_right (h : Recorded s) (hop : s.Fits op) : Recorded (s.step op) ∧ s.Right op := by
  have hdefined {s : SkiSystem} (h : Recorded s) : s.cache ≠ none := by
    obtain ⟨cache, hcache, -⟩ := h
    rw [hcache]
    exact Option.some_ne_none cache
  cases op with
  | registerUpdate updateID attr =>
    have h' := recorded_registerUpdate h hop
    exact ⟨h', hdefined h', rfl⟩
  | unregisterUpdate updateID attr =>
    have h' := recorded_unregisterUpdate h hop
    exact ⟨h', hdefined h', rfl⟩
  | registerKey key =>
    obtain ⟨h', hqueues⟩ := registerKey_right h hop
    exact ⟨h', hdefined h', hqueues⟩
  | unregisterKey key =>
    obtain ⟨h', hqueues⟩ := unregisterKey_right h hop
    exact ⟨h', hdefined h', hqueues⟩

theorem recorded_initial : Recorded initial :=
  ⟨SortedMap.empty, rfl, fun _ => ⟨rfl, fun _ => rfl⟩⟩

end SkiNoticesLemmas

/-! ## Result -/

namespace SkiSystem

open SkiNoticesLemmas

/-- As long as every call meets the condition, every call is right: a key that comes or goes queues
exactly the registered updates that name it. -/
theorem queued_of_fits (ops : List SkiOp) (h : EachStep step Fits initial ops) :
    EachStep step Right initial ops := by
  have hrecorded : Always step Recorded initial ops :=
    always_of_eachStep (fun _ _ hs hop => (step_right hs hop).1) recorded_initial h
  intro before op after heq
  exact (step_right (hrecorded before (op :: after) heq) (h before op after heq)).2

/-- A path of one hop with one signature block. -/
def oneBlock : BgpsecPath where
  flags := 0x40
  typeCode := 33
  path := [⟨1, 0, 65001⟩]
  blocks := [⟨1, [⟨.replicate 20 7, [5], by decide⟩]⟩]
  blockCount := by decide
  signed := by decide
  fits := by decide

/-- The same path with a second signature block. -/
def twoBlocks : BgpsecPath where
  flags := 0x40
  typeCode := 33
  path := [⟨1, 0, 65001⟩]
  blocks := [⟨1, [⟨.replicate 20 7, [5], by decide⟩]⟩, ⟨2, [⟨.replicate 20 8, [6], by decide⟩]⟩]
  blockCount := by decide
  signed := by decide
  fits := by decide

theorem queued_oneBlock :
    EachStep step Fits initial [.registerUpdate 3 oneBlock,
        .registerKey ⟨65001, List.replicate 20 7, 1⟩] ∧
      EachStep step Right initial [.registerUpdate 3 oneBlock,
        .registerKey ⟨65001, List.replicate 20 7, 1⟩] := by
  have hfits : EachStep step Fits initial [.registerUpdate 3 oneBlock,
      .registerKey ⟨65001, List.replicate 20 7, 1⟩] := by
    refine eachStep_cons.mpr ⟨⟨rfl, fun key hkey => ⟨by decide, ?_, ?_⟩⟩,
      eachStep_cons.mpr ⟨⟨?_, by decide⟩, eachStep_nil⟩⟩
    · rintro cache hcache ⟨first, hfirst, -⟩
      obtain rfl := Option.some.inj hcache
      cases hfirst
    · have := List.count_le_length (a := key) (l := attrKeys oneBlock)
      exact Nat.lt_of_le_of_lt (Nat.add_le_add_left this _) (show 0 + 1 < 65536 by decide)
    · decide +kernel
  exact ⟨hfits, queued_of_fits _ hfits⟩

/-- The key of the second signature block comes, and the update that names it is not queued: its
registration did not come back. -/
theorem not_queued_second :
    ¬ EachStep step Right initial [.registerUpdate 3 twoBlocks,
      .registerKey ⟨65001, List.replicate 20 8, 2⟩] := by
  intro h
  have hparse : parseBgpsecPath twoBlocks.encode = none := SkiCacheLemmas.parse_two rfl
  have hlost : (step initial (.registerUpdate 3 twoBlocks)).cache = none := by
    show skiRegisterUpdate SortedMap.empty 3 twoBlocks.encode = none
    unfold skiRegisterUpdate
    rw [hparse]
    rfl
  exact (h [] _ _ rfl).1 hlost

end SkiSystem

end SrxSuite.Server

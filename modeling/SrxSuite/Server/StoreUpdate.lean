import SrxSuite.Server.ClientArray
import SrxSuite.Server.RequestBounds
import SrxSuite.Server.SkiUndo

/-!
# Storing an update

`storeUpdate` (`server/update_cache.c`) with its failures: the list and the hash table apart, the item
lock, the SKI cache, the memory it asks for, and what the memory of a new item holds.

Results:
1. `storeUpdate_atomic_iff`: a call stores the whole update or leaves the cache as it was, with the lock
   released, if and only if the lock is free, and an update that is not stored can be (`CanStore`): there
   is the memory that is asked for, the SKI cache can register its attribute, and the array has a place
   for the client.
2. `append_keeps_lock`: the return after `appendToSList` failed.
-/

namespace SrxSuite.Server

open Bytes Crypto ClientArrayLemmas RequestBoundsLemmas

/-! ## The code -/

/-- `NUM_PREALLOC` -/
def numPrealloc : Nat := 1

/-- The update cache with the SKI cache. The table has the places of its entries in the list. -/
structure UpdateStore where
  allItems : List CacheEntry
  table : List Nat
  itemsUsed : Nat
  availItems : Bool
  itemLocked : Bool
  skiCache : SkiTree

/-- `BGPSecData`: the hops, and the attribute with its length, or NULL. -/
structure BgpSecData where
  asPath : List UInt32
  bgpsecPathAttr : Option Bytes

/-- The arguments of `storeUpdate`; `bgpData` can be NULL. -/
structure StoreCall where
  clientID : UInt8
  updateID : UInt32
  defRes : Option DefaultResult
  bgpData : Option BgpSecData
  pathId : UInt32
  now : Nat

/-- What the memory gives: whether the requests of `appendToSList`, of `storeCacheEntryBlob` for the
path and for the attribute, of `ski_registerUpdate`, for the array of the clients, of `realloc` and of
`HASH_ADD` succeed, and whether the path pointers of a new item happen not to be NULL. -/
structure Allocation where
  append : Bool
  asnCopy : Bool
  bgpsecCopy : Bool
  ski : Bool
  clients : Bool
  realloc : Bool
  table : Bool
  asnPath : Bool
  bgpsecPath : Bool

/-- All requests succeed. -/
def Allocation.granted : Allocation := ⟨true, true, true, true, true, true, true, false, false⟩

/-- `tableFind` -/
def UpdateStore.tableFind (self : UpdateStore) (updateID : UInt32) : Bool :=
  self.table.any fun i => self.allItems[i]?.any (·.updateID == updateID)

/-- `_addClientReference` with the return value. A new size that is no greater has no place for the
client: `none`. -/
def addClientReferenceChecked (minNumberOfClients : UInt8) (cEntry : CacheEntry) (clientID : UInt8)
    (mem : Allocation) : Option (CacheEntry × UInt32 × Bool) :=
  let (entry, count) := addClientReference minNumberOfClients cEntry clientID
  if (addClientLoop clientID cEntry.places).isSome then some (entry, count, true)
  else if mem.realloc then
    if minNumberOfClients = 0 then none else some (entry, count, true)
  else some ({ cEntry with clients := [] }, 0, false)

/-- `storeCacheEntryBlob` of a new item comes back: the copies are written as `malloc` gave them. -/
def storeCacheEntryBlob (bgpData : BgpSecData) (mem : Allocation) : Bool :=
  (bgpData.asPath.isEmpty || mem.asnCopy) && (bgpData.bgpsecPathAttr.isNone || mem.bgpsecCopy)

/-- `ski_registerUpdate` with its memory. The array of the AS numbers is the first it asks for when the
attribute has a path segment; nothing it asks for is compared with NULL. -/
def skiRegisterWithin (mem : Allocation) (cache : SkiTree) (updateID : UInt32) (bgpsec : Bytes) :
    Option SkiTree := do
  match ← parseBgpsecPath bgpsec with
  | none => some cache
  | some info =>
    if info.nrSegments ≠ 0 ∧ mem.ski = false then none else skiRegisterUpdate cache updateID bgpsec

/-- The path data of a new item: the SKI cache after it. Without BGP data the pointers of the item are
freed, which were never set. -/
def UpdateStore.storePathData (self : UpdateStore) (call : StoreCall) (mem : Allocation) :
    Option SkiTree :=
  match call.bgpData with
  | some bgpData =>
    if storeCacheEntryBlob bgpData mem then
      match bgpData.bgpsecPathAttr with
      | none => some self.skiCache
      | some attr => skiRegisterWithin mem self.skiCache call.updateID attr
    else none
  | none => if mem.asnPath || mem.bgpsecPath then none else some self.skiCache

/-- The array of a new item with its client. The array is cleared as `malloc` gave it, which is nothing
when it has no place. -/
def storeClient (minNumberOfClients : UInt8) (defaultKeepWindow : UInt16) (cEntry : CacheEntry)
    (call : StoreCall) (mem : Allocation) : Option (CacheEntry × UInt32 × Int) :=
  if minNumberOfClients ≠ 0 ∧ mem.clients = false then none
  else if call.clientID > 0 then
    (addClientReferenceChecked minNumberOfClients cEntry call.clientID mem).map
      fun (entry, count, added) => (entry, count, if added then 1 else -1)
  else some ({ cEntry with gcFlag := getGCTime call.now defaultKeepWindow }, 0, 1)

/-- `storeUpdate` from the new item on; `HASH_ADD` ends the process when there is no memory. -/
def UpdateStore.storeItem (minNumberOfClients : UInt8) (defaultKeepWindow : UInt16)
    (self : UpdateStore) (call : StoreCall) (mem : Allocation) :
    Option (UpdateStore × UInt32 × Int) := do
  let itemsUsed := if self.itemsUsed = numPrealloc then 0 else self.itemsUsed
  let skiCache ← self.storePathData call mem
  let (cEntry, count, retVal) ← storeClient minNumberOfClients defaultKeepWindow
    (newCacheEntry minNumberOfClients call.updateID call.defRes
      (call.bgpData.bind (·.bgpsecPathAttr)) call.pathId) call mem
  if mem.table then
    some ({ self with
      allItems := self.allItems ++ [cEntry]
      table := self.table ++ [self.allItems.length]
      itemsUsed := itemsUsed + 1
      availItems := true
      skiCache := skiCache }, count, retVal)
  else none

/-- `storeUpdate`: the cache, what is added to `clientMapping->updateCount` and the return value. It is
`none` when the call does not come back. -/
def UpdateStore.storeUpdate (minNumberOfClients : UInt8) (defaultKeepWindow : UInt16)
    (self : UpdateStore) (call : StoreCall) (mem : Allocation) : Option (UpdateStore × UInt32 × Int) :=
  if self.tableFind call.updateID then some (self, 0, 0)
  else if self.itemLocked then none
  else if self.itemsUsed = numPrealloc ∧ mem.append = false then
    some ({ self with itemLocked := true, availItems := false }, 0, -1)
  else self.storeItem minNumberOfClients defaultKeepWindow call mem

/-! ## Atomic calls -/

/-- The update is in the list and in the table, and its client is registered with it once. -/
def Stores (self self' : UpdateStore) (call : StoreCall) (count : UInt32) : Prop :=
  ∃ entry, self'.allItems = self.allItems ++ [entry] ∧
    self'.table = self.table ++ [self.allItems.length] ∧ entry.updateID = call.updateID ∧
      if call.clientID = 0 then count = 0
      else count = 1 ∧ entry.places.count call.clientID = 1

/-- The list, the table and the counters are those before. -/
def Unchanged (self self' : UpdateStore) (count : UInt32) : Prop :=
  self'.allItems = self.allItems ∧ self'.table = self.table ∧ self'.itemsUsed = self.itemsUsed ∧
    self'.skiCache = self.skiCache ∧ count = 0

/-- The call comes back with the lock released, and it has stored the update or changed nothing. -/
def StoreAtomic (self : UpdateStore) (call : StoreCall)
    (out : Option (UpdateStore × UInt32 × Int)) : Prop :=
  ∃ self' count retVal, out = some (self', count, retVal) ∧ self'.itemLocked = false ∧
    (retVal = 1 ∧ Stores self self' call count ∨ retVal ≠ 1 ∧ Unchanged self self' count)

/-- The memory from an attribute on. -/
def attrMemory (bgpsec : Bytes) : Memory := fun i => bgpsec.getD i 0

/-- The parser finds the key in the attribute. -/
def FindsKey (bgpsec : Bytes) (key : SkiKey) : Prop :=
  ∃ info keys, parseBgpsecPath bgpsec = some (some info) ∧ info.registerKeys = some keys ∧ key ∈ keys

/-- What registering an attribute with the SKI cache needs: its lengths stay inside of it and are not
those of two signature blocks; there is memory if it has path segments; no key brings an algorithm in
front of the first one of its AS; and with the identifier zero no update is filed under the keys. -/
structure CanRegister (cache : SkiTree) (updateID : UInt32) (bgpsec : Bytes) (mem : Allocation) :
    Prop where
  inside : attrExtent (attrMemory bgpsec) ≤ bgpsec.length
  oneBlock : ¬ TwoBlocks (attrMemory bgpsec)
  memory : ∀ info, parseBgpsecPath bgpsec = some (some info) → info.nrSegments ≠ 0 → mem.ski = true
  order : ∀ key, FindsKey bgpsec key → ¬ cache.BeforeFirst key.asn key.algoID
  zero : updateID = 0 → ∀ key, FindsKey bgpsec key →
    (SkiNoticesLemmas.dataOf cache key).cacheUID.items = []

/-- What storing a new update needs: memory for the item, for the copies, the array and the table; a
new item whose path pointers are NULL when there is no BGP data; a SKI cache that can register the
attribute; and an array with a place for the client. -/
structure CanStore (minNumberOfClients : UInt8) (store : UpdateStore) (call : StoreCall)
    (mem : Allocation) : Prop where
  item : store.itemsUsed = numPrealloc → mem.append = true
  pointers : call.bgpData = none → mem.asnPath = false ∧ mem.bgpsecPath = false
  copies : ∀ bgpData ∈ call.bgpData, (bgpData.asPath ≠ [] → mem.asnCopy = true) ∧
    (bgpData.bgpsecPathAttr ≠ none → mem.bgpsecCopy = true)
  keys : ∀ bgpData ∈ call.bgpData, ∀ attr ∈ bgpData.bgpsecPathAttr,
    CanRegister store.skiCache call.updateID attr mem
  array : minNumberOfClients ≠ 0 → mem.clients = true
  place : call.clientID ≠ 0 → minNumberOfClients ≠ 0
  table : mem.table = true

namespace StoreUpdateLemmas

variable {m : UInt8} {keepWindow : UInt16} {self : UpdateStore} {call : StoreCall} {mem : Allocation}
  {cEntry : CacheEntry}

/-! ## The SKI cache -/

section Registration

open SkiCacheLemmas SkiUndoLemmas

variable {bgpsec : Bytes} {info : UpdInfo} {cache : SkiTree} {updateID : UInt32}

theorem length_readAsns {n ptr : Nat} {asn : List UInt32} (h : readAsns bgpsec n ptr = some asn) :
    asn.length = n := by
  induction n generalizing ptr asn with
  | zero =>
    obtain rfl := Option.some.inj h
    rfl
  | succ n ih =>
    obtain ⟨first, -, h⟩ := Option.bind_eq_some_iff.mp h
    obtain ⟨rest, hrest, h⟩ := Option.bind_eq_some_iff.mp h
    obtain rfl := Option.some.inj h
    rw [List.length_cons, ih hrest]

theorem length_readSkis {n ptr : Nat} {skis : Bytes} (h : readSkis bgpsec n ptr = some skis) :
    skis.length = n * 20 := by
  induction n generalizing ptr skis with
  | zero =>
    obtain rfl := Option.some.inj h
    rfl
  | succ n ih =>
    obtain ⟨ski, hski, h⟩ := Option.bind_eq_some_iff.mp h
    obtain ⟨siglen, -, h⟩ := Option.bind_eq_some_iff.mp h
    obtain ⟨rest, hrest, h⟩ := Option.bind_eq_some_iff.mp h
    obtain rfl := Option.some.inj h
    rw [List.length_append, ih hrest, length_of_readAt hski]
    omega

theorem length_sigBlocks {ptr : Nat} {remainder : UInt16} {blocks : List Nat}
    (h : sigBlocks bgpsec ptr remainder = some (some blocks)) :
    blocks = [] ∨ (∃ block, blocks = [block]) ∨ blocks.length = bgpsecMaxSigBlocks := by
  unfold sigBlocks at h
  split at h
  · exact .inl (Option.some.inj (Option.some.inj h)).symm
  obtain ⟨length, -, h⟩ := Option.bind_eq_some_iff.mp h
  split at h
  · exact .inr (.inl ⟨ptr, (Option.some.inj (Option.some.inj h)).symm⟩)
  obtain ⟨length2, -, h⟩ := Option.bind_eq_some_iff.mp h
  split at h
  · obtain rfl := Option.some.inj (Option.some.inj h)
    exact .inr (.inr rfl)
  · cases h

/-- What the parser finds has one block or none, an AS number for each segment, and a SKI for each
segment of the block. -/
theorem parse_found (h : parseBgpsecPath bgpsec = some (some info)) :
    info.asn.length = info.nrSegments.toNat ∧
      (info.algoID = [] ∨ ∃ algoID, info.algoID = [algoID] ∧
        info.ski.length = info.nrSegments.toNat * 20) := by
  unfold parseBgpsecPath at h
  obtain ⟨⟨remainder, ptr⟩, -, h⟩ := Option.bind_eq_some_iff.mp h
  dsimp only at h
  split at h
  · cases h
  obtain ⟨length, -, h⟩ := Option.bind_eq_some_iff.mp h
  split at h
  · cases h
  obtain ⟨blocks, hblocks, h⟩ := Option.bind_eq_some_iff.mp h
  cases blocks with
  | none => cases h
  | some blocks =>
    dsimp only at h
    split at h
    · cases h
    next hmax =>
    obtain ⟨asn, hasn, h⟩ := Option.bind_eq_some_iff.mp h
    obtain ⟨algoID, halgoID, h⟩ := Option.bind_eq_some_iff.mp h
    obtain ⟨ski, hski, h⟩ := Option.bind_eq_some_iff.mp h
    obtain rfl := Option.some.inj (Option.some.inj h)
    refine ⟨length_readAsns hasn, ?_⟩
    obtain rfl | ⟨block, rfl⟩ | htwo := length_sigBlocks hblocks
    · exact .inl (Option.some.inj halgoID).symm
    · rw [List.mapM_cons, List.mapM_nil] at halgoID hski
      obtain ⟨first, -, halgoID⟩ := Option.bind_eq_some_iff.mp halgoID
      obtain ⟨skis, hskis, hski⟩ := Option.bind_eq_some_iff.mp hski
      obtain rfl := Option.some.inj halgoID
      obtain rfl := Option.some.inj hski
      refine .inr ⟨first, rfl, ?_⟩
      rw [List.flatten_cons, List.flatten_nil, List.append_nil]
      exact length_readSkis hskis
    · exact absurd htwo hmax

theorem mem_of_mapM {α β : Type} {f : α → Option β} {l : List α} {ys : List β}
    (h : l.mapM f = some ys) {y : β} (hy : y ∈ ys) : ∃ x ∈ l, f x = some y := by
  induction l generalizing ys with
  | nil =>
    obtain rfl := Option.some.inj h
    cases hy
  | cons x l ih =>
    rw [List.mapM_cons] at h
    obtain ⟨first, hfirst, h⟩ := Option.bind_eq_some_iff.mp h
    obtain ⟨rest, hrest, h⟩ := Option.bind_eq_some_iff.mp h
    obtain rfl := Option.some.inj h
    rcases List.mem_cons.mp hy with rfl | hy
    · exact ⟨x, List.mem_cons_self, hfirst⟩
    · obtain ⟨x', hx', hf⟩ := ih hrest hy
      exact ⟨x', List.mem_cons_of_mem x hx', hf⟩

theorem mem_turns {turn : Nat × Nat} :
    turn ∈ info.turns ↔ turn.1 < info.algoID.length ∧ turn.2 < info.nrSegments.toNat := by
  obtain ⟨sbIdx, segIdx⟩ := turn
  unfold UpdInfo.turns
  simp

/-- The keys of what the parser finds, all of one algorithm. -/
theorem keys_found (h : parseBgpsecPath bgpsec = some (some info)) :
    ∃ keys algoID, info.registerKeys = some keys ∧ ∀ key ∈ keys, key.algoID = algoID := by
  obtain ⟨hasn, hempty | ⟨algoID, halgo, hski⟩⟩ := parse_found h
  · refine ⟨[], 0, ?_, fun _ hkey => absurd hkey List.not_mem_nil⟩
    have hturns : info.turns = [] :=
      List.eq_nil_iff_forall_not_mem.mpr fun turn hturn => by
        have := (mem_turns.mp hturn).1
        rw [hempty] at this
        exact Nat.not_lt_zero _ this
    unfold UpdInfo.registerKeys
    rw [hturns]
    rfl
  · have hturn {turn : Nat × Nat} (hmem : turn ∈ info.turns) :
        ∃ key, info.keyAt turn (turn.2 * 20 + turn.2 * 20 * turn.1) = some key ∧
          key.algoID = algoID := by
      obtain ⟨hblock, hseg⟩ := mem_turns.mp hmem
      rw [halgo, List.length_singleton, Nat.lt_one_iff] at hblock
      obtain ⟨ski, hread⟩ := Option.isSome_iff_exists.mp
        ((isSome_readAt info.ski (turn.2 * 20) 20).mpr (by omega))
      have hlt : turn.2 < info.asn.length := hasn ▸ hseg
      refine ⟨⟨info.asn.get ⟨turn.2, hlt⟩, ski, algoID⟩, ?_, rfl⟩
      unfold UpdInfo.keyAt
      rw [hblock, Nat.mul_zero, Nat.add_zero, hread, halgo, List.getElem?_eq_getElem hlt]
      rfl
    have hsome : info.registerKeys.isSome :=
      (mapM_isSome _ _).mpr fun turn hmem => by
        obtain ⟨key, hkey, -⟩ := hturn hmem
        rw [hkey]
        rfl
    obtain ⟨keys, hkeys⟩ := Option.isSome_iff_exists.mp hsome
    refine ⟨keys, algoID, hkeys, fun key hkey => ?_⟩
    obtain ⟨turn, hmem, hat⟩ := mem_of_mapM hkeys hkey
    obtain ⟨key', hkey', halgo'⟩ := hturn hmem
    rw [hat] at hkey'
    obtain rfl := Option.some.inj hkey'
    exact halgo'

/-- An attribute is registered if and only if it can be. -/
theorem skiRegisterWithin_isSome : (skiRegisterWithin mem cache updateID bgpsec).isSome ↔
    CanRegister cache updateID bgpsec mem := by
  have hparse := parse_isSome (regionOf_getD bgpsec)
  unfold skiRegisterWithin
  cases hinfo : parseBgpsecPath bgpsec with
  | none =>
    refine iff_of_false Bool.false_ne_true fun h => ?_
    have := hparse.mpr ⟨h.inside, h.oneBlock⟩
    rw [hinfo] at this
    cases this
  | some result =>
    obtain ⟨hinside, hblocks⟩ := hparse.mp (by rw [hinfo]; rfl)
    cases result with
    | none =>
      refine iff_of_true rfl ⟨hinside, hblocks, fun info h => ?_, ?_, fun _ => ?_⟩
      · rw [hinfo] at h
        cases h
      · rintro key ⟨info, keys, h, -⟩
        rw [hinfo] at h
        cases h
      · rintro key ⟨info, keys, h, -⟩
        rw [hinfo] at h
        cases h
    | some info =>
      obtain ⟨keys, algoID, hkeys, halgo⟩ := keys_found hinfo
      have hfinds (key : SkiKey) : FindsKey bgpsec key ↔ key ∈ keys := by
        constructor
        · rintro ⟨info', keys', hinfo', hkeys', hkey⟩
          rw [hinfo] at hinfo'
          obtain rfl := Option.some.inj (Option.some.inj hinfo')
          rw [hkeys] at hkeys'
          obtain rfl := Option.some.inj hkeys'
          exact hkey
        · exact fun hkey => ⟨info, keys, hinfo, hkeys, hkey⟩
      have hregister : skiRegisterUpdate cache updateID bgpsec =
          keys.foldlM (registerTurn updateID) cache := by
        unfold skiRegisterUpdate
        rw [hinfo]
        dsimp only [Option.bind_eq_bind, Option.bind_some]
        rw [hkeys]
        rfl
      show (if info.nrSegments ≠ 0 ∧ mem.ski = false then none
        else skiRegisterUpdate cache updateID bgpsec).isSome ↔ _
      rw [hregister]
      split
      · next hfail =>
        refine iff_of_false Bool.false_ne_true fun h => ?_
        rw [h.memory info hinfo hfail.1] at hfail
        cases hfail.2
      · next hmem =>
        rw [registerFold_isSome halgo]
        constructor
        · intro hall
          refine ⟨hinside, hblocks, fun info' hinfo' hseg => ?_, fun key hkey => ?_,
            fun hzero key hkey => ?_⟩
          · rw [hinfo] at hinfo'
            obtain rfl := Option.some.inj (Option.some.inj hinfo')
            exact Bool.not_eq_false _ |>.mp fun hfalse => hmem ⟨hseg, hfalse⟩
          · have hkey := (hfinds key).mp hkey
            rw [halgo key hkey]
            exact (hall key hkey).1
          · exact (hall key ((hfinds key).mp hkey)).2 hzero
        · intro h key hkey
          have horder := h.order key ((hfinds key).mpr hkey)
          rw [halgo key hkey] at horder
          exact ⟨horder, fun hzero => h.zero hzero key ((hfinds key).mpr hkey)⟩

end Registration

/-! ## The cache -/

theorem pos_of_ne_zero {n : UInt8} (h : n ≠ 0) : 0 < n.toNat := by
  refine Nat.pos_of_ne_zero fun hzero => h ?_
  exact UInt8.toNat_inj.mp hzero

theorem packed_new (updateID : UInt32) (defRes : Option DefaultResult)
    (bgpsecPath : Option (List UInt8)) (pathId : UInt32) :
    Packed m (newCacheEntry m updateID defRes bgpsecPath pathId) [] :=
  ⟨rfl, Nat.zero_le _, rfl, List.not_mem_nil, List.nodup_nil⟩

/-- The first client of an entry with places takes one of them. -/
theorem first_client (h : Packed m cEntry []) (hc : call.clientID ≠ 0) (hm : m ≠ 0) :
    ∃ entry, addClientReferenceChecked m cEntry call.clientID mem = some (entry, 1, true) ∧
      entry.updateID = cEntry.updateID ∧ entry.places.count call.clientID = 1 := by
  obtain ⟨hcount, hpacked⟩ := addClientReference_free (n := m) h List.not_mem_nil hc (pos_of_ne_zero hm)
  have hplaces : cEntry.places = List.replicate m.toNat 0 := by
    rw [Packed.places h, h.array]
    rfl
  have hloop : (addClientLoop call.clientID cEntry.places).isSome := by
    obtain ⟨k, hk⟩ := Nat.exists_eq_succ_of_ne_zero (Nat.ne_of_gt (pos_of_ne_zero hm))
    rw [hplaces, hk, List.replicate_succ, addClientLoop, if_pos rfl]
    rfl
  refine ⟨(addClientReference m cEntry call.clientID).1, ?_, addClientReference_updateID .., ?_⟩
  · show (if (addClientLoop call.clientID cEntry.places).isSome then
        some ((addClientReference m cEntry call.clientID).1,
          (addClientReference m cEntry call.clientID).2, true) else _) = _
    rw [if_pos hloop, hcount]
  · have hne : ¬ (0 : UInt8) == call.clientID := by
      rw [beq_iff_eq]
      exact fun hzero => hc hzero.symm
    rw [Packed.places hpacked, hpacked.array, List.count_append, List.count_replicate, if_neg hne]
    simp

/-- An entry without places has none for a client. -/
theorem no_place (h : Packed 0 cEntry []) :
    addClientReferenceChecked 0 cEntry call.clientID mem =
      if mem.realloc then none else some ({ cEntry with clients := [] }, 0, false) := by
  have hplaces : cEntry.places = [] := by
    rw [Packed.places h, h.array]
    rfl
  unfold addClientReferenceChecked
  rw [hplaces]
  rfl

theorem not_unchanged {entry : CacheEntry} {self' : UpdateStore} {count : UInt32}
    (h : self'.allItems = self.allItems ++ [entry]) : ¬ Unchanged self self' count := by
  rintro ⟨hsame, -⟩
  have hlength := congrArg List.length (h.symm.trans hsame)
  rw [List.length_append, List.length_singleton] at hlength
  exact Nat.succ_ne_self _ hlength

/-- The last step of a new update: its entry is added, with what is counted and returned. -/
theorem added_atomic_iff {self' : UpdateStore} {entry : CacheEntry} {count : UInt32} {retVal : Int}
    (hlock : self'.itemLocked = false) (hitems : self'.allItems = self.allItems ++ [entry])
    (htable : self'.table = self.table ++ [self.allItems.length])
    (hid : entry.updateID = call.updateID) :
    StoreAtomic self call (some (self', count, retVal)) ↔
      retVal = 1 ∧ if call.clientID = 0 then count = 0
        else count = 1 ∧ entry.places.count call.clientID = 1 := by
  constructor
  · rintro ⟨self'', count', retVal', heq, -, ⟨hret, entry', hitems', -, -, hclient⟩ | ⟨-, hsame⟩⟩
    · cases heq
      rw [hitems, List.append_cancel_left_eq, List.cons.injEq] at hitems'
      obtain ⟨rfl, -⟩ := hitems'
      exact ⟨hret, hclient⟩
    · cases heq
      exact absurd hsame (not_unchanged hitems)
  · rintro ⟨hret, hclient⟩
    exact ⟨self', count, retVal, rfl, hlock, .inl ⟨hret, entry, hitems, htable, hid, hclient⟩⟩

theorem storeCacheEntryBlob_eq_true {bgpData : BgpSecData} : storeCacheEntryBlob bgpData mem = true ↔
    (bgpData.asPath ≠ [] → mem.asnCopy = true) ∧
      (bgpData.bgpsecPathAttr ≠ none → mem.bgpsecCopy = true) := by
  unfold storeCacheEntryBlob
  rw [Bool.and_eq_true, Bool.or_eq_true, Bool.or_eq_true, List.isEmpty_iff, Option.isNone_iff_eq_none,
    Decidable.imp_iff_not_or, Decidable.imp_iff_not_or, Decidable.not_not, Decidable.not_not]

/-- The path data of a new item can be stored. -/
theorem storePathData_isSome : (self.storePathData call mem).isSome ↔
    (call.bgpData = none → mem.asnPath = false ∧ mem.bgpsecPath = false) ∧
      ∀ bgpData ∈ call.bgpData, ((bgpData.asPath ≠ [] → mem.asnCopy = true) ∧
        (bgpData.bgpsecPathAttr ≠ none → mem.bgpsecCopy = true)) ∧
          ∀ attr ∈ bgpData.bgpsecPathAttr, CanRegister self.skiCache call.updateID attr mem := by
  unfold UpdateStore.storePathData
  cases hdata : call.bgpData with
  | none =>
    rw [and_iff_left fun _ h => absurd h (Option.not_mem_none _)]
    cases hasn : mem.asnPath <;> cases hbgpsec : mem.bgpsecPath <;> simp
  | some bgpData =>
    rw [and_iff_right fun h => nomatch h]
    simp only [Option.mem_some_iff, forall_eq', ← storeCacheEntryBlob_eq_true]
    split
    · next hcopies =>
      rw [and_iff_right hcopies]
      cases hattr : bgpData.bgpsecPathAttr with
      | none => exact iff_of_true rfl fun _ h => absurd h (Option.not_mem_none _)
      | some attr =>
        simp only [Option.mem_some_iff, forall_eq']
        exact skiRegisterWithin_isSome
    · next hcopies => exact iff_of_false Bool.false_ne_true fun h => hcopies h.1

theorem not_atomic_none : ¬ StoreAtomic self call none := by
  rintro ⟨self', count, retVal, heq, -⟩
  cases heq

/-- The client of a new item is registered, or there is none, unless there is no array or no place for
it. -/
theorem storeClient_cases (h : Packed m cEntry []) :
    (∃ entry count, storeClient m keepWindow cEntry call mem = some (entry, count, 1) ∧
        entry.updateID = cEntry.updateID ∧
        ((m ≠ 0 → mem.clients = true) ∧ (call.clientID ≠ 0 → m ≠ 0)) ∧
        if call.clientID = 0 then count = 0
          else count = 1 ∧ entry.places.count call.clientID = 1) ∨
      (¬ ((m ≠ 0 → mem.clients = true) ∧ (call.clientID ≠ 0 → m ≠ 0)) ∧
        (storeClient m keepWindow cEntry call mem = none ∨
          ∃ entry, storeClient m keepWindow cEntry call mem = some (entry, 0, -1) ∧
            entry.updateID = cEntry.updateID)) := by
  by_cases harray : m ≠ 0 ∧ mem.clients = false
  · refine .inr ⟨fun hcan => ?_, .inl (if_pos harray)⟩
    rw [hcan.1 harray.1] at harray
    cases harray.2
  have hclients : m ≠ 0 → mem.clients = true := fun hm =>
    (Bool.not_eq_false _).mp fun hfalse => harray ⟨hm, hfalse⟩
  by_cases hc : call.clientID = 0
  · refine .inl ⟨{ cEntry with gcFlag := getGCTime call.now keepWindow }, 0, ?_, rfl,
      ⟨hclients, fun hne => absurd hc hne⟩, ?_⟩
    · unfold storeClient
      rw [if_neg harray, hc, if_neg (by decide)]
    · rw [if_pos hc]
  · have hpos : call.clientID > 0 := UInt8.pos_iff_ne_zero.mpr hc
    unfold storeClient
    rw [if_neg harray, if_pos hpos]
    by_cases hm : m = 0
    · subst hm
      refine .inr ⟨fun hcan => hcan.2 hc rfl, ?_⟩
      rw [no_place h]
      cases mem.realloc with
      | true => exact .inl rfl
      | false => exact .inr ⟨{ cEntry with clients := [] }, rfl, rfl⟩
    · obtain ⟨entry, hadd, hid, hcount⟩ := @first_client m call mem cEntry h hc hm
      refine .inl ⟨entry, 1, ?_, hid, ⟨hclients, fun _ => hm⟩, ?_⟩
      · rw [hadd]
        rfl
      · rw [if_neg hc]
        exact ⟨rfl, hcount⟩

/-- A new update with an item for it. -/
theorem storeItem_atomic_iff (hlock : self.itemLocked = false) :
    StoreAtomic self call (self.storeItem m keepWindow call mem) ↔
      (self.storePathData call mem).isSome ∧
        ((m ≠ 0 → mem.clients = true) ∧ (call.clientID ≠ 0 → m ≠ 0)) ∧ mem.table = true := by
  unfold UpdateStore.storeItem
  cases hdata : self.storePathData call mem with
  | none => exact iff_of_false not_atomic_none fun hcan => Bool.false_ne_true hcan.1
  | some skiCache =>
    rw [and_iff_right Option.isSome_some]
    show StoreAtomic self call (Option.bind (storeClient ..) _) ↔ _
    have hpacked := packed_new (m := m) call.updateID call.defRes
      (call.bgpData.bind (·.bgpsecPathAttr)) call.pathId
    rcases @storeClient_cases m keepWindow call mem _ hpacked with
      ⟨entry, count, hclient, hid, hcan, hcount⟩ | ⟨hcan, hclient | ⟨entry, hclient, hid⟩⟩
    · rw [hclient, and_iff_right hcan, Option.bind_some]
      dsimp only
      split
      · next htable =>
        refine Iff.trans (added_atomic_iff hlock rfl rfl hid) ?_
        exact iff_of_true ⟨rfl, hcount⟩ htable
      · next htable => exact iff_of_false not_atomic_none htable
    · rw [hclient]
      exact iff_of_false not_atomic_none fun h => hcan h.1
    · rw [hclient, Option.bind_some]
      dsimp only
      refine iff_of_false ?_ fun h => hcan h.1
      split
      · rintro ⟨self', count, retVal, heq, -, ⟨hret, -⟩ | ⟨-, hsame⟩⟩
        · cases heq
          cases hret
        · cases heq
          exact not_unchanged rfl hsame
      · exact not_atomic_none

/-- A new update can be stored. -/
theorem canStore_iff : CanStore m self call mem ↔
    (self.itemsUsed = numPrealloc → mem.append = true) ∧ (self.storePathData call mem).isSome ∧
      ((m ≠ 0 → mem.clients = true) ∧ (call.clientID ≠ 0 → m ≠ 0)) ∧ mem.table = true := by
  rw [storePathData_isSome]
  constructor
  · intro h
    exact ⟨h.item, ⟨h.pointers, fun bgpData hdata => ⟨h.copies bgpData hdata, h.keys bgpData hdata⟩⟩,
      ⟨h.array, h.place⟩, h.table⟩
  · rintro ⟨hitem, ⟨hpointers, hpath⟩, ⟨harray, hplace⟩, htable⟩
    exact ⟨hitem, hpointers, fun bgpData hdata => (hpath bgpData hdata).1,
      fun bgpData hdata => (hpath bgpData hdata).2, harray, hplace, htable⟩

end StoreUpdateLemmas

open StoreUpdateLemmas

/-- A call is atomic if and only if the lock is free and the update is stored already or can be. -/
theorem storeUpdate_atomic_iff (minNumberOfClients : UInt8) (defaultKeepWindow : UInt16)
    (self : UpdateStore) (call : StoreCall) (mem : Allocation) :
    StoreAtomic self call (self.storeUpdate minNumberOfClients defaultKeepWindow call mem) ↔
      self.itemLocked = false ∧
        (self.tableFind call.updateID = true ∨ CanStore minNumberOfClients self call mem) := by
  cases hfind : self.tableFind call.updateID with
  | true =>
    have hout : self.storeUpdate minNumberOfClients defaultKeepWindow call mem = some (self, 0, 0) := by
      rw [UpdateStore.storeUpdate, if_pos hfind]
    rw [hout]
    constructor
    · rintro ⟨self', count, retVal, heq, hlock, -⟩
      cases heq
      exact ⟨hlock, .inl rfl⟩
    · rintro ⟨hlock, -⟩
      exact ⟨self, 0, 0, rfl, hlock, .inr ⟨by decide, rfl, rfl, rfl, rfl, rfl⟩⟩
  | false =>
    cases hlock : self.itemLocked with
    | true =>
      have hout : self.storeUpdate minNumberOfClients defaultKeepWindow call mem = none := by
        rw [UpdateStore.storeUpdate, hfind, hlock, if_neg Bool.false_ne_true, if_pos rfl]
      rw [hout]
      constructor
      · rintro ⟨self', count, retVal, heq, -⟩
        cases heq
      · rintro ⟨hfree, -⟩
        cases hfree
    | false =>
      by_cases happend : self.itemsUsed = numPrealloc → mem.append = true
      · have hmem : ¬ (self.itemsUsed = numPrealloc ∧ mem.append = false) := by
          rintro ⟨hused, hfail⟩
          rw [happend hused] at hfail
          cases hfail
        have hout : self.storeUpdate minNumberOfClients defaultKeepWindow call mem =
            self.storeItem minNumberOfClients defaultKeepWindow call mem := by
          rw [UpdateStore.storeUpdate, hfind, hlock, if_neg Bool.false_ne_true,
            if_neg Bool.false_ne_true, if_neg hmem]
        rw [hout, storeItem_atomic_iff hlock, canStore_iff, and_iff_right happend, and_iff_right rfl]
        exact (or_iff_right Bool.false_ne_true).symm
      · have hfull : self.itemsUsed = numPrealloc ∧ mem.append = false := by
          rw [Classical.not_imp, Bool.not_eq_true] at happend
          exact happend
        have hout : self.storeUpdate minNumberOfClients defaultKeepWindow call mem =
            some ({ self with itemLocked := true, availItems := false }, 0, -1) := by
          rw [UpdateStore.storeUpdate, hfind, hlock, if_neg Bool.false_ne_true,
            if_neg Bool.false_ne_true, if_pos hfull]
        rw [hout]
        constructor
        · rintro ⟨self', count, retVal, heq, hreleased, -⟩
          cases heq
          cases hreleased
        · rintro ⟨-, hstored | hcan⟩
          · cases hstored
          · exact absurd hcan.item happend

/-- The cache when the item in use is the last one. -/
def fullStore : UpdateStore := ⟨[], [], 1, true, false, SortedMap.empty⟩

/-- The first update of a client. -/
def firstStore : StoreCall := ⟨1, 7, none, some ⟨[], none⟩, 0, 0⟩

/-- There is no memory for the next item: the call returns -1, with the lock held. -/
theorem append_keeps_lock :
    ¬ StoreAtomic fullStore firstStore
      (fullStore.storeUpdate 4 900 firstStore { Allocation.granted with append := false }) := by
  rintro ⟨self', count, retVal, heq, hreleased, -⟩
  cases heq
  cases hreleased

end SrxSuite.Server

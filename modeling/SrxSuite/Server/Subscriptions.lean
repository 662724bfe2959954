import SrxSuite.Server.Clients
import SrxSuite.Server.SkiNotices

/-!
# Updates that are subscribed to key changes

`storeUpdate` registers an update with the SKI cache and `deleteUpdateFromCache` unregisters it
(`server/update_cache.c`). The first is done when the entry is made, the second whenever a client is
removed from it.

Result: as long as every call meets `Keeps`, an update is registered exactly as long as a client
references it (`subscribed_of_keeps`). Two clients are enough for a call that does not: the first one
that deletes the update unregisters it for both (`not_subscribed_second`).
-/

namespace SrxSuite.Server

open Crypto Runs

/-! ## The system -/

/-- The update cache and the SKI cache; `none` is a cache after something that is not defined in C.
`attrOf` is the BGPsec attribute an update was stored with. -/
structure SubscriptionState where
  updateCache : UpdateCache
  skiCache : Option SkiTree
  attrOf : UInt32 → Option BgpsecPath

/-- What is done for clients. -/
inductive SubscriptionOp
  | store (clientID : UInt8) (updateID : UInt32) (defRes : Option DefaultResult)
      (attr : Option BgpsecPath) (pathId : UInt32) (now : Nat)
  | register (updateID : UInt32) (clientID : UInt8)
  | delete (routerID : RouterID) (updateID : UInt32) (keepWindow : UInt16) (now : Nat)

namespace SubscriptionState

/-- `storeUpdate` with the SKI cache: an update that is new and has an attribute is registered. -/
def store (s : SubscriptionState) (clientID : UInt8) (updateID : UInt32)
    (defRes : Option DefaultResult) (attr : Option BgpsecPath) (pathId : UInt32) (now : Nat) :
    SubscriptionState :=
  match s.updateCache.tableFind updateID with
  | some _ => s
  | none =>
    { updateCache := (storeUpdate s.updateCache clientID updateID defRes
        (attr.map BgpsecPath.encode) pathId now).1
      skiCache := match attr with
        | none => s.skiCache
        | some attr => s.skiCache.bind fun cache => skiRegisterUpdate cache updateID attr.encode
      attrOf := Function.update s.attrOf updateID attr }

/-- `deleteUpdateFromCache` with the SKI cache: the update is unregistered when the client was
removed. -/
def delete (s : SubscriptionState) (clientID : UInt8) (updateID : UInt32) (keepTime : UInt16)
    (now : Nat) : SubscriptionState :=
  let deleted := deleteUpdateFromCache s.updateCache clientID updateID keepTime now
  { s with
    updateCache := deleted.1
    skiCache := match (s.updateCache.tableFind updateID).bind (·.bgpsecPath) with
      | none => s.skiCache
      | some bgpsecPath =>
        if deleted.2 then
          s.skiCache.bind fun cache => skiUnregisterUpdate cache updateID bgpsecPath
        else s.skiCache }

def step (s : SubscriptionState) : SubscriptionOp → SubscriptionState
  | .store clientID updateID defRes attr pathId now =>
    s.store clientID updateID defRes attr pathId now
  | .register updateID clientID =>
    { s with updateCache := (registerClient s.updateCache updateID clientID).1 }
  | .delete routerID updateID keepWindow now => s.delete routerID.1 updateID keepWindow now

/-- The caches of a new server. -/
def initial (minNumberOfClients : UInt8) (minPos : 0 < minNumberOfClients) (keepWindow : UInt16) :
    SubscriptionState :=
  ⟨createUpdateCache minNumberOfClients keepWindow minPos, some SortedMap.empty, fun _ => none⟩

/-- The update is filed under the key. -/
def Subscribed (cache : SkiTree) (updateID : UInt32) (key : SkiKey) : Prop :=
  ∃ cData, cache.getData key = some cData ∧ updateID ∈ cData.cacheUID.keys

/-- An update with a BGPsec attribute is filed under the keys of the attribute if and only if a client
references its entry. -/
def Right (s : SubscriptionState) : Prop :=
  ∃ cache, s.skiCache = some cache ∧
    ∀ updateID entry attr, s.updateCache.tableFind updateID = some entry →
      s.attrOf updateID = some attr → ∀ key, Names attr key →
        (Subscribed cache updateID key ↔ ∃ clientID, entry.lists clientID = true)

/-- The condition. A new update has one signature block and, when it names keys, a client, an
identifier other than zero and no algorithm in front of the first one. A client is added to an update
that has clients, and its array does not grow beyond a byte. The client an update is deleted for is
the only one. -/
def Keeps (s : SubscriptionState) : SubscriptionOp → Prop
  | .store clientID updateID _ attr _ _ => s.updateCache.tableFind updateID = none →
      ∀ a ∈ attr, a.blocks.length = 1 ∧ ∀ key, Names a key → clientID ≠ 0 ∧ updateID ≠ 0 ∧
        ∀ cache ∈ s.skiCache, ¬ cache.BeforeFirst key.asn key.algoID
  | .register updateID clientID => ∀ entry, s.updateCache.tableFind updateID = some entry →
      s.attrOf updateID ≠ none → clientID ≠ 0 →
        (∃ other, entry.lists other = true) ∧ (clientID ∈ entry.places ∨ 0 ∈ entry.places ∨
          entry.noPossibleClients.toNat + s.updateCache.minNumberOfClients.toNat < 256)
  | .delete routerID updateID _ _ => ∀ entry, s.updateCache.tableFind updateID = some entry →
      s.attrOf updateID ≠ none → entry.lists routerID.1 = true →
        ∀ other, entry.lists other = true → other = routerID.1

end SubscriptionState

namespace SubscriptionLemmas

open SubscriptionState SkiNoticesLemmas SkiCacheLemmas ClientArrayLemmas ClientLemmas
  UpdateCacheLemmas

variable {s : SubscriptionState} {updateID : UInt32} {c : UInt8} {entry : CacheEntry}
  {attr : Option BgpsecPath} {k m : UInt8} {cs : List UInt8}

/-! ## Clients of an entry -/

/-- A client references the entry. -/
def inUse (entry : CacheEntry) : Bool := entry.places.any (· != 0)

theorem inUse_iff : inUse entry = true ↔ ∃ c, entry.lists c = true := by
  unfold inUse CacheEntry.lists
  rw [List.any_eq_true]
  constructor
  · rintro ⟨c, hmem, hc⟩
    exact ⟨c, Bool.and_eq_true_iff.mpr ⟨hc, List.contains_iff_mem.mpr hmem⟩⟩
  · rintro ⟨c, hc⟩
    obtain ⟨hne, hmem⟩ := Bool.and_eq_true_iff.mp hc
    exact ⟨c, List.contains_iff_mem.mp hmem, hne⟩

theorem inUse_packed (h : Packed k entry cs) : inUse entry = true ↔ cs ≠ [] := by
  rw [inUse_iff]
  simp only [Packed.lists h]
  exact ⟨fun ⟨_, hc⟩ => List.ne_nil_of_mem hc, List.exists_mem_of_ne_nil cs⟩

/-- The array stays packed when a client is added, as long as its size is not cut. -/
theorem addClientReference_packed (h : Packed k entry cs) (hc : c ≠ 0) (hm : 0 < m)
    (hplace : c ∈ entry.places ∨ 0 ∈ entry.places ∨
      entry.noPossibleClients.toNat + m.toNat < 256) :
    ∃ k' cs', Packed k' (addClientReference m entry c).1 cs' ∧ cs' ≠ [] := by
  by_cases hmem : c ∈ cs
  · rw [addClientReference_listed h hmem]
    exact ⟨k, cs, ⟨h.size, h.fits, h.array, h.noZero, h.nodup⟩, List.ne_nil_of_mem hmem⟩
  by_cases hfree : cs.length < k.toNat
  · exact ⟨k, cs ++ [c], (addClientReference_free h hmem hc hfree).2,
      List.append_ne_nil_of_right_ne_nil cs (List.cons_ne_nil c [])⟩
  -- a full array has neither the client nor a free place
  have hfull : cs.length = k.toNat := Nat.le_antisymm h.fits (Nat.le_of_not_lt hfree)
  have hplaces : entry.places = cs := by
    rw [Packed.places h, h.array, hfull, Nat.sub_self, List.replicate_zero, List.append_nil]
  have hsmall : k.toNat + m.toNat < 256 := by
    rw [hplaces, h.size] at hplace
    exact (hplace.resolve_left hmem).resolve_left h.noZero
  have hmpos : 0 < m.toNat := UInt8.lt_iff_toNat_lt.mp hm
  have hsize : (UInt8.ofNat (k.toNat + m.toNat)).toNat = k.toNat + m.toNat :=
    UInt8.toNat_ofNat_of_lt' hsmall
  have hlen : (cs ++ [c]).length = k.toNat + 1 := by
    rw [List.length_append, hfull, List.length_singleton]
  rw [addClientReference_full h hmem hfull, extended_array c hfull hmpos]
  refine ⟨UInt8.ofNat (k.toNat + m.toNat), cs ++ [c], ⟨rfl, ?_, ?_, ?_, ?_⟩,
    List.append_ne_nil_of_right_ne_nil cs (List.cons_ne_nil c [])⟩
  · rw [hlen, hsize]
    omega
  · rw [hlen, hsize, show k.toNat + m.toNat - (k.toNat + 1) = m.toNat - 1 by omega, List.append_assoc]
    rfl
  · rw [List.mem_append, List.mem_singleton]
    rintro (hz | hz)
    · exact h.noZero hz
    · exact hc hz.symm
  · rw [← List.concat_eq_append]
    exact h.nodup.concat hmem

theorem addClientReference_bgpsecPath (m : UInt8) (entry : CacheEntry) (c : UInt8) :
    (addClientReference m entry c).1.bgpsecPath = entry.bgpsecPath := by
  unfold addClientReference
  split
  · rfl
  · rfl

theorem deleteUpdateFromCacheEntry_bgpsecPath (c : UInt8) (entry : CacheEntry) (t : UInt16) :
    (deleteUpdateFromCacheEntry c entry t).1.bgpsecPath = entry.bgpsecPath := by
  unfold deleteUpdateFromCacheEntry
  dsimp only
  split
  · rfl
  · split
    · rfl
    · rfl

/-- The entry of a new update. -/
theorem tableFind_storeUpdate {self : UpdateCache} (hnew : self.tableFind updateID = none)
    (c : UInt8) (defRes : Option DefaultResult) (bgpsecPath : Option (List UInt8)) (pathId : UInt32)
    (now : Nat) :
    ∃ entry cs, (∀ id, (storeUpdate self c updateID defRes bgpsecPath pathId now).1.tableFind id =
        if id = updateID then some entry else self.tableFind id) ∧
      entry.bgpsecPath = bgpsecPath ∧ Packed self.minNumberOfClients entry cs ∧
      (cs ≠ [] ↔ c ≠ 0) := by
  have hpacked : Packed self.minNumberOfClients
      (newCacheEntry self.minNumberOfClients updateID defRes bgpsecPath pathId) [] :=
    newCacheEntry_packed defRes bgpsecPath pathId
  unfold storeUpdate
  split
  · next hsome =>
    rw [hnew] at hsome
    cases hsome
  · dsimp only
    split
    · next hc =>
      have hne : c ≠ 0 := UInt8.pos_iff_ne_zero.mp hc
      refine ⟨_, [c], fun id => ?_, addClientReference_bgpsecPath self.minNumberOfClients _ c,
        (addClientReference_free hpacked List.not_mem_nil hne
          (UInt8.lt_iff_toNat_lt.mp self.minPos)).2,
        ⟨fun _ => hne, fun _ => List.cons_ne_nil c []⟩⟩
      rw [tableFind_tableAdd, addClientReference_updateID]
      rfl
    · next hc =>
      have hzero : c = 0 := Classical.not_not.mp fun h => hc (UInt8.pos_iff_ne_zero.mpr h)
      have hpacked' : Packed self.minNumberOfClients
          { newCacheEntry self.minNumberOfClients updateID defRes bgpsecPath pathId with
            gcFlag := getGCTime now self.defaultKeepWindow } [] :=
        ⟨rfl, hpacked.fits, rfl, hpacked.noZero, hpacked.nodup⟩
      exact ⟨_, [], @tableFind_tableAdd self
          { newCacheEntry self.minNumberOfClients updateID defRes bgpsecPath pathId with
            gcFlag := getGCTime now self.defaultKeepWindow } hnew,
        rfl, hpacked', ⟨fun h => absurd rfl h, fun h => absurd hzero h⟩⟩

/-! ## The invariant -/

/-- How often an update is to be filed under a key. -/
def expected (s : SubscriptionState) (key : SkiKey) (updateID : UInt32) : Nat :=
  match s.updateCache.tableFind updateID, s.attrOf updateID with
  | some entry, some attr => if inUse entry then (attrKeys attr).count key else 0
  | _, _ => 0

/-- The invariant: every update is filed as often as its attribute names the key while a client
references it, and the array of its clients is packed. -/
structure Subscribing (s : SubscriptionState) : Prop where
  filed : ∃ cache, s.skiCache = some cache ∧ Filed cache (fun _ => 0) (expected s)
  paths : ∀ updateID entry, s.updateCache.tableFind updateID = some entry →
    entry.bgpsecPath = (s.attrOf updateID).map BgpsecPath.encode
  arrays : ∀ updateID entry attr, s.updateCache.tableFind updateID = some entry →
    s.attrOf updateID = some attr → attr.blocks.length = 1 ∧ ∃ k cs, Packed k entry cs

theorem subscribing_initial {m : UInt8} (minPos : 0 < m) (keepWindow : UInt16) :
    Subscribing (initial m minPos keepWindow) where
  filed := ⟨SortedMap.empty, rfl, fun _ => ⟨rfl, fun _ => rfl⟩⟩
  paths := fun _ _ h => nomatch h
  arrays := fun _ _ _ h => nomatch h

theorem subscribed_iff {cache : SkiTree} {key : SkiKey} :
    Subscribed cache updateID key ↔ updateID ∈ (dataOf cache key).cacheUID.keys := by
  unfold Subscribed dataOf
  cases cache.getData key with
  | none =>
    constructor
    · rintro ⟨_, h, -⟩
      cases h
    · intro hmem
      cases hmem
  | some cData =>
    constructor
    · rintro ⟨cData', h, hmem⟩
      obtain rfl := Option.some.inj h
      exact hmem
    · intro hmem
      exact ⟨cData, rfl, hmem⟩

theorem right_of_subscribing (h : Subscribing s) : s.Right := by
  obtain ⟨cache, hcache, hfiled⟩ := h.filed
  refine ⟨cache, hcache, fun updateID entry attr hfind hattr key hnames => ?_⟩
  have hpos : 0 < (attrKeys attr).count key := List.count_pos_iff.mpr (names_iff.mp hnames)
  rw [subscribed_iff, (hfiled key).2.mem_keys, ← inUse_iff]
  unfold expected
  rw [hfind, hattr]
  dsimp only
  split
  · next huse => exact ⟨fun _ => huse, fun _ => Nat.ne_of_gt hpos⟩
  · next huse => exact ⟨fun h => absurd rfl h, fun h => absurd h huse⟩

/-! ## Steps -/

/-- What is expected after an update was stored: as often as its attribute names the key, when it is in
use; the other updates stay as they are. -/
theorem expected_stored {updateCache : UpdateCache} {skiCache : Option SkiTree}
    (hfind : ∀ id, updateCache.tableFind id =
      if id = updateID then some entry else s.updateCache.tableFind id) (key : SkiKey) (id : UInt32) :
    expected ⟨updateCache, skiCache, Function.update s.attrOf updateID attr⟩ key id =
      if id = updateID then
        if inUse entry then (attr.map fun a => (attrKeys a).count key).getD 0 else 0
      else expected s key id := by
  unfold expected
  dsimp only
  rw [hfind]
  rcases eq_or_ne id updateID with rfl | hid
  · rw [if_pos rfl, if_pos rfl, Function.update_self]
    cases attr with
    | none => rw [Option.map_none, Option.getD_none, ite_self]
    | some a => rfl
  · rw [if_neg hid, if_neg hid, Function.update_of_ne hid]

theorem count_lt (attr : BgpsecPath) (hblocks : attr.blocks.length = 1) (key : SkiKey) :
    (attrKeys attr).count key < 65536 := by
  obtain ⟨block, hblock⟩ := List.length_eq_one_iff.mp hblocks
  have hsigned : block.segments.length = attr.path.length :=
    attr.signed block (by rw [hblock]; exact List.mem_singleton_self block)
  have hlength : (attrKeys attr).length = attr.path.length := by
    unfold attrKeys
    rw [hblock, List.flatMap_singleton, length_blockKeys hsigned]
  have hpath := HashMessageLemmas.path_fits attr
  rw [← hlength] at hpath
  exact Nat.lt_of_le_of_lt List.count_le_length hpath

theorem subscribing_store (h : Subscribing s) (defRes : Option DefaultResult) (pathId : UInt32)
    (now : Nat) (hop : s.Keeps (.store c updateID defRes attr pathId now)) :
    Subscribing (s.store c updateID defRes attr pathId now) := by
  unfold store
  cases hfind : s.updateCache.tableFind updateID with
  | some entry => exact h
  | none =>
    obtain ⟨cache, hcache, hfiled⟩ := h.filed
    obtain ⟨entry, cs, hfind', hpath, hpacked, hcs⟩ := tableFind_storeUpdate hfind c defRes
      (attr.map BgpsecPath.encode) pathId now
    have hzero (key : SkiKey) : expected s key updateID = 0 := by
      unfold expected
      rw [hfind]
    refine ⟨?_, fun id e he => ?_, fun id e a he ha => ?_⟩
    · cases attr with
      | none =>
        refine ⟨cache, hcache, hfiled.congr fun key id => ?_⟩
        rw [expected_stored hfind']
        split
        · next hid =>
          rw [hid, hzero, Option.map_none, Option.getD_none, ite_self]
        · rfl
      | some a =>
        obtain ⟨hblocks, hkeys⟩ := hop hfind a rfl
        obtain ⟨hregister, -, algoID, halgo⟩ := @skiRegisterUpdate_encode cache updateID a hblocks
        obtain ⟨cache', hfold, hfiled'⟩ := registerFold halgo (fun key hkey => by
          obtain ⟨-, hid, horder⟩ := hkeys key (names_iff.mpr hkey)
          refine ⟨hid, halgo key hkey ▸ horder cache hcache, ?_⟩
          rw [hzero key, Nat.zero_add]
          exact count_lt a hblocks key) hfiled
        refine ⟨cache', ?_, hfiled'.congr fun key id => ?_⟩
        · dsimp only
          rw [hcache, Option.bind_some, hregister]
          exact hfold
        · rw [expected_stored hfind']
          split
          · next hid =>
            rw [hid, hzero key, Nat.zero_add]
            split
            · rfl
            · next huse =>
              refine List.count_eq_zero_of_not_mem fun hkey => huse ?_
              exact (inUse_packed hpacked).mpr (hcs.mpr (hkeys key (names_iff.mpr hkey)).1)
          · exact Nat.add_zero _
    · dsimp only at he ⊢
      rw [hfind'] at he
      by_cases hid : id = updateID
      · subst hid
        rw [if_pos rfl] at he
        obtain rfl := Option.some.inj he
        rw [hpath, Function.update_self]
      · rw [if_neg hid] at he
        rw [Function.update_of_ne hid]
        exact h.paths id e he
    · dsimp only at he ha
      rw [hfind'] at he
      by_cases hid : id = updateID
      · subst hid
        rw [if_pos rfl] at he
        obtain rfl := Option.some.inj he
        rw [Function.update_self] at ha
        exact ⟨(hop hfind a ha).1, _, cs, hpacked⟩
      · rw [if_neg hid] at he
        rw [Function.update_of_ne hid] at ha
        exact h.arrays id e a he ha

section Write

variable {f : CacheEntry → CacheEntry} (hf : ∀ entry, (f entry).updateID = entry.updateID)
  {skiCache : Option SkiTree}

/-- The state after a write to an entry. -/
def written (s : SubscriptionState) (updateID : UInt32) (f : CacheEntry → CacheEntry)
    (hf : ∀ entry, (f entry).updateID = entry.updateID) (skiCache : Option SkiTree) :
    SubscriptionState :=
  ⟨s.updateCache.write updateID f hf, skiCache, s.attrOf⟩

theorem expected_written (hfind : s.updateCache.tableFind updateID = some entry) (key : SkiKey)
    (id : UInt32) : expected (written s updateID f hf skiCache) key id =
      if id = updateID then
        if inUse (f entry) then ((s.attrOf id).map fun a => (attrKeys a).count key).getD 0 else 0
      else expected s key id := by
  unfold expected written
  dsimp only
  rw [tableFind_write]
  by_cases hid : id = updateID
  · subst hid
    rw [hfind, Option.map_some, if_pos rfl, if_pos rfl]
    cases s.attrOf id with
    | none => rw [Option.map_none, Option.getD_none, ite_self]
    | some a => rfl
  · rw [if_neg hid]
    simp only [if_neg hid, Option.map_id']

/-- A write that keeps the attribute keeps the invariant when the SKI cache has what is expected and
the array is packed. -/
theorem subscribing_written (h : Subscribing s) (hfind : s.updateCache.tableFind updateID = some entry)
    (hpath : ∀ entry, (f entry).bgpsecPath = entry.bgpsecPath)
    (hfiled : ∃ cache, skiCache = some cache ∧
      Filed cache (fun _ => 0) (expected (written s updateID f hf skiCache)))
    (harray : s.attrOf updateID ≠ none → ∃ k cs, Packed k (f entry) cs) :
    Subscribing (written s updateID f hf skiCache) := by
  have hfind' (id : UInt32) : (written s updateID f hf skiCache).updateCache.tableFind id =
      (s.updateCache.tableFind id).map fun e => if id = updateID then f e else e :=
    tableFind_write f hf id
  refine ⟨hfiled, fun id e he => ?_, fun id e a he ha => ?_⟩
  · rw [hfind'] at he
    obtain ⟨old, hold, rfl⟩ := Option.map_eq_some_iff.mp he
    refine Eq.trans ?_ (h.paths id old hold)
    split
    · exact hpath old
    · rfl
  · rw [hfind'] at he
    obtain ⟨old, hold, rfl⟩ := Option.map_eq_some_iff.mp he
    obtain ⟨hblocks, hpacked⟩ := h.arrays id old a hold ha
    refine ⟨hblocks, ?_⟩
    split
    · next hid =>
      subst hid
      obtain rfl := Option.some.inj (hfind.symm.trans hold)
      exact harray (by rw [show s.attrOf id = some a from ha]; exact Option.some_ne_none a)
    · exact hpacked

end Write

theorem subscribing_register (h : Subscribing s) (hop : s.Keeps (.register updateID c)) :
    Subscribing (s.step (.register updateID c)) := by
  unfold step
  dsimp only
  cases hfind : s.updateCache.tableFind updateID with
  | none =>
    unfold registerClient
    rw [hfind]
    exact h
  | some entry =>
    by_cases hc : c = 0
    · unfold registerClient
      rw [hfind]
      dsimp only
      rw [if_neg (by rw [hc]; decide)]
      exact h
    · rw [registerClient_found hfind hc]
      obtain ⟨cache, hcache, hfiled⟩ := h.filed
      have hadded (hattr : s.attrOf updateID ≠ none) : ∃ k cs, Packed k
          (addClientReference s.updateCache.minNumberOfClients entry c).1 cs ∧ cs ≠ [] := by
        obtain ⟨a, ha⟩ := Option.ne_none_iff_exists'.mp hattr
        obtain ⟨-, k, cs, hpacked⟩ := h.arrays updateID entry a hfind ha
        exact addClientReference_packed hpacked hc s.updateCache.minPos
          (hop entry hfind hattr hc).2
      refine subscribing_written (fun e => addClientReference_updateID _ e c) h hfind
        (fun e => addClientReference_bgpsecPath _ e c)
        ⟨cache, hcache, hfiled.congr fun key id => ?_⟩
        fun hattr => (hadded hattr).imp fun k ⟨cs, hcs⟩ => ⟨cs, hcs.1⟩
      rw [expected_written (fun e => addClientReference_updateID _ e c) hfind]
      split
      · next hid =>
        subst hid
        unfold expected
        rw [hfind]
        cases ha : s.attrOf id with
        | none => rw [Option.map_none, Option.getD_none, ite_self]
        | some a =>
          -- the update is in use before and after
          have hattr : s.attrOf id ≠ none := by
            rw [ha]
            exact Option.some_ne_none a
          obtain ⟨k, cs, hpacked, hcs⟩ := hadded hattr
          have hbefore : inUse entry = true := inUse_iff.mpr (hop entry hfind hattr hc).1
          have hafter := (inUse_packed hpacked).mpr hcs
          dsimp only
          rw [if_pos hbefore, if_pos hafter]
          rfl
      · rfl

theorem subscribing_delete (h : Subscribing s) (hc : c ≠ 0) (keepTime : UInt16) (now : Nat)
    (hop : s.Keeps (.delete ⟨c, hc⟩ updateID keepTime now)) :
    Subscribing (s.delete c updateID keepTime now) := by
  unfold delete
  cases hfind : s.updateCache.tableFind updateID with
  | none =>
    rw [deleteUpdateFromCache_unknown hfind]
    exact h
  | some entry =>
    obtain ⟨t, hdelete⟩ := @deleteUpdateFromCache_found s.updateCache updateID c entry hfind
      keepTime now
    obtain ⟨cache, hcache, hfiled⟩ := h.filed
    rw [hdelete, Option.bind_some, h.paths updateID entry hfind]
    dsimp only
    cases ha : s.attrOf updateID with
    | none =>
      refine subscribing_written (fun e => deleteUpdateFromCacheEntry_updateID c e t) h hfind
        (fun e => deleteUpdateFromCacheEntry_bgpsecPath c e t)
        ⟨cache, hcache, hfiled.congr fun key id => ?_⟩ fun hattr => absurd ha hattr
      rw [expected_written (fun e => deleteUpdateFromCacheEntry_updateID c e t) hfind]
      split
      · next hid =>
        subst hid
        unfold expected
        rw [hfind, ha, Option.map_none, Option.getD_none, ite_self]
      · rfl
    | some a =>
      obtain ⟨hblocks, k, cs, hpacked⟩ := h.arrays updateID entry a hfind ha
      obtain ⟨hremoved, hpacked'⟩ := deleteEntry_packed hpacked hc t
      refine subscribing_written (fun e => deleteUpdateFromCacheEntry_updateID c e t) h hfind
        (fun e => deleteUpdateFromCacheEntry_bgpsecPath c e t) ?_ fun _ => ⟨k, _, hpacked'⟩
      rw [Option.map_some]
      dsimp only
      rw [hremoved]
      by_cases hmem : c ∈ cs
      · -- the only client is removed and the update is unregistered
        have honly : cs.erase c = [] := by
          refine List.eq_nil_iff_forall_not_mem.mpr fun d hd => ?_
          have hd' := (List.Nodup.mem_erase_iff hpacked.nodup).mp hd
          refine hd'.1 (hop entry hfind (by rw [ha]; exact Option.some_ne_none a)
            ((Packed.lists hpacked).mpr hmem) d ((Packed.lists hpacked).mpr hd'.2))
        have hbefore : inUse entry = true :=
          (inUse_packed hpacked).mpr (List.ne_nil_of_mem hmem)
        have hafter : ¬ inUse (deleteUpdateFromCacheEntry c entry t).1 = true :=
          fun huse => (inUse_packed hpacked').mp huse honly
        obtain ⟨-, hunregister, -⟩ := @skiRegisterUpdate_encode cache updateID a hblocks
        obtain ⟨cache', hfold, hfiled'⟩ := unregisterFold updateID (attrKeys a) hfiled
        rw [if_pos (decide_eq_true hmem), hcache, Option.bind_some, hunregister]
        refine ⟨cache', hfold, hfiled'.congr fun key id => ?_⟩
        rw [expected_written (fun e => deleteUpdateFromCacheEntry_updateID c e t) hfind]
        by_cases hid : id = updateID
        · subst hid
          rw [if_pos rfl, if_pos rfl, if_neg hafter]
          unfold expected
          rw [hfind, ha]
          dsimp only
          rw [if_pos hbefore, Nat.sub_self]
        · rw [if_neg hid, if_neg hid, Nat.sub_zero]
      · -- nothing is removed
        rw [if_neg (by rw [decide_eq_false hmem]; decide)]
        refine ⟨cache, hcache, hfiled.congr fun key id => ?_⟩
        rw [expected_written (fun e => deleteUpdateFromCacheEntry_updateID c e t) hfind]
        split
        · next hid =>
          subst hid
          have hsame : inUse (deleteUpdateFromCacheEntry c entry t).1 = inUse entry := by
            rw [Bool.eq_iff_iff, inUse_packed hpacked', inUse_packed hpacked,
              List.erase_of_not_mem hmem]
          unfold expected
          rw [hsame, hfind, ha]
          rfl
        · rfl

theorem subscribing_step (h : Subscribing s) {op : SubscriptionOp} (hop : s.Keeps op) :
    Subscribing (s.step op) := by
  cases op with
  | store c updateID defRes attr pathId now => exact subscribing_store h defRes pathId now hop
  | register updateID c => exact subscribing_register h hop
  | delete routerID updateID keepWindow now =>
    exact subscribing_delete h routerID.2 keepWindow now hop

end SubscriptionLemmas

/-! ## Result -/

namespace SubscriptionState

open SubscriptionLemmas

/-- As long as every call meets the condition, an update with a BGPsec attribute is registered in the
SKI cache if and only if a client references it, in every state of the run. -/
theorem subscribed_of_keeps (minNumberOfClients : UInt8) (minPos : 0 < minNumberOfClients)
    (keepWindow : UInt16) (ops : List SubscriptionOp)
    (h : EachStep step Keeps (initial minNumberOfClients minPos keepWindow) ops) :
    Always step Right (initial minNumberOfClients minPos keepWindow) ops := by
  intro before after heq
  have hsub : Always step Subscribing (initial minNumberOfClients minPos keepWindow) ops :=
    always_of_eachStep (fun _ _ hs hop => subscribing_step hs hop)
      (subscribing_initial minPos keepWindow) h
  exact right_of_subscribing (hsub before after heq)

/-- The only client of an update deletes it. -/
theorem subscribed_only_client :
    EachStep step Keeps (initial 2 (by decide) 0) [.store 1 3 none (some SkiSystem.oneBlock) 0 0,
        .delete ⟨1, by decide⟩ 3 0 0] ∧
      Always step Right (initial 2 (by decide) 0) [.store 1 3 none (some SkiSystem.oneBlock) 0 0,
        .delete ⟨1, by decide⟩ 3 0 0] := by
  have hkeeps : EachStep step Keeps (initial 2 (by decide) 0)
      [.store 1 3 none (some SkiSystem.oneBlock) 0 0, .delete ⟨1, by decide⟩ 3 0 0] := by
    refine eachStep_cons.mpr ⟨fun _ a ha => ?_, eachStep_cons.mpr ⟨?_, eachStep_nil⟩⟩
    · obtain rfl := Option.some.inj ha
      refine ⟨rfl, fun key _ => ⟨by decide, by decide, ?_⟩⟩
      rintro cache hcache ⟨first, hfirst, -⟩
      obtain rfl := Option.some.inj hcache
      cases hfirst
    · intro entry hfind _ _ other hother
      have hplaces : entry.places = [1, 0] := by
        rw [← Option.some.inj hfind]
        rfl
      unfold CacheEntry.lists at hother
      rw [hplaces] at hother
      simp only [Bool.and_eq_true, bne_iff_ne, List.contains_iff_mem, List.mem_cons,
        List.not_mem_nil, or_false] at hother
      exact hother.2.resolve_right hother.1
  exact ⟨hkeeps, subscribed_of_keeps 2 (by decide) 0 _ hkeeps⟩

/-- Two clients have an update and the first one deletes it: the second one still references it, and
the update is not registered any more. -/
theorem not_subscribed_second :
    ¬ Always step Right (initial 2 (by decide) 0) [.store 1 3 none (some SkiSystem.oneBlock) 0 0,
      .register 3 2, .delete ⟨1, by decide⟩ 3 0 0] := by
  intro h
  obtain ⟨cache, hcache, hright⟩ := h _ [] (List.append_nil _).symm
  have hdata : ((([.store 1 3 none (some SkiSystem.oneBlock) 0 0, .register 3 2,
      .delete ⟨1, by decide⟩ 3 0 0].foldl step (initial 2 (by decide) 0)).skiCache.bind
        fun cache => cache.getData ⟨65001, List.replicate 20 7, 1⟩).isNone) = true := by
    decide +kernel
  obtain ⟨cData, hget, -⟩ := (hright 3 _ SkiSystem.oneBlock rfl rfl ⟨65001, List.replicate 20 7, 1⟩
    (SkiCacheLemmas.names_iff.mpr (by decide))).mpr ⟨2, rfl⟩
  rw [hcache, Option.bind_some, hget] at hdata
  cases hdata

end SubscriptionState

end SrxSuite.Server

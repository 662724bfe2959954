import Mathlib.Data.Set.Insert
import SrxSuite.Server.ClientArray

/-!
# Clients and their updates

The model of what connects the proxies with the update cache: a client is registered with the
updates it asked for (`server/update_cache.c`), and the mapping of a client counts them
(`server/server_connection_handler.c`).

As long as no client array is extended, all arrays stay packed (`AllPacked`). One lemma for each
operation says what it does to the entries, and one what it does to the counts.
-/

namespace SrxSuite.Server

open UpdateCacheLemmas ClientArrayLemmas

/-! ## The code -/

/-- `ProxyClientMapping`, without the socket. -/
structure ProxyClientMapping where
  proxyID : UInt32
  isActive : Bool
  preDefined : Bool
  crashed : Nat
  updateCount : UInt32
  deriving DecidableEq, Repr

/-- The update cache and the proxy map. -/
structure ClientState where
  updateCache : UpdateCache
  proxyMap : UInt8 → ProxyClientMapping

/-- A write to one mapping. -/
def ClientState.writeMapping (s : ClientState) (clientID : UInt8)
    (f : ProxyClientMapping → ProxyClientMapping) : ClientState :=
  { s with proxyMap := Function.update s.proxyMap clientID (f (s.proxyMap clientID)) }

/-- `storeUpdate` with the mapping of its client. -/
def ClientState.store (s : ClientState) (clientID : UInt8) (updateID : UInt32)
    (defRes : Option DefaultResult) (bgpsecPath : Option (List UInt8)) (pathId : UInt32)
    (now : Nat) : ClientState :=
  let (updateCache, added, _) :=
    storeUpdate s.updateCache clientID updateID defRes bgpsecPath pathId now
  { s with updateCache := updateCache }.writeMapping clientID fun mapping =>
    { mapping with updateCount := mapping.updateCount + added }

/-- `getUpdateResult` with the mapping of its client. -/
def ClientState.register (s : ClientState) (updateID : UInt32) (clientID : UInt8) : ClientState :=
  let (updateCache, added) := registerClient s.updateCache updateID clientID
  { s with updateCache := updateCache }.writeMapping clientID fun mapping =>
    { mapping with updateCount := mapping.updateCount + added }

/-- `_processDeleteUpdate`. -/
def ClientState.processDeleteUpdate (s : ClientState) (routerID : UInt8) (updateID : UInt32)
    (keepWindow : UInt16) (now : Nat) : ClientState :=
  let (updateCache, deleted) := deleteUpdateFromCache s.updateCache routerID updateID keepWindow now
  let s := { s with updateCache := updateCache }
  if deleted then
    s.writeMapping routerID fun mapping => { mapping with updateCount := mapping.updateCount - 1 }
  else s

/-- `unregisterClientID` with the mapping of its client. -/
def ClientState.unregister (s : ClientState) (clientID : UInt8) (keepTime : UInt32) : ClientState :=
  let (updateCache, updateCount, _) :=
    unregisterClientID s.updateCache clientID (s.proxyMap clientID).updateCount keepTime
  { s with updateCache := updateCache }.writeMapping clientID fun mapping =>
    { mapping with updateCount := updateCount }

/-- `_delMapping`. -/
def ClientState.delMapping (s : ClientState) (clientID : UInt8) (keepWindow : UInt16) :
    ClientState :=
  if !(s.proxyMap clientID).isActive then
    let s := if (s.proxyMap clientID).updateCount > 0 then
      s.unregister clientID keepWindow.toUInt32 else s
    if !(s.proxyMap clientID).preDefined && (s.proxyMap clientID).crashed == 0 then
      s.writeMapping clientID fun mapping => { mapping with proxyID := 0, preDefined := false }
    else s
  else s

/-- `deactivateConnectionMapping`. -/
def ClientState.deactivateConnectionMapping (s : ClientState) (clientID : UInt8) (crashed : Bool)
    (keepWindow : UInt16) (now : Nat) : ClientState :=
  let keepWindow := if keepWindow < s.updateCache.defaultKeepWindow
    then s.updateCache.defaultKeepWindow else keepWindow
  let s := s.writeMapping clientID fun mapping =>
    { mapping with isActive := false, crashed := if crashed then now else 0 }
  let s := s.delMapping clientID keepWindow
  s.writeMapping clientID fun mapping => { mapping with updateCount := 0 }

/-- `setActivationFlag`. -/
def ClientState.setActivationFlag (s : ClientState) (clientID : UInt8) (value : Bool) :
    ClientState :=
  if clientID > 0 ∧ (s.proxyMap clientID).proxyID > 0 then
    s.writeMapping clientID fun mapping => { mapping with isActive := value }
  else s

/-- The `routerID` of a client that did its handshake is not zero. -/
abbrev RouterID := {routerID : UInt8 // routerID ≠ 0}

/-- What the server does with clients and updates. A request without a validation stores or reads
the update for the client zero. -/
inductive ClientOp
  | store (clientID : UInt8) (updateID : UInt32) (defRes : Option DefaultResult)
      (bgpsecPath : Option (List UInt8)) (pathId : UInt32) (now : Nat)
  | register (updateID : UInt32) (clientID : UInt8)
  | delete (routerID : RouterID) (updateID : UInt32) (keepWindow : UInt16) (now : Nat)
  | unregister (routerID : RouterID) (keepTime : UInt32)
  | deactivate (clientID : UInt8) (crashed : Bool) (keepWindow : UInt16) (now : Nat)
  | setActive (clientID : UInt8) (value : Bool)

/-- One operation. -/
def ClientState.step (s : ClientState) : ClientOp → ClientState
  | .store clientID updateID defRes bgpsecPath pathId now =>
    s.store clientID updateID defRes bgpsecPath pathId now
  | .register updateID clientID => s.register updateID clientID
  | .delete routerID updateID keepWindow now =>
    s.processDeleteUpdate routerID.1 updateID keepWindow now
  | .unregister routerID keepTime => s.unregister routerID.1 keepTime
  | .deactivate clientID crashed keepWindow now =>
    s.deactivateConnectionMapping clientID crashed keepWindow now
  | .setActive clientID value => s.setActivationFlag clientID value

/-- The state before the first operation: an empty cache, no client has updates. -/
def initClientState (minNumberOfClients : UInt8) (minPos : 0 < minNumberOfClients)
    (defaultKeepWindow : UInt16) : ClientState :=
  ⟨createUpdateCache minNumberOfClients defaultKeepWindow minPos, fun _ => ⟨0, false, false, 0, 0⟩⟩

namespace ClientLemmas

variable {self : UpdateCache} {s : ClientState} {updateID : UInt32} {c : UInt8}

/-! ## What the operations do to the entries -/

/-- Every client array is packed. -/
def AllPacked (self : UpdateCache) : Prop :=
  ∀ entry ∈ self.allItems, ∃ cs, Packed self.minNumberOfClients entry cs

/-- The new entry of an update. -/
theorem newCacheEntry_packed {m : UInt8} (defRes : Option DefaultResult)
    (bgpsecPath : Option (List UInt8)) (pathId : UInt32) :
    Packed m (newCacheEntry m updateID defRes bgpsecPath pathId) [] where
  size := rfl
  fits := Nat.zero_le _
  array := rfl
  noZero := List.not_mem_nil
  nodup := List.nodup_nil

/-- `storeUpdate` of a new update adds an entry with its client. -/
theorem storeUpdate_new (hnew : self.tableFind updateID = none) (defRes : Option DefaultResult)
    (bgpsecPath : Option (List UInt8)) (pathId : UInt32) (now : Nat) :
    ∃ entry cs, entry.updateID = updateID ∧ Packed self.minNumberOfClients entry cs ∧
      (∀ d, d ∈ cs ↔ d = c ∧ d ≠ 0) ∧
      (storeUpdate self c updateID defRes bgpsecPath pathId now).1.allItems =
        self.allItems ++ [entry] ∧
      (storeUpdate self c updateID defRes bgpsecPath pathId now).1.minNumberOfClients =
        self.minNumberOfClients ∧
      (storeUpdate self c updateID defRes bgpsecPath pathId now).2.1 = if c = 0 then 0 else 1 := by
  have hpacked : Packed self.minNumberOfClients
      (newCacheEntry self.minNumberOfClients updateID defRes bgpsecPath pathId) [] :=
    newCacheEntry_packed defRes bgpsecPath pathId
  unfold storeUpdate
  split
  · next hsome =>
    rw [hnew] at hsome
    cases hsome
  · dsimp only
    split
    · next hpos =>
      have hc : c ≠ 0 := fun h => absurd hpos (by rw [h]; decide)
      obtain ⟨hadded, hentry⟩ := addClientReference_free hpacked List.not_mem_nil hc
        (UInt8.lt_iff_toNat_lt.mp self.minPos)
      refine ⟨_, [] ++ [c], addClientReference_updateID _ _ _, hentry, fun d => ?_, rfl, rfl, ?_⟩
      · rw [List.nil_append, List.mem_singleton]
        exact ⟨fun h => ⟨h, h ▸ hc⟩, fun h => h.1⟩
      · rw [if_neg hc]
        exact hadded
    · next hpos =>
      have hc : c = 0 := by
        by_contra hne
        exact hpos (UInt8.pos_iff_ne_zero.mpr hne)
      refine ⟨_, [], rfl, ⟨rfl, hpacked.fits, rfl, hpacked.noZero, hpacked.nodup⟩, fun d => ?_, rfl,
        rfl, (if_pos hc).symm⟩
      exact ⟨fun h => (nomatch h), fun h => absurd (h.1.trans hc) h.2⟩

/-- `storeUpdate` of a known update does nothing. -/
theorem storeUpdate_known {entry : CacheEntry} (h : self.tableFind updateID = some entry)
    (defRes : Option DefaultResult) (bgpsecPath : Option (List UInt8)) (pathId : UInt32)
    (now : Nat) :
    storeUpdate self c updateID defRes bgpsecPath pathId now = (self, 0, 0) := by
  unfold storeUpdate
  split
  · rfl
  · next hnone =>
    rw [h] at hnone
    cases hnone

/-- A write replaces one element of the list. -/
theorem write_split {entry : CacheEntry} (h : self.tableFind updateID = some entry)
    (f : CacheEntry → CacheEntry) (hf : ∀ entry, (f entry).updateID = entry.updateID) :
    ∃ pre post, self.allItems = pre ++ entry :: post ∧
      (self.write updateID f hf).allItems = pre ++ f entry :: post := by
  obtain ⟨hmem, rfl⟩ := tableFind_eq_some.mp h
  obtain ⟨pre, post, hsplit⟩ := List.append_of_mem hmem
  refine ⟨pre, post, hsplit, ?_⟩
  have hunique := self.unique
  rw [hsplit, List.map_append, List.map_cons, List.nodup_append, List.nodup_cons] at hunique
  obtain ⟨-, ⟨hpost, -⟩, hdisj⟩ := hunique
  have hkeep {items : List CacheEntry} (hne : ∀ e ∈ items, e.updateID ≠ entry.updateID) :
      items.map (fun e => if e.updateID = entry.updateID then f e else e) = items := by
    rw [List.map_congr_left (g := id), List.map_id]
    exact fun e he => if_neg (hne e he)
  show self.allItems.map _ = _
  rw [hsplit, List.map_append, List.map_cons, if_pos rfl, hkeep, hkeep]
  · intro e he hid
    exact hpost (hid ▸ List.mem_map_of_mem he)
  · intro e he hid
    exact hdisj _ (List.mem_map_of_mem he) _ List.mem_cons_self hid

/-- The entries after `unregisterClientID` are those before, some without the client. -/
theorem unregisterLoop_mem (t : UInt16) (items : List CacheEntry) (n : UInt32) (k : Nat) :
    (∀ e ∈ (unregisterLoop c t items n k).1, ∃ old ∈ items,
        e = old ∨ e = (deleteUpdateFromCacheEntry c old t).1) ∧
      ∀ old ∈ items, ∃ e ∈ (unregisterLoop c t items n k).1,
        e = old ∨ e = (deleteUpdateFromCacheEntry c old t).1 := by
  induction items generalizing n k with
  | nil => exact ⟨fun e he => (nomatch he), fun e he => (nomatch he)⟩
  | cons first rest ih =>
    unfold unregisterLoop
    dsimp only
    generalize (deleteUpdateFromCacheEntry c first t).2 = removed
    generalize (if removed = true then n - 1 else n) = n'
    generalize (if removed = true then k + 1 else k) = k'
    split
    · refine ⟨fun e he => ?_, fun old hold => ?_⟩
      · rcases List.mem_cons.mp he with rfl | he
        · exact ⟨first, List.mem_cons_self, .inr rfl⟩
        · exact ⟨e, List.mem_cons_of_mem _ he, .inl rfl⟩
      · rcases List.mem_cons.mp hold with rfl | hold
        · exact ⟨_, List.mem_cons_self, .inr rfl⟩
        · exact ⟨old, List.mem_cons_of_mem _ hold, .inl rfl⟩
    · obtain ⟨hfrom, hto⟩ := ih n' k'
      refine ⟨fun e he => ?_, fun old hold => ?_⟩
      · rcases List.mem_cons.mp he with rfl | he
        · exact ⟨first, List.mem_cons_self, .inr rfl⟩
        · obtain ⟨old, hold, h⟩ := hfrom e he
          exact ⟨old, List.mem_cons_of_mem _ hold, h⟩
      · rcases List.mem_cons.mp hold with rfl | hold
        · exact ⟨_, List.mem_cons_self, .inr rfl⟩
        · obtain ⟨e, he, h⟩ := hto old hold
          exact ⟨e, List.mem_cons_of_mem _ he, h⟩

theorem lists_delete {entry : CacheEntry} {cs : List UInt8} {m : UInt8} (h : Packed m entry cs)
    (hc : c ≠ 0) (t : UInt16) (d : UInt8) :
    (deleteUpdateFromCacheEntry c entry t).1.lists d = true ↔ entry.lists d = true ∧ d ≠ c := by
  rw [Packed.lists (deleteEntry_packed h hc t).2, Packed.lists h, h.nodup.mem_erase_iff, and_comm]

theorem allPacked_append {entry : CacheEntry} {cs : List UInt8} {self' : UpdateCache}
    (hself : AllPacked self) (hentry : Packed self.minNumberOfClients entry cs)
    (hitems : self'.allItems = self.allItems ++ [entry])
    (hmin : self'.minNumberOfClients = self.minNumberOfClients) : AllPacked self' := by
  intro e he
  rw [hmin]
  rw [hitems] at he
  rcases List.mem_append.mp he with he | he
  · exact hself e he
  · rw [List.mem_singleton.mp he]
    exact ⟨cs, hentry⟩

theorem allPacked_write {f : CacheEntry → CacheEntry}
    (hf : ∀ entry, (f entry).updateID = entry.updateID) (hself : AllPacked self)
    (h : ∀ entry, self.tableFind updateID = some entry →
      ∃ cs, Packed self.minNumberOfClients (f entry) cs) :
    AllPacked (self.write updateID f hf) := by
  intro e he
  obtain ⟨old, hold, rfl⟩ := List.mem_map.mp he
  show ∃ cs, Packed self.minNumberOfClients (if old.updateID = updateID then f old else old) cs
  split
  · next hid => exact h old (tableFind_eq_some.mpr ⟨hold, hid⟩)
  · exact hself old hold

theorem allPacked_store (hself : AllPacked self) (defRes : Option DefaultResult)
    (bgpsecPath : Option (List UInt8)) (pathId : UInt32) (now : Nat) :
    AllPacked (storeUpdate self c updateID defRes bgpsecPath pathId now).1 := by
  cases hfind : self.tableFind updateID with
  | some entry =>
    rw [storeUpdate_known hfind]
    exact hself
  | none =>
    obtain ⟨entry, cs, -, hpacked, -, hitems, hmin, -⟩ :=
      storeUpdate_new (c := c) hfind defRes bgpsecPath pathId now
    exact allPacked_append hself hpacked hitems hmin

theorem allPacked_unregister (hself : AllPacked self) (hc : c ≠ 0) (n keepTime : UInt32) :
    AllPacked (unregisterClientID self c n keepTime).1 := by
  intro e he
  obtain ⟨old, hold, hcase⟩ := (unregisterLoop_mem keepTime.toUInt16 self.allItems n 0).1 e he
  obtain ⟨cs, hcs⟩ := hself old hold
  rcases hcase with rfl | rfl
  · exact ⟨cs, hcs⟩
  · exact ⟨cs.erase c, (deleteEntry_packed hcs hc _).2⟩

/-- A registration that finds its client or a free place keeps the array packed. -/
theorem addClientReference_place {entry : CacheEntry} {cs : List UInt8} {m : UInt8}
    (h : Packed m entry cs) (hc : c ≠ 0) (hplace : c ∈ entry.places ∨ 0 ∈ entry.places) :
    (c ∈ cs ∧ addClientReference m entry c = ({ entry with gcFlag := 0 }, 0) ∧
        Packed m { entry with gcFlag := 0 } cs) ∨
      (c ∉ cs ∧ (addClientReference m entry c).2 = 1 ∧
        Packed m (addClientReference m entry c).1 (cs ++ [c])) := by
  by_cases hmem : c ∈ cs
  · exact .inl ⟨hmem, addClientReference_listed h hmem, ⟨h.size, h.fits, h.array, h.noZero, h.nodup⟩⟩
  · refine .inr ⟨hmem, addClientReference_free h hmem hc ?_⟩
    by_contra hfull
    -- a full array has neither the client nor a zero
    have hall : entry.places = cs := by
      rw [Packed.places h, h.array, Nat.sub_eq_zero_of_le (Nat.le_of_not_lt hfull),
        List.replicate_zero, List.append_nil]
    rw [hall] at hplace
    exact hplace.elim hmem h.noZero

/-- The array after a registration that finds a place. -/
theorem register_entry {entry : CacheEntry} {cs : List UInt8} {m : UInt8} (h : Packed m entry cs)
    (hc : c ≠ 0) (hplace : c ∈ entry.places ∨ 0 ∈ entry.places) :
    ∃ cs', Packed m (addClientReference m entry c).1 cs' ∧ (∀ d ∈ cs, d ∈ cs') ∧ c ∈ cs' := by
  rcases addClientReference_place h hc hplace with ⟨hmem, heq, hkeep⟩ | ⟨-, -, hadd⟩
  · exact ⟨cs, by rw [heq]; exact hkeep, fun d hd => hd, hmem⟩
  · exact ⟨cs ++ [c], hadd, fun d hd => List.mem_append_left _ hd, by simp⟩

/-- What a registration without a place meets: a full array. -/
theorem no_place {entry : CacheEntry} {cs : List UInt8} {m : UInt8} (h : Packed m entry cs)
    (hplace : ¬ (c ∈ entry.places ∨ 0 ∈ entry.places)) : c ∉ cs ∧ cs.length = m.toNat := by
  obtain ⟨hc, hzero⟩ := not_or.mp hplace
  rw [Packed.places h, h.array] at hc hzero
  refine ⟨fun hmem => hc (List.mem_append_left _ hmem), Nat.le_antisymm h.fits ?_⟩
  by_contra hlt
  exact hzero (List.mem_append_right _ (List.mem_replicate.mpr ⟨by omega, rfl⟩))

theorem registerClient_idle (h : self.tableFind updateID = none ∨ c = 0) :
    registerClient self updateID c = (self, 0) := by
  unfold registerClient
  rcases h with h | rfl
  · rw [h]
  · split
    · rfl
    · rw [if_neg (by decide)]

theorem registerClient_found {entry : CacheEntry} (h : self.tableFind updateID = some entry)
    (hc : c ≠ 0) :
    registerClient self updateID c = (self.write updateID
      (fun entry => (addClientReference self.minNumberOfClients entry c).1)
        (fun entry => addClientReference_updateID _ entry c),
      (addClientReference self.minNumberOfClients entry c).2) := by
  unfold registerClient
  rw [h]
  exact if_pos (UInt8.pos_iff_ne_zero.mpr hc)

theorem allPacked_register (hself : AllPacked self)
    (hplace : ∀ cEntry, self.tableFind updateID = some cEntry → c ≠ 0 →
      c ∈ cEntry.places ∨ 0 ∈ cEntry.places) :
    AllPacked (registerClient self updateID c).1 := by
  by_cases hidle : self.tableFind updateID = none ∨ c = 0
  · rw [registerClient_idle hidle]
    exact hself
  · obtain ⟨hsome, hc⟩ := not_or.mp hidle
    obtain ⟨entry, hfind⟩ := Option.ne_none_iff_exists'.mp hsome
    obtain ⟨cs, hcs⟩ := hself entry (tableFind_eq_some.mp hfind).1
    obtain ⟨cs', hcs', -, -⟩ := register_entry hcs hc (hplace entry hfind hc)
    rw [registerClient_found hfind hc]
    refine allPacked_write (addClientReference_updateID _ · c) hself fun e he => ?_
    obtain rfl := Option.some.inj (hfind.symm.trans he)
    exact ⟨cs', hcs'⟩

theorem deleteUpdateFromCache_unknown (h : self.tableFind updateID = none) (keepTime : UInt16)
    (now : Nat) : deleteUpdateFromCache self c updateID keepTime now = (self, false) := by
  unfold deleteUpdateFromCache
  rw [h]

theorem deleteUpdateFromCache_found {entry : CacheEntry} (h : self.tableFind updateID = some entry)
    (keepTime : UInt16) (now : Nat) :
    ∃ t, deleteUpdateFromCache self c updateID keepTime now = (self.write updateID
      (fun entry => (deleteUpdateFromCacheEntry c entry t).1)
        (deleteUpdateFromCacheEntry_updateID c · t), (deleteUpdateFromCacheEntry c entry t).2) := by
  unfold deleteUpdateFromCache
  rw [h]
  exact ⟨_, rfl⟩

theorem allPacked_delete (hself : AllPacked self) (hc : c ≠ 0) (keepTime : UInt16) (now : Nat) :
    AllPacked (deleteUpdateFromCache self c updateID keepTime now).1 := by
  cases hfind : self.tableFind updateID with
  | none =>
    rw [deleteUpdateFromCache_unknown hfind]
    exact hself
  | some entry =>
    obtain ⟨cs, hcs⟩ := hself entry (tableFind_eq_some.mp hfind).1
    obtain ⟨t, hdel⟩ := deleteUpdateFromCache_found (c := c) hfind keepTime now
    rw [hdel]
    refine allPacked_write (deleteUpdateFromCacheEntry_updateID c · t) hself fun e he => ?_
    obtain rfl := Option.some.inj (hfind.symm.trans he)
    exact ⟨_, (deleteEntry_packed hcs hc _).2⟩

/-! ## What the operations do to the mappings -/

@[simp]
theorem writeMapping_updateCache (f : ProxyClientMapping → ProxyClientMapping) :
    (s.writeMapping c f).updateCache = s.updateCache := rfl

theorem writeMapping_proxyMap (f : ProxyClientMapping → ProxyClientMapping) (d : UInt8) :
    (s.writeMapping c f).proxyMap d = if d = c then f (s.proxyMap d) else s.proxyMap d := by
  show Function.update s.proxyMap c (f (s.proxyMap c)) d = _
  rw [Function.update_apply]
  split
  · next hd => rw [hd]
  · rfl

/-- The count of a client after a write to a mapping. -/
theorem writeMapping_updateCount (f : ProxyClientMapping → ProxyClientMapping) (d : UInt8) :
    ((s.writeMapping c f).proxyMap d).updateCount =
      if d = c then (f (s.proxyMap d)).updateCount else (s.proxyMap d).updateCount := by
  rw [writeMapping_proxyMap]
  split
  · rfl
  · rfl

theorem store_updateCount (defRes : Option DefaultResult) (bgpsecPath : Option (List UInt8))
    (pathId : UInt32) (now : Nat) (d : UInt8) :
    ((s.store c updateID defRes bgpsecPath pathId now).proxyMap d).updateCount =
      if d = c then (s.proxyMap d).updateCount +
        (storeUpdate s.updateCache c updateID defRes bgpsecPath pathId now).2.1
      else (s.proxyMap d).updateCount := by
  unfold ClientState.store
  exact writeMapping_updateCount _ d

theorem register_updateCount (d : UInt8) :
    ((s.register updateID c).proxyMap d).updateCount =
      if d = c then (s.proxyMap d).updateCount + (registerClient s.updateCache updateID c).2
      else (s.proxyMap d).updateCount := by
  unfold ClientState.register
  exact writeMapping_updateCount _ d

theorem unregister_updateCount (keepTime : UInt32) (d : UInt8) :
    ((s.unregister c keepTime).proxyMap d).updateCount =
      if d = c then
        (unregisterClientID s.updateCache c (s.proxyMap c).updateCount keepTime).2.1
      else (s.proxyMap d).updateCount := by
  unfold ClientState.unregister
  exact writeMapping_updateCount _ d

theorem delete_updateCache (keepWindow : UInt16) (now : Nat) :
    (s.processDeleteUpdate c updateID keepWindow now).updateCache =
      (deleteUpdateFromCache s.updateCache c updateID keepWindow now).1 := by
  unfold ClientState.processDeleteUpdate
  dsimp only
  split
  · rfl
  · rfl

theorem delete_updateCount (keepWindow : UInt16) (now : Nat) (d : UInt8) :
    ((s.processDeleteUpdate c updateID keepWindow now).proxyMap d).updateCount =
      if d = c ∧ (deleteUpdateFromCache s.updateCache c updateID keepWindow now).2 = true then
        (s.proxyMap d).updateCount - 1
      else (s.proxyMap d).updateCount := by
  unfold ClientState.processDeleteUpdate
  dsimp only
  split
  · next hdel =>
    rw [writeMapping_updateCount]
    simp only [hdel, and_true]
  · next hdel =>
    rw [if_neg fun h => hdel h.2]

/-- Connecting changes no update and no count. -/
theorem setActivationFlag_spec (value : Bool) :
    (s.setActivationFlag c value).updateCache = s.updateCache ∧
      ∀ d, ((s.setActivationFlag c value).proxyMap d).updateCount =
        (s.proxyMap d).updateCount := by
  unfold ClientState.setActivationFlag
  split
  · refine ⟨rfl, fun d => ?_⟩
    rw [writeMapping_updateCount, ite_self]
  · exact ⟨rfl, fun d => rfl⟩

/-- A disconnected client is unregistered if it is counted at all, and then has no updates. -/
theorem deactivate_spec (crashed : Bool) (keepWindow : UInt16) (now : Nat) :
    (∃ keepTime, (s.deactivateConnectionMapping c crashed keepWindow now).updateCache =
        if (s.proxyMap c).updateCount > 0 then
          (unregisterClientID s.updateCache c (s.proxyMap c).updateCount keepTime).1
        else s.updateCache) ∧
      ∀ d, ((s.deactivateConnectionMapping c crashed keepWindow now).proxyMap d).updateCount =
        if d = c then 0 else (s.proxyMap d).updateCount := by
  unfold ClientState.deactivateConnectionMapping ClientState.delMapping
  dsimp only
  generalize (if keepWindow < s.updateCache.defaultKeepWindow
    then s.updateCache.defaultKeepWindow else keepWindow) = keepTime
  generalize hs1 : s.writeMapping c (fun mapping =>
    { mapping with isActive := false, crashed := if crashed then now else 0 }) = s1
  have hactive : (s1.proxyMap c).isActive = false := by
    rw [← hs1, writeMapping_proxyMap, if_pos rfl]
  have hcount (d : UInt8) : (s1.proxyMap d).updateCount = (s.proxyMap d).updateCount := by
    rw [← hs1, writeMapping_proxyMap]
    split
    · rfl
    · rfl
  have hcache : s1.updateCache = s.updateCache := by
    rw [← hs1]
    rfl
  rw [hactive, Bool.not_false, if_pos rfl, hcount c]
  -- the mapping is reset after the client was unregistered
  generalize hs2 : (if (s.proxyMap c).updateCount > 0 then s1.unregister c keepTime.toUInt32
    else s1) = s2
  have hcache2 : s2.updateCache = if (s.proxyMap c).updateCount > 0 then
      (unregisterClientID s.updateCache c (s.proxyMap c).updateCount keepTime.toUInt32).1
      else s.updateCache := by
    rw [← hs2]
    split
    · show (unregisterClientID s1.updateCache c (s1.proxyMap c).updateCount keepTime.toUInt32).1 = _
      rw [hcache, hcount]
    · exact hcache
  have hcount2 (d : UInt8) (hd : d ≠ c) : (s2.proxyMap d).updateCount =
      (s.proxyMap d).updateCount := by
    rw [← hs2]
    split
    · unfold ClientState.unregister
      dsimp only
      rw [writeMapping_proxyMap, if_neg hd]
      exact hcount d
    · exact hcount d
  constructor
  · refine ⟨keepTime.toUInt32, ?_⟩
    rw [writeMapping_updateCache, ← hcache2]
    split
    · rfl
    · rfl
  · intro d
    rw [writeMapping_proxyMap]
    split
    · rfl
    · next hd =>
      rw [← hcount2 d hd]
      split
      · rw [writeMapping_proxyMap, if_neg hd]
      · rfl

end ClientLemmas

end SrxSuite.Server

import SrxSuite.Lib.Runs
import SrxSuite.Server.Clients

/-!
# Counts of the clients

The mapping of a client counts the updates that list it, and `unregisterClientID` stops when the
count is zero. Four functions keep the count; the one that extends a client array forgets to.

Results:
1. `counts_agree_iff`: in a run the count of every client is the number of the updates that list it,
   and unregistering it clears them all, if and only if no client array has to be extended and no
   client has `2 ^ 32` updates.
2. `third_client_not_counted`: the client that extends an array is not counted.
-/

namespace SrxSuite.Server

open Runs UpdateCacheLemmas ClientArrayLemmas ClientLemmas

/-- The number of updates that list a client. -/
def listedIn (self : UpdateCache) (clientID : UInt8) : Nat :=
  self.allItems.countP (·.lists clientID)

/-- The count of every client is the number of updates that list it, and `unregisterClientID` counts
it down to zero while it removes the client from all of them. -/
structure CountsAgree (s : ClientState) : Prop where
  agree : ∀ clientID, (s.proxyMap clientID).updateCount.toNat = listedIn s.updateCache clientID
  clears : ∀ (clientID : RouterID) (keepTime : UInt32),
    (∀ entry ∈ (s.unregister clientID.1 keepTime).updateCache.allItems,
        entry.lists clientID.1 = false) ∧
      ((s.unregister clientID.1 keepTime).proxyMap clientID.1).updateCount = 0 ∧
      (unregisterClientID s.updateCache clientID.1 (s.proxyMap clientID.1).updateCount keepTime).2.2 =
        listedIn s.updateCache clientID.1

/-- A client that is new to an update finds a free place in the client array, and is listed in less
than `2 ^ 32 - 1` updates. -/
def Countable (s : ClientState) : ClientOp → Prop
  | .store clientID updateID _ _ _ _ => s.updateCache.tableFind updateID = none → clientID ≠ 0 →
      listedIn s.updateCache clientID + 1 < 2 ^ 32
  | .register updateID clientID => ∀ cEntry, s.updateCache.tableFind updateID = some cEntry →
      clientID ≠ 0 → clientID ∈ cEntry.places ∨
        (0 ∈ cEntry.places ∧ listedIn s.updateCache clientID + 1 < 2 ^ 32)
  | _ => True

namespace CountLemmas

variable {self : UpdateCache} {s : ClientState} {updateID : UInt32} {c : UInt8}

theorem lists_zero (entry : CacheEntry) : entry.lists 0 = false := rfl

theorem listedIn_append {self' : UpdateCache} {entry : CacheEntry}
    (hitems : self'.allItems = self.allItems ++ [entry]) (d : UInt8) :
    listedIn self' d = listedIn self d + (entry.lists d).toNat := by
  unfold listedIn
  rw [hitems, List.countP_append, List.countP_singleton]
  cases entry.lists d <;> rfl

theorem listedIn_write {entry : CacheEntry} (h : self.tableFind updateID = some entry)
    (f : CacheEntry → CacheEntry) (hf : ∀ entry, (f entry).updateID = entry.updateID) (d : UInt8) :
    listedIn (self.write updateID f hf) d + (entry.lists d).toNat =
      listedIn self d + ((f entry).lists d).toNat := by
  obtain ⟨pre, post, hold, hnew⟩ := write_split h f hf
  unfold listedIn
  rw [hold, hnew, List.countP_append, List.countP_append, List.countP_cons, List.countP_cons]
  cases entry.lists d <;> cases (f entry).lists d <;> simp <;> omega

/-- The loop of `unregisterClientID` on packed arrays and a right count. -/
theorem unregisterLoop_spec {m : UInt8} (hc : c ≠ 0) (t : UInt16) {items : List CacheEntry}
    (hitems : ∀ e ∈ items, ∃ cs, Packed m e cs) {n : UInt32}
    (hn : n.toNat = items.countP (·.lists c)) (k : Nat) :
    (∀ e ∈ (unregisterLoop c t items n k).1, e.lists c = false) ∧
      (unregisterLoop c t items n k).2.1 = 0 ∧
      (unregisterLoop c t items n k).2.2 = k + items.countP (·.lists c) ∧
      ∀ d, d ≠ c → (unregisterLoop c t items n k).1.countP (·.lists d) =
        items.countP (·.lists d) := by
  induction items generalizing n k with
  | nil =>
    refine ⟨fun e he => (nomatch he), ?_, rfl, fun d _ => rfl⟩
    exact UInt32.toNat_inj.mp hn
  | cons first rest ih =>
    obtain ⟨cs, hcs⟩ := hitems first List.mem_cons_self
    have hrest (e : CacheEntry) (he : e ∈ rest) := hitems e (List.mem_cons_of_mem _ he)
    have hremoved : (deleteUpdateFromCacheEntry c first t).2 = first.lists c := by
      rw [(deleteEntry_packed hcs hc t).1, Bool.eq_iff_iff, decide_eq_true_iff, Packed.lists hcs]
    have hfirst : (deleteUpdateFromCacheEntry c first t).1.lists c = false := by
      rw [Bool.eq_false_iff]
      exact fun h => ((lists_delete hcs hc t c).mp h).2 rfl
    have hothers (d : UInt8) (hd : d ≠ c) :
        (deleteUpdateFromCacheEntry c first t).1.lists d = first.lists d := by
      rw [Bool.eq_iff_iff, lists_delete hcs hc]
      exact and_iff_left hd
    rw [List.countP_cons] at hn
    -- the count after this entry is the number of the remaining ones
    have hcount : (if first.lists c = true then n - 1 else n).toNat =
        rest.countP (·.lists c) := by
      split
      · next hl =>
        rw [if_pos hl] at hn
        rw [UInt32.toNat_sub_of_le _ _ (UInt32.le_iff_toNat_le.mpr (by
          rw [hn]; exact Nat.le_add_left 1 _)), hn]
        exact Nat.add_sub_cancel _ 1
      · next hl =>
        rw [if_neg hl] at hn
        exact hn
    have hk : (if first.lists c = true then k + 1 else k) + rest.countP (·.lists c) =
        k + (first :: rest).countP (·.lists c) := by
      rw [List.countP_cons]
      split
      · omega
      · omega
    unfold unregisterLoop
    dsimp only
    rw [hremoved]
    generalize hn' : (if first.lists c = true then n - 1 else n) = n' at hcount ⊢
    generalize hk' : (if first.lists c = true then k + 1 else k) = k' at hk ⊢
    split
    · next hzero =>
      rw [hzero] at hcount
      have hnone := List.countP_eq_zero.mp hcount.symm
      refine ⟨fun e he => ?_, hzero, ?_, fun d hd => ?_⟩
      · rcases List.mem_cons.mp he with rfl | he
        · exact hfirst
        · exact Bool.eq_false_iff.mpr (hnone e he)
      · rw [← hk, ← hcount]
        rfl
      · rw [List.countP_cons, List.countP_cons, hothers d hd]
    · obtain ⟨hclear, hend, hids, hkeep⟩ := ih hrest hcount k'
      refine ⟨fun e he => ?_, hend, hids.trans hk, fun d hd => ?_⟩
      · rcases List.mem_cons.mp he with rfl | he
        · exact hfirst
        · exact hclear e he
      · rw [List.countP_cons, List.countP_cons, hothers d hd, hkeep d hd]

/-- The invariant of the counts. -/
structure Counted (s : ClientState) : Prop where
  packed : AllPacked s.updateCache
  agree : ∀ d, (s.proxyMap d).updateCount.toNat = listedIn s.updateCache d

theorem Counted.zero (h : Counted s) : (s.proxyMap 0).updateCount = 0 := by
  apply UInt32.toNat_inj.mp
  rw [h.agree]
  exact List.countP_eq_zero.mpr fun entry _ => by rw [lists_zero]; decide

theorem counted_init {m : UInt8} (minPos : 0 < m) (keepWindow : UInt16) :
    Counted (initClientState m minPos keepWindow) :=
  ⟨fun _ hentry => (nomatch hentry), fun _ => rfl⟩

/-- What `unregisterClientID` does when the counts are right. -/
theorem unregister_spec (h : Counted s) (hc : c ≠ 0) (keepTime : UInt32) :
    (∀ entry ∈ (unregisterClientID s.updateCache c (s.proxyMap c).updateCount
        keepTime).1.allItems, entry.lists c = false) ∧
      (unregisterClientID s.updateCache c (s.proxyMap c).updateCount keepTime).2.1 = 0 ∧
      (unregisterClientID s.updateCache c (s.proxyMap c).updateCount keepTime).2.2 =
        listedIn s.updateCache c ∧
      ∀ d, listedIn (unregisterClientID s.updateCache c (s.proxyMap c).updateCount keepTime).1 d =
        if d = c then 0 else listedIn s.updateCache d := by
  obtain ⟨hclear, hend, hids, hkeep⟩ :=
    unregisterLoop_spec hc keepTime.toUInt16 h.packed (h.agree c) 0
  refine ⟨hclear, hend, hids.trans (Nat.zero_add _), fun d => ?_⟩
  split
  · next hd =>
    subst hd
    exact List.countP_eq_zero.mpr fun entry hentry => by rw [hclear entry hentry]; decide
  · next hd => exact hkeep d hd

theorem countsAgree_of_counted (h : Counted s) : CountsAgree s where
  agree := h.agree
  clears := by
    intro c keepTime
    obtain ⟨hclear, hend, hids, -⟩ := unregister_spec h c.2 keepTime
    refine ⟨hclear, ?_, hids⟩
    rw [unregister_updateCount, if_pos rfl]
    exact hend

/-- Adding one to a count that is not the largest. -/
theorem toNat_add_one {n : UInt32} {k : Nat} (hn : n.toNat = k) (hk : k + 1 < 2 ^ 32) :
    (n + 1).toNat = k + 1 := by
  rw [UInt32.toNat_add, hn]
  exact Nat.mod_eq_of_lt hk

theorem counted_store (h : Counted s) (defRes : Option DefaultResult)
    (bgpsecPath : Option (List UInt8)) (pathId : UInt32) (now : Nat)
    (hop : Countable s (.store c updateID defRes bgpsecPath pathId now)) :
    Counted (s.store c updateID defRes bgpsecPath pathId now) := by
  refine ⟨allPacked_store h.packed defRes bgpsecPath pathId now, fun d => ?_⟩
  rw [store_updateCount]
  show _ = listedIn (storeUpdate s.updateCache c updateID defRes bgpsecPath pathId now).1 d
  cases hfind : s.updateCache.tableFind updateID with
  | some entry =>
    rw [storeUpdate_known hfind, UInt32.add_zero, ite_self]
    exact h.agree d
  | none =>
    obtain ⟨entry, cs, -, hpacked, hcs, hitems, -, hadded⟩ :=
      storeUpdate_new (c := c) hfind defRes bgpsecPath pathId now
    rw [hadded, listedIn_append hitems]
    have hlists : entry.lists d = decide (d = c ∧ d ≠ 0) := by
      rw [Bool.eq_iff_iff, decide_eq_true_iff, Packed.lists hpacked, hcs]
    rw [hlists]
    by_cases hd : d = c
    · subst hd
      rw [if_pos rfl]
      by_cases hz : d = 0
      · rw [if_pos hz, UInt32.add_zero, decide_eq_false fun hand => hand.2 hz]
        exact h.agree d
      · rw [if_neg hz, decide_eq_true ⟨rfl, hz⟩]
        exact toNat_add_one (h.agree d) (hop hfind hz)
    · rw [if_neg hd, decide_eq_false fun hand => hd hand.1]
      exact h.agree d

/-- The counts after a registration that finds a place. -/
theorem register_lists {entry : CacheEntry} (hself : AllPacked self)
    (hfind : self.tableFind updateID = some entry) (hc : c ≠ 0)
    (hplace : c ∈ entry.places ∨ 0 ∈ entry.places) (d : UInt8) :
    listedIn (registerClient self updateID c).1 d =
        listedIn self d + (if d = c ∧ c ∉ entry.places then 1 else 0) ∧
      (registerClient self updateID c).2 = if c ∈ entry.places then 0 else 1 := by
  obtain ⟨cs, hcs⟩ := hself entry (tableFind_eq_some.mp hfind).1
  have hmem : c ∈ entry.places ↔ c ∈ cs := by
    rw [Packed.places hcs, hcs.array, List.mem_append, List.mem_replicate]
    exact or_iff_left fun h => hc h.2
  have hcount := listedIn_write hfind
    (fun entry => (addClientReference self.minNumberOfClients entry c).1)
    (fun entry => addClientReference_updateID _ entry c) d
  rw [registerClient_found hfind hc]
  rcases addClientReference_place hcs hc hplace with ⟨hin, heq, hkeep⟩ | ⟨hnot, hadded, hadd⟩
  · have hsame : (addClientReference self.minNumberOfClients entry c).1.lists d =
        entry.lists d := by
      rw [heq]
      rfl
    rw [hsame] at hcount
    rw [if_pos (hmem.mpr hin), if_neg fun h => h.2 (hmem.mpr hin)]
    exact ⟨Nat.add_right_cancel hcount, by rw [heq]⟩
  · have hmore : (addClientReference self.minNumberOfClients entry c).1.lists d =
        (entry.lists d || decide (d = c)) := by
      rw [Bool.eq_iff_iff, Bool.or_eq_true, decide_eq_true_iff, Packed.lists hadd,
        Packed.lists hcs, List.mem_append, List.mem_singleton]
    rw [hmore] at hcount
    rw [if_neg (fun h => hnot (hmem.mp h))]
    refine ⟨?_, hadded⟩
    by_cases hd : d = c
    · subst hd
      have hold : entry.lists d = false := by
        rw [Bool.eq_false_iff]
        exact fun h => hnot ((Packed.lists hcs).mp h)
      rw [hold, decide_eq_true rfl] at hcount
      rw [if_pos ⟨rfl, fun h => hnot (hmem.mp h)⟩]
      exact hcount
    · rw [decide_eq_false hd, Bool.or_false] at hcount
      rw [if_neg fun h => hd h.1]
      exact Nat.add_right_cancel hcount

theorem counted_register (h : Counted s) (hop : Countable s (.register updateID c)) :
    Counted (s.register updateID c) := by
  have hplace (entry : CacheEntry) (hfind : s.updateCache.tableFind updateID = some entry)
      (hc : c ≠ 0) : c ∈ entry.places ∨ 0 ∈ entry.places :=
    (hop entry hfind hc).imp_right fun h => h.1
  refine ⟨allPacked_register h.packed hplace, fun d => ?_⟩
  rw [register_updateCount]
  show _ = listedIn (registerClient s.updateCache updateID c).1 d
  by_cases hidle : s.updateCache.tableFind updateID = none ∨ c = 0
  · rw [registerClient_idle hidle, UInt32.add_zero, ite_self]
    exact h.agree d
  · obtain ⟨hsome, hc⟩ := not_or.mp hidle
    obtain ⟨entry, hfind⟩ := Option.ne_none_iff_exists'.mp hsome
    obtain ⟨hlisted, hadded⟩ := register_lists h.packed hfind hc (hplace entry hfind hc) d
    rw [hlisted, hadded]
    by_cases hin : c ∈ entry.places
    · rw [if_pos hin, UInt32.add_zero, ite_self, if_neg fun h => h.2 hin]
      exact h.agree d
    · rw [if_neg hin]
      by_cases hd : d = c
      · subst hd
        rw [if_pos rfl, if_pos ⟨rfl, hin⟩]
        exact toNat_add_one (h.agree d) ((hop entry hfind hc).resolve_left hin).2
      · rw [if_neg hd, if_neg fun h => hd h.1]
        exact h.agree d

theorem counted_delete (h : Counted s) (hc : c ≠ 0) (keepWindow : UInt16) (now : Nat) :
    Counted (s.processDeleteUpdate c updateID keepWindow now) := by
  refine ⟨?_, fun d => ?_⟩
  · rw [delete_updateCache]
    exact allPacked_delete h.packed hc keepWindow now
  · rw [delete_updateCount, delete_updateCache]
    cases hfind : s.updateCache.tableFind updateID with
    | none =>
      rw [deleteUpdateFromCache_unknown hfind, if_neg fun h => nomatch h.2]
      exact h.agree d
    | some entry =>
      obtain ⟨cs, hcs⟩ := h.packed entry (tableFind_eq_some.mp hfind).1
      obtain ⟨t, hdel⟩ := deleteUpdateFromCache_found (c := c) hfind keepWindow now
      have hcount := listedIn_write hfind (fun entry => (deleteUpdateFromCacheEntry c entry t).1)
        (deleteUpdateFromCacheEntry_updateID c · t) d
      have hless : (deleteUpdateFromCacheEntry c entry t).1.lists d =
          (entry.lists d && decide (d ≠ c)) := by
        rw [Bool.eq_iff_iff, Bool.and_eq_true, decide_eq_true_iff, lists_delete hcs hc]
      have hremoved : (deleteUpdateFromCacheEntry c entry t).2 = entry.lists c := by
        rw [(deleteEntry_packed hcs hc t).1, Bool.eq_iff_iff, decide_eq_true_iff, Packed.lists hcs]
      rw [hless] at hcount
      rw [hdel]
      dsimp only
      rw [hremoved]
      by_cases hd : d = c ∧ entry.lists c = true
      · obtain ⟨rfl, hlists⟩ := hd
        rw [hlists, decide_eq_false fun h => h rfl] at hcount
        change _ + 1 = listedIn s.updateCache d at hcount
        have hagree := h.agree d
        rw [← hcount] at hagree
        rw [if_pos ⟨rfl, hlists⟩, UInt32.toNat_sub_of_le _ _ (UInt32.le_iff_toNat_le.mpr (by
          rw [hagree]; exact Nat.le_add_left 1 _)), hagree]
        rfl
      · have hsame : (entry.lists d && decide (d ≠ c)) = entry.lists d := by
          by_cases hdc : d = c
          · subst hdc
            rw [Bool.eq_false_iff.mpr fun hl => hd ⟨rfl, hl⟩]
            rfl
          · rw [decide_eq_true hdc, Bool.and_true]
        rw [hsame] at hcount
        rw [if_neg hd, h.agree d]
        exact (Nat.add_right_cancel hcount).symm

theorem counted_unregister (h : Counted s) (hc : c ≠ 0) (keepTime : UInt32) :
    Counted (s.unregister c keepTime) := by
  obtain ⟨-, hend, -, hlisted⟩ := unregister_spec h hc keepTime
  refine ⟨allPacked_unregister h.packed hc _ _, fun d => ?_⟩
  rw [unregister_updateCount]
  refine Eq.trans ?_ (hlisted d).symm
  split
  · rw [hend]
    rfl
  · exact h.agree d

theorem counted_deactivate (h : Counted s) (crashed : Bool) (keepWindow : UInt16) (now : Nat) :
    Counted (s.deactivateConnectionMapping c crashed keepWindow now) := by
  obtain ⟨⟨keepTime, hcache⟩, hcount⟩ := deactivate_spec (s := s) (c := c) crashed keepWindow now
  by_cases hpos : (s.proxyMap c).updateCount > 0
  · have hc : c ≠ 0 := by
      rintro rfl
      rw [Counted.zero h] at hpos
      exact absurd hpos (by decide)
    rw [if_pos hpos] at hcache
    obtain ⟨-, -, -, hlisted⟩ := unregister_spec h hc keepTime
    refine ⟨hcache ▸ allPacked_unregister h.packed hc _ _, fun d => ?_⟩
    rw [hcount, hcache, hlisted]
    split
    · rfl
    · exact h.agree d
  · rw [if_neg hpos] at hcache
    refine ⟨hcache ▸ h.packed, fun d => ?_⟩
    rw [hcount, hcache]
    split
    · next hd =>
      subst hd
      have hzero : (s.proxyMap d).updateCount = 0 := by
        by_contra hne
        exact hpos (UInt32.pos_iff_ne_zero.mpr hne)
      rw [← h.agree, hzero]
    · exact h.agree d

theorem counted_step (h : Counted s) {op : ClientOp} (hop : Countable s op) :
    Counted (s.step op) := by
  cases op with
  | store c u defRes path pathId now => exact counted_store h defRes path pathId now hop
  | register u c => exact counted_register h hop
  | delete c u keepWindow now => exact counted_delete h c.2 keepWindow now
  | unregister c keepTime => exact counted_unregister h c.2 keepTime
  | deactivate c crashed keepWindow now => exact counted_deactivate h crashed keepWindow now
  | setActive c value =>
    obtain ⟨hcache, hcount⟩ := setActivationFlag_spec (s := s) (c := c) value
    refine ⟨?_, fun d => ?_⟩
    · show AllPacked (s.setActivationFlag c value).updateCache
      rw [hcache]
      exact h.packed
    · show ((s.setActivationFlag c value).proxyMap d).updateCount.toNat =
        listedIn (s.setActivationFlag c value).updateCache d
      rw [hcache, hcount]
      exact h.agree d

/-- A count that has to hold `2 ^ 32` is wrong. -/
theorem count_overflow {k : Nat} (n : UInt32) (hk : ¬ k + 1 < 2 ^ 32) : n.toNat ≠ k + 1 := by
  intro hn
  exact hk (hn ▸ n.toNat_lt)

theorem toNat_injective {a b : Bool} (h : a.toNat = b.toNat) : a = b := by
  cases a <;> cases b <;> simp_all

/-- A registration that extends the array leaves a count behind. -/
theorem extended_miscounts {entry : CacheEntry} (h : Counted s)
    (hfind : s.updateCache.tableFind updateID = some entry) (hc : c ≠ 0)
    (hplace : ¬ (c ∈ entry.places ∨ 0 ∈ entry.places)) :
    ∃ d, ((s.register updateID c).proxyMap d).updateCount.toNat ≠
      listedIn (s.register updateID c).updateCache d := by
  obtain ⟨cs, hcs⟩ := h.packed entry (tableFind_eq_some.mp hfind).1
  obtain ⟨hmem, hfull⟩ := no_place hcs hplace
  have hcache : (s.register updateID c).updateCache =
      (registerClient s.updateCache updateID c).1 := rfl
  have hcount (d : UInt8) : ((s.register updateID c).proxyMap d).updateCount.toNat =
      listedIn s.updateCache d := by
    rw [register_updateCount, registerClient_found hfind hc,
      addClientReference_full hcs hmem hfull, UInt32.add_zero, ite_self]
    exact h.agree d
  have hwrite (d : UInt8) := listedIn_write hfind
    (fun entry => (addClientReference s.updateCache.minNumberOfClients entry c).1)
    (addClientReference_updateID _ · c) d
  -- one client is listed now and not before, or before and not now
  suffices hd : ∃ d, (addClientReference s.updateCache.minNumberOfClients entry c).1.lists d ≠
      entry.lists d by
    obtain ⟨d, hd⟩ := hd
    refine ⟨d, ?_⟩
    rw [hcount, hcache, registerClient_found hfind hc]
    intro hsame
    have hbits := hwrite d
    rw [← hsame] at hbits
    exact hd (toNat_injective (Nat.add_left_cancel hbits).symm)
  rcases extended_places hcs hmem hfull s.updateCache.minPos with
    ⟨-, -, hplaces⟩ | ⟨hbig, -, hplaces⟩
  · refine ⟨c, ?_⟩
    have hnew : (addClientReference s.updateCache.minNumberOfClients entry c).1.lists c = true := by
      unfold CacheEntry.lists
      rw [hplaces]
      simp [hc]
    rw [hnew]
    exact fun hold => hmem ((Packed.lists hcs).mp hold.symm)
  · have hm := s.updateCache.minNumberOfClients.toNat_lt
    -- the first client behind the cut
    have hlt : s.updateCache.minNumberOfClients.toNat + s.updateCache.minNumberOfClients.toNat -
        256 < cs.length := by
      omega
    obtain ⟨d, rest, hdrop⟩ := List.exists_cons_of_length_pos
      (show 0 < (cs.drop (s.updateCache.minNumberOfClients.toNat +
        s.updateCache.minNumberOfClients.toNat - 256)).length by
          rw [List.length_drop]
          omega)
    have hin : d ∈ cs := List.mem_of_mem_drop (hdrop ▸ List.mem_cons_self)
    have hcut : d ∉ cs.take (s.updateCache.minNumberOfClients.toNat +
        s.updateCache.minNumberOfClients.toNat - 256) := by
      have hnodup := hcs.nodup
      rw [← List.take_append_drop (s.updateCache.minNumberOfClients.toNat +
        s.updateCache.minNumberOfClients.toNat - 256) cs, List.nodup_append, hdrop] at hnodup
      exact fun htake => hnodup.2.2 d htake d List.mem_cons_self rfl
    refine ⟨d, ?_⟩
    rw [(Packed.lists hcs).mpr hin]
    unfold CacheEntry.lists
    rw [hplaces]
    simpa using fun _ => hcut

theorem uncountable_miscounts (h : Counted s) {op : ClientOp} (hop : ¬ Countable s op) :
    ¬ CountsAgree (s.step op) := by
  intro hagree
  cases op with
  | store c u defRes path pathId now =>
    obtain ⟨hfind, hc, hmany⟩ : s.updateCache.tableFind u = none ∧ c ≠ 0 ∧
        ¬ listedIn s.updateCache c + 1 < 2 ^ 32 := by
      simpa [Countable] using hop
    obtain ⟨entry, cs, -, hpacked, hcs, hitems, -, -⟩ :=
      storeUpdate_new (c := c) hfind defRes path pathId now
    have hlisted : listedIn (s.step (.store c u defRes path pathId now)).updateCache c =
        listedIn s.updateCache c + 1 := by
      refine (listedIn_append hitems c).trans ?_
      rw [(Packed.lists hpacked).mpr ((hcs c).mpr ⟨rfl, hc⟩)]
      rfl
    exact count_overflow _ hmany ((hagree.agree c).trans hlisted)
  | register u c =>
    obtain ⟨entry, hfind, hc, hnot, hbad⟩ : ∃ entry, s.updateCache.tableFind u = some entry ∧
        c ≠ 0 ∧ c ∉ entry.places ∧
          ¬ (0 ∈ entry.places ∧ listedIn s.updateCache c + 1 < 2 ^ 32) := by
      simpa [Countable] using hop
    by_cases hzero : 0 ∈ entry.places
    · have hmany : ¬ listedIn s.updateCache c + 1 < 2 ^ 32 := fun h => hbad ⟨hzero, h⟩
      have hlisted := (register_lists h.packed hfind hc (.inr hzero) c).1
      rw [if_pos ⟨rfl, hnot⟩] at hlisted
      exact count_overflow _ hmany ((hagree.agree c).trans hlisted)
    · obtain ⟨d, hd⟩ := extended_miscounts h hfind hc (not_or.mpr ⟨hnot, hzero⟩)
      exact hd (hagree.agree d)
  | delete c u keepWindow now => exact hop trivial
  | unregister c keepTime => exact hop trivial
  | deactivate c crashed keepWindow now => exact hop trivial
  | setActive c value => exact hop trivial

end CountLemmas

open CountLemmas

/-- From the empty cache: in every state of the run the count of every client is the number of
updates that list it, and unregistering the client clears them all and ends at zero, if and only if
every client that is new to an update finds a free place in its client array and has less than
`2 ^ 32 - 1` updates. -/
theorem counts_agree_iff (minNumberOfClients : UInt8) (minPos : 0 < minNumberOfClients)
    (defaultKeepWindow : UInt16) (ops : List ClientOp) :
    Always ClientState.step CountsAgree
        (initClientState minNumberOfClients minPos defaultKeepWindow) ops ↔
      EachStep ClientState.step Countable
        (initClientState minNumberOfClients minPos defaultKeepWindow) ops :=
  always_iff_eachStep (fun _ _ h hop => counted_step h hop) (fun _ h => countsAgree_of_counted h)
    (fun _ _ h hop => uncountable_miscounts h hop) (counted_init minPos defaultKeepWindow)

/-- With two expected clients, clients `1` and `2` are both counted for the update `7`, and client
`1` is unregistered from it. -/
theorem counts_agree_two :
    Always ClientState.step CountsAgree (initClientState 2 (by decide) 0)
      [.store 1 7 none none 0 0, .register 7 2, .unregister ⟨1, by decide⟩ 0] := by
  refine (counts_agree_iff 2 (by decide) 0 _).mpr (eachStep_cons.mpr ⟨?_, eachStep_cons.mpr
    ⟨?_, eachStep_cons.mpr ⟨trivial, eachStep_nil⟩⟩⟩)
  · intro _ _
    decide
  · intro cEntry hfind _
    obtain rfl := Option.some.inj (Eq.trans (Eq.symm (by rfl)) hfind)
    exact .inr ⟨by decide, by decide⟩

/-- With two expected clients, client `3` is the third of the update `7`: the update lists it, its
count stays zero, and unregistering it removes it by counting below zero. -/
theorem third_client_not_counted :
    ¬ ∀ (minNumberOfClients : UInt8) (minPos : 0 < minNumberOfClients) (defaultKeepWindow : UInt16)
      (ops : List ClientOp), Always ClientState.step CountsAgree
        (initClientState minNumberOfClients minPos defaultKeepWindow) ops := by
  intro h
  have hlast := h 2 (by decide) 0 [.store 1 7 none none 0 0, .register 7 2, .register 7 3]
    [.store 1 7 none none 0 0, .register 7 2, .register 7 3] [] rfl
  exact absurd (hlast.agree 3) (by decide)

end SrxSuite.Server

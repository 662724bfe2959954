import SrxSuite.Lib.Runs
import SrxSuite.Server.ClientArray

/-!
# The client list of one update

Clients are added to an entry of the update cache and removed from it. The array has
`minNumberOfClients` places first and is extended by as many whenever it is full. The new size is stored
in a byte: from 256 on it is smaller than the old one, and the clients behind it are lost.

Results:
1. `listed_step`: a registration and a removal keep the array packed.
2. `clientList_iff`: along a run the list is right if and only if each new client finds room in a
   multiple of `minNumberOfClients` that fits in a byte.
3. `clients_lost`: steps of 100, and the client 201.
-/

namespace SrxSuite.Server

open ClientArrayLemmas Runs

/-! ## Registrations and removals -/

/-- A client; 0 marks a free place. -/
abbrev ClientId := { c : UInt8 // c ≠ 0 }

/-- The client `c` is registered, or removed at a time. -/
inductive ClientListOp
  | add (c : ClientId)
  | remove (c : ClientId) (timeOfDeletion : UInt16)

/-- The entry, and the clients that are registered by what was done. -/
structure ClientListState where
  entry : CacheEntry
  registered : List UInt8

/-- One registration or removal. -/
def ClientListState.step (minNumberOfClients : UInt8) (s : ClientListState) :
    ClientListOp → ClientListState
  | .add c =>
    { entry := (addClientReference minNumberOfClients s.entry c).1
      registered := if c.1 ∈ s.registered then s.registered else s.registered ++ [c.1] }
  | .remove c timeOfDeletion =>
    { entry := (deleteUpdateFromCacheEntry c s.entry timeOfDeletion).1
      registered := s.registered.erase c }

/-- The used places come first and hold each registered client once and nobody else, and there are as
many places as registered clients at least. -/
structure ClientListState.Right (s : ClientListState) : Prop where
  once : ∀ c ∈ s.registered, s.entry.places.count c = 1
  packed : ∃ used k, s.entry.places = used ++ List.replicate k 0 ∧ 0 ∉ used ∧ used.Nodup ∧
    ∀ c, c ∈ used ↔ c ∈ s.registered
  room : s.registered.length ≤ s.entry.noPossibleClients.toNat

/-- A new client finds room in a multiple of `minNumberOfClients` that is below 256. -/
def FindsRoom (minNumberOfClients : UInt8) (s : ClientListState) : ClientListOp → Prop
  | .add c => c.1 ∉ s.registered → ∃ k, s.registered.length + 1 ≤ k * minNumberOfClients.toNat ∧
      k * minNumberOfClients.toNat < 256
  | .remove .. => True

/-- The entry of a new update, before its first client. -/
def newClientList (minNumberOfClients : UInt8) (updateID : UInt32) (defRes : Option DefaultResult)
    (bgpsecPath : Option (List UInt8)) (pathId : UInt32) : ClientListState :=
  ⟨newCacheEntry minNumberOfClients updateID defRes bgpsecPath pathId, []⟩

namespace ClientListLemmas

variable {m : UInt8} {s : ClientListState} {op : ClientListOp}

/-- The invariant: the array is packed, and its size is a multiple of the first one. -/
def Listed (m : UInt8) (s : ClientListState) : Prop :=
  ∃ size : UInt8, Packed size s.entry s.registered ∧ ∃ k, size.toNat = k * m.toNat

theorem listed_new (updateID : UInt32) (defRes : Option DefaultResult)
    (bgpsecPath : Option (List UInt8)) (pathId : UInt32) :
    Listed m (newClientList m updateID defRes bgpsecPath pathId) := by
  refine ⟨m, ⟨rfl, Nat.zero_le _, rfl, List.not_mem_nil, List.nodup_nil⟩, 1, ?_⟩
  rw [Nat.one_mul]

theorem right_of_listed (h : Listed m s) : s.Right := by
  obtain ⟨size, hpacked, -⟩ := h
  have hplaces : s.entry.places = s.registered ++ List.replicate (size.toNat - s.registered.length) 0 := by
    rw [Packed.places hpacked, hpacked.array]
  refine ⟨?_, ⟨_, _, hplaces, hpacked.noZero, hpacked.nodup, fun c => Iff.rfl⟩, ?_⟩
  · intro c hc
    have hne : ¬ (0 : UInt8) == c := by
      rw [beq_iff_eq]
      rintro rfl
      exact hpacked.noZero hc
    rw [hplaces, List.count_append, List.count_replicate, if_neg hne,
      List.count_eq_one_of_mem hpacked.nodup hc]
  · rw [hpacked.size]
    exact hpacked.fits

/-- The array is full: its size is the number of clients. -/
theorem full_of_not_lt {size : UInt8} (h : Packed size s.entry s.registered)
    (hfull : ¬ s.registered.length < size.toNat) : s.registered.length = size.toNat :=
  Nat.le_antisymm h.fits (Nat.le_of_not_lt hfull)

/-- The extension of a full array whose new size fits in a byte. -/
theorem extended_packed {size : UInt8} {c : ClientId} (h : Packed size s.entry s.registered)
    (hmem : c.1 ∉ s.registered) (hfull : s.registered.length = size.toNat) (hpos : 0 < m.toNat)
    (hsmall : size.toNat + m.toNat < 256) :
    Packed (size + m) (addClientReference m s.entry c).1 (s.registered ++ [c.1]) := by
  have hsize : (size + m).toNat = size.toNat + m.toNat := by
    rw [UInt8.toNat_add, Nat.mod_eq_of_lt hsmall]
  rw [addClientReference_full h hmem hfull]
  refine ⟨?_, ?_, ?_, ?_, ?_⟩
  · rw [← hsize, UInt8.ofNat_toNat]
  · rw [hsize, List.length_append, List.length_singleton, hfull]
    exact Nat.add_le_add_left hpos _
  · have hrest : (size + m).toNat - (s.registered ++ [c.1]).length = m.toNat - 1 := by
      rw [hsize, List.length_append, List.length_singleton, hfull, Nat.add_sub_add_left]
    rw [hrest, extended_array c.1 hfull hpos, List.append_assoc]
    rfl
  · rw [List.mem_append, List.mem_singleton]
    rintro (hzero | hzero)
    · exact h.noZero hzero
    · exact c.2 hzero.symm
  · rw [← List.concat_eq_append]
    exact h.nodup.concat hmem

/-- A registration and a removal keep the array packed. -/
theorem listed_step (h : Listed m s) (hop : FindsRoom m s op) : Listed m (s.step m op) := by
  obtain ⟨size, hpacked, k, hk⟩ := h
  cases op with
  | add c =>
    show Listed m ⟨_, if c.1 ∈ s.registered then s.registered else s.registered ++ [c.1]⟩
    split
    next hmem =>
      refine ⟨size, ?_, k, hk⟩
      rw [addClientReference_listed hpacked hmem]
      exact ⟨hpacked.size, hpacked.fits, hpacked.array, hpacked.noZero, hpacked.nodup⟩
    next hmem =>
      by_cases hfree : s.registered.length < size.toNat
      · exact ⟨size, (addClientReference_free hpacked hmem c.2 hfree).2, k, hk⟩
      · -- the next multiple is no greater than the one that has room
        have hfull := full_of_not_lt hpacked hfree
        obtain ⟨k', hroom, hbyte⟩ := hop hmem
        rw [hfull, hk] at hroom
        have hlt : k < k' := Nat.lt_of_mul_lt_mul_right hroom
        have hnext : k * m.toNat + m.toNat ≤ k' * m.toNat := by
          rw [← Nat.succ_mul]
          exact Nat.mul_le_mul_right _ hlt
        have hpos : 0 < m.toNat := by
          refine Nat.pos_of_ne_zero ?_
          intro hzero
          rw [hzero, Nat.mul_zero, Nat.mul_zero] at hroom
          cases hroom
        have hsmall : size.toNat + m.toNat < 256 := by
          rw [hk]
          exact Nat.lt_of_le_of_lt hnext hbyte
        refine ⟨size + m, extended_packed hpacked hmem hfull hpos hsmall, k + 1, ?_⟩
        rw [UInt8.toNat_add, Nat.mod_eq_of_lt hsmall, hk, Nat.succ_mul]
  | remove c timeOfDeletion =>
    exact ⟨size, (deleteEntry_packed hpacked c.2 timeOfDeletion).2, k, hk⟩

/-- A new client without room makes the size wrap around. -/
theorem wraps_of_no_room (h : Listed m s) (hop : ¬ FindsRoom m s op) : ¬ (s.step m op).Right := by
  obtain ⟨size, hpacked, k, hk⟩ := h
  cases op with
  | remove => exact absurd trivial hop
  | add c =>
    obtain ⟨hmem, hnone⟩ := Classical.not_imp.mp hop
    have hfull : s.registered.length = size.toNat := by
      refine full_of_not_lt hpacked fun hfree => hnone ⟨k, ?_, ?_⟩
      · rw [← hk]
        exact hfree
      · rw [← hk]
        exact size.toNat_lt
    intro hright
    have hroom := hright.room
    have hlen : (s.step m (.add c)).registered.length = size.toNat + 1 := by
      show (if c.1 ∈ s.registered then s.registered else s.registered ++ [c.1]).length = _
      rw [if_neg hmem, List.length_append, List.length_singleton, hfull]
    have hsize : (s.step m (.add c)).entry.noPossibleClients = UInt8.ofNat (size.toNat + m.toNat) := by
      show (addClientReference m s.entry c).1.noPossibleClients = _
      rw [addClientReference_full hpacked hmem hfull]
    rw [hlen, hsize, UInt8.toNat_ofNat'] at hroom
    by_cases hsmall : size.toNat + m.toNat < 256
    · refine hnone ⟨k + 1, ?_, ?_⟩
      · rw [hfull, Nat.succ_mul, ← hk]
        rwa [Nat.mod_eq_of_lt hsmall] at hroom
      · rwa [Nat.succ_mul, ← hk]
    · have hm := m.toNat_lt
      have hs := size.toNat_lt
      omega

end ClientListLemmas

open ClientListLemmas

/-- The client list of a new update is right along a run if and only if the array never has to grow
beyond 255 places. -/
theorem clientList_iff (minNumberOfClients : UInt8) (updateID : UInt32)
    (defRes : Option DefaultResult) (bgpsecPath : Option (List UInt8)) (pathId : UInt32)
    (ops : List ClientListOp) :
    Always (ClientListState.step minNumberOfClients) ClientListState.Right
        (newClientList minNumberOfClients updateID defRes bgpsecPath pathId) ops ↔
      EachStep (ClientListState.step minNumberOfClients) (FindsRoom minNumberOfClients)
        (newClientList minNumberOfClients updateID defRes bgpsecPath pathId) ops :=
  always_iff_eachStep (fun _ _ => listed_step) (fun _ => right_of_listed)
    (fun _ _ => wraps_of_no_room) (listed_new updateID defRes bgpsecPath pathId)

/-- Registrations of the clients 1 to `n`. -/
def manyRegistrations (n : Nat) : List ClientListOp :=
  (List.range n).filterMap fun i =>
    if h : UInt8.ofNat (i + 1) ≠ 0 then some (.add ⟨UInt8.ofNat (i + 1), h⟩) else none

theorem manyRegistrations_succ {n : Nat} (hn : n + 1 < 256) : ∃ c : ClientId, c.1.toNat = n + 1 ∧
    manyRegistrations (n + 1) = manyRegistrations n ++ [.add c] := by
  have hval : (UInt8.ofNat (n + 1)).toNat = n + 1 := UInt8.toNat_ofNat_of_lt' hn
  have hne : UInt8.ofNat (n + 1) ≠ 0 := by
    intro hzero
    rw [hzero] at hval
    cases hval
  refine ⟨⟨_, hne⟩, hval, ?_⟩
  rw [manyRegistrations, List.range_succ, List.filterMap_append]
  exact congrArg _ (List.filterMap_cons_some (dif_pos hne))

/-- Up to 200 clients find room in the two hundred places. -/
theorem manyRegistrations_listed {n : Nat} (hn : n ≤ 200) (s : ClientListState)
    (hs : s = (manyRegistrations n).foldl (ClientListState.step 100) (newClientList 100 1 none none 0)) :
    Listed 100 s ∧ s.registered.length = n ∧ ∀ c ∈ s.registered, c.toNat ≤ n := by
  induction n generalizing s with
  | zero =>
    rw [hs]
    exact ⟨listed_new .., rfl, fun _ hc => absurd hc List.not_mem_nil⟩
  | succ n ih =>
    obtain ⟨c, hc, hops⟩ := manyRegistrations_succ (n := n) (by omega)
    obtain ⟨hlisted, hlen, hle⟩ := ih (Nat.le_of_succ_le hn) _ rfl
    rw [hops, List.foldl_append] at hs
    generalize (manyRegistrations n).foldl (ClientListState.step 100) _ = s₀ at hs hlisted hlen hle
    have hmem : c.1 ∉ s₀.registered := by
      intro hmem
      have hlast := hle _ hmem
      rw [hc] at hlast
      exact Nat.not_succ_le_self n hlast
    have hregistered : s.registered = s₀.registered ++ [c.1] := by
      rw [hs]
      exact if_neg hmem
    have hroom : FindsRoom 100 s₀ (.add c) := fun _ => ⟨2, hlen.symm ▸ hn, by decide⟩
    refine ⟨?_, ?_, ?_⟩
    · rw [hs]
      exact listed_step hlisted hroom
    · rw [hregistered, List.length_append, hlen, List.length_singleton]
    · intro d hd
      rw [hregistered, List.mem_append, List.mem_singleton] at hd
      cases hd with
      | inl hold => exact Nat.le_succ_of_le (hle d hold)
      | inr hnew => exact Nat.le_of_eq (hnew ▸ hc)

/-- With steps of 100 the array has 200 places when client 201 comes, and 44 after it. -/
theorem clients_lost :
    ¬ Always (ClientListState.step 100) ClientListState.Right (newClientList 100 1 none none 0)
      (manyRegistrations 201) := by
  intro h
  obtain ⟨c, hc, hops⟩ := manyRegistrations_succ (n := 200) (by decide)
  obtain ⟨hlisted, hlen, hle⟩ := manyRegistrations_listed (Nat.le_refl 200) _ rfl
  have hright := h (manyRegistrations 201) [] (List.append_nil _).symm
  rw [hops, List.foldl_append, List.foldl_cons, List.foldl_nil] at hright
  generalize (manyRegistrations 200).foldl (ClientListState.step 100) _ = s at hlisted hlen hle hright
  refine wraps_of_no_room hlisted ?_ hright
  -- 201 clients would need 300 places
  intro hroom
  have hmem : c.1 ∉ s.registered := by
    intro hmem
    have hlast := hle _ hmem
    rw [hc] at hlast
    exact Nat.not_succ_le_self 200 hlast
  obtain ⟨k, hneed, hbyte⟩ := hroom hmem
  have hsize : (100 : UInt8).toNat = 100 := rfl
  rw [hlen, hsize] at hneed
  rw [hsize] at hbyte
  omega

end SrxSuite.Server

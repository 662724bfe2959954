import SrxSuite.Server.UpdateCache

/-!
# The client array of an update

An array that was never extended is packed: different clients first, then free places. Adding a
client and removing one keep it packed, and `lists` is membership.
-/

namespace SrxSuite.Server

/-- The array of `entry` has the size it was made with and holds the clients `cs`, packed. -/
structure Packed (minNumberOfClients : UInt8) (entry : CacheEntry) (cs : List UInt8) : Prop where
  size : entry.noPossibleClients = minNumberOfClients
  fits : cs.length ≤ minNumberOfClients.toNat
  array : entry.clients = cs ++ List.replicate (minNumberOfClients.toNat - cs.length) 0
  noZero : 0 ∉ cs
  nodup : cs.Nodup

namespace ClientArrayLemmas

variable {m n : UInt8} {entry : CacheEntry} {cs : List UInt8} {c : UInt8}

theorem Packed.length (h : Packed m entry cs) : entry.clients.length = m.toNat := by
  rw [h.array, List.length_append, List.length_replicate]
  have := h.fits
  omega

theorem Packed.places (h : Packed m entry cs) : entry.places = entry.clients := by
  unfold CacheEntry.places
  rw [h.size, ← Packed.length h, List.take_length]

theorem Packed.lists (h : Packed m entry cs) : entry.lists c = true ↔ c ∈ cs := by
  unfold CacheEntry.lists
  rw [Packed.places h, h.array, Bool.and_eq_true, bne_iff_ne, List.contains_iff_mem, List.mem_append,
    List.mem_replicate]
  constructor
  · rintro ⟨hne, hmem | ⟨-, hzero⟩⟩
    · exact hmem
    · exact absurd hzero hne
  · intro hmem
    exact ⟨fun hzero => h.noZero (hzero ▸ hmem), .inl hmem⟩

theorem Packed.filter (h : Packed m entry cs) : entry.places.filter (· ≠ 0) = cs := by
  rw [Packed.places h, h.array, List.filter_append, List.filter_eq_self.mpr, List.filter_replicate]
  · simp
  · intro a ha
    have hne : a ≠ 0 := fun hzero => h.noZero (hzero ▸ ha)
    simpa using hne

/-! ## Adding a client -/

theorem addClientLoop_mem (hmem : c ∈ cs) (hzero : 0 ∉ cs) (rest : List UInt8) :
    addClientLoop c (cs ++ rest) = some (cs ++ rest, false) := by
  induction cs with
  | nil => cases hmem
  | cons d ds ih =>
    have hd : d ≠ 0 := fun h => hzero (h ▸ List.mem_cons_self)
    rw [List.cons_append, addClientLoop, if_neg hd]
    split
    · rfl
    · next hne =>
      have hmem' : c ∈ ds := (List.mem_cons.mp hmem).resolve_left (Ne.symm hne)
      rw [ih hmem' fun h => hzero (List.mem_cons_of_mem _ h)]
      rfl

theorem addClientLoop_notMem (hmem : c ∉ cs) (hzero : 0 ∉ cs) (rest : List UInt8) :
    addClientLoop c (cs ++ rest) = (addClientLoop c rest).map fun out => (cs ++ out.1, out.2) := by
  induction cs with
  | nil =>
    cases h : addClientLoop c rest <;> simp [h]
  | cons d ds ih =>
    have hd : d ≠ 0 := fun h => hzero (h ▸ List.mem_cons_self)
    have hdc : d ≠ c := fun h => hmem (h ▸ List.mem_cons_self)
    rw [List.cons_append, addClientLoop, if_neg hd, if_neg hdc,
      ih (fun h => hmem (List.mem_cons_of_mem _ h)) fun h => hzero (List.mem_cons_of_mem _ h),
      Option.map_map]
    rfl

/-- A client that is listed already. -/
theorem addClientReference_listed (h : Packed m entry cs) (hmem : c ∈ cs) :
    addClientReference n entry c = ({ entry with gcFlag := 0 }, 0) := by
  have hloop : addClientLoop c entry.places = some (entry.clients, false) := by
    rw [Packed.places h, h.array]
    exact addClientLoop_mem hmem h.noZero _
  have hdrop : entry.clients.drop entry.noPossibleClients.toNat = [] := by
    rw [h.size, ← Packed.length h, List.drop_length]
  unfold addClientReference
  rw [hloop]
  dsimp only
  rw [hdrop, List.append_nil]
  rfl

/-- A new client that finds a free place. -/
theorem addClientReference_free (h : Packed m entry cs) (hmem : c ∉ cs) (hc : c ≠ 0)
    (hfree : cs.length < m.toNat) :
    (addClientReference n entry c).2 = 1 ∧
      Packed m (addClientReference n entry c).1 (cs ++ [c]) := by
  have hk : m.toNat - cs.length = (m.toNat - (cs ++ [c]).length) + 1 := by
    rw [List.length_append, List.length_singleton]
    omega
  have hloop : addClientLoop c entry.places =
      some (cs ++ c :: List.replicate (m.toNat - (cs ++ [c]).length) 0, true) := by
    rw [Packed.places h, h.array, addClientLoop_notMem hmem h.noZero, hk, List.replicate_succ,
      addClientLoop, if_pos rfl]
    rfl
  have hdrop : entry.clients.drop entry.noPossibleClients.toNat = [] := by
    rw [h.size, ← Packed.length h, List.drop_length]
  unfold addClientReference
  rw [hloop]
  dsimp only
  rw [hdrop, List.append_nil]
  refine ⟨rfl, h.size, ?_, ?_, ?_, ?_⟩
  · rw [List.length_append, List.length_singleton]
    omega
  · rw [List.append_assoc]
    rfl
  · rw [List.mem_append, List.mem_singleton]
    rintro (hz | hz)
    · exact h.noZero hz
    · exact hc hz.symm
  · rw [← List.concat_eq_append]
    exact h.nodup.concat hmem

/-- A new client that finds no free place: the array is extended, the client is not counted. -/
theorem addClientReference_full (h : Packed m entry cs) (hmem : c ∉ cs)
    (hfull : cs.length = m.toNat) :
    addClientReference n entry c =
      ({ entry with
          clients := (cs ++ List.replicate n.toNat 0).set m.toNat c
          noPossibleClients := UInt8.ofNat (m.toNat + n.toNat) }, 0) := by
  have hclients : entry.clients = cs := by
    rw [h.array, hfull, Nat.sub_self, List.replicate_zero, List.append_nil]
  have hloop : addClientLoop c entry.places = none := by
    rw [Packed.places h, hclients]
    have := addClientLoop_notMem hmem h.noZero []
    rwa [List.append_nil] at this
  unfold addClientReference
  rw [hloop]
  dsimp only
  rw [Packed.places h, hclients, h.size]

theorem extended_array (c : UInt8) {size : Nat} (hfull : cs.length = size) (hn : 0 < n.toNat) :
    (cs ++ List.replicate n.toNat 0).set size c = cs ++ c :: List.replicate (n.toNat - 1) 0 := by
  obtain ⟨rest, hrest⟩ := Nat.exists_eq_succ_of_ne_zero (Nat.ne_of_gt hn)
  rw [← hfull, List.set_append_right _ _ (Nat.le_refl _), Nat.sub_self, hrest, List.replicate_succ,
    List.set_cons_zero, Nat.succ_sub_one]

/-- The extended array: the new client after the old ones, or, when the size is cut to a byte, only
the first of the old ones. -/
theorem extended_places (h : Packed m entry cs) (hmem : c ∉ cs) (hfull : cs.length = m.toNat)
    (hpos : 0 < m) :
    (m.toNat + m.toNat < 256 ∧
        (addClientReference m entry c).1.noPossibleClients.toNat = m.toNat + m.toNat ∧
        (addClientReference m entry c).1.places = cs ++ c :: List.replicate (m.toNat - 1) 0) ∨
      (256 ≤ m.toNat + m.toNat ∧
        (addClientReference m entry c).1.noPossibleClients.toNat = m.toNat + m.toNat - 256 ∧
        (addClientReference m entry c).1.places = cs.take (m.toNat + m.toNat - 256)) := by
  have hmpos : 0 < m.toNat := UInt8.lt_iff_toNat_lt.mp hpos
  have hm := m.toNat_lt
  rw [addClientReference_full h hmem hfull]
  unfold CacheEntry.places
  dsimp only
  rw [extended_array c hfull hmpos, UInt8.toNat_ofNat']
  by_cases hsmall : m.toNat + m.toNat < 256
  · rw [Nat.mod_eq_of_lt hsmall]
    refine .inl ⟨hsmall, rfl, List.take_of_length_le ?_⟩
    rw [List.length_append, List.length_cons, List.length_replicate]
    omega
  · have hmod : (m.toNat + m.toNat) % 256 = m.toNat + m.toNat - 256 := by omega
    rw [show 2 ^ 8 = 256 from rfl, hmod]
    exact .inr ⟨Nat.le_of_not_lt hsmall, rfl, List.take_append_of_le_length (by omega)⟩

/-! ## Removing a client -/

/-- The loop passes other clients before it has found its own. -/
theorem clientMgmt_pass (pre mid rest : List UInt8) (others : Bool)
    (hmid : ∀ d ∈ mid, d ≠ c ∧ d ≠ 0) :
    (List.range' pre.length mid.length).foldl (clientMgmtTurn c)
        (pre ++ (mid ++ rest), false, others) =
      (pre ++ (mid ++ rest), false, others || !mid.isEmpty) := by
  induction mid generalizing pre others with
  | nil => simp
  | cons d mid ih =>
    obtain ⟨hdc, hdz⟩ := hmid d List.mem_cons_self
    have hget : (pre ++ (d :: mid ++ rest)).getD pre.length 0 = d := by simp
    have hturn : clientMgmtTurn c (pre ++ (d :: mid ++ rest), false, others) pre.length =
        ((pre ++ [d]) ++ (mid ++ rest), false, true) := by
      unfold clientMgmtTurn
      dsimp only
      rw [hget, if_neg hdc, if_pos hdz]
      simp
    rw [List.length_cons, List.range'_succ, List.foldl_cons, hturn]
    have := ih (pre ++ [d]) true fun e he => hmid e (List.mem_cons_of_mem _ he)
    rw [List.length_append, List.length_singleton] at this
    rw [this]
    simp

/-- After it has found its client, the loop moves the others to the left. -/
theorem clientMgmt_shift (pre mid rest : List UInt8) (others : Bool)
    (hmid : ∀ d ∈ mid, d ≠ c ∧ d ≠ 0) :
    (List.range' (pre.length + 1) mid.length).foldl (clientMgmtTurn c)
        (pre ++ 0 :: (mid ++ rest), true, others) =
      (pre ++ (mid ++ 0 :: rest), true, others || !mid.isEmpty) := by
  induction mid generalizing pre others with
  | nil => simp
  | cons d mid ih =>
    obtain ⟨hdc, hdz⟩ := hmid d List.mem_cons_self
    have hget : (pre ++ 0 :: (d :: mid ++ rest)).getD (pre.length + 1) 0 = d := by simp
    have hset : ((pre ++ 0 :: (d :: mid ++ rest)).set pre.length d).set (pre.length + 1) 0 =
        (pre ++ [d]) ++ 0 :: (mid ++ rest) := by simp
    have hturn : clientMgmtTurn c (pre ++ 0 :: (d :: mid ++ rest), true, others) (pre.length + 1) =
        ((pre ++ [d]) ++ 0 :: (mid ++ rest), true, true) := by
      unfold clientMgmtTurn
      dsimp only
      rw [hget, if_neg hdc, if_pos hdz, if_pos rfl, Nat.add_sub_cancel, hset]
    rw [List.length_cons, List.range'_succ, List.foldl_cons, hturn]
    have := ih (pre ++ [d]) true fun e he => hmid e (List.mem_cons_of_mem _ he)
    rw [List.length_append, List.length_singleton] at this
    rw [this]
    simp

/-- Free places end the array. -/
theorem clientMgmt_zeros (pre : List UInt8) (k : Nat) (found others : Bool) (hc : c ≠ 0) :
    (List.range' pre.length k).foldl (clientMgmtTurn c)
        (pre ++ List.replicate k 0, found, others) =
      (pre ++ List.replicate k 0, found, others) := by
  induction k generalizing pre with
  | zero => simp
  | succ k ih =>
    have hturn : clientMgmtTurn c (pre ++ List.replicate (k + 1) 0, found, others) pre.length =
        ((pre ++ [0]) ++ List.replicate k 0, found, others) := by
      unfold clientMgmtTurn
      have hget : (pre ++ List.replicate (k + 1) 0).getD pre.length 0 = 0 := by
        simp [List.replicate_succ]
      dsimp only
      rw [hget, if_neg (Ne.symm hc), if_neg (fun h => h rfl), List.replicate_succ]
      simp
    rw [List.range'_succ, List.foldl_cons, hturn]
    have := ih (pre ++ [0])
    rw [List.length_append, List.length_singleton] at this
    rw [this, List.replicate_succ]
    simp

/-- The whole loop on an array without the client. -/
theorem clientMgmt_absent (hmem : c ∉ cs) (hzero : 0 ∉ cs) (hc : c ≠ 0) (k : Nat) :
    (List.range (cs.length + k)).foldl (clientMgmtTurn c)
        (cs ++ List.replicate k 0, false, false) =
      (cs ++ List.replicate k 0, false, !cs.isEmpty) := by
  rw [List.range_eq_range', ← List.range'_append_1, List.foldl_append]
  have hpass := clientMgmt_pass (c := c) [] cs (List.replicate k 0) false fun d hd =>
    ⟨fun h => hmem (h ▸ hd), fun h => hzero (h ▸ hd)⟩
  rw [List.length_nil, List.nil_append, Bool.false_or] at hpass
  rw [hpass, Nat.zero_add]
  exact clientMgmt_zeros cs k false _ hc

/-- The whole loop on an array that holds the client. -/
theorem clientMgmt_present {pre post : List UInt8} (hpre : ∀ d ∈ pre, d ≠ c ∧ d ≠ 0)
    (hpost : ∀ d ∈ post, d ≠ c ∧ d ≠ 0) (hc : c ≠ 0) (k : Nat) :
    (List.range ((pre ++ c :: post).length + k)).foldl (clientMgmtTurn c)
        ((pre ++ c :: post) ++ List.replicate k 0, false, false) =
      ((pre ++ post) ++ List.replicate (k + 1) 0, true, !(pre ++ post).isEmpty) := by
  have hlen : (pre ++ c :: post).length + k = pre.length + (1 + (post.length + k)) := by
    rw [List.length_append, List.length_cons]
    omega
  rw [hlen, List.range_eq_range', ← List.range'_append_1, List.foldl_append, List.append_assoc,
    List.cons_append]
  have hpass := clientMgmt_pass [] pre (c :: (post ++ List.replicate k 0)) false hpre
  rw [List.length_nil, List.nil_append, Bool.false_or] at hpass
  rw [hpass, Nat.zero_add, Nat.add_comm 1, List.range'_succ, List.foldl_cons]
  have hturn : clientMgmtTurn c (pre ++ c :: (post ++ List.replicate k 0), false, !pre.isEmpty)
      pre.length = (pre ++ 0 :: (post ++ List.replicate k 0), true, !pre.isEmpty) := by
    unfold clientMgmtTurn
    have hget : (pre ++ c :: (post ++ List.replicate k 0)).getD pre.length 0 = c := by simp
    dsimp only
    rw [hget, if_pos rfl]
    simp
  rw [hturn, ← List.range'_append_1, List.foldl_append, clientMgmt_shift pre post _ _ hpost]
  have hzeros := clientMgmt_zeros (c := c) (pre ++ post ++ [0]) k true
    (!pre.isEmpty || !post.isEmpty) hc
  rw [List.length_append, List.length_append, List.length_singleton,
    Nat.add_right_comm] at hzeros
  simp only [List.append_assoc, List.singleton_append] at hzeros
  rw [hzeros, List.replicate_succ, List.append_assoc]
  cases pre with
  | nil => rfl
  | cons d pre => rfl

/-- What the loop does to a packed array. -/
theorem clientMgmt_packed (h : Packed m entry cs) (hc : c ≠ 0) :
    (List.range entry.noPossibleClients.toNat).foldl (clientMgmtTurn c)
        (entry.clients, false, false) =
      ((cs.erase c) ++ List.replicate (m.toNat - (cs.erase c).length) 0, decide (c ∈ cs),
        !(cs.erase c).isEmpty) := by
  have hsize : entry.noPossibleClients.toNat = cs.length + (m.toNat - cs.length) := by
    rw [h.size]
    have := h.fits
    omega
  rw [hsize, h.array]
  by_cases hmem : c ∈ cs
  · obtain ⟨pre, post, rfl⟩ := List.append_of_mem hmem
    have hnodup := h.nodup
    rw [List.nodup_append, List.nodup_cons] at hnodup
    obtain ⟨-, ⟨hpost, -⟩, hdisj⟩ := hnodup
    have hpre : c ∉ pre := fun hin => hdisj c hin c List.mem_cons_self rfl
    have herase : (pre ++ c :: post).erase c = pre ++ post := by
      rw [List.erase_append_right _ hpre, List.erase_cons_head]
    have hzero {d : UInt8} (hd : d ∈ pre ++ c :: post) : d ≠ 0 := fun hz => h.noZero (hz ▸ hd)
    rw [herase, decide_eq_true hmem, clientMgmt_present _ _ hc]
    · have hk : m.toNat - (pre ++ c :: post).length + 1 = m.toNat - (pre ++ post).length := by
        have := h.fits
        rw [List.length_append, List.length_cons] at this ⊢
        rw [List.length_append]
        omega
      rw [hk]
    · intro d hd
      exact ⟨fun hdc => hpre (hdc ▸ hd), hzero (List.mem_append_left _ hd)⟩
    · intro d hd
      exact ⟨fun hdc => hpost (hdc ▸ hd),
        hzero (List.mem_append_right _ (List.mem_cons_of_mem _ hd))⟩
  · rw [List.erase_of_not_mem hmem, decide_eq_false hmem, clientMgmt_absent hmem h.noZero hc]

/-- Removing a client keeps the array packed. -/
theorem deleteEntry_packed (h : Packed m entry cs) (hc : c ≠ 0) (time : UInt16) :
    (deleteUpdateFromCacheEntry c entry time).2 = decide (c ∈ cs) ∧
      Packed m (deleteUpdateFromCacheEntry c entry time).1 (cs.erase c) := by
  have hpacked (entry' : CacheEntry) (hsize : entry'.noPossibleClients = entry.noPossibleClients)
      (harray : entry'.clients = (cs.erase c) ++
        List.replicate (m.toNat - (cs.erase c).length) 0) : Packed m entry' (cs.erase c) :=
    ⟨hsize.trans h.size, Nat.le_trans List.length_erase_le h.fits, harray,
      fun hz => h.noZero (List.mem_of_mem_erase hz), h.nodup.erase c⟩
  unfold deleteUpdateFromCacheEntry deleteUpdateFromCacheClientMgmt
  rw [clientMgmt_packed h hc]
  dsimp only
  cases hmem : decide (c ∈ cs) with
  | false => exact ⟨rfl, hpacked _ rfl rfl⟩
  | true =>
    cases hothers : (cs.erase c).isEmpty with
    | false => exact ⟨rfl, hpacked _ rfl rfl⟩
    | true => exact ⟨rfl, hpacked _ rfl rfl⟩

end ClientArrayLemmas

end SrxSuite.Server

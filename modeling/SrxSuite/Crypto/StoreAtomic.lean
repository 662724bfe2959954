import SrxSuite.Crypto.KeyMultimap

/-!
# Is storing a key atomic?

A failed `ks_storeKey` should leave the storage as it was. It does so for a key that is there
already, and for a key that cannot be converted where the bucket is empty or the last element
has the same ASN. Elsewhere it goes on: an element whose key could not be loaded is linked in, a
missing element is dereferenced, and a key that joins others under its SKI is kept when its
conversion or the check of its algorithm failed. `storeKey_atomic_iff` says when the call is
atomic, for every storage, intact or not.
-/

namespace SrxSuite.Crypto

open LinkedList

variable {κ : Type}

/-- The call returns, and if it reports a failure the storage is as before. -/
def StoresAtomically (env : KeyEnv κ) (s : KeyStorage κ) (key : BgpsecKey) (convert : Bool) :
    Prop :=
  ∃ success status s', storeKey env s key convert = some (success, status, s') ∧
    (success = false → s' = s)

/-- The data of the key is there or can be loaded, if it is needed. -/
def loadable (env : KeyEnv κ) (isPrivate : Bool) (key : BgpsecKey) (convert : Bool) : Bool :=
  !convert || (keptKey env key convert isPrivate).keyData.isSome

/-- The key can be converted, if it has to be. -/
def convertible (env : KeyEnv κ) (isPrivate : Bool) (key : BgpsecKey) (convert : Bool) : Bool :=
  !convert || match (keptKey env key convert isPrivate).keyData with
    | some data => (env.convertKey isPrivate data).isOk
    | none => false

/-- The conversion of a key that joins others is made in any case, on the data at hand. -/
def convertsCleanly (env : KeyEnv κ) (isPrivate : Bool) (key : BgpsecKey) : Bool :=
  match env.convertKey isPrivate key.bytes with
  | .ok _ => true
  | .error err => err.noError

/-- The bucket a key is put in. -/
def bucketOf (s : KeyStorage κ) (key : BgpsecKey) : UInt8 :=
  if key.algoID = s.algorithmID then getBucket key.asn else 0

/-- The condition at the place of the key. The arrays of an element that the key joins, and the
links around an element it is put before, have to be intact. -/
def slotAtomic (env : KeyEnv κ) (s : KeyStorage κ) (key : BgpsecKey) (convert : Bool) :
    Slot → Bool
  | .last _ sameAsn =>
    convertible env s.isPrivate key convert || (sameAsn && loadable env s.isPrivate key convert)
  | .before a =>
    convertible env s.isPrivate key convert &&
      match s.heap a with
      -- A dangling link may hit the new element.
      | some n => n.prev.all fun p => p == s.fresh || (s.heap p).isSome
      | none => false
  | .into a =>
    match s.heap a with
    | some n =>
      match isStored key.bytes n.val.noKeys.toNat n.val.derKey with
      | some true => true
      | some false =>
        n.val.noKeys + 1 != 0 && n.val.noKeys.toNat ≤ n.val.ecKey.length &&
          key.algoID == s.algorithmID && convertsCleanly env s.isPrivate key
      | none => false
    | none => false

/-- The condition under which a call is atomic. -/
def storeAtomic (env : KeyEnv κ) (s : KeyStorage κ) (key : BgpsecKey) (convert : Bool) : Bool :=
  match s.head (bucketOf s key) with
  | none => loadable env s.isPrivate key convert
  | some a =>
    match findSlot s.heap key.asn key.ski s.fresh a with
    | some slot => slotAtomic env s key convert slot
    | none => false

namespace StoreAtomicLemmas

variable {env : KeyEnv κ} {s : KeyStorage κ} {key : BgpsecKey} {convert : Bool}

theorem noError_or (a b : Status) : (a ||| b).noError = (a.noError && b.noError) := by
  have hdistrib : (a ||| b) &&& 0xFFFF0000 = (a &&& 0xFFFF0000) ||| (b &&& 0xFFFF0000) := by
    rw [← UInt32.toBitVec_inj]
    exact BitVec.and_or_distrib_right
  rw [Bool.eq_iff_iff, Bool.and_eq_true]
  simp only [Status.noError, beq_iff_eq, hdistrib, UInt32.or_eq_zero_iff]

/-- What creating an element comes to: an element, an element whose key is not loaded, or no
element because the key cannot be converted. -/
inductive Created (env : KeyEnv κ) (s : KeyStorage κ) (key : BgpsecKey) (convert : Bool) : Prop
  | made (elem : KeyElement κ) (status : Status)
      (call : createElement env key convert s.isPrivate = (some elem, status))
      (clean : status.noError = true)
      (can : convertible env s.isPrivate key convert = true)
      (load : loadable env s.isPrivate key convert = true)
  | unloaded (elem : KeyElement κ) (status : Status)
      (call : createElement env key convert s.isPrivate = (some elem, status))
      (failed : status.noError = false)
      (cannot : convertible env s.isPrivate key convert = false)
      (load : loadable env s.isPrivate key convert = false)
  | unconverted (status : Status)
      (call : createElement env key convert s.isPrivate = (none, status))
      (failed : status.noError = false)
      (cannot : convertible env s.isPrivate key convert = false)
      (load : loadable env s.isPrivate key convert = true)

theorem created (env : KeyEnv κ) (s : KeyStorage κ) (key : BgpsecKey) (convert : Bool) :
    Created env s key convert := by
  cases convert with
  | false => exact .made _ _ rfl rfl rfl rfl
  | true =>
    cases hdata : (cloneKey key).keyData with
    | some data =>
      cases hconv : env.convertKey s.isPrivate data with
      | ok ec =>
        exact .made _ _ (by simp [createElement, hdata, hconv]; exact ⟨rfl, rfl⟩) rfl
          (by simp [convertible, keptKey, hdata, hconv, Except.isOk, Except.toBool])
          (by simp [loadable, keptKey, hdata])
      | error err =>
        exact .unconverted _ (by simp [createElement, hdata, hconv]; rfl)
          (KeyLemmas.noError_or_errNoData _)
          (by simp [convertible, keptKey, hdata, hconv, Except.isOk, Except.toBool])
          (by simp [loadable, keptKey, hdata])
    | none =>
      cases hload : env.loadKey (cloneKey key) s.isPrivate with
      | some data =>
        cases hconv : env.convertKey s.isPrivate data with
        | ok ec =>
          exact .made _ _ (by simp [createElement, hdata, hload, hconv]; exact ⟨rfl, rfl⟩) rfl
            (by simp [convertible, keptKey, hdata, hload, hconv, Except.isOk, Except.toBool])
            (by simp [loadable, keptKey, hdata, hload])
        | error err =>
          exact .unconverted _ (by simp [createElement, hdata, hload, hconv]; rfl)
            (KeyLemmas.noError_or_errNoData _)
            (by simp [convertible, keptKey, hdata, hload, hconv, Except.isOk, Except.toBool])
            (by simp [loadable, keptKey, hdata, hload])
      | none =>
        exact .unloaded _ _ (by simp [createElement, hdata, hload]; exact ⟨rfl, rfl⟩) (by decide)
          (by simp [convertible, keptKey, hdata, hload])
          (by simp [loadable, keptKey, hdata, hload])

/-- The element a slot names. -/
def slotAddr : Slot → Nat
  | .last a _ => a
  | .before a => a
  | .into a => a

theorem findSlot_heap {h : Heap (KeyElement κ)} {asn : UInt32} {ski : Ski} {fuel a : Nat}
    {slot : Slot} (hfind : findSlot h asn ski fuel a = some slot) :
    ∃ n, h (slotAddr slot) = some n := by
  induction fuel generalizing a with
  | zero => simp [findSlot] at hfind
  | succ fuel ih =>
    cases hn : h a with
    | none => simp [findSlot, hn] at hfind
    | some n =>
      simp only [findSlot, hn] at hfind
      split at hfind
      · split at hfind
        · exact ih hfind
        · cases hfind
          exact ⟨n, hn⟩
      · split at hfind
        · cases hfind
          exact ⟨n, hn⟩
        · split at hfind
          · cases hfind
            exact ⟨n, hn⟩
          · split at hfind
            · exact ih hfind
            · cases hfind
              exact ⟨n, hn⟩

/-- The call returns and reports no failure for a changed storage. -/
def KeepsOnFailure (s : KeyStorage κ) (r : Option (Status × KeyStorage κ)) : Prop :=
  ∃ status s', r = some (status, s') ∧ (status.noError = false → s' = s)

theorem keeps_of_clean {s' : KeyStorage κ} {status : Status} (hclean : status.noError = true) :
    KeepsOnFailure s (some (status, s')) :=
  ⟨status, s', rfl, fun h => by rw [hclean] at h; cases h⟩

theorem keeps_same (status : Status) : KeepsOnFailure s (some (status, s)) :=
  ⟨status, s, rfl, fun _ => rfl⟩

/-- A failure that counts a key. -/
theorem not_keeps_of_size {s' : KeyStorage κ} {status : Status} (hfailed : status.noError = false)
    (hsize : s'.size = s.size + 1) : ¬ KeepsOnFailure s (some (status, s')) := by
  rintro ⟨status', s'', heq, hkeep⟩
  obtain ⟨rfl, rfl⟩ : status = status' ∧ s' = s'' := by simpa using heq
  rw [hkeep hfailed] at hsize
  simp at hsize

theorem not_keeps_none : ¬ KeepsOnFailure s none := by
  rintro ⟨status, s', heq, -⟩
  cases heq

/-- Behind the last element of the bucket. -/
theorem last_iff {bucket : UInt8} {status : Status} {a : Nat} {sameAsn : Bool}
    {n : Node (KeyElement κ)} (hn : s.heap a = some n) :
    KeepsOnFailure s (storeAt env s key convert bucket status (.last a sameAsn)) ↔
      slotAtomic env s key convert (.last a sameAsn) = true := by
  have hlinked (elem : KeyElement κ) (status' : Status)
      (call : createElement env key convert s.isPrivate = (some elem, status')) :
      ∃ s', s'.size = s.size + 1 ∧
        storeAt env s key convert bucket status (.last a sameAsn) = some (status', s') := by
    refine ⟨_, ?_, by simp only [storeAt, hn, call, Option.bind_eq_bind, Option.bind_some]; rfl⟩
    rfl
  cases created env s key convert with
  | made elem status' call clean can load =>
    obtain ⟨s', -, hstore⟩ := hlinked elem status' call
    rw [hstore]
    exact iff_of_true (keeps_of_clean clean) (by simp [slotAtomic, can])
  | unloaded elem status' call failed cannot load =>
    obtain ⟨s', hsize, hstore⟩ := hlinked elem status' call
    rw [hstore]
    exact iff_of_false (not_keeps_of_size failed hsize) (by simp [slotAtomic, cannot, load])
  | unconverted status' call failed cannot load =>
    cases sameAsn with
    | true =>
      have hstore : storeAt env s key convert bucket status (.last a true) = some (status', s) := by
        simp [storeAt, hn, call]
      rw [hstore]
      exact iff_of_true (keeps_same status') (by simp [slotAtomic, load])
    | false =>
      -- The code follows the new element, which is NULL.
      have hstore : storeAt env s key convert bucket status (.last a false) = none := by
        simp [storeAt, hn, call]
      rw [hstore]
      exact iff_of_false not_keeps_none (by simp [slotAtomic, cannot])

/-- Before an element. -/
theorem before_iff {bucket : UInt8} {status : Status} {a : Nat} {n : Node (KeyElement κ)}
    (hn : s.heap a = some n) :
    KeepsOnFailure s (storeAt env s key convert bucket status (.before a)) ↔
      slotAtomic env s key convert (.before a) = true := by
  have hlinked (elem : KeyElement κ) (status' : Status)
      (call : createElement env key convert s.isPrivate = (some elem, status')) :
      (n.prev.all (fun p => p == s.fresh || (s.heap p).isSome) = true ∧ ∃ s',
        s'.size = s.size + 1 ∧
        storeAt env s key convert bucket status (.before a) = some (status', s')) ∨
      (n.prev.all (fun p => p == s.fresh || (s.heap p).isSome) = false ∧
        storeAt env s key convert bucket status (.before a) = none) := by
    cases hprev : n.prev with
    | none =>
      refine .inl ⟨rfl, _, ?_, by
        simp only [storeAt, hn, call, hprev, Option.bind_eq_bind, Option.bind_some]; rfl⟩
      rfl
    | some p =>
      let new : Node (KeyElement κ) := ⟨some p, some a, elem⟩
      let heap := (s.heap.write s.fresh new).write a { n with prev := some s.fresh }
      have hstore : storeAt env s key convert bucket status (.before a) =
          (heap.modify p fun m => { m with next := some s.fresh }).map fun heap' =>
            (status', { s.alloc new with heap := heap' }) := by
        rw [Option.map_eq_bind]
        simp only [storeAt, hn, call, hprev, Option.bind_eq_bind, Option.bind_some]
        rfl
      have hheap : (heap p).isSome = (p == s.fresh || (s.heap p).isSome) := by
        by_cases hpa : p = a
        · simp [heap, hpa, hn]
        · rw [show heap p = (s.heap.write s.fresh new) p from Heap.write_of_ne _ _ hpa]
          by_cases hpf : p = s.fresh
          · simp [hpf]
          · simp [Heap.write_of_ne _ _ hpf, hpf]
      rw [Option.all_some, ← hheap, hstore]
      cases hp : heap p with
      | none => exact .inr ⟨rfl, by simp [Heap.modify, hp]⟩
      | some m => exact .inl ⟨rfl, _, rfl, by rw [Heap.modify_eq _ hp]; rfl⟩
  cases created env s key convert with
  | made elem status' call clean can load =>
    rcases hlinked elem status' call with ⟨hprev, s', -, hstore⟩ | ⟨hprev, hstore⟩
    · rw [hstore]
      exact iff_of_true (keeps_of_clean clean) (by simp [slotAtomic, can, hn, hprev])
    · rw [hstore]
      exact iff_of_false not_keeps_none (by simp [slotAtomic, hn, hprev])
  | unloaded elem status' call failed cannot load =>
    rcases hlinked elem status' call with ⟨-, s', hsize, hstore⟩ | ⟨-, hstore⟩
    · rw [hstore]
      exact iff_of_false (not_keeps_of_size failed hsize) (by simp [slotAtomic, cannot])
    · rw [hstore]
      exact iff_of_false not_keeps_none (by simp [slotAtomic, cannot])
  | unconverted status' call failed cannot load =>
    have hstore : storeAt env s key convert bucket status (.before a) = none := by
      simp [storeAt, hn, call]
    rw [hstore]
    exact iff_of_false not_keeps_none (by simp [slotAtomic, cannot])

/-- Into an element. -/
theorem into_iff {bucket : UInt8} {status : Status} {a : Nat} {n : Node (KeyElement κ)}
    (hn : s.heap a = some n) (hstatus : status.noError = (key.algoID == s.algorithmID)) :
    KeepsOnFailure s (storeAt env s key convert bucket status (.into a)) ↔
      slotAtomic env s key convert (.into a) = true := by
  cases hstored : isStored key.bytes n.val.noKeys.toNat n.val.derKey with
  | none =>
    have hstore : storeAt env s key convert bucket status (.into a) = none := by
      simp [storeAt, hn, hstored]
    rw [hstore]
    exact iff_of_false not_keeps_none (by simp [slotAtomic, hn, hstored])
  | some stored =>
    cases stored with
    | true =>
      have hstore : storeAt env s key convert bucket status (.into a) =
          some (status ||| Status.infoUser1, s) := by
        simp [storeAt, hn, hstored]
      rw [hstore]
      exact iff_of_true (keeps_same _) (by simp [slotAtomic, hn, hstored])
    | false =>
      by_cases hroom : n.val.noKeys + 1 = 0 ∨ n.val.ecKey.length < n.val.noKeys.toNat
      · have hstore : storeAt env s key convert bucket status (.into a) = none := by
          simp [storeAt, hn, hstored, hroom]
        rw [hstore]
        refine iff_of_false not_keeps_none ?_
        rcases hroom with hwrap | hshort
        · simp [slotAtomic, hn, hstored, hwrap]
        · simp [slotAtomic, hn, hstored, Nat.not_le.mpr hshort]
      · obtain ⟨hwrap, hlong⟩ := not_or.mp hroom
        have hslot : slotAtomic env s key convert (.into a) =
            (key.algoID == s.algorithmID && convertsCleanly env s.isPrivate key) := by
          simp [slotAtomic, hn, hstored, bne_iff_ne.mpr hwrap, Nat.not_lt.mp hlong]
        -- The key is kept and counted, whatever the status says.
        obtain ⟨status', s', hstore, hsize, hclean⟩ : ∃ status' s',
            storeAt env s key convert bucket status (.into a) = some (status', s') ∧
            s'.size = s.size + 1 ∧
            status'.noError = (key.algoID == s.algorithmID && convertsCleanly env s.isPrivate key) := by
          cases hconv : env.convertKey s.isPrivate key.bytes with
          | ok ec =>
            refine ⟨status, _, by simp [storeAt, hn, hstored, hroom, hconv]; rfl, rfl, ?_⟩
            simp [hstatus, convertsCleanly, hconv]
          | error err =>
            refine ⟨status ||| err, _, by simp [storeAt, hn, hstored, hroom, hconv]; rfl, rfl, ?_⟩
            simp [noError_or, hstatus, convertsCleanly, hconv]
        rw [hstore, hslot, ← hclean]
        cases hfailed : status'.noError with
        | true => exact iff_of_true (keeps_of_clean hfailed) rfl
        | false => exact iff_of_false (not_keeps_of_size hfailed hsize) (by simp)

/-- At any slot the walk ends in. -/
theorem storeAt_iff {bucket : UInt8} {status : Status} {slot : Slot}
    (hfind : ∃ n, s.heap (slotAddr slot) = some n)
    (hstatus : status.noError = (key.algoID == s.algorithmID)) :
    KeepsOnFailure s (storeAt env s key convert bucket status slot) ↔
      slotAtomic env s key convert slot = true := by
  obtain ⟨n, hn⟩ := hfind
  cases slot with
  | last a sameAsn => exact last_iff hn
  | before a => exact before_iff hn
  | into a => exact into_iff hn hstatus

/-- The call is atomic when what it does to the storage is. -/
theorem storesAtomically_map {r : Option (Status × KeyStorage κ)}
    (hcall : storeKey env s key convert = r.map fun x => (x.1.noError, x.1, x.2)) :
    StoresAtomically env s key convert ↔ KeepsOnFailure s r := by
  rw [StoresAtomically, hcall]
  constructor
  · rintro ⟨success, status, s', hr, hkeep⟩
    obtain ⟨⟨status₁, s₁⟩, rfl, heq⟩ := Option.map_eq_some_iff.mp hr
    obtain ⟨rfl, rfl, rfl⟩ : status₁.noError = success ∧ status₁ = status ∧ s₁ = s' := by
      simpa using heq
    exact ⟨status₁, s₁, rfl, hkeep⟩
  · rintro ⟨status, s', rfl, hkeep⟩
    exact ⟨status.noError, status, s', rfl, hkeep⟩

/-- The status that a key of another algorithm gives. -/
def algoStatus (s : KeyStorage κ) (key : BgpsecKey) : Status :=
  if key.algoID = s.algorithmID then Status.ok else Status.errUser1

theorem noError_algoStatus : (algoStatus s key).noError = (key.algoID == s.algorithmID) := by
  unfold algoStatus
  split
  · next heq => rw [heq, beq_self_eq_true, Status.noError]; rfl
  · next hne => rw [beq_false_of_ne hne, Status.noError]; rfl

theorem storeKey_slot {a : Nat} {slot : Slot} (hhead : s.head (bucketOf s key) = some a)
    (hslot : findSlot s.heap key.asn key.ski s.fresh a = some slot) :
    storeKey env s key convert =
      (storeAt env s key convert (bucketOf s key) (algoStatus s key) slot).map
        fun x => (x.1.noError, x.1, x.2) := by
  rw [Option.map_eq_bind]
  by_cases halgo : key.algoID = s.algorithmID
  · simp only [bucketOf, if_pos halgo] at hhead ⊢
    simp only [storeKey, algoStatus, if_pos halgo, hhead, hslot, Option.bind_eq_bind,
      Option.bind_some]
    rfl
  · simp only [bucketOf, if_neg halgo] at hhead ⊢
    simp only [storeKey, algoStatus, if_neg halgo, hhead, hslot, Option.bind_eq_bind,
      Option.bind_some]
    rfl

theorem storeKey_lost {a : Nat} (hhead : s.head (bucketOf s key) = some a)
    (hslot : findSlot s.heap key.asn key.ski s.fresh a = none) :
    storeKey env s key convert = none := by
  by_cases halgo : key.algoID = s.algorithmID
  · simp only [bucketOf, if_pos halgo] at hhead
    simp [storeKey, halgo, hhead, hslot]
  · simp only [bucketOf, if_neg halgo] at hhead
    simp [storeKey, halgo, hhead, hslot]

/-- The new element becomes the bucket, or the bucket stays empty. -/
theorem storeKey_empty (hhead : s.head (bucketOf s key) = none) :
    storeKey env s key convert =
      (some (match createElement env key convert s.isPrivate with
        | (some elem, status) => (status, { s.alloc ⟨none, none, elem⟩ with
            head := Function.update s.head (bucketOf s key) (some s.fresh) })
        | (none, status) => (status, s))).map fun x => (x.1.noError, x.1, x.2) := by
  by_cases halgo : key.algoID = s.algorithmID
  · simp only [bucketOf, if_pos halgo] at hhead ⊢
    simp only [storeKey, if_pos halgo, hhead]
    generalize createElement env key convert s.isPrivate = made
    match made with
    | (some elem, status) => rfl
    | (none, status) => rfl
  · simp only [bucketOf, if_neg halgo] at hhead ⊢
    simp only [storeKey, if_neg halgo, hhead]
    generalize createElement env key convert s.isPrivate = made
    match made with
    | (some elem, status) => rfl
    | (none, status) => rfl

/-- In an empty bucket. -/
theorem empty_iff (hhead : s.head (bucketOf s key) = none) :
    StoresAtomically env s key convert ↔ loadable env s.isPrivate key convert = true := by
  rw [storesAtomically_map (storeKey_empty hhead)]
  cases created env s key convert with
  | made elem status call clean can load =>
    rw [call]
    exact iff_of_true (keeps_of_clean clean) load
  | unloaded elem status call failed cannot load =>
    rw [call]
    exact iff_of_false (not_keeps_of_size failed rfl) (by simp [load])
  | unconverted status call failed cannot load =>
    rw [call]
    exact iff_of_true (keeps_same status) load

end StoreAtomicLemmas

open StoreAtomicLemmas

/-- When storing a key is atomic, for every storage, key and conversion. -/
theorem storeKey_atomic_iff (env : KeyEnv κ) (s : KeyStorage κ) (key : BgpsecKey)
    (convert : Bool) :
    StoresAtomically env s key convert ↔ storeAtomic env s key convert = true := by
  cases hhead : s.head (bucketOf s key) with
  | none => rw [empty_iff hhead, storeAtomic, hhead]
  | some a =>
    cases hslot : findSlot s.heap key.asn key.ski s.fresh a with
    | none =>
      rw [StoresAtomically, storeKey_lost hhead hslot]
      simp [storeAtomic, hhead, hslot]
    | some slot =>
      rw [storesAtomically_map (storeKey_slot hhead hslot),
        storeAt_iff (findSlot_heap hslot) noError_algoStatus]
      simp [storeAtomic, hhead, hslot]

/-- Keys are their own OpenSSL form, apart from one that has none. -/
def pickyKeys : KeyEnv Bytes :=
  ⟨fun _ data => if data = [2] then .error Status.errInvalidKey else .ok data, fun _ _ => none⟩

/-- A key that cannot be converted joins another one under its SKI. -/
theorem failed_conversion_is_kept :
    ¬ ∀ s : KeyStorage Bytes, storeKey pickyKeys (initStorage 1 false) (sampleKey 1) true =
      some (true, Status.ok, s) → StoresAtomically pickyKeys s (sampleKey 2) true := by
  intro hall
  obtain ⟨s, s', hfirst, hsecond, hsize, hsize'⟩ : ∃ s s',
      storeKey pickyKeys (initStorage 1 false) (sampleKey 1) true = some (true, Status.ok, s) ∧
      storeKey pickyKeys s (sampleKey 2) true = some (false, Status.errInvalidKey, s') ∧
      s.size = 1 ∧ s'.size = 2 := ⟨_, _, rfl, rfl, rfl, rfl⟩
  obtain ⟨success, status, s'', hcall, hkeep⟩ := hall s hfirst
  obtain ⟨rfl, -, rfl⟩ : false = success ∧ Status.errInvalidKey = status ∧ s' = s'' := by
    simpa using hsecond.symm.trans hcall
  rw [hkeep rfl, hsize] at hsize'
  exact absurd hsize' (by decide)

end SrxSuite.Crypto

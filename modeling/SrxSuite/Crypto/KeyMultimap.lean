import SrxSuite.Crypto.KeyStorage

/-!
# The key storage is a multimap

`Multimap` is the abstract key storage: the keys kept for every ASN and SKI. `Rep` relates a
storage to the element lists of its buckets. The results:
1. `storeKey_refines`, `delKey_refines`: a call that meets `storeOk` or `deleteOk` keeps the
   lists and does on the multimap what the caller is told.
2. `keyStorage_is_multimap`: the same over whole runs.
3. The runs that show why the conditions are needed.
-/

namespace SrxSuite.Crypto

open LinkedList

variable {κ : Type}

/-! ## The abstract storage -/

/-- The keys kept for every ASN and SKI. -/
abbrev Multimap := UInt32 → Ski → List BgpsecKey

/-- Replace the keys of one ASN and SKI. -/
def Multimap.set (m : Multimap) (asn : UInt32) (ski : Ski) (keys : List BgpsecKey) : Multimap :=
  fun asn' ski' => if asn' = asn ∧ ski' = ski then keys else m asn' ski'

/-- The key as it is kept: a key without data is loaded from the vault when it has to be
converted. -/
def keptKey (env : KeyEnv κ) (key : BgpsecKey) (convert isPrivate : Bool) : BgpsecKey :=
  let der := cloneKey key
  if convert ∧ der.keyData = none then
    match env.loadKey der isPrivate with
    | some data => { der with keyData := some data }
    | none => der
  else der

/-- A call that reports success adds the key, unless it is there. -/
def Multimap.store (m : Multimap) (env : KeyEnv κ) (isPrivate : Bool) (key : BgpsecKey)
    (convert success : Bool) : Multimap :=
  if success ∧ ∀ k ∈ m key.asn key.ski, k.bytes ≠ key.bytes then
    m.set key.asn key.ski (m key.asn key.ski ++ [keptKey env key convert isPrivate])
  else m

/-- A deletion removes the key with the given data, or all keys when no data is given. -/
def Multimap.delete (m : Multimap) (algorithmID : UInt8) (key : BgpsecKey) : Multimap :=
  if key.algoID = algorithmID then
    m.set key.asn key.ski <| match key.keyData with
      | some data => (m key.asn key.ski).filter fun k => k.bytes ≠ data
      | none => []
  else m

/-! ## Runs -/

/-- A call of `ks_storeKey` or `ks_delKey`. -/
inductive KeyOp
  | store (key : BgpsecKey) (convert : Bool)
  | delete (key : BgpsecKey)

/-- One call on the storage, and what its caller may conclude. -/
def stepKey (env : KeyEnv κ) (s : KeyStorage κ) (m : Multimap) :
    KeyOp → Option (KeyStorage κ × Multimap)
  | .store key convert => do
    let (success, _, s') ← storeKey env s key convert
    some (s', m.store env s.isPrivate key convert success)
  | .delete key => do
    let s' ← delKey s key
    some (s', m.delete s.algorithmID key)

/-- A sequence of calls. -/
def runKeys (env : KeyEnv κ) :
    KeyStorage κ → Multimap → List KeyOp → Option (KeyStorage κ × Multimap)
  | s, m, [] => some (s, m)
  | s, m, op :: ops => do
    let (s, m) ← stepKey env s m op
    runKeys env s m ops

/-- The condition under which `ks_storeKey` keeps the storage in order: the key has the
algorithm of the storage and the size does not overflow; an element is created without an
error, and not behind an element of the same ASN; a key that joins others under its SKI has
data, which can be converted. -/
def storeOk (env : KeyEnv κ) (s : KeyStorage κ) (key : BgpsecKey) (convert : Bool) : Bool :=
  let created := createElement env key convert s.isPrivate
  key.algoID == s.algorithmID && s.size + 1 != 0 &&
    match s.head (getBucket key.asn) with
    | none => created.1.isNone || created.2.noError
    | some a =>
      match findSlot s.heap key.asn key.ski s.fresh a with
      | some (.last _ true) => created.1.isNone
      | some (.last _ false) => created.1.isSome && created.2.noError
      | some (.before _) => created.1.isSome && created.2.noError
      | some (.into b) =>
        match s.heap b with
        | some n =>
          isStored key.bytes n.val.noKeys.toNat n.val.derKey == some true ||
            ((cloneKey key).keyData.isSome && (env.convertKey s.isPrivate key.bytes).isOk &&
              n.val.noKeys + 1 != 0)
        | none => false
      | none => false

/-- The condition under which `ks_delKey` keeps the storage in order: nothing is deleted; or
the only key of an element that is not in the middle of its list; or the second of two
keys. -/
def deleteOk (s : KeyStorage κ) (key : BgpsecKey) : Bool :=
  key.algoID != s.algorithmID ||
    match s.find key.asn key.ski with
    | some none => true
    | some (some a) =>
      match s.heap a, key.keyData with
      | some n, some data =>
        isStored data n.val.noKeys.toNat n.val.derKey == some false ||
          (n.val.noKeys == 1 && (n.prev.isNone || n.next.isNone)) ||
          (n.val.noKeys == 2 && isStored data 1 n.val.derKey == some false)
      | _, _ => false
    | none => false

def stepOk (env : KeyEnv κ) (s : KeyStorage κ) : KeyOp → Bool
  | .store key convert => storeOk env s key convert
  | .delete key => deleteOk s key

/-- Every call of a run meets its condition in the state before it. -/
def runOk (env : KeyEnv κ) : KeyStorage κ → Multimap → List KeyOp → Bool
  | _, _, [] => true
  | s, m, op :: ops =>
    stepOk env s op &&
      match stepKey env s m op with
      | some (s', m') => runOk env s' m' ops
      | none => true

/-! ## The representation -/

/-- The keys an element holds, with the OpenSSL keys converted so far. -/
structure KeyElement.Holds (env : KeyEnv κ) (isPrivate : Bool) (e : KeyElement κ)
    (keys : List BgpsecKey) : Prop where
  nonempty : keys ≠ []
  derKey : e.derKey = keys.map some
  noKeys : e.noKeys.toNat = keys.length
  ecKey : List.Forall₂ (fun ec key => ∀ k, ec = some k →
    env.convertKey isPrivate key.bytes = .ok k) e.ecKey keys

/-- The keys in the array of an element. -/
def KeyElement.keys (e : KeyElement κ) : List BgpsecKey := e.derKey.filterMap id

/-- A well-formed list of one bucket: distinct addresses, ordered by ASN, one element for
each ASN and SKI. -/
structure BucketOk (env : KeyEnv κ) (isPrivate : Bool) (bucket : UInt8) (fresh : Nat)
    (l : List (Nat × KeyElement κ)) : Prop where
  nodup : (addrs l).Nodup
  bound : ∀ a ∈ addrs l, a < fresh
  bucket : ∀ x ∈ l, getBucket x.2.asn = bucket
  sorted : l.Pairwise fun x y => x.2.asn ≤ y.2.asn
  distinct : l.Pairwise fun x y => ¬ (x.2.asn = y.2.asn ∧ x.2.ski = y.2.ski)
  keys : ∀ x ∈ l, x.2.Holds env isPrivate x.2.keys

/-- The number of keys in a list of elements. -/
def keyCount (l : List (Nat × KeyElement κ)) : Nat := (l.map fun x => x.2.noKeys.toNat).sum

/-- The storage with its buckets spelled out: every bucket is a doubly linked list ordered by
ASN, and `size` is the sum of the `noKeys`. -/
structure Rep (env : KeyEnv κ) (s : KeyStorage κ) (L : UInt8 → List (Nat × KeyElement κ)) :
    Prop where
  linked : ∀ b, ∃ last, Seg s.heap none (s.head b) (L b) last none
  buckets : ∀ b, BucketOk env s.isPrivate b s.fresh (L b)
  size : s.size.toNat = ∑ b, keyCount (L b)

/-- Is this the element of an ASN and SKI? -/
def isFor (asn : UInt32) (ski : Ski) (x : Nat × KeyElement κ) : Bool :=
  x.2.asn == asn && x.2.ski == ski

/-- The keys of an ASN and SKI in a list of elements. -/
def lookup (l : List (Nat × KeyElement κ)) (asn : UInt32) (ski : Ski) : List BgpsecKey :=
  match l.find? (isFor asn ski) with
  | some x => x.2.keys
  | none => []

namespace KeyLemmas

variable {env : KeyEnv κ} {s s' : KeyStorage κ} {L : UInt8 → List (Nat × KeyElement κ)}
  {l l₁ l₂ : List (Nat × KeyElement κ)} {asn : UInt32} {ski : Ski} {h : Heap (KeyElement κ)}
  {back start last : Option Nat}

@[simp] theorem isFor_eq_true {x : Nat × KeyElement κ} :
    isFor asn ski x = true ↔ x.2.asn = asn ∧ x.2.ski = ski := by
  simp [isFor]

theorem isFor_of_ne {x : Nat × KeyElement κ} (hne : x.2.asn ≠ asn) : isFor asn ski x = false := by
  simp [isFor, hne]

/-! ## Walks -/

theorem findElement_eq (hseg : Seg h back start l last none)
    (hsorted : l.Pairwise fun x y => x.2.asn ≤ y.2.asn) {fuel : Nat} (hfuel : l.length ≤ fuel) :
    findElement h asn ski fuel start = some ((l.find? (isFor asn ski)).map Prod.fst) := by
  induction l generalizing back start fuel with
  | nil =>
    obtain ⟨-, rfl⟩ := hseg
    cases fuel <;> rfl
  | cons x l ih =>
    obtain ⟨a, v⟩ := x
    obtain ⟨rfl, next, hn, htail⟩ := hseg
    obtain ⟨hle, hrest⟩ := List.pairwise_cons.mp hsorted
    obtain ⟨fuel, rfl⟩ : ∃ f, fuel = f + 1 := ⟨fuel - 1, by simp at hfuel; omega⟩
    have hnext := ih htail hrest (by simpa using hfuel)
    simp only [findElement, hn]
    by_cases h1 : v.asn < asn
    · have hx : isFor asn ski (a, v) = false := isFor_of_ne (UInt32.ne_of_lt h1)
      rw [if_pos h1, hnext, List.find?_cons, hx]
    · by_cases h2 : asn < v.asn
      · -- The rest of the list has larger numbers, so nothing is missed.
        have hnone : ((a, v) :: l).find? (isFor asn ski) = none := by
          rw [List.find?_eq_none]
          intro y hy
          have hlt : asn < y.2.asn := by
            rcases List.mem_cons.mp hy with rfl | hy
            · exact h2
            · exact UInt32.lt_of_lt_of_le h2 (hle y hy)
          simp [isFor_of_ne (UInt32.ne_of_lt hlt).symm]
        rw [if_neg h1, if_pos h2, hnone, Option.map_none]
      · have heq : v.asn = asn :=
          UInt32.le_antisymm (UInt32.not_lt.mp h2) (UInt32.not_lt.mp h1)
        by_cases h3 : v.ski = ski
        · simp [isFor, heq, h3]
        · simp [isFor, heq, h3, hnext]

/-- What the slot found by `ks_storeKey` says about the list. -/
def SlotIn (asn : UInt32) (ski : Ski) (l : List (Nat × KeyElement κ)) : Slot → Prop
  | .last a sameAsn => ∃ l' v, l = l' ++ [(a, v)] ∧ (∀ x ∈ l, isFor asn ski x = false) ∧
      if sameAsn then v.asn = asn else ∀ x ∈ l, x.2.asn < asn
  | .before a => ∃ l₁ v l₂, l = l₁ ++ (a, v) :: l₂ ∧ asn < v.asn ∧
      ∀ x ∈ l₁, x.2.asn ≤ asn ∧ isFor asn ski x = false
  | .into a => ∃ l₁ v l₂, l = l₁ ++ (a, v) :: l₂ ∧ v.asn = asn ∧ v.ski = ski ∧
      ∀ x ∈ l₁, isFor asn ski x = false

/-- An element in front that the walk passes. -/
theorem SlotIn.cons {slot : Slot} {x : Nat × KeyElement κ} (hslot : SlotIn asn ski l slot)
    (hx : isFor asn ski x = false) (hle : x.2.asn ≤ asn)
    (hsame : ∀ y ∈ l, x.2.asn ≤ y.2.asn) : SlotIn asn ski (x :: l) slot := by
  cases slot with
  | last a sameAsn =>
    obtain ⟨l', v, rfl, hne, hasn⟩ := hslot
    refine ⟨x :: l', v, rfl, List.forall_mem_cons.mpr ⟨hx, hne⟩, ?_⟩
    cases sameAsn with
    | true => exact hasn
    | false =>
      have hv := hasn (a, v) (by simp)
      exact List.forall_mem_cons.mpr
        ⟨UInt32.lt_of_le_of_lt (hsame (a, v) (by simp)) hv, hasn⟩
  | before a =>
    obtain ⟨l₁, v, l₂, rfl, hlt, hne⟩ := hslot
    exact ⟨x :: l₁, v, l₂, rfl, hlt, List.forall_mem_cons.mpr ⟨⟨hle, hx⟩, hne⟩⟩
  | into a =>
    obtain ⟨l₁, v, l₂, rfl, hasn, hski, hne⟩ := hslot
    exact ⟨x :: l₁, v, l₂, rfl, hasn, hski, List.forall_mem_cons.mpr ⟨hx, hne⟩⟩

theorem findSlot_eq (asn : UInt32) (ski : Ski) {a : Nat} (hseg : Seg h back (some a) l last none)
    (hsorted : l.Pairwise fun x y => x.2.asn ≤ y.2.asn) {fuel : Nat} (hfuel : l.length ≤ fuel) :
    ∃ slot, findSlot h asn ski fuel a = some slot ∧ SlotIn asn ski l slot := by
  induction l generalizing back a fuel with
  | nil => simp [Seg] at hseg
  | cons x l ih =>
    obtain ⟨b, v⟩ := x
    obtain ⟨hab, next, hn, htail⟩ := hseg
    obtain rfl : a = b := Option.some.inj hab
    obtain ⟨hle, hrest⟩ := List.pairwise_cons.mp hsorted
    obtain ⟨fuel, rfl⟩ : ∃ f, fuel = f + 1 := ⟨fuel - 1, by simp at hfuel; omega⟩
    have hfuel' : l.length ≤ fuel := by simpa using hfuel
    simp only [findSlot, hn]
    by_cases h1 : v.asn < asn
    · have hx : isFor asn ski (a, v) = false := isFor_of_ne (UInt32.ne_of_lt h1)
      rw [if_pos h1]
      cases next with
      | some c =>
        obtain ⟨slot, hslot, hin⟩ := ih htail hrest hfuel'
        exact ⟨slot, hslot, hin.cons hx (UInt32.le_of_lt h1) hle⟩
      | none =>
        cases l with
        | nil => exact ⟨_, rfl, [], v, rfl, by simpa using hx, by simpa using h1⟩
        | cons y l => simp [Seg] at htail
    · by_cases h2 : asn < v.asn
      · rw [if_neg h1, if_pos h2]
        exact ⟨_, rfl, [], v, l, rfl, h2, by simp⟩
      · have heq : v.asn = asn :=
          UInt32.le_antisymm (UInt32.not_lt.mp h2) (UInt32.not_lt.mp h1)
        rw [if_neg h1, if_neg h2]
        by_cases h3 : v.ski = ski
        · rw [if_pos h3]
          exact ⟨_, rfl, [], v, l, rfl, heq, h3, by simp⟩
        · have hx : isFor asn ski (a, v) = false := by simp [isFor, h3]
          rw [if_neg h3]
          cases next with
          | some c =>
            obtain ⟨slot, hslot, hin⟩ := ih htail hrest hfuel'
            exact ⟨slot, hslot, hin.cons hx (heq ▸ UInt32.le_refl _) hle⟩
          | none =>
            cases l with
            | nil => exact ⟨_, rfl, [], v, rfl, by simpa using hx, heq⟩
            | cons y l => simp [Seg] at htail

/-! ## Lookups -/

/-- The lookup in a list with one element for the pair, which is not in front of it. -/
theorem lookup_insert {x : Nat × KeyElement κ}
    (hne : ∀ y ∈ l₁, isFor x.2.asn x.2.ski y = false) :
    lookup (l₁ ++ x :: l₂) asn ski =
      if asn = x.2.asn ∧ ski = x.2.ski then x.2.keys else lookup (l₁ ++ l₂) asn ski := by
  split
  · next heq =>
    obtain ⟨rfl, rfl⟩ := heq
    have hnone : l₁.find? (isFor x.2.asn x.2.ski) = none := by
      rw [List.find?_eq_none]
      intro y hy
      simp [hne y hy]
    simp [lookup, hnone]
  · next hneq =>
    have hx : isFor asn ski x = false := by
      rw [Bool.eq_false_iff, ne_eq, isFor_eq_true]
      exact fun h => hneq ⟨h.1.symm, h.2.symm⟩
    simp [lookup, List.find?_append, hx]

theorem lookup_eq_nil (hne : ∀ y ∈ l, isFor asn ski y = false) : lookup l asn ski = [] := by
  have hnone : l.find? (isFor asn ski) = none := by
    rw [List.find?_eq_none]
    intro y hy
    simp [hne y hy]
  simp [lookup, hnone]

/-! ## Changing one bucket -/

/-- Two buckets have no node in common: the ASN of the node decides. -/
theorem bucket_disjoint (hrep : Rep env s L) {b c : UInt8} {a : Nat} (hb : a ∈ addrs (L b))
    (hc : a ∈ addrs (L c)) : b = c := by
  obtain ⟨lb, hsegb⟩ := hrep.linked b
  obtain ⟨lc, hsegc⟩ := hrep.linked c
  obtain ⟨v, hvb⟩ : ∃ v, (a, v) ∈ L b := by simpa [addrs] using hb
  obtain ⟨w, hwc⟩ : ∃ w, (a, w) ∈ L c := by simpa [addrs] using hc
  obtain ⟨p, n, hv⟩ := hsegb.mem hvb
  obtain ⟨p', n', hw⟩ := hsegc.mem hwc
  obtain rfl : v = w := by
    have := hv.symm.trans hw
    simp at this
    exact this.2.2
  exact ((hrep.buckets b).bucket _ hvb).symm.trans ((hrep.buckets c).bucket _ hwc)

theorem sum_update (L : UInt8 → List (Nat × KeyElement κ)) (b : UInt8)
    (l : List (Nat × KeyElement κ)) :
    ∑ c, keyCount (Function.update L b l c) + keyCount (L b) =
      ∑ c, keyCount (L c) + keyCount l := by
  have hupd : (fun c => keyCount (Function.update L b l c)) =
      Function.update (fun c => keyCount (L c)) b (keyCount l) := by
    funext c
    exact Function.apply_update (fun _ => keyCount) L b l c
  rw [hupd, Finset.sum_update_of_mem (Finset.mem_univ b),
    ← Finset.add_sum_erase Finset.univ (fun c => keyCount (L c)) (Finset.mem_univ b),
    Finset.sdiff_singleton_eq_erase]
  omega

/-- Another list for one bucket, with the nodes of the other buckets left alone. -/
theorem Rep.update (hrep : Rep env s L) {b : UInt8}
    (hpriv : s'.isPrivate = s.isPrivate) (hfresh : s.fresh ≤ s'.fresh)
    (hhead : ∀ c, c ≠ b → s'.head c = s.head c)
    (hheap : ∀ a, a ∉ addrs (L b) → a < s.fresh → s'.heap a = s.heap a)
    (hseg : Seg s'.heap none (s'.head b) l last none)
    (hok : BucketOk env s.isPrivate b s'.fresh l)
    (hsize : s'.size.toNat + keyCount (L b) = s.size.toNat + keyCount l) :
    Rep env s' (Function.update L b l) := by
  refine ⟨fun c => ?_, fun c => ?_, ?_⟩
  · by_cases hc : c = b
    · subst hc
      rw [Function.update_self]
      exact ⟨last, hseg⟩
    · obtain ⟨lc, hc'⟩ := hrep.linked c
      rw [Function.update_of_ne hc, hhead c hc]
      refine ⟨lc, hc'.congr fun a ha => hheap a ?_ ((hrep.buckets c).bound a ha)⟩
      exact fun hb => hc (bucket_disjoint hrep ha hb)
  · by_cases hc : c = b
    · subst hc
      rw [Function.update_self, hpriv]
      exact hok
    · rw [Function.update_of_ne hc, hpriv]
      have hold := hrep.buckets c
      exact { hold with bound := fun a ha => Nat.lt_of_lt_of_le (hold.bound a ha) hfresh }
  · have hsum := sum_update L b l
    have := hrep.size
    omega

/-- What the multimap records is what the lists hold. -/
def Represents (L : UInt8 → List (Nat × KeyElement κ)) (m : Multimap) : Prop :=
  ∀ asn ski, m asn ski = lookup (L (getBucket asn)) asn ski

theorem Represents.set {m : Multimap} {keys : List BgpsecKey} (hm : Represents L m)
    (hl : ∀ asn' ski', lookup l asn' ski' =
      if asn' = asn ∧ ski' = ski then keys else lookup (L (getBucket asn)) asn' ski') :
    Represents (Function.update L (getBucket asn) l) (m.set asn ski keys) := by
  intro asn' ski'
  unfold Multimap.set
  by_cases hb : getBucket asn' = getBucket asn
  · rw [hb, Function.update_self, hl, hm asn' ski', hb]
  · rw [Function.update_of_ne hb, if_neg, hm asn' ski']
    rintro ⟨rfl, -⟩
    exact hb rfl

/-! ## Changing a list -/

section Lists

variable {isPrivate : Bool} {b : UInt8} {fresh : Nat} {x : Nat × KeyElement κ}

theorem mem_middle {y : Nat × KeyElement κ} :
    y ∈ l₁ ++ x :: l₂ ↔ y = x ∨ y ∈ l₁ ++ l₂ :=
  List.perm_middle.mem_iff.trans List.mem_cons

theorem BucketOk.sublist (hok : BucketOk env isPrivate b fresh l) (hsub : l₁.Sublist l) :
    BucketOk env isPrivate b fresh l₁ where
  nodup := hok.nodup.sublist (hsub.map _)
  bound a ha := hok.bound a ((hsub.map _).subset ha)
  bucket x hx := hok.bucket x (hsub.subset hx)
  sorted := hok.sorted.sublist hsub
  distinct := hok.distinct.sublist hsub
  keys x hx := hok.keys x (hsub.subset hx)

/-- A new element between `l₁` and `l₂`. -/
theorem BucketOk.insert (hok : BucketOk env isPrivate b fresh (l₁ ++ l₂)) (haddr : x.1 = fresh)
    (hbucket : getBucket x.2.asn = b) (hkeys : x.2.Holds env isPrivate x.2.keys)
    (hle₁ : ∀ y ∈ l₁, y.2.asn ≤ x.2.asn) (hle₂ : ∀ y ∈ l₂, x.2.asn ≤ y.2.asn)
    (hne : ∀ y ∈ l₁ ++ l₂, isFor x.2.asn x.2.ski y = false) :
    BucketOk env isPrivate b (fresh + 1) (l₁ ++ x :: l₂) where
  nodup := by
    have hnew : x.1 ∉ addrs (l₁ ++ l₂) := fun h => by
      have := hok.bound _ h
      omega
    exact ((List.perm_middle.map Prod.fst).nodup_iff).mpr (List.nodup_cons.mpr ⟨hnew, hok.nodup⟩)
  bound a ha := by
    obtain ⟨y, hy, rfl⟩ := List.mem_map.mp ha
    rcases mem_middle.mp hy with rfl | hy
    · omega
    · exact Nat.lt_succ_of_lt (hok.bound _ (List.mem_map_of_mem hy))
  bucket y hy := by
    rcases mem_middle.mp hy with rfl | hy
    · exact hbucket
    · exact hok.bucket y hy
  sorted := by
    have := hok.sorted
    rw [List.pairwise_append] at this ⊢
    refine ⟨this.1, List.pairwise_cons.mpr ⟨hle₂, this.2.1⟩, ?_⟩
    intro y hy z hz
    rcases List.mem_cons.mp hz with rfl | hz
    · exact hle₁ y hy
    · exact this.2.2 y hy z hz
  distinct := by
    have hdist := hok.distinct
    rw [List.pairwise_append] at hdist ⊢
    refine ⟨hdist.1, List.pairwise_cons.mpr ⟨fun y hy heq => ?_, hdist.2.1⟩, ?_⟩
    · have := hne y (List.mem_append_right _ hy)
      simp [isFor, heq.1, heq.2] at this
    · intro y hy z hz
      rcases List.mem_cons.mp hz with rfl | hz
      · intro heq
        have := hne y (List.mem_append_left _ hy)
        simp [isFor, heq.1, heq.2] at this
      · exact hdist.2.2 y hy z hz
  keys y hy := by
    rcases mem_middle.mp hy with rfl | hy
    · exact hkeys
    · exact hok.keys y hy

/-- No second element for the pair of an element. -/
theorem BucketOk.not_isFor {a : Nat} {v : KeyElement κ}
    (hok : BucketOk env isPrivate b fresh (l₁ ++ (a, v) :: l₂)) :
    ∀ y ∈ l₁ ++ l₂, isFor v.asn v.ski y = false := by
  have hdist := hok.distinct
  rw [List.pairwise_append, List.pairwise_cons] at hdist
  intro y hy
  rw [Bool.eq_false_iff, ne_eq, isFor_eq_true]
  intro heq
  rcases List.mem_append.mp hy with h | h
  · exact hdist.2.2 y h (a, v) List.mem_cons_self heq
  · exact hdist.2.1.1 y h ⟨heq.1.symm, heq.2.symm⟩

/-- Other keys for one element. -/
theorem BucketOk.replace {a : Nat} {v w : KeyElement κ}
    (hok : BucketOk env isPrivate b fresh (l₁ ++ (a, v) :: l₂)) (hasn : w.asn = v.asn)
    (hski : w.ski = v.ski) (hkeys : w.Holds env isPrivate w.keys) :
    BucketOk env isPrivate b fresh (l₁ ++ (a, w) :: l₂) where
  nodup := by simpa [addrs] using hok.nodup
  bound c hc := hok.bound c (by simpa [addrs] using hc)
  bucket y hy := by
    rcases mem_middle.mp hy with rfl | hy
    · exact hasn ▸ hok.bucket (a, v) (by simp)
    · exact hok.bucket y (mem_middle.mpr (.inr hy))
  sorted := by simpa [List.pairwise_append, hasn] using hok.sorted
  distinct := by simpa [List.pairwise_append, hasn, hski] using hok.distinct
  keys y hy := by
    rcases mem_middle.mp hy with rfl | hy
    · exact hkeys
    · exact hok.keys y (mem_middle.mpr (.inr hy))

theorem BucketOk.length_le (hok : BucketOk env isPrivate b fresh l) : l.length ≤ fresh := by
  have hsub : addrs l ⊆ List.range fresh := fun a ha => List.mem_range.mpr (hok.bound a ha)
  simpa [addrs] using (hok.nodup.subperm hsub).length_le

end Lists

/-! ## New elements -/

@[simp] theorem bytes_cloneKey (key : BgpsecKey) : (cloneKey key).bytes = key.bytes := by
  unfold cloneKey
  split
  · next h =>
    rw [List.length_eq_zero_iff.mp h]
    rfl
  · rfl

/-- An element that is created without an error holds the kept key. -/
theorem createElement_some {key : BgpsecKey} {convert isPrivate : Bool} {e : KeyElement κ}
    {status : Status} (hc : createElement env key convert isPrivate = (some e, status))
    (hok : status.noError = true) :
    e.asn = key.asn ∧ e.ski = key.ski ∧ e.noKeys = 1 ∧
      e.keys = [keptKey env key convert isPrivate] ∧ e.Holds env isPrivate e.keys := by
  -- All elements are built alike, from the key and its OpenSSL form.
  have hbuild : ∀ (der : BgpsecKey) (ec : Option κ),
      (∀ k, ec = some k → env.convertKey isPrivate der.bytes = .ok k) →
      e = ⟨key.asn, key.ski, [some der], [ec], 1⟩ → keptKey env key convert isPrivate = der →
      e.asn = key.asn ∧ e.ski = key.ski ∧ e.noKeys = 1 ∧
        e.keys = [keptKey env key convert isPrivate] ∧ e.Holds env isPrivate e.keys := by
    rintro der ec hec rfl hkept
    exact ⟨rfl, rfl, rfl, by simp [KeyElement.keys, hkept],
      ⟨by simp [KeyElement.keys], rfl, rfl, .cons hec .nil⟩⟩
  cases convert with
  | false =>
    simp only [createElement, Bool.false_eq_true, if_false, Prod.mk.injEq,
      Option.some.injEq] at hc
    exact hbuild _ none (by simp) hc.1.symm (by simp [keptKey])
  | true =>
    simp only [createElement, if_true] at hc
    cases hdata : (cloneKey key).keyData with
    | some data =>
      simp only [hdata] at hc
      split at hc
      · next ec hconv =>
        simp only [Prod.mk.injEq, Option.some.injEq] at hc
        refine hbuild _ (some ec) ?_ hc.1.symm (by simp [keptKey, hdata])
        rintro k ⟨⟩
        simpa [BgpsecKey.bytes, hdata] using hconv
      · simp at hc
    | none =>
      simp only [hdata] at hc
      cases hload : env.loadKey (cloneKey key) isPrivate with
      | some data =>
        simp only [hload] at hc
        split at hc
        · next ec hconv =>
          simp only [Prod.mk.injEq, Option.some.injEq] at hc
          refine hbuild _ (some ec) ?_ hc.1.symm (by simp [keptKey, hdata, hload])
          rintro k ⟨⟩
          exact hconv
        · simp at hc
      | none =>
        simp only [hload, hdata, Prod.mk.injEq] at hc
        rw [← hc.2] at hok
        exact absurd hok (by decide)

theorem noError_or_errNoData (status : Status) :
    (status ||| Status.errNoData).noError = false := by
  rw [Bool.eq_false_iff]
  intro h
  simp only [Status.noError, beq_iff_eq] at h
  have hbit := congrArg (fun x : UInt32 => x.toBitVec.getLsbD 16) h
  simp [Status.errNoData] at hbit

/-- Without an element there is an error. -/
theorem createElement_none {key : BgpsecKey} {convert isPrivate : Bool} {status : Status}
    (hc : createElement env key convert isPrivate = (none, status)) :
    status.noError = false := by
  simp only [createElement] at hc
  split at hc
  · split at hc
    · split at hc
      · simp at hc
      · simp only [Prod.mk.injEq, true_and] at hc
        rw [← hc]
        exact noError_or_errNoData _
    · simp at hc
  · simp at hc

theorem isStored_keys (data : Bytes) (keys : List BgpsecKey) :
    isStored data keys.length (keys.map some) = some (keys.any fun k => k.bytes = data) := by
  induction keys with
  | nil => rfl
  | cons key keys ih =>
    simp only [List.length_cons, List.map_cons, isStored, List.any_cons, ih]
    split <;> simp [*]

/-! ## Storing -/

theorem toNat_add_one32 {n : UInt32} (h : n + 1 ≠ 0) : (n + 1).toNat = n.toNat + 1 := by
  have hlt := n.toNat_lt
  have hadd : (n + 1).toNat = (n.toNat + 1) % 2 ^ 32 := UInt32.toNat_add n 1
  have hne : (n + 1).toNat ≠ 0 := fun h0 => h (UInt32.toNat_inj.mp h0)
  omega

theorem toNat_add_one16 {n : UInt16} (h : n + 1 ≠ 0) : (n + 1).toNat = n.toNat + 1 := by
  have hlt := n.toNat_lt
  have hadd : (n + 1).toNat = (n.toNat + 1) % 2 ^ 16 := UInt16.toNat_add n 1
  have hne : (n + 1).toNat ≠ 0 := fun h0 => h (UInt16.toNat_inj.mp h0)
  omega

theorem keyCount_middle (x : Nat × KeyElement κ) :
    keyCount (l₁ ++ x :: l₂) = keyCount (l₁ ++ l₂) + x.2.noKeys.toNat := by
  simp only [keyCount, List.map_append, List.map_cons, List.sum_append, List.sum_cons]
  omega

/-- A bucket list gets a new element between `l₁` and `l₂`. -/
theorem store_insert (s' : KeyStorage κ) (l₁ l₂ : List (Nat × KeyElement κ))
    {key : BgpsecKey} {convert : Bool} {m : Multimap} {e : KeyElement κ}
    {status : Status} (hrep : Rep env s L) (hm : Represents L m)
    (hl : L (getBucket key.asn) = l₁ ++ l₂)
    (hc : createElement env key convert s.isPrivate = (some e, status))
    (hok : status.noError = true) (hsize : s.size + 1 ≠ 0)
    (hle₁ : ∀ y ∈ l₁, y.2.asn ≤ key.asn) (hle₂ : ∀ y ∈ l₂, key.asn ≤ y.2.asn)
    (hne : ∀ y ∈ l₁ ++ l₂, isFor key.asn key.ski y = false)
    (hpriv : s'.isPrivate = s.isPrivate) (hfresh : s'.fresh = s.fresh + 1)
    (hsize' : s'.size = s.size + 1)
    (hhead : ∀ c, c ≠ getBucket key.asn → s'.head c = s.head c)
    (hheap : ∀ a, a ∉ addrs (L (getBucket key.asn)) → a < s.fresh → s'.heap a = s.heap a)
    (hseg : Seg s'.heap none (s'.head (getBucket key.asn)) (l₁ ++ (s.fresh, e) :: l₂) last none) :
    ∃ L', Rep env s' L' ∧ Represents L' (m.store env s.isPrivate key convert true) := by
  obtain ⟨hasn, hski, hcount, hkeys, hholds⟩ := createElement_some hc hok
  have hbucket := hrep.buckets (getBucket key.asn)
  rw [hl] at hbucket
  have hinsert : BucketOk env s.isPrivate (getBucket key.asn) (s.fresh + 1)
      (l₁ ++ (s.fresh, e) :: l₂) :=
    BucketOk.insert hbucket rfl (congrArg getBucket hasn) hholds (hasn.symm ▸ hle₁) (hasn.symm ▸ hle₂)
      (by simpa only [hasn, hski] using hne)
  have hempty : m key.asn key.ski = [] := by rw [hm, hl, lookup_eq_nil hne]
  have hstore : m.store env s.isPrivate key convert true =
      m.set key.asn key.ski [keptKey env key convert s.isPrivate] := by
    simp [Multimap.store, hempty]
  refine ⟨Function.update L (getBucket key.asn) (l₁ ++ (s.fresh, e) :: l₂), ?_, ?_⟩
  · refine Rep.update hrep hpriv (by omega) hhead hheap hseg (hfresh ▸ hinsert) ?_
    rw [hsize', toNat_add_one32 hsize, hl, keyCount_middle, hcount]
    exact Nat.add_right_comm ..
  · rw [hstore]
    refine Represents.set hm fun asn' ski' => ?_
    rw [lookup_insert, hl, hkeys, hasn, hski]
    intro y hy
    rw [hasn, hski]
    exact hne y (List.mem_append_left _ hy)

/-- Another element for the pair: one more key in its arrays. -/
theorem store_into (convert : Bool) {key : BgpsecKey} {m : Multimap} {a : Nat}
    {v : KeyElement κ} {n : Node (KeyElement κ)} {ec : κ} (hrep : Rep env s L)
    (hm : Represents L m) (hl : L (getBucket key.asn) = l₁ ++ (a, v) :: l₂)
    (hasn : v.asn = key.asn) (hski : v.ski = key.ski) (hn : s.heap a = some n)
    (hnew : ∀ k ∈ v.keys, k.bytes ≠ key.bytes) (hdata : (cloneKey key).keyData.isSome = true)
    (hconv : env.convertKey s.isPrivate key.bytes = .ok ec) (hno : v.noKeys + 1 ≠ 0)
    (hsize : s.size + 1 ≠ 0) :
    ∃ L', Rep env { s with
        size := s.size + 1
        heap := s.heap.write a { n with
          val := ⟨v.asn, v.ski, v.derKey ++ [some (cloneKey key)], v.ecKey ++ [some ec],
            v.noKeys + 1⟩ } } L' ∧
      Represents L' (m.store env s.isPrivate key convert true) := by
  have hbucket := hrep.buckets (getBucket key.asn)
  obtain ⟨last, hseg⟩ := hrep.linked (getBucket key.asn)
  rw [hl] at hbucket hseg
  have hv : v.Holds env s.isPrivate v.keys := hbucket.keys (a, v) (by simp)
  obtain ⟨mid, next, -, hmid, -⟩ := hseg.split
  obtain rfl : n = ⟨mid, next, v⟩ := Option.some.inj (hn.symm.trans hmid)
  have hkept : keptKey env key convert s.isPrivate = cloneKey key := by
    rw [keptKey, if_neg]
    intro h
    simp [h.2] at hdata
  have hkeys : (KeyElement.mk v.asn v.ski (v.derKey ++ [some (cloneKey key)])
      (v.ecKey ++ [some ec]) (v.noKeys + 1)).keys = v.keys ++ [cloneKey key] := by
    simp [KeyElement.keys]
  have hlook : m key.asn key.ski = v.keys := by
    rw [hm, hl, ← hasn, ← hski, lookup_insert fun y hy =>
      BucketOk.not_isFor hbucket y (List.mem_append_left _ hy), if_pos ⟨rfl, rfl⟩]
  have hstore : m.store env s.isPrivate key convert true =
      m.set key.asn key.ski (v.keys ++ [cloneKey key]) := by
    rw [Multimap.store, hlook, if_pos ⟨rfl, hnew⟩, hkept]
  have hholds : (KeyElement.mk v.asn v.ski (v.derKey ++ [some (cloneKey key)])
      (v.ecKey ++ [some ec]) (v.noKeys + 1)).Holds env s.isPrivate
        (v.keys ++ [cloneKey key]) := by
    refine ⟨by simp, ?_, ?_, ?_⟩
    · rw [List.map_append, ← hv.derKey, List.map_singleton]
    · rw [toNat_add_one16 hno, hv.noKeys, List.length_append, List.length_singleton]
    · refine List.rel_append hv.ecKey (.cons ?_ .nil)
      rintro k ⟨⟩
      rwa [bytes_cloneKey]
  refine ⟨Function.update L (getBucket key.asn) (l₁ ++ (a, ⟨v.asn, v.ski,
    v.derKey ++ [some (cloneKey key)], v.ecKey ++ [some ec], v.noKeys + 1⟩) :: l₂), ?_, ?_⟩
  · refine Rep.update hrep rfl (Nat.le_refl _) (fun c hc => rfl) ?_
      (hseg.setVal hbucket.nodup hmid) (BucketOk.replace hbucket rfl rfl (hkeys ▸ hholds)) ?_
    · intro b hb _
      refine Heap.write_of_ne _ _ fun heq => hb ?_
      simp [hl, heq]
    · rw [toNat_add_one32 hsize, hl, keyCount_middle, keyCount_middle, toNat_add_one16 hno]
      simp only [Nat.add_assoc, Nat.add_comm, Nat.add_left_comm]
  · rw [hstore]
    refine Represents.set hm fun asn' ski' => ?_
    rw [hl, lookup_insert, lookup_insert, hkeys]
    · simp only [hasn, hski]
      split <;> rfl
    · exact fun y hy => BucketOk.not_isFor hbucket y (List.mem_append_left _ hy)
    · exact fun y hy => BucketOk.not_isFor hbucket y (List.mem_append_left _ hy)

section Store

variable {m : Multimap} {key : BgpsecKey} {convert : Bool} {a : Nat}

/-- A call returns, keeps the lists and does on the multimap what the caller is told. -/
def StoreRefines (env : KeyEnv κ) (s : KeyStorage κ) (m : Multimap) (key : BgpsecKey)
    (convert : Bool) : Prop :=
  ∃ success status s' L', storeKey env s key convert = some (success, status, s') ∧
    Rep env s' L' ∧ Represents L' (m.store env s.isPrivate key convert success) ∧
    s'.isPrivate = s.isPrivate ∧ s'.algorithmID = s.algorithmID

/-- A call that fails and leaves everything as it is. -/
theorem StoreRefines.unchanged (status : Status) (hrep : Rep env s L) (hm : Represents L m)
    (hmap : status.noError = true → ¬ ∀ k ∈ m key.asn key.ski, k.bytes ≠ key.bytes)
    (hcall : storeKey env s key convert = some (status.noError, status, s)) :
    StoreRefines env s m key convert := by
  refine ⟨_, status, s, L, hcall, hrep, ?_, rfl, rfl⟩
  rw [Multimap.store, if_neg fun h => hmap h.1 h.2]
  exact hm

/-- The first element of a bucket. -/
theorem store_empty (hrep : Rep env s L) (hm : Represents L m)
    (halgo : key.algoID = s.algorithmID) (hsize : s.size + 1 ≠ 0)
    (hhead : s.head (getBucket key.asn) = none)
    (hok : (createElement env key convert s.isPrivate).1.isNone = true ∨
      (createElement env key convert s.isPrivate).2.noError = true) :
    StoreRefines env s m key convert := by
  obtain ⟨last, hseg⟩ := hrep.linked (getBucket key.asn)
  have hnil : L (getBucket key.asn) = [] := by
    cases hL : L (getBucket key.asn) with
    | nil => rfl
    | cons x l => simp [hL, hhead, Seg] at hseg
  cases hc : createElement env key convert s.isPrivate with
  | mk elem status =>
    cases elem with
    | none =>
      refine .unchanged status hrep hm (fun h => ?_) ?_
      · simp [createElement_none hc] at h
      · simp [storeKey, halgo, hhead, hc]
    | some e =>
      have herr : status.noError = true := by simpa [hc] using hok
      obtain ⟨L', hrep', hm'⟩ := store_insert { s.alloc ⟨none, none, e⟩ with
          head := Function.update s.head (getBucket key.asn) (some s.fresh) } [] []
        hrep hm hnil hc herr hsize (by simp) (by simp) (by simp)
        rfl rfl rfl (fun c hc => Function.update_of_ne hc _ _)
        (fun b _ hb => Heap.write_of_ne _ _ (by omega))
        ⟨by simp, none, by simp [KeyStorage.alloc], rfl, rfl⟩
      refine ⟨true, status, _, L', ?_, hrep', hm', rfl, rfl⟩
      simp [storeKey, halgo, hhead, hc, herr]

/-- Behind the last element, when that has a smaller ASN. -/
theorem store_last (hrep : Rep env s L) (hm : Represents L m)
    (halgo : key.algoID = s.algorithmID) (hsize : s.size + 1 ≠ 0) {b : Nat}
    (hhead : s.head (getBucket key.asn) = some b)
    (hslot : findSlot s.heap key.asn key.ski s.fresh b = some (.last a false))
    (hin : SlotIn key.asn key.ski (L (getBucket key.asn)) (.last a false))
    (hok : (createElement env key convert s.isPrivate).1.isSome = true ∧
      (createElement env key convert s.isPrivate).2.noError = true) :
    StoreRefines env s m key convert := by
  have hbucket := hrep.buckets (getBucket key.asn)
  obtain ⟨last, hseg⟩ := hrep.linked (getBucket key.asn)
  obtain ⟨l', v, hl, hne, hlt⟩ := hin
  have hfresh : s.fresh ∉ addrs (L (getBucket key.asn)) := fun h =>
    Nat.lt_irrefl _ (hbucket.bound _ h)
  have hne' := hne
  rw [hl] at hseg hfresh hbucket hne
  obtain ⟨mid, next, -, hn, -⟩ := hseg.split
  cases hc : createElement env key convert s.isPrivate with
  | mk elem status =>
    simp only [hc, Option.isSome_iff_exists] at hok
    obtain ⟨⟨e, rfl⟩, herr⟩ := hok
    obtain ⟨L', hrep', hm'⟩ := store_insert
      { s.alloc ⟨some a, none, e⟩ with
        heap := (s.heap.write s.fresh ⟨some a, none, e⟩).write a ⟨mid, some s.fresh, v⟩ }
      (L (getBucket key.asn)) [] hrep hm (by simp) hc herr hsize
      (fun y hy => UInt32.le_of_lt (hlt y hy)) (by simp) (by simpa using hne') rfl rfl rfl
      (fun c _ => rfl)
      (fun c hc hb => (Heap.write_of_ne _ _ fun heq => hc (by simp [hl, heq])).trans
        (Heap.write_of_ne _ _ (Nat.ne_of_lt hb)))
      (by
        rw [hl]
        exact hseg.append_node hbucket.nodup hn hfresh)
    refine ⟨true, status, _, L', ?_, hrep', hm', rfl, rfl⟩
    simp [storeKey, halgo, hhead, hslot, storeAt, hn, hc, herr, KeyStorage.alloc]

/-- Before an element with a larger ASN. -/
theorem store_before (hrep : Rep env s L) (hm : Represents L m)
    (halgo : key.algoID = s.algorithmID) (hsize : s.size + 1 ≠ 0) {b : Nat}
    (hhead : s.head (getBucket key.asn) = some b)
    (hslot : findSlot s.heap key.asn key.ski s.fresh b = some (.before a))
    (hin : SlotIn key.asn key.ski (L (getBucket key.asn)) (.before a))
    (hok : (createElement env key convert s.isPrivate).1.isSome = true ∧
      (createElement env key convert s.isPrivate).2.noError = true) :
    StoreRefines env s m key convert := by
  have hbucket := hrep.buckets (getBucket key.asn)
  obtain ⟨last, hseg⟩ := hrep.linked (getBucket key.asn)
  obtain ⟨l₁, v, l₂, hl, hlt, hle⟩ := hin
  have hfresh : s.fresh ∉ addrs (L (getBucket key.asn)) := fun h =>
    Nat.lt_irrefl _ (hbucket.bound _ h)
  rw [hl] at hseg hfresh hbucket
  -- From the found element on, all elements have larger numbers.
  have hgt : ∀ y ∈ (a, v) :: l₂, key.asn < y.2.asn := by
    intro y hy
    rcases List.mem_cons.mp hy with rfl | hy
    · exact hlt
    · have hsorted := (List.pairwise_append.mp hbucket.sorted).2.1
      exact UInt32.lt_of_lt_of_le hlt ((List.pairwise_cons.mp hsorted).1 y hy)
  have hne : ∀ y ∈ l₁ ++ (a, v) :: l₂, isFor key.asn key.ski y = false := by
    intro y hy
    rcases List.mem_append.mp hy with h | h
    · exact (hle y h).2
    · exact isFor_of_ne (UInt32.ne_of_lt (hgt y h)).symm
  obtain ⟨mid, next, hfront, hn, -⟩ := hseg.split
  cases hc : createElement env key convert s.isPrivate with
  | mk elem status =>
    simp only [hc, Option.isSome_iff_exists] at hok
    obtain ⟨⟨e, rfl⟩, herr⟩ := hok
    rcases hfront.last_eq with ⟨rfl, rfl, -⟩ | ⟨l', p, u, rfl, rfl⟩
    · obtain ⟨L', hrep', hm'⟩ := store_insert
        { s.alloc ⟨none, some a, e⟩ with
          heap := (s.heap.write s.fresh ⟨none, some a, e⟩).write a ⟨some s.fresh, next, v⟩
          head := Function.update s.head (getBucket key.asn) (some s.fresh) }
        [] ((a, v) :: l₂) hrep hm hl hc herr hsize (by simp)
        (fun y hy => UInt32.le_of_lt (hgt y hy)) hne rfl rfl rfl
        (fun c hc => Function.update_of_ne hc _ _)
        (fun c hc hb => (Heap.write_of_ne _ _ fun heq => hc (by simp [hl, heq])).trans
          (Heap.write_of_ne _ _ (Nat.ne_of_lt hb)))
        (by
          dsimp only
          rw [Function.update_self]
          exact hseg.insert_first hbucket.nodup hn hfresh)
      refine ⟨true, status, _, L', ?_, hrep', hm', rfl, rfl⟩
      simp [storeKey, halgo, hhead, hslot, storeAt, hn, hc, herr, KeyStorage.alloc]
    · obtain ⟨p', q', hp⟩ := hfront.mem (a := p) (v := u) (by simp)
      have hpf : p ≠ s.fresh := fun heq => hfresh (by simp [heq])
      have hpa : p ≠ a := fun heq => (not_mem_of_nodup_append hbucket.nodup).1 (by simp [heq])
      have hp' : ((s.heap.write s.fresh ⟨some p, some a, e⟩).write a ⟨some s.fresh, next, v⟩) p =
          some ⟨p', q', u⟩ := by
        rw [Heap.write_of_ne _ _ hpa, Heap.write_of_ne _ _ hpf, hp]
      obtain ⟨L', hrep', hm'⟩ := store_insert
        { s.alloc ⟨some p, some a, e⟩ with
          heap := ((s.heap.write s.fresh ⟨some p, some a, e⟩).write a
            ⟨some s.fresh, next, v⟩).write p ⟨p', some s.fresh, u⟩ }
        (l' ++ [(p, u)]) ((a, v) :: l₂) hrep hm hl hc herr hsize (fun y hy => (hle y hy).1)
        (fun y hy => UInt32.le_of_lt (hgt y hy)) hne rfl rfl rfl (fun c _ => rfl)
        (fun c hc hb => (Heap.write_of_ne _ _ fun heq => hc (by simp [hl, heq])).trans <|
          (Heap.write_of_ne _ _ fun heq => hc (by simp [hl, heq])).trans
            (Heap.write_of_ne _ _ (Nat.ne_of_lt hb)))
        (hseg.insert_between hbucket.nodup hn hp hfresh)
      refine ⟨true, status, _, L', ?_, hrep', hm', rfl, rfl⟩
      simp [storeKey, halgo, hhead, hslot, storeAt, hn, hc, herr, KeyStorage.alloc,
        Heap.modify_eq _ hp']

end Store

/-! ## Deleting -/

section Delete

variable {data : Bytes} {d : DeleteState κ} {fuel idx : Nat}

/-- The loop over keys none of which is the one to delete. -/
theorem deleteLoop_none (ks : List BgpsecKey) (hder : d.derKey = ks.map some) (hec : d.ecKey.length = ks.length)
    (hno : d.noKeys.toNat = ks.length) (hdel : d.deleted = false)
    (hne : ∀ k ∈ ks, k.bytes ≠ data) (hidx : idx + fuel = ks.length) :
    deleteLoop data fuel idx d = some d := by
  induction fuel generalizing idx with
  | zero => rfl
  | succ fuel ih =>
    have hlt : idx < ks.length := by omega
    have hkey : d.derKey[idx]? = some (some ks[idx]) := by simp [hder, hlt]
    have hcell : d.ecKey[idx]? = some (d.ecKey[idx]) := List.getElem?_eq_getElem (by omega)
    rw [deleteLoop, if_pos (hno ▸ hlt)]
    simp only [hdel, hkey, hcell, Bool.false_eq_true, if_false,
      if_neg (hne ks[idx] (List.getElem_mem hlt))]
    exact ih (by omega)

/-- The loop when the key to delete is the last one. -/
theorem deleteLoop_last (ks : List BgpsecKey) {k : BgpsecKey} (hder : d.derKey = (ks ++ [k]).map some)
    (hec : d.ecKey.length = ks.length + 1) (hno : d.noKeys.toNat = ks.length + 1)
    (hdel : d.deleted = false) (hne : ∀ k ∈ ks, k.bytes ≠ data) (hk : k.bytes = data)
    (hidx : idx + fuel = ks.length + 1) (hle : idx ≤ ks.length) :
    deleteLoop data fuel idx d =
      some ⟨ks.map some ++ [none], d.ecKey.set ks.length none, d.noKeys - 1, d.size - 1,
        true⟩ := by
  induction fuel generalizing idx with
  | zero => omega
  | succ fuel ih =>
    have hcell : d.ecKey[idx]? = some (d.ecKey[idx]) := List.getElem?_eq_getElem (by omega)
    rw [deleteLoop, if_pos (by omega)]
    rcases Nat.lt_or_eq_of_le hle with hlt | rfl
    · have hkey : d.derKey[idx]? = some (some ks[idx]) := by
        rw [hder, List.map_append, List.getElem?_append_left (by simpa using hlt)]
        simp [hlt]
      simp only [hdel, hkey, hcell, Bool.false_eq_true, if_false,
        if_neg (hne ks[idx] (List.getElem_mem hlt))]
      exact ih (by omega) (by omega)
    · obtain rfl : fuel = 0 := by omega
      have hkey : d.derKey[ks.length]? = some (some k) := by simp [hder]
      have hset : d.derKey.set ks.length none = ks.map some ++ [none] := by simp [hder]
      simp only [hdel, hkey, hcell, Bool.false_eq_true, if_false, if_pos hk, deleteLoop, hset]

/-- Freeing an element without keys that is not in the middle of its list. -/
theorem freeElement_ends {b : UInt8} {a : Nat} {v : KeyElement κ} {n : Node (KeyElement κ)}
    (hseg : Seg s.heap none (s.head b) (l₁ ++ (a, v) :: l₂) last none)
    (hnd : (addrs (l₁ ++ (a, v) :: l₂)).Nodup) (hn : s.heap a = some n) (hno : v.noKeys = 0)
    (hends : n.prev = none ∨ n.next = none) :
    ∃ head heap last', freeElement s b a = some { s with head := head, heap := heap } ∧
      Seg heap none (head b) (l₁ ++ l₂) last' none ∧ (∀ c, c ≠ b → head c = s.head c) ∧
      ∀ c, c ∉ addrs (l₁ ++ (a, v) :: l₂) → heap c = s.heap c := by
  obtain ⟨mid, next, hfront, hmid, hrest⟩ := hseg.split
  obtain rfl : n = ⟨mid, next, v⟩ := Option.some.inj (hn.symm.trans hmid)
  cases l₂ with
  | nil =>
    obtain ⟨-, rfl⟩ := hrest
    rcases hfront.last_eq with ⟨rfl, rfl, -⟩ | ⟨l', p, u, rfl, rfl⟩
    · refine ⟨Function.update s.head b none, s.heap.free a, none, ?_, ?_, ?_, ?_⟩
      · simp [freeElement, hmid, hno]
      · simp [Seg]
      · exact fun c hc => Function.update_of_ne hc _ _
      · intro c hc
        exact Heap.free_of_ne _ fun heq => hc (by simp [heq])
    · obtain ⟨-, -, m, hm, hseg'⟩ := hseg.unlink_last hnd hmid
      refine ⟨s.head, (s.heap.write p { m with next := none }).free a, some p, ?_, ?_,
        fun _ _ => rfl, ?_⟩
      · simp [freeElement, hmid, hno, Heap.modify_eq _ hm]
      · simpa using hseg'
      · intro c hc
        rw [Heap.free_of_ne _ fun heq => hc (by simp [heq]),
          Heap.write_of_ne _ _ fun heq => hc (by simp [heq])]
  | cons x l₂ =>
    obtain ⟨q, u⟩ := x
    obtain rfl : next = some q := hrest.1
    obtain rfl : mid = none := by simpa using hends
    have hnil : l₁ = [] := by
      rcases hfront.last_eq with ⟨h, -⟩ | ⟨l', p, w, -, h⟩
      · exact h
      · simp at h
    subst hnil
    obtain ⟨-, -, m, hm, hseg'⟩ := hseg.unlink_first hnd hmid
    refine ⟨Function.update s.head b (some q), (s.heap.write q { m with prev := none }).free a,
      last, ?_, ?_, fun c hc => Function.update_of_ne hc _ _, ?_⟩
    · simp [freeElement, hmid, hno, Heap.modify_eq _ hm]
    · simpa using hseg'
    · intro c hc
      rw [Heap.free_of_ne _ fun heq => hc (by simp [heq]),
        Heap.write_of_ne _ _ fun heq => hc (by simp [heq])]

theorem toNat_sub_one32 {n : UInt32} (h : 0 < n.toNat) : (n - 1).toNat = n.toNat - 1 :=
  UInt32.toNat_sub_of_le n 1 (UInt32.le_iff_toNat_le.mpr h)

theorem keyCount_le_size (hrep : Rep env s L) (b : UInt8) : keyCount (L b) ≤ s.size.toNat := by
  rw [hrep.size]
  rw [← Finset.add_sum_erase Finset.univ (fun c => keyCount (L c)) (Finset.mem_univ b)]
  exact Nat.le_add_right _ _

variable {m : Multimap} {key : BgpsecKey} {a : Nat} {v : KeyElement κ} {p q : Option Nat}

/-- The multimap after the deletion of a key of a list element. -/
theorem Represents.delete (ks : List BgpsecKey) {l' : List (Nat × KeyElement κ)}
    (hm : Represents L m) (hl : L (getBucket key.asn) = l₁ ++ (a, v) :: l₂)
    (hok : BucketOk env s.isPrivate (getBucket key.asn) s.fresh (l₁ ++ (a, v) :: l₂))
    (halgo : key.algoID = s.algorithmID) (hdata : key.keyData = some data)
    (hasn : v.asn = key.asn) (hski : v.ski = key.ski)
    (hks : v.keys.filter (fun k => k.bytes ≠ data) = ks)
    (hl' : ∀ asn' ski', lookup l' asn' ski' =
      if asn' = key.asn ∧ ski' = key.ski then ks else lookup (l₁ ++ l₂) asn' ski') :
    Represents (Function.update L (getBucket key.asn) l') (m.delete s.algorithmID key) := by
  have hne : ∀ y ∈ l₁, isFor v.asn v.ski y = false := fun y hy =>
    BucketOk.not_isFor hok y (List.mem_append_left _ hy)
  have hlook : m key.asn key.ski = v.keys := by
    rw [hm, hl, ← hasn, ← hski, lookup_insert hne, if_pos ⟨rfl, rfl⟩]
  simp only [Multimap.delete, if_pos halgo, hdata, hlook, hks]
  refine Represents.set hm fun asn' ski' => ?_
  rw [hl', hl, lookup_insert hne, hasn, hski]
  split <;> rfl

/-- Deleting the only key of an element that is not in the middle of its list. -/
theorem delete_only {k : BgpsecKey} (hrep : Rep env s L) (hm : Represents L m)
    (hl : L (getBucket key.asn) = l₁ ++ (a, v) :: l₂) (halgo : key.algoID = s.algorithmID)
    (hdata : key.keyData = some data) (hasn : v.asn = key.asn) (hski : v.ski = key.ski)
    (hfind : s.find key.asn key.ski = some (some a)) (hn : s.heap a = some ⟨p, q, v⟩)
    (hkeys : v.keys = [k]) (hk : k.bytes = data) (hends : p = none ∨ q = none) :
    ∃ s' L', delKey s key = some s' ∧ Rep env s' L' ∧
      Represents L' (m.delete s.algorithmID key) ∧ s'.isPrivate = s.isPrivate ∧
      s'.algorithmID = s.algorithmID := by
  have hbucket := hrep.buckets (getBucket key.asn)
  obtain ⟨last, hseg⟩ := hrep.linked (getBucket key.asn)
  have hcount := keyCount_le_size hrep (getBucket key.asn)
  rw [hl] at hbucket hseg hcount
  have hv : v.Holds env s.isPrivate [k] := hkeys ▸ hbucket.keys (a, v) (by simp)
  have hone : v.noKeys = 1 := UInt16.toNat_inj.mp hv.noKeys
  rw [keyCount_middle, hone] at hcount
  change _ + 1 ≤ _ at hcount
  -- The element has no keys left when it is freed.
  let w : KeyElement κ := ⟨v.asn, v.ski, [none], v.ecKey.set 0 none, v.noKeys - 1⟩
  let s₁ : KeyStorage κ := { s with size := s.size - 1, heap := s.heap.write a ⟨p, q, w⟩ }
  obtain ⟨head, heap, last', hfree, hseg', hhead, hheap⟩ := freeElement_ends (s := s₁)
    (hseg.setVal (w := w) hbucket.nodup hn) (by simpa [addrs] using hbucket.nodup)
    (Heap.write_same _ _ _) (by simp [w, hone]) hends
  have hcall : delKey s key = some { s₁ with head := head, heap := heap } := by
    have hloop : deleteLoop data 1 0 ⟨v.derKey, v.ecKey, v.noKeys, s.size, false⟩ = _ :=
      deleteLoop_last [] hv.derKey hv.ecKey.length_eq hv.noKeys rfl (by simp) hk rfl
        (Nat.le_refl _)
    rw [hone] at hloop
    simp [delKey, halgo, hfind, hn, hdata, hone, hloop, w, s₁] at hfree ⊢
    exact hfree
  refine ⟨_, Function.update L (getBucket key.asn) (l₁ ++ l₂), hcall, ?_, ?_, rfl, rfl⟩
  · refine Rep.update hrep rfl (Nat.le_refl _) hhead (fun c hc _ => ?_) hseg'
      (BucketOk.sublist hbucket (List.Sublist.append_left (List.sublist_cons_self _ _) _)) ?_
    · rw [hl] at hc
      refine (hheap c (by simpa [addrs] using hc)).trans ?_
      exact Heap.write_of_ne _ _ fun heq => hc (by simp [heq])
    · rw [hl, keyCount_middle, hone, toNat_sub_one32 (by omega)]
      change s.size.toNat - 1 + (_ + 1) = _
      omega
  · refine Represents.delete [] hm hl hbucket halgo hdata hasn hski (by simp [hkeys, hk])
      fun asn' ski' => ?_
    split
    · next heq =>
      refine lookup_eq_nil fun y hy => ?_
      rw [heq.1, heq.2, ← hasn, ← hski]
      exact BucketOk.not_isFor hbucket y hy
    · rfl

/-- Deleting the second of two keys. -/
theorem delete_second {k₁ k₂ : BgpsecKey} (hrep : Rep env s L) (hm : Represents L m)
    (hl : L (getBucket key.asn) = l₁ ++ (a, v) :: l₂) (halgo : key.algoID = s.algorithmID)
    (hdata : key.keyData = some data) (hasn : v.asn = key.asn) (hski : v.ski = key.ski)
    (hfind : s.find key.asn key.ski = some (some a)) (hn : s.heap a = some ⟨p, q, v⟩)
    (hkeys : v.keys = [k₁, k₂]) (hk₁ : k₁.bytes ≠ data) (hk₂ : k₂.bytes = data) :
    ∃ s' L', delKey s key = some s' ∧ Rep env s' L' ∧
      Represents L' (m.delete s.algorithmID key) ∧ s'.isPrivate = s.isPrivate ∧
      s'.algorithmID = s.algorithmID := by
  have hbucket := hrep.buckets (getBucket key.asn)
  obtain ⟨last, hseg⟩ := hrep.linked (getBucket key.asn)
  have hcount := keyCount_le_size hrep (getBucket key.asn)
  rw [hl] at hbucket hseg hcount
  have hv : v.Holds env s.isPrivate [k₁, k₂] := hkeys ▸ hbucket.keys (a, v) (by simp)
  have htwo : v.noKeys = 2 := UInt16.toNat_inj.mp hv.noKeys
  rw [keyCount_middle, htwo] at hcount
  change _ + 2 ≤ _ at hcount
  cases hecs : v.ecKey with
  | nil => simpa [hecs] using hv.ecKey.length_eq
  | cons ec ecs =>
  have hec := hv.ecKey
  rw [hecs, List.forall₂_cons] at hec
  -- The room for one key is left, and the first key is in it.
  let w : KeyElement κ := ⟨v.asn, v.ski, [some k₁], [ec], 1⟩
  have hcall : delKey s key =
      some { s with size := s.size - 1, heap := s.heap.write a ⟨p, q, w⟩ } := by
    have hloop : deleteLoop data 2 0 ⟨v.derKey, v.ecKey, v.noKeys, s.size, false⟩ = _ :=
      deleteLoop_last [k₁] hv.derKey hv.ecKey.length_eq hv.noKeys rfl (by simpa using hk₁) hk₂
        rfl (Nat.zero_le _)
    rw [htwo, hecs] at hloop
    simp [delKey, halgo, hfind, hn, hdata, htwo, hecs, hloop, w]
  have hw : w.Holds env s.isPrivate w.keys := ⟨by simp [w, KeyElement.keys], rfl, rfl,
    .cons hec.1 .nil⟩
  refine ⟨_, Function.update L (getBucket key.asn) (l₁ ++ (a, w) :: l₂), hcall, ?_, ?_, rfl, rfl⟩
  · refine Rep.update hrep rfl (Nat.le_refl _) (fun c hc => rfl) (fun c hc _ => ?_)
      (hseg.setVal hbucket.nodup hn) (BucketOk.replace hbucket rfl rfl hw) ?_
    · rw [hl] at hc
      exact Heap.write_of_ne _ _ fun heq => hc (by simp [heq])
    · rw [hl, keyCount_middle, keyCount_middle, htwo, toNat_sub_one32 (by omega)]
      change s.size.toNat - 1 + (_ + 2) = _ + (_ + 1)
      omega
  · refine Represents.delete [k₁] hm hl hbucket halgo hdata hasn hski (by simp [hkeys, hk₁, hk₂])
      fun asn' ski' => ?_
    rw [lookup_insert fun y hy => BucketOk.not_isFor hbucket y (List.mem_append_left _ hy)]
    simp [w, hasn, hski, KeyElement.keys]

end Delete

end KeyLemmas

open KeyLemmas

section Refines

variable {env : KeyEnv κ} {s : KeyStorage κ} {L : UInt8 → List (Nat × KeyElement κ)}
  {m : Multimap} {key : BgpsecKey} {convert : Bool}

/-- `ks_storeKey` under its condition. -/
theorem storeKey_refines (hrep : Rep env s L) (hm : Represents L m)
    (hok : storeOk env s key convert = true) : StoreRefines env s m key convert := by
  have hbucket := hrep.buckets (getBucket key.asn)
  obtain ⟨last, hseg⟩ := hrep.linked (getBucket key.asn)
  simp only [storeOk, Bool.and_eq_true, beq_iff_eq, bne_iff_ne, ne_eq] at hok
  obtain ⟨⟨halgo, hsize⟩, hok⟩ := hok
  cases hhead : s.head (getBucket key.asn) with
  | none =>
    refine store_empty hrep hm halgo hsize hhead ?_
    simpa only [hhead, Bool.or_eq_true] using hok
  | some b =>
    rw [hhead] at hseg
    obtain ⟨slot, hslot, hin⟩ :=
      findSlot_eq key.asn key.ski hseg hbucket.sorted (BucketOk.length_le hbucket)
    simp only [hhead, hslot] at hok
    cases slot with
    | last a sameAsn =>
      cases sameAsn with
      | false => exact store_last hrep hm halgo hsize hhead hslot hin (by simpa using hok)
      | true =>
        -- No element is created, so none is linked.
        cases hc : createElement env key convert s.isPrivate with
        | mk elem status =>
          obtain rfl : elem = none := by simpa [hc] using hok
          refine .unchanged status hrep hm (fun h => ?_) ?_
          · simp [createElement_none hc] at h
          · obtain ⟨l', v, hl, -⟩ := hin
            rw [hl] at hseg
            obtain ⟨mid, next, -, hn, -⟩ := hseg.split
            simp [storeKey, halgo, hhead, hslot, storeAt, hn, hc]
    | before a => exact store_before hrep hm halgo hsize hhead hslot hin (by simpa using hok)
    | into a =>
      obtain ⟨l₁, v, l₂, hl, hasn, hski, hne⟩ := hin
      rw [hl] at hseg hbucket
      obtain ⟨mid, next, -, hn, -⟩ := hseg.split
      have hv : v.Holds env s.isPrivate v.keys := hbucket.keys (a, v) (by simp)
      have hstored := isStored_keys key.bytes v.keys
      rw [← hv.noKeys, ← hv.derKey] at hstored
      have hlook : m key.asn key.ski = v.keys := by
        rw [hm, hl, ← hasn, ← hski, lookup_insert fun y hy =>
          BucketOk.not_isFor hbucket y (List.mem_append_left _ hy), if_pos ⟨rfl, rfl⟩]
      simp only [hn, hstored] at hok
      cases hany : v.keys.any fun k => k.bytes = key.bytes with
      | true =>
        refine .unchanged (Status.ok ||| Status.infoUser1) hrep hm (fun _ hall => ?_) ?_
        · rw [hlook] at hall
          obtain ⟨k, hk, heq⟩ := List.any_eq_true.mp hany
          exact hall k hk (by simpa using heq)
        · simp [storeKey, halgo, hhead, hslot, storeAt, hn, hstored, hany]
      | false =>
        simp only [hany, Bool.or_eq_true, Bool.and_eq_true, bne_iff_ne, ne_eq] at hok
        obtain ⟨⟨hdata, hconv⟩, hno⟩ := hok.resolve_left (by simp)
        cases hec : env.convertKey s.isPrivate key.bytes with
        | error err => simp [hec, Except.isOk, Except.toBool] at hconv
        | ok ec =>
          have hnew : ∀ k ∈ v.keys, k.bytes ≠ key.bytes := by simpa using hany
          obtain ⟨L', hrep', hm'⟩ :=
            store_into convert hrep hm hl hasn hski hn hnew hdata hec hno hsize
          refine ⟨true, Status.ok, _, L', ?_, hrep', hm', rfl, rfl⟩
          have hder : v.derKey.take v.noKeys.toNat = v.derKey := by
            rw [hv.noKeys, hv.derKey, List.take_of_length_le (by simp)]
          have hecs : v.ecKey.take v.noKeys.toNat = v.ecKey := by
            rw [hv.noKeys, List.take_of_length_le (Nat.le_of_eq hv.ecKey.length_eq)]
          have hroom : ¬ v.ecKey.length < v.noKeys.toNat := by
            rw [hv.noKeys, hv.ecKey.length_eq]
            exact Nat.lt_irrefl _
          simp only [storeKey, halgo, hhead, hslot, storeAt, hn, hstored, hany, hno, hec, hder,
            hecs, hroom, or_self, if_true, if_false, Bool.false_eq_true, Option.bind_eq_bind,
            Option.bind_some]
          rfl

/-- A deletion that finds nothing leaves the multimap as it is. -/
theorem Multimap.delete_eq_self (hkeys : match key.keyData with
      | some data => ∀ k ∈ m key.asn key.ski, k.bytes ≠ data
      | none => m key.asn key.ski = []) : m.delete s.algorithmID key = m := by
  unfold Multimap.delete
  split
  · funext asn ski
    unfold Multimap.set
    split
    · next heq =>
      obtain ⟨rfl, rfl⟩ := heq
      cases hdata : key.keyData with
      | some data =>
        simp only [hdata] at hkeys
        exact List.filter_eq_self.mpr fun k hk => by simpa using hkeys k hk
      | none =>
        simp only [hdata] at hkeys
        exact hkeys.symm
    · rfl
  · rfl

/-- `ks_delKey` under its condition. -/
theorem delKey_refines (hrep : Rep env s L) (hm : Represents L m) (hok : deleteOk s key = true) :
    ∃ s' L', delKey s key = some s' ∧ Rep env s' L' ∧
      Represents L' (m.delete s.algorithmID key) ∧ s'.isPrivate = s.isPrivate ∧
      s'.algorithmID = s.algorithmID := by
  have hbucket := hrep.buckets (getBucket key.asn)
  obtain ⟨last, hseg⟩ := hrep.linked (getBucket key.asn)
  by_cases halgo : key.algoID = s.algorithmID
  swap
  · refine ⟨s, L, by simp [delKey, halgo], hrep, ?_, rfl, rfl⟩
    simpa [Multimap.delete, halgo] using hm
  have hfind : s.find key.asn key.ski =
      some (((L (getBucket key.asn)).find? (isFor key.asn key.ski)).map Prod.fst) :=
    findElement_eq hseg hbucket.sorted (BucketOk.length_le hbucket)
  simp only [deleteOk, halgo, bne_self_eq_false, Bool.false_or, hfind] at hok
  cases hx : (L (getBucket key.asn)).find? (isFor key.asn key.ski) with
  | none =>
    have hlook : m key.asn key.ski = [] := by rw [hm, lookup, hx]
    refine ⟨s, L, by simp [delKey, halgo, hfind, hx], hrep, ?_, rfl, rfl⟩
    rwa [Multimap.delete_eq_self]
    split <;> simp [hlook]
  | some x =>
    obtain ⟨a, v⟩ := x
    obtain ⟨hfor, l₁, l₂, hl, -⟩ := List.find?_eq_some_iff_append.mp hx
    obtain ⟨hasn, hski⟩ := isFor_eq_true.mp hfor
    rw [hl] at hseg hbucket
    obtain ⟨mid, next, -, hn, -⟩ := id hseg.split
    have hv : v.Holds env s.isPrivate v.keys := hbucket.keys (a, v) (by simp)
    have hlook : m key.asn key.ski = v.keys := by rw [hm, lookup, hx]
    cases hdata : key.keyData with
    | none => simp [hx, hn, hdata] at hok
    | some data =>
      simp only [hx, hn, hdata, Option.map_some] at hok hfind
      have hstored := isStored_keys data v.keys
      rw [← hv.noKeys, ← hv.derKey] at hstored
      cases hany : v.keys.any fun k => k.bytes = data with
      | false =>
        have hne : ∀ k ∈ v.keys, k.bytes ≠ data := by simpa using hany
        refine ⟨s, L, ?_, hrep, ?_, rfl, rfl⟩
        · have hloop : deleteLoop data v.noKeys.toNat 0
              ⟨v.derKey, v.ecKey, v.noKeys, s.size, false⟩ = _ :=
            deleteLoop_none v.keys hv.derKey hv.ecKey.length_eq hv.noKeys rfl hne
              (by rw [Nat.zero_add, hv.noKeys])
          have hsame : s.heap.write a ⟨mid, next, v⟩ = s.heap := by
            rw [Heap.write, ← hn, Function.update_eq_self]
          simp [delKey, halgo, hfind, hn, hdata, hloop, hsame]
        · rwa [Multimap.delete_eq_self]
          simpa [hdata, hlook] using hne
      | true =>
        obtain ⟨k, hk, hbytes⟩ := List.any_eq_true.mp hany
        simp only [hstored, hany, Bool.or_eq_true, Bool.and_eq_true, beq_iff_eq,
          Option.isNone_iff_eq_none, Option.some.injEq, Bool.true_eq_false, false_or] at hok
        rcases hok with ⟨hone, hends⟩ | ⟨htwo, hfirst⟩
        · have hlen : v.keys.length = 1 := by rw [← hv.noKeys, hone]; rfl
          obtain ⟨k', hkeys⟩ := List.length_eq_one_iff.mp hlen
          obtain rfl : k = k' := by simpa [hkeys] using hk
          exact delete_only hrep hm hl halgo hdata hasn hski hfind hn hkeys (by simpa using hbytes)
            hends
        · have hlen : v.keys.length = 2 := by rw [← hv.noKeys, htwo]; rfl
          obtain ⟨k₁, k₂, hkeys⟩ := List.length_eq_two.mp hlen
          have hne : k₁.bytes ≠ data := by
            rw [hv.derKey, hkeys] at hfirst
            simpa [isStored] using hfirst
          have hk₂ : k₂.bytes = data := by
            rw [hkeys] at hk
            rcases List.mem_cons.mp hk with rfl | hk
            · exact absurd (by simpa using hbytes) hne
            · obtain rfl := List.mem_singleton.mp hk
              simpa using hbytes
          exact delete_second hrep hm hl halgo hdata hasn hski hfind hn hkeys hne hk₂

/-! ## Reading -/

/-- The array entries that `ks_getKey` gives to its caller. -/
def returnedKeys {β : Type} : Option (List (Option β) × UInt16) → List (Option β)
  | some (keys, noKeys) => keys.take noKeys.toNat
  | none => []

/-- The array `ks_getKey` finds holds the recorded keys. -/
theorem find_refines (hrep : Rep env s L) (hm : Represents L m) (asn : UInt32) (ski : Ski) :
    (s.find asn ski = some none ∧ m asn ski = []) ∨
      ∃ l₁ a v l₂ p q, s.find asn ski = some (some a) ∧ s.heap a = some ⟨p, q, v⟩ ∧
        L (getBucket asn) = l₁ ++ (a, v) :: l₂ ∧ m asn ski = v.keys ∧
        v.Holds env s.isPrivate v.keys := by
  have hbucket := hrep.buckets (getBucket asn)
  obtain ⟨last, hseg⟩ := hrep.linked (getBucket asn)
  have hfind : s.find asn ski =
      some (((L (getBucket asn)).find? (isFor asn ski)).map Prod.fst) :=
    findElement_eq hseg hbucket.sorted (BucketOk.length_le hbucket)
  cases hx : (L (getBucket asn)).find? (isFor asn ski) with
  | none => exact .inl ⟨by rw [hfind, hx]; rfl, by rw [hm, lookup, hx]⟩
  | some x =>
    obtain ⟨a, v⟩ := x
    obtain ⟨-, l₁, l₂, hl, -⟩ := List.find?_eq_some_iff_append.mp hx
    obtain ⟨p, q, hn⟩ := hseg.mem (List.mem_of_find?_eq_some hx)
    refine .inr ⟨l₁, a, v, l₂, p, q, by rw [hfind, hx]; rfl, hn, hl, by rw [hm, lookup, hx], ?_⟩
    exact hbucket.keys (a, v) (List.mem_of_find?_eq_some hx)

/-- `ks_getKey` for DER keys. -/
theorem getDerKey_refines (hrep : Rep env s L) (hm : Represents L m) (asn : UInt32) (ski : Ski) :
    ∃ r, getDerKey s ski asn = some r ∧ returnedKeys r = (m asn ski).map some := by
  rcases find_refines hrep hm asn ski with ⟨hfind, hnil⟩ | ⟨-, a, v, -, p, q, hfind, hn, -, hkeys, hv⟩
  · exact ⟨none, by simp [getDerKey, hfind], by simp [returnedKeys, hnil]⟩
  · refine ⟨some (v.derKey, v.noKeys), by simp [getDerKey, hfind, hn], ?_⟩
    rw [returnedKeys, hv.noKeys, hkeys, ← hv.derKey, hv.derKey,
      List.take_of_length_le (by simp)]

/-- The conversion loop gives every key its OpenSSL form, where it has one. -/
theorem loadEcKeys_eq {isPrivate : Bool} {keys : List BgpsecKey} {ecs : List (Option κ)}
    (hec : List.Forall₂ (fun ec key => ∀ k, ec = some k →
      env.convertKey isPrivate key.bytes = .ok k) ecs keys) (status : Status) :
    ∃ status', loadEcKeys env isPrivate keys.length (keys.map some) ecs status =
      some (keys.map fun k => (env.convertKey isPrivate k.bytes).toOption, status') := by
  induction hec generalizing status with
  | nil => exact ⟨status, rfl⟩
  | @cons ec k ecs keys hk hrest ih =>
    cases ec with
    | some ec =>
      obtain ⟨status', hload⟩ := ih status
      exact ⟨status', by simp [loadEcKeys, hload, hk ec rfl, Except.toOption]⟩
    | none =>
      cases hconv : env.convertKey isPrivate k.bytes with
      | ok e =>
        obtain ⟨status', hload⟩ := ih
          (if status &&& Status.errNoData = 0 then status else status ||| Status.errUser1)
        exact ⟨status', by simp [loadEcKeys, hconv, hload]; rfl⟩
      | error err =>
        obtain ⟨status', hload⟩ := ih
          (if (status ||| err) &&& Status.errNoData = 0 then status ||| err
            else status ||| err ||| Status.errUser1)
        exact ⟨status', by simp [loadEcKeys, hconv, hload]; rfl⟩

/-- `ks_getKey` for OpenSSL keys. The keys converted on the way stay in the storage. -/
theorem getEcKey_refines (hrep : Rep env s L) (hm : Represents L m) (asn : UInt32) (ski : Ski) :
    ∃ r status s' L', getEcKey env s ski asn = some (r, status, s') ∧
      (r = none ↔ m asn ski = []) ∧
      (∀ ecKeys noKeys, r = some (ecKeys, noKeys) → noKeys.toNat ≤ ecKeys.length) ∧
      returnedKeys r = (m asn ski).map (fun k => (env.convertKey s.isPrivate k.bytes).toOption) ∧
      Rep env s' L' ∧ Represents L' m ∧ s'.isPrivate = s.isPrivate ∧
      s'.algorithmID = s.algorithmID := by
  rcases find_refines hrep hm asn ski with
    ⟨hfind, hnil⟩ | ⟨l₁, a, v, l₂, p, q, hfind, hn, hl, hkeys, hv⟩
  · exact ⟨none, Status.infoKeyNotFound, s, L, by simp [getEcKey, hfind], by simp [hnil],
      by simp, by simp [returnedKeys, hnil], hrep, hm, rfl, rfl⟩
  · have hbucket := hrep.buckets (getBucket asn)
    obtain ⟨last, hseg⟩ := hrep.linked (getBucket asn)
    rw [hl] at hbucket hseg
    obtain ⟨status, hload⟩ := loadEcKeys_eq hv.ecKey Status.ok
    rw [← hv.noKeys, ← hv.derKey] at hload
    -- Only the array of the OpenSSL keys changes.
    let w : KeyElement κ :=
      { v with ecKey := v.keys.map fun k => (env.convertKey s.isPrivate k.bytes).toOption }
    have hw : w.Holds env s.isPrivate v.keys := by
      refine ⟨hv.nonempty, hv.derKey, hv.noKeys, ?_⟩
      rw [List.forall₂_map_left_iff]
      refine List.forall₂_same.mpr fun k _ e he => ?_
      cases hconv : env.convertKey s.isPrivate k.bytes with
      | ok e' =>
        rw [hconv] at he
        exact congrArg _ (Option.some.inj he)
      | error err => simp [hconv, Except.toOption] at he
    refine ⟨some (w.ecKey, v.noKeys), status, { s with heap := s.heap.write a ⟨p, q, w⟩ },
      Function.update L (getBucket asn) (l₁ ++ (a, w) :: l₂), ?_, ?_, ?_, ?_, ?_, ?_, rfl, rfl⟩
    · simp [getEcKey, hfind, hn, hload, w]
    · simp [hkeys, hv.nonempty]
    · rintro ecKeys noKeys ⟨⟩
      simp [w, hv.noKeys]
    · rw [returnedKeys, hv.noKeys, hkeys, List.take_of_length_le (by simp [w])]
    · refine Rep.update hrep rfl (Nat.le_refl _) (fun c hc => rfl) (fun c hc _ => ?_)
        (hseg.setVal hbucket.nodup hn) (BucketOk.replace hbucket rfl rfl hw) ?_
      · exact Heap.write_of_ne _ _ fun heq => hc (by simp [hl, heq])
      · rw [hl, keyCount_middle, keyCount_middle]
    · intro asn' ski'
      by_cases hb : getBucket asn' = getBucket asn
      · have hne : ∀ y ∈ l₁, isFor v.asn v.ski y = false := fun y hy =>
          BucketOk.not_isFor hbucket y (List.mem_append_left _ hy)
        rw [hb, Function.update_self, hm, hb, hl, lookup_insert hne, lookup_insert hne]
        rfl
      · rw [Function.update_of_ne hb, hm]

end Refines

/-! ## Runs -/

namespace KeyLemmas

variable {env : KeyEnv κ} {s : KeyStorage κ} {L : UInt8 → List (Nat × KeyElement κ)}
  {m : Multimap}

theorem stepKey_refines {op : KeyOp} (hrep : Rep env s L) (hm : Represents L m)
    (hok : stepOk env s op = true) :
    ∃ s' m' L', stepKey env s m op = some (s', m') ∧ Rep env s' L' ∧ Represents L' m' := by
  cases op with
  | store key convert =>
    obtain ⟨success, status, s', L', hcall, hrep', hm', -⟩ := storeKey_refines hrep hm hok
    exact ⟨s', _, L', by simp [stepKey, hcall], hrep', hm'⟩
  | delete key =>
    obtain ⟨s', L', hcall, hrep', hm', -⟩ := delKey_refines hrep hm hok
    exact ⟨s', _, L', by simp [stepKey, hcall], hrep', hm'⟩

theorem runKeys_refines {ops : List KeyOp} (hrep : Rep env s L) (hm : Represents L m)
    (hok : runOk env s m ops = true) :
    ∃ s' m' L', runKeys env s m ops = some (s', m') ∧ Rep env s' L' ∧ Represents L' m' := by
  induction ops generalizing s m L with
  | nil => exact ⟨s, m, L, rfl, hrep, hm⟩
  | cons op ops ih =>
    simp only [runOk, Bool.and_eq_true] at hok
    obtain ⟨s', m', L', hstep, hrep', hm'⟩ := stepKey_refines hrep hm hok.1
    simp only [hstep] at hok
    obtain ⟨s'', m'', L'', hrun, hrep'', hm''⟩ := ih hrep' hm' hok.2
    exact ⟨s'', m'', L'', by simp [runKeys, hstep, hrun], hrep'', hm''⟩

theorem rep_init (algoID : UInt8) (isPrivate : Bool) :
    Rep env (initStorage algoID isPrivate : KeyStorage κ) fun _ => [] where
  linked _ := ⟨none, rfl, rfl⟩
  buckets _ := ⟨by simp, by simp, by simp, by simp, by simp, by simp⟩
  size := by simp [keyCount, initStorage]

end KeyLemmas

/-- The key storage is a multimap, in every run whose calls meet their condition: every bucket
is a doubly linked list ordered by ASN, `size` is the sum of the `noKeys`, and `ks_getKey`
returns for every ASN and SKI the keys stored and not deleted since, as DER keys and in their
OpenSSL form. -/
theorem keyStorage_is_multimap (env : KeyEnv κ) (algoID : UInt8) (isPrivate : Bool)
    (ops : List KeyOp)
    (hok : runOk env (initStorage algoID isPrivate) (fun _ _ => []) ops = true) :
    ∃ s m, runKeys env (initStorage algoID isPrivate) (fun _ _ => []) ops = some (s, m) ∧
      (∃ L, Rep env s L) ∧
      ∀ asn ski,
        (∃ r, getDerKey s ski asn = some r ∧ returnedKeys r = (m asn ski).map some) ∧
        ∃ r status s', getEcKey env s ski asn = some (r, status, s') ∧
          returnedKeys r =
            (m asn ski).map fun k => (env.convertKey s.isPrivate k.bytes).toOption := by
  obtain ⟨s, m, L, hrun, hrep, hm⟩ :=
    runKeys_refines (rep_init algoID isPrivate) (fun _ _ => rfl) hok
  refine ⟨s, m, hrun, ⟨L, hrep⟩, fun asn ski => ⟨getDerKey_refines hrep hm asn ski, ?_⟩⟩
  obtain ⟨r, status, s', -, hget, -, -, hkeys, -⟩ := getEcKey_refines hrep hm asn ski
  exact ⟨r, status, s', hget, hkeys⟩

/-- Keys are their own OpenSSL form, and the vault is empty. -/
def plainKeys : KeyEnv Bytes := ⟨fun _ data => .ok data, fun _ _ => none⟩

/-- Keys of one ASN and SKI. -/
def sampleKey (data : UInt8) : BgpsecKey := ⟨1, 0x0100, .replicate 20 7, some [data]⟩

theorem keyStorage_is_multimap_collision :
    runOk plainKeys (initStorage 1 false) (fun _ _ => [])
        [.store (sampleKey 1) true, .store (sampleKey 2) true, .delete (sampleKey 2)] = true ∧
      ∃ s m, runKeys plainKeys (initStorage 1 false) (fun _ _ => [])
          [.store (sampleKey 1) true, .store (sampleKey 2) true, .delete (sampleKey 2)] =
        some (s, m) ∧ ∃ r, getDerKey s (.replicate 20 7) 0x0100 = some r ∧
          returnedKeys r = (m 0x0100 (.replicate 20 7)).map some := by
  refine ⟨rfl, ?_⟩
  obtain ⟨s, m, hrun, -, hkeys⟩ := keyStorage_is_multimap plainKeys 1 false
    [.store (sampleKey 1) true, .store (sampleKey 2) true, .delete (sampleKey 2)] rfl
  exact ⟨s, m, hrun, (hkeys _ _).1⟩

/-- Without the condition keys are lost. Two keys share an ASN and SKI and the first is deleted:
the array keeps one entry, which is NULL, and the other key is gone. -/
theorem delete_loses_key :
    ¬ ∀ (ops : List KeyOp) (s : KeyStorage Bytes) (m : Multimap),
      runKeys plainKeys (initStorage 1 false) (fun _ _ => []) ops = some (s, m) →
      ∀ asn ski, ∃ r, getDerKey s ski asn = some r ∧ returnedKeys r = (m asn ski).map some := by
  intro hall
  obtain ⟨s, m, hrun, hm, hget⟩ : ∃ s m, runKeys plainKeys (initStorage 1 false) (fun _ _ => [])
        [.store (sampleKey 1) true, .store (sampleKey 2) true, .delete (sampleKey 1)] =
          some (s, m) ∧ m 0x0100 (.replicate 20 7) = [sampleKey 2] ∧
        getDerKey s (.replicate 20 7) 0x0100 = some (some ([none], 1)) := ⟨_, _, rfl, rfl, rfl⟩
  obtain ⟨r, hr, hkeys⟩ := hall _ s m hrun 0x0100 (.replicate 20 7)
  obtain rfl := Option.some.inj (hget.symm.trans hr)
  rw [hm] at hkeys
  exact absurd hkeys (by decide)

end SrxSuite.Crypto

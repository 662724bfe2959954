import Mathlib.Data.FinEnum
import Mathlib.Algebra.BigOperators.Ring.Finset
import SrxSuite.Lib.Bytes
import SrxSuite.Lib.LinkedList
import SrxSuite.Shared.Defs

/-!
# The key storage

The model of `bgpsec_openssl/key_storage.c`: 256 buckets of doubly linked elements ordered
by ASN, each element with the arrays of all keys that share its ASN and SKI. Elements live
in a heap; `none` as the result of an operation stands for an access through NULL, to freed
memory or outside of an array, or for a walk that never ends.
-/

namespace SrxSuite.Crypto

open LinkedList

/-! ## The code -/

abbrev Ski := Vector UInt8 20

/-- `BGPSecKey`; `keyLength` is the length of `keyData`, 0 for NULL. -/
structure BgpsecKey where
  algoID : UInt8
  asn : UInt32
  ski : Ski
  keyData : Option Bytes
  deriving DecidableEq

/-- The bytes that are compared: `keyLength` many. -/
def BgpsecKey.bytes (key : BgpsecKey) : Bytes := key.keyData.getD []

/-- The fields of `KS_Key_Element` beside its links. The arrays have as many entries as
memory is allocated for. `source` and `timesUsed` are not used by the code. -/
structure KeyElement (κ : Type) where
  asn : UInt32
  ski : Ski
  derKey : List (Option BgpsecKey)
  ecKey : List (Option κ)
  noKeys : UInt16

/-- `KeyStorage`, with the heap of its elements. Addresses from `fresh` on are unused. -/
structure KeyStorage (κ : Type) where
  algorithmID : UInt8
  isPrivate : Bool
  head : UInt8 → Option Nat
  size : UInt32
  heap : Heap (KeyElement κ)
  fresh : Nat

/-- What the storage uses of OpenSSL and of the key vault: the conversion of a DER key and
`sca_loadKey`. The flag tells private from public keys. -/
structure KeyEnv (κ : Type) where
  convertKey : Bool → Bytes → Except Status κ
  loadKey : BgpsecKey → Bool → Option Bytes

variable {κ : Type}

/-- `_ks_getBucket`. -/
def getBucket (asn : UInt32) : UInt8 :=
  let mask : UInt32 := 0xFF
  (asn >>> 24 + (asn >>> 16 &&& mask) + (asn >>> 8 &&& mask) + (asn &&& mask)).toUInt8

/-- `ks_init`. -/
def initStorage (algoID : UInt8) (isPrivate : Bool) : KeyStorage κ :=
  ⟨algoID, isPrivate, fun _ => none, 0, fun _ => none, 0⟩

/-- `_ks_clone`: an empty key has no data. -/
def cloneKey (key : BgpsecKey) : BgpsecKey :=
  { key with keyData := if key.bytes.length = 0 then none else key.keyData }

/-- The walk of `ks_getKey` and `ks_delKey` to the element of an ASN and SKI. -/
def findElement (heap : Heap (KeyElement κ)) (asn : UInt32) (ski : Ski) :
    (fuel : Nat) → Option Nat → Option (Option Nat)
  | _, none => some none
  | 0, some _ => none
  | fuel + 1, some a =>
    match heap a with
    | none => none
    | some n =>
      if n.val.asn < asn then findElement heap asn ski fuel n.next
      else if asn < n.val.asn then some none
      else if n.val.ski ≠ ski then findElement heap asn ski fuel n.next
      else some (some a)

/-- The element of an ASN and SKI. A list without a cycle has at most `fresh` elements. -/
def KeyStorage.find (s : KeyStorage κ) (asn : UInt32) (ski : Ski) : Option (Option Nat) :=
  findElement s.heap asn ski s.fresh (s.head (getBucket asn))

/-- `ks_getKey` for DER keys: the array and the number of keys in it. -/
def getDerKey (s : KeyStorage κ) (ski : Ski) (asn : UInt32) :
    Option (Option (List (Option BgpsecKey) × UInt16)) :=
  match s.find asn ski with
  | none => none
  | some none => some none
  | some (some a) => (s.heap a).map fun n => some (n.val.derKey, n.val.noKeys)

/-- The loop of `ks_getKey` that converts keys on their first use. -/
def loadEcKeys (env : KeyEnv κ) (isPrivate : Bool) :
    (noKeys : Nat) → List (Option BgpsecKey) → List (Option κ) → Status →
      Option (List (Option κ) × Status)
  | 0, _, ecKeys, status => some (ecKeys, status)
  | n + 1, _ :: ders, some ec :: ecs, status => do
    let (ecs, status) ← loadEcKeys env isPrivate n ders ecs status
    some (some ec :: ecs, status)
  | n + 1, some der :: ders, none :: ecs, status => do
    let (ec, status) := match env.convertKey isPrivate der.bytes with
      | .ok ec => (some ec, status)
      | .error err => (none, status ||| err)
    let status := if status &&& Status.errNoData ≠ 0 then status ||| Status.errUser1 else status
    let (ecs, status) ← loadEcKeys env isPrivate n ders ecs status
    some (ec :: ecs, status)
  | n + 1, none :: ders, none :: ecs, status => do
    let (ecs, status) ← loadEcKeys env isPrivate n ders ecs (status ||| Status.errUser1)
    some (none :: ecs, status)
  | _, _, _, _ => none

/-- `ks_getKey` for OpenSSL keys: the array, the number of keys in it and the status. -/
def getEcKey (env : KeyEnv κ) (s : KeyStorage κ) (ski : Ski) (asn : UInt32) :
    Option (Option (List (Option κ) × UInt16) × Status × KeyStorage κ) := do
  match ← s.find asn ski with
  | none => some (none, Status.infoKeyNotFound, s)
  | some a =>
    let n ← s.heap a
    let (ecKey, status) ← loadEcKeys env s.isPrivate n.val.noKeys.toNat n.val.derKey
      n.val.ecKey Status.ok
    let heap := s.heap.write a { n with val := { n.val with ecKey := ecKey } }
    some (some (ecKey, n.val.noKeys), status, { s with heap := heap })

/-- `_ks_createKS_Element`. The status of the caller is overwritten. -/
def createElement (env : KeyEnv κ) (key : BgpsecKey) (convert isPrivate : Bool) :
    Option (KeyElement κ) × Status :=
  let der := cloneKey key
  let elem (der : BgpsecKey) (ec : Option κ) : KeyElement κ :=
    ⟨key.asn, key.ski, [some der], [ec], 1⟩
  if convert then
    let (der, status) := match der.keyData with
      | some _ => (der, Status.ok)
      | none =>
        match env.loadKey der isPrivate with
        | some data => ({ der with keyData := some data }, Status.ok)
        | none => (der, Status.errKeyIo ||| Status.infoKeyNotFound)
    match der.keyData with
    | some data =>
      match env.convertKey isPrivate data with
      | .ok ec => (some (elem der (some ec)), status)
      | .error err => (none, status ||| err ||| Status.errNoData)
    | none => (some (elem der none), status ||| Status.errNoData)
  else (some (elem der none), Status.ok)

/-- `_ks_freeKS_Elem`. The `prev` link of the element is cleared before it is handed to the
next element. -/
def freeElement (s : KeyStorage κ) (bucket : UInt8) (a : Nat) : Option (KeyStorage κ) := do
  let n ← s.heap a
  let size := s.size - n.val.noKeys.toUInt32
  let (head, heap) ← match n.prev with
    | some p => do
      let heap ← s.heap.modify p fun m => { m with next := n.next }
      some (s.head, heap)
    | none => some (Function.update s.head bucket n.next, s.heap)
  let heap ← match n.next with
    | some q => heap.modify q fun m => { m with prev := none }
    | none => some heap
  if n.val.noKeys.toNat ≤ n.val.derKey.length ∧ n.val.noKeys.toNat ≤ n.val.ecKey.length then
    some { s with size := size, head := head, heap := heap.free a }
  else none

/-- The variables of the loop that deletes one key of an element. -/
structure DeleteState (κ : Type) where
  derKey : List (Option BgpsecKey)
  ecKey : List (Option κ)
  noKeys : UInt16
  size : UInt32
  deleted : Bool

/-- The loop over the keys of an element. It runs while `idx` is below the number of keys,
which goes down when the key is found. -/
def deleteLoop (data : Bytes) : (fuel idx : Nat) → DeleteState κ → Option (DeleteState κ)
  | 0, _, d => some d
  | fuel + 1, idx, d =>
    if idx < d.noKeys.toNat then
      if d.deleted then
        -- Move the key to the place emptied before it.
        match d.derKey[idx]?, d.ecKey[idx]? with
        | some der, some ec =>
          deleteLoop data fuel (idx + 1)
            { d with
              derKey := (d.derKey.set (idx - 1) der).set idx none
              ecKey := (d.ecKey.set (idx - 1) ec).set idx none }
        | _, _ => none
      else
        match d.derKey[idx]?, d.ecKey[idx]? with
        | some (some der), some _ =>
          if der.bytes = data then
            deleteLoop data fuel (idx + 1)
              { derKey := d.derKey.set idx none
                ecKey := d.ecKey.set idx none
                noKeys := d.noKeys - 1
                size := d.size - 1
                deleted := true }
          else deleteLoop data fuel (idx + 1) d
        | _, _ => none
    else some d

/-- `ks_delKey`. The arrays are reallocated to `sizeof(BGPSecKey*) + noKeys` bytes. -/
def delKey (s : KeyStorage κ) (key : BgpsecKey) : Option (KeyStorage κ) := do
  if key.algoID ≠ s.algorithmID then some s
  else
    match ← s.find key.asn key.ski with
    | none => some s
    | some a =>
      let n ← s.heap a
      match key.keyData with
      | some data =>
        let d ← deleteLoop data n.val.noKeys.toNat 0
          ⟨n.val.derKey, n.val.ecKey, n.val.noKeys, s.size, false⟩
        let cells := (8 + d.noKeys.toNat) / 8
        let (derKey, ecKey) := if d.deleted ∧ d.noKeys ≠ 0
          then (d.derKey.take cells, d.ecKey.take cells) else (d.derKey, d.ecKey)
        let val : KeyElement κ := ⟨n.val.asn, n.val.ski, derKey, ecKey, d.noKeys⟩
        let s := { s with size := d.size, heap := s.heap.write a { n with val := val } }
        if d.deleted ∧ d.noKeys = 0 then freeElement s (getBucket key.asn) a else some s
      | none =>
        freeElement { s with size := s.size - n.val.noKeys.toUInt32 } (getBucket key.asn) a

/-- Where `ks_storeKey` puts a key: behind the last element (which may have the same ASN),
before an element, or into an element. -/
inductive Slot
  | last (a : Nat) (sameAsn : Bool)
  | before (a : Nat)
  | into (a : Nat)
  deriving DecidableEq

/-- The walk of `ks_storeKey`. -/
def findSlot (heap : Heap (KeyElement κ)) (asn : UInt32) (ski : Ski) :
    (fuel : Nat) → Nat → Option Slot
  | 0, _ => none
  | fuel + 1, a =>
    match heap a with
    | none => none
    | some n =>
      if n.val.asn < asn then
        match n.next with
        | some b => findSlot heap asn ski fuel b
        | none => some (.last a false)
      else if asn < n.val.asn then some (.before a)
      else if n.val.ski = ski then some (.into a)
      else
        match n.next with
        | some b => findSlot heap asn ski fuel b
        | none => some (.last a true)

/-- Is the key among the first `noKeys` of the array? All of them are looked at, up to the
key. -/
def isStored (data : Bytes) : (noKeys : Nat) → List (Option BgpsecKey) → Option Bool
  | 0, _ => some false
  | n + 1, some der :: ders => if der.bytes = data then some true else isStored data n ders
  | _, _ => none

/-- The element gets the next address. -/
def KeyStorage.alloc (s : KeyStorage κ) (n : Node (KeyElement κ)) : KeyStorage κ :=
  { s with heap := s.heap.write s.fresh n, fresh := s.fresh + 1, size := s.size + 1 }

/-- The changes of `ks_storeKey` once the place for the key is known. -/
def storeAt (env : KeyEnv κ) (s : KeyStorage κ) (key : BgpsecKey) (convert : Bool)
    (bucket : UInt8) (status : Status) : Slot → Option (Status × KeyStorage κ)
  | .last a sameAsn => do
    let n ← s.heap a
    match createElement env key convert s.isPrivate with
    | (some elem, status) =>
      -- Behind an element of the same ASN the `prev` link is not set.
      let prev := if sameAsn then none else some a
      let s := s.alloc ⟨prev, none, elem⟩
      some (status, { s with heap := s.heap.write a { n with next := some (s.fresh - 1) } })
    | (none, status) => if sameAsn then some (status, s) else none
  | .before a => do
    let n ← s.heap a
    let (elem, status) := createElement env key convert s.isPrivate
    let elem ← elem
    let new := s.fresh
    let s := s.alloc ⟨n.prev, some a, elem⟩
    let s := { s with heap := s.heap.write a { n with prev := some new } }
    match n.prev with
    | some p => do
      let heap ← s.heap.modify p fun m => { m with next := some new }
      some (status, { s with heap := heap })
    | none => some (status, { s with head := Function.update s.head bucket (some new) })
  | .into a => do
    let n ← s.heap a
    if ← isStored key.bytes n.val.noKeys.toNat n.val.derKey then
      some (status ||| Status.infoUser1, s)
    else if n.val.noKeys + 1 = 0 ∨ n.val.ecKey.length < n.val.noKeys.toNat then none
    else
      let (ec, status) := match env.convertKey s.isPrivate key.bytes with
        | .ok ec => (some ec, status)
        | .error err => (none, status ||| err)
      let k := n.val.noKeys.toNat
      let val : KeyElement κ := ⟨n.val.asn, n.val.ski,
        n.val.derKey.take k ++ [some (cloneKey key)], n.val.ecKey.take k ++ [ec],
        n.val.noKeys + 1⟩
      some (status, { s with size := s.size + 1, heap := s.heap.write a { n with val := val } })

/-- `ks_storeKey`: success, the status and the storage. A key of another algorithm goes to
bucket 0. -/
def storeKey (env : KeyEnv κ) (s : KeyStorage κ) (key : BgpsecKey) (convert : Bool) :
    Option (Bool × Status × KeyStorage κ) := do
  let (bucket, status) := if key.algoID = s.algorithmID
    then (getBucket key.asn, Status.ok) else ((0 : UInt8), Status.errUser1)
  match s.head bucket with
  | some a =>
    let slot ← findSlot s.heap key.asn key.ski s.fresh a
    let (status, s) ← storeAt env s key convert bucket status slot
    some (status.noError, status, s)
  | none =>
    match createElement env key convert s.isPrivate with
    | (some elem, status) =>
      let head := Function.update s.head bucket (some s.fresh)
      some (status.noError, status, { s.alloc ⟨none, none, elem⟩ with head := head })
    | (none, status) => some (status.noError, status, s)

end SrxSuite.Crypto

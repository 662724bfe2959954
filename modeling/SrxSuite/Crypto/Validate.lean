import SrxSuite.Crypto.HashMessage
import SrxSuite.Crypto.KeyMultimap

/-!
# Path validation

The model of `validate` (`bgpsec_openssl.c`): the hash message of an update is generated
unless it is there, then every signature is verified with the keys the storage holds for the
ASN and SKI of its signer.

`segmentChecks` lists what has to be verified. `SomeKeyVerifies` says that some stored key
verifies a signature, `FirstKeyVerifies` that the first key does that has an OpenSSL form.
The results:
1. `validate_eq`: the verdict is that `FirstKeyVerifies` holds of all checks.
2. `validate_iff`: when this is the verdict that should be given.
3. `validate_stops_at_wrong_key`: a valid path that is found invalid.
-/

namespace SrxSuite.Crypto

open Bytes

variable {κ : Type}

/-! ## The code -/

/-- `SCA_ECDSA_ALGORITHM`. -/
def ecdsaAlgorithm : UInt8 := 1

/-- What validation uses of OpenSSL: a key, a digest and a signature. -/
structure VerifyEnv (κ : Type) where
  sha256 : Bytes → Bytes
  ecdsaVerify : κ → Bytes → Bytes → Bool

/-- The loop over the keys of a signer. It goes on behind a key without OpenSSL form, and ends
with the first other key. -/
def verifyKeys (crypto : VerifyEnv κ) (digest sig : Bytes) :
    (noKeys : Nat) → List (Option κ) → Status → Option (Bool × Status)
  | 0, _, status => some (false, status)
  | _ + 1, some key :: _, status => some (crypto.ecdsaVerify key digest sig, status)
  | n + 1, none :: keys, status =>
    verifyKeys crypto digest sig n keys (status ||| Status.errInvalidKey)
  | _ + 1, [], _ => none

/-- The pointer to the AS of a signer: the start of the next slice, or the AS of the origin in
the last slice. -/
def signerPtr (msg : HashMessage) (idx : Nat) (ptr : HashMessagePtr) : Option Nat :=
  if idx + 1 < msg.segmentCount.toNat then
    msg.hashMessageValPtr[idx + 1]?.map HashMessagePtr.hashMessagePtr
  else some (ptr.hashMessagePtr + 6)

/-- One iteration of the loop over the segments. -/
def validateSegment (env : KeyEnv κ) (crypto : VerifyEnv κ) (keys : KeyStorage κ)
    (msg : HashMessage) (idx : Nat) : Option (Bool × Status × KeyStorage κ) := do
  let ptr ← msg.hashMessageValPtr[idx]?
  let asnPtr ← signerPtr msg idx ptr
  let asn ← msg.buffer.le32At asnPtr
  let sigSeg ← ptr.signaturePtr
  let ski ← msg.buffer.readAt sigSeg 20
  if h : ski.length = 20 then
    let (found, status, keys) ← getEcKey env keys ⟨ski.toArray, h⟩ asn
    match found with
    | some (ecKeys, noKeys) =>
      let message ← msg.buffer.readAt ptr.hashMessagePtr ptr.hashMessageLength.toNat
      let sigLength ← msg.buffer.be16At (sigSeg + 20)
      let sig ← msg.buffer.readAt (sigSeg + 22) sigLength.toNat
      let (valid, status) ← verifyKeys crypto (crypto.sha256 message) sig noKeys.toNat ecKeys status
      some (valid, if valid then status else status ||| Status.infoSignature, keys)
    | none => some (false, status ||| Status.infoKeyNotFound, keys)
  else none

/-- The loop over the segments; it ends with the first that is not valid. -/
def validateLoop (env : KeyEnv κ) (crypto : VerifyEnv κ) (msg : HashMessage) :
    (n idx : Nat) → KeyStorage κ → Status → Option (Bool × Status × KeyStorage κ)
  | 0, _, keys, status => some (true, status, keys)
  | n + 1, idx, keys, _ => do
    let (valid, status, keys) ← validateSegment env crypto keys msg idx
    if valid then validateLoop env crypto msg n (idx + 1) keys status
    else some (false, status, keys)

/-- The first part of `validate`: is there a hash message, or can it be generated? -/
def prepareMessage (data : ValidationData) : Option (Bool × ValidationData) :=
  if data.nlri.isNone ∨ data.bgpsecPathAttr.isNone then
    some (false, { data with status := Status.errNoData })
  else if data.hashMessage0.isSome then some (true, { data with status := Status.ok })
  else do
    let (used, _, data) ← generateHashMessage data ecdsaAlgorithm
    some (if 0 < used then (true, { data with status := Status.ok })
      else (false, { data with status := Status.errUser1 }))

/-- `validate` for data that is not NULL: the verdict, the changed data and keys. -/
def validate (env : KeyEnv κ) (crypto : VerifyEnv κ) (keys : KeyStorage κ)
    (data : ValidationData) : Option (Bool × ValidationData × KeyStorage κ) := do
  let (ready, data) ← prepareMessage data
  if ready then
    let msg ← data.hashMessage0
    let (valid, status, keys) ←
      validateLoop env crypto msg msg.segmentCount.toNat 0 keys data.status
    some (valid, { data with status := status }, keys)
  else some (false, data, keys)

/-! ## What has to be verified -/

/-- One signature: its signer, the SKI of the key, the message and the signature. -/
structure SegmentCheck where
  asn : UInt32
  ski : Ski
  message : Bytes
  signature : Bytes

/-- The signatures of a path for a target AS, the newest first. -/
def segmentChecks (algoID : UInt8) (nlri : Nlri) :
    UInt32 → List SignatureSegment → List SecurePathSegment → List SegmentCheck
  | target, sig :: sigs, seg :: path =>
    ⟨seg.asn, sig.ski, rfcMessage target sigs (seg :: path) algoID nlri, sig.signature⟩ ::
      segmentChecks algoID nlri seg.asn sigs path
  | _, _, _ => []

section Verdict

variable (env : KeyEnv κ) (crypto : VerifyEnv κ) (isPrivate : Bool) (m : Multimap)

/-- The OpenSSL forms of the keys stored for the signer, in the order they were stored. -/
def usableKeys (check : SegmentCheck) : List κ :=
  (m (htonl check.asn) check.ski).filterMap fun k => (env.convertKey isPrivate k.bytes).toOption

/-- Does a key verify the signature? -/
def verifies (check : SegmentCheck) (key : κ) : Bool :=
  crypto.ecdsaVerify key (crypto.sha256 check.message) check.signature

/-- Some key stored for the signer verifies the signature. -/
def SomeKeyVerifies (check : SegmentCheck) : Prop :=
  ∃ key ∈ usableKeys env isPrivate m check, verifies crypto check key = true

/-- The first key stored for the signer verifies the signature. -/
def FirstKeyVerifies (check : SegmentCheck) : Prop :=
  ∃ key, (usableKeys env isPrivate m check).head? = some key ∧ verifies crypto check key = true

/-- The verdict that should be given: there is a signed segment, and for every segment some key
stored for its signer verifies its signature. -/
def PathValid (attr : BgpsecPath) (myAS : UInt32) (nlri : Nlri) : Prop :=
  attr.path ≠ [] ∧ ∃ block, attr.blockOf ecdsaAlgorithm = some block ∧
    ∀ check ∈ segmentChecks ecdsaAlgorithm nlri myAS block.segments attr.path,
      SomeKeyVerifies env crypto isPrivate m check

end Verdict

namespace ValidateLemmas

open HashMessageLemmas KeyLemmas

variable {env : KeyEnv κ} {crypto : VerifyEnv κ} {keys : KeyStorage κ}
  {L : UInt8 → List (Nat × KeyElement κ)} {m : Multimap}

/-- The loop over the keys. -/
theorem verifyKeys_eq (crypto : VerifyEnv κ) (digest sig : Bytes) (ecKeys : List (Option κ)) (n : Nat)
    (hn : n ≤ ecKeys.length) (status : Status) :
    ∃ status', verifyKeys crypto digest sig n ecKeys status =
      some (((ecKeys.take n).filterMap id).head?.any fun key =>
        crypto.ecdsaVerify key digest sig, status') := by
  induction ecKeys generalizing n status with
  | nil =>
    obtain rfl : n = 0 := by simpa using hn
    exact ⟨status, rfl⟩
  | cons ec ecs ih =>
    cases n with
    | zero => exact ⟨status, rfl⟩
    | succ n =>
      cases ec with
      | some key => exact ⟨status, by simp [verifyKeys]⟩
      | none =>
        obtain ⟨status', h⟩ := ih n (by simpa using hn) (status ||| Status.errInvalidKey)
        exact ⟨status', by simp [verifyKeys, h]⟩

theorem length_segmentChecks (algoID : UInt8) (nlri : Nlri) (target : UInt32)
    {sigs : List SignatureSegment} {path : List SecurePathSegment}
    (hlen : sigs.length = path.length) :
    (segmentChecks algoID nlri target sigs path).length = path.length := by
  induction sigs generalizing target path with
  | nil =>
    obtain rfl := List.length_eq_zero_iff.mp hlen.symm
    rfl
  | cons sig sigs ih =>
    obtain ⟨seg, path, rfl⟩ := List.exists_cons_of_length_eq_add_one hlen.symm
    simp only [segmentChecks, List.length_cons, ih seg.asn (by simpa using hlen)]

theorem segmentChecks_getElem (algoID : UInt8) (nlri : Nlri) (target : UInt32)
    {sigs : List SignatureSegment} {path : List SecurePathSegment}
    (hlen : sigs.length = path.length) {i : Nat} (hi : i < path.length) (hi' : i < sigs.length) :
    ∃ t, (targets target path)[i]? = some t ∧
      (segmentChecks algoID nlri target sigs path)[i]? =
        some ⟨path[i].asn, sigs[i].ski,
          rfcMessage t (sigs.drop (i + 1)) (path.drop i) algoID nlri, sigs[i].signature⟩ := by
  induction sigs generalizing target path i with
  | nil => simp at hi'
  | cons sig sigs ih =>
    obtain ⟨seg, path, rfl⟩ := List.exists_cons_of_length_eq_add_one hlen.symm
    cases i with
    | zero => exact ⟨target, rfl, rfl⟩
    | succ i =>
      obtain ⟨t, ht, hcheck⟩ := ih seg.asn (by simpa using hlen)
        (Nat.lt_of_succ_lt_succ hi) (Nat.lt_of_succ_lt_succ hi')
      exact ⟨t, by simpa [targets] using ht, by simpa [segmentChecks] using hcheck⟩

/-- The verdict on one signature. -/
def checkFirst (env : KeyEnv κ) (crypto : VerifyEnv κ) (isPrivate : Bool) (m : Multimap)
    (check : SegmentCheck) : Bool :=
  (usableKeys env isPrivate m check).head?.any (verifies crypto check)

theorem checkFirst_iff {isPrivate : Bool} {check : SegmentCheck} :
    checkFirst env crypto isPrivate m check = true ↔
      FirstKeyVerifies env crypto isPrivate m check := by
  simp [checkFirst, FirstKeyVerifies, Option.any_eq_true]

theorem firstKeyVerifies_some {isPrivate : Bool} {check : SegmentCheck}
    (h : FirstKeyVerifies env crypto isPrivate m check) :
    SomeKeyVerifies env crypto isPrivate m check := by
  obtain ⟨key, hhead, hver⟩ := h
  exact ⟨key, List.mem_of_mem_head? hhead, hver⟩

theorem ski_toList (ski : Ski) (h : ski.toList.toArray.size = 20) :
    (⟨ski.toList.toArray, h⟩ : Ski) = ski := by
  apply Vector.toArray_inj.mp
  simp [Vector.toList]

/-- One iteration, once everything it reads from the message is known. -/
theorem validateSegment_run (crypto : VerifyEnv κ) (msg : HashMessage) {i p off : Nat} {ptr : HashMessagePtr}
    {asn : UInt32} {ski : Ski} {message sig : Bytes} {n : UInt16}
    {r : Option (List (Option κ) × UInt16)} {status : Status} {keys' : KeyStorage κ}
    (hptr : msg.hashMessageValPtr[i]? = some ptr) (hp : signerPtr msg i ptr = some p)
    (hasn : msg.buffer.le32At p = some asn) (hoff : ptr.signaturePtr = some off)
    (hski : msg.buffer.readAt off 20 = some ski.toList)
    (hread : msg.buffer.readAt ptr.hashMessagePtr ptr.hashMessageLength.toNat = some message)
    (hlen : msg.buffer.be16At (off + 20) = some n)
    (hsig : msg.buffer.readAt (off + 22) n.toNat = some sig)
    (hget : getEcKey env keys ski asn = some (r, status, keys')) :
    validateSegment env crypto keys msg i = match r with
      | none => some (false, status ||| Status.infoKeyNotFound, keys')
      | some (ecKeys, noKeys) =>
        (verifyKeys crypto (crypto.sha256 message) sig noKeys.toNat ecKeys status).map fun v =>
          (v.1, if v.1 then v.2 else v.2 ||| Status.infoSignature, keys') := by
  simp only [validateSegment, hptr, hp, hasn, hoff, hski, Vector.length_toList, dite_true,
    ski_toList, hget, Option.bind_eq_bind, Option.bind_some]
  cases r with
  | none => rfl
  | some found =>
    simp only [hread, hlen, hsig, Option.bind_some]
    cases verifyKeys crypto (crypto.sha256 message) sig found.2.toNat found.1 status <;> rfl

section Segment

variable {target : UInt32} {sigs : List SignatureSegment} {path : List SecurePathSegment}
  {algoID : UInt8} {nlri : Nlri} {i : Nat}

/-- The signer of a segment stands where the code looks for it. -/
theorem signerPtr_holds (hlen : sigs.length = path.length)
    (hshort : 6 * path.length + (sigs.flatMap SignatureSegment.encode).length < 65531)
    (hi : i < path.length) {ptr : HashMessagePtr} {t : UInt32}
    (hslice : HoldsAt (messageBuffer target sigs path algoID nlri) ptr.hashMessagePtr
      (rfcMessage t (sigs.drop (i + 1)) (path.drop i) algoID nlri)) :
    ∃ p, signerPtr (messageOf target sigs path algoID nlri) i ptr = some p ∧
      HoldsAt (messageBuffer target sigs path algoID nlri) p (be32 path[i].asn) := by
  have hcount : (messageOf target sigs path algoID nlri).segmentCount.toNat = path.length :=
    toNat_ofNat16 (by omega)
  by_cases hlast : i + 1 < path.length
  · obtain ⟨next, sig, t', hnext, -, ht', hrec⟩ :=
      messageOf_records target algoID nlri hlen hshort hlast
    obtain rfl : path[i].asn = t' := by simpa [targets, hi] using ht'
    refine ⟨next.hashMessagePtr, ?_, hrec.slice.left.left.left⟩
    rw [signerPtr, hcount, if_pos hlast, hnext, Option.map_some]
  · -- The slice of the last segment: the target, then the path segment of the origin.
    have hsigs : sigs.drop (i + 1) = [] := List.drop_eq_nil_of_le (by omega)
    have hpath : path.drop i = [path[i]] := by
      rw [List.drop_eq_getElem_cons hi, List.drop_eq_nil_of_le (by omega)]
    rw [hsigs, hpath] at hslice
    refine ⟨ptr.hashMessagePtr + 6, ?_, ?_⟩
    · rw [signerPtr, hcount, if_neg hlast]
    · have hseg : HoldsAt _ (ptr.hashMessagePtr + 4) path[i].encode := hslice.left.left.right
      exact hseg.right

theorem validateSegment_eq (crypto : VerifyEnv κ) (hrep : Rep env keys L) (hm : Represents L m)
    (hlen : sigs.length = path.length)
    (hshort : 6 * path.length + (sigs.flatMap SignatureSegment.encode).length < 65531)
    (hi : i < path.length) {check : SegmentCheck}
    (hcheck : (segmentChecks algoID nlri target sigs path)[i]? = some check) :
    ∃ status keys' L',
      validateSegment env crypto keys (messageOf target sigs path algoID nlri) i =
        some (checkFirst env crypto keys.isPrivate m check, status, keys') ∧
      Rep env keys' L' ∧ Represents L' m ∧ keys'.isPrivate = keys.isPrivate := by
  have hi' : i < sigs.length := hlen ▸ hi
  obtain ⟨ptr, sig, t, hptr, hsig, ht, hrec⟩ :=
    messageOf_records target algoID nlri hlen hshort hi
  obtain ⟨t', ht', hcheck'⟩ := segmentChecks_getElem algoID nlri target hlen hi hi'
  obtain rfl : t = t' := Option.some.inj (ht.symm.trans ht')
  obtain rfl : sigs[i] = sig := by simpa [hi'] using hsig
  obtain rfl := Option.some.inj (hcheck.symm.trans hcheck')
  obtain ⟨off, hoff, hheld⟩ := hrec.signature
  obtain ⟨p, hp, hasn⟩ := signerPtr_holds hlen hshort hi hrec.slice
  rw [← le32_htonl] at hasn
  have hski : (messageBuffer target sigs path algoID nlri).readAt off 20 =
      some sigs[i].ski.toList := by
    have := hheld.left.left.readAt_eq
    rwa [Vector.length_toList] at this
  have hsiglen := hheld.left.right.be16At_eq
  rw [Vector.length_toList] at hsiglen
  have hsigbytes := hheld.right.readAt_eq
  rw [List.length_append, Vector.length_toList, length_be16] at hsigbytes
  have hread := hrec.slice.readAt_eq
  rw [← hrec.length] at hread
  obtain ⟨r, status, keys', L', hget, hnone, hlong, hreturned, hrep', hm', hpriv, -⟩ :=
    getEcKey_refines hrep hm (htonl path[i].asn) sigs[i].ski
  have hrun := validateSegment_run crypto (messageOf target sigs path algoID nlri) hptr hp
    hasn.le32At_eq hoff hski hread hsiglen
    (by rw [toNat_ofNat16 sigs[i].sigLen]; exact hsigbytes) hget
  cases r with
  | none =>
    refine ⟨status ||| Status.infoKeyNotFound, keys', L', hrun.trans ?_, hrep', hm', hpriv⟩
    simp [checkFirst, usableKeys, hnone.mp rfl]
  | some found =>
    obtain ⟨status', hver⟩ := verifyKeys_eq crypto (crypto.sha256 (rfcMessage t
      (sigs.drop (i + 1)) (path.drop i) algoID nlri)) sigs[i].signature found.1 found.2.toNat
      (hlong found.1 found.2 rfl) status
    -- The keys of the array that have an OpenSSL form are the usable keys of the multimap.
    have husable : (found.1.take found.2.toNat).filterMap id =
        (m (htonl path[i].asn) sigs[i].ski).filterMap
          fun k => (env.convertKey keys.isPrivate k.bytes).toOption := by
      rw [returnedKeys] at hreturned
      rw [hreturned, List.filterMap_map]
      rfl
    rw [husable] at hver
    simp only [hver, Option.map_some] at hrun
    exact ⟨_, keys', L', hrun, hrep', hm', hpriv⟩

/-- The loop over the segments, from segment `idx` on. -/
theorem validateLoop_eq (crypto : VerifyEnv κ) (target : UInt32) (algoID : UInt8) (nlri : Nlri)
    (hrep : Rep env keys L) (hm : Represents L m)
    (hlen : sigs.length = path.length)
    (hshort : 6 * path.length + (sigs.flatMap SignatureSegment.encode).length < 65531)
    {n idx : Nat} (hn : idx + n = path.length) (status : Status) :
    ∃ status' keys',
      validateLoop env crypto (messageOf target sigs path algoID nlri) n idx keys status =
        some (((segmentChecks algoID nlri target sigs path).drop idx).all
          (checkFirst env crypto keys.isPrivate m), status', keys') := by
  induction n generalizing idx keys L status with
  | zero =>
    have hdrop : (segmentChecks algoID nlri target sigs path).drop idx = [] :=
      List.drop_eq_nil_of_le (by rw [length_segmentChecks _ _ _ hlen]; omega)
    exact ⟨status, keys, by simp [validateLoop, hdrop]⟩
  | succ n ih =>
    have hidx : idx < (segmentChecks algoID nlri target sigs path).length := by
      rw [length_segmentChecks _ _ _ hlen]
      omega
    obtain ⟨status', keys', L', hseg, hrep', hm', hpriv⟩ :=
      validateSegment_eq crypto hrep hm hlen hshort (by omega) (List.getElem?_eq_getElem hidx)
    rw [List.drop_eq_getElem_cons hidx, List.all_cons]
    by_cases hcheck : checkFirst env crypto keys.isPrivate m
        (segmentChecks algoID nlri target sigs path)[idx] = true
    · have hnext : idx + 1 + n = path.length := by omega
      obtain ⟨status'', keys'', hloop⟩ := ih hrep' hm' hnext status'
      rw [hpriv] at hloop
      exact ⟨status'', keys'', by simp [validateLoop, hseg, hcheck, hloop]⟩
    · rw [Bool.not_eq_true] at hcheck
      exact ⟨status', keys', by simp [validateLoop, hseg, hcheck]⟩

end Segment

end ValidateLemmas

open ValidateLemmas HashMessageLemmas KeyLemmas

/-- What `validate` is given for an update that was not validated before. -/
def updateData (attr : BgpsecPath) (myAS : UInt32) (nlri : Nlri) (status : Status) :
    ValidationData :=
  ⟨htonl myAS, status, some attr.encode, some nlri.toSca, none, none⟩

section Update

variable {env : KeyEnv κ} {keys : KeyStorage κ} {L : UInt8 → List (Nat × KeyElement κ)}
  {m : Multimap}

/-- `validate`, once the hash message is generated. -/
theorem validate_generated (env : KeyEnv κ) (crypto : VerifyEnv κ) (keys : KeyStorage κ) {attr : BgpsecPath}
    {myAS : UInt32} {nlri : Nlri} {status status' : Status} {used : Nat} {data : ValidationData}
    {msg : HashMessage}
    (hgen : generateHashMessage (updateData attr myAS nlri status) ecdsaAlgorithm =
      some (used, status', data))
    (hused : 0 < used) (hmsg : data.hashMessage0 = some msg) :
    validate env crypto keys (updateData attr myAS nlri status) =
      (validateLoop env crypto msg msg.segmentCount.toNat 0 keys Status.ok).map
        fun r => (r.1, { data with status := r.2.1 }, r.2.2) := by
  have hready : prepareMessage (updateData attr myAS nlri status) =
      some (true, { data with status := Status.ok }) := by
    simp only [prepareMessage, hgen, hused, if_true, Option.bind_eq_bind, Option.bind_some]
    rfl
  simp only [validate, hready, hmsg, if_true, Option.bind_eq_bind, Option.bind_some]
  cases validateLoop env crypto msg msg.segmentCount.toNat 0 keys Status.ok <;> rfl

/-- The verdict of `validate` for an update with a path: the first key of every signer verifies. -/
theorem validate_eq (crypto : VerifyEnv κ) (hrep : Rep env keys L) (hm : Represents L m)
    (attr : BgpsecPath) (hn : attr.path ≠ []) (myAS : UInt32) (nlri : Nlri) (status : Status)
    {block : SignatureBlock} (hblock : attr.blockOf ecdsaAlgorithm = some block) :
    ∃ valid data' keys',
      validate env crypto keys (updateData attr myAS nlri status) = some (valid, data', keys') ∧
      (valid = true ↔
        ∀ check ∈ segmentChecks ecdsaAlgorithm nlri myAS block.segments attr.path,
          FirstKeyVerifies env crypto keys.isPrivate m check) := by
  have hmem := List.mem_of_find?_eq_some hblock
  have hsigned := attr.signed block hmem
  have hshort := length_attr_block attr hmem
  rw [SignatureBlock.length] at hshort
  have hused : 0 < (messageBuffer myAS block.segments attr.path ecdsaAlgorithm nlri).length := by
    rw [length_messageBuffer _ _ _ hsigned]
    omega
  have hcount : (messageOf myAS block.segments attr.path ecdsaAlgorithm nlri).segmentCount.toNat =
      attr.path.length := toNat_ofNat16 (by omega)
  have hval := validate_generated env crypto keys
    (generateHashMessage_encode attr hn myAS nlri status none ecdsaAlgorithm hblock) hused rfl
  obtain ⟨status', keys', hloop⟩ := validateLoop_eq crypto myAS ecdsaAlgorithm nlri hrep hm hsigned
    (by omega) (Nat.zero_add attr.path.length) Status.ok
  rw [hcount, hloop, List.drop_zero, Option.map_some] at hval
  refine ⟨_, _, _, hval, ?_⟩
  simp only [List.all_eq_true, checkFirst_iff]

/-- Without a signature block of the algorithm the update is not valid. -/
theorem validate_missing (env : KeyEnv κ) (crypto : VerifyEnv κ) (keys : KeyStorage κ)
    (attr : BgpsecPath) (myAS : UInt32) (nlri : Nlri) (status : Status)
    (hblock : attr.blockOf ecdsaAlgorithm = none) :
    ∃ data', validate env crypto keys (updateData attr myAS nlri status) =
      some (false, data', keys) := by
  have hgen := generateHashMessage_missing attr (updateData attr myAS nlri status)
    ecdsaAlgorithm rfl rfl hblock
  have hready : prepareMessage (updateData attr myAS nlri status) =
      some (false, { updateData attr myAS nlri status with status := Status.errUser1 }) := by
    simp only [prepareMessage, hgen, Option.bind_eq_bind, Option.bind_some]
    rfl
  exact ⟨_, by rw [validate, hready]; rfl⟩

/-- An update without path segments is not found invalid. -/
theorem validate_empty {crypto : VerifyEnv κ} {attr : BgpsecPath}
    (hn : attr.path = []) {myAS : UInt32} {nlri : Nlri} {status : Status}
    (hblock : attr.blockOf ecdsaAlgorithm ≠ none) {valid : Bool} {data' : ValidationData}
    {keys' : KeyStorage κ} (hval : validate env crypto keys (updateData attr myAS nlri status) =
      some (valid, data', keys')) :
    valid = true := by
  cases hgen : generateHashMessage (updateData attr myAS nlri status) ecdsaAlgorithm with
  | none =>
    have hready : prepareMessage (updateData attr myAS nlri status) = none := by
      simp only [prepareMessage, hgen, Option.bind_eq_bind, Option.bind_none]
      rfl
    simp [validate, hready] at hval
  | some res =>
    obtain ⟨used, status', data⟩ := res
    obtain ⟨hused, msg, hmsg, hcount⟩ := generateHashMessage_empty attr hn _ _ rfl rfl hblock hgen
    rw [validate_generated env crypto keys hgen hused hmsg, hcount] at hval
    -- The loop over the segments has nothing to do.
    have hpair := Option.some.inj hval
    exact (congrArg Prod.fst hpair).symm

end Update

/-- The verdict of `validate`, for every update and every content of the key storage. It is the
right one exactly when there is nothing to verify, because the update has no signature block of
the algorithm, or when the path is not empty and a path for which every signer has a key that
verifies is one for which the first key of every signer does. -/
theorem validate_iff (env : KeyEnv κ) (crypto : VerifyEnv κ) (keys : KeyStorage κ)
    (L : UInt8 → List (Nat × KeyElement κ)) (m : Multimap) (hrep : Rep env keys L)
    (hm : Represents L m) (attr : BgpsecPath) (myAS : UInt32) (nlri : Nlri) (status : Status) :
    (∃ valid data' keys',
      validate env crypto keys (updateData attr myAS nlri status) = some (valid, data', keys') ∧
        (valid = true ↔ PathValid env crypto keys.isPrivate m attr myAS nlri)) ↔
      ∀ block, attr.blockOf ecdsaAlgorithm = some block → attr.path ≠ [] ∧
        ((∀ check ∈ segmentChecks ecdsaAlgorithm nlri myAS block.segments attr.path,
            SomeKeyVerifies env crypto keys.isPrivate m check) →
          ∀ check ∈ segmentChecks ecdsaAlgorithm nlri myAS block.segments attr.path,
            FirstKeyVerifies env crypto keys.isPrivate m check) := by
  cases hblock : attr.blockOf ecdsaAlgorithm with
  | none =>
    obtain ⟨data', hval⟩ := validate_missing env crypto keys attr myAS nlri status hblock
    simp [hval, PathValid, hblock]
  | some block =>
    by_cases hn : attr.path = []
    · -- The property fails: the verdict is true, but nothing is signed.
      refine iff_of_false ?_ fun h => (h block rfl).1 hn
      rintro ⟨valid, data', keys', hval, hiff⟩
      exact (hiff.mp (validate_empty hn (by simp [hblock]) hval)).1 hn
    · obtain ⟨valid, data', keys', hval, hvalid⟩ :=
        validate_eq crypto hrep hm attr hn myAS nlri status hblock
      have hpath : PathValid env crypto keys.isPrivate m attr myAS nlri ↔
          ∀ check ∈ segmentChecks ecdsaAlgorithm nlri myAS block.segments attr.path,
            SomeKeyVerifies env crypto keys.isPrivate m check := by
        simp [PathValid, hn, hblock]
      have hweaker : (∀ check ∈ segmentChecks ecdsaAlgorithm nlri myAS block.segments attr.path,
            FirstKeyVerifies env crypto keys.isPrivate m check) →
          ∀ check ∈ segmentChecks ecdsaAlgorithm nlri myAS block.segments attr.path,
            SomeKeyVerifies env crypto keys.isPrivate m check :=
        fun h check hmem => firstKeyVerifies_some (h check hmem)
      simp only [hval, Option.some.injEq, Prod.mk.injEq, hpath]
      constructor
      · rintro ⟨_, _, _, ⟨rfl, -⟩, hiff⟩ _ rfl
        exact ⟨hn, fun hsome => hvalid.mp (hiff.mpr hsome)⟩
      · intro h
        exact ⟨valid, data', keys', ⟨rfl, rfl, rfl⟩,
          fun hv => hweaker (hvalid.mp hv), fun hsome => hvalid.mpr ((h block rfl).2 hsome)⟩

/-- A signature verifies with the key that has its bytes. -/
def sameBytes : VerifyEnv Bytes := ⟨id, fun key _ sig => key == sig⟩

/-- Keys for the signers of `twoHops`. -/
def transitKey : BgpsecKey := ⟨1, htonl 65002, .replicate 20 1, some [5, 6]⟩

def originKey (data : UInt8) : BgpsecKey := ⟨1, htonl 65001, .replicate 20 2, some [data]⟩

/-- The signatures of `twoHops`. -/
def transitCheck : SegmentCheck :=
  ⟨65002, .replicate 20 1, rfcMessage 65003 [⟨.replicate 20 2, [7], one_fits16⟩] twoHops.path 1
    sampleNlri, [5, 6]⟩

def originCheck : SegmentCheck :=
  ⟨65001, .replicate 20 2, rfcMessage 65002 [] [⟨2, 0, 65001⟩] 1 sampleNlri, [7]⟩

namespace ValidateLemmas

/-- A storage that got the keys of the signers, two of them for the origin. -/
theorem signerKeys_stored {first second : UInt8} (hok : runOk plainKeys (initStorage 1 false)
      (fun _ _ => []) [.store transitKey true, .store (originKey first) true,
        .store (originKey second) true] = true)
    {keys : KeyStorage Bytes} {m : Multimap}
    (hrun : runKeys plainKeys (initStorage 1 false) (fun _ _ => []) [.store transitKey true,
      .store (originKey first) true, .store (originKey second) true] = some (keys, m)) :
    ∃ L, Rep plainKeys keys L ∧ Represents L m := by
  obtain ⟨keys', m', L, hrun', hrep, hm⟩ :=
    runKeys_refines (rep_init 1 false) (fun _ _ => rfl) hok
  obtain ⟨rfl, rfl⟩ := Prod.mk.inj (Option.some.inj (hrun.symm.trans hrun'))
  exact ⟨L, hrep, hm⟩

theorem twoHops_checks {block : SignatureBlock}
    (hblock : twoHops.blockOf ecdsaAlgorithm = some block) :
    segmentChecks ecdsaAlgorithm sampleNlri 65003 block.segments twoHops.path =
      [transitCheck, originCheck] := by
  obtain rfl := Option.some.inj hblock
  rfl

theorem firstKeyVerifies_sample {m : Multimap} {check : SegmentCheck} {key : BgpsecKey}
    {others : List BgpsecKey} (hkeys : m (htonl check.asn) check.ski = key :: others) :
    FirstKeyVerifies plainKeys sameBytes false m check ↔ key.bytes = check.signature := by
  simp [FirstKeyVerifies, usableKeys, hkeys, verifies, sameBytes, plainKeys, Except.toOption]

end ValidateLemmas

theorem validate_iff_twoHops :
    ∃ keys L m, Rep plainKeys keys L ∧ Represents L m ∧
      m (htonl 65001) (.replicate 20 2) = [originKey 7, originKey 8] ∧
      ∃ valid data' keys', validate plainKeys sameBytes keys
          (updateData twoHops 65003 sampleNlri Status.ok) = some (valid, data', keys') ∧
        (valid = true ↔ PathValid plainKeys sameBytes false m twoHops 65003 sampleNlri) := by
  obtain ⟨keys, m, hrun, hpriv, htransit, horigin⟩ : ∃ keys m,
      runKeys plainKeys (initStorage 1 false) (fun _ _ => []) [.store transitKey true,
        .store (originKey 7) true, .store (originKey 8) true] = some (keys, m) ∧
      keys.isPrivate = false ∧ m (htonl 65002) (.replicate 20 1) = [transitKey] ∧
      m (htonl 65001) (.replicate 20 2) = [originKey 7, originKey 8] := ⟨_, _, rfl, rfl, rfl, rfl⟩
  obtain ⟨L, hrep, hm⟩ := signerKeys_stored rfl hrun
  refine ⟨keys, L, m, hrep, hm, horigin, ?_⟩
  rw [← hpriv]
  refine (validate_iff plainKeys sameBytes keys L m hrep hm twoHops 65003 sampleNlri Status.ok).mpr
    fun block hblock => ⟨by decide, fun _ check hcheck => ?_⟩
  rw [twoHops_checks hblock] at hcheck
  obtain rfl | rfl : check = transitCheck ∨ check = originCheck := by simpa using hcheck
  · exact hpriv ▸ (firstKeyVerifies_sample htransit).mpr rfl
  · exact hpriv ▸ (firstKeyVerifies_sample horigin).mpr rfl

/-- With a wrong key in front of the right one, a valid path is found invalid. -/
theorem validate_stops_at_wrong_key :
    ¬ ∀ (keys : KeyStorage Bytes) (L : UInt8 → List (Nat × KeyElement Bytes)) (m : Multimap),
      Rep plainKeys keys L → Represents L m →
      ∀ (attr : BgpsecPath) (myAS : UInt32) (nlri : Nlri) (status : Status),
        ∃ valid data' keys', validate plainKeys sameBytes keys
            (updateData attr myAS nlri status) = some (valid, data', keys') ∧
          (valid = true ↔ PathValid plainKeys sameBytes keys.isPrivate m attr myAS nlri) := by
  intro hall
  obtain ⟨keys, m, hrun, hpriv, htransit, horigin⟩ : ∃ keys m,
      runKeys plainKeys (initStorage 1 false) (fun _ _ => []) [.store transitKey true,
        .store (originKey 8) true, .store (originKey 7) true] = some (keys, m) ∧
      keys.isPrivate = false ∧ m (htonl 65002) (.replicate 20 1) = [transitKey] ∧
      m (htonl 65001) (.replicate 20 2) = [originKey 8, originKey 7] := ⟨_, _, rfl, rfl, rfl, rfl⟩
  obtain ⟨L, hrep, hm⟩ := signerKeys_stored rfl hrun
  obtain ⟨valid, _, _, hval, hiff⟩ := hall keys L m hrep hm twoHops 65003 sampleNlri Status.ok
  obtain ⟨valid', _, _, hval', hfirst⟩ := validate_eq sameBytes hrep hm twoHops (by decide) 65003
    sampleNlri Status.ok rfl
  obtain rfl : valid = valid' := congrArg Prod.fst (Option.some.inj (hval.symm.trans hval'))
  rw [hpriv] at hiff hfirst
  have hpath : PathValid plainKeys sameBytes false m twoHops 65003 sampleNlri := by
    refine ⟨by decide, _, rfl, fun check hcheck => ?_⟩
    rw [twoHops_checks rfl] at hcheck
    obtain rfl | rfl : check = transitCheck ∨ check = originCheck := by simpa using hcheck
    · exact firstKeyVerifies_some ((firstKeyVerifies_sample htransit).mpr rfl)
    · exact ⟨[7], by simp [usableKeys, originCheck, horigin]; decide, rfl⟩
  have horiginFirst := hfirst.mp (hiff.mpr hpath) originCheck (by simp [twoHops_checks rfl])
  exact absurd ((firstKeyVerifies_sample horigin).mp horiginFirst) (by decide)

end SrxSuite.Crypto

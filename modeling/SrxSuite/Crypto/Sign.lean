import SrxSuite.Crypto.HashMessage
import SrxSuite.Crypto.KeyMultimap

/-!
# Signing

The model of `_sign` (`bgpsec_openssl.c`). Beside its return value it reports the byte string
that it hands to SHA-256.

`ChainOk` describes how a BGPsec_PATH grows: the origin announces it with its own path
segment, every transit hop prepends its path segment and, in every signature block, its
signature segment. The result is `sign_digests_verified_slice`: what a hop signs for its peer
is the slice that the peer verifies against the newest signature.
-/

namespace SrxSuite.Crypto

open Bytes

variable {κ : Type}

/-! ## The code -/

/-- `SCA_Signature`. -/
structure ScaSignature where
  ownedByAPI : Bool
  algoID : UInt8
  ski : Ski
  sigBuff : Bytes

/-- `SCA_BGPSecSignData`; `peerAS` is in network format. -/
structure SignData where
  peerAS : UInt32
  myHost : Option ScaPathSegment
  nlri : Option ScaPrefix
  ski : Option Ski
  algorithmID : UInt8
  status : Status
  hashMessage : Option HashMessage
  signature : Option ScaSignature

/-- What signing uses of OpenSSL. -/
structure SignEnv (κ : Type) where
  sha256 : Bytes → Bytes
  ecdsaSign : κ → Bytes → Option Bytes

/-- The outcome of `_sign`: the return value, the changed data and private keys, and the bytes
that were hashed, if the code got that far. -/
structure SignResult (κ : Type) where
  success : Bool
  data : SignData
  keys : KeyStorage κ
  digested : Option Bytes

/-- The hash message `_sign` starts from, with the status so far. An origin has none and
generates it. -/
def signMessage (data : SignData) (status : Status) : Option (Status × Option HashMessage) :=
  match data.hashMessage with
  | some msg => some (status, some msg)
  | none =>
    match data.nlri with
    | some nlri => do
      let host ← data.myHost
      let msg ← generateOriginHashMessage data.peerAS host nlri data.algorithmID
      some (status, some msg)
    | none => some (Status.errNoPrefix, none)

/-- The buffer that is hashed: the target AS and the own path segment are written into it. An
origin has its path segment behind the target AS, a transit hop in front of the AS that the
first slice starts with. -/
def prepareBuffer (peerAS : UInt32) (host : ScaPathSegment) (msg : HashMessage)
    (origin : Bool) : Option Bytes := do
  let buffer ← msg.buffer.writeAt 0 (le32 peerAS)
  let ptr ← msg.hashMessageValPtr.head?
  if origin then buffer.writeAt 4 host.memory
  else if 2 ≤ ptr.hashMessagePtr then buffer.writeAt (ptr.hashMessagePtr - 2) host.memory
  else none

/-- The part of the buffer that is hashed. For a transit hop it is the whole buffer, whose size
is cut to 16 bits. -/
def hashedBytes (msg : HashMessage) (buffer : Bytes) (origin : Bool) : Option Bytes := do
  let ptr ← msg.hashMessageValPtr.head?
  if origin then buffer.readAt ptr.hashMessagePtr ptr.hashMessageLength.toNat
  else buffer.readAt 0 msg.bufferSize.toUInt16.toNat

/-- `_sign` for data that is not NULL. -/
def sign (env : KeyEnv κ) (crypto : SignEnv κ) (keys : KeyStorage κ) (data : SignData) :
    Option (SignResult κ) := do
  let status := if data.myHost.isSome ∧ data.ski.isSome then Status.ok else Status.errNoData
  if data.algorithmID ≠ keys.algorithmID then
    let status := data.status ||| status ||| Status.errInvalidKey
    some ⟨false, { data with status := status }, keys, none⟩
  else
    let origin := data.hashMessage.isNone
    let (status, msg?) ← signMessage data status
    let data := { data with hashMessage := msg? }
    if status ≠ Status.ok then
      some ⟨false, { data with status := data.status ||| status }, keys, none⟩
    else
      let host ← data.myHost
      let ski ← data.ski
      let msg ← msg?
      let (found, keyStatus, keys) ← getEcKey env keys ski host.asn
      match found with
      | some (ecKeys, noKeys) =>
        if noKeys = 0 then some ⟨false, { data with status := keyStatus }, keys, none⟩
        else
          let buffer ← prepareBuffer data.peerAS host msg origin
          let digested ← hashedBytes msg buffer origin
          let key ← ecKeys.head?.join
          let data := { data with hashMessage := some { msg with buffer := buffer } }
          match crypto.ecdsaSign key (crypto.sha256 digested) with
          | some sig =>
            let signature : ScaSignature := ⟨true, data.algorithmID, ski, sig⟩
            some ⟨true, { data with status := keyStatus, signature := some signature }, keys,
              some digested⟩
          | none =>
            some ⟨false, { data with status := keyStatus ||| Status.infoSignature }, keys,
              some digested⟩
      | none => some ⟨false, { data with status := keyStatus }, keys, none⟩

/-- The bytes the verifier hashes for the newest signature. -/
def HashMessage.firstSlice (msg : HashMessage) : Option Bytes := do
  let ptr ← msg.hashMessageValPtr.head?
  msg.buffer.readAt ptr.hashMessagePtr ptr.hashMessageLength.toNat

/-! ## Chains of hops -/

/-- The struct the API is given for a path segment. -/
def SecurePathSegment.toSca (seg : SecurePathSegment) : ScaPathSegment :=
  ⟨seg.pCount, seg.flags, htonl seg.asn⟩

/-- A hop: its path segment, the AS it announces the path to, and the signature segment it
makes for each algorithm. -/
structure Hop where
  segment : SecurePathSegment
  peer : UInt32
  signature : UInt8 → SignatureSegment

/-- The block with the signature of a hop in front. -/
def Hop.prepend (hop : Hop) (block : SignatureBlock) : SignatureBlock :=
  ⟨block.algoID, hop.signature block.algoID :: block.segments⟩

/-- The path attribute of a hop extends the attribute it received, if any. -/
def Hop.Extends (hop : Hop) (received : Option BgpsecPath) (attr : BgpsecPath) : Prop :=
  match received with
  | some recv => attr.path = hop.segment :: recv.path ∧ attr.blocks = recv.blocks.map hop.prepend
  | none => attr.path = [hop.segment] ∧
      ∀ block ∈ attr.blocks, block.segments = [hop.signature block.algoID]

/-- A chain of hops with the attributes they announce, the newest first. -/
def ChainOk : List (Hop × BgpsecPath) → Prop
  | [] => True
  | (hop, attr) :: rest => hop.Extends (rest.head?.map Prod.snd) attr ∧ ChainOk rest

/-- What a hop does to sign: it generates the hash message of the path it received, if any,
and signs for its peer. -/
def Hop.sign (hop : Hop) (env : KeyEnv κ) (crypto : SignEnv κ) (keys : KeyStorage κ) (ski : Ski)
    (algoID : UInt8) (nlri : Nlri) (received : Option BgpsecPath) : Option (SignResult κ) := do
  let msg ← match received with
    | some recv => do
      let (_, _, data) ← generateHashMessage ⟨htonl hop.segment.asn, Status.ok,
        some recv.encode, some nlri.toSca, none, none⟩ algoID
      some data.hashMessage0
    | none => some none
  Crypto.sign env crypto keys ⟨htonl hop.peer, some hop.segment.toSca, some nlri.toSca, some ski,
    algoID, Status.ok, msg, none⟩

/-- The private key of a hop is in the storage. -/
def HasKey (env : KeyEnv κ) (keys : KeyStorage κ) (ski : Ski) (asn : UInt32) : Prop :=
  ∃ key ecKeys noKeys status keys', noKeys ≠ 0 ∧
    getEcKey env keys ski asn = some (some (some key :: ecKeys, noKeys), status, keys')

namespace SignLemmas

open HashMessageLemmas

theorem memory_toSca (seg : SecurePathSegment) : seg.toSca.memory = seg.encode := by
  simp [ScaPathSegment.memory, SecurePathSegment.toSca, SecurePathSegment.encode, le32_htonl]

theorem Extends.path_ne_nil {hop : Hop} {received : Option BgpsecPath} {attr : BgpsecPath}
    (h : hop.Extends received attr) : attr.path ≠ [] := by
  cases received with
  | some recv => simp [h.1]
  | none => simp [h.1]

/-- The block of an algorithm in an extended attribute. -/
theorem Extends.blockOf {hop : Hop} {recv attr : BgpsecPath} {algoID : UInt8}
    {block : SignatureBlock} (h : hop.Extends (some recv) attr)
    (hblock : attr.blockOf algoID = some block) :
    ∃ old, recv.blockOf algoID = some old ∧ block = hop.prepend old := by
  rw [BgpsecPath.blockOf, h.2, List.find?_map] at hblock
  obtain ⟨old, hold, rfl⟩ := Option.map_eq_some_iff.mp hblock
  exact ⟨old, hold, rfl⟩

/-- The verifier hashes the RFC 8205 sequence of the newest path segment. -/
theorem firstSlice_messageOf (target : UInt32) (algoID : UInt8) (nlri : Nlri)
    {sigs : List SignatureSegment} {path : List SecurePathSegment} (hn : path ≠ [])
    (hlen : sigs.length = path.length)
    (hshort : 6 * path.length + (sigs.flatMap SignatureSegment.encode).length < 65531) :
    (messageOf target sigs path algoID nlri).firstSlice =
      some (rfcMessage target sigs.tail path algoID nlri) := by
  obtain ⟨ptr, sig, target', hptr, -, htarget, hrec⟩ :=
    messageOf_records target algoID nlri hlen hshort (List.length_pos_of_ne_nil hn)
  obtain rfl : target = target' := by simpa [targets] using htarget
  rw [List.drop_one, List.drop_zero] at hrec
  rw [HashMessage.firstSlice, List.head?_eq_getElem?, hptr]
  simp only [Option.bind_eq_bind, Option.bind_some, messageOf, hrec.length]
  exact hrec.slice.readAt_eq

/-- The message of an origin. -/
theorem generateOriginHashMessage_encode (target : UInt32) (seg : SecurePathSegment)
    (nlri : Nlri) (algoID : UInt8) :
    ∃ msg, generateOriginHashMessage (htonl target) seg.toSca nlri.toSca algoID = some msg ∧
      msg.buffer = rfcMessage target [] [seg] algoID nlri ∧
      msg.hashMessageValPtr = [⟨none, 0, UInt16.ofNat msg.buffer.length⟩] ∧
      msg.buffer.length = 11 + nlri.encode.length := by
  have hlen := Nlri.length_encode nlri
  have hzeros : List.replicate (4 + 6 + 1 + (nlri.toSca.byteLength + 4)) (0 : UInt8) =
      [] ++ List.replicate ((be32 target).length + (seg.encode.length + ([algoID].length +
        (nlri.encode.length + 0)))) 0 := by
    simp only [length_be32, length_pathSegment, List.length_singleton, hlen, List.nil_append]
    congr 1
    omega
  have hw1 : Bytes.writeAt _ 0 _ = _ := writeAt_zeros [] (be32 target)
    (seg.encode.length + ([algoID].length + (nlri.encode.length + 0)))
  have hw2 : Bytes.writeAt _ 4 _ = _ := writeAt_zeros ([] ++ be32 target) seg.encode
    ([algoID].length + (nlri.encode.length + 0))
  have hw3 : Bytes.writeAt _ 10 _ = _ := writeAt_zeros ([] ++ be32 target ++ seg.encode) [algoID]
    (nlri.encode.length + 0)
  have hw4 : Bytes.writeAt _ 11 _ = _ :=
    writeAt_zeros ([] ++ be32 target ++ seg.encode ++ [algoID]) nlri.encode 0
  have hbuf : rfcMessage target [] [seg] algoID nlri =
      [] ++ be32 target ++ seg.encode ++ [algoID] ++ nlri.encode ++ List.replicate 0 0 := by
    simp [rfcMessage, interleave]
  have hsize : (rfcMessage target [] [seg] algoID nlri).length =
      4 + 6 + 1 + (nlri.toSca.byteLength + 4) := by
    simp only [rfcMessage, interleave, List.length_append, length_be32, length_pathSegment,
      List.length_singleton, hlen]
    omega
  refine ⟨⟨true, UInt32.ofNat (4 + 6 + 1 + (nlri.toSca.byteLength + 4)),
    rfcMessage target [] [seg] algoID nlri, 1, [⟨none, 0, UInt16.ofNat
      (4 + 6 + 1 + (nlri.toSca.byteLength + 4))⟩]⟩, ?_, rfl, by rw [hsize], ?_⟩
  · simp only [generateOriginHashMessage, hzeros, le32_htonl, memory_toSca, hw1, hw2, hw3, hw4,
      Nlri.readAt_memory, Option.bind_eq_bind, Option.bind_some, hbuf]
  · change (rfcMessage target [] [seg] algoID nlri).length = _
    omega

/-- An origin writes what its message already holds. -/
theorem prepareBuffer_origin {target : UInt32} {seg : SecurePathSegment} {nlri : Nlri}
    {algoID : UInt8} {msg : HashMessage} {ptr : HashMessagePtr}
    (hbuf : msg.buffer = rfcMessage target [] [seg] algoID nlri)
    (hptr : msg.hashMessageValPtr.head? = some ptr) :
    prepareBuffer (htonl target) seg.toSca msg true =
      some (rfcMessage target [] [seg] algoID nlri) := by
  have hall := holdsAt_self (rfcMessage target [] [seg] algoID nlri)
  have htarget : HoldsAt (rfcMessage target [] [seg] algoID nlri) 0 (be32 target) :=
    hall.left.left.left
  have hseg : HoldsAt (rfcMessage target [] [seg] algoID nlri) 4 seg.encode :=
    hall.left.left.right
  simp only [prepareBuffer, hbuf, hptr, le32_htonl, memory_toSca, htarget.writeAt_eq,
    hseg.writeAt_eq, Option.bind_eq_bind, Option.bind_some, if_true]

/-- A transit hop turns the buffer of the received path into the message for its peer. -/
theorem prepareBuffer_transit {target own : UInt32} {seg : SecurePathSegment}
    {sig : SignatureSegment} {sigs : List SignatureSegment} {path : List SecurePathSegment}
    {algoID : UInt8} {nlri : Nlri} :
    prepareBuffer (htonl target) seg.toSca (messageOf own (sig :: sigs) path algoID nlri) false =
      some (rfcMessage target (sig :: sigs) (seg :: path) algoID nlri) := by
  have hbuf : messageBuffer own (sig :: sigs) path algoID nlri =
      [] ++ List.replicate 4 0 ++ (sig.encode ++ (SecurePathSegment.encode ⟨0, 0, own⟩ ++
        (interleave sigs path ++ [algoID] ++ nlri.encode))) := by
    simp [messageBuffer, interleave]
  have hw1 : Bytes.writeAt _ 0 _ = _ := writeAt_middle [] (List.replicate 4 0)
    (sig.encode ++ (SecurePathSegment.encode ⟨0, 0, own⟩ ++
      (interleave sigs path ++ [algoID] ++ nlri.encode))) (be32 target) rfl
  have hw2 := writeAt_middle (be32 target ++ sig.encode) (SecurePathSegment.encode ⟨0, 0, own⟩)
    (interleave sigs path ++ [algoID] ++ nlri.encode) seg.encode rfl
  have hoff : 4 + sig.encode.length + 2 - 2 = (be32 target ++ sig.encode).length := by
    simp only [List.length_append, length_be32]
    omega
  have hge : 2 ≤ 4 + sig.encode.length + 2 := by omega
  simp only [List.append_assoc, List.nil_append] at hw1 hw2
  simp only [prepareBuffer, messageOf, slicePtrs, slicePtr, hbuf, le32_htonl, memory_toSca, hw1,
    List.append_assoc, List.nil_append, List.head?_cons, hge, hoff, Option.bind_eq_bind,
    Option.bind_some, if_true, Bool.false_eq_true, if_false, hw2, rfcMessage, interleave]

theorem readAt_all (buffer : Bytes) : buffer.readAt 0 buffer.length = some buffer :=
  (holdsAt_self buffer).readAt_eq

theorem hashedBytes_origin {msg : HashMessage} {buffer : Bytes}
    (hptrs : msg.hashMessageValPtr = [⟨none, 0, UInt16.ofNat buffer.length⟩])
    (hlt : buffer.length < 65536) : hashedBytes msg buffer true = some buffer := by
  simp only [hashedBytes, hptrs, List.head?_cons, toNat_ofNat16 hlt, readAt_all, if_true,
    Option.bind_eq_bind, Option.bind_some]

theorem hashedBytes_transit {msg : HashMessage} {buffer : Bytes} {ptr : HashMessagePtr}
    (hptr : msg.hashMessageValPtr.head? = some ptr)
    (hsize : msg.bufferSize = UInt32.ofNat buffer.length) (hlt : buffer.length < 65536) :
    hashedBytes msg buffer false = some buffer := by
  have hlen : (UInt32.ofNat buffer.length).toUInt16.toNat = buffer.length := by
    rw [UInt32.toNat_toUInt16, UInt32.toNat_ofNat']
    omega
  simp only [hashedBytes, hptr, hsize, hlen, readAt_all, Bool.false_eq_true, if_false,
    Option.bind_eq_bind, Option.bind_some]

/-- Once the buffer is prepared, `_sign` hashes it. -/
theorem sign_digested {env : KeyEnv κ} {keys : KeyStorage κ} {ski : Ski} (crypto : SignEnv κ)
    (data : SignData) {host : ScaPathSegment} {msg : HashMessage} {buffer digested : Bytes}
    (halgo : data.algorithmID = keys.algorithmID)
    (hhost : data.myHost = some host) (hski : data.ski = some ski)
    (hmsg : signMessage data Status.ok = some (Status.ok, some msg))
    (hkey : HasKey env keys ski host.asn)
    (hprep : prepareBuffer data.peerAS host msg data.hashMessage.isNone = some buffer)
    (hread : hashedBytes msg buffer data.hashMessage.isNone = some digested) :
    ∃ res, sign env crypto keys data = some res ∧ res.digested = some digested := by
  obtain ⟨key, ecKeys, noKeys, status, keys', hno, hget⟩ := hkey
  have hmap : (sign env crypto keys data).map SignResult.digested = some (some digested) := by
    cases hsig : crypto.ecdsaSign key (crypto.sha256 digested) <;>
      simp [sign, halgo, hhost, hski, hmsg, hget, hno, hprep, hread, hsig]
  exact Option.map_eq_some_iff.mp hmap

end SignLemmas

open SignLemmas HashMessageLemmas

/-- Signer and verifier hash the same bytes: in every chain of hops, what the newest hop hashes
to sign for its peer is the slice that `sca_generateHashMessage`, called by the peer on the
extended attribute, records for the newest signature. For the origin it is the message of
`sca_generateOriginHashMessage`. -/
theorem sign_digests_verified_slice (env : KeyEnv κ) (crypto : SignEnv κ) (keys : KeyStorage κ)
    (ski : Ski) (nlri : Nlri) (hop : Hop) (attr : BgpsecPath) (rest : List (Hop × BgpsecPath))
    (hchain : ChainOk ((hop, attr) :: rest)) {block : SignatureBlock}
    (hblock : attr.blockOf keys.algorithmID = some block)
    (hkey : HasKey env keys ski (htonl hop.segment.asn)) :
    ∃ res used data msg digest,
      hop.sign env crypto keys ski keys.algorithmID nlri (rest.head?.map Prod.snd) = some res ∧
      res.digested = some digest ∧
      generateHashMessage ⟨htonl hop.peer, Status.ok, some attr.encode, some nlri.toSca, none,
        none⟩ keys.algorithmID = some (used, Status.ok, data) ∧
      data.hashMessage0 = some msg ∧ msg.firstSlice = some digest ∧
      (rest = [] → ∃ origin, generateOriginHashMessage (htonl hop.peer) hop.segment.toSca
        nlri.toSca keys.algorithmID = some origin ∧ origin.buffer = digest) := by
  obtain ⟨hext, hrest⟩ := hchain
  have hmem := List.mem_of_find?_eq_some hblock
  have hshort := length_attr_block attr hmem
  rw [SignatureBlock.length] at hshort
  have hgen := generateHashMessage_encode attr (Extends.path_ne_nil hext) hop.peer nlri
    Status.ok none keys.algorithmID hblock
  have hslice := firstSlice_messageOf hop.peer keys.algorithmID nlri
    (Extends.path_ne_nil hext) (attr.signed block hmem) (by omega)
  suffices h : ∃ res, hop.sign env crypto keys ski keys.algorithmID nlri
        (rest.head?.map Prod.snd) = some res ∧ res.digested =
          some (rfcMessage hop.peer block.segments.tail attr.path keys.algorithmID nlri) ∧
      (rest = [] → ∃ origin, generateOriginHashMessage (htonl hop.peer) hop.segment.toSca
        nlri.toSca keys.algorithmID = some origin ∧ origin.buffer =
          rfcMessage hop.peer block.segments.tail attr.path keys.algorithmID nlri) by
    obtain ⟨res, hsign, hdig, horigin⟩ := h
    exact ⟨res, _, _, _, _, hsign, hdig, hgen, rfl, hslice, horigin⟩
  cases rest with
  | nil =>
    obtain ⟨hpath, hsigs⟩ := hext
    rw [hpath, hsigs block hmem, List.tail_cons]
    obtain ⟨msg, hmsg, hbuf, hptrs, hlen⟩ :=
      generateOriginHashMessage_encode hop.peer hop.segment nlri keys.algorithmID
    have hnlri := Nlri.length_encode nlri
    have hle := Nlri.byteLength_le nlri
    obtain ⟨res, hsign, hdig⟩ := sign_digested crypto ⟨htonl hop.peer,
        some hop.segment.toSca, some nlri.toSca, some ski, keys.algorithmID, Status.ok, none, none⟩
      rfl rfl rfl (by simp [signMessage, hmsg]) hkey
      (prepareBuffer_origin hbuf (by rw [hptrs]; rfl))
      (hashedBytes_origin (hbuf ▸ hptrs) (by rw [← hbuf]; omega))
    exact ⟨res, by simpa [Hop.sign] using hsign, hdig, fun _ => ⟨msg, hmsg, hbuf⟩⟩
  | cons prev rest =>
    obtain ⟨prevHop, recv⟩ := prev
    obtain ⟨old, hold, rfl⟩ := Extends.blockOf hext hblock
    obtain ⟨hpath, -⟩ := hext
    have hsigned := recv.signed old (List.mem_of_find?_eq_some hold)
    have hne := Extends.path_ne_nil hrest.1
    have hrecv := generateHashMessage_encode recv hne
      hop.segment.asn nlri Status.ok none keys.algorithmID hold
    rw [hpath]
    rw [hpath] at hshort
    simp only [Hop.prepend, List.tail_cons, List.flatMap_cons, List.length_append,
      List.length_cons, length_signatureSegment] at hshort ⊢
    cases hsegs : old.segments with
    | nil =>
      rw [hsegs] at hsigned
      exact absurd (List.length_eq_zero_iff.mp hsigned.symm) hne
    | cons sig sigs =>
      rw [hsegs] at hsigned hrecv hshort
      -- The buffer of the received path has the length of the message for the peer.
      have hlen : (rfcMessage hop.peer (sig :: sigs) (hop.segment :: recv.path)
          keys.algorithmID nlri).length =
            (messageBuffer hop.segment.asn (sig :: sigs) recv.path keys.algorithmID nlri).length := by
        simp only [rfcMessage, messageBuffer, interleave, List.length_append, length_be32,
          List.length_replicate, length_pathSegment]
      have hlen' := length_messageBuffer hop.segment.asn keys.algorithmID nlri hsigned
      have hle := Nlri.byteLength_le nlri
      obtain ⟨res, hsign, hdig⟩ := sign_digested crypto ⟨htonl hop.peer,
          some hop.segment.toSca, some nlri.toSca, some ski, keys.algorithmID, Status.ok,
          some (messageOf hop.segment.asn (sig :: sigs) recv.path keys.algorithmID nlri), none⟩
        rfl rfl rfl rfl hkey prepareBuffer_transit
        (hashedBytes_transit rfl (by rw [hlen]; rfl) (by omega))
      refine ⟨res, ?_, hdig, fun h => by simp at h⟩
      simpa [Hop.sign, hrecv] using hsign

/-- The attribute that the second hop of `twoHops` received. -/
def oneHop : BgpsecPath where
  flags := 0x50
  typeCode := 33
  path := [⟨2, 0, 65001⟩]
  blocks := [⟨7, [⟨.replicate 20 8, [4], one_fits16⟩]⟩, ⟨1, [⟨.replicate 20 2, [7], one_fits16⟩]⟩]
  blockCount := by decide
  signed := by decide
  fits := by decide

/-- The hops of `twoHops`. -/
def originHop : Hop :=
  ⟨⟨2, 0, 65001⟩, 65002, fun algoID => if algoID = 7 then ⟨.replicate 20 8, [4], one_fits16⟩
    else ⟨.replicate 20 2, [7], one_fits16⟩⟩

def transitHop : Hop :=
  ⟨⟨1, 0, 65002⟩, 65003, fun algoID => if algoID = 7 then ⟨.replicate 20 9, [3], one_fits16⟩
    else ⟨.replicate 20 1, [5, 6], two_fits16⟩⟩

/-- The private key of the transit hop in a storage. -/
def transitKeys : KeyStorage Bytes :=
  match storeKey plainKeys (initStorage 1 true)
    ⟨1, htonl 65002, .replicate 20 1, some [9]⟩ true with
  | some (_, _, s) => s
  | none => initStorage 1 true

theorem sign_digests_verified_slice_twoHops :
    ChainOk [(transitHop, twoHops), (originHop, oneHop)] ∧
    HasKey plainKeys transitKeys (.replicate 20 1) (htonl 65002) ∧
    ∃ res used data msg digest,
      transitHop.sign plainKeys ⟨id, fun key digest => some (key ++ digest)⟩ transitKeys
        (.replicate 20 1) 1 sampleNlri (some oneHop) = some res ∧
      res.digested = some digest ∧
      generateHashMessage ⟨htonl 65003, Status.ok, some twoHops.encode,
        some sampleNlri.toSca, none, none⟩ 1 = some (used, Status.ok, data) ∧
      data.hashMessage0 = some msg ∧ msg.firstSlice = some digest := by
  have hchain : ChainOk [(transitHop, twoHops), (originHop, oneHop)] :=
    ⟨⟨rfl, rfl⟩, ⟨rfl, by simp [oneHop, originHop]⟩, trivial⟩
  have hkey : HasKey plainKeys transitKeys (.replicate 20 1) (htonl 65002) :=
    ⟨[9], [], 1, Status.ok, _, by decide, rfl⟩
  refine ⟨hchain, hkey, ?_⟩
  obtain ⟨res, used, data, msg, digest, hsign, hdig, hgen, hmsg, hslice, -⟩ :=
    sign_digests_verified_slice plainKeys ⟨id, fun key digest => some (key ++ digest)⟩
      transitKeys (.replicate 20 1) sampleNlri transitHop twoHops [(originHop, oneHop)] hchain
      rfl hkey
  exact ⟨res, used, data, msg, digest, hsign, hdig, hgen, hmsg, hslice⟩

end SrxSuite.Crypto

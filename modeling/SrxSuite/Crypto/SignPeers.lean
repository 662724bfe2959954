import SrxSuite.Crypto.Sign

/-!
# Signing one update for several peers

`signPeers` hands the same `SCA_BGPSecSignData` to `_sign` once for each peer, changing only
the target AS. `_sign` tells an origin from a transit hop by the stored hash message, and it
stores the one it generates for an origin. So the second peer of an origin is signed as in
transit: the own path segment goes two bytes in front of the first slice, which for an origin
starts the buffer. In transit the same bytes are overwritten every time, and `Reusable` is
kept. `signPeers_iff` puts both together; a transit message of 65536 bytes or more is not
hashed as a whole by any call.
-/

namespace SrxSuite.Crypto

open Bytes LinkedList

variable {κ : Type}

/-- `_sign` once for each peer, on the data and keys that the call before it left. The result
has the bytes hashed by each call. -/
def signPeers (env : KeyEnv κ) (crypto : SignEnv κ) :
    KeyStorage κ → SignData → List UInt32 → Option (List (Option Bytes))
  | _, _, [] => some []
  | keys, data, peer :: peers => do
    let res ← sign env crypto keys { data with peerAS := htonl peer }
    let rest ← signPeers env crypto res.keys res.data peers
    some (res.digested :: rest)

/-- An update to be signed: the own path segment, the NLRI and, in transit, the received path,
which has a path segment and a signature block of the algorithm. -/
structure OutUpdate (algoID : UInt8) where
  host : SecurePathSegment
  nlri : Nlri
  received : Option BgpsecPath
  onPath : ∀ recv, received = some recv → recv.path ≠ [] ∧ recv.blockOf algoID ≠ none

namespace OutUpdate

variable {algoID : UInt8}

/-- The data for the first call: in transit the hash message of the received path. -/
def signData (upd : OutUpdate algoID) (ski : Ski) : Option SignData := do
  let msg ← match upd.received with
    | some recv => do
      let (_, _, data) ← generateHashMessage ⟨htonl upd.host.asn, Status.ok,
        some recv.encode, some upd.nlri.toSca, none, none⟩ algoID
      some data.hashMessage0
    | none => some none
  some ⟨0, some upd.host.toSca, some upd.nlri.toSca, some ski, algoID, Status.ok, msg, none⟩

/-- The received signature segments of the algorithm. -/
def signatures (upd : OutUpdate algoID) : List SignatureSegment :=
  match upd.received.bind fun recv => recv.blockOf algoID with
  | some block => block.segments
  | none => []

/-- The received path. -/
def receivedPath (upd : OutUpdate algoID) : List SecurePathSegment :=
  match upd.received with
  | some recv => recv.path
  | none => []

/-- What is to be hashed for a peer. -/
def message (upd : OutUpdate algoID) (peer : UInt32) : Bytes :=
  rfcMessage peer upd.signatures (upd.host :: upd.receivedPath) algoID upd.nlri

/-- The length of the message. -/
def size (upd : OutUpdate algoID) : Nat :=
  4 + (upd.signatures.flatMap SignatureSegment.encode).length +
    6 * (upd.receivedPath.length + 1) + 1 + upd.nlri.encode.length

end OutUpdate

/-- For every peer the hashed bytes are the message for that peer, and a signing for that peer
alone hashes them too. -/
def SameAsFresh (env : KeyEnv κ) (crypto : SignEnv κ) (keys : KeyStorage κ) (ski : Ski)
    {algoID : UInt8} (upd : OutUpdate algoID) (peers : List UInt32) : Prop :=
  ∃ data, upd.signData ski = some data ∧
    signPeers env crypto keys data peers = some (peers.map fun peer => some (upd.message peer)) ∧
    ∀ peer ∈ peers, signPeers env crypto keys data [peer] = some [some (upd.message peer)]

namespace SignPeersLemmas

open HashMessageLemmas SignLemmas

variable {env : KeyEnv κ} {crypto : SignEnv κ} {keys keys' : KeyStorage κ} {ski : Ski}
  {asn : UInt32}

/-! ## The key is found again -/

/-- A walk looks at the ASN, the SKI and the link of an element. -/
def walkView (n : Node (KeyElement κ)) : UInt32 × Ski × Option Nat := (n.val.asn, n.val.ski, n.next)

theorem findElement_congr {h h' : Heap (KeyElement κ)}
    (hview : ∀ a, (h a).map walkView = (h' a).map walkView) (fuel : Nat) (start : Option Nat) :
    findElement h asn ski fuel start = findElement h' asn ski fuel start := by
  induction fuel generalizing start with
  | zero => cases start <;> rfl
  | succ fuel ih =>
    cases start with
    | none => rfl
    | some a =>
      have ha := hview a
      cases hn : h a with
      | none =>
        rw [hn, Option.map_none, eq_comm, Option.map_eq_none_iff] at ha
        simp only [findElement, hn, ha]
      | some n =>
        rw [hn, Option.map_some, eq_comm, Option.map_eq_some_iff] at ha
        obtain ⟨n', hn', hsame⟩ := ha
        simp only [walkView, Prod.mk.injEq] at hsame
        obtain ⟨hasn, hski, hnext⟩ := hsame
        simp only [findElement, hn, hn', hasn, hski, hnext, ih]

/-- The turn of the conversion loop for one key: what it makes of the entry it keeps the next
time. A key that cannot be converted is tried again, with the same error. -/
theorem loadEcKeys_cons (env : KeyEnv κ) (isPrivate : Bool) (n : Nat) (der : Option BgpsecKey)
    (ders : List (Option BgpsecKey)) (ec : Option κ) :
    ∃ (ec' : Option κ) (f g : Status → Status), ∀ ecs status,
      loadEcKeys env isPrivate (n + 1) (der :: ders) (ec :: ecs) status =
        (loadEcKeys env isPrivate n ders ecs (f status)).map (Prod.map (ec' :: ·) id) ∧
      loadEcKeys env isPrivate (n + 1) (der :: ders) (ec' :: ecs) status =
        (loadEcKeys env isPrivate n ders ecs (g status)).map (Prod.map (ec' :: ·) id) := by
  cases ec with
  | some ec =>
    refine ⟨some ec, id, id, fun ecs status => ⟨?_, ?_⟩⟩ <;>
    · rw [Option.map_eq_bind]
      rfl
  | none =>
    cases der with
    | none =>
      refine ⟨none, (· ||| Status.errUser1), (· ||| Status.errUser1),
        fun ecs status => ⟨?_, ?_⟩⟩ <;>
      · rw [Option.map_eq_bind]
        rfl
    | some der =>
      cases hconv : env.convertKey isPrivate der.bytes with
      | ok ec =>
        refine ⟨some ec, fun status => if status &&& Status.errNoData ≠ 0
          then status ||| Status.errUser1 else status, id, fun ecs status => ⟨?_, ?_⟩⟩
        · rw [Option.map_eq_bind]
          simp only [loadEcKeys, hconv]
          rfl
        · rw [Option.map_eq_bind]
          rfl
      | error err =>
        let f (status : Status) : Status := if (status ||| err) &&& Status.errNoData ≠ 0
          then status ||| err ||| Status.errUser1 else status ||| err
        refine ⟨none, f, f, fun ecs status => ⟨?_, ?_⟩⟩ <;>
        · rw [Option.map_eq_bind]
          simp only [loadEcKeys, hconv]
          rfl

/-- What the conversion loop leaves it finds again. -/
theorem loadEcKeys_again {isPrivate : Bool} {n : Nat} {ders : List (Option BgpsecKey)}
    {ecs ecs' : List (Option κ)} {status status' : Status}
    (hload : loadEcKeys env isPrivate n ders ecs status = some (ecs', status')) (again : Status) :
    ∃ status'', loadEcKeys env isPrivate n ders ecs' again = some (ecs', status'') := by
  induction n generalizing ders ecs ecs' status again with
  | zero => exact ⟨again, rfl⟩
  | succ n ih =>
    cases ders with
    | nil => simp [loadEcKeys] at hload
    | cons der ders =>
      cases ecs with
      | nil => cases der <;> simp [loadEcKeys] at hload
      | cons ec ecs =>
        obtain ⟨ec', f, g, hturn⟩ := loadEcKeys_cons env isPrivate n der ders ec
        rw [(hturn ecs status).1, Option.map_eq_some_iff] at hload
        obtain ⟨⟨rest, status₁⟩, hrest, heq⟩ := hload
        obtain ⟨rfl, rfl⟩ : ec' :: rest = ecs' ∧ status₁ = status' := by simpa using heq
        obtain ⟨status₂, hagain⟩ := ih hrest (g again)
        exact ⟨status₂, by rw [(hturn rest again).2, hagain]; rfl⟩

theorem HasKey.again {found : Option (List (Option κ) × UInt16)} {status : Status}
    (hkey : HasKey env keys ski asn)
    (hget : getEcKey env keys ski asn = some (found, status, keys')) :
    HasKey env keys' ski asn ∧ keys'.algorithmID = keys.algorithmID := by
  obtain ⟨key, ecKeys, noKeys, status', keys₁, hno, hget'⟩ := hkey
  obtain ⟨rfl, rfl, rfl⟩ : found = _ ∧ status = _ ∧ keys' = keys₁ := by
    simpa using hget.symm.trans hget'
  simp only [getEcKey, Option.bind_eq_bind, Option.bind_eq_some_iff] at hget
  obtain ⟨a?, hfind, hget⟩ := hget
  cases a? with
  | none => simp at hget
  | some a =>
    simp only [Option.bind_eq_some_iff, Option.some.injEq, Prod.mk.injEq] at hget
    obtain ⟨n, hn, ⟨ecKey, status'⟩, hload, ⟨rfl, rfl⟩, rfl, rfl⟩ := hget
    obtain ⟨status'', hagain⟩ := loadEcKeys_again hload Status.ok
    have hview : ∀ b, (keys.heap.write a { n with val := { n.val with ecKey := some key :: ecKeys } }
        b).map walkView = (keys.heap b).map walkView := by
      intro b
      by_cases hb : b = a
      · rw [hb, Heap.write_same, hn]
        rfl
      · rw [Heap.write_of_ne _ _ hb]
    rw [KeyStorage.find, ← findElement_congr hview] at hfind
    exact ⟨⟨key, ecKeys, n.val.noKeys, status'', _, hno,
      by simp [getEcKey, KeyStorage.find, hfind, hagain]; rfl⟩, rfl⟩

/-! ## One call -/

/-- What a call leaves once the buffer is prepared: the buffer, and a key to sign with. -/
theorem sign_leaves (crypto : SignEnv κ) (data : SignData) {host : ScaPathSegment}
    {msg : HashMessage} {buffer digested : Bytes}
    (halgo : data.algorithmID = keys.algorithmID)
    (hhost : data.myHost = some host) (hski : data.ski = some ski)
    (hmsg : signMessage data Status.ok = some (Status.ok, some msg))
    (hkey : HasKey env keys ski host.asn)
    (hprep : prepareBuffer data.peerAS host msg data.hashMessage.isNone = some buffer)
    (hread : hashedBytes msg buffer data.hashMessage.isNone = some digested) :
    ∃ res status sig, sign env crypto keys data = some res ∧ res.digested = some digested ∧
      res.data = { data with
        hashMessage := some { msg with buffer := buffer }, status := status, signature := sig } ∧
      HasKey env res.keys ski host.asn ∧ res.keys.algorithmID = keys.algorithmID := by
  obtain ⟨key, ecKeys, noKeys, status, keys', hno, hget⟩ := id hkey
  obtain ⟨hagain, hsame⟩ := HasKey.again hkey hget
  have hleft (success : Bool) (status : Status) (sig : Option ScaSignature)
      (hsign : sign env crypto keys data = some ⟨success, { data with
        hashMessage := some { msg with buffer := buffer }, status := status, signature := sig },
        keys', some digested⟩) :
      ∃ res status sig, sign env crypto keys data = some res ∧ res.digested = some digested ∧
        res.data = { data with
          hashMessage := some { msg with buffer := buffer }, status := status, signature := sig } ∧
        HasKey env res.keys ski host.asn ∧ res.keys.algorithmID = keys.algorithmID :=
    ⟨_, status, sig, hsign, rfl, rfl, hagain, hsame⟩
  cases hsig : crypto.ecdsaSign key (crypto.sha256 digested) with
  | some sig =>
    refine hleft true status (some ⟨true, data.algorithmID, ski, sig⟩) ?_
    simp [sign, halgo, hhost, hski, hmsg, hget, hno, hprep, hread, hsig]
  | none =>
    refine hleft false (status ||| Status.infoSignature) data.signature ?_
    simp [sign, halgo, hhost, hski, hmsg, hget, hno, hprep, hread, hsig]

/-- A call that would write outside of the buffer. -/
theorem sign_outside (crypto : SignEnv κ) (data : SignData) {host : ScaPathSegment}
    {msg : HashMessage} (halgo : data.algorithmID = keys.algorithmID)
    (hhost : data.myHost = some host) (hski : data.ski = some ski)
    (hmsg : signMessage data Status.ok = some (Status.ok, some msg))
    (hkey : HasKey env keys ski host.asn)
    (hprep : prepareBuffer data.peerAS host msg data.hashMessage.isNone = none) :
    sign env crypto keys data = none := by
  obtain ⟨key, ecKeys, noKeys, status, keys', hno, hget⟩ := hkey
  simp [sign, halgo, hhost, hski, hmsg, hget, hno, hprep]

/-! ## Transit -/

variable {algoID : UInt8} {upd : OutUpdate algoID} {data : SignData}

/-- The path and the signatures of an update in transit. -/
theorem transit_parts {recv : BgpsecPath} (hrecv : upd.received = some recv) :
    ∃ block sig sigs, recv.blockOf algoID = some block ∧ block.segments = sig :: sigs ∧
      upd.signatures = sig :: sigs ∧ upd.receivedPath = recv.path ∧
      (sig :: sigs).length = recv.path.length := by
  obtain ⟨hne, hblock⟩ := upd.onPath recv hrecv
  obtain ⟨block, hblock⟩ := Option.ne_none_iff_exists'.mp hblock
  have hsigned := recv.signed block (List.mem_of_find?_eq_some hblock)
  cases hsegs : block.segments with
  | nil =>
    rw [hsegs] at hsigned
    exact absurd (List.length_eq_zero_iff.mp hsigned.symm) hne
  | cons sig sigs =>
    rw [hsegs] at hsigned
    refine ⟨block, sig, sigs, hblock, hsegs, ?_, ?_, hsigned⟩
    · simp [OutUpdate.signatures, hrecv, hblock, hsegs]
    · simp [OutUpdate.receivedPath, hrecv]

theorem length_message (upd : OutUpdate algoID) (peer : UInt32) :
    (upd.message peer).length = upd.size := by
  have hlen : (upd.host :: upd.receivedPath).length = upd.signatures.length + 1 := by
    cases hrecv : upd.received with
    | none => simp [OutUpdate.receivedPath, OutUpdate.signatures, hrecv]
    | some recv =>
      obtain ⟨block, sig, sigs, -, -, hsigs, hpath, hlen⟩ := transit_parts hrecv
      rw [hsigs, hpath, List.length_cons, hlen]
  simp only [OutUpdate.message, rfcMessage, OutUpdate.size, List.length_append, length_be32,
    length_interleave hlen, List.length_cons, List.length_nil]
  omega

/-- The data of a transit hop before and after every call: the target AS and the place in front
of the first slice may hold anything, the rest is the message. -/
structure Reusable (env : KeyEnv κ) (keys : KeyStorage κ) (ski : Ski) (upd : OutUpdate algoID)
    (data : SignData) : Prop where
  keyAlgo : algoID = keys.algorithmID
  dataAlgo : data.algorithmID = algoID
  hasHost : data.myHost = some upd.host.toSca
  hasSki : data.ski = some ski
  key : HasKey env keys ski (htonl upd.host.asn)
  message : ∃ msg target seg front rest ptr, data.hashMessage = some msg ∧
    (∀ peer, upd.message peer = be32 peer ++ front ++ upd.host.encode ++ rest) ∧
    msg.buffer = target ++ front ++ seg ++ rest ∧ target.length = 4 ∧ seg.length = 6 ∧
    msg.bufferSize = UInt32.ofNat upd.size ∧
    msg.hashMessageValPtr.head? = some ptr ∧ ptr.hashMessagePtr = 4 + front.length + 2

/-- What a transit hop hashes: the message, as far as its length fits 16 bits. -/
def digestedFor (upd : OutUpdate algoID) (peer : UInt32) : Bytes :=
  (upd.message peer).take (upd.size % 65536)

theorem digestedFor_eq (upd : OutUpdate algoID) (peer : UInt32) :
    digestedFor upd peer = upd.message peer ↔ upd.size < 65536 := by
  have hlen := length_message upd peer
  constructor
  · intro heq
    have hcut := congrArg List.length heq
    rw [digestedFor, List.length_take, hlen] at hcut
    have := Nat.mod_lt upd.size (show 0 < 65536 by decide)
    omega
  · intro hlt
    rw [digestedFor, Nat.mod_eq_of_lt hlt, ← hlen, List.take_length]

/-- One call in transit. -/
theorem Reusable.step (crypto : SignEnv κ) (hre : Reusable env keys ski upd data)
    (peer : UInt32) :
    ∃ res, sign env crypto keys { data with peerAS := htonl peer } = some res ∧
      res.digested = some (digestedFor upd peer) ∧ Reusable env res.keys ski upd res.data := by
  obtain ⟨msg, target, seg, front, rest, ptr, hmsg, hmessage, hbuf, htarget, hseg, hsize, hptr,
    hoff⟩ := hre.message
  have hsome : data.hashMessage.isNone = false := by rw [hmsg]; rfl
  have hw1 : Bytes.writeAt _ 0 _ = _ :=
    writeAt_middle [] target (front ++ (seg ++ rest)) (be32 peer) htarget.symm
  have hw2 := writeAt_middle (be32 peer ++ front) seg rest upd.host.encode hseg.symm
  have hat : ptr.hashMessagePtr - 2 = (be32 peer ++ front).length := by
    rw [hoff, List.length_append, length_be32, Nat.add_sub_cancel]
  have hge : 2 ≤ ptr.hashMessagePtr := by omega
  simp only [List.append_assoc, List.nil_append] at hw1 hw2
  have hprep : prepareBuffer (htonl peer) upd.host.toSca msg false = some (upd.message peer) := by
    simp only [prepareBuffer, hbuf, hmessage, le32_htonl, memory_toSca, hptr, hge, hat, hw1, hw2,
      List.append_assoc, Option.bind_eq_bind, Option.bind_some, if_true, Bool.false_eq_true,
      if_false]
  have hcut : msg.bufferSize.toUInt16.toNat = upd.size % 65536 := by
    rw [hsize, UInt32.toNat_toUInt16, UInt32.toNat_ofNat']
    omega
  have hle : 0 + upd.size % 65536 ≤ (upd.message peer).length := by
    rw [length_message, Nat.zero_add]
    exact Nat.mod_le _ _
  have hread : hashedBytes msg (upd.message peer) false = some (digestedFor upd peer) := by
    simp only [hashedBytes, hptr, hcut, Bytes.readAt, hle, digestedFor, List.drop_zero,
      Option.bind_eq_bind, Option.bind_some, if_true, Bool.false_eq_true, if_false]
  have hstored : signMessage { data with peerAS := htonl peer } Status.ok =
      some (Status.ok, some msg) := by
    simp [signMessage, hmsg]
  obtain ⟨res, status, sig, hsign, hdig, hdata, hkey, halgo⟩ :=
    sign_leaves crypto { data with peerAS := htonl peer } (hre.dataAlgo.trans hre.keyAlgo)
      hre.hasHost hre.hasSki hstored hre.key (by rwa [hsome]) (by rwa [hsome])
  refine ⟨res, hsign, hdig, hre.keyAlgo.trans halgo.symm, ?_, ?_, ?_, hkey, ?_⟩
  · rw [hdata]
    exact hre.dataAlgo
  · rw [hdata]
    exact hre.hasHost
  · rw [hdata]
    exact hre.hasSki
  · refine ⟨{ msg with buffer := upd.message peer }, be32 peer, upd.host.encode, front, rest, ptr,
      by rw [hdata], hmessage, hmessage peer, rfl, rfl, hsize, hptr, hoff⟩

/-- Every call in transit hashes the same for its peer, whatever calls went before it. -/
theorem signPeers_transit (crypto : SignEnv κ) (hre : Reusable env keys ski upd data)
    (peers : List UInt32) :
    signPeers env crypto keys data peers =
      some (peers.map fun peer => some (digestedFor upd peer)) := by
  induction peers generalizing keys data with
  | nil => rfl
  | cons peer peers ih =>
    obtain ⟨res, hsign, hdig, hnext⟩ := hre.step crypto peer
    simp only [signPeers, hsign, hdig, ih hnext, List.map_cons, Option.bind_eq_bind,
      Option.bind_some]

/-- The data of a transit hop before the first call. -/
theorem reusable_signData {recv : BgpsecPath} (hrecv : upd.received = some recv)
    (halgo : algoID = keys.algorithmID) (hkey : HasKey env keys ski (htonl upd.host.asn)) :
    ∃ data, upd.signData ski = some data ∧ Reusable env keys ski upd data := by
  obtain ⟨block, sig, sigs, hblock, hsegs, hsigs, hpath, hlen⟩ := transit_parts hrecv
  have hgen := generateHashMessage_encode recv (upd.onPath recv hrecv).1 upd.host.asn upd.nlri
    Status.ok none algoID hblock
  rw [hsegs] at hgen
  have hmessage (peer : UInt32) : upd.message peer = be32 peer ++ sig.encode ++ upd.host.encode ++
      (interleave sigs recv.path ++ [algoID] ++ upd.nlri.encode) := by
    simp [OutUpdate.message, hsigs, hpath, rfcMessage, interleave]
  have hbuf : messageBuffer upd.host.asn (sig :: sigs) recv.path algoID upd.nlri =
      List.replicate 4 0 ++ sig.encode ++ SecurePathSegment.encode ⟨0, 0, upd.host.asn⟩ ++
        (interleave sigs recv.path ++ [algoID] ++ upd.nlri.encode) := by
    simp [messageBuffer, interleave]
  have hsize : (messageBuffer upd.host.asn (sig :: sigs) recv.path algoID upd.nlri).length =
      upd.size := by
    rw [← length_message upd 0, hmessage, hbuf]
    simp only [List.length_append, List.length_replicate, length_be32, length_pathSegment]
  refine ⟨⟨0, some upd.host.toSca, some upd.nlri.toSca, some ski, algoID, Status.ok,
    some (messageOf upd.host.asn (sig :: sigs) recv.path algoID upd.nlri), none⟩, ?_,
    halgo, rfl, rfl, rfl, hkey, ?_⟩
  · simp only [OutUpdate.signData, hrecv, hgen, Option.bind_eq_bind, Option.bind_some]
  · exact ⟨_, _, _, sig.encode, _, _, rfl, hmessage, hbuf, rfl, rfl, by rw [← hsize]; rfl, rfl, rfl⟩

/-! ## The origin -/

/-- The first call of an origin, and what it leaves. -/
theorem signPeers_origin (crypto : SignEnv κ) (hrecv : upd.received = none)
    (halgo : algoID = keys.algorithmID) (hkey : HasKey env keys ski (htonl upd.host.asn)) :
    ∃ data, upd.signData ski = some data ∧ ∀ peer,
      ∃ res, sign env crypto keys { data with peerAS := htonl peer } = some res ∧
        res.digested = some (upd.message peer) ∧
        ∀ next, sign env crypto res.keys { res.data with peerAS := next } = none := by
  refine ⟨⟨0, some upd.host.toSca, some upd.nlri.toSca, some ski, algoID, Status.ok, none, none⟩,
    by simp only [OutUpdate.signData, hrecv]; rfl, fun peer => ?_⟩
  have hmessage : rfcMessage peer [] [upd.host] algoID upd.nlri = upd.message peer := by
    simp [OutUpdate.message, OutUpdate.signatures, OutUpdate.receivedPath, hrecv]
  obtain ⟨msg, hmsg, hbuf, hptrs, hlen⟩ :=
    generateOriginHashMessage_encode peer upd.host upd.nlri algoID
  have hnlri := Nlri.length_encode upd.nlri
  have hle := Nlri.byteLength_le upd.nlri
  have hprep := prepareBuffer_origin hbuf (by rw [hptrs]; rfl)
  have hread : hashedBytes msg msg.buffer true = some msg.buffer :=
    hashedBytes_origin hptrs (by omega)
  rw [hbuf] at hread
  obtain ⟨res, status, sig, hsign, hdig, hdata, hkey', halgo'⟩ :=
    sign_leaves crypto ⟨htonl peer, some upd.host.toSca, some upd.nlri.toSca, some ski, algoID,
      Status.ok, none, none⟩ halgo rfl rfl (by simp [signMessage, hmsg]) hkey hprep hread
  refine ⟨res, hsign, hmessage ▸ hdig, fun next => ?_⟩
  rw [hdata]
  -- The slice of an origin starts at the buffer, so there is nothing in front of it.
  refine sign_outside crypto _ (halgo.trans halgo'.symm) rfl rfl rfl hkey' ?_
  have hfirst : msg.hashMessageValPtr.head? =
      some ⟨none, 0, UInt16.ofNat msg.buffer.length⟩ := by rw [hptrs]; rfl
  simp only [prepareBuffer, hfirst, Option.isNone_some, Bool.false_eq_true, if_false]
  cases Bytes.writeAt (rfcMessage peer [] [upd.host] algoID upd.nlri) 0 (le32 next) <;> rfl

end SignPeersLemmas

open SignPeersLemmas

/-- `_sign` serves several peers independently exactly when an origin has at most one peer and,
in transit, the message is shorter than 65536 bytes. The second call of an origin writes two
bytes in front of the buffer; a longer message is hashed as far as the low 16 bits of its
length reach. -/
theorem signPeers_iff (env : KeyEnv κ) (crypto : SignEnv κ) (keys : KeyStorage κ) (ski : Ski)
    (upd : OutUpdate keys.algorithmID) (peers : List UInt32)
    (hkey : HasKey env keys ski (htonl upd.host.asn)) :
    SameAsFresh env crypto keys ski upd peers ↔
      match upd.received with
      | none => peers.length ≤ 1
      | some _ => peers = [] ∨ upd.size < 65536 := by
  cases hrecv : upd.received with
  | none =>
    obtain ⟨data, hdata, hfirst⟩ := signPeers_origin crypto hrecv rfl hkey
    have hone (peer : UInt32) :
        signPeers env crypto keys data [peer] = some [some (upd.message peer)] := by
      obtain ⟨res, hsign, hdig, -⟩ := hfirst peer
      simp only [signPeers, hsign, hdig, Option.bind_eq_bind, Option.bind_some]
    cases peers with
    | nil => exact ⟨fun _ => Nat.zero_le 1, fun _ => ⟨data, hdata, rfl, by simp⟩⟩
    | cons peer peers =>
      cases peers with
      | nil => exact ⟨fun _ => Nat.le_refl 1, fun _ => ⟨data, hdata, hone peer, fun p _ => hone p⟩⟩
      | cons next peers =>
        refine ⟨fun h => ?_, fun h => by simp at h⟩
        obtain ⟨data', hdata', hrun, -⟩ := h
        obtain rfl : data = data' := Option.some.inj (hdata.symm.trans hdata')
        obtain ⟨res, hsign, -, hnone⟩ := hfirst peer
        simp [signPeers, hsign, hnone] at hrun
  | some recv =>
    obtain ⟨data, hdata, hre⟩ := reusable_signData hrecv rfl hkey
    constructor
    · rintro ⟨data', hdata', hrun, -⟩
      obtain rfl : data = data' := Option.some.inj (hdata.symm.trans hdata')
      rw [signPeers_transit crypto hre] at hrun
      cases peers with
      | nil => exact .inl rfl
      | cons peer peers =>
        have hhead := (List.cons.inj (Option.some.inj hrun)).1
        exact .inr ((digestedFor_eq upd peer).mp (Option.some.inj hhead))
    · intro h
      have hall (ps : List UInt32) (hps : ps = [] ∨ upd.size < 65536) :
          signPeers env crypto keys data ps = some (ps.map fun peer => some (upd.message peer)) := by
        rw [signPeers_transit crypto hre]
        rcases hps with rfl | hlt
        · rfl
        · simp only [(digestedFor_eq upd _).mpr hlt]
      refine ⟨data, hdata, hall peers h, fun peer hmem => ?_⟩
      rcases h with rfl | hlt
      · simp at hmem
      · exact hall [peer] (.inr hlt)

/-- The transit hop of `twoHops` and an origin of the same AS. -/
def transitUpdate : OutUpdate 1 := ⟨transitHop.segment, sampleNlri, some oneHop, by
  rintro recv ⟨⟩
  decide⟩

def originUpdate : OutUpdate 1 := ⟨transitHop.segment, sampleNlri, none, by simp⟩

/-- A signer for the samples. -/
def plainSign : SignEnv Bytes := ⟨id, fun key digest => some (key ++ digest)⟩

theorem signPeers_iff_transit :
    HasKey plainKeys transitKeys (.replicate 20 1) (htonl 65002) ∧
      (SameAsFresh plainKeys plainSign transitKeys (.replicate 20 1) transitUpdate [65003, 65004] ↔
        ([65003, 65004] : List UInt32) = [] ∨ transitUpdate.size < 65536) := by
  have hkey : HasKey plainKeys transitKeys (.replicate 20 1) (htonl 65002) :=
    ⟨[9], [], 1, Status.ok, _, by decide, rfl⟩
  exact ⟨hkey, signPeers_iff plainKeys plainSign transitKeys (.replicate 20 1) transitUpdate
    [65003, 65004] hkey⟩

/-- An origin with two peers. -/
theorem origin_two_peers :
    ¬ SameAsFresh plainKeys plainSign transitKeys (.replicate 20 1) originUpdate
      [65003, 65004] := by
  rintro ⟨data, hdata, hrun, -⟩
  obtain ⟨data', hdata', hnone⟩ : ∃ data, originUpdate.signData (.replicate 20 1) = some data ∧
      signPeers plainKeys plainSign transitKeys data [65003, 65004] = none := ⟨_, rfl, rfl⟩
  obtain rfl : data = data' := Option.some.inj (hdata.symm.trans hdata')
  rw [hnone] at hrun
  cases hrun

end SrxSuite.Crypto

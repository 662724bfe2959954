import SrxSuite.Lib.Bytes
import SrxSuite.Lib.Probing
import SrxSuite.Server.Requests

/-!
# The identity of an update

A verify request is given the identifier of its update: the CRC-32 of a text of the update
(`generateIdentifier`, `shared/srx_identifier.c`), or the first one after it that `detectCollision`
(`server/update_cache.c`) takes. The comparison is to tell the stored update from the new one. It
overwrites what it finds about the prefix, and it compares the BGPsec attributes over the length of
the stored one only.

Results:
1. `identity_iff`: `detectCollision` is right about a stored update if and only if it is the new one
   or differs from it in the origin AS, the AS path or a byte both attributes have; and over any
   sequence of requests the identifiers are right if and only if each request comes, before a free
   identifier or its own update, past such updates only.
2. `identity_shared`: two prefixes of one AS whose texts have the same CRC get one identifier.
-/

namespace SrxSuite.Server

/-! ## Updates -/

/-- `IPAddress`: the word of an IPv4 address as the host reads it, or the bytes of an IPv6 address. -/
inductive IPAddress
  | v4 (u32 : UInt32)
  | v6 (u8 : Vector UInt8 16)
  deriving DecidableEq, Repr

/-- `IPPrefix` as a request brings it; the length is not checked. -/
structure IPPrefix where
  ip : IPAddress
  length : UInt8
  deriving DecidableEq, Repr

/-- What an update is: the origin AS, the prefix, the AS path and the BGPsec attribute, which is
empty when there is none. -/
structure UpdateData where
  asn : UInt32
  ipPrefix : IPPrefix
  path : List UInt32
  bgpsecPath : List UInt8
  hops : path.length < 2 ^ 16
  attrLength : bgpsecPath.length < 2 ^ 16
  deriving DecidableEq, Repr

/-! ## The identifier -/

/-- `sprintf("%02X", n)` for a byte. -/
def hexByte (n : UInt8) : List UInt8 := [hexDigit (n.toNat / 16), hexDigit (n.toNat % 16)]

/-- What `sprintf("%02X", *(char*)blob)` leaves for a byte. A character is signed: from 128 on it is
written as eight digits, of which the next byte leaves the first two. -/
def hexChar (n : UInt8) : List UInt8 := if n < 128 then hexByte n else [hexDigit 15, hexDigit 15]

/-- The text of a prefix. -/
def prefixText (p : IPPrefix) : List UInt8 :=
  match p.ip with
  | .v4 u32 => hexWord u32 ++ hexByte p.length
  | .v6 u8 => u8.toList.flatMap hexByte ++ hexByte p.length

/-- `blob`: the BGPsec attribute, or the AS path in network order without one. -/
def identifierBlob (u : UpdateData) : List UInt8 :=
  if u.bgpsecPath ≠ [] then u.bgpsecPath else u.path.flatMap Bytes.be32

/-- `generateIdentifier`. -/
def generateIdentifier (u : UpdateData) : UInt32 :=
  crc32 (hexWord u.asn ++ prefixText u.ipPrefix ++ (identifierBlob u).flatMap hexChar)

/-! ## Collisions -/

/-- `memcmp` of the first `n` elements, up to the first difference. It is `none` when it reads past
the end of an array. -/
def memcmp {α : Type} [DecidableEq α] : Nat → List α → List α → Option Bool
  | 0, _, _ => some false
  | n + 1, a :: as, b :: bs => if a = b then memcmp n as bs else some true
  | _ + 1, _, _ => none

/-- The comparison of `detectCollision` with the update it found. -/
def collides (cEntry new : UpdateData) : Option Bool :=
  if cEntry.asn = new.asn then
    if cEntry.path.length = new.path.length then
      -- the loop over the addresses comes first; the next line overwrites what it finds
      match memcmp cEntry.path.length cEntry.path new.path with
      | some false => memcmp cEntry.bgpsecPath.length cEntry.bgpsecPath new.bgpsecPath
      | out => out
    else some true
  else some true

/-- `detectCollision` in a cache that holds `store updateID` under an identifier. -/
def detectCollision (store : UInt32 → Option UpdateData) (updateID : UInt32) (new : UpdateData) :
    Option Bool :=
  match store updateID with
  | none => some false
  | some cEntry => collides cEntry new

/-- The answer `detectCollision` is to give. -/
def DetectsCollision (store : UInt32 → Option UpdateData) (updateID : UInt32) (new : UpdateData) :
    Prop :=
  ∃ collision, detectCollision store updateID new = some collision ∧
    (collision = true ↔ ∃ u, store updateID = some u ∧ u ≠ new)

/-- The updates differ in the origin AS, in the AS path, or in a byte that both attributes have. -/
def ToldApart (u new : UpdateData) : Prop :=
  u.asn ≠ new.asn ∨ u.path ≠ new.path ∨
    ∃ (i : Nat) (a b : UInt8), u.bgpsecPath[i]? = some a ∧ new.bgpsecPath[i]? = some b ∧ a ≠ b

namespace IdentityLemmas

variable {α : Type} [DecidableEq α]

theorem memcmp_self (as : List α) : memcmp as.length as as = some false := by
  induction as with
  | nil => rfl
  | cons a as ih =>
    show (if a = a then memcmp as.length as as else some true) = some false
    rw [if_pos rfl, ih]

/-- A difference in the elements both arrays have. -/
theorem memcmp_true_iff (as bs : List α) :
    memcmp as.length as bs = some true ↔
      ∃ (i : Nat) (a b : α), as[i]? = some a ∧ bs[i]? = some b ∧ a ≠ b := by
  induction as generalizing bs with
  | nil =>
    constructor
    · intro h
      cases h
    · rintro ⟨i, a, b, ha, -⟩
      cases ha
  | cons a as ih =>
    cases bs with
    | nil =>
      constructor
      · intro h
        cases h
      · rintro ⟨i, a, b, -, hb, -⟩
        cases hb
    | cons b bs =>
      show (if a = b then memcmp as.length as bs else some true) = some true ↔ _
      split
      · next hab =>
        rw [ih]
        constructor
        · rintro ⟨i, c, d, hc, hd, hne⟩
          exact ⟨i + 1, c, d, hc, hd, hne⟩
        · rintro ⟨i, c, d, hc, hd, hne⟩
          cases i with
          | zero =>
            cases hc
            cases hd
            exact absurd hab hne
          | succ i => exact ⟨i, c, d, hc, hd, hne⟩
      · next hab => exact ⟨fun _ => ⟨0, a, b, rfl, rfl, hab⟩, fun _ => rfl⟩

/-- Arrays of one length are compared as a whole. -/
theorem memcmp_eq_length {as bs : List α} (h : as.length = bs.length) :
    memcmp as.length as bs = some (decide (as ≠ bs)) := by
  induction as generalizing bs with
  | nil =>
    cases bs with
    | nil => rfl
    | cons b bs => cases h
  | cons a as ih =>
    cases bs with
    | nil => cases h
    | cons b bs =>
      show (if a = b then memcmp as.length as bs else some true) = _
      split
      · next hab =>
        rw [ih (Nat.succ.inj h), hab]
        simp
      · next hab => simp [hab]

variable {u new : UpdateData} {store : UInt32 → Option UpdateData} {updateID : UInt32}

theorem collides_self (u : UpdateData) : collides u u = some false := by
  unfold collides
  rw [if_pos rfl, if_pos rfl, memcmp_self]
  exact memcmp_self u.bgpsecPath

/-- The comparison sees a difference in these fields, and no other. -/
theorem collides_true_iff : collides u new = some true ↔ ToldApart u new := by
  unfold collides ToldApart
  by_cases hasn : u.asn = new.asn
  · rw [if_pos hasn]
    by_cases hlen : u.path.length = new.path.length
    · rw [if_pos hlen, memcmp_eq_length hlen]
      by_cases hpath : u.path = new.path
      · rw [decide_eq_false fun h => h hpath]
        dsimp only
        rw [memcmp_true_iff]
        constructor
        · intro h
          exact .inr (.inr h)
        · rintro (h | h | h)
          · exact absurd hasn h
          · exact absurd hpath h
          · exact h
      · rw [decide_eq_true hpath]
        exact ⟨fun _ => .inr (.inl hpath), fun _ => rfl⟩
    · rw [if_neg hlen]
      exact ⟨fun _ => .inr (.inl fun hpath => hlen (congrArg List.length hpath)), fun _ => rfl⟩
  · rw [if_neg hasn]
    exact ⟨fun _ => .inl hasn, fun _ => rfl⟩

theorem ne_of_toldApart (h : ToldApart u new) : u ≠ new := by
  rintro rfl
  rcases h with h | h | ⟨i, a, b, ha, hb, hne⟩
  · exact h rfl
  · exact h rfl
  · rw [ha] at hb
    exact hne (Option.some.inj hb)

/-- When `detectCollision` is right about an identifier. -/
theorem detectsCollision_iff :
    DetectsCollision store updateID new ↔
      ∀ u, store updateID = some u → u = new ∨ ToldApart u new := by
  unfold DetectsCollision detectCollision
  cases hstore : store updateID with
  | none =>
    refine ⟨fun _ u hu => (nomatch hu), fun _ => ⟨false, rfl, ?_⟩⟩
    exact ⟨fun h => (nomatch h), fun ⟨u, hu, _⟩ => (nomatch hu)⟩
  | some u =>
    dsimp only
    constructor
    · rintro ⟨collision, hout, hright⟩ u' hu
      obtain rfl := Option.some.inj hu
      rw [Classical.or_iff_not_imp_left]
      intro hne
      rw [hright.mpr ⟨u, rfl, hne⟩] at hout
      exact collides_true_iff.mp hout
    · intro h
      rcases h u rfl with rfl | happart
      · refine ⟨false, collides_self u, fun hn => (nomatch hn), fun ⟨u', hu, hne⟩ => ?_⟩
        exact absurd (Option.some.inj hu).symm hne
      · exact ⟨true, collides_true_iff.mpr happart, fun _ => ⟨u, rfl, ne_of_toldApart happart⟩, fun _ => rfl⟩

end IdentityLemmas

open IdentityLemmas

/-! ## Requests one after the other -/

/-- How an update gets its identifier: `updateID` counts up, and begins at zero again, until
`detectCollision` returns false. After `2 ^ 32` collisions it never does. -/
def updateIDs : Probing.Scheme UInt32 UpdateData where
  hash := generateIdentifier
  next := (· + 1)
  size := 2 ^ 32
  differs := collides
  differs_self := collides_self

/-- A verify request as it comes from the wire, with its token. -/
structure VerifyPdu where
  update : UpdateData
  flags : UInt8
  asType : AsType
  asRelType : AsRelType
  afi : UInt16
  roaResSrc : UInt8
  bgpsecResSrc : UInt8
  aspaResSrc : UInt8
  roaDefRes : UInt8
  bgpsecDefRes : UInt8
  aspaDefRes : UInt8
  requestToken : UInt32

/-- The PDU is an IPv4 request. -/
def VerifyPdu.v4 (pdu : VerifyPdu) : Bool :=
  match pdu.update.ipPrefix.ip with
  | .v4 _ => true
  | .v6 _ => false

/-- The request of a client, once the update has its identifier. -/
def VerifyPdu.request (pdu : VerifyPdu) (clientID : UInt8) (updateID : UInt32) : VerifyRequest where
  clientID := clientID
  updateID := updateID
  flags := pdu.flags
  v4 := pdu.v4
  asType := pdu.asType
  asRelType := pdu.asRelType
  afi := pdu.afi
  path := pdu.update.path
  wire := pdu.update.hops
  bgpsecPath := if pdu.update.bgpsecPath ≠ [] then some pdu.update.bgpsecPath else none
  roaResSrc := pdu.roaResSrc
  bgpsecResSrc := pdu.bgpsecResSrc
  aspaResSrc := pdu.aspaResSrc
  roaDefRes := pdu.roaDefRes
  bgpsecDefRes := pdu.bgpsecDefRes
  aspaDefRes := pdu.aspaDefRes

/-- The server with the update data of its cache entries, and the identifiers it gave to the requests
so far. -/
structure IdentityState where
  server : ServerState
  data : UInt32 → UpdateData
  given : List (UpdateData × Option UInt32)

/-- The update that is stored under an identifier. -/
def IdentityState.stored (s : IdentityState) (updateID : UInt32) : Option UpdateData :=
  (s.server.updateCache.tableFind updateID).map fun _ => s.data updateID

/-- A request that arrives from a client. -/
structure Arrival where
  pdu : VerifyPdu
  clientID : UInt8
  locals : Locals
  now : Nat

/-- `processValidationRequest` with the choice of the identifier. Without an identifier the server
does not come back from the request. -/
def IdentityState.receive (s : IdentityState) (a : Arrival) : IdentityState :=
  match updateIDs.place s.stored a.pdu.update with
  | none => { s with given := s.given ++ [(a.pdu.update, none)] }
  | some updateID =>
    { server := processValidationRequest s.server (a.pdu.request a.clientID updateID) a.locals a.now
      data :=
        if (s.stored updateID).isSome then s.data
        else Function.update s.data updateID a.pdu.update
      given := s.given ++ [(a.pdu.update, some updateID)] }

/-- The requests all got an identifier, and two the same if and only if their updates agree. -/
def IdentityState.IdsRight (s : IdentityState) : Prop :=
  (∀ e ∈ s.given, e.2.isSome) ∧ ∀ e ∈ s.given, ∀ e' ∈ s.given, e.2 = e'.2 ↔ e.1 = e'.1

/-- From the CRC of the update on, a request comes past updates that can be told from it, to an
identifier that is free or has its own update. -/
def IdentityState.FindsOwn (s : IdentityState) (a : Arrival) : Prop :=
  ∃ j < 2 ^ 32,
    (∀ i < j, ∃ u, s.stored (generateIdentifier a.pdu.update + UInt32.ofNat i) = some u ∧
      ToldApart u a.pdu.update) ∧
    ∀ u, s.stored (generateIdentifier a.pdu.update + UInt32.ofNat j) = some u → u = a.pdu.update

namespace IdentityLemmas

variable {s : IdentityState} {a : Arrival}

/-- The table of the identifiers of a server. -/
def IdentityState.table (s : IdentityState) : Probing.Table UInt32 UpdateData := ⟨s.stored, s.given⟩

theorem tableFind_isSome_iff {self : UpdateCache} {updateID : UInt32} :
    (self.tableFind updateID).isSome = (getUpdateResult self updateID).isSome := by
  unfold getUpdateResult
  rw [Option.isSome_map]

/-- A request stores its update under its identifier, if that is free, and nothing else. -/
theorem tableFind_request (server : ServerState) (r : VerifyRequest) (locals : Locals) (now : Nat)
    (id : UInt32) :
    ((processValidationRequest server r locals now).updateCache.tableFind id).isSome =
      (decide (id = r.updateID) || (server.updateCache.tableFind id).isSome) := by
  rw [tableFind_isSome_iff, RequestLemmas.request_eq, tableFind_isSome_iff]
  split
  · next hid => rw [decide_eq_true hid, Option.isSome_some, Bool.true_or]
  · next hid => rw [decide_eq_false hid, Bool.false_or]

theorem stored_eq (s : IdentityState) (id : UInt32) :
    s.stored id = if (s.server.updateCache.tableFind id).isSome then some (s.data id) else none := by
  unfold IdentityState.stored
  cases s.server.updateCache.tableFind id with
  | none => rfl
  | some cEntry => rfl

/-- The server does with its identifiers what the table does. -/
theorem table_receive (s : IdentityState) (a : Arrival) :
    IdentityState.table (s.receive a) = updateIDs.put (IdentityState.table s) a.pdu.update := by
  unfold IdentityState.receive Probing.Scheme.put IdentityState.table
  dsimp only
  cases hplace : updateIDs.place s.stored a.pdu.update with
  | none => rfl
  | some updateID =>
    refine congrArg (fun st => (⟨st, s.given ++ [(a.pdu.update, some updateID)]⟩ :
      Probing.Table UInt32 UpdateData)) (funext fun id => ?_)
    rw [stored_eq]
    dsimp only
    rw [tableFind_request]
    have hmem : (s.stored updateID).isSome =
        (s.server.updateCache.tableFind updateID).isSome := Option.isSome_map
    by_cases hid : id = updateID
    · subst hid
      rw [show decide (id = (a.pdu.request a.clientID id).updateID) = true from decide_eq_true rfl,
        Bool.true_or, if_pos rfl]
      split
      · next hsome =>
        rw [stored_eq, if_pos (hmem.symm.trans hsome)]
      · rw [Function.update_self, Function.update_self]
    · rw [show decide (id = (a.pdu.request a.clientID updateID).updateID) = false from
        decide_eq_false hid, Bool.false_or]
      cases (s.stored updateID).isSome with
      | true => exact (stored_eq s id).symm
      | false =>
        rw [if_neg Bool.false_ne_true, if_neg Bool.false_ne_true, Function.update_of_ne hid,
          Function.update_of_ne hid]
        exact (stored_eq s id).symm

theorem next_iterate (id : UInt32) (i : Nat) :
    (fun k : UInt32 => k + 1)^[i] id = id + UInt32.ofNat i := by
  induction i generalizing id with
  | zero => rw [Function.iterate_zero, id_eq]; exact (UInt32.add_zero id).symm
  | succ i ih =>
    rw [Function.iterate_succ_apply, ih, UInt32.ofNat_add, UInt32.add_assoc,
      UInt32.add_comm 1]
    rfl

theorem findsOwn_iff :
    s.FindsOwn a ↔ updateIDs.Clean (IdentityState.table s).store a.pdu.update := by
  unfold IdentityState.FindsOwn Probing.Scheme.Clean Probing.Scheme.ToldApart
  show _ ↔ ∃ j < 2 ^ 32, (∀ i < j, ∃ u,
    s.stored ((fun k : UInt32 => k + 1)^[i] (generateIdentifier a.pdu.update)) = some u ∧
      collides u a.pdu.update = some true) ∧
    ∀ u, s.stored ((fun k : UInt32 => k + 1)^[j] (generateIdentifier a.pdu.update)) = some u →
      u = a.pdu.update
  simp only [next_iterate, collides_true_iff]

end IdentityLemmas

/-- A server before its first request. -/
def initIdentityState (minNumberOfClients : UInt8) (minPos : 0 < minNumberOfClients)
    (defaultKeepWindow : UInt16) (rpki : RpkiData) (data : UInt32 → UpdateData) : IdentityState :=
  ⟨initServerState minNumberOfClients minPos defaultKeepWindow rpki, data, []⟩

/-- `detectCollision` is right if and only if the stored update is the new one or can be told from
it. The identifiers of a sequence of requests are right if and only if every request comes to its own
identifier past updates that can be told from its own. -/
theorem identity_iff (store : UInt32 → Option UpdateData) (updateID : UInt32) (new : UpdateData)
    (minNumberOfClients : UInt8) (minPos : 0 < minNumberOfClients) (defaultKeepWindow : UInt16)
    (rpki : RpkiData) (data : UInt32 → UpdateData) (arrivals : List Arrival) :
    (DetectsCollision store updateID new ↔
      ∀ u, store updateID = some u → u = new ∨ ToldApart u new) ∧
    (Runs.Always IdentityState.receive IdentityState.IdsRight
        (initIdentityState minNumberOfClients minPos defaultKeepWindow rpki data) arrivals ↔
      Runs.EachStep IdentityState.receive IdentityState.FindsOwn
        (initIdentityState minNumberOfClients minPos defaultKeepWindow rpki data) arrivals) := by
  refine ⟨detectsCollision_iff, ?_⟩
  have hcond : IdentityState.FindsOwn = fun s a =>
      updateIDs.Clean (IdentityState.table s).store a.pdu.update :=
    funext₂ fun s a => propext findsOwn_iff
  rw [hcond]
  refine (Runs.always_map table_receive Probing.Table.Right).trans ?_
  refine Iff.trans ?_ (Runs.eachStep_map table_receive fun t u => updateIDs.Clean t.store u).symm
  exact Probing.right_iff_clean _

/-- Two updates with one CRC that `detectCollision` does not tell apart get one identifier. -/
theorem given_of_sameCrc (minNumberOfClients : UInt8) (minPos : 0 < minNumberOfClients)
    (defaultKeepWindow : UInt16) (rpki : RpkiData) (data : UInt32 → UpdateData) {a b : Arrival}
    (hcrc : generateIdentifier a.pdu.update = generateIdentifier b.pdu.update)
    (hsame : collides a.pdu.update b.pdu.update = some false) :
    ([a, b].foldl IdentityState.receive
        (initIdentityState minNumberOfClients minPos defaultKeepWindow rpki data)).given =
      [(a.pdu.update, some (generateIdentifier b.pdu.update)),
        (b.pdu.update, some (generateIdentifier b.pdu.update))] := by
  have hfirst : updateIDs.place (fun _ => none) a.pdu.update =
      some (generateIdentifier b.pdu.update) :=
    Probing.probe_eq_some.mpr
      ⟨0, Nat.two_pow_pos 32, fun i hi => absurd hi (Nat.not_lt_zero i), rfl, hcrc⟩
  -- the second update finds the first one
  have hsecond : updateIDs.place (Function.update (fun _ => none)
      (generateIdentifier b.pdu.update) (some a.pdu.update)) b.pdu.update =
        some (generateIdentifier b.pdu.update) := by
    refine Probing.probe_eq_some.mpr
      ⟨0, Nat.two_pow_pos 32, fun i hi => absurd hi (Nat.not_lt_zero i), ?_, rfl⟩
    unfold Probing.Scheme.refused
    rw [Function.iterate_zero_apply, show updateIDs.hash = generateIdentifier from rfl,
      Function.update_self]
    exact hsame
  have htable := Runs.foldl_map table_receive
    (initIdentityState minNumberOfClients minPos defaultKeepWindow rpki data) [a, b]
  refine (congrArg Probing.Table.given htable).trans ?_
  show [(a.pdu.update, updateIDs.place (fun _ => none) a.pdu.update),
    (b.pdu.update, updateIDs.place (updateIDs.put Probing.Table.empty a.pdu.update).store
      b.pdu.update)] = _
  have hstore : (updateIDs.put Probing.Table.empty a.pdu.update).store =
      Function.update (fun _ => none) (generateIdentifier b.pdu.update) (some a.pdu.update) := by
    show (match updateIDs.place (fun _ => none) a.pdu.update with
      | none => fun _ => none
      | some k => if (none : Option UpdateData).isSome then fun _ => none
        else Function.update (fun _ => none) k (some a.pdu.update)) = _
    rw [hfirst]
    rfl
  rw [hfirst, hstore, hsecond]

/-- An announcement of an IPv4 prefix by its origin. -/
def announcement (u32 : UInt32) (length : UInt8) : Arrival where
  pdu :=
    { update := ⟨65001, ⟨.v4 u32, length⟩, [65001], [], one_fits16, zero_fits16⟩
      flags := vrtROA
      asType := .asSequence
      asRelType := .customer
      afi := 1
      roaResSrc := 0
      bgpsecResSrc := 0
      aspaResSrc := 0
      roaDefRes := SrxResult.undefined.code
      bgpsecDefRes := SrxResult.undefined.code
      aspaDefRes := SrxResult.undefined.code
      requestToken := 0 }
  clientID := 1
  locals := ⟨.asSequence, .customer⟩
  now := 0

/-- 111.73.114.0/24 and 141.2.90.0/23 of AS 65001 get the identifier `0xF7591139`, both. -/
theorem identity_shared :
    let s := [announcement 0x0072496F 24, announcement 0x005A028D 23].foldl IdentityState.receive
      (initIdentityState 1 (by decide) 0 ⟨fun _ _ _ => .valid, fun _ => SrxResult.valid.code⟩
        fun _ => (announcement 0 0).pdu.update)
    ¬ s.IdsRight := by
  intro s hright
  have hsame : generateIdentifier (announcement 0x0072496F 24).pdu.update =
      generateIdentifier (announcement 0x005A028D 23).pdu.update := by decide +kernel
  have hgiven := given_of_sameCrc 1 (by decide) 0
    ⟨fun _ _ _ => .valid, fun _ => SrxResult.valid.code⟩
    (fun _ => (announcement 0 0).pdu.update) hsame rfl
  have hids := hright.2 (_, _) (hgiven ▸ List.mem_cons_self) (_, _)
    (hgiven ▸ List.mem_cons_of_mem _ List.mem_cons_self)
  exact absurd (hids.mp rfl) (by decide)

/-- The first announcement of a server has the right identifier. -/
theorem identity_first :
    Runs.Always IdentityState.receive IdentityState.IdsRight
      (initIdentityState 1 (by decide) 0 ⟨fun _ _ _ => .valid, fun _ => SrxResult.valid.code⟩
        fun _ => (announcement 0 0).pdu.update) [announcement 0x0072496F 24] := by
  refine (identity_iff (fun _ => none) 0 (announcement 0 0).pdu.update 1 (by decide) 0 _ _ _).2.mpr
    (Runs.eachStep_cons.mpr ⟨⟨0, Nat.two_pow_pos 32, ?_, ?_⟩, Runs.eachStep_nil⟩)
  · intro i hi
    exact absurd hi (Nat.not_lt_zero i)
  · intro u hu
    cases hu

end SrxSuite.Server

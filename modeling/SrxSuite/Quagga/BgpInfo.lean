import Mathlib.Logic.Function.Basic
import SrxSuite.Lib.Runs
import SrxSuite.Server.UpdateCache

/-!
# The routes of the router and the two tables of their identifiers

The model of `bgpd/bgp_info_hash.c` and of the functions of `bgp_route.c` and `bgpd.c` that use it.
A route (`bgp_info`) waits in `info_lid_hash` under the token of its request, until the first answer
moves it to `info_uid_hash` under the update id of the SRx server.

`ask_eq` and the lemmas about lookups say what the functions do; what holds along a run is in
`InfoTables` and `CurrentResults`.
-/

namespace SrxSuite.Quagga

open Server

/-! ## Routes and tables -/

/-- The table `info_hash` points to. -/
inductive InfoHash
  | uid | lid
  deriving DecidableEq, Repr

/-- `struct bgp_info`. `node` stands for what a request reads of the prefix and of the peer, which stay
the same as long as the route lives. -/
structure BgpInfo (ν α : Type) where
  node : ν
  attr : α
  infoHash : Option InfoHash
  updateID : Nat
  localID : Nat
  valRes : UpdateResult
  deriving DecidableEq, Repr

/-- `struct bgp_info_hash_item`; `info` is the address of the route. -/
structure HashItem where
  identifier : Nat
  info : Nat
  deriving DecidableEq, Repr

/-- `HASH_FIND`: some entry with the identifier, `pick` says which. -/
def hashFind (table : List HashItem) (identifier pick : Nat) : Option HashItem :=
  (table.filter (·.identifier = identifier))[pick % (table.filter (·.identifier = identifier)).length]?

/-- `bgp_info_fetch` -/
def bgpInfoFetch (table : List HashItem) (identifier pick : Nat) : Option Nat :=
  (hashFind table identifier pick).map (·.info)

/-- `bgp_info_unregister` -/
def bgpInfoUnregister (table : List HashItem) (identifier pick : Nat) : List HashItem :=
  match hashFind table identifier pick with
  | some entry => table.erase entry
  | none => table

/-- `bgp_info_register`, the table. -/
def bgpInfoRegister (table : List HashItem) (info identifier : Nat) : List HashItem :=
  if identifier = 0 then table else ⟨identifier, info⟩ :: table

section Lookup

variable {table : List HashItem} {identifier pick r : Nat} {item : HashItem}

theorem hashFind_some (h : hashFind table identifier pick = some item) :
    item ∈ table ∧ item.identifier = identifier := by
  have hmem := List.mem_of_getElem? h
  obtain ⟨hmem, hid⟩ := List.mem_filter.mp hmem
  exact ⟨hmem, of_decide_eq_true hid⟩

theorem bgpInfoFetch_some (h : bgpInfoFetch table identifier pick = some r) :
    ⟨identifier, r⟩ ∈ table := by
  obtain ⟨item, hitem, rfl⟩ := Option.map_eq_some_iff.mp h
  obtain ⟨hmem, rfl⟩ := hashFind_some hitem
  exact hmem

/-- An identifier that has an entry is found. -/
theorem bgpInfoFetch_of_mem (pick : Nat) (h : ⟨identifier, r⟩ ∈ table) :
    ∃ r', bgpInfoFetch table identifier pick = some r' := by
  have hmem : (⟨identifier, r⟩ : HashItem) ∈ table.filter (·.identifier = identifier) :=
    List.mem_filter.mpr ⟨h, decide_eq_true rfl⟩
  have hlt := Nat.mod_lt pick (List.length_pos_of_mem hmem)
  have hfind : hashFind table identifier pick = some _ := List.getElem?_eq_getElem hlt
  exact ⟨_, congrArg (Option.map HashItem.info) hfind⟩

theorem bgpInfoFetch_none (h : bgpInfoFetch table identifier pick = none) :
    ⟨identifier, r⟩ ∉ table := by
  intro hmem
  obtain ⟨r', hr'⟩ := bgpInfoFetch_of_mem pick hmem
  rw [h] at hr'
  cases hr'

/-- Where all entries for an identifier are of one route, the lookup finds that one. -/
theorem bgpInfoFetch_eq (h : ⟨identifier, r⟩ ∈ table)
    (hone : ∀ r', ⟨identifier, r'⟩ ∈ table → r' = r) :
    bgpInfoFetch table identifier pick = some r := by
  obtain ⟨r', hr'⟩ := bgpInfoFetch_of_mem pick h
  rw [hr', hone r' (bgpInfoFetch_some hr')]

/-- What is found is what is unregistered. -/
theorem bgpInfoUnregister_of_fetch (h : bgpInfoFetch table identifier pick = some r) :
    bgpInfoUnregister table identifier pick = table.erase ⟨identifier, r⟩ := by
  obtain ⟨item, hitem, rfl⟩ := Option.map_eq_some_iff.mp h
  obtain ⟨-, rfl⟩ := hashFind_some hitem
  rw [bgpInfoUnregister, hitem]

theorem bgpInfoUnregister_of_not_mem (h : ∀ r, ⟨identifier, r⟩ ∉ table) :
    bgpInfoUnregister table identifier pick = table := by
  cases hfind : hashFind table identifier pick with
  | none => rw [bgpInfoUnregister, hfind]
  | some item =>
    obtain ⟨hmem, rfl⟩ := hashFind_some hfind
    exact absurd hmem (h item.info)

theorem mem_bgpInfoRegister : item ∈ bgpInfoRegister table r identifier ↔
    item ∈ table ∨ identifier ≠ 0 ∧ item = ⟨identifier, r⟩ := by
  unfold bgpInfoRegister
  split
  next h => simp [h]
  next h => simp [h, or_comm]

end Lookup

/-! ## The router -/

/-- The settings of the router and the functions on attributes that are used here. `validate` has no
value without a crypto API or without validation data in the attributes. -/
structure Bgp (α : Type) where
  srxDefault : UpdateResult
  ecommunityFlag : Bool
  evalPathDistr : Bool
  attrhashCmp : α → α → Bool
  checkEcomSRxValid : α → Int
  validate : α → Option Bool

/-- A request for validation as it goes to the SRx server. -/
structure Request (ν α : Type) where
  token : Nat
  node : ν
  attr : α
  deriving DecidableEq, Repr

/-- A call of `bgp_info_set_validation_result`: the route at that moment and the request the result was
computed for. -/
structure StoredResult (ν α : Type) where
  info : BgpInfo ν α
  answered : Request ν α
  deriving DecidableEq, Repr

/-- The router: the allocated routes by their address, the tables, and the last token.

`issued` counts the tokens. The lists keep what was sent and what came: the requests, the update ids
the server gave, the results that were stored and the ids in `deleteUpdate`. `dangling` is set when a
freed route is written. -/
structure Router (ν α : Type) where
  infos : Nat → Option (BgpInfo ν α)
  infoUIDHash : List HashItem
  infoLIDHash : List HashItem
  suiLocalID : Nat
  issued : Nat
  requests : List (Request ν α)
  given : List (Nat × Request ν α)
  stored : List (StoredResult ν α)
  deleted : List Nat
  dangling : Bool

/-- A notification: `SRxUpdateID`, the token, the type and the results. -/
structure Notification where
  updateID : Nat
  localID : Nat
  valType : UInt8
  valRes : UpdateResult
  deriving DecidableEq, Repr

variable {ν α : Type}

/-- The router at its start. -/
def Router.initial : Router ν α :=
  { infos := fun _ => none, infoUIDHash := [], infoLIDHash := [], suiLocalID := 0, issued := 0,
    requests := [], given := [], stored := [], deleted := [], dangling := false }

/-- `MAX_VALUE_INT` -/
def maxValueInt : Nat := 0x0FFFFFFF

/-- `getNextLocalID` -/
def getNextLocalID (suiLocalID : Nat) : Nat :=
  if suiLocalID < maxValueInt then suiLocalID + 1 else 1

/-- `bgp_info_unregister` with the table the route points to. -/
def Router.unregister (s : Router ν α) (hash : InfoHash) (identifier pick : Nat) : Router ν α :=
  match hash with
  | .uid => { s with infoUIDHash := bgpInfoUnregister s.infoUIDHash identifier pick }
  | .lid => { s with infoLIDHash := bgpInfoUnregister s.infoLIDHash identifier pick }

/-- `bgp_info_register`, the route. -/
def BgpInfo.register (info : BgpInfo ν α) (hash : InfoHash) (identifier : Nat) : BgpInfo ν α :=
  if identifier = 0 then info else { info with infoHash := some hash }

/-- The default result after a look at the extended community. -/
def communityResult (bgp : Bgp α) (attr : α) (defResult : UpdateResult) : UpdateResult :=
  if bgp.ecommunityFlag then
    match bgp.checkEcomSRxValid attr with
    | 0 => { defResult with roaResult := SrxResult.valid.code }
    | 1 => { defResult with roaResult := SrxResult.notFound.code }
    | 2 => { defResult with roaResult := SrxResult.invalid.code }
    | 3 => { defResult with roaResult := SrxResult.undefined.code }
    | _ => defResult
  else defResult

/-- The default results, as far as they are to be used. -/
def useDefault (valRes defResult : UpdateResult) : UpdateResult :=
  let use (old default : UInt8) := if default ≠ SrxResult.doNotUse.code then default else old
  ⟨use valRes.roaResult defResult.roaResult, use valRes.bgpsecResult defResult.bgpsecResult,
    use valRes.aspaResult defResult.aspaResult⟩

/-- `verify_update` for the route `info` at address `r`. -/
def verifyUpdate (bgp : Bgp α) (s : Router ν α) (r : Nat) (info : BgpInfo ν α)
    (defResult : UpdateResult) (doRegisterLocalID connected : Bool) : Router ν α :=
  let defResult := communityResult bgp info.attr defResult
  let info := { info with valRes := useDefault info.valRes defResult }
  let doRegister := decide (info.localID > 0) && doRegisterLocalID
  let registered := if doRegister then info.register .lid info.localID else info
  { s with
    infos := Function.update s.infos r (some registered)
    infoLIDHash :=
      if doRegister then bgpInfoRegister s.infoLIDHash r info.localID else s.infoLIDHash
    requests :=
      if connected ∧ (info.localID ≠ 0 ∨ info.updateID ≠ 0) then
        ⟨info.localID, info.node, info.attr⟩ :: s.requests
      else s.requests }

/-- The end of both branches of `bgp_update_main`: a new token and a request with it. -/
def Router.ask (bgp : Bgp α) (s : Router ν α) (r : Nat) (info : BgpInfo ν α) (connected : Bool) :
    Router ν α :=
  let localID := getNextLocalID s.suiLocalID
  verifyUpdate bgp { s with suiLocalID := localID, issued := s.issued + 1 } r
    { info with localID := localID } bgp.srxDefault true connected

/-- The implicit withdraw in `bgp_update_main`, the route. -/
def BgpInfo.withdraw (bgp : Bgp α) (ri : BgpInfo ν α) (attr : α) : BgpInfo ν α :=
  match ri.infoHash with
  | none => { ri with attr := attr }
  | some _ =>
    { ri with
      attr := attr
      infoHash := none
      updateID := 0
      localID := if ri.updateID > 0 then ri.localID else 0
      valRes := { ri.valRes with
        roaResult := bgp.srxDefault.roaResult, bgpsecResult := bgp.srxDefault.bgpsecResult } }

/-- The implicit withdraw, the tables. The identifier is a comparison in the source,
`ri->localID != 0 ? ri->localID == 0 : ri->updateID`. -/
def Router.withdraw (bgp : Bgp α) (s : Router ν α) (r : Nat) (ri : BgpInfo ν α) (attr : α)
    (pick : Nat) : Router ν α :=
  let s := match ri.infoHash with
    | none => s
    | some hash =>
      let s := s.unregister hash (if ri.localID ≠ 0 then (ri.localID == 0).toNat else ri.updateID) pick
      if ri.updateID > 0 then { s with deleted := ri.updateID :: s.deleted } else s
  { s with infos := Function.update s.infos r (some (ri.withdraw bgp attr)) }

/-- `bgp_info_free` -/
def bgpInfoFree (s : Router ν α) (r : Nat) (binfo : BgpInfo ν α) (pick : Nat) : Router ν α :=
  let s := match binfo.infoHash with
    | none => s
    | some hash =>
      if binfo.updateID ≠ 0 then
        let s := s.unregister hash binfo.updateID pick
        { s with deleted := binfo.updateID :: s.deleted }
      else s.unregister hash binfo.localID pick
  { s with infos := Function.update s.infos r none }

/-- The results in `bgp_info_set_validation_result`. -/
def BgpInfo.setValidationResult (info : BgpInfo ν α) (resType : UInt8) (result : UpdateResult) :
    BgpInfo ν α :=
  let use (flag old new : UInt8) := if resType &&& flag = flag then new else old
  { info with
    valRes := ⟨use vrtROA info.valRes.roaResult result.roaResult,
      use vrtBGPSEC info.valRes.bgpsecResult result.bgpsecResult,
      use vrtASPA info.valRes.aspaResult result.aspaResult⟩ }

/-- `bgp_info_set_validation_result` for the route at address `r`. -/
def Router.setValidationResult (s : Router ν α) (r : Nat) (info : BgpInfo ν α) (resType : UInt8)
    (result : UpdateResult) (answered : Request ν α) : Router ν α :=
  { s with
    infos := Function.update s.infos r (some (info.setValidationResult resType result))
    stored := ⟨info, answered⟩ :: s.stored }

/-- The validation in the router, instead of the one of the server. -/
def localValidation (bgp : Bgp α) (attr : α) (n : Notification) : UInt8 × UpdateResult :=
  if bgp.evalPathDistr then (n.valType, n.valRes)
  else
    (n.valType ||| vrtBGPSEC,
      match bgp.validate attr with
      | some valid => { n.valRes with
          bgpsecResult := if valid then SrxResult.valid.code else SrxResult.invalid.code }
      | none => n.valRes)

/-- `handleSRxValidationResult` for a notification that answers the request `answered`. The lookups of
one call are done in the same table, so they find the same entry. -/
def handleSRxValidationResult (bgp : Bgp α) (s : Router ν α) (n : Notification)
    (answered : Request ν α) (pick : Nat) : Router ν α :=
  if n.localID ≠ 0 then
    let s := { s with given := (n.updateID, answered) :: s.given }
    match bgpInfoFetch s.infoLIDHash n.localID pick with
    | none => { s with deleted := n.updateID :: s.deleted }
    | some r =>
      match s.infos r with
      | none => { s with dangling := true }
      | some info =>
        let info := { ({ info with updateID := n.updateID }.register .uid n.updateID) with localID := 0 }
        let (valType, valRes) := localValidation bgp info.attr n
        { s with
          infoUIDHash := bgpInfoRegister s.infoUIDHash r n.updateID
          infoLIDHash := bgpInfoUnregister s.infoLIDHash n.localID pick }.setValidationResult r info
            valType valRes answered
  else
    match bgpInfoFetch s.infoUIDHash n.updateID pick with
    | none => { s with deleted := n.updateID :: s.deleted }
    | some r =>
      match s.infos r with
      | none => { s with dangling := true }
      | some info => s.setValidationResult r info n.valType n.valRes answered

/-! ## The steps -/

/-- An operation of the router. `pick` is the choice of `HASH_FIND`; `removed` and `suppressed` say how
the route is marked and whether it is damped, `connected` whether there is an SRx server. -/
inductive RouterOp (ν α : Type)
  | announce (ref : Nat) (node : ν) (attr : α) (connected : Bool)
  | replace (ref : Nat) (attr : α) (removed suppressed connected : Bool) (pick : Nat)
  | remove (ref : Nat) (pick : Nat)
  | notify (n : Notification) (answered : Request ν α) (pick : Nat)

/-- The attributes of the announcement are not those the route has. -/
def BgpInfo.Replaces (bgp : Bgp α) (ri : BgpInfo ν α) (attr : α) (removed : Bool) : Prop :=
  ¬ (removed = false ∧ bgp.attrhashCmp ri.attr attr = true)

instance (bgp : Bgp α) (ri : BgpInfo ν α) (attr : α) (removed : Bool) :
    Decidable (ri.Replaces bgp attr removed) :=
  inferInstanceAs (Decidable (¬ _))

/-- A step. A new route gets an address that is free; a route that does not exist is neither replaced
nor removed. -/
def Router.step (bgp : Bgp α) (s : Router ν α) : RouterOp ν α → Router ν α
  | .announce ref node attr connected =>
    match s.infos ref with
    | some _ => s
    | none => s.ask bgp ref ⟨node, attr, none, 0, 0, bgp.srxDefault⟩ connected
  | .replace ref attr removed suppressed connected pick =>
    match s.infos ref with
    | none => s
    | some ri =>
      if ri.Replaces bgp attr removed then
        let s := s.withdraw bgp ref ri attr pick
        if suppressed then s else s.ask bgp ref (ri.withdraw bgp attr) connected
      else s
  | .remove ref pick =>
    match s.infos ref with
    | none => s
    | some binfo => bgpInfoFree s ref binfo pick
  | .notify n answered pick => handleSRxValidationResult bgp s n answered pick

/-! ## What a request leaves behind -/

variable {bgp : Bgp α} {s : Router ν α} {r : Nat} {info : BgpInfo ν α}

/-- The route while its request is not answered. -/
def BgpInfo.asked (bgp : Bgp α) (info : BgpInfo ν α) (localID : Nat) : BgpInfo ν α :=
  { info with
    localID := localID
    infoHash := some .lid
    valRes := useDefault info.valRes (communityResult bgp info.attr bgp.srxDefault) }

theorem getNextLocalID_pos (suiLocalID : Nat) : 0 < getNextLocalID suiLocalID := by
  unfold getNextLocalID
  split
  · exact Nat.succ_pos _
  · exact Nat.one_pos

theorem ask_eq (connected : Bool) :
    s.ask bgp r info connected =
      { s with
        infos := Function.update s.infos r (some (info.asked bgp (getNextLocalID s.suiLocalID)))
        infoLIDHash := ⟨getNextLocalID s.suiLocalID, r⟩ :: s.infoLIDHash
        suiLocalID := getNextLocalID s.suiLocalID
        issued := s.issued + 1
        requests := if connected then
            ⟨getNextLocalID s.suiLocalID, info.node, info.attr⟩ :: s.requests
          else s.requests } := by
  have hpos := getNextLocalID_pos s.suiLocalID
  have hne := Nat.ne_of_gt hpos
  simp only [Router.ask, verifyUpdate, BgpInfo.register, bgpInfoRegister, BgpInfo.asked, gt_iff_lt,
    hpos, hne, decide_true, Bool.true_and, if_true, if_false, ne_eq, not_false_eq_true, true_or,
    and_true]

end SrxSuite.Quagga

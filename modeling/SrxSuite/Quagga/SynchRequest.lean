import SrxSuite.Lib.Preorder
import SrxSuite.Quagga.BgpInfo

/-!
# Synchronization requests

The model of `handleSRxSynchRequest` (`bgpd/bgpd.c`). An SRx server that lost its cache asks the router to
send a verify request for each of its routes again. The router walks its IPv4 tables with `route_next`
(`lib/table.c`) and calls `verify_update` for what it finds at a node.

A node has a list of routes, of which only the first gets a request, and the tables of IPv6 and of the
VPNs are not walked. `resynchronised_iff` says for which tables no route is left out.
-/

namespace SrxSuite.Quagga

open Server BinTree

/-! ## The tables -/

/-- `struct route_table`: the nodes with what their `info` points to. -/
abbrev RouteTable (ι : Type) := BinTree ι

/-- The tables of an address family in `rib`, for unicast, multicast and the VPNs. The `info` of a node is
the list of its routes, given by their addresses; in the table of the VPNs it is a table. -/
structure AfiTables where
  unicast : RouteTable (List Nat)
  multicast : RouteTable (List Nat)
  mplsVpn : RouteTable (RouteTable (List Nat))

/-- `rib`, for `AFI_IP` and `AFI_IP6`. -/
structure Rib where
  ip : AfiTables
  ip6 : AfiTables

/-- The routes of a table. -/
def tableRoutes (table : RouteTable (List Nat)) : List Nat := table.preorder.flatten

def AfiTables.routes (tables : AfiTables) : List Nat :=
  tableRoutes tables.multicast ++
    (tableRoutes tables.unicast ++ tables.mplsVpn.preorder.flatMap tableRoutes)

/-- The routes of the router. -/
def Rib.routes (rib : Rib) : List Nat := rib.ip.routes ++ rib.ip6.routes

variable {ν α : Type}

/-- A router with its routing tables. The routes in the tables are allocated, and a route is at one
place. -/
structure RoutingState (ν α : Type) where
  router : Router ν α
  rib : Rib
  live : ∀ r ∈ rib.routes, (router.infos r).isSome
  nodup : rib.routes.Nodup

/-! ## `route_next` -/

/-- `route_top` -/
def routeTop (table : RouteTable (List Nat)) : Option (Cursor (List Nat)) := table.enter []

/-- The loop of `route_next` over the parents. -/
def routeNextUp : List (Side (List Nat)) → Option (Cursor (List Nat))
  | [] => none
  | .left (node info left right) :: parents => (node info left right).enter (.right :: parents)
  | .left null :: parents => routeNextUp parents
  | .right :: parents => routeNextUp parents

/-- `route_next` -/
def routeNext (rn : Cursor (List Nat)) : Option (Cursor (List Nat)) :=
  match rn.left with
  | node info left right => (node info left right).enter (.left rn.right :: rn.parents)
  | null =>
    match rn.right with
    | node info left right => (node info left right).enter (.right :: rn.parents)
    | null => routeNextUp rn.parents

theorem visits_routeNextUp (parents : List (Side (List Nat))) :
    visits (routeNextUp parents) = ahead parents := by
  induction parents with
  | nil => rfl
  | cons side parents ih =>
    cases side with
    | right => exact ih
    | left sibling =>
      cases sibling with
      | null => exact ih
      | node info left right => exact visits_enter info left right (.right :: parents)

theorem follows_routeNext : Follows routeNext := by
  rintro ⟨info, left, right, parents⟩
  cases left with
  | node info' left' right' => exact visits_enter info' left' right' (.left right :: parents)
  | null =>
    cases right with
    | node info' left' right' => exact visits_enter info' left' right' (.right :: parents)
    | null => exact visits_routeNextUp parents

/-! ## The handler -/

/-- A call of `verifyUpdate`: the route it is for, the request, and the default results. -/
structure SentRequest (ν α : Type) where
  info : Nat
  request : Request ν α
  defResult : UpdateResult

/-- The router and what it has sent. -/
structure SynchState (ν α : Type) where
  router : Router ν α
  sent : List (SentRequest ν α)

/-- The test of `verify_update` that an update is not local. -/
def BgpInfo.HasId (info : BgpInfo ν α) : Prop := info.localID ≠ 0 ∨ info.updateID ≠ 0

instance (info : BgpInfo ν α) : Decidable info.HasId := inferInstanceAs (Decidable (_ ∨ _))

/-- The request for a route, with its results. -/
def sentRequest (bgp : Bgp α) (r : Nat) (info : BgpInfo ν α) : SentRequest ν α :=
  ⟨r, ⟨info.localID, info.node, info.attr⟩, communityResult bgp info.attr info.valRes⟩

variable (bgp : Bgp α) (connected : Bool)

/-- The body of the loop over the nodes. -/
def processNode (s : SynchState ν α) : (bnode : List Nat) → SynchState ν α
  | [] => s
  | binfo :: _ =>
    match s.router.infos binfo with
    | none => s
    | some info =>
      { router := verifyUpdate bgp s.router binfo info info.valRes false connected
        sent := if connected ∧ info.HasId then s.sent ++ [sentRequest bgp binfo info] else s.sent }

/-- `_handleSRxSynchRequest_processTable` -/
def processTable (s : SynchState ν α) (table : RouteTable (List Nat)) : SynchState ν α :=
  walk follows_routeNext (processNode bgp connected) (routeTop table) s

/-- `handleSRxSynchRequest` -/
def handleSRxSynchRequest (s : RoutingState ν α) : SynchState ν α :=
  processTable bgp connected (processTable bgp connected ⟨s.router, []⟩ s.rib.ip.multicast)
    s.rib.ip.unicast

/-- Every route with an id has got one request, whose default results are those the route has, and had
before unless the community of its attributes says otherwise. -/
def Resynchronised (s : RoutingState ν α) (out : SynchState ν α) : Prop :=
  ∀ r ∈ s.rib.routes, ∀ info, s.router.infos r = some info → info.HasId →
    (out.sent.filter fun q => q.info = r) = [sentRequest bgp r info] ∧
      out.router.infos r = some { info with valRes := communityResult bgp info.attr info.valRes }

/-- The routes at which the handler looks: the first ones of the nodes. -/
def firstRoutes (nodes : List (List Nat)) : List Nat := nodes.filterMap List.head?

/-- The nodes it walks, in order. -/
def Rib.walked (rib : Rib) : List (List Nat) := rib.ip.multicast.preorder ++ rib.ip.unicast.preorder

namespace SynchRequestLemmas

variable {bgp : Bgp α} {r : Nat}

/-! ## A node -/

/-- The results of a route as default results do not change them, unless by the community. -/
theorem useDefault_communityResult (attr : α) (valRes : UpdateResult) :
    useDefault valRes (communityResult bgp attr valRes) = communityResult bgp attr valRes := by
  have hsame : useDefault valRes valRes = valRes := by
    simp only [useDefault, ite_self]
  have hroa (code : UInt8) (hcode : code ≠ SrxResult.doNotUse.code) :
      useDefault valRes { valRes with roaResult := code } = { valRes with roaResult := code } := by
    simp only [useDefault, hcode, ne_eq, not_false_eq_true, if_true, ite_self]
  unfold communityResult
  split
  · split
    · exact hroa _ (by decide)
    · exact hroa _ (by decide)
    · exact hroa _ (by decide)
    · exact hroa _ (by decide)
    · exact hsame
  · exact hsame

/-- The route after its request. -/
def afterRequest (bgp : Bgp α) (info : BgpInfo ν α) : BgpInfo ν α :=
  { info with valRes := communityResult bgp info.attr info.valRes }

theorem verifyUpdate_infos (s : Router ν α) (info : BgpInfo ν α) (connected : Bool) :
    (verifyUpdate bgp s r info info.valRes false connected).infos =
      Function.update s.infos r (some (afterRequest bgp info)) := by
  simp only [verifyUpdate, Bool.and_false, Bool.false_eq_true, if_false, useDefault_communityResult]
  rfl

/-- The request that goes out for a route. -/
def requestFor (bgp : Bgp α) (infos : Nat → Option (BgpInfo ν α)) (r : Nat) :
    Option (SentRequest ν α) :=
  (infos r).bind fun info => if info.HasId then some (sentRequest bgp r info) else none

/-! ## The walk -/

/-- What the handler has done at some nodes, when `infos` are the routes before. -/
structure Processed (bgp : Bgp α) (infos : Nat → Option (BgpInfo ν α)) (firsts : List Nat)
    (s out : SynchState ν α) : Prop where
  sent : out.sent = s.sent ++ firsts.filterMap (requestFor bgp infos)
  other : ∀ r ∉ firsts, out.router.infos r = s.router.infos r
  done : ∀ r ∈ firsts, out.router.infos r = (infos r).map (afterRequest bgp)

theorem processNode_cons {s : SynchState ν α} {info : BgpInfo ν α} (hinfo : s.router.infos r = some info)
    (routes : List Nat) :
    processNode bgp true s (r :: routes) =
      { router := verifyUpdate bgp s.router r info info.valRes false true
        sent := s.sent ++ (requestFor bgp s.router.infos r).toList } := by
  unfold processNode requestFor
  dsimp only
  rw [hinfo, Option.bind_some]
  dsimp only
  rcases Decidable.em info.HasId with hid | hid
  · rw [if_pos (And.intro rfl hid), if_pos hid]
    rfl
  · rw [if_neg (not_and_of_not_right _ hid), if_neg hid, Option.toList_none, List.append_nil]

theorem foldl_processNode {infos : Nat → Option (BgpInfo ν α)} (nodes : List (List Nat))
    (s : SynchState ν α) (hnodup : (firstRoutes nodes).Nodup)
    (hlive : ∀ r ∈ firstRoutes nodes, s.router.infos r = infos r ∧ (infos r).isSome) :
    Processed bgp infos (firstRoutes nodes) s (nodes.foldl (processNode bgp true) s) := by
  induction nodes generalizing s with
  | nil =>
    exact ⟨(List.append_nil _).symm, fun _ _ => rfl, fun _ h => absurd h List.not_mem_nil⟩
  | cons node nodes ih =>
    cases node with
    | nil => exact ih s hnodup hlive
    | cons r routes =>
      change (r :: firstRoutes nodes).Nodup at hnodup
      obtain ⟨hnew, hnodup⟩ := List.nodup_cons.mp hnodup
      obtain ⟨hsame, hsome⟩ := hlive r List.mem_cons_self
      obtain ⟨info, hinfo⟩ := Option.isSome_iff_exists.mp hsome
      have hstep : processNode bgp true s (r :: routes) = _ := processNode_cons (hsame.trans hinfo) routes
      have hrequest : requestFor bgp s.router.infos r = requestFor bgp infos r := by
        unfold requestFor
        rw [hsame]
      rw [hrequest] at hstep
      have hinfos : (verifyUpdate bgp s.router r info info.valRes false true).infos = _ :=
        verifyUpdate_infos s.router info true
      obtain ⟨hsent, hother, hdone⟩ := ih (processNode bgp true s (r :: routes)) hnodup (by
        intro r' hr'
        have hne : r' ≠ r := fun h => hnew (h ▸ hr')
        rw [hstep]
        dsimp only
        rw [hinfos, Function.update_of_ne hne]
        exact hlive r' (List.mem_cons_of_mem _ hr'))
      rw [hstep] at hsent hother
      dsimp only at hsent hother
      rw [hinfos] at hother
      refine ⟨?_, ?_, ?_⟩
      · rw [List.foldl_cons, hstep, hsent, List.append_assoc]
        refine congrArg (s.sent ++ ·) ?_
        show _ = (r :: firstRoutes nodes).filterMap _
        rw [List.filterMap_cons]
        cases requestFor bgp infos r <;> rfl
      · intro r' hr'
        have hne := List.ne_of_not_mem_cons hr'
        have hr' := List.not_mem_of_not_mem_cons hr'
        rw [List.foldl_cons, hstep, hother r' hr', Function.update_of_ne hne]
      · intro r' hr'
        rw [List.foldl_cons]
        rcases List.mem_cons.mp hr' with rfl | hr'
        · rw [hstep, hother r' hnew, Function.update_self, hinfo, Option.map_some]
        · exact hdone r' hr'

theorem handleSRxSynchRequest_eq (s : RoutingState ν α) :
    handleSRxSynchRequest bgp true s =
      s.rib.walked.foldl (processNode bgp true) ⟨s.router, []⟩ := by
  unfold handleSRxSynchRequest processTable routeTop Rib.walked
  rw [walk_eq, walk_eq, visits_top, visits_top, List.foldl_append]

/-! ## What is sent -/

/-- The requests for one route. -/
theorem filter_requests (infos : Nat → Option (BgpInfo ν α)) (l : List Nat) (hnodup : l.Nodup) :
    ((l.filterMap (requestFor bgp infos)).filter fun q => q.info = r) =
      if r ∈ l then (requestFor bgp infos r).toList else [] := by
  induction l with
  | nil => rfl
  | cons r' l ih =>
    obtain ⟨hnew, hnodup⟩ := List.nodup_cons.mp hnodup
    have hinfo (q : SentRequest ν α) (hq : requestFor bgp infos r' = some q) : q.info = r' := by
      obtain ⟨info, -, hif⟩ := Option.bind_eq_some_iff.mp hq
      split at hif
      · exact Option.some.inj hif ▸ rfl
      · cases hif
    rw [List.filterMap_cons]
    rcases eq_or_ne r' r with rfl | hne
    · rw [if_pos List.mem_cons_self]
      have hrest := ih hnodup
      rw [if_neg hnew] at hrest
      cases hq : requestFor bgp infos r' with
      | none => exact hrest
      | some q =>
        dsimp only
        have hkept : decide (q.info = r') = true := decide_eq_true (hinfo q hq)
        rw [List.filter_cons, if_pos hkept, hrest]
        rfl
    · have hmem : r ∈ r' :: l ↔ r ∈ l := by
        rw [List.mem_cons, or_iff_right hne.symm]
      rw [if_congr hmem rfl rfl, ← ih hnodup]
      cases hq : requestFor bgp infos r' with
      | none => rfl
      | some q =>
        exact List.filter_cons_of_neg fun h => hne ((hinfo q hq).symm.trans (of_decide_eq_true h))

/-- The first routes of the walked nodes are some of the routes. -/
theorem firstRoutes_sublist (nodes : List (List Nat)) : (firstRoutes nodes).Sublist nodes.flatten := by
  induction nodes with
  | nil => exact List.Sublist.refl _
  | cons node nodes ih =>
    rw [List.flatten_cons]
    cases node with
    | nil => exact ih
    | cons r routes =>
      show (r :: firstRoutes nodes).Sublist (r :: (routes ++ nodes.flatten))
      exact (ih.trans (List.sublist_append_right _ _)).cons_cons r

theorem walked_sublist (rib : Rib) : (firstRoutes rib.walked).Sublist rib.routes := by
  have hwalked : rib.walked.flatten.Sublist rib.ip.routes := by
    unfold Rib.walked AfiTables.routes tableRoutes
    rw [List.flatten_append]
    exact (List.sublist_append_left _ _).append_left _
  exact (firstRoutes_sublist _).trans (hwalked.trans (List.sublist_append_left _ _))

end SynchRequestLemmas

open SynchRequestLemmas

/-- While connected, a request goes out for every route with an id if and only if every such route is
the first one of its node, in the unicast or the multicast table of IPv4. -/
theorem resynchronised_iff (bgp : Bgp α) (s : RoutingState ν α) :
    Resynchronised bgp s (handleSRxSynchRequest bgp true s) ↔
      ∀ r ∈ s.rib.routes, ∀ info, s.router.infos r = some info → info.HasId →
        ∃ node ∈ s.rib.ip.multicast.preorder ++ s.rib.ip.unicast.preorder, node.head? = some r := by
  have hsub := walked_sublist s.rib
  have hnodup := s.nodup.sublist hsub
  obtain ⟨hsent, hother, hdone⟩ := @foldl_processNode ν α bgp s.router.infos s.rib.walked
    ⟨s.router, []⟩ hnodup fun r hr => ⟨rfl, s.live r (hsub.subset hr)⟩
  rw [List.nil_append] at hsent
  unfold Resynchronised
  rw [handleSRxSynchRequest_eq, hsent]
  refine forall₂_congr fun r hr => forall₂_congr fun info hinfo => forall_congr' fun hid => ?_
  have hrequest : requestFor bgp s.router.infos r = some (sentRequest bgp r info) := by
    unfold requestFor
    rw [hinfo, Option.bind_some, if_pos hid]
  have hmem : r ∈ firstRoutes s.rib.walked ↔ ∃ node ∈ s.rib.walked, node.head? = some r :=
    List.mem_filterMap
  rw [filter_requests _ _ hnodup, hrequest]
  refine Iff.trans ?_ hmem
  constructor
  · rintro ⟨hone, -⟩
    by_contra hnot
    rw [if_neg hnot] at hone
    cases hone
  · intro hfirst
    refine ⟨by rw [if_pos hfirst]; rfl, ?_⟩
    rw [hdone r hfirst, hinfo]
    rfl

/-- A router without policies for communities. -/
def openBgp : Bgp Unit where
  srxDefault := ⟨3, 3, 3⟩
  ecommunityFlag := false
  evalPathDistr := false
  attrhashCmp := fun _ _ => true
  checkEcomSRxValid := fun _ => -1
  validate := fun _ => none

/-- Three validated routes: two for an IPv4 prefix and one for an IPv6 prefix. -/
def threeRoutes : RoutingState Unit Unit where
  router := { (Router.initial : Router Unit Unit) with
    infos := fun r => if r < 3 then some ⟨(), (), some .uid, 100 + r, 0, ⟨0, 3, 3⟩⟩ else none }
  rib :=
    { ip := ⟨node [] (node [0, 1] null null) null, null, null⟩
      ip6 := ⟨node [2] null null, null, null⟩ }
  live := by decide
  nodup := by decide

/-- Only the first of them is asked for. -/
theorem threeRoutes_not_resynchronised :
    ¬ Resynchronised openBgp threeRoutes (handleSRxSynchRequest openBgp true threeRoutes) ∧
      (handleSRxSynchRequest openBgp true threeRoutes).sent.map (·.info) = [0] := by
  rw [handleSRxSynchRequest_eq]
  refine ⟨fun h => ?_, rfl⟩
  obtain ⟨hone, -⟩ := h 1 (by decide) ⟨(), (), some .uid, 101, 0, ⟨0, 3, 3⟩⟩ rfl (by decide)
  cases hone

end SrxSuite.Quagga

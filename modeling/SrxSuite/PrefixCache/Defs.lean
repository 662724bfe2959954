import SrxSuite.Lib.TrieWalk
import SrxSuite.Shared.Defs
import SrxSuite.Util.SList

/-!
# The prefix cache

The model of `server/prefix_cache.c`: origin validation of updates against ROA white-list
entries. The prefixes of both address families live in one patricia tree, keyed on the first
`bitlen` bits of the address. The tree is a trie over these bits here; what the library's
compression adds or leaves out is a node that holds no prefix (`TreeNode.glue`).

A prefix that is in use has a `PC_Prefix`. It counts the ROAs that cover it and keeps its
updates in two lists: `valid`, and `other` with one common result `state_of_other`. A change of
a ROA walks down from its prefix to all prefixes below and moves updates between the lists.
Every result is reported to the update cache; `reports` is the sequence of these reports.

`none` is a crash: a NULL pointer is dereferenced, or a list size overflows.
-/

namespace SrxSuite.Cache

open Util

/-! ## Addresses and prefixes -/

inductive IPVersion
  | v4 | v6
  deriving DecidableEq, Repr

/-- The number of address bits. -/
def IPVersion.width : IPVersion → Nat
  | .v4 => 32
  | .v6 => 128

/-- `IPPrefix`, with the address bytes in network order. -/
structure IPPrefix where
  version : IPVersion
  addr : List UInt8
  length : UInt8
  bytes : 8 * addr.length = version.width
  fits : length.toNat ≤ version.width

/-- The bits of a byte, the most significant first. -/
def bitsOf (byte : UInt8) : List Bool := (List.range 8).map fun i => byte.toNat.testBit (7 - i)

/-- The key of a prefix in the tree; the family is not part of it. -/
def IPPrefix.key (p : IPPrefix) : List Bool := (p.addr.flatMap bitsOf).take p.length.toNat

/-! ## Data -/

/-- `PC_Update`. -/
structure PcUpdate where
  updateID : UInt32
  as : UInt32
  roaMatch : UInt16
  deriving DecidableEq, Repr

/-- `PC_ROA`. -/
structure PcRoa where
  as : UInt32
  maxLen : UInt8
  roaCount : UInt16
  valCacheID : UInt32
  updateCount : UInt32
  deriving DecidableEq, Repr

/-- `PC_AS`. -/
structure PcAs where
  asn : UInt32
  roas : List PcRoa
  updateCount : UInt32
  deriving DecidableEq, Repr

/-- `PC_Prefix`; `nodes` is the memory of the two lists of updates. -/
structure PcPrefix where
  roaCoverage : UInt32
  stateOfOther : SrxResult
  nodes : SListMem PcUpdate
  valid : SList
  other : SList
  asn : List PcAs

/-- A node of the tree: one that holds no prefix, or a prefix with its `data` pointer. -/
inductive TreeNode
  | glue
  | entry (data : Option PcPrefix)

/-- The `data` pointer. -/
def TreeNode.data : TreeNode → Option PcPrefix
  | .glue => none
  | .entry data => data

abbrev PrefixTree := Trie Bool TreeNode

/-- One call of `notifyUpdateCacheForROAChange`. -/
structure Report where
  updateID : UInt32
  roaResult : SrxResult
  suppressNotification : Bool
  deriving DecidableEq, Repr

/-- `PrefixCache`: the tree and what was reported so far. -/
structure PrefixCache where
  prefixTree : PrefixTree
  reports : List Report

/-- `initializePrefixCache`. -/
def initializePrefixCache : PrefixCache := ⟨.null, []⟩

/-! ## The tree -/

/-- The node of a key. -/
def nodeAt (t : PrefixTree) (k : List Bool) : TreeNode := (t.get? k).getD .glue

/-- `patricia_lookup`: the prefix is inserted if it is not there. -/
def patriciaLookup (t : PrefixTree) (k : List Bool) : PrefixTree :=
  t.insertWith .glue (fun
    | .glue => .entry none
    | .entry data => .entry data) k

/-- `treeNode->data = data`. -/
def setData (t : PrefixTree) (k : List Bool) (data : Option PcPrefix) : PrefixTree :=
  t.insertWith .glue (fun _ => .entry data) k

/-- `getParent`: the nearest `PC_Prefix` above a key. -/
def getParent : PrefixTree → List Bool → Option PcPrefix
  | .node v c, b :: w => getParent (c b) w <|> v.data
  | _, _ => none

/-- The visit of a node, for a function that visits a `PC_Prefix`: `getChildren` passes the
nodes whose `data` is NULL. -/
def visitData {σ π : Type} (f : Nat → π → PcPrefix → σ → Option (PcPrefix × σ × Option π))
    (len : Nat) (p : π) (n : TreeNode) (s : σ) : Option (TreeNode × σ × Option π) :=
  match n with
  | .entry (some pc) => (f len p pc s).map fun r => (.entry (some r.1), r.2)
  | n => some (n, s, some p)

/-- The visit of a node on the way up, for a function that visits a `PC_Prefix`. -/
def climbData {σ : Type} (f : PcPrefix → σ → PcPrefix × σ × Bool) (n : TreeNode) (s : σ) :
    TreeNode × σ × Bool :=
  match n with
  | .entry (some pc) => (.entry (some (f pc s).1), (f pc s).2)
  | n => (n, s, true)

/-! ## Update validation -/

/-- Change the first element with a property. -/
def modifyFirst {α : Type} (p : α → Bool) (f : α → α) : List α → List α
  | [] => []
  | x :: l => if p x then f x :: l else x :: modifyFirst p f l

/-- `getASFromPrefix`: the AS is added if it is not there. -/
def getASFromPrefix (asn : List PcAs) (as : UInt32) : List PcAs :=
  if asn.any fun a => a.asn == as then asn else asn ++ [⟨as, [], 0⟩]

/-- `getASFromPrefix`, and `update_count++` of the AS. -/
def countUpdate (asn : List PcAs) (as : UInt32) : List PcAs :=
  modifyFirst (fun a => a.asn == as) (fun a => { a with updateCount := a.updateCount + 1 })
    (getASFromPrefix asn as)

/-- The ROAs of a prefix with the AS they are attached to. -/
def roaEntries (asn : List PcAs) : List (UInt32 × PcRoa) :=
  asn.flatMap fun a => a.roas.map fun r => (a.asn, r)

/-- `_performUpdateValidation_PrefixIsCovereByAROA`, the counters of the update: for every ROA
that covers a prefix of length `len`, the coverage of a new prefix grows by one, and `roa_match`
of an update of the same AS by `roa_count`. -/
def coverCounts (isNew : Bool) (len : Nat) (as : UInt32) (asn : List PcAs)
    (s : UInt32 × UInt16) : UInt32 × UInt16 :=
  (roaEntries asn).foldl (fun s e =>
    if len ≤ e.2.maxLen.toNat then
      (if isNew then s.1 + 1 else s.1, if e.1 == as then s.2 + e.2.roaCount else s.2)
    else s) s

/-- `_performUpdateValidation_PrefixIsCovereByAROA`, the counters of the ROAs. -/
def coverRoas (len : Nat) (as : UInt32) (asn : List PcAs) : List PcAs :=
  asn.map fun a => { a with roas := a.roas.map fun r =>
    if len ≤ r.maxLen.toNat ∧ a.asn = as then { r with updateCount := r.updateCount + 1 } else r }

/-- One iteration of the loop of `_performUpdateValidationKnownPrefix`. -/
def coverStep (isNew : Bool) (len : Nat) (as : UInt32) (pc : PcPrefix) (s : UInt32 × UInt16) :
    PcPrefix × (UInt32 × UInt16) × Bool :=
  if (isNew && pc.stateOfOther == .invalid) || (!isNew && decide (0 < pc.roaCoverage)) then
    ({ pc with asn := coverRoas len as pc.asn }, coverCounts isNew len as pc.asn s, true)
  else (pc, s, false)

/-- `_performUpdateValidation_PrefixNotCovered`. -/
def prefixNotCovered (pc : PcPrefix) (pcUpdate : PcUpdate) : Option (PcPrefix × Report) :=
  if pcUpdate.roaMatch = 0 then do
    let (nodes, other) ← appendDataToSList pc.nodes pc.other pcUpdate
    some ({ pc with nodes := nodes, other := other }, ⟨pcUpdate.updateID, pc.stateOfOther, false⟩)
  else do
    let (nodes, valid) ← appendDataToSList pc.nodes pc.valid pcUpdate
    some ({ pc with nodes := nodes, valid := valid }, ⟨pcUpdate.updateID, .valid, false⟩)

/-- `_performUpdateValidationKnownPrefix` for the prefix `pc` at `k`. -/
def performUpdateValidationKnownPrefix (self : PrefixCache) (k : List Bool) (pc : PcPrefix)
    (updateID as : UInt32) (isNew : Bool) : Option (Bool × PrefixCache) := do
  let t := setData self.prefixTree k (some { pc with asn := countUpdate pc.asn as })
  let (t, (roaCoverage, roaMatch), _) :=
    t.climb (climbData (coverStep isNew k.length as)) k (pc.roaCoverage, 0)
  let pc ← (nodeAt t k).data
  let (pc, report) ← prefixNotCovered { pc with roaCoverage := roaCoverage } ⟨updateID, as, roaMatch⟩
  some (true, ⟨setData t k (some pc), self.reports ++ [report]⟩)

/-- A `PC_Prefix` without updates and ROAs. -/
def emptyPrefix (stateOfOther : SrxResult) : PcPrefix :=
  ⟨0, stateOfOther, initMem, initSList, initSList, []⟩

/-- The state a new prefix gets from the next prefix above. -/
def parentState (t : PrefixTree) (k : List Bool) : SrxResult :=
  match getParent t k with
  | some parent => parent.stateOfOther
  | none => .notFound

/-- `_performUpdateValidationNewPrefix`. -/
def performUpdateValidationNewPrefix (self : PrefixCache) (k : List Bool)
    (updateID as : UInt32) : Option (Bool × PrefixCache) :=
  performUpdateValidationKnownPrefix self k (emptyPrefix (parentState self.prefixTree k))
    updateID as true

/-- `requestUpdateValidation`. -/
def requestUpdateValidation (self : PrefixCache) (updateID : UInt32) (p : IPPrefix)
    (as : UInt32) : Option (Bool × PrefixCache) :=
  match nodeAt self.prefixTree p.key with
  | .glue => performUpdateValidationNewPrefix self p.key updateID as
  | .entry none => none
  | .entry (some pc) =>
    if 0 < pc.roaCoverage then
      performUpdateValidationKnownPrefix self p.key pc updateID as false
    else do
      let (nodes, other) ← appendDataToSList pc.nodes pc.other ⟨updateID, as, 0⟩
      some (true, ⟨setData self.prefixTree p.key (some
          { pc with nodes := nodes, other := other, asn := countUpdate pc.asn as }),
        self.reports ++ [⟨updateID, pc.stateOfOther, false⟩]⟩)

/-! ## Adding a ROA -/

/-- The numbers reserved for documentation. -/
def belongsToRfc5398 (asn : UInt32) : Bool :=
  (64496 ≤ asn && asn ≤ 64511) || (65536 ≤ asn && asn ≤ 65551)

/-- `_addROAwl_CheckCoverage`, one prefix on the way up. -/
def checkCoverage (len : Nat) (pc : PcPrefix) (coverage : UInt32) : PcPrefix × UInt32 × Bool :=
  if 0 < pc.roaCoverage then
    (pc, (roaEntries pc.asn).foldl (fun coverage e =>
      if len ≤ e.2.maxLen.toNat then coverage + e.2.roaCount.toUInt32 else coverage) coverage, true)
  else (pc, coverage, false)

/-- The prefix `addROAwl` creates at a key. -/
def createPrefix (t : PrefixTree) (k : List Bool) : PcPrefix :=
  let pc := emptyPrefix (parentState t k)
  if pc.stateOfOther ≠ .notFound then
    { pc with roaCoverage := (t.climb (climbData (checkCoverage k.length)) k 0).2.1 }
  else pc

/-- Is this the entry of the validation cache? -/
def PcRoa.isEntry (r : PcRoa) (valCacheID : UInt32) (maxLen : UInt8) : Bool :=
  r.valCacheID == valCacheID && r.maxLen == maxLen

/-- The ROA in the list of its AS: one more of a known entry, or a new entry. -/
def addRoa (roas : List PcRoa) (as : UInt32) (maxLen : UInt8) (valCacheID : UInt32) : List PcRoa :=
  if roas.any fun r => r.isEntry valCacheID maxLen then
    modifyFirst (fun r => r.isEntry valCacheID maxLen)
      (fun r => { r with roaCount := r.roaCount + 1 }) roas
  else roas ++ [⟨as, maxLen, 1, valCacheID, 0⟩]

/-- Change the ROAs of an AS. -/
def modifyRoas (asn : List PcAs) (as : UInt32) (f : List PcRoa → List PcRoa) : List PcAs :=
  modifyFirst (fun a => a.asn == as) (fun a => { a with roas := f a.roas }) asn

/-- The first entry of a ROA. -/
def findRoa (asn : List PcAs) (as : UInt32) (maxLen : UInt8) (valCacheID : UInt32) :
    Option PcRoa := do
  let a ← asn.find? fun a => a.asn == as
  a.roas.find? fun r => r.isEntry valCacheID maxLen

/-- What a walk down the tree changes besides the visited prefixes. -/
structure WalkState where
  roa : PcRoa
  reports : List Report

/-- What the loops that move updates change. -/
structure MoveState where
  nodes : SListMem PcUpdate
  valid : SList
  other : SList
  prevNode : Option Nat
  roa : PcRoa
  reports : List Report

/-- The loop of `_addROAwl_moveMatchedUpdatesToValid` from `currNode` on. -/
def moveMatchedLoop (suppress : Bool) : (fuel : Nat) → (currNode : Option Nat) → MoveState →
    Option MoveState
  | _, none, s => some s
  | 0, some _, _ => none
  | fuel + 1, some a, s => do
    let node ← s.nodes.cells a
    let u := node.data
    if u.as = s.roa.as then
      let nodes := s.nodes.write a { node with data := { u with roaMatch := u.roaMatch + 1 } }
      let (nodes, other, valid) ← moveNode nodes s.other s.valid s.prevNode a
      moveMatchedLoop suppress fuel node.next ⟨nodes, valid, other, s.prevNode,
        { s.roa with updateCount := s.roa.updateCount + 1 },
        s.reports ++ [⟨u.updateID, .valid, suppress⟩]⟩
    else moveMatchedLoop suppress fuel node.next { s with prevNode := some a }

/-- `_addROAwl_moveMatchedUpdatesToValid`. -/
def moveMatchedUpdatesToValid (suppress : Bool) (pc : PcPrefix) (w : WalkState) :
    Option (PcPrefix × WalkState) := do
  let s ← moveMatchedLoop suppress pc.nodes.fresh pc.other.root
    ⟨pc.nodes, pc.valid, pc.other, none, w.roa, w.reports⟩
  some ({ pc with nodes := s.nodes, valid := s.valid, other := s.other }, ⟨s.roa, s.reports⟩)

/-- `_ROAwl_changeStateOfOther`. -/
def changeStateOfOther (suppress : Bool) (newState : SrxResult) (pc : PcPrefix) (w : WalkState) :
    Option (PcPrefix × WalkState) := do
  let (nodes, reports) ← foreach (fun (u : PcUpdate) reports =>
    (u, reports ++ [⟨u.updateID, newState, suppress⟩])) pc.nodes.fresh pc.nodes pc.other.root w.reports
  some ({ pc with stateOfOther := newState, nodes := nodes }, { w with reports := reports })

/-- The loop of `_addROAwl_verifyUpdates` over the updates that are valid already. -/
def countMatched (pc : PcPrefix) (w : WalkState) : Option (PcPrefix × WalkState) := do
  let (nodes, count) ← foreach (fun (u : PcUpdate) count =>
    (if u.as = w.roa.as then { u with roaMatch := u.roaMatch + 1 } else u,
      if u.as = w.roa.as then count + 1 else count))
    pc.nodes.fresh pc.nodes pc.valid.root w.roa.updateCount
  some ({ pc with nodes := nodes }, { w with roa := { w.roa with updateCount := count } })

/-- `_addROAwl_verifyUpdates` for one prefix; the last component is `checkChildren`. -/
def verifyUpdates (suppress : Bool) (len : Nat) (_ : Unit) (pc : PcPrefix) (w : WalkState) :
    Option (PcPrefix × WalkState × Option Unit) :=
  if len ≤ w.roa.maxLen.toNat then do
    let (pc, w) ← countMatched { pc with roaCoverage := pc.roaCoverage + 1 } w
    let (pc, w) ← moveMatchedUpdatesToValid suppress pc w
    if pc.stateOfOther = .notFound then do
      let (pc, w) ← changeStateOfOther suppress .invalid pc w
      some (pc, w, some ())
    else some (pc, w, some ())
  else if pc.stateOfOther = .notFound then do
    let (pc, w) ← changeStateOfOther suppress .invalid pc w
    some (pc, w, some ())
  else some (pc, w, none)

/-- `addROAwl`. -/
def addROAwl (self : PrefixCache) (originAS : UInt32) (p : IPPrefix) (maxLen : UInt8)
    (valCacheID : UInt32) (suppress : Bool) : Option (Bool × PrefixCache) :=
  if belongsToRfc5398 originAS then some (false, self)
  else do
    let k := p.key
    let pc := ((nodeAt self.prefixTree k).data).getD (createPrefix self.prefixTree k)
    let asn := modifyRoas (getASFromPrefix pc.asn originAS) originAS fun roas =>
      addRoa roas originAS maxLen valCacheID
    let roa ← findRoa asn originAS maxLen valCacheID
    let t := setData self.prefixTree k (some { pc with asn := asn })
    let (t, w) ← t.atSub (fun sub => sub.walk (visitData (verifyUpdates suppress)) k.length ()
      ⟨roa, self.reports⟩) k
    -- The walk has the ROA in its hands; the list of the prefix points to the same ROA.
    let pc ← (nodeAt t k).data
    let asn := modifyRoas pc.asn originAS (modifyFirst (fun r => r.isEntry valCacheID maxLen)
      fun _ => w.roa)
    some (true, ⟨setData t k (some { pc with asn := asn }), w.reports⟩)

/-! ## Removing a ROA -/

/-- The loop of `_delROAwl_moveToOther` from `currNode` on. It leaves `prevNode` where it is
when an update of the AS stays valid. -/
def moveToOtherLoop (suppress : Bool) (stateOfOther : SrxResult) :
    (fuel : Nat) → (currNode : Option Nat) → MoveState → Option MoveState
  | _, none, s => some s
  | 0, some _, _ => none
  | fuel + 1, some a, s =>
    if s.roa.updateCount = 0 then some s
    else do
      let node ← s.nodes.cells a
      if node.data.as = s.roa.as then
        let u := { node.data with roaMatch := node.data.roaMatch - 1 }
        let nodes := s.nodes.write a { node with data := u }
        let roa := if s.roa.roaCount = 1 then
          { s.roa with updateCount := s.roa.updateCount - 1 } else s.roa
        if u.roaMatch = 0 then do
          let (nodes, valid, other) ← moveNode nodes s.valid s.other s.prevNode a
          moveToOtherLoop suppress stateOfOther fuel node.next ⟨nodes, valid, other, s.prevNode, roa,
            s.reports ++ [⟨u.updateID, stateOfOther, suppress⟩]⟩
        else
          moveToOtherLoop suppress stateOfOther fuel node.next { s with nodes := nodes, roa := roa }
      else moveToOtherLoop suppress stateOfOther fuel node.next { s with prevNode := some a }

/-- `_delROAwl_moveToOther`. -/
def moveToOther (suppress : Bool) (pc : PcPrefix) (w : WalkState) :
    Option (PcPrefix × WalkState) := do
  let s ← moveToOtherLoop suppress pc.stateOfOther pc.nodes.fresh pc.valid.root
    ⟨pc.nodes, pc.valid, pc.other, none, w.roa, w.reports⟩
  some ({ pc with nodes := s.nodes, valid := s.valid, other := s.other }, ⟨s.roa, s.reports⟩)

/-- `_delROAwl_validateUpdates` for one prefix; the last component is the state of other that
the children get, if they are checked. -/
def validateUpdates (suppress : Bool) (len : Nat) (parentStateOfOther : SrxResult)
    (pc : PcPrefix) (w : WalkState) : Option (PcPrefix × WalkState × Option SrxResult) :=
  if len ≤ w.roa.maxLen.toNat then do
    let pc := { pc with roaCoverage := pc.roaCoverage - 1 }
    let (pc, w) ← if parentStateOfOther = .notFound ∧ pc.roaCoverage = 0 then
      changeStateOfOther suppress .notFound pc w else some (pc, w)
    let (pc, w) ← moveToOther suppress pc w
    some (pc, w, some pc.stateOfOther)
  else if pc.roaCoverage = 0 ∧ parentStateOfOther = .notFound then do
    let (pc, w) ← changeStateOfOther suppress .notFound pc w
    some (pc, w, some pc.stateOfOther)
  else some (pc, w, none)

/-- One of the identical ROAs is removed; `roa` is the ROA after the walk. The last one leaves
the list, an AS without ROAs and updates leaves its prefix. -/
def removeRoa (asn : List PcAs) (as : UInt32) (maxLen : UInt8) (valCacheID : UInt32)
    (roa : PcRoa) : List PcAs :=
  if roa.roaCount - 1 = 0 then
    let asn := modifyRoas asn as fun roas => roas.eraseP fun r => r.isEntry valCacheID maxLen
    asn.eraseP fun a => a.asn == as && a.roas.isEmpty && a.updateCount == 0
  else modifyRoas asn as (modifyFirst (fun r => r.isEntry valCacheID maxLen)
    fun _ => { roa with roaCount := roa.roaCount - 1 })

/-- `delROAwl`. -/
def delROAwl (self : PrefixCache) (originAS : UInt32) (p : IPPrefix) (maxLen : UInt8)
    (valCacheID : UInt32) (suppress : Bool) : Option (Bool × PrefixCache) :=
  let k := p.key
  match (nodeAt self.prefixTree k).data with
  | none => some (false, { self with prefixTree := patriciaLookup self.prefixTree k })
  | some pc =>
    match findRoa pc.asn originAS maxLen valCacheID with
    | none => some (false, self)
    | some roa => do
      let (t, w) ← self.prefixTree.atSub (fun sub => sub.walk (visitData (validateUpdates suppress))
        k.length (parentState self.prefixTree k) ⟨roa, self.reports⟩) k
      let pc ← (nodeAt t k).data
      let asn := removeRoa pc.asn originAS maxLen valCacheID w.roa
      -- A prefix that loses its last AS is freed.
      some (true, ⟨setData t k (if asn.isEmpty then none else some { pc with asn := asn }),
        w.reports⟩)

/-! ## Runs -/

/-- A call of the prefix cache. -/
inductive Op
  | add (originAS : UInt32) (p : IPPrefix) (maxLen : UInt8) (valCacheID : UInt32) (suppress : Bool)
  | del (originAS : UInt32) (p : IPPrefix) (maxLen : UInt8) (valCacheID : UInt32) (suppress : Bool)
  | request (updateID : UInt32) (p : IPPrefix) (as : UInt32)

/-- One call. -/
def step (self : PrefixCache) : Op → Option PrefixCache
  | .add originAS p maxLen valCacheID suppress =>
    (addROAwl self originAS p maxLen valCacheID suppress).map Prod.snd
  | .del originAS p maxLen valCacheID suppress =>
    (delROAwl self originAS p maxLen valCacheID suppress).map Prod.snd
  | .request updateID p as => (requestUpdateValidation self updateID p as).map Prod.snd

/-- A sequence of calls. -/
def run (self : PrefixCache) : List Op → Option PrefixCache
  | [] => some self
  | op :: ops => (step self op).bind fun self => run self ops

/-- The result last reported for an update. -/
def lastReport (reports : List Report) (updateID : UInt32) : Option SrxResult :=
  ((reports.filter fun r => r.updateID == updateID).getLast?).map Report.roaResult

end SrxSuite.Cache

import SrxSuite.Quagga.PrefixBits

/-!
# The routing table

The model of `lib/table.c`, the table of prefixes under every RIB. A node has a prefix, links to its
parent and two children, a number of locks (of 32 bits) and the `info` of its user. A node that is not locked is
deleted unless it has two children, and its parent with it when this leaves the parent in the same
state. A function has no result when an assertion fails or a pointer is followed that is not one of a
node; the loops over the nodes get as many turns as there were ever nodes.
-/

namespace SrxSuite.Quagga.Radix

open ParentTree

variable {size : Nat} {ι : Type}

/-- What `struct route_node` has beside the links. -/
structure RouteNode (size : Nat) (ι : Type) where
  p : Prefix size
  lock : UInt32
  info : Option ι
  deriving DecidableEq

/-- `struct route_table`. `fresh` is the address of the next node. -/
structure RouteTable (size : Nat) (ι : Type) where
  nodes : Heap (RouteNode size ι)
  fresh : Nat
  top : Option Nat
  count : Nat

namespace RouteTable

/-- `route_table_init`. -/
def initial : RouteTable size ι := ⟨fun _ => none, 0, none, 0⟩

/-- `route_node_new`, and `prefix_copy` in `route_node_set`: a node that has no links yet. -/
def routeNodeSet (self : RouteTable size ι) (p : Prefix size) : RouteTable size ι × Nat :=
  ({ self with
      nodes := self.nodes.write self.fresh ⟨none, none, none, ⟨p, 0, none⟩⟩
      fresh := self.fresh + 1 }, self.fresh)

/-- What `route_node_new` leaves in the bytes of the prefix. -/
def zeroBytes : Vector UInt8 size := Vector.replicate size 0

/-- `set_link`. -/
def setLink (self : RouteTable size ι) (node new : Nat) : Option (RouteTable size ι) := do
  let n ← self.nodes node
  let c ← self.nodes new
  let bit ← prefixBit c.val.p.bytes n.val.p.prefixlen
  let nodes := self.nodes.write node (n.setLink bit (some new))
  let c ← nodes new
  some { self with nodes := nodes.write new { c with parent := some node } }

/-- `set_link` to the node above, or the new top. -/
def attach (self : RouteTable size ι) (node : Option Nat) (new : Nat) : Option (RouteTable size ι) :=
  match node with
  | some node => self.setLink node new
  | none => some { self with top := some new }

/-- `route_lock_node`. -/
def routeLockNode (self : RouteTable size ι) (node : Nat) : Option (RouteTable size ι) := do
  let n ← self.nodes node
  some { self with
    nodes := self.nodes.write node { n with val := { n.val with lock := n.val.lock + 1 } } }

/-! ## Looking for a prefix -/

/-- The condition of the loops: the prefix of the node has at most the length of `p` and matches it. -/
def covers (n p : Prefix size) : Option Bool :=
  if n.prefixlen ≤ p.prefixlen then prefixMatch n p else some false

/-- The loop of `route_node_match`. -/
def matchLoop (self : RouteTable size ι) (p : Prefix size) : (turns : Nat) →
    (node matched : Option Nat) → Option (Option Nat)
  | 0, _, _ => none
  | _ + 1, none, matched => some matched
  | turns + 1, some node, matched => do
    let n ← self.nodes node
    if ← covers n.val.p p then
      let matched := if n.val.info.isSome then some node else matched
      if n.val.p.prefixlen = p.prefixlen then some matched
      else
        let bit ← prefixBit p.bytes n.val.p.prefixlen
        self.matchLoop p turns (n.link bit) matched
    else some matched

/-- `route_node_match`. -/
def routeNodeMatch (self : RouteTable size ι) (p : Prefix size) :
    Option (RouteTable size ι × Option Nat) := do
  match ← self.matchLoop p (self.fresh + 1) self.top none with
  | none => some (self, none)
  | some node => (self.routeLockNode node).map fun self => (self, some node)

/-- The loop of `route_node_lookup`: the node with the prefix. -/
def lookupLoop (self : RouteTable size ι) (p : Prefix size) : (turns : Nat) → (node : Option Nat) →
    Option (Option Nat)
  | 0, _ => none
  | _ + 1, none => some none
  | turns + 1, some node => do
    let n ← self.nodes node
    if ← covers n.val.p p then
      if n.val.p.prefixlen = p.prefixlen then some (if n.val.info.isSome then some node else none)
      else
        let bit ← prefixBit p.bytes n.val.p.prefixlen
        self.lookupLoop p turns (n.link bit)
    else some none

/-- `route_node_lookup`. -/
def routeNodeLookup (self : RouteTable size ι) (p : Prefix size) :
    Option (RouteTable size ι × Option Nat) := do
  match ← self.lookupLoop p (self.fresh + 1) self.top with
  | none => some (self, none)
  | some node => (self.routeLockNode node).map fun self => (self, some node)

/-- The loop of `route_node_get`: whether the prefix was found, `match` (here `upper`) and `node`. -/
def getLoop (self : RouteTable size ι) (p : Prefix size) : (turns : Nat) →
    (upper node : Option Nat) → Option (Bool × Option Nat × Option Nat)
  | 0, _, _ => none
  | _ + 1, upper, none => some (false, upper, none)
  | turns + 1, upper, some node => do
    let n ← self.nodes node
    if ← covers n.val.p p then
      if n.val.p.prefixlen = p.prefixlen then some (true, upper, some node)
      else
        let bit ← prefixBit p.bytes n.val.p.prefixlen
        self.getLoop p turns (some node) (n.link bit)
    else some (false, upper, some node)

/-- A new node above `node`, for what its prefix and `p` have in common. -/
def splitNode (self : RouteTable size ι) (p : Prefix size) (upper : Option Nat) (node : Nat) :
    Option (RouteTable size ι × Nat) := do
  let n ← self.nodes node
  let common ← routeCommon n.val.p p zeroBytes
  let (self, new) := self.routeNodeSet common
  let self ← self.setLink new node
  let self ← self.attach upper new
  if common.prefixlen ≠ p.prefixlen then
    let (self, leaf) := self.routeNodeSet p
    let self ← self.setLink new leaf
    some ({ self with count := self.count + 1 }, leaf)
  else some (self, new)

/-- `route_node_get`. -/
def routeNodeGet (self : RouteTable size ι) (p : Prefix size) : Option (RouteTable size ι × Nat) := do
  match ← self.getLoop p (self.fresh + 1) none self.top with
  | (true, _, some node) => (self.routeLockNode node).map fun self => (self, node)
  | (_, upper, none) => do
    let (self, new) := self.routeNodeSet p
    let self ← self.attach upper new
    let self := { self with count := self.count + 1 }
    (self.routeLockNode new).map fun self => (self, new)
  | (false, upper, some node) => do
    let (self, new) ← self.splitNode p upper node
    let self := { self with count := self.count + 1 }
    (self.routeLockNode new).map fun self => (self, new)

/-! ## Deleting -/

/-- The parent of the child in the place of a node that is deleted. -/
def adopt (self : RouteTable size ι) (child parent : Option Nat) : Option (RouteTable size ι) :=
  match child with
  | none => some self
  | some child => do
    let c ← self.nodes child
    some { self with nodes := self.nodes.write child { c with parent := parent } }

/-- The child takes the place of `node` below its parent, or at the top. -/
def relink (self : RouteTable size ι) (parent : Option Nat) (node : Nat) (child : Option Nat) :
    Option (RouteTable size ι) :=
  match parent with
  | none => some { self with top := child }
  | some parent => do
    let x ← self.nodes parent
    some { self with nodes := self.nodes.write parent (x.setLink (x.left != some node) child) }

/-- `route_node_delete`, for a chain of at most `turns` nodes. -/
def routeNodeDelete (self : RouteTable size ι) : (turns : Nat) → (node : Nat) →
    Option (RouteTable size ι)
  | 0, _ => none
  | turns + 1, node => do
    let n ← self.nodes node
    if n.val.lock ≠ 0 ∨ n.val.info.isSome then none
    else if n.left.isSome ∧ n.right.isSome then some self
    else
      let child := if n.left.isSome then n.left else n.right
      let self ← self.adopt child n.parent
      let self ← self.relink n.parent node child
      let self := { self with nodes := self.nodes.free node, count := self.count - 1 }
      match n.parent with
      | none => some self
      | some parent => do
        let x ← self.nodes parent
        if x.val.lock = 0 then self.routeNodeDelete turns parent else some self

/-- `route_unlock_node`. -/
def routeUnlockNode (self : RouteTable size ι) (node : Nat) : Option (RouteTable size ι) := do
  let n ← self.nodes node
  if n.val.lock = 0 then none
  else
    let self := { self with
      nodes := self.nodes.write node { n with val := { n.val with lock := n.val.lock - 1 } } }
    if n.val.lock - 1 = 0 then self.routeNodeDelete (self.fresh + 1) node else some self

/-- The user of a node writes `info`. -/
def setInfo (self : RouteTable size ι) (node : Nat) (info : Option ι) : Option (RouteTable size ι) := do
  let n ← self.nodes node
  some { self with nodes := self.nodes.write node { n with val := { n.val with info := info } } }

/-! ## Walking over the table -/

/-- `route_top`. -/
def routeTop (self : RouteTable size ι) : Option (RouteTable size ι × Option Nat) :=
  match self.top with
  | none => some (self, none)
  | some node => (self.routeLockNode node).map fun self => (self, some node)

/-- The climb of `route_next_until`: the next node that is not below `node`. -/
def climbUntil (self : RouteTable size ι) (limit : Option Nat) : (turns : Nat) → (node : Nat) →
    Option (Option Nat)
  | 0, _ => none
  | turns + 1, node => do
    let n ← self.nodes node
    match n.parent with
    | none => some none
    | some parent =>
      if some node = limit then some none
      else
        let x ← self.nodes parent
        if x.left = some node ∧ x.right.isSome then some x.right
        else self.climbUntil limit turns parent

/-- The node that `route_next_until` goes to. -/
def nextUntil (self : RouteTable size ι) (limit : Option Nat) (node : Nat) : Option (Option Nat) := do
  let n ← self.nodes node
  if n.left.isSome then some n.left
  else if n.right.isSome then some n.right
  else self.climbUntil limit (self.fresh + 1) node

/-- `route_next_until`. -/
def routeNextUntil (self : RouteTable size ι) (limit : Option Nat) (node : Nat) :
    Option (RouteTable size ι × Option Nat) := do
  match ← self.nextUntil limit node with
  | none => (self.routeUnlockNode node).map fun self => (self, none)
  | some next => do
    let self ← self.routeLockNode next
    (self.routeUnlockNode node).map fun self => (self, some next)

/-- `route_next`. -/
def routeNext (self : RouteTable size ι) (node : Nat) : Option (RouteTable size ι × Option Nat) :=
  self.routeNextUntil none node

/-! ## The node behind a prefix -/

/-- The end of `route_table_prefix_iter_cmp`, for prefixes that part. Of what they have in common only the
length is used. -/
def iterCmpParted (p1 p2 : Prefix size) : Option Int := do
  let common ← routeCommon p1 p2 zeroBytes
  if common.prefixlen < p1.prefixlen ∧ common.prefixlen < p2.prefixlen then
    let bit1 ← prefixBit p1.bytes common.prefixlen
    let bit2 ← prefixBit p2.bytes common.prefixlen
    if bit1 then if bit2 then none else some 1
    else if bit2 then some (-1) else none
  else none

/-- `route_table_prefix_iter_cmp`. -/
def routeTablePrefixIterCmp (p1 p2 : Prefix size) : Option Int :=
  if p1.prefixlen ≤ p2.prefixlen then do
    if ← prefixMatch p1 p2 then some (if p1.prefixlen = p2.prefixlen then 0 else -1)
    else iterCmpParted p1 p2
  else do
    if ← prefixMatch p2 p1 then some 1 else iterCmpParted p1 p2

/-- `route_get_subtree_next`: the climb of `route_next_until` without a limit. -/
def routeGetSubtreeNext (self : RouteTable size ι) (node : Nat) : Option (Option Nat) :=
  self.climbUntil none (self.fresh + 1) node

/-- The next node of a node that was found, which is locked in between. -/
def nextOf (self : RouteTable size ι) (node : Nat) : Option (RouteTable size ι × Option Nat) := do
  let self ← self.routeLockNode node
  match ← self.routeNext node with
  | (self, none) => some (self, none)
  | (self, some next) => (self.routeUnlockNode next).map fun self => (self, some next)

/-- The loop of `route_table_get_next_internal`. -/
def getNextLoop (self : RouteTable size ι) (p : Prefix size) : (turns : Nat) → (node : Option Nat) →
    Option (RouteTable size ι × Option Nat)
  | 0, _ => none
  | _ + 1, none => some (self, none)
  | turns + 1, some node => do
    let n ← self.nodes node
    let found ← if n.val.p.prefixlen < p.prefixlen then prefixMatch n.val.p p else prefixMatch p n.val.p
    if found then
      if n.val.p.prefixlen = p.prefixlen then self.nextOf node
      else if n.val.p.prefixlen > p.prefixlen then some (self, some node)
      else
        let bit ← prefixBit p.bytes n.val.p.prefixlen
        if (n.link bit).isSome then self.getNextLoop p turns (n.link bit)
        else if n.right.isSome then some (self, n.right)
        else (self.routeGetSubtreeNext node).map fun next => (self, next)
    else
      let cmp ← routeTablePrefixIterCmp n.val.p p
      if cmp > 0 then some (self, some node)
      else if cmp < 0 then (self.routeGetSubtreeNext node).map fun next => (self, next)
      else none

/-- `route_table_get_next`. -/
def routeTableGetNext (self : RouteTable size ι) (p : Prefix size) :
    Option (RouteTable size ι × Option Nat) := do
  match ← self.getNextLoop p (self.fresh + 1) self.top with
  | (self, none) => some (self, none)
  | (self, some node) => do
    let n ← self.nodes node
    let cmp ← routeTablePrefixIterCmp n.val.p p
    if cmp > 0 then (self.routeLockNode node).map fun self => (self, some node) else none

end RouteTable

end SrxSuite.Quagga.Radix

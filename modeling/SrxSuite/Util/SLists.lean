import SrxSuite.Lib.Bytes
import SrxSuite.Util.SList

/-!
# The operations of the singly linked lists

The model of the operations of `util/slist.c` on any number of lists in one memory, and the operations on
sequences that they stand for. `Util.SList` has the part the prefix cache uses, for data that is managed
outside of the lists; here the lists allocate and copy data, too.

`memory` is how many allocations of a call succeed before one fails. The pointers that a call gets are
those of `getNodeFromSList`. Two lists of a call may be the same.
-/

namespace SrxSuite.Util

/-! ## Memory -/

/-- The data pointer of a node, and the size of the block if the list has allocated it. 0 is the NULL
pointer. -/
structure Datum where
  data : Nat
  allocSize : Nat
  deriving DecidableEq, Repr

/-- The blocks allocated for data. The next one gets the address `fresh`. -/
structure Blocks where
  bytes : Nat → Bytes
  fresh : Nat

/-- The data of a new node. -/
def Blocks.newData (blocks : Blocks) (dataSize : Nat) : Blocks × Datum :=
  if dataSize > 0 then ({ blocks with fresh := blocks.fresh + 1 }, ⟨blocks.fresh, dataSize⟩)
  else (blocks, ⟨0, 0⟩)

/-- The data of a copied node: a copy of the block, or the same pointer. -/
def Blocks.copyData (blocks : Blocks) (data : Datum) : Blocks × Datum :=
  if data.allocSize > 0 then
    (⟨Function.update blocks.bytes blocks.fresh (blocks.bytes data.data), blocks.fresh + 1⟩,
      ⟨blocks.fresh, data.allocSize⟩)
  else (blocks, ⟨data.data, 0⟩)

/-- How many allocations the data of a node takes. -/
def blocksOf (allocSize : Nat) : Nat := if allocSize > 0 then 1 else 0

structure ListMemory where
  nodes : SListMem Datum
  blocks : Blocks

/-- A node is allocated, at the address `fresh`. -/
def ListMemory.newNode (mem : ListMemory) (node : SListNode Datum) : ListMemory :=
  { mem with nodes := { mem.nodes with fresh := mem.nodes.fresh + 1 }.write mem.nodes.fresh node }

/-- The lists, each with a number, and their memory. -/
structure SLists where
  mem : ListMemory
  headers : Nat → SList

namespace SLists

/-- Lists after `initSList`, which leaves `last` as it is. -/
def start (blocks : Blocks) (last : Nat → Option Nat) : SLists :=
  ⟨⟨initMem, blocks⟩, fun i => ⟨none, last i, 0⟩⟩

/-! ## Inserting -/

/-- The node that is reached in `index` steps. -/
def nodeAt (m : SListMem Datum) : (index : Nat) → (node : Option Nat) → Option Nat
  | 0, node => node
  | index + 1, node => do
    let a ← node
    let n ← m.cells a
    nodeAt m index n.next

/-- `getNodeFromSList` -/
def getNodeFromSList (m : SListMem Datum) (self : SList) (index : Nat) : Option Nat :=
  if index ≥ self.size then none else nodeAt m index self.root

/-- The part of `insertIntoSList` that links the new node. -/
def linkAt (m : SListMem Datum) (self : SList) (index : Int) (data : Datum) :
    Option (SListMem Datum × SList) :=
  let newNode := m.fresh
  let m := { m with fresh := m.fresh + 1 }
  if index = 0 then
    some (m.write newNode ⟨data, self.root⟩,
      { self with root := some newNode, last := if self.root.isNone then some newNode else self.last })
  else if index = self.size then do
    let last ← self.last
    let m ← m.setNext last (some newNode)
    some (m.write newNode ⟨data, none⟩, { self with last := some newNode })
  else do
    -- an index below 0 gives the root
    let prevNode ← nodeAt m (index - 1).toNat self.root
    let prev ← m.cells prevNode
    let m ← (m.write newNode ⟨data, prev.next⟩).setNext prevNode (some newNode)
    some (m, self)

/-- What `insertIntoSList` returns. -/
inductive Inserted
  | null
  | node (address : Nat)
  | data (block : Nat)
  deriving DecidableEq, Repr

/-- `insertIntoSList` -/
def insertIntoSList (mem : ListMemory) (self : SList) (index : Int) (dataSize memory : Nat) :
    Option (ListMemory × SList × Inserted) :=
  if index > self.size then some (mem, self, .null)
  else if memory < 1 + blocksOf dataSize then some (mem, self, .null)
  else do
    let (blocks, data) := mem.blocks.newData dataSize
    let newNode := mem.nodes.fresh
    let (nodes, self) ← linkAt mem.nodes self index data
    let size ← incSize self.size
    some (⟨nodes, blocks⟩, { self with size := size },
      if data.allocSize > 0 then .data data.data else .node newNode)

/-- `newNode->data = data` -/
def setData (mem : ListMemory) (newNode data : Nat) : Option ListMemory :=
  (mem.nodes.cells newNode).map fun n =>
    { mem with nodes := mem.nodes.write newNode { n with data := { n.data with data := data } } }

/-- `insertDataIntoSList` -/
def insertDataIntoSList (mem : ListMemory) (self : SList) (index : Int) (data memory : Nat) :
    Option (ListMemory × SList × Bool) := do
  let (mem, self, newNode) ← insertIntoSList mem self index 0 memory
  match newNode with
  | .node a =>
    let mem ← setData mem a data
    some (mem, self, true)
  | _ => some (mem, self, false)

/-- `appendToSList` -/
def appendToSList (mem : ListMemory) (self : SList) (dataSize memory : Nat) :
    Option (ListMemory × SList × Inserted) :=
  insertIntoSList mem self self.size dataSize memory

/-- `appendDataToSList` -/
def appendDataToSList (mem : ListMemory) (self : SList) (data memory : Nat) :
    Option (ListMemory × SList × Bool) :=
  insertDataIntoSList mem self self.size data memory

/-! ## Deleting -/

/-- The loop of `deleteFromSList`, which compares the data pointers. -/
def findData (m : SListMem Datum) (data : Nat) : (fuel : Nat) → (prevNode currNode : Option Nat) →
    Option (Option (Option Nat × Nat))
  | _, _, none => some none
  | 0, _, some _ => none
  | fuel + 1, prevNode, some a =>
    match m.cells a with
    | none => none
    | some n =>
      if n.data.data = data then some (some (prevNode, a)) else findData m data fuel (some a) n.next

/-- `deleteFromSList` -/
def deleteFromSList (m : SListMem Datum) (self : SList) (data : Nat) :
    Option (SListMem Datum × SList × Bool) :=
  if self.size > 0 then do
    match ← findData m data m.fresh none self.root with
    | none => some (m, self, false)
    | some (prevNode, a) =>
      let node ← m.cells a
      let m ← setBehind m prevNode node.next
      some (m.free a,
        ⟨if prevNode.isNone then node.next else self.root,
          if prevNode.isSome && node.next.isNone then prevNode else self.last, self.size - 1⟩, true)
  else some (m, self, false)

/-- `shiftFromSList` -/
def shiftFromSList (m : SListMem Datum) (self : SList) : Option (SListMem Datum × SList × Nat) :=
  if self.size = 0 then some (m, self, 0)
  else do
    let firstNode ← self.root
    let node ← m.cells firstNode
    some (m.free firstNode, { self with root := node.next, size := self.size - 1 }, node.data.data)

/-! ## Copying -/

/-- `copyNodeData`, if there is memory for the block. -/
def copyNodeData (mem : ListMemory) (data : Datum) (memory : Nat) : Option (ListMemory × Datum) :=
  if memory < blocksOf data.allocSize then none
  else
    let (blocks, copy) := mem.blocks.copyData data
    some ({ mem with blocks := blocks }, copy)

/-- The loop of `copySList`: `prevToNode`, the size, and whether the list is ended behind it. `junk` is
what a new node has in its pointer. -/
def copyRest (junk : Option Nat) (memory : Nat) (mem : ListMemory) (currFromNode : Option Nat)
    (prevToNode : Nat) (size : Int) : Option (ListMemory × Nat × Int × Bool) :=
  match currFromNode, memory with
  | none, _ => some (mem, prevToNode, size, true)
  | some _, 0 => some (mem, prevToNode, size, false)
  | some currFromNode, memory + 1 => do
    let node ← mem.nodes.cells currFromNode
    match copyNodeData mem node.data memory with
    | none => some (mem, prevToNode, size, true)
    | some (mem, data) =>
      let newNode := mem.nodes.fresh
      let nodes ← (mem.newNode ⟨data, junk⟩).nodes.setNext prevToNode (some newNode)
      let size ← incSize size
      let node' ← nodes.cells currFromNode
      copyRest junk (memory - blocksOf node.data.allocSize) { mem with nodes := nodes } node'.next newNode
        size
termination_by memory

/-- The end of `copySList`, with the last node in front of the copies. -/
def copyEnd (self : SList) (before : Option Nat) (r : ListMemory × Nat × Int × Bool) :
    Option (ListMemory × SList × Option Nat) :=
  let (mem, prevToNode, size, ended) := r
  let self := { self with last := some prevToNode, size := size }
  if ended then do
    let nodes ← mem.nodes.setNext prevToNode none
    match before with
    | none => some ({ mem with nodes := nodes }, self, self.root)
    | some before =>
      let node ← nodes.cells before
      some ({ mem with nodes := nodes }, self, node.next)
  else some (mem, self, none)

/-- `copySList`, with the list `to` as `dest`. -/
def copySList (mem : ListMemory) (dest source : SList) (memory : Nat) (junk : Option Nat) :
    Option (ListMemory × SList × Option Nat) :=
  if source.size = 0 then some (mem, dest, none)
  else if dest.size = 0 then
    if memory = 0 then some (mem, { dest with root := none }, none)
    else do
      let first ← source.root
      let node ← mem.nodes.cells first
      match copyNodeData mem node.data (memory - 1) with
      -- `root` points to the node that is freed
      | none => some (mem, { dest with root := some mem.nodes.fresh }, none)
      | some (mem, data) =>
        let root := mem.nodes.fresh
        let size ← incSize dest.size
        let r ← copyRest junk (memory - 1 - blocksOf node.data.allocSize) (mem.newNode ⟨data, junk⟩)
          node.next root size
        copyEnd { dest with root := some root } none r
  else do
    let last ← dest.last
    let r ← copyRest junk memory mem source.root last dest.size
    copyEnd dest (some last) r

/-- `copySListNode`. Where the list has allocated the data of the node, the new block is taken for the new
node. -/
def copySListNode (mem : ListMemory) (dest : SList) (node memory : Nat) :
    Option (ListMemory × SList × Option Nat) := do
  let n ← mem.nodes.cells node
  let (mem, dest, new) ← appendToSList mem dest n.data.allocSize memory
  match new with
  | .null => some (mem, dest, none)
  | .node a =>
    let mem ← setData mem a n.data.data
    some (mem, dest, some a)
  | .data _ => none

/-! ## Moving -/

/-- `to->size += from->size` of an `int`. -/
def addSize (size n : Int) : Option Int := if size + n < 2 ^ 31 then some (size + n) else none

/-- `moveSList` -/
def moveSList (s : SLists) (dest source : Nat) : Option (SLists × Option Nat) :=
  let fromList := s.headers source
  if fromList.size = 0 then some (s, none)
  else do
    let toList := s.headers dest
    let s ← if toList.size = 0 then
        some { s with headers := Function.update s.headers dest fromList }
      else do
        let last ← toList.last
        let nodes ← s.mem.nodes.setNext last fromList.root
        let size ← addSize toList.size fromList.size
        some ⟨{ s.mem with nodes := nodes },
          Function.update s.headers dest ⟨toList.root, fromList.last, size⟩⟩
    let fromList := s.headers source
    some ({ s with headers := Function.update s.headers source { fromList with root := none, size := 0 } },
      fromList.root)

/-- `moveSListNode` -/
def moveSListNode (s : SLists) (dest source node : Nat) (prevNode : Option Nat) : Option SLists := do
  let toList := s.headers dest
  let nodes ← if toList.size = 0 then some s.mem.nodes else do
    let last ← toList.last
    s.mem.nodes.setNext last (some node)
  let size ← incSize toList.size
  let headers := Function.update s.headers dest
    ⟨if toList.size = 0 then some node else toList.root, some node, size⟩
  let n ← nodes.cells node
  let fromList := headers source
  let nodes ← setBehind nodes prevNode n.next
  let nodes ← nodes.setNext node none
  some ⟨{ s.mem with nodes := nodes },
    Function.update headers source
      { fromList with root := if prevNode.isNone then n.next else fromList.root, size := fromList.size - 1 }⟩

end SLists

/-! ## Runs -/

/-- A call of an operation. The node of `copyNode` and `moveNode` is given by its index in the list
`source`; `moveSListNode` gets the node in front of it, too. -/
inductive ListOp
  | append (list dataSize memory : Nat)
  | appendData (list data memory : Nat)
  | insert (list : Nat) (index : Int) (dataSize memory : Nat)
  | insertData (list : Nat) (index : Int) (data memory : Nat)
  | delete (list data : Nat)
  | shift (list : Nat)
  | copyList (dest source memory : Nat) (junk : Option Nat)
  | copyNode (dest source index memory : Nat)
  | moveList (dest source : Nat)
  | moveNode (dest source index : Nat)
  deriving DecidableEq, Repr

namespace SLists

/-- The list after a call that changes it alone. -/
def setList (s : SLists) (list : Nat) (mem : ListMemory) (self : SList) : SLists :=
  ⟨mem, Function.update s.headers list self⟩

/-- The lists after a call. -/
def change (s : SLists) : ListOp → Option SLists
  | .append list dataSize memory =>
    (appendToSList s.mem (s.headers list) dataSize memory).map fun r => s.setList list r.1 r.2.1
  | .appendData list data memory =>
    (appendDataToSList s.mem (s.headers list) data memory).map fun r => s.setList list r.1 r.2.1
  | .insert list index dataSize memory =>
    (insertIntoSList s.mem (s.headers list) index dataSize memory).map fun r => s.setList list r.1 r.2.1
  | .insertData list index data memory =>
    (insertDataIntoSList s.mem (s.headers list) index data memory).map fun r => s.setList list r.1 r.2.1
  | .delete list data =>
    (deleteFromSList s.mem.nodes (s.headers list) data).map fun r =>
      s.setList list { s.mem with nodes := r.1 } r.2.1
  | .shift list =>
    (shiftFromSList s.mem.nodes (s.headers list)).map fun r =>
      s.setList list { s.mem with nodes := r.1 } r.2.1
  | .copyList dest source memory junk =>
    (copySList s.mem (s.headers dest) (s.headers source) memory junk).map fun r => s.setList dest r.1 r.2.1
  | .copyNode dest source index memory => do
    let node ← getNodeFromSList s.mem.nodes (s.headers source) index
    let r ← copySListNode s.mem (s.headers dest) node memory
    some (s.setList dest r.1 r.2.1)
  | .moveList dest source => (moveSList s dest source).map Prod.fst
  | .moveNode dest source index => do
    let node ← getNodeFromSList s.mem.nodes (s.headers source) index
    moveSListNode s dest source node
      (if index = 0 then none else getNodeFromSList s.mem.nodes (s.headers source) (index - 1))

end SLists

/-! ## Sequences -/

/-- The sequences the lists stand for, over the same blocks. -/
structure Seqs where
  lists : Nat → List Datum
  blocks : Blocks

/-- The copies of some data, as long as there is memory for a node and its block. -/
def Blocks.copyWithin (blocks : Blocks) (memory : Nat) : List Datum → Blocks × List Datum
  | [] => (blocks, [])
  | data :: rest =>
    if memory < 1 + blocksOf data.allocSize then (blocks, [])
    else
      let (blocks, copy) := blocks.copyData data
      let (blocks, copies) := blocks.copyWithin (memory - (1 + blocksOf data.allocSize)) rest
      (blocks, copy :: copies)

namespace Seqs

def setList (q : Seqs) (list : Nat) (data : List Datum) : Seqs :=
  { q with lists := Function.update q.lists list data }

/-- Data is inserted at an index within the bounds, if there is memory for it. -/
def insert (q : Seqs) (list : Nat) (index : Int) (dataSize memory : Nat) : Seqs :=
  if 0 ≤ index ∧ index ≤ (q.lists list).length ∧ 1 + blocksOf dataSize ≤ memory then
    let (blocks, data) := q.blocks.newData dataSize
    ⟨Function.update q.lists list ((q.lists list).insertIdx index.toNat data), blocks⟩
  else q

/-- The same for a given pointer. -/
def insertData (q : Seqs) (list : Nat) (index : Int) (data memory : Nat) : Seqs :=
  if 0 ≤ index ∧ index ≤ (q.lists list).length ∧ 1 ≤ memory then
    q.setList list ((q.lists list).insertIdx index.toNat ⟨data, 0⟩)
  else q

/-- Copies of the data are appended. -/
def copy (q : Seqs) (dest memory : Nat) (data : List Datum) : Seqs :=
  let (blocks, copies) := q.blocks.copyWithin memory data
  ⟨Function.update q.lists dest (q.lists dest ++ copies), blocks⟩

/-- The elements that are not left in `source` are appended to `dest`, which may be the same. -/
def move (q : Seqs) (dest source : Nat) (left moved : List Datum) : Seqs :=
  let q := q.setList source left
  q.setList dest (q.lists dest ++ moved)

/-- The sequences after a call. -/
def change (q : Seqs) : ListOp → Seqs
  | .append list dataSize memory => q.insert list (q.lists list).length dataSize memory
  | .appendData list data memory => q.insertData list (q.lists list).length data memory
  | .insert list index dataSize memory => q.insert list index dataSize memory
  | .insertData list index data memory => q.insertData list index data memory
  | .delete list data => q.setList list ((q.lists list).eraseP fun d => d.data = data)
  | .shift list => q.setList list (q.lists list).tail
  | .copyList dest source memory _ => q.copy dest memory (q.lists source)
  | .copyNode dest source index memory => q.copy dest memory (q.lists source)[index]?.toList
  | .moveList dest source => q.move dest source [] (q.lists source)
  | .moveNode dest source index =>
    q.move dest source ((q.lists source).eraseIdx index) (q.lists source)[index]?.toList

end Seqs

/-- The list stands for the sequence: its nodes have the data in order, `size` is their number, and `last`
is the last one if there is one. -/
def StandsFor (m : SListMem Datum) (self : SList) (seq : List Datum) : Prop :=
  ∃ nodes : List (Nat × Datum), Chain m.cells self.root nodes none ∧ nodes.map Prod.snd = seq ∧
    self.size = nodes.length ∧ (nodes ≠ [] → self.last = lastPtr nodes)

/-- One step of a run: of the lists, as long as they are defined, and of the sequences. -/
def listStep (state : Option SLists × Seqs) (op : ListOp) : Option SLists × Seqs :=
  (state.1.bind fun s => s.change op, state.2.change op)

/-- Empty lists and empty sequences. -/
def listStart (blocks : Blocks) (last : Nat → Option Nat) : Option SLists × Seqs :=
  (some (SLists.start blocks last), ⟨fun _ => [], blocks⟩)

/-- Every list stands for its sequence. -/
def AllStandFor (state : Option SLists × Seqs) : Prop :=
  ∃ s, state.1 = some s ∧ s.mem.blocks = state.2.blocks ∧
    ∀ list, StandsFor s.mem.nodes (s.headers list) (state.2.lists list)

/-! ## The condition -/

/-- The list that may grow. -/
def ListOp.target : ListOp → Nat
  | .append list .. => list
  | .appendData list .. => list
  | .insert list .. => list
  | .insertData list .. => list
  | .delete list _ => list
  | .shift list => list
  | .copyList dest .. => dest
  | .copyNode dest .. => dest
  | .moveList dest _ => dest
  | .moveNode dest .. => dest

/-- If the memory ends while a list is copied, then for the data of a node and not for a node. -/
def NodesFit : (memory : Nat) → List Datum → Prop
  | _, [] => True
  | 0, _ :: _ => False
  | memory + 1, data :: rest =>
    blocksOf data.allocSize ≤ memory → NodesFit (memory - blocksOf data.allocSize) rest

/-- What `copySList` needs of the memory. -/
def CopyFits (dest source : List Datum) (memory : Nat) : Prop :=
  memory = 0 ∨ (NodesFit memory source ∧
    (dest = [] → ∀ data ∈ source.head?, 1 + blocksOf data.allocSize ≤ memory))

/-- The condition on a call, in terms of the sequences. -/
def ListOpOk (q : Seqs) (op : ListOp) : Prop :=
  ((q.change op).lists op.target).length < 2 ^ 31 ∧
    match op with
    | .insert _ index _ _ => 0 ≤ index
    | .insertData _ index _ _ => 0 ≤ index
    | .copyList dest source memory _ => q.lists source ≠ [] →
        dest ≠ source ∧ CopyFits (q.lists dest) (q.lists source) memory
    | .copyNode _ source index memory => ∃ data, (q.lists source)[index]? = some data ∧
        (data.allocSize = 0 ∨ memory < 1 + blocksOf data.allocSize)
    | .moveList dest source => q.lists source ≠ [] → dest ≠ source
    | .moveNode dest source index => index < (q.lists source).length ∧
        if dest = source then (q.lists source).length + 1 < 2 ^ 31
        else index + 1 = (q.lists source).length → index = 0
    | _ => True

instance instDecidableNodesFit : (memory : Nat) → (list : List Datum) → Decidable (NodesFit memory list)
  | _, [] => isTrue trivial
  | 0, _ :: _ => isFalse id
  | memory + 1, data :: rest =>
    have := instDecidableNodesFit (memory - blocksOf data.allocSize) rest
    inferInstanceAs (Decidable (blocksOf data.allocSize ≤ memory → NodesFit _ rest))

instance (dest source : List Datum) (memory : Nat) : Decidable (CopyFits dest source memory) :=
  inferInstanceAs (Decidable (_ ∨ _))

instance (q : Seqs) : (op : ListOp) → Decidable (ListOpOk q op)
  | .append .. => inferInstanceAs (Decidable (_ ∧ True))
  | .appendData .. => inferInstanceAs (Decidable (_ ∧ True))
  | .insert _ index _ _ => inferInstanceAs (Decidable (_ ∧ 0 ≤ index))
  | .insertData _ index _ _ => inferInstanceAs (Decidable (_ ∧ 0 ≤ index))
  | .delete .. => inferInstanceAs (Decidable (_ ∧ True))
  | .shift _ => inferInstanceAs (Decidable (_ ∧ True))
  | .copyList dest source memory _ => inferInstanceAs (Decidable (_ ∧ (q.lists source ≠ [] →
      dest ≠ source ∧ CopyFits (q.lists dest) (q.lists source) memory)))
  | .copyNode _ source index memory => inferInstanceAs (Decidable (_ ∧ ∃ data ∈ (q.lists source)[index]?,
      data.allocSize = 0 ∨ memory < 1 + blocksOf data.allocSize))
  | .moveList dest source => inferInstanceAs (Decidable (_ ∧ (q.lists source ≠ [] → dest ≠ source)))
  | .moveNode dest source index => inferInstanceAs (Decidable (_ ∧ index < (q.lists source).length ∧
      if dest = source then (q.lists source).length + 1 < 2 ^ 31
      else index + 1 = (q.lists source).length → index = 0))

end SrxSuite.Util

import SrxSuite.Lib.Runs
import SrxSuite.Util.SList

/-!
# The command queue

The model of `server/command_queue.c`. One list holds the commands that were fetched and are not
deleted yet and, from `nextItemNode` on, those that wait. Every function works under the mutex of the
queue, so that any number of threads does one call after the other; a call that does not release the
mutex stops all others.

Result: the queue is right in every state of a run if and only if every call meets `Fits`
(`commandQueue_iff`). A command that is too long and meets an empty queue does not: it leaves
`nextItemNode` at a node that is freed (`too_long_dangles`).
-/

namespace SrxSuite.Server

open Runs Util

/-! ## Commands -/

/-- `CommandQueueType`. -/
inductive CommandQueueType
  | srxProxy
  | shutdown
  deriving DecidableEq, Repr

/-- The arguments of `queueCommand`; `none` are no data. -/
structure Command where
  cmdType : CommandQueueType
  svrSock : Nat
  client : Nat
  dataID : UInt32
  dataLength : UInt32
  data : Option (List UInt8)
  sized : ∀ bytes ∈ data, bytes.length = dataLength.toNat

/-- `CommandQueueItem`: the command that was queued; `freed` says that its data were freed. -/
structure CommandQueueItem where
  command : Command
  consumed : Bool
  freed : Bool

/-- `CommandQueue`. A node of the list and its item are allocated together, their addresses have the
same number. `locked` is a mutex that is held while no call runs. -/
structure CommandQueue where
  mem : SListMem Nat
  items : Nat → Option CommandQueueItem
  queue : SList
  nextItemNode : Option Nat
  totalItems : Int
  unprocessedItems : Int
  alive : Bool
  locked : Bool

namespace CommandQueue

/-- `initializeCommandQueue`. -/
def initial : CommandQueue := ⟨initMem, fun _ => none, initSList, none, 0, 0, true, false⟩

/-- The data of a command are too long from this length on. -/
def maxDataLength : UInt32 := 1000000

/-- `queueCommand`. The flags say whether there is memory for the node with its item and for the data.
Without memory for an item, `newItem->consumed` is written through a NULL pointer. The result says
whether the command was added. -/
def queueCommand (self : CommandQueue) (cmd : Command) (nodeMem dataMem : Bool) :
    Option (CommandQueue × Bool) :=
  if !self.alive then some (self, false)
  else if !nodeMem then none
  else do
    let newItem := self.mem.fresh
    let (mem, queue) ← appendDataToSList self.mem self.queue newItem
    let self := { self with
      mem := mem
      queue := queue
      nextItemNode := if self.nextItemNode.isNone then queue.last else self.nextItemNode }
    if cmd.data.isSome && !dataMem then
      let (mem, queue, _) ← deleteFromSList self.mem self.queue newItem
      -- the mutex is not released
      some ({ self with mem := mem, queue := queue, locked := true }, false)
    else if cmd.data.isSome && !(cmd.dataLength < maxDataLength) then
      let (mem, queue, _) ← deleteFromSList self.mem self.queue newItem
      some ({ self with mem := mem, queue := queue }, false)
    else
      some ({ self with
        items := Function.update self.items newItem (some ⟨cmd, false, false⟩)
        totalItems := self.totalItems + 1
        unprocessedItems := self.unprocessedItems + 1 }, true)

/-- `fetchNextCommand`: the command of the item, `none` while the caller waits or when the queue is
not alive. -/
def fetchNextCommand (self : CommandQueue) : Option (CommandQueue × Option Command) :=
  if !self.alive then some (self, none)
  else if self.unprocessedItems = 0 then some (self, none)
  else do
    let nextItemNode ← self.nextItemNode
    let node ← self.mem.cells nextItemNode
    let item ← self.items node.data
    some ({ self with
      items := Function.update self.items node.data (some { item with consumed := true })
      unprocessedItems := self.unprocessedItems - 1
      nextItemNode := node.next }, some item.command)

/-- `free(item->data)`; data are not freed twice. -/
def freeData (items : Nat → Option CommandQueueItem) (item : Nat) :
    Option (Nat → Option CommandQueueItem) :=
  match items item with
  | none => none
  | some i =>
    if i.command.data.isSome && i.freed then none
    else some (Function.update items item (some { i with freed := i.command.data.isSome }))

/-- `deleteCommand`. -/
def deleteCommand (self : CommandQueue) (item : Option Nat) : Option CommandQueue :=
  match item with
  | none => some { self with totalItems := self.totalItems - 1 }
  | some item => do
    let items ← freeData self.items item
    let (mem, queue, _) ← deleteFromSList self.mem self.queue item
    some { self with
      mem := mem
      items := items
      queue := queue
      totalItems := self.totalItems - 1 }

/-- `removeAllCommands`: the data, the items and the nodes are freed. -/
def removeAllCommands (self : CommandQueue) : Option CommandQueue := do
  let nodes ← nodesOf self.mem self.mem.fresh self.queue.root
  let items ← nodes.foldlM (fun items node => freeData items node.2) self.items
  let (mem, queue) ← emptySList self.mem self.queue
  some { self with
    mem := mem
    items := fun item => if item ∈ nodes.map Prod.snd then none else items item
    queue := queue
    totalItems := queue.size
    unprocessedItems := if self.nextItemNode.isNone then 0 else queue.size }

end CommandQueue

/-! ## Runs -/

/-- The calls. -/
inductive CommandOp
  | queueCommand (cmd : Command) (nodeMem dataMem : Bool)
  | fetchNextCommand
  | deleteCommand (item : Option Nat)
  | removeAllCommands

/-- The queue, `none` after something that is not defined in C, with the commands that were added and
those that were fetched so far. -/
structure CommandRun where
  queue : Option CommandQueue
  accepted : List Command
  fetched : List Command

namespace CommandRun

def initial : CommandRun := ⟨some CommandQueue.initial, [], []⟩

/-- One call. It does not begin while the mutex is held. -/
def step (r : CommandRun) (op : CommandOp) : CommandRun :=
  match r.queue with
  | none => r
  | some queue =>
    if queue.locked then r
    else
      match op with
      | .queueCommand cmd nodeMem dataMem =>
        match queue.queueCommand cmd nodeMem dataMem with
        | none => { r with queue := none }
        | some (queue, added) =>
          { r with
            queue := some queue
            accepted := if added then r.accepted ++ [cmd] else r.accepted }
      | .fetchNextCommand =>
        match queue.fetchNextCommand with
        | none => { r with queue := none }
        | some (queue, cmd) =>
          { r with queue := some queue, fetched := r.fetched ++ cmd.toList }
      | .deleteCommand item => { r with queue := queue.deleteCommand item }
      | .removeAllCommands => { r with queue := queue.removeAllCommands }

/-- The queue is right: its list consists of nodes that were fetched and nodes that wait,
`nextItemNode` is the first that waits, their number is `unprocessedItems`, the commands that were
added are those that were fetched followed by those that wait, in this order, and the mutex is
free. -/
def Right (r : CommandRun) : Prop :=
  ∃ queue done waiting, r.queue = some queue ∧ queue.locked = false ∧
    Chain queue.mem.cells queue.queue.root (done ++ waiting) none ∧
    queue.nextItemNode = headPtr waiting ∧ queue.unprocessedItems = waiting.length ∧
    r.accepted.map some =
      r.fetched.map some ++ waiting.map fun node => (queue.items node.2).map (·.command)

/-- The condition: there is memory, the list is not at its largest size, data that are too long meet
a command that waits; a command that is deleted was fetched and is not deleted yet; and nothing waits
when all commands are removed. -/
def Fits (r : CommandRun) (op : CommandOp) : Prop :=
  ∀ queue ∈ r.queue, match op with
    | .queueCommand cmd nodeMem dataMem => queue.alive = true →
        nodeMem = true ∧ queue.queue.size + 1 < 2 ^ 31 ∧ (cmd.data.isSome → dataMem = true ∧
          (cmd.dataLength < CommandQueue.maxDataLength ∨ queue.nextItemNode ≠ none))
    | .fetchNextCommand => True
    | .deleteCommand item => ∀ a ∈ item, ∃ i, queue.items a = some i ∧ i.consumed = true ∧
        (i.command.data.isSome → i.freed = false)
    | .removeAllCommands => queue.nextItemNode = none

end CommandRun

namespace CommandQueueLemmas

open CommandQueue CommandRun SListLemmas

variable {r : CommandRun} {q : CommandQueue} {done waiting : List (Nat × Nat)}

/-! ## The invariant -/

/-- The commands of nodes. -/
def commands (items : Nat → Option CommandQueueItem) (nodes : List (Nat × Nat)) :
    List (Option Command) :=
  nodes.map fun node => (items node.2).map (·.command)

/-- The list has the nodes `done` that were fetched and the nodes `waiting` that were not. -/
structure Served (r : CommandRun) (q : CommandQueue) (done waiting : List (Nat × Nat)) : Prop where
  queue : r.queue = some q
  unlocked : q.locked = false
  nodes : Nodes q.mem q.queue (done ++ waiting)
  own : ∀ x ∈ done ++ waiting, x.2 = x.1
  cursor : q.nextItemNode = headPtr waiting
  count : q.unprocessedItems = waiting.length
  order : r.accepted.map some = r.fetched.map some ++ commands q.items waiting
  doneItems : ∀ x ∈ done, ∃ i, q.items x.2 = some i ∧ i.consumed = true ∧ i.freed = false
  waitingItems : ∀ x ∈ waiting, ∃ i, q.items x.2 = some i ∧ i.consumed = false ∧ i.freed = false
  others : ∀ a i, q.items a = some i → a ∉ addrs (done ++ waiting) → i.consumed = true
  bound : ∀ a i, q.items a = some i → a < q.mem.fresh

theorem served_initial : Served initial CommandQueue.initial [] [] where
  queue := rfl
  unlocked := rfl
  nodes := nodes_init
  own := fun _ h => nomatch h
  cursor := rfl
  count := rfl
  order := rfl
  doneItems := fun _ h => nomatch h
  waitingItems := fun _ h => nomatch h
  others := fun _ _ h => nomatch h
  bound := fun _ _ h => nomatch h

theorem Served.right (h : Served r q done waiting) : r.Right :=
  ⟨q, done, waiting, h.queue, h.unlocked, h.nodes.chain, h.cursor, h.count, h.order⟩

/-- The address that is given out next is that of no item. -/
theorem Served.ne_fresh (h : Served r q done waiting) {x : Nat × Nat} (hx : x ∈ done ++ waiting) :
    x.2 ≠ q.mem.fresh := by
  rw [h.own x hx]
  exact Nat.ne_of_lt (h.nodes.bound x.1 (List.mem_map_of_mem hx))

theorem commands_congr {items items' : Nat → Option CommandQueueItem} {nodes : List (Nat × Nat)}
    (h : ∀ x ∈ nodes, (items' x.2).map (·.command) = (items x.2).map (·.command)) :
    commands items' nodes = commands items nodes := List.map_congr_left h

/-- A node and its item have the same number, which no other node has. -/
theorem Served.distinct (h : Served r q done waiting) {xs₁ xs₂ : List (Nat × Nat)} {a b : Nat}
    (hsplit : done ++ waiting = xs₁ ++ (a, b) :: xs₂) :
    b = a ∧ ∀ x ∈ xs₁ ++ xs₂, x.2 ≠ a := by
  have hown := h.own
  have hnodup := h.nodes.nodup
  rw [hsplit] at hown hnodup
  refine ⟨hown (a, b) (List.mem_append_right _ List.mem_cons_self), fun x hx heq => ?_⟩
  have hmem : x ∈ xs₁ ++ (a, b) :: xs₂ :=
    List.mem_append.mpr ((List.mem_append.mp hx).imp_right (List.mem_cons_of_mem _))
  have hfirst : x.1 = a := (hown x hmem).symm.trans heq
  simp only [addrs, List.map_append, List.map_cons] at hnodup
  refine (List.nodup_cons.mp (List.nodup_middle.mp hnodup)).1 (hfirst ▸ ?_)
  rw [← List.map_append]
  exact List.mem_map_of_mem hx

/-- A node whose cell is freed is not in the list. -/
theorem not_right_of_dangling {a : Nat} (hq : r.queue = some q) (hcursor : q.nextItemNode = some a)
    (hfree : q.mem.cells a = none) : ¬ r.Right := by
  rintro ⟨q', done, waiting, hq', -, hchain, hnext, -⟩
  obtain rfl := Option.some.inj (hq.symm.trans hq')
  rw [hcursor] at hnext
  cases waiting with
  | nil => cases hnext
  | cons x waiting =>
    obtain ⟨b, v⟩ := x
    obtain rfl : a = b := Option.some.inj hnext
    rw [(chain_split hchain).2.1] at hfree
    cases hfree

theorem not_right_of_none (h : r.queue = none) : ¬ r.Right := by
  rintro ⟨q, -, -, hq, -⟩
  rw [h] at hq
  cases hq

theorem not_right_of_locked (hq : r.queue = some q) (h : q.locked = true) : ¬ r.Right := by
  rintro ⟨q', -, -, hq', hfree, -⟩
  obtain rfl := Option.some.inj (hq.symm.trans hq')
  rw [h] at hfree
  cases hfree

/-- A step of a queue whose mutex is free. -/
theorem step_eq (h : Served r q done waiting) (op : CommandOp) :
    r.step op = match op with
      | .queueCommand cmd nodeMem dataMem =>
        match q.queueCommand cmd nodeMem dataMem with
        | none => { r with queue := none }
        | some (q', added) =>
          { r with
            queue := some q'
            accepted := if added then r.accepted ++ [cmd] else r.accepted }
      | .fetchNextCommand =>
        match q.fetchNextCommand with
        | none => { r with queue := none }
        | some (q', cmd) => { r with queue := some q', fetched := r.fetched ++ cmd.toList }
      | .deleteCommand item => { r with queue := q.deleteCommand item }
      | .removeAllCommands => { r with queue := q.removeAllCommands } := by
  unfold step
  rw [h.queue]
  dsimp only
  rw [h.unlocked]
  rfl

/-! ## Queueing -/

/-- `queueCommand` of a queue that is alive, by what it meets. -/
theorem queueCommand_cases (h : Served r q done waiting) (halive : q.alive = true) (cmd : Command)
    (nodeMem dataMem : Bool) :
    (q.queueCommand cmd nodeMem dataMem = none ∧
        (nodeMem = false ∨ ¬ q.queue.size + 1 < 2 ^ 31)) ∨
      (nodeMem = true ∧ q.queue.size + 1 < 2 ^ 31 ∧ ∃ mem queue,
        Nodes mem queue (done ++ waiting ++ [(q.mem.fresh, q.mem.fresh)]) ∧
        mem.fresh = q.mem.fresh + 1 ∧
        ((cmd.data.isSome = true ∧ dataMem = false ∧ ∃ q',
            q.queueCommand cmd nodeMem dataMem = some (q', false) ∧ q'.locked = true) ∨
          ((cmd.data.isSome = true ∧ dataMem = true ∧ ¬ cmd.dataLength < maxDataLength) ∧
            ∃ mem' queue', Nodes mem' queue' (done ++ waiting) ∧ mem'.fresh = q.mem.fresh + 1 ∧
              mem'.cells q.mem.fresh = none ∧
              q.queueCommand cmd nodeMem dataMem = some ({ q with
                mem := mem'
                queue := queue'
                nextItemNode := if q.nextItemNode.isNone then some q.mem.fresh
                  else q.nextItemNode }, false)) ∨
          ((cmd.data.isSome = true → dataMem = true ∧ cmd.dataLength < maxDataLength) ∧
            q.queueCommand cmd nodeMem dataMem = some ({ q with
              mem := mem
              queue := queue
              nextItemNode := if q.nextItemNode.isNone then some q.mem.fresh else q.nextItemNode
              items := Function.update q.items q.mem.fresh (some ⟨cmd, false, false⟩)
              totalItems := q.totalItems + 1
              unprocessedItems := q.unprocessedItems + 1 }, true)))) := by
  unfold queueCommand
  rw [halive, Bool.not_true, if_neg Bool.false_ne_true]
  cases nodeMem with
  | false => exact .inl ⟨rfl, .inl rfl⟩
  | true =>
    rw [Bool.not_true, if_neg Bool.false_ne_true]
    by_cases hsize : q.queue.size + 1 < 2 ^ 31
    · have hlen : (done ++ waiting).length + 1 < 2 ^ 31 := by
        have := h.nodes.size
        omega
      obtain ⟨mem, queue, happend, hfresh, hnodes⟩ := h.nodes.append hlen q.mem.fresh
      have hlast : queue.last = some q.mem.fresh := by
        rw [hnodes.last (List.append_ne_nil_of_right_ne_nil _ (List.cons_ne_nil _ _))]
        exact lastPtr_concat _
      obtain ⟨mem', queue', hdelete, hfresh', hfree, hnodes'⟩ :=
        @Nodes.delete Nat mem queue (done ++ waiting) [] _ _ _ hnodes fun x hx => h.ne_fresh hx
      rw [List.append_nil] at hnodes'
      refine .inr ⟨rfl, hsize, mem, queue, hnodes, hfresh, ?_⟩
      dsimp only
      rw [happend]
      dsimp only [Option.bind_eq_bind, Option.bind_some]
      rw [hlast]
      by_cases hmem : cmd.data.isSome = true ∧ dataMem = false
      · rw [hmem.1, hmem.2, Bool.not_false, Bool.and_true, if_pos rfl, hdelete]
        exact .inl ⟨rfl, rfl, _, rfl, rfl⟩
      · have hmem' : ¬ (cmd.data.isSome && !dataMem) = true := by
          rw [Bool.and_eq_true, Bool.not_eq_true']
          exact hmem
        rw [if_neg hmem']
        by_cases hlong : cmd.data.isSome = true ∧ ¬ cmd.dataLength < maxDataLength
        · have hdata : dataMem = true := Bool.not_eq_false _ ▸ fun hf => hmem ⟨hlong.1, hf⟩
          rw [hlong.1, decide_eq_false hlong.2, Bool.not_false, Bool.and_true, if_pos rfl, hdelete]
          exact .inr (.inl ⟨⟨rfl, hdata, hlong.2⟩, mem', queue', hnodes', hfresh'.trans hfresh, hfree,
            rfl⟩)
        · have hlong' : ¬ (cmd.data.isSome && !decide (cmd.dataLength < maxDataLength)) = true := by
            rw [Bool.and_eq_true, Bool.not_eq_true', decide_eq_false_iff_not]
            exact hlong
          rw [if_neg hlong']
          refine .inr (.inr ⟨fun hsome => ⟨?_, ?_⟩, rfl⟩)
          · exact Bool.not_eq_false _ ▸ fun hf => hmem ⟨hsome, hf⟩
          · exact not_not.mp fun hlt => hlong ⟨hsome, hlt⟩
    · have hlen : ¬ (done ++ waiting).length + 1 < 2 ^ 31 := by
        have := h.nodes.size
        omega
      dsimp only
      rw [h.nodes.append_none hlen]
      exact .inl ⟨rfl, .inr hsize⟩

/-- The same list, with other addresses given out. -/
theorem Served.same_list (h : Served r q done waiting) {q' : CommandQueue} {r' : CommandRun}
    (hnodes : Nodes q'.mem q'.queue (done ++ waiting)) (hfresh : q.mem.fresh ≤ q'.mem.fresh)
    (hq : r'.queue = some q') (hitems : q'.items = q.items) (hlocked : q'.locked = false)
    (hcursor : q'.nextItemNode = q.nextItemNode) (hcount : q'.unprocessedItems = q.unprocessedItems)
    (haccepted : r'.accepted = r.accepted) (hfetched : r'.fetched = r.fetched) :
    Served r' q' done waiting where
  queue := hq
  unlocked := hlocked
  nodes := hnodes
  own := h.own
  cursor := hcursor.trans h.cursor
  count := hcount.trans h.count
  order := by
    rw [haccepted, hfetched, hitems]
    exact h.order
  doneItems := hitems ▸ h.doneItems
  waitingItems := hitems ▸ h.waitingItems
  others := hitems ▸ h.others
  bound := fun a i ha => Nat.lt_of_lt_of_le (h.bound a i (hitems ▸ ha)) hfresh

/-- A command behind those that wait. -/
theorem Served.enqueue (h : Served r q done waiting) (cmd : Command) {q' : CommandQueue}
    {r' : CommandRun}
    (hnodes : Nodes q'.mem q'.queue (done ++ waiting ++ [(q.mem.fresh, q.mem.fresh)]))
    (hfresh : q'.mem.fresh = q.mem.fresh + 1) (hq : r'.queue = some q')
    (hitems : q'.items = Function.update q.items q.mem.fresh (some ⟨cmd, false, false⟩))
    (hlocked : q'.locked = false)
    (hcursor : q'.nextItemNode =
      if q.nextItemNode.isNone then some q.mem.fresh else q.nextItemNode)
    (hcount : q'.unprocessedItems = q.unprocessedItems + 1)
    (haccepted : r'.accepted = r.accepted ++ [cmd]) (hfetched : r'.fetched = r.fetched) :
    Served r' q' done (waiting ++ [(q.mem.fresh, q.mem.fresh)]) := by
  have hold (x : Nat × Nat) (hx : x ∈ done ++ waiting) : q'.items x.2 = q.items x.2 := by
    rw [hitems]
    exact Function.update_of_ne (h.ne_fresh hx) _ _
  have hnew : q'.items q.mem.fresh = some ⟨cmd, false, false⟩ := by
    rw [hitems]
    exact Function.update_self _ _ _
  refine ⟨hq, hlocked, ?_, ?_, ?_, ?_, ?_, ?_, ?_, ?_, ?_⟩
  · rw [← List.append_assoc]
    exact hnodes
  · rw [← List.append_assoc]
    intro x hx
    rcases List.mem_append.mp hx with hx | hx
    · exact h.own x hx
    · obtain rfl := List.mem_singleton.mp hx
      rfl
  · rw [hcursor, h.cursor]
    cases waiting with
    | nil => rfl
    | cons x waiting => rfl
  · rw [hcount, h.count, List.length_append, List.length_singleton]
    rfl
  · have hcommands : commands q'.items waiting = commands q.items waiting :=
      commands_congr fun x hx => by rw [hold x (List.mem_append_right _ hx)]
    rw [haccepted, hfetched, List.map_append, h.order, List.append_assoc]
    congr 1
    rw [← hcommands]
    unfold commands
    rw [List.map_append, List.map_singleton, List.map_singleton, hnew]
    rfl
  · intro x hx
    rw [hold x (List.mem_append_left _ hx)]
    exact h.doneItems x hx
  · intro x hx
    rcases List.mem_append.mp hx with hx | hx
    · rw [hold x (List.mem_append_right _ hx)]
      exact h.waitingItems x hx
    · obtain rfl := List.mem_singleton.mp hx
      exact ⟨_, hnew, rfl, rfl⟩
  · intro a i ha hnot
    rw [← List.append_assoc] at hnot
    simp only [addrs, List.map_append, List.map_singleton, List.mem_append, List.mem_singleton,
      not_or] at hnot
    rw [hitems, Function.update_of_ne hnot.2] at ha
    refine h.others a i ha ?_
    simp only [addrs, List.map_append, List.mem_append, not_or]
    exact hnot.1
  · intro a i ha
    rw [hfresh]
    rcases eq_or_ne a q.mem.fresh with heq | hne
    · rw [heq]
      exact Nat.lt_succ_self _
    · rw [hitems, Function.update_of_ne hne] at ha
      exact Nat.lt_succ_of_lt (h.bound a i ha)

theorem served_queue (h : Served r q done waiting) {cmd : Command} {nodeMem dataMem : Bool}
    (hop : r.Fits (.queueCommand cmd nodeMem dataMem)) :
    ∃ q' waiting', Served (r.step (.queueCommand cmd nodeMem dataMem)) q' done waiting' := by
  have hfits := hop q h.queue
  rw [step_eq h]
  dsimp only
  cases halive : q.alive with
  | false =>
    have hsame : q.queueCommand cmd nodeMem dataMem = some (q, false) := by
      unfold queueCommand
      rw [halive]
      rfl
    rw [hsame]
    exact ⟨q, waiting, h.same_list h.nodes (Nat.le_refl _) rfl rfl h.unlocked rfl rfl rfl rfl⟩
  | true =>
    obtain ⟨hnode, hsize, hdata⟩ := hfits halive
    rcases queueCommand_cases h halive cmd nodeMem dataMem with ⟨-, hbad⟩ |
      ⟨-, -, mem, queue, hnodes, hfresh, ⟨hsome, hmem, -⟩ | ⟨⟨hsome, -, hlong⟩, hcase⟩ | ⟨-, hqueue⟩⟩
    · rcases hbad with hbad | hbad
      · rw [hbad] at hnode
        cases hnode
      · exact absurd hsize hbad
    · rw [(hdata hsome).1] at hmem
      cases hmem
    · -- too long, behind a command that waits
      obtain ⟨mem', queue', hnodes', hfresh', -, hqueue⟩ := hcase
      have hcursor : q.nextItemNode ≠ none := (hdata hsome).2.resolve_left hlong
      rw [hqueue]
      refine ⟨_, waiting, h.same_list hnodes' (hfresh' ▸ Nat.le_succ _) rfl rfl h.unlocked ?_ rfl rfl
        rfl⟩
      dsimp only
      rw [if_neg (by rw [Option.isNone_iff_eq_none]; exact hcursor)]
    · rw [hqueue]
      exact ⟨_, _, h.enqueue cmd hnodes hfresh rfl rfl h.unlocked rfl rfl rfl rfl⟩

theorem not_right_queue (h : Served r q done waiting) {cmd : Command} {nodeMem dataMem : Bool}
    (hop : ¬ r.Fits (.queueCommand cmd nodeMem dataMem)) :
    ¬ (r.step (.queueCommand cmd nodeMem dataMem)).Right := by
  rw [step_eq h]
  dsimp only
  have hbad : ¬ (q.alive = true → nodeMem = true ∧ q.queue.size + 1 < 2 ^ 31 ∧
      (cmd.data.isSome → dataMem = true ∧
        (cmd.dataLength < maxDataLength ∨ q.nextItemNode ≠ none))) := by
    intro hfits
    refine hop fun q' hq' => ?_
    obtain rfl := Option.some.inj (h.queue.symm.trans hq')
    exact hfits
  have halive : q.alive = true := by
    by_contra hdead
    exact hbad fun h => absurd h hdead
  rcases queueCommand_cases h halive cmd nodeMem dataMem with ⟨hqueue, -⟩ |
    ⟨hnode, hsize, mem, queue, -, -, ⟨-, -, q', hqueue, hlocked⟩ | ⟨⟨hsome, hdata, hlong⟩, hcase⟩ |
      ⟨hdata, -⟩⟩
  · rw [hqueue]
    exact not_right_of_none rfl
  · rw [hqueue]
    exact not_right_of_locked rfl hlocked
  · obtain ⟨mem', queue', -, -, hfree, hqueue⟩ := hcase
    rw [hqueue]
    have hcursor : q.nextItemNode = none := by
      by_contra hne
      exact hbad fun _ => ⟨hnode, hsize, fun _ => ⟨hdata, .inr hne⟩⟩
    refine not_right_of_dangling rfl ?_ hfree
    dsimp only
    rw [hcursor]
    rfl
  · exact absurd (fun _ => ⟨hnode, hsize, fun hsome => ⟨(hdata hsome).1, .inl (hdata hsome).2⟩⟩) hbad

/-! ## Fetching -/

theorem fetchNextCommand_waits (h : ¬ (q.alive = true ∧ q.unprocessedItems ≠ 0)) :
    q.fetchNextCommand = some (q, none) := by
  unfold fetchNextCommand
  split
  · rfl
  · next halive =>
    rw [Bool.not_eq_true', Bool.not_eq_false] at halive
    rw [if_pos (not_not.mp fun hcount => h ⟨halive, hcount⟩)]

theorem fetchNextCommand_eq (h : q.alive = true ∧ q.unprocessedItems ≠ 0) {a b : Nat}
    {next : Option Nat} {i : CommandQueueItem} (hcursor : q.nextItemNode = some a)
    (hcell : q.mem.cells a = some ⟨b, next⟩) (hitem : q.items b = some i) :
    q.fetchNextCommand = some ({ q with
      items := Function.update q.items b (some { i with consumed := true })
      unprocessedItems := q.unprocessedItems - 1
      nextItemNode := next }, some i.command) := by
  unfold fetchNextCommand
  rw [h.1, Bool.not_true, if_neg Bool.false_ne_true, if_neg h.2, hcursor]
  dsimp only [Option.bind_eq_bind, Option.bind_some]
  rw [hcell]
  dsimp only [Option.bind_some]
  rw [hitem]
  rfl

/-- `fetchNextCommand` moves the first command that waits to those that were fetched. -/
theorem served_fetch (h : Served r q done waiting) :
    ∃ q' done' waiting', Served (r.step .fetchNextCommand) q' done' waiting' := by
  rw [step_eq h]
  dsimp only
  by_cases hwait : q.alive = true ∧ q.unprocessedItems ≠ 0
  swap
  · rw [fetchNextCommand_waits hwait]
    refine ⟨q, done, waiting, h.same_list h.nodes (Nat.le_refl _) rfl rfl h.unlocked rfl rfl rfl ?_⟩
    exact List.append_nil _
  cases waiting with
  | nil => exact absurd h.count hwait.2
  | cons x rest =>
    obtain ⟨a, b⟩ := x
    obtain ⟨rfl, hother⟩ := h.distinct rfl
    obtain ⟨i, hitem, -, hfreed⟩ := h.waitingItems (b, b) List.mem_cons_self
    have hcell : q.mem.cells b = some ⟨b, headPtr rest⟩ := h.nodes.twoLists.cell
    have hassoc : done ++ [(b, b)] ++ rest = done ++ (b, b) :: rest := List.append_assoc ..
    rw [fetchNextCommand_eq hwait h.cursor hcell hitem]
    have hitems (x : Nat × Nat) (hx : x ∈ done ++ rest) :
        Function.update q.items b (some { i with consumed := true }) x.2 = q.items x.2 :=
      Function.update_of_ne (hother x hx) _ _
    refine ⟨_, done ++ [(b, b)], rest, ⟨rfl, h.unlocked, ?_, ?_, rfl, ?_, ?_, ?_, ?_, ?_, ?_⟩⟩
    · exact hassoc ▸ h.nodes
    · exact hassoc ▸ h.own
    · dsimp only
      rw [h.count, List.length_cons]
      omega
    · have hrest : commands (Function.update q.items b (some { i with consumed := true })) rest =
          commands q.items rest := commands_congr fun x hx => by rw [hitems x (List.mem_append_right _ hx)]
      dsimp only
      rw [hrest, h.order, List.map_append, List.append_assoc]
      congr 1
      simp only [commands, List.map_cons, hitem, Option.map_some, Option.toList_some, List.map_nil,
        List.singleton_append]
    · intro x hx
      dsimp only
      rcases List.mem_append.mp hx with hx | hx
      · rw [hitems x (List.mem_append_left _ hx)]
        exact h.doneItems x hx
      · obtain rfl := List.mem_singleton.mp hx
        exact ⟨_, Function.update_self _ _ _, rfl, hfreed⟩
    · intro x hx
      dsimp only
      rw [hitems x (List.mem_append_right _ hx)]
      exact h.waitingItems x (List.mem_cons_of_mem _ hx)
    · intro c j hc hnot
      dsimp only at hc
      by_cases heq : c = b
      · rw [heq, Function.update_self] at hc
        rw [← Option.some.inj hc]
      · rw [Function.update_of_ne heq] at hc
        exact h.others c j hc (hassoc ▸ hnot)
    · intro c j hc
      dsimp only at hc
      by_cases heq : c = b
      · rw [heq]
        exact h.bound b i hitem
      · rw [Function.update_of_ne heq] at hc
        exact h.bound c j hc

/-! ## Deleting -/

theorem freeData_eq {items : Nat → Option CommandQueueItem} {a : Nat} {i : CommandQueueItem}
    (hitem : items a = some i) (hfreed : i.command.data.isSome → i.freed = false) :
    freeData items a =
      some (Function.update items a (some { i with freed := i.command.data.isSome })) := by
  unfold freeData
  rw [hitem]
  dsimp only
  rw [if_neg]
  rw [Bool.and_eq_true]
  rintro ⟨hsome, htwice⟩
  rw [hfreed hsome] at htwice
  cases htwice

/-- The list without a node of a command that was fetched, or the same list. -/
theorem Served.delete (h : Served r q done waiting) {a : Nat} {i : CommandQueueItem}
    (hitem : q.items a = some i) (hconsumed : i.consumed = true) {done' : List (Nat × Nat)}
    {mem : SListMem Nat} {queue : SList} {freed : Bool} (hnodes : Nodes mem queue (done' ++ waiting))
    (hfresh : mem.fresh = q.mem.fresh) (hdone : ∀ x ∈ done', x ∈ done)
    (hother : ∀ x ∈ done' ++ waiting, x.2 ≠ a)
    (hrest : ∀ c ∈ addrs (done ++ waiting), c ≠ a → c ∈ addrs (done' ++ waiting)) :
    Served { r with queue := some { q with
        mem := mem
        items := Function.update q.items a (some { i with freed := freed })
        queue := queue
        totalItems := q.totalItems - 1 } }
      { q with
        mem := mem
        items := Function.update q.items a (some { i with freed := freed })
        queue := queue
        totalItems := q.totalItems - 1 } done' waiting := by
  have hitems (x : Nat × Nat) (hx : x ∈ done' ++ waiting) :
      Function.update q.items a (some { i with freed := freed }) x.2 = q.items x.2 :=
    Function.update_of_ne (hother x hx) _ _
  refine ⟨rfl, h.unlocked, hnodes, ?_, h.cursor, h.count, ?_, ?_, ?_, ?_, ?_⟩
  · intro x hx
    exact h.own x (List.mem_append.mpr ((List.mem_append.mp hx).imp_left (hdone x)))
  · dsimp only
    rw [commands_congr fun x hx => by rw [hitems x (List.mem_append_right _ hx)]]
    exact h.order
  · intro x hx
    dsimp only
    rw [hitems x (List.mem_append_left _ hx)]
    exact h.doneItems x (hdone x hx)
  · intro x hx
    dsimp only
    rw [hitems x (List.mem_append_right _ hx)]
    exact h.waitingItems x hx
  · intro c j hc hnot
    dsimp only at hc
    by_cases heq : c = a
    · rw [heq, Function.update_self] at hc
      rw [← Option.some.inj hc]
      exact hconsumed
    · rw [Function.update_of_ne heq] at hc
      exact h.others c j hc fun hmem => hnot (hrest c hmem heq)
  · intro c j hc
    dsimp only at hc ⊢
    rw [hfresh]
    by_cases heq : c = a
    · rw [heq]
      exact h.bound a i hitem
    · rw [Function.update_of_ne heq] at hc
      exact h.bound c j hc

theorem served_delete (h : Served r q done waiting) {item : Option Nat}
    (hop : r.Fits (.deleteCommand item)) :
    ∃ q' done', Served (r.step (.deleteCommand item)) q' done' waiting := by
  rw [step_eq h]
  dsimp only
  cases item with
  | none =>
    refine ⟨{ q with totalItems := q.totalItems - 1 }, done, ?_⟩
    exact h.same_list h.nodes (Nat.le_refl _) rfl rfl h.unlocked rfl rfl rfl rfl
  | some a =>
    obtain ⟨i, hitem, hconsumed, hfreed⟩ := hop q h.queue a rfl
    unfold deleteCommand
    dsimp only
    rw [freeData_eq hitem hfreed]
    dsimp only [Option.bind_eq_bind, Option.bind_some]
    have hwaiting : ∀ x ∈ waiting, x.2 ≠ a := by
      intro x hx heq
      obtain ⟨j, hj, hnot, -⟩ := h.waitingItems x hx
      rw [heq, hitem] at hj
      obtain rfl := Option.some.inj hj
      rw [hconsumed] at hnot
      cases hnot
    by_cases hmem : ∃ x ∈ done, x.2 = a
    · obtain ⟨⟨c, b⟩, hx, rfl⟩ := hmem
      obtain ⟨xs₁, xs₂, rfl⟩ := List.append_of_mem hx
      have hassoc : xs₁ ++ (c, b) :: xs₂ ++ waiting = xs₁ ++ (c, b) :: (xs₂ ++ waiting) := by
        rw [List.append_assoc, List.cons_append]
      obtain ⟨rfl, hother⟩ := h.distinct hassoc
      obtain ⟨mem, queue, hdelete, hfresh, -, hnodes⟩ :=
        (hassoc ▸ h.nodes).delete fun x hx => hother x (List.mem_append_left _ hx)
      rw [← List.append_assoc] at hnodes hother
      rw [hdelete]
      refine ⟨_, xs₁ ++ xs₂, h.delete hitem hconsumed hnodes hfresh ?_ hother ?_⟩
      · intro x hx
        exact List.mem_append.mpr ((List.mem_append.mp hx).imp_right (List.mem_cons_of_mem _))
      · intro c hc hne
        simp only [addrs, List.map_append, List.map_cons, List.mem_append, List.mem_cons] at hc ⊢
        tauto
    · have habsent : ∀ x ∈ done ++ waiting, x.2 ≠ a := by
        intro x hx
        rcases List.mem_append.mp hx with hx | hx
        · exact fun heq => hmem ⟨x, hx, heq⟩
        · exact hwaiting x hx
      rw [h.nodes.delete_absent habsent]
      exact ⟨_, done, h.delete hitem hconsumed h.nodes rfl (fun _ hx => hx) habsent
        fun _ hc _ => hc⟩

/-- More commands are counted than there are nodes behind those that were fetched. -/
theorem not_right_of_count {rest : List (Nat × Nat)} (hq : r.queue = some q)
    (hchain : Chain q.mem.cells q.queue.root (done ++ rest) none)
    (hcursor : q.nextItemNode = headPtr waiting) (hcount : q.unprocessedItems = waiting.length)
    (hlength : waiting.length = rest.length + 1)
    (hdisjoint : ∀ x ∈ done, x.1 ∉ addrs waiting) : ¬ r.Right := by
  rintro ⟨q', done', waiting', hq', -, hchain', hcursor', hcount', -⟩
  obtain rfl := Option.some.inj (hq.symm.trans hq')
  have hlength' : waiting'.length = rest.length + 1 := by
    rw [← hlength]
    exact_mod_cast hcount'.symm.trans hcount
  rcases List.append_eq_append_iff.mp (chain_unique hchain hchain') with ⟨bs, -, hbs⟩ | ⟨as, has, hbs⟩
  · -- all that were fetched are behind the cursor: there is one node too few
    have := congrArg List.length hbs
    rw [List.length_append] at this
    omega
  · -- the cursor would be at the last command that was fetched
    have hone := congrArg List.length hbs
    rw [List.length_append] at hone
    obtain ⟨z, rfl⟩ := List.length_eq_one_iff.mp (by omega : as.length = 1)
    rw [hcursor, hbs] at hcursor'
    cases waiting with
    | nil => cases hcursor'
    | cons y waiting =>
      obtain hsame : y.1 = z.1 := Option.some.inj hcursor'
      refine hdisjoint z (has ▸ List.mem_append_right _ List.mem_cons_self) ?_
      rw [← hsame]
      exact List.mem_map_of_mem List.mem_cons_self

theorem not_right_delete (h : Served r q done waiting) {item : Option Nat}
    (hop : ¬ r.Fits (.deleteCommand item)) : ¬ (r.step (.deleteCommand item)).Right := by
  rw [step_eq h]
  dsimp only
  have hbad : ¬ ∀ a ∈ item, ∃ i, q.items a = some i ∧ i.consumed = true ∧
      (i.command.data.isSome → i.freed = false) := by
    intro hfits
    refine hop fun q' hq' => ?_
    obtain rfl := Option.some.inj (h.queue.symm.trans hq')
    exact hfits
  cases item with
  | none => exact absurd (fun a ha => nomatch ha) hbad
  | some a =>
    have hnot : ¬ ∃ i, q.items a = some i ∧ i.consumed = true ∧
        (i.command.data.isSome → i.freed = false) :=
      fun hok => hbad fun b hb => Option.some.inj hb ▸ hok
    unfold deleteCommand
    dsimp only
    cases hitem : q.items a with
    | none =>
      unfold freeData
      rw [hitem]
      exact not_right_of_none rfl
    | some i =>
      by_cases hfreed : i.command.data.isSome = true → i.freed = false
      · -- a command that waits
        have hconsumed : i.consumed ≠ true := fun hc => hnot ⟨i, hitem, hc, hfreed⟩
        have hmem : a ∈ addrs (done ++ waiting) := by
          by_contra habsent
          exact hconsumed (h.others a i hitem habsent)
        obtain ⟨⟨c, b⟩, hx, rfl⟩ := List.mem_map.mp hmem
        obtain rfl : b = c := h.own (c, b) hx
        have hwaiting : (b, b) ∈ waiting := by
          refine (List.mem_append.mp hx).resolve_left fun hdone => ?_
          obtain ⟨j, hj, hc, -⟩ := h.doneItems (b, b) hdone
          exact hconsumed (Option.some.inj (hitem.symm.trans hj) ▸ hc)
        obtain ⟨xs₁, xs₂, rfl⟩ := List.append_of_mem hwaiting
        have hassoc : done ++ (xs₁ ++ (b, b) :: xs₂) = done ++ xs₁ ++ (b, b) :: xs₂ :=
          (List.append_assoc ..).symm
        obtain ⟨-, hother⟩ := h.distinct hassoc
        obtain ⟨mem, queue, hdelete, -, -, hnodes⟩ :=
          (hassoc ▸ h.nodes).delete fun x hx => hother x (List.mem_append_left _ hx)
        rw [freeData_eq hitem hfreed]
        dsimp only [Option.bind_eq_bind, Option.bind_some]
        rw [hdelete]
        refine not_right_of_count rfl (List.append_assoc .. ▸ hnodes.chain) h.cursor h.count ?_ ?_
        · rw [List.length_append, List.length_append, List.length_cons]
          omega
        · have hnodup := h.nodes.nodup
          rw [addrs, List.map_append] at hnodup
          exact fun x hx hmem =>
            (List.nodup_append.mp hnodup).2.2 x.1 (List.mem_map_of_mem hx) x.1 hmem rfl
      · have htwice : freeData q.items a = none := by
          unfold freeData
          rw [hitem]
          dsimp only
          rw [if_pos]
          rw [Classical.not_imp, Bool.not_eq_false] at hfreed
          rw [hfreed.1, hfreed.2]
          rfl
        rw [htwice]
        exact not_right_of_none rfl

/-! ## Removing all -/

/-- The data of distinct items that were not freed are freed. -/
theorem foldlM_freeData {nodes : List (Nat × Nat)} {items : Nat → Option CommandQueueItem}
    (hnodup : (nodes.map Prod.snd).Nodup)
    (hitems : ∀ x ∈ nodes, ∃ i, items x.2 = some i ∧ i.freed = false) :
    ∃ items', nodes.foldlM (fun items node => freeData items node.2) items = some items' ∧
      ∀ c, c ∉ nodes.map Prod.snd → items' c = items c := by
  induction nodes generalizing items with
  | nil => exact ⟨items, rfl, fun _ _ => rfl⟩
  | cons x nodes ih =>
    rw [List.map_cons, List.nodup_cons] at hnodup
    obtain ⟨i, hi, hfreed⟩ := hitems x List.mem_cons_self
    rw [List.foldlM_cons, freeData_eq hi fun _ => hfreed]
    have hrest : ∀ y ∈ nodes, ∃ j, Function.update items x.2
        (some { i with freed := i.command.data.isSome }) y.2 = some j ∧ j.freed = false := by
      intro y hy
      have hne : y.2 ≠ x.2 := fun heq => hnodup.1 (heq ▸ List.mem_map_of_mem hy)
      rw [Function.update_of_ne hne]
      exact hitems y (List.mem_cons_of_mem _ hy)
    obtain ⟨items', hfold, hsame⟩ := ih hnodup.2 hrest
    refine ⟨items', hfold, fun c hc => ?_⟩
    rw [List.map_cons, List.mem_cons, not_or] at hc
    rw [hsame c hc.2, Function.update_of_ne hc.1]

/-- `removeAllCommands` frees all nodes with their items, and leaves `nextItemNode`. -/
theorem removeAllCommands_eq (h : Served r q done waiting) :
    ∃ q', q.removeAllCommands = some q' ∧ q'.nextItemNode = q.nextItemNode ∧
      q'.locked = q.locked ∧ q'.unprocessedItems = 0 ∧ Nodes q'.mem q'.queue [] ∧
      q'.mem.fresh = q.mem.fresh ∧ (∀ a ∈ addrs (done ++ waiting), q'.mem.cells a = none) ∧
      ∀ c i, q'.items c = some i → q.items c = some i ∧ c ∉ addrs (done ++ waiting) := by
  have hdata : (done ++ waiting).map Prod.snd = addrs (done ++ waiting) :=
    List.map_congr_left h.own
  have hitems : ∀ x ∈ done ++ waiting, ∃ i, q.items x.2 = some i ∧ i.freed = false := by
    intro x hx
    rcases List.mem_append.mp hx with hx | hx
    · obtain ⟨i, hi, -, hfreed⟩ := h.doneItems x hx
      exact ⟨i, hi, hfreed⟩
    · obtain ⟨i, hi, -, hfreed⟩ := h.waitingItems x hx
      exact ⟨i, hi, hfreed⟩
  obtain ⟨items, hfold, hsame⟩ := foldlM_freeData (hdata ▸ h.nodes.nodup) hitems
  unfold removeAllCommands
  rw [nodesOf_chain h.nodes.chain h.nodes.length_le]
  dsimp only [Option.bind_eq_bind, Option.bind_some]
  rw [hfold]
  dsimp only [Option.bind_some]
  rw [h.nodes.empty]
  refine ⟨_, rfl, rfl, rfl, ite_self _, ?_, rfl, fun a ha => if_pos ha, ?_⟩
  · exact ⟨rfl, fun hne => absurd rfl hne, rfl, List.nodup_nil, fun _ hmem => nomatch hmem⟩
  · intro c i hc
    dsimp only at hc
    split at hc
    · cases hc
    · next hmem => exact ⟨hsame c hmem ▸ hc, hdata ▸ hmem⟩

theorem served_removeAll (h : Served r q done waiting) (hop : r.Fits .removeAllCommands) :
    ∃ q', Served (r.step .removeAllCommands) q' [] [] := by
  rw [step_eq h]
  dsimp only
  have hnext : q.nextItemNode = none := hop q h.queue
  obtain rfl : waiting = [] := by
    cases waiting with
    | nil => rfl
    | cons x waiting =>
      rw [h.cursor] at hnext
      cases hnext
  obtain ⟨q', hremove, hcursor, hlocked, hcount, hnodes, hfresh, -, hitems⟩ := removeAllCommands_eq h
  rw [hremove]
  have hempty {P : Nat × Nat → Prop} : ∀ x ∈ [], P x := fun _ hx => nomatch hx
  refine ⟨q', rfl, hlocked.trans h.unlocked, hnodes, hempty, hcursor.trans hnext, hcount, h.order,
    hempty, hempty, ?_, ?_⟩
  · intro c i hc _
    exact h.others c i (hitems c i hc).1 (hitems c i hc).2
  · intro c i hc
    rw [hfresh]
    exact h.bound c i (hitems c i hc).1

theorem not_right_removeAll (h : Served r q done waiting) (hop : ¬ r.Fits .removeAllCommands) :
    ¬ (r.step .removeAllCommands).Right := by
  rw [step_eq h]
  dsimp only
  obtain ⟨q', hremove, hcursor, -, -, -, -, hfree, -⟩ := removeAllCommands_eq h
  rw [hremove]
  cases waiting with
  | nil =>
    refine absurd (fun q' hq' => ?_) hop
    obtain rfl := Option.some.inj (h.queue.symm.trans hq')
    exact h.cursor
  | cons x waiting =>
    refine not_right_of_dangling rfl (hcursor.trans h.cursor) (hfree x.1 ?_)
    exact List.mem_map_of_mem (List.mem_append_right _ List.mem_cons_self)

/-! ## A step -/

/-- The invariant. -/
def Sound (r : CommandRun) : Prop := ∃ q done waiting, Served r q done waiting

theorem Sound.step (h : Sound r) {op : CommandOp} (hop : r.Fits op) : Sound (r.step op) := by
  obtain ⟨q, done, waiting, h⟩ := h
  cases op with
  | queueCommand cmd nodeMem dataMem =>
    obtain ⟨q', waiting', h'⟩ := served_queue h hop
    exact ⟨q', done, waiting', h'⟩
  | fetchNextCommand => exact served_fetch h
  | deleteCommand item =>
    obtain ⟨q', done', h'⟩ := served_delete h hop
    exact ⟨q', done', waiting, h'⟩
  | removeAllCommands =>
    obtain ⟨q', h'⟩ := served_removeAll h hop
    exact ⟨q', [], [], h'⟩

theorem not_right_step (h : Sound r) {op : CommandOp} (hop : ¬ r.Fits op) :
    ¬ (r.step op).Right := by
  obtain ⟨q, done, waiting, h⟩ := h
  cases op with
  | queueCommand cmd nodeMem dataMem => exact not_right_queue h hop
  | fetchNextCommand => exact absurd (fun _ _ => trivial) hop
  | deleteCommand item => exact not_right_delete h hop
  | removeAllCommands => exact not_right_removeAll h hop

end CommandQueueLemmas

/-! ## Results -/

namespace CommandRun

open CommandQueueLemmas

/-- In every state of a run the queue is right, if and only if every call meets the condition. -/
theorem commandQueue_iff (ops : List CommandOp) :
    Always step Right initial ops ↔ EachStep step Fits initial ops :=
  always_iff_eachStep (I := Sound) (fun _ _ h hop => h.step hop)
    (fun _ h => h.elim fun _ h => h.elim fun _ h => h.elim fun _ h => h.right)
    (fun _ _ h hop => not_right_step h hop) ⟨_, _, _, served_initial⟩

/-- A command with data that are too long. -/
def tooLong : Command where
  cmdType := .srxProxy
  svrSock := 1
  client := 1
  dataID := 0
  dataLength := 1000000
  data := some (List.replicate 1000000 0)
  sized := by
    intro bytes hbytes
    obtain rfl := Option.some.inj hbytes
    exact List.length_replicate

/-- The first command of all is too long: `nextItemNode` stays at its node, which is freed. -/
theorem too_long_dangles :
    ¬ Always step Right initial [.queueCommand tooLong true true] := by
  intro h
  have hright : (initial.step (.queueCommand tooLong true true)).Right :=
    h [.queueCommand tooLong true true] [] rfl
  refine not_right_queue served_initial (fun hfits => ?_) hright
  rcases (hfits CommandQueue.initial rfl rfl).2.2 rfl with ⟨-, hlong | hcursor⟩
  · exact absurd hlong (by decide)
  · exact hcursor rfl

end CommandRun

end SrxSuite.Server

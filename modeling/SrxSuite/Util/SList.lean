import Mathlib.Algebra.Group.Int.Defs
import Mathlib.Algebra.Group.Nat.Defs
import Mathlib.Data.List.Nodup
import Mathlib.Data.List.Perm.Subperm
import Mathlib.Logic.Function.Basic

/-!
# Singly linked lists

The model of `util/slist.c`, as far as the prefix cache uses it for its lists of updates, and
of the block of code that moves a node from one list to another. Nodes live in a memory of
addresses; a list is a header with the pointers `root` and `last` and the C `int` `size`.

`SList.Holds m l xs` says that the header `l` and the chain from its `root` agree with the
nodes `xs`. The results are the specifications of the operations:
1. `SList.Holds.append`: `appendDataToSList` adds a node at the end.
2. `foreach_eq`: a loop over a list that changes the data of its nodes.
3. `moveNode_eq`: a node goes to the end of another list, provided that `prevNode` is the node
   before it.
4. `Nodes.append`, `Nodes.delete` and `Nodes.nodesOf`: the operations of a list of its own. The
   pointer `last` of an empty list is not maintained.
-/

namespace SrxSuite.Util

variable {α σ : Type}

/-! ## The code -/

/-- `SListNode`. -/
structure SListNode (α : Type) where
  data : α
  next : Option Nat

/-- The memory of the nodes. The next node is allocated at `fresh`. -/
structure SListMem (α : Type) where
  cells : Nat → Option (SListNode α)
  fresh : Nat

/-- `SList`. -/
structure SList where
  root : Option Nat
  last : Option Nat
  size : Int
  deriving DecidableEq, Repr

/-- `initSList`. -/
def initSList : SList := ⟨none, none, 0⟩

def initMem : SListMem α := ⟨fun _ => none, 0⟩

/-- Write a node. -/
def SListMem.write (m : SListMem α) (a : Nat) (n : SListNode α) : SListMem α :=
  { m with cells := Function.update m.cells a (some n) }

/-- `a->next = next`, `none` when `a` points to no node. -/
def SListMem.setNext (m : SListMem α) (a : Nat) (next : Option Nat) : Option (SListMem α) :=
  (m.cells a).map fun n => m.write a { n with next := next }

/-- `size++` of an `int`; the overflow is undefined. -/
def incSize (size : Int) : Option Int := if size + 1 < 2 ^ 31 then some (size + 1) else none

/-- `appendDataToSList`: `insertIntoSList` at index `size`. -/
def appendDataToSList (m : SListMem α) (l : SList) (data : α) : Option (SListMem α × SList) := do
  let size ← incSize l.size
  let newNode := m.fresh
  let m := { m with fresh := m.fresh + 1 }
  if l.size = 0 then
    some (m.write newNode ⟨data, l.root⟩,
      ⟨some newNode, if l.root.isNone then some newNode else l.last, size⟩)
  else
    let last ← l.last
    let m ← m.setNext last (some newNode)
    some (m.write newNode ⟨data, none⟩, ⟨l.root, some newNode, size⟩)

/-- `FOREACH_SLIST` with a body that changes the data of the nodes. A list has at most `fuel`
nodes, a longer walk is a cycle. -/
def foreach (f : α → σ → α × σ) : (fuel : Nat) → SListMem α → Option Nat → σ →
    Option (SListMem α × σ)
  | _, m, none, s => some (m, s)
  | 0, _, some _, _ => none
  | fuel + 1, m, some a, s =>
    match m.cells a with
    | none => none
    | some n => foreach f fuel (m.write a { n with data := (f n.data s).1 }) n.next (f n.data s).2

/-- `prevNode->next = next`, where there is a node in front. -/
def setBehind (m : SListMem α) (prevNode next : Option Nat) : Option (SListMem α) :=
  match prevNode with
  | none => some m
  | some p => m.setNext p next

/-- Link a node to the end of a list. -/
def linkNode (m : SListMem α) (l : SList) (a : Nat) (size : Int) : Option (SListMem α × SList) :=
  match l.root with
  | none => some (m, ⟨some a, some a, size⟩)
  | some r => do
    let last ← l.last
    let m ← m.setNext last (some a)
    some (m, ⟨some r, some a, size⟩)

/-- The code that takes a node out of the list `source`, behind `prevNode`, and puts it at the
end of the list `target`. -/
def moveNode (m : SListMem α) (source target : SList) (prevNode : Option Nat) (a : Nat) :
    Option (SListMem α × SList × SList) := do
  let node ← m.cells a
  let m ← setBehind m prevNode node.next
  let source : SList :=
    ⟨if prevNode.isNone then node.next else source.root,
      if node.next.isNone then prevNode else source.last, source.size - 1⟩
  let size ← incSize target.size
  let m ← m.setNext a none
  let (m, target) ← linkNode m target a size
  some (m, source, target)

/-- The loop of `deleteFromSList`: the node with the data and the node in front of it. The inner
`none` is a list without the data. -/
def findNode [DecidableEq α] (m : SListMem α) (data : α) : (fuel : Nat) → (prevNode currNode : Option Nat) →
    Option (Option (Option Nat × Nat))
  | _, _, none => some none
  | 0, _, some _ => none
  | fuel + 1, prevNode, some a =>
    match m.cells a with
    | none => none
    | some n =>
      if n.data = data then some (some (prevNode, a)) else findNode m data fuel (some a) n.next

/-- `free` of a node. -/
def SListMem.free (m : SListMem α) (a : Nat) : SListMem α :=
  { m with cells := Function.update m.cells a none }

/-- `deleteFromSList`. The last node is not set when the only node is deleted. -/
def deleteFromSList [DecidableEq α] (m : SListMem α) (l : SList) (data : α) :
    Option (SListMem α × SList × Bool) :=
  if l.size > 0 then do
    match ← findNode m data m.fresh none l.root with
    | none => some (m, l, false)
    | some (prevNode, a) =>
      let node ← m.cells a
      let m ← setBehind m prevNode node.next
      some (m.free a,
        ⟨if prevNode.isNone then node.next else l.root,
          if prevNode.isSome && node.next.isNone then prevNode else l.last, l.size - 1⟩, true)
  else some (m, l, false)

/-- The nodes of a list, as a loop over it meets them. -/
def nodesOf (m : SListMem α) : (fuel : Nat) → Option Nat → Option (List (Nat × α))
  | _, none => some []
  | 0, some _ => none
  | fuel + 1, some a => do
    let n ← m.cells a
    let rest ← nodesOf m fuel n.next
    some ((a, n.data) :: rest)

/-- `emptySList`: every node is freed. -/
def emptySList (m : SListMem α) (l : SList) : Option (SListMem α × SList) :=
  (if l.size > 0 then nodesOf m m.fresh l.root else some []).map fun nodes =>
    ({ m with cells := fun a => if a ∈ nodes.map Prod.fst then none else m.cells a },
      { l with root := none, size := 0 })

/-! ## Chains -/

/-- The nodes `xs` from `start` on; `stop` is the `next` pointer of the last. -/
def Chain (cells : Nat → Option (SListNode α)) :
    (start : Option Nat) → List (Nat × α) → (stop : Option Nat) → Prop
  | start, [], stop => start = stop
  | start, (a, v) :: xs, stop =>
    start = some a ∧ ∃ next, cells a = some ⟨v, next⟩ ∧ Chain cells next xs stop

/-- The addresses of nodes. -/
abbrev addrs (xs : List (Nat × α)) : List Nat := xs.map Prod.fst

/-- The pointer to the last of some nodes, or `NULL`. -/
def lastPtr (xs : List (Nat × α)) : Option Nat := xs.getLast?.map Prod.fst

/-- The pointer to the first of some nodes, or `NULL`. -/
def headPtr (xs : List (Nat × α)) : Option Nat := xs.head?.map Prod.fst

/-- A list and its fields hold exactly the nodes `xs`. -/
structure SList.Holds (cells : Nat → Option (SListNode α)) (l : SList) (xs : List (Nat × α)) :
    Prop where
  chain : Chain cells l.root xs none
  last : l.last = lastPtr xs
  size : l.size = xs.length

/-- Two lists in one memory that share no node. -/
structure TwoLists (m : SListMem α) (l₁ l₂ : SList) (xs ys : List (Nat × α)) : Prop where
  left : l₁.Holds m.cells xs
  right : l₂.Holds m.cells ys
  nodup : (addrs xs ++ addrs ys).Nodup
  bound : ∀ a ∈ addrs xs ++ addrs ys, a < m.fresh

namespace SListLemmas

variable {cells cells' : Nat → Option (SListNode α)} {m : SListMem α} {l : SList}
  {start stop : Option Nat} {xs ys : List (Nat × α)}

theorem lastPtr_nil : lastPtr ([] : List (Nat × α)) = none := rfl

theorem lastPtr_concat (x : Nat × α) : lastPtr (xs ++ [x]) = some x.1 := by
  simp [lastPtr]

theorem chain_append :
    Chain cells start (xs ++ ys) stop ↔
      ∃ mid, Chain cells start xs mid ∧ Chain cells mid ys stop := by
  induction xs generalizing start with
  | nil =>
    constructor
    · intro h
      exact ⟨start, rfl, h⟩
    · rintro ⟨mid, rfl, h⟩
      exact h
  | cons x xs ih =>
    obtain ⟨a, v⟩ := x
    simp only [List.cons_append, Chain, ih]
    constructor
    · rintro ⟨rfl, next, hn, mid, h1, h2⟩
      exact ⟨mid, ⟨rfl, next, hn, h1⟩, h2⟩
    · rintro ⟨mid, ⟨rfl, next, hn, h1⟩, h2⟩
      exact ⟨rfl, next, hn, mid, h1, h2⟩

theorem chain_concat {a : Nat} {v : α} :
    Chain cells start (xs ++ [(a, v)]) stop ↔
      Chain cells start xs (some a) ∧ cells a = some ⟨v, stop⟩ := by
  rw [chain_append]
  constructor
  · rintro ⟨mid, h1, rfl, next, hn, rfl⟩
    exact ⟨h1, hn⟩
  · rintro ⟨h1, hn⟩
    exact ⟨some a, h1, rfl, stop, hn, rfl⟩

theorem chain_congr (h : Chain cells start xs stop)
    (heq : ∀ a ∈ addrs xs, cells' a = cells a) : Chain cells' start xs stop := by
  induction xs generalizing start with
  | nil => exact h
  | cons x xs ih =>
    obtain ⟨a, v⟩ := x
    obtain ⟨rfl, next, hn, htail⟩ := h
    refine ⟨rfl, next, ?_, ih htail fun b hb => heq b (List.mem_cons_of_mem _ hb)⟩
    rw [heq a List.mem_cons_self, hn]

/-- Writing to an address that is not in the chain. -/
theorem chain_update (h : Chain cells start xs stop) {a : Nat} (ha : a ∉ addrs xs)
    (n : Option (SListNode α)) : Chain (Function.update cells a n) start xs stop :=
  chain_congr h fun _ hb => Function.update_of_ne (ne_of_mem_of_not_mem hb ha) ..

/-- The end of a chain is redirected with a write to its last node. -/
theorem chain_redirect {a : Nat} {v : α} (h : Chain cells start (xs ++ [(a, v)]) stop)
    (ha : a ∉ addrs xs) (stop' : Option Nat) :
    Chain (Function.update cells a (some ⟨v, stop'⟩)) start (xs ++ [(a, v)]) stop' := by
  rw [chain_concat] at h ⊢
  exact ⟨chain_update h.1 ha _, Function.update_self ..⟩

theorem chain_start (h : Chain cells start xs none) : start = headPtr xs := by
  cases xs with
  | nil => exact h
  | cons x xs => exact h.1

/-- The nodes of a list are determined by its start. -/
theorem chain_unique (h₁ : Chain cells start xs none) (h₂ : Chain cells start ys none) : xs = ys := by
  induction xs generalizing start ys with
  | nil =>
    obtain rfl : start = none := h₁
    cases ys with
    | nil => rfl
    | cons y ys => cases h₂.1
  | cons x xs ih =>
    obtain ⟨rfl, next, hn, htail⟩ := h₁
    cases ys with
    | nil => cases h₂
    | cons y ys =>
      obtain ⟨b, w⟩ := y
      obtain ⟨heq, next', hn', htail'⟩ := h₂
      obtain rfl := Option.some.inj heq
      obtain ⟨rfl, rfl⟩ : x.2 = w ∧ next = next' := by simpa [hn] using hn'
      rw [ih htail htail']

theorem chain_split {a : Nat} {v : α} (h : Chain cells start (xs ++ (a, v) :: ys) none) :
    Chain cells start xs (some a) ∧ cells a = some ⟨v, headPtr ys⟩ ∧
      Chain cells (headPtr ys) ys none := by
  obtain ⟨mid, h1, rfl, next, hn, h2⟩ := chain_append.mp h
  obtain rfl := chain_start h2
  exact ⟨h1, hn, h2⟩

/-- The pointer behind some nodes is set: the nodes lead to `next` instead. -/
theorem setBehind_chain (h : Chain m.cells start xs stop) (hnodup : (addrs xs).Nodup) (next : Option Nat) :
    ∃ m', setBehind m (lastPtr xs) next = some m' ∧ m'.fresh = m.fresh ∧
      Chain m'.cells (if (lastPtr xs).isNone then next else start) xs next ∧
      ∀ b ∉ addrs xs, m'.cells b = m.cells b := by
  rcases List.eq_nil_or_concat xs with rfl | ⟨init, ⟨p, w⟩, rfl⟩
  · exact ⟨m, rfl, rfl, rfl, fun _ _ => rfl⟩
  · rw [List.concat_eq_append] at h hnodup ⊢
    have hcell : m.cells p = some ⟨w, stop⟩ := (chain_concat.mp h).2
    have hp : p ∉ addrs init := fun hmem => by
      simp only [addrs, List.map_append, List.map_cons, List.map_nil] at hnodup
      exact (List.nodup_append.mp hnodup).2.2 p hmem p (by simp) rfl
    refine ⟨m.write p ⟨w, next⟩, ?_, rfl, ?_, ?_⟩
    · simp only [setBehind, lastPtr_concat, SListMem.setNext, hcell, Option.map_some]
    · rw [lastPtr_concat]
      exact chain_redirect h hp next
    · intro b hb
      exact Function.update_of_ne (fun heq => hb (by simp [addrs, heq])) ..

end SListLemmas

open SListLemmas

/-! ## Specifications -/

section Specs

variable {m : SListMem α} {l₁ l₂ : SList} {xs xs₁ xs₂ ys : List (Nat × α)}

theorem TwoLists.symm (h : TwoLists m l₁ l₂ xs ys) : TwoLists m l₂ l₁ ys xs where
  left := h.right
  right := h.left
  nodup := List.nodup_append_comm.mp h.nodup
  bound a ha := h.bound a (by simpa [or_comm] using ha)

theorem twoLists_init : TwoLists (initMem : SListMem α) initSList initSList [] [] where
  left := ⟨rfl, rfl, rfl⟩
  right := ⟨rfl, rfl, rfl⟩
  nodup := by simp
  bound := by simp

theorem TwoLists.length_le (h : TwoLists m l₁ l₂ xs ys) : xs.length ≤ m.fresh := by
  have hsub : (addrs xs) ⊆ List.range m.fresh := fun a ha =>
    List.mem_range.mpr (h.bound a (List.mem_append_left _ ha))
  have hnodup : (addrs xs).Nodup := (List.nodup_append.mp h.nodup).1
  simpa [addrs] using (hnodup.subperm hsub).length_le

/-- The cell of a node. -/
theorem TwoLists.cell {a : Nat} {v : α} (h : TwoLists m l₁ l₂ (xs₁ ++ (a, v) :: xs₂) ys) :
    m.cells a = some ⟨v, headPtr xs₂⟩ := (chain_split h.left.chain).2.1

/-- `appendDataToSList` adds a node at the end. -/
theorem TwoLists.append (h : TwoLists m l₁ l₂ xs ys) (hsize : xs.length + 1 < 2 ^ 31) (d : α) :
    ∃ m' l₁', appendDataToSList m l₁ d = some (m', l₁') ∧
      TwoLists m' l₁' l₂ (xs ++ [(m.fresh, d)]) ys := by
  have hfresh : m.fresh ∉ addrs xs ++ addrs ys := fun hmem => Nat.lt_irrefl _ (h.bound _ hmem)
  rw [List.mem_append, not_or] at hfresh
  have hnodup : (addrs (xs ++ [(m.fresh, d)]) ++ addrs ys).Nodup := by
    have := h.nodup
    simp only [addrs, List.map_append, List.map_cons, List.map_nil] at hfresh this ⊢
    rw [List.append_assoc]
    refine List.nodup_middle.mpr (List.nodup_cons.mpr ⟨?_, this⟩)
    rw [List.mem_append, not_or]
    exact hfresh
  have hbound : ∀ a ∈ addrs (xs ++ [(m.fresh, d)]) ++ addrs ys, a < m.fresh + 1 := by
    intro a ha
    simp only [addrs, List.map_append, List.map_cons, List.map_nil, List.mem_append,
      List.mem_singleton] at ha
    rcases ha with (ha | rfl) | ha
    · exact Nat.lt_succ_of_lt (h.bound a (List.mem_append_left _ ha))
    · exact Nat.lt_succ_self _
    · exact Nat.lt_succ_of_lt (h.bound a (List.mem_append_right _ ha))
  have hinc : incSize l₁.size = some (l₁.size + 1) := by
    rw [incSize, h.left.size, if_pos (by exact_mod_cast hsize)]
  rcases List.eq_nil_or_concat xs with rfl | ⟨xs', x, rfl⟩
  · have hzero : l₁.size = 0 := h.left.size
    have hroot : l₁.root = none := h.left.chain
    refine ⟨{ m with fresh := m.fresh + 1 }.write m.fresh ⟨d, none⟩,
      ⟨some m.fresh, some m.fresh, 1⟩, by simp [appendDataToSList, incSize, hzero, hroot],
      ?_, ?_, hnodup, hbound⟩
    · exact ⟨⟨rfl, none, Function.update_self .., rfl⟩, rfl, rfl⟩
    · exact ⟨chain_update h.right.chain hfresh.2 _, h.right.last, h.right.size⟩
  · obtain ⟨q, w⟩ := x
    rw [List.concat_eq_append] at *
    have hlast : l₁.last = some q := h.left.last.trans (lastPtr_concat _)
    obtain ⟨-, hq, -⟩ := chain_split h.left.chain
    have hne : l₁.size ≠ 0 := by
      rw [h.left.size, List.length_append]
      simp only [List.length_singleton]
      omega
    have hqx : q ∉ addrs xs' := fun hmem => by
      have := (List.nodup_append.mp h.nodup).1
      simp only [addrs, List.map_append, List.map_cons, List.map_nil] at this
      exact (List.nodup_append.mp this).2.2 q hmem q (by simp) rfl
    have hqy : q ∉ addrs ys := fun hmem =>
      (List.nodup_append.mp h.nodup).2.2 q (by simp [addrs]) q hmem rfl
    refine ⟨({ m with fresh := m.fresh + 1 }.write q ⟨w, some m.fresh⟩).write m.fresh ⟨d, none⟩,
      ⟨l₁.root, some m.fresh, l₁.size + 1⟩,
      by simp [appendDataToSList, hinc, hne, hlast, SListMem.setNext, hq],
      ?_, ?_, hnodup, hbound⟩
    · refine ⟨?_, (lastPtr_concat (m.fresh, d)).symm, ?_⟩
      · rw [chain_concat]
        exact ⟨chain_update (chain_redirect h.left.chain hqx _) hfresh.1 _,
          Function.update_self ..⟩
      · rw [h.left.size]
        simp only [List.length_append, List.length_singleton]
        omega
    · exact ⟨chain_update (chain_update h.right.chain hqy _) hfresh.2 _, h.right.last,
        h.right.size⟩

/-- The data of a node is changed. -/
theorem TwoLists.setData {a : Nat} {v : α} (h : TwoLists m l₁ l₂ (xs₁ ++ (a, v) :: xs₂) ys)
    (w : α) :
    TwoLists (m.write a ⟨w, headPtr xs₂⟩) l₁ l₂ (xs₁ ++ (a, w) :: xs₂) ys := by
  have haddrs : addrs (xs₁ ++ (a, w) :: xs₂) = addrs (xs₁ ++ (a, v) :: xs₂) := by simp [addrs]
  have hnodup := (List.nodup_append.mp h.nodup).1
  simp only [addrs, List.map_append, List.map_cons] at hnodup
  have ha := List.nodup_cons.mp (List.nodup_middle.mp hnodup)
  rw [List.mem_append, not_or] at ha
  have hy : a ∉ addrs ys := fun hmem =>
    (List.nodup_append.mp h.nodup).2.2 a (by simp [addrs]) a hmem rfl
  obtain ⟨h1, -, h2⟩ := chain_split h.left.chain
  refine ⟨⟨chain_append.mpr ⟨some a, chain_update h1 ha.1.1 _, rfl, headPtr xs₂,
    Function.update_self .., chain_update h2 ha.1.2 _⟩, ?_, ?_⟩,
    ⟨chain_update h.right.chain hy _, h.right.last, h.right.size⟩, ?_, ?_⟩
  · rw [h.left.last]
    simp [lastPtr, List.getLast?_append, List.getLast?_cons]
    cases xs₂.getLast? <;> rfl
  · rw [h.left.size]
    simp
  · rw [haddrs]
    exact h.nodup
  · rw [haddrs]
    exact h.bound

/-- A loop over a list whose body changes the data of a node in a way that does not depend on
the state of the loop. -/
theorem TwoLists.foreach (h : TwoLists m l₁ l₂ xs ys) (g : α → α) (step : α → σ → σ) (s : σ) :
    ∃ m', foreach (fun d s => (g d, step d s)) m.fresh m l₁.root s =
        some (m', xs.foldl (fun s x => step x.2 s) s) ∧ m'.fresh = m.fresh ∧
      TwoLists m' l₁ l₂ (xs.map (Prod.map id g)) ys := by
  -- The nodes `done` in front have their new data, the nodes `rest` behind still the old.
  suffices hloop : ∀ (rest done : List (Nat × α)) (fuel : Nat) (m : SListMem α) (s : σ),
      TwoLists m l₁ l₂ (done ++ rest) ys → rest.length ≤ fuel →
      ∃ m', Util.foreach (fun d s => (g d, step d s)) fuel m (headPtr rest) s =
          some (m', rest.foldl (fun s x => step x.2 s) s) ∧ m'.fresh = m.fresh ∧
        TwoLists m' l₁ l₂ (done ++ rest.map (Prod.map id g)) ys by
    rw [chain_start h.left.chain]
    simpa using hloop xs [] m.fresh m s h h.length_le
  intro rest
  induction rest with
  | nil =>
    intro done fuel m s h _
    exact ⟨m, by cases fuel <;> rfl, rfl, h⟩
  | cons x rest ih =>
    obtain ⟨a, v⟩ := x
    intro done fuel m s h hfuel
    cases fuel with
    | zero => simp at hfuel
    | succ fuel =>
      have hset := h.setData (g v)
      rw [List.append_cons] at hset
      obtain ⟨m', hloop, hfresh, h'⟩ := ih (done ++ [(a, g v)]) fuel _ (step v s) hset
        (Nat.le_of_succ_le_succ hfuel)
      refine ⟨m', ?_, hfresh, by simpa using h'⟩
      simp only [Util.foreach, headPtr, List.head?_cons, Option.map_some, h.cell]
      exact hloop

/-- The first half of `moveNode`: the node is unlinked from its list. -/
theorem TwoLists.unlink {a : Nat} {v : α} (h : TwoLists m l₁ l₂ (xs₁ ++ (a, v) :: xs₂) ys) :
    ∃ m', setBehind m (lastPtr xs₁) (headPtr xs₂) = some m' ∧ m'.fresh = m.fresh ∧
      Chain m'.cells (if (lastPtr xs₁).isNone then headPtr xs₂ else l₁.root) (xs₁ ++ xs₂) none ∧
      ∀ b ∉ addrs xs₁, m'.cells b = m.cells b := by
  obtain ⟨h1, -, h2⟩ := chain_split h.left.chain
  have hnodup := (List.nodup_append.mp h.nodup).1
  simp only [addrs, List.map_append] at hnodup
  obtain ⟨m', hset, hfresh, hchain, hsame⟩ :=
    setBehind_chain h1 (List.nodup_append.mp hnodup).1 (headPtr xs₂)
  refine ⟨m', hset, hfresh, chain_append.mpr ⟨_, hchain, chain_congr h2 fun b hb => hsame b fun hmem => ?_⟩,
    hsame⟩
  exact (List.nodup_append.mp hnodup).2.2 b hmem b (List.mem_cons_of_mem _ hb) rfl

/-- The second half of `moveNode`: a node that is in no list is linked to the end of a list. -/
theorem SList.Holds.link {l : SList} {a : Nat} {v : α} (h : l.Holds m.cells ys)
    (ha : m.cells a = some ⟨v, none⟩) (hnodup : (addrs (ys ++ [(a, v)])).Nodup) (size : Int)
    (hsize : size = l.size + 1) :
    ∃ m' l', linkNode m l a size = some (m', l') ∧ m'.fresh = m.fresh ∧
      l'.Holds m'.cells (ys ++ [(a, v)]) ∧ ∀ b ∉ addrs ys, m'.cells b = m.cells b := by
  rcases List.eq_nil_or_concat ys with rfl | ⟨ys', y, rfl⟩
  · have hroot : l.root = none := h.chain
    refine ⟨m, ⟨some a, some a, size⟩, by rw [linkNode, hroot], rfl,
      ⟨⟨rfl, none, ha, rfl⟩, rfl, ?_⟩,
      fun _ _ => rfl⟩
    rw [hsize, h.size]
    rfl
  · obtain ⟨q, w⟩ := y
    rw [List.concat_eq_append] at *
    have hlast : l.last = some q := h.last.trans (lastPtr_concat _)
    obtain ⟨r, hroot⟩ : ∃ r, l.root = some r := by
      rw [chain_start h.chain]
      cases ys' with
      | nil => exact ⟨q, rfl⟩
      | cons y ys' => exact ⟨y.1, rfl⟩
    obtain ⟨-, hq, -⟩ := chain_split h.chain
    simp only [addrs, List.map_append, List.map_cons, List.map_nil] at hnodup
    have hqy : q ∉ addrs ys' := fun hmem =>
      (List.nodup_append.mp (List.nodup_append.mp hnodup).1).2.2 q hmem q (by simp) rfl
    have hqa : a ≠ q := fun heq =>
      (List.nodup_append.mp hnodup).2.2 q (by simp) a (by simp) heq.symm
    refine ⟨m.write q ⟨w, some a⟩, ⟨some r, some a, size⟩, ?_, rfl, ⟨?_, ?_, ?_⟩, ?_⟩
    · simp [linkNode, hroot, hlast, SListMem.setNext, hq]
    · rw [chain_concat]
      exact ⟨hroot ▸ chain_redirect h.chain hqy _, (Function.update_of_ne hqa ..).trans ha⟩
    · exact (lastPtr_concat (a, v)).symm
    · show size = _
      rw [hsize, h.size]
      simp only [List.length_append, List.length_singleton]
      omega
    · intro b hb
      exact Function.update_of_ne (fun heq => hb (by simp [addrs, heq])) ..

theorem lastPtr_erase {a : Nat} {v : α} :
    (if (headPtr xs₂).isNone then lastPtr xs₁ else lastPtr (xs₁ ++ (a, v) :: xs₂)) =
      lastPtr (xs₁ ++ xs₂) := by
  cases xs₂ with
  | nil => simp [headPtr]
  | cons x xs₂ => simp [headPtr, lastPtr, List.getLast?_append, List.getLast?_cons]

/-- `moveNode`, when `prevNode` is the node in front of the moved one. -/
theorem TwoLists.moveNode {a : Nat} {v : α} (h : TwoLists m l₁ l₂ (xs₁ ++ (a, v) :: xs₂) ys)
    (hsize : ys.length + 1 < 2 ^ 31) :
    ∃ m' l₁' l₂', moveNode m l₁ l₂ (lastPtr xs₁) a = some (m', l₁', l₂') ∧ m'.fresh = m.fresh ∧
      TwoLists m' l₁' l₂' (xs₁ ++ xs₂) (ys ++ [(a, v)]) := by
  have hperm : (addrs (xs₁ ++ xs₂) ++ addrs (ys ++ [(a, v)])).Perm
      (addrs (xs₁ ++ (a, v) :: xs₂) ++ addrs ys) := by
    simp only [addrs, List.map_append, List.map_cons, List.map_nil, List.append_assoc,
      List.cons_append]
    refine List.Perm.append_left _ ?_
    rw [← List.append_assoc]
    exact List.perm_append_singleton a _
  have hnodup := hperm.nodup_iff.mpr h.nodup
  have hin : ∀ b ∈ addrs (ys ++ [(a, v)]), b ∉ addrs (xs₁ ++ xs₂) := fun b hb hb' =>
    (List.nodup_append.mp hnodup).2.2 b hb' b hb rfl
  have haxs : a ∉ addrs (xs₁ ++ xs₂) := hin a (by simp [addrs])
  have hays : a ∉ addrs ys := fun hmem => by
    have := (List.nodup_append.mp hnodup).2.1
    simp only [addrs, List.map_append, List.map_cons, List.map_nil] at this
    exact (List.nodup_append.mp this).2.2 a hmem a (by simp) rfl
  have hxs₁ : ∀ b ∈ addrs (ys ++ [(a, v)]), b ∉ addrs xs₁ := fun b hb hb' =>
    hin b hb (by simp only [addrs, List.map_append, List.mem_append]; exact .inl hb')
  obtain ⟨m₁, hunlink, hfresh₁, hchain₁, hsame₁⟩ := h.unlink
  have hinc : incSize l₂.size = some (l₂.size + 1) := by
    rw [incSize, h.right.size, if_pos (by exact_mod_cast hsize)]
  have hcell : m₁.cells a = some ⟨v, headPtr xs₂⟩ :=
    (hsame₁ a (hxs₁ a (by simp [addrs]))).trans h.cell
  -- Behind the unlinked node there is nothing any more.
  have hright : l₂.Holds (m₁.write a ⟨v, none⟩).cells ys := by
    refine ⟨chain_update (chain_congr h.right.chain fun b hb => ?_) hays _, h.right.last,
      h.right.size⟩
    exact hsame₁ b (hxs₁ b (by simp only [addrs, List.map_append, List.mem_append]; exact .inl hb))
  obtain ⟨m₂, l₂', hlink, hfresh₂, hholds, hsame₂⟩ := hright.link (a := a) (v := v)
    (Function.update_self ..) (List.nodup_append.mp hnodup).2.1 _ rfl
  refine ⟨m₂, ⟨if (lastPtr xs₁).isNone then headPtr xs₂ else l₁.root,
    if (headPtr xs₂).isNone then lastPtr xs₁ else l₁.last, l₁.size - 1⟩, l₂', ?_,
    hfresh₂.trans hfresh₁, ⟨?_, ?_, ?_⟩, hholds, hnodup, ?_⟩
  · have hset : m₁.setNext a none = some (m₁.write a ⟨v, none⟩) := by
      rw [SListMem.setNext, hcell, Option.map_some]
    simp only [Util.moveNode, h.cell, hunlink, hinc, hset, hlink, Option.bind_eq_bind,
      Option.bind_some]
  · refine chain_congr (chain_update hchain₁ haxs _) fun b hb => hsame₂ b fun hmem => ?_
    exact hin b (by simp only [addrs, List.map_append, List.mem_append]; exact .inl hmem) hb
  · show (if _ then _ else l₁.last) = _
    rw [h.left.last, lastPtr_erase]
  · show l₁.size - 1 = _
    rw [h.left.size]
    simp only [List.length_append, List.length_cons]
    omega
  · intro b hb
    rw [hfresh₂]
    show b < m₁.fresh
    rw [hfresh₁]
    exact h.bound b (hperm.mem_iff.mp hb)

end Specs

/-! ## A list of its own -/

/-- The list holds the nodes `xs`. -/
structure Nodes (m : SListMem α) (l : SList) (xs : List (Nat × α)) : Prop where
  chain : Chain m.cells l.root xs none
  last : xs ≠ [] → l.last = lastPtr xs
  size : l.size = xs.length
  nodup : (addrs xs).Nodup
  bound : ∀ a ∈ addrs xs, a < m.fresh

section Nodes

variable {m : SListMem α} {l : SList} {xs xs₁ xs₂ : List (Nat × α)}

theorem nodes_init : Nodes (initMem : SListMem α) initSList [] :=
  ⟨rfl, fun h => absurd rfl h, rfl, List.nodup_nil, fun _ h => nomatch h⟩

/-- The list with the last node set, beside an empty one. -/
theorem Nodes.twoLists (h : Nodes m l xs) :
    TwoLists m { l with last := lastPtr xs } initSList xs [] where
  left := ⟨h.chain, rfl, h.size⟩
  right := ⟨rfl, rfl, rfl⟩
  nodup := by
    rw [show addrs ([] : List (Nat × α)) = [] from rfl, List.append_nil]
    exact h.nodup
  bound := by
    rw [show addrs ([] : List (Nat × α)) = [] from rfl, List.append_nil]
    exact h.bound

theorem TwoLists.nodes {l₂ : SList} (h : TwoLists m l l₂ xs []) : Nodes m l xs := by
  refine ⟨h.left.chain, fun _ => h.left.last, h.left.size, (List.nodup_append.mp h.nodup).1, ?_⟩
  exact fun a ha => h.bound a (List.mem_append_left _ ha)

theorem Nodes.length_le (h : Nodes m l xs) : xs.length ≤ m.fresh := h.twoLists.length_le

/-- `appendDataToSList` adds a node at the end. -/
theorem Nodes.append (h : Nodes m l xs) (hsize : xs.length + 1 < 2 ^ 31) (d : α) :
    ∃ m' l', appendDataToSList m l d = some (m', l') ∧ m'.fresh = m.fresh + 1 ∧
      Nodes m' l' (xs ++ [(m.fresh, d)]) := by
  have hsame : appendDataToSList m { l with last := lastPtr xs } d = appendDataToSList m l d := by
    cases xs with
    | nil =>
      have hroot : l.root = none := h.chain
      have hzero : l.size = 0 := h.size
      unfold appendDataToSList
      dsimp only
      rw [hroot, hzero]
      rfl
    | cons x xs => rw [← h.last (List.cons_ne_nil x xs)]
  obtain ⟨m', l', happend, h'⟩ := h.twoLists.append hsize d
  have hfresh : m'.fresh = m.fresh + 1 := by
    unfold appendDataToSList at happend
    simp only [Option.bind_eq_bind, Option.bind_eq_some_iff] at happend
    obtain ⟨size, -, happend⟩ := happend
    split at happend
    · obtain ⟨rfl, -⟩ := Prod.mk.inj (Option.some.inj happend)
      rfl
    · simp only [Option.bind_eq_some_iff] at happend
      obtain ⟨last, -, m₁, hset, happend⟩ := happend
      obtain ⟨rfl, -⟩ := Prod.mk.inj (Option.some.inj happend)
      obtain ⟨n, -, rfl⟩ := Option.map_eq_some_iff.mp hset
      rfl
  exact ⟨m', l', hsame ▸ happend, hfresh, h'.nodes⟩

/-- A list of the largest size cannot grow. -/
theorem Nodes.append_none (h : Nodes m l xs) (hsize : ¬ xs.length + 1 < 2 ^ 31) (d : α) :
    appendDataToSList m l d = none := by
  have hinc : incSize l.size = none := by
    unfold incSize
    rw [h.size, if_neg (by exact_mod_cast hsize)]
  unfold appendDataToSList
  rw [hinc]
  rfl

theorem nodesOf_chain {cur : Option Nat} {fuel : Nat} (h : Chain m.cells cur xs none)
    (hfuel : xs.length ≤ fuel) : nodesOf m fuel cur = some xs := by
  induction xs generalizing cur fuel with
  | nil =>
    obtain rfl : cur = none := h
    cases fuel with
    | zero => rfl
    | succ fuel => rfl
  | cons x xs ih =>
    obtain ⟨a, d⟩ := x
    obtain ⟨rfl, next, hcell, hrest⟩ := h
    cases fuel with
    | zero => exact absurd hfuel (Nat.not_succ_le_zero _)
    | succ fuel =>
      rw [nodesOf, hcell]
      dsimp only [Option.bind_eq_bind, Option.bind_some]
      rw [ih hrest (Nat.le_of_succ_le_succ hfuel)]
      rfl

/-- `emptySList` of a list. -/
theorem Nodes.empty (h : Nodes m l xs) :
    emptySList m l = some ({ m with cells := fun a => if a ∈ addrs xs then none else m.cells a },
      { l with root := none, size := 0 }) := by
  have hnodes : (if l.size > 0 then nodesOf m m.fresh l.root else some []) = some xs := by
    split
    · exact nodesOf_chain h.chain h.length_le
    · next hsize =>
      rw [h.size] at hsize
      rw [List.length_eq_zero_iff.mp (by omega : xs.length = 0)]
  unfold emptySList
  rw [hnodes]
  rfl

/-- A node is unlinked from a list and freed. -/
theorem Nodes.unlink {a : Nat} {d : α} (h : Nodes m l (xs₁ ++ (a, d) :: xs₂)) :
    ∃ m', setBehind m (lastPtr xs₁) (headPtr xs₂) = some m' ∧ m'.fresh = m.fresh ∧
      (∀ b ∉ addrs xs₁, m'.cells b = m.cells b) ∧
      Nodes (m'.free a) ⟨if (lastPtr xs₁).isNone then headPtr xs₂ else l.root,
        if (lastPtr xs₁).isSome && (headPtr xs₂).isNone then lastPtr xs₁ else l.last, l.size - 1⟩
        (xs₁ ++ xs₂) := by
  obtain ⟨m', hbehind, hfresh, hchain, hsame⟩ := h.twoLists.unlink
  have hnodup := h.nodup
  simp only [addrs, List.map_append, List.map_cons] at hnodup
  have ha := List.nodup_cons.mp (List.nodup_middle.mp hnodup)
  have hadd : a ∉ addrs (xs₁ ++ xs₂) := by
    simp only [addrs, List.map_append]
    exact ha.1
  refine ⟨m', hbehind, hfresh, hsame, chain_update hchain hadd none, ?_, ?_, ?_, ?_⟩
  · intro hne
    have hlast : l.last = lastPtr (xs₁ ++ (a, d) :: xs₂) :=
      h.last (List.append_ne_nil_of_right_ne_nil _ (List.cons_ne_nil _ _))
    dsimp only
    rw [hlast]
    refine Eq.trans ?_ (lastPtr_erase (a := a) (v := d))
    cases xs₂ with
    | nil =>
      rcases List.eq_nil_or_concat xs₁ with rfl | ⟨init, x, rfl⟩
      · exact absurd rfl hne
      · rw [List.concat_eq_append, lastPtr_concat]
        rfl
    | cons x xs₂ =>
      rw [show (headPtr (x :: xs₂)).isNone = false from rfl, Bool.and_false]
  · dsimp only
    rw [h.size]
    simp only [List.length_append, List.length_cons]
    omega
  · simp only [addrs, List.map_append]
    exact ha.2
  · intro b hb
    show b < m'.fresh
    rw [hfresh]
    refine h.bound b ?_
    simp only [addrs, List.map_append, List.map_cons, List.mem_append, List.mem_cons] at hb ⊢
    tauto

variable [DecidableEq α] {a : Nat} {d : α}

theorem findNode_chain {cur prevNode : Option Nat} {fuel : Nat}
    (h : Chain m.cells cur (xs₁ ++ (a, d) :: xs₂) none) (hxs : ∀ x ∈ xs₁, x.2 ≠ d)
    (hfuel : xs₁.length + 1 ≤ fuel) :
    findNode m d fuel prevNode cur =
      some (some (if xs₁ = [] then prevNode else lastPtr xs₁, a)) := by
  induction xs₁ generalizing cur prevNode fuel with
  | nil =>
    obtain ⟨rfl, next, hcell, -⟩ := h
    cases fuel with
    | zero => exact absurd hfuel (Nat.not_succ_le_zero _)
    | succ fuel =>
      rw [findNode, hcell]
      dsimp only
      rw [if_pos rfl, if_pos rfl]
  | cons x xs₁ ih =>
    obtain ⟨b, e⟩ := x
    obtain ⟨rfl, next, hcell, hrest⟩ := h
    cases fuel with
    | zero => exact absurd hfuel (Nat.not_succ_le_zero _)
    | succ fuel =>
      have hne : e ≠ d := hxs (b, e) List.mem_cons_self
      rw [findNode, hcell]
      dsimp only
      rw [if_neg hne, ih hrest (fun x hx => hxs x (List.mem_cons_of_mem _ hx))
        (Nat.le_of_succ_le_succ hfuel), if_neg (List.cons_ne_nil _ _)]
      cases xs₁ with
      | nil => rfl
      | cons y xs₁ =>
        rw [if_neg (List.cons_ne_nil _ _)]
        unfold lastPtr
        rw [List.getLast?_cons_cons]

theorem findNode_absent {cur prevNode : Option Nat} {fuel : Nat}
    (h : Chain m.cells cur xs none) (hxs : ∀ x ∈ xs, x.2 ≠ d) (hfuel : xs.length ≤ fuel) :
    findNode m d fuel prevNode cur = some none := by
  induction xs generalizing cur prevNode fuel with
  | nil =>
    obtain rfl : cur = none := h
    cases fuel with
    | zero => rfl
    | succ fuel => rfl
  | cons x xs ih =>
    obtain ⟨b, e⟩ := x
    obtain ⟨rfl, next, hcell, hrest⟩ := h
    cases fuel with
    | zero => exact absurd hfuel (Nat.not_succ_le_zero _)
    | succ fuel =>
      have hne : e ≠ d := hxs (b, e) List.mem_cons_self
      rw [findNode, hcell]
      dsimp only
      rw [if_neg hne]
      exact ih hrest (fun x hx => hxs x (List.mem_cons_of_mem _ hx)) (Nat.le_of_succ_le_succ hfuel)

/-- `deleteFromSList` of data that no node has. -/
theorem Nodes.delete_absent (h : Nodes m l xs) (hxs : ∀ x ∈ xs, x.2 ≠ d) :
    deleteFromSList m l d = some (m, l, false) := by
  unfold deleteFromSList
  split
  · rw [findNode_absent h.chain hxs h.length_le]
    rfl
  · rfl

/-- `deleteFromSList` takes out the first node with the data. -/
theorem Nodes.delete (h : Nodes m l (xs₁ ++ (a, d) :: xs₂)) (hxs : ∀ x ∈ xs₁, x.2 ≠ d) :
    ∃ m' l', deleteFromSList m l d = some (m', l', true) ∧ m'.fresh = m.fresh ∧
      m'.cells a = none ∧ Nodes m' l' (xs₁ ++ xs₂) := by
  obtain ⟨m', hbehind, hfresh, -, hnodes⟩ := h.unlink
  have hcell : m.cells a = some ⟨d, headPtr xs₂⟩ := h.twoLists.cell
  have hpos : l.size > 0 := by
    rw [h.size, List.length_append, List.length_cons]
    omega
  have hfind : findNode m d m.fresh none l.root = some (some (lastPtr xs₁, a)) := by
    have hle := h.length_le
    rw [List.length_append, List.length_cons] at hle
    rw [findNode_chain h.chain hxs (by omega)]
    cases xs₁ with
    | nil => rfl
    | cons x xs₁ => rw [if_neg (List.cons_ne_nil _ _)]
  refine ⟨m'.free a, _, ?_, hfresh, Function.update_self .., hnodes⟩
  unfold deleteFromSList
  rw [if_pos hpos, hfind]
  dsimp only [Option.bind_eq_bind, Option.bind_some]
  rw [hcell]
  dsimp only [Option.bind_some]
  rw [hbehind]
  rfl

end Nodes

/-! ## The data of the nodes

What holds of the data of all nodes. This does not need the lists to be in order. -/

/-- A property of the data of all nodes. -/
def SListMem.AllData (P : α → Prop) (m : SListMem α) : Prop :=
  ∀ a n, m.cells a = some n → P n.data

section AllData

variable {P : α → Prop} {m m' : SListMem α}

theorem allData_init : (initMem : SListMem α).AllData P := by
  intro a n h
  simp [initMem] at h

theorem SListMem.AllData.write (h : m.AllData P) {a : Nat} {n : SListNode α} (hn : P n.data) :
    (m.write a n).AllData P := by
  intro b n' hb
  have hb' : Function.update m.cells a (some n) b = some n' := hb
  by_cases hba : b = a
  · subst hba
    rw [Function.update_self] at hb'
    exact Option.some.inj hb' ▸ hn
  · rw [Function.update_of_ne hba] at hb'
    exact h b n' hb'

theorem SListMem.AllData.setNext (h : m.AllData P) {a : Nat} {next : Option Nat}
    (hset : m.setNext a next = some m') : m'.AllData P := by
  obtain ⟨n, hn, rfl⟩ := Option.map_eq_some_iff.mp hset
  exact h.write (h a n hn)

theorem SListMem.AllData.append (h : m.AllData P) {l l' : SList} {d : α} (hd : P d)
    (happend : appendDataToSList m l d = some (m', l')) : m'.AllData P := by
  have hfresh : ({ m with fresh := m.fresh + 1 } : SListMem α).AllData P := h
  simp only [appendDataToSList, Option.bind_eq_bind, Option.bind_eq_some_iff] at happend
  obtain ⟨size, -, happend⟩ := happend
  split at happend
  · obtain ⟨rfl, -⟩ := Prod.mk.inj (Option.some.inj happend)
    exact hfresh.write hd
  · simp only [Option.bind_eq_some_iff] at happend
    obtain ⟨last, -, m₁, hset, happend⟩ := happend
    obtain ⟨rfl, -⟩ := Prod.mk.inj (Option.some.inj happend)
    exact (hfresh.setNext hset).write hd

theorem SListMem.AllData.moveNode (h : m.AllData P) {source target source' target' : SList}
    {prevNode : Option Nat} {a : Nat}
    (hmove : moveNode m source target prevNode a = some (m', source', target')) :
    m'.AllData P := by
  simp only [Util.moveNode, Option.bind_eq_bind, Option.bind_eq_some_iff] at hmove
  obtain ⟨node, -, m₁, hbehind, size, -, m₂, hset, ⟨m₃, l₃⟩, hlink, hmove⟩ := hmove
  obtain ⟨rfl, -⟩ := Prod.mk.inj (Option.some.inj hmove)
  have h₁ : m₁.AllData P := by
    cases prevNode with
    | none => exact Option.some.inj hbehind ▸ h
    | some p => exact h.setNext hbehind
  have h₂ := h₁.setNext hset
  unfold linkNode at hlink
  split at hlink
  · obtain ⟨rfl, -⟩ := Prod.mk.inj (Option.some.inj hlink)
    exact h₂
  · simp only [Option.bind_eq_bind, Option.bind_eq_some_iff] at hlink
    obtain ⟨last, -, m₄, hset', hlink⟩ := hlink
    obtain ⟨rfl, -⟩ := Prod.mk.inj (Option.some.inj hlink)
    exact h₂.setNext hset'

/-- A loop whose body keeps the properties of the data and of the state. -/
theorem SListMem.AllData.foreach {f : α → σ → α × σ} {I : σ → Prop}
    (hf : ∀ d s, P d → I s → P (f d s).1 ∧ I (f d s).2) {fuel : Nat} {cur : Option Nat} {s s' : σ}
    (h : m.AllData P) (hs : I s) (hloop : foreach f fuel m cur s = some (m', s')) :
    m'.AllData P ∧ I s' := by
  induction fuel generalizing m cur s with
  | zero =>
    cases cur with
    | none =>
      obtain ⟨rfl, rfl⟩ := Prod.mk.inj (Option.some.inj hloop)
      exact ⟨h, hs⟩
    | some a => simp [Util.foreach] at hloop
  | succ fuel ih =>
    cases cur with
    | none =>
      obtain ⟨rfl, rfl⟩ := Prod.mk.inj (Option.some.inj hloop)
      exact ⟨h, hs⟩
    | some a =>
      rw [Util.foreach] at hloop
      cases hcell : m.cells a with
      | none => simp [hcell] at hloop
      | some n =>
        rw [hcell] at hloop
        obtain ⟨h1, h2⟩ := hf n.data s (h a n hcell) hs
        exact ih (h.write h1) h2 hloop

end AllData

/-- A change of the state that the body of a loop commutes with. -/
theorem foreach_map {f : α → σ → α × σ} {g : σ → σ}
    (hf : ∀ d s, f d (g s) = ((f d s).1, g (f d s).2)) (fuel : Nat) (m : SListMem α)
    (cur : Option Nat) (s : σ) :
    foreach f fuel m cur (g s) = (foreach f fuel m cur s).map fun r => (r.1, g r.2) := by
  induction fuel generalizing m cur s with
  | zero => cases cur <;> rfl
  | succ fuel ih =>
    cases cur with
    | none => rfl
    | some a =>
      rw [foreach, foreach]
      cases m.cells a with
      | none => rfl
      | some n =>
        simp only [hf]
        exact ih _ _ _

end SrxSuite.Util

import Mathlib.Data.List.Induction
import SrxSuite.Util.SList

/-!
# The RPKI queue

The model of `server/rpki_queue.c`: updates whose validation might have changed wait here for the
End-of-Data PDU, with the reason why. The queue is a singly linked list with a head and a size. An
update that is queued again keeps its place, its reason is changed.

`Pending` is what a sequence of calls means: the updates in the order of their first enqueue, each
with all reasons it was queued for since.

Results:
1. `rpkiQueue_represents_iff`: the queue is `Pending` as long as the size fits an `int` and an
   update that is queued for different reasons is queued for all of them.
2. `roa_and_key_is_all`: a ROA and a key together are stored as `RQ_ALL`.
-/

namespace SrxSuite.Server

open Util Util.SListLemmas

/-! ## The code -/

/-- `e_RPKI_QUEUE_REASON`. -/
inductive QueueReason
  | roa | key | both | aspa | all
  deriving DecidableEq, Repr

/-- The value of a reason. -/
def QueueReason.bits : QueueReason → UInt8
  | .roa => 1
  | .key => 2
  | .both => 3
  | .aspa => 4
  | .all => 7

/-- `RPKI_QUEUE_ELEM`. -/
structure QueueElem where
  reason : QueueReason
  updateID : UInt32
  deriving DecidableEq, Repr

/-- `_RPKI_QUEUE`; `mem` holds its list elements. -/
structure RpkiQueue where
  mem : SListMem QueueElem
  head : Option Nat
  size : UInt32

/-- `rq_createQueue`. -/
def rqCreateQueue : RpkiQueue := ⟨initMem, none, 0⟩

/-- `__rq_createQueueElem`: a new list element at `fresh`. -/
def rqCreateQueueElem (mem : SListMem QueueElem) (reason : QueueReason) (updateID : UInt32) :
    SListMem QueueElem :=
  { mem with fresh := mem.fresh + 1 }.write mem.fresh ⟨⟨reason, updateID⟩, none⟩

/-- The loop of `rq_queue` from the list element `a` on. -/
def rqQueueLoop (reason : QueueReason) (updateID : UInt32) (queue : RpkiQueue) :
    (fuel : Nat) → (listElem : Nat) → Option RpkiQueue
  | 0, _ => none
  | fuel + 1, a => do
    let listElem ← queue.mem.cells a
    if listElem.data.updateID ≠ updateID then
      match listElem.next with
      | some next => rqQueueLoop reason updateID queue fuel next
      | none =>
        let mem ← (rqCreateQueueElem queue.mem reason updateID).setNext a (some queue.mem.fresh)
        some { queue with mem := mem, size := queue.size + 1 }
    else if listElem.data.reason ≠ reason then
      -- The comment says both, the code takes all.
      let elem := { listElem.data with reason := .all }
      some { queue with mem := queue.mem.write a { listElem with data := elem } }
    else some queue

/-- `rq_queue`. -/
def rqQueue (queue : RpkiQueue) (reason : QueueReason) (updateID : UInt32) : Option RpkiQueue :=
  match queue.head with
  | some a => rqQueueLoop reason updateID queue queue.mem.fresh a
  | none => some { queue with
      mem := rqCreateQueueElem queue.mem reason updateID
      head := some queue.mem.fresh
      size := queue.size + 1 }

/-- `_rq_dequeue`. -/
def rqDequeue (queue : RpkiQueue) : Option (Option QueueElem × RpkiQueue) :=
  if queue.size ≠ 0 then do
    let a ← queue.head
    let listElem ← queue.mem.cells a
    some (some listElem.data, ⟨{ queue.mem with cells := Function.update queue.mem.cells a none },
      listElem.next, queue.size - 1⟩)
  else some (none, queue)

/-- The loop of `rq_empty`. -/
def rqEmptyLoop : (fuel : Nat) → RpkiQueue → Option RpkiQueue
  | 0, _ => none
  | fuel + 1, queue => do
    match ← rqDequeue queue with
    | (some _, queue) => rqEmptyLoop fuel queue
    | (none, queue) => some queue

/-- `rq_empty`. -/
def rqEmpty (queue : RpkiQueue) : Option RpkiQueue := rqEmptyLoop (queue.size.toNat + 1) queue

/-- `rq_size`, the size as a C `int`. -/
def rqSize (queue : RpkiQueue) : Int := queue.size.toBitVec.toInt

/-- A call of the queue. -/
inductive QueueOp
  | queue (reason : QueueReason) (updateID : UInt32)
  | dequeue
  | empty

/-- One call. -/
def queueStep (queue : RpkiQueue) : QueueOp → Option RpkiQueue
  | .queue reason updateID => rqQueue queue reason updateID
  | .dequeue => (rqDequeue queue).map Prod.snd
  | .empty => rqEmpty queue

/-- A sequence of calls. -/
def queueRun (queue : RpkiQueue) (ops : List QueueOp) : Option RpkiQueue :=
  ops.foldlM queueStep queue

/-! ## What is pending -/

/-- The updates that wait, each with the reasons it was queued for. -/
abbrev Pending := List (UInt32 × List QueueReason)

/-- Queue an update. -/
def Pending.enqueue (reason : QueueReason) (updateID : UInt32) : Pending → Pending
  | [] => [(updateID, [reason])]
  | (u, rs) :: p =>
    if u = updateID then (u, rs ++ [reason]) :: p else (u, rs) :: Pending.enqueue reason updateID p

/-- One call. -/
def Pending.step (p : Pending) : QueueOp → Pending
  | .queue reason updateID => p.enqueue reason updateID
  | .dequeue => p.tail
  | .empty => []

/-- A sequence of calls. -/
def Pending.run (p : Pending) (ops : List QueueOp) : Pending := ops.foldl Pending.step p

/-- The union of reasons. -/
def unionBits (rs : List QueueReason) : UInt8 := rs.foldl (fun bits r => bits ||| r.bits) 0

/-- The queue holds what is pending: every update once, in order, with the union of its reasons, and
`rq_size` of them. -/
def Represents (queue : RpkiQueue) (p : Pending) : Prop :=
  ∃ xs : List (Nat × QueueElem), Chain queue.mem.cells queue.head xs none ∧
    (xs.map fun x => (x.2.updateID, x.2.reason.bits)) = p.map (fun x => (x.1, unionBits x.2)) ∧
    (xs.map fun x => x.2.updateID).Nodup ∧ rqSize queue = xs.length

/-- The queue holds what is pending after every call. -/
def AlwaysRepresents (ops : List QueueOp) : Prop :=
  ∀ ops₁, ops₁ <+: ops → ∃ queue, queueRun rqCreateQueue ops₁ = some queue ∧
    Represents queue (Pending.run [] ops₁)

/-! ## The invariant -/

/-- The reason the code stores for a list of reasons. -/
def storedReason : List QueueReason → QueueReason
  | [] => .all
  | r :: rs => rs.foldl (fun stored r' => if stored = r' then stored else .all) r

/-- The queue holds what is pending, up to the reasons. -/
structure Queued (queue : RpkiQueue) (p : Pending) (xs : List (Nat × QueueElem)) : Prop where
  chain : Chain queue.mem.cells queue.head xs none
  nodup : (addrs xs).Nodup
  bound : ∀ a ∈ addrs xs, a < queue.mem.fresh
  elems : (xs.map Prod.snd) = p.map fun x => ⟨storedReason x.2, x.1⟩
  size : queue.size = UInt32.ofNat xs.length
  ids : (p.map Prod.fst).Nodup
  reasons : ∀ x ∈ p, x.2 ≠ []

/-- What the loop of `rq_queue` does to the elements of the queue. -/
def enqueueElems (reason : QueueReason) (updateID : UInt32) : List QueueElem → List QueueElem
  | [] => [⟨reason, updateID⟩]
  | e :: es =>
    if e.updateID ≠ updateID then e :: enqueueElems reason updateID es
    else { e with reason := if e.reason = reason then e.reason else .all } :: es

namespace QueueLemmas

variable {queue : RpkiQueue} {p : Pending} {xs : List (Nat × QueueElem)} {reason : QueueReason}
  {updateID : UInt32}

theorem storedReason_concat {rs : List QueueReason} (hne : rs ≠ []) (r : QueueReason) :
    storedReason (rs ++ [r]) = if storedReason rs = r then storedReason rs else .all := by
  cases rs with
  | nil => exact absurd rfl hne
  | cons r₀ rs => rw [List.cons_append, storedReason, List.foldl_append]; rfl

theorem enqueueElems_pending (p : Pending) (hne : ∀ x ∈ p, x.2 ≠ []) :
    enqueueElems reason updateID (p.map fun x => ⟨storedReason x.2, x.1⟩) =
      (p.enqueue reason updateID).map fun x => ⟨storedReason x.2, x.1⟩ := by
  induction p with
  | nil => rfl
  | cons x p ih =>
    obtain ⟨u, rs⟩ := x
    rw [List.map_cons, enqueueElems, Pending.enqueue]
    by_cases hu : u = updateID
    · rw [if_neg (by simp [hu]), if_pos hu, List.map_cons,
        storedReason_concat (hne (u, rs) List.mem_cons_self)]
    · rw [if_pos hu, if_neg hu, List.map_cons, ih fun x hx => hne x (List.mem_cons_of_mem _ hx)]

/-- The loop of `rq_queue` at the element of the update. -/
theorem rqQueueLoop_found {a : Nat} {e : QueueElem} {next : Option Nat} (reason : QueueReason)
    (fuel : Nat) (hcell : queue.mem.cells a = some ⟨e, next⟩) (hid : e.updateID = updateID) :
    ∃ mem, rqQueueLoop reason updateID queue (fuel + 1) a = some { queue with mem := mem } ∧
      mem.fresh = queue.mem.fresh ∧
      mem.cells a = some ⟨{ e with reason := if e.reason = reason then e.reason else .all }, next⟩ ∧
      ∀ b, b ≠ a → mem.cells b = queue.mem.cells b := by
  by_cases hreason : e.reason = reason
  · refine ⟨queue.mem, ?_, rfl, ?_, fun _ _ => rfl⟩
    · simp [rqQueueLoop, hcell, hid, hreason]
    · rw [hcell, if_pos hreason]
  · refine ⟨queue.mem.write a ⟨{ e with reason := .all }, next⟩, ?_, rfl, ?_, fun b hb => ?_⟩
    · simp [rqQueueLoop, hcell, hid, hreason]
    · rw [if_neg hreason]
      exact Function.update_self ..
    · exact Function.update_of_ne hb ..

/-- The loop of `rq_queue`: only the elements from `a` on are changed, and one may be new. -/
theorem rqQueueLoop_spec {fuel a : Nat} {e : QueueElem} {xs : List (Nat × QueueElem)}
    (reason : QueueReason) (updateID : UInt32)
    (hchain : Chain queue.mem.cells (some a) ((a, e) :: xs) none)
    (hnodup : (addrs ((a, e) :: xs)).Nodup) (hbound : ∀ b ∈ addrs ((a, e) :: xs), b < queue.mem.fresh)
    (hfuel : xs.length < fuel) :
    ∃ mem ys new, rqQueueLoop reason updateID queue fuel a =
        some { queue with mem := mem, size := queue.size + UInt32.ofNat new } ∧
      Chain mem.cells (some a) ys none ∧
      ys.map Prod.snd = enqueueElems reason updateID (((a, e) :: xs).map Prod.snd) ∧
      ys.length = ((a, e) :: xs).length + new ∧
      addrs ys = addrs ((a, e) :: xs) ++ List.replicate new queue.mem.fresh ∧ new ≤ 1 ∧
      mem.fresh = queue.mem.fresh + new ∧
      ∀ b, b ∉ addrs ((a, e) :: xs) → b ≠ queue.mem.fresh → mem.cells b = queue.mem.cells b := by
  have hzero : queue.size + UInt32.ofNat 0 = queue.size := UInt32.add_zero _
  induction xs generalizing fuel a e with
  | nil =>
    obtain ⟨fuel, rfl⟩ := Nat.exists_eq_succ_of_ne_zero (Nat.ne_of_gt hfuel)
    obtain ⟨-, next, hcell, rfl⟩ := hchain
    by_cases hid : e.updateID = updateID
    · obtain ⟨mem, hloop, hfresh, hcell', hrest⟩ := rqQueueLoop_found reason fuel
        hcell hid
      refine ⟨mem, [(a, { e with reason := if e.reason = reason then e.reason else .all })], 0,
        by rw [hloop, hzero], ⟨rfl, none, hcell', rfl⟩, ?_, rfl, rfl, Nat.zero_le _, hfresh,
        fun b hb _ => hrest b (by simpa using hb)⟩
      simp [enqueueElems, hid]
    · have hne : a ≠ queue.mem.fresh := Nat.ne_of_lt (hbound a List.mem_cons_self)
      have hcell' : (rqCreateQueueElem queue.mem reason updateID).cells a = some ⟨e, none⟩ := by
        rw [← hcell]
        exact Function.update_of_ne hne ..
      refine ⟨(rqCreateQueueElem queue.mem reason updateID).write a ⟨e, some queue.mem.fresh⟩,
        [(a, e), (queue.mem.fresh, ⟨reason, updateID⟩)], 1, ?_, ?_, ?_, rfl, rfl, Nat.le_refl _, rfl,
        fun b hb hbf => ?_⟩
      · simp [rqQueueLoop, hcell, hid, SListMem.setNext, hcell']
      · refine ⟨rfl, some queue.mem.fresh, Function.update_self .., rfl, none, ?_, rfl⟩
        exact (Function.update_of_ne hne.symm ..).trans (Function.update_self ..)
      · simp [enqueueElems, hid]
      · have hba : b ≠ a := by simpa using hb
        exact (Function.update_of_ne hba ..).trans (Function.update_of_ne hbf ..)
  | cons x xs ih =>
    obtain ⟨fuel, rfl⟩ := Nat.exists_eq_succ_of_ne_zero (Nat.ne_of_gt (Nat.zero_lt_of_lt hfuel))
    obtain ⟨a', e'⟩ := x
    obtain ⟨-, next, hcell, htail⟩ := hchain
    obtain rfl : next = some a' := htail.1
    have hnodup' := List.nodup_cons.mp hnodup
    by_cases hid : e.updateID = updateID
    · obtain ⟨mem, hloop, hfresh, hcell', hrest⟩ := rqQueueLoop_found reason fuel
        hcell hid
      refine ⟨mem, (a, { e with reason := if e.reason = reason then e.reason else .all }) ::
          (a', e') :: xs, 0, by rw [hloop, hzero],
        ⟨rfl, some a', hcell', chain_congr htail fun b hb => hrest b ?_⟩, ?_, rfl, ?_,
        Nat.zero_le _, hfresh, fun b hb _ => hrest b ?_⟩
      · rintro rfl
        exact hnodup'.1 hb
      · simp [enqueueElems, hid]
      · simp
      · rintro rfl
        exact hb List.mem_cons_self
    · obtain ⟨mem, ys, new, hloop, hchain', helems, hlen, haddrs, hnew, hfresh, hrest⟩ := ih htail
        hnodup'.2 (fun b hb => hbound b (List.mem_cons_of_mem _ hb))
        (Nat.lt_of_succ_lt_succ hfuel : xs.length < fuel)
      have hcell' : mem.cells a = some ⟨e, some a'⟩ := by
        rw [hrest a hnodup'.1 (Nat.ne_of_lt (hbound a List.mem_cons_self)), hcell]
      refine ⟨mem, (a, e) :: ys, new, ?_, ⟨rfl, some a', hcell', hchain'⟩, ?_, ?_, ?_, hnew, hfresh,
        fun b hb hbf => hrest b (fun hmem => hb (List.mem_cons_of_mem _ hmem)) hbf⟩
      · rw [← hloop]
        simp [rqQueueLoop, hcell, hid]
      · rw [List.map_cons, helems]
        exact (if_pos hid).symm
      · simp only [List.length_cons] at hlen ⊢
        omega
      · exact congrArg (a :: ·) haddrs

/-- The ids after an enqueue: the same, or one more at the end. -/
theorem ids_enqueue (p : Pending) : (p.enqueue reason updateID).map Prod.fst =
    if updateID ∈ p.map Prod.fst then p.map Prod.fst else p.map Prod.fst ++ [updateID] := by
  induction p with
  | nil => rfl
  | cons x p ih =>
    obtain ⟨u, rs⟩ := x
    rw [Pending.enqueue]
    by_cases hu : u = updateID
    · simp [hu]
    · rw [if_neg hu, List.map_cons, ih]
      split <;> simp_all [Ne.symm hu]

theorem nodup_enqueue (hnodup : (p.map Prod.fst).Nodup) :
    ((p.enqueue reason updateID).map Prod.fst).Nodup := by
  rw [ids_enqueue]
  split
  · exact hnodup
  · next hmem =>
      exact List.nodup_append.mpr
        ⟨hnodup, by simp, by simpa using fun a ha => ne_of_mem_of_not_mem ha hmem⟩

/-- The pairs after an enqueue. -/
theorem mem_enqueue {x : UInt32 × List QueueReason} (hx : x ∈ p.enqueue reason updateID) :
    x ∈ p ∨ x = (updateID, [reason]) ∨ ∃ rs, (updateID, rs) ∈ p ∧ x = (updateID, rs ++ [reason]) := by
  induction p with
  | nil => exact .inr (.inl (List.mem_singleton.mp hx))
  | cons y p ih =>
    obtain ⟨u, rs⟩ := y
    rw [Pending.enqueue] at hx
    split at hx
    · next hu =>
      subst hu
      rcases List.mem_cons.mp hx with rfl | hx
      · exact .inr (.inr ⟨rs, List.mem_cons_self, rfl⟩)
      · exact .inl (List.mem_cons_of_mem _ hx)
    · rcases List.mem_cons.mp hx with rfl | hx
      · exact .inl List.mem_cons_self
      · rcases ih hx with h | h | ⟨rs', h, rfl⟩
        · exact .inl (List.mem_cons_of_mem _ h)
        · exact .inr (.inl h)
        · exact .inr (.inr ⟨rs', List.mem_cons_of_mem _ h, rfl⟩)

theorem reasons_enqueue (hne : ∀ x ∈ p, x.2 ≠ []) : ∀ x ∈ p.enqueue reason updateID, x.2 ≠ [] := by
  intro x hx
  rcases mem_enqueue hx with hx | rfl | ⟨rs, -, rfl⟩
  · exact hne x hx
  · simp
  · simp

theorem length_le_fresh (hq : Queued queue p xs) : xs.length ≤ queue.mem.fresh := by
  have hsub : addrs xs ⊆ List.range queue.mem.fresh := fun a ha => List.mem_range.mpr (hq.bound a ha)
  simpa [addrs] using (hq.nodup.subperm hsub).length_le

theorem queued_init : Queued rqCreateQueue [] [] where
  chain := rfl
  nodup := List.nodup_nil
  bound := by simp
  elems := rfl
  size := rfl
  ids := List.nodup_nil
  reasons := by simp

end QueueLemmas

open QueueLemmas

section Calls

variable {queue : RpkiQueue} {p : Pending} {xs : List (Nat × QueueElem)}

/-- `rq_queue` queues an update. -/
theorem Queued.enqueue {reason : QueueReason} {updateID : UInt32} (hq : Queued queue p xs) :
    ∃ queue' xs', rqQueue queue reason updateID = some queue' ∧
      Queued queue' (p.enqueue reason updateID) xs' := by
  cases xs with
  | nil =>
    have hhead : queue.head = none := hq.chain
    obtain rfl : p = [] := by simpa using hq.elems.symm
    refine ⟨_, [(queue.mem.fresh, ⟨reason, updateID⟩)], by rw [rqQueue, hhead], ?_, ?_, ?_, rfl, ?_,
      nodup_enqueue hq.ids, reasons_enqueue hq.reasons⟩
    · exact ⟨rfl, none, Function.update_self .., rfl⟩
    · simp
    · intro a ha
      obtain rfl : a = queue.mem.fresh := by simpa using ha
      exact Nat.lt_succ_self _
    · show queue.size + 1 = _
      rw [hq.size]
      rfl
  | cons x xs =>
    obtain ⟨a, e⟩ := x
    have hhead : queue.head = some a := hq.chain.1
    have hchain : Chain queue.mem.cells (some a) ((a, e) :: xs) none := hhead ▸ hq.chain
    obtain ⟨mem, ys, new, hloop, hchain', helems, hlen, haddrs, hnew, hfresh, -⟩ :=
      rqQueueLoop_spec reason updateID hchain hq.nodup hq.bound
        (length_le_fresh hq)
    refine ⟨_, ys, by rw [rqQueue, hhead]; exact hloop, hhead ▸ hchain', ?_, ?_, ?_, ?_,
      nodup_enqueue hq.ids, reasons_enqueue hq.reasons⟩
    · rw [haddrs, List.nodup_append]
      refine ⟨hq.nodup, ?_, ?_⟩
      · rcases Nat.le_one_iff_eq_zero_or_eq_one.mp hnew with rfl | rfl <;> simp
      · intro b hb b' hb'
        rw [List.eq_of_mem_replicate hb']
        exact Nat.ne_of_lt (hq.bound b hb)
    · intro b hb
      rw [haddrs, List.mem_append] at hb
      show b < mem.fresh
      rw [hfresh]
      rcases hb with hb | hb
      · exact Nat.lt_add_right _ (hq.bound b hb)
      · obtain ⟨hpos, rfl⟩ := List.mem_replicate.mp hb
        omega
    · rw [helems, hq.elems, enqueueElems_pending p hq.reasons]
    · show queue.size + UInt32.ofNat new = _
      rw [hq.size, hlen, UInt32.ofNat_add]

/-- `rq_dequeue` removes the first update. -/
theorem Queued.dequeue (hq : Queued queue p xs) (hsize : p.length < 2 ^ 32) :
    ∃ queue', rqDequeue queue = some (xs.head?.map Prod.snd, queue') ∧
      Queued queue' p.tail xs.tail := by
  have hlen : xs.length = p.length := by simpa using congrArg List.length hq.elems
  cases xs with
  | nil =>
    obtain rfl : p = [] := by simpa using hq.elems.symm
    have hzero : queue.size = 0 := hq.size
    exact ⟨queue, by simp [rqDequeue, hzero], hq⟩
  | cons x xs =>
    obtain ⟨a, e⟩ := x
    obtain ⟨hhead, next, hcell, htail⟩ := hq.chain
    have hnodup := List.nodup_cons.mp hq.nodup
    have hne : queue.size ≠ 0 := by
      rw [hq.size, hlen]
      intro h
      have := congrArg UInt32.toNat h
      rw [UInt32.toNat_ofNat', Nat.mod_eq_of_lt hsize, ← hlen] at this
      cases this
    have hdeq : rqDequeue queue = some (some e,
        ⟨{ queue.mem with cells := Function.update queue.mem.cells a none }, next,
          queue.size - 1⟩) := by
      simp only [rqDequeue, if_pos hne, hhead, hcell, Option.bind_eq_bind, Option.bind_some]
    refine ⟨_, hdeq, chain_update htail hnodup.1 _, hnodup.2, fun b hb => hq.bound b (List.mem_cons_of_mem _ hb), ?_, ?_, ?_,
      fun x hx => hq.reasons x (List.mem_of_mem_tail hx)⟩
    · have := congrArg List.tail hq.elems
      simpa using this
    · show queue.size - 1 = _
      rw [hq.size, List.length_cons, UInt32.ofNat_add]
      exact UInt32.add_sub_cancel ..
    · rw [List.map_tail]
      exact hq.ids.tail

/-- The queue holds a list of elements. -/
def Holds (queue : RpkiQueue) (es : List QueueElem) : Prop :=
  ∃ p xs, Queued queue p xs ∧ xs.map Prod.snd = es

/-- `rq_queue` on the list that the queue holds. -/
theorem Holds.rqQueue {es : List QueueElem} (h : Holds queue es) (reason : QueueReason)
    (updateID : UInt32) : ∃ queue', Server.rqQueue queue reason updateID = some queue' ∧
      Holds queue' (enqueueElems reason updateID es) := by
  obtain ⟨p, xs, hq, rfl⟩ := h
  obtain ⟨queue', xs', hcall, hq'⟩ := hq.enqueue
  refine ⟨queue', hcall, _, xs', hq', ?_⟩
  rw [hq'.elems, hq.elems, enqueueElems_pending p hq.reasons]

/-- `rq_dequeue` on the list that the queue holds. -/
theorem Holds.rqDequeue {es : List QueueElem} (h : Holds queue es) (hsize : es.length < 2 ^ 32) :
    ∃ queue', Server.rqDequeue queue = some (es.head?, queue') ∧ Holds queue' es.tail := by
  obtain ⟨p, xs, hq, rfl⟩ := h
  have hlen : p.length < 2 ^ 32 := by
    rw [hq.elems, List.length_map] at hsize
    exact hsize
  obtain ⟨queue', hcall, hq'⟩ := hq.dequeue hlen
  refine ⟨queue', ?_, _, xs.tail, hq', List.map_tail⟩
  rw [hcall, List.head?_map]

/-- `rq_empty` removes all updates. -/
theorem Queued.clear (hq : Queued queue p xs) (hsize : p.length < 2 ^ 32) :
    ∃ queue', rqEmpty queue = some queue' ∧ Queued queue' [] [] := by
  have hloop : ∀ fuel, p.length < fuel →
      ∃ queue', rqEmptyLoop fuel queue = some queue' ∧ Queued queue' [] [] := by
    induction p generalizing queue xs with
    | nil =>
      intro fuel hfuel
      obtain ⟨fuel, rfl⟩ := Nat.exists_eq_succ_of_ne_zero (Nat.ne_of_gt hfuel)
      obtain rfl : xs = [] := by simpa using hq.elems
      have hzero : queue.size = 0 := hq.size
      exact ⟨queue, by simp [rqEmptyLoop, rqDequeue, hzero], hq⟩
    | cons y p ih =>
      intro fuel hfuel
      obtain ⟨fuel, rfl⟩ := Nat.exists_eq_succ_of_ne_zero (Nat.ne_of_gt (Nat.zero_lt_of_lt hfuel))
      obtain ⟨queue', hdeq, hq'⟩ := hq.dequeue hsize
      obtain ⟨x, xs, rfl⟩ : ∃ x xs', xs = x :: xs' := by
        cases xs with
        | nil => simpa using hq.elems
        | cons x xs => exact ⟨x, xs, rfl⟩
      obtain ⟨queue'', hempty, hq''⟩ := ih hq' (Nat.lt_of_succ_lt hsize) fuel
        (Nat.lt_of_succ_lt_succ hfuel)
      refine ⟨queue'', ?_, hq''⟩
      rw [rqEmptyLoop, hdeq]
      exact hempty
  have hlen : xs.length = p.length := by simpa using congrArg List.length hq.elems
  have hfuel : p.length < queue.size.toNat + 1 := by
    rw [hq.size, hlen, UInt32.toNat_ofNat', Nat.mod_eq_of_lt hsize]
    exact Nat.lt_succ_self _
  exact hloop _ hfuel

end Calls

/-! ## Runs -/

namespace QueueLemmas

variable {queue : RpkiQueue} {p : Pending} {xs : List (Nat × QueueElem)} {ops : List QueueOp}

/-- A call does what it means. -/
theorem queued_step (hq : Queued queue p xs) (hsize : p.length < 2 ^ 32) (op : QueueOp) :
    ∃ queue' xs', queueStep queue op = some queue' ∧ Queued queue' (p.step op) xs' := by
  cases op with
  | queue reason updateID => exact hq.enqueue
  | dequeue =>
    obtain ⟨queue', hdeq, hq'⟩ := hq.dequeue hsize
    exact ⟨queue', _, by rw [queueStep, hdeq]; rfl, hq'⟩
  | empty =>
    obtain ⟨queue', hempty, hq'⟩ := hq.clear hsize
    exact ⟨queue', [], hempty, hq'⟩

/-- So does a run. -/
theorem queued_run (hq : Queued queue p xs)
    (hsize : ∀ ops₁, ops₁ <+: ops → (p.run ops₁).length < 2 ^ 32) :
    ∃ queue' xs', queueRun queue ops = some queue' ∧ Queued queue' (p.run ops) xs' := by
  induction ops generalizing queue p xs with
  | nil => exact ⟨queue, xs, rfl, hq⟩
  | cons op ops ih =>
    obtain ⟨queue₁, xs₁, hstep, hq₁⟩ := queued_step hq (hsize [] List.nil_prefix) op
    obtain ⟨queue', xs', hrun, hq'⟩ := ih hq₁ fun ops₁ hpre =>
      hsize (op :: ops₁) (List.cons_prefix_cons.mpr ⟨rfl, hpre⟩)
    refine ⟨queue', xs', ?_, hq'⟩
    rw [queueRun, List.foldlM_cons, hstep]
    exact hrun

theorem rqSize_lt (queue : RpkiQueue) : rqSize queue < 2 ^ 31 := by
  have := BitVec.toInt_lt (x := queue.size.toBitVec)
  rw [rqSize]
  omega

theorem rqSize_eq (hq : Queued queue p xs) (hsize : p.length < 2 ^ 31) :
    rqSize queue = xs.length := by
  have hlen : xs.length = p.length := by simpa using congrArg List.length hq.elems
  have hnat : queue.size.toNat = xs.length := by
    rw [hq.size, UInt32.toNat_ofNat', Nat.mod_eq_of_lt (by omega)]
  rw [rqSize, BitVec.toInt_eq_toNat_of_lt]
  · exact_mod_cast hnat
  · rw [UInt32.toNat_toBitVec, hnat]
    omega

/-- The stored reason is the union of the reasons. -/
def ReasonExact (rs : List QueueReason) : Prop := (storedReason rs).bits = unionBits rs

theorem represents_iff (hq : Queued queue p xs) (hsize : p.length < 2 ^ 31) :
    Represents queue p ↔ ∀ x ∈ p, ReasonExact x.2 := by
  have helems (f : QueueElem → UInt32 × UInt8) : (xs.map fun x => f x.2) =
      p.map fun x => f ⟨storedReason x.2, x.1⟩ := by
    have := congrArg (List.map f) hq.elems
    rwa [List.map_map, List.map_map] at this
  constructor
  · rintro ⟨ys, hchain, hmap, -⟩ x hx
    obtain rfl := chain_unique hchain hq.chain
    rw [helems fun e => (e.updateID, e.reason.bits)] at hmap
    exact (Prod.mk.inj (List.map_inj_left.mp hmap x hx)).2
  · intro hexact
    refine ⟨xs, hq.chain, ?_, ?_, rqSize_eq hq hsize⟩
    · rw [helems fun e => (e.updateID, e.reason.bits)]
      exact List.map_congr_left fun x hx => Prod.ext rfl (hexact x hx)
    · have hids : (xs.map fun x => x.2.updateID) = p.map Prod.fst := by
        have := congrArg (List.map QueueElem.updateID) hq.elems
        rwa [List.map_map, List.map_map] at this
      rw [hids]
      exact hq.ids

/-! ### Reasons -/

theorem unionBits_concat (rs : List QueueReason) (r : QueueReason) :
    unionBits (rs ++ [r]) = unionBits rs ||| r.bits := by
  simp [unionBits]

/-- All reasons are the same, or the stored one is `RQ_ALL`. -/
theorem storedReason_cases (rs : List QueueReason) :
    storedReason rs = .all ∨ ∀ r ∈ rs, r = storedReason rs := by
  induction rs using List.reverseRecOn with
  | nil => exact .inl rfl
  | append_singleton rs r ih =>
    by_cases hne : rs = []
    · subst hne
      exact .inr (by simp [storedReason])
    · rw [storedReason_concat hne]
      split
      · next heq =>
        rcases ih with hall | hsame
        · exact .inl hall
        · refine .inr fun r' hr' => ?_
          rcases List.mem_append.mp hr' with hr' | hr'
          · exact hsame r' hr'
          · rw [List.mem_singleton.mp hr', heq]
      · exact .inl rfl

theorem storedReason_same {rs : List QueueReason} {r : QueueReason} (hne : rs ≠ [])
    (hsame : ∀ r' ∈ rs, r' = r) : storedReason rs = r := by
  induction rs using List.reverseRecOn with
  | nil => exact absurd rfl hne
  | append_singleton rs r' ih =>
    obtain rfl := hsame r' (by simp)
    by_cases hrs : rs = []
    · subst hrs
      rfl
    · have heq := ih hrs fun x hx => hsame x (List.mem_append_left _ hx)
      rw [storedReason_concat hrs, if_pos heq, heq]

/-- One more reason. -/
theorem reasonExact_concat {rs : List QueueReason} (hne : rs ≠ []) (hexact : ReasonExact rs)
    (r : QueueReason) :
    ReasonExact (rs ++ [r]) ↔ (∀ r' ∈ rs, r' = r) ∨ unionBits (rs ++ [r]) = QueueReason.all.bits := by
  have hunion : unionBits (rs ++ [r]) = (storedReason rs).bits ||| r.bits := by
    rw [unionBits_concat, ← hexact]
  rw [ReasonExact, storedReason_concat hne]
  by_cases heq : storedReason rs = r
  · rw [if_pos heq, hunion, heq, UInt8.or_self]
    refine iff_of_true rfl ?_
    rcases storedReason_cases rs with hall | hsame
    · exact .inr (by rw [← heq, hall])
    · exact .inl fun r' hr' => (hsame r' hr').trans heq
  · rw [if_neg heq]
    constructor
    · exact fun h => .inr h.symm
    · rintro (hsame | h)
      · exact absurd (storedReason_same hne hsame) heq
      · exact h.symm

theorem mem_enqueue_of_mem {reason : QueueReason} {updateID : UInt32} {rs : List QueueReason}
    (hids : (p.map Prod.fst).Nodup) (hmem : (updateID, rs) ∈ p) :
    (updateID, rs ++ [reason]) ∈ p.enqueue reason updateID := by
  induction p with
  | nil => cases hmem
  | cons x p ih =>
    obtain ⟨u, rs'⟩ := x
    have hnodup := List.nodup_cons.mp hids
    rw [Pending.enqueue]
    rcases List.mem_cons.mp hmem with heq | hmem
    · obtain ⟨rfl, rfl⟩ := Prod.mk.inj heq
      rw [if_pos rfl]
      exact List.mem_cons_self
    · have hne : u ≠ updateID := by
        rintro rfl
        exact hnodup.1 (List.mem_map.mpr ⟨_, hmem, rfl⟩)
      rw [if_neg hne]
      exact List.mem_cons_of_mem _ (ih hnodup.2 hmem)

theorem run_concat (p : Pending) (ops : List QueueOp) (op : QueueOp) :
    p.run (ops ++ [op]) = (p.run ops).step op := by
  rw [Pending.run, List.foldl_append]
  rfl

end QueueLemmas

/-- The size fits an `int` after every call. -/
def SizesFit (ops : List QueueOp) : Prop :=
  ∀ ops₁, ops₁ <+: ops → (Pending.run [] ops₁).length < 2 ^ 31

/-- An update that is queued again was queued for the same reason only, or is now queued for all of
them. -/
def ReasonsMerge (ops : List QueueOp) : Prop :=
  ∀ ops₁ reason updateID, ops₁ ++ [.queue reason updateID] <+: ops →
    ∀ rs, (updateID, rs) ∈ Pending.run [] ops₁ →
      (∀ r ∈ rs, r = reason) ∨ unionBits (rs ++ [reason]) = QueueReason.all.bits

/-- The queue holds what is pending after every call of a run, if and only if the size fits and the
reasons that are merged are the same or all. -/
theorem rpkiQueue_represents_iff (ops : List QueueOp) :
    AlwaysRepresents ops ↔ SizesFit ops ∧ ReasonsMerge ops := by
  have hqueued (hfit : SizesFit ops) (ops₁ : List QueueOp) (hpre : ops₁ <+: ops) :
      ∃ queue xs, queueRun rqCreateQueue ops₁ = some queue ∧
        Queued queue (Pending.run [] ops₁) xs :=
    queued_run queued_init fun ops₂ hpre₂ =>
      Nat.lt_trans (hfit ops₂ (hpre₂.trans hpre)) (by decide)
  have hiff (hfit : SizesFit ops) : AlwaysRepresents ops ↔
      ∀ ops₁, ops₁ <+: ops → ∀ x ∈ Pending.run [] ops₁, ReasonExact x.2 := by
    refine forall₂_congr fun ops₁ hpre => ?_
    obtain ⟨queue, xs, hrun, hq⟩ := hqueued hfit ops₁ hpre
    rw [← represents_iff hq (hfit ops₁ hpre)]
    exact ⟨fun ⟨queue', hrun', h⟩ => Option.some.inj (hrun'.symm.trans hrun) ▸ h,
      fun h => ⟨queue, hrun, h⟩⟩
  constructor
  · intro hall
    have hfit : SizesFit ops := by
      intro ops₁ hpre
      obtain ⟨queue, -, xs, -, hmap, -, hsize⟩ := hall ops₁ hpre
      have hlen := congrArg List.length hmap
      have := rqSize_lt queue
      simp only [List.length_map] at hlen
      omega
    refine ⟨hfit, fun ops₁ reason updateID hpre rs hmem => ?_⟩
    have hexact := (hiff hfit).mp hall
    have hpre₁ : ops₁ <+: ops := (List.prefix_append _ _).trans hpre
    obtain ⟨queue, xs, -, hq⟩ := hqueued hfit ops₁ hpre₁
    refine (reasonExact_concat (hq.reasons _ hmem) (hexact ops₁ hpre₁ _ hmem) reason).mp ?_
    refine hexact _ hpre (updateID, rs ++ [reason]) ?_
    rw [run_concat]
    exact mem_enqueue_of_mem hq.ids hmem
  · rintro ⟨hfit, hmerge⟩
    rw [hiff hfit]
    intro ops₁
    -- Induction on the calls made so far; only an enqueue changes reasons.
    induction ops₁ using List.reverseRecOn with
    | nil => exact fun _ x hx => absurd hx List.not_mem_nil
    | append_singleton ops₁ op ih =>
      intro hpre x hx
      have hpre₁ : ops₁ <+: ops := (List.prefix_append _ _).trans hpre
      have ih := ih hpre₁
      rw [run_concat] at hx
      cases op with
      | queue reason updateID =>
        rcases mem_enqueue hx with hx | rfl | ⟨rs, hmem, rfl⟩
        · exact ih x hx
        · simp [ReasonExact, storedReason, unionBits]
        · obtain ⟨queue, xs, -, hq⟩ := hqueued hfit ops₁ hpre₁
          exact (reasonExact_concat (hq.reasons _ hmem) (ih _ hmem) reason).mpr
            (hmerge ops₁ reason updateID hpre rs hmem)
      | dequeue => exact ih x (List.mem_of_mem_tail hx)
      | empty => exact absurd hx List.not_mem_nil

/-- An update is queued for a ROA and for a key: the stored reason has the bit of ASPA, too. -/
theorem roa_and_key_is_all : ¬ AlwaysRepresents [.queue .roa 1, .queue .key 1] := by
  intro hall
  have hpending : Pending.run [] [.queue .roa 1, .queue .key 1] = [(1, [.roa, .key])] := rfl
  obtain ⟨queue₁, xs₁, hstep₁, hq₁⟩ := queued_step queued_init (by decide) (.queue .roa 1)
  obtain ⟨queue₂, xs₂, hstep₂, hq₂⟩ := queued_step hq₁ (by decide) (.queue .key 1)
  obtain ⟨queue, hrun, hrep⟩ := hall _ List.prefix_rfl
  have hrun₂ : queueRun rqCreateQueue [.queue .roa 1, .queue .key 1] = some queue₂ := by
    simp [queueRun, hstep₁, hstep₂]
  obtain rfl := Option.some.inj (hrun₂.symm.trans hrun)
  rw [hpending] at hrep
  have hexact := (represents_iff hq₂ (by decide)).mp hrep (1, [.roa, .key]) (by decide)
  have hbits : (storedReason [.roa, .key]).bits ≠ unionBits [.roa, .key] := by decide
  exact hbits hexact

end SrxSuite.Server

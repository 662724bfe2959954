import Mathlib.Data.List.Nodup
import Mathlib.Logic.Function.Basic

/-!
# Doubly linked lists in a heap

A heap maps addresses to nodes with two links and a value. `Seg h back start l last stop`
says that from `start` on the nodes `l` are linked in both directions: `back` is the `prev`
link of the first and `stop` the `next` link of the last of them, which is `last`. A whole
list from the head `start` is `Seg h none start l last none`.

Segments split along `++` (`seg_append`) and depend on the nodes they hold only
(`Seg.congr`). The edits of a list are `Seg.setNext` at the end of a segment, `Seg.setPrev`
at its start and `Seg.setVal` anywhere.
-/

namespace LinkedList

variable {α : Type}

/-- A node with its links. -/
structure Node (α : Type) where
  prev : Option Nat
  next : Option Nat
  val : α

abbrev Heap (α : Type) := Nat → Option (Node α)

namespace Heap

/-- Write a node. -/
def write (h : Heap α) (a : Nat) (n : Node α) : Heap α := Function.update h a (some n)

/-- Free a node. -/
def free (h : Heap α) (a : Nat) : Heap α := Function.update h a none

/-- Change a node; `none` when there is no node at the address. -/
def modify (h : Heap α) (a : Nat) (f : Node α → Node α) : Option (Heap α) :=
  (h a).map fun n => h.write a (f n)

@[simp] theorem write_same (h : Heap α) (a : Nat) (n : Node α) : h.write a n a = some n := by
  simp [write]

theorem write_of_ne (h : Heap α) {a b : Nat} (n : Node α) (hne : b ≠ a) :
    h.write a n b = h b := by
  simp [write, hne]

theorem free_of_ne (h : Heap α) {a b : Nat} (hne : b ≠ a) : h.free a b = h b := by
  simp [free, hne]

theorem modify_eq {h : Heap α} {a : Nat} {n : Node α} (f : Node α → Node α)
    (hn : h a = some n) : h.modify a f = some (h.write a (f n)) := by
  simp [modify, hn]

end Heap

/-! ## Segments -/

/-- The nodes `l` from `start` on, linked in both directions. -/
def Seg (h : Heap α) :
    (back start : Option Nat) → List (Nat × α) → (last stop : Option Nat) → Prop
  | back, start, [], last, stop => back = last ∧ start = stop
  | back, start, (a, v) :: l, last, stop =>
    start = some a ∧ ∃ next, h a = some ⟨back, next, v⟩ ∧ Seg h (some a) next l last stop

/-- The addresses of a list of nodes. -/
abbrev addrs (l : List (Nat × α)) : List Nat := l.map Prod.fst

variable {h h' : Heap α} {back start last stop : Option Nat} {l : List (Nat × α)}

theorem seg_append {l₁ l₂ : List (Nat × α)} :
    Seg h back start (l₁ ++ l₂) last stop ↔
      ∃ mid next, Seg h back start l₁ mid next ∧ Seg h mid next l₂ last stop := by
  induction l₁ generalizing back start with
  | nil =>
    constructor
    · intro hseg
      exact ⟨back, start, ⟨rfl, rfl⟩, hseg⟩
    · rintro ⟨mid, next, ⟨rfl, rfl⟩, hseg⟩
      exact hseg
  | cons x l₁ ih =>
    obtain ⟨a, v⟩ := x
    simp only [List.cons_append, Seg, ih]
    constructor
    · rintro ⟨rfl, next, hn, mid, next', h1, h2⟩
      exact ⟨mid, next', ⟨rfl, next, hn, h1⟩, h2⟩
    · rintro ⟨mid, next', ⟨rfl, next, hn, h1⟩, h2⟩
      exact ⟨rfl, next, hn, mid, next', h1, h2⟩

theorem Seg.congr (hseg : Seg h back start l last stop) (heq : ∀ a ∈ addrs l, h' a = h a) :
    Seg h' back start l last stop := by
  induction l generalizing back start with
  | nil => exact hseg
  | cons x l ih =>
    obtain ⟨a, v⟩ := x
    obtain ⟨rfl, next, hn, htail⟩ := hseg
    refine ⟨rfl, next, ?_, ih htail fun b hb => heq b (List.mem_cons_of_mem _ hb)⟩
    rw [heq a List.mem_cons_self, hn]

theorem Seg.write {a : Nat} {n : Node α} (hseg : Seg h back start l last stop)
    (hfresh : a ∉ addrs l) : Seg (h.write a n) back start l last stop :=
  hseg.congr fun _ hb => h.write_of_ne n (ne_of_mem_of_not_mem hb hfresh)

theorem Seg.free {a : Nat} (hseg : Seg h back start l last stop) (hfresh : a ∉ addrs l) :
    Seg (h.free a) back start l last stop :=
  hseg.congr fun _ hb => h.free_of_ne (ne_of_mem_of_not_mem hb hfresh)

/-- Every listed node is in the heap with its value. -/
theorem Seg.mem {a : Nat} {v : α} (hseg : Seg h back start l last stop) (hmem : (a, v) ∈ l) :
    ∃ p n, h a = some ⟨p, n, v⟩ := by
  induction l generalizing back start with
  | nil => simp at hmem
  | cons x l ih =>
    obtain ⟨b, w⟩ := x
    obtain ⟨rfl, next, hn, htail⟩ := hseg
    rcases List.mem_cons.mp hmem with heq | hmem
    · obtain ⟨rfl, rfl⟩ := Prod.mk.injEq .. ▸ heq
      exact ⟨back, next, hn⟩
    · exact ih htail hmem

/-- The node between two segments. -/
theorem Seg.split {l₁ l₂ : List (Nat × α)} {a : Nat} {v : α}
    (hseg : Seg h back start (l₁ ++ (a, v) :: l₂) last stop) :
    ∃ mid next, Seg h back start l₁ mid (some a) ∧ h a = some ⟨mid, next, v⟩ ∧
      Seg h (some a) next l₂ last stop := by
  obtain ⟨mid, next', h1, rfl, next, hn, h2⟩ := seg_append.mp hseg
  exact ⟨mid, next, h1, hn, h2⟩

theorem Seg.join {l₁ l₂ : List (Nat × α)} {a : Nat} {v : α} {mid next : Option Nat}
    (h1 : Seg h back start l₁ mid (some a)) (hn : h a = some ⟨mid, next, v⟩)
    (h2 : Seg h (some a) next l₂ last stop) :
    Seg h back start (l₁ ++ (a, v) :: l₂) last stop :=
  seg_append.mpr ⟨mid, some a, h1, rfl, next, hn, h2⟩

/-- The end of a segment: nothing precedes it, or its last node. -/
theorem Seg.last_eq (hseg : Seg h back start l last stop) :
    (l = [] ∧ last = back ∧ start = stop) ∨
      ∃ l' a v, l = l' ++ [(a, v)] ∧ last = some a := by
  induction l generalizing back start with
  | nil => exact .inl ⟨rfl, hseg.1.symm, hseg.2⟩
  | cons x l ih =>
    obtain ⟨a, v⟩ := x
    obtain ⟨rfl, next, hn, htail⟩ := hseg
    rcases ih htail with ⟨rfl, rfl, -⟩ | ⟨l', b, w, rfl, rfl⟩
    · exact .inr ⟨[], a, v, rfl, rfl⟩
    · exact .inr ⟨(a, v) :: l', b, w, rfl, rfl⟩

/-! ## Edits -/

/-- Another value for one node. -/
theorem Seg.setVal {l₁ l₂ : List (Nat × α)} {a : Nat} {v w : α} {p n : Option Nat}
    (hseg : Seg h back start (l₁ ++ (a, v) :: l₂) last stop)
    (hnd : (addrs (l₁ ++ (a, v) :: l₂)).Nodup) (hn : h a = some ⟨p, n, v⟩) :
    Seg (h.write a ⟨p, n, w⟩) back start (l₁ ++ (a, w) :: l₂) last stop := by
  obtain ⟨mid, next, h1, hmid, h2⟩ := hseg.split
  obtain ⟨rfl, rfl⟩ : p = mid ∧ n = next := by simpa [hn] using hmid
  simp only [addrs, List.map_append, List.map_cons, List.nodup_append, List.nodup_cons] at hnd
  refine Seg.join (h1.write ?_) (h.write_same _ _) (h2.write hnd.2.1.1)
  intro ha
  exact hnd.2.2 a ha a List.mem_cons_self rfl

/-- Another `next` link at the end. -/
theorem Seg.setNext {a : Nat} {v : α} {p n y : Option Nat}
    (hseg : Seg h back start (l ++ [(a, v)]) last stop)
    (hnd : (addrs (l ++ [(a, v)])).Nodup) (hn : h a = some ⟨p, n, v⟩) :
    Seg (h.write a ⟨p, y, v⟩) back start (l ++ [(a, v)]) (some a) y := by
  obtain ⟨mid, next, h1, hmid, h2⟩ := hseg.split
  obtain ⟨rfl, rfl⟩ : p = mid ∧ n = next := by simpa [hn] using hmid
  simp only [addrs, List.map_append, List.map_cons, List.map_nil, List.nodup_append] at hnd
  refine Seg.join (h1.write ?_) (h.write_same _ _) ⟨rfl, rfl⟩
  intro ha
  exact hnd.2.2 a ha a List.mem_cons_self rfl

/-- Another `prev` link at the start. -/
theorem Seg.setPrev {a : Nat} {v : α} {p n y : Option Nat}
    (hseg : Seg h back start ((a, v) :: l) last stop)
    (hnd : (addrs ((a, v) :: l)).Nodup) (hn : h a = some ⟨p, n, v⟩) :
    Seg (h.write a ⟨y, n, v⟩) y start ((a, v) :: l) last stop := by
  obtain ⟨rfl, next, hmid, h2⟩ := hseg
  obtain ⟨rfl, rfl⟩ : p = back ∧ n = next := by simpa [hn] using hmid
  exact ⟨rfl, n, h.write_same _ _, h2.write (List.nodup_cons.mp hnd).1⟩

/-! ## Operations on whole lists -/

section Lists

variable {l₁ l₂ : List (Nat × α)} {a f : Nat} {v w : α} {n : Node α}

theorem not_mem_of_nodup_append (hnd : (addrs (l₁ ++ (a, v) :: l₂)).Nodup) :
    a ∉ addrs l₁ ∧ a ∉ addrs l₂ := by
  simp only [addrs, List.map_append, List.map_cons, List.nodup_append, List.nodup_cons] at hnd
  exact ⟨fun ha => hnd.2.2 a ha a List.mem_cons_self rfl, hnd.2.1.1⟩

/-- A new node behind the last one. -/
theorem Seg.append_node (hseg : Seg h back start (l ++ [(a, v)]) last none)
    (hnd : (addrs (l ++ [(a, v)])).Nodup) (hn : h a = some n)
    (hf : f ∉ addrs (l ++ [(a, v)])) :
    Seg ((h.write f ⟨some a, none, w⟩).write a { n with next := some f }) back start
      (l ++ [(a, v)] ++ [(f, w)]) (some f) none := by
  obtain ⟨mid, next, h1, hmid, -⟩ := hseg.split
  obtain rfl : n = ⟨mid, next, v⟩ := Option.some.inj (hn.symm.trans hmid)
  have hfa : f ≠ a := fun heq => hf (by simp [addrs, heq])
  have hnf : (h.write f ⟨some a, none, w⟩) a = some ⟨mid, next, v⟩ := by
    rw [h.write_of_ne _ hfa.symm, hmid]
  refine seg_append.mpr ⟨some a, some f, (hseg.write hf).setNext hnd hnf, rfl, none, ?_, rfl, rfl⟩
  rw [Heap.write_of_ne _ _ hfa, h.write_same]

/-- A new node before the first one. -/
theorem Seg.insert_first (hseg : Seg h none start ((a, v) :: l) last none)
    (hnd : (addrs ((a, v) :: l)).Nodup) (hn : h a = some n) (hf : f ∉ addrs ((a, v) :: l)) :
    Seg ((h.write f ⟨none, some a, w⟩).write a { n with prev := some f }) none (some f)
      ((f, w) :: (a, v) :: l) last none := by
  obtain ⟨rfl, next, hmid, -⟩ := id hseg
  obtain rfl : n = ⟨none, next, v⟩ := Option.some.inj (hn.symm.trans hmid)
  have hfa : f ≠ a := fun heq => hf (by simp [addrs, heq])
  have hnf : (h.write f ⟨none, some a, w⟩) a = some ⟨none, next, v⟩ := by
    rw [h.write_of_ne _ hfa.symm, hmid]
  refine ⟨rfl, some a, ?_, (hseg.write hf).setPrev hnd hnf⟩
  rw [Heap.write_of_ne _ _ hfa, h.write_same]

/-- A new node between two nodes. -/
theorem Seg.insert_between {p : Nat} {u : α} {m : Node α}
    (hseg : Seg h back start (l₁ ++ [(p, u)] ++ (a, v) :: l₂) last none)
    (hnd : (addrs (l₁ ++ [(p, u)] ++ (a, v) :: l₂)).Nodup) (hn : h a = some n)
    (hm : h p = some m) (hf : f ∉ addrs (l₁ ++ [(p, u)] ++ (a, v) :: l₂)) :
    Seg (((h.write f ⟨some p, some a, w⟩).write a { n with prev := some f }).write p
        { m with next := some f }) back start
      (l₁ ++ [(p, u)] ++ (f, w) :: (a, v) :: l₂) last none := by
  obtain ⟨mid, next, h1, h2⟩ := seg_append.mp hseg
  obtain ⟨hfl, hfr⟩ : f ∉ addrs (l₁ ++ [(p, u)]) ∧ f ∉ addrs ((a, v) :: l₂) := by
    rw [addrs, List.map_append, List.mem_append, not_or] at hf
    exact hf
  have hap : a ∉ addrs (l₁ ++ [(p, u)]) := (not_mem_of_nodup_append hnd).1
  have hnd' : (addrs (l₁ ++ [(p, u)])).Nodup ∧ (addrs ((a, v) :: l₂)).Nodup ∧
      p ∉ addrs ((a, v) :: l₂) := by
    simp only [addrs, List.map_append, List.nodup_append] at hnd
    refine ⟨by simpa [addrs, List.nodup_append] using hnd.1, hnd.2.1, fun hp => ?_⟩
    exact hnd.2.2 p (by simp) p hp rfl
  have hfa : f ≠ a := fun heq => hfr (by simp [addrs, heq])
  have hfp : f ≠ p := fun heq => hfl (by simp [addrs, heq])
  have hpa : p ≠ a := fun heq => hap (by simp [addrs, heq])
  obtain ⟨-, next', hna, -⟩ := id h2
  obtain ⟨p', q', hmp⟩ := h1.mem (a := p) (v := u) (by simp)
  obtain rfl : n = ⟨mid, next', v⟩ := Option.some.inj (hn.symm.trans hna)
  obtain rfl : m = ⟨p', q', u⟩ := Option.some.inj (hm.symm.trans hmp)
  have hleft := ((h1.write (n := ⟨some p, some a, w⟩) hfl).write
    (n := ⟨some f, next', v⟩) hap).setNext (y := some f) hnd'.1
    (by rw [Heap.write_of_ne _ _ hpa, h.write_of_ne _ hfp.symm, hmp])
  have hright := ((h2.write (n := ⟨some p, some a, w⟩) hfr).setPrev (y := some f) hnd'.2.1
    (by rw [h.write_of_ne _ hfa.symm, hna])).write (n := ⟨p', some f, u⟩) hnd'.2.2
  obtain rfl : next = some a := h2.1
  refine Seg.join hleft ?_ hright
  rw [Heap.write_of_ne _ _ hfp, Heap.write_of_ne _ _ hfa, h.write_same]

/-- Unlink the first of several nodes. -/
theorem Seg.unlink_first {q : Nat} {u : α} (hseg : Seg h none start ((a, v) :: (q, u) :: l) last none)
    (hnd : (addrs ((a, v) :: (q, u) :: l)).Nodup) (hn : h a = some n) :
    n.prev = none ∧ n.next = some q ∧ ∃ m, h q = some m ∧
      Seg ((h.write q { m with prev := none }).free a) none (some q) ((q, u) :: l) last none := by
  obtain ⟨rfl, next, hmid, htail⟩ := hseg
  obtain rfl := Option.some.inj (hn.symm.trans hmid)
  obtain ⟨rfl, next', hq, -⟩ := id htail
  have hnd' := List.nodup_cons.mp hnd
  exact ⟨rfl, rfl, _, hq, (htail.setPrev hnd'.2 hq).free hnd'.1⟩

/-- Unlink the last of several nodes. -/
theorem Seg.unlink_last {p : Nat} {u : α}
    (hseg : Seg h back start (l ++ [(p, u)] ++ [(a, v)]) last none)
    (hnd : (addrs (l ++ [(p, u)] ++ [(a, v)])).Nodup) (hn : h a = some n) :
    n.prev = some p ∧ n.next = none ∧ ∃ m, h p = some m ∧
      Seg ((h.write p { m with next := none }).free a) back start (l ++ [(p, u)]) (some p)
        none := by
  obtain ⟨mid, next, h1, hmid, -, rfl⟩ := hseg.split
  obtain rfl := Option.some.inj (hn.symm.trans hmid)
  have hap := (not_mem_of_nodup_append hnd).1
  have hndl : (addrs (l ++ [(p, u)])).Nodup :=
    hnd.sublist ((List.sublist_append_left _ _).map _)
  obtain ⟨p', q', hmp⟩ := h1.mem (a := p) (v := u) (by simp)
  have hlast : mid = some p := by
    obtain ⟨heq, -⟩ | ⟨l', b, c, heq, rfl⟩ := h1.last_eq
    · simp at heq
    · obtain ⟨-, heq⟩ := List.append_inj' heq rfl
      simp at heq
      rw [heq.1]
  subst hlast
  exact ⟨rfl, rfl, _, hmp, (h1.setNext hndl hmp).free hap⟩

end Lists

end LinkedList

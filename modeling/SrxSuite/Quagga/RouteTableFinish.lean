import SrxSuite.Quagga.RouteTableRuns

/-!
# The end of a routing table

`route_table_finish` frees all nodes from the leaves up, whatever locks there are. It follows no pointer
of a node that is gone, frees every node once and comes to a count of 0 (`finish_frees`).
-/

namespace SrxSuite.Quagga.Radix

open ParentTree PrefixTree PrefixLemmas Runs RouteTable Users

variable {size : Nat} {ι : Type}

namespace RouteTable

/-- The loop of `route_table_free`. -/
def freeLoop (self : RouteTable size ι) : (turns : Nat) → (node : Option Nat) →
    Option (RouteTable size ι)
  | 0, _ => none
  | _ + 1, none => some self
  | turns + 1, some node => do
    let n ← self.nodes node
    if n.left.isSome then self.freeLoop turns n.left
    else if n.right.isSome then self.freeLoop turns n.right
    else
      let self := { self with nodes := self.nodes.free node, count := self.count - 1 }
      match n.parent with
      | none => some self
      | some parent => do
        let x ← self.nodes parent
        let self := { self with
          nodes := self.nodes.write parent (x.setLink (x.left != some node) none) }
        self.freeLoop turns (some parent)

/-- `route_table_finish`, with the assertion at the end of `route_table_free`. Every node is visited at
most once more than it has children. -/
def routeTableFinish (self : RouteTable size ι) : Option (RouteTable size ι) := do
  let self ← self.freeLoop (2 * self.fresh + 1) self.top
  if self.count = 0 then some self else none

variable {self : RouteTable size ι} {t l r : AddrTree (RouteNode size ι)}
  {ctx : List (Frame (RouteNode size ι))} {a : Nat} {v : RouteNode size ι}

/-- The nodes that are left. `top` of the table is not written any more. -/
structure Left (table : RouteTable size ι) (t : AddrTree (RouteNode size ι)) : Prop where
  rep : ∃ top, Represents table.nodes top t
  count : table.count = t.items.length

/-- A leaf is freed. -/
theorem freeLoop_leaf (turns : Nat) (ht : Left self (plug ctx (.node a v .nil .nil))) :
    ∃ self', self.freeLoop (turns + 2) (some a) = self'.freeLoop (turns + 1) (up ctx) ∧
      Left self' (plug ctx .nil) := by
  obtain ⟨⟨top, hrep⟩, hcount⟩ := ht
  have hapart := hrep.apart
  have hanot : a ∉ around ctx := fun ha =>
    (List.nodup_append.mp hapart).2.2 a (AddrTree.root_mem rfl) a ha rfl
  have hlen : self.count - 1 = (plug ctx .nil).items.length := by
    rw [hcount, (items_leaf ctx a v).length_eq, List.length_cons, Nat.add_sub_cancel]
  cases ctx with
  | nil =>
    refine ⟨{ self with nodes := self.nodes.free a, count := self.count - 1 }, ?_, ?_, hlen⟩
    · rw [freeLoop, hrep.read]
      rfl
    · show ∃ top, Represents (self.nodes.free a) top (plug [] .nil)
      refine ⟨_, hrep.splice (.inl ⟨rfl, rfl⟩) (Heap.free_same _ _) ?_ ?_ ?_⟩
      · intro b w l' r' h
        cases h
      · intro f ctx' h
        cases h
      · intro x hx _ _
        exact Heap.free_of_ne _ hx
  | cons f ctx =>
    have hne : f.addr ≠ a := by
      rintro rfl
      exact hanot (mem_around_of_up rfl)
    have hup : self.nodes.free a f.addr = some (f.node (up ctx) (some a)) :=
      (Heap.free_of_ne _ hne).trans hrep.read_up
    have hside : ((f.node (up ctx) (some a)).left != some a) = f.side := by
      unfold Frame.node
      cases f.side with
      | false => exact bne_self_eq_false _
      | true =>
        refine bne_iff_ne.mpr fun h => hanot ?_
        rw [around_cons]
        exact List.mem_cons_of_mem _ (List.mem_append_left _ (AddrTree.root_mem h))
    refine ⟨{ self with
      nodes := (self.nodes.free a).write f.addr (f.node (up ctx) none)
      count := self.count - 1 }, ?_, ?_, hlen⟩
    · rw [freeLoop, hrep.read]
      dsimp only [Option.bind_eq_bind, Option.bind_some, up_cons]
      rw [hup]
      dsimp only [Option.bind_some]
      rw [hside, f.setLink_node]
      rfl
    · show ∃ top, Represents ((self.nodes.free a).write f.addr (f.node (up ctx) none)) top
        (plug (f :: ctx) .nil)
      refine ⟨_, hrep.splice (.inl ⟨rfl, rfl⟩) ?_ ?_ ?_ ?_⟩
      · rw [Heap.write_of_ne _ _ hne.symm]
        exact Heap.free_same _ _
      · intro b w l' r' h
        cases h
      · intro g ctx' heq
        obtain ⟨rfl, rfl⟩ := List.cons.inj heq
        exact Heap.write_same _ _ _
      · intro x hxa _ hxup
        have hxf : x ≠ f.addr := fun h => hxup (congrArg some h)
        rw [Heap.write_of_ne _ _ hxf, Heap.free_of_ne _ hxa]

theorem node_ne_nil : AddrTree.node a v l r ≠ .nil := by
  intro h
  cases h

/-- A subtree is freed, and the loop goes on above. -/
theorem freeLoop_spec (self : RouteTable size ι) (ctx : List (Frame (RouteNode size ι))) (turns : Nat)
    (ht : Left self (plug ctx t)) (hne : t ≠ .nil) :
    ∃ self', self.freeLoop (turns + 2 * t.addrs.length) t.root =
        self'.freeLoop (turns + 1) (up ctx) ∧ Left self' (plug ctx .nil) := by
  induction t generalizing self ctx turns with
  | nil => exact absurd rfl hne
  | node a v l r ihl ihr =>
    -- the left subtree, if there is one, and then the right one
    have hleft (turns : Nat) : ∃ self₁, self.freeLoop (turns + 1 + 2 * l.addrs.length) (some a) =
        self₁.freeLoop (turns + 1) (some a) ∧ Left self₁ (plug ctx (.node a v .nil r)) := by
      cases l with
      | nil => exact ⟨self, rfl, ht⟩
      | node b w l' r' =>
        obtain ⟨top, hrep⟩ := ht.rep
        obtain ⟨self₁, hloop, hleft⟩ := ihl self
          (AddrTree.frame a v (.node b w l' r') r false :: ctx) turns ht node_ne_nil
        refine ⟨self₁, ?_, hleft⟩
        rw [show turns + 1 + 2 * (AddrTree.node b w l' r').addrs.length =
          turns + 2 * (AddrTree.node b w l' r').addrs.length + 1 by omega, freeLoop, hrep.read]
        exact hloop
    have hright {self₁ : RouteTable size ι} (ht₁ : Left self₁ (plug ctx (.node a v .nil r)))
        (turns : Nat) : ∃ self₂, self₁.freeLoop (turns + 1 + 2 * r.addrs.length) (some a) =
          self₂.freeLoop (turns + 1) (some a) ∧ Left self₂ (plug ctx (.node a v .nil .nil)) := by
      cases r with
      | nil => exact ⟨self₁, rfl, ht₁⟩
      | node b w l' r' =>
        obtain ⟨top, hrep⟩ := ht₁.rep
        obtain ⟨self₂, hloop, hleft⟩ := ihr self₁
          (AddrTree.frame a v .nil (.node b w l' r') true :: ctx) turns ht₁ node_ne_nil
        refine ⟨self₂, ?_, hleft⟩
        rw [show turns + 1 + 2 * (AddrTree.node b w l' r').addrs.length =
          turns + 2 * (AddrTree.node b w l' r').addrs.length + 1 by omega, freeLoop, hrep.read]
        exact hloop
    obtain ⟨self₁, hloop₁, ht₁⟩ := hleft (turns + 1 + 2 * r.addrs.length)
    obtain ⟨self₂, hloop₂, ht₂⟩ := hright ht₁ (turns + 1)
    obtain ⟨self₃, hloop₃, ht₃⟩ := freeLoop_leaf turns ht₂
    refine ⟨self₃, ?_, ht₃⟩
    calc self.freeLoop (turns + 2 * (AddrTree.node a v l r).addrs.length) (some a)
        = self.freeLoop (turns + 1 + 2 * r.addrs.length + 1 + 2 * l.addrs.length) (some a) := by
          rw [AddrTree.addrs_node, List.length_cons, List.length_append]
          congr 1
          omega
      _ = self₁.freeLoop (turns + 1 + 2 * r.addrs.length + 1) (some a) := hloop₁
      _ = self₁.freeLoop (turns + 1 + 1 + 2 * r.addrs.length) (some a) := by
          congr 1
          omega
      _ = self₂.freeLoop (turns + 1 + 1) (some a) := hloop₂
      _ = self₃.freeLoop (turns + 1) (up ctx) := hloop₃

theorem routeTableFinish_spec (hk : Kept self t) :
    ∃ self', self.routeTableFinish = some self' ∧ ∀ a, self'.nodes a = none := by
  have hlen := hk.built.length_le
  obtain ⟨self', hloop, ⟨top, hrep⟩, hcount⟩ : ∃ self',
      self.freeLoop (2 * self.fresh + 1) self.top = some self' ∧ Left self' .nil := by
    rw [hk.built.rep.top_eq]
    by_cases hne : t = .nil
    · subst hne
      exact ⟨self, rfl, ⟨_, hk.built.rep⟩, hk.count⟩
    · obtain ⟨self', hloop, hleft⟩ := freeLoop_spec self []
        (2 * self.fresh + 1 - 2 * t.addrs.length) ⟨⟨_, hk.built.rep⟩, hk.count⟩ hne
      rw [show 2 * self.fresh + 1 - 2 * t.addrs.length + 2 * t.addrs.length = 2 * self.fresh + 1 by
        omega] at hloop
      exact ⟨self', hloop, hleft⟩
  refine ⟨self', ?_, fun a => ?_⟩
  · unfold routeTableFinish
    rw [hloop]
    exact if_pos hcount
  · by_contra ha
    exact absurd (hrep.only a ha) List.not_mem_nil

end RouteTable

/-- A table can be given up at any time: nothing is left of it. -/
theorem finish_frees (calls : List (TableCall size ι))
    (hfew : Always Users.step Users.Few Users.initial calls)
    (h : EachStep Users.step Users.Releases Users.initial calls) :
    ∃ table table', (calls.foldl Users.step Users.initial).table = some table ∧
      table.routeTableFinish = some table' ∧ ∀ a, table'.nodes a = none := by
  obtain ⟨table, t, htable, hk, -⟩ := inv_run hfew h
  obtain ⟨table', hfinish, hnone⟩ := routeTableFinish_spec hk
  exact ⟨table, table', htable, hfinish, hnone⟩

theorem finish_frees_two : ∃ table table', (twoCalls.foldl Users.step Users.initial).table = some table ∧
    table.routeTableFinish = some table' ∧ ∀ a, table'.nodes a = none :=
  finish_frees twoCalls (by decide +kernel) (by decide +kernel)

end SrxSuite.Quagga.Radix

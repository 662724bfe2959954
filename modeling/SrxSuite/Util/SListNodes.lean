import SrxSuite.Util.SLists

/-!
# The nodes of the lists

What the operations of `util/slist.c` do to the nodes of a list: each changes the memory only at the nodes
of its list and at new ones (`Changed`).
-/

namespace SrxSuite.Util

open SListLemmas

/-- A change of the memory that makes the nodes `xs` to the nodes `xs'`. -/
structure Changed (m m' : SListMem Datum) (xs xs' : List (Nat × Datum)) : Prop where
  fresh : m.fresh ≤ m'.fresh
  same : ∀ a < m.fresh, a ∉ addrs xs → m'.cells a = m.cells a
  sub : ∀ a ∈ addrs xs', a ∈ addrs xs ∨ m.fresh ≤ a

section Frame

variable {m m' : SListMem Datum} {l : SList} {xs xs' ys : List (Nat × Datum)}

theorem addrs_append : addrs (xs ++ ys) = addrs xs ++ addrs ys := List.map_append

theorem Changed.refl (m : SListMem Datum) (xs : List (Nat × Datum)) : Changed m m xs xs where
  fresh := Nat.le_refl _
  same _ _ _ := rfl
  sub _ ha := .inl ha

/-- Nodes that a change leaves alone. -/
theorem Nodes.frame (h : Nodes m l ys) (hdisj : (addrs xs).Disjoint (addrs ys)) (hc : Changed m m' xs xs') :
    Nodes m' l ys where
  chain := chain_congr h.chain fun a ha => hc.same a (h.bound a ha) fun hmem => hdisj hmem ha
  last := h.last
  size := h.size
  nodup := h.nodup
  bound a ha := Nat.lt_of_lt_of_le (h.bound a ha) hc.fresh

theorem Changed.disjoint (hc : Changed m m' xs xs') (h : Nodes m l ys)
    (hdisj : (addrs xs).Disjoint (addrs ys)) : (addrs xs').Disjoint (addrs ys) := by
  intro a ha hmem
  rcases hc.sub a ha with hold | hnew
  · exact hdisj hold hmem
  · exact Nat.not_lt.mpr hnew (h.bound a hmem)

end Frame

/-! ## Inserting -/

section Insert

variable {m m' : SListMem Datum} {l l' : SList} {xs xs₁ xs₂ : List (Nat × Datum)} {a : Nat} {d : Datum}

theorem nodeAt_chain {start stop : Option Nat} (h : Chain m.cells start (xs₁ ++ (a, d) :: xs₂) stop) :
    SLists.nodeAt m xs₁.length start = some a := by
  induction xs₁ generalizing start with
  | nil => exact h.1
  | cons x xs₁ ih =>
    obtain ⟨rfl, next, hcell, hrest⟩ := h
    rw [List.length_cons, SLists.nodeAt]
    dsimp only [Option.bind_eq_bind, Option.bind_some]
    rw [hcell]
    exact ih hrest

/-- The nodes with a new one among them. -/
theorem Nodes.insert (h : Nodes m l (xs₁ ++ xs₂)) (hfresh : m'.fresh = m.fresh + 1)
    (hchain : Chain m'.cells l'.root (xs₁ ++ (m.fresh, d) :: xs₂) none)
    (hlast : l'.last = lastPtr (xs₁ ++ (m.fresh, d) :: xs₂)) (hsize : l'.size = l.size + 1) :
    Nodes m' l' (xs₁ ++ (m.fresh, d) :: xs₂) := by
  have hperm : (addrs (xs₁ ++ (m.fresh, d) :: xs₂)).Perm (m.fresh :: addrs (xs₁ ++ xs₂)) :=
    (List.perm_middle (a := (m.fresh, d))).map Prod.fst
  refine ⟨hchain, fun _ => hlast, ?_, ?_, ?_⟩
  · rw [hsize, h.size]
    simp only [List.length_append, List.length_cons]
    omega
  · rw [hperm.nodup_iff]
    exact List.nodup_cons.mpr ⟨fun hmem => Nat.lt_irrefl _ (h.bound _ hmem), h.nodup⟩
  · intro b hb
    rw [hfresh]
    rcases List.mem_cons.mp (hperm.mem_iff.mp hb) with rfl | hold
    · exact Nat.lt_succ_self _
    · exact Nat.lt_succ_of_lt (h.bound b hold)

theorem Changed.insert (hfresh : m'.fresh = m.fresh + 1)
    (hsame : ∀ b ≠ m.fresh, b ∉ addrs (xs₁ ++ xs₂) → m'.cells b = m.cells b) :
    Changed m m' (xs₁ ++ xs₂) (xs₁ ++ (m.fresh, d) :: xs₂) where
  fresh := by
    rw [hfresh]
    exact Nat.le_succ _
  same b hb hnot := hsame b (Nat.ne_of_lt hb) hnot
  sub b hb := by
    have hperm : (addrs (xs₁ ++ (m.fresh, d) :: xs₂)).Perm (m.fresh :: addrs (xs₁ ++ xs₂)) :=
      (List.perm_middle (a := (m.fresh, d))).map Prod.fst
    rcases List.mem_cons.mp (hperm.mem_iff.mp hb) with rfl | hold
    · exact .inr (Nat.le_refl _)
    · exact .inl hold

/-- What `linkAt` does: the new node is between `xs₁` and `xs₂`. -/
structure Linked (m m' : SListMem Datum) (l l' : SList) (xs₁ xs₂ : List (Nat × Datum)) (d : Datum) : Prop where
  size : l'.size = l.size
  nodes : Nodes m' { l' with size := l.size + 1 } (xs₁ ++ (m.fresh, d) :: xs₂)
  changed : Changed m m' (xs₁ ++ xs₂) (xs₁ ++ (m.fresh, d) :: xs₂)

theorem Nodes.fresh_notMem (h : Nodes m l xs) : m.fresh ∉ addrs xs := fun hmem =>
  Nat.lt_irrefl _ (h.bound _ hmem)

/-- The new node is the first. -/
theorem Nodes.linkAt_root (h : Nodes m l xs) (d : Datum) :
    ∃ m' l', SLists.linkAt m l 0 d = some (m', l') ∧ Linked m m' l l' [] xs d := by
  have hroot : l.root = headPtr xs := chain_start h.chain
  have hlast : (if l.root.isNone then some m.fresh else l.last) = lastPtr ((m.fresh, d) :: xs) := by
    rw [hroot]
    cases xs with
    | nil => rfl
    | cons x xs =>
      rw [h.last (List.cons_ne_nil x xs)]
      rfl
  let m' := ({ m with fresh := m.fresh + 1 } : SListMem Datum).write m.fresh ⟨d, l.root⟩
  refine ⟨m', ⟨some m.fresh, if l.root.isNone then some m.fresh else l.last, l.size⟩, rfl, rfl, ?_, ?_⟩
  · exact Nodes.insert h rfl
      ⟨rfl, l.root, Function.update_self .., chain_update h.chain h.fresh_notMem _⟩ hlast rfl
  · exact Changed.insert rfl fun b hb _ => Function.update_of_ne hb ..

/-- The new node is behind the last. -/
theorem Nodes.linkAt_last {p : Nat} {w : Datum} (h : Nodes m l (xs ++ [(p, w)])) (d : Datum) :
    ∃ m' l', SLists.linkAt m l (xs ++ [(p, w)]).length d = some (m', l') ∧
      Linked m m' l l' (xs ++ [(p, w)]) [] d := by
  have hindex : ((xs ++ [(p, w)]).length : Int) ≠ 0 := by
    rw [List.length_append, List.length_singleton]
    omega
  have hlast : l.last = some p := by
    rw [h.last (by simp), lastPtr_concat]
  have h' : Nodes m l (xs ++ [(p, w)] ++ []) := by
    rwa [List.append_nil]
  obtain ⟨m₁, hset, hfresh, hchain, hsame⟩ := setBehind_chain
    (m := { m with fresh := m.fresh + 1 }) h.chain h.nodup (some m.fresh)
  rw [lastPtr_concat] at hset hchain
  refine ⟨m₁.write m.fresh ⟨d, none⟩, { l with last := some m.fresh }, ?_, rfl,
    h'.insert hfresh ?_ (lastPtr_concat (m.fresh, d)).symm rfl, Changed.insert hfresh fun b hb hnot => ?_⟩
  · unfold SLists.linkAt
    rw [if_neg hindex, if_pos h.size.symm, hlast]
    dsimp only [Option.bind_eq_bind, Option.bind_some]
    rw [show SListMem.setNext _ p (some m.fresh) = some m₁ from hset]
    rfl
  · exact chain_concat.mpr ⟨chain_update hchain h.fresh_notMem _, Function.update_self ..⟩
  · rw [List.append_nil] at hnot
    exact (Function.update_of_ne hb ..).trans (hsame b hnot)

/-- The new node is behind a node that is not the last. -/
theorem Nodes.linkAt_behind {p : Nat} {w : Datum} (h : Nodes m l (xs₁ ++ [(p, w)] ++ xs₂)) (hne : xs₂ ≠ [])
    (d : Datum) :
    ∃ m' l', SLists.linkAt m l (xs₁ ++ [(p, w)]).length d = some (m', l') ∧
      Linked m m' l l' (xs₁ ++ [(p, w)]) xs₂ d := by
  have hindex : ((xs₁ ++ [(p, w)]).length : Int) ≠ 0 := by
    rw [List.length_append, List.length_singleton]
    omega
  have hsize : ((xs₁ ++ [(p, w)]).length : Int) ≠ l.size := by
    have hpos := List.length_pos_iff.mpr hne
    rw [h.size]
    simp only [List.length_append]
    omega
  have hprev : (((xs₁ ++ [(p, w)]).length : Int) - 1).toNat = xs₁.length := by
    rw [List.length_append, List.length_singleton]
    omega
  obtain ⟨mid, h1, h2⟩ := chain_append.mp h.chain
  obtain rfl := chain_start h2
  have hnode : SLists.nodeAt { m with fresh := m.fresh + 1 } xs₁.length l.root = some p :=
    nodeAt_chain h1
  have hnew := h.fresh_notMem
  have hnodup := h.nodup
  rw [addrs_append] at hnew hnodup
  rw [List.mem_append, not_or] at hnew
  obtain ⟨m₁, hset, hfresh, hchain, hsame⟩ := setBehind_chain
    (m := ({ m with fresh := m.fresh + 1 } : SListMem Datum).write m.fresh ⟨d, headPtr xs₂⟩)
    (chain_update h1 hnew.1 _) (List.nodup_append.mp hnodup).1 (some m.fresh)
  rw [lastPtr_concat] at hset hchain
  have hcell : m₁.cells m.fresh = some ⟨d, headPtr xs₂⟩ :=
    (hsame m.fresh hnew.1).trans (Function.update_self ..)
  have hold : ∀ b ≠ m.fresh, b ∉ addrs (xs₁ ++ [(p, w)]) → m₁.cells b = m.cells b := fun b hb hnot =>
    (hsame b hnot).trans (Function.update_of_ne hb ..)
  refine ⟨m₁, l, ?_, rfl, h.insert hfresh ?_ ?_ rfl, Changed.insert hfresh fun b hb hnot => ?_⟩
  · unfold SLists.linkAt
    rw [if_neg hindex, if_neg hsize, hprev]
    dsimp only
    rw [hnode]
    dsimp only [Option.bind_eq_bind, Option.bind_some]
    rw [(chain_concat.mp h1).2]
    dsimp only [Option.bind_some]
    rw [show SListMem.setNext _ p (some m.fresh) = some m₁ from hset]
    rfl
  · refine chain_append.mpr ⟨some m.fresh, hchain, rfl, _, hcell, chain_congr h2 fun b hb => ?_⟩
    refine hold b (fun heq => hnew.2 (heq ▸ hb)) fun hmem => ?_
    exact (List.nodup_append.mp hnodup).2.2 b hmem b hb rfl
  · rw [h.last (by simp)]
    cases xs₂ with
    | nil => exact absurd rfl hne
    | cons x xs₂ => simp only [lastPtr, List.getLast?_append, List.getLast?_cons_cons]
  · refine hold b hb fun hmem => hnot ?_
    rw [addrs_append]
    exact List.mem_append_left _ hmem

/-- The new node is in front of the nodes from the index on. -/
theorem Nodes.linkAt (h : Nodes m l (xs₁ ++ xs₂)) (d : Datum) :
    ∃ m' l', SLists.linkAt m l xs₁.length d = some (m', l') ∧ Linked m m' l l' xs₁ xs₂ d := by
  rcases List.eq_nil_or_concat xs₁ with rfl | ⟨init, ⟨p, w⟩, rfl⟩
  · exact h.linkAt_root d
  · rw [List.concat_eq_append] at h ⊢
    cases xs₂ with
    | nil =>
      rw [List.append_nil] at h
      exact h.linkAt_last d
    | cons x xs₂ => exact h.linkAt_behind (List.cons_ne_nil x xs₂) d

variable {mem : ListMemory} {index : Int} {dataSize data memory : Nat}

theorem insertIntoSList_null (h : index > l.size ∨ memory < 1 + blocksOf dataSize) :
    SLists.insertIntoSList mem l index dataSize memory = some (mem, l, .null) := by
  unfold SLists.insertIntoSList
  rcases Decidable.em (index > l.size) with hindex | hindex
  · rw [if_pos hindex]
  · rw [if_neg hindex, if_pos (h.resolve_left hindex)]

/-- `insertIntoSList` of an index within the bounds. -/
theorem Nodes.insertInto (h : Nodes mem.nodes l (xs₁ ++ xs₂)) (hmemory : 1 + blocksOf dataSize ≤ memory)
    (hsize : (xs₁ ++ xs₂).length + 1 < 2 ^ 31) {blocks : Blocks}
    (hnew : mem.blocks.newData dataSize = (blocks, d)) :
    ∃ m' l', SLists.insertIntoSList mem l xs₁.length dataSize memory = some (⟨m', blocks⟩, l',
        if d.allocSize > 0 then .data d.data else .node mem.nodes.fresh) ∧
      Nodes m' l' (xs₁ ++ (mem.nodes.fresh, d) :: xs₂) ∧
      Changed mem.nodes m' (xs₁ ++ xs₂) (xs₁ ++ (mem.nodes.fresh, d) :: xs₂) := by
  obtain ⟨m', l', hlink, hlinked⟩ := h.linkAt d
  have hindex : ¬ (xs₁.length : Int) > l.size := by
    rw [h.size, List.length_append]
    omega
  have hinc : incSize l'.size = some (l.size + 1) := by
    unfold incSize
    rw [hlinked.size, h.size, if_pos (by exact_mod_cast hsize)]
  refine ⟨m', { l' with size := l.size + 1 }, ?_, hlinked.nodes, hlinked.changed⟩
  unfold SLists.insertIntoSList
  rw [if_neg hindex, if_neg (Nat.not_lt.mpr hmemory), hnew]
  dsimp only
  rw [hlink]
  dsimp only [Option.bind_eq_bind, Option.bind_some]
  rw [hinc]
  rfl

/-- The data of a node is set. -/
theorem Nodes.setData (h : Nodes m l (xs₁ ++ (a, d) :: xs₂)) (d' : Datum) :
    Nodes (m.write a ⟨d', headPtr xs₂⟩) l (xs₁ ++ (a, d') :: xs₂) := by
  have hset := h.twoLists.setData d'
  have hlast : l.last = lastPtr (xs₁ ++ (a, d) :: xs₂) := h.last (by simp)
  exact ⟨hset.left.chain, fun _ => hlast.trans hset.left.last, hset.left.size, hset.nodes.nodup,
    hset.nodes.bound⟩

/-- `insertDataIntoSList` of an index within the bounds. -/
theorem Nodes.insertDataInto (h : Nodes mem.nodes l (xs₁ ++ xs₂)) (hmemory : 1 ≤ memory)
    (hsize : (xs₁ ++ xs₂).length + 1 < 2 ^ 31) (data : Nat) :
    ∃ m' l', SLists.insertDataIntoSList mem l xs₁.length data memory = some (⟨m', mem.blocks⟩, l', true) ∧
      Nodes m' l' (xs₁ ++ (mem.nodes.fresh, ⟨data, 0⟩) :: xs₂) ∧
      Changed mem.nodes m' (xs₁ ++ xs₂) (xs₁ ++ (mem.nodes.fresh, ⟨data, 0⟩) :: xs₂) := by
  obtain ⟨m', l', hinsert, hnodes, hc⟩ := h.insertInto (show 1 + blocksOf 0 ≤ memory from hmemory) hsize rfl
  have hcell : m'.cells mem.nodes.fresh = some ⟨⟨0, 0⟩, headPtr xs₂⟩ := hnodes.twoLists.cell
  refine ⟨m'.write mem.nodes.fresh ⟨⟨data, 0⟩, headPtr xs₂⟩, l', ?_, hnodes.setData ⟨data, 0⟩, hc.fresh, ?_, ?_⟩
  · unfold SLists.insertDataIntoSList
    rw [hinsert]
    dsimp only [Option.bind_eq_bind, Option.bind_some]
    rw [if_neg (Nat.lt_irrefl 0)]
    dsimp only
    unfold SLists.setData
    rw [hcell]
    rfl
  · intro b hb hnot
    exact (Function.update_of_ne (Nat.ne_of_lt hb) ..).trans (hc.same b hb hnot)
  · intro b hb
    refine hc.sub b ?_
    simpa [addrs] using hb

end Insert

/-! ## Deleting -/

/-- The memory with the data pointers alone. -/
def pointers (m : SListMem Datum) : SListMem Nat :=
  ⟨fun a => (m.cells a).map fun n => ⟨n.data.data, n.next⟩, m.fresh⟩

section Delete

variable {m m' : SListMem Datum} {l : SList} {xs xs₁ xs₂ : List (Nat × Datum)} {a data : Nat} {d : Datum}

theorem pointers_cells (m : SListMem Datum) (a : Nat) :
    (pointers m).cells a = (m.cells a).map fun n => ⟨n.data.data, n.next⟩ := rfl

theorem chain_pointers {start stop : Option Nat} (h : Chain m.cells start xs stop) :
    Chain (pointers m).cells start (xs.map (Prod.map id Datum.data)) stop := by
  induction xs generalizing start with
  | nil => exact h
  | cons x xs ih =>
    obtain ⟨rfl, next, hcell, hrest⟩ := h
    refine ⟨rfl, next, ?_, ih hrest⟩
    rw [pointers_cells, id, hcell]
    rfl

theorem findData_eq (m : SListMem Datum) (data fuel : Nat) (prevNode currNode : Option Nat) :
    SLists.findData m data fuel prevNode currNode = findNode (pointers m) data fuel prevNode currNode := by
  induction fuel generalizing prevNode currNode with
  | zero => cases currNode <;> rfl
  | succ fuel ih =>
    cases currNode with
    | none => rfl
    | some b =>
      rw [SLists.findData, findNode, pointers_cells]
      cases m.cells b with
      | none => rfl
      | some n =>
        dsimp only [Option.map_some]
        rw [ih]

theorem lastPtr_map {α β : Type} (f : α → β) (xs : List (Nat × α)) :
    lastPtr (xs.map (Prod.map id f)) = lastPtr xs := by
  unfold lastPtr
  rw [List.getLast?_map]
  cases xs.getLast? <;> rfl

theorem Changed.erase (hfresh : m'.fresh = m.fresh) (hsame : ∀ b ∉ addrs xs₁, m'.cells b = m.cells b) :
    Changed m (m'.free a) (xs₁ ++ (a, d) :: xs₂) (xs₁ ++ xs₂) where
  fresh := Nat.le_of_eq hfresh.symm
  same b _ hnot := by
    rw [addrs_append, List.mem_append, not_or] at hnot
    exact (Function.update_of_ne (fun heq => hnot.2 (List.mem_cons.mpr (.inl heq))) ..).trans (hsame b hnot.1)
  sub b hb := by
    rw [addrs_append, List.mem_append] at hb ⊢
    exact .inl (hb.imp_right (List.mem_cons_of_mem _))

/-- `deleteFromSList` takes out the first node with the pointer. -/
theorem Nodes.deleteData (h : Nodes m l (xs₁ ++ (a, d) :: xs₂)) (hxs : ∀ x ∈ xs₁, x.2.data ≠ d.data) :
    ∃ m' l', SLists.deleteFromSList m l d.data = some (m', l', true) ∧ Nodes m' l' (xs₁ ++ xs₂) ∧
      Changed m m' (xs₁ ++ (a, d) :: xs₂) (xs₁ ++ xs₂) := by
  obtain ⟨m', hbehind, hfresh, hsame, hnodes⟩ := h.unlink
  have hcell : m.cells a = some ⟨d, headPtr xs₂⟩ := h.twoLists.cell
  have hpos : l.size > 0 := by
    rw [h.size, List.length_append, List.length_cons]
    omega
  have hfind : SLists.findData m d.data m.fresh none l.root = some (some (lastPtr xs₁, a)) := by
    have hle := h.length_le
    have hchain := chain_pointers h.chain
    rw [List.map_append, List.map_cons] at hchain
    rw [List.length_append, List.length_cons] at hle
    rw [findData_eq, findNode_chain hchain ?_ ?_, lastPtr_map]
    · cases xs₁ with
      | nil => rfl
      | cons x xs₁ => rfl
    · intro x hx
      obtain ⟨y, hy, rfl⟩ := List.mem_map.mp hx
      exact hxs y hy
    · rw [List.length_map]
      omega
  refine ⟨m'.free a, _, ?_, hnodes, Changed.erase hfresh hsame⟩
  unfold SLists.deleteFromSList
  rw [if_pos hpos, hfind]
  dsimp only [Option.bind_eq_bind, Option.bind_some]
  rw [hcell]
  dsimp only [Option.bind_some]
  rw [hbehind]
  rfl

theorem Nodes.deleteData_absent (h : Nodes m l xs) (hxs : ∀ x ∈ xs, x.2.data ≠ data) :
    SLists.deleteFromSList m l data = some (m, l, false) := by
  unfold SLists.deleteFromSList
  split
  · rw [findData_eq, findNode_absent (chain_pointers h.chain)]
    · rfl
    · intro x hx
      obtain ⟨y, hy, rfl⟩ := List.mem_map.mp hx
      exact hxs y hy
    · rw [List.length_map]
      exact h.length_le
  · rfl

/-- `shiftFromSList` of a list that is not empty. -/
theorem Nodes.shift (h : Nodes m l ((a, d) :: xs)) :
    ∃ m' l', SLists.shiftFromSList m l = some (m', l', d.data) ∧ Nodes m' l' xs ∧
      Changed m m' ((a, d) :: xs) xs := by
  have h' : Nodes m l ([] ++ (a, d) :: xs) := h
  obtain ⟨m', hbehind, hfresh, hsame, hnodes⟩ := h'.unlink
  obtain rfl : m = m' := Option.some.inj hbehind
  have hcell : m.cells a = some ⟨d, headPtr xs⟩ := h'.twoLists.cell
  have hsize : l.size ≠ 0 := by
    rw [h.size, List.length_cons]
    omega
  have hc : Changed m (m.free a) ([] ++ (a, d) :: xs) ([] ++ xs) := Changed.erase hfresh hsame
  refine ⟨m.free a, _, ?_, hnodes, hc⟩
  unfold SLists.shiftFromSList
  rw [if_neg hsize, h.chain.1]
  dsimp only [Option.bind_eq_bind, Option.bind_some]
  rw [hcell]
  rfl

end Delete

/-! ## Copying -/

/-- The nodes `news` are new ones behind the node `p`, the only old one that is changed. -/
structure CopiesBehind (m m' : SListMem Datum) (p : Nat) (w : Datum) (news : List (Nat × Datum)) : Prop where
  chain : ∃ stop, Chain m'.cells (some p) ((p, w) :: news) stop
  fresh : m.fresh ≤ m'.fresh
  same : ∀ a < m.fresh, a ≠ p → m'.cells a = m.cells a
  new : ∀ a ∈ addrs news, m.fresh ≤ a ∧ a < m'.fresh
  nodup : (addrs news).Nodup

section Copy

variable {mem : ListMemory} {rest : List (Nat × Datum)} {p : Nat} {w : Datum} {blocks : Blocks}
  {copies : List Datum}

theorem CopiesBehind.nil {m : SListMem Datum} {stop : Option Nat} (hp : m.cells p = some ⟨w, stop⟩) :
    CopiesBehind m m p w [] where
  chain := ⟨stop, rfl, stop, hp, rfl⟩
  fresh := Nat.le_refl _
  same _ _ _ := rfl
  new _ ha := nomatch ha
  nodup := List.nodup_nil

/-- The copies behind a new node, which is the next one. -/
theorem CopiesBehind.cons {m m₁ m' : SListMem Datum} {copy : Datum} {news : List (Nat × Datum)}
    (hp : p < m.fresh) (hm₁ : m₁.fresh = m.fresh + 1)
    (hcell : m₁.cells p = some ⟨w, some m.fresh⟩)
    (hsame : ∀ a < m.fresh, a ≠ p → m₁.cells a = m.cells a)
    (h : CopiesBehind m₁ m' m.fresh copy news) : CopiesBehind m m' p w ((m.fresh, copy) :: news) where
  chain := by
    obtain ⟨stop, hchain⟩ := h.chain
    refine ⟨stop, rfl, some m.fresh, ?_, hchain⟩
    rw [h.same p (by omega) (Nat.ne_of_lt hp), hcell]
  fresh := by
    have hle := h.fresh
    omega
  same a ha hne := by
    rw [h.same a (by omega) (Nat.ne_of_lt ha), hsame a ha hne]
  new a ha := by
    have hle := h.fresh
    rcases List.mem_cons.mp ha with rfl | hmem
    · exact ⟨Nat.le_refl _, by omega⟩
    · have hnew := h.new a hmem
      exact ⟨by omega, hnew.2⟩
  nodup := by
    refine List.nodup_cons.mpr ⟨fun hmem => ?_, h.nodup⟩
    have hnew := h.new _ hmem
    omega

theorem copyNodeData_of_le {data : Datum} {memory : Nat} {copy : Datum}
    (hfits : blocksOf data.allocSize ≤ memory) (hcopy : mem.blocks.copyData data = (blocks, copy)) :
    SLists.copyNodeData mem data memory = some ({ mem with blocks := blocks }, copy) := by
  unfold SLists.copyNodeData
  rw [if_neg (Nat.not_lt.mpr hfits), hcopy]

theorem copyWithin_cons {data : Datum} {list : List Datum} {memory : Nat} {blocks' : Blocks}
    (hfits : blocksOf data.allocSize ≤ memory)
    (h : blocks.copyWithin (memory + 1) (data :: list) = (blocks', copies)) :
    ∃ blocks₁ copy copies₁, blocks.copyData data = (blocks₁, copy) ∧
      blocks₁.copyWithin (memory - blocksOf data.allocSize) list = (blocks', copies₁) ∧
      copies = copy :: copies₁ := by
  rcases hcopy : blocks.copyData data with ⟨blocks₁, copy⟩
  rcases hcopies₁ : blocks₁.copyWithin (memory - blocksOf data.allocSize) list with ⟨blocks₂, copies₁⟩
  rw [Blocks.copyWithin, if_neg (by omega), hcopy,
    show memory + 1 - (1 + blocksOf data.allocSize) = memory - blocksOf data.allocSize by omega] at h
  dsimp only at h
  rw [hcopies₁] at h
  obtain ⟨rfl, rfl⟩ := Prod.mk.inj h
  exact ⟨blocks₁, copy, copies₁, rfl, hcopies₁, rfl⟩

/-- The memory with a new node behind `p`. -/
def ListMemory.behind (mem : ListMemory) (p : Nat) (w copy : Datum) (junk : Option Nat) (blocks : Blocks) :
    ListMemory := ⟨(mem.newNode ⟨copy, junk⟩).nodes.write p ⟨w, some mem.nodes.fresh⟩, blocks⟩

theorem behind_same {copy : Datum} {junk : Option Nat} {a : Nat} (ha : a < mem.nodes.fresh) (hne : a ≠ p) :
    (mem.behind p w copy junk blocks).nodes.cells a = mem.nodes.cells a :=
  (Function.update_of_ne hne ..).trans (Function.update_of_ne (Nat.ne_of_lt ha) ..)

/-- A round of the loop of `copySList`. -/
theorem copyRest_round {junk stop next : Option Nat} {a memory : Nat} {d copy : Datum} {size : Int}
    (hp : mem.nodes.cells p = some ⟨w, stop⟩) (hpbound : p < mem.nodes.fresh)
    (hcell : mem.nodes.cells a = some ⟨d, next⟩) (ha : a < mem.nodes.fresh) (hne : a ≠ p)
    (hfits : blocksOf d.allocSize ≤ memory) (hcopy : mem.blocks.copyData d = (blocks, copy))
    (hsize : size + 1 < 2 ^ 31) :
    SLists.copyRest junk (memory + 1) mem (some a) p size =
      SLists.copyRest junk (memory - blocksOf d.allocSize) (mem.behind p w copy junk blocks) next
        mem.nodes.fresh (size + 1) := by
  have hset : (({ mem with blocks := blocks } : ListMemory).newNode ⟨copy, junk⟩).nodes.setNext p
      (some mem.nodes.fresh) = some (mem.behind p w copy junk blocks).nodes := by
    have hnode : (mem.newNode ⟨copy, junk⟩).nodes.cells p = some ⟨w, stop⟩ :=
      (Function.update_of_ne (Nat.ne_of_lt hpbound) ..).trans hp
    exact congrArg (Option.map _) hnode
  have hinc : incSize size = some (size + 1) := if_pos hsize
  rw [SLists.copyRest, hcell]
  dsimp only [Option.bind_eq_bind, Option.bind_some]
  rw [copyNodeData_of_le hfits hcopy]
  dsimp only
  rw [hset]
  dsimp only [Option.bind_some]
  rw [hinc, Option.bind_some, behind_same ha hne, hcell]
  rfl

/-- The loop of `copySList`, over nodes that do not contain the last node of the other list. -/
theorem copyRest_eq (junk : Option Nat) {cur stop : Option Nat} {memory : Nat} {size : Int}
    (hp : mem.nodes.cells p = some ⟨w, stop⟩) (hchain : Chain mem.nodes.cells cur rest none)
    (hprest : p ∉ addrs rest) (hpbound : p < mem.nodes.fresh) (hbound : ∀ a ∈ addrs rest, a < mem.nodes.fresh)
    (hfit : NodesFit memory (rest.map Prod.snd))
    (hcopies : mem.blocks.copyWithin memory (rest.map Prod.snd) = (blocks, copies))
    (hsize : size + copies.length < 2 ^ 31) :
    ∃ m' news q, SLists.copyRest junk memory mem cur p size =
        some (⟨m', blocks⟩, q, size + copies.length, true) ∧ news.map Prod.snd = copies ∧
      lastPtr ((p, w) :: news) = some q ∧ CopiesBehind mem.nodes m' p w news := by
  induction rest generalizing mem cur p w stop memory size copies with
  | nil =>
    obtain rfl : cur = none := hchain
    obtain ⟨rfl, rfl⟩ := Prod.mk.inj hcopies
    refine ⟨mem.nodes, [], p, ?_, rfl, rfl, CopiesBehind.nil hp⟩
    rw [SLists.copyRest]
    simp
  | cons x rest ih =>
    obtain ⟨a, d⟩ := x
    obtain ⟨rfl, next, hcell, hrest⟩ := hchain
    cases memory with
    | zero => exact absurd hfit id
    | succ memory =>
      rw [List.map_cons] at hcopies
      rcases Nat.lt_or_ge memory (blocksOf d.allocSize) with hdata | hfits
      · -- There is no memory for the data.
        rw [Blocks.copyWithin, if_pos (show memory + 1 < 1 + blocksOf d.allocSize by omega)] at hcopies
        obtain ⟨rfl, rfl⟩ := Prod.mk.inj hcopies
        refine ⟨mem.nodes, [], p, ?_, rfl, rfl, CopiesBehind.nil hp⟩
        have hnone : SLists.copyNodeData mem d memory = none := by
          unfold SLists.copyNodeData
          rw [if_pos hdata]
        rw [SLists.copyRest, hcell]
        dsimp only [Option.bind_eq_bind, Option.bind_some]
        rw [hnone]
        simp
      · obtain ⟨blocks₁, copy, copies₁, hcopy, hcopies₁, rfl⟩ := copyWithin_cons hfits hcopies
        rw [List.length_cons] at hsize
        have hpa : a ≠ p := fun heq => hprest (List.mem_cons.mpr (.inl heq.symm))
        have ha : a < mem.nodes.fresh := hbound a List.mem_cons_self
        have hsame : ∀ b < mem.nodes.fresh, b ≠ p →
            (mem.behind p w copy junk blocks₁).nodes.cells b = mem.nodes.cells b := fun b => behind_same
        have hnew : (mem.behind p w copy junk blocks₁).nodes.cells mem.nodes.fresh = some ⟨copy, junk⟩ :=
          (Function.update_of_ne (Nat.ne_of_gt hpbound) ..).trans (Function.update_self ..)
        have hbound₁ : ∀ b ∈ addrs rest, b < mem.nodes.fresh := fun b hb =>
          hbound b (List.mem_cons_of_mem _ hb)
        have hrest₁ := chain_congr hrest fun b hb =>
          hsame b (hbound₁ b hb) fun heq => hprest (heq ▸ List.mem_cons_of_mem _ hb)
        have hsize₁ : size + 1 + copies₁.length < 2 ^ 31 := by omega
        obtain ⟨m', news, last, hloop, hnews, hlast, hc⟩ := ih hnew hrest₁
          (fun hmem => Nat.lt_irrefl _ (hbound₁ _ hmem)) (Nat.lt_succ_self _)
          (fun b hb => Nat.lt_succ_of_lt (hbound₁ b hb)) (hfit hfits) hcopies₁ hsize₁
        refine ⟨m', (mem.nodes.fresh, copy) :: news, last, ?_, by rw [List.map_cons, hnews], ?_,
          CopiesBehind.cons hpbound rfl (Function.update_self ..) hsame hc⟩
        · rw [copyRest_round hp hpbound hcell ha hpa hfits hcopy (by omega), hloop, List.length_cons]
          rw [show size + 1 + (copies₁.length : Int) = size + ((copies₁.length + 1 : Nat) : Int) by omega]
        · unfold lastPtr at hlast ⊢
          rwa [List.getLast?_cons_cons]

/-- The end of `copySList`: the new nodes are behind `zs` and `p`. -/
theorem copyEnd_eq {m : SListMem Datum} {self : SList} {before : Option Nat} {zs news : List (Nat × Datum)}
    {last : Nat} {size : Int} (hzs : Chain m.cells self.root zs (some p))
    (hnodup : (addrs (zs ++ [(p, w)])).Nodup) (hbound : ∀ a ∈ addrs (zs ++ [(p, w)]), a < m.fresh)
    (hc : CopiesBehind m mem.nodes p w news) (hlast : lastPtr ((p, w) :: news) = some last)
    (hbefore : ∀ b ∈ before, b = p) (hsize : size = (zs ++ (p, w) :: news).length) :
    ∃ m' r, SLists.copyEnd self before (mem, last, size, true) =
        some (⟨m', mem.blocks⟩, { self with last := some last, size := size }, r) ∧
      Nodes m' { self with last := some last, size := size } (zs ++ (p, w) :: news) ∧
      m.fresh ≤ m'.fresh ∧ ∀ a < m.fresh, a ≠ p → m'.cells a = m.cells a := by
  obtain ⟨stop, hchain⟩ := hc.chain
  have hsplit : addrs (zs ++ (p, w) :: news) = addrs (zs ++ [(p, w)]) ++ addrs news := by
    rw [List.append_cons, addrs_append]
  have hold : ∀ a ∈ addrs (zs ++ [(p, w)]), a ∉ addrs news := fun a ha hnew => by
    have hlt := hbound a ha
    have hle := (hc.new a hnew).1
    omega
  have hpnews : p ∉ addrs news := hold p (by simp [addrs])
  obtain ⟨m', hset, hfresh, hchain', hsame⟩ :=
    setBehind_chain hchain (List.nodup_cons.mpr ⟨hpnews, hc.nodup⟩) none
  rw [hlast] at hset hchain'
  have hframe : ∀ a < m.fresh, a ≠ p → m'.cells a = m.cells a := by
    intro a ha hne
    rw [hsame a fun hmem => ?_, hc.same a ha hne]
    have hnew := hc.new a ((List.mem_cons.mp hmem).resolve_left hne)
    omega
  have hzs' : Chain m'.cells self.root zs (some p) := by
    rw [addrs_append] at hnodup hbound
    refine chain_congr hzs fun a ha => hframe a (hbound a (List.mem_append_left _ ha)) ?_
    exact fun heq => (List.nodup_append.mp hnodup).2.2 a ha p (by simp [addrs]) heq
  have hnodes : Nodes m' { self with last := some last, size := size } (zs ++ (p, w) :: news) := by
    refine ⟨chain_append.mpr ⟨_, hzs', hchain'⟩, fun _ => ?_, hsize, ?_, fun a ha => ?_⟩
    · rw [← hlast]
      simp [lastPtr, List.getLast?_append, List.getLast?_cons]
    · rw [hsplit]
      exact List.nodup_append.mpr ⟨hnodup, hc.nodup, fun a ha b hb heq => hold a ha (heq ▸ hb)⟩
    · rw [hfresh]
      rw [hsplit] at ha
      rcases List.mem_append.mp ha with hz | hnew
      · exact Nat.lt_of_lt_of_le (hbound a hz) hc.fresh
      · exact (hc.new a hnew).2
  obtain ⟨-, next, hcell, -⟩ := hchain'
  refine ⟨m', before.elim self.root fun _ => next, ?_, hnodes, hfresh.symm ▸ hc.fresh, hframe⟩
  unfold SLists.copyEnd
  dsimp only
  rw [if_pos rfl, show mem.nodes.setNext last none = some m' from hset]
  cases before with
  | none => rfl
  | some b =>
    obtain rfl := hbefore b rfl
    dsimp only [Option.bind_eq_bind, Option.bind_some]
    rw [hcell]
    rfl

/-- The loop of `copySList` and its end, from a list that ends with the node `p`. -/
theorem copyBehind_eq (self : SList) (before : Option Nat) (zs : List (Nat × Datum)) (junk : Option Nat)
    {cur stop : Option Nat} {memory : Nat} {size : Int} (hzs : Chain mem.nodes.cells self.root zs (some p))
    (hp : mem.nodes.cells p = some ⟨w, stop⟩) (hnodup : (addrs (zs ++ [(p, w)])).Nodup)
    (hbound : ∀ a ∈ addrs (zs ++ [(p, w)]), a < mem.nodes.fresh)
    (hrest : Chain mem.nodes.cells cur rest none) (hprest : p ∉ addrs rest)
    (hrestbound : ∀ a ∈ addrs rest, a < mem.nodes.fresh) (hfit : NodesFit memory (rest.map Prod.snd))
    (hcopies : mem.blocks.copyWithin memory (rest.map Prod.snd) = (blocks, copies))
    (hbefore : ∀ b ∈ before, b = p) (hlen : size = (zs ++ [(p, w)]).length)
    (hsize : size + copies.length < 2 ^ 31) :
    ∃ m' l' r news, (SLists.copyRest junk memory mem cur p size).bind (SLists.copyEnd self before) =
        some (⟨m', blocks⟩, l', r) ∧ news.map Prod.snd = copies ∧ Nodes m' l' (zs ++ (p, w) :: news) ∧
      mem.nodes.fresh ≤ m'.fresh ∧ (∀ a < mem.nodes.fresh, a ≠ p → m'.cells a = mem.nodes.cells a) ∧
      ∀ a ∈ addrs news, mem.nodes.fresh ≤ a := by
  obtain ⟨m₁, news, last, hloop, rfl, hlast, hc⟩ :=
    copyRest_eq junk hp hrest hprest (hbound p (by simp [addrs])) hrestbound hfit hcopies hsize
  have hend : size + ((news.map Prod.snd).length : Int) = ((zs ++ (p, w) :: news).length : Int) := by
    rw [hlen]
    simp only [List.length_append, List.length_cons, List.length_map, List.length_nil]
    omega
  have hc' : CopiesBehind mem.nodes (⟨m₁, blocks⟩ : ListMemory).nodes p w news := hc
  obtain ⟨m', r, hcopyEnd, hnodes, hfresh, hsame⟩ := copyEnd_eq hzs hnodup hbound hc' hlast hbefore hend
  refine ⟨m', _, r, news, ?_, rfl, hnodes, hfresh, hsame, fun a ha => (hc.new a ha).1⟩
  rw [hloop, Option.bind_some, hcopyEnd]

variable {l source : SList} {xs ys : List (Nat × Datum)} {memory : Nat}

theorem Nodes.size_eq_zero {m : SListMem Datum} (h : Nodes m l xs) : l.size = 0 ↔ xs = [] := by
  rw [h.size]
  simp

/-- `copySList` without memory for a single node. -/
theorem Nodes.copyList_zero (h : Nodes mem.nodes l xs) (hs : Nodes mem.nodes source ys) (hne : ys ≠ [])
    (junk : Option Nat) : SLists.copySList mem l source 0 junk = some (mem, l, none) := by
  unfold SLists.copySList
  rw [if_neg (hs.size_eq_zero.not.mpr hne)]
  rcases List.eq_nil_or_concat xs with rfl | ⟨zs, ⟨p, w⟩, rfl⟩
  · have hroot : l.root = none := h.chain
    rw [if_pos (h.size_eq_zero.mpr rfl), if_pos rfl, ← hroot]
  · rw [List.concat_eq_append] at h
    have hlast : l.last = some p := (h.last (by simp)).trans (lastPtr_concat _)
    obtain ⟨a, hroot⟩ : ∃ a, source.root = some a := by
      cases ys with
      | nil => exact absurd rfl hne
      | cons y ys => exact ⟨y.1, hs.chain.1⟩
    rw [if_neg (h.size_eq_zero.not.mpr (by simp)), hlast, hroot]
    dsimp only [Option.bind_eq_bind, Option.bind_some]
    rw [SLists.copyRest, Option.bind_some]
    have hself : ({ l with last := some p } : SList) = l := by
      rw [← hlast]
    unfold SLists.copyEnd
    dsimp only
    rw [if_neg Bool.false_ne_true, hself]

/-- `copySList` to an empty list. -/
theorem Nodes.copyList_empty {a : Nat} {d : Datum} {junk : Option Nat} (h : Nodes mem.nodes l [])
    (hs : Nodes mem.nodes source ((a, d) :: ys)) (hfits : 1 + blocksOf d.allocSize ≤ memory)
    (hfit : NodesFit memory (d :: ys.map Prod.snd))
    (hcopies : mem.blocks.copyWithin memory (d :: ys.map Prod.snd) = (blocks, copies))
    (hsize : copies.length < 2 ^ 31) :
    ∃ m' l' r news, SLists.copySList mem l source memory junk = some (⟨m', blocks⟩, l', r) ∧
      news.map Prod.snd = copies ∧ Nodes m' l' news ∧ Changed mem.nodes m' [] news := by
  obtain ⟨memory, rfl⟩ : ∃ k, memory = k + 1 := ⟨memory - 1, by omega⟩
  have hfits' : blocksOf d.allocSize ≤ memory := by omega
  obtain ⟨blocks₁, copy, copies₁, hcopy, hcopies₁, rfl⟩ := copyWithin_cons hfits' hcopies
  rw [List.length_cons] at hsize
  obtain ⟨hroot, next, hcell, hrest⟩ := hs.chain
  -- The new root.
  let mem₁ := ({ mem with blocks := blocks₁ } : ListMemory).newNode ⟨copy, junk⟩
  have hsame : ∀ b < mem.nodes.fresh, mem₁.nodes.cells b = mem.nodes.cells b := fun b hb =>
    Function.update_of_ne (Nat.ne_of_lt hb) ..
  have hnew : mem₁.nodes.cells mem.nodes.fresh = some ⟨copy, junk⟩ := Function.update_self ..
  have hbound : ∀ b ∈ addrs ys, b < mem.nodes.fresh := fun b hb =>
    hs.bound b (List.mem_cons_of_mem _ hb)
  have hrest₁ := chain_congr hrest fun b hb => hsame b (hbound b hb)
  have hsize₁ : (1 : Int) + copies₁.length < 2 ^ 31 := by omega
  have hfresh₁ : ∀ b ∈ addrs ([] ++ [(mem.nodes.fresh, copy)]), b < mem₁.nodes.fresh := by
    intro b hb
    rw [List.mem_singleton.mp hb]
    exact Nat.lt_succ_self _
  obtain ⟨m', l', r, news, hcopy₁, rfl, hnodes, hfresh, hframe, hnews⟩ :=
    copyBehind_eq { l with root := some mem.nodes.fresh } none [] junk rfl hnew (List.nodup_singleton _) hfresh₁
      hrest₁ (fun hmem => Nat.lt_irrefl _ (hbound _ hmem)) (fun b hb => Nat.lt_succ_of_lt (hbound b hb))
      (hfit hfits') hcopies₁ (fun b hb => nomatch hb) rfl hsize₁
  refine ⟨m', l', r, (mem.nodes.fresh, copy) :: news, ?_, rfl, hnodes, ?_, ?_, ?_⟩
  · unfold SLists.copySList
    rw [if_neg (hs.size_eq_zero.not.mpr (List.cons_ne_nil _ _)), if_pos (h.size_eq_zero.mpr rfl),
      if_neg (Nat.succ_ne_zero memory), hroot]
    dsimp only [Option.bind_eq_bind, Option.bind_some]
    rw [hcell]
    dsimp only [Option.bind_some]
    rw [Nat.add_sub_cancel, copyNodeData_of_le hfits' hcopy]
    dsimp only
    rw [h.size_eq_zero.mpr rfl]
    exact hcopy₁
  · exact Nat.le_of_succ_le hfresh
  · intro b hb _
    rw [hframe b (Nat.lt_succ_of_lt hb) (Nat.ne_of_lt hb), hsame b hb]
  · intro b hb
    rcases List.mem_cons.mp hb with rfl | hmem
    · exact .inr (Nat.le_refl _)
    · exact .inr (Nat.le_of_succ_le (hnews b hmem))

/-- `copySList` to a list that is not empty. -/
theorem Nodes.copyList_behind {zs : List (Nat × Datum)} {junk : Option Nat}
    (h : Nodes mem.nodes l (zs ++ [(p, w)])) (hs : Nodes mem.nodes source ys) (hne : ys ≠ [])
    (hdisj : (addrs (zs ++ [(p, w)])).Disjoint (addrs ys)) (hfit : NodesFit memory (ys.map Prod.snd))
    (hcopies : mem.blocks.copyWithin memory (ys.map Prod.snd) = (blocks, copies))
    (hsize : (zs ++ [(p, w)]).length + copies.length < 2 ^ 31) :
    ∃ m' l' r news, SLists.copySList mem l source memory junk = some (⟨m', blocks⟩, l', r) ∧
      news.map Prod.snd = copies ∧ Nodes m' l' (zs ++ [(p, w)] ++ news) ∧
      Changed mem.nodes m' (zs ++ [(p, w)]) (zs ++ [(p, w)] ++ news) := by
  have hlast : l.last = some p := (h.last (by simp)).trans (lastPtr_concat _)
  have hp : p ∈ addrs (zs ++ [(p, w)]) := by simp [addrs]
  obtain ⟨hzs, hcell⟩ := chain_concat.mp h.chain
  obtain ⟨m', l', r, news, hcopy, rfl, hnodes, hfresh, hframe, hnews⟩ :=
    copyBehind_eq l (some p) zs junk hzs hcell h.nodup h.bound hs.chain (fun hmem => hdisj hp hmem)
      hs.bound hfit hcopies (fun b hb => (Option.some.inj hb).symm) h.size (by rw [h.size]; omega)
  rw [List.append_cons] at hnodes
  refine ⟨m', l', r, news, ?_, rfl, hnodes, hfresh, ?_, ?_⟩
  · unfold SLists.copySList
    rw [if_neg (hs.size_eq_zero.not.mpr hne), if_neg (h.size_eq_zero.not.mpr (by simp)), hlast]
    exact hcopy
  · exact fun b hb hnot => hframe b hb fun heq => hnot (heq ▸ hp)
  · intro b hb
    rw [addrs_append] at hb
    exact (List.mem_append.mp hb).imp_right (hnews b)

/-- `copySList`, with memory for the nodes. -/
theorem Nodes.copyList {junk : Option Nat} (h : Nodes mem.nodes l xs) (hs : Nodes mem.nodes source ys)
    (hne : ys ≠ []) (hdisj : (addrs xs).Disjoint (addrs ys))
    (hfits : CopyFits (xs.map Prod.snd) (ys.map Prod.snd) memory)
    (hcopies : mem.blocks.copyWithin memory (ys.map Prod.snd) = (blocks, copies))
    (hsize : xs.length + copies.length < 2 ^ 31) :
    ∃ m' l' r news, SLists.copySList mem l source memory junk = some (⟨m', blocks⟩, l', r) ∧
      news.map Prod.snd = copies ∧ Nodes m' l' (xs ++ news) ∧ Changed mem.nodes m' xs (xs ++ news) := by
  rcases hfits with rfl | ⟨hfit, hfirst⟩
  · obtain ⟨y, ys, rfl⟩ := List.exists_cons_of_ne_nil hne
    rw [List.map_cons, Blocks.copyWithin, if_pos (Nat.lt_add_right _ Nat.one_pos)] at hcopies
    obtain ⟨rfl, rfl⟩ := Prod.mk.inj hcopies
    refine ⟨mem.nodes, l, none, [], h.copyList_zero hs hne junk, rfl, ?_, ?_⟩
    · rwa [List.append_nil]
    · rw [List.append_nil]
      exact Changed.refl ..
  · rcases List.eq_nil_or_concat xs with rfl | ⟨zs, ⟨p, w⟩, rfl⟩
    · obtain ⟨⟨a, d⟩, ys, rfl⟩ := List.exists_cons_of_ne_nil hne
      exact h.copyList_empty hs (hfirst rfl d rfl) hfit hcopies (by omega)
    · rw [List.concat_eq_append] at h hdisj hsize ⊢
      exact h.copyList_behind hs hne hdisj hfit hcopies hsize

/-- `copySListNode` of data that is managed outside of the list. -/
theorem Nodes.copyNode {node data : Nat} {next : Option Nat} (h : Nodes mem.nodes l xs)
    (hcell : mem.nodes.cells node = some ⟨⟨data, 0⟩, next⟩) (hmemory : 1 ≤ memory)
    (hsize : xs.length + 1 < 2 ^ 31) :
    ∃ m' l' r, SLists.copySListNode mem l node memory = some (⟨m', mem.blocks⟩, l', r) ∧
      Nodes m' l' (xs ++ [(mem.nodes.fresh, ⟨data, 0⟩)]) ∧
      Changed mem.nodes m' xs (xs ++ [(mem.nodes.fresh, ⟨data, 0⟩)]) := by
  have h' : Nodes mem.nodes l (xs ++ []) := by
    rwa [List.append_nil]
  obtain ⟨m', l', hinsert, hnodes, hc⟩ := h'.insertDataInto hmemory (by rwa [List.append_nil]) data
  rw [List.append_nil] at hc
  -- The same as an appended pointer, up to the result.
  unfold SLists.insertDataIntoSList at hinsert
  obtain ⟨⟨mem₁, l₁, new⟩, hnew, hdata⟩ := Option.bind_eq_some_iff.mp hinsert
  have hrun : ∃ a, SLists.copySListNode mem l node memory = some (⟨m', mem.blocks⟩, l', some a) := by
    unfold SLists.copySListNode SLists.appendToSList
    rw [hcell, h.size]
    dsimp only [Option.bind_eq_bind, Option.bind_some]
    rw [hnew]
    cases new with
    | null => simp at hdata
    | data block => simp at hdata
    | node a =>
      dsimp only [Option.bind_eq_bind, Option.bind_some] at hdata ⊢
      obtain ⟨mem₂, hset, hdata⟩ := Option.bind_eq_some_iff.mp hdata
      obtain ⟨rfl, htail⟩ := Prod.mk.inj (Option.some.inj hdata)
      obtain ⟨rfl, -⟩ := Prod.mk.inj htail
      exact ⟨a, by rw [hset, Option.bind_some]⟩
  obtain ⟨a, hrun⟩ := hrun
  exact ⟨m', l', some a, hrun, hnodes, hc⟩

theorem copySListNode_null {node : Nat} {n : SListNode Datum} (hcell : mem.nodes.cells node = some n)
    (hmemory : memory < 1 + blocksOf n.data.allocSize) :
    SLists.copySListNode mem l node memory = some (mem, l, none) := by
  unfold SLists.copySListNode SLists.appendToSList
  rw [hcell, Option.bind_eq_bind, Option.bind_some, insertIntoSList_null (.inr hmemory)]
  rfl

end Copy

/-! ## Moving -/

section Move

variable {m m' : SListMem Datum} {l source : SList} {xs ys xs₁ xs₂ : List (Nat × Datum)} {a : Nat} {d : Datum}

/-- The pointer behind the last node of a list is set. -/
theorem Nodes.setLast (h : Nodes m l xs) (next : Option Nat) :
    (if l.size = 0 then some m else l.last.bind fun last => m.setNext last next) =
      setBehind m (lastPtr xs) next := by
  rcases List.eq_nil_or_concat xs with rfl | ⟨init, x, rfl⟩
  · rw [if_pos (h.size_eq_zero.mpr rfl)]
    rfl
  · rw [List.concat_eq_append] at h ⊢
    rw [if_neg (h.size_eq_zero.not.mpr (by simp)), h.last (by simp), lastPtr_concat]
    rfl

theorem Nodes.root_eq (h : Nodes m l xs) (next : Option Nat) :
    (if l.size = 0 then next else l.root) = if (lastPtr xs).isNone then next else l.root := by
  rcases List.eq_nil_or_concat xs with rfl | ⟨init, x, rfl⟩
  · rw [if_pos (h.size_eq_zero.mpr rfl)]
    rfl
  · rw [List.concat_eq_append] at h ⊢
    rw [if_neg (h.size_eq_zero.not.mpr (by simp)), lastPtr_concat]
    rfl

/-- A list is linked behind another one. -/
theorem Nodes.join (hx : Nodes m l xs) (hy : Nodes m source ys) (hdisj : (addrs xs).Disjoint (addrs ys))
    (hne : ys ≠ []) :
    ∃ m', setBehind m (lastPtr xs) source.root = some m' ∧ Changed m m' (xs ++ ys) (xs ++ ys) ∧
      Nodes m' ⟨if l.size = 0 then source.root else l.root, source.last, l.size + source.size⟩ (xs ++ ys) := by
  obtain ⟨m', hset, hfresh, hchain, hsame⟩ := setBehind_chain hx.chain hx.nodup source.root
  rw [← hx.root_eq] at hchain
  refine ⟨m', hset,
    ⟨Nat.le_of_eq hfresh.symm, fun b _ hnot => hsame b fun hmem => hnot ?_, fun b hb => .inl hb⟩,
    chain_append.mpr ⟨_, hchain, chain_congr hy.chain fun b hb => hsame b fun hmem => hdisj hmem hb⟩,
    ?_, ?_, ?_, fun b hb => ?_⟩
  · rw [addrs_append]
    exact List.mem_append_left _ hmem
  · intro _
    rw [hy.last hne]
    obtain ⟨init, x, rfl⟩ := List.eq_nil_or_concat ys |>.resolve_left hne
    rw [List.concat_eq_append, ← List.append_assoc, lastPtr_concat, lastPtr_concat]
  · show l.size + source.size = _
    rw [hx.size, hy.size, List.length_append]
    omega
  · rw [addrs_append]
    exact List.nodup_append.mpr ⟨hx.nodup, hy.nodup, fun b hb b' hb' heq => hdisj hb (heq ▸ hb')⟩
  · rw [addrs_append] at hb
    rw [hfresh]
    exact (List.mem_append.mp hb).elim (hx.bound b) (hy.bound b)

/-- A node is taken out of a chain, and nothing is behind it any more. -/
theorem relink {start next stop : Option Nat} (h1 : Chain m.cells start xs₁ (some a))
    (ha : m.cells a = some ⟨d, next⟩) (h2 : Chain m.cells next xs₂ stop)
    (hnodup : (addrs (xs₁ ++ (a, d) :: xs₂)).Nodup) :
    ∃ m', ((setBehind m (lastPtr xs₁) next).bind fun m => m.setNext a none) = some m' ∧ m'.fresh = m.fresh ∧
      Chain m'.cells (if (lastPtr xs₁).isNone then next else start) (xs₁ ++ xs₂) stop ∧
      m'.cells a = some ⟨d, none⟩ ∧ ∀ b ∉ addrs xs₁, b ≠ a → m'.cells b = m.cells b := by
  rw [addrs_append] at hnodup
  obtain ⟨hnodup₁, hnodup₂, hne⟩ := List.nodup_append.mp hnodup
  have haxs₁ : a ∉ addrs xs₁ := fun hmem => hne a hmem a List.mem_cons_self rfl
  have haxs₂ : a ∉ addrs xs₂ := (List.nodup_cons.mp hnodup₂).1
  obtain ⟨m₁, hset, hfresh, hchain, hsame⟩ := setBehind_chain h1 hnodup₁ next
  have hcell : m₁.cells a = some ⟨d, next⟩ := (hsame a haxs₁).trans ha
  have h2' : Chain m₁.cells next xs₂ stop := chain_congr h2 fun b hb =>
    hsame b fun hmem => hne b hmem b (List.mem_cons_of_mem _ hb) rfl
  refine ⟨m₁.write a ⟨d, none⟩, ?_, hfresh, ?_, Function.update_self .., ?_⟩
  · rw [hset, Option.bind_some, SListMem.setNext, hcell]
    rfl
  · refine chain_append.mpr ⟨_, chain_update hchain haxs₁ _, chain_update h2' haxs₂ _⟩
  · exact fun b hb hba => (Function.update_of_ne hba ..).trans (hsame b hb)

/-- A node goes to the end of its list. -/
theorem Nodes.moveToEnd (h : Nodes m l (xs₁ ++ (a, d) :: xs₂)) :
    ∃ m₁ next m', setBehind m (lastPtr (xs₁ ++ (a, d) :: xs₂)) (some a) = some m₁ ∧
      m₁.cells a = some ⟨d, next⟩ ∧
      ((setBehind m₁ (lastPtr xs₁) next).bind fun m => m.setNext a none) = some m' ∧
      Nodes m' ⟨if (lastPtr xs₁).isNone then next else l.root, some a, l.size⟩ (xs₁ ++ xs₂ ++ [(a, d)]) ∧
      Changed m m' (xs₁ ++ (a, d) :: xs₂) (xs₁ ++ xs₂ ++ [(a, d)]) := by
  obtain ⟨m₁, hlink, hfresh₁, hchain₁, hsame₁⟩ := setBehind_chain h.chain h.nodup (some a)
  rw [← h.root_eq, if_neg (h.size_eq_zero.not.mpr (by simp))] at hchain₁
  -- The nodes behind `a` lead back to it for the moment.
  obtain ⟨mid, h1, rfl, next, hcell, h2⟩ := chain_append.mp hchain₁
  obtain ⟨m', hrelink, hfresh, hchain, ha, hsame⟩ := relink h1 hcell h2 h.nodup
  have hperm : (addrs (xs₁ ++ xs₂ ++ [(a, d)])).Perm (addrs (xs₁ ++ (a, d) :: xs₂)) :=
    ((List.perm_append_singleton _ _).trans List.perm_middle.symm).map Prod.fst
  refine ⟨m₁, next, m', hlink, hcell, hrelink,
    ⟨chain_concat.mpr ⟨hchain, ha⟩, fun _ => (lastPtr_concat (a, d)).symm, ?_, hperm.nodup_iff.mpr h.nodup, ?_⟩,
    Nat.le_of_eq (hfresh.trans hfresh₁).symm, fun b _ hnot => ?_, fun b hb => .inl (hperm.mem_iff.mp hb)⟩
  · show l.size = _
    rw [h.size]
    simp only [List.length_append, List.length_cons, List.length_nil]
    omega
  · intro b hb
    rw [hfresh, hfresh₁]
    exact h.bound b (hperm.mem_iff.mp hb)
  · have hb := hnot
    rw [addrs_append, List.mem_append, not_or] at hb
    rw [hsame b hb.1 fun heq => hb.2 (List.mem_cons.mpr (.inl heq)), hsame₁ b hnot]

/-- A node goes to the end of another list. The pointer to the last node of its own list is left as it is. -/
theorem Nodes.moveTo (hx : Nodes m l xs) (hy : Nodes m source (xs₁ ++ (a, d) :: xs₂))
    (hdisj : (addrs xs).Disjoint (addrs (xs₁ ++ (a, d) :: xs₂))) (hlast : xs₂ = [] → xs₁ = []) :
    ∃ m₁ m', setBehind m (lastPtr xs) (some a) = some m₁ ∧ m₁.cells a = some ⟨d, headPtr xs₂⟩ ∧
      ((setBehind m₁ (lastPtr xs₁) (headPtr xs₂)).bind fun m => m.setNext a none) = some m' ∧
      Nodes m' ⟨if l.size = 0 then some a else l.root, some a, l.size + 1⟩ (xs ++ [(a, d)]) ∧
      Nodes m' { source with
        root := if (lastPtr xs₁).isNone then headPtr xs₂ else source.root
        size := source.size - 1 } (xs₁ ++ xs₂) ∧
      (addrs (xs ++ [(a, d)])).Disjoint (addrs (xs₁ ++ xs₂)) ∧
      Changed m m' (xs ++ (xs₁ ++ (a, d) :: xs₂)) (xs ++ [(a, d)] ++ (xs₁ ++ xs₂)) := by
  obtain ⟨m₁, hlink, hfresh₁, hchain₁, hsame₁⟩ := setBehind_chain hx.chain hx.nodup (some a)
  rw [← hx.root_eq] at hchain₁
  have hy₁ : Chain m₁.cells source.root (xs₁ ++ (a, d) :: xs₂) none :=
    chain_congr hy.chain fun b hb => hsame₁ b fun hmem => hdisj hmem hb
  obtain ⟨h1, hcell, h2⟩ := chain_split hy₁
  obtain ⟨m', hrelink, hfresh, hchain, ha, hsame⟩ := relink h1 hcell h2 hy.nodup
  have hperm : (addrs (xs ++ [(a, d)]) ++ addrs (xs₁ ++ xs₂)).Perm
      (addrs xs ++ addrs (xs₁ ++ (a, d) :: xs₂)) := by
    rw [addrs_append, List.append_assoc]
    exact (List.perm_middle.symm.map Prod.fst).append_left _
  have hnodup := hperm.nodup_iff.mpr (List.nodup_append.mpr ⟨hx.nodup, hy.nodup, fun b hb b' hb' heq =>
    hdisj hb (heq ▸ hb')⟩)
  have hbound : ∀ b ∈ addrs xs ++ addrs (xs₁ ++ (a, d) :: xs₂), b < m'.fresh := by
    intro b hb
    rw [hfresh, hfresh₁]
    exact (List.mem_append.mp hb).elim (hx.bound b) (hy.bound b)
  refine ⟨m₁, m', hlink, hcell, hrelink, ⟨?_, fun _ => (lastPtr_concat (a, d)).symm, ?_,
      (List.nodup_append.mp hnodup).1, fun b hb => hbound b (hperm.mem_iff.mp (List.mem_append_left _ hb))⟩,
    ⟨hchain, fun hne => ?_, ?_, (List.nodup_append.mp hnodup).2.1,
      fun b hb => hbound b (hperm.mem_iff.mp (List.mem_append_right _ hb))⟩,
    fun b hb hb' => (List.nodup_append.mp hnodup).2.2 b hb b hb' rfl,
    Nat.le_of_eq (hfresh.trans hfresh₁).symm, fun b _ hnot => ?_, fun b hb => .inl ?_⟩
  · refine chain_concat.mpr ⟨chain_congr hchain₁ fun b hb => ?_, ha⟩
    have hnot : b ∉ addrs (xs₁ ++ (a, d) :: xs₂) := fun hmem => hdisj hb hmem
    rw [addrs_append, List.mem_append, not_or] at hnot
    exact hsame b hnot.1 fun heq => hnot.2 (List.mem_cons.mpr (.inl heq))
  · show l.size + 1 = _
    rw [hx.size, List.length_append, List.length_singleton]
    omega
  · cases xs₂ with
    | nil => exact absurd (hlast rfl) (by simpa using hne)
    | cons x xs₂ =>
      refine (hy.last (by simp)).trans (Eq.trans ?_ (lastPtr_erase (a := a) (v := d)))
      rfl
  · show source.size - 1 = _
    rw [hy.size]
    simp only [List.length_append, List.length_cons]
    omega
  · rw [addrs_append, List.mem_append, not_or, addrs_append, List.mem_append, not_or] at hnot
    rw [hsame b hnot.2.1 fun heq => hnot.2.2 (List.mem_cons.mpr (.inl heq)), hsame₁ b hnot.1]
  · rw [addrs_append] at hb ⊢
    exact hperm.mem_iff.mp hb

theorem Nodes.getNode (h : Nodes m l (xs₁ ++ (a, d) :: xs₂)) :
    SLists.getNodeFromSList m l xs₁.length = some a := by
  unfold SLists.getNodeFromSList
  rw [if_neg, nodeAt_chain h.chain]
  rw [h.size, List.length_append, List.length_cons]
  omega

/-- The node in front of it. -/
theorem Nodes.getPrev (h : Nodes m l (xs₁ ++ (a, d) :: xs₂)) :
    (if xs₁.length = 0 then none else SLists.getNodeFromSList m l (xs₁.length - 1)) = lastPtr xs₁ := by
  rcases List.eq_nil_or_concat xs₁ with rfl | ⟨init, ⟨p, w⟩, rfl⟩
  · rfl
  · rw [List.concat_eq_append, List.append_assoc] at h
    rw [List.concat_eq_append, List.length_append, List.length_singleton, if_neg (Nat.succ_ne_zero _),
      Nat.add_sub_cancel, lastPtr_concat]
    exact h.getNode

end Move

end SrxSuite.Util

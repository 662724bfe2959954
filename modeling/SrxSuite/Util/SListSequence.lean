import Mathlib.Data.List.InsertIdx
import SrxSuite.Lib.Runs
import SrxSuite.Util.SListNodes

/-!
# The lists refine sequences

`Held` is the invariant of the lists in one memory: each has its nodes, and no node is in two of them. A
call changes one list, or two, and the memory only at the nodes of these, so that the other lists stay as
they are.
-/

namespace SrxSuite.Util

open SListLemmas Runs

/-- Every list holds its nodes, and no two share one. -/
structure Held (m : SListMem Datum) (headers : Nat → SList) (nodes : Nat → List (Nat × Datum)) : Prop where
  list : ∀ i, Nodes m (headers i) (nodes i)
  disjoint : ∀ i j, i ≠ j → (addrs (nodes i)).Disjoint (addrs (nodes j))

/-- The lists hold nodes with the data of the sequences. -/
structure Refines (s : SLists) (q : Seqs) (nodes : Nat → List (Nat × Datum)) : Prop where
  held : Held s.mem.nodes s.headers nodes
  data : ∀ i, (nodes i).map Prod.snd = q.lists i
  blocks : s.mem.blocks = q.blocks

section Frame

variable {m m' : SListMem Datum} {headers : Nat → SList} {nodes : Nat → List (Nat × Datum)}
  {l l₁ l₂ : SList} {xs ys : List (Nat × Datum)} {i j : Nat}

/-- The nodes of one list are replaced. -/
theorem disjoint_update (i : Nat) (xs : List (Nat × Datum))
    (h : ∀ k k', k ≠ k' → (addrs (nodes k)).Disjoint (addrs (nodes k')))
    (hnew : ∀ k, k ≠ i → (addrs xs).Disjoint (addrs (nodes k))) :
    ∀ k k', k ≠ k' →
      (addrs (Function.update nodes i xs k)).Disjoint (addrs (Function.update nodes i xs k')) := by
  intro k k' hne
  rcases eq_or_ne k i with rfl | hk
  · rw [Function.update_self, Function.update_of_ne hne.symm]
    exact hnew k' hne.symm
  · rw [Function.update_of_ne hk]
    rcases eq_or_ne k' i with rfl | hk'
    · rw [Function.update_self]
      exact List.disjoint_symm (hnew k hk)
    · rw [Function.update_of_ne hk']
      exact h k k' hne

/-- One list is changed. -/
theorem Held.change (h : Held m headers nodes) (hx : Nodes m' l xs) (hc : Changed m m' (nodes i) xs) :
    Held m' (Function.update headers i l) (Function.update nodes i xs) where
  list k := by
    rcases eq_or_ne k i with rfl | hk
    · rw [Function.update_self, Function.update_self]
      exact hx
    · rw [Function.update_of_ne hk, Function.update_of_ne hk]
      exact (h.list k).frame (h.disjoint i k hk.symm) hc
  disjoint := disjoint_update i xs h.disjoint fun k hk => hc.disjoint (h.list k) (h.disjoint i k hk.symm)

/-- Two lists are changed. -/
theorem Held.change₂ (h : Held m headers nodes) (hij : i ≠ j) (hx : Nodes m' l₁ xs) (hy : Nodes m' l₂ ys)
    (hdisj : (addrs xs).Disjoint (addrs ys)) (hc : Changed m m' (nodes i ++ nodes j) (xs ++ ys)) :
    Held m' (Function.update (Function.update headers i l₁) j l₂)
      (Function.update (Function.update nodes i xs) j ys) := by
  have hold : ∀ k, k ≠ i → k ≠ j → (addrs (nodes i ++ nodes j)).Disjoint (addrs (nodes k)) := by
    intro k hki hkj
    rw [addrs_append]
    exact List.disjoint_append_left.mpr ⟨h.disjoint i k hki.symm, h.disjoint j k hkj.symm⟩
  have hother : ∀ k, k ≠ i → k ≠ j → (addrs xs).Disjoint (addrs (nodes k)) ∧
      (addrs ys).Disjoint (addrs (nodes k)) := by
    intro k hki hkj
    have hnew := hc.disjoint (h.list k) (hold k hki hkj)
    rw [addrs_append] at hnew
    exact List.disjoint_append_left.mp hnew
  constructor
  · intro k
    rcases eq_or_ne k j with rfl | hkj
    · rw [Function.update_self, Function.update_self]
      exact hy
    · rw [Function.update_of_ne hkj, Function.update_of_ne hkj]
      rcases eq_or_ne k i with rfl | hki
      · rw [Function.update_self, Function.update_self]
        exact hx
      · rw [Function.update_of_ne hki, Function.update_of_ne hki]
        exact (h.list k).frame (hold k hki hkj) hc
  · -- The list `j` is emptied first, since its old nodes may be among the new ones of `i`.
    have hempty := disjoint_update j [] h.disjoint fun k _ => List.disjoint_nil_left _
    have hfirst := disjoint_update i xs hempty fun k hki => by
      rcases eq_or_ne k j with rfl | hkj
      · rw [Function.update_self]
        exact List.disjoint_nil_right _
      · rw [Function.update_of_ne hkj]
        exact (hother k hki hkj).1
    have hsecond := disjoint_update j ys hfirst fun k hkj => by
      rcases eq_or_ne k i with rfl | hki
      · rw [Function.update_self]
        exact List.disjoint_symm hdisj
      · rw [Function.update_of_ne hki, Function.update_of_ne hkj]
        exact (hother k hki hkj).2
    rwa [Function.update_comm hij.symm, Function.update_idem] at hsecond

variable {s : SLists} {q : Seqs} {mem : ListMemory}

theorem map_update {lists : Nat → List Datum} (h : ∀ k, (nodes k).map Prod.snd = lists k) (k : Nat) :
    (Function.update nodes i xs k).map Prod.snd = Function.update lists i (xs.map Prod.snd) k := by
  rcases eq_or_ne k i with rfl | hk
  · rw [Function.update_self, Function.update_self]
  · rw [Function.update_of_ne hk, Function.update_of_ne hk, h]

/-- One list and the blocks are changed. -/
theorem Refines.change (h : Refines s q nodes) (hx : Nodes mem.nodes l xs)
    (hc : Changed s.mem.nodes mem.nodes (nodes i) xs) :
    Refines (s.setList i mem l) ⟨Function.update q.lists i (xs.map Prod.snd), mem.blocks⟩
      (Function.update nodes i xs) where
  held := h.held.change hx hc
  data := map_update h.data
  blocks := rfl

/-- One list is changed, but no block. -/
theorem Refines.setList (h : Refines s q nodes) (hx : Nodes m l xs)
    (hc : Changed s.mem.nodes m (nodes i) xs) {seq : List Datum} (hseq : seq = xs.map Prod.snd) :
    Refines (s.setList i { s.mem with nodes := m } l) (q.setList i seq) (Function.update nodes i xs) := by
  have hchange : Refines (s.setList i { s.mem with nodes := m } l)
      ⟨Function.update q.lists i (xs.map Prod.snd), s.mem.blocks⟩ (Function.update nodes i xs) := h.change hx hc
  rw [hseq]
  unfold Seqs.setList
  rwa [← h.blocks]

/-- Elements of the list `j` are moved to the list `i`. -/
theorem Refines.move (h : Refines s q nodes) (hij : i ≠ j) (hx : Nodes m l₁ xs) (hy : Nodes m l₂ ys)
    (hdisj : (addrs xs).Disjoint (addrs ys)) (hc : Changed s.mem.nodes m (nodes i ++ nodes j) (xs ++ ys))
    {left moved : List Datum} (hleft : ys.map Prod.snd = left) (hmoved : xs.map Prod.snd = q.lists i ++ moved) :
    Refines ⟨{ s.mem with nodes := m }, Function.update (Function.update s.headers i l₁) j l₂⟩
      (q.move i j left moved) (Function.update (Function.update nodes i xs) j ys) where
  held := h.held.change₂ hij hx hy hdisj hc
  data k := by
    unfold Seqs.move Seqs.setList
    dsimp only
    rw [Function.update_of_ne hij, Function.update_comm hij.symm]
    rw [map_update (map_update h.data), hleft, hmoved]
  blocks := h.blocks

theorem Refines.size (h : Refines s q nodes) (i : Nat) : (s.headers i).size = (q.lists i).length := by
  rw [(h.held.list i).size, ← h.data i, List.length_map]

theorem SLists.setList_self (s : SLists) (i : Nat) : s.setList i s.mem (s.headers i) = s := by
  unfold SLists.setList
  rw [Function.update_eq_self]

theorem Seqs.setList_self (q : Seqs) (i : Nat) : q.setList i (q.lists i) = q := by
  unfold Seqs.setList
  rw [Function.update_eq_self]

end Frame

/-! ## Calls -/

section Calls

variable {s : SLists} {q : Seqs} {nodes : Nat → List (Nat × Datum)} {m m' : SListMem Datum}
  {xs xs₁ xs₂ : List (Nat × Datum)} {i j a : Nat} {d : Datum}

section Insert

variable {index : Int} {dataSize data memory : Nat}

theorem exists_split {α : Type} (xs : List α) (h : 0 ≤ index) (hle : index ≤ xs.length) :
    ∃ xs₁ xs₂, xs = xs₁ ++ xs₂ ∧ index = xs₁.length := by
  refine ⟨xs.take index.toNat, xs.drop index.toNat, (List.take_append_drop ..).symm, ?_⟩
  rw [List.length_take]
  omega

theorem insertIdx_append {α : Type} (xs₁ xs₂ : List α) (x : α) :
    (xs₁ ++ xs₂).insertIdx xs₁.length x = xs₁ ++ x :: xs₂ := by
  induction xs₁ with
  | nil => rfl
  | cons y xs₁ ih => rw [List.cons_append, List.length_cons, List.insertIdx_succ_cons, ih, List.cons_append]

/-- The sequence of the list with a new node. -/
theorem Refines.insertIdx (h : Refines s q nodes) {xs₁ xs₂ : List (Nat × Datum)} (hxs : nodes i = xs₁ ++ xs₂)
    (x : Nat × Datum) : (q.lists i).insertIdx xs₁.length x.2 = (xs₁ ++ x :: xs₂).map Prod.snd := by
  rw [← h.data i, ← List.map_insertIdx, hxs, insertIdx_append]

/-- `insertIntoSList` -/
theorem Refines.insert (h : Refines s q nodes) (hindex : 0 ≤ index)
    (hlen : ((q.insert i index dataSize memory).lists i).length < 2 ^ 31) :
    ∃ mem l r, SLists.insertIntoSList s.mem (s.headers i) index dataSize memory = some (mem, l, r) ∧
      ∃ nodes', Refines (s.setList i mem l) (q.insert i index dataSize memory) nodes' := by
  rcases Decidable.em (0 ≤ index ∧ index ≤ (q.lists i).length ∧ 1 + blocksOf dataSize ≤ memory) with hin | hout
  · unfold Seqs.insert at hlen ⊢
    rw [if_pos hin] at hlen ⊢
    obtain ⟨-, hle, hmemory⟩ := hin
    rw [← h.data i, List.length_map] at hle
    obtain ⟨xs₁, xs₂, hxs, rfl⟩ := exists_split _ hindex hle
    rcases hdata : q.blocks.newData dataSize with ⟨blocks, d⟩
    rw [hdata] at hlen
    have hseq := h.insertIdx hxs (s.mem.nodes.fresh, d)
    dsimp only [Function.update_self, Int.toNat_natCast] at hlen hseq ⊢
    rw [Function.update_self, hseq, List.length_map, List.length_append, List.length_cons] at hlen
    have hsize : (xs₁ ++ xs₂).length + 1 < 2 ^ 31 := by
      rw [List.length_append]
      omega
    obtain ⟨m', l', hinsert, hnodes, hc⟩ :=
      (hxs ▸ h.held.list i).insertInto hmemory hsize (h.blocks.symm ▸ hdata)
    refine ⟨⟨m', blocks⟩, l', _, hinsert,
      Function.update nodes i (xs₁ ++ (s.mem.nodes.fresh, d) :: xs₂), ?_⟩
    rw [hseq]
    exact h.change hnodes (hxs ▸ hc)
  · have hnull : index > (s.headers i).size ∨ memory < 1 + blocksOf dataSize := by
      rw [h.size]
      omega
    refine ⟨_, _, _, insertIntoSList_null hnull, nodes, ?_⟩
    unfold Seqs.insert
    rw [if_neg hout, SLists.setList_self]
    exact h

/-- `insertDataIntoSList` -/
theorem Refines.insertData (h : Refines s q nodes) (hindex : 0 ≤ index)
    (hlen : ((q.insertData i index data memory).lists i).length < 2 ^ 31) :
    ∃ mem l r, SLists.insertDataIntoSList s.mem (s.headers i) index data memory = some (mem, l, r) ∧
      ∃ nodes', Refines (s.setList i mem l) (q.insertData i index data memory) nodes' := by
  rcases Decidable.em (0 ≤ index ∧ index ≤ (q.lists i).length ∧ 1 ≤ memory) with hin | hout
  · unfold Seqs.insertData at hlen ⊢
    rw [if_pos hin] at hlen ⊢
    obtain ⟨-, hle, hmemory⟩ := hin
    rw [← h.data i, List.length_map] at hle
    obtain ⟨xs₁, xs₂, hxs, rfl⟩ := exists_split _ hindex hle
    have hseq := h.insertIdx hxs (s.mem.nodes.fresh, ⟨data, 0⟩)
    unfold Seqs.setList at hlen ⊢
    dsimp only [Int.toNat_natCast] at hlen hseq ⊢
    rw [Function.update_self, hseq, List.length_map, List.length_append, List.length_cons] at hlen
    have hsize : (xs₁ ++ xs₂).length + 1 < 2 ^ 31 := by
      rw [List.length_append]
      omega
    obtain ⟨m', l', hinsert, hnodes, hc⟩ := (hxs ▸ h.held.list i).insertDataInto hmemory hsize data
    refine ⟨⟨m', s.mem.blocks⟩, l', _, hinsert,
      Function.update nodes i (xs₁ ++ (s.mem.nodes.fresh, ⟨data, 0⟩) :: xs₂), ?_⟩
    rw [hseq, ← h.blocks]
    exact h.change hnodes (hxs ▸ hc)
  · have hnull : index > (s.headers i).size ∨ memory < 1 + blocksOf 0 := by
      rw [h.size, show blocksOf 0 = 0 from rfl]
      omega
    refine ⟨s.mem, s.headers i, false, ?_, nodes, ?_⟩
    · unfold SLists.insertDataIntoSList
      rw [insertIntoSList_null hnull]
      rfl
    · unfold Seqs.insertData
      rw [if_neg hout, SLists.setList_self]
      exact h

end Insert

/-- `deleteFromSList` -/
theorem Refines.delete (h : Refines s q nodes) (i data : Nat) :
    ∃ m l r, SLists.deleteFromSList s.mem.nodes (s.headers i) data = some (m, l, r) ∧
      ∃ nodes', Refines (s.setList i { s.mem with nodes := m } l)
        (q.setList i ((q.lists i).eraseP fun d => d.data = data)) nodes' := by
  rcases Decidable.em (∃ x ∈ nodes i, x.2.data = data) with ⟨x, hx, hdata⟩ | hnone
  · obtain ⟨⟨a, d⟩, xs₁, xs₂, hxs₁, hd, hsplit, herase⟩ :=
      List.exists_of_eraseP (p := fun x => decide (x.2.data = data)) hx (decide_eq_true hdata)
    obtain rfl := of_decide_eq_true hd
    obtain ⟨m', l', hdelete, hnodes, hc⟩ := (hsplit ▸ h.held.list i).deleteData fun x hx heq =>
      hxs₁ x hx (decide_eq_true heq)
    refine ⟨m', l', true, hdelete, _, h.setList hnodes (hsplit ▸ hc) ?_⟩
    rw [← h.data i, List.eraseP_map]
    exact congrArg _ herase
  · have habsent : ∀ x ∈ nodes i, x.2.data ≠ data := fun x hx heq => hnone ⟨x, hx, heq⟩
    refine ⟨_, _, false, (h.held.list i).deleteData_absent habsent, nodes, ?_⟩
    rw [List.eraseP_of_forall_not, Seqs.setList_self]
    · exact (SLists.setList_self s i).symm ▸ h
    · intro d hd hdata
      rw [← h.data i] at hd
      obtain ⟨x, hx, rfl⟩ := List.mem_map.mp hd
      exact habsent x hx (of_decide_eq_true hdata)

/-- `shiftFromSList` -/
theorem Refines.shift (h : Refines s q nodes) (i : Nat) :
    ∃ m l r, SLists.shiftFromSList s.mem.nodes (s.headers i) = some (m, l, r) ∧
      ∃ nodes', Refines (s.setList i { s.mem with nodes := m } l) (q.setList i (q.lists i).tail) nodes' := by
  rcases hnodes : nodes i with _ | ⟨⟨a, d⟩, xs⟩
  · have hempty : q.lists i = [] := by
      rw [← h.data i, hnodes]
      rfl
    have hsize : (s.headers i).size = 0 := by
      rw [h.size i, hempty]
      rfl
    refine ⟨s.mem.nodes, s.headers i, 0, ?_, nodes, ?_⟩
    · unfold SLists.shiftFromSList
      rw [if_pos hsize]
    · have hself := Seqs.setList_self q i
      rw [hempty] at hself ⊢
      rw [List.tail_nil, hself]
      exact (SLists.setList_self s i).symm ▸ h
  · obtain ⟨m', l', hshift, hheld, hc⟩ := (hnodes ▸ h.held.list i).shift
    refine ⟨m', l', _, hshift, _, h.setList hheld (hnodes ▸ hc) ?_⟩
    rw [← h.data i, hnodes]
    rfl

section Copy

variable {memory : Nat}

theorem Seqs.copy_nil {data : List Datum} (h : q.blocks.copyWithin memory data = (q.blocks, [])) :
    q.copy i memory data = q := by
  unfold Seqs.copy
  rw [h]
  dsimp only
  rw [List.append_nil, Function.update_eq_self]

/-- `copySList` -/
theorem Refines.copyList {junk : Option Nat} (h : Refines s q nodes)
    (hok : q.lists j ≠ [] → i ≠ j ∧ CopyFits (q.lists i) (q.lists j) memory)
    (hlen : ((q.copy i memory (q.lists j)).lists i).length < 2 ^ 31) :
    ∃ mem l r, SLists.copySList s.mem (s.headers i) (s.headers j) memory junk = some (mem, l, r) ∧
      ∃ nodes', Refines (s.setList i mem l) (q.copy i memory (q.lists j)) nodes' := by
  rcases eq_or_ne (q.lists j) [] with hempty | hne
  · have hsize : (s.headers j).size = 0 := by
      rw [h.size j, hempty]
      rfl
    refine ⟨s.mem, s.headers i, none, ?_, nodes, ?_⟩
    · unfold SLists.copySList
      rw [if_pos hsize]
    · rw [hempty, Seqs.copy_nil rfl, SLists.setList_self]
      exact h
  · obtain ⟨hij, hfits⟩ := hok hne
    rcases hcopies : q.blocks.copyWithin memory (q.lists j) with ⟨blocks, copies⟩
    unfold Seqs.copy at hlen ⊢
    rw [hcopies] at hlen ⊢
    dsimp only at hlen ⊢
    rw [Function.update_self, List.length_append] at hlen
    have hsize : (nodes i).length + copies.length < 2 ^ 31 := by
      rwa [← h.data i, List.length_map] at hlen
    rw [← h.data j] at hne
    rw [← h.data i, ← h.data j] at hfits
    rw [← h.data j, ← h.blocks] at hcopies
    obtain ⟨m', l', r, news, hcopy, rfl, hnodes, hc⟩ := (h.held.list i).copyList (h.held.list j)
      (fun heq => hne (congrArg _ heq)) (h.held.disjoint i j hij) hfits hcopies hsize
    refine ⟨_, _, _, hcopy, Function.update nodes i (nodes i ++ news), ?_⟩
    rw [← h.data i, ← List.map_append]
    exact h.change hnodes hc

/-- `copySListNode`, of data that the list has not allocated if there is memory. -/
theorem Refines.copyNode {xs₁ xs₂ : List (Nat × Datum)} {a : Nat} {d : Datum} (h : Refines s q nodes)
    (hnodes : nodes j = xs₁ ++ (a, d) :: xs₂) (hok : d.allocSize = 0 ∨ memory < 1 + blocksOf d.allocSize)
    (hlen : ((q.copy i memory [d]).lists i).length < 2 ^ 31) :
    ∃ mem l r, SLists.copySListNode s.mem (s.headers i) a memory = some (mem, l, r) ∧
      ∃ nodes', Refines (s.setList i mem l) (q.copy i memory [d]) nodes' := by
  have hcell : s.mem.nodes.cells a = some ⟨d, headPtr xs₂⟩ :=
    (hnodes ▸ h.held.list j : Nodes s.mem.nodes (s.headers j) (xs₁ ++ (a, d) :: xs₂)).twoLists.cell
  rcases Nat.lt_or_ge memory (1 + blocksOf d.allocSize) with hshort | hmemory
  · refine ⟨_, _, _, copySListNode_null hcell hshort, nodes, ?_⟩
    rw [Seqs.copy_nil, SLists.setList_self]
    · exact h
    · rw [Blocks.copyWithin, if_pos hshort]
  · obtain ⟨data, allocSize⟩ := d
    obtain rfl : allocSize = 0 := hok.resolve_right (Nat.not_lt.mpr hmemory)
    have hcopy : q.copy i memory [⟨data, 0⟩] =
        ⟨Function.update q.lists i (q.lists i ++ [⟨data, 0⟩]), q.blocks⟩ := by
      unfold Seqs.copy
      rw [Blocks.copyWithin, if_neg (Nat.not_lt.mpr hmemory)]
      rfl
    rw [hcopy] at hlen ⊢
    dsimp only at hlen
    rw [Function.update_self, List.length_append, ← h.data i, List.length_map] at hlen
    obtain ⟨m', l', r, hrun, hx, hc⟩ := (h.held.list i).copyNode hcell hmemory hlen
    refine ⟨_, _, _, hrun, _, h.setList hx hc ?_⟩
    rw [List.map_append, h.data i]
    rfl

end Copy

theorem Seqs.move_nil (q : Seqs) (i j : Nat) : q.move i j (q.lists j) [] = q := by
  unfold Seqs.move
  rw [Seqs.setList_self]
  dsimp only
  rw [List.append_nil, Seqs.setList_self]

/-- `moveSList` -/
theorem Refines.moveList (h : Refines s q nodes) (hij : q.lists j ≠ [] → i ≠ j)
    (hlen : ((q.move i j [] (q.lists j)).lists i).length < 2 ^ 31) :
    ∃ s' r, SLists.moveSList s i j = some (s', r) ∧
      ∃ nodes', Refines s' (q.move i j [] (q.lists j)) nodes' := by
  rcases eq_or_ne (q.lists j) [] with hempty | hne
  · have hsize : (s.headers j).size = 0 := by
      rw [h.size j, hempty]
      rfl
    refine ⟨s, none, ?_, nodes, ?_⟩
    · unfold SLists.moveSList
      dsimp only
      rw [if_pos hsize]
    · have hself := Seqs.move_nil q i j
      rw [hempty] at hself ⊢
      rwa [hself]
  · have hij := hij hne
    have hx := h.held.list i
    have hy := h.held.list j
    have hnodes : nodes j ≠ [] := by
      intro hempty
      rw [← h.data j, hempty] at hne
      exact hne rfl
    obtain ⟨m', hset, hc, hjoin⟩ := hx.join hy (h.held.disjoint i j hij) hnodes
    have hleft : Nodes m' { s.headers j with root := none, size := 0 } [] :=
      ⟨rfl, fun hne => absurd rfl hne, rfl, List.nodup_nil, fun _ hmem => nomatch hmem⟩
    refine ⟨_, (s.headers j).root, ?_, _, h.move hij hjoin hleft (List.disjoint_nil_right _) ?_ rfl ?_⟩
    · have hsize : (s.headers j).size ≠ 0 := hy.size_eq_zero.not.mpr hnodes
      have hsum : (s.headers i).size + (s.headers j).size < 2 ^ 31 := by
        unfold Seqs.move Seqs.setList at hlen
        dsimp only at hlen
        rw [Function.update_self, Function.update_of_ne hij, List.length_append] at hlen
        rw [h.size i, h.size j]
        omega
      rw [← hx.setLast] at hset
      unfold SLists.moveSList
      dsimp only
      rw [if_neg hsize]
      rcases eq_or_ne (s.headers i).size 0 with hzero | hpos
      · rw [if_pos hzero] at hset
        obtain rfl := Option.some.inj hset
        rw [if_pos hzero, if_pos hzero, hzero, Int.zero_add]
        dsimp only [Option.bind_eq_bind, Option.bind_some]
        rw [Function.update_of_ne hij.symm]
      · rw [if_neg hpos] at hset
        have hadd : SLists.addSize (s.headers i).size (s.headers j).size =
            some ((s.headers i).size + (s.headers j).size) := if_pos hsum
        obtain ⟨last, hlast, hset⟩ := Option.bind_eq_some_iff.mp hset
        rw [if_neg hpos, if_neg hpos, hlast]
        dsimp only [Option.bind_eq_bind, Option.bind_some]
        rw [hset]
        dsimp only [Option.bind_some]
        rw [hadd]
        dsimp only [Option.bind_some]
        rw [Function.update_of_ne hij.symm]
    · rw [List.append_nil]
      exact hc
    · rw [List.map_append, h.data i, h.data j]

/-- `moveSListNode`, as the writes to the nodes. -/
theorem moveSListNode_eq {m₁ : SListMem Datum} {prevNode next : Option Nat}
    (h : Nodes s.mem.nodes (s.headers i) xs) (hlink : setBehind s.mem.nodes (lastPtr xs) (some a) = some m₁)
    (hsize : (s.headers i).size + 1 < 2 ^ 31) (hcell : m₁.cells a = some ⟨d, next⟩)
    (hrelink : ((setBehind m₁ prevNode next).bind fun m => m.setNext a none) = some m')
    {headers : Nat → SList} (hheaders : headers = Function.update s.headers i
      ⟨if (s.headers i).size = 0 then some a else (s.headers i).root, some a, (s.headers i).size + 1⟩) :
    SLists.moveSListNode s i j a prevNode = some ⟨{ s.mem with nodes := m' }, Function.update headers j
      { headers j with
        root := if prevNode.isNone then next else (headers j).root, size := (headers j).size - 1 }⟩ := by
  have hinc : incSize (s.headers i).size = some ((s.headers i).size + 1) := if_pos hsize
  obtain ⟨m₂, hset, hrelink⟩ := Option.bind_eq_some_iff.mp hrelink
  have hlast := h.setLast (some a)
  rw [hlink] at hlast
  unfold SLists.moveSListNode
  dsimp only [Option.bind_eq_bind]
  rcases eq_or_ne (s.headers i).size 0 with hzero | hpos
  · rw [if_pos hzero] at hlast
    rw [if_pos hzero, hlast, Option.bind_some, hinc, Option.bind_some, hcell, Option.bind_some, ← hheaders,
      hset, Option.bind_some, hrelink]
    rfl
  · rw [if_neg hpos] at hlast
    obtain ⟨last, hlast, hnext⟩ := Option.bind_eq_some_iff.mp hlast
    rw [if_neg hpos, hlast, Option.bind_some, hnext, Option.bind_some, hinc, Option.bind_some, hcell,
      Option.bind_some, ← hheaders, hset, Option.bind_some, hrelink]
    rfl

/-- The node of a list goes to its end. -/
theorem Refines.moveNode_self (h : Refines s q nodes) (hnodes : nodes i = xs₁ ++ (a, d) :: xs₂)
    (hsize : (q.lists i).length + 1 < 2 ^ 31) :
    ∃ s', SLists.moveSListNode s i i a (lastPtr xs₁) = some s' ∧
      ∃ nodes', Refines s' (q.setList i ((xs₁ ++ xs₂ ++ [(a, d)]).map Prod.snd)) nodes' := by
  have hx := h.held.list i
  rw [hnodes] at hx
  have hpos : (s.headers i).size ≠ 0 := hx.size_eq_zero.not.mpr (by simp)
  have hinc : (s.headers i).size + 1 < 2 ^ 31 := by
    rw [h.size i]
    omega
  obtain ⟨m₁, next, m', hlink, hcell, hrelink, hmoved, hc⟩ := hx.moveToEnd
  rw [← hnodes] at hc
  have hrun := moveSListNode_eq (j := i) hx hlink hinc hcell hrelink rfl
  rw [Function.update_idem, Function.update_self, if_neg hpos, Int.add_sub_cancel] at hrun
  exact ⟨_, hrun, _, h.setList hmoved hc rfl⟩

/-- A node goes from one list to another; it is not the last one of several. -/
theorem Refines.moveNode_other (h : Refines s q nodes) (hij : i ≠ j) (hnodes : nodes j = xs₁ ++ (a, d) :: xs₂)
    (hlast : xs₂ = [] → xs₁ = []) (hsize : (q.lists i).length + 1 < 2 ^ 31) :
    ∃ s', SLists.moveSListNode s i j a (lastPtr xs₁) = some s' ∧
      ∃ nodes', Refines s' (q.move i j ((xs₁ ++ xs₂).map Prod.snd) [d]) nodes' := by
  have hx := h.held.list i
  have hy := h.held.list j
  have hdisj := h.held.disjoint i j hij
  rw [hnodes] at hy hdisj
  have hinc : (s.headers i).size + 1 < 2 ^ 31 := by
    rw [h.size i]
    omega
  obtain ⟨m₁, m', hlink, hcell, hrelink, hdest, hsource, hdisj', hc⟩ := hx.moveTo hy hdisj hlast
  rw [← hnodes] at hc
  have hrun := moveSListNode_eq (j := j) hx hlink hinc hcell hrelink rfl
  rw [Function.update_of_ne hij.symm] at hrun
  refine ⟨_, hrun, _, h.move hij hdest hsource hdisj' hc rfl ?_⟩
  rw [List.map_append, h.data i]
  rfl

end Calls

/-! ## Runs -/

section Calls

variable {s : SLists} {q : Seqs} {nodes : Nat → List (Nat × Datum)} {i j index : Nat}

/-- The node at an index, and the element of the sequence. -/
theorem Refines.nodeAt (h : Refines s q nodes) (hindex : index < (q.lists j).length) :
    ∃ xs₁ a d xs₂, nodes j = xs₁ ++ (a, d) :: xs₂ ∧ index = xs₁.length ∧ (q.lists j)[index]? = some d ∧
      (q.lists j).eraseIdx index = (xs₁ ++ xs₂).map Prod.snd := by
  rw [← h.data j] at hindex ⊢
  rw [List.length_map] at hindex
  refine ⟨(nodes j).take index, (nodes j)[index].1, (nodes j)[index].2, (nodes j).drop (index + 1),
    ?_, ?_, ?_, ?_⟩
  · rw [← List.drop_eq_getElem_cons hindex, List.take_append_drop]
  · rw [List.length_take, Nat.min_eq_left (Nat.le_of_lt hindex)]
  · rw [List.getElem?_map, List.getElem?_eq_getElem hindex]
    rfl
  · rw [List.eraseIdx_map, List.eraseIdx_eq_take_drop_succ]

/-- `moveSListNode` with the node at an index and the one in front of it. -/
theorem Refines.moveNode (h : Refines s q nodes) (hindex : index < (q.lists j).length)
    (hok : if i = j then (q.lists j).length + 1 < 2 ^ 31 else index + 1 = (q.lists j).length → index = 0)
    (hlen : ((q.change (.moveNode i j index)).lists i).length < 2 ^ 31) :
    ∃ s', s.change (.moveNode i j index) = some s' ∧
      ∃ nodes', Refines s' (q.change (.moveNode i j index)) nodes' := by
  obtain ⟨xs₁, a, d, xs₂, hnodes, rfl, hget, herase⟩ := h.nodeAt hindex
  have hy : Nodes s.mem.nodes (s.headers j) (xs₁ ++ (a, d) :: xs₂) := hnodes ▸ h.held.list j
  have hrun : s.change (.moveNode i j xs₁.length) = SLists.moveSListNode s i j a (lastPtr xs₁) := by
    unfold SLists.change
    dsimp only
    rw [hy.getNode, hy.getPrev]
    rfl
  unfold Seqs.change at hlen ⊢
  dsimp only at hlen ⊢
  rw [hget, herase] at hlen ⊢
  rw [hrun]
  rcases eq_or_ne i j with rfl | hij
  · rw [if_pos rfl] at hok
    obtain ⟨s', hmove, nodes', href⟩ := h.moveNode_self hnodes hok
    refine ⟨s', hmove, nodes', ?_⟩
    unfold Seqs.move Seqs.setList
    dsimp only
    rw [Function.update_idem, Function.update_self]
    rwa [List.map_append] at href
  · rw [if_neg hij] at hok
    unfold Seqs.move Seqs.setList at hlen
    dsimp only [Option.toList] at hlen
    rw [Function.update_self, Function.update_of_ne hij, List.length_append, List.length_singleton] at hlen
    refine h.moveNode_other hij hnodes (fun hnil => ?_) hlen
    subst hnil
    have hlast := hok (by rw [← h.data j, hnodes]; simp)
    exact List.length_eq_zero_iff.mp hlast

/-- A call that meets the condition is defined, and the lists refine the sequences after it. -/
theorem Refines.step (h : Refines s q nodes) (op : ListOp) (hok : ListOpOk q op) :
    ∃ s', s.change op = some s' ∧ ∃ nodes', Refines s' (q.change op) nodes' := by
  obtain ⟨hlen, hop⟩ := hok
  cases op with
  | append list dataSize memory =>
    obtain ⟨mem, l, r, hrun, href⟩ := h.insert (Int.natCast_nonneg _) hlen
    refine ⟨s.setList list mem l, ?_, href⟩
    unfold SLists.change SLists.appendToSList
    dsimp only
    rw [h.size, hrun]
    rfl
  | appendData list data memory =>
    obtain ⟨mem, l, r, hrun, href⟩ := h.insertData (Int.natCast_nonneg _) hlen
    refine ⟨s.setList list mem l, ?_, href⟩
    unfold SLists.change SLists.appendDataToSList
    dsimp only
    rw [h.size, hrun]
    rfl
  | insert list index dataSize memory =>
    obtain ⟨mem, l, r, hrun, href⟩ := h.insert hop hlen
    exact ⟨s.setList list mem l, congrArg (Option.map _) hrun, href⟩
  | insertData list index data memory =>
    obtain ⟨mem, l, r, hrun, href⟩ := h.insertData hop hlen
    exact ⟨s.setList list mem l, congrArg (Option.map _) hrun, href⟩
  | delete list data =>
    obtain ⟨m, l, r, hrun, href⟩ := h.delete list data
    exact ⟨s.setList list { s.mem with nodes := m } l, congrArg (Option.map _) hrun, href⟩
  | shift list =>
    obtain ⟨m, l, r, hrun, href⟩ := h.shift list
    exact ⟨s.setList list { s.mem with nodes := m } l, congrArg (Option.map _) hrun, href⟩
  | copyList dest source memory junk =>
    obtain ⟨mem, l, r, hrun, href⟩ := h.copyList hop hlen
    exact ⟨s.setList dest mem l, congrArg (Option.map _) hrun, href⟩
  | copyNode dest source index memory =>
    obtain ⟨data, hdata, hok⟩ := hop
    obtain ⟨xs₁, a, d, xs₂, hnodes, rfl, hget, -⟩ := h.nodeAt (List.getElem?_eq_some_iff.mp hdata).1
    obtain rfl : d = data := Option.some.inj (hget.symm.trans hdata)
    have hy : Nodes s.mem.nodes (s.headers source) (xs₁ ++ (a, d) :: xs₂) := hnodes ▸ h.held.list source
    unfold Seqs.change at hlen ⊢
    dsimp only at hlen ⊢
    rw [hget] at hlen ⊢
    obtain ⟨mem, l, r, hrun, href⟩ := h.copyNode hnodes hok hlen
    refine ⟨s.setList dest mem l, ?_, href⟩
    unfold SLists.change
    dsimp only [Option.bind_eq_bind]
    rw [hy.getNode, Option.bind_some, hrun]
    rfl
  | moveList dest source =>
    obtain ⟨s', r, hrun, href⟩ := h.moveList hop hlen
    exact ⟨s', congrArg (Option.map _) hrun, href⟩
  | moveNode dest source index => exact h.moveNode hop.1 hop.2 hlen

theorem Refines.start (blocks : Blocks) (last : Nat → Option Nat) :
    Refines (SLists.start blocks last) ⟨fun _ => [], blocks⟩ fun _ => [] where
  held := ⟨fun _ => ⟨rfl, fun hne => absurd rfl hne, rfl, List.nodup_nil, fun _ h => nomatch h⟩,
    fun _ _ _ => List.disjoint_nil_left _⟩
  data _ := rfl
  blocks := rfl

end Calls

/-- In every run of which the calls meet the condition, every list stands for the sequence that the
operations on sequences give. -/
theorem slists_refine (blocks : Blocks) (last : Nat → Option Nat) (ops : List ListOp)
    (h : EachStep listStep (fun state op => ListOpOk state.2 op) (listStart blocks last) ops) :
    Always listStep AllStandFor (listStart blocks last) ops := by
  have hrun : Always listStep (fun state => ∃ s nodes, state.1 = some s ∧ Refines s state.2 nodes)
      (listStart blocks last) ops := by
    refine always_of_eachStep ?_ ⟨_, _, rfl, Refines.start blocks last⟩ h
    rintro ⟨lists, q⟩ op ⟨s, nodes, rfl, href⟩ hok
    obtain ⟨s', hchange, nodes', href'⟩ := href.step op hok
    exact ⟨s', nodes', hchange, href'⟩
  intro before after heq
  obtain ⟨s, nodes, hs, href⟩ := hrun before after heq
  refine ⟨s, hs, href.blocks, fun list => ⟨nodes list, ?_, href.data list, ?_, ?_⟩⟩
  · exact (href.held.list list).chain
  · exact (href.held.list list).size
  · exact (href.held.list list).last

/-- Two lists, of which one is copied and moved, node by node and as a whole. -/
theorem slists_refine_two :
    Always listStep AllStandFor (listStart ⟨fun _ => [], 1⟩ fun _ => none)
      [.appendData 0 7 1, .append 0 4 2, .insertData 0 1 8 1, .copyList 1 0 5 none, .moveNode 1 0 0,
        .copyNode 0 1 0 1, .delete 1 8, .moveNode 1 1 0, .shift 1, .insert 1 0 2 2, .moveList 0 1] := by
  refine slists_refine _ _ _ ?_
  refine eachStep_cons.mpr ⟨by decide, eachStep_cons.mpr ⟨by decide, eachStep_cons.mpr ⟨by decide,
    eachStep_cons.mpr ⟨by decide, eachStep_cons.mpr ⟨by decide, eachStep_cons.mpr ⟨by decide,
      eachStep_cons.mpr ⟨by decide, eachStep_cons.mpr ⟨by decide, eachStep_cons.mpr ⟨by decide,
        eachStep_cons.mpr ⟨by decide, eachStep_cons.mpr ⟨by decide, eachStep_nil⟩⟩⟩⟩⟩⟩⟩⟩⟩⟩⟩

/-- The last node of the list 0 is moved to the list 1, and data is appended to the list 0. -/
def movedLast : List ListOp := [.appendData 0 7 1, .appendData 0 8 1, .moveNode 1 0 1, .appendData 0 9 1]

/-- A list is moved to itself. -/
def movedToItself : List ListOp := [.appendData 0 7 1, .moveList 0 0]

/-- The data of a list, as a loop over it meets it. -/
def SLists.dataOf (s : SLists) (list : Nat) : Option (List Nat) :=
  (nodesOf s.mem.nodes s.mem.nodes.fresh (s.headers list).root).map fun nodes => nodes.map (·.2.data)

/-- The pointer `last` stays at the node that has been moved, so that the data goes to the other list. A list
that is moved to itself is empty. -/
theorem slists_lose_data :
    ¬ Always listStep AllStandFor (listStart ⟨fun _ => [], 1⟩ fun _ => none) movedLast ∧
      (movedLast.foldl listStep (listStart ⟨fun _ => [], 1⟩ fun _ => none)).1.map
        (fun s => ((s.headers 0).size, s.dataOf 0, s.dataOf 1)) = some (2, some [7], some [8, 9]) ∧
      ¬ Always listStep AllStandFor (listStart ⟨fun _ => [], 1⟩ fun _ => none) movedToItself := by
  refine ⟨fun h => ?_, by decide, fun h => ?_⟩
  · obtain ⟨s, hs, -, hstand⟩ := h movedLast [] (List.append_nil _).symm
    have hrun : ∀ r ∈ (movedLast.foldl listStep (listStart ⟨fun _ => [], 1⟩ fun _ => none)).1,
        (r.headers 0).size = 2 ∧ nodesOf r.mem.nodes 2 (r.headers 0).root = some [(0, ⟨7, 0⟩)] := by decide
    obtain ⟨hsize, hone⟩ := hrun s hs
    obtain ⟨nodes, hchain, -, hlen, -⟩ := hstand 0
    have htwo : nodes.length = 2 := by
      rw [hsize] at hlen
      omega
    rw [nodesOf_chain hchain (Nat.le_of_eq htwo)] at hone
    rw [Option.some.inj hone] at htwo
    cases htwo
  · obtain ⟨s, hs, -, hstand⟩ := h movedToItself [] (List.append_nil _).symm
    have hrun : ∀ r ∈ (movedToItself.foldl listStep (listStart ⟨fun _ => [], 1⟩ fun _ => none)).1,
        (r.headers 0).size = 0 := by decide
    have hseq : ((movedToItself.foldl listStep
        (listStart ⟨fun _ => [], 1⟩ fun _ => none)).2.lists 0).length = 1 := by decide
    obtain ⟨nodes, -, hdata, hlen, -⟩ := hstand 0
    rw [← hdata, List.length_map] at hseq
    rw [hrun s hs, hseq] at hlen
    cases hlen

end SrxSuite.Util

import SrxSuite.Quagga.BgpsecPath
import SrxSuite.Util.SList

/-!
# BGPsec attributes in memory

The structures of an attribute in memory, `bgpsecDup` with the three loops that copy its lists, and
`bgpsec_path_free` (`bgpd/bgp_validate.c`). The loops are `concatNodes`, which copies the nodes of one
list to another: a node is added to the copy for each further node of the original.

Results:
1. `concatNodes_eq`: the copy that `concatNodes` makes, next to an unchanged original.
2. `bgpsecDup_eq`: the duplicate of an attribute. It has the signatures of the first block only:
   `concatSigBlock` gives the blocks it adds no signature to copy to.
-/

namespace SrxSuite.Quagga

open Util SListLemmas

/-! ## Lists of nodes -/

section Nodes

variable {α σ : Type}

/-- A new node. -/
def newNode (m : SListMem α) (data : α) : SListMem α :=
  { m with fresh := m.fresh + 1 }.write m.fresh ⟨data, none⟩

/-- A loop over a list that changes none of its nodes. -/
def forEachNode (body : σ → α → Option σ) : (fuel : Nat) → SListMem α → Option Nat → σ → Option σ
  | _, _, none, s => some s
  | 0, _, some _, _ => none
  | fuel + 1, m, some a, s => do
    let n ← m.cells a
    let s ← body s n.data
    forEachNode body fuel m n.next s

/-- A loop that frees the nodes of a list. -/
def freeNodes : (fuel : Nat) → SListMem α → Option Nat → Option (SListMem α)
  | _, m, none => some m
  | 0, _, some _ => none
  | fuel + 1, m, some a => do
    let n ← m.cells a
    freeNodes fuel (m.free a) n.next

/-- The loops of `concatPathSegment`, `concatSigSegment` and `concatSigBlock`: `pnt` is the node that is
filled, `src` the node it is filled from. `copy` may change a state of its own. -/
def concatNodes (blank : α) (copy : σ → α → α → Option (σ × α)) : (fuel : Nat) → σ → SListMem α →
    (pnt src : Option Nat) → Option (σ × SListMem α)
  | _, s, m, none, _ => some (s, m)
  | 0, _, _, some _, _ => none
  | fuel + 1, s, m, some pnt, src => do
    let srcNode ← m.cells (← src)
    let node ← m.cells pnt
    let (s, data) ← copy s node.data srcNode.data
    match srcNode.next with
    | none => concatNodes blank copy fuel s (m.write pnt ⟨data, node.next⟩) node.next src
    | some next =>
      concatNodes blank copy fuel s ((newNode m blank).write pnt ⟨data, some m.fresh⟩)
        (some m.fresh) (some next)

/-! ### Specifications -/

/-- The list from `ptr` on has the values `vs`, in nodes that are allocated. -/
def ListAt (m : SListMem α) (ptr : Option Nat) (vs : List α) : Prop :=
  ∃ xs, Chain m.cells ptr xs none ∧ xs.map Prod.snd = vs ∧ ∀ a ∈ addrs xs, a < m.fresh

/-- The nodes below `b` are the same. -/
def SameBelow (b : Nat) (m m' : SListMem α) : Prop := ∀ a < b, m'.cells a = m.cells a

/-- Values at consecutive addresses. -/
def numbered : Nat → List α → List (Nat × α)
  | _, [] => []
  | b, v :: vs => (b, v) :: numbered (b + 1) vs

/-- What the copies of some values are; the first of them goes to a node with the value `old`. -/
def copyAll (blank : α) (copy : σ → α → α → Option (σ × α)) : σ → (old : α) → List α →
    Option (σ × List α)
  | s, _, [] => some (s, [])
  | s, old, v :: vs => do
    let (s, w) ← copy s old v
    let (s, ws) ← copyAll blank copy s blank vs
    some (s, w :: ws)

variable {m m' : SListMem α} {p : Option Nat} {vs : List α} {b : Nat}

theorem SameBelow.refl (b : Nat) (m : SListMem α) : SameBelow b m m := fun _ _ => rfl

theorem SameBelow.trans {m₁ m₂ m₃ : SListMem α} (h : SameBelow b m₁ m₂) (h' : SameBelow b m₂ m₃) :
    SameBelow b m₁ m₃ := fun a ha => (h' a ha).trans (h a ha)

theorem SameBelow.mono {c : Nat} (h : SameBelow b m m') (hle : c ≤ b) : SameBelow c m m' :=
  fun a ha => h a (Nat.lt_of_lt_of_le ha hle)

theorem sameBelow_write {a : Nat} (h : b ≤ a) (n : SListNode α) : SameBelow b m (m.write a n) :=
  fun _ hc => Function.update_of_ne (Nat.ne_of_lt (Nat.lt_of_lt_of_le hc h)) ..

theorem sameBelow_free {a : Nat} (h : b ≤ a) : SameBelow b m (m.free a) :=
  fun _ hc => Function.update_of_ne (Nat.ne_of_lt (Nat.lt_of_lt_of_le hc h)) ..

theorem sameBelow_newNode (v : α) : SameBelow m.fresh m (newNode m v) :=
  sameBelow_write (Nat.le_refl _) _

theorem ListAt.same (h : ListAt m p vs) (hsame : SameBelow m.fresh m m') (hle : m.fresh ≤ m'.fresh) :
    ListAt m' p vs := by
  obtain ⟨xs, hchain, hvs, hbound⟩ := h
  exact ⟨xs, chain_congr hchain fun a ha => hsame a (hbound a ha), hvs,
    fun a ha => Nat.lt_of_lt_of_le (hbound a ha) hle⟩

theorem chain_nodup {xs : List (Nat × α)} (h : Chain m.cells p xs none) : (addrs xs).Nodup := by
  induction xs generalizing p with
  | nil => exact List.nodup_nil
  | cons x xs ih =>
    obtain ⟨a, v⟩ := x
    have hwhole := h
    obtain ⟨rfl, next, hn, htail⟩ := h
    refine List.nodup_cons.mpr ⟨fun hmem => ?_, ih htail⟩
    -- the list from a second occurrence on would be the whole list
    obtain ⟨⟨c, w⟩, hx, rfl⟩ := List.mem_map.mp hmem
    obtain ⟨pre, post, rfl⟩ := List.append_of_mem hx
    obtain ⟨mid, -, hmid⟩ := chain_append.mp htail
    obtain rfl : mid = some c := hmid.1
    have := congrArg List.length (chain_unique hwhole hmid)
    simp only [List.length_cons, List.length_append] at this
    omega

theorem ListAt.length_le (h : ListAt m p vs) : vs.length ≤ m.fresh := by
  obtain ⟨xs, hchain, rfl, hbound⟩ := h
  have hsub : addrs xs ⊆ List.range m.fresh := fun a ha => List.mem_range.mpr (hbound a ha)
  simpa [addrs] using ((chain_nodup hchain).subperm hsub).length_le

theorem chain_length_le {xs : List (Nat × α)} (h : Chain m.cells p xs none)
    (hbound : ∀ a ∈ addrs xs, a < m.fresh) : xs.length ≤ m.fresh := by
  rw [← List.length_map Prod.snd]
  exact ListAt.length_le ⟨xs, h, rfl, hbound⟩

theorem forEachNode_chain {body : σ → α → Option σ} {fuel : Nat} {s : σ} {xs : List (Nat × α)}
    (h : Chain m.cells p xs none) (hfuel : xs.length ≤ fuel) :
    forEachNode body fuel m p s = (xs.map Prod.snd).foldlM body s := by
  induction xs generalizing fuel p s with
  | nil =>
    obtain rfl : p = none := h
    unfold forEachNode
    rfl
  | cons x xs ih =>
    obtain ⟨a, v⟩ := x
    obtain ⟨rfl, next, hn, htail⟩ := h
    obtain ⟨fuel, rfl⟩ := Nat.exists_eq_succ_of_ne_zero (Nat.pos_iff_ne_zero.mp
      (Nat.lt_of_lt_of_le (Nat.succ_pos _) hfuel))
    unfold forEachNode
    rw [hn, List.map_cons, List.foldlM_cons]
    show (body s v).bind _ = (body s v).bind _
    congr 1
    funext s'
    exact ih htail (Nat.le_of_succ_le_succ hfuel)

/-- The values of a list, one after the other. -/
theorem ListAt.forEachNode_eq {body : σ → α → Option σ} (h : ListAt m p vs) (s : σ) :
    forEachNode body m.fresh m p s = vs.foldlM body s := by
  obtain ⟨xs, hchain, rfl, hbound⟩ := h
  exact forEachNode_chain hchain (chain_length_le hchain hbound)

/-- All nodes of a list are freed, and no others. -/
theorem freeNodes_chain {fuel : Nat} {xs : List (Nat × α)} (h : Chain m.cells p xs none)
    (hfuel : xs.length ≤ fuel) :
    ∃ m', freeNodes fuel m p = some m' ∧ m'.fresh = m.fresh ∧
      ∀ a ∉ addrs xs, m'.cells a = m.cells a := by
  induction xs generalizing fuel p m with
  | nil =>
    obtain rfl : p = none := h
    refine ⟨m, ?_, rfl, fun _ _ => rfl⟩
    unfold freeNodes
    rfl
  | cons x xs ih =>
    obtain ⟨a, v⟩ := x
    have hnodup := chain_nodup h
    obtain ⟨rfl, next, hn, htail⟩ := h
    obtain ⟨fuel, rfl⟩ := Nat.exists_eq_succ_of_ne_zero (Nat.pos_iff_ne_zero.mp
      (Nat.lt_of_lt_of_le (Nat.succ_pos _) hfuel))
    obtain ⟨m', hfree, hfresh, hsame⟩ := @ih (m.free a) next fuel
      (chain_update htail (List.nodup_cons.mp hnodup).1 none) (Nat.le_of_succ_le_succ hfuel)
    refine ⟨m', ?_, hfresh, fun b hb => ?_⟩
    · unfold freeNodes
      rw [hn]
      exact hfree
    · rw [addrs, List.map_cons, List.mem_cons, not_or] at hb
      exact (hsame b hb.2).trans (Function.update_of_ne hb.1 ..)

theorem mem_addrs_numbered {a : Nat} (h : a ∈ addrs (numbered b vs)) :
    b ≤ a ∧ a < b + vs.length := by
  induction vs generalizing b with
  | nil => cases h
  | cons v vs ih =>
    rw [List.length_cons]
    rcases List.mem_cons.mp h with rfl | h
    · exact ⟨Nat.le_refl _, Nat.lt_add_of_pos_right (Nat.succ_pos _)⟩
    · have := ih h
      omega

theorem map_snd_numbered (b : Nat) (vs : List α) : (numbered b vs).map Prod.snd = vs := by
  induction vs generalizing b with
  | nil => rfl
  | cons v vs ih => rw [numbered, List.map_cons, ih]

theorem concatNodes_none {blank : α} {copy : σ → α → α → Option (σ × α)} {fuel : Nat} {s : σ} :
    concatNodes blank copy fuel s m none p = some (s, m) := by
  unfold concatNodes
  rfl

/-- `concatNodes` fills the last node that was allocated, and adds the others behind it. -/
theorem concatNodes_eq {blank old : α} {copy : σ → α → α → Option (σ × α)} {fuel pnt : Nat}
    {s s' : σ} {xs : List (Nat × α)} {ws : List α} (hfresh : m.fresh = pnt + 1)
    (hpnt : m.cells pnt = some ⟨old, none⟩) (hchain : Chain m.cells p xs none) (hne : xs ≠ [])
    (hbound : ∀ a ∈ addrs xs, a < pnt) (hfuel : xs.length ≤ fuel)
    (hcopy : copyAll blank copy s old (xs.map Prod.snd) = some (s', ws)) :
    ∃ m', concatNodes blank copy fuel s m (some pnt) p = some (s', m') ∧
      m'.fresh = pnt + xs.length ∧ Chain m'.cells (some pnt) (numbered pnt ws) none ∧
      SameBelow pnt m m' := by
  induction xs generalizing fuel p m pnt old s s' ws with
  | nil => exact absurd rfl hne
  | cons x xs ih =>
    obtain ⟨a, v⟩ := x
    obtain ⟨rfl, next, hn, htail⟩ := hchain
    obtain ⟨fuel, rfl⟩ := Nat.exists_eq_succ_of_ne_zero (Nat.pos_iff_ne_zero.mp
      (Nat.lt_of_lt_of_le (Nat.succ_pos _) hfuel))
    obtain ⟨⟨s₁, w⟩, hcopy1, hrest⟩ := Option.bind_eq_some_iff.mp hcopy
    obtain ⟨⟨s₂, ws'⟩, hcopy2, hsome⟩ := Option.bind_eq_some_iff.mp hrest
    obtain ⟨rfl, rfl⟩ := Prod.mk.injEq .. ▸ Option.some.inj hsome
    unfold concatNodes
    simp only [Option.bind_eq_bind, Option.bind_some, hn, hpnt, hcopy1]
    cases next with
    | none =>
      obtain rfl : xs = [] := chain_unique htail rfl
      cases hcopy2
      exact ⟨m.write pnt ⟨w, none⟩, concatNodes_none, hfresh,
        ⟨rfl, none, Function.update_self .., rfl⟩, sameBelow_write (Nat.le_refl _) _⟩
    | some next =>
      have hne' : xs ≠ [] := by
        rintro rfl
        cases htail
      have hcells : ∀ c, c < pnt →
          ((newNode m blank).write pnt ⟨w, some m.fresh⟩).cells c = m.cells c := fun c hc =>
        (Function.update_of_ne (Nat.ne_of_lt hc) ..).trans
          (sameBelow_newNode blank c (by omega))
      obtain ⟨m', hrun, hfresh', hchain', hsame⟩ :=
        @ih ((newNode m blank).write pnt ⟨w, some m.fresh⟩) (some next) blank fuel m.fresh s₁ s₂ ws' rfl
          ((Function.update_of_ne (by omega) ..).trans (Function.update_self ..))
          (chain_congr htail fun c hc => hcells c (hbound c (List.mem_cons_of_mem _ hc))) hne'
          (fun c hc => Nat.lt_of_lt_of_le (hbound c (List.mem_cons_of_mem _ hc)) (by omega))
          (Nat.le_of_succ_le_succ hfuel) hcopy2
      refine ⟨m', hrun, by rw [hfresh', hfresh, List.length_cons]; omega, ⟨rfl, some m.fresh, ?_, ?_⟩,
        fun c hc => (hsame c (by omega)).trans (hcells c hc)⟩
      · rw [hsame pnt (by omega)]
        exact Function.update_self ..
      · rw [← hfresh]
        exact hchain'

/-- The copy of a list into a new node with the value `old`. -/
theorem ListAt.concatNodes {blank old : α} {copy : σ → α → α → Option (σ × α)} {s s' : σ}
    {ws : List α} (h : ListAt m p vs) (hne : vs ≠ [])
    (hcopy : copyAll blank copy s old vs = some (s', ws)) :
    ∃ m', Quagga.concatNodes blank copy (m.fresh + 1) s (newNode m old) (some m.fresh) p =
        some (s', m') ∧
      SameBelow m.fresh m m' ∧ m'.fresh = m.fresh + vs.length ∧
      Chain m'.cells (some m.fresh) (numbered m.fresh ws) none := by
  obtain ⟨xs, hchain, rfl, hbound⟩ := h
  have hsame := @sameBelow_newNode _ m old
  obtain ⟨m', hrun, hfresh, hchain', hsame'⟩ := @concatNodes_eq _ _ (newNode m old) p blank old copy
    (m.fresh + 1) m.fresh s s' xs ws rfl (Function.update_self ..)
    (chain_congr hchain fun a ha => hsame a (hbound a ha)) (by rintro rfl; exact hne rfl) hbound
    (Nat.le_succ_of_le (chain_length_le hchain hbound)) hcopy
  exact ⟨m', hrun, hsame.trans hsame', by rw [hfresh, List.length_map], hchain'⟩

end Nodes

/-! ## Attributes -/

/-- An attribute in memory. Reference counters are left out. -/
abbrev AttrPtrs := BgpsecPathAttr (Option Nat) (Option Nat)

/-- The memory of the structures below an attribute. -/
structure Mem where
  segs : SListMem PathSegment
  blocks : SListMem (SigBlock (Option Nat))
  sigs : SListMem SigSegment

def noPathSegment : PathSegment := ⟨0, 0, 0⟩

def noSigSegment : SigSegment := ⟨none, 0, none⟩

def noSigBlock : SigBlock (Option Nat) := ⟨0, 0, none⟩

/-- `concatPathSegment`. -/
def concatPathSegment (m : SListMem PathSegment) (new orig : Option Nat) :
    Option (SListMem PathSegment) :=
  (concatNodes noPathSegment (fun () _ src => some ((), src)) m.fresh () m new orig).map Prod.snd

/-- The body of `concatSigSegment`. -/
def copySigSegment (_ : Unit) (_ src : SigSegment) : Option (Unit × SigSegment) := do
  let ski ← (← src.ski).readAt 0 SKI_LENGTH
  let signature ← (← src.signature).readAt 0 src.sigLen.toNat
  some ((), ⟨some ski, src.sigLen, some signature⟩)

/-- `concatSigSegment`. -/
def concatSigSegment (m : SListMem SigSegment) (new orig : Option Nat) :
    Option (SListMem SigSegment) :=
  (concatNodes noSigSegment copySigSegment m.fresh () m new orig).map Prod.snd

/-- The body of `concatSigBlock`. -/
def copySigBlock (sigs : SListMem SigSegment) (pnt src : SigBlock (Option Nat)) :
    Option (SListMem SigSegment × SigBlock (Option Nat)) :=
  (concatSigSegment sigs pnt.sigSegments src.sigSegments).map fun sigs =>
    (sigs, { src with sigSegments := pnt.sigSegments })

/-- `concatSigBlock`. -/
def concatSigBlock (m : Mem) (new orig : Option Nat) : Option Mem :=
  (concatNodes noSigBlock copySigBlock m.blocks.fresh m.sigs m.blocks new orig).map fun r =>
    { m with sigs := r.1, blocks := r.2 }

/-- `bgpsecSanityCheck`, whether it returns 0. -/
def bgpsecSanityCheck (m : Mem) : Option AttrPtrs → Option Bool
  | none => some false
  | some bpa =>
    match bpa.pathSegments, bpa.sigBlocks with
    | some _, some sb => do
      let block ← m.blocks.cells sb
      match block.data.sigSegments with
      | none => some false
      | some ss => (m.sigs.cells ss).map fun n => n.data.signature.isSome && n.data.ski.isSome
    | _, _ => some false

/-- `bgpsecDup`. -/
def bgpsecDup (m : Mem) (orig : Option AttrPtrs) (newIfNULL : Bool) :
    Option (Mem × Option AttrPtrs) := do
  if ← bgpsecSanityCheck m orig then
    let orig ← orig
    -- `bgpsec_path_attr_all_new`
    let new : AttrPtrs := ⟨orig.securePathLen, some m.segs.fresh, some m.blocks.fresh⟩
    let segs ← concatPathSegment (newNode m.segs noPathSegment) new.pathSegments orig.pathSegments
    let m ← concatSigBlock
      ⟨segs, newNode m.blocks ⟨0, 0, some m.sigs.fresh⟩, newNode m.sigs noSigSegment⟩
      new.sigBlocks orig.sigBlocks
    some (m, some new)
  else some (m, if newIfNULL then some ⟨0, none, none⟩ else none)

/-- `bgpsec_sigBlock_free`. -/
def freeSigBlock (m : Mem) (a : Nat) : Option Mem := do
  let sb ← m.blocks.cells a
  let sigs ← freeNodes m.sigs.fresh m.sigs sb.data.sigSegments
  some { m with sigs := sigs, blocks := m.blocks.free a }

/-- `bgpsec_sigBlock_free_all`. -/
def freeSigBlocks : (fuel : Nat) → Mem → Option Nat → Option Mem
  | _, m, none => some m
  | 0, _, some _ => none
  | fuel + 1, m, some a => do
    let sb ← m.blocks.cells a
    freeSigBlocks fuel (← freeSigBlock m a) sb.next

/-- `bgpsec_path_free`. -/
def bgpsecPathFree (m : Mem) (bpa : AttrPtrs) : Option Mem := do
  let segs ← freeNodes m.segs.fresh m.segs bpa.pathSegments
  freeSigBlocks m.blocks.fresh { m with segs := segs } bpa.sigBlocks

/-! ## Paths in memory -/

/-- The block in memory has the algorithm and the signatures. -/
def BlockAt (m : SListMem SigSegment) (sb : SigBlock (Option Nat)) (b : Block) : Prop :=
  sb.algoSuiteId = b.algoSuiteId ∧ ListAt m sb.sigSegments (b.signatures.map Signature.segment)

/-- The attribute in memory is the one of the path. -/
structure Held (m : Mem) (bpa : AttrPtrs) (p : Path) : Prop where
  length : p.segments ≠ [] → bpa.securePathLen = p.securePathLen
  segments : ListAt m.segs bpa.pathSegments p.segments
  blocks : ∃ sbs, ListAt m.blocks bpa.sigBlocks sbs ∧ List.Forall₂ (BlockAt m.sigs) sbs p.blocks

/-- Everything that was allocated is as it was. -/
structure Extends (m m' : Mem) : Prop where
  segs : SameBelow m.segs.fresh m.segs m'.segs
  blocks : SameBelow m.blocks.fresh m.blocks m'.blocks
  sigs : SameBelow m.sigs.fresh m.sigs m'.sigs
  segsFresh : m.segs.fresh ≤ m'.segs.fresh
  blocksFresh : m.blocks.fresh ≤ m'.blocks.fresh
  sigsFresh : m.sigs.fresh ≤ m'.sigs.fresh

theorem Extends.refl (m : Mem) : Extends m m where
  segs := SameBelow.refl _ _
  blocks := SameBelow.refl _ _
  sigs := SameBelow.refl _ _
  segsFresh := Nat.le_refl _
  blocksFresh := Nat.le_refl _
  sigsFresh := Nat.le_refl _

theorem Extends.trans {m₁ m₂ m₃ : Mem} (h : Extends m₁ m₂) (h' : Extends m₂ m₃) : Extends m₁ m₃ where
  segs := h.segs.trans (h'.segs.mono h.segsFresh)
  blocks := h.blocks.trans (h'.blocks.mono h.blocksFresh)
  sigs := h.sigs.trans (h'.sigs.mono h.sigsFresh)
  segsFresh := Nat.le_trans h.segsFresh h'.segsFresh
  blocksFresh := Nat.le_trans h.blocksFresh h'.blocksFresh
  sigsFresh := Nat.le_trans h.sigsFresh h'.sigsFresh

theorem Held.extends {m m' : Mem} {bpa : AttrPtrs} {p : Path} (h : Held m bpa p)
    (hext : Extends m m') : Held m' bpa p where
  length := h.length
  segments := h.segments.same hext.segs hext.segsFresh
  blocks := by
    obtain ⟨sbs, hsbs, hall⟩ := h.blocks
    exact ⟨sbs, hsbs.same hext.blocks hext.blocksFresh,
      hall.imp fun sb b hb => ⟨hb.1, hb.2.same hext.sigs hext.sigsFresh⟩⟩

/-! ## The duplicate -/

/-- A copy as `bgpsecDup` makes it of the blocks `b :: rest`: the segments, the algorithms of the
blocks, and the signatures of the first block. -/
structure Duplicate (m m' : Mem) (segs : List PathSegment) (b : Block) (rest : List Block) :
    Prop where
  extend : Extends m m'
  segments : Chain m'.segs.cells (some m.segs.fresh) (numbered m.segs.fresh segs) none
  segsFresh : m'.segs.fresh = m.segs.fresh + segs.length
  blocks : ∃ len tail, Chain m'.blocks.cells (some m.blocks.fresh)
      (numbered m.blocks.fresh (⟨len, b.algoSuiteId, some m.sigs.fresh⟩ :: tail)) none ∧
    List.Forall₂ (fun sb c => sb.algoSuiteId = c.algoSuiteId ∧ sb.sigSegments = none) tail rest
  blocksFresh : m'.blocks.fresh = m.blocks.fresh + (rest.length + 1)
  signatures : Chain m'.sigs.cells (some m.sigs.fresh)
    (numbered m.sigs.fresh (b.signatures.map Signature.segment)) none
  sigsFresh : m'.sigs.fresh = m.sigs.fresh + b.signatures.length

section Duplicate

variable {m m' : Mem} {segs : List PathSegment} {b : Block} {rest : List Block}

theorem Duplicate.listAt (h : Duplicate m m' segs b rest) :
    ListAt m'.segs (some m.segs.fresh) segs :=
  ⟨_, h.segments, map_snd_numbered _ _, fun _ ha =>
    Nat.lt_of_lt_of_eq (mem_addrs_numbered ha).2 h.segsFresh.symm⟩

theorem Duplicate.signature_lt (h : Duplicate m m' segs b rest) {a : Nat}
    (ha : a ∈ addrs (numbered m.sigs.fresh (b.signatures.map Signature.segment))) :
    a < m'.sigs.fresh := by
  have hlt := (mem_addrs_numbered ha).2
  rw [List.length_map] at hlt
  exact Nat.lt_of_lt_of_eq hlt h.sigsFresh.symm

end Duplicate

namespace PathMemoryLemmas

theorem copyAll_pathSegments (vs : List PathSegment) (old : PathSegment) :
    copyAll noPathSegment (fun () _ src => some ((), src)) () old vs = some ((), vs) := by
  induction vs generalizing old with
  | nil => rfl
  | cons v vs ih =>
    show (copyAll noPathSegment (fun () _ src => some ((), src)) () noPathSegment vs).bind _ = _
    rw [ih]
    rfl

theorem copySigSegment_segment (g : Signature) (old : SigSegment) :
    copySigSegment () old g.segment = some ((), g.segment) := by
  have hski : g.ski.readAt 0 SKI_LENGTH = some g.ski := by
    rw [← g.skiLength]
    exact (Bytes.holdsAt_self g.ski).readAt_eq
  have hsig : g.signature.readAt 0 (UInt16.ofNat g.signature.length).toNat = some g.signature := by
    rw [UInt16.toNat_ofNat_of_lt' g.signatureLength]
    exact (Bytes.holdsAt_self g.signature).readAt_eq
  unfold copySigSegment Signature.segment
  simp only [Option.bind_eq_bind, Option.bind_some, hski, hsig]

theorem copyAll_sigSegments (gs : List Signature) (old : SigSegment) :
    copyAll noSigSegment copySigSegment () old (gs.map Signature.segment) =
      some ((), gs.map Signature.segment) := by
  induction gs generalizing old with
  | nil => rfl
  | cons g gs ih =>
    rw [List.map_cons]
    unfold copyAll
    rw [copySigSegment_segment]
    show (copyAll noSigSegment copySigSegment () noSigSegment (gs.map Signature.segment)).bind _ = _
    rw [ih]
    rfl

/-- The blocks that are added get no signatures. -/
theorem copyAll_sigBlocks (sigs : SListMem SigSegment) (sbs : List (SigBlock (Option Nat))) :
    copyAll noSigBlock copySigBlock sigs noSigBlock sbs =
      some (sigs, sbs.map fun sb => { sb with sigSegments := none }) := by
  induction sbs with
  | nil => rfl
  | cons sb sbs ih =>
    have hcopy : copySigBlock sigs noSigBlock sb = some (sigs, { sb with sigSegments := none }) := by
      show (concatSigSegment sigs none sb.sigSegments).map _ = _
      unfold concatSigSegment
      rw [concatNodes_none]
      rfl
    unfold copyAll
    rw [hcopy]
    show (copyAll noSigBlock copySigBlock sigs noSigBlock sbs).bind _ = _
    rw [ih]
    rfl

theorem bgpsecSanityCheck_eq {m : Mem} {bpa : AttrPtrs} {p : Path} {b : Block} {rest : List Block}
    (h : Held m bpa p) (hsegs : p.segments ≠ []) (hblocks : p.blocks = b :: rest)
    (hsigs : b.signatures ≠ []) : bgpsecSanityCheck m (some bpa) = some true := by
  obtain ⟨⟨xs, hxs, hsegs', -⟩, sbs, ⟨ys, hys, rfl, -⟩, hall⟩ := h.segments, h.blocks
  rw [hblocks] at hall
  cases xs with
  | nil => exact absurd hsegs'.symm hsegs
  | cons x xs =>
    cases ys with
    | nil => cases hall
    | cons y ys =>
      obtain ⟨a, sb⟩ := y
      obtain ⟨⟨-, zs, hzs, hsigs', -⟩, -⟩ := List.forall₂_cons.mp hall
      obtain ⟨g, gs, hg⟩ := List.exists_cons_of_ne_nil hsigs
      rw [hg, List.map_cons] at hsigs'
      cases zs with
      | nil => cases hsigs'
      | cons z zs =>
        obtain ⟨c, w⟩ := z
        obtain ⟨hz, next, hcell, -⟩ := hzs
        obtain ⟨hy, next', hcell', -⟩ := hys
        obtain rfl : w = g.segment := (List.cons.inj hsigs').1
        have hhead : sb.sigSegments = some c := hz
        unfold bgpsecSanityCheck
        simp only [hxs.1, hy, hcell', hhead, hcell, Option.bind_eq_bind, Option.bind_some]
        rfl

end PathMemoryLemmas

open PathMemoryLemmas

/-- `bgpsecDup` of an attribute with signatures. -/
theorem bgpsecDup_eq {m : Mem} {bpa : AttrPtrs} {p : Path} {b : Block} {rest : List Block}
    (h : Held m bpa p) (hsegs : p.segments ≠ []) (hblocks : p.blocks = b :: rest)
    (hsigs : b.signatures ≠ []) (newIfNULL : Bool) :
    ∃ m', bgpsecDup m (some bpa) newIfNULL =
        some (m', some ⟨p.securePathLen, some m.segs.fresh, some m.blocks.fresh⟩) ∧
      Duplicate m m' p.segments b rest := by
  obtain ⟨sbs, hsbs, hall⟩ := h.blocks
  rw [hblocks] at hall
  obtain ⟨sb, tail, ⟨halgo, hsegments⟩, htail, rfl⟩ := List.forall₂_cons_right_iff.mp hall
  -- the segments, the signatures of the first block, and the blocks
  obtain ⟨segs, hrun, hsame, hfresh, hchain⟩ :=
    h.segments.concatNodes hsegs (copyAll_pathSegments p.segments noPathSegment)
  obtain ⟨sigs, hrun', hsame', hfresh', hchain'⟩ :=
    hsegments.concatNodes (by simpa using hsigs) (copyAll_sigSegments b.signatures noSigSegment)
  have hcopy : copyAll noSigBlock copySigBlock (newNode m.sigs noSigSegment)
      ⟨0, 0, some m.sigs.fresh⟩ (sb :: tail) =
      some (sigs, { sb with sigSegments := some m.sigs.fresh } ::
        tail.map fun sb => { sb with sigSegments := none }) := by
    have hfirst : copySigBlock (newNode m.sigs noSigSegment) ⟨0, 0, some m.sigs.fresh⟩ sb =
        some (sigs, { sb with sigSegments := some m.sigs.fresh }) := by
      unfold copySigBlock concatSigSegment
      rw [show (newNode m.sigs noSigSegment).fresh = m.sigs.fresh + 1 from rfl, hrun']
      rfl
    unfold copyAll
    rw [hfirst]
    show (copyAll noSigBlock copySigBlock sigs noSigBlock tail).bind _ = _
    rw [copyAll_sigBlocks]
    rfl
  obtain ⟨blocks, hrun'', hsame'', hfresh'', hchain''⟩ :=
    hsbs.concatNodes (List.cons_ne_nil _ _) hcopy
  refine ⟨⟨segs, blocks, sigs⟩, ?_, ⟨hsame, hsame'', hsame', ?_, ?_, ?_⟩, hchain, hfresh,
    ⟨sb.sigBlockLen, tail.map fun sb => { sb with sigSegments := none }, ?_, ?_⟩, ?_, hchain', ?_⟩
  · unfold bgpsecDup
    simp only [bgpsecSanityCheck_eq h hsegs hblocks hsigs, Option.bind_eq_bind, Option.bind_some,
      if_true, concatPathSegment, concatSigBlock]
    rw [show (newNode m.segs noPathSegment).fresh = m.segs.fresh + 1 from rfl, hrun, h.length hsegs]
    simp only [Option.map_some, Option.bind_some]
    rw [show (newNode m.blocks ⟨0, 0, some m.sigs.fresh⟩).fresh = m.blocks.fresh + 1 from rfl, hrun'']
    rfl
  · exact hfresh ▸ Nat.le_add_right _ _
  · exact hfresh'' ▸ Nat.le_add_right _ _
  · exact hfresh' ▸ Nat.le_add_right _ _
  · rw [← halgo]
    exact hchain''
  · exact List.forall₂_map_left_iff.mpr (htail.imp fun sb c hb => ⟨hb.1, rfl⟩)
  · rw [hfresh'', List.length_cons, htail.length_eq]
  · rw [hfresh', List.length_map]

end SrxSuite.Quagga

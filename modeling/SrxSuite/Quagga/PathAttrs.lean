import SrxSuite.Quagga.PathMemory

/-!
# Comparing, hashing and copying attributes

The model of `bgpsec_path_attr_cmp`, `bgpsec_path_attr_key_make` and `bgpsec_path_hash_alloc`
(`bgpd/bgp_validate.c`), of `jhash` (`lib/jhash.c`), and of the nodes that `bgpsec_parse` leaves in memory
(`storeAttr`).

`AttrAt m lo hi bpa q` says that the attribute `q` is in memory at `bpa`, with all its nodes between
`lo` and `hi`. Results:
1. `cmpAttrs_eq`: the comparison is equality of the segments and the blocks.
2. `keyMake_eq`: the key of an attribute with one block depends on the attribute only.
3. `hashAlloc_eq`: the copy of an attribute with one block is an attribute with nodes of its own.
4. `bgpsecPathFree_eq`: nothing but the nodes of the attribute is freed.
-/

namespace SrxSuite.Quagga

open Bytes Util SListLemmas PathMemoryLemmas

/-! ## `jhash` -/

/-- `__jhash_mix`. -/
def jhashMix (a b c : UInt32) : UInt32 × UInt32 × UInt32 :=
  let a := (a - b - c) ^^^ (c >>> 13)
  let b := (b - c - a) ^^^ (a <<< 8)
  let c := (c - a - b) ^^^ (b >>> 13)
  let a := (a - b - c) ^^^ (c >>> 12)
  let b := (b - c - a) ^^^ (a <<< 16)
  let c := (c - a - b) ^^^ (b >>> 5)
  let a := (a - b - c) ^^^ (c >>> 3)
  let b := (b - c - a) ^^^ (a <<< 10)
  let c := (c - a - b) ^^^ (b >>> 15)
  (a, b, c)

/-- Four bytes from `i` on, the lowest first. There are zeros behind the end. -/
def jhashWord (k : Bytes) (i : Nat) : UInt32 :=
  (k.getD i 0).toUInt32 + ((k.getD (i + 1) 0).toUInt32 <<< 8) + ((k.getD (i + 2) 0).toUInt32 <<< 16) +
    ((k.getD (i + 3) 0).toUInt32 <<< 24)

/-- The loop of `jhash` over blocks of twelve bytes, and what follows it. The length of the key is
enough `fuel`. -/
def jhashLoop (length : UInt32) : (fuel : Nat) → Bytes → UInt32 × UInt32 × UInt32 → UInt32
  | fuel + 1, k, (a, b, c) =>
    if 12 ≤ k.length then
      jhashLoop length fuel (k.drop 12)
        (jhashMix (a + jhashWord k 0) (b + jhashWord k 4) (c + jhashWord k 8))
    else
      -- the low byte of `c` is for the length
      (jhashMix (a + jhashWord k 0) (b + jhashWord k 4) (c + length + jhashWord k 8 <<< 8)).2.2
  | 0, _, (_, _, c) => c

/-- `jhash`. -/
def jhash (k : Bytes) (initval : UInt32) : UInt32 :=
  jhashLoop (UInt32.ofNat k.length) (k.length + 1) k (0x9e3779b9, 0x9e3779b9, initval)

/-! ## The code -/

section Code

variable {α : Type}

/-- The loop over two lists at once. -/
def cmpNodes (same : α → α → Option Bool) : (fuel : Nat) → SListMem α → Option Nat → Option Nat →
    Option Bool
  | _, _, none, none => some true
  | _, _, none, some _ => some false
  | _, _, some _, none => some false
  | 0, _, some _, some _ => none
  | fuel + 1, m, some a, some b => do
    let x ← m.cells a
    let y ← m.cells b
    if ← same x.data y.data then cmpNodes same fuel m x.next y.next else some false

/-- The comparison of two path segments. -/
def samePathSegment (x y : PathSegment) : Option Bool :=
  some (x.as = y.as ∧ x.pCount = y.pCount ∧ x.flags = y.flags)

/-- `memcmp(x, y, n) == 0`. -/
def memEq (x y : Option Bytes) (n : Nat) : Option Bool := do
  let x ← (← x).readAt 0 n
  let y ← (← y).readAt 0 n
  some (x = y)

/-- The comparison of two signatures. -/
def sameSigSegment (x y : SigSegment) : Option Bool := do
  if ← memEq x.ski y.ski SKI_LENGTH then
    if x.sigLen = y.sigLen then memEq x.signature y.signature x.sigLen.toNat else some false
  else some false

/-- The comparison of two signature blocks. -/
def sameSigBlock (m : SListMem SigSegment) (x y : SigBlock (Option Nat)) : Option Bool :=
  if x.sigBlockLen ≠ y.sigBlockLen then some false
  else if x.algoSuiteId ≠ y.algoSuiteId then some false
  else cmpNodes sameSigSegment m.fresh m x.sigSegments y.sigSegments

/-- `bgpsec_path_attr_cmp` of two attributes at different addresses. -/
def cmpAttrs (m : Mem) (x y : AttrPtrs) : Option Bool := do
  if ← cmpNodes samePathSegment m.segs.fresh m.segs x.pathSegments y.pathSegments then
    cmpNodes (sameSigBlock m.sigs) m.blocks.fresh m.blocks x.sigBlocks y.sigBlocks
  else some false

/-- The first four bytes of a block: the low half of the pointer to the next one. `low` has that of the
blocks in memory. -/
def headBytes (low : Nat → UInt32) (next : Option Nat) : Bytes := le32 ((next.map low).getD 0)

/-- `bgpsec_path_attr_key_make`. Without a block the pointer to it is read through. -/
def keyMake (low : Nat → UInt32) (m : Mem) (bpa : AttrPtrs) : Option UInt32 := do
  let sb ← m.blocks.cells (← bpa.sigBlocks)
  let ss ← m.sigs.cells (← sb.data.sigSegments)
  let signature ← (← ss.data.signature).readAt 0 ss.data.sigLen.toNat
  some (jhash (headBytes low sb.next) 0 + jhash signature 0)

/-- The loops of `bgpsec_path_hash_alloc`, which go on as long as there is something to copy. -/
def copyNodes (blank : α) (copy : α → Option α) : (fuel : Nat) → SListMem α → (pnt : Nat) →
    (src : Option Nat) → Option (SListMem α)
  | _, m, _, none => some m
  | 0, _, _, some _ => none
  | fuel + 1, m, pnt, some a => do
    let srcNode ← m.cells a
    let data ← copy srcNode.data
    match srcNode.next with
    | none => copyNodes blank copy fuel (m.write pnt ⟨data, none⟩) pnt none
    | some next =>
      copyNodes blank copy fuel ((newNode m blank).write pnt ⟨data, some m.fresh⟩) m.fresh (some next)

/-- A buffer is copied unless it is `NULL`. -/
def copyBuffer (src : Option Bytes) (n : Nat) : Option (Option Bytes) :=
  match src with
  | none => some none
  | some src => (src.readAt 0 n).map some

/-- The copy of a signature. -/
def cloneSigSegment (src : SigSegment) : Option SigSegment := do
  let ski ← copyBuffer src.ski SKI_LENGTH
  let signature ← copyBuffer src.signature src.sigLen.toNat
  some ⟨ski, src.sigLen, signature⟩

/-- `bgpsec_path_hash_alloc`; the inner `none` is `NULL`. The block is copied with its pointer to the next
one. -/
def hashAlloc (m : Mem) (bpa : AttrPtrs) : Option (Option (Mem × AttrPtrs)) := do
  let sb ← m.blocks.cells (← bpa.sigBlocks)
  let _ ← bpa.pathSegments
  match sb.data.sigSegments with
  | none => some none
  | some ss =>
    let segs ← copyNodes noPathSegment some (m.segs.fresh + 1) (newNode m.segs noPathSegment)
      m.segs.fresh bpa.pathSegments
    let sigs ← copyNodes noSigSegment cloneSigSegment (m.sigs.fresh + 1) (newNode m.sigs noSigSegment)
      m.sigs.fresh (some ss)
    let blocks := (newNode m.blocks noSigBlock).write m.blocks.fresh
      ⟨{ sb.data with sigSegments := some m.sigs.fresh }, sb.next⟩
    some (some (⟨segs, blocks, sigs⟩,
      ⟨bpa.securePathLen, some m.segs.fresh, some m.blocks.fresh⟩))

/-- The nodes of a list that was read. -/
def storeList : SListMem α → List α → SListMem α × Option Nat
  | m, [] => (m, none)
  | m, v :: vs =>
    let r := storeList { m with fresh := m.fresh + 1 } vs
    (r.1.write m.fresh ⟨v, r.2⟩, some m.fresh)

/-- The signatures of blocks that were read. -/
def storeSigs : SListMem SigSegment → List (SigBlock (List SigSegment)) →
    SListMem SigSegment × List (SigBlock (Option Nat))
  | m, [] => (m, [])
  | m, b :: bs =>
    let r := storeList m b.sigSegments
    let rs := storeSigs r.1 bs
    (rs.1, ⟨b.sigBlockLen, b.algoSuiteId, r.2⟩ :: rs.2)

/-- The attribute that `bgpsec_parse` returns, in memory. -/
def storeAttr (m : Mem) (q : ParsedAttr) : Mem × AttrPtrs :=
  let segs := storeList m.segs q.pathSegments
  let sigs := storeSigs m.sigs q.sigBlocks
  let blocks := storeList m.blocks sigs.2
  (⟨segs.1, blocks.1, sigs.1⟩, ⟨q.securePathLen, segs.2, blocks.2⟩)

end Code

/-! ## Attributes in memory -/

/-- Addresses in the three memories. -/
structure Extent where
  segs : Nat
  blocks : Nat
  sigs : Nat

/-- Where the next nodes go. -/
def Mem.extent (m : Mem) : Extent := ⟨m.segs.fresh, m.blocks.fresh, m.sigs.fresh⟩

/-- Everywhere before. -/
structure Extent.Le (x y : Extent) : Prop where
  segs : x.segs ≤ y.segs
  blocks : x.blocks ≤ y.blocks
  sigs : x.sigs ≤ y.sigs

section Lists

variable {α β : Type}

/-- The list from `p` on stands for the values `ys`, in nodes between `lo` and `hi`. -/
def ListIn (m : SListMem α) (lo hi : Nat) (R : α → β → Prop) (p : Option Nat) (ys : List β) : Prop :=
  ∃ xs, Chain m.cells p xs none ∧ List.Forall₂ (fun x y => R x.2 y) xs ys ∧
    ∀ a ∈ addrs xs, lo ≤ a ∧ a < hi

/-- The nodes between `lo` and `hi` are the same. -/
def SameIn (lo hi : Nat) (m m' : SListMem α) : Prop := ∀ a, lo ≤ a → a < hi → m'.cells a = m.cells a

variable {m m' : SListMem α} {lo hi : Nat} {R : α → β → Prop} {p : Option Nat} {ys : List β}

theorem ListIn.congr (h : ListIn m lo hi R p ys) (hsame : SameIn lo hi m m') :
    ListIn m' lo hi R p ys := by
  obtain ⟨xs, hchain, hall, hin⟩ := h
  exact ⟨xs, chain_congr hchain fun a ha => hsame a (hin a ha).1 (hin a ha).2, hall, hin⟩

/-- The list in a memory with more nodes. -/
theorem ListIn.extends (h : ListIn m 0 m.fresh R p ys) (hsame : SameBelow m.fresh m m')
    (hle : m.fresh ≤ m'.fresh) : ListIn m' 0 m'.fresh R p ys := by
  obtain ⟨xs, hchain, hall, hin⟩ := h.congr fun a _ ha => hsame a ha
  exact ⟨xs, hchain, hall, fun a ha => ⟨Nat.zero_le a, Nat.lt_of_lt_of_le (hin a ha).2 hle⟩⟩

/-- A list at consecutive addresses. -/
theorem listIn_of_numbered {b : Nat} {vs : List α} (hchain : Chain m.cells p (numbered b vs) none)
    (hfresh : b + vs.length ≤ m.fresh) (hall : List.Forall₂ R vs ys) : ListIn m 0 m.fresh R p ys :=
  ⟨_, hchain, by
    rw [← List.forall₂_map_left_iff (f := Prod.snd), map_snd_numbered]
    exact hall, fun a ha => ⟨Nat.zero_le a, Nat.lt_of_lt_of_le (mem_addrs_numbered ha).2 hfresh⟩⟩

theorem cmpNodes_chain {same : α → α → Option Bool} [DecidableEq β] {fuel : Nat} {q : Option Nat}
    {ys' : List β} {xs xs' : List (Nat × α)}
    (hsame : ∀ x x' y y', R x y → R x' y' → same x x' = some (decide (y = y')))
    (hx : Chain m.cells p xs none) (hy : List.Forall₂ (fun x y => R x.2 y) xs ys)
    (hx' : Chain m.cells q xs' none) (hy' : List.Forall₂ (fun x y => R x.2 y) xs' ys')
    (hfuel : xs.length ≤ fuel) : cmpNodes same fuel m p q = some (decide (ys = ys')) := by
  induction hy generalizing fuel p q xs' ys' with
  | nil =>
    obtain rfl : p = none := hx
    cases hy' with
    | nil =>
      obtain rfl : q = none := hx'
      unfold cmpNodes
      rfl
    | cons hr hy' =>
      obtain rfl := hx'.1
      unfold cmpNodes
      simp
  | @cons x y xs ys hr hy ih =>
    obtain ⟨rfl, next, hn, htail⟩ := hx
    obtain ⟨fuel, rfl⟩ := Nat.exists_eq_succ_of_ne_zero (Nat.pos_iff_ne_zero.mp
      (Nat.lt_of_lt_of_le (Nat.succ_pos _) hfuel))
    cases hy' with
    | nil =>
      obtain rfl : q = none := hx'
      unfold cmpNodes
      simp
    | @cons x' y' xs' ys' hr' hy' =>
      obtain ⟨rfl, next', hn', htail'⟩ := hx'
      unfold cmpNodes
      simp only [Option.bind_eq_bind, hn, hn', Option.bind_some, hsame _ _ _ _ hr hr',
        ih htail htail' hy' (Nat.le_of_succ_le_succ hfuel)]
      by_cases hyy : y = y'
      · simp [hyy]
      · simp [hyy]

/-- The comparison of two lists is equality, when that of two nodes is. -/
theorem ListIn.cmpNodes_eq {same : α → α → Option Bool} [DecidableEq β] {q : Option Nat} {ys' : List β}
    {lo' hi' : Nat} (hsame : ∀ x x' y y', R x y → R x' y' → same x x' = some (decide (y = y')))
    (h : ListIn m lo hi R p ys) (h' : ListIn m lo' hi' R q ys') (hle : hi ≤ m.fresh) :
    cmpNodes same m.fresh m p q = some (decide (ys = ys')) := by
  obtain ⟨xs, hchain, hall, hin⟩ := h
  obtain ⟨xs', hchain', hall', -⟩ := h'
  exact cmpNodes_chain hsame hchain hall hchain' hall'
    (chain_length_le hchain fun a ha => Nat.lt_of_lt_of_le (hin a ha).2 hle)

/-- The loop of `bgpsec_path_hash_alloc` does the same as the loops of `bgpsecDup`. -/
theorem concatNodes_of_copyNodes {blank old : α} {copy : α → Option α} {fuel pnt : Nat}
    {src : Option Nat} (hsrc : src ≠ none) (hpnt : m.cells pnt = some ⟨old, none⟩)
    (hfresh : pnt < m.fresh) :
    concatNodes blank (fun () _ v => (copy v).map fun w => ((), w)) fuel () m (some pnt) src =
      (copyNodes blank copy fuel m pnt src).map fun m => ((), m) := by
  induction fuel generalizing m pnt src old with
  | zero =>
    cases src with
    | none => exact absurd rfl hsrc
    | some a => rfl
  | succ fuel ih =>
    cases src with
    | none => exact absurd rfl hsrc
    | some a =>
      unfold concatNodes copyNodes
      simp only [Option.bind_eq_bind, Option.bind_some, hpnt]
      cases m.cells a with
      | none => rfl
      | some n =>
        simp only [Option.bind_some]
        cases copy n.data with
        | none => rfl
        | some d =>
          simp only [Option.map_some, Option.bind_some]
          cases n.next with
          | none =>
            have hend : copyNodes blank copy fuel (m.write pnt ⟨d, none⟩) pnt none =
                some (m.write pnt ⟨d, none⟩) := by
              unfold copyNodes
              rfl
            rw [concatNodes_none, hend]
            rfl
          | some next =>
            exact ih (Option.some_ne_none _) ((Function.update_of_ne (Nat.ne_of_gt hfresh) ..).trans
              (Function.update_self ..)) (Nat.lt_succ_self _)

/-- The copy of a list has the same values, in new nodes. -/
theorem copyNodes_eq {blank : α} {copy : α → Option α} {vs : List α} (h : ListAt m p vs) (hne : vs ≠ [])
    (hcopy : ∀ v ∈ vs, copy v = some v) :
    ∃ m', copyNodes blank copy (m.fresh + 1) (newNode m blank) m.fresh p = some m' ∧
      SameBelow m.fresh m m' ∧ m'.fresh = m.fresh + vs.length ∧
      Chain m'.cells (some m.fresh) (numbered m.fresh vs) none := by
  have hcopyAll : ∀ old, copyAll blank (fun () _ v => (copy v).map fun w => ((), w)) () old vs =
      some ((), vs) := by
    clear h hne
    induction vs with
    | nil => exact fun _ => rfl
    | cons v vs ih =>
      intro old
      rw [List.forall_mem_cons] at hcopy
      unfold copyAll
      rw [hcopy.1]
      show (copyAll blank (fun () _ v => (copy v).map fun w => ((), w)) () blank vs).bind _ = _
      rw [ih hcopy.2]
      rfl
  obtain ⟨m', hrun, hsame, hfresh, hchain⟩ := h.concatNodes hne (hcopyAll blank)
  have hp : p ≠ none := by
    rintro rfl
    obtain ⟨xs, hxs, rfl, -⟩ := h
    exact hne (congrArg (List.map Prod.snd) (chain_unique hxs (show Chain m.cells none [] none from rfl)))
  rw [concatNodes_of_copyNodes hp (Function.update_self ..) (Nat.lt_succ_self _)] at hrun
  obtain ⟨m'', hrun', heq⟩ := Option.map_eq_some_iff.mp hrun
  obtain rfl : m'' = m' := congrArg Prod.snd heq
  exact ⟨m'', hrun', hsame, hfresh, hchain⟩

/-- The nodes of a list at consecutive addresses are freed, and no others. -/
theorem freeNodes_range {b fuel : Nat} {vs : List α} (h : Chain m.cells p (numbered b vs) none)
    (hfuel : vs.length ≤ fuel) :
    ∃ m', freeNodes fuel m p = some m' ∧ m'.fresh = m.fresh ∧
      (∀ a, a < b ∨ b + vs.length ≤ a → m'.cells a = m.cells a) ∧
      ∀ a, b ≤ a → a < b + vs.length → m'.cells a = none := by
  induction vs generalizing m p b fuel with
  | nil =>
    obtain rfl : p = none := h
    refine ⟨m, ?_, rfl, fun _ _ => rfl, fun a hle hlt => absurd hlt (Nat.not_lt.mpr hle)⟩
    unfold freeNodes
    rfl
  | cons v vs ih =>
    obtain ⟨rfl, next, hn, htail⟩ := h
    obtain ⟨fuel, rfl⟩ := Nat.exists_eq_succ_of_ne_zero (Nat.pos_iff_ne_zero.mp
      (Nat.lt_of_lt_of_le (Nat.succ_pos _) hfuel))
    have hnot : b ∉ addrs (numbered (b + 1) vs) := fun hmem =>
      Nat.not_succ_le_self _ (mem_addrs_numbered hmem).1
    obtain ⟨m', hrun, hfresh, hsame, hfreed⟩ := @ih (m.free b) next (b + 1) fuel
      (chain_update htail hnot none) (Nat.le_of_succ_le_succ hfuel)
    rw [List.length_cons, ← Nat.add_assoc, Nat.add_right_comm]
    refine ⟨m', ?_, hfresh, fun a ha => ?_, fun a hle hlt => ?_⟩
    · unfold freeNodes
      rw [hn]
      exact hrun
    · rw [hsame a (ha.imp_left Nat.lt_succ_of_lt)]
      refine Function.update_of_ne ?_ ..
      rintro rfl
      rcases ha with ha | ha
      · exact Nat.lt_irrefl _ ha
      · exact Nat.not_succ_le_self _ (Nat.le_trans (Nat.le_add_right _ _) ha)
    · rcases Nat.eq_or_lt_of_le hle with rfl | hgt
      · rw [hsame _ (.inl (Nat.lt_succ_self _))]
        exact Function.update_self ..
      · exact hfreed a hgt hlt

/-- A list that was read is in new nodes. -/
theorem storeList_in (m : SListMem α) (vs : List α) :
    Chain (storeList m vs).1.cells (storeList m vs).2 (numbered m.fresh vs) none ∧
      (storeList m vs).1.fresh = m.fresh + vs.length ∧ SameBelow m.fresh m (storeList m vs).1 := by
  induction vs generalizing m with
  | nil => exact ⟨rfl, rfl, SameBelow.refl _ _⟩
  | cons v vs ih =>
    obtain ⟨hchain, hfresh, hsame⟩ := ih { m with fresh := m.fresh + 1 }
    refine ⟨⟨rfl, _, Function.update_self .., chain_update hchain (fun hmem => ?_) _⟩, ?_, ?_⟩
    · exact absurd (mem_addrs_numbered hmem).1 (Nat.not_succ_le_self _)
    · show (storeList { m with fresh := m.fresh + 1 } vs).1.fresh = _
      rw [hfresh, List.length_cons, Nat.add_right_comm, Nat.add_assoc]
    · exact (SameBelow.mono hsame (Nat.le_succ _)).trans (sameBelow_write (Nat.le_refl _) _)

end Lists

/-! ### Attributes of any number of blocks -/

/-- A signature as it is read. -/
def SigR (x y : SigSegment) : Prop := x = y ∧ ∃ g : Signature, y = g.segment

/-- The block in memory. -/
def BlockR (m : SListMem SigSegment) (sb : SigBlock (Option Nat)) (b : SigBlock (List SigSegment)) :
    Prop :=
  sb.sigBlockLen = b.sigBlockLen ∧ sb.algoSuiteId = b.algoSuiteId ∧
    ListIn m 0 m.fresh SigR sb.sigSegments b.sigSegments

/-- The attribute `q` is in memory. -/
structure AttrAt (m : Mem) (bpa : AttrPtrs) (q : ParsedAttr) : Prop where
  segs : ListIn m.segs 0 m.segs.fresh Eq bpa.pathSegments q.pathSegments
  blocks : ListIn m.blocks 0 m.blocks.fresh (BlockR m.sigs) bpa.sigBlocks q.sigBlocks

theorem samePathSegment_eq (x x' : PathSegment) : samePathSegment x x' = some (decide (x = x')) := by
  obtain ⟨as, pCount, flags⟩ := x
  obtain ⟨as', pCount', flags'⟩ := x'
  unfold samePathSegment
  simp

theorem memEq_eq {x y : Bytes} {n : Nat} (hx : x.length = n) (hy : y.length = n) :
    memEq (some x) (some y) n = some (decide (x = y)) := by
  have hx' : x.readAt 0 n = some x := hx ▸ (holdsAt_self x).readAt_eq
  have hy' : y.readAt 0 n = some y := hy ▸ (holdsAt_self y).readAt_eq
  unfold memEq
  simp only [Option.bind_eq_bind, Option.bind_some, hx', hy']

theorem sameSigSegment_eq (x x' y y' : SigSegment) (h : SigR x y) (h' : SigR x' y') :
    sameSigSegment x x' = some (decide (y = y')) := by
  obtain ⟨rfl, g, rfl⟩ := h
  obtain ⟨rfl, g', rfl⟩ := h'
  have hlen := UInt16.toNat_ofNat_of_lt' g.signatureLength
  have hlen' := UInt16.toNat_ofNat_of_lt' g'.signatureLength
  unfold sameSigSegment Signature.segment
  simp only [memEq_eq g.skiLength g'.skiLength, Option.bind_eq_bind, Option.bind_some,
    decide_eq_true_eq]
  split
  · next hski =>
    split
    · next hsig =>
      rw [memEq_eq hlen.symm (by rw [hsig, hlen'])]
      simp [hski, hsig]
    · next hsig => simp [hsig]
  · next hski => simp [hski]

theorem sameSigBlock_eq {m : SListMem SigSegment} (x x' : SigBlock (Option Nat))
    (y y' : SigBlock (List SigSegment)) (h : BlockR m x y) (h' : BlockR m x' y') :
    sameSigBlock m x x' = some (decide (y = y')) := by
  obtain ⟨len, algo, segs⟩ := y
  obtain ⟨len', algo', segs'⟩ := y'
  obtain ⟨rfl, rfl, hlist⟩ := h
  obtain ⟨rfl, rfl, hlist'⟩ := h'
  have hcmp := hlist.cmpNodes_eq sameSigSegment_eq hlist' (Nat.le_refl _)
  unfold sameSigBlock
  rw [hcmp]
  split
  · next hlen =>
    have hne : x.sigBlockLen ≠ x'.sigBlockLen := hlen
    simp [hne]
  · next hlen =>
    have heq : x.sigBlockLen = x'.sigBlockLen := not_not.mp hlen
    split
    · next halgo =>
      have hne : x.algoSuiteId ≠ x'.algoSuiteId := halgo
      simp [hne]
    · next halgo =>
      have heq' : x.algoSuiteId = x'.algoSuiteId := not_not.mp halgo
      simp [heq, heq']

/-- The comparison is equality of the segments and the blocks. -/
theorem cmpAttrs_eq {m : Mem} {x y : AttrPtrs} {q q' : ParsedAttr} (h : AttrAt m x q)
    (h' : AttrAt m y q') :
    cmpAttrs m x y =
      some (decide (q.pathSegments = q'.pathSegments ∧ q.sigBlocks = q'.sigBlocks)) := by
  have hsegs : cmpNodes samePathSegment m.segs.fresh m.segs x.pathSegments y.pathSegments =
      some (decide (q.pathSegments = q'.pathSegments)) :=
    h.segs.cmpNodes_eq (fun x x' y y' hx hx' => by rw [← hx, ← hx']; exact samePathSegment_eq x x')
      h'.segs (Nat.le_refl _)
  have hblocks := h.blocks.cmpNodes_eq sameSigBlock_eq h'.blocks (Nat.le_refl _)
  unfold cmpAttrs
  rw [hsegs, hblocks]
  by_cases heq : q.pathSegments = q'.pathSegments
  · simp [heq]
  · simp [heq]

/-- What the blocks of an attribute hold that was read. -/
def Signed (bs : List (SigBlock (List SigSegment))) : Prop :=
  ∀ b ∈ bs, ∃ gs : List Signature, b.sigSegments = gs.map Signature.segment

theorem forall₂_sigR (gs : List Signature) :
    List.Forall₂ SigR (gs.map Signature.segment) (gs.map Signature.segment) :=
  List.forall₂_same.mpr fun x hx => by
    obtain ⟨g, -, rfl⟩ := List.mem_map.mp hx
    exact ⟨rfl, g, rfl⟩

theorem storeSigs_at {m : SListMem SigSegment} {bs : List (SigBlock (List SigSegment))}
    (h : Signed bs) :
    List.Forall₂ (BlockR (storeSigs m bs).1) (storeSigs m bs).2 bs ∧
      SameBelow m.fresh m (storeSigs m bs).1 ∧ m.fresh ≤ (storeSigs m bs).1.fresh := by
  induction bs generalizing m with
  | nil => exact ⟨.nil, SameBelow.refl _ _, Nat.le_refl _⟩
  | cons b bs ih =>
    obtain ⟨⟨gs, hgs⟩, hrest⟩ := List.forall_mem_cons.mp h
    obtain ⟨hchain, hfresh, hsame⟩ := storeList_in m b.sigSegments
    obtain ⟨hall, hsame', hle⟩ := @ih (storeList m b.sigSegments).1 hrest
    have hle' : m.fresh ≤ (storeList m b.sigSegments).1.fresh := hfresh ▸ Nat.le_add_right _ _
    have hlist : ListIn (storeList m b.sigSegments).1 0 _ SigR _ b.sigSegments :=
      listIn_of_numbered hchain (Nat.le_of_eq hfresh.symm) (hgs ▸ forall₂_sigR gs)
    exact ⟨.cons ⟨rfl, rfl, hlist.extends hsame' hle⟩ hall, hsame.trans (hsame'.mono hle'),
      Nat.le_trans hle' hle⟩

/-- An attribute that was read is in memory, in new nodes. -/
theorem storeAttr_at {m : Mem} {q : ParsedAttr} (h : Signed q.sigBlocks) :
    AttrAt (storeAttr m q).1 (storeAttr m q).2 q ∧ Extends m (storeAttr m q).1 := by
  obtain ⟨hsegs, hsegsFresh, hsegsSame⟩ := storeList_in m.segs q.pathSegments
  obtain ⟨hall, hsigsSame, hsigsLe⟩ := @storeSigs_at m.sigs q.sigBlocks h
  obtain ⟨hblocks, hblocksFresh, hblocksSame⟩ := storeList_in m.blocks (storeSigs m.sigs q.sigBlocks).2
  exact ⟨⟨listIn_of_numbered hsegs (Nat.le_of_eq hsegsFresh.symm) (List.forall₂_eq_eq_eq ▸ rfl),
      listIn_of_numbered hblocks (Nat.le_of_eq hblocksFresh.symm) hall⟩,
    hsegsSame, hblocksSame, hsigsSame, hsegsFresh ▸ Nat.le_add_right _ _,
    hblocksFresh ▸ Nat.le_add_right _ _, hsigsLe⟩

/-! ### Attributes of one block -/

/-- An attribute with segments and one block, which has signatures. -/
structure OneBlock (q : ParsedAttr) : Prop where
  segments : q.pathSegments ≠ []
  block : ∃ b, ∃ gs : List Signature, q.sigBlocks = [b] ∧ b.sigSegments = gs.map Signature.segment ∧ gs ≠ []

/-- The attribute is in memory, and its nodes are those between `lo` and `hi`. -/
structure Stored (m : Mem) (lo hi : Extent) (bpa : AttrPtrs) (q : ParsedAttr) : Prop where
  ptrs : bpa = ⟨q.securePathLen, some lo.segs, some lo.blocks⟩
  segs : Chain m.segs.cells (some lo.segs) (numbered lo.segs q.pathSegments) none
  hiSegs : hi.segs = lo.segs + q.pathSegments.length
  hiBlocks : hi.blocks = lo.blocks + 1
  block : ∃ b, q.sigBlocks = [b] ∧
    m.blocks.cells lo.blocks = some ⟨⟨b.sigBlockLen, b.algoSuiteId, some lo.sigs⟩, none⟩ ∧
    Chain m.sigs.cells (some lo.sigs) (numbered lo.sigs b.sigSegments) none ∧
    hi.sigs = lo.sigs + b.sigSegments.length

/-- The nodes between `lo` and `hi` are the same. -/
structure Mem.SameIn (lo hi : Extent) (m m' : Mem) : Prop where
  segs : Quagga.SameIn lo.segs hi.segs m.segs m'.segs
  blocks : Quagga.SameIn lo.blocks hi.blocks m.blocks m'.blocks
  sigs : Quagga.SameIn lo.sigs hi.sigs m.sigs m'.sigs

/-- The nodes between `lo` and `hi` are freed. -/
structure Mem.Freed (lo hi : Extent) (m : Mem) : Prop where
  segs : ∀ a, lo.segs ≤ a → a < hi.segs → m.segs.cells a = none
  blocks : ∀ a, lo.blocks ≤ a → a < hi.blocks → m.blocks.cells a = none
  sigs : ∀ a, lo.sigs ≤ a → a < hi.sigs → m.sigs.cells a = none

/-- The other nodes are the same. -/
structure Mem.SameOutside (lo hi : Extent) (m m' : Mem) : Prop where
  segs : ∀ a, a < lo.segs ∨ hi.segs ≤ a → m'.segs.cells a = m.segs.cells a
  blocks : ∀ a, a < lo.blocks ∨ hi.blocks ≤ a → m'.blocks.cells a = m.blocks.cells a
  sigs : ∀ a, a < lo.sigs ∨ hi.sigs ≤ a → m'.sigs.cells a = m.sigs.cells a

section OneBlock

variable {m m' : Mem} {lo hi : Extent} {bpa : AttrPtrs} {q : ParsedAttr}

theorem Stored.congr (h : Stored m lo hi bpa q) (hsame : Mem.SameIn lo hi m m') :
    Stored m' lo hi bpa q where
  ptrs := h.ptrs
  segs := chain_congr h.segs fun a ha => by
    obtain ⟨hle, hlt⟩ := mem_addrs_numbered ha
    exact hsame.segs a hle (h.hiSegs ▸ hlt)
  hiSegs := h.hiSegs
  hiBlocks := h.hiBlocks
  block := by
    obtain ⟨b, hb, hcell, hchain, hhi⟩ := h.block
    refine ⟨b, hb, ?_, chain_congr hchain fun a ha => ?_, hhi⟩
    · rw [hsame.blocks _ (Nat.le_refl _) (h.hiBlocks ▸ Nat.lt_succ_self _), hcell]
    · obtain ⟨hle, hlt⟩ := mem_addrs_numbered ha
      exact hsame.sigs a hle (hhi ▸ hlt)

theorem Stored.attrAt (h : Stored m lo hi bpa q) (hq : OneBlock q) (hle : hi.Le m.extent) :
    AttrAt m bpa q := by
  obtain ⟨b, hb, hcell, hchain, hhi⟩ := h.block
  obtain ⟨b', gs, hb', hgs, -⟩ := hq.block
  obtain rfl : b = b' := (List.cons.inj (hb.symm.trans hb')).1
  have hptrs := h.ptrs
  subst hptrs
  refine ⟨listIn_of_numbered h.segs (h.hiSegs ▸ hle.segs) (List.forall₂_eq_eq_eq ▸ rfl), ?_⟩
  rw [hb]
  refine @listIn_of_numbered _ _ m.blocks (BlockR m.sigs) (some lo.blocks) [b] lo.blocks
    [⟨b.sigBlockLen, b.algoSuiteId, some lo.sigs⟩] ⟨rfl, none, hcell, rfl⟩ (h.hiBlocks ▸ hle.blocks)
    (.cons ⟨rfl, rfl, listIn_of_numbered hchain (hhi ▸ hle.sigs) (hgs ▸ forall₂_sigR gs)⟩ .nil)

/-- The key of an attribute with one block. -/
def keyOf (q : ParsedAttr) : UInt32 :=
  jhash (le32 0) 0 + jhash ((q.sigBlocks.head?.bind fun b => b.sigSegments.head?.bind
    SigSegment.signature).getD []) 0

/-- The key depends on the attribute only. -/
theorem keyMake_eq (low : Nat → UInt32) (h : Stored m lo hi bpa q) (hq : OneBlock q) :
    keyMake low m bpa = some (keyOf q) := by
  obtain ⟨b, hb, hcell, hchain, hhi⟩ := h.block
  obtain ⟨b', gs, hb', hgs, hne⟩ := hq.block
  obtain rfl : b = b' := (List.cons.inj (hb.symm.trans hb')).1
  obtain ⟨g, gs, rfl⟩ := List.exists_cons_of_ne_nil hne
  have hptrs := h.ptrs
  subst hptrs
  rw [hgs] at hchain
  obtain ⟨-, next, hsig, -⟩ := hchain
  have hread : g.signature.readAt 0 (UInt16.ofNat g.signature.length).toNat = some g.signature := by
    rw [UInt16.toNat_ofNat_of_lt' g.signatureLength]
    exact (holdsAt_self g.signature).readAt_eq
  unfold keyMake keyOf
  rw [hb]
  simp only [Option.bind_eq_bind, Option.bind_some, hcell, hsig, Signature.segment, hread,
    List.head?_cons, hgs, List.map_cons, Option.getD_some]
  rfl

/-- Attributes that compare equal have the same key. -/
theorem keyOf_congr {q' : ParsedAttr} (h : q.sigBlocks = q'.sigBlocks) : keyOf q = keyOf q' := by
  unfold keyOf
  rw [h]

theorem Mem.SameOutside.before {lo' hi' : Extent} (h : Mem.SameOutside lo hi m m') (hle : hi'.Le lo) :
    Mem.SameIn lo' hi' m m' where
  segs a _ ha := h.segs a (.inl (Nat.lt_of_lt_of_le ha hle.segs))
  blocks a _ ha := h.blocks a (.inl (Nat.lt_of_lt_of_le ha hle.blocks))
  sigs a _ ha := h.sigs a (.inl (Nat.lt_of_lt_of_le ha hle.sigs))

theorem Mem.SameOutside.after {lo' hi' : Extent} (h : Mem.SameOutside lo hi m m') (hle : hi.Le lo') :
    Mem.SameIn lo' hi' m m' where
  segs a ha _ := h.segs a (.inr (Nat.le_trans hle.segs ha))
  blocks a ha _ := h.blocks a (.inr (Nat.le_trans hle.blocks ha))
  sigs a ha _ := h.sigs a (.inr (Nat.le_trans hle.sigs ha))

/-- The attribute in new nodes. -/
theorem storeAttr_stored (m : Mem) (hq : OneBlock q) :
    Stored (storeAttr m q).1 m.extent (storeAttr m q).1.extent (storeAttr m q).2 q := by
  obtain ⟨b, gs, hb, -, -⟩ := hq.block
  obtain ⟨hsegs, hsegsFresh, -⟩ := storeList_in m.segs q.pathSegments
  obtain ⟨hsigs, hsigsFresh, -⟩ := storeList_in m.sigs b.sigSegments
  obtain ⟨v, vs, hv⟩ := List.exists_cons_of_ne_nil hq.segments
  have hstart : (storeList m.sigs b.sigSegments).2 = some m.sigs.fresh := by
    obtain ⟨b', gs', hb', hgs', hne⟩ := hq.block
    obtain rfl : b = b' := (List.cons.inj (hb.symm.trans hb')).1
    obtain ⟨g, gs', rfl⟩ := List.exists_cons_of_ne_nil hne
    rw [hgs']
    rfl
  have hstart' : (storeList m.segs q.pathSegments).2 = some m.segs.fresh := by
    rw [hv]
    rfl
  have hsigs' : storeSigs m.sigs q.sigBlocks = ((storeList m.sigs b.sigSegments).1,
      [⟨b.sigBlockLen, b.algoSuiteId, some m.sigs.fresh⟩]) := by
    rw [hb, ← hstart]
    rfl
  rw [hstart'] at hsegs
  rw [hstart] at hsigs
  refine ⟨?_, hsegs, hsegsFresh, ?_, b, hb, ?_, ?_, ?_⟩
  · show BgpsecPathAttr.mk _ (storeList m.segs q.pathSegments).2 _ = _
    rw [hstart', hsigs']
    rfl
  · show (storeList m.blocks (storeSigs m.sigs q.sigBlocks).2).1.fresh = _
    rw [hsigs']
    rfl
  · show (storeList m.blocks (storeSigs m.sigs q.sigBlocks).2).1.cells m.blocks.fresh = _
    rw [hsigs']
    exact Function.update_self ..
  · show Chain (storeSigs m.sigs q.sigBlocks).1.cells _ _ _
    rw [hsigs']
    exact hsigs
  · show (storeSigs m.sigs q.sigBlocks).1.fresh = _
    rw [hsigs']
    exact hsigsFresh

theorem cloneSigSegment_segment (g : Signature) : cloneSigSegment g.segment = some g.segment := by
  have hski : g.ski.readAt 0 SKI_LENGTH = some g.ski := by
    rw [← g.skiLength]
    exact (holdsAt_self g.ski).readAt_eq
  have hsig : g.signature.readAt 0 (UInt16.ofNat g.signature.length).toNat = some g.signature := by
    rw [UInt16.toNat_ofNat_of_lt' g.signatureLength]
    exact (holdsAt_self g.signature).readAt_eq
  unfold cloneSigSegment Signature.segment copyBuffer
  simp only [Option.bind_eq_bind, hski, hsig, Option.map_some, Option.bind_some]

/-- The copy of an attribute with one block has nodes of its own. -/
theorem hashAlloc_eq (h : Stored m lo hi bpa q) (hq : OneBlock q) (hle : hi.Le m.extent) :
    ∃ m' bpa', hashAlloc m bpa = some (some (m', bpa')) ∧
      Stored m' m.extent m'.extent bpa' q ∧ Extends m m' := by
  obtain ⟨b, hb, hcell, hchain, hhi⟩ := h.block
  obtain ⟨b', gs, hb', hgs, hne⟩ := hq.block
  obtain rfl : b = b' := (List.cons.inj (hb.symm.trans hb')).1
  have hptrs := h.ptrs
  subst hptrs
  obtain ⟨segs, hrun, hsame, hfresh, hsegs⟩ := @copyNodes_eq _ m.segs (some lo.segs) noPathSegment some
    q.pathSegments ⟨_, h.segs, map_snd_numbered _ _, fun a ha =>
      Nat.lt_of_lt_of_le (mem_addrs_numbered ha).2 (h.hiSegs ▸ hle.segs)⟩ hq.segments fun _ _ => rfl
  obtain ⟨sigs, hrun', hsame', hfresh', hsigs⟩ := @copyNodes_eq _ m.sigs (some lo.sigs) noSigSegment
    cloneSigSegment b.sigSegments ⟨_, hchain, map_snd_numbered _ _, fun a ha =>
      Nat.lt_of_lt_of_le (mem_addrs_numbered ha).2 (hhi ▸ hle.sigs)⟩ (by rw [hgs]; simpa using hne)
    fun v hv => by
      rw [hgs] at hv
      obtain ⟨g, -, rfl⟩ := List.mem_map.mp hv
      exact cloneSigSegment_segment g
  refine ⟨⟨segs, (newNode m.blocks noSigBlock).write m.blocks.fresh
    ⟨⟨b.sigBlockLen, b.algoSuiteId, some m.sigs.fresh⟩, none⟩, sigs⟩,
    ⟨q.securePathLen, some m.segs.fresh, some m.blocks.fresh⟩, ?_,
    ⟨rfl, hsegs, hfresh, rfl, b, hb, Function.update_self .., hsigs, hfresh'⟩,
    hsame, (sameBelow_newNode _).trans (sameBelow_write (Nat.le_refl _) _), hsame',
    hfresh ▸ Nat.le_add_right _ _, Nat.le_succ _, hfresh' ▸ Nat.le_add_right _ _⟩
  unfold hashAlloc
  simp only [Option.bind_eq_bind, Option.bind_some, hcell, hrun, hrun']

/-- The nodes of the attribute are freed, and no others. -/
theorem bgpsecPathFree_eq (h : Stored m lo hi bpa q) (hle : hi.Le m.extent) :
    ∃ m', bgpsecPathFree m bpa = some m' ∧ m'.extent = m.extent ∧ Mem.SameOutside lo hi m m' ∧
      Mem.Freed lo hi m' := by
  obtain ⟨b, hb, hcell, hchain, hhi⟩ := h.block
  have hptrs := h.ptrs
  subst hptrs
  obtain ⟨segs, hrun, hfresh, hsame, hfreed⟩ := @freeNodes_range _ m.segs _ _ m.segs.fresh _ h.segs
    (Nat.le_trans (Nat.le_add_left _ _) (h.hiSegs ▸ hle.segs))
  obtain ⟨sigs, hrun', hfresh', hsame', hfreed'⟩ := @freeNodes_range _ m.sigs _ _ m.sigs.fresh _ hchain
    (Nat.le_trans (Nat.le_add_left _ _) (hhi ▸ hle.sigs))
  rw [← h.hiSegs] at hsame hfreed
  rw [← hhi] at hsame' hfreed'
  obtain ⟨fuel, hfuel⟩ := Nat.exists_eq_succ_of_ne_zero (Nat.ne_of_gt (Nat.lt_of_lt_of_le
    (Nat.succ_pos _) (h.hiBlocks ▸ hle.blocks : lo.blocks + 1 ≤ m.blocks.fresh)))
  refine ⟨⟨segs, m.blocks.free lo.blocks, sigs⟩, ?_, ?_, ⟨hsame, fun a ha => ?_, hsame'⟩, hfreed,
    fun a hge hlt => ?_, hfreed'⟩
  · unfold bgpsecPathFree
    simp only [Option.bind_eq_bind, hrun, Option.bind_some]
    rw [hfuel]
    unfold freeSigBlocks freeSigBlock
    simp only [Option.bind_eq_bind, hcell, Option.bind_some, hrun']
    unfold freeSigBlocks
    rfl
  · unfold Mem.extent
    rw [hfresh, hfresh']
    rfl
  · refine Function.update_of_ne ?_ ..
    rintro rfl
    rcases ha with ha | ha
    · exact Nat.lt_irrefl _ ha
    · rw [h.hiBlocks] at ha
      exact Nat.not_succ_le_self _ ha
  · rw [h.hiBlocks] at hlt
    obtain rfl : a = lo.blocks := Nat.le_antisymm (Nat.le_of_lt_succ hlt) hge
    exact Function.update_self ..

end OneBlock

end SrxSuite.Quagga

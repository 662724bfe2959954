import Mathlib.Data.List.Pairwise
import SrxSuite.Lib.Runs
import SrxSuite.Quagga.PathAttrs

/-!
# Interning of attributes

The model of `bgpsec_path_intern` and `bgpsec_path_unintern` (`bgpd/bgp_validate.c`) over the hash table
of `lib/hash.c`, and of runs that intern attributes as `bgpsec_parse` returns them and give back what was
interned. The table is a list of its entries; only entries with the same key are compared, so that the
division into buckets does not show.

`bgpsec_path_hash_alloc` copies the first block together with its pointer to the next one. The second
block of the argument thereby becomes a part of the object, and is freed with the argument.

Results:
1. `interning_sound`: when all attributes have one block, no call fails and `Sound` holds in every state.
2. `second_block_freed`: an attribute with two blocks.
-/

namespace SrxSuite.Quagga

open Bytes Util

/-! ## The code -/

/-- `BgpsecPathAttr` with its reference counter. -/
structure AttrObj where
  attr : AttrPtrs
  refcnt : Nat
  deriving DecidableEq

/-- The attributes in memory, and `bgpsechash` with a key and an attribute for each entry. The next
attribute is allocated at `fresh`. -/
structure AttrTable where
  mem : Mem
  objs : Nat → Option AttrObj
  fresh : Nat
  hash : List (UInt32 × Nat)

namespace AttrTable

def setObj (t : AttrTable) (a : Nat) (o : AttrObj) : AttrTable :=
  { t with objs := Function.update t.objs a (some o) }

/-- `bgpsec_path_attr_cmp`. -/
def cmp (t : AttrTable) (a b : Nat) : Option Bool :=
  if a = b then some true
  else do
    let x ← t.objs a
    let y ← t.objs b
    cmpAttrs t.mem x.attr y.attr

/-- `bgpsec_path_attr_key_make`. -/
def key (low : Nat → UInt32) (t : AttrTable) (a : Nat) : Option UInt32 :=
  (t.objs a).bind fun o => keyMake low t.mem o.attr

/-- The loop of `hash_get` and `hash_release`: the first entry with the key that compares equal. -/
def hashFind (t : AttrTable) (key : UInt32) (data : Nat) : List (UInt32 × Nat) → Option (Option Nat)
  | [] => some none
  | backet :: rest =>
    if backet.1 = key then do
      if ← t.cmp backet.2 data then some (some backet.2) else hashFind t key data rest
    else hashFind t key data rest

/-- `hash_get` with `bgpsec_path_hash_alloc`; the inner `none` is `NULL`. -/
def hashGet (low : Nat → UInt32) (t : AttrTable) (data : Nat) : Option (Option (Nat × AttrTable)) := do
  let key ← t.key low data
  match ← t.hashFind key data t.hash with
  | some found => some (some (found, t))
  | none =>
    let o ← t.objs data
    match ← hashAlloc t.mem o.attr with
    | none => some none
    | some (mem, attr) => some (some (t.fresh, {
        mem := mem
        objs := Function.update t.objs t.fresh (some ⟨attr, 0⟩)
        fresh := t.fresh + 1
        hash := (key, t.fresh) :: t.hash }))

/-- `hash_release`: what is found, and the table without it. -/
def hashRelease (low : Nat → UInt32) (t : AttrTable) (data : Nat) : Option (Option Nat × AttrTable) := do
  let key ← t.key low data
  match ← t.hashFind key data t.hash with
  | none => some (none, t)
  | some found => some (some found, { t with hash := t.hash.erase (key, found) })

/-- `bgpsec_path_free`. -/
def pathFree (t : AttrTable) (a : Nat) : Option AttrTable := do
  let o ← t.objs a
  let mem ← bgpsecPathFree t.mem o.attr
  some { t with mem := mem, objs := Function.update t.objs a none }

/-- `bgpsec_path_intern`: the object and the table. -/
def intern (low : Nat → UInt32) (t : AttrTable) (bpa : Nat) : Option (Nat × AttrTable) := do
  let o ← t.objs bpa
  if o.refcnt ≠ 0 then none
  else match ← t.hashGet low bpa with
    | none => none
    | some (found, t) =>
      let t ← if found ≠ bpa then t.pathFree bpa else some t
      let f ← t.objs found
      some (found, t.setObj found { f with refcnt := f.refcnt + 1 })

/-- `bgpsec_path_unintern`. The counter is not taken below 0. -/
def unintern (low : Nat → UInt32) (t : AttrTable) (bpa : Nat) : Option AttrTable := do
  let o ← t.objs bpa
  let refcnt := o.refcnt - 1
  let t := t.setObj bpa { o with refcnt := refcnt }
  if refcnt = 0 then
    match ← t.hashRelease low bpa with
    | (none, _) => none
    | (some _, t) => t.pathFree bpa
  else some t

/-- `bgpsec_parse` leaves an attribute at `fresh`. -/
def parsed (t : AttrTable) (q : ParsedAttr) : AttrTable :=
  { t with
    mem := (storeAttr t.mem q).1
    objs := Function.update t.objs t.fresh (some ⟨(storeAttr t.mem q).2, 0⟩)
    fresh := t.fresh + 1 }

end AttrTable

/-! ## Runs -/

/-- A call of `bgpsec_path_intern`: the argument, the addresses of its nodes, and the object. -/
structure Interned where
  arg : ParsedAttr
  lo : Extent
  hi : Extent
  object : Nat

/-- The table, the objects that were handed out and not given back, and what was interned. -/
structure World where
  table : AttrTable
  outstanding : List Nat
  log : List Interned

/-- Intern an attribute that was parsed, or give an object back. -/
inductive Call
  | intern (q : ParsedAttr)
  | unintern (object : Nat)

/-- One call. Only what is outstanding is given back. -/
def World.step (low : Nat → UInt32) (w : World) : Call → Option World
  | .intern q => do
    let (object, table) ← (w.table.parsed q).intern low w.table.fresh
    some ⟨table, object :: w.outstanding,
      ⟨q, w.table.mem.extent, (w.table.parsed q).mem.extent, object⟩ :: w.log⟩
  | .unintern object =>
    if object ∈ w.outstanding then do
      let table ← w.table.unintern low object
      some { w with table := table, outstanding := w.outstanding.erase object }
    else some w

def World.init : World := ⟨⟨⟨initMem, initMem, initMem⟩, fun _ => none, 0, []⟩, [], []⟩

def World.run (low : Nat → UInt32) (calls : List Call) (w : World) : Option World :=
  calls.foldlM (World.step low) w

/-- `bgpsec_parse` accepts an attribute with at least one segment. -/
def Accepted (q : ParsedAttr) : Prop :=
  (∃ s n, bgpsecParse s n = some (some q)) ∧ q.pathSegments ≠ []

/-- What interning promises of a state. An attribute that compares equal to an argument or an object is
one that was parsed at this time, at the address `fresh`. -/
structure Sound (low : Nat → UInt32) (w : World) : Prop where
  /-- The counter is the number of outstanding interns. -/
  refcnt : ∀ a ∈ w.outstanding, ∃ attr, w.table.objs a = some ⟨attr, w.outstanding.count a⟩
  /-- The object compares equal to the argument as it was, whose nodes are all freed. -/
  equal : ∀ e ∈ w.log, Mem.Freed e.lo e.hi w.table.mem ∧
    (e.object ∈ w.outstanding → (w.table.parsed e.arg).cmp e.object w.table.fresh = some true)
  /-- An attribute that compares equal to an object has its key, and is interned to it. -/
  shared : ∀ q, Accepted q → ∀ a ∈ w.outstanding, (w.table.parsed q).cmp a w.table.fresh = some true →
    (∃ k, (w.table.parsed q).key low a = some k ∧ (w.table.parsed q).key low w.table.fresh = some k) ∧
    ∃ table, (w.table.parsed q).intern low w.table.fresh = some (a, table)
  /-- An object is found when it is released. -/
  released : ∀ a ∈ w.outstanding, (∃ table, w.table.hashRelease low a = some (some a, table)) ∧
    ∃ table, w.table.unintern low a = some table

/-! ## The objects -/

/-- An object with its attribute and the addresses of its nodes. -/
structure Live where
  object : Nat
  q : ParsedAttr
  attr : AttrPtrs
  lo : Extent
  hi : Extent

/-- Two attributes with the same segments and blocks. -/
def SameAttr (q q' : ParsedAttr) : Prop :=
  q.pathSegments = q'.pathSegments ∧ q.sigBlocks = q'.sigBlocks

instance (q q' : ParsedAttr) : Decidable (SameAttr q q') := inferInstanceAs (Decidable (_ ∧ _))

/-- The entries of the table are the objects `live`, the latest first: different attributes with one block,
in nodes of their own. -/
structure Rep (t : AttrTable) (live : List Live) : Prop where
  hash : t.hash = live.map fun l => (keyOf l.q, l.object)
  objs : ∀ l ∈ live, ∃ n, t.objs l.object = some ⟨l.attr, n⟩
  stored : ∀ l ∈ live, Stored t.mem l.lo l.hi l.attr l.q
  oneBlock : ∀ l ∈ live, OneBlock l.q
  below : ∀ l ∈ live, l.hi.Le t.mem.extent
  fresh : ∀ l ∈ live, l.object < t.fresh
  order : live.Pairwise fun l l' => l'.hi.Le l.lo
  nodup : (live.map Live.object).Nodup
  distinct : live.Pairwise fun l l' => ¬ SameAttr l.q l'.q

theorem OneBlock.signed {q : ParsedAttr} (h : OneBlock q) : Signed q.sigBlocks := by
  obtain ⟨b, gs, hb, hgs, -⟩ := h.block
  rw [hb]
  intro c hc
  exact ⟨gs, List.mem_singleton.mp hc ▸ hgs⟩

theorem OneBlock.congr {q q' : ParsedAttr} (h : OneBlock q) (hsame : SameAttr q q') : OneBlock q' :=
  ⟨hsame.1 ▸ h.segments, hsame.2 ▸ h.block⟩

theorem extends_sameIn {m m' : Mem} {lo hi : Extent} (h : Extends m m') (hle : hi.Le m.extent) :
    Mem.SameIn lo hi m m' :=
  ⟨fun a _ ha => h.segs a (Nat.lt_of_lt_of_le ha hle.segs),
    fun a _ ha => h.blocks a (Nat.lt_of_lt_of_le ha hle.blocks),
    fun a _ ha => h.sigs a (Nat.lt_of_lt_of_le ha hle.sigs)⟩

theorem extends_le {m m' : Mem} (h : Extends m m') : m.extent.Le m'.extent :=
  ⟨h.segsFresh, h.blocksFresh, h.sigsFresh⟩

theorem Extent.Le.refl (x : Extent) : x.Le x := ⟨Nat.le_refl _, Nat.le_refl _, Nat.le_refl _⟩

theorem Extent.Le.trans {x y z : Extent} (h : x.Le y) (h' : y.Le z) : x.Le z :=
  ⟨Nat.le_trans h.segs h'.segs, Nat.le_trans h.blocks h'.blocks, Nat.le_trans h.sigs h'.sigs⟩

section Table

variable {low : Nat → UInt32} {t : AttrTable} {live : List Live} {l : Live} {q : ParsedAttr}

/-- The search through the entries of some objects. -/
theorem hashFind_eq {key : UInt32} {data : Nat} {p : Live → Bool}
    (hcmp : ∀ l ∈ live, keyOf l.q = key → t.cmp l.object data = some (p l))
    (hkey : ∀ l ∈ live, p l = true → keyOf l.q = key) :
    t.hashFind key data (live.map fun l => (keyOf l.q, l.object)) =
      some ((live.find? p).map Live.object) := by
  induction live with
  | nil => rfl
  | cons l live ih =>
    rw [List.forall_mem_cons] at hcmp hkey
    have hrest := ih hcmp.2 hkey.2
    rw [List.map_cons]
    unfold AttrTable.hashFind
    split
    · next heq =>
      rw [hcmp.1 heq]
      cases hp : p l with
      | true =>
        rw [List.find?_cons_of_pos hp]
        rfl
      | false =>
        rw [List.find?_cons_of_neg (by simp [hp])]
        exact hrest
    · next hne =>
      rw [List.find?_cons_of_neg fun hp => hne (hkey.1 hp)]
      exact hrest

theorem Rep.key_eq (h : Rep t live) (hl : l ∈ live) : t.key low l.object = some (keyOf l.q) := by
  obtain ⟨n, hobj⟩ := h.objs l hl
  unfold AttrTable.key
  rw [hobj]
  exact keyMake_eq low (h.stored l hl) (h.oneBlock l hl)

theorem Rep.not_same {l' : Live} (h : Rep t live) (hl : l ∈ live) (hl' : l' ∈ live) (hne : l ≠ l') :
    ¬ SameAttr l.q l'.q := by
  have : Std.Symm fun l l' : Live => ¬ SameAttr l.q l'.q :=
    ⟨fun a b hab hba => hab ⟨hba.1.symm, hba.2.symm⟩⟩
  exact h.distinct.forall hl hl' hne

/-- Two objects compare equal only if they are the same. -/
theorem Rep.cmp_eq {l' : Live} (h : Rep t live) (hl : l ∈ live) (hl' : l' ∈ live) :
    t.cmp l.object l'.object = some (decide (l.object = l'.object)) := by
  unfold AttrTable.cmp
  split
  · next heq => simp [heq]
  · next hne =>
    obtain ⟨n, hobj⟩ := h.objs l hl
    obtain ⟨n', hobj'⟩ := h.objs l' hl'
    have hdistinct := h.not_same hl hl' fun heq => hne (congrArg Live.object heq)
    rw [hobj, hobj']
    show cmpAttrs t.mem l.attr l'.attr = _
    rw [cmpAttrs_eq ((h.stored l hl).attrAt (h.oneBlock l hl) (h.below l hl))
      ((h.stored l' hl').attrAt (h.oneBlock l' hl') (h.below l' hl'))]
    exact congrArg some ((decide_eq_false hdistinct).trans (decide_eq_false hne).symm)

/-- The objects beside an attribute that was parsed. -/
theorem Rep.parsed (h : Rep t live) (hq : Signed q.sigBlocks) : Rep (t.parsed q) live where
  hash := h.hash
  objs l hl := by
    obtain ⟨n, hobj⟩ := h.objs l hl
    exact ⟨n, (Function.update_of_ne (Nat.ne_of_lt (h.fresh l hl)) ..).trans hobj⟩
  stored l hl := (h.stored l hl).congr (extends_sameIn (storeAttr_at hq).2 (h.below l hl))
  oneBlock := h.oneBlock
  below l hl := (h.below l hl).trans (extends_le (storeAttr_at hq).2)
  fresh l hl := Nat.lt_succ_of_lt (h.fresh l hl)
  order := h.order
  nodup := h.nodup
  distinct := h.distinct

theorem parsed_objs (t : AttrTable) (q : ParsedAttr) :
    (t.parsed q).objs t.fresh = some ⟨(storeAttr t.mem q).2, 0⟩ := Function.update_self ..

/-- An object is compared with an attribute that was parsed. -/
theorem Rep.cmp_parsed (h : Rep t live) (hq : Signed q.sigBlocks) (hl : l ∈ live) :
    (t.parsed q).cmp l.object t.fresh = some (decide (SameAttr l.q q)) := by
  have h' := h.parsed hq
  obtain ⟨n, hobj⟩ := h'.objs l hl
  unfold AttrTable.cmp
  rw [if_neg (Nat.ne_of_lt (h.fresh l hl)), hobj, parsed_objs]
  show cmpAttrs (storeAttr t.mem q).1 l.attr (storeAttr t.mem q).2 = _
  exact cmpAttrs_eq ((h'.stored l hl).attrAt (h'.oneBlock l hl) (h'.below l hl)) (storeAttr_at hq).1

theorem key_parsed (t : AttrTable) (hq : OneBlock q) :
    (t.parsed q).key low t.fresh = some (keyOf q) := by
  unfold AttrTable.key
  rw [parsed_objs]
  exact keyMake_eq low (storeAttr_stored t.mem hq) hq

/-- The object of an attribute that was parsed, if there is one. -/
theorem Rep.hashFind_parsed (h : Rep t live) (hq : OneBlock q) :
    (t.parsed q).hashFind (keyOf q) t.fresh (t.parsed q).hash =
      some ((live.find? fun l => SameAttr l.q q).map Live.object) := by
  rw [(h.parsed hq.signed).hash]
  refine hashFind_eq (fun l hl _ => h.cmp_parsed hq.signed hl) fun l hl hp => ?_
  exact keyOf_congr (of_decide_eq_true hp).2

/-- An object is found by itself. -/
theorem Rep.hashFind_self (h : Rep t live) (hl : l ∈ live) :
    t.hashFind (keyOf l.q) l.object t.hash = some (some l.object) := by
  rw [h.hash, @hashFind_eq t live (keyOf l.q) l.object (fun l' => decide (l'.object = l.object))
    (fun l' hl' _ => h.cmp_eq hl' hl) fun l' hl' hp => ?_]
  · have hsome : (live.find? fun l' => decide (l'.object = l.object)).isSome :=
      List.find?_isSome.mpr ⟨l, hl, decide_eq_true rfl⟩
    obtain ⟨l', hfound⟩ := Option.isSome_iff_exists.mp hsome
    have hp : l'.object = l.object := by simpa using List.find?_some hfound
    rw [hfound]
    exact congrArg (fun a => some (some a)) hp
  · have heq : l' = l := List.inj_on_of_nodup_map h.nodup hl' hl (of_decide_eq_true hp)
    rw [heq]

theorem Rep.congr {t' : AttrTable} (h : Rep t live) (hhash : t'.hash = t.hash)
    (hobjs : ∀ l ∈ live, ∃ n, t'.objs l.object = some ⟨l.attr, n⟩)
    (hmem : ∀ l ∈ live, Mem.SameIn l.lo l.hi t.mem t'.mem) (hext : t.mem.extent.Le t'.mem.extent)
    (hfresh : t.fresh ≤ t'.fresh) : Rep t' live where
  hash := hhash.trans h.hash
  objs := hobjs
  stored l hl := (h.stored l hl).congr (hmem l hl)
  oneBlock := h.oneBlock
  below l hl := (h.below l hl).trans hext
  fresh l hl := Nat.lt_of_lt_of_le (h.fresh l hl) hfresh
  order := h.order
  nodup := h.nodup
  distinct := h.distinct

/-- The argument is freed, and the object counted once more. -/
theorem intern_of_hashGet {t' : AttrTable} {object n : Nat} {attr : AttrPtrs}
    (hget : (t.parsed q).hashGet low t.fresh = some (some (object, t'))) (hne : object ≠ t.fresh)
    (hobj : t'.objs object = some ⟨attr, n⟩)
    (harg : t'.objs t.fresh = some ⟨(storeAttr t.mem q).2, 0⟩)
    (hstored : Stored t'.mem t.mem.extent (t.parsed q).mem.extent (storeAttr t.mem q).2 q)
    (hle : (t.parsed q).mem.extent.Le t'.mem.extent) :
    ∃ mem, (t.parsed q).intern low t.fresh = some (object,
        { t' with
          mem := mem
          objs := Function.update (Function.update t'.objs t.fresh none) object
            (some ⟨attr, n + 1⟩) }) ∧
      mem.extent = t'.mem.extent ∧
      Mem.SameOutside t.mem.extent (t.parsed q).mem.extent t'.mem mem ∧
      Mem.Freed t.mem.extent (t.parsed q).mem.extent mem := by
  obtain ⟨mem, hfree, hextent, hsame, hfreed⟩ := bgpsecPathFree_eq hstored hle
  refine ⟨mem, ?_, hextent, hsame, hfreed⟩
  have hpathFree : t'.pathFree t.fresh =
      some { t' with mem := mem, objs := Function.update t'.objs t.fresh none } := by
    unfold AttrTable.pathFree
    rw [harg]
    show (bgpsecPathFree t'.mem _).bind _ = _
    rw [hfree]
    rfl
  have hobj' : Function.update t'.objs t.fresh none object = some ⟨attr, n⟩ :=
    (Function.update_of_ne hne ..).trans hobj
  unfold AttrTable.intern
  rw [parsed_objs]
  show ((t.parsed q).hashGet low t.fresh).bind _ = _
  rw [hget]
  show (if object ≠ t.fresh then (t'.pathFree t.fresh).bind _ else _) = _
  rw [if_pos hne, hpathFree]
  show (Function.update t'.objs t.fresh none object).bind _ = _
  rw [hobj']
  rfl

/-- An attribute that has an object. -/
theorem Rep.intern_found (h : Rep t live) (hq : OneBlock q)
    (hfind : (live.find? fun l => SameAttr l.q q) = some l) {n : Nat}
    (hobj : t.objs l.object = some ⟨l.attr, n⟩) :
    ∃ mem, (t.parsed q).intern low t.fresh = some (l.object,
        { t.parsed q with
          mem := mem
          objs := Function.update (Function.update (t.parsed q).objs t.fresh none) l.object
            (some ⟨l.attr, n + 1⟩) }) ∧
      mem.extent = (t.parsed q).mem.extent ∧
      Mem.SameOutside t.mem.extent (t.parsed q).mem.extent (t.parsed q).mem mem ∧
      Mem.Freed t.mem.extent (t.parsed q).mem.extent mem := by
  have hne := Nat.ne_of_lt (h.fresh l (List.mem_of_find?_eq_some hfind))
  refine @intern_of_hashGet low t q (t.parsed q) l.object n l.attr ?_ hne
    ((Function.update_of_ne hne ..).trans hobj) (parsed_objs t q) (storeAttr_stored t.mem hq) (Extent.Le.refl _)
  unfold AttrTable.hashGet
  rw [key_parsed t hq]
  show ((t.parsed q).hashFind (keyOf q) t.fresh (t.parsed q).hash).bind _ = _
  rw [h.hashFind_parsed hq, hfind]
  rfl

/-- An attribute that has no object. -/
theorem Rep.intern_new (h : Rep t live) (hq : OneBlock q)
    (hfind : (live.find? fun l => SameAttr l.q q) = none) :
    ∃ mem attr mem', (t.parsed q).intern low t.fresh = some (t.fresh + 1,
        { mem := mem'
          objs := Function.update (Function.update (Function.update (t.parsed q).objs (t.fresh + 1)
            (some ⟨attr, 0⟩)) t.fresh none) (t.fresh + 1) (some ⟨attr, 1⟩)
          fresh := t.fresh + 2
          hash := (keyOf q, t.fresh + 1) :: t.hash }) ∧
      Stored mem (t.parsed q).mem.extent mem.extent attr q ∧ Extends (t.parsed q).mem mem ∧
      mem'.extent = mem.extent ∧
      Mem.SameOutside t.mem.extent (t.parsed q).mem.extent mem mem' ∧
      Mem.Freed t.mem.extent (t.parsed q).mem.extent mem' := by
  have hstored := storeAttr_stored t.mem hq
  obtain ⟨mem, attr, halloc, hcopy, hext⟩ := hashAlloc_eq hstored hq (Extent.Le.refl _)
  have hne : t.fresh ≠ t.fresh + 1 := Nat.ne_of_lt (Nat.lt_succ_self _)
  obtain ⟨mem', hintern, hrest⟩ := @intern_of_hashGet low t q
    ⟨mem, Function.update (t.parsed q).objs (t.fresh + 1) (some ⟨attr, 0⟩), t.fresh + 2,
      (keyOf q, t.fresh + 1) :: t.hash⟩ (t.fresh + 1) 0 attr (by
        unfold AttrTable.hashGet
        rw [key_parsed t hq]
        show ((t.parsed q).hashFind (keyOf q) t.fresh (t.parsed q).hash).bind _ = _
        rw [h.hashFind_parsed hq, hfind]
        show ((t.parsed q).objs t.fresh).bind _ = _
        rw [parsed_objs]
        show (hashAlloc (t.parsed q).mem (storeAttr t.mem q).2).bind _ = _
        rw [show hashAlloc (t.parsed q).mem (storeAttr t.mem q).2 = some (some (mem, attr)) from halloc]
        rfl) hne.symm (Function.update_self ..)
    ((Function.update_of_ne hne ..).trans (parsed_objs t q))
    (hstored.congr (extends_sameIn hext (Extent.Le.refl _))) (extends_le hext)
  exact ⟨mem, attr, mem', hintern, hcopy, hext, hrest⟩

end Table

/-! ## The invariant -/

/-- The counters and the log agree with the objects. -/
structure Inv (w : World) (live : List Live) : Prop where
  rep : Rep w.table live
  counts : ∀ l ∈ live, w.table.objs l.object = some ⟨l.attr, w.outstanding.count l.object⟩
  outstanding : ∀ a, a ∈ w.outstanding ↔ a ∈ live.map Live.object
  args : ∀ e ∈ w.log, OneBlock e.arg ∧ Mem.Freed e.lo e.hi w.table.mem ∧ e.hi.Le w.table.mem.extent
  objects : ∀ e ∈ w.log, e.object < w.table.fresh ∧
    (e.object ∈ w.outstanding → ∃ l ∈ live, l.object = e.object ∧ SameAttr l.q e.arg)

section World

variable {low : Nat → UInt32} {w : World} {live : List Live} {l : Live} {q : ParsedAttr}

theorem freed_congr {m m' : Mem} {lo hi : Extent} (h : Mem.Freed lo hi m)
    (hsame : Mem.SameIn lo hi m m') : Mem.Freed lo hi m' :=
  ⟨fun a hle hlt => (hsame.segs a hle hlt).trans (h.segs a hle hlt),
    fun a hle hlt => (hsame.blocks a hle hlt).trans (h.blocks a hle hlt),
    fun a hle hlt => (hsame.sigs a hle hlt).trans (h.sigs a hle hlt)⟩

theorem Rep.eq_of_object {t : AttrTable} {l' : Live} (h : Rep t live) (hl : l ∈ live) (hl' : l' ∈ live)
    (heq : l.object = l'.object) : l = l' := List.inj_on_of_nodup_map h.nodup hl hl' heq

theorem step_intern {object : Nat} {table : AttrTable}
    (h : (w.table.parsed q).intern low w.table.fresh = some (object, table)) :
    w.step low (.intern q) = some ⟨table, object :: w.outstanding,
      ⟨q, w.table.mem.extent, (w.table.parsed q).mem.extent, object⟩ :: w.log⟩ := by
  show ((w.table.parsed q).intern low w.table.fresh).bind _ = _
  rw [h]
  rfl

/-- An attribute is interned that has an object. -/
theorem Inv.intern_found (h : Inv w live) (hq : OneBlock q)
    (hfind : (live.find? fun l => SameAttr l.q q) = some l) :
    ∃ w', w.step low (.intern q) = some w' ∧ Inv w' live := by
  have hl := List.mem_of_find?_eq_some hfind
  have hsameAttr : SameAttr l.q q := by simpa using List.find?_some hfind
  obtain ⟨mem, hintern, hextent, hsame, hfreed⟩ := @Rep.intern_found low _ _ _ _ h.rep hq hfind _ (h.counts l hl)
  have hext := (storeAttr_at (m := w.table.mem) hq.signed).2
  have hparsed := h.rep.parsed hq.signed
  have hobjs : ∀ l' ∈ live, Function.update (Function.update (w.table.parsed q).objs w.table.fresh none)
      l.object (some ⟨l.attr, w.outstanding.count l.object + 1⟩) l'.object =
        some ⟨l'.attr, (l.object :: w.outstanding).count l'.object⟩ := by
    intro l' hl'
    rcases eq_or_ne l'.object l.object with heq | hne
    · obtain rfl := h.rep.eq_of_object hl' hl heq
      rw [Function.update_self, List.count_cons_self]
    · have hfresh := Nat.ne_of_lt (h.rep.fresh l' hl')
      rw [Function.update_of_ne hne, Function.update_of_ne hfresh, List.count_cons_of_ne hne.symm]
      exact (Function.update_of_ne hfresh ..).trans (h.counts l' hl')
  refine ⟨_, step_intern hintern, ?_, hobjs, fun a => ?_, fun e he => ?_, fun e he => ?_⟩
  · exact hparsed.congr rfl (fun l' hl' => ⟨_, hobjs l' hl'⟩)
      (fun l' hl' => hsame.before (h.rep.below l' hl')) (hextent ▸ Extent.Le.refl _) (Nat.le_refl _)
  · rw [List.mem_cons, h.outstanding]
    constructor
    · rintro (rfl | ha)
      · exact List.mem_map_of_mem hl
      · exact ha
    · exact .inr
  · rcases List.mem_cons.mp he with rfl | he
    · exact ⟨hq, hfreed, hextent ▸ Extent.Le.refl _⟩
    · obtain ⟨hone, hfreed', hle⟩ := h.args e he
      refine ⟨hone, freed_congr (freed_congr hfreed' (extends_sameIn hext hle)) (hsame.before hle), ?_⟩
      show e.hi.Le mem.extent
      rw [hextent]
      exact hle.trans (extends_le hext)
  · rcases List.mem_cons.mp he with rfl | he
    · exact ⟨Nat.lt_succ_of_lt (h.rep.fresh l hl), fun _ => ⟨l, hl, rfl, hsameAttr⟩⟩
    · obtain ⟨hfresh, hobject⟩ := h.objects e he
      refine ⟨Nat.lt_succ_of_lt hfresh, fun hout => ?_⟩
      rcases List.mem_cons.mp hout with heq | hout
      · exact hobject (heq ▸ (h.outstanding _).mpr (List.mem_map_of_mem hl))
      · exact hobject hout

/-- An attribute is interned that has no object. -/
theorem Inv.intern_new (h : Inv w live) (hq : OneBlock q)
    (hfind : (live.find? fun l => SameAttr l.q q) = none) :
    ∃ w' live', w.step low (.intern q) = some w' ∧ Inv w' live' := by
  obtain ⟨mem, attr, mem', hintern, hstored, hext', hextent, hsame, hfreed⟩ :=
    @Rep.intern_new low _ _ _ h.rep hq hfind
  have hext := (storeAttr_at (m := w.table.mem) hq.signed).2
  have hparsed := h.rep.parsed hq.signed
  have hfreshOut : w.table.fresh + 1 ∉ w.outstanding := by
    intro hmem
    obtain ⟨l, hl, heq⟩ := List.mem_map.mp ((h.outstanding _).mp hmem)
    have := h.rep.fresh l hl
    omega
  have hobjs : ∀ l ∈ live, Function.update (Function.update (Function.update (w.table.parsed q).objs
      (w.table.fresh + 1) (some ⟨attr, 0⟩)) w.table.fresh none) (w.table.fresh + 1) (some ⟨attr, 1⟩)
        l.object = some ⟨l.attr, ((w.table.fresh + 1) :: w.outstanding).count l.object⟩ := by
    intro l hl
    have hlt := h.rep.fresh l hl
    have hfresh := Nat.ne_of_lt hlt
    have hfresh' := Nat.ne_of_lt (Nat.lt_succ_of_lt hlt)
    rw [Function.update_of_ne hfresh', Function.update_of_ne hfresh, Function.update_of_ne hfresh',
      List.count_cons_of_ne hfresh'.symm]
    exact (Function.update_of_ne hfresh ..).trans (h.counts l hl)
  have hold : ∀ lo hi, Extent.Le hi w.table.mem.extent →
      Mem.SameIn lo hi (w.table.parsed q).mem mem' := by
    intro lo hi hle
    have h₁ : Mem.SameIn lo hi (w.table.parsed q).mem mem :=
      extends_sameIn hext' (hle.trans (extends_le hext))
    have h₂ : Mem.SameIn lo hi mem mem' := hsame.before hle
    exact ⟨fun a ha hb => (h₂.segs a ha hb).trans (h₁.segs a ha hb),
      fun a ha hb => (h₂.blocks a ha hb).trans (h₁.blocks a ha hb),
      fun a ha hb => (h₂.sigs a ha hb).trans (h₁.sigs a ha hb)⟩
  have hle' : (w.table.parsed q).mem.extent.Le mem'.extent := hextent ▸ extends_le hext'
  have hrep : Rep ⟨mem', Function.update (Function.update (Function.update (w.table.parsed q).objs
      (w.table.fresh + 1) (some ⟨attr, 0⟩)) w.table.fresh none) (w.table.fresh + 1) (some ⟨attr, 1⟩),
      w.table.fresh + 2, w.table.hash⟩ live :=
    hparsed.congr rfl (fun l hl => ⟨_, hobjs l hl⟩)
      (fun l hl => hold l.lo l.hi (h.rep.below l hl)) hle' (Nat.le_succ _)
  refine ⟨_, ⟨w.table.fresh + 1, q, attr, (w.table.parsed q).mem.extent, mem.extent⟩ :: live,
    step_intern hintern, ⟨?_, ?_, ?_, ?_, ?_, fun l hl => ?_, ?_, ?_, ?_⟩, ?_, fun a => ?_, fun e he => ?_, fun e he => ?_⟩
  · exact congrArg (List.cons _) h.rep.hash
  · exact List.forall_mem_cons.mpr ⟨⟨1, Function.update_self ..⟩, hrep.objs⟩
  · exact List.forall_mem_cons.mpr ⟨hstored.congr (hsame.after (Extent.Le.refl _)), hrep.stored⟩
  · exact List.forall_mem_cons.mpr ⟨hq, h.rep.oneBlock⟩
  · exact List.forall_mem_cons.mpr ⟨hextent ▸ Extent.Le.refl _, hrep.below⟩
  · rcases List.mem_cons.mp hl with rfl | hl
    · exact Nat.lt_succ_self _
    · exact hrep.fresh l hl
  · exact List.pairwise_cons.mpr ⟨fun l hl => hparsed.below l hl, h.rep.order⟩
  · rw [List.map_cons, List.nodup_cons]
    exact ⟨fun hmem => hfreshOut ((h.outstanding _).mpr hmem), h.rep.nodup⟩
  · refine List.pairwise_cons.mpr ⟨fun l hl hsame => ?_, h.rep.distinct⟩
    have := List.find?_eq_none.mp hfind l hl
    exact this (decide_eq_true ⟨hsame.1.symm, hsame.2.symm⟩)
  · refine List.forall_mem_cons.mpr ⟨?_, hobjs⟩
    have hcount : ((w.table.fresh + 1) :: w.outstanding).count (w.table.fresh + 1) = 1 := by
      rw [List.count_cons_self, List.count_eq_zero.mpr hfreshOut]
    show _ = some (AttrObj.mk attr (((w.table.fresh + 1) :: w.outstanding).count (w.table.fresh + 1)))
    rw [hcount]
    exact Function.update_self ..
  · rw [List.mem_cons, List.map_cons, List.mem_cons, h.outstanding]
  · rcases List.mem_cons.mp he with rfl | he
    · exact ⟨hq, hfreed, hle'⟩
    · obtain ⟨hone, hfreed', hle⟩ := h.args e he
      exact ⟨hone, freed_congr (freed_congr hfreed' (extends_sameIn hext hle)) (hold _ _ hle),
        (hle.trans (extends_le hext)).trans hle'⟩
  · rcases List.mem_cons.mp he with rfl | he
    · exact ⟨Nat.lt_succ_self _, fun _ => ⟨_, List.mem_cons_self, rfl, rfl, rfl⟩⟩
    · obtain ⟨hfresh, hobject⟩ := h.objects e he
      refine ⟨Nat.lt_succ_of_lt (Nat.lt_succ_of_lt hfresh), fun hout => ?_⟩
      rcases List.mem_cons.mp hout with heq | hout
      · rw [heq] at hfresh
        exact absurd hfresh (Nat.not_lt.mpr (Nat.le_succ _))
      · obtain ⟨l, hl, hrest⟩ := hobject hout
        exact ⟨l, List.mem_cons_of_mem _ hl, hrest⟩

theorem freed_or_same {α : Type} {m m' : SListMem α} {lo hi a : Nat}
    (hsame : ∀ a, a < lo ∨ hi ≤ a → m'.cells a = m.cells a)
    (hfreed : ∀ a, lo ≤ a → a < hi → m'.cells a = none) (h : m.cells a = none) : m'.cells a = none := by
  rcases Nat.lt_or_ge a lo with hlt | hge
  · exact (hsame a (.inl hlt)).trans h
  · rcases Nat.lt_or_ge a hi with hlt | hge'
    · exact hfreed a hge hlt
    · exact (hsame a (.inr hge')).trans h

/-- An object is released: it is the entry that is found. -/
theorem Rep.hashRelease_eq {t : AttrTable} (h : Rep t live) (hl : l ∈ live) :
    t.hashRelease low l.object =
      some (some l.object, { t with hash := t.hash.erase (keyOf l.q, l.object) }) := by
  unfold AttrTable.hashRelease
  rw [h.key_eq hl]
  show (t.hashFind (keyOf l.q) l.object t.hash).bind _ = _
  rw [h.hashFind_self hl]
  rfl

/-- The counter of an object is set. -/
theorem Rep.setObj {t : AttrTable} (h : Rep t live) (hl : l ∈ live) (n : Nat) :
    Rep (t.setObj l.object ⟨l.attr, n⟩) live := by
  refine h.congr rfl (fun l' hl' => ?_) (fun l' _ => ⟨fun _ _ _ => rfl, fun _ _ _ => rfl, fun _ _ _ => rfl⟩)
    (Extent.Le.refl _) (Nat.le_refl _)
  rcases eq_or_ne l'.object l.object with heq | hne
  · obtain rfl := h.eq_of_object hl' hl heq
    exact ⟨n, Function.update_self ..⟩
  · obtain ⟨k, hobj⟩ := h.objs l' hl'
    exact ⟨k, (Function.update_of_ne hne ..).trans hobj⟩

/-- The other nodes and objects stay when an object is freed. -/
theorem Rep.pathFree {t : AttrTable} {pre post : List Live} (h : Rep t (pre ++ l :: post)) :
    ∃ mem, { t with hash := t.hash.erase (keyOf l.q, l.object) }.pathFree l.object =
        some ⟨mem, Function.update t.objs l.object none, t.fresh, t.hash.erase (keyOf l.q, l.object)⟩ ∧
      mem.extent = t.mem.extent ∧ Mem.SameOutside l.lo l.hi t.mem mem ∧ Mem.Freed l.lo l.hi mem ∧
      Rep ⟨mem, Function.update t.objs l.object none, t.fresh, t.hash.erase (keyOf l.q, l.object)⟩
        (pre ++ post) := by
  have hl : l ∈ pre ++ l :: post := List.mem_append_right _ List.mem_cons_self
  have hsub : (pre ++ post).Sublist (pre ++ l :: post) :=
    List.Sublist.append_left (List.sublist_cons_self l post) pre
  obtain ⟨n, hobj⟩ := h.objs l hl
  obtain ⟨mem, hfree, hextent, hsame, hfreed⟩ := bgpsecPathFree_eq (h.stored l hl) (h.below l hl)
  have hnodup := h.nodup
  rw [List.map_append, List.map_cons] at hnodup
  have hnot := (List.nodup_cons.mp (List.nodup_middle.mp hnodup)).1
  rw [List.mem_append, not_or] at hnot
  have hne : ∀ l' ∈ pre ++ post, l'.object ≠ l.object := by
    intro l' hl' heq
    rcases List.mem_append.mp hl' with hl' | hl'
    · exact hnot.1 (heq ▸ List.mem_map_of_mem hl')
    · exact hnot.2 (heq ▸ List.mem_map_of_mem hl')
  have hapart : ∀ l' ∈ pre ++ post, Mem.SameIn l'.lo l'.hi t.mem mem := by
    intro l' hl'
    obtain ⟨-, hpost, hpre⟩ := List.pairwise_append.mp h.order
    rcases List.mem_append.mp hl' with hl' | hl'
    · exact hsame.after (hpre l' hl' l List.mem_cons_self)
    · exact hsame.before ((List.pairwise_cons.mp hpost).1 l' hl')
  refine ⟨mem, ?_, hextent, hsame, hfreed, ?_, fun l' hl' => ?_, fun l' hl' =>
    (h.stored l' (hsub.subset hl')).congr (hapart l' hl'), fun l' hl' => h.oneBlock l' (hsub.subset hl'),
    fun l' hl' => ?_, fun l' hl' => h.fresh l' (hsub.subset hl'), h.order.sublist hsub,
    h.nodup.sublist (hsub.map _), h.distinct.sublist hsub⟩
  · unfold AttrTable.pathFree
    show (t.objs l.object).bind _ = _
    rw [hobj]
    show (bgpsecPathFree t.mem l.attr).bind _ = _
    rw [hfree]
    rfl
  · show t.hash.erase (keyOf l.q, l.object) = _
    rw [h.hash, List.map_append, List.map_cons, List.erase_append_right _ fun hmem => ?_,
      List.erase_cons_head, List.map_append]
    obtain ⟨l', hl', heq⟩ := List.mem_map.mp hmem
    exact hne l' (List.mem_append_left _ hl') (congrArg Prod.snd heq)
  · obtain ⟨k, hobj'⟩ := h.objs l' (hsub.subset hl')
    exact ⟨k, (Function.update_of_ne (hne l' hl') ..).trans hobj'⟩
  · show l'.hi.Le mem.extent
    rw [hextent]
    exact h.below l' (hsub.subset hl')

/-- `bgpsec_path_unintern` of an object. -/
theorem Inv.unintern_object (h : Inv w live) (hl : l ∈ live) :
    ∃ table live', w.table.unintern low l.object = some table ∧
      Inv ⟨table, w.outstanding.erase l.object, w.log⟩ live' := by
  have hout : l.object ∈ w.outstanding := (h.outstanding _).mpr (List.mem_map_of_mem hl)
  have hpos : 0 < w.outstanding.count l.object := List.count_pos_iff.mpr hout
  have hset := h.rep.setObj hl (w.outstanding.count l.object - 1)
  have hcounts : ∀ l' ∈ live, (w.table.setObj l.object ⟨l.attr, w.outstanding.count l.object - 1⟩).objs
      l'.object = some ⟨l'.attr, (w.outstanding.erase l.object).count l'.object⟩ := by
    intro l' hl'
    rcases eq_or_ne l'.object l.object with heq | hne
    · obtain rfl := h.rep.eq_of_object hl' hl heq
      rw [List.count_erase_self]
      exact Function.update_self ..
    · rw [List.count_erase_of_ne hne]
      exact (Function.update_of_ne hne ..).trans (h.counts l' hl')
  rcases Nat.eq_zero_or_pos (w.outstanding.count l.object - 1) with hlast | hmore
  · -- the last reference
    obtain ⟨pre, post, rfl⟩ := List.append_of_mem hl
    obtain ⟨mem, hfree, hextent, hsame, hfreed, hrep⟩ := hset.pathFree
    have hgone : l.object ∉ w.outstanding.erase l.object := by
      rw [← List.count_eq_zero, List.count_erase_self]
      exact hlast
    have hne : ∀ l' ∈ pre ++ post, l'.object ≠ l.object := by
      intro l' hl' heq
      have hnodup := h.rep.nodup
      rw [List.map_append, List.map_cons] at hnodup
      refine (List.nodup_cons.mp (List.nodup_middle.mp hnodup)).1 ?_
      rw [← List.map_append, ← heq]
      exact List.mem_map_of_mem hl'
    have hsub : ∀ l' ∈ pre ++ post, l' ∈ pre ++ l :: post := fun l' hl' =>
      (List.Sublist.append_left (List.sublist_cons_self l post) pre).subset hl'
    refine ⟨_, pre ++ post, ?_, hrep, fun l' hl' => ?_, fun a => ?_, fun e he => ?_, fun e he => ?_⟩
    · unfold AttrTable.unintern
      rw [h.counts l hl]
      show (if w.outstanding.count l.object - 1 = 0 then
        ((w.table.setObj l.object ⟨l.attr, w.outstanding.count l.object - 1⟩).hashRelease low
          l.object).bind _ else _) = _
      rw [if_pos hlast, hset.hashRelease_eq hl]
      exact hfree
    · exact (Function.update_of_ne (hne l' hl') ..).trans (hcounts l' (hsub l' hl'))
    · rcases eq_or_ne a l.object with rfl | ha
      · refine iff_of_false hgone fun hmem => ?_
        obtain ⟨l', hl', heq⟩ := List.mem_map.mp hmem
        exact hne l' hl' heq
      · rw [List.mem_erase_of_ne ha, h.outstanding, List.map_append, List.map_append, List.map_cons,
          List.mem_append, List.mem_append, List.mem_cons]
        exact or_congr_right (or_iff_right ha)
    · obtain ⟨hone, hfreed', hle⟩ := h.args e he
      refine ⟨hone, ⟨fun a ha hb => ?_, fun a ha hb => ?_, fun a ha hb => ?_⟩, ?_⟩
      · exact freed_or_same hsame.segs hfreed.segs (hfreed'.segs a ha hb)
      · exact freed_or_same hsame.blocks hfreed.blocks (hfreed'.blocks a ha hb)
      · exact freed_or_same hsame.sigs hfreed.sigs (hfreed'.sigs a ha hb)
      · show e.hi.Le mem.extent
        rw [hextent]
        exact hle
    · obtain ⟨hfresh, hobject⟩ := h.objects e he
      refine ⟨hfresh, fun hmem => ?_⟩
      obtain ⟨l', hl', heq, hsameAttr⟩ := hobject (List.mem_of_mem_erase hmem)
      refine ⟨l', ?_, heq, hsameAttr⟩
      rcases List.mem_append.mp hl' with hl' | hl'
      · exact List.mem_append_left _ hl'
      · rcases List.mem_cons.mp hl' with rfl | hl'
        · exact absurd (heq ▸ hmem) hgone
        · exact List.mem_append_right _ hl'
  · refine ⟨_, live, ?_, hset, hcounts, fun a => ?_, h.args, fun e he => ?_⟩
    · unfold AttrTable.unintern
      rw [h.counts l hl]
      exact if_neg (Nat.ne_of_gt hmore)
    · rw [← h.outstanding]
      rcases eq_or_ne a l.object with rfl | ha
      · refine iff_of_true ?_ hout
        rw [← List.count_pos_iff, List.count_erase_self]
        exact hmore
      · exact List.mem_erase_of_ne ha
    · obtain ⟨hfresh, hobject⟩ := h.objects e he
      exact ⟨hfresh, fun hmem => hobject (List.mem_of_mem_erase hmem)⟩

/-! ## Runs of attributes with one block -/

theorem Accepted.signed (h : Accepted q) : Signed q.sigBlocks := by
  obtain ⟨⟨s, n, hparse⟩, -⟩ := h
  intro b hb
  obtain ⟨gs, hgs, -⟩ := bgpsecParse_signed hparse b hb
  exact ⟨gs, hgs⟩

theorem Accepted.oneBlock (h : Accepted q) (hone : q.sigBlocks.length = 1) : OneBlock q := by
  obtain ⟨⟨s, n, hparse⟩, hsegs⟩ := h
  obtain ⟨b, hb⟩ := List.length_eq_one_iff.mp hone
  obtain ⟨gs, hgs, hlen⟩ := bgpsecParse_signed hparse b (hb ▸ List.mem_singleton_self b)
  refine ⟨hsegs, b, gs, hb, hgs, ?_⟩
  rintro rfl
  exact hsegs (List.length_eq_zero_iff.mp hlen.symm)

theorem inv_init : Inv World.init [] where
  rep := ⟨rfl, List.forall_mem_nil _, List.forall_mem_nil _, List.forall_mem_nil _, List.forall_mem_nil _,
    List.forall_mem_nil _, .nil, List.nodup_nil, .nil⟩
  counts := List.forall_mem_nil _
  outstanding _ := Iff.rfl
  args := List.forall_mem_nil _
  objects := List.forall_mem_nil _

/-- What one call does to the invariant. -/
theorem Inv.step (h : Inv w live) {c : Call} (hc : ∀ q, c = .intern q → OneBlock q) :
    ∃ w' live', w.step low c = some w' ∧ Inv w' live' := by
  cases c with
  | intern q =>
    have hq := hc q rfl
    cases hfind : live.find? fun l => SameAttr l.q q with
    | none => exact h.intern_new hq hfind
    | some l =>
      obtain ⟨w', hstep, hinv⟩ := h.intern_found hq hfind
      exact ⟨w', live, hstep, hinv⟩
  | unintern a =>
    unfold World.step
    dsimp only
    split
    · next hout =>
      obtain ⟨l, hl, rfl⟩ := List.mem_map.mp ((h.outstanding a).mp hout)
      obtain ⟨table, live', hrun, hinv⟩ := @Inv.unintern_object low _ _ _ h hl
      rw [hrun]
      exact ⟨_, live', rfl, hinv⟩
    · exact ⟨w, live, rfl, h⟩

theorem Inv.run {calls : List Call} (h : Inv w live)
    (hcalls : ∀ q, .intern q ∈ calls → OneBlock q) :
    ∃ w' live', w.run low calls = some w' ∧ Inv w' live' := by
  induction calls generalizing w live with
  | nil => exact ⟨w, live, rfl, h⟩
  | cons c calls ih =>
    obtain ⟨w₁, live₁, hstep, h₁⟩ := @Inv.step low w live h c fun q hq => hcalls q (hq ▸ List.mem_cons_self)
    obtain ⟨w₂, live₂, hrun, h₂⟩ := ih h₁ fun q hq => hcalls q (List.mem_cons_of_mem _ hq)
    refine ⟨w₂, live₂, ?_, h₂⟩
    unfold World.run
    rw [List.foldlM_cons, hstep]
    exact hrun

theorem Inv.sound (h : Inv w live) : Sound low w where
  refcnt a ha := by
    obtain ⟨l, hl, rfl⟩ := List.mem_map.mp ((h.outstanding a).mp ha)
    exact ⟨l.attr, h.counts l hl⟩
  equal e he := by
    obtain ⟨hone, hfreed, -⟩ := h.args e he
    refine ⟨hfreed, fun hout => ?_⟩
    obtain ⟨l, hl, heq, hsame⟩ := (h.objects e he).2 hout
    rw [← heq, h.rep.cmp_parsed hone.signed hl]
    exact congrArg some (decide_eq_true hsame)
  shared q hq a ha hcmp := by
    obtain ⟨l, hl, rfl⟩ := List.mem_map.mp ((h.outstanding a).mp ha)
    rw [h.rep.cmp_parsed hq.signed hl] at hcmp
    have hsame : SameAttr l.q q := of_decide_eq_true (Option.some.inj hcmp)
    have hone := (h.rep.oneBlock l hl).congr hsame
    have hsome : (live.find? fun l => decide (SameAttr l.q q)).isSome :=
      List.find?_isSome.mpr ⟨l, hl, decide_eq_true hsame⟩
    obtain ⟨l', hfind⟩ := Option.isSome_iff_exists.mp hsome
    have hsame' : SameAttr l'.q q := by simpa using List.find?_some hfind
    obtain rfl : l = l' := by
      by_contra hne
      exact h.rep.not_same hl (List.mem_of_find?_eq_some hfind) hne
        ⟨hsame.1.trans hsame'.1.symm, hsame.2.trans hsame'.2.symm⟩
    obtain ⟨mem, hintern, -⟩ := @Rep.intern_found low _ _ _ _ h.rep hone hfind _ (h.counts l hl)
    refine ⟨⟨keyOf l.q, (h.rep.parsed hq.signed).key_eq hl, ?_⟩, _, hintern⟩
    rw [key_parsed w.table hone, keyOf_congr hsame.2]
  released a ha := by
    obtain ⟨l, hl, rfl⟩ := List.mem_map.mp ((h.outstanding a).mp ha)
    obtain ⟨table, -, hrun, -⟩ := @Inv.unintern_object low _ _ _ h hl
    exact ⟨⟨_, h.rep.hashRelease_eq hl⟩, table, hrun⟩

end World

/-- When all attributes that are interned have one signature block, no call fails, and interning is sound
in the state that is reached. -/
theorem interning_sound (low : Nat → UInt32) (calls : List Call)
    (hcalls : ∀ q, .intern q ∈ calls → Accepted q ∧ q.sigBlocks.length = 1) :
    ∃ w, World.init.run low calls = some w ∧ Sound low w := by
  obtain ⟨w, live, hrun, hinv⟩ := @Inv.run low World.init [] calls inv_init fun q hq =>
    (hcalls q hq).1.oneBlock (hcalls q hq).2
  exact ⟨w, hrun, hinv.sound⟩

theorem onePath_accepted : Accepted onePath.attr :=
  ⟨⟨onePath.bytes, _, bgpsecParse_bytes onePath ⟨by decide, by decide, by decide⟩ (by decide)⟩,
    by decide⟩

theorem twoPath_accepted : Accepted twoPath.attr :=
  ⟨⟨twoPath.bytes, _, bgpsecParse_bytes twoPath ⟨by decide, by decide, by decide⟩ (by decide)⟩,
    by decide⟩

/-- Addresses of which the low half is the number of the node. -/
def lowHalf (a : Nat) : UInt32 := UInt32.ofNat (64 * a)

/-- The same attribute is interned twice and given back twice. -/
theorem interning_sound_twice : ∃ w, World.init.run lowHalf
    [.intern onePath.attr, .intern onePath.attr, .unintern 1, .unintern 1] = some w ∧
      Sound lowHalf w :=
  interning_sound lowHalf [.intern onePath.attr, .intern onePath.attr, .unintern 1, .unintern 1]
    fun q hq => by
      obtain rfl : q = onePath.attr := by simpa using hq
      exact ⟨onePath_accepted, rfl⟩

/-- What is outstanding after a call, and how the objects compare with the arguments. -/
def World.compared (w : World) : List Nat × List (Nat × Option Bool) :=
  (w.outstanding, w.log.map fun e => (e.object, (w.table.parsed e.arg).cmp e.object w.table.fresh))

/-- The second block of the object is freed with the argument: the object cannot be compared, and giving
it back frees the block again. -/
theorem second_block_freed : Accepted twoPath.attr ∧
    (∃ w, World.init.run lowHalf [.intern twoPath.attr] = some w ∧ ¬ Sound lowHalf w) ∧
    World.init.run lowHalf [.intern twoPath.attr, .unintern 1] = none := by
  have hcompared : (World.init.run lowHalf [.intern twoPath.attr]).map World.compared =
      some ([1], [(1, none)]) := by decide +kernel
  have hcrash : (World.init.run lowHalf [.intern twoPath.attr, .unintern 1]).isNone := by decide +kernel
  obtain ⟨w, hrun, heq⟩ := Option.map_eq_some_iff.mp hcompared
  refine ⟨twoPath_accepted, ⟨w, hrun, fun hsound => ?_⟩, Option.isNone_iff_eq_none.mp hcrash⟩
  have hout : w.outstanding = [1] := congrArg Prod.fst heq
  have hlog : (w.log.map fun e => (e.object, (w.table.parsed e.arg).cmp e.object w.table.fresh)) =
      [(1, none)] := congrArg Prod.snd heq
  obtain ⟨e, he, hpair⟩ := List.mem_map.mp (hlog ▸ List.mem_singleton_self (1, none))
  have hobject : e.object = 1 := congrArg Prod.fst hpair
  have hnone : (w.table.parsed e.arg).cmp e.object w.table.fresh = none := congrArg Prod.snd hpair
  have htrue := (hsound.equal e he).2 (by rw [hobject, hout]; exact List.mem_singleton_self 1)
  rw [hnone] at htrue
  cases htrue

end SrxSuite.Quagga

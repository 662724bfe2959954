import Mathlib.Data.FinEnum
import Mathlib.Data.Set.Card
import SrxSuite.Lib.Trie
import SrxSuite.Shared.Defs

/-!
# The ASPA database

The model of `server/aspa_trie.c` and of `handleAspaPdu` (`server/rpki_handler.c`): ASPA
records live in a trie over the decimal digits of the customer AS number, so the node of
one customer can be an inner node on the path to another.

`Records` is the abstract database, a partial map from customers to records. The results:
1. `keyWord_injective`: different customers have different keys.
2. `handleAspaPdu_refines`: one PDU does on the trie what it does on the map, as long as a
   withdrawal does not cut off the record of a customer whose text extends the withdrawn
   one (`SubtreeFree`).
3. `run_refines`: the same over whole runs, with the record count.
4. `withdraw_cuts_subtree`: without that condition records of other customers are lost,
   because a withdrawal frees the whole subtrie of the withdrawn customer.
-/

namespace SrxSuite.Aspa

/-! ## The code -/

/-- `ASPA_Object`. -/
structure AspaObject where
  customerAsn : UInt32
  providerAsCount : UInt16
  providerAsns : List UInt32
  afi : UInt16
  deriving DecidableEq, Repr

/-- The fields of a `TrieNode` that insertion, search and deletion use. The character and
the `userData` pointer serve printing only. -/
structure LeafData where
  isLeaf : Bool
  aspaObjects : Option AspaObject

/-- `TrieNode`: `N = 10` children. -/
abbrev TrieNode := Trie (Fin 10) LeafData

/-- `ASPA_DBManager`. -/
structure AspaDBManager where
  tableRoot : TrieNode
  countAspaObj : UInt32

/-- The content of a node made by `make_trienode`. -/
def makeTrienode : LeafData := ⟨false, none⟩

/-- `initializeAspaDBManager`. -/
def initializeAspaDBManager : AspaDBManager := ⟨.node makeTrienode fun _ => .null, 0⟩

/-- `newASPAObject`: the first `pAsCount` providers are copied. -/
def newASPAObject (cusAsn : UInt32) (pAsCount : UInt16) (provAsns : List UInt32)
    (afi : UInt16) : AspaObject :=
  ⟨cusAsn, pAsCount, provAsns.take pAsCount.toNat, afi⟩

/-- `compareAspaObject` for two objects that are not NULL. -/
def compareAspaObject (obj1 obj2 : AspaObject) : Bool :=
  obj1.customerAsn == obj2.customerAsn && obj1.providerAsCount == obj2.providerAsCount &&
    obj1.afi == obj2.afi &&
    (List.range obj1.providerAsCount.toNat).all fun idx =>
      obj1.providerAsns.getD idx 0 == obj2.providerAsns.getD idx 0

/-- `findAspaObject`: walk down the word; a missing child ends the search. -/
def findAspaObject (self : AspaDBManager) (word : List (Fin 10)) : Option AspaObject :=
  match self.tableRoot.get? word with
  | some temp => if temp.isLeaf then temp.aspaObjects else none
  | none => none

/-- `insertAspaObj`: an object that is already there is deleted and counted out. -/
def insertAspaObj (self : AspaDBManager) (word : List (Fin 10)) (obj : AspaObject) :
    AspaDBManager :=
  let old := (self.tableRoot.get? word).bind (·.aspaObjects)
  let count := if old.isSome then self.countAspaObj - 1 else self.countAspaObj
  ⟨self.tableRoot.insertWith makeTrienode (fun _ => ⟨true, some obj⟩) word, count + 1⟩

/-- `delete_TrieNode_AspaObj`: when the record is found, `free_trienode` frees the node with
everything below it. -/
def deleteTrieNodeAspaObj (self : AspaDBManager) (word : List (Fin 10)) (obj : AspaObject) :
    AspaDBManager × Bool :=
  match self.tableRoot.get? word with
  | some ⟨true, some found⟩ =>
    if compareAspaObject found obj then
      (⟨self.tableRoot.erase word, self.countAspaObj - 1⟩, true)
    else (self, false)
  | _ => (self, false)

/-- The text `sprintf("%d", asn)` writes: a number with the top bit set is negative. -/
def sprintfD (asn : UInt32) : List Char :=
  if asn.toNat < 2 ^ 31 then Nat.toDigits 10 asn.toNat
  else '-' :: Nat.toDigits 10 (2 ^ 32 - asn.toNat)

/-- `word[i] - '0'` as an index into the children, `none` outside of them. -/
def position (c : Char) : Option (Fin 10) :=
  if h : 48 ≤ c.toNat ∧ c.toNat - 48 < 10 then some ⟨c.toNat - 48, h.2⟩ else none

/-- The search key in a buffer of `size` characters. It is `none` when the text with its
terminator does not fit or a character is no digit: the code is then undefined. -/
def keyWord (size : Nat) (asn : UInt32) : Option (List (Fin 10)) :=
  if (sprintfD asn).length + 1 ≤ size then (sprintfD asn).mapM position else none

/-- The arguments of `handleAspaPdu`; the array holds the announced number of
providers. -/
structure AspaPdu where
  customerAsn : UInt32
  providerAsCount : UInt16
  providerAsns : List UInt32
  addrFamilyType : UInt8
  announce : UInt8
  enough : providerAsCount.toNat ≤ providerAsns.length

/-- The address family of a PDU, `none` for a wrong value. -/
def AspaPdu.afi (pdu : AspaPdu) : Option UInt16 :=
  if pdu.addrFamilyType = 0 then some afiIP
  else if pdu.addrFamilyType = 1 then some afiIP6
  else none

/-- `handleAspaPdu` with `strWord[6]`. The outer `none` is undefined behaviour. -/
def handleAspaPdu (db : AspaDBManager) (pdu : AspaPdu) : Option (AspaDBManager × Nat) :=
  match pdu.afi with
  | none => some (db, 0)
  | some afi =>
    let aspaObj := newASPAObject pdu.customerAsn pdu.providerAsCount pdu.providerAsns afi
    match keyWord 6 pdu.customerAsn with
    | none => none
    | some strWord =>
      if pdu.announce = 1 then some (insertAspaObj db strWord aspaObj, 1)
      else if pdu.announce = 0 then
        let (db', resWithdraw) := deleteTrieNodeAspaObj db strWord aspaObj
        some (db', if resWithdraw then 1 else 0)
      else some (db, 0)

/-- `ASPA_DB_lookup` with `strCusAsn[MAX_ASN_LENGTH]`. -/
def aspaDBLookup (self : AspaDBManager) (customerAsn providerAsn : UInt32) (afi : UInt8) :
    Option AspaResult :=
  (keyWord 7 customerAsn).map fun strCusAsn =>
    match findAspaObject self strCusAsn with
    | none => .unknown
    | some obj =>
      if (List.range obj.providerAsCount.toNat).any fun idx =>
        obj.providerAsns.getD idx 0 == providerAsn && obj.afi == afi.toUInt16
      then .valid else .invalid

/-- A sequence of PDUs. -/
def runPdus (db : AspaDBManager) : List AspaPdu → Option AspaDBManager
  | [] => some db
  | pdu :: pdus => (handleAspaPdu db pdu).bind fun out => runPdus out.1 pdus

/-! ## The abstract database -/

/-- The object a PDU carries, `none` when its address family is wrong. -/
def AspaPdu.object? (pdu : AspaPdu) : Option AspaObject :=
  pdu.afi.map (newASPAObject pdu.customerAsn pdu.providerAsCount pdu.providerAsns)

/-- The PDU announces the record `obj`. -/
def Announces (pdu : AspaPdu) (obj : AspaObject) : Prop :=
  pdu.announce = 1 ∧ pdu.object? = some obj

/-- The PDU withdraws the record `obj`. -/
def Withdraws (pdu : AspaPdu) (obj : AspaObject) : Prop :=
  pdu.announce = 0 ∧ pdu.object? = some obj

/-- After `pdus`, `obj` is the record of its customer: the last announcement for that
customer, not withdrawn since. -/
def Recorded (pdus : List AspaPdu) (obj : AspaObject) : Prop :=
  ∃ before pdu after, pdus = before ++ pdu :: after ∧ Announces pdu obj ∧
    ∀ p ∈ after, ¬ Withdraws p obj ∧
      ∀ obj', Announces p obj' → obj'.customerAsn ≠ obj.customerAsn

/-- The records as a map from customers. -/
abbrev Records := UInt32 → Option AspaObject

/-- What one PDU does to the map. -/
def Records.apply (m : Records) (pdu : AspaPdu) : Records :=
  match pdu.object? with
  | none => m
  | some obj =>
    if pdu.announce = 1 then Function.update m pdu.customerAsn (some obj)
    else if pdu.announce = 0 ∧ m pdu.customerAsn = some obj then
      Function.update m pdu.customerAsn none
    else m

/-- The map after a sequence of PDUs. -/
def recordsAfter (pdus : List AspaPdu) : Records := pdus.foldl Records.apply fun _ => none

namespace DatabaseLemmas

theorem object?_customer {pdu : AspaPdu} {obj : AspaObject} (h : pdu.object? = some obj) :
    obj.customerAsn = pdu.customerAsn := by
  unfold AspaPdu.object? at h
  obtain ⟨afi, -, rfl⟩ := Option.map_eq_some_iff.mp h
  rfl

theorem object?_length {pdu : AspaPdu} {obj : AspaObject} (h : pdu.object? = some obj) :
    obj.providerAsns.length = obj.providerAsCount.toNat := by
  unfold AspaPdu.object? at h
  obtain ⟨afi, -, rfl⟩ := Option.map_eq_some_iff.mp h
  simp [newASPAObject, Nat.min_eq_left pdu.enough]

theorem recorded_snoc (pdus : List AspaPdu) (pdu : AspaPdu) (obj : AspaObject) :
    Recorded (pdus ++ [pdu]) obj ↔ Announces pdu obj ∨
      (Recorded pdus obj ∧ ¬ Withdraws pdu obj ∧
        ∀ obj', Announces pdu obj' → obj'.customerAsn ≠ obj.customerAsn) := by
  constructor
  · rintro ⟨before, q, after, heq, hq, hafter⟩
    rcases List.eq_nil_or_concat after with rfl | ⟨after', last, rfl⟩
    · obtain ⟨-, h⟩ := List.append_inj' heq rfl
      rw [List.cons.injEq] at h
      exact .inl (h.1 ▸ hq)
    · rw [List.concat_eq_append] at heq hafter
      rw [← List.cons_append, ← List.append_assoc] at heq
      obtain ⟨h1, h2⟩ := List.append_inj' heq rfl
      rw [List.cons.injEq] at h2
      obtain rfl := h2.1
      refine .inr ⟨⟨before, q, after', h1, hq, fun p hp => hafter p (by simp [hp])⟩, ?_⟩
      exact hafter pdu (by simp)
  · rintro (h | ⟨⟨before, q, after, rfl, hq, hafter⟩, hw⟩)
    · exact ⟨pdus, pdu, [], rfl, h, by simp⟩
    · refine ⟨before, q, after ++ [pdu], by simp, hq, ?_⟩
      intro p hp
      rcases List.mem_append.mp hp with hp | hp
      · exact hafter p hp
      · rwa [List.mem_singleton.mp hp]

/-- A record of the map after one PDU was announced by it, or was there before and is
neither withdrawn nor replaced. -/
theorem apply_eq_some_iff {m : Records} (hm : ∀ c o, m c = some o → o.customerAsn = c)
    (pdu : AspaPdu) (c : UInt32) (obj : AspaObject) :
    m.apply pdu c = some obj ↔ (Announces pdu obj ∧ obj.customerAsn = c) ∨
      (m c = some obj ∧ ¬ Withdraws pdu obj ∧
        ∀ obj', Announces pdu obj' → obj'.customerAsn ≠ c) := by
  unfold Records.apply Announces Withdraws
  cases hobj : pdu.object? with
  | none => simp
  | some o =>
    have hc := object?_customer hobj
    simp only [Option.some.injEq]
    by_cases ha : pdu.announce = 1
    · have h01 : ¬ (1 : UInt8) = 0 := by decide
      simp only [ha, h01, if_true, true_and, false_and, not_false_eq_true]
      by_cases hcc : c = pdu.customerAsn
      · subst hcc
        simp only [Function.update_self, Option.some.injEq]
        constructor
        · rintro rfl; exact .inl ⟨rfl, hc⟩
        · rintro (⟨rfl, -⟩ | ⟨-, h⟩)
          · rfl
          · exact absurd hc (h o rfl)
      · rw [Function.update_of_ne hcc]
        constructor
        · intro h
          refine .inr ⟨h, ?_⟩
          rintro o' rfl
          rw [hc]; exact Ne.symm hcc
        · rintro (⟨rfl, rfl⟩ | ⟨h, -⟩)
          · exact absurd hc hcc
          · exact h
    · simp only [ha, if_false, false_and, false_or, false_implies, implies_true, and_true]
      by_cases hw : pdu.announce = 0 ∧ m pdu.customerAsn = some o
      · rw [if_pos hw]
        by_cases hcc : c = pdu.customerAsn
        · subst hcc
          simp only [Function.update_self, reduceCtorEq, false_iff, hw.2, hw.1, true_and,
            Option.some.injEq]
          exact fun h => h.2 h.1
        · rw [Function.update_of_ne hcc]
          constructor
          · intro h
            refine ⟨h, ?_⟩
            rintro ⟨-, rfl⟩
            exact hcc ((hm _ _ h).symm.trans hc)
          · exact fun h => h.1
      · rw [if_neg hw]
        constructor
        · intro h
          refine ⟨h, ?_⟩
          rintro ⟨h0, rfl⟩
          have := hm _ _ h
          exact hw ⟨h0, by rwa [← hc, this]⟩
        · exact fun h => h.1

/-- The map holds exactly the records. -/
theorem recordsAfter_eq_some_iff (pdus : List AspaPdu) (c : UInt32) (obj : AspaObject) :
    recordsAfter pdus c = some obj ↔ Recorded pdus obj ∧ obj.customerAsn = c := by
  induction pdus using List.reverseRecOn generalizing c obj with
  | nil => simp [recordsAfter, Recorded]
  | append_singleton pdus pdu ih =>
    rw [recordsAfter, List.foldl_append, List.foldl_cons, List.foldl_nil, ← recordsAfter,
      apply_eq_some_iff (fun c o h => ((ih c o).mp h).2), recorded_snoc, ih]
    constructor
    · rintro (⟨h, rfl⟩ | ⟨⟨h, rfl⟩, hw, hr⟩)
      · exact ⟨.inl h, rfl⟩
      · exact ⟨.inr ⟨h, hw, hr⟩, rfl⟩
    · rintro ⟨h | ⟨h, hw, hr⟩, rfl⟩
      · exact .inl ⟨h, rfl⟩
      · exact .inr ⟨⟨h, rfl⟩, hw, hr⟩

/-- The character of a digit. -/
def digitText (d : Fin 10) : Char := Char.ofNat (48 + d.val)

/-- A character whose child index is `d` is the digit `d`. -/
theorem position_eq_some {c : Char} {d : Fin 10} (h : position c = some d) :
    c = digitText d := by
  unfold position at h
  split at h
  · next hc =>
    obtain rfl := Option.some.inj h
    rw [digitText, show 48 + (c.toNat - 48) = c.toNat by omega, Char.ofNat_toNat]
  · cases h

theorem mapM_position {text : List Char} {w : List (Fin 10)} (h : text.mapM position = some w) :
    text = w.map digitText := by
  induction text generalizing w with
  | nil => cases h; rfl
  | cons c text ih =>
    simp only [List.mapM_cons, Option.bind_eq_bind, Option.pure_def, Option.bind_eq_some_iff,
      Option.some.injEq] at h
    obtain ⟨d, hd, ds, hds, rfl⟩ := h
    rw [List.map_cons, ← position_eq_some hd, ← ih hds]

theorem mapM_position_isSome {text : List Char} (h : ∀ c ∈ text, c.isDigit) :
    ∃ w, text.mapM position = some w := by
  induction text with
  | nil => exact ⟨[], rfl⟩
  | cons c text ih =>
    obtain ⟨w, hw⟩ := ih fun c hc => h c (List.mem_cons_of_mem _ hc)
    have hc : 48 ≤ c.toNat ∧ c.toNat - 48 < 10 := by
      have h1 := h c List.mem_cons_self
      simp only [Char.isDigit, ge_iff_le, Bool.and_eq_true, decide_eq_true_eq] at h1
      have h2 : (48 : UInt32) ≤ c.val := h1.1
      have h3 : c.val ≤ (57 : UInt32) := h1.2
      rw [UInt32.le_iff_toNat_le] at h2 h3
      have h4 : c.toNat = c.val.toNat := rfl
      have h5 : (48 : UInt32).toNat = 48 := rfl
      have h6 : (57 : UInt32).toNat = 57 := rfl
      omega
    exact ⟨⟨c.toNat - 48, hc.2⟩ :: w, by simp [position, hc, hw]⟩

theorem keyWord_text {size : Nat} {asn : UInt32} {w : List (Fin 10)}
    (h : keyWord size asn = some w) : sprintfD asn = w.map digitText := by
  unfold keyWord at h
  split at h
  · exact mapM_position h
  · cases h

theorem position_minus : position '-' = none := by decide

/-- A key in a buffer of `size` characters is a number of at most `size - 1` digits. -/
theorem keyWord_bound {size : Nat} {asn : UInt32} {w : List (Fin 10)} (hs : 2 ≤ size)
    (h : keyWord size asn = some w) : asn.toNat < 10 ^ (size - 1) ∧
      sprintfD asn = Nat.toDigits 10 asn.toNat := by
  unfold keyWord at h
  split at h
  · next hlen =>
    by_cases hneg : asn.toNat < 2 ^ 31
    · have ht : sprintfD asn = Nat.toDigits 10 asn.toNat := if_pos hneg
      rw [ht] at hlen
      exact ⟨(Nat.length_toDigits_le_iff (by omega) (by omega)).mp (by omega), ht⟩
    · have ht : sprintfD asn = '-' :: Nat.toDigits 10 (2 ^ 32 - asn.toNat) := if_neg hneg
      rw [ht, List.mapM_cons, position_minus] at h
      cases h
  · cases h

/-- Every number short enough for the buffer has a key. -/
theorem keyWord_isSome (size : Nat) {asn : UInt32} (hs : 2 ≤ size) (h31 : asn.toNat < 2 ^ 31)
    (h : asn.toNat < 10 ^ (size - 1)) : ∃ w, keyWord size asn = some w := by
  have ht : sprintfD asn = Nat.toDigits 10 asn.toNat := if_pos h31
  have hlen := (Nat.length_toDigits_le_iff (b := 10) (by omega) (by omega)).mpr h
  unfold keyWord
  rw [if_pos (by rw [ht]; omega), ht]
  exact mapM_position_isSome fun c hc => Nat.isDigit_of_mem_toDigits (by omega) (by omega) hc

end DatabaseLemmas

open DatabaseLemmas

/-- Two customers with the same key are the same customer, whatever buffers the keys were
written to. -/
theorem keyWord_injective {size size' : Nat} (hs : 2 ≤ size) (hs' : 2 ≤ size') {a b : UInt32}
    {w : List (Fin 10)} (ha : keyWord size a = some w) (hb : keyWord size' b = some w) : a = b := by
  have htext : sprintfD a = sprintfD b := (keyWord_text ha).trans (keyWord_text hb).symm
  rw [(keyWord_bound hs ha).2, (keyWord_bound hs' hb).2] at htext
  apply UInt32.toNat_inj.mp
  rw [← Nat.ofDigitChars_ten_toDigits (n := a.toNat), htext, Nat.ofDigitChars_ten_toDigits]

/-- `compareAspaObject` compares the whole objects. -/
theorem compareAspaObject_iff {obj1 obj2 : AspaObject}
    (h1 : obj1.providerAsns.length = obj1.providerAsCount.toNat)
    (h2 : obj2.providerAsns.length = obj2.providerAsCount.toNat) :
    compareAspaObject obj1 obj2 = true ↔ obj1 = obj2 := by
  constructor
  · intro h
    simp only [compareAspaObject, Bool.and_eq_true, beq_iff_eq, List.all_eq_true,
      List.mem_range] at h
    obtain ⟨⟨⟨hc, hn⟩, hafi⟩, hall⟩ := h
    have hp : obj1.providerAsns = obj2.providerAsns := by
      apply List.ext_getElem (by rw [h1, h2, hn])
      intro i hi1 hi2
      have := hall i (by omega)
      rwa [List.getD_eq_getElem?_getD, List.getD_eq_getElem?_getD, List.getElem?_eq_getElem hi1,
        List.getElem?_eq_getElem hi2] at this
    cases obj1; cases obj2
    simp_all
  · rintro rfl
    simp [compareAspaObject]

/-! ## One PDU -/

/-- The trie stores the map. -/
structure Refines (db : AspaDBManager) (m : Records) : Prop where
  leaf : ∀ w v, db.tableRoot.get? w = some v → v.isLeaf = v.aspaObjects.isSome
  stored : ∀ c w, keyWord 7 c = some w → findAspaObject db w = m c
  keyed : ∀ c, (m c).isSome → ∃ w, keyWord 6 c = some w
  whole : ∀ c o, m c = some o → o.providerAsns.length = o.providerAsCount.toNat
  count : db.countAspaObj.toNat = {c | (m c).isSome}.ncard

/-- A withdrawal that removes a record meets no other record whose customer's decimal text
extends the withdrawn one. -/
def SubtreeFree (m : Records) (pdu : AspaPdu) : Prop :=
  ∀ obj, Withdraws pdu obj → m obj.customerAsn = some obj →
    ∀ c, c ≠ obj.customerAsn → (m c).isSome → ¬ sprintfD obj.customerAsn <+: sprintfD c

namespace DatabaseLemmas

theorem keyWord_six_seven {c : UInt32} {w : List (Fin 10)} (h : keyWord 6 c = some w) :
    keyWord 7 c = some w := by
  unfold keyWord at h ⊢
  split at h
  · next hlen => rwa [if_pos (by omega)]
  · cases h

theorem find_insertAspaObj {db : AspaDBManager} (w u : List (Fin 10)) (obj : AspaObject) :
    findAspaObject (insertAspaObj db w obj) u =
      if u = w then some obj else findAspaObject db u := by
  unfold findAspaObject insertAspaObj
  simp only [Trie.get?_insertWith]
  by_cases hu : u = w
  · simp [hu]
  · by_cases hp : u <+: w
    · cases h : db.tableRoot.get? u <;> simp [hu, hp, makeTrienode]
    · simp [hu, hp]

theorem find_erase {db : AspaDBManager} (w u : List (Fin 10)) (n : UInt32) :
    findAspaObject ⟨db.tableRoot.erase w, n⟩ u =
      if w <+: u then none else findAspaObject db u := by
  unfold findAspaObject
  simp only [Trie.get?_erase]
  by_cases hp : w <+: u
  · simp only [if_pos hp]
  · simp only [if_neg hp]

theorem leaf_insertAspaObj {db : AspaDBManager} {m : Records} (h : Refines db m)
    (w u : List (Fin 10)) (obj : AspaObject) (v : LeafData)
    (hv : (insertAspaObj db w obj).tableRoot.get? u = some v) :
    v.isLeaf = v.aspaObjects.isSome := by
  simp only [insertAspaObj, Trie.get?_insertWith] at hv
  split at hv
  · cases hv; rfl
  · split at hv
    · cases hg : db.tableRoot.get? u with
      | none =>
        rw [hg] at hv
        obtain rfl := Option.some.inj hv
        rfl
      | some v' =>
        rw [hg] at hv
        obtain rfl := Option.some.inj hv
        exact h.leaf u v' hg
    · exact h.leaf u v hv

/-- The object at a customer's node is the customer's record. -/
theorem object_at_key {db : AspaDBManager} {m : Records} (h : Refines db m) {c : UInt32}
    {w : List (Fin 10)} (hw : keyWord 7 c = some w) :
    (db.tableRoot.get? w).bind (·.aspaObjects) = m c := by
  rw [← h.stored c w hw]
  unfold findAspaObject
  cases hv : db.tableRoot.get? w with
  | none => rfl
  | some v =>
    have := h.leaf w v hv
    cases hl : v.aspaObjects <;> simp_all

/-- The customers with a record have at most five digits, so the 32 bit count is exact. -/
theorem ncard_lt {db : AspaDBManager} {m : Records} (h : Refines db m) :
    {c | (m c).isSome}.ncard < 2 ^ 32 - 1 := by
  have hsub : UInt32.toNat '' {c | (m c).isSome} ⊆ ↑(Finset.range 100000) := by
    rintro _ ⟨c, hc, rfl⟩
    obtain ⟨w, hw⟩ := h.keyed c hc
    have := (keyWord_bound (by omega) hw).1
    simpa using this
  have hinj : Function.Injective UInt32.toNat := fun a b hab => UInt32.toNat_inj.mp hab
  have hle := Set.ncard_le_ncard hsub (Finset.finite_toSet _)
  rw [Set.ncard_image_of_injective _ hinj, Set.ncard_coe_finset, Finset.card_range] at hle
  omega

theorem refines_insert {db : AspaDBManager} {m : Records} (h : Refines db m) {c : UInt32}
    {w : List (Fin 10)} (hw : keyWord 6 c = some w) {obj : AspaObject}
    (hobj : obj.providerAsns.length = obj.providerAsCount.toNat) :
    Refines (insertAspaObj db w obj) (Function.update m c (some obj)) where
  leaf := fun u v hv => leaf_insertAspaObj h w u obj v hv
  stored := by
    intro c' u hu
    rw [find_insertAspaObj]
    by_cases hc : c' = c
    · subst hc
      rw [keyWord_six_seven hw, Option.some.injEq] at hu
      rw [if_pos hu.symm, Function.update_self]
    · rw [Function.update_of_ne hc, if_neg, h.stored c' u hu]
      rintro rfl
      exact hc (keyWord_injective (by omega) (by omega) hu hw)
  keyed := by
    intro c' hc'
    by_cases hc : c' = c
    · exact ⟨w, hc ▸ hw⟩
    · rw [Function.update_of_ne hc] at hc'
      exact h.keyed c' hc'
  whole := by
    intro c' o ho
    by_cases hc : c' = c
    · subst hc
      rw [Function.update_self] at ho
      exact Option.some.inj ho ▸ hobj
    · rw [Function.update_of_ne hc] at ho
      exact h.whole c' o ho
  count := by
    have hset : {c' | (Function.update m c (some obj) c').isSome} =
        insert c {c' | (m c').isSome} := by
      ext c'
      by_cases hc : c' = c <;> simp [hc, Function.update_apply]
    rw [hset]
    simp only [insertAspaObj, object_at_key h (keyWord_six_seven hw)]
    by_cases hm : (m c).isSome
    · rw [if_pos hm, Set.insert_eq_of_mem (show c ∈ {c' | (m c').isSome} from hm), ← h.count]
      simp
    · rw [if_neg hm, Set.ncard_insert_of_notMem (by simpa using hm), ← h.count]
      have := ncard_lt h
      rw [← h.count] at this
      rw [UInt32.toNat_add, Nat.mod_eq_of_lt (by simpa using by omega)]
      rfl

theorem refines_erase {db : AspaDBManager} {m : Records} (h : Refines db m) {c : UInt32}
    {w : List (Fin 10)} (hw : keyWord 6 c = some w) {obj : AspaObject} (hm : m c = some obj)
    (hfree : ∀ c', c' ≠ c → (m c').isSome → ¬ sprintfD c <+: sprintfD c') :
    Refines ⟨db.tableRoot.erase w, db.countAspaObj - 1⟩ (Function.update m c none) where
  leaf := by
    intro u v hv
    rw [Trie.get?_erase] at hv
    split at hv
    · cases hv
    · exact h.leaf u v hv
  stored := by
    intro c' u hu
    rw [find_erase]
    by_cases hc : c' = c
    · subst hc
      rw [keyWord_six_seven hw, Option.some.injEq] at hu
      rw [if_pos (by rw [hu]), Function.update_self]
    · rw [Function.update_of_ne hc, h.stored c' u hu]
      split
      · next hp =>
        -- the cut reaches the node of `c'`, which then has no record
        have htext : sprintfD c <+: sprintfD c' := by
          rw [keyWord_text hw, keyWord_text hu]
          exact hp.map digitText
        by_contra hne
        exact hfree c' hc (Option.isSome_iff_ne_none.mpr (Ne.symm hne)) htext
      · rfl
  keyed := by
    intro c' hc'
    by_cases hc : c' = c
    · exact ⟨w, hc ▸ hw⟩
    · rw [Function.update_of_ne hc] at hc'
      exact h.keyed c' hc'
  whole := by
    intro c' o ho
    by_cases hc : c' = c
    · subst hc
      rw [Function.update_self] at ho
      cases ho
    · rw [Function.update_of_ne hc] at ho
      exact h.whole c' o ho
  count := by
    have hset : {c' | (Function.update m c none c').isSome} = {c' | (m c').isSome} \ {c} := by
      ext c'
      by_cases hc : c' = c <;> simp [hc, Function.update_apply]
    have hmem : c ∈ {c' | (m c').isSome} := by simp [hm]
    rw [hset, Set.ncard_sdiff_singleton_of_mem hmem, ← h.count]
    have hpos : 0 < {c' | (m c').isSome}.ncard := (Set.ncard_pos).mpr ⟨c, hmem⟩
    rw [← h.count] at hpos
    rw [UInt32.toNat_sub_of_le _ _ (by rw [UInt32.le_iff_toNat_le]; exact hpos)]
    rfl

/-- The withdrawal finds its record exactly when the map holds it. -/
theorem deleteTrieNodeAspaObj_eq {db : AspaDBManager} {m : Records} (h : Refines db m)
    {c : UInt32} {w : List (Fin 10)} (hw : keyWord 6 c = some w) {obj : AspaObject}
    (hlen : obj.providerAsns.length = obj.providerAsCount.toNat) :
    deleteTrieNodeAspaObj db w obj = if m c = some obj then
      (⟨db.tableRoot.erase w, db.countAspaObj - 1⟩, true) else (db, false) := by
  have hkey := object_at_key h (keyWord_six_seven hw)
  unfold deleteTrieNodeAspaObj
  split
  · next found hget =>
    rw [hget] at hkey
    have hfound : m c = some found := hkey.symm
    by_cases hc : compareAspaObject found obj = true
    · have := (compareAspaObject_iff (h.whole _ _ hfound) hlen).mp hc
      rw [if_pos hc, if_pos (by rw [hfound, this])]
    · rw [if_neg hc, if_neg]
      intro hm
      rw [hfound, Option.some.injEq] at hm
      exact hc ((compareAspaObject_iff (h.whole _ _ hfound) hlen).mpr hm)
  · next hne =>
    rw [if_neg]
    intro hm
    rw [hm] at hkey
    obtain ⟨v, hv, hvo⟩ := Option.bind_eq_some_iff.mp hkey
    have hleaf := h.leaf w v hv
    rw [hvo, Option.isSome_some] at hleaf
    exact hne obj (by rw [hv]; cases v; simp_all)

end DatabaseLemmas

/-- One PDU on the trie is one PDU on the map, unless a withdrawal cuts off another
customer's record. -/
theorem handleAspaPdu_refines {db : AspaDBManager} {m : Records} (h : Refines db m)
    {pdu : AspaPdu} (hshort : pdu.customerAsn.toNat ≤ 99999) (hfree : SubtreeFree m pdu) :
    ∃ db' ret, handleAspaPdu db pdu = some (db', ret) ∧ Refines db' (m.apply pdu) := by
  obtain ⟨w, hw⟩ := keyWord_isSome 6 (by omega) (by omega)
    (by omega : pdu.customerAsn.toNat < 10 ^ (6 - 1))
  unfold handleAspaPdu Records.apply
  cases hafi : pdu.afi with
  | none => exact ⟨db, 0, rfl, by simpa [AspaPdu.object?, hafi] using h⟩
  | some afi =>
    set obj := newASPAObject pdu.customerAsn pdu.providerAsCount pdu.providerAsns afi
    have hobj : pdu.object? = some obj := by simp [AspaPdu.object?, hafi, obj]
    have hlen := object?_length hobj
    simp only [hw, hobj]
    by_cases ha : pdu.announce = 1
    · rw [if_pos ha, if_pos ha]
      exact ⟨_, _, rfl, refines_insert h hw hlen⟩
    · rw [if_neg ha, if_neg ha]
      by_cases hd : pdu.announce = 0
      · simp only [hd, if_true, true_and]
        rw [deleteTrieNodeAspaObj_eq h hw hlen]
        by_cases hm : m pdu.customerAsn = some obj
        · rw [if_pos hm, if_pos hm]
          refine ⟨_, _, rfl, refines_erase h hw hm fun c hc hs => ?_⟩
          exact hfree obj ⟨hd, hobj⟩ hm c hc hs
        · rw [if_neg hm, if_neg hm]
          exact ⟨_, _, rfl, h⟩
      · rw [if_neg hd, if_neg (fun h' => hd h'.1)]
        exact ⟨_, _, rfl, h⟩

/-! ## Runs -/

/-- In the whole run, no withdrawal cuts off the record of another customer: when a PDU
withdraws the current record of a customer, no other customer with a record has a decimal
text that extends the withdrawn customer's. -/
def SubtreeFreeRun (pdus : List AspaPdu) : Prop :=
  ∀ before pdu after, pdus = before ++ pdu :: after → ∀ obj, Withdraws pdu obj →
    Recorded before obj → ∀ obj', Recorded before obj' →
      obj'.customerAsn ≠ obj.customerAsn →
      ¬ sprintfD obj.customerAsn <+: sprintfD obj'.customerAsn

namespace DatabaseLemmas

theorem runPdus_append (db : AspaDBManager) (pdus : List AspaPdu) (pdu : AspaPdu) :
    runPdus db (pdus ++ [pdu]) =
      (runPdus db pdus).bind fun db' => (handleAspaPdu db' pdu).map (·.1) := by
  induction pdus generalizing db with
  | nil =>
    cases h : handleAspaPdu db pdu <;> simp [runPdus, h]
  | cons p pdus ih =>
    cases h : handleAspaPdu db p <;> simp [runPdus, h, ih]

theorem refines_init : Refines initializeAspaDBManager (recordsAfter []) where
  leaf := by
    intro w v hv
    cases w with
    | nil =>
      obtain rfl := Option.some.inj hv
      rfl
    | cons d w => simp [initializeAspaDBManager] at hv
  stored := by
    intro c w hw
    cases w <;> simp [findAspaObject, initializeAspaDBManager, makeTrienode, recordsAfter]
  keyed := by simp [recordsAfter]
  whole := by simp [recordsAfter]
  count := by simp [recordsAfter, initializeAspaDBManager]

theorem subtreeFreeRun_snoc (pdus : List AspaPdu) (pdu : AspaPdu) :
    SubtreeFreeRun (pdus ++ [pdu]) ↔
      SubtreeFreeRun pdus ∧ SubtreeFree (recordsAfter pdus) pdu := by
  constructor
  · intro hfree
    refine ⟨fun before p after heq => hfree before p (after ++ [pdu]) (by simp [heq]), ?_⟩
    intro obj hw hm c hc hs
    obtain ⟨obj', hobj'⟩ := Option.isSome_iff_exists.mp hs
    have hrec := (recordsAfter_eq_some_iff pdus _ _).mp hm
    have hrec' := (recordsAfter_eq_some_iff pdus _ _).mp hobj'
    have := hfree pdus pdu [] rfl obj hw hrec.1 obj' hrec'.1 (by rw [hrec'.2]; exact hc)
    rwa [hrec'.2] at this
  · rintro ⟨hrun, hstep⟩ before p after heq obj hw hrec obj' hrec' hne
    rcases List.eq_nil_or_concat after with rfl | ⟨after', last, rfl⟩
    · obtain ⟨rfl, h⟩ := List.append_inj' heq rfl
      obtain rfl := (List.cons.inj h).1
      exact hstep obj hw ((recordsAfter_eq_some_iff _ _ _).mpr ⟨hrec, rfl⟩) _ hne
        (by rw [(recordsAfter_eq_some_iff _ _ _).mpr ⟨hrec', rfl⟩]; rfl)
    · rw [List.concat_eq_append, ← List.cons_append, ← List.append_assoc] at heq
      exact hrun before p after' (List.append_inj' heq rfl).1 obj hw hrec obj' hrec' hne

theorem run_refines {pdus : List AspaPdu} (hshort : ∀ pdu ∈ pdus, pdu.customerAsn.toNat ≤ 99999)
    (hfree : SubtreeFreeRun pdus) :
    ∃ db, runPdus initializeAspaDBManager pdus = some db ∧ Refines db (recordsAfter pdus) := by
  induction pdus using List.reverseRecOn with
  | nil => exact ⟨_, rfl, refines_init⟩
  | append_singleton pdus pdu ih =>
    obtain ⟨hfree', hstep⟩ := (subtreeFreeRun_snoc _ _).mp hfree
    obtain ⟨db, hrun, href⟩ := ih (fun p hp => hshort p (by simp [hp])) hfree'
    obtain ⟨db', ret, hdo, href'⟩ := handleAspaPdu_refines href (hshort pdu (by simp)) hstep
    refine ⟨db', by simp [runPdus_append, hrun, hdo], ?_⟩
    rw [recordsAfter, List.foldl_append, List.foldl_cons, List.foldl_nil, ← recordsAfter]
    exact href'

end DatabaseLemmas

/-- The database is a finite map in every run in which no withdrawal cuts off another
customer's record: the lookup of any customer that fits the key buffers returns exactly
its last announcement that was not withdrawn since, and the count is the number of
customers with a record. -/
theorem aspaDB_is_map {pdus : List AspaPdu}
    (hshort : ∀ pdu ∈ pdus, pdu.customerAsn.toNat ≤ 99999) (hfree : SubtreeFreeRun pdus) :
    ∃ db, runPdus initializeAspaDBManager pdus = some db ∧
      (∀ c : UInt32, c.toNat ≤ 999999 → ∃ w, keyWord 7 c = some w ∧ ∀ obj,
        findAspaObject db w = some obj ↔ Recorded pdus obj ∧ obj.customerAsn = c) ∧
      db.countAspaObj.toNat = {c | ∃ obj, Recorded pdus obj ∧ obj.customerAsn = c}.ncard := by
  obtain ⟨db, hrun, href⟩ := run_refines hshort hfree
  refine ⟨db, hrun, ?_, ?_⟩
  · intro c hc
    obtain ⟨w, hw⟩ := keyWord_isSome 7 (by omega) (by omega)
      (by omega : c.toNat < 10 ^ (7 - 1))
    refine ⟨w, hw, fun obj => ?_⟩
    rw [href.stored c w hw, recordsAfter_eq_some_iff]
  · rw [href.count]
    congr 1
    ext c
    simp only [Set.mem_ofPred_eq, Option.isSome_iff_exists, recordsAfter_eq_some_iff]

/-- Announcement (`1`) or withdrawal (`0`) of one provider for a customer, IPv4. -/
def onePdu (customerAsn providerAsn : UInt32) (announce : UInt8) : AspaPdu :=
  ⟨customerAsn, 1, [providerAsn], 0, announce, Nat.le_refl 1⟩

/-- Customer `65` is announced and withdrawn while `66` keeps its record. -/
theorem aspaDB_is_map_siblings :
    ∃ db, runPdus initializeAspaDBManager [onePdu 65 1 1, onePdu 66 2 1, onePdu 65 1 0] =
        some db ∧
      (∀ c : UInt32, c.toNat ≤ 999999 → ∃ w, keyWord 7 c = some w ∧ ∀ obj,
        findAspaObject db w = some obj ↔
          Recorded [onePdu 65 1 1, onePdu 66 2 1, onePdu 65 1 0] obj ∧ obj.customerAsn = c) ∧
      db.countAspaObj.toNat = {c | ∃ obj,
        Recorded [onePdu 65 1 1, onePdu 66 2 1, onePdu 65 1 0] obj ∧
          obj.customerAsn = c}.ncard := by
  refine aspaDB_is_map (by decide) ?_
  have hann : ∀ m c p, SubtreeFree m (onePdu c p 1) := by
    rintro m c p obj ⟨h, -⟩
    exact absurd h (by decide : ¬ (1 : UInt8) = 0)
  refine (subtreeFreeRun_snoc [onePdu 65 1 1, onePdu 66 2 1] _).mpr
    ⟨(subtreeFreeRun_snoc [onePdu 65 1 1] _).mpr
      ⟨(subtreeFreeRun_snoc [] _).mpr ⟨by simp [SubtreeFreeRun], hann _ _ _⟩, hann _ _ _⟩, ?_⟩
  rintro obj ⟨-, hobj⟩ - c hne hs
  rw [object?_customer hobj] at hne ⊢
  by_cases h66 : c = 66
  · subst h66
    decide +kernel
  · simp [recordsAfter, Records.apply, AspaPdu.object?, AspaPdu.afi, onePdu, Function.update_apply,
      h66] at hs
    exact absurd hs hne

/-- Withdrawing customer `65` also removes the record of customer `650`: the run announces
`65` and `650` and withdraws `65`, after which the lookup of `650` finds nothing although
its announcement was never withdrawn. -/
theorem withdraw_cuts_subtree :
    ¬ ∀ pdus : List AspaPdu, (∀ pdu ∈ pdus, pdu.customerAsn.toNat ≤ 99999) →
      ∃ db, runPdus initializeAspaDBManager pdus = some db ∧
        (∀ c : UInt32, c.toNat ≤ 999999 → ∃ w, keyWord 7 c = some w ∧ ∀ obj,
          findAspaObject db w = some obj ↔ Recorded pdus obj ∧ obj.customerAsn = c) ∧
        db.countAspaObj.toNat = {c | ∃ obj, Recorded pdus obj ∧ obj.customerAsn = c}.ncard := by
  intro h
  obtain ⟨db, hrun, hfind, -⟩ := h [onePdu 65 1 1, onePdu 650 2 1, onePdu 65 1 0] (by decide)
  obtain ⟨w, hw, hiff⟩ := hfind 650 (by decide)
  obtain rfl : w = [6, 5, 0] := by
    rw [show keyWord 7 650 = some [6, 5, 0] by decide +kernel, Option.some.injEq] at hw
    exact hw.symm
  have hrec : Recorded [onePdu 65 1 1, onePdu 650 2 1, onePdu 65 1 0] ⟨650, 1, [2], 1⟩ := by
    refine ⟨[onePdu 65 1 1], onePdu 650 2 1, [onePdu 65 1 0], rfl, ⟨rfl, rfl⟩, ?_⟩
    simp [Withdraws, Announces, onePdu, AspaPdu.object?, AspaPdu.afi, newASPAObject]
  have hnone : (runPdus initializeAspaDBManager
      [onePdu 65 1 1, onePdu 650 2 1, onePdu 65 1 0]).map (findAspaObject · [6, 5, 0]) =
        some none := by
    decide +kernel
  rw [hrun, Option.map_some, (hiff _).mpr ⟨hrec, rfl⟩] at hnone
  cases hnone

end SrxSuite.Aspa

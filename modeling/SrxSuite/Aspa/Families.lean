import SrxSuite.Aspa.Database

/-!
# Address families of the ASPA database

A record has an address family and a lookup asks for one, but the trie has one record for a
customer. An announcement for one family replaces the record of the other, and even the first
record of a customer makes the lookups for the other family INVALID that were UNKNOWN before.

Results:
1. `families_kept_iff`: the PDUs of a run are all handled and leave the lookups of the other families
   alone if and only if each has a customer whose key fits and changes no record, or replaces one of
   its own family or one without providers.
2. `ipv4_changes_ipv6`: the first IPv4 record of a customer changes its IPv6 lookups.
-/

namespace SrxSuite.Aspa

open DatabaseLemmas

/-- The PDU is handled and changes no lookup for another address family. -/
def KeepsOtherFamilies (db : AspaDBManager) (pdu : AspaPdu) : Prop :=
  ∃ db' ret, handleAspaPdu db pdu = some (db', ret) ∧
    ∀ afi, pdu.afi = some afi →
      ∀ (customerAsn providerAsn : UInt32) (afi' : UInt8), afi'.toUInt16 ≠ afi →
        aspaDBLookup db' customerAsn providerAsn afi' = aspaDBLookup db customerAsn providerAsn afi'

/-- The customer has at most five digits. An announcement replaces a record of its own family or one
without providers, and a withdrawal does not find its record. A PDU with a wrong address family has
no record and is refused. -/
def ReplacesOwnFamily (db : AspaDBManager) (pdu : AspaPdu) : Prop :=
  ∀ obj, pdu.object? = some obj → pdu.customerAsn.toNat < 100000 ∧
    ∀ word, keyWord 6 pdu.customerAsn = some word →
      (pdu.announce = 1 → ∃ old, findAspaObject db word = some old ∧
        (old.afi = obj.afi ∨ old.providerAsCount = 0)) ∧
      (pdu.announce = 0 → ∀ old, findAspaObject db word = some old →
        compareAspaObject old obj = false)

/-- Every PDU of a run from `db` finds a database, is handled and changes no lookup for another
address family. -/
def KeptAlong (db : AspaDBManager) (pdus : List AspaPdu) : Prop :=
  ∀ before pdu after, pdus = before ++ pdu :: after →
    ∃ db', runPdus db before = some db' ∧ KeepsOtherFamilies db' pdu

/-- Every PDU of a run from `db` meets `C` in the database it is handled in. -/
def AtEachPdu (C : AspaDBManager → AspaPdu → Prop) (db : AspaDBManager) (pdus : List AspaPdu) :
    Prop :=
  ∀ before pdu after db', pdus = before ++ pdu :: after → runPdus db before = some db' → C db' pdu

namespace FamilyLemmas

variable {db db' : AspaDBManager} {pdu : AspaPdu}

/-- The result of a lookup for the record of a customer. -/
def recordResult (record : Option AspaObject) (providerAsn : UInt32) (afi : UInt8) : AspaResult :=
  match record with
  | none => .unknown
  | some obj =>
    if (List.range obj.providerAsCount.toNat).any fun idx =>
      obj.providerAsns.getD idx 0 == providerAsn && obj.afi == afi.toUInt16
    then .valid else .invalid

theorem aspaDBLookup_eq (db : AspaDBManager) (customerAsn providerAsn : UInt32) (afi : UInt8) :
    aspaDBLookup db customerAsn providerAsn afi =
      (keyWord 7 customerAsn).map fun word => recordResult (findAspaObject db word) providerAsn afi :=
  rfl

/-- A record of another family, or one without providers. -/
theorem recordResult_invalid {obj : AspaObject} {afi : UInt8}
    (h : obj.afi ≠ afi.toUInt16 ∨ obj.providerAsCount = 0) (providerAsn : UInt32) :
    recordResult (some obj) providerAsn afi = .invalid := by
  refine if_neg fun hany => ?_
  obtain ⟨idx, hidx, hmatch⟩ := List.any_eq_true.mp hany
  obtain ⟨-, hafi⟩ := (Bool.and_eq_true _ _).mp hmatch
  rcases h with h | h
  · exact h (beq_iff_eq.mp hafi)
  · rw [h] at hidx
    simp at hidx

theorem recordResult_valid {obj : AspaObject} {afi : UInt8} (hafi : obj.afi = afi.toUInt16)
    (hcount : obj.providerAsCount ≠ 0) :
    recordResult (some obj) (obj.providerAsns.getD 0 0) afi = .valid := by
  refine if_pos (List.any_eq_true.mpr ⟨0, ?_, by simp [hafi]⟩)
  rw [List.mem_range]
  exact Nat.pos_of_ne_zero fun h => hcount (UInt16.toNat_inj.mp h)

/-- The families of stored records. -/
def StoredFamilies (db : AspaDBManager) : Prop :=
  ∀ word obj, findAspaObject db word = some obj → obj.afi = afiIP ∨ obj.afi = afiIP6

theorem object?_afi {obj : AspaObject} (h : pdu.object? = some obj) :
    pdu.afi = some obj.afi ∧ (obj.afi = afiIP ∨ obj.afi = afiIP6) := by
  obtain ⟨afi, hafi, rfl⟩ := Option.map_eq_some_iff.mp h
  refine ⟨hafi, ?_⟩
  show afi = afiIP ∨ afi = afiIP6
  unfold AspaPdu.afi at hafi
  split at hafi
  · exact .inl (Option.some.inj hafi).symm
  · split at hafi
    · exact .inr (Option.some.inj hafi).symm
    · cases hafi

/-- What a withdrawal does. -/
theorem deleteTrieNodeAspaObj_cases (db : AspaDBManager) (word : List (Fin 10)) (obj : AspaObject) :
    ((deleteTrieNodeAspaObj db word obj).1 = db ∧
        ∀ old, findAspaObject db word = some old → compareAspaObject old obj = false) ∨
      ((deleteTrieNodeAspaObj db word obj).1 = ⟨db.tableRoot.erase word, db.countAspaObj - 1⟩ ∧
        ∃ old, findAspaObject db word = some old ∧ compareAspaObject old obj = true) := by
  unfold deleteTrieNodeAspaObj findAspaObject
  split
  · next found hget =>
    rw [hget]
    cases hcmp : compareAspaObject found obj with
    | true => exact .inr ⟨rfl, found, rfl, hcmp⟩
    | false =>
      refine .inl ⟨rfl, fun old hold => ?_⟩
      obtain rfl := Option.some.inj hold
      exact hcmp
  · next hne =>
    refine .inl ⟨rfl, fun old hold => ?_⟩
    -- a record that is found stands in a leaf
    split at hold
    · next temp hget =>
      split at hold
      · next hleaf => exact absurd (by rw [hget, ← hleaf, ← hold]) (hne old)
      · cases hold
    · cases hold

/-- The three things a PDU does: nothing, store its record, cut a subtrie. -/
theorem handleAspaPdu_cases {ret : Nat} (h : handleAspaPdu db pdu = some (db', ret)) :
    (db' = db ∧ ∀ obj word, pdu.object? = some obj → keyWord 6 pdu.customerAsn = some word →
        pdu.announce ≠ 1 ∧ (pdu.announce = 0 → ∀ old, findAspaObject db word = some old →
          compareAspaObject old obj = false)) ∨
      ∃ obj word, pdu.object? = some obj ∧ keyWord 6 pdu.customerAsn = some word ∧
        ((pdu.announce = 1 ∧ db' = insertAspaObj db word obj) ∨
          (pdu.announce = 0 ∧ db' = ⟨db.tableRoot.erase word, db.countAspaObj - 1⟩ ∧
            ∃ old, findAspaObject db word = some old ∧ compareAspaObject old obj = true)) := by
  unfold handleAspaPdu at h
  unfold AspaPdu.object?
  split at h
  · next hafi =>
    cases h
    rw [hafi]
    exact .inl ⟨rfl, fun obj word hobj => nomatch hobj⟩
  · next afi hafi =>
    rw [hafi, Option.map_some]
    split at h
    · cases h
    · next word hword =>
      split at h
      · next hann =>
        cases h
        exact .inr ⟨_, word, rfl, hword, .inl ⟨hann, rfl⟩⟩
      · next hann =>
        split at h
        · next hwd =>
          cases h
          rcases deleteTrieNodeAspaObj_cases db word
            (newASPAObject pdu.customerAsn pdu.providerAsCount pdu.providerAsns afi) with
              ⟨hdb, hnone⟩ | ⟨hdb, hsome⟩
          · refine .inl ⟨hdb, fun obj word' hobj hword' => ⟨hann, fun _ => ?_⟩⟩
            obtain rfl := Option.some.inj hobj
            obtain rfl := Option.some.inj (hword.symm.trans hword')
            exact hnone
          · exact .inr ⟨_, word, rfl, hword, .inr ⟨hwd, hdb, hsome⟩⟩
        · next hwd =>
          cases h
          exact .inl ⟨rfl, fun _ _ _ _ => ⟨hann, fun hw => absurd hw hwd⟩⟩

/-- The customers whose key fits into `strWord[6]`. -/
theorem keyWord_six_iff (customerAsn : UInt32) :
    (∃ word, keyWord 6 customerAsn = some word) ↔ customerAsn.toNat < 100000 := by
  constructor
  · rintro ⟨word, hword⟩
    exact (keyWord_bound (by omega) hword).1
  · intro hlt
    exact keyWord_isSome 6 (by omega) (by omega) hlt

/-- The key of a PDU that is handled fits. -/
theorem keyWord_of_handled {obj : AspaObject} {ret : Nat} (hobj : pdu.object? = some obj)
    (h : handleAspaPdu db pdu = some (db', ret)) : ∃ word, keyWord 6 pdu.customerAsn = some word := by
  obtain ⟨afi, hafi, -⟩ := Option.map_eq_some_iff.mp hobj
  unfold handleAspaPdu at h
  rw [hafi] at h
  dsimp only at h
  split at h
  · cases h
  · next word hword => exact ⟨word, hword⟩

/-- A PDU with a wrong address family is refused. -/
theorem handleAspaPdu_refused (hobj : pdu.object? = none) (db : AspaDBManager) :
    handleAspaPdu db pdu = some (db, 0) := by
  have hafi : pdu.afi = none := Option.map_eq_none_iff.mp hobj
  unfold handleAspaPdu
  rw [hafi]

/-- A PDU that has a record and a key is handled. -/
theorem handleAspaPdu_isSome {obj : AspaObject} {word : List (Fin 10)}
    (hobj : pdu.object? = some obj) (hword : keyWord 6 pdu.customerAsn = some word) :
    ∃ db' ret, handleAspaPdu db pdu = some (db', ret) := by
  obtain ⟨afi, hafi, -⟩ := Option.map_eq_some_iff.mp hobj
  unfold handleAspaPdu
  simp only [hafi, hword]
  split
  · exact ⟨_, _, rfl⟩
  · split
    · exact ⟨_, _, rfl⟩
    · exact ⟨_, _, rfl⟩

theorem storedFamilies_step {ret : Nat} (hdb : StoredFamilies db)
    (h : handleAspaPdu db pdu = some (db', ret)) : StoredFamilies db' := by
  rcases handleAspaPdu_cases h with ⟨rfl, -⟩ | ⟨obj, word, hobj, -, ⟨-, rfl⟩ | ⟨-, rfl, -⟩⟩
  · exact hdb
  · intro word' obj' hfind
    rw [find_insertAspaObj] at hfind
    split at hfind
    · obtain rfl := Option.some.inj hfind
      exact (object?_afi hobj).2
    · exact hdb word' obj' hfind
  · intro word' obj' hfind
    rw [find_erase] at hfind
    split at hfind
    · cases hfind
    · exact hdb word' obj' hfind

theorem storedFamilies_run {pdus : List AspaPdu} (hdb : StoredFamilies db)
    (h : runPdus db pdus = some db') : StoredFamilies db' := by
  induction pdus generalizing db with
  | nil =>
    cases h
    exact hdb
  | cons pdu pdus ih =>
    obtain ⟨⟨mid, ret⟩, hstep, hrest⟩ := Option.bind_eq_some_iff.mp h
    exact ih (storedFamilies_step hdb hstep) hrest

theorem storedFamilies_init : StoredFamilies initializeAspaDBManager := by
  intro word obj hfind
  cases word with
  | nil => simp [findAspaObject, initializeAspaDBManager, makeTrienode] at hfind
  | cons digit word => simp [findAspaObject, initializeAspaDBManager] at hfind

/-- A stored family is one of the 8 bit families a lookup can ask for. -/
theorem lookup_family {afi : UInt16} (h : afi = afiIP ∨ afi = afiIP6) :
    ∃ afi' : UInt8, afi'.toUInt16 = afi := by
  rcases h with rfl | rfl
  · exact ⟨1, rfl⟩
  · exact ⟨2, rfl⟩

/-- Another family than a stored one can be asked for. -/
theorem other_family {afi : UInt16} (h : afi = afiIP ∨ afi = afiIP6) :
    (0 : UInt8).toUInt16 ≠ afi := by
  rcases h with rfl | rfl
  · decide
  · decide

theorem lookup_at {db : AspaDBManager} {customerAsn : UInt32} {word : List (Fin 10)}
    (hword : keyWord 6 customerAsn = some word) (providerAsn : UInt32) (afi : UInt8) :
    aspaDBLookup db customerAsn providerAsn afi =
      some (recordResult (findAspaObject db word) providerAsn afi) := by
  rw [aspaDBLookup_eq, keyWord_six_seven hword, Option.map_some]

/-- An announcement keeps the other families when the record it replaces is of its own. -/
theorem announce_keeps {obj old : AspaObject} {word : List (Fin 10)}
    (hword : keyWord 6 pdu.customerAsn = some word) (hold : findAspaObject db word = some old)
    (hown : old.afi = obj.afi ∨ old.providerAsCount = 0) (customerAsn providerAsn : UInt32)
    {afi : UInt8} (hafi : afi.toUInt16 ≠ obj.afi) :
    aspaDBLookup (insertAspaObj db word obj) customerAsn providerAsn afi =
      aspaDBLookup db customerAsn providerAsn afi := by
  rw [aspaDBLookup_eq, aspaDBLookup_eq]
  refine Option.map_congr fun word' hword' => ?_
  rw [find_insertAspaObj]
  split
  · next heq =>
    subst heq
    rw [hold, recordResult_invalid (.inl (Ne.symm hafi)), recordResult_invalid]
    rcases hown with hown | hown
    · exact .inl (hown ▸ Ne.symm hafi)
    · exact .inr hown
  · rfl

/-- An announcement that keeps the other families replaces a record of its own family. -/
theorem announce_own {obj : AspaObject} {word : List (Fin 10)} (hdb : StoredFamilies db)
    (hobj : pdu.object? = some obj) (hword : keyWord 6 pdu.customerAsn = some word)
    (hkeep : ∀ (providerAsn : UInt32) (afi : UInt8), afi.toUInt16 ≠ obj.afi →
      aspaDBLookup (insertAspaObj db word obj) pdu.customerAsn providerAsn afi =
        aspaDBLookup db pdu.customerAsn providerAsn afi) :
    ∃ old, findAspaObject db word = some old ∧
      (old.afi = obj.afi ∨ old.providerAsCount = 0) := by
  have hnew (providerAsn : UInt32) {afi : UInt8} (hafi : afi.toUInt16 ≠ obj.afi) :
      recordResult (findAspaObject db word) providerAsn afi = .invalid := by
    have h := hkeep providerAsn afi hafi
    rw [lookup_at hword, lookup_at hword, find_insertAspaObj, if_pos rfl,
      recordResult_invalid (.inl (Ne.symm hafi))] at h
    exact (Option.some.inj h).symm
  cases hold : findAspaObject db word with
  | none =>
    have h := hnew 0 (other_family (object?_afi hobj).2)
    rw [hold] at h
    cases h
  | some old =>
    refine ⟨old, rfl, ?_⟩
    by_contra hown
    obtain ⟨hafi, hcount⟩ := not_or.mp hown
    -- the first provider of the replaced record was valid for the replaced family
    obtain ⟨afi, hfam⟩ := lookup_family (hdb word old hold)
    have h := hnew (old.providerAsns.getD 0 0) (show afi.toUInt16 ≠ obj.afi from hfam ▸ hafi)
    rw [hold, recordResult_valid hfam.symm hcount] at h
    cases h

/-- A withdrawal that finds its record makes the lookups of the other families UNKNOWN. -/
theorem withdraw_changes {obj old : AspaObject} {word : List (Fin 10)} {n : UInt32}
    (hobj : pdu.object? = some obj) (hword : keyWord 6 pdu.customerAsn = some word)
    (hold : findAspaObject db word = some old) (hcmp : compareAspaObject old obj = true) :
    aspaDBLookup ⟨db.tableRoot.erase word, n⟩ pdu.customerAsn 0 0 ≠
      aspaDBLookup db pdu.customerAsn 0 0 := by
  have hafi : old.afi = obj.afi := by
    simp only [compareAspaObject, Bool.and_eq_true, beq_iff_eq] at hcmp
    exact hcmp.1.2
  rw [lookup_at hword, lookup_at hword, find_erase, if_pos (List.prefix_refl word), hold,
    recordResult_invalid (.inl (hafi ▸ Ne.symm (other_family (object?_afi hobj).2)))]
  decide

/-- One PDU keeps the lookups of the other families exactly when it replaces a record of its own
family, or does nothing. -/
theorem keepsOtherFamilies_iff (hdb : StoredFamilies db) (pdu : AspaPdu) :
    KeepsOtherFamilies db pdu ↔ ReplacesOwnFamily db pdu := by
  constructor
  · rintro ⟨db', ret, hdo, hkeep⟩ obj hobj
    refine ⟨(keyWord_six_iff _).mp (keyWord_of_handled hobj hdo), fun word hword => ?_⟩
    have hafi := (object?_afi hobj).1
    rcases handleAspaPdu_cases hdo with ⟨-, hnone⟩ | ⟨obj', word', hobj', hword', hcase⟩
    · obtain ⟨hann, hwd⟩ := hnone obj word hobj hword
      exact ⟨fun h => absurd h hann, hwd⟩
    · obtain rfl := Option.some.inj (hobj.symm.trans hobj')
      obtain rfl := Option.some.inj (hword.symm.trans hword')
      rcases hcase with ⟨hann, rfl⟩ | ⟨hwd, rfl, old, hold, hcmp⟩
      · refine ⟨fun _ => announce_own hdb hobj hword ?_, fun h => ?_⟩
        · exact fun providerAsn afi => hkeep _ hafi _ providerAsn afi
        · rw [hann] at h
          exact absurd h (by decide)
      · exact absurd (hkeep _ hafi _ 0 0 (other_family (object?_afi hobj).2))
          (withdraw_changes hobj hword hold hcmp)
  · intro hown
    cases hobj : pdu.object? with
    | none => exact ⟨db, 0, handleAspaPdu_refused hobj db, fun _ _ _ _ _ _ => rfl⟩
    | some obj =>
      obtain ⟨hlt, hown⟩ := hown obj hobj
      obtain ⟨word, hword⟩ := (keyWord_six_iff _).mpr hlt
      obtain ⟨hann, hwd⟩ := hown word hword
      obtain ⟨db', ret, hdo⟩ : ∃ db' ret, handleAspaPdu db _ = some (db', ret) :=
        handleAspaPdu_isSome hobj hword
      refine ⟨db', ret, hdo, fun afi hafi customerAsn providerAsn afi' hne => ?_⟩
      rcases handleAspaPdu_cases hdo with ⟨rfl, -⟩ | ⟨obj', word', hobj', hword', hcase⟩
      · rfl
      · obtain rfl := Option.some.inj (hobj.symm.trans hobj')
        obtain rfl := Option.some.inj (hword.symm.trans hword')
        obtain rfl := Option.some.inj (hafi.symm.trans (object?_afi hobj).1)
        rcases hcase with ⟨h, rfl⟩ | ⟨h, rfl, old, hold, hcmp⟩
        · obtain ⟨old, hold, hfam⟩ := hann h
          exact announce_keeps hword hold hfam customerAsn providerAsn hne
        · rw [hwd h old hold] at hcmp
          cases hcmp

/-- A run whose PDUs are handled, each in the database it meets, completes. -/
theorem run_completes {C : AspaDBManager → AspaPdu → Prop} {pdus : List AspaPdu}
    (hhandled : ∀ db', StoredFamilies db' → ∀ pdu, C db' pdu →
      ∃ db'' ret, handleAspaPdu db' pdu = some (db'', ret))
    (hdb : StoredFamilies db) (h : AtEachPdu C db pdus) : ∃ db', runPdus db pdus = some db' := by
  induction pdus generalizing db with
  | nil => exact ⟨db, rfl⟩
  | cons pdu pdus ih =>
    obtain ⟨mid, ret, hstep⟩ := hhandled db hdb pdu (h [] pdu pdus db rfl rfl)
    have hmid {before : List AspaPdu} : runPdus db (pdu :: before) = runPdus mid before := by
      show (handleAspaPdu db pdu).bind (fun out => runPdus out.1 before) = _
      rw [hstep, Option.bind_some]
    obtain ⟨db', hrun⟩ := ih (storedFamilies_step hdb hstep) fun before pdu' after db' heq hbefore =>
      h (pdu :: before) pdu' after db' (congrArg (pdu :: ·) heq) (hmid.trans hbefore)
    exact ⟨db', hmid.trans hrun⟩

end FamilyLemmas

open FamilyLemmas

/-- From any database that PDUs have built, a further run handles all its PDUs and keeps at every
step the lookups of the other families, of every customer, if and only if at every step the key of
the customer fits, an announcement replaces a record of its own family, or one without providers,
and no withdrawal finds its record. -/
theorem families_kept_iff {earlier : List AspaPdu} {db : AspaDBManager}
    (hdb : runPdus initializeAspaDBManager earlier = some db) (pdus : List AspaPdu) :
    KeptAlong db pdus ↔ AtEachPdu ReplacesOwnFamily db pdus := by
  have hinit : StoredFamilies db := storedFamilies_run storedFamilies_init hdb
  constructor
  · intro hkeep before pdu after db' heq hrun
    obtain ⟨db'', hrun', hkeeps⟩ := hkeep before pdu after heq
    obtain rfl := Option.some.inj (hrun.symm.trans hrun')
    exact (keepsOtherFamilies_iff (storedFamilies_run hinit hrun) pdu).mp hkeeps
  · intro hown before pdu after heq
    have hbefore : AtEachPdu ReplacesOwnFamily db before := by
      intro first pdu' rest db' hfirst hrun
      refine hown first pdu' (rest ++ pdu :: after) db' ?_ hrun
      rw [heq, hfirst, List.append_assoc, List.cons_append]
    obtain ⟨db', hrun⟩ := run_completes (fun db' hdb' pdu hpdu => by
      obtain ⟨db'', ret, hdo, -⟩ := (keepsOtherFamilies_iff hdb' pdu).mpr hpdu
      exact ⟨db'', ret, hdo⟩) hinit hbefore
    exact ⟨db', hrun, (keepsOtherFamilies_iff (storedFamilies_run hinit hrun) pdu).mpr
      (hown before pdu after db' heq hrun)⟩

/-- After customer `65` was announced with the provider `1`, an announcement with the provider `2`
for the same family is handled and keeps the other family. -/
theorem families_kept_sixtyFive :
    ∃ db, runPdus initializeAspaDBManager [onePdu 65 1 1] = some db ∧
      KeptAlong db [onePdu 65 2 1] := by
  have hword : keyWord 6 65 = some [6, 5] := by decide +kernel
  have hrun : runPdus initializeAspaDBManager [onePdu 65 1 1] =
      some (insertAspaObj initializeAspaDBManager [6, 5] ⟨65, 1, [1], afiIP⟩) := by
    unfold runPdus handleAspaPdu
    rw [show (onePdu 65 1 1).afi = some afiIP from rfl,
      show (onePdu 65 1 1).customerAsn = 65 from rfl, hword]
    rfl
  refine ⟨_, hrun, (families_kept_iff hrun _).mpr ?_⟩
  rintro before pdu after db' heq hdb'
  obtain ⟨rfl, rfl, rfl⟩ : before = [] ∧ pdu = onePdu 65 2 1 ∧ after = [] := by
    cases before with
    | nil => exact ⟨rfl, (List.cons.inj heq).1.symm, (List.cons.inj heq).2.symm⟩
    | cons p before => simp at heq
  obtain rfl := Option.some.inj hdb'
  intro obj hobj
  obtain rfl := Option.some.inj hobj
  refine ⟨by decide, fun word hword' => ?_⟩
  obtain rfl := Option.some.inj (hword.symm.trans hword')
  refine ⟨fun _ => ⟨_, (find_insertAspaObj _ _ _).trans (if_pos rfl), .inl rfl⟩, fun h => ?_⟩
  exact absurd h (by decide)

/-- Customer `65` is announced for IPv4 with the provider `1`, the first record of all: for IPv6 the
provider was UNKNOWN and is INVALID now. -/
theorem ipv4_changes_ipv6 :
    ¬ ∀ (before : List AspaPdu) (pdu : AspaPdu) (db : AspaDBManager),
      runPdus initializeAspaDBManager before = some db → KeepsOtherFamilies db pdu := by
  intro h
  obtain ⟨db, ret, hdo, hkeep⟩ := h [] (onePdu 65 1 1) initializeAspaDBManager rfl
  have hlookup := hkeep afiIP rfl 65 1 2 (by decide)
  have hbefore : aspaDBLookup initializeAspaDBManager 65 1 2 = some .unknown := by decide +kernel
  have hafter : (handleAspaPdu initializeAspaDBManager (onePdu 65 1 1)).bind
      (aspaDBLookup ·.1 65 1 2) = some .invalid := by decide +kernel
  rw [hdo, Option.bind_some, hlookup, hbefore] at hafter
  cases hafter

end SrxSuite.Aspa

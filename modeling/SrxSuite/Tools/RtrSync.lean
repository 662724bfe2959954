import Mathlib.Algebra.Order.Group.Multiset
import SrxSuite.Lib.Runs
import SrxSuite.Tools.RtrCache

/-!
# Incremental and full synchronisation with the RTR cache server

A router that was in sync at some serial asks for what changed since. The cache has the entries in the
order of their serials, so that the changes are the entries behind the serial; a withdrawal of which
the cache dropped the entry forces a Cache Reset.

`Known` are the entries the router has a record of. The invariant of a run from the query point on is
that they are its records, or that the serial lies in the window of the dropped entries (`InSync`).

Result: after any run without a wrap of the serial the router has the records of the answer to a Reset
Query (`resync_eq_reset`).
-/

namespace SrxSuite.Tools

/-! ## Records of entries -/

/-- The record a router makes of an entry. -/
def entryRecord (version : UInt8) (entry : ValCacheEntry) : Option RtrRecord :=
  (entryPdu version entry).map ObjectPdu.record

/-- The records of the entries with a property. -/
def recordsOf (version : UInt8) (p : ValCacheEntry → Bool) (entries : List ValCacheEntry) :
    Multiset RtrRecord :=
  (entries.filter p).filterMap (entryRecord version)

/-- The router that was in sync at the serial has a record of the entry: it was appended by then, and not
withdrawn by then. -/
def Known (serial : UInt32) (entry : ValCacheEntry) : Bool :=
  entry.prevSerial ≤ serial && (entry.Live || serial < entry.serial)

/-- What holds of an entry. -/
structure EntryOk (maxSerial : UInt32) (entry : ValCacheEntry) : Prop where
  le : entry.serial ≤ maxSerial
  prev : entry.prevSerial ≤ entry.serial
  flag : entry.flags &&& flagAnnouncement ≠ 0 ↔ entry.Live
  kept : 0 < entry.expires → ¬ entry.Live

/-- The list is in the order of the serials. -/
structure Ordered (cache : RtrCache) : Prop where
  sorted : cache.entries.Pairwise fun a b => a.serial < b.serial
  ok : ∀ entry ∈ cache.entries, EntryOk cache.maxSerial entry

/-- The serial lies in the window of the dropped entries. -/
def Window (serial : UInt32) (cache : RtrCache) : Prop :=
  cache.minPSExpired < cache.maxSExpired ∧ cache.minPSExpired ≤ serial ∧ serial ≤ cache.maxSExpired

/-- The records of the router are those of the known entries, or it is to be reset. -/
structure InSync (version : UInt8) (serial : UInt32) (records : Multiset RtrRecord)
    (cache : RtrCache) : Prop where
  ordered : Ordered cache
  le : serial ≤ cache.maxSerial
  records : Window serial cache ∨ recordsOf version (Known serial) cache.entries = records

namespace RtrSyncLemmas

variable {version : UInt8} {serial maxSerial : UInt32} {entry : ValCacheEntry}
  {entries : List ValCacheEntry} {cache : RtrCache} {records : Multiset RtrRecord}
  {p q r : ValCacheEntry → Bool}

/-! ## Records -/

theorem recordsOf_append (version : UInt8) (p : ValCacheEntry → Bool)
    (entries entries' : List ValCacheEntry) :
    recordsOf version p (entries ++ entries') =
      recordsOf version p entries + recordsOf version p entries' := by
  unfold recordsOf
  rw [List.filter_append, List.filterMap_append]
  exact (Multiset.coe_add _ _).symm

theorem recordsOf_cons (version : UInt8) (p : ValCacheEntry → Bool) (entry : ValCacheEntry)
    (entries : List ValCacheEntry) :
    recordsOf version p (entry :: entries) =
      recordsOf version p [entry] + recordsOf version p entries :=
  recordsOf_append version p [entry] entries

theorem recordsOf_none (h : ∀ entry ∈ entries, p entry = false) :
    recordsOf version p entries = 0 := by
  have hnil : entries.filter p = [] := List.filter_eq_nil_iff.mpr fun entry hentry =>
    Bool.eq_false_iff.mp (h entry hentry)
  unfold recordsOf
  rw [hnil]
  rfl

theorem recordsOf_congr (h : ∀ entry ∈ entries, p entry = q entry) :
    recordsOf version p entries = recordsOf version q entries := by
  unfold recordsOf
  rw [List.filter_congr h]

/-- A property that is one of two others, never both. -/
theorem recordsOf_split (h : ∀ entry ∈ entries, p entry = (q entry || r entry) ∧
    (q entry && r entry) = false) :
    recordsOf version p entries = recordsOf version q entries + recordsOf version r entries := by
  induction entries with
  | nil => rfl
  | cons entry entries ih =>
    obtain ⟨hp, hdisjoint⟩ := h entry List.mem_cons_self
    have hone : recordsOf version p [entry] =
        recordsOf version q [entry] + recordsOf version r [entry] := by
      unfold recordsOf
      rw [List.filter_singleton, List.filter_singleton, List.filter_singleton, hp]
      cases hq : q entry with
      | false =>
        rw [Bool.false_or]
        exact (Multiset.zero_add _).symm
      | true =>
        rw [hq, Bool.true_and] at hdisjoint
        rw [hdisjoint]
        exact (Multiset.add_zero _).symm
    rw [recordsOf_cons, recordsOf_cons version q, recordsOf_cons version r, hone,
      ih fun e he => h e (List.mem_cons_of_mem _ he)]
    exact add_add_add_comm _ _ _ _

/-! ## Applying an answer -/

theorem flags_entryPdu {pdu : ObjectPdu} (h : entryPdu version entry = some pdu) :
    pdu.flags = entry.flags := by
  unfold entryPdu at h
  split at h
  · split at h
    · obtain rfl := Option.some.inj h
      rfl
    · cases h
  · split at h
    · split at h
      · obtain rfl := Option.some.inj h
        rfl
      · cases h
    · split at h
      · obtain rfl := Option.some.inj h
        rfl
      · obtain rfl := Option.some.inj h
        rfl

/-- Announcements add their records and withdrawals remove theirs. -/
theorem foldl_applyPdu (version : UInt8) (h : ∀ entry ∈ entries, EntryOk maxSerial entry)
    (records : Multiset RtrRecord) :
    (entries.filterMap (entryPdu version)).foldl applyPdu
        (recordsOf version (fun entry => !decide entry.Live) entries + records) =
      recordsOf version (fun entry => decide entry.Live) entries + records := by
  induction entries generalizing records with
  | nil => rfl
  | cons entry entries ih =>
    have hok := h entry List.mem_cons_self
    have hrest := ih fun e he => h e (List.mem_cons_of_mem _ he)
    rw [recordsOf_cons, recordsOf_cons version fun entry => decide entry.Live]
    have hone (p : ValCacheEntry → Bool) :
        recordsOf version p [entry] = if p entry then ((entryRecord version entry).toList : Multiset RtrRecord)
          else 0 := by
      unfold recordsOf
      rw [List.filter_singleton]
      cases p entry with
      | false => rfl
      | true =>
        show (([entry].filterMap (entryRecord version) : List RtrRecord) : Multiset RtrRecord) = _
        rw [List.filterMap_cons]
        cases entryRecord version entry with
        | none => rfl
        | some record => rfl
    rw [hone, hone, List.filterMap_cons]
    unfold entryRecord
    cases hpdu : entryPdu version entry with
    | none =>
      simp only [Option.map_none, Option.toList_none, Multiset.coe_nil, ite_self, zero_add]
      exact hrest records
    | some pdu =>
      have hflags := flags_entryPdu hpdu
      simp only [Option.map_some, Option.toList_some, Multiset.coe_singleton, List.foldl_cons]
      by_cases hlive : entry.Live
      · have hadd (recs : Multiset RtrRecord) : applyPdu recs pdu = {pdu.record} + recs := by
          unfold applyPdu
          rw [hflags, if_pos (hok.flag.mpr hlive), Multiset.singleton_add]
        rw [decide_eq_true hlive, Bool.not_true, if_neg Bool.false_ne_true, if_pos rfl, zero_add, hadd,
          add_left_comm, hrest, add_assoc, add_left_comm]
      · have hremove (recs : Multiset RtrRecord) : applyPdu recs pdu = recs.erase pdu.record := by
          unfold applyPdu
          rw [hflags, if_neg fun hflag => hlive (hok.flag.mp hflag)]
        rw [decide_eq_false hlive, Bool.not_false, if_pos rfl, if_neg Bool.false_ne_true, zero_add,
          add_assoc, hremove, Multiset.singleton_add, Multiset.erase_cons_head]
        exact hrest records

/-- A turn that sends: an announcement, or a withdrawal the client knows of. -/
theorem sentPdu_query (version : UInt8) (serial : UInt32) (entry : ValCacheEntry) :
    sentPdu serial false version entry =
      if entry.Live ∨ entry.prevSerial ≤ serial then entryPdu version entry else none := by
  unfold sentPdu
  rw [if_neg fun hreset => Bool.false_ne_true hreset.1]
  by_cases hlive : entry.Live
  · rw [if_neg fun hskip => hskip.1 hlive, if_pos (.inl hlive)]
  · by_cases hprev : entry.prevSerial ≤ serial
    · rw [if_neg fun hskip => UInt32.not_lt.mpr hprev hskip.2, if_pos (.inr hprev)]
    · rw [if_pos ⟨hlive, UInt32.not_le.mp hprev⟩, if_neg fun hsent => hsent.elim hlive hprev]

theorem sentPdu_reset (h : EntryOk maxSerial entry) :
    sentPdu 0 true version entry = if entry.Live then entryPdu version entry else none := by
  unfold sentPdu
  by_cases hlive : entry.Live
  · rw [if_neg fun hreset => h.flag.mpr hlive hreset.2, if_neg fun hskip => hskip.1 hlive, if_pos hlive]
  · have hflag : entry.flags &&& flagAnnouncement = 0 := by
      by_contra hflag
      exact hlive (h.flag.mp hflag)
    rw [if_pos ⟨rfl, hflag⟩, if_neg hlive]

/-- In the order of the serials the entries behind a serial come last. -/
theorem fromSerial_eq (h : entries.Pairwise fun a b => a.serial < b.serial) (serial : UInt32) :
    fromSerial serial false entries = entries.filter fun entry => serial < entry.serial := by
  unfold fromSerial
  induction entries with
  | nil => rfl
  | cons entry entries ih =>
    obtain ⟨hfirst, hrest⟩ := List.pairwise_cons.mp h
    rw [List.dropWhile_cons, List.filter_cons, Bool.false_or]
    by_cases hlt : serial < entry.serial
    · have hall : entries.filter (fun entry => decide (serial < entry.serial)) = entries :=
        List.filter_eq_self.mpr fun e he => decide_eq_true (UInt32.lt_trans hlt (hfirst e he))
      rw [decide_eq_true hlt, Bool.not_true, if_neg Bool.false_ne_true, if_pos rfl, hall]
    · rw [decide_eq_false hlt, Bool.not_false, if_pos rfl, if_neg Bool.false_ne_true]
      exact ih hrest

theorem fromSerial_reset (entries : List ValCacheEntry) : fromSerial 0 true entries = entries := by
  cases entries with
  | nil => rfl
  | cons entry entries => rfl

theorem filterMap_ite {p : ValCacheEntry → Prop} [DecidablePred p] {f g : ValCacheEntry → Option ObjectPdu}
    (h : ∀ entry ∈ entries, f entry = if p entry then g entry else none) :
    entries.filterMap f = (entries.filter fun entry => decide (p entry)).filterMap g := by
  induction entries with
  | nil => rfl
  | cons entry entries ih =>
    rw [List.filterMap_cons, List.filter_cons, h entry List.mem_cons_self,
      ih fun e he => h e (List.mem_cons_of_mem _ he)]
    by_cases hp : p entry
    · rw [if_pos hp, decide_eq_true hp, if_pos rfl, List.filterMap_cons]
    · rw [if_neg hp, decide_eq_false hp, if_neg Bool.false_ne_true]

/-- A fresh set has the records of the entries that are not withdrawn. -/
theorem resetRecords_eq (h : Ordered cache) (sessionID : UInt16) (version : UInt8) :
    resetRecords cache sessionID version =
      recordsOf version (fun entry => decide entry.Live) cache.entries := by
  have hok : ∀ entry ∈ cache.entries.filter (fun entry => decide entry.Live),
      EntryOk cache.maxSerial entry := fun entry hentry => h.ok entry (List.mem_of_mem_filter hentry)
  have hfold := foldl_applyPdu version hok 0
  have hwithdrawn : recordsOf version (fun entry => !decide entry.Live)
      (cache.entries.filter fun entry => decide entry.Live) = 0 :=
    recordsOf_none fun entry hentry => by
      rw [(List.mem_filter.mp hentry).2]
      rfl
  have hlive : recordsOf version (fun entry => decide entry.Live)
      (cache.entries.filter fun entry => decide entry.Live) =
        recordsOf version (fun entry => decide entry.Live) cache.entries := by
    unfold recordsOf
    rw [List.filter_filter]
    simp only [Bool.and_self]
  unfold resetRecords sendCacheObjects
  rw [if_neg fun hsession => Bool.false_ne_true hsession.1,
    if_neg fun hserial => Bool.false_ne_true hserial.1, fromSerial_reset]
  show List.foldl applyPdu 0 _ = _
  rw [filterMap_ite fun entry hentry => sentPdu_reset (h.ok entry hentry)]
  rw [hwithdrawn, hlive, add_zero, add_zero] at hfold
  exact hfold

/-- A query behind which nothing was dropped: the records of the known entries become those of the
entries that are not withdrawn. -/
theorem foldl_query (h : Ordered cache) (serial : UInt32) (version : UInt8) :
    ((fromSerial serial false cache.entries).filterMap (sentPdu serial false version)).foldl applyPdu
        (recordsOf version (Known serial) cache.entries) =
      recordsOf version (fun entry => decide entry.Live) cache.entries := by
  -- what is sent, and what is known and stays
  have hsent : (fromSerial serial false cache.entries).filterMap (sentPdu serial false version) =
      (cache.entries.filter fun entry => decide (entry.Live ∨ entry.prevSerial ≤ serial) &&
        decide (serial < entry.serial)).filterMap (entryPdu version) := by
    rw [fromSerial_eq h.sorted, filterMap_ite fun entry _ => sentPdu_query version serial entry,
      List.filter_filter]
  generalize hsends : (fun entry : ValCacheEntry =>
    decide (entry.Live ∨ entry.prevSerial ≤ serial) && decide (serial < entry.serial)) = sends at hsent
  have hok : ∀ entry ∈ cache.entries.filter sends, EntryOk cache.maxSerial entry :=
    fun entry hentry => h.ok entry (List.mem_of_mem_filter hentry)
  have hfold := foldl_applyPdu version hok
    (recordsOf version (fun entry => decide entry.Live && decide (entry.serial ≤ serial)) cache.entries)
  have hfilter (p : ValCacheEntry → Bool) : recordsOf version p (cache.entries.filter sends) =
      recordsOf version (fun entry => p entry && sends entry) cache.entries := by
    unfold recordsOf
    rw [List.filter_filter]
  have hknown : recordsOf version (Known serial) cache.entries =
      recordsOf version (fun entry => !decide entry.Live && sends entry) cache.entries +
        recordsOf version (fun entry => decide entry.Live && decide (entry.serial ≤ serial))
          cache.entries := by
    refine recordsOf_split fun entry hentry => ?_
    subst hsends
    have hprev := (h.ok entry hentry).prev
    unfold Known
    by_cases hlive : entry.Live
    · have heq : entry.prevSerial = entry.serial := hlive.symm
      simp [hlive, heq]
    · simp [hlive]
  have hlive : recordsOf version (fun entry => decide entry.Live) cache.entries =
      recordsOf version (fun entry => decide entry.Live && sends entry) cache.entries +
        recordsOf version (fun entry => decide entry.Live && decide (entry.serial ≤ serial))
          cache.entries := by
    refine recordsOf_split fun entry hentry => ?_
    subst hsends
    by_cases hlive : entry.Live
    · by_cases hle : entry.serial ≤ serial
      · simp [hlive, hle, UInt32.not_lt.mpr hle]
      · simp [hlive, hle, UInt32.not_le.mp hle]
    · simp [hlive]
  rw [hsent, hknown, hlive, ← hfilter, ← hfilter]
  exact hfold

/-! ## The query point -/

/-- At the serial of the cache the known entries are those that are not withdrawn. -/
theorem known_maxSerial (h : Ordered cache) (version : UInt8) :
    recordsOf version (Known cache.maxSerial) cache.entries =
      recordsOf version (fun entry => decide entry.Live) cache.entries := by
  refine recordsOf_congr fun entry hentry => ?_
  have hok := h.ok entry hentry
  have hprev : entry.prevSerial ≤ cache.maxSerial := UInt32.le_trans hok.prev hok.le
  unfold Known
  rw [decide_eq_true hprev, decide_eq_false (UInt32.not_lt.mpr hok.le), Bool.true_and, Bool.or_false]

theorem inSync_start (h : Ordered cache) (sessionID : UInt16) (version : UInt8) :
    InSync version cache.maxSerial (resetRecords cache sessionID version) cache := by
  refine ⟨h, UInt32.le_refl _, .inr ?_⟩
  rw [resetRecords_eq h, known_maxSerial h]

theorem checkSerial_of_window (h : Window serial cache) :
    checkSerial cache.minPSExpired cache.maxSExpired serial = true := by
  unfold checkSerial
  rw [if_pos h.1, decide_eq_true h.2.1, decide_eq_true h.2.2, Bool.and_self]

/-- A router in sync has the records of a Reset Query after its query. -/
theorem resync_of_inSync (h : InSync version serial records cache) (sessionID : UInt16) :
    resync cache sessionID version serial records = resetRecords cache sessionID version := by
  unfold resync sendCacheObjects
  rw [if_neg fun hsession => hsession.2 rfl]
  by_cases hcheck : checkSerial cache.minPSExpired cache.maxSExpired serial = true
  · rw [if_pos ⟨rfl, hcheck⟩]
  · rw [if_neg fun hserial => hcheck hserial.2]
    rcases h.records with hwindow | rfl
    · exact absurd (checkSerial_of_window hwindow) hcheck
    · rw [resetRecords_eq h.ordered]
      exact foldl_query h.ordered serial version

/-! ## Appending -/

theorem flagAnnouncement_or (afi : UInt8) : (flagAnnouncement ||| afi <<< 1) &&& flagAnnouncement ≠ 0 := by
  unfold flagAnnouncement
  have hall : ∀ n : Fin 256, ((1 : UInt8) ||| UInt8.ofNat n.val <<< 1) &&& 1 ≠ 0 := by decide +kernel
  have hafi := hall ⟨afi.toNat, afi.toNat_lt⟩
  rwa [UInt8.ofNat_toNat] at hafi

/-- A new entry is an announcement and does not expire. -/
theorem newEntry_spec (serial : UInt32) (object : CacheObject) :
    (newEntry serial object).serial = serial ∧ (newEntry serial object).prevSerial = serial ∧
      (newEntry serial object).expires = 0 ∧
        (newEntry serial object).flags &&& flagAnnouncement ≠ 0 := by
  have hflag : flagAnnouncement &&& flagAnnouncement ≠ 0 := by decide
  cases object with
  | roa ipPrefix maxLen oas => exact ⟨rfl, rfl, rfl, hflag⟩
  | routerKey asn ski keyData => exact ⟨rfl, rfl, rfl, hflag⟩
  | aspa afi customerAS providerAS => exact ⟨rfl, rfl, rfl, flagAnnouncement_or afi⟩

/-- The new entries have the serials from `serial` on. -/
theorem mem_numbered {objects : List CacheObject} (hfits : serial.toNat + objects.length ≤ 2 ^ 32)
    (h : entry ∈ numbered serial objects) :
    (serial ≤ entry.serial ∧ entry.serial.toNat < serial.toNat + objects.length) ∧
      entry.prevSerial = entry.serial ∧ entry.expires = 0 ∧ entry.flags &&& flagAnnouncement ≠ 0 := by
  induction objects generalizing serial with
  | nil => cases h
  | cons object rest ih =>
    rw [List.length_cons] at hfits ⊢
    rcases List.mem_cons.mp h with rfl | hrest
    · obtain ⟨hserial, hprev, hexpires, hflags⟩ := newEntry_spec serial object
      rw [hserial, hprev]
      exact ⟨⟨UInt32.le_refl _, by omega⟩, rfl, hexpires, hflags⟩
    · have hpos : 0 < rest.length := by
        cases rest with
        | nil => cases hrest
        | cons object rest => exact Nat.succ_pos _
      have hnext : (serial + 1).toNat = serial.toNat + 1 := by
        rw [UInt32.toNat_add, show (1 : UInt32).toNat = 1 from rfl]
        exact Nat.mod_eq_of_lt (by omega)
      obtain ⟨⟨hle, hlt⟩, hentry⟩ := ih (by omega) hrest
      rw [UInt32.le_iff_toNat_le, hnext] at hle
      exact ⟨⟨UInt32.le_iff_toNat_le.mpr (by omega), by omega⟩, hentry⟩

theorem numbered_sorted {objects : List CacheObject} (hfits : serial.toNat + objects.length ≤ 2 ^ 32) :
    (numbered serial objects).Pairwise fun a b => a.serial < b.serial := by
  induction objects generalizing serial with
  | nil => exact List.Pairwise.nil
  | cons object rest ih =>
    rw [List.length_cons] at hfits
    by_cases hrest : rest = []
    · subst hrest
      exact List.pairwise_singleton _ _
    · have hpos : 0 < rest.length := List.length_pos_iff.mpr hrest
      have hnext : (serial + 1).toNat = serial.toNat + 1 := by
        rw [UInt32.toNat_add, show (1 : UInt32).toNat = 1 from rfl]
        exact Nat.mod_eq_of_lt (by omega)
      refine List.pairwise_cons.mpr ⟨fun entry hentry => ?_, ih (by omega)⟩
      obtain ⟨⟨hle, -⟩, -⟩ := mem_numbered (by omega) hentry
      rw [UInt32.le_iff_toNat_le, hnext] at hle
      rw [(newEntry_spec serial object).1]
      exact UInt32.lt_iff_toNat_lt.mpr hle

theorem toNat_add_one (h : maxSerial.toNat + 1 < 2 ^ 32) :
    (maxSerial + 1).toNat = maxSerial.toNat + 1 := by
  rw [UInt32.toNat_add, show (1 : UInt32).toNat = 1 from rfl]
  exact Nat.mod_eq_of_lt h

/-- Entries behind the last serial. -/
theorem inSync_append (h : InSync version serial records cache) {objects : List CacheObject}
    (hwrap : cache.maxSerial.toNat + objects.length < 2 ^ 32) :
    InSync version serial records (appendObjects cache objects) := by
  by_cases hnil : objects = []
  · subst hnil
    have hsame : appendObjects cache [] = cache := by
      unfold appendObjects numbered
      rw [List.append_nil, List.length_nil, show UInt32.ofNat 0 = 0 from rfl, UInt32.add_zero]
    rwa [hsame]
  · have hpos : 0 < objects.length := List.length_pos_iff.mpr hnil
    have hfirst := toNat_add_one (show cache.maxSerial.toNat + 1 < 2 ^ 32 by omega)
    have hfits : (cache.maxSerial + 1).toNat + objects.length ≤ 2 ^ 32 := by omega
    have hmax : (cache.maxSerial + UInt32.ofNat objects.length).toNat =
        cache.maxSerial.toNat + objects.length := by
      rw [UInt32.toNat_add, UInt32.toNat_ofNat_of_lt' (by
        show objects.length < 2 ^ 32
        omega)]
      exact Nat.mod_eq_of_lt hwrap
    have hgrow : cache.maxSerial ≤ cache.maxSerial + UInt32.ofNat objects.length :=
      UInt32.le_iff_toNat_le.mpr (by omega)
    -- a new entry comes behind the serials there are
    have hnew (entry : ValCacheEntry) (hentry : entry ∈ numbered (cache.maxSerial + 1) objects) :
        cache.maxSerial < entry.serial ∧ entry.serial ≤ cache.maxSerial + UInt32.ofNat objects.length := by
      obtain ⟨⟨hle, hlt⟩, -⟩ := mem_numbered hfits hentry
      rw [UInt32.le_iff_toNat_le] at hle
      exact ⟨UInt32.lt_iff_toNat_lt.mpr (by omega), UInt32.le_iff_toNat_le.mpr (by omega)⟩
    refine ⟨⟨?_, fun entry hentry => ?_⟩, UInt32.le_trans h.le hgrow,
      h.records.imp_right fun hrecords => ?_⟩
    · refine List.pairwise_append.mpr ⟨h.ordered.sorted, numbered_sorted hfits, fun a ha b hb => ?_⟩
      exact UInt32.lt_of_le_of_lt (h.ordered.ok a ha).le (hnew b hb).1
    · rcases List.mem_append.mp hentry with hold | hentry
      · have hok := h.ordered.ok entry hold
        exact ⟨UInt32.le_trans hok.le hgrow, hok.prev, hok.flag, hok.kept⟩
      · obtain ⟨-, hprev, hexpires, hflag⟩ := mem_numbered hfits hentry
        refine ⟨(hnew entry hentry).2, UInt32.le_of_eq hprev, iff_of_true hflag hprev.symm, fun hpos => ?_⟩
        rw [hexpires] at hpos
        exact absurd hpos (Int.lt_irrefl 0)
    · show recordsOf version (Known serial) (cache.entries ++ numbered (cache.maxSerial + 1) objects) = _
      rw [recordsOf_append, hrecords, recordsOf_none fun entry hentry => ?_, add_zero]
      obtain ⟨-, hprev, -⟩ := mem_numbered hfits hentry
      have hlater : serial < entry.prevSerial := by
        rw [hprev]
        exact UInt32.lt_of_le_of_lt h.le (hnew entry hentry).1
      unfold Known
      rw [decide_eq_false (UInt32.not_le.mpr hlater), Bool.false_and]

/-! ## Withdrawing -/

/-- A withdrawal keeps the record. -/
theorem entryRecord_withdrawn (version : UInt8) (entry : ValCacheEntry) (serial : UInt32) (tsExp : Int) :
    entryRecord version (entry.withdrawn serial tsExp) = entryRecord version entry := by
  have hpdu : entryPdu version (entry.withdrawn serial tsExp) = (entryPdu version entry).map fun pdu =>
      { pdu with flags := pdu.flags &&& ~~~flagAnnouncement } := by
    unfold entryPdu ValCacheEntry.withdrawn
    dsimp only
    split
    · split
      · rfl
      · rfl
    · split
      · split
        · rfl
        · rfl
      · split
        · rfl
        · rfl
  unfold entryRecord
  rw [hpdu, Option.map_map]
  refine congrArg (fun f => (entryPdu version entry).map f) (funext fun pdu => ?_)
  show (pdu.flags &&& ~~~flagAnnouncement &&& ~~~flagAnnouncement, pdu.content) = _
  rw [UInt8.and_assoc, UInt8.and_self]
  rfl

theorem recordsOf_singleton {entry' : ValCacheEntry} (hp : p entry = p entry')
    (hrecord : entryRecord version entry = entryRecord version entry') :
    recordsOf version p [entry] = recordsOf version p [entry'] := by
  unfold recordsOf
  rw [List.filter_singleton, List.filter_singleton, hp]
  cases p entry' with
  | false => rfl
  | true =>
    show (([entry].filterMap (entryRecord version) : List RtrRecord) : Multiset RtrRecord) = _
    rw [List.filterMap_cons, hrecord]
    rfl

theorem eraseIdx_middle (before after : List ValCacheEntry) (entry : ValCacheEntry) :
    (before ++ entry :: after).eraseIdx before.length = before ++ after := by
  rw [List.eraseIdx_append_of_length_le (Nat.le_refl _), Nat.sub_self]
  rfl

/-- A withdrawn entry goes behind the others with the next serial. -/
theorem inSync_withdraw (h : InSync version serial records cache) {before after : List ValCacheEntry}
    (hentries : cache.entries = before ++ entry :: after) (hlive : entry.Live)
    (hwrap : cache.maxSerial.toNat + 1 < 2 ^ 32) (tsExp : Int) :
    InSync version serial records (withdrawEntry cache before.length entry tsExp) := by
  have hnext := toNat_add_one hwrap
  have hgrow : cache.maxSerial < cache.maxSerial + 1 := UInt32.lt_iff_toNat_lt.mpr (by omega)
  have hlater := UInt32.lt_of_le_of_lt h.le hgrow
  have hentry : entry ∈ cache.entries := by
    rw [hentries]
    exact List.mem_append_right _ List.mem_cons_self
  have hok := h.ordered.ok entry hentry
  have hprev : entry.prevSerial < cache.maxSerial + 1 :=
    UInt32.lt_of_le_of_lt (UInt32.le_trans hok.prev hok.le) hgrow
  have hmoved : (withdrawEntry cache before.length entry tsExp).entries =
      before ++ after ++ [entry.withdrawn (cache.maxSerial + 1) tsExp] := by
    unfold withdrawEntry
    rw [hentries, eraseIdx_middle]
  have hsub : ∀ e ∈ before ++ after, e ∈ cache.entries := by
    intro e he
    rw [hentries]
    exact List.mem_append.mpr ((List.mem_append.mp he).imp_right (List.mem_cons_of_mem _))
  have hsorted := h.ordered.sorted
  rw [hentries] at hsorted
  refine ⟨⟨?_, fun e he => ?_⟩, UInt32.le_of_lt hlater, h.records.imp_right fun hrecords => ?_⟩
  · rw [hmoved]
    have hrest : (before ++ after).Pairwise fun a b => a.serial < b.serial :=
      hsorted.sublist (List.Sublist.append_left (List.sublist_cons_self _ _) _)
    refine List.pairwise_append.mpr ⟨hrest, List.pairwise_singleton _ _, fun a ha b hb => ?_⟩
    obtain rfl := List.mem_singleton.mp hb
    exact UInt32.lt_of_le_of_lt (h.ordered.ok a (hsub a ha)).le hgrow
  · rw [hmoved] at he
    rcases List.mem_append.mp he with hold | hnew
    · have hoke := h.ordered.ok e (hsub e hold)
      exact ⟨UInt32.le_trans hoke.le (UInt32.le_of_lt hgrow), hoke.prev, hoke.flag, hoke.kept⟩
    · obtain rfl := List.mem_singleton.mp hnew
      have hdead : ¬ (entry.withdrawn (cache.maxSerial + 1) tsExp).Live := fun hsame =>
        UInt32.lt_irrefl _ (hsame ▸ hprev)
      refine ⟨UInt32.le_refl _, UInt32.le_of_lt hprev, iff_of_false (fun hflag => hflag ?_) hdead,
        fun _ => hdead⟩
      show entry.flags &&& ~~~flagAnnouncement &&& flagAnnouncement = 0
      rw [UInt8.and_assoc, show ~~~flagAnnouncement &&& flagAnnouncement = 0 from rfl, UInt8.and_zero]
  · -- the entry is known as it was before
    have hknown : Known serial entry = Known serial (entry.withdrawn (cache.maxSerial + 1) tsExp) := by
      show _ = (decide (entry.prevSerial ≤ serial) && (_ || decide (serial < cache.maxSerial + 1)))
      unfold Known
      rw [decide_eq_true hlive, decide_eq_true hlater, Bool.true_or, Bool.or_true]
    rw [hmoved, recordsOf_append, recordsOf_append, ← hrecords, hentries, recordsOf_append,
      recordsOf_cons version _ entry, recordsOf_singleton hknown (entryRecord_withdrawn version entry _ _).symm,
      add_assoc, add_comm (recordsOf version (Known serial) after)]

/-- The rule for the loop of a removal: what every withdrawal keeps. The entries before the loop are
those that are passed or were withdrawn already. -/
theorem removalLoop_rule {P : RtrCache → Prop} {startIndex : Nat} {tsExp : Int}
    (hP : ∀ (cache : RtrCache) (before after : List ValCacheEntry) (entry : ValCacheEntry), P cache →
      cache.entries = before ++ entry :: after → entry.Live → cache.maxSerial.toNat + 1 < 2 ^ 32 →
        P (withdrawEntry cache before.length entry tsExp))
    (turns : Nat) {before rest : List ValCacheEntry} {prevNode : Option Nat} {cache : RtrCache}
    (hcache : P cache) (hentries : cache.entries = before ++ rest) (hturns : turns ≤ rest.length)
    (hprev : prevNode.elim (startIndex - 1) (· + 1) = before.length)
    (hwrap : cache.maxSerial.toNat + (rest.take turns).countP (fun entry => decide entry.Live) < 2 ^ 32) :
    ∃ cache', removalLoop startIndex tsExp turns prevNode cache = some cache' ∧ P cache' := by
  induction turns generalizing before rest prevNode cache with
  | zero => exact ⟨cache, rfl, hcache⟩
  | succ turns ih =>
    cases rest with
    | nil => exact absurd hturns (Nat.not_succ_le_zero _)
    | cons entry after =>
      have hget : cache.entries[before.length]? = some entry := by
        rw [hentries, List.getElem?_append_right (Nat.le_refl _), Nat.sub_self]
        rfl
      have hlen : turns ≤ after.length := Nat.le_of_succ_le_succ hturns
      rw [List.take_succ_cons, List.countP_cons] at hwrap
      have hturn : removalLoop startIndex tsExp (turns + 1) prevNode cache =
          if entry.Live then
            removalLoop startIndex tsExp turns prevNode (withdrawEntry cache before.length entry tsExp)
          else removalLoop startIndex tsExp turns (some before.length) cache := by
        rw [← hprev] at hget ⊢
        cases prevNode with
        | none =>
          conv_lhs => unfold removalLoop
          dsimp only [Option.elim] at hget ⊢
          rw [hget]
          rfl
        | some prev =>
          conv_lhs => unfold removalLoop
          dsimp only [Option.elim] at hget ⊢
          rw [hget]
          rfl
      rw [hturn]
      split
      · next hlive =>
        rw [decide_eq_true hlive, if_pos rfl] at hwrap
        have hone : cache.maxSerial.toNat + 1 < 2 ^ 32 := by omega
        refine @ih before (after ++ [entry.withdrawn (cache.maxSerial + 1) tsExp]) prevNode _
          (hP cache before after entry hcache hentries hlive hone) ?_ ?_ hprev ?_
        · show cache.entries.eraseIdx before.length ++ _ = _
          rw [hentries, eraseIdx_middle, List.append_assoc]
        · rw [List.length_append]
          exact Nat.le_add_right_of_le hlen
        · show (cache.maxSerial + 1).toNat + _ < _
          rw [toNat_add_one hone, List.take_append_of_le_length hlen]
          omega
      · next hdead =>
        rw [decide_eq_false hdead, if_neg Bool.false_ne_true] at hwrap
        refine @ih (before ++ [entry]) after (some before.length) cache hcache ?_ hlen ?_ hwrap
        · rw [hentries, List.append_assoc]
          rfl
        · rw [List.length_append]
          rfl

theorem inSync_remove (h : InSync version serial records cache) {startIndex endIndex now : Int}
    (hwrap : cache.maxSerial.toNat + serialsOf cache (.remove startIndex endIndex now) < 2 ^ 32) :
    ∃ cache', processEntryRemoval cache startIndex endIndex now = some cache' ∧
      InSync version serial records cache' := by
  unfold processEntryRemoval
  by_cases hbounds : WithinBounds cache startIndex endIndex
  · rw [if_pos hbounds]
    unfold serialsOf at hwrap
    dsimp only at hwrap
    rw [if_pos hbounds] at hwrap
    obtain ⟨⟨hstart, hle⟩, hend, hlast⟩ := hbounds
    have htake : (cache.entries.take (startIndex.toNat - 1)).length = startIndex.toNat - 1 := by
      rw [List.length_take]
      omega
    refine removalLoop_rule (fun c before after entry hc hentries hlive hone =>
      inSync_withdraw hc hentries hlive hone _) _ h
      (List.take_append_drop (startIndex.toNat - 1) cache.entries).symm ?_ ?_ hwrap
    · rw [List.length_drop]
      omega
    · rw [htake]
      split
      · rfl
      · next hne =>
        show startIndex.toNat - 2 + 1 = startIndex.toNat - 1
        omega
  · rw [if_neg hbounds]
    exact ⟨cache, rfl, h⟩

/-! ## Dropping -/

/-- The entries that are left, and the window around those that are not. -/
theorem expiryLoop_spec (now : Int) (entries : List ValCacheEntry) (minPS maxS : UInt32) :
    (expiryLoop now entries minPS maxS).1 = entries.filter (fun entry => !decide (entry.Expired now)) ∧
      (expiryLoop now entries minPS maxS).2.1 ≤ minPS ∧ maxS ≤ (expiryLoop now entries minPS maxS).2.2 ∧
        ∀ entry ∈ entries, entry.Expired now →
          (expiryLoop now entries minPS maxS).2.1 ≤ entry.prevSerial ∧
            entry.serial ≤ (expiryLoop now entries minPS maxS).2.2 := by
  induction entries generalizing minPS maxS with
  | nil => exact ⟨rfl, UInt32.le_refl _, UInt32.le_refl _, fun _ h => nomatch h⟩
  | cons cEntry next ih =>
    unfold expiryLoop
    rw [List.filter_cons]
    by_cases hexpired : cEntry.Expired now
    · rw [if_pos hexpired, decide_eq_true hexpired, Bool.not_true, if_neg Bool.false_ne_true]
      obtain ⟨hleft, hmin, hmax, hwindow⟩ := ih
        (if minPS ≤ cEntry.prevSerial then minPS else cEntry.prevSerial)
        (if cEntry.serial ≤ maxS then maxS else cEntry.serial)
      have hminPS : (if minPS ≤ cEntry.prevSerial then minPS else cEntry.prevSerial) ≤ minPS ∧
          (if minPS ≤ cEntry.prevSerial then minPS else cEntry.prevSerial) ≤ cEntry.prevSerial := by
        split
        · next hle => exact ⟨UInt32.le_refl _, hle⟩
        · next hgt => exact ⟨UInt32.le_of_lt (UInt32.not_le.mp hgt), UInt32.le_refl _⟩
      have hmaxS : maxS ≤ (if cEntry.serial ≤ maxS then maxS else cEntry.serial) ∧
          cEntry.serial ≤ (if cEntry.serial ≤ maxS then maxS else cEntry.serial) := by
        split
        · next hle => exact ⟨UInt32.le_refl _, hle⟩
        · next hgt => exact ⟨UInt32.le_of_lt (UInt32.not_le.mp hgt), UInt32.le_refl _⟩
      refine ⟨hleft, UInt32.le_trans hmin hminPS.1, UInt32.le_trans hmaxS.1 hmax, fun entry hentry he => ?_⟩
      rcases List.mem_cons.mp hentry with rfl | hentry
      · exact ⟨UInt32.le_trans hmin hminPS.2, UInt32.le_trans hmaxS.2 hmax⟩
      · exact hwindow entry hentry he
    · rw [if_neg hexpired, decide_eq_false hexpired, Bool.not_false, if_pos rfl]
      obtain ⟨hleft, hmin, hmax, hwindow⟩ := ih minPS maxS
      refine ⟨congrArg (cEntry :: ·) hleft, hmin, hmax, fun entry hentry he => ?_⟩
      rcases List.mem_cons.mp hentry with rfl | hentry
      · exact absurd he hexpired
      · exact hwindow entry hentry he

/-- When the entry of a known withdrawal is dropped, the serial is in the window. -/
theorem inSync_expire (h : InSync version serial records cache) (now : Int) :
    InSync version serial records (deleteExpiredEntriesFromCache cache now) := by
  obtain ⟨hleft, hmin, hmax, hwindow⟩ :=
    expiryLoop_spec now cache.entries cache.minPSExpired cache.maxSExpired
  have hentries : (deleteExpiredEntriesFromCache cache now).entries =
      cache.entries.filter fun entry => !decide (entry.Expired now) := hleft
  refine ⟨⟨?_, fun entry hentry => ?_⟩, h.le, ?_⟩
  · rw [hentries]
    exact h.ordered.sorted.filter _
  · rw [hentries] at hentry
    exact h.ordered.ok entry (List.mem_of_mem_filter hentry)
  · by_cases hdropped : ∃ entry ∈ cache.entries, entry.Expired now ∧ Known serial entry = true
    · obtain ⟨entry, hentry, hexpired, hknown⟩ := hdropped
      obtain ⟨hminEntry, hmaxEntry⟩ := hwindow entry hentry hexpired
      have hdead := (h.ordered.ok entry hentry).kept hexpired.1
      unfold Known at hknown
      rw [decide_eq_false hdead, Bool.false_or, Bool.and_eq_true, decide_eq_true_iff,
        decide_eq_true_iff] at hknown
      obtain ⟨hprev, hlater⟩ := hknown
      have hbelow := UInt32.le_trans hminEntry hprev
      have habove := UInt32.lt_of_lt_of_le hlater hmaxEntry
      exact .inl ⟨UInt32.lt_of_le_of_lt hbelow habove, hbelow, UInt32.le_of_lt habove⟩
    · refine h.records.imp (fun hold => ?_) fun hrecords => ?_
      · have hbelow := UInt32.le_trans hmin hold.2.1
        have habove := UInt32.le_trans hold.2.2 hmax
        exact ⟨UInt32.lt_of_le_of_lt hmin (UInt32.lt_of_lt_of_le hold.1 hmax), hbelow, habove⟩
      · rw [hentries, ← hrecords]
        unfold recordsOf
        rw [List.filter_filter]
        refine congrArg (fun l => ((List.filterMap (entryRecord version) l : List RtrRecord) :
          Multiset RtrRecord)) (List.filter_congr fun entry hentry => ?_)
        cases hknown : Known serial entry with
        | false => rfl
        | true =>
          rw [decide_eq_false fun hexpired => hdropped ⟨entry, hentry, hexpired, hknown⟩]
          rfl

/-! ## Runs -/

variable {state : Option RtrCache}

/-- The cache is defined, and the router in sync at the serial can follow it. -/
def Followed (version : UInt8) (serial : UInt32) (records : Multiset RtrRecord)
    (state : Option RtrCache) : Prop :=
  ∃ cache, state = some cache ∧ InSync version serial records cache

theorem followed_step (state : Option RtrCache) (op : CacheOp)
    (h : Followed version serial records state) (hwrap : NoWrap state op) :
    Followed version serial records (cacheStep state op) := by
  obtain ⟨cache, rfl, hsync⟩ := h
  have hfits := hwrap cache rfl
  cases op with
  | append objects => exact ⟨_, rfl, inSync_append hsync hfits⟩
  | remove startIndex endIndex now => exact inSync_remove hsync hfits
  | expire now => exact ⟨_, rfl, inSync_expire hsync now⟩

theorem followed_run {ops : List CacheOp} (h : Followed version serial records state)
    (hwrap : Runs.EachStep cacheStep NoWrap state ops) :
    Followed version serial records (ops.foldl cacheStep state) :=
  Runs.always_of_eachStep followed_step h hwrap ops [] (List.append_nil ops).symm

theorem followed_initial (version : UInt8) : Followed version 0 0 (some initialCache) :=
  ⟨initialCache, rfl, ⟨List.Pairwise.nil, fun _ h => nomatch h⟩, UInt32.le_refl _, .inr rfl⟩

end RtrSyncLemmas

open RtrSyncLemmas

/-- After any run without a wrap of the serial, a router that was in sync at any point of it has the
records of a Reset Query: by the changes behind its serial, or after the Cache Reset. -/
theorem resync_eq_reset (sessionID : UInt16) (version : UInt8) (before after : List CacheOp)
    (hwrap : Runs.EachStep cacheStep NoWrap (some initialCache) (before ++ after)) :
    ∃ synced now, before.foldl cacheStep (some initialCache) = some synced ∧
      after.foldl cacheStep (some synced) = some now ∧
        resync now sessionID version synced.maxSerial (resetRecords synced sessionID version) =
          resetRecords now sessionID version := by
  obtain ⟨hbefore, hafter⟩ := Runs.eachStep_append.mp hwrap
  obtain ⟨synced, hsynced, hstart⟩ := followed_run (followed_initial version) hbefore
  rw [hsynced] at hafter
  have hfollowed : Followed version synced.maxSerial (resetRecords synced sessionID version)
      (some synced) := ⟨synced, rfl, inSync_start hstart.ordered sessionID version⟩
  obtain ⟨now, hnow, hsync⟩ := followed_run hfollowed hafter
  exact ⟨synced, now, hsynced, hnow, resync_of_inSync hsync sessionID⟩

/-- Two prefixes, of which the first is withdrawn and dropped and a third comes. -/
theorem resync_eq_reset_sample :
    ∃ synced now, [CacheOp.append [.roa ⟨.v4 1, 24⟩ 24 65001, .roa ⟨.v4 2, 24⟩ 24 65002]].foldl cacheStep
        (some initialCache) = some synced ∧
      [CacheOp.remove 1 1 100, .append [.roa ⟨.v4 3, 24⟩ 24 65003], .expire 5000].foldl cacheStep
        (some synced) = some now ∧
        resync now 7 1 synced.maxSerial (resetRecords synced 7 1) = resetRecords now 7 1 :=
  resync_eq_reset 7 1 _ _ (Runs.eachStep_cons.mpr ⟨by decide, Runs.eachStep_cons.mpr ⟨by decide,
    Runs.eachStep_cons.mpr ⟨by decide, Runs.eachStep_cons.mpr ⟨by decide, Runs.eachStep_nil⟩⟩⟩⟩)

end SrxSuite.Tools

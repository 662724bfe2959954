import Mathlib.Data.List.DropRight
import SrxSuite.Tools.RtrSync
import SrxSuite.Util.PrefixText

/-!
# Appending what is read from a text

The model of `appendPrefixData` and `appendASPAData` (`tools/rpkirtr_svr.c`) with the readers they call.
A reader appends to the list of the cache line by line. A line that cannot be used is passed over; one
with fewer than three fields ends the reading. The serial of the cache is moved only when the reader
returns true, so that the entries of the lines in front of such a line stay behind without it.

A text stands for the characters in front of its terminator, and a file for what `fgets` makes of it.
An upper `none` is an access outside of a buffer or the use of a NULL pointer. The messages, and the
notification of the routers, are left out.

`append_allOrNothing_iff` says when a call is all or nothing, and that runs of such calls, removals and
expiries keep the list in the order of its serials.
-/

namespace SrxSuite.Tools

open Server Util NumberText

/-! ## Lines -/

abbrev LINE_BUF_SIZE : Nat := 4096

abbrev NUM_FIELDS : Nat := 3

/-- A line, and whether there is memory for its providers and for its entry. -/
structure Line where
  text : List Char
  providerMemory : Bool
  entryMemory : Bool
  deriving DecidableEq, Repr

/-- `stripLineBreak`: what it leaves of the string. -/
def stripLineBreak (str : List Char) : List Char := str.rdropWhile fun c => c = '\n' || c = '\r'

def isBlank (c : Char) : Bool := c = ' ' || c = '\t'

/-- The fields of a line: what `strsep` returns, without the empty strings. -/
def fieldsOf (text : List Char) : List (List Char) :=
  ((stripLineBreak text).splitOnP isBlank).filter fun field => !field.isEmpty

/-- The loop of `_countTokens`. -/
def countTokens : (isLastToken : Bool) → List Char → Nat
  | _, [] => 0
  | isLastToken, c :: line =>
    if isBlank c then countTokens false line
    else (if isLastToken then 0 else 1) + countTokens true line

/-- What becomes of a line: it is passed over, the reader returns false, or an object is appended. -/
inductive LineRead
  | skip
  | fail
  | object (object : CacheObject)
  deriving DecidableEq, Repr

/-- `strtoul` with the result in a `uint32_t`. -/
def strtoul32 (field : List Char) : UInt32 := UInt32.ofNat (strtoul field)

/-- `appendToSList` for the entry. Without memory `fclose` is called, of a file that is open for a file
only. -/
def entryFor (isFile : Bool) (line : Line) (object : CacheObject) : Option LineRead :=
  if line.entryMemory then some (.object object) else if isFile then some .fail else none

/-- A line of `readPrefixData` that is no comment and not empty. -/
def prefixLine (inet : Inet) (isFile : Bool) (line : Line) : Option LineRead :=
  match fieldsOf line.text with
  | prefixField :: maxLenField :: oasField :: _ =>
    match strToIPPrefix inet prefixField with
    | none => none
    | some none => some .skip
    | some (some ipPrefix) =>
      let maxLen := strtoul32 maxLenField
      let oas := strtoul32 oasField
      if maxLen.toNat > maxPrefixLen ipPrefix.ip then some .skip
      else if oas = 0 then some .skip
      else entryFor isFile line (.roa ipPrefix (UInt8.ofNat maxLen.toNat) oas)
  | _ => some .fail

/-- The array `fields` of `readASPAData` up to `idx`. When the line has no more fields, there is a NULL
at its end. -/
def aspaFields (numFields : Nat) (fields : List (List Char)) : List (Option (List Char)) :=
  if fields.length < numFields then fields.map some ++ [none] else (fields.take numFields).map some

/-- A line of `readASPAData` that is no comment and not empty. -/
def aspaLine (numFields : Nat) (isFile : Bool) (line : Line) : Option LineRead :=
  let fields := fieldsOf line.text
  -- the array has no element
  if numFields = 0 then none
  else if fields.length < numFields ∧ fields.length < NUM_FIELDS then some .fail
  else
    match aspaFields numFields fields with
    | some afiField :: fields =>
      let afi := UInt8.ofNat (strtoul afiField)
      if 1 < afi then some .skip
      else
        match fields with
        | some customerField :: providerFields =>
          let customerAS := strtoul32 customerField
          if customerAS = 0 then some .skip
          else if providerFields = [] then some .skip
          else if line.providerMemory then
            match providerFields.mapM id with
            | some providerFields =>
              entryFor isFile line (.aspa afi customerAS (providerFields.map strtoul32))
            | none => none
          else none
        | _ => none
    | _ => none

/-! ## Readers -/

/-- The argument of a reader: a line of the console, or a file that can be opened or not. -/
inductive Input
  | null
  | console (line : Line)
  | file (name : List Char) (lines : Option (List Line))
  deriving DecidableEq, Repr

def Input.isFile : Input → Bool
  | .file _ _ => true
  | _ => false

/-- The string that is passed: for a file it is the name. -/
def Input.arg : Input → List Char
  | .null => []
  | .console line => line.text
  | .file name _ => name

/-- The lines that are read, if there is something to read from. A line of the console that fills the
buffer has no terminator in it, which is fine for a comment. -/
def Input.lines : Input → Option (Option (List Line))
  | .null => some none
  | .console line =>
    if line.text.length < LINE_BUF_SIZE ∨ line.text.head? = some '#' then some (some [line]) else none
  | .file _ lines => some lines

/-- Comments and empty lines are not read. -/
def readLine (read : Line → Option LineRead) (line : Line) : Option LineRead :=
  if line.text.head? = some '#' then some .skip
  else if stripLineBreak line.text = [] then some .skip
  else read line

/-- The loop of `readPrefixData` and of `readASPAData`. -/
def readLines (read : Line → Option LineRead) :
    List Line → (serial : UInt32) → (dest : List ValCacheEntry) → Option (Bool × List ValCacheEntry)
  | [], _, dest => some (true, dest)
  | line :: rest, serial, dest =>
    match readLine read line with
    | none => none
    | some .skip => readLines read rest serial dest
    | some .fail => some (false, dest)
    | some (.object object) => readLines read rest (serial + 1) (dest ++ [newEntry serial object])

/-- A reader for the lines of an argument. -/
abbrev Reader := Input → Line → Option LineRead

/-- `readPrefixData` and `readASPAData` -/
def readData (reader : Reader) (arg : Input) (dest : List ValCacheEntry) (serial : UInt32) :
    Option (Bool × List ValCacheEntry) := do
  let lines? ← arg.lines
  match lines? with
  | none => some (false, dest)
  | some lines => readLines (reader arg) lines serial dest

/-- The lines of `readPrefixData`. -/
def prefixReader (inet : Inet) : Reader := fun arg => prefixLine inet arg.isFile

/-- The lines of `readASPAData`. The tokens of the argument give the size of `fields`. -/
def aspaReader : Reader := fun arg => aspaLine (countTokens false arg.arg) arg.isFile

/-- `appendPrefixData` and `appendASPAData`: the result and the cache. -/
def appendData (reader : Reader) (cache : RtrCache) (arg : Input) : Option (Bool × RtrCache) := do
  let numBefore := cache.entries.length
  let (succ, entries) ← readData reader arg cache.entries (cache.maxSerial + 1)
  let numAdded := if succ then entries.length - numBefore else 0
  some (succ, { cache with entries := entries, maxSerial := cache.maxSerial + UInt32.ofNat numAdded })

/-- `appendPrefixData` -/
def appendPrefixData (inet : Inet) (cache : RtrCache) (arg : Input) : Option (Bool × RtrCache) :=
  appendData (prefixReader inet) cache arg

/-- `appendASPAData` -/
def appendASPAData (cache : RtrCache) (arg : Input) : Option (Bool × RtrCache) :=
  appendData aspaReader cache arg

/-! ## What it should do -/

/-- The objects of the accepted lines. -/
def acceptedObjects (read : Line → Option LineRead) (lines : List Line) : List CacheObject :=
  lines.filterMap fun line =>
    match readLine read line with
    | some (.object object) => some object
    | _ => none

/-- The objects of the accepted lines of an argument. -/
def acceptedOf (reader : Reader) (arg : Input) : List CacheObject :=
  match arg.lines with
  | some (some lines) => acceptedObjects (reader arg) lines
  | _ => []

/-- A call returns, with true and an entry for each accepted line, of which the serials follow on that of
the cache, or with false and the cache as it was. -/
def AllOrNothing (cache : RtrCache) (accepted : List CacheObject) (result : Option (Bool × RtrCache)) :
    Prop :=
  (cache.maxSerial.toNat + accepted.length < 2 ^ 32 ∧
    result = some (true, appendObjects cache accepted)) ∨ result = some (false, cache)

/-- All lines are accepted or passed over and there are serials for them, or all lines in front of one
that ends the reading are passed over. -/
def InOrder (read : Line → Option LineRead) (maxSerial : UInt32) (lines : List Line) : Prop :=
  ((∀ line ∈ lines, readLine read line ≠ none ∧ readLine read line ≠ some .fail) ∧
    maxSerial.toNat + (acceptedObjects read lines).length < 2 ^ 32) ∨
  ∃ before line after, lines = before ++ line :: after ∧
    (∀ passed ∈ before, readLine read passed = some .skip) ∧ readLine read line = some .fail

/-- The condition on an argument. -/
def InputInOrder (reader : Reader) (cache : RtrCache) (arg : Input) : Prop :=
  ∃ lines?, arg.lines = some lines? ∧
    ∀ lines ∈ lines?, InOrder (reader arg) cache.maxSerial lines

/-! ## Runs -/

/-- A call that appends, a removal or an expiry. Router keys are appended as objects. -/
inductive CacheCall
  | prefixData (arg : Input)
  | aspaData (arg : Input)
  | change (op : CacheOp)
  deriving DecidableEq, Repr

variable (inet : Inet)

/-- The cache after a call, as long as it is defined. -/
def callStep (state : Option RtrCache) (call : CacheCall) : Option RtrCache :=
  state.bind fun cache =>
    match call with
    | .prefixData arg => (appendPrefixData inet cache arg).map Prod.snd
    | .aspaData arg => (appendASPAData cache arg).map Prod.snd
    | .change op => changeCache cache op

/-- The condition on a call. -/
def CallInOrder (state : Option RtrCache) (call : CacheCall) : Prop :=
  ∀ cache ∈ state,
    match call with
    | .prefixData arg => InputInOrder (prefixReader inet) cache arg
    | .aspaData arg => InputInOrder aspaReader cache arg
    | .change op => cache.maxSerial.toNat + serialsOf cache op < 2 ^ 32

/-- The list is strictly sorted by the serials, and none exceeds that of the cache. -/
def SortedBySerial (state : Option RtrCache) : Prop :=
  ∃ cache, state = some cache ∧ (cache.entries.Pairwise fun a b => a.serial < b.serial) ∧
    ∀ entry ∈ cache.entries, entry.serial ≤ cache.maxSerial

namespace RtrAppendLemmas

open RtrSyncLemmas

variable {inet} {read : Line → Option LineRead} {reader : Reader} {line : Line} {lines : List Line}
  {cache : RtrCache} {arg : Input} {state : Option RtrCache}

/-! ## The loop -/

/-- The line does not end the reading. -/
def Taken (read : Line → Option LineRead) (line : Line) : Prop :=
  readLine read line ≠ none ∧ readLine read line ≠ some .fail

instance (read : Line → Option LineRead) (line : Line) : Decidable (Taken read line) :=
  inferInstanceAs (Decidable (_ ∧ _))

theorem taken_of_read {r : LineRead} (h : readLine read line = some r) (hne : r ≠ .fail) :
    Taken read line := by
  unfold Taken
  rw [h]
  exact ⟨Option.some_ne_none r, fun hfail => hne (Option.some.inj hfail)⟩

theorem length_numbered (serial : UInt32) (objects : List CacheObject) :
    (numbered serial objects).length = objects.length := by
  induction objects generalizing serial with
  | nil => rfl
  | cons object rest ih => exact congrArg Nat.succ (ih (serial + 1))

theorem acceptedObjects_skip (h : readLine read line = some .skip) :
    acceptedObjects read (line :: lines) = acceptedObjects read lines :=
  List.filterMap_cons_none (by rw [h])

theorem acceptedObjects_object {object : CacheObject}
    (h : readLine read line = some (.object object)) :
    acceptedObjects read (line :: lines) = object :: acceptedObjects read lines :=
  List.filterMap_cons_some (by rw [h])

theorem readLines_taken {before : List Line} (h : ∀ line ∈ before, Taken read line) (rest : List Line)
    (serial : UInt32) (dest : List ValCacheEntry) :
    readLines read (before ++ rest) serial dest =
      readLines read rest (serial + UInt32.ofNat (acceptedObjects read before).length)
        (dest ++ numbered serial (acceptedObjects read before)) := by
  induction before generalizing serial dest with
  | nil =>
    show readLines read rest serial dest = readLines read rest (serial + 0) (dest ++ [])
    rw [UInt32.add_zero, List.append_nil]
  | cons line before ih =>
    obtain ⟨hdefined, hgood⟩ := h line List.mem_cons_self
    replace ih := ih fun l hl => h l (List.mem_cons_of_mem _ hl)
    rw [List.cons_append]
    conv_lhs => unfold readLines
    cases hread : readLine read line with
    | none => exact absurd hread hdefined
    | some r =>
      cases r with
      | fail => exact absurd hread hgood
      | skip =>
        rw [acceptedObjects_skip hread]
        exact ih serial dest
      | object object =>
        rw [acceptedObjects_object hread, List.length_cons, Nat.add_comm _ 1, UInt32.ofNat_add,
          ← UInt32.add_assoc, numbered, List.append_cons]
        exact ih (serial + 1) _

theorem acceptedObjects_eq_nil_iff (h : ∀ line ∈ lines, Taken read line) :
    acceptedObjects read lines = [] ↔ ∀ line ∈ lines, readLine read line = some .skip := by
  unfold acceptedObjects
  rw [List.filterMap_eq_nil_iff]
  refine forall₂_congr fun line hline => ?_
  obtain ⟨hdefined, hgood⟩ := h line hline
  cases hread : readLine read line with
  | none => exact absurd hread hdefined
  | some r =>
    cases r with
    | fail => exact absurd hread hgood
    | skip => exact iff_of_true rfl rfl
    | object object => exact iff_of_false (fun hnone => nomatch hnone) fun hskip => nomatch hskip

/-- The first line that is not taken. -/
theorem exists_untaken (read : Line → Option LineRead) (lines : List Line) :
    (∀ line ∈ lines, Taken read line) ∨ ∃ before line after, lines = before ++ line :: after ∧
      (∀ l ∈ before, Taken read l) ∧ ¬ Taken read line := by
  induction lines with
  | nil => exact .inl fun _ h => nomatch h
  | cons line lines ih =>
    rcases Decidable.em (Taken read line) with htaken | huntaken
    · rcases ih with hall | ⟨before, first, after, rfl, hbefore, hfirst⟩
      · exact .inl (List.forall_mem_cons.mpr ⟨htaken, hall⟩)
      · exact .inr ⟨line :: before, first, after, rfl, List.forall_mem_cons.mpr ⟨htaken, hbefore⟩, hfirst⟩
    · exact .inr ⟨[], line, lines, rfl, (fun _ h => nomatch h), huntaken⟩

theorem untaken_unique {before after before' after' : List Line} {line' : Line}
    (hbefore : ∀ l ∈ before, Taken read l) (hline : ¬ Taken read line)
    (hbefore' : ∀ l ∈ before', Taken read l) (hline' : ¬ Taken read line')
    (heq : before ++ line :: after = before' ++ line' :: after') : before = before' ∧ line = line' := by
  rcases List.append_eq_append_iff.mp heq with ⟨between, rfl, hrest⟩ | ⟨between, rfl, hrest⟩
  · cases between with
    | nil =>
      obtain ⟨rfl, -⟩ := List.cons.inj hrest
      exact ⟨(List.append_nil before).symm, rfl⟩
    | cons first between =>
      obtain ⟨rfl, -⟩ := List.cons.inj hrest
      exact absurd (hbefore' _ (List.mem_append_right _ List.mem_cons_self)) hline
  · cases between with
    | nil =>
      obtain ⟨rfl, -⟩ := List.cons.inj hrest
      exact ⟨List.append_nil before', rfl⟩
    | cons first between =>
      obtain ⟨rfl, -⟩ := List.cons.inj hrest
      exact absurd (hbefore _ (List.mem_append_right _ List.mem_cons_self)) hline'

/-- The condition, where the first line that is not taken is known. -/
theorem inOrder_untaken {maxSerial : UInt32} {before after : List Line}
    (hbefore : ∀ l ∈ before, Taken read l) (hline : ¬ Taken read line) :
    InOrder read maxSerial (before ++ line :: after) ↔
      acceptedObjects read before = [] ∧ readLine read line = some .fail := by
  rw [acceptedObjects_eq_nil_iff hbefore]
  constructor
  · rintro (⟨hall, -⟩ | ⟨before', line', after', heq, hskip, hfail⟩)
    · exact absurd (hall line (List.mem_append_right _ List.mem_cons_self)) hline
    · have hline' : ¬ Taken read line' := fun htaken => htaken.2 hfail
      have hbefore' : ∀ l ∈ before', Taken read l :=
        fun l hl => taken_of_read (hskip l hl) fun h => nomatch h
      obtain ⟨rfl, rfl⟩ := untaken_unique hbefore hline hbefore' hline' heq
      exact ⟨hskip, hfail⟩
  · rintro ⟨hskip, hfail⟩
    exact .inr ⟨before, line, after, rfl, hskip, hfail⟩

/-! ## A call -/

/-- What `appendData` makes of the result of the reader. -/
def moved (cache : RtrCache) (r : Bool × List ValCacheEntry) : Bool × RtrCache :=
  (r.1, { cache with
    entries := r.2
    maxSerial := cache.maxSerial +
      UInt32.ofNat (if r.1 then r.2.length - cache.entries.length else 0) })

theorem moved_true (cache : RtrCache) (objects : List CacheObject) :
    moved cache (true, cache.entries ++ numbered (cache.maxSerial + 1) objects) =
      (true, appendObjects cache objects) := by
  unfold moved appendObjects
  dsimp only
  rw [if_pos rfl, List.length_append, length_numbered, Nat.add_sub_cancel_left]

theorem moved_false (cache : RtrCache) (entries : List ValCacheEntry) :
    moved cache (false, entries) = (false, { cache with entries := entries }) := by
  unfold moved
  dsimp only
  rw [if_neg Bool.false_ne_true, show UInt32.ofNat 0 = 0 from rfl, UInt32.add_zero]

theorem appendData_lines (h : arg.lines = some (some lines)) :
    appendData reader cache arg =
      (readLines (reader arg) lines (cache.maxSerial + 1) cache.entries).map (moved cache) := by
  unfold appendData readData
  rw [h]
  dsimp only [Option.bind_eq_bind, Option.bind_some]
  cases readLines (reader arg) lines (cache.maxSerial + 1) cache.entries with
  | none => rfl
  | some r => rfl

theorem allOrNothing_lines (cache : RtrCache) (lines : List Line) :
    AllOrNothing cache (acceptedObjects read lines)
        ((readLines read lines (cache.maxSerial + 1) cache.entries).map (moved cache)) ↔
      InOrder read cache.maxSerial lines := by
  unfold AllOrNothing
  rcases exists_untaken read lines with hall | ⟨before, line, after, rfl, hbefore, hline⟩
  · have hread := readLines_taken hall [] (cache.maxSerial + 1) cache.entries
    rw [List.append_nil] at hread
    rw [hread]
    show _ ∧ some (moved cache (true, _)) = _ ∨ some (moved cache (true, _)) = _ ↔ _
    rw [moved_true, and_iff_left rfl]
    constructor
    · rintro (hfits | hfalse)
      · exact .inl ⟨hall, hfits⟩
      · cases hfalse
    · rintro (⟨-, hfits⟩ | ⟨before, line, after, rfl, -, hfail⟩)
      · exact .inl hfits
      · exact absurd hfail (hall line (List.mem_append_right _ List.mem_cons_self)).2
  · rw [inOrder_untaken hbefore hline, readLines_taken hbefore, readLines]
    cases hread : readLine read line with
    | none =>
      refine iff_of_false ?_ fun h => nomatch h.2
      rintro (⟨-, hnone⟩ | hnone)
      · cases hnone
      · cases hnone
    | some r =>
      cases r with
      | skip => exact absurd (taken_of_read hread fun h => nomatch h) hline
      | object object => exact absurd (taken_of_read hread fun h => nomatch h) hline
      | fail =>
        rw [and_iff_left rfl]
        show _ ∧ some (moved cache (false, _)) = _ ∨ some (moved cache (false, _)) = _ ↔ _
        rw [moved_false]
        constructor
        · rintro (⟨-, htrue⟩ | hsame)
          · cases htrue
          · have hentries := congrArg (fun r => r.2.entries) (Option.some.inj hsame)
            have hnil := List.append_right_eq_self.mp hentries
            rw [← List.length_eq_zero_iff, length_numbered] at hnil
            exact List.length_eq_zero_iff.mp hnil
        · intro hnil
          rw [hnil, numbered, List.append_nil]
          exact .inr rfl

theorem allOrNothing_iff (reader : Reader) (cache : RtrCache) (arg : Input) :
    AllOrNothing cache (acceptedOf reader arg) (appendData reader cache arg) ↔
      InputInOrder reader cache arg := by
  unfold acceptedOf InputInOrder
  cases hlines : arg.lines with
  | none =>
    unfold appendData readData
    rw [hlines]
    refine iff_of_false (fun h => h.elim (fun h => nomatch h.2) fun h => nomatch h) ?_
    rintro ⟨lines?, hnone, -⟩
    cases hnone
  | some lines? =>
    cases lines? with
    | none =>
      refine iff_of_true (.inr ?_) ⟨none, rfl, fun _ h => nomatch h⟩
      unfold appendData readData
      rw [hlines]
      exact congrArg some (moved_false cache cache.entries)
    | some lines =>
      rw [appendData_lines hlines]
      dsimp only
      rw [allOrNothing_lines]
      constructor
      · intro h
        refine ⟨some lines, rfl, fun lines' hlines' => ?_⟩
        obtain rfl := Option.mem_some_iff.mp hlines'
        exact h
      · rintro ⟨lines?, hsome, h⟩
        obtain rfl := Option.some.inj hsome
        exact h lines rfl

/-! ## Runs -/

/-- A router that never asked is in sync with a cache that is in order. -/
theorem followed_append {cache : RtrCache} (h : Followed 0 0 0 (some cache))
    (hcall : InputInOrder reader cache arg) :
    Followed 0 0 0 ((appendData reader cache arg).map Prod.snd) := by
  rcases (allOrNothing_iff reader cache arg).mpr hcall with ⟨hfits, hdone⟩ | hnothing
  · rw [hdone]
    obtain ⟨c, hc, hsync⟩ := h
    obtain rfl := Option.some.inj hc
    exact ⟨_, rfl, inSync_append hsync hfits⟩
  · rw [hnothing]
    exact h

theorem followed_call (state : Option RtrCache) (call : CacheCall) (h : Followed 0 0 0 state)
    (hcall : CallInOrder inet state call) : Followed 0 0 0 (callStep inet state call) := by
  obtain ⟨cache, rfl, hsync⟩ := h
  have hcond := hcall cache rfl
  cases call with
  | prefixData arg => exact followed_append ⟨cache, rfl, hsync⟩ hcond
  | aspaData arg => exact followed_append ⟨cache, rfl, hsync⟩ hcond
  | change op =>
    refine followed_step (some cache) op ⟨cache, rfl, hsync⟩ fun c hc => ?_
    obtain rfl := Option.mem_some_iff.mp hc
    exact hcond

theorem sortedBySerial_of_followed (h : Followed 0 0 0 state) : SortedBySerial state := by
  obtain ⟨cache, rfl, hsync⟩ := h
  exact ⟨cache, rfl, hsync.ordered.sorted, fun entry hentry => (hsync.ordered.ok entry hentry).le⟩

end RtrAppendLemmas

open RtrAppendLemmas

/-- A call is all or nothing if and only if its lines are in order, and a run of calls that are, of
removals and of expiries without a wrap of the serial keeps the list sorted by the serials. -/
theorem append_allOrNothing_iff (inet : Inet) :
    (∀ cache arg, AllOrNothing cache (acceptedOf (prefixReader inet) arg)
      (appendPrefixData inet cache arg) ↔ InputInOrder (prefixReader inet) cache arg) ∧
    (∀ cache arg, AllOrNothing cache (acceptedOf aspaReader arg) (appendASPAData cache arg) ↔
      InputInOrder aspaReader cache arg) ∧
    ∀ calls, Runs.EachStep (callStep inet) (CallInOrder inet) (some initialCache) calls →
      Runs.Always (callStep inet) SortedBySerial (some initialCache) calls := by
  refine ⟨allOrNothing_iff (prefixReader inet), allOrNothing_iff aspaReader, fun calls hcalls => ?_⟩
  intro before after heq
  exact sortedBySerial_of_followed (Runs.always_of_eachStep followed_call
    (RtrSyncLemmas.followed_initial 0) hcalls before after heq)

/-- A line for which there is memory. -/
def lineOf (text : String) : Line := ⟨text.toList, true, true⟩

/-- A file with a line of a prefix. -/
def prefixFile : Input :=
  .file "roas.txt".toList (some [lineOf "# prefix max AS\n", lineOf "10.0.0.0/8 8 65000\n"])

/-- The same with a line behind it that has only two fields. -/
def brokenFile : Input :=
  .file "roas.txt".toList (some [lineOf "10.0.0.0/8 8 65000\n", lineOf "10.0.0.0/8 8\n"])

theorem append_allOrNothing_iff_calls :
    Runs.Always (callStep someInet) SortedBySerial (some initialCache)
      [.prefixData prefixFile, .change (.remove 1 1 100), .prefixData (.console (lineOf "10.0.0.0/8 8")),
        .aspaData (.console (lineOf "0 65000 65001 65002"))] := by
  refine (append_allOrNothing_iff someInet).2.2 _ ?_
  refine Runs.eachStep_cons.mpr ⟨fun cache hc => ?_, Runs.eachStep_cons.mpr ⟨fun cache hc => ?_,
    Runs.eachStep_cons.mpr ⟨fun cache hc => ?_, Runs.eachStep_cons.mpr ⟨fun cache hc => ?_,
      Runs.eachStep_nil⟩⟩⟩⟩
  · refine ⟨_, rfl, fun lines hlines => ?_⟩
    obtain rfl := Option.mem_some_iff.mp hlines
    obtain rfl := Option.mem_some_iff.mp hc
    exact .inl (by decide)
  · have hfits : ∀ c ∈ callStep someInet (some initialCache) (.prefixData prefixFile),
        c.maxSerial.toNat + serialsOf c (.remove 1 1 100) < 2 ^ 32 := by decide
    exact hfits cache hc
  · refine ⟨_, rfl, fun lines hlines => ?_⟩
    obtain rfl := Option.mem_some_iff.mp hlines
    exact .inr ⟨[], _, [], rfl, by decide, by decide⟩
  · refine ⟨_, rfl, fun lines hlines => ?_⟩
    obtain rfl := Option.mem_some_iff.mp hlines
    have hfits : ∀ c ∈ [CacheCall.prefixData prefixFile, .change (.remove 1 1 100),
        .prefixData (.console (lineOf "10.0.0.0/8 8"))].foldl (callStep someInet) (some initialCache),
          c.maxSerial.toNat + 1 < 2 ^ 32 := by decide
    exact .inl ⟨by decide, hfits cache hc⟩

/-- The entry of the first line stays without a serial of the cache, and the next call gives the serial
again. -/
theorem append_not_allOrNothing :
    ¬ AllOrNothing initialCache (acceptedOf (prefixReader someInet) brokenFile)
        (appendPrefixData someInet initialCache brokenFile) ∧
      ¬ SortedBySerial (callStep someInet (some initialCache) (.prefixData brokenFile)) ∧
      ([CacheCall.prefixData brokenFile, .prefixData prefixFile].foldl (callStep someInet)
        (some initialCache)).map (fun cache => cache.entries.map (·.serial)) = some [1, 1] := by
  refine ⟨?_, ?_, by decide⟩
  · rintro (⟨-, htrue⟩ | hfalse)
    · exact absurd htrue (by decide)
    · exact absurd hfalse (by decide)
  · rintro ⟨cache, hcache, -, hle⟩
    have hlater : ∀ c ∈ callStep someInet (some initialCache) (.prefixData brokenFile),
        ¬ ∀ entry ∈ c.entries, entry.serial ≤ c.maxSerial := by decide
    exact hlater cache hcache hle

end SrxSuite.Tools

import SrxSuite.Aspa.PathValidation
import SrxSuite.Server.UpdateCache

/-!
# The AS path cache

The model of `server/aspath_cache.c`: the AS paths of the verify requests, each with its ASPA result,
under an identifier that is the CRC-32 of a text of the path and its segment type. Numbers of the
wire are in host order here.

Results:
1. `whole_paths_iff`: the requests that arrive at a cache are stored with their whole paths, and as
   different paths when they differ, if and only if each path has less than 256 hops and a CRC-32
   of its own other than 0.
2. `path_cut_at_256`: the length passes through a byte, so that a path of 257 hops is taken for its
   first hop.
-/

namespace SrxSuite.Server

open Aspa

/-! ## The code -/

/-- One entry of `crc32tab`: eight steps with the polynomial of CRC-32. -/
def crc32tab (i : UInt32) : UInt32 :=
  (List.range 8).foldl (fun c _ => if c &&& 1 = 1 then (c >>> 1) ^^^ 0xEDB88320 else c >>> 1) i

example : [crc32tab 1, crc32tab 2, crc32tab 128, crc32tab 255] =
    [0x77073096, 0xEE0E612C, 0xEDB88320, 0x2D02EF8D] := by decide

/-- `crc32`. -/
def crc32 (pData : List UInt8) : UInt32 :=
  ~~~ pData.foldl (fun c b => (c >>> 8) ^^^ crc32tab (b.toUInt32 ^^^ (c &&& 0xFF))) 0xFFFFFFFF

/-- An upper case hexadecimal digit. -/
def hexDigit (d : Nat) : UInt8 := if d < 10 then UInt8.ofNat (48 + d) else UInt8.ofNat (55 + d)

/-- `sprintf("%08X", n)`. -/
def hexWord (n : UInt32) : List UInt8 :=
  [hexDigit (n.toNat / 268435456 % 16), hexDigit (n.toNat / 16777216 % 16),
    hexDigit (n.toNat / 1048576 % 16), hexDigit (n.toNat / 65536 % 16),
    hexDigit (n.toNat / 4096 % 16), hexDigit (n.toNat / 256 % 16),
    hexDigit (n.toNat / 16 % 16), hexDigit (n.toNat % 16)]

/-- The value of an AS path type. -/
def asTypeCode : AsType → Nat
  | .asSet => 1
  | .asSequence => 2
  | .asConfedSequence => 3
  | .asConfedSet => 4
  | .other code _ => code.toNat

/-- `sprintf("%X", asType)` into the last two bytes of the buffer. A value with two digits leaves no
place for the terminator. -/
def typeText (asType : AsType) : List UInt8 :=
  if asTypeCode asType < 16 then [hexDigit (asTypeCode asType), 0]
  else [hexDigit (asTypeCode asType / 16), hexDigit (asTypeCode asType % 16)]

/-- The buffer `makePathId` fills: the hops and the type. -/
def pathText (asPathList : List UInt32) (asType : AsType) : List UInt8 :=
  asPathList.flatMap hexWord ++ typeText asType

/-- `makePathId`; `none` is a path that is NULL. -/
def makePathId (asPathLength : UInt8) (asPathList : Option (List UInt32)) (asType : AsType) :
    UInt32 :=
  match asPathList with
  | none => 0
  | some asPathList => crc32 (pathText (asPathList.take asPathLength.toNat) asType)

/-- `AS_PATH_LIST`. -/
structure AsPathEntry where
  pathID : UInt32
  asPathLength : UInt8
  asPathList : List UInt32
  aspaValResult : UInt8
  asType : AsType
  asRelDir : AsRelDir
  afi : UInt16
  lastModified : Nat
  deriving DecidableEq, Repr

/-- `PathListCacheTable` with its `AC_PathListData`. -/
structure PathListCacheTable where
  pathId : UInt32
  hops : UInt16
  asPathList : List UInt32
  aspaResult : UInt8
  asType : AsType
  asRelDir : AsRelDir
  afi : UInt16
  lastModified : Nat
  deriving DecidableEq, Repr

/-- `AspathCache`: the hash table. -/
abbrev AspathCache := UInt32 → Option PathListCacheTable

/-- `createAspathCache`. -/
def createAspathCache : AspathCache := fun _ => none

/-- `newAspathListEntry`; the length is cut to a byte. -/
def newAspathListEntry (length : UInt32) (pathData : List UInt32) (pathId : UInt32)
    (asType : AsType) (asRelDir : AsRelDir) (afi : UInt16) : Option AsPathEntry :=
  if length = 0 then none
  else some ⟨pathId, length.toUInt8, pathData.take length.toNat, 0, asType, asRelDir, afi, 0⟩

/-- The record `storeAspathList` makes; the hops are copied as far as the byte says. -/
def newCacheTable (pathId : UInt32) (asType : AsType) (entry : AsPathEntry) (aspaResult : UInt8) :
    PathListCacheTable where
  pathId := pathId
  hops := entry.asPathLength.toUInt16
  asPathList := entry.asPathList.take entry.asPathLength.toNat
  aspaResult := aspaResult
  asType := asType
  asRelDir := entry.asRelDir
  afi := entry.afi
  lastModified := entry.lastModified

/-- `storeAspathList`: the cache and the return value. A path that is stored already stays as it
is. -/
def storeAspathList (self : AspathCache) (srxRes : Option DefaultResult) (pathId : UInt32)
    (asType : AsType) (pathlistEntry : Option AsPathEntry) : AspathCache × Int :=
  match pathlistEntry with
  | none => (self, -1)
  | some entry =>
    if (self pathId).isSome then (self, 0)
    else
      let aspaResult := match srxRes with
        | some srxRes => srxRes.result.aspaResult
        | none => 0
      (Function.update self pathId (some (newCacheTable pathId asType entry aspaResult)), 1)

/-- The copy `getAspathListFromAspathCache` makes of a record. -/
def PathListCacheTable.copy (t : PathListCacheTable) : AsPathEntry where
  pathID := t.pathId
  asPathLength := t.hops.toUInt8
  asPathList := t.asPathList.take t.hops.toUInt8.toNat
  aspaValResult := t.aspaResult
  asType := t.asType
  asRelDir := t.asRelDir
  afi := t.afi
  lastModified := t.lastModified

/-- `getAspathListFromAspathCache`: a copy of the path and the new `srxRes->aspaResult`. -/
def getAspathListFromAspathCache (self : AspathCache) (pathId : UInt32) (aspaResult : UInt8) :
    Option AsPathEntry × UInt8 :=
  if pathId = 0 then (none, aspaResult)
  else
    match self pathId with
    | none => (none, SrxResult.undefined.code)
    | some t => (some t.copy, t.aspaResult)

/-- `modifyAspaValidationResultToAspathCache`. -/
def modifyAspaValidationResultToAspathCache (self : AspathCache) (pathId : UInt32)
    (modAspaResult : UInt8) (lastModified : Nat) : AspathCache :=
  match self pathId with
  | none => self
  | some t =>
    if modAspaResult ≠ SrxResult.doNotUse.code then
      Function.update self pathId
        (some { t with lastModified := lastModified, aspaResult := modAspaResult })
    else self

/-- The address family the callers of `validateASPA` take for a path. -/
def validationAfi (afi : UInt16) : UInt8 :=
  if afi = 0 ∨ afi > 2 then afiIP.toUInt8 else afi.toUInt8

/-- The call of `validateASPA` for a path of the cache. -/
def validateEntry (lookup : UInt32 → UInt32 → UInt8 → AspaResult) (aspl : AsPathEntry) :
    SrxResult :=
  validateASPA lookup aspl.asPathList aspl.asPathLength aspl.asType aspl.asRelDir
    (validationAfi aspl.afi)

/-- The result of `validateASPA` for a path of the cache. -/
def PathListCacheTable.verdict (lookup : UInt32 → UInt32 → UInt8 → AspaResult)
    (t : PathListCacheTable) : UInt8 :=
  (validateEntry lookup t.copy).code

/-! ## Whole paths -/

/-- What a verify request says about its AS path; `numHops` has 16 bits. -/
structure PathRequest where
  path : List UInt32
  asType : AsType
  asRelDir : AsRelDir
  afi : UInt16
  carries : path ≠ []
  wire : path.length < 2 ^ 16

/-- The identifier `processValidationRequest` makes for the path: the number of hops is passed as a
byte. -/
def PathRequest.pathId (p : PathRequest) : UInt32 :=
  makePathId (UInt16.ofNat p.path.length).toUInt8 (some p.path) p.asType

/-- The entry `processValidationRequest` makes for the path. -/
def PathRequest.entry (p : PathRequest) : Option AsPathEntry :=
  newAspathListEntry (UInt16.ofNat p.path.length).toUInt32 p.path p.pathId p.asType p.asRelDir p.afi

/-- The text the identifier is computed from. -/
def PathRequest.idText (p : PathRequest) : List UInt8 :=
  pathText (p.path.take (UInt16.ofNat p.path.length).toUInt8.toNat) p.asType

/-- What `processValidationRequest` does to the cache for an update that has no path identifier yet:
a path that is not found is stored. -/
def PathRequest.receive (p : PathRequest) (self : AspathCache) (defResInfo : DefaultResult) :
    AspathCache :=
  match (getAspathListFromAspathCache self p.pathId SrxResult.undefined.code).1 with
  | some _ => self
  | none => (storeAspathList self (some defResInfo) p.pathId p.asType p.entry).1

/-- The cache after the requests, each with its default result, in the order they arrive in. -/
def receivePaths (self : AspathCache) (requests : List (PathRequest × DefaultResult)) :
    AspathCache :=
  requests.foldl (fun self x => x.1.receive self x.2) self

/-- The identifier is computed from the whole path, the cache has the whole path under it, and
`validateASPA` reads the whole path. -/
structure SeesWholePath (cache : AspathCache) (p : PathRequest) : Prop where
  text : p.idText = pathText p.path p.asType
  stored : ∃ t, cache p.pathId = some t ∧ t.asPathList = p.path
  validated : ∀ aspaResult, ∃ aspl,
    (getAspathListFromAspathCache cache p.pathId aspaResult).1 = some aspl ∧
      aspl.asPathList = p.path ∧ aspl.asPathLength.toNat = p.path.length

/-- Different paths have different identifiers and are stored as different paths. -/
def Distinguished (self : AspathCache) (p q : PathRequest) : Prop :=
  p.path ≠ q.path → p.pathId ≠ q.pathId ∧ ∀ t t', self p.pathId = some t →
    self q.pathId = some t' → t.asPathList ≠ t'.asPathList

/-- All paths are seen as a whole, and as different paths when they differ. -/
structure WholePaths (cache : AspathCache) (paths : List PathRequest) : Prop where
  whole : ∀ p ∈ paths, SeesWholePath cache p
  distinguished : ∀ p ∈ paths, ∀ q ∈ paths, Distinguished cache p q

/-- The CRC-32 of the text of the whole path. -/
def PathRequest.crc (p : PathRequest) : UInt32 := crc32 (pathText p.path p.asType)

/-- The path fits into the byte that counts its hops, and its CRC-32 is neither the 0 that stands for
no path nor that of another path. -/
structure PathToldApart (paths : List PathRequest) (p : PathRequest) : Prop where
  short : p.path.length < 256
  nonzero : p.crc ≠ 0
  alone : ∀ q ∈ paths, q.crc = p.crc → q.path = p.path

namespace PathCacheLemmas

variable {p q : PathRequest} {self : AspathCache}

/-! ## The text of a path -/

theorem hexDigit_inj {a b : Nat} (ha : a < 16) (hb : b < 16) (h : hexDigit a = hexDigit b) :
    a = b := by
  have hall : ∀ a < 16, ∀ b < 16, hexDigit a = hexDigit b → a = b := by decide
  exact hall a ha b hb h

theorem hexWord_inj {a b : UInt32} (h : hexWord a = hexWord b) : a = b := by
  have ha := a.toNat_lt
  have hb := b.toNat_lt
  have hdigit {x y : Nat} (h : hexDigit (x % 16) = hexDigit (y % 16)) : x % 16 = y % 16 :=
    hexDigit_inj (Nat.mod_lt _ (by decide)) (Nat.mod_lt _ (by decide)) h
  unfold hexWord at h
  simp only [List.cons.injEq, and_true] at h
  obtain ⟨h7, h6, h5, h4, h3, h2, h1, h0⟩ := h
  have e7 := hdigit h7
  have e6 := hdigit h6
  have e5 := hdigit h5
  have e4 := hdigit h4
  have e3 := hdigit h3
  have e2 := hdigit h2
  have e1 := hdigit h1
  have e0 := hdigit h0
  apply UInt32.toNat_inj.mp
  omega

theorem flatMap_hexWord_inj {xs ys : List UInt32} (h : xs.flatMap hexWord = ys.flatMap hexWord) :
    xs = ys := by
  induction xs generalizing ys with
  | nil =>
    cases ys with
    | nil => rfl
    | cons y ys => cases h
  | cons x xs ih =>
    cases ys with
    | nil => cases h
    | cons y ys =>
      rw [List.flatMap_cons, List.flatMap_cons] at h
      obtain ⟨hword, hrest⟩ := List.append_inj h rfl
      rw [hexWord_inj hword, ih hrest]

theorem asTypeCode_lt (t : AsType) : asTypeCode t < 256 := by
  cases t with
  | other code unnamed => exact code.toNat_lt
  | _ => decide

theorem asTypeCode_inj {t u : AsType} (h : asTypeCode t = asTypeCode u) : t = u := by
  have hother {code : UInt8} (unnamed : code = 0 ∨ 4 < code) {n : Nat} (hn : 0 < n ∧ n ≤ 4) :
      code.toNat ≠ n := by
    rintro rfl
    rcases unnamed with rfl | hlt
    · exact absurd hn.1 (by decide)
    · exact absurd (UInt8.lt_iff_toNat_lt.mp hlt) (Nat.not_lt.mpr hn.2)
  cases t with
  | other code unnamed =>
    cases u with
    | other code' unnamed' =>
      obtain rfl : code = code' := UInt8.toNat_inj.mp h
      rfl
    | _ => exact absurd h (hother unnamed (by decide))
  | _ =>
    cases u with
    | other code' unnamed' => exact absurd h.symm (hother unnamed' (by decide))
    | _ => first | rfl | exact absurd h (by decide)

theorem length_typeText (t : AsType) : (typeText t).length = 2 := by
  unfold typeText
  split
  · rfl
  · rfl

theorem typeText_inj {t u : AsType} (h : typeText t = typeText u) : t = u := by
  have ht := asTypeCode_lt t
  have hu := asTypeCode_lt u
  have hzero {d : Nat} (hd : d < 16) : hexDigit d ≠ 0 := by
    have hall : ∀ d < 16, hexDigit d ≠ 0 := by decide
    exact hall d hd
  have hmod (n : Nat) : n % 16 < 16 := Nat.mod_lt _ (by decide)
  unfold typeText at h
  apply asTypeCode_inj
  split at h
  · next hsmall =>
    split at h
    · next hsmall' => exact hexDigit_inj hsmall hsmall' (List.cons.inj h).1
    · exact absurd (List.cons.inj (List.cons.inj h).2).1.symm (hzero (hmod _))
  · split at h
    · exact absurd (List.cons.inj (List.cons.inj h).2).1 (hzero (hmod _))
    · have hhigh := hexDigit_inj (by omega) (by omega) (List.cons.inj h).1
      have hlow := hexDigit_inj (hmod _) (hmod _) (List.cons.inj (List.cons.inj h).2).1
      omega

/-- The text says which path and which type it was made from. -/
theorem pathText_inj {xs ys : List UInt32} {t u : AsType} (h : pathText xs t = pathText ys u) :
    xs = ys ∧ t = u := by
  obtain ⟨hpath, htype⟩ :=
    List.append_inj' h ((length_typeText t).trans (length_typeText u).symm)
  exact ⟨flatMap_hexWord_inj hpath, typeText_inj htype⟩

/-! ## The stored path -/

theorem toNat_hops (p : PathRequest) : (UInt16.ofNat p.path.length).toNat = p.path.length := by
  rw [UInt16.toNat_ofNat']
  exact Nat.mod_eq_of_lt p.wire

theorem toNat_hops8 (p : PathRequest) :
    (UInt16.ofNat p.path.length).toUInt8.toNat = p.path.length % 256 := by
  rw [UInt16.toNat_toUInt8, toNat_hops]

/-- The entry of a request has the whole path, but only a byte for its length. -/
theorem entry_eq (p : PathRequest) :
    p.entry = some ⟨p.pathId, (UInt16.ofNat p.path.length).toUInt8, p.path, 0, p.asType, p.asRelDir,
      p.afi, 0⟩ := by
  unfold PathRequest.entry newAspathListEntry
  have hlen : (UInt16.ofNat p.path.length).toUInt32.toNat = p.path.length := by
    rw [UInt16.toNat_toUInt32, toNat_hops]
  have hne : (UInt16.ofNat p.path.length).toUInt32 ≠ 0 := by
    intro hzero
    rw [hzero] at hlen
    exact p.carries (List.length_eq_zero_iff.mp hlen.symm)
  rw [if_neg hne, hlen, List.take_length, UInt16.toUInt8_toUInt32]

/-- What is stored for a request: the first hops, as many as the byte says. -/
structure RecordOf (p : PathRequest) (t : PathListCacheTable) : Prop where
  asPathList : t.asPathList = p.path.take (p.path.length % 256)
  hops : t.hops.toNat = p.path.length % 256

/-- The records are those of the requests, and every request has one. -/
structure Filled (cache : AspathCache) (paths : List PathRequest) : Prop where
  records : ∀ k t, cache k = some t → ∃ p ∈ paths, p.pathId = k ∧ RecordOf p t
  found : ∀ p ∈ paths, ∃ t, cache p.pathId = some t

/-- A path whose identifier has no record yet gets one, every other record stays. -/
theorem receive_eq (p : PathRequest) (self : AspathCache) (defResInfo : DefaultResult) :
    (∃ t, self p.pathId = some t ∧ p.receive self defResInfo = self) ∨
      (∃ t, self p.pathId = none ∧ RecordOf p t ∧
        p.receive self defResInfo = Function.update self p.pathId (some t)) := by
  have hstore : (∃ t, self p.pathId = some t ∧
        (storeAspathList self (some defResInfo) p.pathId p.asType p.entry).1 = self) ∨
      (∃ t, self p.pathId = none ∧ RecordOf p t ∧
        (storeAspathList self (some defResInfo) p.pathId p.asType p.entry).1 =
          Function.update self p.pathId (some t)) := by
    unfold storeAspathList
    rw [entry_eq]
    cases hself : self p.pathId with
    | some t => exact .inl ⟨t, rfl, rfl⟩
    | none =>
      refine .inr ⟨_, rfl, ⟨?_, ?_⟩, rfl⟩
      · show p.path.take (UInt16.ofNat p.path.length).toUInt8.toNat = _
        rw [toNat_hops8]
      · show (UInt16.ofNat p.path.length).toUInt8.toUInt16.toNat = _
        rw [UInt8.toNat_toUInt16, toNat_hops8]
  unfold PathRequest.receive getAspathListFromAspathCache
  by_cases hzero : p.pathId = 0
  · rw [if_pos hzero]
    exact hstore
  · rw [if_neg hzero]
    cases hself : self p.pathId with
    | some t => exact .inl ⟨t, rfl, rfl⟩
    | none =>
      rw [hself] at hstore
      exact hstore

theorem filled_receive {paths : List PathRequest} (hf : Filled self paths) (p : PathRequest)
    (defResInfo : DefaultResult) : Filled (p.receive self defResInfo) (paths ++ [p]) := by
  rcases receive_eq p self defResInfo with ⟨t, ht, hsame⟩ | ⟨t, hnone, hrecord, hadded⟩
  · rw [hsame]
    refine ⟨fun k u hu => ?_, fun q hq => ?_⟩
    · obtain ⟨q, hq, hk, hu⟩ := hf.records k u hu
      exact ⟨q, List.mem_append_left _ hq, hk, hu⟩
    · rcases List.mem_append.mp hq with hq | hq
      · exact hf.found q hq
      · rw [List.mem_singleton.mp hq]
        exact ⟨t, ht⟩
  · rw [hadded]
    refine ⟨fun k u hu => ?_, fun q hq => ?_⟩
    · by_cases hk : k = p.pathId
      · rw [hk, Function.update_self] at hu
        obtain rfl := Option.some.inj hu
        exact ⟨p, List.mem_append_right _ (List.mem_singleton.mpr rfl), hk.symm, hrecord⟩
      · rw [Function.update_of_ne hk] at hu
        obtain ⟨q, hq, hk, hu⟩ := hf.records k u hu
        exact ⟨q, List.mem_append_left _ hq, hk, hu⟩
    · by_cases hk : q.pathId = p.pathId
      · rw [hk]
        exact ⟨t, Function.update_self _ _ _⟩
      · rw [Function.update_of_ne hk]
        rcases List.mem_append.mp hq with hq | hq
        · exact hf.found q hq
        · exact absurd (congrArg PathRequest.pathId (List.mem_singleton.mp hq)) hk

theorem filled_receivePaths {paths : List PathRequest} (hf : Filled self paths)
    (requests : List (PathRequest × DefaultResult)) :
    Filled (receivePaths self requests) (paths ++ requests.map Prod.fst) := by
  induction requests generalizing self paths with
  | nil =>
    rw [List.map_nil, List.append_nil]
    exact hf
  | cons x requests ih =>
    rw [List.map_cons, List.append_cons]
    exact ih (filled_receive hf x.1 x.2)

theorem filled_init : Filled createAspathCache [] :=
  ⟨fun _ _ ht => (nomatch ht), fun _ hp => (nomatch hp)⟩

/-- The identifier of a path that fits is its CRC-32. -/
theorem pathId_short (h : p.path.length < 256) : p.pathId = p.crc := by
  unfold PathRequest.pathId makePathId PathRequest.crc
  dsimp only
  rw [toNat_hops8, Nat.mod_eq_of_lt h, List.take_length]

/-- The text of a path is that of the whole path only when all hops are counted. -/
theorem idText_iff (p : PathRequest) :
    p.idText = pathText p.path p.asType ↔ p.path.length < 256 := by
  unfold PathRequest.idText
  rw [toNat_hops8]
  constructor
  · intro htext
    have hlen := congrArg List.length (pathText_inj htext).1
    rw [List.length_take] at hlen
    have := Nat.mod_lt p.path.length (show 256 > 0 by decide)
    omega
  · intro h
    rw [Nat.mod_eq_of_lt h, List.take_length]

/-- A record with all hops of a path that fits is read as a whole. -/
theorem seesWholePath {t : PathListCacheTable} (hshort : p.path.length < 256) (hnonzero : p.crc ≠ 0)
    (ht : self p.pathId = some t) (hq : RecordOf q t) (hsame : q.path = p.path) :
    SeesWholePath self p := by
  have hmod : q.path.length % 256 = p.path.length := by
    rw [hsame]
    exact Nat.mod_eq_of_lt hshort
  have hlist : t.asPathList = p.path := by
    rw [hq.asPathList, hmod, hsame, List.take_length]
  have hhops : t.hops.toUInt8.toNat = p.path.length := by
    rw [UInt16.toNat_toUInt8, hq.hops, hmod]
    exact Nat.mod_eq_of_lt hshort
  refine ⟨(idText_iff p).mpr hshort, ⟨t, ht, hlist⟩, fun aspaResult => ⟨t.copy, ?_, ?_, hhops⟩⟩
  · unfold getAspathListFromAspathCache
    rw [if_neg (pathId_short hshort ▸ hnonzero), ht]
  · show t.asPathList.take t.hops.toUInt8.toNat = p.path
    rw [hhops, hlist, List.take_length]

end PathCacheLemmas

open PathCacheLemmas

/-- Whatever requests arrive at one path cache: their paths are seen as a whole, and as different
when they differ, exactly when each has less than 256 hops and a CRC-32 that is not 0 and that no
other path has. -/
theorem whole_paths_iff (requests : List (PathRequest × DefaultResult)) :
    WholePaths (receivePaths createAspathCache requests) (requests.map Prod.fst) ↔
      ∀ p ∈ requests.map Prod.fst, PathToldApart (requests.map Prod.fst) p := by
  obtain ⟨hrecords, hfound⟩ := filled_receivePaths filled_init requests
  rw [List.nil_append] at hrecords hfound
  generalize requests.map Prod.fst = paths at *
  generalize receivePaths createAspathCache requests = self at *
  constructor
  · intro h p hp
    have hshort : p.path.length < 256 := (idText_iff p).mp (h.whole p hp).text
    refine ⟨hshort, fun hzero => ?_, fun q hq hcrc => ?_⟩
    · obtain ⟨aspl, hget, -⟩ := (h.whole p hp).validated 0
      unfold getAspathListFromAspathCache at hget
      rw [if_pos ((pathId_short hshort).trans hzero)] at hget
      cases hget
    · have hshortq : q.path.length < 256 := (idText_iff q).mp (h.whole q hq).text
      by_contra hne
      refine (h.distinguished q hq p hp hne).1 ?_
      rw [pathId_short hshortq, pathId_short hshort, hcrc]
  · intro h
    have hwhole : ∀ p ∈ paths, SeesWholePath self p := by
      intro p hp
      obtain ⟨t, ht⟩ := hfound p hp
      obtain ⟨q, hq, hid, hrecord⟩ := hrecords _ t ht
      rw [pathId_short (h q hq).short, pathId_short (h p hp).short] at hid
      exact seesWholePath (h p hp).short (h p hp).nonzero ht hrecord ((h p hp).alone q hq hid)
    refine ⟨hwhole, fun p hp q hq hne => ⟨fun hid => ?_, fun t t' ht ht' heq => ?_⟩⟩
    · rw [pathId_short (h p hp).short, pathId_short (h q hq).short] at hid
      exact hne ((h q hq).alone p hp hid)
    · obtain ⟨u, hu, hup⟩ := (hwhole p hp).stored
      obtain ⟨u', hu', huq⟩ := (hwhole q hq).stored
      obtain rfl := Option.some.inj (ht.symm.trans hu)
      obtain rfl := Option.some.inj (ht'.symm.trans hu')
      exact hne (hup.symm.trans (heq.trans huq))

/-- No default result. -/
def noDefault : DefaultResult := resultNotFound.defaultRes

/-- A path of `n + 1` hops, all of them AS 65000. -/
def longPath (n : Nat) (h : n + 1 < 2 ^ 16) : PathRequest :=
  ⟨List.replicate (n + 1) 65000, .asSequence, .upStream, afiIP, by simp, by simpa using h⟩

/-- A path of 257 hops gets the identifier of the path that is only its first hop, whose record it
finds. -/
theorem path_cut_at_256 :
    ¬ ∀ requests : List (PathRequest × DefaultResult),
      WholePaths (receivePaths createAspathCache requests) (requests.map Prod.fst) := by
  intro h
  have hlen (n : Nat) (hn : n + 1 < 2 ^ 16) : (longPath n hn).path.length = n + 1 :=
    List.length_replicate
  have hwhole := (h [(longPath 0 (by decide), noDefault), (longPath 256 (by decide), noDefault)]).whole
    (longPath 256 (by decide)) (List.mem_cons_of_mem _ (List.mem_singleton.mpr rfl))
  have hshort := (idText_iff _).mp hwhole.text
  rw [hlen] at hshort
  exact absurd hshort (by decide)

/-- Two paths of two hops share a CRC-32, another one has the CRC-32 0. -/
example : crc32 (pathText [9112, 60671] .asSequence) = crc32 (pathText [16804, 63861] .asSequence) ∧
    crc32 (pathText [45001, 15596] .asSequence) = 0 := by decide +kernel

end SrxSuite.Server

import SrxSuite.Crypto.MalformedAttrs
import SrxSuite.Lib.NumberText

/-!
# The BGPsec_PATH attribute in the text of an UPDATE

The model of `util_getBGPsec_PATH` and `_parseBGP_PATHAttr` (`util/bgpsec_util.c`). The loop over the
withdrawn routes makes a turn for every byte of them, and each turn passes a whole prefix. The loop over
the attributes goes on through the NLRI, until nothing of the message is left.

A pointer into the converted message stands for the bytes from it on; a read behind the end gives `none`,
and so does a loop that does not end. Memory is taken to suffice, and the messages are left out.

`getBgpsecPath_iff` says which texts are handled and which messages give their attribute: where there are
withdrawn routes other than default routes, the attributes are looked for in the wrong place.
-/

namespace SrxSuite.Util

open Bytes Crypto NumberText

/-! ## The code -/

abbrev UTIL_PAT_BGPsec : UInt8 := 30

/-- The value of a hexadecimal digit. -/
def hexVal (c : Char) : Nat :=
  if c.isDigit then c.toNat - '0'.toNat
  else if 'a' ≤ c then c.toNat - 'a'.toNat + 10
  else c.toNat - 'A'.toNat + 10

/-- The hexadecimal digits. -/
def hexDigits : List Char :=
  ['0', '1', '2', '3', '4', '5', '6', '7', '8', '9', 'a', 'b', 'c', 'd', 'e', 'f', 'A', 'B', 'C', 'D', 'E', 'F']

/-- `isxdigit` -/
def isHexDigit (c : Char) : Bool := c ∈ hexDigits

/-- The number in the hexadecimal digits at the start of a text. -/
def leadingHex (t : List Char) : Nat :=
  (t.takeWhile isHexDigit).foldl (fun n c => 16 * n + hexVal c) 0

/-- `strtol` with base 16 for the two characters of `num`, as a byte. -/
def hexByte (num : List Char) : UInt8 :=
  let n : Int := match num.dropWhile isSpace with
    | '-' :: t => -(leadingHex t : Int)
    | '+' :: t => leadingHex t
    | t => leadingHex t
  UInt8.ofNat (n % 256).toNat

/-- The loop that fills `byteStream`. For an odd number of characters it writes behind the end. -/
def toByteStream : List Char → Option Bytes
  | [] => some []
  | [_] => none
  | a :: b :: updateStr => (toByteStream updateStr).map (hexByte [a, b] :: ·)

/-- The header of an attribute: its type, and how many bytes it has with the header, cut to 16 bits. -/
def attrHeader (ptr : Bytes) : Option (UInt8 × UInt16) := do
  let flags ← ptr[0]?
  let type ← ptr[1]?
  if flags &&& extLengthFlag ≠ 0 then
    let length ← ptr.be16At 2
    some (type, 4 + length)
  else
    let length ← ptr[2]?
    some (type, 3 + length.toUInt16)

/-- `_parseBGP_PATHAttr` with the value of `parsed`. An allocation of 0 bytes gives a pointer, too. -/
def parseBgpPathAttr (bgpAttr : Bytes) : Option (Option Bytes × UInt16) := do
  let (type, parsed) ← attrHeader bgpAttr
  if type = UTIL_PAT_BGPsec then
    let bgpsec ← bgpAttr.readAt 0 parsed.toNat
    some (some bgpsec, parsed)
  else some (none, parsed)

/-- The loop over the withdrawn routes: where `ptr` points to behind it, and the remainder. -/
def skipWithdrawn : (lenWithdrawnRoutes : Nat) → (ptr : Bytes) → (remainder : UInt16) →
    Option (Bytes × UInt16)
  | 0, ptr, remainder => some (ptr, remainder)
  | _ + 1, [], _ => none
  | lenWithdrawnRoutes + 1, byte :: ptr, remainder =>
    let length : UInt8 := if byte ≠ 0 then byte / 8 + 1 else 0
    skipWithdrawn lenWithdrawnRoutes (ptr.drop length.toNat) (remainder - 1 - length.toUInt16)

theorem ne_nil_of_parse {ptr : Bytes} {r : Option Bytes × UInt16}
    (h : parseBgpPathAttr ptr = some r) : ptr ≠ [] := by
  rintro rfl
  cases h

/-- The loop over the attributes, with the value of `buffLen`. -/
def attrLoop (ptr : Bytes) (remainder : UInt16) (buffLen : UInt32) : Option (Option Bytes × UInt32) :=
  if remainder = 0 then some (none, buffLen)
  else
    match _h : parseBgpPathAttr ptr with
    | none => none
    | some (some bgpsec, attrLen) => some (some bgpsec, attrLen.toUInt32)
    | some (none, attrLen) =>
      -- an attribute of no bytes is read again and again
      if _hzero : attrLen = 0 then none
      else attrLoop (ptr.drop attrLen.toNat) (remainder - attrLen) attrLen.toUInt32
termination_by ptr.length
decreasing_by
  have hpos : attrLen.toNat ≠ 0 := fun h0 => _hzero (UInt16.toNat_inj.mp h0)
  have hlen := List.length_pos_iff.mpr (ne_nil_of_parse _h)
  rw [List.length_drop]
  omega

/-- `util_getBGPsec_PATH` for the converted message. -/
def findBgpsecPath (byteStream : Bytes) : Option (Option Bytes × UInt32) := do
  let updLen ← byteStream.be16At 16
  let remainder := updLen - 16 - 2
  let type ← byteStream[18]?
  if type = 2 then
    let lenWithdrawnRoutes ← byteStream.be16At 19
    let (ptr, remainder) ←
      skipWithdrawn lenWithdrawnRoutes.toNat (byteStream.drop 21) (remainder - 1 - 2)
    let totalPathAttrLen ← ptr.be16At 0
    let remainder := remainder - 2
    if totalPathAttrLen ≤ remainder then attrLoop (ptr.drop 2) remainder 0 else some (none, 0)
  else some (none, 0)

/-- `util_getBGPsec_PATH`: the attribute, and the value of `buffLen`. The size of the memory is an
`int`. -/
def getBgpsecPath (updateStr : List Char) : Option (Option Bytes × UInt32) := do
  if updateStr.length / 2 < 2 ^ 31 then
    let byteStream ← toByteStream updateStr
    findBgpsecPath byteStream
  else none

/-! ## Messages -/

/-- A text of hexadecimal digits, two for each byte. -/
inductive HexText : List Char → Bytes → Prop
  | nil : HexText [] []
  | cons {a b : Char} {str : List Char} {m : Bytes} : isHexDigit a = true → isHexDigit b = true →
      HexText str m → HexText (a :: b :: str) (UInt8.ofNat (16 * hexVal a + hexVal b) :: m)

/-- A prefix as it stands in an UPDATE. -/
structure WirePrefix where
  length : UInt8
  bits : Bytes
  valid : length.toNat ≤ 32 ∧ bits.length = (length.toNat + 7) / 8

def WirePrefix.encode (p : WirePrefix) : Bytes := p.length :: p.bits

/-- A well-formed UPDATE. -/
structure UpdateMessage where
  withdrawn : List WirePrefix
  attrs : List RawAttr
  nlri : List WirePrefix
  fits : 23 + (withdrawn.flatMap WirePrefix.encode).length + (attrs.flatMap RawAttr.encode).length +
    (nlri.flatMap WirePrefix.encode).length < 2 ^ 16

namespace UpdateMessage

variable (msg : UpdateMessage)

def withdrawnBytes : Bytes := msg.withdrawn.flatMap WirePrefix.encode

def attrBytes : Bytes := msg.attrs.flatMap RawAttr.encode

def nlriBytes : Bytes := msg.nlri.flatMap WirePrefix.encode

def length : Nat :=
  23 + msg.withdrawnBytes.length + msg.attrBytes.length + msg.nlriBytes.length

/-- The bytes of the message: marker, length, type and the three parts. -/
def encode : Bytes :=
  List.replicate 16 0xff ++ be16 (UInt16.ofNat msg.length) ++ [2] ++
    be16 (UInt16.ofNat msg.withdrawnBytes.length) ++ (msg.withdrawnBytes ++
      (be16 (UInt16.ofNat msg.attrBytes.length) ++ (msg.attrBytes ++ msg.nlriBytes)))

/-- The BGPsec_PATH attribute, if there is one. -/
def bgpsecPath : Option Bytes :=
  (msg.attrs.find? fun attr => attr.typeCode = UTIL_PAT_BGPsec).map RawAttr.encode

end UpdateMessage

/-- The text of the message gives the attribute and its length, or nothing where there is none. -/
def Extracts (msg : UpdateMessage) (str : List Char) : Prop :=
  ∃ buffLen, getBgpsecPath str = some (msg.bgpsecPath, buffLen) ∧
    ∀ attr ∈ msg.bgpsecPath, buffLen.toNat = attr.length

/-! ## The condition -/

/-- The bytes read as attributes, as long as there is a remainder. Every header is there and its attribute
has a byte; the walk ends at an attribute of the type, which is there as a whole, or with the
remainder. -/
inductive AttrWalk : Bytes → (remainder : UInt16) → Option Bytes → Prop
  | missing {rest : Bytes} : AttrWalk rest 0 none
  | found {rest : Bytes} {remainder parsed : UInt16} : remainder ≠ 0 →
      attrHeader rest = some (UTIL_PAT_BGPsec, parsed) → parsed.toNat ≤ rest.length →
      AttrWalk rest remainder (some (rest.take parsed.toNat))
  | next {rest : Bytes} {remainder parsed : UInt16} {type : UInt8} {out : Option Bytes} :
      remainder ≠ 0 → attrHeader rest = some (type, parsed) → type ≠ UTIL_PAT_BGPsec → parsed ≠ 0 →
      AttrWalk (rest.drop parsed.toNat) (remainder - parsed) out → AttrWalk rest remainder out

/-- The bytes read as an UPDATE: another type, a length of the attributes behind the withdrawn routes that
is too large, or a walk through the attributes. -/
inductive UpdateWalk (m : Bytes) : Option Bytes → Prop
  | noUpdate {updLen : UInt16} {type : UInt8} : m.be16At 16 = some updLen → m[18]? = some type →
      type ≠ 2 → UpdateWalk m none
  | malformed {updLen lenWithdrawn total remainder : UInt16} {rest : Bytes} :
      m.be16At 16 = some updLen → m[18]? = some 2 → m.be16At 19 = some lenWithdrawn →
      skipWithdrawn lenWithdrawn.toNat (m.drop 21) (updLen - 16 - 2 - 1 - 2) = some (rest, remainder) →
      rest.be16At 0 = some total → ¬ total ≤ remainder - 2 → UpdateWalk m none
  | attrs {updLen lenWithdrawn total remainder : UInt16} {rest : Bytes} {out : Option Bytes} :
      m.be16At 16 = some updLen → m[18]? = some 2 → m.be16At 19 = some lenWithdrawn →
      skipWithdrawn lenWithdrawn.toNat (m.drop 21) (updLen - 16 - 2 - 1 - 2) = some (rest, remainder) →
      rest.be16At 0 = some total → total ≤ remainder - 2 → AttrWalk (rest.drop 2) (remainder - 2) out →
      UpdateWalk m out

/-- Only default routes are withdrawn, or none at all. -/
def WithdrawsDefaults (msg : UpdateMessage) : Prop := ∀ p ∈ msg.withdrawn, p.length = 0

/-- A withdrawn route as the loop passes it: with a byte more than its prefix has, where the length is a
multiple of 8 other than 0. -/
structure PassedRoute where
  length : UInt8
  bits : Bytes
  passed : bits.length = (if length ≠ 0 then length / 8 + 1 else 0).toNat

def PassedRoute.encode (route : PassedRoute) : Bytes := route.length :: route.bits

/-- The loop passes as many routes as there are bytes of withdrawn routes. It takes `skipped`, the first
bytes of the attributes and the NLRI, for the last of them and for the length of the attributes. What is
left of the message happens to read as attributes, and the first BGPsec_PATH attribute there has the bytes
of the right one. A message without one may be read to its end, or its length is too large. -/
def ReadBehind (msg : UpdateMessage) : Prop :=
  ∃ (routes : List PassedRoute) (total : UInt16) (skipped rest : Bytes),
    routes.length = msg.withdrawnBytes.length ∧ skipped ≠ [] ∧
    msg.attrBytes ++ msg.nlriBytes = skipped ++ rest ∧
    msg.withdrawnBytes ++ be16 (UInt16.ofNat msg.attrBytes.length) ++ skipped =
      routes.flatMap PassedRoute.encode ++ be16 total ∧
    if total.toNat ≤ rest.length then AttrWalk rest (UInt16.ofNat rest.length) msg.bgpsecPath
    else msg.bgpsecPath = none

/-- Where only default routes are withdrawn, there is a BGPsec_PATH attribute, or the NLRI happens to read
as other attributes. Elsewhere the message is read from behind the start of the attributes. -/
def ComesToPath (msg : UpdateMessage) : Prop :=
  (WithdrawsDefaults msg → (∃ attr ∈ msg.attrs, attr.typeCode = UTIL_PAT_BGPsec) ∨
    AttrWalk msg.nlriBytes (UInt16.ofNat msg.nlriBytes.length) none) ∧
  (¬ WithdrawsDefaults msg → ReadBehind msg)

namespace UpdateTextLemmas

variable {m rest tail : Bytes} {remainder : UInt16} {buffLen : UInt32} {out : Option Bytes}
  {msg : UpdateMessage} {str : List Char}

/-! ## The text -/

theorem hexDigit_start {a : Char} (h : isHexDigit a = true) : isSpace a = false ∧ a ≠ '-' ∧ a ≠ '+' := by
  have hall : hexDigits.all (fun a => !isSpace a && (a != '-' && a != '+')) = true := by decide
  simpa using List.all_eq_true.mp hall a (of_decide_eq_true h)

theorem leadingHex_digits {a b : Char} (ha : isHexDigit a = true) (hb : isHexDigit b = true) :
    leadingHex [a, b] = 16 * hexVal a + hexVal b := by
  unfold leadingHex
  rw [List.takeWhile_cons_of_pos ha, List.takeWhile_cons_of_pos hb, List.takeWhile_nil]
  simp only [List.foldl_cons, List.foldl_nil, Nat.mul_zero, Nat.zero_add]

theorem hexByte_digits {a b : Char} (ha : isHexDigit a = true) (hb : isHexDigit b = true) :
    hexByte [a, b] = UInt8.ofNat (16 * hexVal a + hexVal b) := by
  obtain ⟨hspace, hminus, hplus⟩ := hexDigit_start ha
  have hdrop : [a, b].dropWhile isSpace = [a, b] := List.dropWhile_cons_of_neg (by simp [hspace])
  have hbyte : hexByte [a, b] = UInt8.ofNat ((leadingHex [a, b] : Int) % 256).toNat := by
    unfold hexByte
    rw [hdrop]
    split
    · next heq => exact absurd (List.cons.inj heq).1 hminus
    · next heq => exact absurd (List.cons.inj heq).1 hplus
    · rfl
  rw [hbyte, leadingHex_digits ha hb]
  exact UInt8.toNat_inj.mp (Nat.mod_mod _ _)

theorem toByteStream_of_hexText (h : HexText str m) : toByteStream str = some m := by
  induction h with
  | nil => rfl
  | @cons a b str m ha hb _ ih =>
    unfold toByteStream
    rw [ih, Option.map_some, hexByte_digits ha hb]

theorem length_of_hexText (h : HexText str m) : str.length / 2 = m.length := by
  induction h with
  | nil => rfl
  | @cons a b str m _ _ _ ih =>
    rw [List.length_cons, List.length_cons, List.length_cons]
    omega

theorem getBgpsecPath_of_hexText (h : HexText str m) :
    getBgpsecPath str = if m.length < 2 ^ 31 then findBgpsecPath m else none := by
  unfold getBgpsecPath
  rw [length_of_hexText h, toByteStream_of_hexText h]
  rfl

/-! ## The walks -/

theorem parse_path {parsed : UInt16} (h : attrHeader rest = some (UTIL_PAT_BGPsec, parsed)) :
    parseBgpPathAttr rest =
      if parsed.toNat ≤ rest.length then some (some (rest.take parsed.toNat), parsed) else none := by
  unfold parseBgpPathAttr readAt
  rw [h]
  dsimp only [Option.bind_eq_bind, Option.bind_some]
  rw [if_pos rfl, Nat.zero_add]
  split
  · rfl
  · rfl

theorem parse_other {type : UInt8} {parsed : UInt16} (h : attrHeader rest = some (type, parsed))
    (htype : type ≠ UTIL_PAT_BGPsec) : parseBgpPathAttr rest = some (none, parsed) := by
  unfold parseBgpPathAttr
  rw [h]
  dsimp only [Option.bind_eq_bind, Option.bind_some]
  exact if_neg htype

theorem parse_none (h : attrHeader rest = none) : parseBgpPathAttr rest = none := by
  unfold parseBgpPathAttr
  rw [h]
  rfl

/-- One turn of the loop. -/
theorem attrLoop_turn (hrem : remainder ≠ 0) (buffLen : UInt32) :
    attrLoop rest remainder buffLen =
      match parseBgpPathAttr rest with
      | none => none
      | some (some bgpsec, attrLen) => some (some bgpsec, attrLen.toUInt32)
      | some (none, attrLen) =>
        if attrLen = 0 then none
        else attrLoop (rest.drop attrLen.toNat) (remainder - attrLen) attrLen.toUInt32 := by
  rw [attrLoop, if_neg hrem]
  split
  · next h => rw [h]
  · next h => rw [h]
  · next h =>
    rw [h]
    rfl

theorem attrLoop_of_walk (h : AttrWalk rest remainder out) (buffLen : UInt32) :
    ∃ buffLen', attrLoop rest remainder buffLen = some (out, buffLen') ∧
      ∀ attr ∈ out, buffLen'.toNat = attr.length := by
  induction h generalizing buffLen with
  | missing => exact ⟨buffLen, by rw [attrLoop, if_pos rfl], fun _ h => nomatch h⟩
  | @found rest remainder parsed hrem hheader hle =>
    refine ⟨parsed.toUInt32, ?_, fun attr hattr => ?_⟩
    · rw [attrLoop_turn hrem, parse_path hheader, if_pos hle]
    · obtain rfl := Option.mem_some_iff.mp hattr
      rw [List.length_take_of_le hle, UInt16.toNat_toUInt32]
  | @next rest remainder parsed type out hrem hheader htype hpos _ ih =>
    obtain ⟨buffLen', hloop, hlen⟩ := ih parsed.toUInt32
    refine ⟨buffLen', ?_, hlen⟩
    rw [attrLoop_turn hrem, parse_other hheader htype]
    dsimp only
    rw [if_neg hpos, hloop]

theorem walk_of_attrLoop {buffLen' : UInt32} (h : attrLoop rest remainder buffLen = some (out, buffLen')) :
    AttrWalk rest remainder out := by
  induction hn : rest.length using Nat.strongRecOn generalizing rest remainder buffLen with
  | ind n ih =>
    rcases eq_or_ne remainder 0 with rfl | hrem
    · rw [attrLoop, if_pos rfl] at h
      obtain ⟨rfl, -⟩ := Prod.mk.inj (Option.some.inj h)
      exact .missing
    · rw [attrLoop_turn hrem] at h
      cases hheader : attrHeader rest with
      | none =>
        rw [parse_none hheader] at h
        cases h
      | some header =>
        obtain ⟨type, parsed⟩ := header
        rcases eq_or_ne type UTIL_PAT_BGPsec with rfl | htype
        · rw [parse_path hheader] at h
          rcases Decidable.em (parsed.toNat ≤ rest.length) with hle | hgt
          · rw [if_pos hle] at h
            obtain ⟨rfl, -⟩ := Prod.mk.inj (Option.some.inj h)
            exact .found hrem hheader hle
          · rw [if_neg hgt] at h
            cases h
        · rw [parse_other hheader htype] at h
          dsimp only at h
          split at h
          · cases h
          · next hpos =>
            have hne := ne_nil_of_parse (parse_other hheader htype)
            have hsmall : (rest.drop parsed.toNat).length < n := by
              have hparsed : parsed.toNat ≠ 0 := fun h0 => hpos (UInt16.toNat_inj.mp h0)
              have hlen := List.length_pos_iff.mpr hne
              rw [List.length_drop]
              omega
            exact .next hrem hheader htype hpos (ih _ hsmall h rfl)

/-- A walk that is at an attribute of the type. -/
theorem walk_path {parsed : UInt16} (h : AttrWalk rest remainder out) (hrem : remainder ≠ 0)
    (hheader : attrHeader rest = some (UTIL_PAT_BGPsec, parsed)) :
    out = some (rest.take parsed.toNat) := by
  cases h with
  | missing => exact absurd rfl hrem
  | found _ hheader' _ =>
    rw [hheader] at hheader'
    obtain ⟨-, rfl⟩ := Prod.mk.inj (Option.some.inj hheader')
    rfl
  | next _ hheader' htype _ _ =>
    rw [hheader] at hheader'
    obtain ⟨rfl, -⟩ := Prod.mk.inj (Option.some.inj hheader')
    exact absurd rfl htype

/-- A walk that is at another attribute. -/
theorem walk_other {type : UInt8} {parsed : UInt16} (h : AttrWalk rest remainder out)
    (hrem : remainder ≠ 0) (hheader : attrHeader rest = some (type, parsed))
    (htype : type ≠ UTIL_PAT_BGPsec) : AttrWalk (rest.drop parsed.toNat) (remainder - parsed) out := by
  cases h with
  | missing => exact absurd rfl hrem
  | found _ hheader' _ =>
    rw [hheader] at hheader'
    obtain ⟨rfl, -⟩ := Prod.mk.inj (Option.some.inj hheader')
    exact absurd rfl htype
  | next _ hheader' _ _ hwalk =>
    rw [hheader] at hheader'
    obtain ⟨-, rfl⟩ := Prod.mk.inj (Option.some.inj hheader')
    exact hwalk

theorem findBgpsecPath_of_walk (h : UpdateWalk m out) :
    ∃ buffLen, findBgpsecPath m = some (out, buffLen) ∧ ∀ attr ∈ out, buffLen.toNat = attr.length := by
  unfold findBgpsecPath
  cases h with
  | noUpdate hlen htype hne =>
    refine ⟨0, ?_, fun _ h => nomatch h⟩
    rw [hlen, htype]
    exact if_neg hne
  | malformed hlen htype hwithdrawn hskip htotal hgt =>
    refine ⟨0, ?_, fun _ h => nomatch h⟩
    rw [hlen, htype, hwithdrawn]
    dsimp only [Option.bind_eq_bind, Option.bind_some]
    rw [if_pos rfl, hskip, Option.bind_some, htotal, Option.bind_some, if_neg hgt]
  | attrs hlen htype hwithdrawn hskip htotal hle hwalk =>
    obtain ⟨buffLen, hloop, hbytes⟩ := attrLoop_of_walk hwalk 0
    refine ⟨buffLen, ?_, hbytes⟩
    rw [hlen, htype, hwithdrawn]
    dsimp only [Option.bind_eq_bind, Option.bind_some]
    rw [if_pos rfl, hskip, Option.bind_some, htotal, Option.bind_some, if_pos hle, hloop]

theorem walk_of_findBgpsecPath (h : findBgpsecPath m = some (out, buffLen)) : UpdateWalk m out := by
  unfold findBgpsecPath at h
  dsimp only [Option.bind_eq_bind] at h
  obtain ⟨updLen, hlen, h⟩ := Option.bind_eq_some_iff.mp h
  obtain ⟨type, htype, h⟩ := Option.bind_eq_some_iff.mp h
  rcases eq_or_ne type 2 with rfl | hne
  · rw [if_pos rfl] at h
    obtain ⟨lenWithdrawn, hwithdrawn, h⟩ := Option.bind_eq_some_iff.mp h
    obtain ⟨⟨ptr, remainder⟩, hskip, h⟩ := Option.bind_eq_some_iff.mp h
    obtain ⟨total, htotal, h⟩ := Option.bind_eq_some_iff.mp h
    split at h
    · next hle => exact .attrs hlen htype hwithdrawn hskip htotal hle (walk_of_attrLoop h)
    · next hgt =>
      obtain ⟨rfl, -⟩ := Prod.mk.inj (Option.some.inj h)
      exact .malformed hlen htype hwithdrawn hskip htotal hgt
  · rw [if_neg hne] at h
    obtain ⟨rfl, -⟩ := Prod.mk.inj (Option.some.inj h)
    exact .noUpdate hlen htype hne

/-! ## Well-formed messages -/

variable {attr : RawAttr}

theorem length_encode (attr : RawAttr) : attr.encode.length =
    (if attr.flags &&& extLengthFlag = 0 then 3 else 4) + attr.value.length := by
  unfold RawAttr.encode
  split
  · rw [List.length_append, List.length_append]
    rfl
  · rw [List.length_append, List.length_append]
    rfl

theorem attrHeader_encode (attr : RawAttr) (tail : Bytes) :
    attrHeader (attr.encode ++ tail) = some (attr.typeCode, UInt16.ofNat attr.encode.length) := by
  have hfits := attr.fits
  rw [length_encode]
  unfold attrHeader RawAttr.encode
  rcases eq_or_ne (attr.flags &&& extLengthFlag) 0 with hshort | hext
  · rw [if_pos hshort] at hfits ⊢
    rw [if_pos hshort]
    show (if _ then _ else some (attr.typeCode, 3 + (UInt8.ofNat attr.value.length).toUInt16)) = _
    rw [if_neg (not_not_intro hshort), UInt16.ofNat_add]
    refine congrArg (fun n => some (attr.typeCode, 3 + n)) (UInt16.toNat_inj.mp ?_)
    rw [UInt8.toNat_toUInt16, UInt8.toNat_ofNat_of_lt' hfits,
      UInt16.toNat_ofNat_of_lt' (Nat.lt_trans hfits (by decide))]
  · rw [if_neg hext, if_neg hext]
    have hread : be16At ([attr.flags, attr.typeCode] ++ be16 (UInt16.ofNat attr.value.length) ++
        attr.value ++ tail) 2 = some (UInt16.ofNat attr.value.length) :=
      HoldsAt.be16At_eq ⟨[attr.flags, attr.typeCode], attr.value ++ tail, by
        rw [List.append_assoc], rfl⟩
    show (if _ then (be16At _ 2).bind fun length => some (attr.typeCode, 4 + length) else _) = _
    rw [if_pos hext, hread, Option.bind_some, UInt16.ofNat_add]
    rfl

theorem ofNat_sub_length (a b : Bytes) :
    UInt16.ofNat (a ++ b).length - UInt16.ofNat a.length = UInt16.ofNat b.length := by
  rw [List.length_append, UInt16.ofNat_add, UInt16.add_comm, UInt16.add_sub_cancel]

theorem ofNat_ne_zero {n : Nat} (hpos : 0 < n) (hlt : n < 2 ^ 16) : UInt16.ofNat n ≠ 0 := by
  intro hzero
  have hnat := congrArg UInt16.toNat hzero
  rw [UInt16.toNat_ofNat_of_lt' hlt] at hnat
  exact Nat.ne_of_gt hpos hnat

/-- The walk through the attributes of a message ends at the one it looks for, or goes on behind
them. -/
theorem attrWalk_attrs {attrs : List RawAttr}
    (hfits : (attrs.flatMap RawAttr.encode ++ tail).length < 2 ^ 16) :
    AttrWalk (attrs.flatMap RawAttr.encode ++ tail)
        (UInt16.ofNat (attrs.flatMap RawAttr.encode ++ tail).length) out ↔
      match attrs.find? fun attr => attr.typeCode = UTIL_PAT_BGPsec with
      | some attr => out = some attr.encode
      | none => AttrWalk tail (UInt16.ofNat tail.length) out := by
  induction attrs with
  | nil => exact Iff.rfl
  | cons attr attrs ih =>
    rw [List.flatMap_cons, List.append_assoc] at hfits ⊢
    have hlen : attr.encode.length < 2 ^ 16 := by
      rw [List.length_append] at hfits
      exact Nat.lt_of_le_of_lt (Nat.le_add_right _ _) hfits
    have hheader := attrHeader_encode attr (attrs.flatMap RawAttr.encode ++ tail)
    have hpos : 0 < attr.encode.length := by
      rw [length_encode]
      split
      · exact Nat.add_pos_left (by decide) _
      · exact Nat.add_pos_left (by decide) _
    have hparsed : (UInt16.ofNat attr.encode.length).toNat = attr.encode.length :=
      UInt16.toNat_ofNat_of_lt' hlen
    have hrem := ofNat_ne_zero (Nat.lt_of_lt_of_le hpos
      (by rw [List.length_append]; exact Nat.le_add_right _ _)) hfits
    rcases eq_or_ne attr.typeCode UTIL_PAT_BGPsec with hpath | hother
    · rw [List.find?_cons, decide_eq_true hpath]
      rw [hpath] at hheader
      constructor
      · intro hwalk
        rw [walk_path hwalk hrem hheader, hparsed, List.take_left]
      · rintro rfl
        have hfound := AttrWalk.found hrem hheader (by
          rw [hparsed, List.length_append]
          exact Nat.le_add_right _ _)
        rwa [hparsed, List.take_left] at hfound
    · have hrest : (attrs.flatMap RawAttr.encode ++ tail).length < 2 ^ 16 := by
        rw [List.length_append] at hfits
        exact Nat.lt_of_le_of_lt (Nat.le_add_left _ _) hfits
      rw [List.find?_cons, decide_eq_false hother]
      refine Iff.trans ?_ (ih hrest)
      constructor
      · intro hwalk
        have hnext := walk_other hwalk hrem hheader hother
        rwa [hparsed, List.drop_left, ofNat_sub_length] at hnext
      · intro hwalk
        refine .next hrem hheader hother (ofNat_ne_zero hpos hlen) ?_
        rwa [hparsed, List.drop_left, ofNat_sub_length]

/-- A turn for every route, where the loop passes them. -/
theorem skipWithdrawn_routes (routes : List PassedRoute) (rest : Bytes) (remainder : UInt16) :
    skipWithdrawn routes.length (routes.flatMap PassedRoute.encode ++ rest) remainder =
      some (rest, remainder - UInt16.ofNat (routes.flatMap PassedRoute.encode).length) := by
  induction routes generalizing remainder with
  | nil => exact congrArg (fun r => some (rest, r)) (UInt16.sub_zero remainder).symm
  | cons route routes ih =>
    rw [List.flatMap_cons, List.append_assoc, List.length_append, UInt16.ofNat_add]
    show skipWithdrawn routes.length ((route.bits ++ _).drop (UInt8.toNat _)) (remainder - 1 - _) =
      some (rest, remainder - (UInt16.ofNat (route.bits.length + 1) + _))
    rw [← route.passed, List.drop_left, ih, ← UInt16.ofNat_uInt8ToNat, ← route.passed, UInt16.ofNat_add]
    refine congrArg (fun r => some (rest, r)) ?_
    have hone : UInt16.ofNat 1 = 1 := rfl
    rw [hone]
    grind

/-- As long as something is left, the loop has passed routes. -/
theorem routes_of_skipWithdrawn {n : Nat} {ptr rest : Bytes} {remainder remainder' : UInt16}
    (h : skipWithdrawn n ptr remainder = some (rest, remainder')) (hrest : rest ≠ []) :
    ∃ routes : List PassedRoute, routes.length = n ∧ ptr = routes.flatMap PassedRoute.encode ++ rest := by
  induction n generalizing ptr remainder with
  | zero =>
    obtain ⟨rfl, -⟩ := Prod.mk.inj (Option.some.inj h)
    exact ⟨[], rfl, rfl⟩
  | succ n ih =>
    cases ptr with
    | nil => cases h
    | cons byte ptr =>
      obtain ⟨routes, hlen, hdrop⟩ := ih h
      have hle : (if byte ≠ 0 then byte / 8 + 1 else 0).toNat ≤ ptr.length := by
        refine Nat.le_of_not_lt fun hgt => hrest ?_
        rw [List.drop_eq_nil_of_le (Nat.le_of_lt hgt)] at hdrop
        exact (List.append_eq_nil_iff.mp hdrop.symm).2
      exact ⟨⟨byte, ptr.take _, List.length_take_of_le hle⟩ :: routes, congrArg Nat.succ hlen, by
        rw [List.flatMap_cons, List.append_assoc, ← hdrop]
        exact congrArg (byte :: ·) (List.take_append_drop _ ptr).symm⟩

theorem length_routes_le (routes : List PassedRoute) :
    routes.length ≤ (routes.flatMap PassedRoute.encode).length := by
  induction routes with
  | nil => exact Nat.le_refl 0
  | cons route routes ih =>
    rw [List.flatMap_cons, List.length_append]
    show routes.length + 1 ≤ route.bits.length + 1 + _
    omega

/-- Only default routes are passed byte by byte. -/
theorem zeros_of_routes {routes : List PassedRoute}
    (h : (routes.flatMap PassedRoute.encode).length ≤ routes.length) :
    ∀ byte ∈ routes.flatMap PassedRoute.encode, byte = 0 := by
  induction routes with
  | nil => exact List.forall_mem_nil _
  | cons route routes ih =>
    rw [List.flatMap_cons, List.length_append] at h
    have hlen : route.bits.length + 1 + (routes.flatMap PassedRoute.encode).length ≤ routes.length + 1 := h
    have hle := length_routes_le routes
    have hbits : route.bits = [] := List.length_eq_zero_iff.mp (by omega)
    have hzero : route.length = 0 := by
      refine Classical.byContradiction fun hne => ?_
      have hpassed := route.passed
      have hlt := route.length.toNat_lt
      rw [if_pos hne, hbits, UInt8.toNat_add, UInt8.toNat_div] at hpassed
      have hone : (1 : UInt8).toNat = 1 := rfl
      have height : (8 : UInt8).toNat = 8 := rfl
      rw [hone, height] at hpassed
      simp only [List.length_nil] at hpassed
      omega
    rw [List.flatMap_cons, List.forall_mem_append]
    refine ⟨?_, ih (by omega)⟩
    unfold PassedRoute.encode
    rw [hbits, List.forall_mem_singleton]
    exact hzero

theorem withdrawn_defaults (h : WithdrawsDefaults msg) :
    ∃ routes : List PassedRoute, routes.length = msg.withdrawnBytes.length ∧
      msg.withdrawnBytes = routes.flatMap PassedRoute.encode := by
  have hzeros : msg.withdrawnBytes = List.replicate msg.withdrawnBytes.length 0 := by
    refine List.eq_replicate_of_mem fun byte hbyte => ?_
    obtain ⟨p, hp, hbyte⟩ := List.mem_flatMap.mp hbyte
    have hlen := h p hp
    have hbits := p.valid.2
    rw [hlen] at hbits
    unfold WirePrefix.encode at hbyte
    rw [hlen, List.length_eq_zero_iff.mp hbits] at hbyte
    exact List.mem_singleton.mp hbyte
  refine ⟨List.replicate msg.withdrawnBytes.length ⟨0, [], rfl⟩, List.length_replicate, ?_⟩
  rw [List.flatMap_replicate]
  exact hzeros.trans List.flatten_replicate_singleton.symm

/-- What the code does behind the withdrawn routes. -/
def attrsFrom (ptr : Bytes) (remainder : UInt16) : Option (Option Bytes × UInt32) :=
  (ptr.be16At 0).bind fun total =>
    if total ≤ remainder - 2 then attrLoop (ptr.drop 2) (remainder - 2) 0 else some (none, 0)

/-- The message behind the length of the withdrawn routes. -/
def routesOn (msg : UpdateMessage) : Bytes :=
  msg.withdrawnBytes ++ (be16 (UInt16.ofNat msg.attrBytes.length) ++ (msg.attrBytes ++ msg.nlriBytes))

theorem length_routesOn (msg : UpdateMessage) : msg.length = 21 + (routesOn msg).length := by
  unfold routesOn
  simp only [UpdateMessage.length, List.length_append, length_be16]
  omega

theorem findBgpsecPath_message (msg : UpdateMessage) :
    findBgpsecPath msg.encode =
      (skipWithdrawn msg.withdrawnBytes.length (routesOn msg) (UInt16.ofNat (routesOn msg).length)).bind
        fun passed => attrsFrom passed.1 passed.2 := by
  have hfits : msg.length < 2 ^ 16 := msg.fits
  have hlen : be16At msg.encode 16 = some (UInt16.ofNat msg.length) :=
    HoldsAt.be16At_eq ⟨List.replicate 16 0xff, _, (by
      unfold UpdateMessage.encode
      rw [List.append_assoc _ [2], List.append_assoc _ _ (_ ++ _)]), rfl⟩
  have hwithdrawn : be16At msg.encode 19 = some (UInt16.ofNat msg.withdrawnBytes.length) :=
    HoldsAt.be16At_eq ⟨List.replicate 16 0xff ++ be16 (UInt16.ofNat msg.length) ++ [2], _, rfl, rfl⟩
  have htype : msg.encode[18]? = some 2 := rfl
  have hdrop : msg.encode.drop 21 = routesOn msg := rfl
  have hremainder : UInt16.ofNat msg.length - 16 - 2 - 1 - 2 = UInt16.ofNat (routesOn msg).length := by
    rw [length_routesOn, UInt16.ofNat_add]
    have h21 : UInt16.ofNat 21 = 21 := rfl
    rw [h21]
    grind
  have hroutes : msg.withdrawnBytes.length < 2 ^ 16 := by
    unfold UpdateMessage.length at hfits
    omega
  unfold findBgpsecPath
  rw [hlen, htype, hwithdrawn, hdrop]
  dsimp only [Option.bind_eq_bind, Option.bind_some]
  rw [if_pos rfl, UInt16.toNat_ofNat_of_lt' hroutes, hremainder]
  rfl

/-- The routes that the loop passes, and what stands behind them. -/
theorem findBgpsecPath_routes {routes : List PassedRoute} {total : UInt16}
    (hlen : routes.length = msg.withdrawnBytes.length)
    (hroutes : routesOn msg = routes.flatMap PassedRoute.encode ++ (be16 total ++ rest)) :
    findBgpsecPath msg.encode =
      if total.toNat ≤ rest.length then attrLoop rest (UInt16.ofNat rest.length) 0 else some (none, 0) := by
  have hrest : rest.length < 2 ^ 16 := by
    have hfits : msg.length < 2 ^ 16 := msg.fits
    rw [length_routesOn, hroutes] at hfits
    simp only [List.length_append] at hfits
    omega
  have htotal : be16At (be16 total ++ rest) 0 = some total := HoldsAt.be16At_eq ⟨[], rest, rfl, rfl⟩
  have hremainder : UInt16.ofNat (be16 total ++ rest).length - 2 = UInt16.ofNat rest.length :=
    ofNat_sub_length (be16 total) rest
  rw [findBgpsecPath_message, hroutes, ← hlen, skipWithdrawn_routes, ofNat_sub_length]
  show attrsFrom (be16 total ++ rest) _ = _
  unfold attrsFrom
  rw [htotal, Option.bind_some, hremainder]
  refine if_congr ?_ rfl rfl
  rw [UInt16.le_iff_toNat_le, UInt16.toNat_ofNat_of_lt' hrest]

theorem length_attrs_nlri (msg : UpdateMessage) : (msg.attrBytes ++ msg.nlriBytes).length < 2 ^ 16 := by
  have hmsg : msg.length < 2 ^ 16 := msg.fits
  unfold UpdateMessage.length at hmsg
  rw [List.length_append]
  omega

/-- The loop over the attributes starts at the attributes. -/
theorem findBgpsecPath_defaults (h : WithdrawsDefaults msg) :
    findBgpsecPath msg.encode = attrLoop (msg.attrBytes ++ msg.nlriBytes)
      (UInt16.ofNat (msg.attrBytes ++ msg.nlriBytes).length) 0 := by
  obtain ⟨routes, hlen, hroutes⟩ := withdrawn_defaults h
  have hfits := length_attrs_nlri msg
  have hle : (UInt16.ofNat msg.attrBytes.length).toNat ≤ (msg.attrBytes ++ msg.nlriBytes).length := by
    rw [List.length_append] at hfits ⊢
    rw [UInt16.toNat_ofNat_of_lt' (Nat.lt_of_le_of_lt (Nat.le_add_right _ _) hfits)]
    exact Nat.le_add_right _ _
  exact (findBgpsecPath_routes hlen (congrArg (· ++ _) hroutes)).trans (if_pos hle)

/-- A number that is read in front is there. -/
theorem exists_be16_append {n : UInt16} (h : be16At m 0 = some n) : ∃ rest, m = be16 n ++ rest := by
  obtain ⟨hi, lo, rest, rfl⟩ : ∃ hi lo rest, m = hi :: lo :: rest := by
    have hlen : 0 + 2 ≤ m.length := (isSome_be16At m 0).mp (Option.isSome_of_eq_some h)
    match m, hlen with
    | hi :: lo :: rest, _ => exact ⟨hi, lo, rest, rfl⟩
  have hread : be16At (hi :: lo :: rest) 0 = some (ofBytes16 hi lo) :=
    HoldsAt.be16At_eq ⟨[], rest, by rw [be16_ofBytes16]; rfl, rfl⟩
  obtain rfl := Option.some.inj (hread.symm.trans h)
  exact ⟨rest, by rw [be16_ofBytes16]; rfl⟩

/-- Where another route is withdrawn, the length of the attributes is read behind its place. -/
theorem routes_behind (h : ¬ WithdrawsDefaults msg) {routes : List PassedRoute} {total : UInt16}
    (hlen : routes.length = msg.withdrawnBytes.length)
    (hroutes : routesOn msg = routes.flatMap PassedRoute.encode ++ (be16 total ++ rest)) :
    ∃ skipped, skipped ≠ [] ∧ msg.attrBytes ++ msg.nlriBytes = skipped ++ rest ∧
      msg.withdrawnBytes ++ be16 (UInt16.ofNat msg.attrBytes.length) ++ skipped =
        routes.flatMap PassedRoute.encode ++ be16 total := by
  have hlt : msg.withdrawnBytes.length < (routes.flatMap PassedRoute.encode).length := by
    refine Nat.lt_of_not_le fun hle => h fun p hp => ?_
    have hle' : (routes.flatMap PassedRoute.encode).length ≤ routes.length := hlen ▸ hle
    have hsame := List.append_inj_left hroutes
      (hlen.symm.trans (Nat.le_antisymm (length_routes_le routes) hle'))
    exact zeros_of_routes hle' p.length
      (hsame ▸ List.mem_flatMap.mpr ⟨p, hp, List.mem_cons_self⟩)
  rcases List.append_eq_append_iff.mp
    ((List.append_assoc ..).trans (hroutes.trans (List.append_assoc ..).symm)) with ⟨skipped, hskipped, hrest⟩ | ⟨more, hmore, -⟩
  · refine ⟨skipped, ?_, hrest, hskipped.symm⟩
    rintro rfl
    have hlength := congrArg List.length hskipped
    simp only [List.length_append, List.length_nil, length_be16] at hlength
    omega
  · have hlength := congrArg List.length hmore
    simp only [List.length_append, length_be16] at hlength
    omega

theorem updateWalk_defaults (h : WithdrawsDefaults msg) :
    UpdateWalk msg.encode msg.bgpsecPath ↔ (∃ attr ∈ msg.attrs, attr.typeCode = UTIL_PAT_BGPsec) ∨
      AttrWalk msg.nlriBytes (UInt16.ofNat msg.nlriBytes.length) none := by
  have hfits := length_attrs_nlri msg
  have hsame : UpdateWalk msg.encode msg.bgpsecPath ↔ AttrWalk (msg.attrBytes ++ msg.nlriBytes)
      (UInt16.ofNat (msg.attrBytes ++ msg.nlriBytes).length) msg.bgpsecPath := by
    constructor
    · intro hwalk
      obtain ⟨buffLen, hfind, -⟩ := findBgpsecPath_of_walk hwalk
      rw [findBgpsecPath_defaults h] at hfind
      exact walk_of_attrLoop hfind
    · intro hwalk
      obtain ⟨buffLen, hloop, -⟩ := attrLoop_of_walk hwalk 0
      rw [← findBgpsecPath_defaults h] at hloop
      exact walk_of_findBgpsecPath hloop
  refine hsame.trans ((attrWalk_attrs hfits).trans ?_)
  unfold UpdateMessage.bgpsecPath
  cases hfind : msg.attrs.find? fun attr => attr.typeCode = UTIL_PAT_BGPsec with
  | some attr =>
    have htype := List.find?_some hfind
    exact iff_of_true rfl (.inl ⟨attr, List.mem_of_find?_eq_some hfind, of_decide_eq_true htype⟩)
  | none =>
    refine (or_iff_right ?_).symm
    rintro ⟨attr, hattr, htype⟩
    exact List.find?_eq_none.mp hfind attr hattr (decide_eq_true htype)

theorem updateWalk_others (h : ¬ WithdrawsDefaults msg) :
    UpdateWalk msg.encode msg.bgpsecPath ↔ ReadBehind msg := by
  constructor
  · intro hwalk
    obtain ⟨buffLen, hfind, -⟩ := findBgpsecPath_of_walk hwalk
    have hparts := hfind
    rw [findBgpsecPath_message] at hparts
    obtain ⟨⟨ptr, remainder⟩, hskip, hattrs⟩ := Option.bind_eq_some_iff.mp hparts
    obtain ⟨total, htotal, -⟩ := Option.bind_eq_some_iff.mp hattrs
    obtain ⟨rest, rfl⟩ := exists_be16_append htotal
    obtain ⟨routes, hlen, hroutes⟩ := routes_of_skipWithdrawn hskip (List.cons_ne_nil _ _)
    obtain ⟨skipped, hne, hrest, hskipped⟩ := routes_behind h hlen hroutes
    refine ⟨routes, total, skipped, rest, hlen, hne, hrest, hskipped, ?_⟩
    rw [findBgpsecPath_routes hlen hroutes] at hfind
    split at hfind
    · next hle =>
      rw [if_pos hle]
      exact walk_of_attrLoop hfind
    · next hgt =>
      rw [if_neg hgt]
      exact (Prod.mk.inj (Option.some.inj hfind)).1.symm
  · rintro ⟨routes, total, skipped, rest, hlen, -, hrest, hskipped, hread⟩
    have hroutes : routesOn msg = routes.flatMap PassedRoute.encode ++ (be16 total ++ rest) := by
      unfold routesOn
      rw [hrest, ← List.append_assoc _ _ (skipped ++ rest), ← List.append_assoc _ skipped, hskipped,
        List.append_assoc]
    have hfind := findBgpsecPath_routes hlen hroutes
    split at hread
    · next hle =>
      obtain ⟨buffLen, hloop, -⟩ := attrLoop_of_walk hread 0
      rw [if_pos hle, hloop] at hfind
      exact walk_of_findBgpsecPath hfind
    · next hgt =>
      rw [if_neg hgt] at hfind
      exact hread ▸ walk_of_findBgpsecPath hfind

theorem length_message (msg : UpdateMessage) : msg.encode.length = msg.length := by
  unfold UpdateMessage.encode UpdateMessage.length
  simp only [List.length_append, List.length_replicate, length_be16, List.length_singleton]
  omega

theorem extracts_iff (h : HexText str msg.encode) : Extracts msg str ↔ ComesToPath msg := by
  have hlen : msg.encode.length < 2 ^ 31 := by
    rw [length_message]
    exact Nat.lt_trans msg.fits (by decide)
  have hwalk : Extracts msg str ↔ UpdateWalk msg.encode msg.bgpsecPath := by
    unfold Extracts
    rw [getBgpsecPath_of_hexText h, if_pos hlen]
    constructor
    · rintro ⟨buffLen, hfind, -⟩
      exact walk_of_findBgpsecPath hfind
    · exact findBgpsecPath_of_walk
  rw [hwalk]
  unfold ComesToPath
  rcases Classical.em (WithdrawsDefaults msg) with hdefaults | hother
  · rw [updateWalk_defaults hdefaults]
    exact ⟨fun hcomes => ⟨fun _ => hcomes, fun hnot => absurd hdefaults hnot⟩, fun hcomes => hcomes.1 hdefaults⟩
  · rw [updateWalk_others hother]
    exact ⟨fun hread => ⟨fun hyes => absurd hyes hother, fun _ => hread⟩, fun hcomes => hcomes.2 hother⟩

end UpdateTextLemmas

open UpdateTextLemmas

/-- The text of some bytes. -/
def toHexText (m : Bytes) : List Char :=
  m.flatMap fun byte => [Nat.digitChar (byte.toNat / 16), Nat.digitChar (byte.toNat % 16)]

theorem hexText_toHexText (m : Bytes) : HexText (toHexText m) m := by
  have hdigit : ∀ n < 16, isHexDigit (Nat.digitChar n) = true ∧ hexVal (Nat.digitChar n) = n := by
    decide
  induction m with
  | nil => exact .nil
  | cons byte m ih =>
    have hsmall := byte.toNat_lt
    have hhigh := hdigit (byte.toNat / 16) (by omega)
    have hlow := hdigit (byte.toNat % 16) (Nat.mod_lt _ (by decide))
    have hcons := HexText.cons hhigh.1 hlow.1 ih
    rwa [hhigh.2, hlow.2, Nat.div_add_mod, UInt8.ofNat_toNat] at hcons

/-- A text is handled if and only if its bytes can be walked through, and the text of a well-formed
message gives its attribute if and only if the walk comes to it. -/
theorem getBgpsecPath_iff (str : List Char) (m : Bytes) (hstr : HexText str m) :
    ((getBgpsecPath str).isSome ↔ m.length < 2 ^ 31 ∧ ∃ out, UpdateWalk m out) ∧
      ∀ msg : UpdateMessage, msg.encode = m → (Extracts msg str ↔ ComesToPath msg) := by
  refine ⟨?_, fun msg hmsg => extracts_iff (hmsg ▸ hstr)⟩
  rw [getBgpsecPath_of_hexText hstr]
  rcases Nat.lt_or_ge m.length (2 ^ 31) with hlt | hge
  · rw [if_pos hlt, and_iff_right hlt, Option.isSome_iff_exists]
    constructor
    · rintro ⟨⟨out, buffLen⟩, hfind⟩
      exact ⟨out, walk_of_findBgpsecPath hfind⟩
    · rintro ⟨out, hwalk⟩
      obtain ⟨buffLen, hfind, -⟩ := findBgpsecPath_of_walk hwalk
      exact ⟨_, hfind⟩
  · rw [if_neg (Nat.not_lt.mpr hge)]
    exact iff_of_false Bool.false_ne_true fun hboth => Nat.not_lt.mpr hge hboth.1

/-- A BGPsec_PATH attribute of four bytes. -/
def shortPath : RawAttr := ⟨0x80, 30, [0, 2, 0, 0], by decide⟩

/-- 10.0.0.0/8 -/
def wireTen8 : WirePrefix := ⟨8, [10], by decide⟩

/-- An announcement with the attribute. -/
def pathUpdate : UpdateMessage := ⟨[], [shortPath], [wireTen8], by decide⟩

/-- The same with a withdrawn route. -/
def withdrawingUpdate : UpdateMessage := ⟨[wireTen8], [shortPath], [wireTen8], by decide⟩

/-- An announcement without attributes. -/
def plainUpdate : UpdateMessage := ⟨[], [], [wireTen8], by decide⟩

theorem getBgpsecPath_iff_path : Extracts pathUpdate (toHexText pathUpdate.encode) := by
  refine ((getBgpsecPath_iff _ _ (hexText_toHexText _)).2 pathUpdate rfl).mpr ⟨fun _ => ?_, fun hother => ?_⟩
  · exact .inl ⟨shortPath, List.mem_singleton_self _, rfl⟩
  · exact absurd (List.forall_mem_nil _) hother

/-- With a withdrawn route the attribute is not found, without the attribute the walk leaves the message
behind the NLRI, and a text of two characters is too short for the header. -/
theorem getBgpsecPath_wrong :
    ¬ Extracts withdrawingUpdate (toHexText withdrawingUpdate.encode) ∧
      ¬ Extracts plainUpdate (toHexText plainUpdate.encode) ∧
      getBgpsecPath (toHexText plainUpdate.encode) = none ∧ getBgpsecPath "00".toList = none := by
  have hplain : getBgpsecPath (toHexText plainUpdate.encode) = none := by
    have hdefaults : WithdrawsDefaults plainUpdate := List.forall_mem_nil _
    rw [getBgpsecPath_of_hexText (hexText_toHexText _), if_pos (by decide),
      findBgpsecPath_defaults hdefaults]
    exact attrLoop_turn (by decide) 0
  refine ⟨?_, ?_, hplain, rfl⟩
  · rintro ⟨buffLen, hget, -⟩
    rw [getBgpsecPath_of_hexText (hexText_toHexText _), if_pos (by decide)] at hget
    have hnone : (findBgpsecPath withdrawingUpdate.encode).map Prod.fst = some none := by decide
    rw [hget] at hnone
    cases hnone
  · rintro ⟨buffLen, hget, -⟩
    rw [hplain] at hget
    cases hget

end SrxSuite.Util

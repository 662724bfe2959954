import SrxSuite.Lib.NumberText
import SrxSuite.Server.Identity

/-!
# Prefixes as text

The model of `strToIPPrefix` and `ipPrefixToStr` (`util/prefix.c`). The address in front of the slash is
copied into a buffer of 40 characters before anything is checked. The number behind it goes through
`atoi` and is cut to a byte before its range is checked, so that 280 is read as 24.

A string stands for the characters in front of its terminator. `inet_aton`, `inet_pton` and `inet_ntop`
are parameters. `prefixText_iff` says which strings are read right, and which prefixes come back from
their text: an IPv6 address with an IPv4 address in its text does not.
-/

namespace SrxSuite.Util

open Server NumberText

/-! ## The code -/

/-- The functions of the C library on addresses: `inet_aton`, `inet_pton` for IPv6, and `inet_ntop` for
both families. -/
structure Inet where
  inetAton : List Char → Option UInt32
  inetPton6 : List Char → Option (Vector UInt8 16)
  inetNtop4 : UInt32 → List Char
  inetNtop6 : Vector UInt8 16 → List Char

abbrev MAX_IP_V6_STR_LEN : Nat := 40

/-- `GET_MAX_PREFIX_LEN` -/
def maxPrefixLen : IPAddress → Nat
  | .v4 _ => 32
  | .v6 _ => 128

variable (inet : Inet)

/-- `strToIPAddress` -/
def strToIPAddress (str : List Char) : Option IPAddress :=
  if '.' ∈ str then (inet.inetAton str).map .v4 else (inet.inetPton6 str).map .v6

/-- The low byte of the number `atoi` reads. -/
def atoiByte (str : List Char) : UInt8 := UInt8.ofNat (strtol str % 256).toNat

/-- `strToIPPrefix`: the prefix, if it returns true. There is no result when it writes behind
`ipBuf`. -/
def strToIPPrefix (str : List Char) : Option (Option IPPrefix) :=
  match str.dropWhile (· ≠ '/') with
  | [] => some none
  | _ :: spos =>
    let ipBuf := str.takeWhile (· ≠ '/')
    if ipBuf.length < MAX_IP_V6_STR_LEN then
      match strToIPAddress inet ipBuf with
      | none => some none
      | some ip =>
        let length := atoiByte spos
        if length = 0 ∨ length.toNat > maxPrefixLen ip then some none else some (some ⟨ip, length⟩)
    else none

/-- `inet_ntop` -/
def Inet.inetNtop : IPAddress → List Char
  | .v4 u32 => inet.inetNtop4 u32
  | .v6 u8 => inet.inetNtop6 u8

/-- `ipAddressToStr` for a buffer of `size` bytes. -/
def ipAddressToStr (ip : IPAddress) (size : Nat) : Option (List Char) :=
  if (inet.inetNtop ip).length < size then some (inet.inetNtop ip) else none

/-- `plLen`, the number of digits of a prefix length. -/
def plLen (length : UInt8) : Nat := if length < 10 then 1 else if length < 100 then 2 else 3

/-- `ipPrefixToStr` -/
def ipPrefixToStr (p : IPPrefix) (size : Nat) : Option (List Char) := do
  let dest ← ipAddressToStr inet p.ip size
  if dest.length + plLen p.length + 2 > size then none
  else some (dest ++ '/' :: Nat.toDigits 10 p.length.toNat)

/-! ## What it should do -/

/-- The text is accepted as this address. -/
def Accepts (str : List Char) : IPAddress → Prop
  | .v4 u32 => inet.inetAton str = some u32
  | .v6 u8 => inet.inetPton6 str = some u8

/-- The text of a prefix: an address, a slash and a decimal number between 1 and the width of the
address. -/
def IsPrefixText (str : List Char) (p : IPPrefix) : Prop :=
  ∃ addr num, str = addr ++ '/' :: num ∧ '/' ∉ addr ∧ Accepts inet addr p.ip ∧
    IsDecimal num p.length.toNat ∧ 1 ≤ p.length.toNat ∧ p.length.toNat ≤ maxPrefixLen p.ip

/-- `strToIPPrefix` writes inside of its buffer and accepts the string only as the text of a prefix. -/
def ParsesRight (str : List Char) : Prop :=
  ∃ r, strToIPPrefix inet str = some r ∧ ∀ p, r = some p → IsPrefixText inet str p

/-- The prefix comes back from its text, whatever the size of the buffer is, if it is large enough. -/
def RoundTrips (p : IPPrefix) : Prop :=
  ∀ size, (inet.inetNtop p.ip).length + plLen p.length + 2 ≤ size →
    ∃ str, ipPrefixToStr inet p size = some str ∧ strToIPPrefix inet str = some (some p)

/-- The text of an address is read as the address, and has no slash. -/
structure InverseAt (ip : IPAddress) : Prop where
  noSlash : '/' ∉ inet.inetNtop ip
  accepts : Accepts inet (inet.inetNtop ip) ip

/-- The number a text begins with is a `long` whose low byte is between 1 and the width. -/
def MakesLength (num : List Char) (width : Nat) : Prop :=
  (-2 ^ 63 ≤ leadingInt num ∧ leadingInt num < 2 ^ 63) ∧
    1 ≤ leadingInt num % 256 ∧ leadingInt num % 256 ≤ width

namespace PrefixTextLemmas

variable {inet} {addr num str : List Char} {ip : IPAddress}

/-! ## Numbers -/

theorem maxPrefixLen_le (ip : IPAddress) : maxPrefixLen ip ≤ 128 := by
  cases ip with
  | v4 u32 => exact (by decide : 32 ≤ 128)
  | v6 u8 => exact Nat.le_refl 128

theorem toNat_atoiByte (num : List Char) : ((atoiByte num).toNat : Int) = strtol num % 256 := by
  have hlt : strtol num % 256 < 256 := Int.emod_lt_of_pos _ (by decide)
  have hnonneg : 0 ≤ strtol num % 256 := Int.emod_nonneg _ (by decide)
  unfold atoiByte
  rw [UInt8.toNat_ofNat_of_lt' (by rw [UInt8.size]; omega)]
  exact Int.toNat_of_nonneg hnonneg

/-- A `long` that is out of range is cut to a number whose low byte is no length. -/
theorem makesLength_iff {width : Nat} (hwidth : width ≤ 128) :
    MakesLength num width ↔ 1 ≤ (atoiByte num).toNat ∧ (atoiByte num).toNat ≤ width := by
  have hbyte := toNat_atoiByte num
  unfold MakesLength
  unfold strtol at hbyte
  generalize leadingInt num = n at hbyte ⊢
  omega

theorem atoiByte_of_isDecimal {n : Nat} (hn : n < 256) (h : IsDecimal num n) :
    (atoiByte num).toNat = n := by
  have hbyte := toNat_atoiByte num
  unfold strtol at hbyte
  rw [leadingInt_of_isDecimal h] at hbyte
  omega

/-! ## The slash -/

theorem takeWhile_slash (h : '/' ∉ addr) (num : List Char) :
    (addr ++ '/' :: num).takeWhile (· ≠ '/') = addr ∧
      (addr ++ '/' :: num).dropWhile (· ≠ '/') = '/' :: num := by
  have hall : ∀ c ∈ addr, decide (c ≠ '/') = true := fun c hc =>
    decide_eq_true fun heq => h (heq ▸ hc)
  rw [List.takeWhile_append_of_pos hall, List.dropWhile_append_of_pos hall,
    List.takeWhile_cons_of_neg (by decide), List.dropWhile_cons_of_neg (by decide), List.append_nil]
  exact ⟨rfl, rfl⟩

/-- The first slash of a string. -/
theorem exists_slash (h : '/' ∈ str) : ∃ addr num, str = addr ++ '/' :: num ∧ '/' ∉ addr := by
  obtain ⟨addr, num, heq, hnot⟩ := List.eq_append_cons_of_mem h
  exact ⟨addr, num, heq, hnot⟩

theorem strToIPPrefix_split (h : '/' ∉ addr) (num : List Char) :
    strToIPPrefix inet (addr ++ '/' :: num) =
      if addr.length < MAX_IP_V6_STR_LEN then
        some ((strToIPAddress inet addr).bind fun ip =>
          if atoiByte num = 0 ∨ (atoiByte num).toNat > maxPrefixLen ip then none
          else some ⟨ip, atoiByte num⟩)
      else none := by
  obtain ⟨htake, hdrop⟩ := takeWhile_slash h num
  unfold strToIPPrefix
  rw [htake, hdrop]
  dsimp only
  rcases Nat.lt_or_ge addr.length MAX_IP_V6_STR_LEN with hlt | hge
  · rw [if_pos hlt, if_pos hlt]
    cases strToIPAddress inet addr with
    | none => rfl
    | some ip =>
      dsimp only [Option.bind_some]
      split <;> rfl
  · rw [if_neg (Nat.not_lt.mpr hge), if_neg (Nat.not_lt.mpr hge)]

theorem accepts_of_strToIPAddress (h : strToIPAddress inet addr = some ip) : Accepts inet addr ip := by
  unfold strToIPAddress at h
  split at h <;> obtain ⟨a, ha, rfl⟩ := Option.map_eq_some_iff.mp h <;> exact ha

/-- The range check, for a string with a slash. -/
theorem rangeCheck (num : List Char) (ip : IPAddress) :
    ¬ (atoiByte num = 0 ∨ (atoiByte num).toNat > maxPrefixLen ip) ↔
      MakesLength num (maxPrefixLen ip) := by
  rw [makesLength_iff (maxPrefixLen_le ip), not_or, gt_iff_lt, Nat.not_lt, ← UInt8.toNat_inj]
  exact and_congr_left' Nat.one_le_iff_ne_zero.symm

/-! ## Reading -/

theorem parsesRight_split (h : '/' ∉ addr) (num : List Char) :
    ParsesRight inet (addr ++ '/' :: num) ↔ addr.length < MAX_IP_V6_STR_LEN ∧
      ∀ ip, strToIPAddress inet addr = some ip → MakesLength num (maxPrefixLen ip) →
        ∃ n, IsDecimal num n ∧ 1 ≤ n ∧ n ≤ maxPrefixLen ip := by
  unfold ParsesRight
  rw [strToIPPrefix_split h]
  rcases Nat.lt_or_ge addr.length MAX_IP_V6_STR_LEN with hlt | hge
  · rw [if_pos hlt, and_iff_right hlt]
    constructor
    · rintro ⟨r, hr, hright⟩ ip hip hmakes
      obtain rfl := Option.some.inj hr
      rw [hip, Option.bind_some, if_neg ((rangeCheck num ip).mpr hmakes)] at hright
      obtain ⟨addr', num', heq, hnot, -, hdecimal, hpos, hle⟩ := hright _ rfl
      -- there is only one first slash
      have htake := (takeWhile_slash h num).2
      rw [heq, (takeWhile_slash hnot num').2] at htake
      obtain ⟨-, rfl⟩ := List.cons.inj htake
      exact ⟨_, hdecimal, hpos, hle⟩
    · intro hright
      refine ⟨_, rfl, fun p hp => ?_⟩
      obtain ⟨ip, hip, hp⟩ := Option.bind_eq_some_iff.mp hp
      rcases Decidable.em (atoiByte num = 0 ∨ (atoiByte num).toNat > maxPrefixLen ip) with hbad | hgood
      · rw [if_pos hbad] at hp
        cases hp
      · rw [if_neg hgood] at hp
        obtain rfl := Option.some.inj hp
        obtain ⟨n, hdecimal, hpos, hle⟩ := hright ip hip ((rangeCheck num ip).mp hgood)
        have hbyte : (atoiByte num).toNat = n :=
          atoiByte_of_isDecimal (Nat.lt_of_le_of_lt (Nat.le_trans hle (maxPrefixLen_le ip)) (by decide))
            hdecimal
        exact ⟨addr, num, rfl, h, accepts_of_strToIPAddress hip, hbyte ▸ hdecimal, hbyte ▸ hpos,
          hbyte ▸ hle⟩
  · rw [if_neg (Nat.not_lt.mpr hge)]
    refine iff_of_false ?_ fun hle => Nat.not_lt.mpr hge hle.1
    rintro ⟨r, hnone, -⟩
    cases hnone

/-- A string without a slash is no prefix. -/
theorem parsesRight_noSlash (h : '/' ∉ str) : ParsesRight inet str := by
  have hdrop : str.dropWhile (· ≠ '/') = [] :=
    List.dropWhile_eq_nil_iff.mpr fun c hc => decide_eq_true fun heq => h (heq ▸ hc)
  refine ⟨none, ?_, fun p hp => nomatch hp⟩
  unfold strToIPPrefix
  rw [hdrop]

/-! ## Writing and reading -/

theorem strToIPAddress_inetNtop (h : InverseAt inet ip) :
    strToIPAddress inet (inet.inetNtop ip) = some ip ↔
      ('.' ∈ inet.inetNtop ip ↔ ∃ u32, ip = .v4 u32) := by
  have haccepts := h.accepts
  unfold strToIPAddress
  cases ip with
  | v4 u32 =>
    change inet.inetAton _ = _ at haccepts
    rcases Decidable.em ('.' ∈ inet.inetNtop (.v4 u32)) with hdot | hdot
    · rw [if_pos hdot, haccepts]
      exact iff_of_true rfl (iff_of_true hdot ⟨u32, rfl⟩)
    · rw [if_neg hdot]
      refine iff_of_false (fun hsome => ?_) fun hiff => hdot (hiff.mpr ⟨u32, rfl⟩)
      obtain ⟨a, -, ha⟩ := Option.map_eq_some_iff.mp hsome
      cases ha
  | v6 u8 =>
    change inet.inetPton6 _ = _ at haccepts
    rcases Decidable.em ('.' ∈ inet.inetNtop (.v6 u8)) with hdot | hdot
    · rw [if_pos hdot]
      refine iff_of_false (fun hsome => ?_) fun hiff => nomatch hiff.mp hdot
      obtain ⟨a, -, ha⟩ := Option.map_eq_some_iff.mp hsome
      cases ha
    · rw [if_neg hdot, haccepts]
      exact iff_of_true rfl (iff_of_false hdot fun hv4 => nomatch hv4)

theorem ipPrefixToStr_eq {p : IPPrefix} {size : Nat}
    (h : (inet.inetNtop p.ip).length + plLen p.length + 2 ≤ size) :
    ipPrefixToStr inet p size = some (inet.inetNtop p.ip ++ '/' :: Nat.toDigits 10 p.length.toNat) := by
  have hlt : (inet.inetNtop p.ip).length < size :=
    Nat.lt_of_lt_of_le (Nat.lt_add_of_pos_right (Nat.succ_pos _)) (Nat.add_assoc _ _ _ ▸ h)
  unfold ipPrefixToStr ipAddressToStr
  rw [if_pos hlt, Option.bind_eq_bind, Option.bind_some, if_neg (Nat.not_lt.mpr h)]

theorem prefix_roundTrips_iff {p : IPPrefix} (h : InverseAt inet p.ip) (hpos : 1 ≤ p.length.toNat)
    (hle : p.length.toNat ≤ maxPrefixLen p.ip) :
    RoundTrips inet p ↔ (inet.inetNtop p.ip).length < MAX_IP_V6_STR_LEN ∧
      ('.' ∈ inet.inetNtop p.ip ↔ ∃ u32, p.ip = .v4 u32) := by
  have hbyte : atoiByte (Nat.toDigits 10 p.length.toNat) = p.length :=
    UInt8.toNat_inj.mp (atoiByte_of_isDecimal (UInt8.toNat_lt _) (isDecimal_toDigits _))
  have hrange : ¬ (p.length = 0 ∨ p.length.toNat > maxPrefixLen p.ip) := by
    rw [not_or, gt_iff_lt, Nat.not_lt, ← UInt8.toNat_inj]
    exact ⟨Nat.one_le_iff_ne_zero.mp hpos, hle⟩
  have hread : RoundTrips inet p ↔
      strToIPPrefix inet (inet.inetNtop p.ip ++ '/' :: Nat.toDigits 10 p.length.toNat) =
        some (some p) := by
    constructor
    · intro hround
      obtain ⟨str, hstr, hread⟩ := hround _ (Nat.le_refl _)
      rw [ipPrefixToStr_eq (Nat.le_refl _)] at hstr
      exact Option.some.inj hstr ▸ hread
    · exact fun hread size hsize => ⟨_, ipPrefixToStr_eq hsize, hread⟩
  rw [hread, strToIPPrefix_split h.noSlash, hbyte, ← strToIPAddress_inetNtop h]
  rcases Nat.lt_or_ge (inet.inetNtop p.ip).length MAX_IP_V6_STR_LEN with hlt | hge
  · rw [if_pos hlt, and_iff_right hlt, Option.some.injEq, Option.bind_eq_some_iff]
    constructor
    · rintro ⟨ip, hip, hp⟩
      split at hp
      · cases hp
      · rw [hip, ← Option.some.inj hp]
    · intro hip
      exact ⟨p.ip, hip, if_neg hrange⟩
  · rw [if_neg (Nat.not_lt.mpr hge)]
    exact iff_of_false (fun hnone => nomatch hnone) fun hboth => Nat.not_lt.mpr hge hboth.1

end PrefixTextLemmas

open PrefixTextLemmas

/-- A string is read right if and only if the text in front of its first slash fits the buffer and,
where that is an address, the text behind the slash is a decimal number in range or its number is no
length. A prefix comes back from its text if and only if the text of its address fits the buffer and
has a dot exactly for IPv4. -/
theorem prefixText_iff (inet : Inet) :
    (∀ str, ParsesRight inet str ↔ ∀ addr num, str = addr ++ '/' :: num → '/' ∉ addr →
      addr.length < MAX_IP_V6_STR_LEN ∧ ∀ ip, strToIPAddress inet addr = some ip →
        MakesLength num (maxPrefixLen ip) → ∃ n, IsDecimal num n ∧ 1 ≤ n ∧ n ≤ maxPrefixLen ip) ∧
    ∀ p : IPPrefix, 1 ≤ p.length.toNat → p.length.toNat ≤ maxPrefixLen p.ip → InverseAt inet p.ip →
      (RoundTrips inet p ↔ (inet.inetNtop p.ip).length < MAX_IP_V6_STR_LEN ∧
        ('.' ∈ inet.inetNtop p.ip ↔ ∃ u32, p.ip = .v4 u32)) := by
  refine ⟨fun str => ?_, fun p hpos hle h => prefix_roundTrips_iff h hpos hle⟩
  rcases Decidable.em ('/' ∈ str) with hslash | hslash
  · obtain ⟨addr, num, rfl, hnot⟩ := exists_slash hslash
    rw [parsesRight_split hnot]
    constructor
    · intro hright addr' num' heq hnot'
      have htake := takeWhile_slash hnot' num'
      rw [← heq, (takeWhile_slash hnot num).1, (takeWhile_slash hnot num).2] at htake
      obtain ⟨rfl, hnum⟩ := htake
      obtain ⟨-, rfl⟩ := List.cons.inj hnum
      exact hright
    · intro hall
      exact hall addr num rfl hnot
  · refine iff_of_true (parsesRight_noSlash hslash) fun addr num heq _ => absurd ?_ hslash
    rw [heq]
    exact List.mem_append_right _ List.mem_cons_self

/-- The functions of the C library on 10.0.0.0 and ::ffff:10.0.0.1. -/
def someInet : Inet where
  inetAton := fun str => if str = "10.0.0.0".toList then some 0x0a000000 else none
  inetPton6 := fun str =>
    if str = "::ffff:10.0.0.1".toList then
      some #v[0, 0, 0, 0, 0, 0, 0, 0, 0, 0, 0xff, 0xff, 10, 0, 0, 1]
    else none
  inetNtop4 := fun _ => "10.0.0.0".toList
  inetNtop6 := fun _ => "::ffff:10.0.0.1".toList

/-- ::ffff:10.0.0.1/128, an address with an IPv4 address in its text. -/
def mappedPrefix : IPPrefix := ⟨.v6 #v[0, 0, 0, 0, 0, 0, 0, 0, 0, 0, 0xff, 0xff, 10, 0, 0, 1], 128⟩

theorem prefixText_iff_ten8 :
    RoundTrips someInet ⟨.v4 0x0a000000, 8⟩ ↔
      "10.0.0.0".toList.length < MAX_IP_V6_STR_LEN ∧
        ('.' ∈ "10.0.0.0".toList ↔ ∃ u32, IPAddress.v4 0x0a000000 = .v4 u32) :=
  (prefixText_iff someInet).2 ⟨.v4 0x0a000000, 8⟩ (by decide) (by decide) ⟨by decide, rfl⟩

/-- 280 is read as 24, an address text of 40 characters leaves the buffer, and an IPv6 prefix does not
come back from its text. -/
theorem strToIPPrefix_wrong :
    ¬ ParsesRight someInet "10.0.0.0/280".toList ∧
      strToIPPrefix someInet "10.0.0.0/280".toList = some (some ⟨.v4 0x0a000000, 24⟩) ∧
      strToIPPrefix someInet (List.replicate 40 '1' ++ "/8".toList) = none ∧
      InverseAt someInet mappedPrefix.ip ∧ ¬ RoundTrips someInet mappedPrefix := by
  refine ⟨fun h => ?_, by decide, by decide, ⟨by decide, rfl⟩, fun h => ?_⟩
  · obtain ⟨n, hdecimal, -, hle⟩ := ((@parsesRight_split someInet "10.0.0.0".toList (by decide)
      "280".toList).mp h).2 (.v4 0x0a000000) (by decide) ⟨by decide, by decide⟩
    obtain rfl : 280 = n := hdecimal.value
    exact absurd hle (by decide)
  · obtain ⟨str, hstr, hread⟩ := h 64 (by decide)
    have hwritten : ipPrefixToStr someInet mappedPrefix 64 = some "::ffff:10.0.0.1/128".toList := by
      decide
    obtain rfl := Option.some.inj (hwritten.symm.trans hstr)
    exact absurd hread (by decide)

end SrxSuite.Util

import SrxSuite.Quagga.ParseGrammar

/-!
# The AS_PATH of a BGPsec path

The model of `srx_convert_to_aspath` (`bgpd/bgp_attr.c`), which writes the AS numbers of a secure path to
a stream and lets `aspath_parse` read them. It writes one AS sequence, whose count is a byte. The
stream has room for the larger of the number of path segments and the sum of their `pCount`s, and the
count and the length that go to `aspath_parse` come from that size and not from what was written.

All writes are in the stream, whatever the segments are (`srxConvertToAspath_eq`). `aspath_parse` gets
the AS_PATH of the segments exactly when the sum is at least their number and fits the count
(`srxConvertToAspath_iff`).
-/

namespace SrxSuite.Quagga

open Bytes

/-! ## `srx_convert_to_aspath` -/

/-- Written as the type of the sequence; the value is also `AS_SEQUENCE`. -/
def BGP_ATTR_AS_PATH : UInt8 := 2

/-- The sum of the `pCount`s. -/
def pcntTot (segs : List PathSegment) : Nat := (segs.map fun ps => ps.pCount.toNat).sum

/-- The size of the stream. -/
def streamLen (attr : ParsedAttr) : Nat :=
  max ((attr.securePathLen - 2) / 6 * 4 + 2) (pcntTot attr.pathSegments * 4 + 2)

variable {size : Nat}

/-- The loop over `pcnt`. -/
def putAs (as : UInt32) : (pcnt : Nat) → Stream size → Option (Stream size)
  | 0, s => some s
  | pcnt + 1, s => (streamPutl s as).bind (putAs as pcnt)

/-- The loop over the segments, with one of `iter` for each segment. -/
def putPathSegments : List PathSegment → (iter : UInt16) → Stream size → Option (Stream size)
  | [], _, s => some s
  | ps :: segs, iter, s =>
    if iter = 0 then some s
    else (putAs ps.as ps.pCount.toNat s).bind (putPathSegments segs (iter - 1))

/-- `srx_convert_to_aspath`. `aspathParse` is given the readable bytes of the stream, a length, and
whether the peer sends AS numbers of four bytes. -/
def srxConvertToAspath {ρ : Type} (aspathParse : Bytes → Nat → Bool → ρ) (attr : ParsedAttr)
    (as4 : Bool) : Option ρ := do
  let iter := UInt16.ofNat ((streamLen attr - 2) / 4)
  let tmpStream : Stream (streamLen attr) := ⟨[], Nat.zero_le _⟩
  let tmpStream ← streamPutc tmpStream BGP_ATTR_AS_PATH
  let tmpStream ← streamPutc tmpStream (UInt8.ofNat iter.toNat)
  let tmpStream ← putPathSegments attr.pathSegments iter tmpStream
  some (aspathParse tmpStream.data (streamLen attr) as4)

/-! ## AS paths -/

/-- An AS sequence of an AS_PATH. Its count is one byte and not 0. -/
structure AsSequence where
  ases : List UInt32
  nonempty : ases ≠ []
  atMost : ases.length < 2 ^ 8

/-- Type, count and AS numbers. -/
def AsSequence.bytes (q : AsSequence) : Bytes :=
  2 :: UInt8.ofNat q.ases.length :: q.ases.flatMap be32

/-- The bytes are an AS_PATH with these AS numbers in AS sequences. -/
def EncodesAsPath (bs : Bytes) (ases : List UInt32) : Prop :=
  ∃ sequences : List AsSequence,
    bs = sequences.flatMap AsSequence.bytes ∧ ases = sequences.flatMap AsSequence.ases

/-- The AS numbers of a secure path, each as often as its segment counts. -/
def pathAses (segs : List PathSegment) : List UInt32 :=
  segs.flatMap fun ps => List.replicate ps.pCount.toNat ps.as

/-- How many AS numbers the stream has room for. -/
def asRoom (segs : List PathSegment) : Nat := max segs.length (pcntTot segs)

/-- What goes to `aspath_parse` is the AS_PATH of the segments, with its length. -/
def ConvertsPath (attr : ParsedAttr) : Prop :=
  ∃ bs, srxConvertToAspath (fun s length _ => (s, length)) attr true = some (bs, bs.length) ∧
    EncodesAsPath bs (pathAses attr.pathSegments)

namespace ConversionLemmas

/-! ## Writing -/

theorem writes_putAs (as : UInt32) (pcnt : Nat) :
    Writes (fun s : Stream size => putAs as pcnt s) ((List.replicate pcnt as).flatMap be32) := by
  induction pcnt with
  | zero => exact Writes.nothing
  | succ pcnt ih =>
    rw [List.replicate_succ, List.flatMap_cons]
    exact Writes.bind (Writes.putl as) ih

/-- The segments that `iter` allows. -/
theorem writes_putPathSegments (segs : List PathSegment) (iter : UInt16) :
    Writes (fun s : Stream size => putPathSegments segs iter s)
      ((pathAses (segs.take iter.toNat)).flatMap be32) := by
  induction segs generalizing iter with
  | nil =>
    rw [List.take_nil]
    exact Writes.nothing
  | cons ps segs ih =>
    rcases eq_or_ne iter 0 with rfl | hzero
    · exact Writes.nothing
    · have hpos : 0 < iter.toNat :=
        Nat.pos_iff_ne_zero.mpr fun h => hzero (UInt16.toNat_inj.mp h)
      have hpred : (iter - 1).toNat = iter.toNat - 1 :=
        UInt16.toNat_sub_of_le _ _ (UInt16.le_iff_toNat_le.mpr hpos)
      obtain ⟨n, hn⟩ := Nat.exists_eq_succ_of_ne_zero (Nat.pos_iff_ne_zero.mp hpos)
      have hrest := ih (iter - 1)
      rw [hpred, hn, Nat.succ_sub_one] at hrest
      have hboth := Writes.bind (@writes_putAs size ps.as ps.pCount.toNat) hrest
      rw [hn, List.take_succ_cons, pathAses, List.flatMap_cons, List.flatMap_append]
      intro s hroom
      show ∃ s', putPathSegments (ps :: segs) iter s = some s' ∧ _
      unfold putPathSegments
      rw [if_neg hzero]
      exact hboth s hroom

/-! ## Lengths -/

theorem length_flatMap_be32 (ases : List UInt32) : (ases.flatMap be32).length = 4 * ases.length := by
  rw [PathLemmas.length_flatMap_of length_be32, List.map_const', List.sum_replicate_nat, Nat.mul_comm]

theorem length_pathAses (segs : List PathSegment) : (pathAses segs).length = pcntTot segs := by
  unfold pathAses pcntTot
  rw [List.length_flatMap]
  congr 1
  exact List.map_congr_left fun ps _ => List.length_replicate

theorem pcntTot_take_le (segs : List PathSegment) (n : Nat) : pcntTot (segs.take n) ≤ pcntTot segs := by
  have hsplit := congrArg pcntTot (List.take_append_drop n segs)
  unfold pcntTot at hsplit ⊢
  rw [List.map_append, List.sum_append_nat] at hsplit
  exact Nat.le.intro hsplit

/-- An encoding has two bytes for each sequence and four for each AS number. -/
theorem length_encoding (sequences : List AsSequence) :
    (sequences.flatMap AsSequence.bytes).length =
      2 * sequences.length + 4 * (sequences.flatMap AsSequence.ases).length := by
  induction sequences with
  | nil => rfl
  | cons q sequences ih =>
    have hq : q.bytes.length = 4 * q.ases.length + 2 :=
      congrArg (· + 2) (length_flatMap_be32 q.ases)
    rw [List.flatMap_cons, List.flatMap_cons, List.length_append, List.length_append, ih, hq,
      List.length_cons]
    omega

theorem streamLen_eq {attr : ParsedAttr}
    (hlen : attr.securePathLen = 2 + 6 * attr.pathSegments.length) :
    streamLen attr = 4 * asRoom attr.pathSegments + 2 := by
  unfold streamLen asRoom
  rw [hlen]
  omega

/-- The accepted attributes have the length of their segments. -/
theorem securePathLen_of_parse {s : Bytes} {attr : ParsedAttr} (hlt : s.length < 2 ^ 16)
    (h : bgpsecParse s s.length = some (some attr)) :
    attr.securePathLen = 2 + 6 * attr.pathSegments.length := by
  obtain ⟨p, -, -, rfl⟩ := ParseGrammarLemmas.path_of_parse hlt h
  rfl

end ConversionLemmas

open ConversionLemmas

/-- The conversion always comes to its end: every write is in the stream. -/
theorem srxConvertToAspath_eq {ρ : Type} (aspathParse : Bytes → Nat → Bool → ρ) {attr : ParsedAttr}
    (as4 : Bool) (hlen : attr.securePathLen = 2 + 6 * attr.pathSegments.length) :
    srxConvertToAspath aspathParse attr as4 =
      let n := asRoom attr.pathSegments
      some (aspathParse (2 :: UInt8.ofNat (n % 2 ^ 16) ::
        (pathAses (attr.pathSegments.take (n % 2 ^ 16))).flatMap be32) (4 * n + 2) as4) := by
  have hsize := streamLen_eq hlen
  have hiter : (UInt16.ofNat ((streamLen attr - 2) / 4)).toNat =
      asRoom attr.pathSegments % 2 ^ 16 := by
    rw [UInt16.toNat_ofNat', hsize]
    omega
  have hfits : 2 + ((pathAses (attr.pathSegments.take (asRoom attr.pathSegments % 2 ^ 16))).flatMap
      be32).length ≤ streamLen attr := by
    have htake := pcntTot_take_le attr.pathSegments (asRoom attr.pathSegments % 2 ^ 16)
    have hmax : pcntTot attr.pathSegments ≤ asRoom attr.pathSegments := Nat.le_max_right _ _
    rw [length_flatMap_be32, length_pathAses, hsize]
    omega
  have hwrites := @writes_putPathSegments (streamLen attr) attr.pathSegments
    (UInt16.ofNat ((streamLen attr - 2) / 4))
  rw [hiter] at hwrites
  have hall := Writes.bind (Writes.putc BGP_ATTR_AS_PATH)
    (Writes.bind (Writes.putc (UInt8.ofNat (asRoom attr.pathSegments % 2 ^ 16))) hwrites)
  obtain ⟨s, hrun, hdata⟩ := hall ⟨[], Nat.zero_le _⟩ (by
    simp only [List.length_append, List.length_cons, List.length_nil]
    omega)
  obtain ⟨s₁, hs₁, hrun⟩ := Option.bind_eq_some_iff.mp hrun
  obtain ⟨s₂, hs₂, hrun⟩ := Option.bind_eq_some_iff.mp hrun
  unfold srxConvertToAspath
  simp only [hiter, hs₁, hs₂, hrun, hdata, Option.bind_eq_bind, Option.bind_some]
  rw [hsize]
  rfl

/-- What `srx_convert_to_aspath` hands on is right for which secure paths. -/
theorem srxConvertToAspath_iff (s : Bytes) (attr : ParsedAttr) (hlt : s.length < 2 ^ 16)
    (h : bgpsecParse s s.length = some (some attr)) :
    ConvertsPath attr ↔ 0 < pcntTot attr.pathSegments ∧
      attr.pathSegments.length ≤ pcntTot attr.pathSegments ∧ pcntTot attr.pathSegments < 2 ^ 8 := by
  have heq := srxConvertToAspath_eq (fun s length _ => (s, length)) true
    (securePathLen_of_parse hlt h)
  unfold ConvertsPath
  rw [heq]
  constructor
  · rintro ⟨bs, hbs, sequences, rfl, hases⟩
    obtain ⟨hdata, hlen⟩ := Prod.mk.inj (Option.some.inj hbs)
    have hwritten := congrArg List.length hdata
    have htake := pcntTot_take_le attr.pathSegments (asRoom attr.pathSegments % 2 ^ 16)
    have hsum := congrArg List.length hases
    rw [List.length_cons, List.length_cons, length_flatMap_be32, length_pathAses, ← hlen] at hwritten
    rw [length_encoding, ← hsum] at hlen
    rw [length_pathAses] at hsum hlen
    have hroom : asRoom attr.pathSegments = max attr.pathSegments.length (pcntTot attr.pathSegments) :=
      rfl
    -- what was written fills the stream, which leaves room for one sequence
    have hone : sequences.length = 1 := by omega
    obtain ⟨q, rfl⟩ := List.length_eq_one_iff.mp hone
    have hq : pcntTot attr.pathSegments = q.ases.length := by
      rw [hsum, List.flatMap_singleton]
    have hpos := List.length_pos_iff.mpr q.nonempty
    have hlt := q.atMost
    refine ⟨?_, ?_, ?_⟩ <;> omega
  · rintro ⟨hpos, hcount, hbyte⟩
    have hroom : asRoom attr.pathSegments = pcntTot attr.pathSegments := Nat.max_eq_right hcount
    have hmod : pcntTot attr.pathSegments % 2 ^ 16 = pcntTot attr.pathSegments :=
      Nat.mod_eq_of_lt (by omega)
    have hlen := length_pathAses attr.pathSegments
    let q : AsSequence := ⟨pathAses attr.pathSegments,
      List.length_pos_iff.mp (hlen ▸ hpos), hlen ▸ hbyte⟩
    refine ⟨q.bytes, ?_, [q], ?_, ?_⟩
    · have hq : q.bytes.length = 4 * (pathAses attr.pathSegments).length + 2 :=
        congrArg (· + 2) (length_flatMap_be32 (pathAses attr.pathSegments))
      simp only [hroom, hmod, hq, hlen, List.take_of_length_le hcount]
      rw [← hlen]
      rfl
    · rw [List.flatMap_singleton]
    · rw [List.flatMap_singleton]

theorem srxConvertToAspath_iff_onePath : onePath.bytes.length < 2 ^ 16 ∧
    bgpsecParse onePath.bytes onePath.bytes.length = some (some onePath.attr) ∧
    (ConvertsPath onePath.attr ↔ 0 < pcntTot onePath.attr.pathSegments ∧
      onePath.attr.pathSegments.length ≤ pcntTot onePath.attr.pathSegments ∧
      pcntTot onePath.attr.pathSegments < 2 ^ 8) := by
  have hlt : onePath.bytes.length < 2 ^ 16 := by decide
  have hparse : bgpsecParse onePath.bytes onePath.bytes.length = some (some onePath.attr) := by decide
  exact ⟨hlt, hparse, srxConvertToAspath_iff onePath.bytes onePath.attr hlt hparse⟩

/-- A path whose segment has the `pCount` 0. -/
def zeroPath : Path := ⟨[⟨65001, 0, 0⟩], [⟨1, [oneSignature]⟩]⟩

/-- The parser accepts it; `aspath_parse` gets two bytes, a count of 1 and a length of 6. -/
theorem zero_pCount_lost :
    bgpsecParse zeroPath.bytes zeroPath.bytes.length = some (some zeroPath.attr) ∧
      srxConvertToAspath (fun s length _ => (s, length)) zeroPath.attr true = some ([2, 1], 6) ∧
      ¬ ConvertsPath zeroPath.attr := by
  have hcall : srxConvertToAspath (fun s length _ => (s, length)) zeroPath.attr true =
      some ([2, 1], 6) := by decide
  refine ⟨by decide, hcall, ?_⟩
  rintro ⟨bs, hbs, -⟩
  obtain ⟨rfl, hlen⟩ := Prod.mk.inj (Option.some.inj (hcall.symm.trans hbs))
  cases hlen

end SrxSuite.Quagga

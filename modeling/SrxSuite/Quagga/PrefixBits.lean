import SrxSuite.Lib.PrefixTree

/-!
# Prefixes of addresses

The model of `prefix_bit` and `prefix_match` (`lib/prefix.c`) and of `route_common` (`lib/table.c`). They
work on the bytes of the addresses; what they are for is said of the first bits, `Prefix.bits`:
`prefixMatch_eq` and `routeCommon_eq`. No byte is read behind the address.
-/

namespace SrxSuite.Quagga

open PrefixTree

variable {size : Nat}

/-- `struct prefix`. The addresses of a family have `size` bytes. -/
structure Prefix (size : Nat) where
  prefixlen : Nat
  bytes : Vector UInt8 size
  deriving DecidableEq, Repr

/-- The length is one of the family. -/
def Prefix.Valid (p : Prefix size) : Prop := p.prefixlen ≤ 8 * size

instance (p : Prefix size) : Decidable p.Valid := inferInstanceAs (Decidable (_ ≤ _))

/-! ## The code -/

/-- `prefix_bit`. -/
def prefixBit (bytes : Vector UInt8 size) (prefixlen : Nat) : Option Bool := do
  let byte ← bytes[prefixlen / 8]?
  let shift := 7 - prefixlen % 8
  some ((byte >>> UInt8.ofNat shift) &&& 1 == 1)

/-- `maskbit`. -/
def maskbit : Vector UInt8 9 := #v[0x00, 0x80, 0xc0, 0xe0, 0xf0, 0xf8, 0xfc, 0xfe, 0xff]

/-- The loop of `prefix_match`. -/
def matchBytes (np pp : Vector UInt8 size) : (offset : Nat) → Option Bool
  | 0 => some true
  | offset + 1 => do
    let a ← np[offset]?
    let b ← pp[offset]?
    if a ≠ b then some false else matchBytes np pp offset

/-- The check of the last bits in `prefix_match`: they differ. -/
def shiftDiffers (np pp : Vector UInt8 size) (offset shift : Nat) : Option Bool :=
  if shift ≠ 0 then do
    let mask ← maskbit[shift]?
    let a ← np[offset]?
    let b ← pp[offset]?
    some (mask &&& (a ^^^ b) != 0)
  else some false

/-- `prefix_match`. -/
def prefixMatch (n p : Prefix size) : Option Bool :=
  if n.prefixlen > p.prefixlen then some false
  else do
    let offset := n.prefixlen / 8
    let shift := n.prefixlen % 8
    let differs ← shiftDiffers n.bytes p.bytes offset shift
    if differs then some false else matchBytes n.bytes p.bytes offset

/-- The first loop of `route_common`, with `left` bytes to go: the bytes copied and the last `i`. -/
def commonBytes (np pp : Vector UInt8 size) : (left i : Nat) → (newp : Vector UInt8 size) →
    Option (Vector UInt8 size × Nat)
  | 0, i, newp => some (newp, i)
  | left + 1, i, newp => do
    let a ← np[i]?
    let b ← pp[i]?
    if a = b then commonBytes np pp left (i + 1) (newp.setIfInBounds i a) else some (newp, i)

/-- The second loop of `route_common`, with `left` bits to go: the last length. -/
def commonBits (diff : UInt8) : (left : Nat) → (mask : UInt8) → (prefixlen : Nat) → Nat
  | 0, _, prefixlen => prefixlen
  | left + 1, mask, prefixlen =>
    if mask &&& diff = 0 then commonBits diff left (mask >>> 1) (prefixlen + 1) else prefixlen

/-- `route_common`; `new` is what is in the bytes of the result before. -/
def routeCommon (n p : Prefix size) (new : Vector UInt8 size) : Option (Prefix size) := do
  let (newp, i) ← commonBytes n.bytes p.bytes (p.prefixlen / 8) 0 new
  let prefixlen := i * 8
  if prefixlen ≠ p.prefixlen then
    let a ← n.bytes[i]?
    let b ← p.bytes[i]?
    let prefixlen := commonBits (a ^^^ b) (p.prefixlen - prefixlen) 0x80 prefixlen
    let mask ← maskbit[prefixlen % 8]?
    some ⟨prefixlen, newp.setIfInBounds i (a &&& mask)⟩
  else some ⟨prefixlen, newp⟩

/-! ## Bits -/

/-- The bit of an address at a position. -/
def bitAt (bytes : Vector UInt8 size) (i : Nat) : Bool :=
  match bytes[i / 8]? with
  | some byte => byte.toNat.testBit (7 - i % 8)
  | none => false

/-- The bits of a prefix. -/
def Prefix.bits (p : Prefix size) : List Bool := (List.range p.prefixlen).map (bitAt p.bytes)

namespace PrefixLemmas

variable {n p : Prefix size} {np pp : Vector UInt8 size} {i k : Nat} {a b : UInt8}

@[simp] theorem length_bits (p : Prefix size) : p.bits.length = p.prefixlen := by
  rw [Prefix.bits, List.length_map, List.length_range]

theorem take_bits (p : Prefix size) (hk : k ≤ p.prefixlen) :
    p.bits.take k = (List.range k).map (bitAt p.bytes) := by
  rw [Prefix.bits, ← List.map_take, List.take_range, Nat.min_eq_left hk]

/-- The first `k` bits are the same. -/
def Agree (np pp : Vector UInt8 size) (k : Nat) : Prop := ∀ i < k, bitAt np i = bitAt pp i

theorem agree_iff : Agree np pp k ↔ (List.range k).map (bitAt np) = (List.range k).map (bitAt pp) := by
  rw [List.map_inj_left]
  exact forall_congr' fun i => imp_congr_left List.mem_range.symm

theorem bits_prefix_iff :
    n.bits <+: p.bits ↔ n.prefixlen ≤ p.prefixlen ∧ Agree n.bytes p.bytes n.prefixlen := by
  rw [List.prefix_iff_eq_take, length_bits, agree_iff]
  constructor
  · intro h
    have hle : n.prefixlen ≤ p.prefixlen := by
      have hlen := congrArg List.length h
      rw [List.length_take, length_bits, length_bits] at hlen
      exact hlen ▸ Nat.min_le_right _ _
    exact ⟨hle, h.trans (take_bits p hle)⟩
  · rintro ⟨hle, h⟩
    exact h.trans (take_bits p hle).symm

theorem bits_concat (hlt : k < p.prefixlen) :
    (List.range k).map (bitAt p.bytes) ++ [bitAt p.bytes k] <+: p.bits := by
  rw [← List.map_singleton, ← List.map_append, ← List.range_succ, ← take_bits p hlt]
  exact List.take_prefix _ _

/-! ## Bytes -/

theorem eq_of_testBit (h : ∀ j < 8, a.toNat.testBit (7 - j) = b.toNat.testBit (7 - j)) : a = b := by
  refine UInt8.toNat_inj.mp (Nat.eq_of_testBit_eq fun i => ?_)
  by_cases hi : i < 8
  · have := h (7 - i) (by omega)
    rwa [show 7 - (7 - i) = i by omega] at this
  · have hpow : 2 ^ 8 ≤ 2 ^ i := Nat.pow_le_pow_right (by decide) (by omega)
    rw [Nat.testBit_lt_two_pow (Nat.lt_of_lt_of_le a.toNat_lt hpow),
      Nat.testBit_lt_two_pow (Nat.lt_of_lt_of_le b.toNat_lt hpow)]

theorem shift_and_one (byte : UInt8) {s : Nat} (hs : s < 8) :
    ((byte >>> UInt8.ofNat s) &&& 1 == 1) = byte.toNat.testBit s := by
  have hall : ∀ n < 256, ∀ s < 8,
      ((UInt8.ofNat n >>> UInt8.ofNat s) &&& 1 == 1) = (UInt8.ofNat n).toNat.testBit s := by
    decide +kernel
  have hbyte := hall byte.toNat byte.toNat_lt s hs
  rwa [UInt8.ofNat_toNat] at hbyte

theorem testBit_maskbit {mask : UInt8} (hmask : maskbit[k]? = some mask) {j : Nat} (hj : j < 8) :
    mask.toNat.testBit (7 - j) = decide (j < k) := by
  have hall : ∀ k < 9, ∀ j < 8, ∀ m ∈ maskbit[k]?, m.toNat.testBit (7 - j) = decide (j < k) := by
    decide +kernel
  have hk : k < 9 := by
    by_contra hk
    rw [Vector.getElem?_eq_none (Nat.le_of_not_lt hk)] at hmask
    cases hmask
  exact hall k hk j hj mask hmask

/-- A mask takes the first bits. -/
theorem mask_xor {mask : UInt8} (hmask : maskbit[k]? = some mask) : mask &&& (a ^^^ b) = 0 ↔
    ∀ j < 8, j < k → a.toNat.testBit (7 - j) = b.toNat.testBit (7 - j) := by
  have hbit {j : Nat} (hj : j < 8) : (mask &&& (a ^^^ b)).toNat.testBit (7 - j) =
      (decide (j < k) && (a.toNat.testBit (7 - j) ^^ b.toNat.testBit (7 - j))) := by
    rw [UInt8.toNat_and, UInt8.toNat_xor, Nat.testBit_and, Nat.testBit_xor, testBit_maskbit hmask hj]
  constructor
  · intro h j hj hjk
    have := hbit hj
    rw [h, decide_eq_true hjk, Bool.true_and, show (0 : UInt8).toNat = 0 from rfl,
      Nat.zero_testBit] at this
    simpa using this.symm
  · intro h
    refine eq_of_testBit fun j hj => ?_
    rw [hbit hj, show (0 : UInt8).toNat = 0 from rfl, Nat.zero_testBit]
    by_cases hjk : j < k
    · rw [h j hj hjk, Bool.xor_self, Bool.and_false]
    · rw [decide_eq_false hjk, Bool.false_and]

theorem bitAt_byte {byte : UInt8} {o : Nat} (hbyte : np[o]? = some byte) {j : Nat} (hj : j < 8) :
    bitAt np (o * 8 + j) = byte.toNat.testBit (7 - j) := by
  have hdiv : (o * 8 + j) / 8 = o := by omega
  have hmod : (o * 8 + j) % 8 = j := by omega
  rw [bitAt, hdiv, hmod, hbyte]

theorem byte_some (np : Vector UInt8 size) {o : Nat} (ho : o < size) : ∃ byte, np[o]? = some byte :=
  ⟨np[o], Vector.getElem?_eq_getElem ho⟩

/-- `prefix_bit` reads the bit of the position. -/
theorem prefixBit_eq (bytes : Vector UInt8 size) (hi : i < 8 * size) :
    prefixBit bytes i = some (bitAt bytes i) := by
  obtain ⟨byte, hbyte⟩ := byte_some bytes (o := i / 8) (by omega)
  have hbit := bitAt_byte hbyte (Nat.mod_lt i (by decide : 0 < 8))
  rw [Nat.div_add_mod' i 8] at hbit
  rw [prefixBit, hbyte, hbit]
  exact congrArg some (shift_and_one byte (by omega))

/-- The same bits from a position on. -/
def AgreeAt (np pp : Vector UInt8 size) (o s : Nat) : Prop := ∀ j < s, bitAt np (o + j) = bitAt pp (o + j)

theorem agree_add {o s : Nat} : Agree np pp (o + s) ↔ Agree np pp o ∧ AgreeAt np pp o s := by
  constructor
  · intro h
    exact ⟨fun i hi => h i (Nat.lt_add_right s hi), fun j hj => h _ (Nat.add_lt_add_left hj o)⟩
  · rintro ⟨hfirst, hrest⟩ i hi
    by_cases hio : i < o
    · exact hfirst i hio
    · obtain ⟨j, rfl⟩ := Nat.exists_eq_add_of_le (Nat.le_of_not_lt hio)
      exact hrest j (Nat.lt_of_add_lt_add_left hi)

theorem agreeAt_byte {o s : Nat} (ha : np[o]? = some a) (hb : pp[o]? = some b) (hs : s ≤ 8) :
    AgreeAt np pp (o * 8) s ↔ ∀ j < 8, j < s → a.toNat.testBit (7 - j) = b.toNat.testBit (7 - j) := by
  constructor
  · intro h j hj hjs
    rw [← bitAt_byte ha hj, ← bitAt_byte hb hj]
    exact h j hjs
  · intro h j hjs
    have hj := Nat.lt_of_lt_of_le hjs hs
    rw [bitAt_byte ha hj, bitAt_byte hb hj]
    exact h j hj hjs

theorem agree_succ {o : Nat} (ha : np[o]? = some a) (hb : pp[o]? = some b) :
    Agree np pp ((o + 1) * 8) ↔ a = b ∧ Agree np pp (o * 8) := by
  rw [Nat.succ_mul, agree_add, agreeAt_byte ha hb (Nat.le_refl 8), and_comm]
  refine and_congr_left fun _ => ⟨fun h => eq_of_testBit fun j hj => h j hj hj, ?_⟩
  rintro rfl j _ _
  rfl

/-! ## `prefix_match` -/

theorem matchBytes_spec (np pp : Vector UInt8 size) {o : Nat} (ho : o ≤ size) :
    ∃ r, matchBytes np pp o = some r ∧ (r = true ↔ Agree np pp (o * 8)) := by
  induction o with
  | zero =>
    refine ⟨true, rfl, iff_of_true rfl ?_⟩
    intro i hi
    rw [Nat.zero_mul] at hi
    exact absurd hi (Nat.not_lt_zero i)
  | succ o ih =>
    obtain ⟨a, ha⟩ := byte_some np ho
    obtain ⟨b, hb⟩ := byte_some pp ho
    obtain ⟨r, hr, hiff⟩ := ih (Nat.le_of_succ_le ho)
    rw [agree_succ ha hb, matchBytes, ha, hb]
    by_cases hab : a = b
    · refine ⟨r, ?_, by rw [and_iff_right hab, hiff]⟩
      show (if a ≠ b then some false else matchBytes np pp o) = _
      rw [if_neg (not_not.mpr hab), hr]
    · exact ⟨false, if_pos hab, iff_of_false Bool.false_ne_true fun h => hab h.1⟩

theorem shiftDiffers_spec (np pp : Vector UInt8 size) {o s : Nat} (hs : s < 8) (hfits : o * 8 + s ≤ 8 * size) :
    ∃ r, shiftDiffers np pp o s = some r ∧ (r = false ↔ AgreeAt np pp (o * 8) s) := by
  unfold shiftDiffers
  split
  next hpos =>
    have ho : o < size := by omega
    obtain ⟨a, ha⟩ := byte_some np ho
    obtain ⟨b, hb⟩ := byte_some pp ho
    have hmask : maskbit[s]? = some maskbit[s] := Vector.getElem?_eq_getElem (Nat.lt_succ_of_lt hs)
    refine ⟨_, by rw [hmask, ha, hb]; rfl, ?_⟩
    rw [bne_eq_false_iff_eq, mask_xor hmask, agreeAt_byte ha hb (Nat.le_of_lt hs)]
  next hzero =>
    refine ⟨false, rfl, iff_of_true rfl fun j hj => ?_⟩
    rw [not_not.mp hzero] at hj
    exact absurd hj (Nat.not_lt_zero j)

/-- `prefix_match` says whether `n` is a prefix of `p`. -/
theorem prefixMatch_eq (hn : n.Valid) :
    prefixMatch n p = some (decide (n.bits <+: p.bits)) := by
  unfold prefixMatch
  split
  next hlong =>
    rw [decide_eq_false]
    intro h
    exact Nat.not_le_of_lt hlong (bits_prefix_iff.mp h).1
  next hle =>
    have hsplit : n.prefixlen / 8 * 8 + n.prefixlen % 8 = n.prefixlen := Nat.div_add_mod' _ _
    have hvalid : n.prefixlen ≤ 8 * size := hn
    have hiff : n.bits <+: p.bits ↔ Agree n.bytes p.bytes (n.prefixlen / 8 * 8) ∧
        AgreeAt n.bytes p.bytes (n.prefixlen / 8 * 8) (n.prefixlen % 8) := by
      rw [bits_prefix_iff, ← agree_add, hsplit, and_iff_right (Nat.le_of_not_lt hle)]
    obtain ⟨differs, hshift, hlast⟩ := shiftDiffers_spec n.bytes p.bytes
      (Nat.mod_lt n.prefixlen (by decide : 0 < 8)) (by rw [hsplit]; exact hvalid)
    have hoff : n.prefixlen / 8 ≤ size := by omega
    obtain ⟨r, hmatch, hwhole⟩ := matchBytes_spec n.bytes p.bytes hoff
    dsimp only
    rw [hshift]
    cases differs with
    | true =>
      refine congrArg some (decide_eq_false fun h => ?_).symm
      exact Bool.noConfusion (hlast.mpr (hiff.mp h).2)
    | false =>
      refine hmatch.trans (congrArg some ?_)
      rw [Bool.eq_iff_iff, decide_eq_true_iff, hwhole, hiff, and_iff_left (hlast.mp rfl)]

/-! ## `route_common` -/

/-- The loop over the bytes ends at the first one that differs, and has copied those before it. -/
theorem commonBytes_spec {left : Nat} {newp : Vector UInt8 size} (hfits : i + left ≤ size)
    (hsame : Agree np pp (i * 8)) (hcopied : Agree newp np (i * 8)) :
    ∃ newp' i', commonBytes np pp left i newp = some (newp', i') ∧ i ≤ i' ∧ i' ≤ i + left ∧
      Agree np pp (i' * 8) ∧ Agree newp' np (i' * 8) ∧ (i' < i + left → np[i']? ≠ pp[i']?) := by
  induction left generalizing i newp with
  | zero =>
    exact ⟨newp, i, rfl, Nat.le_refl _, Nat.le_refl _, hsame, hcopied,
      fun h => absurd h (Nat.lt_irrefl _)⟩
  | succ left ih =>
    have hi : i < size := by omega
    obtain ⟨a, ha⟩ := byte_some np hi
    obtain ⟨b, hb⟩ := byte_some pp hi
    rw [commonBytes, ha, hb]
    by_cases hab : a = b
    · have hset : (newp.setIfInBounds i a)[i]? = some a := by
        rw [Vector.getElem?_setIfInBounds_self, if_pos hi]
      have hkeep : Agree (newp.setIfInBounds i a) np (i * 8) := by
        intro j hj
        rw [← hcopied j hj, bitAt, bitAt, Vector.getElem?_setIfInBounds_ne (by omega)]
      obtain ⟨newp', i', heq, hle, hle', hrest⟩ := ih (by omega : i + 1 + left ≤ size)
        ((agree_succ ha hb).mpr ⟨hab, hsame⟩) ((agree_succ hset ha).mpr ⟨rfl, hkeep⟩)
      refine ⟨newp', i', (if_pos hab).trans heq, by omega, by omega, hrest.1, hrest.2.1, fun h => ?_⟩
      exact hrest.2.2 (by omega)
    · refine ⟨newp, i, if_neg hab, Nat.le_refl _, by omega, hsame, hcopied, fun _ h => hab ?_⟩
      rw [ha, hb] at h
      exact Option.some.inj h

theorem single_mask {s : Nat} (hs : s < 8) : ((128 >>> UInt8.ofNat s) &&& (a ^^^ b) = 0) ↔
    a.toNat.testBit (7 - s) = b.toNat.testBit (7 - s) := by
  have hall : ∀ s < 8, ∀ n < 256, ((128 >>> UInt8.ofNat s) &&& UInt8.ofNat n = 0) ↔
      (UInt8.ofNat n).toNat.testBit (7 - s) = false := by
    decide +kernel
  have hbyte := hall s hs (a ^^^ b).toNat (a ^^^ b).toNat_lt
  rw [UInt8.ofNat_toNat, UInt8.toNat_xor, Nat.testBit_xor] at hbyte
  rw [hbyte]
  simp

theorem shift_mask {s : Nat} (hs : s < 8) :
    (128 >>> UInt8.ofNat s) >>> (1 : UInt8) = (128 : UInt8) >>> UInt8.ofNat (s + 1) ∨ s = 7 := by
  have hall : ∀ s < 8, (128 >>> UInt8.ofNat s) >>> (1 : UInt8) = (128 : UInt8) >>> UInt8.ofNat (s + 1) ∨
      s = 7 := by
    decide +kernel
  exact hall s hs

/-- The loop over the bits ends at the first one that differs, which is in the byte. -/
theorem commonBits_spec {left o s : Nat} (hs : s < 8)
    (hsame : ∀ j < s, a.toNat.testBit (7 - j) = b.toNat.testBit (7 - j)) (hends : s + left < 8 ∨ a ≠ b) :
    ∃ s', commonBits (a ^^^ b) left (128 >>> UInt8.ofNat s) (o + s) = o + s' ∧ s' < 8 ∧ s' ≤ s + left ∧
      (∀ j < s', a.toNat.testBit (7 - j) = b.toNat.testBit (7 - j)) ∧
      (s' < s + left → a.toNat.testBit (7 - s') ≠ b.toNat.testBit (7 - s')) := by
  induction left generalizing s with
  | zero => exact ⟨s, rfl, hs, Nat.le_refl _, hsame, fun h => absurd h (Nat.lt_irrefl s)⟩
  | succ left ih =>
    unfold commonBits
    split
    next hbit =>
      have hsame' : ∀ j < s + 1, a.toNat.testBit (7 - j) = b.toNat.testBit (7 - j) := by
        intro j hj
        rcases Nat.lt_succ_iff_lt_or_eq.mp hj with hj | rfl
        · exact hsame j hj
        · exact (single_mask hs).mp hbit
      have hnext : s + 1 < 8 := by
        rcases hends with hlt | hne
        · omega
        · by_contra hge
          exact hne (eq_of_testBit fun j hj => hsame' j (by omega))
      have hmask := (shift_mask hs).resolve_right (by omega)
      obtain ⟨s', heq, hs', hle, hrest⟩ := ih hnext hsame' (hends.imp_left fun h => by omega)
      rw [hmask]
      exact ⟨s', heq, hs', by omega, hrest.1, fun h => hrest.2 (by omega)⟩
    next hbit =>
      exact ⟨s, rfl, hs, Nat.le_add_right _ _, hsame, fun _ => mt (single_mask hs).mpr hbit⟩

/-- `route_common`: the first bits that are the same, in both at most as many as `p` has. -/
theorem routeCommon_spec (n : Prefix size) (hp : p.Valid) (new : Vector UInt8 size) :
    ∃ c, routeCommon n p new = some c ∧ c.prefixlen ≤ p.prefixlen ∧
      Agree n.bytes p.bytes c.prefixlen ∧ Agree c.bytes n.bytes c.prefixlen ∧
      (c.prefixlen < p.prefixlen → bitAt n.bytes c.prefixlen ≠ bitAt p.bytes c.prefixlen) := by
  have hvalid : p.prefixlen ≤ 8 * size := hp
  have hzero {np pp : Vector UInt8 size} : Agree np pp (0 * 8) := fun i hi =>
    absurd (Nat.zero_mul 8 ▸ hi) (Nat.not_lt_zero i)
  obtain ⟨newp, i, hbytes, -, hle, hsame, hcopied, hdiffer⟩ :=
    commonBytes_spec (by omega : 0 + p.prefixlen / 8 ≤ size) (hzero : Agree n.bytes p.bytes _)
      (hzero : Agree new n.bytes _)
  unfold routeCommon
  rw [hbytes]
  dsimp only [Option.bind_eq_bind, Option.bind_some]
  by_cases hlen : i * 8 ≠ p.prefixlen
  · have hi : i < size := by omega
    obtain ⟨a, ha⟩ := byte_some n.bytes hi
    obtain ⟨b, hb⟩ := byte_some p.bytes hi
    have hends : 0 + (p.prefixlen - i * 8) < 8 ∨ a ≠ b := by
      by_cases hlast : i < p.prefixlen / 8
      · refine .inr fun hab => hdiffer (by omega) ?_
        rw [ha, hb, hab]
      · exact .inl (by omega)
    obtain ⟨s, heq, hs, hsle, hbits, hbit⟩ := commonBits_spec (o := i * 8) (by decide : 0 < 8)
      (fun j hj => absurd hj (Nat.not_lt_zero j)) hends
    have hstart : (128 : UInt8) >>> UInt8.ofNat 0 = 0x80 := rfl
    rw [hstart, Nat.add_zero] at heq
    have hmod : (i * 8 + s) % 8 = s := by omega
    have hmask : maskbit[s]? = some maskbit[s] := Vector.getElem?_eq_getElem (by omega)
    rw [if_pos hlen, ha, hb]
    dsimp only [Option.bind_some]
    rw [heq, hmod, hmask]
    refine ⟨_, rfl, by dsimp only; omega, ?_, ?_, ?_⟩
    · exact agree_add.mpr ⟨hsame, (agreeAt_byte ha hb (Nat.le_of_lt hs)).mpr fun j _ hj => hbits j hj⟩
    · have hset : (newp.setIfInBounds i (a &&& maskbit[s]))[i]? = some (a &&& maskbit[s]) := by
        rw [Vector.getElem?_setIfInBounds_self, if_pos hi]
      refine agree_add.mpr ⟨fun j hj => ?_, (agreeAt_byte hset ha (Nat.le_of_lt hs)).mpr ?_⟩
      · rw [← hcopied j hj, bitAt, bitAt, Vector.getElem?_setIfInBounds_ne (by omega)]
      · intro j hj hjs
        rw [UInt8.toNat_and, Nat.testBit_and, testBit_maskbit hmask hj, decide_eq_true hjs,
          Bool.and_true]
    · intro hlt
      dsimp only at hlt ⊢
      rw [bitAt_byte ha hs, bitAt_byte hb hs]
      exact hbit (by omega)
  · rw [if_neg hlen]
    have hlen := not_not.mp hlen
    exact ⟨_, rfl, Nat.le_of_eq hlen, hsame, hcopied, fun h => absurd hlen (Nat.ne_of_lt h)⟩

/-- `route_common` is the longest common prefix, if `n` is no prefix of `p`. -/
theorem routeCommon_eq (hp : p.Valid) (hnot : ¬ n.bits <+: p.bits) (new : Vector UInt8 size) :
    ∃ c, routeCommon n p new = some c ∧ c.Valid ∧ c.bits = common n.bits p.bits := by
  obtain ⟨c, heq, hle, hsame, hcopied, hdiffer⟩ := routeCommon_spec n hp new
  have hlt : c.prefixlen < n.prefixlen := by
    by_contra hge
    refine hnot (bits_prefix_iff.mpr ⟨by omega, fun i hi => hsame i (by omega)⟩)
  have hn : c.bits <+: n.bits := bits_prefix_iff.mpr ⟨Nat.le_of_lt hlt, hcopied⟩
  have hp' : c.bits <+: p.bits :=
    bits_prefix_iff.mpr ⟨hle, fun i hi => (hcopied i hi).trans (hsame i hi)⟩
  refine ⟨c, heq, hle.trans hp, eq_common hn hp' fun b hb hb' => ?_⟩
  have hnb := next?_eq_some.mp hb
  have hpb := next?_eq_some.mp hb'
  have hltp : c.prefixlen < p.prefixlen := by
    have hlen := hpb.length_le
    rw [List.length_append, length_bits, length_bits] at hlen
    exact hlen
  have hbit {q : Prefix size} (hpre : c.bits <+: q.bits) (hq : c.bits ++ [b] <+: q.bits)
      (hcq : c.prefixlen < q.prefixlen) : bitAt q.bytes c.prefixlen = b := by
    have hself := bits_concat hcq
    have htake : (List.range c.prefixlen).map (bitAt q.bytes) = c.bits := by
      rw [← take_bits q (Nat.le_of_lt hcq)]
      exact (length_bits c ▸ List.prefix_iff_eq_take.mp hpre).symm
    rw [htake] at hself
    exact concat_prefix_inj hself hq
  exact hdiffer hltp ((hbit hn hnb hlt).trans (hbit hp' hpb hltp).symm)

end PrefixLemmas

end SrxSuite.Quagga

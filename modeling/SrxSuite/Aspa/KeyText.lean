import SrxSuite.Aspa.Families

/-!
# The key of a customer

The announcement, the withdrawal and the lookup of a customer each write its number with `%d` into a
buffer of their own, and the trie takes every character as the index of a child. The buffer in
`handleAspaPdu` has 6 characters and the one in `ASPA_DB_lookup` has 7, where the numbers have up to 10
digits, and `%d` gives the numbers from 2^31 on a minus sign.

Results:
1. `keyFaithful_iff`: the key does its work exactly for the customers below 100000.
2. `sixDigits_not_faithful`: the first customer that does not fit.
-/

namespace SrxSuite.Aspa

open DatabaseLemmas FamilyLemmas

/-- What the key of a customer owes the trie: digits only, a text no other customer has, the two
buffers, and one word for the announcement, the withdrawal and the lookup. -/
structure KeyFaithful (asn : UInt32) : Prop where
  digits : ∀ c ∈ sprintfD asn, ∃ d, position c = some d
  injective : ∀ asn', sprintfD asn' = sprintfD asn → asn' = asn
  strWord : (sprintfD asn).length + 1 ≤ 6
  strCusAsn : (sprintfD asn).length + 1 ≤ 7
  same : ∃ word : List (Fin 10), word.map digitText = sprintfD asn ∧
    (∀ db pdu afi, pdu.customerAsn = asn → pdu.afi = some afi → pdu.announce = 1 →
      handleAspaPdu db pdu = some (insertAspaObj db word
        (newASPAObject asn pdu.providerAsCount pdu.providerAsns afi), 1)) ∧
    (∀ db pdu afi, pdu.customerAsn = asn → pdu.afi = some afi → pdu.announce = 0 →
      (handleAspaPdu db pdu).map (·.1) = some (deleteTrieNodeAspaObj db word
        (newASPAObject asn pdu.providerAsCount pdu.providerAsns afi)).1) ∧
    (∀ db providerAsn afi, aspaDBLookup db asn providerAsn afi =
      some (recordResult (findAspaObject db word) providerAsn afi))

namespace KeyLemmas

variable {asn asn' : UInt32} {word : List (Fin 10)}

theorem position_digitText (d : Fin 10) : position (digitText d) = some d := by
  revert d
  decide

/-- The text of a number with the top bit set starts with a character that is no digit. -/
theorem minus_mem (h : ¬ asn.toNat < 2 ^ 31) : '-' ∈ sprintfD asn := by
  rw [sprintfD, if_neg h]
  exact List.mem_cons_self

/-- A text of digits belongs to one number. -/
theorem sprintfD_injective (h : asn.toNat < 2 ^ 31) (heq : sprintfD asn' = sprintfD asn) :
    asn' = asn := by
  have htext : sprintfD asn = Nat.toDigits 10 asn.toNat := if_pos h
  have hsmall : asn'.toNat < 2 ^ 31 := by
    by_contra hbig
    have hminus := minus_mem hbig
    rw [heq, htext] at hminus
    exact absurd (Nat.isDigit_of_mem_toDigits (by decide) (by decide) hminus) (by decide)
  have htext' : sprintfD asn' = Nat.toDigits 10 asn'.toNat := if_pos hsmall
  rw [htext, htext'] at heq
  apply UInt32.toNat_inj.mp
  rw [← Nat.ofDigitChars_ten_toDigits (n := asn'.toNat), heq, Nat.ofDigitChars_ten_toDigits]

theorem withdraw_eq (db : AspaDBManager) {pdu : AspaPdu} {afi : UInt16}
    (hword : keyWord 6 pdu.customerAsn = some word) (hafi : pdu.afi = some afi)
    (hwithdraw : pdu.announce = 0) :
    (handleAspaPdu db pdu).map (·.1) = some (deleteTrieNodeAspaObj db word
      (newASPAObject pdu.customerAsn pdu.providerAsCount pdu.providerAsns afi)).1 := by
  have hno : ¬ pdu.announce = 1 := by
    rw [hwithdraw]
    decide
  simp only [handleAspaPdu, hafi, hword, if_neg hno, if_pos hwithdraw, Option.map_some]

theorem announce_eq {db : AspaDBManager} {pdu : AspaPdu} {afi : UInt16}
    (hword : keyWord 6 pdu.customerAsn = some word) (hafi : pdu.afi = some afi)
    (hannounce : pdu.announce = 1) :
    handleAspaPdu db pdu = some (insertAspaObj db word
      (newASPAObject pdu.customerAsn pdu.providerAsCount pdu.providerAsns afi), 1) := by
  simp only [handleAspaPdu, hafi, hword, if_pos hannounce]

end KeyLemmas

open KeyLemmas

/-- The keys work for the numbers of at most five digits. -/
theorem keyFaithful_iff (asn : UInt32) : KeyFaithful asn ↔ asn.toNat < 100000 := by
  constructor
  · intro h
    -- a number of six digits does not fit, and a negative one has a character that is no digit
    have hsmall : asn.toNat < 2 ^ 31 := by
      by_contra hbig
      obtain ⟨d, hd⟩ := h.digits '-' (minus_mem hbig)
      rw [position_minus] at hd
      cases hd
    have hlen := h.strWord
    rw [show sprintfD asn = Nat.toDigits 10 asn.toNat from if_pos hsmall] at hlen
    exact (Nat.length_toDigits_le_iff (by decide) (by decide)).mp (Nat.le_of_succ_le_succ hlen)
  · intro h
    have hsmall : asn.toNat < 2 ^ 31 := Nat.lt_trans h (by decide)
    obtain ⟨word, hword⟩ := keyWord_isSome 6 (by decide) hsmall h
    have htext := keyWord_text hword
    have hfits : (sprintfD asn).length + 1 ≤ 6 := by
      by_contra hlong
      rw [keyWord, if_neg hlong] at hword
      cases hword
    refine
      { digits := ?_
        injective := fun asn' heq => sprintfD_injective hsmall heq
        strWord := hfits
        strCusAsn := Nat.le_succ_of_le hfits
        same := ⟨word, htext.symm, ?_, ?_, ?_⟩ }
    · intro c hc
      rw [htext] at hc
      obtain ⟨d, -, rfl⟩ := List.mem_map.mp hc
      exact ⟨d, position_digitText d⟩
    · rintro db pdu afi rfl hafi hannounce
      exact announce_eq hword hafi hannounce
    · rintro db pdu afi rfl hafi hwithdraw
      exact withdraw_eq db hword hafi hwithdraw
    · intro db providerAsn afi
      exact lookup_at hword providerAsn afi

/-- `sprintf` writes seven characters for 100000, with the terminator, into six. -/
theorem sixDigits_not_faithful : ¬ KeyFaithful 100000 := by
  intro h
  exact absurd h.strWord (by decide)

end SrxSuite.Aspa

import SrxSuite.Lib.Fields
import SrxSuite.Server.Identity

/-!
# The text of an identifier

The buffer `generateIdentifier` (`shared/srx_identifier.c`) prints into, write by write. It has two
characters for each byte of the data and none for a terminator, and every `sprintf` writes one: the last
leaves the buffer. A byte of the blob is printed as a signed character, so a byte from 128 on is eight
characters `FFFFFFxx`, of which the next byte leaves the first two.

Results:
1. `identifierText_eq`, `generateIdentifier_eq`: the text that goes into the checksum.
2. `textInjective_iff`: the text tells an update from all others if and only if its blob has no byte
   from 128 on.
3. `text_not_faithful`: for no update do all writes stay inside.
4. `highBytes_equal`: two blobs with one text.
-/

namespace SrxSuite.Server

open Bytes

/-! ## The writes -/

/-- What `sprintf("%02X", *(char*)blob)` writes for a byte, without the terminator. -/
def signedText (n : UInt8) : Bytes :=
  if n < 128 then hexByte n else List.replicate 6 (hexDigit 15) ++ hexByte n

/-- A `sprintf` for each byte, two characters after the one before. -/
def printBytes (print : UInt8 → Bytes) (dataPtr : Nat) : List UInt8 → List Field
  | [] => []
  | n :: ns => (dataPtr, print n ++ [0]) :: printBytes print (dataPtr + 2) ns

/-- The bytes of an address, `prefixSize`. -/
def prefixSize (p : IPPrefix) : Nat :=
  match p.ip with
  | .v4 _ => 4
  | .v6 _ => 16

/-- The writes for the prefix. -/
def printPrefix (p : IPPrefix) : List Field :=
  match p.ip with
  | .v4 u32 => [(8, hexWord u32 ++ hexByte p.length ++ [0])]
  | .v6 u8 => printBytes hexByte 8 u8.toList ++ [(40, hexByte p.length ++ [0])]

/-- `length`, the size of `dataText`. -/
def dataTextLength (p : IPPrefix) (blob : List UInt8) : Nat :=
  (4 + prefixSize p + 1 + blob.length) * 2

/-- All writes of `generateIdentifier` into the text. -/
def identifierWrites (originAS : UInt32) (p : IPPrefix) (blob : List UInt8) : List Field :=
  (0, hexWord originAS ++ [0]) :: (printPrefix p ++
    printBytes signedText ((4 + prefixSize p + 1) * 2) blob)

/-- The text that goes into `crc32`: the first `length` characters. Eight behind them are taken to be
writable. -/
def identifierText (originAS : UInt32) (p : IPPrefix) (blob : List UInt8) : Option Bytes :=
  (writeAll (identifierWrites originAS p blob)
    (List.replicate (dataTextLength p blob + 8) 0)).map (·.take (dataTextLength p blob))

/-- Two prefixes of one address version. -/
def SameVersion (p q : IPPrefix) : Prop := prefixSize p = prefixSize q

/-- No other origin AS, prefix and blob of this version and length has the text. -/
def TextInjective (originAS : UInt32) (p : IPPrefix) (blob : List UInt8) : Prop :=
  ∀ originAS' q blob', SameVersion q p → blob'.length = blob.length →
    identifierText originAS' q blob' = identifierText originAS p blob →
      originAS' = originAS ∧ q = p ∧ blob' = blob

/-- Every write stays inside the text. -/
def WritesInside (originAS : UInt32) (p : IPPrefix) (blob : List UInt8) : Prop :=
  ∀ f ∈ identifierWrites originAS p blob, f.1 + f.2.length ≤ dataTextLength p blob

/-- The text is faithful. -/
def TextFaithful (originAS : UInt32) (p : IPPrefix) (blob : List UInt8) : Prop :=
  TextInjective originAS p blob ∧ WritesInside originAS p blob

/-! ## The text -/

namespace IdentifierTextLemmas

variable {done tail : Bytes}

theorem length_hexByte (n : UInt8) : (hexByte n).length = 2 := rfl

theorem length_hexWord (n : UInt32) : (hexWord n).length = 8 := rfl

theorem length_hexChar (n : UInt8) : (hexChar n).length = 2 := by
  unfold hexChar
  split
  · rfl
  · rfl

theorem length_texts {text : UInt8 → Bytes} (htext : ∀ n, (text n).length = 2) (ns : List UInt8) :
    (ns.flatMap text).length = ns.length * 2 := by
  induction ns with
  | nil => rfl
  | cons n ns ih => rw [List.flatMap_cons, List.length_append, htext, ih, List.length_cons, Nat.succ_mul,
      Nat.add_comm]

/-- A write behind what is done. -/
theorem writeAt_tail (done tail : Bytes) (bs : Bytes) (h : bs.length ≤ tail.length) :
    (done ++ tail).writeAt done.length bs = some (done ++ (bs ++ tail.drop bs.length)) := by
  have hmiddle := writeAt_middle done (tail.take bs.length) (tail.drop bs.length) bs
    (List.length_take_of_le h).symm
  rw [List.append_assoc, List.take_append_drop, List.append_assoc] at hmiddle
  exact hmiddle

/-- Of what is printed for each byte the first two characters stay. -/
theorem writeAll_printBytes {print text : UInt8 → Bytes}
    (hprint : ∀ n, ∃ rest, print n = text n ++ rest ∧ rest.length ≤ 6)
    (htext : ∀ n, (text n).length = 2) (ns : List UInt8) (done tail : Bytes)
    (hroom : 2 * ns.length + 8 ≤ tail.length) :
    ∃ tail', writeAll (printBytes print done.length ns) (done ++ tail) =
        some (done ++ ns.flatMap text ++ tail') ∧ tail'.length = tail.length - 2 * ns.length := by
  induction ns generalizing done tail with
  | nil => exact ⟨tail, by simp [printBytes, writeAll], rfl⟩
  | cons n ns ih =>
    obtain ⟨rest, hn, hrest⟩ := hprint n
    rw [List.length_cons] at hroom
    have hlen : (print n ++ [0]).length = 3 + rest.length := by
      rw [hn, List.length_append, List.length_append, htext, List.length_singleton]
      omega
    have hfirst : writeAll (printBytes print done.length (n :: ns)) (done ++ tail) =
        writeAll (printBytes print (done ++ text n).length ns)
          ((done ++ text n) ++ (rest ++ [0] ++ tail.drop (3 + rest.length))) := by
      rw [printBytes, writeAll, writeAt_tail _ _ _ (by rw [hlen]; omega), Option.bind_some, hlen, hn,
        List.length_append, htext]
      simp only [List.append_assoc]
    obtain ⟨tail', heq, htail'⟩ := ih (done ++ text n) (rest ++ [0] ++ tail.drop (3 + rest.length)) (by
      simp only [List.length_append, List.length_drop, List.length_singleton]
      omega)
    refine ⟨tail', ?_, ?_⟩
    · rw [hfirst, heq, List.flatMap_cons, List.append_assoc done (text n)]
    · rw [htail', List.length_cons]
      simp only [List.length_append, List.length_drop, List.length_singleton]
      omega

theorem signedText_eq (n : UInt8) :
    ∃ rest, signedText n = hexChar n ++ rest ∧ rest.length ≤ 6 := by
  unfold signedText hexChar
  split
  · exact ⟨[], (List.append_nil _).symm, Nat.zero_le _⟩
  · exact ⟨List.replicate 4 (hexDigit 15) ++ hexByte n, rfl, Nat.le_refl _⟩

theorem hexByte_eq (n : UInt8) : ∃ rest, hexByte n = hexByte n ++ rest ∧ rest.length ≤ 6 :=
  ⟨[], (List.append_nil _).symm, Nat.zero_le _⟩

theorem length_prefixText (p : IPPrefix) : (prefixText p).length = (prefixSize p + 1) * 2 := by
  unfold prefixText prefixSize
  cases p.ip with
  | v4 u32 => rfl
  | v6 u8 =>
    rw [List.length_append, length_texts length_hexByte, Vector.length_toList]
    rfl

/-- The writes for the prefix, behind the origin AS. -/
theorem writeAll_printPrefix (done tail : Bytes) (p : IPPrefix) (hdone : done.length = 8)
    (hroom : (prefixSize p + 1) * 2 + 8 ≤ tail.length) :
    ∃ tail', writeAll (printPrefix p) (done ++ tail) = some (done ++ prefixText p ++ tail') ∧
      tail'.length = tail.length - (prefixSize p + 1) * 2 := by
  unfold printPrefix prefixText
  unfold prefixSize at hroom ⊢
  cases hip : p.ip with
  | v4 u32 =>
    rw [hip] at hroom
    refine ⟨0 :: tail.drop 11, ?_, ?_⟩
    · have hlen : (hexWord u32 ++ hexByte p.length ++ [0]).length = 11 := rfl
      dsimp only at hroom
      rw [writeAll, ← hdone, writeAt_tail _ _ _ (by rw [hlen]; omega), Option.bind_some, writeAll, hlen]
      simp only [List.append_assoc, List.singleton_append]
    · dsimp only at hroom ⊢
      rw [List.length_cons, List.length_drop]
      omega
  | v6 u8 =>
    rw [hip] at hroom
    dsimp only at hroom ⊢
    have hsize : u8.toList.length = 16 := by simp
    obtain ⟨rest, hbytes, hrest⟩ := writeAll_printBytes hexByte_eq length_hexByte u8.toList done tail
      (by rw [hsize]; omega)
    have hlen : (done ++ u8.toList.flatMap hexByte).length = 40 := by
      rw [List.length_append, hdone, length_texts length_hexByte, hsize]
    have hthree : (hexByte p.length ++ [0]).length = 3 := rfl
    rw [hsize] at hrest
    refine ⟨0 :: rest.drop 3, ?_, ?_⟩
    · rw [writeAll_append, ← hdone, hbytes, Option.bind_some, writeAll, ← hlen,
        writeAt_tail _ _ _ (by rw [hthree]; omega), Option.bind_some, writeAll, hthree]
      simp only [List.append_assoc, List.singleton_append]
    · rw [List.length_cons, List.length_drop, hrest]
      omega

end IdentifierTextLemmas

open IdentifierTextLemmas

/-- The text: the origin AS, the prefix, and two characters for each byte of the blob. -/
theorem identifierText_eq (originAS : UInt32) (p : IPPrefix) (blob : List UInt8) :
    identifierText originAS p blob =
      some (hexWord originAS ++ prefixText p ++ blob.flatMap hexChar) := by
  have hnine : (hexWord originAS ++ [0]).length = 9 := rfl
  have hlength : dataTextLength p blob + 8 = 8 + ((prefixSize p + 1) * 2 + 2 * blob.length + 8) := by
    unfold dataTextLength
    omega
  generalize htail : List.replicate (dataTextLength p blob + 8) (0 : UInt8) = buffer
  have hbuffer : buffer.length = dataTextLength p blob + 8 := by
    rw [← htail, List.length_replicate]
  -- the origin AS, the prefix, the blob
  have horigin : Bytes.writeAt buffer 0 (hexWord originAS ++ [0]) =
      some (hexWord originAS ++ ([0] ++ buffer.drop 9)) := by
    have hwrite := writeAt_tail [] buffer (hexWord originAS ++ [0])
      (by rw [hnine, hbuffer]; omega)
    rw [hnine, List.append_assoc] at hwrite
    exact hwrite
  obtain ⟨tail₁, hprefix, htail₁⟩ := writeAll_printPrefix (hexWord originAS)
    ([0] ++ buffer.drop 9) p rfl (by
      rw [List.length_append, List.length_drop, hbuffer, List.length_singleton]
      omega)
  have hdone : (hexWord originAS ++ prefixText p).length = (4 + prefixSize p + 1) * 2 := by
    rw [List.length_append, length_prefixText, length_hexWord]
    omega
  obtain ⟨tail₂, hblob, htail₂⟩ := writeAll_printBytes signedText_eq length_hexChar blob
    (hexWord originAS ++ prefixText p) tail₁ (by
      rw [htail₁, List.length_append, List.length_drop, hbuffer, List.length_singleton]
      omega)
  have hall : writeAll (identifierWrites originAS p blob) buffer =
      some (hexWord originAS ++ prefixText p ++ blob.flatMap hexChar ++ tail₂) := by
    rw [identifierWrites, writeAll, horigin, Option.bind_some, writeAll_append, hprefix,
      Option.bind_some, ← hdone, hblob]
  have htext : (hexWord originAS ++ prefixText p ++ blob.flatMap hexChar).length =
      dataTextLength p blob := by
    rw [List.length_append, hdone, length_texts length_hexChar, dataTextLength, ← Nat.add_mul]
  rw [identifierText, htail, hall, Option.map_some, ← htext, List.take_left]

/-- The identifier is the checksum of the text. -/
theorem generateIdentifier_eq (u : UpdateData) :
    (identifierText u.asn u.ipPrefix (identifierBlob u)).map crc32 = some (generateIdentifier u) := by
  rw [identifierText_eq]
  rfl

/-! ## What the text tells apart -/

namespace IdentifierTextLemmas

theorem hexByte_inj {a b : UInt8} (h : hexByte a = hexByte b) : a = b := by
  have ha := a.toNat_lt
  have hb := b.toNat_lt
  obtain ⟨hhigh, hlow⟩ := List.cons.inj h
  obtain ⟨hlow, -⟩ := List.cons.inj hlow
  have h1 := PathCacheLemmas.hexDigit_inj (Nat.div_lt_of_lt_mul ha) (Nat.div_lt_of_lt_mul hb) hhigh
  have h0 := PathCacheLemmas.hexDigit_inj (Nat.mod_lt _ (by decide)) (Nat.mod_lt _ (by decide)) hlow
  apply UInt8.toNat_inj.mp
  rw [← Nat.div_add_mod a.toNat 16, ← Nat.div_add_mod b.toNat 16, h1, h0]

/-- A byte below 128 is the only one with its characters: no such byte begins with an F. -/
theorem hexChar_inj {a b : UInt8} (hb : b < 128) (h : hexChar a = hexChar b) : a = b := by
  unfold hexChar at h
  rw [if_pos hb] at h
  split at h
  · exact hexByte_inj h
  · obtain ⟨hhigh, -⟩ := List.cons.inj h
    have hlt : b.toNat < 128 := UInt8.lt_iff_toNat_lt.mp hb
    have hdigit := PathCacheLemmas.hexDigit_inj (by decide) (Nat.div_lt_of_lt_mul b.toNat_lt) hhigh
    omega

/-- Texts of two characters each are read back where each is injective. -/
theorem texts_inj {text : UInt8 → Bytes} (htext : ∀ n, (text n).length = 2) {ns ns' : List UInt8}
    (hinj : ∀ n ∈ ns, ∀ n', text n' = text n → n' = n) (hlen : ns'.length = ns.length)
    (h : ns'.flatMap text = ns.flatMap text) : ns' = ns := by
  induction ns generalizing ns' with
  | nil => exact List.length_eq_zero_iff.mp hlen
  | cons n ns ih =>
    cases ns' with
    | nil => cases hlen
    | cons n' ns' =>
      rw [List.flatMap_cons, List.flatMap_cons] at h
      obtain ⟨hfirst, hrest⟩ := List.append_inj h ((htext n').trans (htext n).symm)
      have hn := hinj n List.mem_cons_self n' hfirst
      have hns := ih (fun m hm => hinj m (List.mem_cons_of_mem _ hm)) (Nat.succ.inj hlen) hrest
      rw [hn, hns]

theorem prefixText_inj {p q : IPPrefix} (hversion : SameVersion q p)
    (h : prefixText q = prefixText p) : q = p := by
  obtain ⟨ip, plen⟩ := p
  obtain ⟨iq, qlen⟩ := q
  cases ip with
  | v4 u =>
    cases iq with
    | v4 u' =>
      obtain ⟨hword, hbyte⟩ := List.append_inj (show hexWord u' ++ hexByte qlen =
        hexWord u ++ hexByte plen from h) rfl
      rw [PathCacheLemmas.hexWord_inj hword, hexByte_inj hbyte]
    | v6 => cases hversion
  | v6 u =>
    cases iq with
    | v4 => cases hversion
    | v6 u' =>
      have hsize : u'.toList.length = u.toList.length := by
        rw [Vector.length_toList, Vector.length_toList]
      obtain ⟨hbytes, hbyte⟩ := List.append_inj (show u'.toList.flatMap hexByte ++ hexByte qlen =
        u.toList.flatMap hexByte ++ hexByte plen from h) (by
          rw [length_texts length_hexByte, length_texts length_hexByte, hsize])
      have hlist := texts_inj length_hexByte (fun n _ n' => hexByte_inj) hsize hbytes
      rw [Vector.toList_inj.mp hlist, hexByte_inj hbyte]

/-- The last write begins two characters before the end of the text. -/
theorem printBytes_last (print : UInt8 → Bytes) (dataPtr : Nat) (ns : List UInt8) (n : UInt8) :
    (dataPtr + 2 * ns.length, print n ++ [0]) ∈ printBytes print dataPtr (ns ++ [n]) := by
  induction ns generalizing dataPtr with
  | nil => exact List.mem_singleton.mpr rfl
  | cons m ns ih =>
    have hrest := ih (dataPtr + 2)
    rw [Nat.add_assoc, Nat.add_comm 2, ← Nat.mul_succ] at hrest
    exact List.mem_cons_of_mem _ hrest

theorem two_le_signedText (n : UInt8) : 2 ≤ (signedText n).length := by
  unfold signedText
  split
  · exact Nat.le_refl 2
  · exact (by decide : 2 ≤ 8)

end IdentifierTextLemmas

/-- A byte from 128 on has the characters of every other such byte. -/
theorem textInjective_iff (originAS : UInt32) (p : IPPrefix) (blob : List UInt8) :
    TextInjective originAS p blob ↔ ∀ n ∈ blob, n < 128 := by
  constructor
  · intro h n hmem
    by_contra hbig
    obtain ⟨before, after, rfl⟩ := List.append_of_mem hmem
    -- another byte from 128 on in its place
    obtain ⟨n', hn', hne⟩ : ∃ n' : UInt8, ¬ n' < 128 ∧ n' ≠ n := by
      by_cases heq : n = 128
      · exact ⟨129, by decide, by rw [heq]; decide⟩
      · exact ⟨128, by decide, fun hsame => heq hsame.symm⟩
    have hchar : hexChar n' = hexChar n := by
      rw [hexChar, hexChar, if_neg hn', if_neg hbig]
    obtain ⟨-, -, hblob⟩ := h originAS p (before ++ n' :: after) rfl
      (by rw [List.length_append, List.length_append, List.length_cons, List.length_cons]) (by
        rw [identifierText_eq, identifierText_eq, List.flatMap_append, List.flatMap_append,
          List.flatMap_cons, List.flatMap_cons, hchar])
    obtain ⟨hsame, -⟩ := List.cons.inj (List.append_cancel_left hblob)
    exact hne hsame
  · intro h originAS' q blob' hversion hlen htext
    rw [identifierText_eq, identifierText_eq] at htext
    have hsize : (prefixText q).length = (prefixText p).length := by
      rw [length_prefixText, length_prefixText, show prefixSize q = prefixSize p from hversion]
    obtain ⟨hhead, hblob⟩ := List.append_inj' (Option.some.inj htext) (by
      rw [length_texts length_hexChar, length_texts length_hexChar, hlen])
    obtain ⟨hword, hprefix⟩ := List.append_inj' hhead hsize
    exact ⟨PathCacheLemmas.hexWord_inj hword, prefixText_inj hversion hprefix,
      texts_inj length_hexChar (fun n hn n' => hexChar_inj (h n hn)) hlen hblob⟩

/-- The terminator of the last write is behind the text. -/
theorem not_writesInside (originAS : UInt32) (p : IPPrefix) (blob : List UInt8) :
    ¬ WritesInside originAS p blob := by
  intro h
  rcases List.eq_nil_or_concat blob with rfl | ⟨ns, n, rfl⟩
  · -- without a blob the prefix is last
    obtain ⟨ip, plen⟩ := p
    cases ip with
    | v4 u32 =>
      have hlast := h (8, hexWord u32 ++ hexByte plen ++ [0])
        (List.mem_cons_of_mem _ (List.mem_append_left _ List.mem_cons_self))
      exact absurd hlast (by decide : ¬ 8 + 11 ≤ 18)
    | v6 u8 =>
      have hlast := h (40, hexByte plen ++ [0]) (List.mem_cons_of_mem _ (List.mem_append_left _
        (List.mem_append_right _ List.mem_cons_self)))
      exact absurd hlast (by decide : ¬ 40 + 3 ≤ 42)
  · rw [List.concat_eq_append] at h
    have hlast := h _ (List.mem_cons_of_mem _ (List.mem_append_right _
      (printBytes_last signedText ((4 + prefixSize p + 1) * 2) ns n)))
    have htwo := two_le_signedText n
    simp only [dataTextLength, List.length_append, List.length_singleton] at hlast
    omega

/-- No update has a text that is faithful. -/
theorem text_not_faithful (originAS : UInt32) (p : IPPrefix) (blob : List UInt8) :
    ¬ TextFaithful originAS p blob :=
  fun h => not_writesInside originAS p blob h.2

/-- An AS path byte 128 and an AS path byte 129 give one text, and both texts overflow their buffer. -/
theorem highBytes_equal :
    identifierText 65001 ⟨.v4 0x0A000000, 8⟩ [128] = identifierText 65001 ⟨.v4 0x0A000000, 8⟩ [129] ∧
      ¬ TextFaithful 65001 ⟨.v4 0x0A000000, 8⟩ [128] := by
  have hsame : identifierText 65001 ⟨.v4 0x0A000000, 8⟩ [129] =
      identifierText 65001 ⟨.v4 0x0A000000, 8⟩ [128] := by
    rw [identifierText_eq, identifierText_eq]
    rfl
  refine ⟨hsame.symm, ?_⟩
  rintro ⟨hinjective, -⟩
  obtain ⟨-, -, hblob⟩ := hinjective 65001 ⟨.v4 0x0A000000, 8⟩ [129] rfl rfl hsame
  exact absurd hblob (by decide)

end SrxSuite.Server

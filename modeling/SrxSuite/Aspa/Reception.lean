import SrxSuite.Aspa.KeyText
import SrxSuite.Lib.Fields

/-!
# ASPA PDUs from the cache

The model of `handleReceiveAspaPdu` (`server/rpki_router_client.c`), which takes an ASPA PDU apart and
calls `handleAspaPdu` with it. The family goes over as the bit `flags & 0x02`, so it is 0 or 2, and
`handleAspaPdu` knows 0 and 1: no PDU for IPv6 is ever stored.

Results:
1. `received_eq`: what is handed over of a well formed PDU.
2. `delivered_iff`: an announcement can be looked up and a withdrawal removes it, exactly for IPv4 and
   the customers with a key.
3. `ipv6_not_delivered`: a PDU for IPv6.
-/

namespace SrxSuite.Aspa

open Bytes DatabaseLemmas FamilyLemmas KeyLemmas

/-! ## The PDU -/

/-- A well formed ASPA PDU, `RPKIASPAHeader` and the list behind it. There is at least one provider. -/
structure AspaRecord where
  version : UInt8
  flags : UInt8
  customerAsn : UInt32
  providerAsns : List UInt32
  provided : 0 < providerAsns.length
  counted : providerAsns.length < 2 ^ 16

/-- `sizeof(RPKIASPAHeader)` -/
def aspaHeaderSize : Nat := 16

/-- The bytes on the wire. `PDU_TYPE_ASPA` is 11. -/
def AspaRecord.bytes (p : AspaRecord) : Bytes :=
  [p.version] ++ ([11] ++ (be16 0 ++
    (be32 (UInt32.ofNat (aspaHeaderSize + 4 * p.providerAsns.length)) ++ ([p.flags] ++ ([0] ++
      (be16 (UInt16.ofNat p.providerAsns.length) ++ (be32 p.customerAsn ++
        p.providerAsns.flatMap be32)))))))

/-- The PDU in the receive buffer. -/
def AspaRecord.received (p : AspaRecord) : Memory := fun i => p.bytes.getD i 0

/-- `handleReceiveAspaPdu`: the arguments of `cbHandleAspaPdu`. -/
def handleReceiveAspaPdu (hdr : Memory) : AspaPdu where
  customerAsn := hdr.u32 12
  providerAsCount := hdr.u16 10
  providerAsns := (List.range (hdr.u16 10).toNat).map fun idx => hdr.u32 (aspaHeaderSize + 4 * idx)
  addrFamilyType := hdr 8 &&& 0x02
  announce := hdr 8 &&& 0x01
  enough := by rw [List.length_map, List.length_range]

/-- The record as an announcement and as a withdrawal, with the other flags as they are. -/
def AspaRecord.announcement (p : AspaRecord) : AspaRecord := { p with flags := p.flags ||| 0x01 }
def AspaRecord.withdrawal (p : AspaRecord) : AspaRecord := { p with flags := p.flags &&& 0xFE }

/-- The family the flags say, as a lookup asks for it. -/
def AspaRecord.family (p : AspaRecord) : UInt8 := if p.flags &&& 0x02 = 0 then 1 else 2

/-- The handler is given the PDU. -/
def receive (db : AspaDBManager) (p : AspaRecord) : Option (AspaDBManager × Nat) :=
  handleAspaPdu db (handleReceiveAspaPdu p.received)

/-- The database after some PDUs. -/
def receiveAll (ps : List AspaRecord) : Option AspaDBManager :=
  runPdus initializeAspaDBManager (ps.map fun p => handleReceiveAspaPdu p.received)

/-- After the announcement the lookup for its family is VALID exactly for the providers of the PDU, and
the withdrawal makes the customer UNKNOWN again. -/
def Delivered (db : AspaDBManager) (p : AspaRecord) : Prop :=
  ∃ db₁ ret₁ db₂ ret₂, receive db p.announcement = some (db₁, ret₁) ∧
    (∀ providerAsn, aspaDBLookup db₁ p.customerAsn providerAsn p.family =
      some (if providerAsn ∈ p.providerAsns then .valid else .invalid)) ∧
    receive db₁ p.withdrawal = some (db₂, ret₂) ∧
    ∀ providerAsn, aspaDBLookup db₂ p.customerAsn providerAsn p.family = some .unknown

/-! ## What is handed over -/

namespace ReceptionLemmas

variable {db db' : AspaDBManager} {p : AspaRecord} {word : List (Fin 10)}

theorem holds_received (p : AspaRecord) : p.received.Holds 0 p.bytes := by
  intro i x hx
  show p.bytes.getD (0 + i) 0 = x
  rw [Nat.zero_add, List.getD_eq_getElem?_getD, hx]
  rfl

/-- Every field of a well formed PDU arrives. -/
theorem received_eq (p : AspaRecord) :
    (handleReceiveAspaPdu p.received).customerAsn = p.customerAsn ∧
      (handleReceiveAspaPdu p.received).providerAsCount = UInt16.ofNat p.providerAsns.length ∧
      (handleReceiveAspaPdu p.received).providerAsns = p.providerAsns ∧
      (handleReceiveAspaPdu p.received).addrFamilyType = p.flags &&& 0x02 ∧
      (handleReceiveAspaPdu p.received).announce = p.flags &&& 0x01 := by
  have hlength := (holds_received p).right.right.right
  have hflags := hlength.right
  have hcount := hflags.right.right
  have hcustomer := hcount.right
  have hproviders := hcustomer.right
  have h8 : p.received 8 = p.flags := hflags.left.byte
  have h10 : p.received.u16 10 = UInt16.ofNat p.providerAsns.length := hcount.left.u16
  have hlen : (p.received.u16 10).toNat = p.providerAsns.length := by
    rw [h10, UInt16.toNat_ofNat', Nat.mod_eq_of_lt p.counted]
  refine ⟨hcustomer.left.u32, h10, ?_, ?_, ?_⟩
  · show (List.range (p.received.u16 10).toNat).map _ = _
    rw [hlen]
    exact hproviders.words
  · show p.received 8 &&& 0x02 = _
    rw [h8]
  · show p.received 8 &&& 0x01 = _
    rw [h8]

/-! ## The flags -/

theorem flags_facts (flags : UInt8) :
    (flags ||| 0x01) &&& 0x01 = 1 ∧ (flags &&& 0xFE) &&& 0x01 = 0 ∧
      (flags ||| 0x01) &&& 0x02 = flags &&& 0x02 ∧ (flags &&& 0xFE) &&& 0x02 = flags &&& 0x02 ∧
      (flags &&& 0x02 = 0 ∨ flags &&& 0x02 = 2) := by
  have hall : ∀ n : Fin 256, (UInt8.ofFin n ||| 0x01) &&& 0x01 = 1 ∧
      (UInt8.ofFin n &&& 0xFE) &&& 0x01 = 0 ∧
      (UInt8.ofFin n ||| 0x01) &&& 0x02 = UInt8.ofFin n &&& 0x02 ∧
      (UInt8.ofFin n &&& 0xFE) &&& 0x02 = UInt8.ofFin n &&& 0x02 ∧
      (UInt8.ofFin n &&& 0x02 = 0 ∨ UInt8.ofFin n &&& 0x02 = 2) := by decide +kernel
  exact hall flags.toFin

/-- The family and the flag of a PDU at the handler: the bit for IPv6 is 2 there, which is no family. -/
theorem afi_received (p : AspaRecord) :
    (handleReceiveAspaPdu p.received).afi = if p.flags &&& 0x02 = 0 then some afiIP else none := by
  obtain ⟨-, -, -, hfamily, -⟩ := received_eq p
  obtain ⟨-, -, -, -, hbit⟩ := flags_facts p.flags
  unfold AspaPdu.afi
  rw [hfamily]
  rcases hbit with h | h
  · rw [h]
    rfl
  · rw [h]
    rfl

/-! ## The database -/

/-- Only records for IPv4 are stored. -/
theorem stored_ipv4 {ps : List AspaRecord} {word : List (Fin 10)} {obj : AspaObject}
    (h : receiveAll ps = some db) (hfind : findAspaObject db word = some obj) : obj.afi = afiIP := by
  have hrun : ∀ (ps : List AspaRecord) (db₀ : AspaDBManager),
      (∀ word obj, findAspaObject db₀ word = some obj → obj.afi = afiIP) →
      runPdus db₀ (ps.map fun p => handleReceiveAspaPdu p.received) = some db →
      ∀ word obj, findAspaObject db word = some obj → obj.afi = afiIP := by
    intro ps
    induction ps with
    | nil =>
      intro db₀ h₀ h
      cases h
      exact h₀
    | cons p ps ih =>
      intro db₀ h₀ h
      obtain ⟨⟨db₁, ret⟩, hstep, hrest⟩ := Option.bind_eq_some_iff.mp h
      refine ih db₁ ?_ hrest
      rcases handleAspaPdu_cases hstep with ⟨rfl, -⟩ | ⟨obj, w, hobj, -, ⟨-, rfl⟩ | ⟨-, rfl, -⟩⟩
      · exact h₀
      · intro word' obj' hfind
        rw [find_insertAspaObj] at hfind
        split at hfind
        · obtain rfl := Option.some.inj hfind
          obtain ⟨hafi, -⟩ := object?_afi hobj
          rw [afi_received] at hafi
          split at hafi
          · exact (Option.some.inj hafi).symm
          · cases hafi
        · exact h₀ word' obj' hfind
      · intro word' obj' hfind
        rw [find_erase] at hfind
        split at hfind
        · cases hfind
        · exact h₀ word' obj' hfind
  refine hrun ps initializeAspaDBManager ?_ h word obj hfind
  intro word obj hfind
  cases word with
  | nil => simp [findAspaObject, initializeAspaDBManager, makeTrienode] at hfind
  | cons digit word => simp [findAspaObject, initializeAspaDBManager] at hfind

/-- A lookup for the family of a record finds its providers. -/
theorem recordResult_eq {obj : AspaObject} {afi : UInt8} (hafi : obj.afi = afi.toUInt16)
    (hcount : obj.providerAsCount.toNat = obj.providerAsns.length) (providerAsn : UInt32) :
    recordResult (some obj) providerAsn afi =
      if providerAsn ∈ obj.providerAsns then .valid else .invalid := by
  have hany : ((List.range obj.providerAsCount.toNat).any fun idx =>
      obj.providerAsns.getD idx 0 == providerAsn && obj.afi == afi.toUInt16) = true ↔
        providerAsn ∈ obj.providerAsns := by
    rw [List.any_eq_true, hcount]
    constructor
    · rintro ⟨idx, hidx, hmatch⟩
      rw [List.mem_range] at hidx
      obtain ⟨heq, -⟩ := (Bool.and_eq_true _ _).mp hmatch
      rw [List.getD_eq_getElem?_getD, List.getElem?_eq_getElem hidx, beq_iff_eq] at heq
      rw [← heq]
      exact List.getElem_mem hidx
    · intro hmem
      obtain ⟨idx, hidx, rfl⟩ := List.getElem_of_mem hmem
      refine ⟨idx, List.mem_range.mpr hidx, ?_⟩
      rw [List.getD_eq_getElem?_getD, List.getElem?_eq_getElem hidx, hafi]
      simp
  show (if _ then AspaResult.valid else AspaResult.invalid) = _
  exact if_congr hany rfl rfl

/-- The object of a PDU for IPv4. -/
theorem object_received (p : AspaRecord) (afi : UInt16) :
    newASPAObject (handleReceiveAspaPdu p.received).customerAsn
        (handleReceiveAspaPdu p.received).providerAsCount
        (handleReceiveAspaPdu p.received).providerAsns afi =
      ⟨p.customerAsn, UInt16.ofNat p.providerAsns.length, p.providerAsns, afi⟩ := by
  obtain ⟨hcustomer, hcount, hproviders, -, -⟩ := received_eq p
  rw [hcustomer, hcount, hproviders, newASPAObject, UInt16.toNat_ofNat', Nat.mod_eq_of_lt p.counted,
    List.take_length]

/-- The withdrawal of the record that is stored. -/
theorem withdraw_found {obj : AspaObject} (hfind : findAspaObject db word = some obj)
    (hsame : compareAspaObject obj obj = true) :
    (deleteTrieNodeAspaObj db word obj).1 = ⟨db.tableRoot.erase word, db.countAspaObj - 1⟩ := by
  rcases deleteTrieNodeAspaObj_cases db word obj with ⟨-, hnone⟩ | ⟨heq, -⟩
  · have hdiffers := hnone obj hfind
    rw [hsame] at hdiffers
    cases hdiffers
  · exact heq

/-- A record for IPv4 of a customer with a key is delivered. -/
theorem delivered_ipv4 (db : AspaDBManager) (hfamily : p.flags &&& 0x02 = 0)
    (hword : keyWord 6 p.customerAsn = some word) : Delivered db p := by
  obtain ⟨hset, hclear, hset2, hclear2, -⟩ := flags_facts p.flags
  obtain ⟨hcustomer, -, -, -, hann⟩ := received_eq p.announcement
  obtain ⟨hcustomer', -, -, -, hwit⟩ := received_eq p.withdrawal
  have hafi : (handleReceiveAspaPdu p.announcement.received).afi = some afiIP :=
    (afi_received p.announcement).trans (if_pos (hset2.trans hfamily))
  have hafi' : (handleReceiveAspaPdu p.withdrawal.received).afi = some afiIP :=
    (afi_received p.withdrawal).trans (if_pos (hclear2.trans hfamily))
  have hannounced : receive db p.announcement = some (insertAspaObj db word
      ⟨p.customerAsn, UInt16.ofNat p.providerAsns.length, p.providerAsns, afiIP⟩, 1) := by
    rw [receive, announce_eq (hcustomer.symm ▸ hword) hafi (hann.trans hset), object_received]
    rfl
  have hfound : findAspaObject (insertAspaObj db word
      ⟨p.customerAsn, UInt16.ofNat p.providerAsns.length, p.providerAsns, afiIP⟩) word = some
        ⟨p.customerAsn, UInt16.ofNat p.providerAsns.length, p.providerAsns, afiIP⟩ := by
    rw [find_insertAspaObj, if_pos rfl]
  have hlen : (UInt16.ofNat p.providerAsns.length).toNat = p.providerAsns.length := by
    rw [UInt16.toNat_ofNat', Nat.mod_eq_of_lt p.counted]
  have hwithdrawn := withdraw_eq (insertAspaObj db word
    ⟨p.customerAsn, UInt16.ofNat p.providerAsns.length, p.providerAsns, afiIP⟩)
    (hcustomer'.symm ▸ hword) hafi' (hwit.trans hclear)
  rw [object_received, show p.withdrawal.customerAsn = p.customerAsn from rfl,
    show p.withdrawal.providerAsns = p.providerAsns from rfl,
    withdraw_found hfound ((compareAspaObject_iff hlen.symm hlen.symm).mpr rfl)] at hwithdrawn
  obtain ⟨⟨db₂, ret₂⟩, hreceive, rfl⟩ := Option.map_eq_some_iff.mp hwithdrawn
  have hipv4 : p.family = 1 := if_pos hfamily
  refine ⟨_, 1, _, ret₂, hannounced, ?_, hreceive, ?_⟩
  · intro providerAsn
    rw [lookup_at hword, hfound, hipv4, recordResult_eq rfl hlen]
  · intro providerAsn
    rw [lookup_at hword, find_erase, if_pos (List.prefix_refl word)]
    rfl

end ReceptionLemmas

open ReceptionLemmas

/-- ASPA PDUs take effect exactly if they are for IPv4 and the number of the customer fits. -/
theorem delivered_iff {ps : List AspaRecord} {db : AspaDBManager} (h : receiveAll ps = some db)
    (p : AspaRecord) : Delivered db p ↔ p.flags &&& 0x02 = 0 ∧ p.customerAsn.toNat < 100000 := by
  obtain ⟨-, -, hset2, -, hbit⟩ := flags_facts p.flags
  constructor
  · rintro ⟨db₁, ret₁, db₂, ret₂, hannounced, hlookup, -⟩
    have hafi := afi_received p.announcement
    rcases hbit with hfamily | hfamily
    · refine ⟨hfamily, ?_⟩
      have hipv4 : p.announcement.flags &&& 0x02 = 0 := hset2.trans hfamily
      rw [if_pos hipv4] at hafi
      cases hword : keyWord 6 p.customerAsn with
      | none =>
        have hcustomer : (handleReceiveAspaPdu p.announcement.received).customerAsn = p.customerAsn :=
          (received_eq p.announcement).1
        simp only [receive, handleAspaPdu, hafi, hcustomer, hword] at hannounced
        cases hannounced
      | some word => exact (keyWord_bound (by decide) hword).1
    · -- the family is refused, and no record for IPv6 was there before
      exfalso
      have hno : ¬ p.announcement.flags &&& 0x02 = 0 := by
        show ¬ (p.flags ||| 0x01) &&& 0x02 = 0
        rw [hset2, hfamily]
        decide
      rw [if_neg hno] at hafi
      have hsame : db₁ = db := by
        simp only [receive, handleAspaPdu, hafi] at hannounced
        cases hannounced
        rfl
      have hipv6 : p.family = 2 := if_neg (by rw [hfamily]; decide)
      have hfirst := hlookup (p.providerAsns.get ⟨0, p.provided⟩)
      rw [if_pos (List.get_mem _ _), hsame, hipv6, aspaDBLookup_eq] at hfirst
      obtain ⟨word, -, hvalid⟩ := Option.map_eq_some_iff.mp hfirst
      cases hfind : findAspaObject db word with
      | none =>
        rw [hfind] at hvalid
        cases hvalid
      | some obj =>
        have hother : obj.afi ≠ (2 : UInt8).toUInt16 := by
          rw [stored_ipv4 h hfind]
          decide
        rw [hfind, recordResult_invalid (.inl hother)] at hvalid
        cases hvalid
  · rintro ⟨hfamily, hsmall⟩
    obtain ⟨word, hword⟩ := keyWord_isSome 6 (by decide) (Nat.lt_trans hsmall (by decide)) hsmall
    exact delivered_ipv4 db hfamily hword

/-- Customer 65001 with the providers 65010 and 65011. -/
def samplePdu (flags : UInt8) : AspaRecord :=
  ⟨2, flags, 65001, [65010, 65011], by decide, by decide⟩

theorem delivered_sample :
    receiveAll [] = some initializeAspaDBManager ∧ Delivered initializeAspaDBManager (samplePdu 1) :=
  ⟨rfl, (@delivered_iff [] initializeAspaDBManager rfl (samplePdu 1)).mpr (by decide)⟩

/-- The same record for IPv6 is refused, and the lookup for its provider is UNKNOWN. -/
theorem ipv6_not_delivered :
    (receive initializeAspaDBManager (samplePdu 3).announcement).map (·.2) = some 0 ∧
      ¬ Delivered initializeAspaDBManager (samplePdu 3) := by
  have hrefused : receive initializeAspaDBManager (samplePdu 3).announcement =
      some (initializeAspaDBManager, 0) := by
    have hafi : (handleReceiveAspaPdu (samplePdu 3).announcement.received).afi = none := by
      rw [afi_received, if_neg (by decide)]
    simp only [receive, handleAspaPdu, hafi]
  rw [hrefused]
  refine ⟨rfl, ?_⟩
  rintro ⟨db₁, ret₁, db₂, ret₂, hannounced, hlookup, -⟩
  rw [hrefused] at hannounced
  cases hannounced
  have hvalid := hlookup 65010
  revert hvalid
  decide

end SrxSuite.Aspa

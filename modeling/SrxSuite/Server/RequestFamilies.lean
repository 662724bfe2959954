import SrxSuite.Client.VerifyUpdate

/-!
# Verify requests of the two address families

`processValidationRequest` takes a request apart twice, once for the layout of an IPv4 request and once
for that of an IPv6 request, into variables the ASPA part reads later. The second copy leaves `asType`
and `asRelType` out: its two lines are commented out. An IPv6 request goes on with what the variables
hold before they are set.

Results:
1. `derivedAlike_iff`: requests with the same path, type and relation give the same path list, type and
   direction if and only if the unset variables happen to hold this type and a relation with this
   direction.
2. `families_differ`: variables that are zero.
-/

namespace SrxSuite.Server

open Bytes Client

/-! ## What is derived -/

/-- A request for each family with the same AS path, type and relation, each in its own layout. -/
structure SamePath (v4 v6 : Memory) : Prop where
  typeV4 : v4 0 = pduVerifyV4
  typeV6 : v6 0 = pduVerifyV6
  numHops : v4.u16 32 = v6.u16 44
  path : ∀ i < (v4.u16 32).toNat, v4.u32 (60 + 4 * i) = v6.u32 (72 + 4 * i)
  asType : v4 6 = v6 6
  asRelType : v4 7 = v6 7

/-- `bgpData.asPath` with its length. -/
def requestHopList (packet : Memory) : Option (List UInt32) :=
  (requestPath packet).map fun _ => (requestUpdate packet).path

/-- `asRelDir`. -/
def requestAsRelDir (packet : Memory) (locals : Locals) : AsRelDir :=
  asRelDir (readRequest packet locals).asRelType

/-- `bgpData.afi`. -/
def requestAfi (packet : Memory) : UInt16 := packet.u16 (requestSize packet - 24)

/-- The entry for the path cache. -/
def requestEntry (packet : Memory) (locals : Locals) : Option AsPathEntry :=
  newAspathListEntry (requestHops packet).toUInt32 (requestUpdate packet).path
    (requestPathId packet locals) (requestAsType packet locals) (requestAsRelDir packet locals)
    (requestAfi packet)

/-- Both requests give the same path list, the same type and the same direction, and their entries
differ in the address family only. -/
structure DerivedAlike (v4 v6 : Memory) (localsV4 localsV6 : Locals) : Prop where
  path : requestHopList v6 = requestHopList v4
  asType : requestAsType v6 localsV6 = requestAsType v4 localsV4
  asRelDir : requestAsRelDir v6 localsV6 = requestAsRelDir v4 localsV4
  entry : requestEntry v6 localsV6 =
    (requestEntry v4 localsV4).map fun entry => { entry with afi := requestAfi v6 }

namespace RequestFamilyLemmas

variable {v4 v6 : Memory} {localsV4 localsV6 : Locals}

theorem size_v4 (h : v4 0 = pduVerifyV4) : requestSize v4 = 60 := by
  rw [requestSize, if_pos h]

theorem size_v6 (h : v6 0 = pduVerifyV6) : requestSize v6 = 72 := by
  rw [requestSize, h, if_neg (by decide)]

/-- The hops are read alike, each behind its own header. -/
theorem hops_alike (h : SamePath v4 v6) : requestHops v6 = requestHops v4 := by
  rw [requestHops, requestHops, size_v4 h.typeV4, size_v6 h.typeV6]
  exact h.numHops.symm

theorem path_alike (h : SamePath v4 v6) : (requestUpdate v6).path = (requestUpdate v4).path := by
  show (List.range (requestHops v6).toNat).map _ = (List.range (requestHops v4).toNat).map _
  rw [hops_alike h]
  refine List.map_congr_left ?_
  intro i hi
  have hhops : requestHops v4 = v4.u16 32 := by
    rw [requestHops, size_v4 h.typeV4]
  rw [List.mem_range, hhops] at hi
  rw [size_v4 h.typeV4, size_v6 h.typeV6]
  exact (h.path i hi).symm

theorem hopList_alike (h : SamePath v4 v6) : requestHopList v6 = requestHopList v4 := by
  unfold requestHopList requestPath
  rw [hops_alike h, path_alike h]
  split
  · rfl
  · rfl

/-! ## The two copies -/

theorem asType_v4 (h : v4 0 = pduVerifyV4) : requestAsType v4 localsV4 = AsType.ofCode (v4 6) := by
  rw [requestAsType, if_pos h]

theorem asType_v6 (h : v6 0 = pduVerifyV6) : requestAsType v6 localsV6 = localsV6.asType := by
  rw [requestAsType, h, if_neg (by decide)]

theorem asRelDir_v4 (h : v4 0 = pduVerifyV4) :
    requestAsRelDir v4 localsV4 = asRelDir (asRelOfCode (v4 7)) := by
  show asRelDir (if v4 0 = pduVerifyV4 then asRelOfCode (v4 7) else localsV4.asRelType) = _
  rw [if_pos h]

theorem asRelDir_v6 (h : v6 0 = pduVerifyV6) :
    requestAsRelDir v6 localsV6 = asRelDir localsV6.asRelType := by
  show asRelDir (if v6 0 = pduVerifyV4 then asRelOfCode (v6 7) else localsV6.asRelType) = _
  rw [h, if_neg (by decide)]

/-- With the type and the direction the entry is alike. -/
theorem entry_alike (h : SamePath v4 v6) (htype : requestAsType v6 localsV6 = requestAsType v4 localsV4)
    (hdir : requestAsRelDir v6 localsV6 = requestAsRelDir v4 localsV4) :
    requestEntry v6 localsV6 =
      (requestEntry v4 localsV4).map fun entry => { entry with afi := requestAfi v6 } := by
  have hid : requestPathId v6 localsV6 = requestPathId v4 localsV4 := by
    have hlist := hopList_alike h
    unfold requestHopList at hlist
    rw [requestPathId, requestPathId, hops_alike h, htype, hlist]
  unfold requestEntry newAspathListEntry
  rw [hops_alike h, path_alike h, hid, htype, hdir]
  split
  · rfl
  · rfl

end RequestFamilyLemmas

open RequestFamilyLemmas

/-- The families are treated alike if and only if the variables an IPv6 request does not set hold the
right values already. -/
theorem derivedAlike_iff {v4 v6 : Memory} (h : SamePath v4 v6) (localsV4 localsV6 : Locals) :
    DerivedAlike v4 v6 localsV4 localsV6 ↔
      localsV6.asType = AsType.ofCode (v6 6) ∧
        asRelDir localsV6.asRelType = asRelDir (asRelOfCode (v6 7)) := by
  have htype : requestAsType v4 localsV4 = AsType.ofCode (v6 6) := by
    rw [asType_v4 h.typeV4, h.asType]
  have hdir : requestAsRelDir v4 localsV4 = asRelDir (asRelOfCode (v6 7)) := by
    rw [asRelDir_v4 h.typeV4, h.asRelType]
  rw [← htype, ← hdir, ← asType_v6 h.typeV6, ← asRelDir_v6 h.typeV6]
  constructor
  · intro halike
    exact ⟨halike.asType, halike.asRelDir⟩
  · rintro ⟨hsameType, hsameDir⟩
    exact ⟨hopList_alike h, hsameType, hsameDir, entry_alike h hsameType hsameDir⟩

/-- A request with one hop, type AS_SEQUENCE and relation customer. -/
def customerRequest (pduType : UInt8) (size : Nat) : Memory := fun i =>
  (([pduType, 0, 0, 0, 0, 0, 2, 1] ++ List.replicate (size - 36) 0 ++ [0, 1] ++
    List.replicate 26 0 ++ [0, 0, 253, 233]).getD i 0)

theorem customerRequest_same :
    SamePath (customerRequest pduVerifyV4 60) (customerRequest pduVerifyV6 72) where
  typeV4 := by decide
  typeV6 := by decide
  numHops := by decide
  path := by decide
  asType := by decide
  asRelType := by decide

theorem derivedAlike_customer :
    DerivedAlike (customerRequest pduVerifyV4 60) (customerRequest pduVerifyV6 72)
      ⟨.asSet, .unknown⟩ ⟨.asSequence, .lateral⟩ :=
  (derivedAlike_iff customerRequest_same ⟨.asSet, .unknown⟩ ⟨.asSequence, .lateral⟩).mpr
    ⟨by decide, by decide⟩

/-- With variables that are zero the IPv6 request has a type without a name and no direction. -/
theorem families_differ :
    SamePath (customerRequest pduVerifyV4 60) (customerRequest pduVerifyV6 72) ∧
      ¬ DerivedAlike (customerRequest pduVerifyV4 60) (customerRequest pduVerifyV6 72)
        ⟨.other 0 (.inl rfl), .unknown⟩ ⟨.other 0 (.inl rfl), .unknown⟩ := by
  refine ⟨customerRequest_same, ?_⟩
  intro h
  have htype := h.asType
  revert htype
  decide

end SrxSuite.Server

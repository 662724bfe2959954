import SrxSuite.Crypto.MalformedAttrs

/-!
# The data of a verify request

The model of `srx_create_bgpsec_data` (`bgpd/bgp_route.c`), which gives a verify request the AS path of a
route and its BGPsec attribute as `bgp_attr_bgpsec` stored it.

The AS numbers of all AS sequences are collected, but the number of hops is set anew for each of
them. With distributed evaluation four bytes are added to the length of the attribute value for the
header; an attribute without extended length has three. `describesRoute_iff` says for which routes the
data is right.
-/

namespace SrxSuite.Quagga

open Bytes Crypto

/-! ## Routes -/

def AS_SET : UInt8 := 1
def AS_SEQUENCE : UInt8 := 2

/-- `SRX_CONFIG_EVAL_PATH_DISTR`, a flag of `srx_config`. -/
def SRX_CONFIG_EVAL_PATH_DISTR : UInt16 := 8

/-- `struct assegment`. Its length is an `u_short`. -/
structure AsSegment where
  type : UInt8
  as : List UInt32
  length : as.length < 2 ^ 16

/-- What the function reads of a `struct bgp_info`: the AS path, the stored attribute and the NLRI of
`bgpsec_validationData`, and the AS number of the peer's local side. -/
structure RouteInfo where
  aspath : Option (List AsSegment)
  validationData : Option (RawAttr × ScaPrefix)
  localAs : UInt32

/-! ## `srx_create_bgpsec_data` -/

/-- `BGPSecData`, `none` for NULL. -/
structure BgpsecData where
  numberHops : UInt16
  asPath : Option (List UInt32)
  afi : UInt16
  safi : UInt8
  localAs : UInt32
  attrLength : UInt16
  bgpsecPathAttr : Option Bytes
  deriving DecidableEq, Repr

/-- `malloc` for AS numbers. -/
def mallocPath (size : Nat) : Option (List UInt32) := some (List.replicate (size / 4) 0)

/-- `realloc` for AS numbers. A size of 0 frees the memory. -/
def reallocPath (path : List UInt32) (size : Nat) : Option (List UInt32) :=
  if size = 0 then none
  else some (path.take (size / 4) ++ List.replicate (size / 4 - path.length) 0)

/-- The loop over `segIdx`, with the index behind the last number written; `none` for a write outside
of the memory. -/
def fillPath : List UInt32 → (asPath : Option (List UInt32)) → (dataIdx : Nat) →
    Option (Option (List UInt32) × Nat)
  | [], asPath, dataIdx => some (asPath, dataIdx)
  | as :: ases, asPath, dataIdx =>
    match asPath with
    | some path =>
      if dataIdx < path.length then fillPath ases (some (path.set dataIdx (htonl as))) (dataIdx + 1)
      else none
    | none => none

/-- The local variables of the loop over the segments. -/
structure PathLoop where
  numberHops : UInt16
  asPath : Option (List UInt32)
  dataIdx : Nat
  prevSize : Nat

/-- The body of the loop over the segments. -/
def addSegment (s : PathLoop) (pathSeg : AsSegment) : Option PathLoop :=
  if pathSeg.type = AS_SEQUENCE then do
    let size := pathSeg.as.length * 4
    let asPath := match s.asPath with
      | none => mallocPath size
      | some path => reallocPath path (size + s.prevSize)
    let (asPath, dataIdx) ← fillPath pathSeg.as asPath s.dataIdx
    some ⟨UInt16.ofNat pathSeg.as.length, asPath, dataIdx, s.prevSize + size⟩
  else some s

/-- The part that fills the path. -/
def fillAsPath : (aspath : Option (List AsSegment)) → Option PathLoop
  | some segments => segments.foldlM addSegment ⟨0, none, 0, 0⟩
  | none => some ⟨0, none, 0, 0⟩

/-- `srx_create_bgpsec_data`; `none` for an access outside of the memory. -/
def srxCreateBgpsecData (srxConfig : UInt16) (info : RouteInfo) : Option BgpsecData := do
  let path ← fillAsPath info.aspath
  let bgpsec : BgpsecData := ⟨path.numberHops, path.asPath, 0, 0, 0, 0, none⟩
  match info.validationData with
  | some (attr, nlri) =>
    let pa := attr.encode
    let (length, _) ← attrLength pa
    let distr := decide (srxConfig &&& SRX_CONFIG_EVAL_PATH_DISTR ≠ 0)
    let size := if distr then length.toNat + 4 else length.toNat
    let blob ← pa.readAt 0 size
    let bgpsec := { bgpsec with attrLength := UInt16.ofNat size, bgpsecPathAttr := some blob }
    some (if distr then { bgpsec with afi := nlri.afi, safi := nlri.safi, localAs := info.localAs }
      else bgpsec)
  | none => some bgpsec

/-! ## What the data should be -/

/-- The AS sequences of a path. -/
def asSequences (segments : List AsSegment) : List AsSegment :=
  segments.filter fun seg => seg.type = AS_SEQUENCE

/-- The AS sequences of a route. -/
def RouteInfo.sequences (info : RouteInfo) : List AsSegment := asSequences (info.aspath.getD [])

/-- Their AS numbers, in order. -/
def RouteInfo.hops (info : RouteInfo) : List UInt32 := info.sequences.flatMap AsSegment.as

/-- All accesses are inside of the memory, the data has all hops with their number, and the stored
attribute with its size. -/
def DescribesRoute (srxConfig : UInt16) (info : RouteInfo) : Prop :=
  ∃ data, srxCreateBgpsecData srxConfig info = some data ∧
    data.asPath.getD [] = info.hops.map htonl ∧ data.numberHops.toNat = info.hops.length ∧
    data.bgpsecPathAttr = info.validationData.map (·.1.encode) ∧
    data.attrLength.toNat = (info.validationData.elim [] (·.1.encode)).length

namespace RequestDataLemmas

/-! ## The AS path -/

theorem fillPath_eq (ases : List UInt32) {asPath : Option (List UInt32)} {done rest : List UInt32}
    (hpath : asPath.getD [] = done ++ rest) (hrest : rest.length = ases.length) :
    ∃ filled, fillPath ases asPath done.length = some (filled, done.length + ases.length) ∧
      filled.getD [] = done ++ ases.map htonl := by
  induction ases generalizing asPath done rest with
  | nil =>
    obtain rfl := List.length_eq_zero_iff.mp hrest
    exact ⟨asPath, rfl, hpath⟩
  | cons as ases ih =>
    obtain ⟨old, rest, rfl⟩ := List.exists_cons_of_length_eq_add_one hrest
    cases asPath with
    | none => exact absurd hpath.symm (List.append_ne_nil_of_right_ne_nil _ (List.cons_ne_nil _ _))
    | some path =>
      change path = _ at hpath
      subst hpath
      have hset : (done ++ old :: rest).set done.length (htonl as) = (done ++ [htonl as]) ++ rest := by
        rw [List.set_append_right _ _ (Nat.le_refl _), Nat.sub_self, List.set_cons_zero,
          List.append_assoc]
        rfl
      obtain ⟨filled, hfill, hfilled⟩ := @ih (some ((done ++ [htonl as]) ++ rest)) (done ++ [htonl as])
        rest rfl (Nat.succ.inj hrest)
      have hlt : done.length < (done ++ old :: rest).length := by
        rw [List.length_append, List.length_cons]
        exact Nat.lt_add_of_pos_right (Nat.succ_pos _)
      refine ⟨filled, ?_, by rw [hfilled, List.append_assoc]; rfl⟩
      unfold fillPath
      dsimp only
      rw [if_pos hlt, hset]
      rw [List.length_append, List.length_singleton] at hfill
      rw [hfill, List.length_cons, Nat.add_assoc, Nat.add_comm 1]

/-- The loop has written these numbers, and there is room for no more. -/
structure HasWritten (s : PathLoop) (done : List UInt32) : Prop where
  path : s.asPath.getD [] = done
  dataIdx : s.dataIdx = done.length
  prevSize : s.prevSize = done.length * 4

/-- The memory for `n` more numbers. -/
theorem HasWritten.grow {s : PathLoop} {done : List UInt32} (h : HasWritten s done) (n : Nat) :
    ∃ rest, rest.length = n ∧
      ((match s.asPath with
        | none => mallocPath (n * 4)
        | some path => reallocPath path (n * 4 + s.prevSize)) : Option (List UInt32)).getD [] =
      done ++ rest := by
  obtain ⟨hpath, -, hprev⟩ := h
  refine ⟨List.replicate n 0, List.length_replicate, ?_⟩
  cases hmem : s.asPath with
  | none =>
    rw [hmem] at hpath
    obtain rfl : [] = done := hpath
    dsimp only
    rw [mallocPath, Nat.mul_div_cancel n (by decide)]
    rfl
  | some path =>
    rw [hmem] at hpath
    obtain rfl : path = done := hpath
    dsimp only
    rw [hprev, reallocPath, ← Nat.add_mul, Nat.mul_div_cancel _ (by decide)]
    rcases Nat.eq_zero_or_pos (n + path.length) with hzero | hpos
    · obtain ⟨rfl, hnil⟩ := Nat.add_eq_zero_iff.mp hzero
      obtain rfl := List.length_eq_zero_iff.mp hnil
      rfl
    · rw [if_neg (Nat.ne_of_gt (Nat.mul_pos hpos (by decide : 0 < 4))), List.take_of_length_le (Nat.le_add_left _ _),
        Nat.add_sub_cancel]
      rfl

/-- The numbers of hops the loop leaves: those of the last AS sequence. -/
def lastHops (start : UInt16) (sequences : List AsSegment) : UInt16 :=
  sequences.getLast?.elim start fun seg => UInt16.ofNat seg.as.length

theorem addSegment_sequence {s : PathLoop} {done : List UInt32} (h : HasWritten s done)
    {seg : AsSegment} (htype : seg.type = AS_SEQUENCE) :
    ∃ s', addSegment s seg = some s' ∧ HasWritten s' (done ++ seg.as.map htonl) ∧
      s'.numberHops = UInt16.ofNat seg.as.length := by
  obtain ⟨rest, hlen, hgrow⟩ := h.grow seg.as.length
  obtain ⟨filled, hfill, hfilled⟩ := fillPath_eq seg.as hgrow hlen
  refine ⟨⟨UInt16.ofNat seg.as.length, filled, done.length + seg.as.length,
    done.length * 4 + seg.as.length * 4⟩, ?_, ⟨hfilled, ?_, ?_⟩, rfl⟩
  · unfold addSegment
    rw [if_pos htype]
    dsimp only
    rw [h.dataIdx, hfill, ← h.prevSize]
    rfl
  · rw [List.length_append, List.length_map]
  · rw [List.length_append, List.length_map, Nat.add_mul]

theorem asSequences_pos {seg : AsSegment} (htype : seg.type = AS_SEQUENCE)
    (segments : List AsSegment) : asSequences (seg :: segments) = seg :: asSequences segments :=
  List.filter_cons_of_pos (decide_eq_true htype)

theorem asSequences_neg {seg : AsSegment} (htype : seg.type ≠ AS_SEQUENCE)
    (segments : List AsSegment) : asSequences (seg :: segments) = asSequences segments :=
  List.filter_cons_of_neg fun h => htype (of_decide_eq_true h)

theorem lastHops_cons (start : UInt16) (seg : AsSegment) (sequences : List AsSegment) :
    lastHops start (seg :: sequences) = lastHops (UInt16.ofNat seg.as.length) sequences := by
  unfold lastHops
  rw [List.getLast?_cons]
  cases sequences.getLast? <;> rfl

theorem foldlM_addSegment (segments : List AsSegment) {s : PathLoop} {done : List UInt32}
    (h : HasWritten s done) :
    ∃ s', segments.foldlM addSegment s = some s' ∧
      HasWritten s' (done ++ ((asSequences segments).flatMap AsSegment.as).map htonl) ∧
      s'.numberHops = lastHops s.numberHops (asSequences segments) := by
  induction segments generalizing s done with
  | nil =>
    refine ⟨s, rfl, ?_, rfl⟩
    rw [asSequences, List.filter_nil, List.flatMap_nil, List.map_nil, List.append_nil]
    exact h
  | cons seg segments ih =>
    rw [List.foldlM_cons]
    rcases eq_or_ne seg.type AS_SEQUENCE with htype | htype
    · obtain ⟨s₁, hstep, hwritten, hhops⟩ := addSegment_sequence h htype
      obtain ⟨s', hrun, hwritten', hhops'⟩ := ih hwritten
      refine ⟨s', by rw [hstep]; exact hrun, ?_, ?_⟩
      · rw [asSequences_pos htype, List.flatMap_cons, List.map_append, ← List.append_assoc]
        exact hwritten'
      · rw [hhops', hhops, asSequences_pos htype, lastHops_cons]
    · have hstep : addSegment s seg = some s := if_neg htype
      rw [hstep, asSequences_neg htype]
      exact ih h

/-- The path of a route, and the number of hops of its last AS sequence. -/
theorem path_of_info (info : RouteInfo) :
    ∃ s, fillAsPath info.aspath = some s ∧
      s.asPath.getD [] = info.hops.map htonl ∧ s.numberHops = lastHops 0 info.sequences := by
  cases hpath : info.aspath with
  | none =>
    refine ⟨_, rfl, ?_, ?_⟩ <;> simp only [RouteInfo.hops, RouteInfo.sequences, hpath] <;> rfl
  | some segments =>
    obtain ⟨s, hrun, hwritten, hhops⟩ := @foldlM_addSegment segments ⟨0, none, 0, 0⟩ [] ⟨rfl, rfl, rfl⟩
    refine ⟨s, hrun, ?_, ?_⟩ <;> simp only [RouteInfo.hops, RouteInfo.sequences, hpath]
    · exact hwritten.path
    · exact hhops

theorem toNat_lastHops (sequences : List AsSegment) :
    (lastHops 0 sequences).toNat = (sequences.getLast?.elim [] AsSegment.as).length := by
  unfold lastHops
  cases sequences.getLast? with
  | none => rfl
  | some seg => exact UInt16.toNat_ofNat_of_lt seg.length

/-- The last AS sequence has all hops if and only if the others have none. -/
theorem length_last_eq_iff (sequences : List AsSegment) :
    (sequences.getLast?.elim [] AsSegment.as).length = (sequences.flatMap AsSegment.as).length ↔
      ∀ seg ∈ sequences.dropLast, seg.as = [] := by
  rcases List.eq_nil_or_concat' sequences with rfl | ⟨earlier, last, rfl⟩
  · exact iff_of_true rfl fun _ hmem => absurd hmem List.not_mem_nil
  · rw [List.getLast?_concat, List.dropLast_concat, List.flatMap_append, List.length_append,
      List.flatMap_singleton, Option.elim_some, Nat.right_eq_add, List.length_eq_zero_iff,
      List.flatMap_eq_nil_iff]

/-! ## The attribute -/

theorem attrLength_raw (attr : RawAttr) :
    ∃ start, attrLength attr.encode = some (UInt16.ofNat attr.value.length, start) := by
  obtain ⟨header, hbytes, hlength⟩ :=
    HashMessageLemmas.attrLength_value attr.flags attr.typeCode attr.value attr.fits
  have hencode : attr.encode = header ++ attr.value := hbytes
  exact ⟨header.length, by rw [hencode, hlength]⟩

theorem value_lt (attr : RawAttr) : attr.value.length < 2 ^ 16 := by
  have hfits := attr.fits
  split at hfits
  · exact Nat.lt_trans hfits (by decide)
  · exact hfits

theorem length_encode (attr : RawAttr) :
    attr.encode.length = attr.value.length + if attr.flags &&& extLengthFlag = 0 then 3 else 4 := by
  unfold RawAttr.encode
  dsimp only
  rw [List.length_append, List.length_append, Nat.add_comm]
  split <;> rfl

/-- The stored attribute is read to its end, and no further, if its header has four bytes. -/
theorem readAt_encode (attr : RawAttr) :
    attr.encode.readAt 0 (attr.value.length + 4) =
      if attr.flags &&& extLengthFlag = 0 then none else some attr.encode := by
  have hlen := length_encode attr
  unfold readAt
  rw [Nat.zero_add, List.drop_zero]
  rcases eq_or_ne (attr.flags &&& extLengthFlag) 0 with hext | hext
  · rw [if_pos hext] at hlen
    rw [if_pos hext, hlen, if_neg (Nat.not_le.mpr (Nat.lt_succ_self _))]
  · rw [if_neg hext] at hlen
    rw [if_neg hext, ← hlen, if_pos (Nat.le_refl _), List.take_length]

theorem toNat_ofNat_eq_iff (n : Nat) : (UInt16.ofNat n).toNat = n ↔ n < 2 ^ 16 := by
  rw [UInt16.toNat_ofNat', Nat.mod_eq_iff_lt (by decide)]

end RequestDataLemmas

open RequestDataLemmas

/-- With distributed evaluation the data describes a route if and only if all AS sequences but the last
are empty, and the attribute has an extended length that fits the data together with its header. -/
theorem describesRoute_iff (srxConfig : UInt16) (hdistr : srxConfig &&& SRX_CONFIG_EVAL_PATH_DISTR ≠ 0)
    (info : RouteInfo) :
    DescribesRoute srxConfig info ↔ (∀ seg ∈ info.sequences.dropLast, seg.as = []) ∧
      ∀ attr nlri, info.validationData = some (attr, nlri) →
        attr.flags &&& extLengthFlag ≠ 0 ∧ attr.value.length + 4 < 2 ^ 16 := by
  obtain ⟨s, hrun, hpath, hhops⟩ := path_of_info info
  have hcount : s.numberHops.toNat = info.hops.length ↔
      ∀ seg ∈ info.sequences.dropLast, seg.as = [] := by
    rw [hhops, toNat_lastHops]
    exact length_last_eq_iff info.sequences
  unfold DescribesRoute srxCreateBgpsecData
  rw [hrun, Option.bind_eq_bind, Option.bind_some]
  cases hdata : info.validationData with
  | none =>
    rw [hcount.symm]
    constructor
    · rintro ⟨data, hsome, -, hnumber, -, -⟩
      obtain rfl := Option.some.inj hsome
      exact ⟨hnumber, fun _ _ h => nomatch h⟩
    · rintro ⟨hnumber, -⟩
      exact ⟨_, rfl, hpath, hnumber, rfl, rfl⟩
  | some stored =>
    obtain ⟨attr, nlri⟩ := stored
    obtain ⟨start, hlength⟩ := attrLength_raw attr
    have hvalue : (UInt16.ofNat attr.value.length).toNat = attr.value.length :=
      UInt16.toNat_ofNat_of_lt (value_lt attr)
    dsimp only
    rw [hlength, Option.bind_eq_bind, Option.bind_some]
    dsimp only
    rw [decide_eq_true hdistr, if_pos rfl, hvalue, readAt_encode]
    rcases eq_or_ne (attr.flags &&& extLengthFlag) 0 with hext | hext
    · rw [if_pos hext]
      refine iff_of_false ?_ fun h => (h.2 attr nlri rfl).1 hext
      rintro ⟨data, hnone, -⟩
      cases hnone
    · have hlen := length_encode attr
      rw [if_neg hext] at hlen
      rw [if_neg hext, hcount.symm]
      constructor
      · rintro ⟨data, hsome, -, hnumber, -, hsize⟩
        obtain rfl := Option.some.inj hsome
        refine ⟨hnumber, fun attr' nlri' heq => ?_⟩
        obtain ⟨rfl, -⟩ := Prod.mk.inj (Option.some.inj heq)
        change (UInt16.ofNat (attr.value.length + 4)).toNat = attr.encode.length at hsize
        rw [hlen, toNat_ofNat_eq_iff] at hsize
        exact ⟨hext, hsize⟩
      · rintro ⟨hnumber, hattr⟩
        refine ⟨_, rfl, hpath, hnumber, rfl, ?_⟩
        show (UInt16.ofNat (attr.value.length + 4)).toNat = attr.encode.length
        rw [hlen, toNat_ofNat_eq_iff]
        exact (hattr attr nlri rfl).2

/-- A route whose path has two AS sequences. -/
def twoSequences : RouteInfo where
  aspath := some [⟨AS_SEQUENCE, [65001, 65002], by decide⟩, ⟨AS_SET, [65003], by decide⟩,
    ⟨AS_SEQUENCE, [65004], by decide⟩]
  validationData := none
  localAs := 65000

/-- A route whose attribute has no extended length. -/
def shortAttribute : RouteInfo where
  aspath := some [⟨AS_SEQUENCE, [65001], by decide⟩]
  validationData := some (⟨0x80, 33, [0, 8, 1, 0, 0, 0, 0xfd, 0xe9], by decide⟩,
    ⟨0x0100, 1, 24, #v[10, 0, 0, 0, 0, 0, 0, 0, 0, 0, 0, 0, 0, 0, 0, 0]⟩)
  localAs := 65000

theorem describesRoute_extended :
    DescribesRoute SRX_CONFIG_EVAL_PATH_DISTR
      ⟨some [⟨AS_SEQUENCE, [65001, 65002], by decide⟩, ⟨AS_SET, [65003], by decide⟩],
        some (⟨0x90, 33, [0, 8, 1, 0, 0, 0, 0xfd, 0xe9], by decide⟩,
          ⟨0x0100, 1, 24, #v[10, 0, 0, 0, 0, 0, 0, 0, 0, 0, 0, 0, 0, 0, 0, 0]⟩), 65000⟩ :=
  (describesRoute_iff _ (by decide) _).mpr ⟨by decide, by
    rintro attr nlri h
    obtain ⟨rfl, -⟩ := Prod.mk.inj (Option.some.inj h)
    decide⟩

/-- The number of hops is that of the last sequence, and a byte behind a short attribute is read. -/
theorem not_describesRoute :
    ¬ DescribesRoute SRX_CONFIG_EVAL_PATH_DISTR twoSequences ∧
      (srxCreateBgpsecData SRX_CONFIG_EVAL_PATH_DISTR twoSequences).map
        (fun data => (data.numberHops, data.asPath)) =
        some (1, some ([65001, 65002, 65004].map htonl)) ∧
      srxCreateBgpsecData SRX_CONFIG_EVAL_PATH_DISTR shortAttribute = none := by
  refine ⟨?_, by decide, by decide⟩
  rintro ⟨data, hdata, -, hnumber, -, -⟩
  have hhops : (srxCreateBgpsecData SRX_CONFIG_EVAL_PATH_DISTR twoSequences).map
      (·.numberHops.toNat) = some 1 := by decide
  rw [hdata, Option.map_some, hnumber] at hhops
  exact absurd hhops (by decide)

end SrxSuite.Quagga

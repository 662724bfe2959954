import SrxSuite.Quagga.BgpInfo

/-!
# The tables of the router refer to the routes

`Linked` is what the two tables and the routes owe each other. A step keeps it as long as a lookup
gives a route that leaves a table its own entry back.

Three places take an id to belong to one route. The implicit withdraw of a route that waits for its
first answer unregisters the identifier 0 instead of the token. `bgp_info_free` and the implicit
withdraw tell the server to delete an update without a look at the other routes that have its id. And a
notification changes the one route that `HASH_FIND` returns.

Results:
1. `step_linked`: a step keeps `Linked`.
2. `tables_right`: along a run whose steps meet `Alone`, the entries refer to routes that hold their
   id, every route is told of the notifications for its update id, and no update is deleted at the
   server that a route has.
3. `shared_id_lost`: two routes with one update id.
-/

namespace SrxSuite.Quagga

open Runs Server

variable {ν α : Type}

/-! ## The invariant -/

/-- The routes and the tables. -/
structure Linked (infos : Nat → Option (BgpInfo ν α)) (uid lid : List HashItem) : Prop where
  uidEntry : ∀ i r, ⟨i, r⟩ ∈ uid → i ≠ 0 ∧ ∃ X, infos r = some X ∧ X.updateID = i
  lidEntry : ∀ i r, ⟨i, r⟩ ∈ lid → i ≠ 0 ∧ ∃ X, infos r = some X ∧ X.localID = i
  known : ∀ r X, infos r = some X → X.updateID ≠ 0 →
    X.localID = 0 ∧ X.infoHash = some .uid ∧ ⟨X.updateID, r⟩ ∈ uid
  waiting : ∀ r X, infos r = some X → X.localID ≠ 0 →
    X.infoHash = some .lid ∧ ⟨X.localID, r⟩ ∈ lid
  hash : ∀ r X, infos r = some X → X.infoHash = some .uid → X.updateID ≠ 0
  uidNodup : uid.Nodup
  lidNodup : lid.Nodup

/-- The router keeps it, and it has not written to a freed route. -/
def Router.Linked (s : Router ν α) : Prop :=
  Quagga.Linked s.infos s.infoUIDHash s.infoLIDHash ∧ s.dangling = false

theorem linked_initial : (Router.initial : Router ν α).Linked := by
  refine ⟨⟨?_, ?_, ?_, ?_, ?_, List.nodup_nil, List.nodup_nil⟩, rfl⟩
  · intro i r hmem
    cases hmem
  · intro i r hmem
    cases hmem
  · intro r X hX
    cases hX
  · intro r X hX
    cases hX
  · intro r X hX
    cases hX

section Changes

variable {infos : Nat → Option (BgpInfo ν α)} {uid lid : List HashItem} {r : Nat} {X Y : BgpInfo ν α}

/-- What is read after a write at `r`: it, or what was there. -/
theorem update_some {o : Option (BgpInfo ν α)} {r' : Nat} {Z : BgpInfo ν α}
    (h : Function.update infos r o r' = some Z) :
    r' = r ∧ o = some Z ∨ r' ≠ r ∧ infos r' = some Z := by
  rcases eq_or_ne r' r with rfl | hne
  · rw [Function.update_self] at h
    exact .inl ⟨rfl, h⟩
  · rw [Function.update_of_ne hne] at h
    exact .inr ⟨hne, h⟩

/-- Of two identifiers of a route at most one is not 0. -/
theorem Linked.updateID_eq_zero (h : Linked infos uid lid) (hr : infos r = some X)
    (hlocal : X.localID ≠ 0) : X.updateID = 0 := by
  by_contra hne
  obtain ⟨hzero, -, -⟩ := h.known r X hr hne
  exact hlocal hzero

/-- The entries that are not those of `r` are of other routes. -/
theorem Linked.uid_erase (h : Linked infos uid lid) (hr : infos r = some X) {i r' : Nat}
    (hmem : ⟨i, r'⟩ ∈ uid.erase ⟨X.updateID, r⟩) : ⟨i, r'⟩ ∈ uid ∧ r' ≠ r := by
  obtain ⟨hne, hold⟩ := h.uidNodup.mem_erase_iff.mp hmem
  refine ⟨hold, ?_⟩
  rintro rfl
  obtain ⟨-, Z, hZ, rfl⟩ := h.uidEntry i r' hold
  obtain rfl := Option.some.inj (hr.symm.trans hZ)
  exact hne rfl

theorem Linked.lid_erase (h : Linked infos uid lid) (hr : infos r = some X) {i r' : Nat}
    (hmem : ⟨i, r'⟩ ∈ lid.erase ⟨X.localID, r⟩) : ⟨i, r'⟩ ∈ lid ∧ r' ≠ r := by
  obtain ⟨hne, hold⟩ := h.lidNodup.mem_erase_iff.mp hmem
  refine ⟨hold, ?_⟩
  rintro rfl
  obtain ⟨-, Z, hZ, rfl⟩ := h.lidEntry i r' hold
  obtain rfl := Option.some.inj (hr.symm.trans hZ)
  exact hne rfl

theorem mem_erase_other {table : List HashItem} {i j r' : Nat} (hne : r' ≠ r)
    (hmem : ⟨i, r'⟩ ∈ table) : ⟨i, r'⟩ ∈ table.erase ⟨j, r⟩ := by
  refine (List.mem_erase_of_ne ?_).mpr hmem
  intro heq
  exact hne (congrArg HashItem.info heq)

/-- A route leaves the tables: it is freed, or it has no identifier any more. -/
theorem Linked.detach (h : Linked infos uid lid) (hr : infos r = some X)
    (o : Option (BgpInfo ν α))
    (ho : ∀ Z, o = some Z → Z.updateID = 0 ∧ Z.localID = 0 ∧ Z.infoHash ≠ some .uid) :
    Linked (Function.update infos r o) (uid.erase ⟨X.updateID, r⟩) (lid.erase ⟨X.localID, r⟩) := by
  refine ⟨?_, ?_, ?_, ?_, ?_, h.uidNodup.erase _, h.lidNodup.erase _⟩
  · intro i r' hmem
    obtain ⟨hold, hne⟩ := h.uid_erase hr hmem
    rw [Function.update_of_ne hne]
    exact h.uidEntry i r' hold
  · intro i r' hmem
    obtain ⟨hold, hne⟩ := h.lid_erase hr hmem
    rw [Function.update_of_ne hne]
    exact h.lidEntry i r' hold
  · intro r' Z hZ hid
    rcases update_some hZ with ⟨-, hself⟩ | ⟨hne, hold⟩
    · exact absurd (ho Z hself).1 hid
    · obtain ⟨hlocal, hhash, hmem⟩ := h.known r' Z hold hid
      exact ⟨hlocal, hhash, mem_erase_other hne hmem⟩
  · intro r' Z hZ hid
    rcases update_some hZ with ⟨-, hself⟩ | ⟨hne, hold⟩
    · exact absurd (ho Z hself).2.1 hid
    · obtain ⟨hhash, hmem⟩ := h.waiting r' Z hold hid
      exact ⟨hhash, mem_erase_other hne hmem⟩
  · intro r' Z hZ hhash
    rcases update_some hZ with ⟨-, hself⟩ | ⟨-, hold⟩
    · exact absurd hhash (ho Z hself).2.2
    · exact h.hash r' Z hold hhash

/-- A route without identifiers, or a new one, waits under a token. -/
theorem Linked.wait (h : Linked infos uid lid) {t : Nat} (ht : t ≠ 0)
    (hfree : ∀ Z, infos r = some Z → Z.updateID = 0 ∧ Z.localID = 0)
    (hupdate : Y.updateID = 0) (hlocal : Y.localID = t) (hhash : Y.infoHash = some .lid) :
    Linked (Function.update infos r (some Y)) uid (⟨t, r⟩ :: lid) := by
  have huid : ∀ i r', ⟨i, r'⟩ ∈ uid → r' ≠ r := by
    rintro i r' hmem rfl
    obtain ⟨hi, Z, hZ, rfl⟩ := h.uidEntry i r' hmem
    exact hi (hfree Z hZ).1
  have hlid : ∀ i r', ⟨i, r'⟩ ∈ lid → r' ≠ r := by
    rintro i r' hmem rfl
    obtain ⟨hi, Z, hZ, rfl⟩ := h.lidEntry i r' hmem
    exact hi (hfree Z hZ).2
  refine ⟨?_, ?_, ?_, ?_, ?_, h.uidNodup, ?_⟩
  · intro i r' hmem
    rw [Function.update_of_ne (huid i r' hmem)]
    exact h.uidEntry i r' hmem
  · intro i r' hmem
    rcases List.mem_cons.mp hmem with heq | hold
    · obtain ⟨rfl, rfl⟩ := HashItem.mk.inj heq
      exact ⟨ht, Y, Function.update_self .., hlocal⟩
    · rw [Function.update_of_ne (hlid i r' hold)]
      exact h.lidEntry i r' hold
  · intro r' Z hZ hid
    rcases update_some hZ with ⟨rfl, hself⟩ | ⟨-, hold⟩
    · obtain rfl := Option.some.inj hself
      exact absurd hupdate hid
    · exact h.known r' Z hold hid
  · intro r' Z hZ hid
    rcases update_some hZ with ⟨rfl, hself⟩ | ⟨-, hold⟩
    · obtain rfl := Option.some.inj hself
      exact ⟨hhash, by rw [hlocal]; exact List.mem_cons_self⟩
    · obtain ⟨hh, hmem⟩ := h.waiting r' Z hold hid
      exact ⟨hh, List.mem_cons_of_mem _ hmem⟩
  · intro r' Z hZ huidHash
    rcases update_some hZ with ⟨rfl, hself⟩ | ⟨-, hold⟩
    · obtain rfl := Option.some.inj hself
      rw [hhash] at huidHash
      cases huidHash
    · exact h.hash r' Z hold huidHash
  · exact List.nodup_cons.mpr ⟨fun hmem => hlid t r hmem rfl, h.lidNodup⟩

/-- The first answer moves the entry of the route. -/
theorem Linked.answer (h : Linked infos uid lid) (hr : infos r = some X) (hlocal : X.localID ≠ 0)
    (hY : Y.localID = 0)
    (hhash : Y.infoHash = if Y.updateID = 0 then X.infoHash else some .uid) :
    Linked (Function.update infos r (some Y)) (bgpInfoRegister uid r Y.updateID)
      (lid.erase ⟨X.localID, r⟩) := by
  have huid : ∀ i r', ⟨i, r'⟩ ∈ uid → r' ≠ r := by
    rintro i r' hmem rfl
    obtain ⟨hi, Z, hZ, rfl⟩ := h.uidEntry i r' hmem
    obtain rfl := Option.some.inj (hr.symm.trans hZ)
    exact hi (h.updateID_eq_zero hr hlocal)
  refine ⟨?_, ?_, ?_, ?_, ?_, ?_, h.lidNodup.erase _⟩
  · intro i r' hmem
    rcases mem_bgpInfoRegister.mp hmem with hold | ⟨hne, heq⟩
    · rw [Function.update_of_ne (huid i r' hold)]
      exact h.uidEntry i r' hold
    · obtain ⟨rfl, rfl⟩ := HashItem.mk.inj heq
      exact ⟨hne, Y, Function.update_self .., rfl⟩
  · intro i r' hmem
    obtain ⟨hold, hne⟩ := h.lid_erase hr hmem
    rw [Function.update_of_ne hne]
    exact h.lidEntry i r' hold
  · intro r' Z hZ hid
    rcases update_some hZ with ⟨rfl, hself⟩ | ⟨-, hold⟩
    · obtain rfl := Option.some.inj hself
      rw [if_neg hid] at hhash
      exact ⟨hY, hhash, mem_bgpInfoRegister.mpr (.inr ⟨hid, rfl⟩)⟩
    · obtain ⟨hzero, hh, hmem⟩ := h.known r' Z hold hid
      exact ⟨hzero, hh, mem_bgpInfoRegister.mpr (.inl hmem)⟩
  · intro r' Z hZ hid
    rcases update_some hZ with ⟨rfl, hself⟩ | ⟨hne, hold⟩
    · obtain rfl := Option.some.inj hself
      exact absurd hY hid
    · obtain ⟨hh, hmem⟩ := h.waiting r' Z hold hid
      exact ⟨hh, mem_erase_other hne hmem⟩
  · intro r' Z hZ huidHash
    rcases update_some hZ with ⟨rfl, hself⟩ | ⟨-, hold⟩
    · obtain rfl := Option.some.inj hself
      intro hzero
      rw [if_pos hzero, (h.waiting r' X hr hlocal).1] at hhash
      rw [hhash] at huidHash
      cases huidHash
    · exact h.hash r' Z hold huidHash
  · unfold bgpInfoRegister
    split
    · exact h.uidNodup
    · exact List.nodup_cons.mpr ⟨fun hmem => huid _ _ hmem rfl, h.uidNodup⟩

/-- A route gets other results. -/
theorem Linked.results (h : Linked infos uid lid) (hr : infos r = some X)
    (hupdate : Y.updateID = X.updateID) (hlocal : Y.localID = X.localID)
    (hhash : Y.infoHash = X.infoHash) :
    Linked (Function.update infos r (some Y)) uid lid := by
  -- what is true of the identifiers of all routes stays true
  have hback : ∀ r' Z, Function.update infos r (some Y) r' = some Z → ∃ Z', infos r' = some Z' ∧
      Z.updateID = Z'.updateID ∧ Z.localID = Z'.localID ∧ Z.infoHash = Z'.infoHash := by
    intro r' Z hZ
    rcases eq_or_ne r' r with rfl | hne
    · rw [Function.update_self] at hZ
      obtain rfl := Option.some.inj hZ
      exact ⟨X, hr, hupdate, hlocal, hhash⟩
    · rw [Function.update_of_ne hne] at hZ
      exact ⟨Z, hZ, rfl, rfl, rfl⟩
  have hforth : ∀ r' Z', infos r' = some Z' → ∃ Z, Function.update infos r (some Y) r' = some Z ∧
      Z.updateID = Z'.updateID ∧ Z.localID = Z'.localID := by
    intro r' Z' hZ'
    rcases eq_or_ne r' r with rfl | hne
    · obtain rfl := Option.some.inj (hr.symm.trans hZ')
      exact ⟨Y, Function.update_self .., hupdate, hlocal⟩
    · exact ⟨Z', by rw [Function.update_of_ne hne, hZ'], rfl, rfl⟩
  refine ⟨?_, ?_, ?_, ?_, ?_, h.uidNodup, h.lidNodup⟩
  · intro i r' hmem
    obtain ⟨hi, Z', hZ', rfl⟩ := h.uidEntry i r' hmem
    obtain ⟨Z, hZ, heq, -⟩ := hforth r' Z' hZ'
    exact ⟨hi, Z, hZ, heq⟩
  · intro i r' hmem
    obtain ⟨hi, Z', hZ', rfl⟩ := h.lidEntry i r' hmem
    obtain ⟨Z, hZ, -, heq⟩ := hforth r' Z' hZ'
    exact ⟨hi, Z, hZ, heq⟩
  · intro r' Z hZ hid
    obtain ⟨Z', hZ', hu, hl, hh⟩ := hback r' Z hZ
    rw [hu] at hid ⊢
    rw [hl, hh]
    exact h.known r' Z' hZ' hid
  · intro r' Z hZ hid
    obtain ⟨Z', hZ', -, hl, hh⟩ := hback r' Z hZ
    rw [hl] at hid ⊢
    rw [hh]
    exact h.waiting r' Z' hZ' hid
  · intro r' Z hZ huidHash
    obtain ⟨Z', hZ', hu, -, hh⟩ := hback r' Z hZ
    rw [hh] at huidHash
    rw [hu]
    exact h.hash r' Z' hZ' huidHash

end Changes

/-! ## The steps -/

variable {bgp : Bgp α} {s : Router ν α} {r : Nat} {X : BgpInfo ν α} {op : RouterOp ν α}

/-- Waiting for its first answer. -/
def BgpInfo.Unanswered (X : BgpInfo ν α) : Prop := X.infoHash ≠ none ∧ X.localID ≠ 0

instance (X : BgpInfo ν α) : Decidable X.Unanswered := inferInstanceAs (Decidable (_ ∧ _))

/-- `HASH_FIND` returns the entry of the route for its update id. -/
def Router.FindsUpdate (s : Router ν α) (r : Nat) (X : BgpInfo ν α) (pick : Nat) : Prop :=
  X.updateID ≠ 0 → bgpInfoFetch s.infoUIDHash X.updateID pick = some r

/-- The same for its token. -/
def Router.FindsToken (s : Router ν α) (r : Nat) (X : BgpInfo ν α) (pick : Nat) : Prop :=
  X.localID ≠ 0 → bgpInfoFetch s.infoLIDHash X.localID pick = some r

/-- A replaced route does not wait, and what leaves a table is the entry of the route. -/
def FindsOwn (bgp : Bgp α) (s : Router ν α) : RouterOp ν α → Prop
  | .announce .. => True
  | .replace ref attr removed _ _ pick => ∀ X, s.infos ref = some X →
      X.Replaces bgp attr removed → ¬ X.Unanswered ∧ s.FindsUpdate ref X pick
  | .remove ref pick => ∀ X, s.infos ref = some X →
      s.FindsUpdate ref X pick ∧ s.FindsToken ref X pick
  | .notify .. => True

/-- The router after the route `X` at `r` has left the tables, with `o` in its place. -/
def Router.leave (s : Router ν α) (r : Nat) (X : BgpInfo ν α) (o : Option (BgpInfo ν α)) :
    Router ν α :=
  { s with
    infos := Function.update s.infos r o
    infoUIDHash := s.infoUIDHash.erase ⟨X.updateID, r⟩
    infoLIDHash := s.infoLIDHash.erase ⟨X.localID, r⟩
    deleted := if X.updateID = 0 then s.deleted else X.updateID :: s.deleted }

theorem Linked.uid_zero {infos : Nat → Option (BgpInfo ν α)} {uid lid : List HashItem}
    (h : Linked infos uid lid) (r : Nat) : ⟨0, r⟩ ∉ uid :=
  fun hmem => (h.uidEntry 0 r hmem).1 rfl

theorem Linked.lid_zero {infos : Nat → Option (BgpInfo ν α)} {uid lid : List HashItem}
    (h : Linked infos uid lid) (r : Nat) : ⟨0, r⟩ ∉ lid :=
  fun hmem => (h.lidEntry 0 r hmem).1 rfl

/-- `bgp_info_free` takes the route out of the table it is in. -/
theorem bgpInfoFree_eq {pick : Nat} (h : s.Linked) (hr : s.infos r = some X)
    (hupdate : s.FindsUpdate r X pick) (htoken : s.FindsToken r X pick) :
    bgpInfoFree s r X pick = s.leave r X none := by
  obtain ⟨hlinked, -⟩ := h
  unfold bgpInfoFree Router.leave
  by_cases hid : X.updateID = 0
  · rw [hid, List.erase_of_not_mem (hlinked.uid_zero r), if_pos rfl]
    by_cases hlocal : X.localID = 0
    · rw [hlocal, List.erase_of_not_mem (hlinked.lid_zero r)]
      cases hhash : X.infoHash with
      | none => rfl
      | some hash =>
        cases hash with
        | uid => exact absurd hid (hlinked.hash r X hr hhash)
        | lid =>
          simp only [ne_eq, not_true_eq_false, if_false, Router.unregister]
          rw [bgpInfoUnregister_of_not_mem hlinked.lid_zero]
    · obtain ⟨hhash, -⟩ := hlinked.waiting r X hr hlocal
      rw [hhash]
      simp only [ne_eq, not_true_eq_false, if_false, Router.unregister]
      rw [bgpInfoUnregister_of_fetch (htoken hlocal)]
  · obtain ⟨hlocal, hhash, -⟩ := hlinked.known r X hr hid
    rw [hhash, hlocal, List.erase_of_not_mem (hlinked.lid_zero r), if_neg hid]
    simp only [ne_eq, hid, not_false_eq_true, if_true, Router.unregister]
    rw [bgpInfoUnregister_of_fetch (hupdate hid)]

/-- The implicit withdraw does so for a route that has its answer. For one that waits, the comparison
`ri->localID == 0` gives the identifier 0, and the entry stays. -/
theorem withdraw_eq {pick : Nat} (bgp : Bgp α) (h : s.Linked) (hr : s.infos r = some X) (attr : α)
    (hanswered : ¬ X.Unanswered) (hupdate : s.FindsUpdate r X pick) :
    s.withdraw bgp r X attr pick = s.leave r X (some (X.withdraw bgp attr)) ∧ X.localID = 0 := by
  obtain ⟨hlinked, -⟩ := h
  have hlocal : X.localID = 0 := by
    by_contra hne
    obtain ⟨hhash, -⟩ := hlinked.waiting r X hr hne
    exact hanswered ⟨by rw [hhash]; exact Option.some_ne_none _, hne⟩
  refine ⟨?_, hlocal⟩
  unfold Router.withdraw Router.leave
  rw [hlocal, List.erase_of_not_mem (hlinked.lid_zero r)]
  by_cases hid : X.updateID = 0
  · rw [hid, List.erase_of_not_mem (hlinked.uid_zero r), if_pos rfl]
    cases hhash : X.infoHash with
    | none => rfl
    | some hash =>
      cases hash with
      | uid => exact absurd hid (hlinked.hash r X hr hhash)
      | lid =>
        simp only [ne_eq, not_true_eq_false, if_false, gt_iff_lt, Nat.lt_irrefl, Router.unregister]
        rw [bgpInfoUnregister_of_not_mem hlinked.lid_zero]
  · obtain ⟨-, hhash, -⟩ := hlinked.known r X hr hid
    rw [hhash, if_neg hid]
    simp only [ne_eq, not_true_eq_false, if_false, gt_iff_lt, Nat.pos_of_ne_zero hid, if_true,
      Router.unregister]
    rw [bgpInfoUnregister_of_fetch (hupdate hid)]

/-- The withdrawn route has no identifier. -/
theorem withdraw_ids (bgp : Bgp α) (h : s.Linked) (hr : s.infos r = some X) (hlocal : X.localID = 0) (attr : α) :
    (X.withdraw bgp attr).updateID = 0 ∧ (X.withdraw bgp attr).localID = 0 ∧
      (X.withdraw bgp attr).infoHash = none := by
  cases hhash : X.infoHash with
  | none =>
    have heq : X.withdraw bgp attr = { X with attr := attr } := by
      rw [BgpInfo.withdraw, hhash]
    rw [heq]
    refine ⟨?_, hlocal, hhash⟩
    by_contra hid
    obtain ⟨-, huid, -⟩ := h.1.known r X hr hid
    rw [hhash] at huid
    cases huid
  | some hash =>
    unfold BgpInfo.withdraw
    rw [hhash]
    refine ⟨rfl, ?_, rfl⟩
    show (if X.updateID > 0 then X.localID else 0) = 0
    rw [hlocal, ite_self]

theorem leave_linked (h : s.Linked) (hr : s.infos r = some X) (o : Option (BgpInfo ν α))
    (ho : ∀ Z, o = some Z → Z.updateID = 0 ∧ Z.localID = 0 ∧ Z.infoHash ≠ some .uid) :
    (s.leave r X o).Linked :=
  ⟨h.1.detach hr o ho, h.2⟩

theorem ask_linked (bgp : Bgp α) (h : s.Linked) (X : BgpInfo ν α) (connected : Bool)
    (hfree : ∀ Z, s.infos r = some Z → Z.updateID = 0 ∧ Z.localID = 0) (hX : X.updateID = 0) :
    (s.ask bgp r X connected).Linked := by
  have hpos := Nat.ne_of_gt (getNextLocalID_pos s.suiLocalID)
  rw [ask_eq]
  exact ⟨h.1.wait hpos hfree hX rfl rfl, h.2⟩

/-- The route after its first answer, before the results are stored. -/
def BgpInfo.answered (X : BgpInfo ν α) (updateID : Nat) : BgpInfo ν α :=
  { ({ X with updateID := updateID }.register .uid updateID) with localID := 0 }

theorem answered_fields (X : BgpInfo ν α) (updateID : Nat) :
    (X.answered updateID).node = X.node ∧ (X.answered updateID).attr = X.attr ∧
      (X.answered updateID).updateID = updateID ∧
      (X.answered updateID).infoHash = if updateID = 0 then X.infoHash else some .uid := by
  unfold BgpInfo.answered BgpInfo.register
  split <;> exact ⟨rfl, rfl, rfl, rfl⟩

/-- What a notification does: under its token, or its update id, it finds no route, or one that holds
the identifier. -/
theorem notify_cases (bgp : Bgp α) (h : s.Linked) (n : Notification) (q : Request ν α) (pick : Nat) :
    (n.localID ≠ 0 ∧ bgpInfoFetch s.infoLIDHash n.localID pick = none ∧
      s.step bgp (.notify n q pick) =
        { s with given := (n.updateID, q) :: s.given, deleted := n.updateID :: s.deleted }) ∨
    (∃ r X, n.localID ≠ 0 ∧ bgpInfoFetch s.infoLIDHash n.localID pick = some r ∧
      s.infos r = some X ∧ X.localID = n.localID ∧ s.step bgp (.notify n q pick) =
        { s with
          given := (n.updateID, q) :: s.given
          infos := Function.update s.infos r (some ((X.answered n.updateID).setValidationResult
            (localValidation bgp X.attr n).1 (localValidation bgp X.attr n).2))
          infoUIDHash := bgpInfoRegister s.infoUIDHash r n.updateID
          infoLIDHash := s.infoLIDHash.erase ⟨n.localID, r⟩
          stored := ⟨X.answered n.updateID, q⟩ :: s.stored }) ∨
    (n.localID = 0 ∧ bgpInfoFetch s.infoUIDHash n.updateID pick = none ∧
      s.step bgp (.notify n q pick) = { s with deleted := n.updateID :: s.deleted }) ∨
    (∃ r X, n.localID = 0 ∧ bgpInfoFetch s.infoUIDHash n.updateID pick = some r ∧
      s.infos r = some X ∧ X.updateID = n.updateID ∧ s.step bgp (.notify n q pick) =
        { s with
          infos := Function.update s.infos r (some (X.setValidationResult n.valType n.valRes))
          stored := ⟨X, q⟩ :: s.stored }) := by
  obtain ⟨hlinked, -⟩ := h
  by_cases hlocal : n.localID = 0
  · cases hfetch : bgpInfoFetch s.infoUIDHash n.updateID pick with
    | none =>
      refine .inr (.inr (.inl ⟨hlocal, rfl, ?_⟩))
      simp only [Router.step, handleSRxValidationResult, hlocal, ne_eq, not_true_eq_false, if_false,
        hfetch]
    | some r =>
      obtain ⟨-, X, hX, hid⟩ := hlinked.uidEntry _ _ (bgpInfoFetch_some hfetch)
      refine .inr (.inr (.inr ⟨r, X, hlocal, rfl, hX, hid, ?_⟩))
      simp only [Router.step, handleSRxValidationResult, hlocal, ne_eq, not_true_eq_false, if_false,
        hfetch, hX, Router.setValidationResult]
  · cases hfetch : bgpInfoFetch s.infoLIDHash n.localID pick with
    | none =>
      refine .inl ⟨hlocal, rfl, ?_⟩
      simp only [Router.step, handleSRxValidationResult, hlocal, ne_eq, not_false_eq_true, if_true,
        hfetch]
    | some r =>
      obtain ⟨-, X, hX, hid⟩ := hlinked.lidEntry _ _ (bgpInfoFetch_some hfetch)
      obtain ⟨-, hattr, -, -⟩ := answered_fields X n.updateID
      refine .inr (.inl ⟨r, X, hlocal, rfl, hX, hid, ?_⟩)
      rw [← hattr]
      simp only [Router.step, handleSRxValidationResult, hlocal, ne_eq, not_false_eq_true, if_true,
        hfetch, hX, Router.setValidationResult, bgpInfoUnregister_of_fetch hfetch, BgpInfo.answered]

/-- The step lemma. -/
theorem step_linked (h : s.Linked) (hop : FindsOwn bgp s op) : (s.step bgp op).Linked := by
  cases op with
  | announce ref node attr connected =>
    cases hr : s.infos ref with
    | some X =>
      rw [Router.step, hr]
      exact h
    | none =>
      rw [Router.step, hr]
      refine ask_linked bgp h _ connected ?_ rfl
      intro Z hZ
      rw [hr] at hZ
      cases hZ
  | replace ref attr removed suppressed connected pick =>
    cases hr : s.infos ref with
    | none =>
      rw [Router.step, hr]
      exact h
    | some X =>
      simp only [Router.step, hr]
      split
      next hrep =>
        obtain ⟨hanswered, hfinds⟩ := hop X hr hrep
        obtain ⟨heq, hlocal⟩ := withdraw_eq bgp h hr attr hanswered hfinds
        obtain ⟨hu, hl, hh⟩ := withdraw_ids bgp h hr hlocal attr
        have hleft : (s.leave ref X (some (X.withdraw bgp attr))).Linked := by
          refine leave_linked h hr _ ?_
          rintro Z hZ
          obtain rfl := Option.some.inj hZ
          exact ⟨hu, hl, by rw [hh]; exact (Option.some_ne_none _).symm⟩
        rw [heq]
        split
        · exact hleft
        · refine ask_linked bgp hleft _ connected ?_ hu
          intro Z hZ
          have hself : Function.update s.infos ref (some (X.withdraw bgp attr)) ref = some Z := hZ
          rw [Function.update_self] at hself
          obtain rfl := Option.some.inj hself
          exact ⟨hu, hl⟩
      · exact h
  | remove ref pick =>
    cases hr : s.infos ref with
    | none =>
      rw [Router.step, hr]
      exact h
    | some X =>
      obtain ⟨hupdate, htoken⟩ := hop X hr
      simp only [Router.step, hr]
      rw [bgpInfoFree_eq h hr hupdate htoken]
      refine leave_linked h hr none ?_
      intro Z hZ
      cases hZ
  | notify n q pick =>
    rcases notify_cases bgp h n q pick with ⟨-, -, heq⟩ | ⟨r, X, hlocal, hfetch, hr, hid, heq⟩
      | ⟨-, -, heq⟩ | ⟨r, X, hlocal, hfetch, hr, hid, heq⟩
    · rw [heq]
      exact h
    · rw [heq]
      refine ⟨?_, h.2⟩
      obtain ⟨-, -, hY, hfield⟩ := answered_fields X n.updateID
      have hhash : (X.answered n.updateID).infoHash =
          if (X.answered n.updateID).updateID = 0 then X.infoHash else some .uid := by
        rw [hY]
        exact hfield
      have hlinked := h.1.answer (Y := (X.answered n.updateID).setValidationResult
        (localValidation bgp X.attr n).1 (localValidation bgp X.attr n).2) hr
        (by rw [hid]; exact hlocal) rfl hhash
      rw [hid, show ((X.answered n.updateID).setValidationResult (localValidation bgp X.attr n).1
        (localValidation bgp X.attr n).2).updateID = n.updateID from hY] at hlinked
      exact hlinked
    · rw [heq]
      exact h
    · rw [heq]
      exact ⟨h.1.results hr rfl rfl rfl, h.2⟩

/-! ## Along a run -/

/-- The route at `r` has the update id `u`. -/
def Router.Holds (s : Router ν α) (r u : Nat) : Prop := ∃ X, s.infos r = some X ∧ X.updateID = u

/-- Each id belongs to one route where that matters: a replaced route does not wait and its update id
is that of no other route, nor is that of a removed route; what `HASH_FIND` returns for the token of a
removed route is its entry; and a notification for an update id some route has comes with token 0, and
no other route has it. -/
def Alone (bgp : Bgp α) (s : Router ν α) : RouterOp ν α → Prop
  | .announce .. => True
  | .replace ref attr removed _ _ _ => ∀ X, s.infos ref = some X → X.Replaces bgp attr removed →
      ¬ X.Unanswered ∧ (X.updateID ≠ 0 → ∀ r, s.Holds r X.updateID → r = ref)
  | .remove ref pick => ∀ X, s.infos ref = some X →
      (X.updateID ≠ 0 → ∀ r, s.Holds r X.updateID → r = ref) ∧ s.FindsToken ref X pick
  | .notify n _ _ => n.updateID ≠ 0 → ∀ r, s.Holds r n.updateID →
      n.localID = 0 ∧ ∀ r', s.Holds r' n.updateID → r' = r

/-- What the tables owe the routes, for one step: the entries refer to allocated routes that hold the
id, a notification changes every route with its update id, and no route is left with an update id the
step sent a deletion for. -/
structure TablesRight (bgp : Bgp α) (s : Router ν α) (op : RouterOp ν α) : Prop where
  uid : ∀ item ∈ (s.step bgp op).infoUIDHash,
    ∃ X, (s.step bgp op).infos item.info = some X ∧ X.updateID = item.identifier
  lid : ∀ item ∈ (s.step bgp op).infoLIDHash,
    ∃ X, (s.step bgp op).infos item.info = some X ∧ X.localID = item.identifier
  allocated : (s.step bgp op).dangling = false
  notified : ∀ n q pick, op = .notify n q pick → n.updateID ≠ 0 → ∀ r X, s.infos r = some X →
    X.updateID = n.updateID →
      (s.step bgp op).infos r = some (X.setValidationResult n.valType n.valRes)
  deleted : ∀ u, u ≠ 0 → (s.step bgp op).deleted = u :: s.deleted →
    ∀ r, ¬ (s.step bgp op).Holds r u

/-- The entry of the only route with an update id is found. -/
theorem findsUpdate_of_alone {pick : Nat} (h : s.Linked) (hr : s.infos r = some X)
    (hone : X.updateID ≠ 0 → ∀ r', s.Holds r' X.updateID → r' = r) : s.FindsUpdate r X pick := by
  intro hid
  obtain ⟨-, -, hmem⟩ := h.1.known r X hr hid
  refine bgpInfoFetch_eq hmem ?_
  intro r' hmem'
  obtain ⟨-, hholds⟩ := h.1.uidEntry _ _ hmem'
  exact hone hid r' hholds

theorem findsOwn_of_alone (h : s.Linked) (hop : Alone bgp s op) : FindsOwn bgp s op := by
  cases op with
  | announce => trivial
  | replace ref attr removed suppressed connected pick =>
    intro X hr hrep
    obtain ⟨hanswered, hone⟩ := hop X hr hrep
    exact ⟨hanswered, findsUpdate_of_alone h hr hone⟩
  | remove ref pick =>
    intro X hr
    obtain ⟨hone, htoken⟩ := hop X hr
    exact ⟨findsUpdate_of_alone h hr hone, htoken⟩
  | notify => trivial

/-- The deletions of a step that is no notification. -/
theorem not_holds_of_leave (hone : X.updateID ≠ 0 → ∀ r', s.Holds r' X.updateID → r' = r)
    (o : Option (BgpInfo ν α)) (ho : ∀ Z, o = some Z → Z.updateID = 0) {u : Nat} (hu : u ≠ 0)
    (hdeleted : (s.leave r X o).deleted = u :: s.deleted) (r' : Nat) : ¬ (s.leave r X o).Holds r' u := by
  have hid : X.updateID = u := by
    simp only [Router.leave] at hdeleted
    split at hdeleted
    · exact absurd hdeleted (List.cons_ne_self u s.deleted).symm
    · exact (List.cons.inj hdeleted).1
  rintro ⟨Z, hZ, hZu⟩
  rcases update_some (show Function.update s.infos r o r' = some Z from hZ) with ⟨-, hself⟩ | ⟨hne, hold⟩
  · exact hu (hZu.symm.trans (ho Z hself))
  · exact hne (hone (by rw [hid]; exact hu) r' ⟨Z, hold, hZu.trans hid.symm⟩)

/-- A new request leaves the deletions, and gives no update id. -/
theorem ask_holds {connected : Bool} (hX : X.updateID = 0) {u : Nat} (hu : u ≠ 0) {r' : Nat}
    (h : (s.ask bgp r X connected).Holds r' u) : s.Holds r' u := by
  obtain ⟨Z, hZ, hZu⟩ := h
  rw [ask_eq] at hZ
  rcases update_some hZ with ⟨-, hself⟩ | ⟨-, hold⟩
  · obtain rfl := Option.some.inj hself
    exact absurd (hZu.symm.trans hX) hu
  · exact ⟨Z, hold, hZu⟩

theorem ask_deleted (connected : Bool) : (s.ask bgp r X connected).deleted = s.deleted := by
  rw [ask_eq]

theorem deleted_unused (h : s.Linked) (hop : Alone bgp s op) {u : Nat} (hu : u ≠ 0)
    (hdeleted : (s.step bgp op).deleted = u :: s.deleted) (r : Nat) :
    ¬ (s.step bgp op).Holds r u := by
  have hsame {l : List Nat} (heq : l = u :: l) : False := List.cons_ne_self u l heq.symm
  have hown := findsOwn_of_alone h hop
  cases op with
  | announce ref node attr connected =>
    cases hr : s.infos ref with
    | some X =>
      rw [Router.step, hr] at hdeleted
      exact absurd hdeleted hsame
    | none =>
      rw [Router.step, hr, ask_deleted] at hdeleted
      exact absurd hdeleted hsame
  | replace ref attr removed suppressed connected pick =>
    cases hr : s.infos ref with
    | none =>
      rw [Router.step, hr] at hdeleted
      exact absurd hdeleted hsame
    | some X =>
      simp only [Router.step, hr] at hdeleted ⊢
      split at hdeleted
      next hrep =>
        rw [if_pos hrep]
        obtain ⟨hanswered, hone⟩ := hop X hr hrep
        obtain ⟨heq, hlocal⟩ := withdraw_eq bgp h hr attr hanswered (hown X hr hrep).2
        obtain ⟨hzero, -, -⟩ := withdraw_ids bgp h hr hlocal attr
        have hunused := not_holds_of_leave hone (some (X.withdraw bgp attr))
          (fun Z hZ => Option.some.inj hZ ▸ hzero) hu
        rw [heq] at hdeleted ⊢
        split at hdeleted
        next hsup =>
          rw [if_pos hsup]
          exact hunused hdeleted r
        next hsup =>
          rw [if_neg hsup]
          rw [ask_deleted] at hdeleted
          exact fun hholds => hunused hdeleted r (ask_holds hzero hu hholds)
      · exact absurd hdeleted hsame
  | remove ref pick =>
    cases hr : s.infos ref with
    | none =>
      rw [Router.step, hr] at hdeleted
      exact absurd hdeleted hsame
    | some X =>
      obtain ⟨hone, -⟩ := hop X hr
      obtain ⟨hupdate, htoken⟩ := hown X hr
      simp only [Router.step, hr] at hdeleted ⊢
      rw [bgpInfoFree_eq h hr hupdate htoken] at hdeleted ⊢
      refine not_holds_of_leave hone none ?_ hu hdeleted r
      intro Z hZ
      cases hZ
  | notify n q pick =>
    rcases notify_cases bgp h n q pick with ⟨hlocal, -, heq⟩ | ⟨r', X, -, -, -, -, heq⟩
      | ⟨-, hfetch, heq⟩ | ⟨r', X, -, -, -, -, heq⟩
    · rw [heq] at hdeleted ⊢
      obtain ⟨rfl, -⟩ := List.cons.inj hdeleted
      intro hholds
      exact hlocal (hop hu r hholds).1
    · rw [heq] at hdeleted
      exact absurd hdeleted hsame
    · rw [heq] at hdeleted ⊢
      obtain ⟨rfl, -⟩ := List.cons.inj hdeleted
      rintro ⟨X, hX, hid⟩
      obtain ⟨-, -, hmem⟩ := h.1.known r X hX (by rw [hid]; exact hu)
      rw [hid] at hmem
      exact bgpInfoFetch_none hfetch hmem
    · rw [heq] at hdeleted
      exact absurd hdeleted hsame

/-- Of the routes with the update id of a notification there is one, and it is the one found. -/
theorem notify_changes (h : s.Linked) {n : Notification} {q : Request ν α} {pick : Nat}
    (hop : Alone bgp s (.notify n q pick)) (hu : n.updateID ≠ 0) (hr : s.infos r = some X)
    (hid : X.updateID = n.updateID) :
    (s.step bgp (.notify n q pick)).infos r =
      some (X.setValidationResult n.valType n.valRes) := by
  obtain ⟨hlocal, hone⟩ := hop hu r ⟨X, hr, hid⟩
  have hmem : ⟨n.updateID, r⟩ ∈ s.infoUIDHash := by
    obtain ⟨-, -, hmem⟩ := h.1.known r X hr (by rw [hid]; exact hu)
    rw [← hid]
    exact hmem
  rcases notify_cases bgp h n q pick with ⟨hne, -, -⟩ | ⟨r', X', hne, -, -, -, -⟩
    | ⟨-, hfetch, -⟩ | ⟨r', X', -, -, hr', hid', heq⟩
  · exact absurd hlocal hne
  · exact absurd hlocal hne
  · exact absurd hmem (bgpInfoFetch_none hfetch)
  · obtain rfl := hone r' ⟨X', hr', hid'⟩
    obtain rfl := Option.some.inj (hr.symm.trans hr')
    rw [heq]
    exact Function.update_self ..

/-- Routes, tables and server agree along every run in which each id belongs to one route. -/
theorem tables_right (bgp : Bgp α) (ops : List (RouterOp ν α))
    (h : EachStep (Router.step bgp) (Alone bgp) Router.initial ops) :
    EachStep (Router.step bgp) (TablesRight bgp) Router.initial ops := by
  have hrun : Always (Router.step bgp) Router.Linked Router.initial ops :=
    always_of_eachStep (fun _ _ hs hop => step_linked hs (findsOwn_of_alone hs hop)) linked_initial h
  intro before op after heq
  have hs := hrun before (op :: after) heq
  have hop := h before op after heq
  obtain ⟨hlinked, hdangling⟩ := step_linked hs (findsOwn_of_alone hs hop)
  refine ⟨?_, ?_, hdangling, ?_, ?_⟩
  · intro item hmem
    exact (hlinked.uidEntry item.identifier item.info hmem).2
  · intro item hmem
    exact (hlinked.lidEntry item.identifier item.info hmem).2
  · rintro n q pick rfl hu r X hr hid
    exact notify_changes hs hop hu hr hid
  · intro u hu hdeleted r
    exact deleted_unused hs hop hu hdeleted r

/-! ## Two routes with one update id -/

/-- A router without communities and local validation, on attributes that are numbers. -/
def plainBgp : Bgp Nat where
  srxDefault := ⟨3, 3, 3⟩
  ecommunityFlag := false
  evalPathDistr := true
  attrhashCmp := fun a b => a == b
  checkEcomSRxValid := fun _ => -1
  validate := fun _ => none

/-- Announced, answered, notified, removed. -/
def oneRoute : List (RouterOp Unit Nat) :=
  [.announce 0 () 5 true, .notify ⟨7, 1, 1, ⟨0, 3, 3⟩⟩ ⟨1, (), 5⟩ 0,
    .notify ⟨7, 0, 1, ⟨2, 3, 3⟩⟩ ⟨1, (), 5⟩ 0, .remove 0 0]

theorem tables_right_one :
    EachStep (Router.step plainBgp) (Alone plainBgp) Router.initial oneRoute ∧
      EachStep (Router.step plainBgp) (TablesRight plainBgp) Router.initial oneRoute := by
  -- there is a route at 0 only
  have hone {X Z : BgpInfo Unit Nat} {r : Nat}
      (h : Function.update (fun _ => none) 0 (some X) r = some Z) : r = 0 ∧ Z = X := by
    rcases update_some h with ⟨rfl, hself⟩ | ⟨-, hnone⟩
    · exact ⟨rfl, (Option.some.inj hself).symm⟩
    · cases hnone
  have htwice {X Y Z : BgpInfo Unit Nat} {r : Nat}
      (h : Function.update (Function.update (fun _ => none) 0 (some X)) 0 (some Y) r = some Z) :
      r = 0 := by
    rcases update_some h with ⟨rfl, -⟩ | ⟨-, hold⟩
    · rfl
    · exact (hone hold).1
  have halone : EachStep (Router.step plainBgp) (Alone plainBgp) Router.initial oneRoute := by
    simp only [oneRoute, eachStep_cons]
    refine ⟨trivial, ?_, ?_, ?_, eachStep_nil⟩
    · rintro - r ⟨X, hX, hid⟩
      obtain ⟨-, rfl⟩ := hone hX
      cases hid
    · rintro - r ⟨X, hX, -⟩
      obtain rfl := htwice hX
      refine ⟨rfl, ?_⟩
      rintro r' ⟨X', hX', -⟩
      exact htwice hX'
    · intro X hX
      have hlocal : X.localID = 0 := by
        obtain rfl := Option.some.inj hX
        rfl
      refine ⟨?_, fun hne => absurd hlocal hne⟩
      rintro - r ⟨X', hX', -⟩
      rcases update_some hX' with ⟨rfl, -⟩ | ⟨-, hold⟩
      · rfl
      · exact htwice hold
  exact ⟨halone, tables_right plainBgp oneRoute halone⟩

/-- The same path from two peers gets one update id. The notification that it is invalid reaches the
second route only. -/
def sharedRoutes : List (RouterOp Unit Nat) :=
  [.announce 0 () 5 true, .announce 1 () 5 true, .notify ⟨7, 1, 1, ⟨0, 3, 3⟩⟩ ⟨1, (), 5⟩ 0,
    .notify ⟨7, 2, 1, ⟨0, 3, 3⟩⟩ ⟨2, (), 5⟩ 0, .notify ⟨7, 0, 1, ⟨2, 3, 3⟩⟩ ⟨1, (), 5⟩ 0]

theorem shared_id_lost :
    ¬ EachStep (Router.step plainBgp) (TablesRight plainBgp) Router.initial sharedRoutes := by
  intro h
  have hlast := h (sharedRoutes.take 4) (.notify ⟨7, 0, 1, ⟨2, 3, 3⟩⟩ ⟨1, (), 5⟩ 0) [] rfl
  have hchanged := hlast.notified _ _ _ rfl (by decide) 0 _ rfl rfl
  revert hchanged
  decide

end SrxSuite.Quagga

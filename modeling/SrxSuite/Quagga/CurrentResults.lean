import SrxSuite.Quagga.InfoTables

/-!
# A route gets results for its attributes

The requests are answered later, and a route can have other attributes by then. The tables keep old
answers away from it: a route that is replaced leaves the table of the update ids. It does not leave the
table of the tokens, because the implicit withdraw of a route that waits unregisters the identifier 0,
so the answer to the old request reaches the new attributes. And where two routes have one update id,
the entry that is unregistered can be the one of the other route.

Results:
1. `Traced`: the entries of the tables belong to requests with the attributes of their routes.
2. `results_current`: along a run whose steps meet `Leaves`, a result is stored in a route that asked
   for it with the attributes it has.
3. `stale_result`: an answer that comes after the replacement.
-/

namespace SrxSuite.Quagga

open Runs Server

variable {ν α β : Type}

/-! ## Requests and answers -/

/-- `data` is what the server is asked about: a request for two routes can be the same there. -/
def Request.data (data : ν → α → β) (q : Request ν α) : β := data q.node q.attr

/-- A notification answers a request that was sent: with the token of the request, or with token 0 and
the update id the server gave to its data. An update id belongs to one data. And the tokens suffice. -/
def Answers (data : ν → α → β) (bgp : Bgp α) (s : Router ν α) (op : RouterOp ν α) : Prop :=
  (s.step bgp op).issued ≤ maxValueInt ∧
    ∀ n q pick, op = .notify n q pick → q ∈ s.requests ∧
      (n.localID ≠ 0 → q.token = n.localID ∧
        ∀ g ∈ s.given, g.1 = n.updateID → g.2.data data = q.data data) ∧
      (n.localID = 0 → ∃ g ∈ s.given, g.1 = n.updateID ∧ g.2.data data = q.data data)

/-- A replaced route does not wait for its first answer, and the entry for the update id of a route that
is replaced or removed is its own. -/
def Leaves (bgp : Bgp α) (s : Router ν α) : RouterOp ν α → Prop
  | .announce .. => True
  | .replace ref attr removed _ _ pick => ∀ X, s.infos ref = some X → X.Replaces bgp attr removed →
      ¬ X.Unanswered ∧ s.FindsUpdate ref X pick
  | .remove ref pick => ∀ X, s.infos ref = some X → s.FindsUpdate ref X pick
  | .notify .. => True

/-- Results went to allocated routes, and for each there is a request with the attributes the route had
at that moment and with the data of the request that was answered. -/
def ResultsCurrent (data : ν → α → β) (s : Router ν α) : Prop :=
  s.dangling = false ∧ ∀ e ∈ s.stored, ∃ q ∈ s.requests,
    q.node = e.info.node ∧ q.attr = e.info.attr ∧ q.data data = e.answered.data data

/-! ## The invariant -/

/-- Every identifier of a route comes from a request with its attributes. -/
structure Traced (data : ν → α → β) (s : Router ν α) : Prop where
  linked : s.Linked
  counted : s.suiLocalID = s.issued
  requested : ∀ q ∈ s.requests, q.token ≤ s.suiLocalID
  tokens : ∀ t r, ⟨t, r⟩ ∈ s.infoLIDHash → t ≤ s.suiLocalID
  unique : ∀ t r r', ⟨t, r⟩ ∈ s.infoLIDHash → ⟨t, r'⟩ ∈ s.infoLIDHash → r' = r
  asked : ∀ r X, s.infos r = some X → X.localID ≠ 0 → ∀ q ∈ s.requests, q.token = X.localID →
    q.node = X.node ∧ q.attr = X.attr
  known : ∀ r X, s.infos r = some X → X.updateID ≠ 0 → ∃ q ∈ s.requests,
    q.node = X.node ∧ q.attr = X.attr ∧
      ∃ g ∈ s.given, g.1 = X.updateID ∧ g.2.data data = q.data data
  ids : ∀ g ∈ s.given, ∀ g' ∈ s.given, g.1 = g'.1 → g.2.data data = g'.2.data data
  current : ResultsCurrent data s

variable {data : ν → α → β} {bgp : Bgp α} {s : Router ν α} {r : Nat} {X : BgpInfo ν α}
  {op : RouterOp ν α}

theorem traced_initial : Traced data (Router.initial : Router ν α) := by
  have hempty {γ : Type} {P : γ → Prop} : ∀ x ∈ ([] : List γ), P x := by
    intro x hmem
    cases hmem
  refine ⟨linked_initial, rfl, hempty, ?_, ?_, ?_, ?_, hempty, rfl, hempty⟩
  · intro t r hmem
    cases hmem
  · intro t r r' hmem
    cases hmem
  · intro r X hX
    cases hX
  · intro r X hX
    cases hX

/-- A route that leaves the tables. -/
theorem Traced.leave (h : Traced data s) (hr : s.infos r = some X) (o : Option (BgpInfo ν α))
    (ho : ∀ Z, o = some Z → Z.updateID = 0 ∧ Z.localID = 0 ∧ Z.infoHash = none) :
    Traced data (s.leave r X o) := by
  refine
    { linked := leave_linked h.linked hr o ?_
      counted := h.counted
      requested := h.requested
      tokens := fun t r' hmem => h.tokens t r' (List.mem_of_mem_erase hmem)
      unique := fun t r₁ r₂ h₁ h₂ =>
        h.unique t r₁ r₂ (List.mem_of_mem_erase h₁) (List.mem_of_mem_erase h₂)
      asked := ?_
      known := ?_
      ids := h.ids
      current := h.current }
  · intro Z hZ
    obtain ⟨hu, hl, hh⟩ := ho Z hZ
    exact ⟨hu, hl, by rw [hh]; exact (Option.some_ne_none _).symm⟩
  · intro r' Z hZ hlocal
    rcases update_some hZ with ⟨-, hself⟩ | ⟨-, hold⟩
    · exact absurd (ho Z hself).2.1 hlocal
    · exact h.asked r' Z hold hlocal
  · intro r' Z hZ hid
    rcases update_some hZ with ⟨-, hself⟩ | ⟨-, hold⟩
    · exact absurd (ho Z hself).1 hid
    · exact h.known r' Z hold hid

/-- A route that asks. Its token is greater than all before it. -/
theorem Traced.ask (h : Traced data s) (X : BgpInfo ν α) (connected : Bool)
    (hfree : ∀ Z, s.infos r = some Z → Z.updateID = 0 ∧ Z.localID = 0) (hX : X.updateID = 0)
    (hcount : s.issued + 1 ≤ maxValueInt) : Traced data (s.ask bgp r X connected) := by
  have hnext : getNextLocalID s.suiLocalID = s.suiLocalID + 1 := by
    rw [getNextLocalID, if_pos]
    rw [h.counted]
    exact hcount
  have hold {q : Request ν α} {c : Bool} {new : Request ν α}
      (hq : q ∈ if c = true then new :: s.requests else s.requests) :
      q = new ∨ q ∈ s.requests := by
    split at hq
    · exact List.mem_cons.mp hq
    · exact .inr hq
  have hkept {q : Request ν α} {c : Bool} {new : Request ν α} (hq : q ∈ s.requests) :
      q ∈ if c = true then new :: s.requests else s.requests := by
    split
    · exact List.mem_cons_of_mem _ hq
    · exact hq
  have hlinked := ask_linked bgp h.linked X connected hfree hX
  rw [ask_eq, hnext] at hlinked ⊢
  refine
    { linked := hlinked
      counted := congrArg (· + 1) h.counted
      requested := ?_
      tokens := ?_
      unique := ?_
      asked := ?_
      known := ?_
      ids := h.ids
      current := ⟨h.current.1, ?_⟩ }
  · intro q hq
    rcases hold hq with rfl | hq
    · exact Nat.le_refl _
    · exact Nat.le_succ_of_le (h.requested q hq)
  · intro t r' hmem
    rcases List.mem_cons.mp hmem with heq | hmem
    · obtain ⟨rfl, -⟩ := HashItem.mk.inj heq
      exact Nat.le_refl _
    · exact Nat.le_succ_of_le (h.tokens t r' hmem)
  · intro t r₁ r₂ h₁ h₂
    rcases List.mem_cons.mp h₁ with heq₁ | h₁
    · obtain ⟨rfl, rfl⟩ := HashItem.mk.inj heq₁
      rcases List.mem_cons.mp h₂ with heq₂ | h₂
      · exact (HashItem.mk.inj heq₂).2
      · exact absurd (h.tokens _ _ h₂) (Nat.not_succ_le_self _)
    · rcases List.mem_cons.mp h₂ with heq₂ | h₂
      · obtain ⟨rfl, -⟩ := HashItem.mk.inj heq₂
        exact absurd (h.tokens _ _ h₁) (Nat.not_succ_le_self _)
      · exact h.unique t r₁ r₂ h₁ h₂
  · intro r' Z hZ hlocal q hq htoken
    rcases update_some hZ with ⟨-, hself⟩ | ⟨-, hZold⟩
    · obtain rfl := Option.some.inj hself
      rcases hold hq with rfl | hq
      · exact ⟨rfl, rfl⟩
      · have hle := h.requested q hq
        rw [htoken] at hle
        exact absurd hle (Nat.not_succ_le_self _)
    · rcases hold hq with rfl | hq
      · have hle := h.tokens _ _ (h.linked.1.waiting r' Z hZold hlocal).2
        rw [← htoken] at hle
        exact absurd hle (Nat.not_succ_le_self _)
      · exact h.asked r' Z hZold hlocal q hq htoken
  · intro r' Z hZ hid
    rcases update_some hZ with ⟨-, hself⟩ | ⟨-, hZold⟩
    · obtain rfl := Option.some.inj hself
      exact absurd hX hid
    · obtain ⟨q, hq, hrest⟩ := h.known r' Z hZold hid
      exact ⟨q, hkept hq, hrest⟩
  · intro e he
    obtain ⟨q, hq, hrest⟩ := h.current.2 e he
    exact ⟨q, hkept hq, hrest⟩

/-- The token of a route belongs to no other. -/
theorem Traced.findsToken (h : Traced data s) (hr : s.infos r = some X) (pick : Nat) :
    s.FindsToken r X pick := by
  intro hlocal
  obtain ⟨-, hmem⟩ := h.linked.1.waiting r X hr hlocal
  exact bgpInfoFetch_eq hmem fun r' hmem' => h.unique _ _ _ hmem hmem'

/-- A notification: the answer is for the attributes of the route that is found. -/
theorem Traced.notify (h : Traced data s) {n : Notification} {q : Request ν α} {pick : Nat}
    (hop : Answers data bgp s (.notify n q pick)) :
    Traced data (s.step bgp (.notify n q pick)) := by
  have hlinked : (s.step bgp (.notify n q pick)).Linked := step_linked h.linked trivial
  obtain ⟨hq, hfirst, hlater⟩ := hop.2 n q pick rfl
  have hids (hlocal : n.localID ≠ 0) : ∀ g ∈ (n.updateID, q) :: s.given,
      ∀ g' ∈ (n.updateID, q) :: s.given, g.1 = g'.1 → g.2.data data = g'.2.data data := by
    obtain ⟨-, hgiven⟩ := hfirst hlocal
    intro g hg g' hg' heq
    rcases List.mem_cons.mp hg with rfl | hg
    · rcases List.mem_cons.mp hg' with rfl | hg'
      · rfl
      · exact (hgiven g' hg' heq.symm).symm
    · rcases List.mem_cons.mp hg' with rfl | hg'
      · exact hgiven g hg heq
      · exact h.ids g hg g' hg' heq
  have hknown : ∀ r X, s.infos r = some X → X.updateID ≠ 0 → ∃ q' ∈ s.requests,
      q'.node = X.node ∧ q'.attr = X.attr ∧ ∃ g ∈ (n.updateID, q) :: s.given,
        g.1 = X.updateID ∧ g.2.data data = q'.data data := by
    intro r X hX hid
    obtain ⟨q', hq', hnode, hattr, g, hg, hrest⟩ := h.known r X hX hid
    exact ⟨q', hq', hnode, hattr, g, List.mem_cons_of_mem _ hg, hrest⟩
  rcases notify_cases bgp h.linked n q pick with ⟨hlocal, -, heq⟩
    | ⟨r, X, hlocal, hfetch, hr, hid, heq⟩ | ⟨-, -, heq⟩ | ⟨r, X, hlocal, hfetch, hr, hid, heq⟩
  · rw [heq] at hlinked ⊢
    exact { h with linked := hlinked, known := hknown, ids := hids hlocal }
  · obtain ⟨hnode, hattr, hupdate, -⟩ := answered_fields X n.updateID
    -- the request with this token was made for the route
    have hown : q.node = X.node ∧ q.attr = X.attr :=
      h.asked r X hr (by rw [hid]; exact hlocal) q hq (by rw [hid]; exact (hfirst hlocal).1)
    rw [heq] at hlinked ⊢
    refine
      { linked := hlinked
        counted := h.counted
        requested := h.requested
        tokens := fun t r' hmem => h.tokens t r' (List.mem_of_mem_erase hmem)
        unique := fun t r₁ r₂ h₁ h₂ =>
          h.unique t r₁ r₂ (List.mem_of_mem_erase h₁) (List.mem_of_mem_erase h₂)
        asked := ?_
        known := ?_
        ids := hids hlocal
        current := ⟨h.current.1, ?_⟩ }
    · intro r' Z hZ hZlocal
      rcases update_some hZ with ⟨-, hself⟩ | ⟨-, hold⟩
      · obtain rfl := Option.some.inj hself
        exact absurd rfl hZlocal
      · exact h.asked r' Z hold hZlocal
    · intro r' Z hZ hZid
      rcases update_some hZ with ⟨-, hself⟩ | ⟨-, hold⟩
      · obtain rfl := Option.some.inj hself
        exact ⟨q, hq, hown.1.trans hnode.symm, hown.2.trans hattr.symm, (n.updateID, q),
          List.mem_cons_self, hupdate.symm, rfl⟩
      · exact hknown r' Z hold hZid
    · intro e he
      rcases List.mem_cons.mp he with rfl | he
      · exact ⟨q, hq, hown.1.trans hnode.symm, hown.2.trans hattr.symm, rfl⟩
      · exact h.current.2 e he
  · rw [heq] at hlinked ⊢
    exact { h with linked := hlinked }
  · rw [heq] at hlinked ⊢
    -- the update id was given to the data of a request of the route
    have hne : X.updateID ≠ 0 := by
      rw [hid]
      exact (h.linked.1.uidEntry _ _ (bgpInfoFetch_some hfetch)).1
    obtain ⟨q', hq', hnode, hattr, g, hg, hgid, hgdata⟩ := h.known r X hr hne
    obtain ⟨g', hg', hgid', hgdata'⟩ := hlater hlocal
    have hsame : q'.data data = q.data data := by
      rw [← hgdata, ← hgdata']
      exact h.ids g hg g' hg' (hgid.trans (hid.trans hgid'.symm))
    refine { h with linked := hlinked, asked := ?_, known := ?_, current := ⟨h.current.1, ?_⟩ }
    · intro r' Z hZ hZlocal
      rcases update_some hZ with ⟨rfl, hself⟩ | ⟨-, hold⟩
      · obtain rfl := Option.some.inj hself
        exact h.asked r' X hr hZlocal
      · exact h.asked r' Z hold hZlocal
    · intro r' Z hZ hZid
      rcases update_some hZ with ⟨rfl, hself⟩ | ⟨-, hold⟩
      · obtain rfl := Option.some.inj hself
        exact h.known r' X hr hZid
      · exact h.known r' Z hold hZid
    · intro e he
      rcases List.mem_cons.mp he with rfl | he
      · exact ⟨q', hq', hnode, hattr, hsame⟩
      · exact h.current.2 e he

/-- The step lemma. -/
theorem Traced.step (h : Traced data s) (hans : Answers data bgp s op) (hop : Leaves bgp s op) :
    Traced data (s.step bgp op) := by
  have hcount := hans.1
  cases op with
  | announce ref node attr connected =>
    cases hr : s.infos ref with
    | some X =>
      rw [Router.step, hr]
      exact h
    | none =>
      rw [Router.step, hr, ask_eq] at hcount
      rw [Router.step, hr]
      refine h.ask _ connected ?_ rfl hcount
      intro Z hZ
      rw [hr] at hZ
      cases hZ
  | replace ref attr removed suppressed connected pick =>
    cases hr : s.infos ref with
    | none =>
      rw [Router.step, hr]
      exact h
    | some X =>
      simp only [Router.step, hr] at hcount ⊢
      split
      next hrep =>
        obtain ⟨hanswered, hfinds⟩ := hop X hr hrep
        obtain ⟨heq, hlocal⟩ := withdraw_eq bgp h.linked hr attr hanswered hfinds
        have hzero := withdraw_ids bgp h.linked hr hlocal attr
        have hleft : Traced data (s.leave ref X (some (X.withdraw bgp attr))) := by
          refine h.leave hr _ ?_
          intro Z hZ
          obtain rfl := Option.some.inj hZ
          exact hzero
        rw [if_pos hrep, heq] at hcount
        rw [heq]
        split
        · exact hleft
        next hsup =>
          rw [if_neg hsup, ask_eq] at hcount
          refine hleft.ask _ connected ?_ hzero.1 hcount
          intro Z hZ
          have hself : Function.update s.infos ref (some (X.withdraw bgp attr)) ref = some Z := hZ
          rw [Function.update_self] at hself
          obtain rfl := Option.some.inj hself
          exact ⟨hzero.1, hzero.2.1⟩
      · exact h
  | remove ref pick =>
    cases hr : s.infos ref with
    | none =>
      rw [Router.step, hr]
      exact h
    | some X =>
      simp only [Router.step, hr]
      rw [bgpInfoFree_eq h.linked hr (hop X hr) (h.findsToken hr pick)]
      refine h.leave hr none ?_
      intro Z hZ
      cases hZ
  | notify n q pick => exact h.notify hans

/-- A route gets results for the attributes it has, along every run in which no route is replaced before
its first answer and no route takes the entry of another one away. -/
theorem results_current (data : ν → α → β) (bgp : Bgp α) (ops : List (RouterOp ν α))
    (hans : EachStep (Router.step bgp) (Answers data bgp) Router.initial ops)
    (hops : EachStep (Router.step bgp) (Leaves bgp) Router.initial ops) :
    Always (Router.step bgp) (ResultsCurrent data) Router.initial ops := by
  have hboth : EachStep (Router.step bgp) (fun s op => Answers data bgp s op ∧ Leaves bgp s op)
      Router.initial ops := fun before op after heq =>
    ⟨hans before op after heq, hops before op after heq⟩
  have hrun : Always (Router.step bgp) (Traced data) Router.initial ops :=
    always_of_eachStep (fun _ _ hs hop => hs.step hop.1 hop.2) traced_initial hboth
  intro before after heq
  exact (hrun before after heq).current

/-! ## A route that is replaced before its answer -/

/-- Announced, answered, replaced, and answered again. -/
def answeredFirst : List (RouterOp Unit Nat) :=
  [.announce 0 () 5 true, .notify ⟨7, 1, 1, ⟨0, 3, 3⟩⟩ ⟨1, (), 5⟩ 0,
    .replace 0 6 false false true 0, .notify ⟨8, 2, 1, ⟨2, 3, 3⟩⟩ ⟨2, (), 6⟩ 0,
    .notify ⟨8, 0, 1, ⟨0, 3, 3⟩⟩ ⟨2, (), 6⟩ 0]

theorem results_current_answered :
    Always (Router.step plainBgp) (ResultsCurrent fun _ a => a) Router.initial answeredFirst := by
  have hans : EachStep (Router.step plainBgp) (Answers (fun _ a => a) plainBgp) Router.initial
      answeredFirst := by
    simp only [answeredFirst, eachStep_cons]
    refine ⟨⟨by decide, by rintro _ _ _ ⟨⟩⟩, ⟨by decide, ?_⟩, ⟨by decide, by rintro _ _ _ ⟨⟩⟩,
      ⟨by decide, ?_⟩, ⟨by decide, ?_⟩, eachStep_nil⟩
    · rintro _ _ _ ⟨⟩
      exact ⟨by decide, fun _ => by decide, fun h => absurd h (by decide)⟩
    · rintro _ _ _ ⟨⟩
      exact ⟨by decide, fun _ => by decide, fun h => absurd h (by decide)⟩
    · rintro _ _ _ ⟨⟩
      exact ⟨by decide, fun h => absurd rfl h, fun _ => by decide⟩
  have hops : EachStep (Router.step plainBgp) (Leaves plainBgp) Router.initial answeredFirst := by
    simp only [answeredFirst, eachStep_cons]
    refine ⟨trivial, trivial, ?_, trivial, trivial, eachStep_nil⟩
    intro X hX _
    obtain rfl := Option.some.inj hX
    exact ⟨by decide, fun _ => by decide⟩
  exact results_current (fun _ a => a) plainBgp answeredFirst hans hops

/-- The answer for the attributes 5 comes when the route has the attributes 6. -/
def answeredLate : List (RouterOp Unit Nat) :=
  [.announce 0 () 5 true, .replace 0 6 false false true 0,
    .notify ⟨7, 1, 1, ⟨0, 3, 3⟩⟩ ⟨1, (), 5⟩ 0]

theorem stale_result :
    EachStep (Router.step plainBgp) (Answers (fun _ a => a) plainBgp) Router.initial answeredLate ∧
      ¬ Always (Router.step plainBgp) (ResultsCurrent fun _ a => a) Router.initial answeredLate := by
  constructor
  · simp only [answeredLate, eachStep_cons]
    refine ⟨⟨by decide, by rintro _ _ _ ⟨⟩⟩, ⟨by decide, by rintro _ _ _ ⟨⟩⟩, ⟨by decide, ?_⟩,
      eachStep_nil⟩
    rintro _ _ _ ⟨⟩
    exact ⟨by decide, fun _ => by decide, fun h => absurd h (by decide)⟩
  · intro h
    obtain ⟨-, hstored⟩ := h answeredLate [] rfl
    revert hstored
    decide

end SrxSuite.Quagga

import SrxSuite.Lib.Trie

/-!
# Walks in tries

A stateful walk visits nodes of a trie, may change their values and threads a state through
the visits.

* `walk` goes from a node down to all nodes below, the left subtrie first. A visit decides
  whether the walk goes on below the node and hands a parameter down.
* `climb` goes from the node at a key up to the root, until a visit stops it.
* `atSub` runs an operation on the subtrie at a key.

`walk_rule` is the invariant rule for `walk`: a visit takes its own node from `Pre` to `Post`
and does not disturb the other nodes. `climb_eq` describes a climb whose early stop makes no
difference: it visits the whole path.
-/

namespace Trie

variable {κ α σ π : Type}

/-! ## Walking down -/

/-- The children of a node in a binary trie. -/
def children (l r : Trie Bool α) : Bool → Trie Bool α
  | false => l
  | true => r

/-- Walk down from a node at depth `d`. -/
def walk (f : Nat → π → α → σ → Option (α × σ × Option π)) :
    Nat → π → Trie Bool α → σ → Option (Trie Bool α × σ)
  | _, _, null, s => some (null, s)
  | d, p, node v c, s => do
    let (v, s, next) ← f d p v s
    match next with
    | none => some (node v c, s)
    | some p => do
      let (l, s) ← walk f (d + 1) p (c false) s
      let (r, s) ← walk f (d + 1) p (c true) s
      some (node v (children l r), s)

/-- The sum of `g` over the keys of a trie that hangs at the key `w`. -/
def sumKeys (g : List Bool → Nat) : List Bool → Trie Bool α → Nat
  | _, null => 0
  | w, node _ c => g w + (sumKeys g (w ++ [false]) (c false) + sumKeys g (w ++ [true]) (c true))

theorem forall_get?_node {P : List Bool → α → Prop} {v : α} {c : Bool → Trie Bool α} :
    (∀ u x, (node v c).get? u = some x → P u x) ↔
      P [] v ∧ ∀ b u x, (c b).get? u = some x → P (b :: u) x := by
  constructor
  · intro h
    exact ⟨h [] v rfl, fun b u x hx => h (b :: u) x hx⟩
  · rintro ⟨h0, h1⟩ u x hx
    cases u with
    | nil => exact Option.some.inj hx ▸ h0
    | cons b u => exact h1 b u x hx

theorem sumKeys_congr {g g' : List Bool → Nat} {w : List Bool} (t : Trie Bool α)
    (h : ∀ u, g (w ++ u) = g' (w ++ u)) : t.sumKeys g w = t.sumKeys g' w := by
  induction t generalizing w with
  | null => rfl
  | node v c ih =>
    have hb (b : Bool) : (c b).sumKeys g (w ++ [b]) = (c b).sumKeys g' (w ++ [b]) :=
      ih b fun u => by simpa using h (b :: u)
    have hw := h []
    rw [List.append_nil] at hw
    simp only [sumKeys, hb, hw]

theorem sumKeys_eq_zero {g : List Bool → Nat} {w : List Bool} (t : Trie Bool α)
    (h : ∀ u, g (w ++ u) = 0) : t.sumKeys g w = 0 := by
  induction t generalizing w with
  | null => rfl
  | node v c ih =>
    have hb (b : Bool) : (c b).sumKeys g (w ++ [b]) = 0 :=
      ih b fun u => by simpa using h (b :: u)
    simp only [sumKeys, hb, Nat.add_zero]
    simpa using h []

/-- Counting the elements of a list by their keys. -/
theorem sumKeys_countP {β : Type} (key : β → List Bool) (p : β → Bool) (l : List β)
    (t : Trie Bool α) (w : List Bool)
    (hmem : ∀ x ∈ l, p x = true → ∀ u, key x = w ++ u → (t.get? u).isSome) :
    t.sumKeys (fun u => l.countP fun x => key x = u ∧ p x = true) w =
      l.countP fun x => w <+: key x ∧ p x = true := by
  induction t generalizing w with
  | null =>
    rw [sumKeys, eq_comm, List.countP_eq_zero]
    intro x hx hkey
    simp only [decide_eq_true_eq] at hkey
    obtain ⟨⟨u, hu⟩, hp⟩ := hkey
    simpa using hmem x hx hp u hu.symm
  | node v c ih =>
    have hb (b : Bool) : (c b).sumKeys (fun u => l.countP fun x => key x = u ∧ p x = true)
        (w ++ [b]) = l.countP fun x => w ++ [b] <+: key x ∧ p x = true :=
      ih b (w ++ [b]) fun x hx hp u hu => hmem x hx hp (b :: u) (by simpa using hu)
    simp only [sumKeys, hb]
    clear ih hb hmem
    -- A key that extends `w` is `w` itself or goes on with one of the two bits.
    induction l with
    | nil => rfl
    | cons x l ih =>
      simp only [List.countP_cons, ← ih]
      have hone : (if decide (w <+: key x ∧ p x = true) = true then 1 else 0) =
          (if decide (key x = w ∧ p x = true) = true then 1 else 0) +
            ((if decide (w ++ [false] <+: key x ∧ p x = true) = true then 1 else 0) +
              (if decide (w ++ [true] <+: key x ∧ p x = true) = true then 1 else 0)) := by
        by_cases hw : w <+: key x
        · obtain ⟨u, hu⟩ := hw
          have hlong (b : Bool) : ¬ w ++ [b] <+: w := fun h => by
            have := h.length_le
            rw [List.length_append, List.length_singleton] at this
            omega
          rw [← hu]
          cases p x <;> cases u with
          | nil => simp [hlong]
          | cons b u => cases b <;> simp [List.prefix_append_right_inj]
        · have h1 : key x ≠ w := fun h => hw (h ▸ List.prefix_rfl)
          have h2 (b : Bool) : ¬ w ++ [b] <+: key x := fun h =>
            hw ((List.prefix_append w [b]).trans h)
          simp [hw, h1, h2]
      omega

/-! ## The invariant rule -/

section WalkRule

variable {f : Nat → π → α → σ → Option (α × σ × Option π)}

/-- What one visit at the key `w` has to do. `Par` is a property of the parameter handed down,
`Step` says how the state changes, and `Bud n` that `n` units are left to spend; a visit spends
`cost`. Where the walk stops, the nodes below have nothing to do. -/
def VisitOk (f : Nat → π → α → σ → Option (α × σ × Option π))
    (Pre Post : List Bool → α → σ → Prop) (Par : List Bool → π → Prop)
    (Step : List Bool → σ → σ → Prop) (Bud : Nat → σ → Prop) (cost : List Bool → Nat) : Prop :=
  ∀ w p v s n, Par w p → Pre w v s → Bud (cost w + n) s →
    ∃ v' s' next, f w.length p v s = some (v', s', next) ∧ Post w v' s' ∧ Step w s s' ∧
      Bud n s' ∧
      match next with
      | some p' => ∀ b, Par (w ++ [b]) p'
      | none => ∀ u, u ≠ [] → cost (w ++ u) = 0 ∧ ∀ x s, Pre (w ++ u) x s → Post (w ++ u) x s

/-- A visit takes its node from `Pre` to `Post`, and other nodes are not disturbed by it: so
does a walk with all nodes. What every step below `w` keeps (`Q`), the walk keeps. -/
theorem walk_rule {Pre Post : List Bool → α → σ → Prop} {Par : List Bool → π → Prop}
    {Step : List Bool → σ → σ → Prop} {Bud : Nat → σ → Prop} {cost : List Bool → Nat}
    (hvisit : VisitOk f Pre Post Par Step Bud cost)
    (hother : ∀ w w' v s s', Step w' s s' → w ≠ w' →
      (Pre w v s → Pre w v s') ∧ (Post w v s → Post w v s'))
    (t : Trie Bool α) {w : List Bool} {p : π} {s : σ} {n : Nat} (hpar : Par w p)
    (hpre : ∀ u v, t.get? u = some v → Pre (w ++ u) v s) (hbud : Bud (t.sumKeys cost w + n) s) :
    ∃ t' s', t.walk f w.length p s = some (t', s') ∧
      (∀ u, (t'.get? u).isSome = (t.get? u).isSome) ∧
      (∀ u v, t'.get? u = some v → Post (w ++ u) v s') ∧ Bud n s' ∧
      ∀ Q : σ → Prop, (∀ u s s', Step (w ++ u) s s' → Q s → Q s') → Q s → Q s' := by
  induction t generalizing w p s n with
  | null =>
    exact ⟨null, s, rfl, fun _ => rfl, fun u v h => by simp at h, by simpa [sumKeys] using hbud,
      fun _ _ h => h⟩
  | node v c ih =>
    rw [forall_get?_node] at hpre
    rw [sumKeys, Nat.add_assoc] at hbud
    have hv := hpre.1
    rw [List.append_nil] at hv
    obtain ⟨v', s₁, next, hf, hpost, hstep, hbud₁, hnext⟩ := hvisit w p v s _ hpar hv hbud
    have hne (b : Bool) (u : List Bool) : w ++ b :: u ≠ w := fun h => by simp at h
    have hpre₁ (b : Bool) (u : List Bool) (x : α) (hx : (c b).get? u = some x) :
        Pre (w ++ b :: u) x s₁ := (hother _ _ x s s₁ hstep (hne b u)).1 (hpre.2 b u x hx)
    cases next with
    | none =>
      -- The walk stops here: the nodes below already are as they should be.
      have hzero (b : Bool) : (c b).sumKeys cost (w ++ [b]) = 0 :=
        sumKeys_eq_zero _ fun u => by simpa using (hnext (b :: u) (by simp)).1
      refine ⟨node v' c, s₁, by simp [walk, hf], fun u => by cases u <;> rfl, ?_,
        by simpa [hzero] using hbud₁, fun Q hQ h => hQ [] s s₁ (by simpa using hstep) h⟩
      rw [forall_get?_node, List.append_nil]
      exact ⟨hpost, fun b u x hx => (hnext (b :: u) (by simp)).2 x s₁ (hpre₁ b u x hx)⟩
    | some p' =>
      have hassoc (b : Bool) (u : List Bool) : w ++ [b] ++ u = w ++ b :: u := by simp
      rw [Nat.add_assoc] at hbud₁
      obtain ⟨l, s₂, hl, hkeysl, hpostl, hbud₂, hQl⟩ := ih false (hnext false)
        (fun u x hx => by rw [hassoc]; exact hpre₁ false u x hx) hbud₁
      have hpre₂ : ∀ u x, (c true).get? u = some x → Pre (w ++ [true] ++ u) x s₂ := by
        intro u x hx
        rw [hassoc]
        refine hQl (Pre (w ++ true :: u) x) (fun u' s s' hs => ?_) (hpre₁ true u x hx)
        exact (hother _ _ x s s' hs (by simp)).1
      obtain ⟨r, s₃, hr, hkeysr, hpostr, hbud₃, hQr⟩ := ih true (hnext true) hpre₂ hbud₂
      have hlen (b : Bool) : (w ++ [b]).length = w.length + 1 := by simp
      rw [hlen] at hl hr
      have hafterl (u : List Bool) (x : α) (hne : ∀ u', u ≠ w ++ [true] ++ u')
          (h : Post u x s₂) : Post u x s₃ :=
        hQr (Post u x) (fun u' s s' hs => (hother _ _ x s s' hs (hne u')).2) h
      refine ⟨node v' (children l r), s₃, by simp [walk, hf, hl, hr], ?_, ?_, hbud₃, ?_⟩
      · rintro (_ | ⟨_ | _, u⟩)
        · rfl
        · exact hkeysl u
        · exact hkeysr u
      · rw [forall_get?_node, List.append_nil]
        refine ⟨?_, ?_⟩
        · have h₂ : Post w v' s₂ := hQl (Post w v') (fun u' s s' hs =>
            (hother _ _ v' s s' hs (by simp)).2) hpost
          exact hafterl w v' (fun u' h => by simp at h) h₂
        · rintro (_ | _) u x hx
          · rw [← hassoc]
            exact hafterl _ x (fun u' h => by simp at h) (hpostl u x hx)
          · rw [← hassoc]
            exact hpostr u x hx
      · intro Q hQ h
        refine hQr Q (fun u => ?_) (hQl Q (fun u => ?_) (hQ [] s s₁ (by simpa using hstep) h))
        · rw [hassoc]
          exact hQ (true :: u)
        · rw [hassoc]
          exact hQ (false :: u)

/-- A walk whose visits are defined wherever those of another one are, with the same results. -/
theorem walk_mono {g : Nat → π → α → σ → Option (α × σ × Option π)}
    (hfg : ∀ d p v s r, f d p v s = some r → g d p v s = some r) (t : Trie Bool α) {d : Nat} {p : π}
    {s : σ} {r : Trie Bool α × σ} (hwalk : t.walk f d p s = some r) : t.walk g d p s = some r := by
  induction t generalizing d p s r with
  | null => exact hwalk
  | node v c ih =>
    simp only [walk, Option.bind_eq_bind, Option.bind_eq_some_iff] at hwalk ⊢
    obtain ⟨⟨v', s₁, next⟩, hvisit, hrest⟩ := hwalk
    refine ⟨(v', s₁, next), hfg _ _ _ _ _ hvisit, ?_⟩
    cases next with
    | none => exact hrest
    | some p' =>
      simp only [Option.bind_eq_some_iff] at hrest ⊢
      obtain ⟨l, hl, r', hr, heq⟩ := hrest
      exact ⟨l, ih false hl, r', ih true hr, heq⟩

/-- The rule for walks that may fail: what holds if the walk gets to its end. The visits thread a
property `I` of the state and do not look at other nodes. -/
theorem walk_of_some {Pre Post : List Bool → α → Prop} {Par : List Bool → π → Prop} {I : σ → Prop}
    (hvisit : ∀ w p v s v' s' next, Par w p → Pre w v → I s →
      f w.length p v s = some (v', s', next) → Post w v' ∧ I s' ∧
        match next with
        | some p' => ∀ b, Par (w ++ [b]) p'
        | none => ∀ u, u ≠ [] → ∀ x, Pre (w ++ u) x → Post (w ++ u) x)
    {t t' : Trie Bool α} {w : List Bool} {p : π} {s s' : σ} (hpar : Par w p)
    (hpre : ∀ u v, t.get? u = some v → Pre (w ++ u) v) (hI : I s)
    (hwalk : t.walk f w.length p s = some (t', s')) :
    I s' ∧ (∀ u, (t'.get? u).isSome = (t.get? u).isSome) ∧
      ∀ u v, t'.get? u = some v → Post (w ++ u) v := by
  induction t generalizing w p s t' s' with
  | null =>
    obtain ⟨rfl, rfl⟩ := Prod.mk.inj (Option.some.inj hwalk)
    exact ⟨hI, fun _ => rfl, fun u v hv => by simp at hv⟩
  | node v c ih =>
    rw [forall_get?_node] at hpre
    have hv := hpre.1
    rw [List.append_nil] at hv
    have hassoc (b : Bool) (u : List Bool) : w ++ [b] ++ u = w ++ b :: u := by simp
    have hlen (b : Bool) : (w ++ [b]).length = w.length + 1 := by simp
    simp only [walk, Option.bind_eq_bind, Option.bind_eq_some_iff] at hwalk
    obtain ⟨⟨v', s₁, next⟩, hf, hwalk⟩ := hwalk
    obtain ⟨hpost, hI₁, hnext⟩ := hvisit w p v s v' s₁ next hpar hv hI hf
    cases next with
    | none =>
      obtain ⟨rfl, rfl⟩ := Prod.mk.inj (Option.some.inj hwalk)
      refine ⟨hI₁, fun u => by cases u <;> rfl, ?_⟩
      rw [forall_get?_node, List.append_nil]
      exact ⟨hpost, fun b u x hx => hnext (b :: u) (by simp) x (hpre.2 b u x hx)⟩
    | some p' =>
      simp only [Option.bind_eq_some_iff] at hwalk
      obtain ⟨⟨l, s₂⟩, hl, ⟨r, s₃⟩, hr, hres⟩ := hwalk
      obtain ⟨rfl, rfl⟩ := Prod.mk.inj (Option.some.inj hres)
      obtain ⟨hI₂, hkeysl, hpostl⟩ := ih false (hnext false)
        (fun u x hx => by rw [hassoc]; exact hpre.2 false u x hx) hI₁ (by rw [hlen]; exact hl)
      obtain ⟨hI₃, hkeysr, hpostr⟩ := ih true (hnext true)
        (fun u x hx => by rw [hassoc]; exact hpre.2 true u x hx) hI₂ (by rw [hlen]; exact hr)
      refine ⟨hI₃, ?_, ?_⟩
      · rintro (_ | ⟨_ | _, u⟩)
        · rfl
        · exact hkeysl u
        · exact hkeysr u
      · rw [forall_get?_node, List.append_nil]
        refine ⟨hpost, ?_⟩
        rintro (_ | _) u x hx
        · rw [← hassoc]
          exact hpostl u x hx
        · rw [← hassoc]
          exact hpostr u x hx

open Classical in
/-- Two kinds of visits that agree wherever the walk gets to. -/
theorem walk_congr_of_visitOk {g : Nat → π → α → σ → Option (α × σ × Option π)}
    {Pre Post : List Bool → α → σ → Prop} {Par : List Bool → π → Prop}
    {Step : List Bool → σ → σ → Prop} {Bud : Nat → σ → Prop} {cost : List Bool → Nat}
    (hvisit : VisitOk f Pre Post Par Step Bud cost)
    (hother : ∀ w w' v s s', Step w' s s' → w ≠ w' →
      (Pre w v s → Pre w v s') ∧ (Post w v s → Post w v s'))
    (hagree : ∀ w p v s n, Par w p → Pre w v s → Bud (cost w + n) s →
      f w.length p v s = g w.length p v s)
    (t : Trie Bool α) {w : List Bool} {p : π} {s : σ} {n : Nat} (hpar : Par w p)
    (hpre : ∀ u v, t.get? u = some v → Pre (w ++ u) v s) (hbud : Bud (t.sumKeys cost w + n) s) :
    t.walk f w.length p s = t.walk g w.length p s := by
  -- The visit that fails where the two differ never fails.
  obtain ⟨both, hboth⟩ : ∃ both : Nat → π → α → σ → Option (α × σ × Option π),
      ∀ d p v s, both d p v s = if f d p v s = g d p v s then f d p v s else none :=
    ⟨_, fun _ _ _ _ => rfl⟩
  have hok : VisitOk both Pre Post Par Step Bud cost := by
    intro w p v s n hpar hpre hbud
    rw [hboth, if_pos (hagree w p v s n hpar hpre hbud)]
    exact hvisit w p v s n hpar hpre hbud
  obtain ⟨t', s', hwalk, -⟩ := walk_rule hok hother t hpar hpre hbud
  rw [walk_mono (fun d p v s r hr => ?_) t hwalk, walk_mono (fun d p v s r hr => ?_) t hwalk]
  · rw [hboth] at hr
    split at hr
    · next heq => exact heq ▸ hr
    · simp at hr
  · rw [hboth] at hr
    split at hr
    · exact hr
    · simp at hr

end WalkRule

/-! ## Subtries -/

variable [DecidableEq κ]

/-- Run an operation on the subtrie at a key. -/
def atSub (g : Trie κ α → Option (Trie κ α × σ)) :
    Trie κ α → List κ → Option (Trie κ α × σ)
  | t, [] => g t
  | null, _ :: _ => none
  | node v c, k :: w => (atSub g (c k) w).map fun r => (node v (Function.update c k r.1), r.2)

/-- Only what the operation does to the subtrie matters. -/
theorem atSub_congr {g g' : Trie κ α → Option (Trie κ α × σ)} {t : Trie κ α} {w : List κ}
    (hg : g (t.sub w) = g' (t.sub w)) : t.atSub g w = t.atSub g' w := by
  induction w generalizing t with
  | nil =>
    rw [sub_nil] at hg
    simpa only [atSub] using hg
  | cons k w ih =>
    cases t with
    | null => rfl
    | node v c => rw [atSub, atSub, ih (by simpa only [sub_node_cons] using hg)]

omit [DecidableEq κ] in
theorem get?_sub (t : Trie κ α) (w u : List κ) : (t.sub w).get? u = t.get? (w ++ u) := by
  induction w generalizing t with
  | nil => rw [sub_nil, List.nil_append]
  | cons k w ih =>
    cases t with
    | null => rw [sub_null, get?_null, get?_null]
    | node v c => rw [sub_node_cons, ih, List.cons_append, get?_node_cons]

theorem atSub_eq {g : Trie κ α → Option (Trie κ α × σ)} {t t' : Trie κ α} {w : List κ} {s : σ}
    (hw : (t.get? w).isSome) (hg : g (t.sub w) = some (t', s)) :
    ∃ r, t.atSub g w = some (r, s) ∧
      ∀ u, r.get? u = if w <+: u then t'.get? (u.drop w.length) else t.get? u := by
  induction w generalizing t with
  | nil => exact ⟨t', by simpa [atSub] using hg, by simp⟩
  | cons k w ih =>
    cases t with
    | null => simp at hw
    | node v c =>
      obtain ⟨r, hr, hget⟩ := ih (by simpa using hw) hg
      refine ⟨node v (Function.update c k r), by simp [atSub, hr], fun u => ?_⟩
      cases u with
      | nil => simp
      | cons j u =>
        by_cases hj : j = k
        · subst hj
          simp [hget, List.cons_prefix_cons]
        · simp [hj, List.cons_prefix_cons, Ne.symm hj]

/-- The operation was run on the subtrie. -/
theorem atSub_of_some {g : Trie κ α → Option (Trie κ α × σ)} {t r : Trie κ α} {w : List κ} {s : σ}
    (hw : (t.get? w).isSome) (h : t.atSub g w = some (r, s)) :
    ∃ t', g (t.sub w) = some (t', s) ∧
      ∀ u, r.get? u = if w <+: u then t'.get? (u.drop w.length) else t.get? u := by
  cases hg : g (t.sub w) with
  | none =>
    have hsame : t.atSub g w = t.atSub (fun _ => none) w := atSub_congr hg
    rw [hsame] at h
    have hnone (t : Trie κ α) (w : List κ) :
        t.atSub (fun _ => (none : Option (Trie κ α × σ))) w = none := by
      induction w generalizing t with
      | nil => simp [atSub]
      | cons k w ih => cases t <;> simp [atSub, ih]
    simp [hnone] at h
  | some out =>
    obtain ⟨t', s'⟩ := out
    obtain ⟨r', hr', hget⟩ := atSub_eq hw hg
    obtain ⟨rfl, rfl⟩ := Prod.mk.inj (Option.some.inj (hr'.symm.trans h))
    exact ⟨t', rfl, hget⟩

/-! ## Climbing -/

/-- Climb from the node at a key to the root. The last component says whether the climb goes
on. -/
def climb (f : α → σ → α × σ × Bool) : Trie κ α → List κ → σ → Trie κ α × σ × Bool
  | null, _, s => (null, s, true)
  | node v c, [], s => (node (f v s).1 c, (f v s).2)
  | node v c, k :: w, s =>
    let below := climb f (c k) w s
    if below.2.2 then
      let r := f v below.2.1
      (node r.1 (Function.update c k below.1), r.2)
    else (node v (Function.update c k below.1), below.2.1, false)

/-- The values on the path to a key, that of the root first. -/
def path : Trie κ α → List κ → List α
  | null, _ => []
  | node v _, [] => [v]
  | node v c, k :: w => v :: path (c k) w

/-- Change the values on the path to a key. -/
def mapPath (g : α → α) : Trie κ α → List κ → Trie κ α
  | null, _ => null
  | node v c, [] => node (g v) c
  | node v c, k :: w => node (g v) (Function.update c k (mapPath g (c k) w))

theorem get?_mapPath (g : α → α) (t : Trie κ α) (w u : List κ) :
    (t.mapPath g w).get? u = if u <+: w then (t.get? u).map g else t.get? u := by
  induction w generalizing t u with
  | nil => cases t <;> cases u <;> simp [mapPath]
  | cons k w ih =>
    cases t with
    | null => simp [mapPath]
    | node v c =>
      cases u with
      | nil => simp [mapPath]
      | cons j u =>
        by_cases hj : j = k
        · subst hj
          simp [mapPath, ih, List.cons_prefix_cons]
        · simp [mapPath, hj, List.cons_prefix_cons]

/-- Counting the elements of a list by their keys, along a path. -/
theorem sum_path_countP {β : Type} (key : β → List κ) (p : β → Bool) (l : List β) (g : α → Nat)
    (t : Trie κ α) (w k : List κ)
    (hg : ∀ u v, u <+: k → t.get? u = some v →
      g v = l.countP fun x => key x = w ++ u ∧ p x = true)
    (hmem : ∀ x ∈ l, p x = true → ∀ u, u <+: k → key x = w ++ u → (t.get? u).isSome) :
    ((t.path k).map g).sum =
      l.countP fun x => w <+: key x ∧ key x <+: w ++ k ∧ p x = true := by
  induction k generalizing t w with
  | nil =>
    have hkeys : (l.countP fun x => w <+: key x ∧ key x <+: w ++ [] ∧ p x = true) =
        l.countP fun x => key x = w ++ [] ∧ p x = true := by
      refine List.countP_congr fun x _ => ?_
      simp only [List.append_nil, decide_eq_true_eq]
      constructor
      · rintro ⟨h1, h2, hp⟩
        exact ⟨h2.eq_of_length_le h1.length_le, hp⟩
      · rintro ⟨rfl, hp⟩
        exact ⟨List.prefix_rfl, List.prefix_rfl, hp⟩
    rw [hkeys]
    cases t with
    | null =>
      rw [path, List.map_nil, List.sum_nil, eq_comm, List.countP_eq_zero]
      intro x hx hkey
      simp only [decide_eq_true_eq] at hkey
      simpa using hmem x hx hkey.2 [] List.prefix_rfl hkey.1
    | node v c => simpa [path] using hg [] v List.prefix_rfl rfl
  | cons b k ih =>
    -- A key on the path is `w` itself or goes on with `b`.
    have hsplit : (l.countP fun x => w <+: key x ∧ key x <+: w ++ b :: k ∧ p x = true) =
        (l.countP fun x => key x = w ++ [] ∧ p x = true) +
          l.countP fun x => w ++ [b] <+: key x ∧ key x <+: w ++ [b] ++ k ∧ p x = true := by
      clear hg hmem ih
      induction l with
      | nil => rfl
      | cons x l ih =>
        simp only [List.countP_cons, ih]
        have hlong : ¬ w ++ [b] <+: w := fun h => by
          have := h.length_le
          rw [List.length_append, List.length_singleton] at this
          omega
        have hone : (if decide (w <+: key x ∧ key x <+: w ++ b :: k ∧ p x = true) = true
              then 1 else 0) =
            (if decide (key x = w ++ [] ∧ p x = true) = true then 1 else 0) +
              (if decide (w ++ [b] <+: key x ∧ key x <+: w ++ [b] ++ k ∧ p x = true) = true
                then 1 else 0) := by
          by_cases hw : w <+: key x
          · obtain ⟨u, hu⟩ := hw
            rw [← hu]
            cases p x with
            | false => simp
            | true => cases u with
              | nil => simp [hlong]
              | cons j u =>
                by_cases hj : j = b
                · subst hj
                  simp [List.prefix_append_right_inj]
                · simp [List.prefix_append_right_inj, List.cons_prefix_cons, hj, Ne.symm hj]
          · have h1 : key x ≠ w := fun h => hw (h ▸ List.prefix_rfl)
            have h2 : ¬ w ++ [b] <+: key x := fun h => hw ((List.prefix_append w [b]).trans h)
            simp [hw, h1, h2]
        omega
    rw [hsplit]
    have hassoc (u : List κ) : w ++ [b] ++ u = w ++ b :: u := by simp
    have hcons {u : List κ} (hu : u <+: k) : b :: u <+: b :: k :=
      List.cons_prefix_cons.mpr ⟨rfl, hu⟩
    cases t with
    | null =>
      rw [path, List.map_nil, List.sum_nil, eq_comm, Nat.add_eq_zero_iff, List.countP_eq_zero,
        List.countP_eq_zero]
      constructor
      · intro x hx hkey
        simp only [decide_eq_true_eq] at hkey
        simpa using hmem x hx hkey.2 [] List.nil_prefix hkey.1
      · intro x hx hkey
        simp only [decide_eq_true_eq] at hkey
        obtain ⟨⟨u, hu⟩, hpre, hp⟩ := hkey
        rw [← hu] at hpre
        simpa using hmem x hx hp (b :: u) (hcons ((List.prefix_append_right_inj _).mp hpre))
          (by rw [← hu, hassoc])
    | node v c =>
      rw [path, List.map_cons, List.sum_cons, hg [] v List.nil_prefix rfl,
        ih (c b) (w ++ [b]) (fun u x hu hx => ?_) (fun x hx hp u hu hkey => ?_)]
      · rw [hassoc]
        exact hg (b :: u) x (hcons hu) hx
      · exact hmem x hx hp (b :: u) (hcons hu) (by rw [hkey, hassoc])

/-- A climb that stops only where nothing more would change: it does the same as a climb of
the whole path. -/
theorem climb_eq {f : α → σ → α × σ × Bool} {go : α → Bool} {g : α → α} {h : α → σ → σ}
    (hf : ∀ v s, f v s = if go v then (g v, h v s, true) else (v, s, false))
    {t : Trie κ α} {w : List κ}
    (hstop : ∀ u v, u <+: w → t.get? u = some v → go v = false →
      ∀ u' v', u' <+: u → t.get? u' = some v' → g v' = v' ∧ ∀ s, h v' s = s) (s : σ) :
    (t.climb f w s).1 = t.mapPath g w ∧ (t.climb f w s).2.1 = (t.path w).foldr h s ∧
      ((t.climb f w s).2.2 = false → ∃ u v, u <+: w ∧ t.get? u = some v ∧ go v = false) := by
  induction w generalizing t with
  | nil =>
    cases t with
    | null => simp [climb, mapPath, path]
    | node v c =>
      cases hgo : go v with
      | true => simp [climb, mapPath, path, hf, hgo]
      | false =>
        have := hstop [] v List.prefix_rfl rfl hgo [] v List.prefix_rfl rfl
        simp [climb, mapPath, path, hf, hgo, this]
  | cons k w ih =>
    cases t with
    | null => simp [climb, mapPath, path]
    | node v c =>
      obtain ⟨h1, h2, h3⟩ := @ih (c k) fun u x hu hx hgo u' x' hu' hx' =>
        hstop (k :: u) x (List.cons_prefix_cons.mpr ⟨rfl, hu⟩) hx hgo (k :: u') x'
          (List.cons_prefix_cons.mpr ⟨rfl, hu'⟩) hx'
      cases hbelow : (climb f (c k) w s).2.2 with
      | true =>
        cases hgo : go v with
        | true => simp [climb, mapPath, path, hf, hgo, h1, h2, hbelow]
        | false =>
          have hv := hstop [] v List.nil_prefix rfl hgo [] v List.prefix_rfl rfl
          refine ⟨by simp [climb, mapPath, hf, hgo, h1, hbelow, hv],
            by simp [climb, path, hf, hgo, h2, hbelow, hv],
            fun _ => ⟨[], v, List.nil_prefix, rfl, hgo⟩⟩
      | false =>
        obtain ⟨u, x, hu, hx, hgo⟩ := h3 hbelow
        have hv := hstop (k :: u) x (List.cons_prefix_cons.mpr ⟨rfl, hu⟩) hx hgo [] v
          List.nil_prefix rfl
        refine ⟨?_, ?_, fun _ => ⟨k :: u, x, List.cons_prefix_cons.mpr ⟨rfl, hu⟩, hx, hgo⟩⟩
        · simp [climb, mapPath, h1, hbelow, hv]
        · simp [climb, path, h2, hbelow, hv]

end Trie

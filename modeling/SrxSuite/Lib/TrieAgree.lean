import SrxSuite.Lib.TrieWalk

/-!
# Tries that agree

Two tries agree when they have the same values, an absent node counting as one with the default
value `a`. A visit that passes nodes with the default value cannot tell them apart:
`walk_congr` and `climb_congr`.

* `walk_map`: a change of the state that all visits commute with, a walk commutes with.
* `walk_rel`, `climb_rel`: what every visit does to its node, the walk does to all nodes.
-/

namespace Trie

variable {κ α σ π : Type}

/-- The value at a key; `a` is the value of absent nodes. -/
def valAt (a : α) (t : Trie κ α) (w : List κ) : α := (t.get? w).getD a

@[simp] theorem valAt_null (a : α) (w : List κ) : (null : Trie κ α).valAt a w = a := by
  simp [valAt]

@[simp] theorem valAt_node_nil (a v : α) (c : κ → Trie κ α) : (node v c).valAt a [] = v := rfl

@[simp] theorem valAt_node_cons (a v : α) (c : κ → Trie κ α) (k : κ) (w : List κ) :
    (node v c).valAt a (k :: w) = (c k).valAt a w := rfl

theorem valAt_sub (a : α) (t : Trie κ α) (w u : List κ) :
    (t.sub w).valAt a u = t.valAt a (w ++ u) := by
  rw [valAt, get?_sub]
  rfl

/-! ## Walking down -/

section Walk

variable {a : α} {f : Nat → π → α → σ → Option (α × σ × Option π)}

/-- A change of the state that the visits commute with. -/
theorem walk_map {g : σ → σ}
    (hf : ∀ d p v s, f d p v (g s) = (f d p v s).map fun r => (r.1, g r.2.1, r.2.2))
    (t : Trie Bool α) (d : Nat) (p : π) (s : σ) :
    t.walk f d p (g s) = (t.walk f d p s).map fun r => (r.1, g r.2) := by
  induction t generalizing d p s with
  | null => rfl
  | node v c ih =>
    simp only [walk, hf]
    rcases f d p v s with _ | ⟨v', s', _ | p'⟩
    · rfl
    · rfl
    · simp only [Option.map_some, Option.bind_eq_bind, Option.bind_some, ih]
      rcases (c false).walk f (d + 1) p' s' with _ | ⟨l, s₁⟩
      · rfl
      · simp only [Option.map_some, Option.bind_some, ih]
        rcases (c true).walk f (d + 1) p' s₁ with _ | ⟨r, s₂⟩ <;> rfl

/-- A walk through default values changes nothing. -/
theorem walk_default (ha : ∀ d p s, f d p a s = some (a, s, some p)) (t : Trie Bool α)
    (ht : ∀ u, t.valAt a u = a) (d : Nat) (p : π) (s : σ) :
    ∃ t', t.walk f d p s = some (t', s) ∧ ∀ u, t'.valAt a u = a := by
  induction t generalizing d p with
  | null => exact ⟨null, rfl, ht⟩
  | node v c ih =>
    obtain rfl : v = a := ht []
    obtain ⟨l, hl, hlv⟩ := ih false (fun u => ht (false :: u)) (d + 1) p
    obtain ⟨r, hr, hrv⟩ := ih true (fun u => ht (true :: u)) (d + 1) p
    refine ⟨node v (children l r), by simp [walk, ha, hl, hr], ?_⟩
    rintro (_ | ⟨_ | _, u⟩)
    · rfl
    · exact hlv u
    · exact hrv u

/-- Walks of tries that agree. -/
theorem walk_congr (ha : ∀ d p s, f d p a s = some (a, s, some p)) {t₁ t₂ t₁' : Trie Bool α}
    (hagree : ∀ u, t₁.valAt a u = t₂.valAt a u) {d : Nat} {p : π} {s s' : σ}
    (hwalk : t₁.walk f d p s = some (t₁', s')) :
    ∃ t₂', t₂.walk f d p s = some (t₂', s') ∧ ∀ u, t₁'.valAt a u = t₂'.valAt a u := by
  induction t₁ generalizing t₂ t₁' d p s s' with
  | null =>
    obtain ⟨t₂', h₂, hv₂⟩ := walk_default ha t₂ (fun u => by rw [← hagree u, valAt_null]) d p s
    obtain ⟨rfl, rfl⟩ := Prod.mk.inj (Option.some.inj hwalk)
    exact ⟨t₂', h₂, fun u => by rw [hv₂, valAt_null]⟩
  | node v c ih =>
    cases t₂ with
    | null =>
      obtain ⟨t₁'', h₁, hv₁⟩ := walk_default ha (node v c)
        (fun u => by rw [hagree u, valAt_null]) d p s
      obtain ⟨rfl, rfl⟩ := Prod.mk.inj (Option.some.inj (h₁.symm.trans hwalk))
      exact ⟨null, rfl, fun u => by rw [hv₁, valAt_null]⟩
    | node v₂ c₂ =>
      obtain rfl : v = v₂ := hagree []
      have hchild (b : Bool) (u : List Bool) : (c b).valAt a u = (c₂ b).valAt a u :=
        hagree (b :: u)
      simp only [walk, Option.bind_eq_bind, Option.bind_eq_some_iff] at hwalk ⊢
      obtain ⟨⟨v', s₁, next⟩, hf, hwalk⟩ := hwalk
      cases next with
      | none =>
        obtain ⟨rfl, rfl⟩ := Prod.mk.inj (Option.some.inj hwalk)
        refine ⟨node v' c₂, ⟨_, hf, rfl⟩, ?_⟩
        rintro (_ | ⟨b, u⟩)
        · rfl
        · exact hchild b u
      | some p' =>
        simp only [Option.bind_eq_some_iff] at hwalk
        obtain ⟨⟨l, s₂⟩, hl, ⟨r, s₃⟩, hr, hres⟩ := hwalk
        obtain ⟨rfl, rfl⟩ := Prod.mk.inj (Option.some.inj hres)
        obtain ⟨l', hl', hlv⟩ := ih false (hchild false) hl
        obtain ⟨r', hr', hrv⟩ := ih true (hchild true) hr
        refine ⟨node v' (children l' r'), ⟨_, hf, ?_⟩, ?_⟩
        · simp [hl', hr']
        · rintro (_ | ⟨_ | _, u⟩)
          · rfl
          · exact hlv u
          · exact hrv u

/-- What every visit does to its node and to the state. -/
theorem walk_rel {ρ : α → α → Prop} {I : σ → Prop} (hrefl : ∀ v, ρ v v) {t t' : Trie Bool α}
    {d : Nat} {p : π} {s s' : σ}
    (hf : ∀ d p u v s v' s' next, t.get? u = some v → f d p v s = some (v', s', next) → I s →
      ρ v v' ∧ I s')
    (hwalk : t.walk f d p s = some (t', s')) (hs : I s) :
    I s' ∧ ∀ u, Option.Rel ρ (t.get? u) (t'.get? u) := by
  induction t generalizing t' d p s s' with
  | null =>
    obtain ⟨rfl, rfl⟩ := Prod.mk.inj (Option.some.inj hwalk)
    exact ⟨hs, fun u => by rw [get?_null]; exact .none⟩
  | node v c ih =>
    have hkeep (b : Bool) (u : List Bool) : Option.Rel ρ ((c b).get? u) ((c b).get? u) := by
      cases (c b).get? u with
      | none => exact .none
      | some v => exact .some (hrefl v)
    simp only [walk, Option.bind_eq_bind, Option.bind_eq_some_iff] at hwalk
    obtain ⟨⟨v', s₁, next⟩, hv, hwalk⟩ := hwalk
    obtain ⟨hρ, hs₁⟩ := hf d p [] v s v' s₁ next rfl hv hs
    have hchild (b : Bool) : ∀ d p u v s v' s' next, (c b).get? u = some v →
        f d p v s = some (v', s', next) → I s → ρ v v' ∧ I s' :=
      fun d p u v s v' s' next hu => hf d p (b :: u) v s v' s' next hu
    cases next with
    | none =>
      obtain ⟨rfl, rfl⟩ := Prod.mk.inj (Option.some.inj hwalk)
      refine ⟨hs₁, ?_⟩
      rintro (_ | ⟨b, u⟩)
      · exact .some hρ
      · exact hkeep b u
    | some p' =>
      simp only [Option.bind_eq_some_iff] at hwalk
      obtain ⟨⟨l, s₂⟩, hl, ⟨r, s₃⟩, hr, hres⟩ := hwalk
      obtain ⟨rfl, rfl⟩ := Prod.mk.inj (Option.some.inj hres)
      obtain ⟨hs₂, hlv⟩ := ih false (hchild false) hl hs₁
      obtain ⟨hs₃, hrv⟩ := ih true (hchild true) hr hs₂
      refine ⟨hs₃, ?_⟩
      rintro (_ | ⟨_ | _, u⟩)
      · exact .some hρ
      · exact hlv u
      · exact hrv u

end Walk

/-! ## Subtries -/

variable [DecidableEq κ]

theorem atSub_none {g : Trie κ α → Option (Trie κ α × σ)} {t : Trie κ α} {w : List κ}
    (hg : g (t.sub w) = none) : t.atSub g w = none := by
  induction w generalizing t with
  | nil => simpa [atSub] using hg
  | cons k w ih =>
    cases t with
    | null => rfl
    | node v c =>
      rw [atSub, ih hg]
      rfl

/-- An operation on a subtrie that succeeds. -/
theorem atSub_inv {g : Trie κ α → Option (Trie κ α × σ)} {t r : Trie κ α} {w : List κ} {s : σ}
    (hw : (t.get? w).isSome) (h : t.atSub g w = some (r, s)) :
    ∃ t', g (t.sub w) = some (t', s) ∧
      ∀ u, r.get? u = if w <+: u then t'.get? (u.drop w.length) else t.get? u := by
  cases hg : g (t.sub w) with
  | none => simp [atSub_none hg] at h
  | some x =>
    obtain ⟨t', s'⟩ := x
    obtain ⟨r', hr', hget⟩ := atSub_eq hw hg
    obtain ⟨rfl, rfl⟩ := Prod.mk.inj (Option.some.inj (hr'.symm.trans h))
    exact ⟨t', rfl, hget⟩

/-! ## Climbing -/

section Climb

variable {a : α} {f : α → σ → α × σ × Bool}

/-- Climbs in tries that agree on the path. -/
theorem climb_congr (ha : ∀ s, f a s = (a, s, true)) {t₁ t₂ : Trie κ α} {w : List κ}
    (hagree : ∀ u, u <+: w → t₁.valAt a u = t₂.valAt a u) (s : σ) :
    (t₁.climb f w s).2 = (t₂.climb f w s).2 ∧
      ∀ u, u <+: w → (t₁.climb f w s).1.valAt a u = (t₂.climb f w s).1.valAt a u := by
  induction w generalizing t₁ t₂ with
  | nil =>
    have hv := hagree [] List.prefix_rfl
    have hnil {u : List κ} (hu : u <+: []) : u = [] := List.prefix_nil.mp hu
    cases t₁ with
    | null =>
      cases t₂ with
      | null => exact ⟨rfl, fun _ _ => rfl⟩
      | node v c =>
        rw [valAt_null, valAt_node_nil] at hv
        subst hv
        exact ⟨by simp [climb, ha], fun u hu => by rw [hnil hu]; simp [climb, ha]⟩
    | node v c =>
      cases t₂ with
      | null =>
        rw [valAt_null, valAt_node_nil] at hv
        subst hv
        exact ⟨by simp [climb, ha], fun u hu => by rw [hnil hu]; simp [climb, ha]⟩
      | node v₂ c₂ =>
        obtain rfl : v = v₂ := hv
        exact ⟨rfl, fun u hu => by rw [hnil hu]; rfl⟩
  | cons k w ih =>
    have hcons {u : List κ} (hu : u <+: w) : k :: u <+: k :: w :=
      List.cons_prefix_cons.mpr ⟨rfl, hu⟩
    have hv := hagree [] List.nil_prefix
    -- An absent node is one with the default value and absent children.
    have hnull (s : σ) : (node a fun _ => (null : Trie κ α)).climb f (k :: w) s =
        (node a (Function.update (fun _ => null) k null), s, true) := by
      simp [climb, ha]
    obtain ⟨v, c₁, c₂, h₁, h₂, hc⟩ : ∃ v c₁ c₂,
        ((t₁ = node v c₁) ∨ (t₁ = null ∧ v = a ∧ c₁ = fun _ => null)) ∧
        ((t₂ = node v c₂) ∨ (t₂ = null ∧ v = a ∧ c₂ = fun _ => null)) ∧
        ∀ u, u <+: w → (c₁ k).valAt a u = (c₂ k).valAt a u := by
      cases t₁ with
      | null =>
        cases t₂ with
        | null => exact ⟨a, _, _, .inr ⟨rfl, rfl, rfl⟩, .inr ⟨rfl, rfl, rfl⟩, fun _ _ => rfl⟩
        | node v c =>
          rw [valAt_null, valAt_node_nil] at hv
          subst hv
          exact ⟨a, _, c, .inr ⟨rfl, rfl, rfl⟩, .inl rfl, fun u hu => by
            simpa only [valAt_null, valAt_node_cons] using hagree (k :: u) (hcons hu)⟩
      | node v c =>
        cases t₂ with
        | null =>
          rw [valAt_null, valAt_node_nil] at hv
          subst hv
          exact ⟨v, c, _, .inl rfl, .inr ⟨rfl, rfl, rfl⟩, fun u hu => by
            simpa only [valAt_null, valAt_node_cons] using hagree (k :: u) (hcons hu)⟩
        | node v₂ c₂ =>
          obtain rfl : v = v₂ := hv
          exact ⟨v, c, c₂, .inl rfl, .inl rfl, fun u hu => hagree (k :: u) (hcons hu)⟩
    obtain ⟨hs, hval⟩ := ih hc
    have hsame {t : Trie κ α} {c : κ → Trie κ α}
        (ht : (t = node v c) ∨ (t = null ∧ v = a ∧ c = fun _ => null)) :
        (t.climb f (k :: w) s).2 = ((node v c).climb f (k :: w) s).2 ∧
          ∀ u, u <+: k :: w → (t.climb f (k :: w) s).1.valAt a u =
            ((node v c).climb f (k :: w) s).1.valAt a u := by
      rcases ht with rfl | ⟨rfl, rfl, rfl⟩
      · exact ⟨rfl, fun _ _ => rfl⟩
      · rw [hnull]
        refine ⟨rfl, fun u hu => ?_⟩
        cases u with
        | nil => rfl
        | cons j u =>
          obtain ⟨rfl, -⟩ := List.cons_prefix_cons.mp hu
          simp [climb]
    have hnode : ((node v c₁).climb f (k :: w) s).2 = ((node v c₂).climb f (k :: w) s).2 ∧
        ∀ u, u <+: k :: w → ((node v c₁).climb f (k :: w) s).1.valAt a u =
          ((node v c₂).climb f (k :: w) s).1.valAt a u := by
      simp only [climb, hs]
      split
      · refine ⟨rfl, fun u hu => ?_⟩
        cases u with
        | nil => rfl
        | cons j u =>
          obtain ⟨rfl, hu'⟩ := List.cons_prefix_cons.mp hu
          simpa only [Function.update_self, valAt_node_cons] using hval u hu'
      · refine ⟨rfl, fun u hu => ?_⟩
        cases u with
        | nil => rfl
        | cons j u =>
          obtain ⟨rfl, hu'⟩ := List.cons_prefix_cons.mp hu
          simpa only [Function.update_self, valAt_node_cons] using hval u hu'
    exact ⟨(hsame h₁).1.trans (hnode.1.trans (hsame h₂).1.symm), fun u hu =>
      ((hsame h₁).2 u hu).trans ((hnode.2 u hu).trans ((hsame h₂).2 u hu).symm)⟩

/-- What every visit does to its node; the nodes off the path are not visited. -/
theorem climb_rel {ρ : α → α → Prop} (hrefl : ∀ v, ρ v v) (hf : ∀ v s, ρ v (f v s).1)
    (t : Trie κ α) (w : List κ) (s : σ) (u : List κ) :
    (u <+: w → Option.Rel ρ (t.get? u) ((t.climb f w s).1.get? u)) ∧
      (¬ u <+: w → (t.climb f w s).1.get? u = t.get? u) := by
  induction w generalizing t u with
  | nil =>
    cases t with
    | null =>
      refine ⟨fun _ => ?_, fun _ => rfl⟩
      rw [climb, get?_null]
      exact .none
    | node v c =>
      cases u with
      | nil => exact ⟨fun _ => .some (hf v s), fun h => absurd List.prefix_rfl h⟩
      | cons j u => exact ⟨fun h => absurd (List.prefix_nil.mp h) (by simp), fun _ => rfl⟩
  | cons k w ih =>
    cases t with
    | null =>
      refine ⟨fun _ => ?_, fun _ => rfl⟩
      rw [climb, get?_null]
      exact .none
    | node v c =>
      have hval : ρ v ((((node v c).climb f (k :: w) s).1.get? []).getD v) ∧
          ∃ v', ((node v c).climb f (k :: w) s).1 = node v'
            (Function.update c k ((c k).climb f w s).1) := by
        rw [climb]
        split
        · exact ⟨hf v _, _, rfl⟩
        · exact ⟨hrefl v, _, rfl⟩
      obtain ⟨hρ, v', heq⟩ := hval
      rw [heq] at hρ ⊢
      cases u with
      | nil => exact ⟨fun _ => .some hρ, fun h => absurd List.nil_prefix h⟩
      | cons j u =>
        by_cases hj : j = k
        · subst hj
          simpa [List.cons_prefix_cons] using ih (c j) u
        · refine ⟨fun h => absurd (List.cons_prefix_cons.mp h).1 hj, fun _ => ?_⟩
          simp [hj]

end Climb

end Trie

import Mathlib.Data.List.Forall2

/-!
# Steps that can fail

What follows from the success of a step that is made of others: each of them succeeded. Every
proof about a merge or a resolution takes its step apart with these.
-/

namespace Raml

variable {ε α β : Type}

/-- A sequence succeeds exactly when both of its steps do. -/
theorem bind_eq_ok {x : Except ε α} {f : α → Except ε β} {b : β} :
    (x >>= f) = .ok b ↔ ∃ a, x = .ok a ∧ f a = .ok b := by
  cases x <;> simp [bind, Except.bind]

theorem bind_of_eq_ok {x : Except ε α} {f : α → Except ε β} {a : α} (h : x = .ok a) :
    (x >>= f) = f a := by
  rw [h]
  rfl

/-- What follows a step may be replaced by what agrees with it wherever the step succeeds. -/
theorem bind_congr_of_ok {x : Except ε α} {f g : α → Except ε β}
    (h : ∀ a, x = .ok a → f a = g a) : x >>= f = x >>= g := by
  cases x with
  | error e => rfl
  | ok a => exact h a rfl

/-- A sequence fails with the error of the first step that fails. -/
theorem bind_eq_error {x : Except ε α} {f : α → Except ε β} {e : ε} :
    (x >>= f) = .error e ↔ x = .error e ∨ ∃ a, x = .ok a ∧ f a = .error e := by
  cases x <;> simp [bind, Except.bind]

theorem map_eq_ok {x : Except ε α} {f : α → β} {b : β} :
    x.map f = .ok b ↔ ∃ a, x = .ok a ∧ f a = b := by
  cases x <;> simp [Except.map]

theorem map_eq_error {x : Except ε α} {f : α → β} {e : ε} :
    x.map f = .error e ↔ x = .error e := by
  cases x <;> simp [Except.map]

theorem mapError_eq_ok {ε' : Type} {x : Except ε α} {f : ε → ε'} {a : α} :
    x.mapError f = .ok a ↔ x = .ok a := by
  cases x <;> simp [Except.mapError]

theorem mapError_eq_error {ε' : Type} {x : Except ε α} {f : ε → ε'} {e' : ε'} :
    x.mapError f = .error e' ↔ ∃ e, x = .error e ∧ f e = e' := by
  cases x <;> simp [Except.mapError]

theorem pure_eq_ok {a b : α} : (pure a : Except ε α) = .ok b ↔ a = b := by
  simp [pure, Except.pure]

theorem ite_error_eq_ok {c : Prop} [Decidable c] {x : Except ε α} {e : ε} {a : α} :
    (if c then x else .error e) = .ok a ↔ c ∧ x = .ok a := by
  by_cases hc : c <;> simp [hc]

theorem toOption_eq_some {x : Except ε α} {a : α} : x.toOption = some a ↔ x = .ok a := by
  cases x <;> simp [Except.toOption]

/-- A result that shows something is there. -/
theorem toOption_map_eq_some {x : Except ε α} {f : α → β} {b : β} :
    x.toOption.map f = some b ↔ ∃ a, x = .ok a ∧ f a = b := by
  simp only [Option.map_eq_some_iff, toOption_eq_some]

theorem toOption_bind_eq_some {x : Except ε α} {f : α → Option β} {b : β} :
    x.toOption.bind f = some b ↔ ∃ a, x = .ok a ∧ f a = some b := by
  simp only [Option.bind_eq_some_iff, toOption_eq_some]

/-- What holds of some result holds of the result. -/
theorem of_exists_ok {x : Except ε α} {C : α → Prop} {a : α} (h : ∃ b, x = .ok b ∧ C b)
    (ha : x = .ok a) : C a := by
  obtain ⟨b, hb, hC⟩ := h
  rw [hb] at ha
  exact Except.ok.inj ha ▸ hC

theorem exists_of_isOk {x : Except ε α} (h : x.isOk = true) : ∃ a, x = .ok a := by
  cases x with
  | ok a => exact ⟨a, rfl⟩
  | error e => cases h

/-- A step over a list succeeds if it does so at every item. -/
theorem mapM_eq_ok {f : α → Except ε β} {as : List α} {bs : List β} :
    as.mapM f = .ok bs ↔ List.Forall₂ (fun a b => f a = .ok b) as bs := by
  induction as generalizing bs with
  | nil => rw [List.mapM_nil, pure_eq_ok, List.forall₂_nil_left_iff, eq_comm]
  | cons a as ih =>
    simp only [List.mapM_cons, bind_eq_ok, pure_eq_ok, ih, List.forall₂_cons_left_iff]
    constructor
    · rintro ⟨b, hb, rest, hrest, rfl⟩
      exact ⟨b, rest, hb, hrest, rfl⟩
    · rintro ⟨b, rest, hb, hrest, rfl⟩
      exact ⟨b, hb, rest, hrest, rfl⟩

/-- Of two steps of which the second one follows the first, so does the one over a list. -/
theorem mapM_related {ε' γ : Type} {f : α → Except ε β} {g : α → Except ε' γ} {R : β → γ → Prop}
    {as : List α} {bs : List β} (h : ∀ a ∈ as, ∀ b, f a = .ok b → ∃ c, g a = .ok c ∧ R b c)
    (hbs : as.mapM f = .ok bs) : ∃ cs, as.mapM g = .ok cs ∧ List.Forall₂ R bs cs := by
  simp only [mapM_eq_ok] at hbs ⊢
  induction hbs with
  | nil => exact ⟨[], .nil, .nil⟩
  | cons hb _ ih =>
    rw [List.forall_mem_cons] at h
    obtain ⟨c, hc, hR⟩ := h.1 _ hb
    obtain ⟨cs, hcs, hall⟩ := ih h.2
    exact ⟨c :: cs, .cons hc hcs, .cons hR hall⟩

section Corresponding

variable {R : α → β → Prop} {as : List α} {bs : List β}

/-- Every item of a list has one in a corresponding list. -/
theorem exists_of_mem_left (h : List.Forall₂ R as bs) {a : α} (ha : a ∈ as) :
    ∃ b ∈ bs, R a b := by
  induction h with
  | nil => cases ha
  | cons hhead _ ih =>
    rcases List.mem_cons.mp ha with rfl | ha
    · exact ⟨_, List.mem_cons_self .., hhead⟩
    · exact (ih ha).imp fun b hb => ⟨List.mem_cons_of_mem _ hb.1, hb.2⟩

theorem exists_of_mem_right (h : List.Forall₂ R as bs) {b : β} (hb : b ∈ bs) :
    ∃ a ∈ as, R a b :=
  exists_of_mem_left h.flip hb

end Corresponding

theorem mem_of_lookup [BEq α] [LawfulBEq α] {a : α} {b : β} {es : List (α × β)}
    (h : es.lookup a = some b) : (a, b) ∈ es := by
  obtain ⟨before, after, rfl, -⟩ := List.lookup_eq_some_iff.mp h
  exact List.mem_append_right _ List.mem_cons_self

/-! ## Steps with a state -/

variable {σ : Type} {x : EStateM ε σ α} {f : α → EStateM ε σ β} {s s' : σ}

theorem bind_of_ok {a : α} (h : x s = .ok a s') : (x >>= f) s = f a s' := by
  change EStateM.bind x f s = f a s'
  rw [EStateM.bind, h]

theorem bind_of_error {e : ε} (h : x s = .error e s') : (x >>= f) s = .error e s' := by
  change EStateM.bind x f s = .error e s'
  rw [EStateM.bind, h]

/-- The run of a sequence that succeeds goes through a state between the two steps. -/
theorem of_run_bind {b : β} (h : (x >>= f) s = .ok b s') :
    ∃ a s₁, x s = .ok a s₁ ∧ f a s₁ = .ok b s' := by
  cases hx : x s with
  | ok a s₁ => exact ⟨a, s₁, rfl, (bind_of_ok hx).symm.trans h⟩
  | error e s₁ => cases (bind_of_error hx).symm.trans h

/-- A sequence that fails does so in its first step or in its second one. -/
theorem of_run_bind_error {e : ε} (h : (x >>= f) s = .error e s') :
    x s = .error e s' ∨ ∃ a s₁, x s = .ok a s₁ ∧ f a s₁ = .error e s' := by
  cases hx : x s with
  | ok a s₁ => exact .inr ⟨a, s₁, rfl, (bind_of_ok hx).symm.trans h⟩
  | error e' s₁ =>
    cases (bind_of_error hx).symm.trans h
    exact .inl rfl

theorem of_run_ofExcept_error {ε α σ : Type} {x : Except ε α} {e : ε} {s s' : σ}
    (h : (ofExcept x : EStateM ε σ α) s = .error e s') : x = .error e := by
  cases x with
  | ok x => cases h
  | error e =>
    cases h
    rfl

theorem of_run_ofExcept {ε α σ : Type} {x : Except ε α} {a : α} {s s' : σ}
    (h : (ofExcept x : EStateM ε σ α) s = .ok a s') : x = .ok a := by
  cases x with
  | ok x =>
    cases h
    rfl
  | error e => cases h

theorem run_ofExcept_eq_ok {ε α σ : Type} {x : Except ε α} {a : α} {s s' : σ} :
    (ofExcept x : EStateM ε σ α) s = .ok a s' ↔ x = .ok a ∧ s' = s := by
  cases x with
  | ok b =>
    constructor
    · rintro ⟨⟩
      exact ⟨rfl, rfl⟩
    · rintro ⟨⟨⟩, rfl⟩
      rfl
  | error e => exact ⟨nofun, nofun⟩

theorem ofExcept_of_ok {ε α σ : Type} {x : Except ε α} {a : α} {s : σ} (h : x = .ok a) :
    (ofExcept x : EStateM ε σ α) s = .ok a s := by
  rw [h]
  rfl

end Raml

/-!
# Computations that succeed

A computation made of steps has succeeded exactly if every step has, each from where the one before
it left off. These facts take such a computation apart without opening its steps, and compare two
computations step by step.
-/

namespace IntWasm

variable {ε σ α β : Type}

/-! ## Computations that may fail -/

/-- A sequence has succeeded if both steps have. -/
@[simp] theorem except_bind_eq_ok {x : Except ε α} {f : α → Except ε β} {b : β} :
    (x >>= f) = .ok b ↔ ∃ a, x = .ok a ∧ f a = .ok b := by
  cases x with
  | error e => simp [bind, Except.bind]
  | ok a => simp [bind, Except.bind]

/-- A step that only returns gives what it was given. -/
@[simp] theorem except_pure_eq_ok {a b : α} : (pure a : Except ε α) = .ok b ↔ a = b := by
  simp [pure, Except.pure]

/-- A step that fails has not succeeded. -/
@[simp] theorem except_throw_ne_ok {e : ε} {a : α} : (throw e : Except ε α) ≠ .ok a := by
  simp [throw, throwThe, MonadExceptOf.throw]

/-- A mapped computation has succeeded if the computation has. -/
@[simp] theorem except_map_eq_ok {x : Except ε α} {f : α → β} {b : β} :
    f <$> x = .ok b ↔ ∃ a, x = .ok a ∧ f a = b := by
  cases x with
  | error e => simp [Functor.map, Except.map]
  | ok a => simp [Functor.map, Except.map]

/-- Renaming errors does not change what succeeds. -/
@[simp] theorem except_mapError_eq_ok {ε' : Type} {x : Except ε α} {f : ε → ε'} {a : α} :
    x.mapError f = .ok a ↔ x = .ok a := by
  cases x with
  | error e => exact ⟨fun h => (by cases h), fun h => (by cases h)⟩
  | ok b => exact ⟨fun h => (by cases h; rfl), fun h => (by cases h; rfl)⟩

/-- Forgetting the error leaves what succeeded. -/
theorem except_toOption_eq_some {x : Except ε α} {a : α} : x.toOption = some a ↔ x = .ok a := by
  cases x <;> simp [Except.toOption]

/-! ## Computations on a state -/

/-- A sequence has succeeded if both steps have, the second from where the first ended. -/
@[simp] theorem estate_bind_eq_ok {x : EStateM ε σ α} {f : α → EStateM ε σ β} {s s' : σ} {b : β} :
    (x >>= f) s = .ok b s' ↔ ∃ a t, x s = .ok a t ∧ f a t = .ok b s' := by
  simp only [bind, EStateM.bind]
  cases x s with
  | error e t => simp
  | ok a t =>
    constructor
    · intro h
      exact ⟨a, t, rfl, h⟩
    · rintro ⟨_, _, ⟨⟩, h⟩
      exact h

/-- A step that only returns keeps the state. -/
@[simp] theorem estate_pure_eq_ok {s s' : σ} {a b : α} :
    (pure a : EStateM ε σ α) s = .ok b s' ↔ a = b ∧ s = s' := by
  simp [pure, EStateM.pure]

/-- A mapped computation ends in the state in which the computation ends. -/
@[simp] theorem estate_map_eq_ok {x : EStateM ε σ α} {f : α → β} {s s' : σ} {b : β} :
    (f <$> x) s = .ok b s' ↔ ∃ a, x s = .ok a s' ∧ f a = b := by
  simp only [Functor.map, EStateM.map]
  cases x s with
  | error e t => simp
  | ok a t =>
    constructor
    · rintro ⟨⟩
      exact ⟨a, rfl, rfl⟩
    · rintro ⟨_, ⟨⟩, rfl⟩
      rfl

/-- A step that fails keeps the state. -/
theorem estate_throw (e : ε) (s : σ) : (throw e : EStateM ε σ α) s = .error e s := rfl

/-- Reading the state gives it. -/
theorem estate_get (s : σ) : (get : EStateM ε σ σ) s = .ok s s := rfl

/-- Changing the state gives nothing else. -/
theorem estate_modify (f : σ → σ) (s : σ) : (modify f : EStateM ε σ PUnit) s = .ok ⟨⟩ (f s) := rfl

/-- A step that fails has not succeeded, in whatever state. -/
@[simp] theorem estate_throw_ne_ok {s s' : σ} {e : ε} {a : α} :
    (throw e : EStateM ε σ α) s ≠ .ok a s' := by
  simp [estate_throw]

/-- Reading the state always succeeds and keeps it. -/
@[simp] theorem estate_get_eq_ok {s s' a : σ} :
    (get : EStateM ε σ σ) s = .ok a s' ↔ s = a ∧ s = s' := by
  simp [estate_get]

/-- Changing the state always succeeds. -/
@[simp] theorem estate_modify_eq_ok {f : σ → σ} {s s' : σ} {u : PUnit} :
    (modify f : EStateM ε σ PUnit) s = .ok u s' ↔ f s = s' := by
  simp [estate_modify]

/-! ## What computations leave behind -/

variable {R : σ → σ → Prop}

/-- The state that a computation leaves, whether it has succeeded or not. -/
def finalState : EStateM.Result ε σ α → σ
  | .ok _ s => s
  | .error _ s => s

/-- The result of a computation and the state that it leaves, if it has succeeded. -/
def succeeded : EStateM.Result ε σ α → Option (α × σ)
  | .ok a s => some (a, s)
  | .error _ _ => none

/-- The value and state of a success. -/
@[simp] theorem succeeded_eq_some {r : EStateM.Result ε σ α} {p : α × σ} :
    succeeded r = some p ↔ r = .ok p.1 p.2 := by
  cases r with
  | ok a s => simp [succeeded, Prod.ext_iff]
  | error e s => simp [succeeded]

/-- The error of a computation and the state that it leaves, if it has failed. -/
def failed : EStateM.Result ε σ α → Option (ε × σ)
  | .ok _ _ => none
  | .error e s => some (e, s)

/-- The error and state of a failure. -/
@[simp] theorem failed_eq_some {r : EStateM.Result ε σ α} {p : ε × σ} :
    failed r = some p ↔ r = .error p.1 p.2 := by
  cases r with
  | ok a s => simp [failed]
  | error e s => simp [failed, Prod.ext_iff]

/-- Every run of a computation takes its state along a relation. -/
def Moves (R : σ → σ → Prop) (x : EStateM ε σ α) : Prop := ∀ s, R s (finalState (x s))

/-- Two steps that move along a transitive relation move along it together. -/
theorem Moves.bind (htrans : ∀ ⦃a b c⦄, R a b → R b c → R a c) {x : EStateM ε σ α}
    {next : α → EStateM ε σ β} (hx : Moves R x) (hnext : ∀ a, Moves R (next a)) :
    Moves R (x >>= next) := by
  intro s
  have hfirst := hx s
  simp only [Bind.bind, EStateM.bind]
  cases hresult : x s with
  | ok a s' =>
    rw [hresult] at hfirst
    exact htrans hfirst (hnext a s')
  | error e s' =>
    rw [hresult] at hfirst
    exact hfirst

/-- A step that only returns does not move. -/
theorem moves_pure (hrefl : ∀ s, R s s) (a : α) : Moves R (pure a : EStateM ε σ α) :=
  fun s => hrefl s

/-- A step that fails does not move. -/
theorem moves_throw (hrefl : ∀ s, R s s) (e : ε) : Moves R (throw e : EStateM ε σ α) :=
  fun s => hrefl s

/-! ## What computations lead to -/

/-- A computation leads from a state to one where it has a property if it succeeds, and to one where
it has another property if it fails. -/
def Leads (x : EStateM ε σ α) (s : σ) (success : α → σ → Prop) (failure : ε → σ → Prop) : Prop :=
  match x s with
  | .ok a s' => success a s'
  | .error e s' => failure e s'

/-- A success is as was promised. -/
theorem Leads.of_ok {x : EStateM ε σ α} {s t : σ} {a : α} {success : α → σ → Prop}
    {failure : ε → σ → Prop} (hleads : Leads x s success failure) (hok : x s = .ok a t) :
    success a t := by
  unfold Leads at hleads
  rwa [hok] at hleads

/-- A failure is as was promised. -/
theorem Leads.of_error {x : EStateM ε σ α} {s t : σ} {e : ε} {success : α → σ → Prop}
    {failure : ε → σ → Prop} (hleads : Leads x s success failure) (herror : x s = .error e t) :
    failure e t := by
  unfold Leads at hleads
  rwa [herror] at hleads

/-- What one step promises is what the next one may assume; both fail in the same way. -/
theorem Leads.bind {x : EStateM ε σ α} {next : α → EStateM ε σ β} {s : σ}
    {middle : α → σ → Prop} {success : β → σ → Prop} {failure : ε → σ → Prop}
    (hx : Leads x s middle failure) (hnext : ∀ a t, middle a t → Leads (next a) t success failure) :
    Leads (x >>= next) s success failure := by
  unfold Leads
  simp only [Bind.bind, EStateM.bind]
  cases hresult : x s with
  | ok a t => exact hnext a t (hx.of_ok hresult)
  | error e t => exact hx.of_error hresult

/-- A step whose outcome is known comes first. -/
theorem Leads.after {x : EStateM ε σ α} {next : α → EStateM ε σ β} {s t : σ} {a : α}
    {success : β → σ → Prop} {failure : ε → σ → Prop} (hx : x s = .ok a t)
    (hnext : Leads (next a) t success failure) : Leads (x >>= next) s success failure := by
  unfold Leads at hnext ⊢
  simp only [Bind.bind, EStateM.bind, hx]
  exact hnext

/-- What is so whether a computation succeeds or fails is so afterwards. -/
theorem Leads.finally {x : EStateM ε σ α} {s : σ} {success : α → σ → Prop} {failure : ε → σ → Prop}
    {P : σ → Prop} (hx : Leads x s success failure) (hsuccess : ∀ a t, success a t → P t)
    (hfailure : ∀ e t, failure e t → P t) : P (finalState (x s)) := by
  cases hresult : x s with
  | ok a t => exact hsuccess a t (hx.of_ok hresult)
  | error e t => exact hfailure e t (hx.of_error hresult)

/-- A promise may be kept in part. -/
theorem Leads.weaken {x : EStateM ε σ α} {s : σ} {success success' : α → σ → Prop}
    {failure failure' : ε → σ → Prop} (hx : Leads x s success failure)
    (hsuccess : ∀ a t, success a t → success' a t) (hfailure : ∀ e t, failure e t → failure' e t) :
    Leads x s success' failure' := by
  unfold Leads
  cases hresult : x s with
  | ok a t => exact hsuccess a t (hx.of_ok hresult)
  | error e t => exact hfailure e t (hx.of_error hresult)

/-! ## Computations side by side -/

section

variable {τ γ δ : Type}

/-- Two computations end alike: with related results or the same error, and in related states. -/
def EndsAlike (R : σ → τ → Prop) (V : α → β → Prop) :
    EStateM.Result ε σ α → EStateM.Result ε τ β → Prop
  | .ok a s, .ok b t => V a b ∧ R s t
  | .error e s, .error e' t => e = e' ∧ R s t
  | .ok _ _, .error _ _ => False
  | .error _ _, .ok _ _ => False

/-- Two computations that begin in related states end alike. -/
def Together (R : σ → τ → Prop) (V : α → β → Prop) (x : EStateM ε σ α) (y : EStateM ε τ β) : Prop :=
  ∀ s t, R s t → EndsAlike R V (x s) (y t)

variable {R : σ → τ → Prop} {V : α → β → Prop} {W : γ → δ → Prop}

/-- Two computations that end alike either both succeed or fail with the same error. -/
theorem EndsAlike.cases {r : EStateM.Result ε σ α} {q : EStateM.Result ε τ β}
    (hends : EndsAlike R V r q) :
    (∃ a b s t, r = .ok a s ∧ q = .ok b t ∧ V a b ∧ R s t) ∨
      ∃ e s t, r = .error e s ∧ q = .error e t ∧ R s t := by
  cases r with
  | ok a s =>
    cases q with
    | ok b t => exact .inl ⟨a, b, s, t, rfl, rfl, hends⟩
    | error e t => exact hends.elim
  | error e s =>
    cases q with
    | ok b t => exact hends.elim
    | error e' t =>
      obtain ⟨rfl, hst⟩ := hends
      exact .inr ⟨e, s, t, rfl, rfl, hst⟩

/-- Two sequences end alike if their first steps do, and their next steps from there on. -/
theorem Together.bind {x : EStateM ε σ α} {y : EStateM ε τ β} {f : α → EStateM ε σ γ}
    {g : β → EStateM ε τ δ} (hxy : Together R V x y)
    (hnext : ∀ a b, V a b → Together R W (f a) (g b)) : Together R W (x >>= f) (y >>= g) := by
  intro s t hst
  simp only [Bind.bind, EStateM.bind]
  rcases (hxy s t hst).cases with ⟨a, b, s', t', hx, hy, hab, hst'⟩ | ⟨e, s', t', hx, hy, hst'⟩
  · simp only [hx, hy]
    exact hnext a b hab s' t' hst'
  · simp only [hx, hy]
    exact ⟨rfl, hst'⟩

/-- The same computation follows on both sides with the same result. -/
theorem Together.andThen {x : EStateM ε σ α} {y : EStateM ε τ α} {f : α → EStateM ε σ γ}
    {g : α → EStateM ε τ δ} (hxy : Together R Eq x y) (hnext : ∀ a, Together R W (f a) (g a)) :
    Together R W (x >>= f) (y >>= g) :=
  hxy.bind fun a _ hab => hab ▸ hnext a

/-- Steps that only return end alike. -/
theorem together_pure {a : α} {b : β} (hab : V a b) :
    Together R V (pure a : EStateM ε σ α) (pure b : EStateM ε τ β) := fun _ _ hst => ⟨hab, hst⟩

/-- Steps that fail with the same error end alike. -/
theorem together_throw (e : ε) : Together R V (throw e : EStateM ε σ α) (throw e : EStateM ε τ β) :=
  fun _ _ hst => ⟨rfl, hst⟩

end

/-! ## Computations side by side, with excuses -/

section

variable {τ γ δ : Type}

/-- Two computations agree: they give related results or the same error, or the error of the first
one is excused. -/
inductive Agree (X : ε → Prop) (V : α → β → Prop) : Except ε α → Except ε β → Prop
  | ok {a : α} {b : β} (hab : V a b) : Agree X V (.ok a) (.ok b)
  | error (e : ε) : Agree X V (.error e) (.error e)
  | excused {e : ε} (hexcused : X e) (y : Except ε β) : Agree X V (.error e) y

/-- Two sequences agree if their first steps do, and their next steps from there on. -/
theorem Agree.bind {X : ε → Prop} {V : α → β → Prop} {W : γ → δ → Prop} {x : Except ε α}
    {y : Except ε β} {f : α → Except ε γ} {g : β → Except ε δ} (hxy : Agree X V x y)
    (hnext : ∀ a b, V a b → Agree X W (f a) (g b)) : Agree X W (x >>= f) (y >>= g) := by
  cases hxy with
  | ok hab => exact hnext _ _ hab
  | error e => exact .error e
  | excused hexcused => exact .excused hexcused _

/-- A computation agrees with itself. -/
theorem Agree.refl {X : ε → Prop} (x : Except ε α) : Agree X Eq x x := by
  cases x with
  | ok a => exact .ok rfl
  | error e => exact .error e

/-- Two computations end alike, or the error of the first one is excused. -/
inductive EndsAlikeUnless (X : ε → Prop) (R : σ → τ → Prop) (V : α → β → Prop) :
    EStateM.Result ε σ α → EStateM.Result ε τ β → Prop
  | ok {a : α} {b : β} {s : σ} {t : τ} (hab : V a b) (hst : R s t) :
    EndsAlikeUnless X R V (.ok a s) (.ok b t)
  | error (e : ε) {s : σ} {t : τ} (hst : R s t) : EndsAlikeUnless X R V (.error e s) (.error e t)
  | excused {e : ε} (hexcused : X e) (s : σ) (q : EStateM.Result ε τ β) :
    EndsAlikeUnless X R V (.error e s) q

/-- Two computations that begin in related states end alike, or the error of the first one is
excused. -/
def TogetherUnless (X : ε → Prop) (R : σ → τ → Prop) (V : α → β → Prop) (x : EStateM ε σ α)
    (y : EStateM ε τ β) : Prop :=
  ∀ s t, R s t → EndsAlikeUnless X R V (x s) (y t)

variable {X : ε → Prop} {R : σ → τ → Prop} {V : α → β → Prop} {W : γ → δ → Prop}

/-- Ending alike is ending alike without making use of the exception. -/
theorem EndsAlike.unless {r : EStateM.Result ε σ α} {q : EStateM.Result ε τ β}
    (hends : EndsAlike R V r q) : EndsAlikeUnless X R V r q := by
  rcases hends.cases with ⟨a, b, s, t, rfl, rfl, hab, hst⟩ | ⟨e, s, t, rfl, rfl, hst⟩
  · exact .ok hab hst
  · exact .error e hst

/-- Both succeed, both fail with the same error, or the first one fails as it may. -/
theorem EndsAlikeUnless.cases {r : EStateM.Result ε σ α} {q : EStateM.Result ε τ β}
    (hends : EndsAlikeUnless X R V r q) :
    (∃ a b s t, r = .ok a s ∧ q = .ok b t ∧ V a b ∧ R s t) ∨
      (∃ e s t, r = .error e s ∧ q = .error e t ∧ R s t) ∨ ∃ e s, r = .error e s ∧ X e := by
  cases hends with
  | ok hab hst => exact .inl ⟨_, _, _, _, rfl, rfl, hab, hst⟩
  | error e hst => exact .inr (.inl ⟨e, _, _, rfl, rfl, hst⟩)
  | excused hexcused s => exact .inr (.inr ⟨_, s, rfl, hexcused⟩)

/-- A failure that is excluded leaves two computations that end alike. -/
theorem EndsAlikeUnless.never {r : EStateM.Result ε σ α} {q : EStateM.Result ε τ β}
    (hends : EndsAlikeUnless X R V r q) (hnever : ∀ e s, r = .error e s → ¬ X e) :
    EndsAlike R V r q := by
  cases hends with
  | ok hab hst => exact ⟨hab, hst⟩
  | error e hst => exact ⟨rfl, hst⟩
  | excused hexcused s => exact absurd hexcused (hnever _ s rfl)

/-- Two sequences end alike unless one of the first one's steps fails as it may. -/
theorem TogetherUnless.bind {x : EStateM ε σ α} {y : EStateM ε τ β} {f : α → EStateM ε σ γ}
    {g : β → EStateM ε τ δ} (hxy : TogetherUnless X R V x y)
    (hnext : ∀ a b, V a b → TogetherUnless X R W (f a) (g b)) :
    TogetherUnless X R W (x >>= f) (y >>= g) := by
  intro s t hst
  have hends := hxy s t hst
  simp only [Bind.bind, EStateM.bind]
  generalize x s = r at hends ⊢
  generalize y t = q at hends ⊢
  cases hends with
  | ok hab hst => exact hnext _ _ hab _ _ hst
  | error e hst => exact .error e hst
  | excused hexcused s => exact .excused hexcused s _

/-- The case of equal values in between. -/
theorem TogetherUnless.andThen {x : EStateM ε σ α} {y : EStateM ε τ α} {f : α → EStateM ε σ γ}
    {g : α → EStateM ε τ δ} (hxy : TogetherUnless X R Eq x y)
    (hnext : ∀ a, TogetherUnless X R W (f a) (g a)) : TogetherUnless X R W (x >>= f) (y >>= g) :=
  hxy.bind fun a _ hab => hab ▸ hnext a

/-- Steps that only return end alike. -/
theorem togetherUnless_pure {a : α} {b : β} (hab : V a b) :
    TogetherUnless X R V (pure a : EStateM ε σ α) (pure b : EStateM ε τ β) :=
      fun _ _ hst => .ok hab hst

/-- Steps that fail with the same error end alike. -/
theorem togetherUnless_throw (e : ε) :
    TogetherUnless X R V (throw e : EStateM ε σ α) (throw e : EStateM ε τ β) :=
  fun _ _ hst => .error e hst

end

end IntWasm

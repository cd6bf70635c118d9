import S4Drive.Library.Script

/-
  Programs that run alone and may be cut off. A run serves a
  number of requests and then stops, whether or not the
  program has come to its end. A program endures when some
  invariant holds wherever a run of it may be cut off, and
  a postcondition when it has ended.

  Main declarations:
    * `runFor`
    * `Survives`, `Survives.cut`, `Survives.ended`
    * `Survives.completes`
    * `Endures` and its rules
-/

------------------------------------------------------------
-- Runs That Are Cut Off
------------------------------------------------------------

namespace Concurrency

variable {ρ σ α γ ε l : Type} {β : ρ → Type}
variable (serve : (r : ρ) → σ → Option (β r × σ))

/- Serve at most `n` requests; no value when it is cut off. -/
def runFor : Nat → Prog ρ β α → σ → Option α × σ
  | _, .done a, s => (some a, s)
  | 0, .ask _ _, s => (none, s)
  | n + 1, .ask r k, s =>
      match serve r s with
      | none => (none, s)
      | some (b, s') => runFor n (k b) s'

variable (I : σ → Prop)

/-
  `I` holds before every request, every request is served,
  and the end satisfies `Q`.
-/
def Survives
    (Q : α → σ → Prop) : Prog ρ β α → σ → Prop
  | .done a, s => Q a s
  | .ask r k, s =>
      I s ∧ ∃ b s', serve r s = some (b, s') ∧
        Survives Q (k b) s'

variable {serve I}
variable {Q Q' : α → σ → Prop} {p : Prog ρ β α}
variable {s s' : σ} {n : Nat} {a : α}

theorem Survives.mono
    (h : Survives serve I Q p s)
    (hQ : ∀ a s', Q a s' → Q' a s') :
    Survives serve I Q' p s := by
  induction p generalizing s with
  | done a => exact hQ a s h
  | ask r k ih =>
      rcases h with ⟨hI, b, s', hServe, hRest⟩
      exact ⟨hI, b, s', hServe, ih b hRest⟩

theorem Survives.bind
    {f : α → Prog ρ β γ} {R : γ → σ → Prop}
    (h :
      Survives serve I (fun a s' => Survives serve I R (f a) s')
        p s) :
    Survives serve I R (p.bind f) s := by
  induction p generalizing s with
  | done a => exact h
  | ask r k ih =>
      rcases h with ⟨hI, b, s', hServe, hRest⟩
      exact ⟨hI, b, s', hServe, ih b hRest⟩

/- Where a run was cut off the invariant holds. -/
theorem Survives.cut
    (h : Survives serve I Q p s)
    (hRun : runFor serve n p s = (none, s')) : I s' := by
  induction p generalizing s n with
  | done a => cases n <;> cases hRun
  | ask r k ih =>
      rcases h with ⟨hI, b, s₁, hServe, hRest⟩
      cases n with
      | zero =>
          cases hRun
          exact hI
      | succ n =>
          unfold runFor at hRun
          rw [hServe] at hRun
          exact ih b hRest hRun

/- A run that has ended satisfies the postcondition. -/
theorem Survives.ended
    (h : Survives serve I Q p s)
    (hRun : runFor serve n p s = (some a, s')) : Q a s' := by
  induction p generalizing s n with
  | done a' =>
      cases n <;> cases hRun <;> exact h
  | ask r k ih =>
      rcases h with ⟨_, b, s₁, hServe, hRest⟩
      cases n with
      | zero => cases hRun
      | succ n =>
          unfold runFor at hRun
          rw [hServe] at hRun
          exact ih b hRest hRun

/- A run that is long enough ends. -/
theorem Survives.completes
    (h : Survives serve I Q p s) :
    ∃ n a s', runFor serve n p s = (some a, s') := by
  induction p generalizing s with
  | done a => exact ⟨0, a, s, rfl⟩
  | ask r k ih =>
      rcases h with ⟨_, b, s₁, hServe, hRest⟩
      rcases ih b hRest with ⟨n, a, s', hRun⟩
      refine ⟨n + 1, a, s', ?_⟩
      unfold runFor
      rw [hServe]
      exact hRun

variable (serve I)

/- `Survives` for a script with the local value `v`. -/
def Endures
    (x : Script ρ β ε l α)
    (v : l)
    (Q : Except ε α → l → σ → Prop)
    (s : σ) : Prop :=
  Survives serve I (fun r s' => Q r.1 r.2 s') (x v) s

variable {serve I}
variable {v : l}
variable {x : Script ρ β ε l α}

theorem Endures.mono
    {Q Q' : Except ε α → l → σ → Prop}
    (h : Endures serve I x v Q s)
    (hQ : ∀ r v' s', Q r v' s' → Q' r v' s') :
    Endures serve I x v Q' s :=
  Survives.mono h fun r s' => hQ r.1 r.2 s'

theorem endures_pure
    {a : α} {Q : Except ε α → l → σ → Prop}
    (h : Q (.ok a) v s) :
    Endures serve I (pure a : Script ρ β ε l α) v Q s :=
  h

theorem endures_ofExcept
    {x : Except ε α} {Q : Except ε α → l → σ → Prop}
    (h : Q x v s) :
    Endures serve I
      (Script.ofExcept x : Script ρ β ε l α) v Q s := by
  cases x with
  | ok a => exact h
  | error e => exact h

/- What a script does with the result of the one before. -/
def Proceeds
    (serve : (r : ρ) → σ → Option (β r × σ))
    (I : σ → Prop)
    (f : α → Script ρ β ε l γ)
    (Q : Except ε γ → l → σ → Prop)
    (r : Except ε α)
    (v : l)
    (s : σ) : Prop :=
  match r with
  | .ok a => Endures serve I (f a) v Q s
  | .error e => Q (.error e) v s

theorem proceeds_ok
    {a : α}
    {f : α → Script ρ β ε l γ}
    {Q : Except ε γ → l → σ → Prop}
    (h : Endures serve I (f a) v Q s) :
    Proceeds serve I f Q (.ok a) v s :=
  h

theorem endures_bind
    {f : α → Script ρ β ε l γ}
    {Q : Except ε γ → l → σ → Prop}
    (h : Endures serve I x v (Proceeds serve I f Q) s) :
    Endures serve I (x >>= f) v Q s := by
  apply Survives.bind
  apply Survives.mono h
  rintro ⟨r, v'⟩ s' hRest
  cases r with
  | ok a => exact hRest
  | error e => exact hRest

theorem endures_attempt
    {Q : Except ε (Except ε α) → l → σ → Prop}
    (h : Endures serve I x v (fun r => Q (.ok r)) s) :
    Endures serve I (Script.attempt x) v Q s := by
  apply Survives.bind
  exact Survives.mono h fun _ _ hRest => hRest

theorem endures_request
    {r : ρ} {b : β r}
    {Q : Except ε (β r) → l → σ → Prop}
    (hI : I s)
    (hServe : serve r s = some (b, s'))
    (h : Q (.ok b) v s') :
    Endures serve I
      (Script.request r : Script ρ β ε l (β r)) v Q s :=
  ⟨hI, b, s', hServe, h⟩

theorem endures_call
    {r : ρ} {answer : β r → Except ε α} {b : β r}
    {Q : Except ε α → l → σ → Prop}
    (hI : I s)
    (hServe : serve r s = some (b, s'))
    (h : Q (answer b) v s') :
    Endures serve I
      (Script.call r answer : Script ρ β ε l α) v Q s :=
  ⟨hI, b, s', hServe, h⟩

end Concurrency

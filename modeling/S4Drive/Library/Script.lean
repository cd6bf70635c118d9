import S4Drive.Library.RelyGuarantee

/-
  Scripts: programs that may fail and that keep a local
  value, on top of request trees. A failed script still
  leaves its local value behind, as a method with a mutable
  receiver does.

  Main declarations:
    * `Script`
    * `Script.throw`, `Script.attempt`, `Script.request`
    * `Meets`, `Gives`, `Within` and `Safe`, with their rules
-/

------------------------------------------------------------
-- Scripts
------------------------------------------------------------

namespace Concurrency

/-
  Programs over the requests `ρ` with a local value in `l`
  that return an `α` or fail with an `ε`.
-/
def Script
    (ρ : Type)
    (β : ρ → Type)
    (ε l α : Type) : Type :=
  l → Prog ρ β (Except ε α × l)

namespace Script

variable {ρ : Type} {β : ρ → Type}
variable {ε l α γ : Type}

/- Go on with the result of a script unless it failed. -/
protected def bind
    (x : Script ρ β ε l α)
    (f : α → Script ρ β ε l γ) : Script ρ β ε l γ :=
  fun v => (x v).bind fun r =>
    match r with
    | (.ok a, v') => f a v'
    | (.error e, v') => .done (.error e, v')

instance : Monad (Script ρ β ε l) where
  pure := fun a v => .done (.ok a, v)
  bind := Script.bind

/- Fail. -/
def throw
    (e : ε) : Script ρ β ε l α :=
  fun v => .done (.error e, v)

/- Run a script and return its failure as a value. -/
def attempt
    (x : Script ρ β ε l α) : Script ρ β ε l (Except ε α) :=
  fun v => (x v).bind fun r => .done (.ok r.1, r.2)

/- The local value. -/
def get : Script ρ β ε l l :=
  fun v => .done (.ok v, v)

/- Change the local value. -/
def modify
    (f : l → l) : Script ρ β ε l Unit :=
  fun v => .done (.ok (), f v)

/- Return the value of a computation that may have failed. -/
def ofExcept :
    Except ε α → Script ρ β ε l α
  | .ok a => pure a
  | .error e => throw e

/- Send one request and return its answer. -/
def request
    (r : ρ) : Script ρ β ε l (β r) :=
  fun v => .ask r fun b => .done (.ok b, v)

/- Send one request whose answer may be a failure. -/
def call
    (r : ρ)
    (answer : β r → Except ε α) : Script ρ β ε l α :=
  fun v => .ask r fun b => .done (answer b, v)

theorem attempt_call
    (r : ρ)
    (answer : β r → Except ε α) :
    attempt (call r answer : Script ρ β ε l α) =
      call r fun b => .ok (answer b) := rfl

end Script

------------------------------------------------------------
-- Specifications of Scripts
------------------------------------------------------------

variable {ρ : Type} {β : ρ → Type}
variable {σ τ κ ε l α γ : Type}
variable (M : Machine ρ β σ τ κ) (C : Contract ρ κ σ τ)

/-
  From the world `s` and the local value `v` on, thread `t`
  may run `x`, and its result, the local value it leaves and
  the world satisfy `Q`.
-/
def Meets
    (t : τ)
    (x : Script ρ β ε l α)
    (v : l)
    (Q : Except ε α → l → σ → Prop)
    (s : σ) : Prop :=
  wp M C t (x v) (fun r s' => Q r.1 r.2 s') s

variable {M C}
variable {t : τ} {s s' : σ} {v : l}
variable {x : Script ρ β ε l α}

theorem Meets.mono
    {Q Q' : Except ε α → l → σ → Prop}
    (hx : Meets M C t x v Q s)
    (hQ : ∀ r v' s', Q r v' s' → Q' r v' s') :
    Meets M C t x v Q' s :=
  wp_mono hx (fun r s' h => hQ r.1 r.2 s' h)

/- The invariant holds where a script ends. -/
theorem Meets.with_inv
    {Q : Except ε α → l → σ → Prop}
    (hx : Meets M C t x v Q s) :
    Meets M C t x v (fun r v' s' => Q r v' s' ∧ C.Inv s') s :=
  wp_with_inv hx

/- Two postconditions of one script hold together. -/
theorem Meets.and
    {P Q : Except ε α → l → σ → Prop}
    (hp : Meets M C t x v P s)
    (hq : Meets M C t x v Q s) :
    Meets M C t x v
      (fun r v' s' => P r v' s' ∧ Q r v' s') s :=
  wp_and hp hq

/- The invariant may be assumed where a script starts. -/
theorem meets_of_inv
    {Q : Except ε α → l → σ → Prop}
    (h :
      ∀ s', C.Rely t s s' → C.Inv s' →
        Meets M C t x v Q s') :
    Meets M C t x v Q s :=
  wp_of_inv h

theorem meets_pure
    {a : α}
    {Q : Except ε α → l → σ → Prop}
    (h : ∀ s', C.Rely t s s' → C.Inv s' → Q (.ok a) v s') :
    Meets M C t (pure a) v Q s := h

theorem meets_throw
    {e : ε}
    {Q : Except ε α → l → σ → Prop}
    (h :
      ∀ s', C.Rely t s s' → C.Inv s' → Q (.error e) v s') :
    Meets M C t (Script.throw e) v Q s := h

variable {r : Except ε α}

theorem meets_ofExcept
    {Q : Except ε α → l → σ → Prop}
    (h : ∀ s', C.Rely t s s' → C.Inv s' → Q r v s') :
    Meets M C t (Script.ofExcept r) v Q s := by
  cases r with
  | ok a => exact meets_pure h
  | error e => exact meets_throw h

/- What a bind has to show after its first part. -/
def Continues
    (M : Machine ρ β σ τ κ)
    (C : Contract ρ κ σ τ)
    (t : τ)
    (f : α → Script ρ β ε l γ)
    (Q : Except ε γ → l → σ → Prop)
    (r : Except ε α)
    (v : l)
    (s : σ) : Prop :=
  match r with
  | .ok a => Meets M C t (f a) v Q s
  | .error e => Q (.error e) v s

variable {f : α → Script ρ β ε l γ}

theorem continues_ok
    {Q : Except ε γ → l → σ → Prop}
    {a : α}
    (h : Meets M C t (f a) v Q s) :
    Continues M C t f Q (.ok a) v s := h

theorem continues_error
    {Q : Except ε γ → l → σ → Prop}
    {e : ε}
    (h : Q (.error e) v s) :
    Continues M C t f Q (.error e) v s := h

/- Sequencing: a failure of the first part ends the script. -/
theorem meets_bind
    {Q : Except ε γ → l → σ → Prop}
    (hx : Meets M C t x v (Continues M C t f Q) s) :
    Meets M C t (x >>= f) v Q s := by
  have tree :
      ∀ (p : Prog ρ β (Except ε α × l)) (s : σ),
        wp M C t p
          (fun r s' => Continues M C t f Q r.1 r.2 s') s →
        wp M C t
          (p.bind fun r =>
            match r with
            | (.ok a, v') => f a v'
            | (.error e, v') => .done (.error e, v'))
          (fun r s' => Q r.1 r.2 s') s := by
    intro p
    induction p with
    | done r =>
        intro s hp
        rcases r with ⟨r, v'⟩
        cases r with
        | ok a =>
            apply wp_of_inv
            intro s' hRely hInv
            exact hp s' hRely hInv
        | error e => exact hp
    | ask r k ih =>
        intro s hp s' hRely hInv c b s'' hAdm hServe
        rcases
          hp s' hRely hInv c b s'' hAdm hServe with
          ⟨hKeeps, hRest⟩
        exact ⟨hKeeps, ih b s'' hRest⟩
  exact tree (x v) s hx

/- The usual way to use a specification in a sequence. -/
theorem Meets.bind
    {P : Except ε α → l → σ → Prop}
    {Q : Except ε γ → l → σ → Prop}
    (hx : Meets M C t x v P s)
    (hOk :
      ∀ a v' s', P (.ok a) v' s' → Meets M C t (f a) v' Q s')
    (hError :
      ∀ e v' s', P (.error e) v' s' → Q (.error e) v' s') :
    Meets M C t (x >>= f) v Q s := by
  refine meets_bind (hx.mono fun r v' s' hP => ?_)
  cases r with
  | ok a => exact hOk a v' s' hP
  | error e => exact hError e v' s' hP

theorem meets_attempt
    {Q : Except ε (Except ε α) → l → σ → Prop}
    (hx : Meets M C t x v (fun r v' s' => Q (.ok r) v' s') s) :
    Meets M C t (Script.attempt x) v Q s := by
  have tree :
      ∀ (p : Prog ρ β (Except ε α × l)) (s : σ),
        wp M C t p (fun r s' => Q (.ok r.1) r.2 s') s →
        wp M C t
          (p.bind fun r => .done (.ok r.1, r.2))
          (fun r s' => Q r.1 r.2 s') s := by
    intro p
    induction p with
    | done r => exact fun s hp => hp
    | ask r k ih =>
        intro s hp s' hRely hInv c b s'' hAdm hServe
        rcases
          hp s' hRely hInv c b s'' hAdm hServe with
          ⟨hKeeps, hRest⟩
        exact ⟨hKeeps, ih b s'' hRest⟩
  exact tree (x v) s hx

theorem meets_get
    {Q : Except ε l → l → σ → Prop}
    (h : ∀ s', C.Rely t s s' → C.Inv s' → Q (.ok v) v s') :
    Meets M C t Script.get v Q s := h

theorem meets_modify
    {f : l → l}
    {Q : Except ε Unit → l → σ → Prop}
    (h :
      ∀ s', C.Rely t s s' → C.Inv s' → Q (.ok ()) (f v) s') :
    Meets M C t (Script.modify f) v Q s := h

/- Reading the local value is no step of its own. -/
theorem meets_get_bind
    {f : l → Script ρ β ε l γ}
    {Q : Except ε γ → l → σ → Prop}
    (h : Meets M C t (f v) v Q s) :
    Meets M C t (Script.get >>= f) v Q s := h

/-
  A single request. The postcondition may be shown in any
  later world that the others allow.
-/
theorem meets_call
    {r : ρ}
    {answer : β r → Except ε α}
    {Q : Except ε α → l → σ → Prop}
    (h :
      ∀ s', C.Rely t s s' → C.Inv s' →
        ∀ c b s'', C.Admits t r c s' →
          M.serve t r c s' = some (b, s'') →
          C.Keeps t s' s'' ∧
            ∀ s₃, C.Rely t s'' s₃ → C.Inv s₃ →
              Q (answer b) v s₃) :
    Meets M C t (Script.call r answer) v Q s := h

theorem meets_request
    {r : ρ}
    {Q : Except ε (β r) → l → σ → Prop}
    (h :
      ∀ s', C.Rely t s s' → C.Inv s' →
        ∀ c b s'', C.Admits t r c s' →
          M.serve t r c s' = some (b, s'') →
          C.Keeps t s' s'' ∧
            ∀ s₃, C.Rely t s'' s₃ → C.Inv s₃ →
              Q (.ok b) v s₃) :
    Meets M C t (Script.request r) v Q s := h

variable (M C) in
/-
  Thread `t` may run the script from the world `s` on, and
  what it returns when it does not fail satisfies `Q`.
-/
def Gives
    (t : τ)
    (x : Script ρ β ε l α)
    (v : l)
    (Q : α → l → σ → Prop)
    (s : σ) : Prop :=
  Meets M C t x v (fun r v' s' => ∀ a, r = .ok a → Q a v' s') s

theorem Gives.mono
    {Q Q' : α → l → σ → Prop}
    (hx : Gives M C t x v Q s)
    (hQ : ∀ a v' s', Q a v' s' → Q' a v' s') :
    Gives M C t x v Q' s :=
  Meets.mono hx fun _ v' s' h a hOk => hQ a v' s' (h a hOk)

variable {Q : α → l → σ → Prop}

theorem gives_pure
    {a : α}
    (h : ∀ s', C.Rely t s s' → C.Inv s' → Q a v s') :
    Gives M C t (pure a : Script ρ β ε l α) v Q s := by
  apply meets_pure
  rintro s' hRely hInv a' ⟨⟩
  exact h s' hRely hInv

theorem gives_throw
    {e : ε} :
    Gives M C t
      (Script.throw e : Script ρ β ε l α) v Q s :=
  meets_throw fun _ _ _ _ hOk => nomatch hOk

theorem gives_ofExcept
    (h :
      ∀ a, r = .ok a →
        ∀ s', C.Rely t s s' → C.Inv s' → Q a v s') :
    Gives M C t (Script.ofExcept r) v Q s :=
  meets_ofExcept fun s' hRely hInv a hOk =>
    h a hOk s' hRely hInv

/- Only what the first part returns has to be followed. -/
theorem Gives.bind
    {P : α → l → σ → Prop}
    {Q : γ → l → σ → Prop}
    (hx : Gives M C t x v P s)
    (hf : ∀ a v' s', P a v' s' → Gives M C t (f a) v' Q s') :
    Gives M C t (x >>= f) v Q s := by
  apply Meets.bind hx
  · exact fun a v' s' h => hf a v' s' (h a rfl)
  · exact fun _ _ _ _ _ hOk => nomatch hOk

theorem gives_call
    {r : ρ}
    {answer : β r → Except ε α}
    (h :
      ∀ s', C.Rely t s s' → C.Inv s' →
        ∀ c b s'', C.Admits t r c s' →
          M.serve t r c s' = some (b, s'') →
          C.Keeps t s' s'' ∧
            ∀ a, answer b = .ok a →
              ∀ s₃, C.Rely t s'' s₃ → C.Inv s₃ →
                Q a v s₃) :
    Gives M C t (Script.call r answer) v Q s := by
  apply meets_call
  intro s' hRely hInv c b s'' hAdmits hServe
  have hStep := h s' hRely hInv c b s'' hAdmits hServe
  refine ⟨hStep.1, ?_⟩
  intro s₃ hRely' hInv' a hOk
  exact hStep.2 a hOk s₃ hRely' hInv'

------------------------------------------------------------
-- Scripts That Change No More Than Others Do
------------------------------------------------------------

variable (M C) in
/-
  What thread `t` does in the script, failed or not, others
  could have done behind its back, and what the script
  returns satisfies `Q`.
-/
def Within
    (t : τ)
    (x : Script ρ β ε l α)
    (v : l)
    (Q : α → l → σ → Prop)
    (s : σ) : Prop :=
  Meets M C t x v
    (fun r v' s' =>
      C.Rely t s s' ∧ ∀ a, r = .ok a → Q a v' s') s

theorem Within.mono
    {Q Q' : α → l → σ → Prop}
    (hx : Within M C t x v Q s)
    (hQ :
      ∀ a v' s', C.Rely t s s' → Q a v' s' → Q' a v' s') :
    Within M C t x v Q' s := by
  apply Meets.mono hx
  rintro r v' s' ⟨hRely, h⟩
  exact ⟨hRely, fun a hOk => hQ a v' s' hRely (h a hOk)⟩

theorem Within.gives
    (hx : Within M C t x v Q s) :
    Gives M C t x v
      (fun a v' s' => C.Rely t s s' ∧ Q a v' s') s := by
  apply Meets.mono hx
  rintro r v' s' ⟨hRely, h⟩ a hOk
  exact ⟨hRely, h a hOk⟩

theorem within_pure
    {a : α}
    (h : ∀ s', C.Rely t s s' → C.Inv s' → Q a v s') :
    Within M C t (pure a : Script ρ β ε l α) v Q s := by
  apply meets_pure
  intro s' hRely hInv
  refine ⟨hRely, ?_⟩
  rintro a' ⟨⟩
  exact h s' hRely hInv

theorem within_throw
    {e : ε} :
    Within M C t
      (Script.throw e : Script ρ β ε l α) v Q s :=
  meets_throw fun _ hRely _ =>
    ⟨hRely, fun _ hOk => nomatch hOk⟩

theorem within_ofExcept
    (h :
      ∀ a, r = .ok a →
        ∀ s', C.Rely t s s' → C.Inv s' → Q a v s') :
    Within M C t (Script.ofExcept r) v Q s :=
  meets_ofExcept fun s' hRely hInv =>
    ⟨hRely, fun a hOk => h a hOk s' hRely hInv⟩

theorem Within.bind
    {P : α → l → σ → Prop}
    {Q : γ → l → σ → Prop}
    (hx : Within M C t x v P s)
    (hf :
      ∀ a v' s', C.Rely t s s' → P a v' s' →
        Within M C t (f a) v' Q s') :
    Within M C t (x >>= f) v Q s := by
  apply Meets.bind hx
  · rintro a v' s' ⟨hRely, h⟩
    apply Meets.mono (hf a v' s' hRely (h a rfl))
    rintro r v'' s'' ⟨hRely', h'⟩
    exact ⟨C.rely_trans hRely hRely', h'⟩
  · rintro e v' s' ⟨hRely, _⟩
    exact ⟨hRely, fun _ hOk => nomatch hOk⟩

theorem Within.attempt
    (hx : Within M C t x v Q s) :
    Within M C t (Script.attempt x) v
      (fun r v' s' => ∀ a, r = .ok a → Q a v' s') s := by
  apply meets_attempt
  apply Meets.mono hx
  rintro r v' s' ⟨hRely, h⟩
  refine ⟨hRely, ?_⟩
  rintro r' ⟨⟩
  exact h

theorem within_call
    {r : ρ}
    {answer : β r → Except ε α}
    (h :
      ∀ s', C.Rely t s s' → C.Inv s' →
        ∀ c b s'', C.Admits t r c s' →
          M.serve t r c s' = some (b, s'') →
          C.Keeps t s' s'' ∧ C.Rely t s' s'' ∧
            ∀ a, answer b = .ok a →
              ∀ s₃, C.Rely t s'' s₃ → C.Inv s₃ →
                Q a v s₃) :
    Within M C t (Script.call r answer) v Q s := by
  apply meets_call
  intro s' hRely hInv c b s'' hAdmits hServe
  rcases h s' hRely hInv c b s'' hAdmits hServe with
    ⟨hKeeps, hStep, hQ⟩
  refine ⟨hKeeps, ?_⟩
  intro s₃ hRely' hInv'
  refine ⟨C.rely_trans (C.rely_trans hRely hStep) hRely', ?_⟩
  exact fun a hOk => hQ a hOk s₃ hRely' hInv'

variable (M C) in
/- Thread `t` may run the script in any world. -/
def Safe
    (t : τ)
    (x : Script ρ β ε l α) : Prop :=
  ∀ v s, Meets M C t x v (fun _ _ _ => True) s

namespace Safe

theorem pure
    (a : α) :
    Safe M C t (Pure.pure a : Script ρ β ε l α) :=
  fun _ _ => meets_pure fun _ _ _ => trivial

theorem throw
    (e : ε) :
    Safe M C t (Script.throw e : Script ρ β ε l α) :=
  fun _ _ => meets_throw fun _ _ _ => trivial

theorem ofExcept
    (r : Except ε α) :
    Safe M C t (Script.ofExcept r : Script ρ β ε l α) :=
  fun _ _ => meets_ofExcept fun _ _ _ => trivial

theorem bind
    (hx : Safe M C t x)
    (hf : ∀ a, Safe M C t (f a)) :
    Safe M C t (x >>= f) := by
  intro v s
  apply (hx v s).bind
  · exact fun a v' s' _ => hf a v' s'
  · exact fun _ _ _ _ => trivial

theorem attempt
    (hx : Safe M C t x) :
    Safe M C t (Script.attempt x) :=
  fun v s => meets_attempt (hx v s)

/- A request that keeps the contract in every world. -/
theorem call
    {r : ρ}
    {answer : β r → Except ε α}
    (h :
      ∀ {s c b s'}, C.Inv s → C.Admits t r c s →
        M.serve t r c s = some (b, s') → C.Keeps t s s') :
    Safe M C t
      (Script.call r answer : Script ρ β ε l α) := by
  intro v s
  apply meets_call
  intro s' _ hInv c b s'' hAdmits hServe
  exact ⟨h hInv hAdmits hServe, fun _ _ _ => trivial⟩

end Safe

end Concurrency

import S4Drive.Library.Execution

/-
  How programs may end while others work on the same world:
  before every request, and at the end, the others may do
  what `env` allows. A program that was started may also
  never end; what is said here is about runs that do.

  Main declarations:
    * `Prog.Ends`, `Script.Ends`
    * `Prog.ends_bind`, `Script.ends_bind`
    * `Keeping`, with its rules
    * `Prog.ends_of_exec`
-/

------------------------------------------------------------
-- Programs
------------------------------------------------------------

namespace Concurrency

variable {ρ : Type} {β : ρ → Type}
variable {σ τ κ ε l m α γ δ : Type}

/- The program may end with `a`, and leave the world so. -/
inductive Prog.Ends
    (M : Machine ρ β σ τ κ)
    (env : σ → σ → Prop)
    (t : τ) :
    Prog ρ β α → σ → α → σ → Prop where
  | done
      {a : α} {s s' : σ}
      (others : env s s') :
      Prog.Ends M env t (.done a) s a s'
  | ask
      {r : ρ} {k : β r → Prog ρ β α} {a : α}
      {c : κ} {b : β r} {s s₁ s₂ s' : σ}
      (others : env s s₁)
      (served : M.serve t r c s₁ = some (b, s₂))
      (rest : Prog.Ends M env t (k b) s₂ a s') :
      Prog.Ends M env t (.ask r k) s a s'

variable {M : Machine ρ β σ τ κ} {env : σ → σ → Prop}
variable {t : τ} {s s' : σ}
variable {p : Prog ρ β α}

/- A sequence ends when its second part does. -/
theorem Prog.ends_bind
    {f : α → Prog ρ β γ}
    {c : γ}
    (hRefl : ∀ s, env s s)
    (h : (p.bind f).Ends M env t s c s') :
    ∃ a s₁, p.Ends M env t s a s₁ ∧
      (f a).Ends M env t s₁ c s' := by
  induction p generalizing s with
  | done a => exact ⟨a, s, .done (hRefl s), h⟩
  | ask r k ih =>
      cases h with
      | ask others served rest =>
          rcases ih _ rest with ⟨a, s₁, hFirst, hRest⟩
          exact ⟨a, s₁, .ask others served hFirst, hRest⟩

variable {a : α}

/- A program that runs alone is one of its runs. -/
theorem Prog.ends_of_exec
    {pick : ρ → σ → κ}
    (hRefl : ∀ s, env s s)
    (h : p.exec M t pick s = some (a, s')) :
    p.Ends M env t s a s' := by
  induction p generalizing s with
  | done a' =>
      cases h
      exact .done (hRefl _)
  | ask r k ih =>
      simp only [Prog.exec] at h
      split at h
      · cases h
      · rename_i b s₁ hServe
        exact .ask (hRefl s) hServe (ih b h)

variable (M env t) in
/- From the local value `v` on, the script may end so. -/
def Script.Ends
    (x : Script ρ β ε l α)
    (v : l)
    (s : σ)
    (r : Except ε α)
    (v' : l)
    (s' : σ) : Prop :=
  (x v).Ends M env t s (r, v') s'

variable {v v' : l}

theorem Script.ends_pure
    {r : Except ε α}
    (h :
      (pure a : Script ρ β ε l α).Ends M env t v s r v' s') :
    r = .ok a ∧ v' = v := by
  cases h
  exact ⟨rfl, rfl⟩

theorem Script.ends_throw
    {e : ε} {r : Except ε α}
    (h :
      (Script.throw e : Script ρ β ε l α).Ends M env t v s r v'
        s') :
    r = .error e ∧ v' = v := by
  cases h
  exact ⟨rfl, rfl⟩

theorem Script.ends_modify
    {f : l → l} {r : Except ε Unit}
    (h :
      (Script.modify f : Script ρ β ε l Unit).Ends M env t v s r
        v' s') :
    r = .ok () ∧ v' = f v := by
  cases h
  exact ⟨rfl, rfl⟩

variable {r : Except ε γ}

/- Reading the local value is no step of its own. -/
theorem Script.ends_get_bind
    {f : l → Script ρ β ε l γ}
    (h : (Script.get >>= f).Ends M env t v s r v' s') :
    (f v).Ends M env t v s r v' s' := h

theorem Script.ends_ofExcept
    {r' r : Except ε α}
    (h :
      (Script.ofExcept r' : Script ρ β ε l α).Ends M env t v s r
        v' s') :
    r = r' ∧ v' = v := by
  cases r' with
  | ok a => exact Script.ends_pure h
  | error e => exact Script.ends_throw h

variable {x : Script ρ β ε l α} {f : α → Script ρ β ε l γ}

/- The second part is only run when the first succeeds. -/
theorem Script.ends_bind
    (hRefl : ∀ s, env s s)
    (h : (x >>= f).Ends M env t v s r v' s') :
    (∃ a v₁ s₁, x.Ends M env t v s (.ok a) v₁ s₁ ∧
      (f a).Ends M env t v₁ s₁ r v' s') ∨
    (∃ e s₁, x.Ends M env t v s (.error e) v' s₁ ∧
      r = .error e) := by
  rcases Prog.ends_bind hRefl h with
    ⟨⟨result, v₁⟩, s₁, hFirst, hRest⟩
  cases result with
  | ok a => exact .inl ⟨a, v₁, s₁, hFirst, hRest⟩
  | error e =>
      cases hRest
      exact .inr ⟨e, s₁, hFirst, rfl⟩

/- A failure is a value of an attempt. -/
theorem Script.ends_attempt
    {r : Except ε (Except ε α)}
    (hRefl : ∀ s, env s s)
    (h : (Script.attempt x).Ends M env t v s r v' s') :
    ∃ r' s₁, r = .ok r' ∧
      x.Ends M env t v s r' v' s₁ := by
  rcases Prog.ends_bind hRefl h with
    ⟨⟨result, v₁⟩, s₁, hFirst, hRest⟩
  cases hRest
  exact ⟨result, s₁, rfl, hFirst⟩

/- Run a script that has no local value. -/
def Script.lift
    (x : Script ρ β ε Unit α) : Script ρ β ε l α :=
  fun v => (x ()).bind fun r => .done (r.1, v)

------------------------------------------------------------
-- Others Who May Go On
------------------------------------------------------------

variable {s₁ : σ}

/- A run may end later when others go on at its end. -/
theorem Prog.Ends.later
    (hTrans :
      ∀ {s s₁ s₂}, env s s₁ → env s₁ s₂ → env s s₂)
    (h : p.Ends M env t s a s₁)
    (hOthers : env s₁ s') : p.Ends M env t s a s' := by
  induction h with
  | done others => exact .done (hTrans others hOthers)
  | ask others served _ ih => exact .ask others served (ih hOthers)

theorem Prog.Ends.sooner
    (hTrans :
      ∀ {s s₁ s₂}, env s s₁ → env s₁ s₂ → env s s₂)
    (hOthers : env s s₁)
    (h : p.Ends M env t s₁ a s') : p.Ends M env t s a s' := by
  cases h with
  | done others => exact .done (hTrans hOthers others)
  | ask others served rest =>
      exact .ask (hTrans hOthers others) served rest

/- Runs of two parts are a run of both. -/
theorem Prog.Ends.bind
    {f : α → Prog ρ β γ}
    {c : γ}
    (hTrans :
      ∀ {s s₁ s₂}, env s s₁ → env s₁ s₂ → env s s₂)
    (h : p.Ends M env t s a s₁)
    (hRest : (f a).Ends M env t s₁ c s') :
    (p.bind f).Ends M env t s c s' := by
  induction h with
  | done others => exact hRest.sooner hTrans others
  | ask others served _ ih => exact .ask others served (ih hRest)

theorem Script.ends_ofExcept_env
    {r' r : Except ε α}
    (h :
      (Script.ofExcept r' : Script ρ β ε l α).Ends M env t v s r
        v' s') :
    r = r' ∧ v' = v ∧ env s s' := by
  cases r' with
  | ok a =>
      rcases h with ⟨others⟩
      exact ⟨rfl, rfl, others⟩
  | error e =>
      rcases h with ⟨others⟩
      exact ⟨rfl, rfl, others⟩

/- A first part that fails may be the whole run. -/
theorem Script.ends_bind_env
    (hRefl : ∀ s, env s s)
    (hTrans :
      ∀ {s s₁ s₂}, env s s₁ → env s₁ s₂ → env s s₂)
    (h : (x >>= f).Ends M env t v s r v' s') :
    (∃ a v₁ s₁, x.Ends M env t v s (.ok a) v₁ s₁ ∧
      (f a).Ends M env t v₁ s₁ r v' s') ∨
    (∃ e, x.Ends M env t v s (.error e) v' s' ∧
      r = .error e) := by
  rcases Prog.ends_bind hRefl h with
    ⟨⟨result, v₁⟩, s₁, hFirst, hRest⟩
  cases result with
  | ok a => exact .inl ⟨a, v₁, s₁, hFirst, hRest⟩
  | error e =>
      rcases hRest with ⟨others⟩
      exact .inr ⟨e, hFirst.later hTrans others, rfl⟩

theorem Script.ends_attempt_env
    {r : Except ε (Except ε α)}
    (hRefl : ∀ s, env s s)
    (hTrans :
      ∀ {s s₁ s₂}, env s s₁ → env s₁ s₂ → env s s₂)
    (h : (Script.attempt x).Ends M env t v s r v' s') :
    ∃ r', r = .ok r' ∧ x.Ends M env t v s r' v' s' := by
  rcases Prog.ends_bind hRefl h with
    ⟨⟨result, v₁⟩, s₁, hFirst, hRest⟩
  rcases hRest with ⟨others⟩
  exact ⟨result, rfl, hFirst.later hTrans others⟩

/- Parts that succeed, when the whole does. -/
theorem Script.ends_bind_ok
    {c : γ}
    (hRefl : ∀ s, env s s)
    (h : (x >>= f).Ends M env t v s (.ok c) v' s') :
    ∃ a v₁ s₁, x.Ends M env t v s (.ok a) v₁ s₁ ∧
      (f a).Ends M env t v₁ s₁ (.ok c) v' s' := by
  rcases Script.ends_bind hRefl h with
    hParts | ⟨e, s₁, _, hNot⟩
  · exact hParts
  · cases hNot

/- After an attempt the script goes on with its result. -/
theorem Script.ends_attempt_bind
    {f : Except ε α → Script ρ β ε l γ}
    (hRefl : ∀ s, env s s)
    (hTrans :
      ∀ {s s₁ s₂}, env s s₁ → env s₁ s₂ → env s s₂)
    (h : (Script.attempt x >>= f).Ends M env t v s r v' s') :
    ∃ r' v₁ s₁, x.Ends M env t v s r' v₁ s₁ ∧
      (f r').Ends M env t v₁ s₁ r v' s' := by
  rcases Script.ends_bind hRefl h with
    ⟨result, v₁, s₁, hFirst, hRest⟩ | ⟨e, s₁, hFirst, _⟩
  · rcases Script.ends_attempt_env hRefl hTrans hFirst with
      ⟨r', hSame, hFirst⟩
    cases hSame
    exact ⟨result, v₁, s₁, hFirst, hRest⟩
  · rcases Script.ends_attempt hRefl hFirst with ⟨_, _, hSame, _⟩
    cases hSame

/- Reading the local value is no step of a run. -/
theorem Script.Ends.get_bind
    {f : l → Script ρ β ε l γ}
    (h : (f v).Ends M env t v s r v' s') :
    (Script.get >>= f).Ends M env t v s r v' s' := h

theorem Script.Ends.bind
    {v₁ : l}
    (hTrans :
      ∀ {s s₁ s₂}, env s s₁ → env s₁ s₂ → env s s₂)
    (h : x.Ends M env t v s (.ok a) v₁ s₁)
    (hRest : (f a).Ends M env t v₁ s₁ r v' s') :
    (x >>= f).Ends M env t v s r v' s' :=
  Prog.Ends.bind hTrans h hRest

theorem Script.Ends.attempt
    {r : Except ε α}
    (hRefl : ∀ s, env s s)
    (hTrans :
      ∀ {s s₁ s₂}, env s s₁ → env s₁ s₂ → env s s₂)
    (h : x.Ends M env t v s r v' s') :
    (Script.attempt x).Ends M env t v s (.ok r) v' s' :=
  Prog.Ends.bind hTrans h (.done (hRefl s'))

variable (M env t) in
/- A part of the local value is the same afterwards. -/
def Keeping
    (part : l → δ)
    (x : Script ρ β ε l α) : Prop :=
  ∀ v s r v' s', x.Ends M env t v s r v' s' → part v' = part v

variable {part : l → δ}

theorem keeping_pure
    (a : α) :
    Keeping M env t part (pure a : Script ρ β ε l α) :=
  fun _ _ _ _ _ h => congrArg part (Script.ends_pure h).2

theorem keeping_throw
    (e : ε) :
    Keeping M env t part
      (Script.throw e : Script ρ β ε l α) :=
  fun _ _ _ _ _ h => congrArg part (Script.ends_throw h).2

theorem keeping_ofExcept
    (r : Except ε α) :
    Keeping M env t part
      (Script.ofExcept r : Script ρ β ε l α) := by
  cases r with
  | ok a => exact keeping_pure a
  | error e => exact keeping_throw e

theorem keeping_modify
    {f : l → l}
    (h : ∀ v, part (f v) = part v) :
    Keeping M env t part
      (Script.modify f : Script ρ β ε l Unit) := by
  intro v s r v' s' hEnds
  rw [(Script.ends_modify hEnds).2]
  exact h v

theorem keeping_get_bind
    {f : l → Script ρ β ε l γ}
    (h : ∀ v, Keeping M env t part (f v)) :
    Keeping M env t part (Script.get >>= f) :=
  fun v s r v' s' hEnds => h v v s r v' s' hEnds

theorem keeping_lift
    (hRefl : ∀ s, env s s)
    (x : Script ρ β ε Unit α) :
    Keeping M env t part (Script.lift x : Script ρ β ε l α) := by
  intro v s r v' s' hEnds
  rcases Prog.ends_bind hRefl hEnds with
    ⟨result, s₁, hFirst, hRest⟩
  cases hRest
  rfl

theorem Keeping.attempt
    (hRefl : ∀ s, env s s)
    (h : Keeping M env t part x) :
    Keeping M env t part (Script.attempt x) := by
  intro v s r v' s' hEnds
  rcases Script.ends_attempt hRefl hEnds with
    ⟨r', s₁, _, hFirst⟩
  exact h v s r' v' s₁ hFirst

theorem Keeping.bind
    (hRefl : ∀ s, env s s)
    (hx : Keeping M env t part x)
    (hf : ∀ a, Keeping M env t part (f a)) :
    Keeping M env t part (x >>= f) := by
  intro v s r v' s' hEnds
  rcases Script.ends_bind hRefl hEnds with
    ⟨a, v₁, s₁, hFirst, hRest⟩ | ⟨e, s₁, hFirst, _⟩
  · exact (hf a v₁ s₁ r v' s' hRest).trans
      (hx v s _ v₁ s₁ hFirst)
  · exact hx v s _ v' s₁ hFirst

end Concurrency

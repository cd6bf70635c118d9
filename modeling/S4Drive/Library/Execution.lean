import S4Drive.Library.Script

/-
  Programs that run alone: nothing else touches the world,
  and every choice of the environment is picked. Here a
  script can be shown to come to an end without a failure,
  which a weakest precondition does not say.

  Main declarations:
    * `Prog.exec`, `exec_bind`
    * `Yields`, with its rules
    * `Picks`, `wp_exec`, `Gives.yields`
-/

------------------------------------------------------------
-- Executions
------------------------------------------------------------

namespace Concurrency

variable {ρ : Type} {β : ρ → Type}
variable {σ τ κ ε l α γ : Type}

/- `none` where a picked choice is not possible. -/
def Prog.exec
    (M : Machine ρ β σ τ κ)
    (t : τ)
    (pick : ρ → σ → κ) : Prog ρ β α → σ → Option (α × σ)
  | .done a, s => some (a, s)
  | .ask r k, s =>
      match M.serve t r (pick r s) s with
      | none => none
      | some (b, s') => (k b).exec M t pick s'

variable {M : Machine ρ β σ τ κ} {C : Contract ρ κ σ τ}
variable {t : τ} {pick : ρ → σ → κ}
variable {s s' : σ} {v v' : l}

theorem exec_bind
    (p : Prog ρ β α)
    (k : α → Prog ρ β γ)
    (s : σ) :
    (p.bind k).exec M t pick s =
      match p.exec M t pick s with
      | none => none
      | some (a, s') => (k a).exec M t pick s' := by
  induction p generalizing s with
  | done a => rfl
  | ask r next ih =>
      simp only [Prog.bind, Prog.exec]
      cases M.serve t r (pick r s) s with
      | none => rfl
      | some served => exact ih served.1 served.2

variable (M C t pick) in
/- In all worlds of a run, the contract admits the picks. -/
structure Picks (J : σ → Prop) : Prop where
  step :
    ∀ {r w b w'}, J w →
      M.serve t r (pick r w) w = some (b, w') → J w'
  admits : ∀ r {w}, J w → C.Admits t r (pick r w) w

/- A tree that runs alone ends as its `wp` says. -/
theorem wp_exec
    {J : σ → Prop}
    {p : Prog ρ β α}
    {Q : α → σ → Prop}
    {a : α}
    (hPicks : Picks M C t pick J)
    (hp : wp M C t p Q s)
    (hInv : C.Inv s)
    (hStart : J s)
    (hExec : p.exec M t pick s = some (a, s')) :
    Q a s' ∧ J s' := by
  induction p generalizing s with
  | done a' =>
      cases hExec
      exact ⟨hp _ (C.rely_refl t _) hInv, hStart⟩
  | ask r k ih =>
      simp only [Prog.exec] at hExec
      split at hExec
      · cases hExec
      · rename_i b s₁ hServe
        have hAdmits := hPicks.admits r hStart
        have hStep :=
          hp _ (C.rely_refl t _) hInv _ b s₁ hAdmits hServe
        exact ih b hStep.2 hStep.1.1
          (hPicks.step hStart hServe) hExec

variable (M t pick) in
/-
  From the local value `v` and the world `s` on, the script
  runs to an end alone and does not fail, and what it
  returns satisfies `Q`.
-/
def Yields
    (x : Script ρ β ε l α)
    (v : l)
    (Q : α → l → σ → Prop)
    (s : σ) : Prop :=
  ∃ a v' s', (x v).exec M t pick s = some ((.ok a, v'), s') ∧
    Q a v' s'

variable {x : Script ρ β ε l α}

theorem Yields.mono
    {Q Q' : α → l → σ → Prop}
    (hx : Yields M t pick x v Q s)
    (hQ : ∀ a v' s', Q a v' s' → Q' a v' s') :
    Yields M t pick x v Q' s := by
  rcases hx with ⟨a, v', s', hExec, h⟩
  exact ⟨a, v', s', hExec, hQ a v' s' h⟩

variable {Q : α → l → σ → Prop}

theorem yields_pure
    {a : α}
    (h : Q a v s) :
    Yields M t pick (pure a : Script ρ β ε l α) v Q s :=
  ⟨a, v, s, rfl, h⟩

theorem yields_ofExcept
    {r : Except ε α} {a : α}
    (hOk : r = .ok a)
    (h : Q a v s) :
    Yields M t pick
      (Script.ofExcept r : Script ρ β ε l α) v Q s := by
  rw [hOk]
  exact yields_pure h

theorem Yields.bind
    {f : α → Script ρ β ε l γ}
    {P : α → l → σ → Prop}
    {Q : γ → l → σ → Prop}
    (hx : Yields M t pick x v P s)
    (hf :
      ∀ a v' s', P a v' s' →
        Yields M t pick (f a) v' Q s') :
    Yields M t pick (x >>= f) v Q s := by
  rcases hx with ⟨a, v', s', hExec, h⟩
  rcases hf a v' s' h with ⟨c, v'', s'', hRest, hQ⟩
  refine ⟨c, v'', s'', ?_, hQ⟩
  refine (exec_bind (x v) _ s).trans ?_
  rw [hExec]
  exact hRest

theorem Yields.attempt
    (hx : Yields M t pick x v Q s) :
    Yields M t pick (Script.attempt x) v
      (fun r v' s' => ∃ a, r = .ok a ∧ Q a v' s') s := by
  rcases hx with ⟨a, v', s', hExec, h⟩
  refine ⟨.ok a, v', s', ?_, a, rfl, h⟩
  refine (exec_bind (x v) _ s).trans ?_
  rw [hExec]
  rfl

theorem yields_call
    {r : ρ}
    {answer : β r → Except ε α}
    {b : β r} {a : α}
    (hServe : M.serve t r (pick r s) s = some (b, s'))
    (hAnswer : answer b = .ok a)
    (h : Q a v s') :
    Yields M t pick
      (Script.call r answer : Script ρ β ε l α) v Q s := by
  refine ⟨a, v, s', ?_, h⟩
  simp only [Script.call, Prog.exec, hServe, hAnswer]

/- What a script that runs alone returns. -/
theorem Gives.yields
    {J : σ → Prop}
    {P Q : α → l → σ → Prop}
    (hx : Gives M C t x v P s)
    (hPicks : Picks M C t pick J)
    (hInv : C.Inv s)
    (hStart : J s)
    (hRun : Yields M t pick x v Q s) :
    Yields M t pick x v
      (fun a v' s' => Q a v' s' ∧ P a v' s' ∧ J s') s := by
  rcases hRun with ⟨a, v', s', hExec, hQ⟩
  have hEnd := wp_exec hPicks hx hInv hStart hExec
  exact ⟨a, v', s', hExec, hQ, hEnd.1 a rfl, hEnd.2⟩

end Concurrency

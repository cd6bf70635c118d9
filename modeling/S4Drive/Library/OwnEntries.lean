import S4Drive.Library.Script
import S4Drive.Library.SharedFolder

/-
  Scripts of a process that works in a shared folder. As
  long as the others leave its entries alone, a script is
  about these entries only: `Leads` speaks of what they are
  before and after, whatever the others do meanwhile.

  Main declarations:
    * `Undisturbed`
    * `Leads`, with its rules
-/

------------------------------------------------------------
-- Own Entries
------------------------------------------------------------

namespace Concurrency

open FileTree

variable {ρ : Type} {β : ρ → Type}
variable {σ τ κ ε l α γ ν body : Type}
variable [DecidableEq ν]
variable (M : Machine ρ β σ τ κ) (C : Contract ρ κ σ τ)

/-
  The others keep the own entries of a thread in the folder
  `out` and whatever `K` says of the world.
-/
def Undisturbed
    (t : τ)
    (out : σ → Shared ν body)
    (K : σ → Prop) : Prop :=
  ∀ s s', C.Rely t s s' →
    (∀ mine, Overlay mine (out s) → Overlay mine (out s')) ∧
      (K s → K s')

/- From the own entries `mine` on, the script leads to `R`. -/
def Leads
    (t : τ)
    (out : σ → Shared ν body)
    (K : σ → Prop)
    (x : Script ρ β ε l α)
    (mine : Files ν body)
    (R : Except ε α → Files ν body → Prop) : Prop :=
  ∀ v s, Overlay mine (out s) → K s →
    Meets M C t x v
      (fun r _ s' =>
        ∃ mine', Overlay mine' (out s') ∧ K s' ∧ R r mine') s

variable {M C}
variable {t : τ} {out : σ → Shared ν body} {K : σ → Prop}
variable {mine : Files ν body}

theorem leads_pure
    (hQuiet : Undisturbed C t out K)
    {a : α}
    {R : Except ε α → Files ν body → Prop}
    (h : R (.ok a) mine) :
    Leads M C t out K
      (pure a : Script ρ β ε l α) mine R := by
  intro v s hMine hK
  apply meets_pure
  intro s' hRely _
  have hLater := hQuiet s s' hRely
  exact ⟨mine, hLater.1 mine hMine, hLater.2 hK, h⟩

theorem leads_ofExcept
    (hQuiet : Undisturbed C t out K)
    {r : Except ε α}
    {R : Except ε α → Files ν body → Prop}
    (h : R r mine) :
    Leads M C t out K
      (Script.ofExcept r : Script ρ β ε l α) mine R := by
  intro v s hMine hK
  apply meets_ofExcept
  intro s' hRely _
  have hLater := hQuiet s s' hRely
  exact ⟨mine, hLater.1 mine hMine, hLater.2 hK, h⟩

theorem leads_throw
    (hQuiet : Undisturbed C t out K)
    {e : ε}
    {R : Except ε α → Files ν body → Prop}
    (h : R (.error e) mine) :
    Leads M C t out K
      (Script.throw e : Script ρ β ε l α) mine R :=
  leads_ofExcept hQuiet (r := .error e) h

variable {x : Script ρ β ε l α}

theorem Leads.mono
    {R R' : Except ε α → Files ν body → Prop}
    (h : Leads M C t out K x mine R)
    (hR : ∀ r mine', R r mine' → R' r mine') :
    Leads M C t out K x mine R' := by
  intro v s hMine hK
  apply (h v s hMine hK).mono
  rintro r v' s' ⟨mine', hMine', hK', hR'⟩
  exact ⟨mine', hMine', hK', hR r mine' hR'⟩

variable {P : Except ε α → Files ν body → Prop}
variable {R : Except ε γ → Files ν body → Prop}

/- Sequencing; a failure of the first part is the result. -/
theorem Leads.bind
    {f : α → Script ρ β ε l γ}
    (h : Leads M C t out K x mine P)
    (hOk :
      ∀ a mine', P (.ok a) mine' →
        Leads M C t out K (f a) mine' R)
    (hError :
      ∀ e mine', P (.error e) mine' → R (.error e) mine') :
    Leads M C t out K (x >>= f) mine R := by
  intro v s hMine hK
  apply (h v s hMine hK).bind
  · rintro a v' s' ⟨mine', hMine', hK', hP⟩
    exact hOk a mine' hP v' s' hMine' hK'
  · rintro e v' s' ⟨mine', hMine', hK', hP⟩
    exact ⟨mine', hMine', hK', hError e mine' hP⟩

theorem Leads.attempt
    {R : Except ε (Except ε α) → Files ν body → Prop}
    (h :
      Leads M C t out K x mine fun r mine' => R (.ok r) mine') :
    Leads M C t out K (Script.attempt x) mine R :=
  fun v s hMine hK => meets_attempt (h v s hMine hK)

/- Go on from the result of a script, failed or not. -/
theorem Leads.attempt_bind
    {f : Except ε α → Script ρ β ε l γ}
    (h : Leads M C t out K x mine P)
    (hNext :
      ∀ r mine', P r mine' →
        Leads M C t out K (f r) mine' R) :
    Leads M C t out K (Script.attempt x >>= f) mine R := by
  have hAttempt :
      Leads M C t out K (Script.attempt x) mine fun r mine' =>
        match r with
        | .ok r => P r mine'
        | .error _ => False :=
    Leads.attempt h
  apply hAttempt.bind
  · exact fun r mine' hP => hNext r mine' hP
  · exact fun _ _ hNever => hNever.elim

/- A single request. -/
theorem leads_call
    (hQuiet : Undisturbed C t out K)
    {r : ρ}
    {answer : β r → Except ε α}
    {R : Except ε α → Files ν body → Prop}
    (h :
      ∀ s c b s', Overlay mine (out s) → K s → C.Inv s →
        C.Admits t r c s → M.serve t r c s = some (b, s') →
        C.Keeps t s s' ∧
          ∃ mine', Overlay mine' (out s') ∧ K s' ∧
            R (answer b) mine') :
    Leads M C t out K
      (Script.call r answer : Script ρ β ε l α) mine R := by
  intro v s hMine hK
  apply meets_call
  intro s' hRely hInv c b s'' hAdmits hServe
  have hLater := hQuiet s s' hRely
  rcases h s' c b s'' (hLater.1 mine hMine) (hLater.2 hK) hInv
      hAdmits hServe with ⟨hKeeps, mine', hMine', hK', hR⟩
  refine ⟨hKeeps, fun s₃ hRely' _ => ?_⟩
  have hLast := hQuiet s'' s₃ hRely'
  exact ⟨mine', hLast.1 mine' hMine', hLast.2 hK', hR⟩

end Concurrency

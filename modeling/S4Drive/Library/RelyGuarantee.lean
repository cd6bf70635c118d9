import S4Drive.Library.Prog

/-
  Rely-guarantee reasoning about request trees.

  A machine answers the requests of many threads on one
  shared world. A contract fixes an invariant of the world,
  what each thread may rely on while the others run, and
  which requests, with which choices of the environment, a
  run may contain. `wp` says that a tree
  keeps the contract from a world on and that its result
  satisfies a postcondition, whatever the other threads do
  between two of its requests.

  Main declarations:
    * `Machine`
    * `Contract`
    * `wp`
    * `wp_mono`, `wp_stable`, `wp_with_inv`, `wp_relates`
-/

------------------------------------------------------------
-- Machines and Contracts
------------------------------------------------------------

namespace Concurrency

variable {ρ : Type} {β : ρ → Type}
variable {σ τ κ : Type}

/-
  How a shared world answers the requests of the threads
  `τ`. The choice in `κ` resolves everything the environment
  decides; `none` means that the choice is not possible.
-/
structure Machine
    (ρ : Type)
    (β : ρ → Type)
    (σ τ κ : Type) where
  serve :
    τ → (r : ρ) → κ → σ → Option (β r × σ)

/-
  What the threads of a machine agree on. `Rely t` relates
  two worlds when the other threads may turn the first into
  the second behind the back of `t`.
-/
structure Contract
    (ρ κ σ τ : Type) where
  Inv : σ → Prop
  Rely : τ → σ → σ → Prop
  Admits : τ → ρ → κ → σ → Prop
  rely_refl : ∀ t s, Rely t s s
  rely_trans :
    ∀ {t s₁ s₂ s₃},
      Rely t s₁ s₂ → Rely t s₂ s₃ → Rely t s₁ s₃

namespace Contract

/- The same contract for other requests. -/
def limit
    (C : Contract ρ κ σ τ)
    (Admits : τ → ρ → κ → σ → Prop) : Contract ρ κ σ τ :=
  { C with Admits := Admits }

/- One step of thread `t` keeps the contract. -/
def Keeps
    (C : Contract ρ κ σ τ)
    (t : τ)
    (s s' : σ) : Prop :=
  C.Inv s' ∧ ∀ u, u ≠ t → C.Rely u s s'

end Contract

variable (M : Machine ρ β σ τ κ) (C : Contract ρ κ σ τ)
variable {α γ : Type}

/-
  `wp M C t p Q s`: from the world `s` on, thread `t` may
  run `p` and ends with a result satisfying `Q`.
-/
def wp
    (t : τ)
    (p : Prog ρ β α)
    (Q : α → σ → Prop)
    (s : σ) : Prop :=
  match p with
  | .done a =>
      ∀ s', C.Rely t s s' → C.Inv s' → Q a s'
  | .ask r k =>
      ∀ s', C.Rely t s s' → C.Inv s' →
        ∀ c b s'', C.Admits t r c s' →
          M.serve t r c s' = some (b, s'') →
          C.Keeps t s' s'' ∧ wp t (k b) Q s''

variable {M C}
variable {t : τ} {s s' : σ}
variable {Q : α → σ → Prop}

theorem wp_done
    {a : α}
    (h : ∀ s', C.Rely t s s' → C.Inv s' → Q a s') :
    wp M C t (.done a) Q s := h

variable {p : Prog ρ β α}

/- A weaker postcondition holds as well. -/
theorem wp_mono
    {Q Q' : α → σ → Prop}
    (hp : wp M C t p Q s)
    (hQ : ∀ a s', Q a s' → Q' a s') :
    wp M C t p Q' s := by
  induction p generalizing s with
  | done a =>
      intro s' hRely hInv
      exact hQ a s' (hp s' hRely hInv)
  | ask r k ih =>
      intro s' hRely hInv c b s'' hAdm hServe
      rcases
        hp s' hRely hInv c b s'' hAdm hServe with
        ⟨hKeeps, hRest⟩
      exact ⟨hKeeps, ih b hRest⟩

/- The other threads cannot invalidate a `wp`. -/
theorem wp_stable
    (hp : wp M C t p Q s)
    (hRely : C.Rely t s s') :
    wp M C t p Q s' := by
  cases p with
  | done a =>
      intro s'' hRely' hInv
      exact hp s'' (C.rely_trans hRely hRely') hInv
  | ask r k =>
      intro s'' hRely' hInv
      exact hp s'' (C.rely_trans hRely hRely') hInv

/- The invariant may be assumed where a tree starts. -/
theorem wp_of_inv
    (h :
      ∀ s', C.Rely t s s' → C.Inv s' →
        wp M C t p Q s') :
    wp M C t p Q s := by
  cases p with
  | done a =>
      intro s' hRely hInv
      exact h s' hRely hInv s' (C.rely_refl t s') hInv
  | ask r k =>
      intro s' hRely hInv
      exact h s' hRely hInv s' (C.rely_refl t s') hInv

/- The invariant holds where a tree ends. -/
theorem wp_with_inv
    (hp : wp M C t p Q s) :
    wp M C t p (fun a s' => Q a s' ∧ C.Inv s') s := by
  induction p generalizing s with
  | done a =>
      intro s' hRely hInv
      exact ⟨hp s' hRely hInv, hInv⟩
  | ask r k ih =>
      intro s' hRely hInv c b s'' hAdm hServe
      rcases
        hp s' hRely hInv c b s'' hAdm hServe with
        ⟨hKeeps, hRest⟩
      exact ⟨hKeeps, ih b hRest⟩

/- Two postconditions of one tree hold together. -/
theorem wp_and
    {P Q : α → σ → Prop}
    (hp : wp M C t p P s)
    (hq : wp M C t p Q s) :
    wp M C t p (fun a s' => P a s' ∧ Q a s') s := by
  induction p generalizing s with
  | done a =>
      intro s' hRely hInv
      exact ⟨hp s' hRely hInv, hq s' hRely hInv⟩
  | ask r k ih =>
      intro s' hRely hInv c b s'' hAdm hServe
      rcases
        hp s' hRely hInv c b s'' hAdm hServe with
        ⟨hKeeps, hRest⟩
      exact ⟨hKeeps, ih b hRest
        (hq s' hRely hInv c b s'' hAdm hServe).2⟩

/-
  A relation that holds of what the others may do, and so of
  the steps of the thread itself, holds of all of the tree.
-/
theorem wp_relates
    {R : σ → σ → Prop}
    {u : τ} {s₀ : σ}
    (hTrans : ∀ {s₁ s₂ s₃}, R s₁ s₂ → R s₂ s₃ → R s₁ s₃)
    (hRely : ∀ u s s', C.Rely u s s' → R s s')
    (hOther : u ≠ t)
    (hStart : R s₀ s)
    (hp : wp M C t p Q s) :
    wp M C t p (fun a s' => Q a s' ∧ R s₀ s') s := by
  induction p generalizing s with
  | done a =>
      intro s' hLater hInv
      exact ⟨hp s' hLater hInv,
        hTrans hStart (hRely t s s' hLater)⟩
  | ask r k ih =>
      intro s' hLater hInv c b s'' hAdm hServe
      rcases
        hp s' hLater hInv c b s'' hAdm hServe with
        ⟨hKeeps, hRest⟩
      have hBefore := hTrans hStart (hRely t s s' hLater)
      have hStep := hRely u s' s'' (hKeeps.2 u hOther)
      exact ⟨hKeeps, ih b (hTrans hBefore hStep) hRest⟩

end Concurrency

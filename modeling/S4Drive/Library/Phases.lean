import Mathlib.Logic.Function.Basic

/-
  Systems of threads over shared cells. A thread is at a
  phase of its code, and an action of it is atomic: it reads
  and writes cells and takes the thread to another phase. An
  environment changes the cells as well.

  The main result is about a latch, which is a flag that a
  thread sets when it was not set, and later clears. At most
  one thread is then in the part of its code in between.

  Main declarations:
    * `PhaseSystem`, `PhaseSystem.step`
    * `PhaseSystem.Run`, `PhaseSystem.execIf`
    * `PhaseSystem.Run.without_threads`
    * `Latch`, `Latch.Held`, `Latch.Held.step`
-/

------------------------------------------------------------
-- Systems
------------------------------------------------------------

namespace Concurrency

variable {σ τ φ α ε : Type}

/-
  What a thread at a phase does to the cells, by the choice
  `α` that is made for it, and what the environment does.
-/
structure PhaseSystem (σ φ α ε : Type) where
  act : α → φ → σ → Option (φ × σ)
  env : ε → σ → Option σ

/- The next action of a thread, or one of the environment. -/
inductive PhaseEvent (τ α ε : Type) where
  | act (t : τ) (a : α)
  | env (e : ε)
deriving DecidableEq

structure PhaseState (σ τ φ : Type) where
  cells : σ
  phases : τ → φ

namespace PhaseSystem

variable [DecidableEq τ]
variable (S : PhaseSystem σ φ α ε)

def step
    (s : PhaseState σ τ φ) :
    PhaseEvent τ α ε → Option (PhaseState σ τ φ)
  | .act t a =>
      match S.act a (s.phases t) s.cells with
      | none => none
      | some (p, w) =>
          some ⟨w, Function.update s.phases t p⟩
  | .env e =>
      match S.env e s.cells with
      | none => none
      | some w => some ⟨w, s.phases⟩

/-
  The states that a run reaches, with its events, the newest
  first. Every event meets a condition where it happens.
-/
inductive Run
    (Meets : PhaseState σ τ φ → PhaseEvent τ α ε → Prop)
    (start : PhaseState σ τ φ) :
    List (PhaseEvent τ α ε) → PhaseState σ τ φ → Prop where
  | start : Run Meets start [] start
  | step
      {events : List (PhaseEvent τ α ε)}
      {s s' : PhaseState σ τ φ}
      {e : PhaseEvent τ α ε}
      (run : Run Meets start events s)
      (meets : Meets s e)
      (next : S.step s e = some s') :
      Run Meets start (e :: events) s'

/- The events of a list, while they meet the condition. -/
def execIf
    (Meets : PhaseState σ τ φ → PhaseEvent τ α ε → Prop)
    [∀ s e, Decidable (Meets s e)]
    (s : PhaseState σ τ φ) :
    List (PhaseEvent τ α ε) → Option (PhaseState σ τ φ)
  | [] => some s
  | e :: rest =>
      if Meets s e then
        match S.step s e with
        | none => none
        | some s' => execIf Meets s' rest
      else
        none

variable {S}
variable {Meets : PhaseState σ τ φ → PhaseEvent τ α ε → Prop}
variable {start s s' : PhaseState σ τ φ}
variable {events : List (PhaseEvent τ α ε)}

theorem step_act
    {t : τ} {a : α}
    (h : S.step s (.act t a) = some s') :
    ∃ p w, S.act a (s.phases t) s.cells = some (p, w) ∧
      s' = ⟨w, Function.update s.phases t p⟩ := by
  rw [step] at h
  split at h
  · cases h
  · rename_i p w hAct
    cases h
    exact ⟨p, w, hAct, rfl⟩

theorem step_env
    {e : ε}
    (h : S.step s (.env e) = some s') :
    ∃ w, S.env e s.cells = some w ∧ s' = ⟨w, s.phases⟩ := by
  rw [step] at h
  split at h
  · cases h
  · rename_i w hEnv
    cases h
    exact ⟨w, hEnv, rfl⟩

/- What every step keeps holds in every state of a run. -/
theorem Run.keeps
    {P : PhaseState σ τ φ → Prop}
    (hStart : P start)
    (hStep : ∀ {s s' e},
      Meets s e → S.step s e = some s' → P s → P s')
    (run : S.Run Meets start events s) : P s := by
  induction run with
  | start => exact hStart
  | step _ meets next ih => exact hStep meets next ih

theorem Run.of_execIf
    [∀ s e, Decidable (Meets s e)]
    {before rest : List (PhaseEvent τ α ε)}
    (run : S.Run Meets start before s)
    (h : S.execIf Meets s rest = some s') :
    S.Run Meets start (rest.reverse ++ before) s' := by
  induction rest generalizing s before with
  | nil =>
      cases h
      exact run
  | cons e rest ih =>
      rw [execIf] at h
      split at h
      · rename_i meets
        split at h
        · cases h
        · rename_i s₁ next
          have hRun := ih (.step run meets next) h
          simpa using hRun
      · cases h

/- A list of events reaches a state that passes a test. -/
theorem Run.exists_of_execIf
    [∀ s e, Decidable (Meets s e)]
    {test : PhaseState σ τ φ → Bool}
    (h : (S.execIf Meets start events).any test = true) :
    ∃ s, S.Run Meets start events.reverse s ∧
      test s = true := by
  cases hExec : S.execIf Meets start events with
  | none => simp [hExec] at h
  | some s =>
      rw [hExec] at h
      have hRun := Run.of_execIf (Run.start) hExec
      exact ⟨s, by simpa using hRun, h⟩

/- A list of events leads to one state at most. -/
theorem Run.execIf_eq
    (run : S.Run Meets start events s)
    (rest : List (PhaseEvent τ α ε)) :
    S.execIf (fun _ _ => True) start (events.reverse ++ rest) =
      S.execIf (fun _ _ => True) s rest := by
  induction run generalizing rest with
  | start => rfl
  | @step events s s' e run meets next ih =>
      rw [List.reverse_cons, List.append_assoc, ih]
      simp [PhaseSystem.execIf, next]

/- The events of the environment alone. -/
def envOnly
    (events : List (PhaseEvent τ α ε)) :
    List (PhaseEvent τ α ε) :=
  events.filter fun
    | .act _ _ => false
    | .env _ => true

/-
  What the environment would have done without the threads,
  as long as they are not far off: their steps keep what
  relates the two, and those of the environment carry over.
-/
theorem Run.without_threads
    {R : σ → σ → Prop}
    {Off : σ → Prop}
    (hStart : R start.cells start.cells)
    (hOff : ∀ {s s' : PhaseState σ τ φ} {e},
      S.step s e = some s' → Off s.cells → Off s'.cells)
    (hAct : ∀ {a p w p' w' w₀}, S.act a p w = some (p', w') →
      R w w₀ → Off w' ∨ R w' w₀)
    (hEnv : ∀ {e w w' w₀}, S.env e w = some w' → R w w₀ →
      Off w' ∨ ∃ w₁, S.env e w₀ = some w₁ ∧ R w' w₁)
    (run : S.Run Meets start events s) :
    Off s.cells ∨
      ∃ w₀, S.Run (fun _ _ => True) start
        (envOnly events) ⟨w₀, start.phases⟩ ∧ R s.cells w₀ := by
  induction run with
  | start => exact .inr ⟨start.cells, .start, hStart⟩
  | @step events s s' e run meets next ih =>
      rcases ih with hAlready | ⟨w₀, run₀, hRelated⟩
      · exact .inl (hOff next hAlready)
      · cases e with
        | act t a =>
            rcases step_act next with ⟨p, w, hActs, rfl⟩
            rcases hAct hActs hRelated with hNow | hRelated
            · exact .inl hNow
            · exact .inr ⟨w₀, run₀, hRelated⟩
        | env e =>
            rcases step_env next with ⟨w, hServe, rfl⟩
            rcases hEnv hServe hRelated with
              hNow | ⟨w₁, hServe₀, hRelated₁⟩
            · exact .inl hNow
            · refine .inr ⟨w₁, .step run₀ trivial ?_, hRelated₁⟩
              simp [PhaseSystem.step, hServe₀]

end PhaseSystem

namespace PhaseState

variable [DecidableEq τ]
variable {P : φ → Prop} {p : φ} {t : τ} {phases : τ → φ}

/- A thread that is where `P` holds, after one has moved. -/
theorem exists_update
    (h : ∃ u, P (phases u))
    (hMoved : P (phases t) → P p) :
    ∃ u, P (Function.update phases t p u) := by
  rcases h with ⟨u, hu⟩
  by_cases hut : u = t
  · subst hut
    exact ⟨u, by simpa using hMoved hu⟩
  · exact ⟨u, by simpa [hut] using hu⟩

theorem exists_moved (h : P p) :
    ∃ u, P (Function.update phases t p u) :=
  ⟨t, by simpa using h⟩

/- All the threads are where `P` holds, after one moved. -/
theorem forall_update
    {P : τ → φ → Prop}
    (h : ∀ u, u ≠ t → P u (phases u))
    (hMoved : P t p) :
    ∀ u, P u (Function.update phases t p u) := by
  intro u
  by_cases hut : u = t
  · subst hut
    simpa using hMoved
  · simpa [hut] using h u hut

end PhaseState

/-
  A flag, and the phases of a thread that has set it: only a
  thread that found it clear gets there, and one that leaves
  clears it.
-/
structure Latch (S : PhaseSystem σ φ α ε) where
  flag : σ → Bool
  owns : φ → Bool
  act :
    ∀ {a p w p' w'}, S.act a p w = some (p', w') →
      (owns p' = owns p ∧ flag w' = flag w) ∨
      (flag w = false ∧ owns p' = true ∧ flag w' = true) ∨
      (owns p = true ∧ owns p' = false ∧ flag w' = false)
  env : ∀ {e w w'}, S.env e w = some w' → flag w' = flag w

namespace Latch

variable [DecidableEq τ]
variable {S : PhaseSystem σ φ α ε} (L : Latch S)
variable {s s' start : PhaseState σ τ φ}
variable {e : PhaseEvent τ α ε}
variable {events : List (PhaseEvent τ α ε)}
variable {Meets : PhaseState σ τ φ → PhaseEvent τ α ε → Prop}

/- The flag is set for one thread, if it is set at all. -/
structure Held (s : PhaseState σ τ φ) : Prop where
  set_iff :
    L.flag s.cells = true ↔ ∃ t, L.owns (s.phases t) = true
  one : ∀ t u, L.owns (s.phases t) = true →
    L.owns (s.phases u) = true → t = u

variable {L}

omit [DecidableEq τ] in
theorem Held.set {t : τ} (h : L.Held s)
    (ht : L.owns (s.phases t) = true) :
    L.flag s.cells = true :=
  h.set_iff.mpr ⟨t, ht⟩

omit [DecidableEq τ] in
theorem Held.free {t : τ} (h : L.Held s)
    (hFlag : L.flag s.cells = false) :
    L.owns (s.phases t) = false := by
  apply Bool.eq_false_iff.mpr
  intro ht
  have hSet := h.set ht
  simp [hFlag] at hSet

omit [DecidableEq τ] in
/- The others are outside while one thread is inside. -/
theorem Held.alone {t u : τ} (h : L.Held s)
    (ht : L.owns (s.phases t) = true)
    (hut : u ≠ t) : L.owns (s.phases u) = false := by
  apply Bool.eq_false_iff.mpr
  intro hu
  exact hut (h.one u t hu ht)

theorem Held.move
    {a : α} {t : τ} {p : φ} {w : σ}
    (h : L.Held s)
    (hAct : S.act a (s.phases t) s.cells = some (p, w)) :
    L.Held ⟨w, Function.update s.phases t p⟩ := by
  rcases L.act hAct with ⟨hOwns, hFlag⟩ | ⟨hClear, hIn, hSet⟩ |
      ⟨hWas, hOut, hClear⟩
  · have hSame : ∀ u,
        L.owns (Function.update s.phases t p u) =
          L.owns (s.phases u) := by
      intro u
      by_cases hut : u = t
      · subst hut
        simpa using hOwns
      · simp [hut]
    constructor
    · simpa only [hSame, hFlag] using h.set_iff
    · simpa only [hSame] using h.one
  · have hOthers : ∀ u, u ≠ t →
        L.owns (Function.update s.phases t p u) = false := by
      intro u hut
      simpa [hut] using h.free hClear
    constructor
    · exact ⟨fun _ => ⟨t, by simpa using hIn⟩, fun _ => hSet⟩
    · intro u v hu hv
      have hut : u = t := by
        by_contra hut
        simp [hOthers u hut] at hu
      have hvt : v = t := by
        by_contra hvt
        simp [hOthers v hvt] at hv
      exact hut.trans hvt.symm
  · have hNone : ∀ u,
        L.owns (Function.update s.phases t p u) = false := by
      apply PhaseState.forall_update (P := fun _ q =>
        L.owns q = false)
      · intro u hut
        exact h.alone hWas hut
      · exact hOut
    constructor
    · simp [hNone, hClear]
    · simp [hNone]

/- At most one thread is inside, as the system goes on. -/
theorem Held.step
    (h : L.Held s)
    (hStep : S.step s e = some s') : L.Held s' := by
  cases e with
  | act t a =>
      rcases PhaseSystem.step_act hStep with ⟨p, w, hAct, rfl⟩
      exact h.move hAct
  | env e =>
      rcases PhaseSystem.step_env hStep with ⟨w, hEnv, rfl⟩
      refine ⟨?_, h.one⟩
      simpa only [L.env hEnv] using h.set_iff

end Latch

end Concurrency

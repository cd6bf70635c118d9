import S4Drive.Library.RelyGuarantee

/-
  Systems of threads over one machine. A thread keeps a
  local value between calls; a call runs one request tree on
  it, may be cut off at any request by a halt of its
  process, and leaves a result and a new local value behind.
  The environment changes the world on its own as well.

  The main result is the parallel composition rule: when
  every call meets its specification under the contract, the
  invariant holds in every state that a run reaches.

  Main declarations:
    * `ThreadSystem`
    * `ThreadSystem.step`, `ThreadSystem.Run`
    * `ThreadSystem.Notes`, `ThreadSystem.Notes.noted_of_run`
    * `ThreadSystem.Limits`, `ThreadSystem.Verified`
    * `ThreadSystem.Verified.stateOk_of_run`
-/

------------------------------------------------------------
-- Thread Systems
------------------------------------------------------------

namespace Concurrency

variable {ρ : Type} {β : ρ → Type}
variable {σ τ κ ζ ω l ε : Type}

/-
  The calls `ζ` with their results `ω`, the local values `l`
  and the environment actions `ε` of a system.
-/
structure ThreadSystem
    (ρ : Type)
    (β : ρ → Type)
    (σ τ κ ζ ω l ε : Type)
    extends Machine ρ β σ τ κ where
  body : ζ → l → Prog ρ β (ω × l)
  boot : l
  begin : τ → ζ → l → σ → Option σ
  finish : τ → ζ → l → ω → l → σ → σ
  halt : τ → σ → σ
  env : ε → σ → Option σ

/- What a thread is doing. -/
inductive Thread
    (ρ : Type)
    (β : ρ → Type)
    (ζ ω l : Type) where
  | idle (v : l)
  | busy (c : ζ) (v : l) (p : Prog ρ β (ω × l))

/- The actions that a run is made of. -/
inductive Action
    (τ κ ζ ε : Type) where
  | call (t : τ) (c : ζ)
  | serve (t : τ) (k : κ)
  | finish (t : τ)
  | halt (t : τ)
  | env (e : ε)

/- The thread that an action is a step of, if any. -/
def Action.actor : Action τ κ ζ ε → Option τ
  | .call t _ => some t
  | .serve t _ => some t
  | .finish t => some t
  | .halt t => some t
  | .env _ => none

/- A world together with the threads that run on it. -/
structure SystemState
    (ρ : Type)
    (β : ρ → Type)
    (σ τ ζ ω l : Type) where
  world : σ
  threads : τ → Thread ρ β ζ ω l

namespace ThreadSystem

variable (S : ThreadSystem ρ β σ τ κ ζ ω l ε)
variable [DecidableEq τ]

/- Replace what one thread is doing. -/
def setThread
    (threads : τ → Thread ρ β ζ ω l)
    (t : τ)
    (x : Thread ρ β ζ ω l) :
    τ → Thread ρ β ζ ω l :=
  fun u => if u = t then x else threads u

/- Every thread has just been started. -/
def initial
    (w : σ) : SystemState ρ β σ τ ζ ω l where
  world := w
  threads := fun _ => .idle S.boot

/- One action; `none` when it is not possible here. -/
def step
    (s : SystemState ρ β σ τ ζ ω l) :
    Action τ κ ζ ε → Option (SystemState ρ β σ τ ζ ω l)
  | .call t c =>
      match s.threads t with
      | .idle v =>
          (S.begin t c v s.world).map fun w =>
            ⟨w, setThread s.threads t
              (.busy c v (S.body c v))⟩
      | .busy _ _ _ => none
  | .serve t k =>
      match s.threads t with
      | .busy c v (.ask r cont) =>
          (S.serve t r k s.world).map fun (b, w) =>
            ⟨w, setThread s.threads t (.busy c v (cont b))⟩
      | _ => none
  | .finish t =>
      match s.threads t with
      | .busy c v (.done (x, v')) =>
          some ⟨S.finish t c v x v' s.world,
            setThread s.threads t (.idle v')⟩
      | _ => none
  | .halt t =>
      some ⟨S.halt t s.world,
        setThread s.threads t (.idle S.boot)⟩
  | .env e =>
      (S.env e s.world).map fun w => ⟨w, s.threads⟩

/-
  The actions of a list, one after the other, as long as
  each passes the check where it is taken.
-/
def execIf
    (check :
      SystemState ρ β σ τ ζ ω l → Action τ κ ζ ε → Bool)
    (s : SystemState ρ β σ τ ζ ω l) :
    List (Action τ κ ζ ε) →
      Option (SystemState ρ β σ τ ζ ω l)
  | [] => some s
  | a :: rest =>
      if check s a then
        match S.step s a with
        | none => none
        | some s' => execIf check s' rest
      else
        none

/- The actions of a list without any check. -/
def exec
    (s : SystemState ρ β σ τ ζ ω l)
    (actions : List (Action τ κ ζ ε)) :
    Option (SystemState ρ β σ τ ζ ω l) :=
  S.execIf (fun _ _ => true) s actions

/-
  Runs from one state to another in which every action is
  permitted where it is taken.
-/
inductive Run
    (Permits :
      SystemState ρ β σ τ ζ ω l → Action τ κ ζ ε → Prop) :
    SystemState ρ β σ τ ζ ω l →
      SystemState ρ β σ τ ζ ω l → Prop where
  | refl (s) : Run Permits s s
  | step
      {s s' s'' : SystemState ρ β σ τ ζ ω l}
      (a : Action τ κ ζ ε)
      (run : Run Permits s s')
      (permits : Permits s' a)
      (next : S.step s' a = some s'') :
      Run Permits s s''

variable {S}
variable {Permits :
  SystemState ρ β σ τ ζ ω l → Action τ κ ζ ε → Prop}
variable {s s' s'' : SystemState ρ β σ τ ζ ω l}

theorem Run.trans
    (first : S.Run Permits s s')
    (second : S.Run Permits s' s'') :
    S.Run Permits s s'' := by
  induction second with
  | refl => exact first
  | step a _ permits next ih =>
      exact .step a ih permits next

/- A run that permits less is also a run that permits more. -/
theorem Run.weaken
    {Permits' :
      SystemState ρ β σ τ ζ ω l → Action τ κ ζ ε → Prop}
    (hPermits : ∀ s a, Permits s a → Permits' s a)
    (run : S.Run Permits s s') :
    S.Run Permits' s s' := by
  induction run with
  | refl => exact .refl _
  | step a _ permits next ih =>
      exact .step a ih (hPermits _ a permits) next

/- A list of actions that can be executed is a run. -/
theorem Run.of_execIf
    {check :
      SystemState ρ β σ τ ζ ω l → Action τ κ ζ ε → Bool}
    (hCheck : ∀ s a, check s a = true → Permits s a)
    (actions : List (Action τ κ ζ ε))
    (hExec : S.execIf check s actions = some s') :
    S.Run Permits s s' := by
  induction actions generalizing s with
  | nil =>
      cases hExec
      exact .refl _
  | cons a rest ih =>
      rw [execIf] at hExec
      split at hExec
      · rename_i hPassed
        cases hStep : S.step s a with
        | none => simp [hStep] at hExec
        | some s₁ =>
            rw [hStep] at hExec
            exact Run.trans
              (.step a (.refl s) (hCheck s a hPassed) hStep)
              (ih hExec)
      · cases hExec

/- A list of actions reaches a state that passes a test. -/
theorem Run.exists_of_execIf
    {check :
      SystemState ρ β σ τ ζ ω l → Action τ κ ζ ε → Bool}
    (hCheck : ∀ s a, check s a = true → Permits s a)
    (actions : List (Action τ κ ζ ε))
    {test : SystemState ρ β σ τ ζ ω l → Bool}
    (hTest : (S.execIf check s actions).any test = true) :
    ∃ s', S.Run Permits s s' ∧ test s' = true := by
  cases hExec : S.execIf check s actions with
  | none => simp [hExec] at hTest
  | some s' =>
      rw [hExec] at hTest
      exact ⟨s', .of_execIf hCheck actions hExec, hTest⟩

/-
  What the world notes of a thread when its call begins, and
  no other step changes.
-/
structure Notes
    {γ : Type}
    (S : ThreadSystem ρ β σ τ κ ζ ω l ε)
    (note : τ → σ → γ)
    (of : ζ → γ) : Prop where
  begin :
    ∀ {t c v w w'}, S.begin t c v w = some w' →
      note t w' = of c ∧ ∀ u, u ≠ t → note u w' = note u w
  serve :
    ∀ {t r k w b w'}, S.serve t r k w = some (b, w') →
      ∀ u, note u w' = note u w
  finish :
    ∀ {t c v x v' w},
      ∀ u, note u (S.finish t c v x v' w) = note u w
  halt : ∀ {t w}, ∀ u, note u (S.halt t w) = note u w
  env :
    ∀ {e w w'}, S.env e w = some w' →
      ∀ u, note u w' = note u w

/- The note of a thread belongs to the call that it runs. -/
def Noted
    {γ : Type}
    (note : τ → σ → γ)
    (of : ζ → γ)
    (s : SystemState ρ β σ τ ζ ω l) : Prop :=
  ∀ t c v p, s.threads t = .busy c v p →
    note t s.world = of c

omit [DecidableEq τ] in
theorem Noted.setThread
    [DecidableEq τ]
    {γ : Type} {note : τ → σ → γ} {of : ζ → γ}
    {t : τ} {w : σ} {x : Thread ρ β ζ ω l}
    (h : Noted note of s)
    (hOthers : ∀ u, u ≠ t → note u w = note u s.world)
    (hThread : ∀ c v p, x = .busy c v p → note t w = of c) :
    Noted note of ⟨w, setThread s.threads t x⟩ := by
  intro u c v p hBusy
  by_cases hu : u = t
  · subst hu
    simp only [ThreadSystem.setThread, if_true] at hBusy
    exact hThread c v p hBusy
  · simp only [ThreadSystem.setThread, hu, if_false] at hBusy
    exact (hOthers u hu).trans (h u c v p hBusy)

theorem Notes.noted_step
    {γ : Type} {note : τ → σ → γ} {of : ζ → γ}
    (hNotes : Notes S note of)
    (h : Noted note of s)
    (a : Action τ κ ζ ε)
    (hStep : S.step s a = some s') : Noted note of s' := by
  cases a with
  | call t c =>
      cases hThread : s.threads t with
      | busy c' v p => simp [step, hThread] at hStep
      | idle v =>
          simp only [step, hThread, Option.map_eq_some_iff]
            at hStep
          rcases hStep with ⟨w, hBegin, rfl⟩
          have hBegun := hNotes.begin hBegin
          apply h.setThread hBegun.2
          intro c' v' p hBusy
          cases hBusy
          exact hBegun.1
  | serve t k =>
      cases hThread : s.threads t with
      | idle v => simp [step, hThread] at hStep
      | busy c v p =>
          cases p with
          | done x => simp [step, hThread] at hStep
          | ask r cont =>
              simp only [step, hThread,
                Option.map_eq_some_iff] at hStep
              rcases hStep with ⟨⟨b, w⟩, hServe, rfl⟩
              have hSame := hNotes.serve hServe
              apply h.setThread fun u _ => hSame u
              intro c' v' p hBusy
              cases hBusy
              exact (hSame t).trans (h t _ _ _ hThread)
  | finish t =>
      cases hThread : s.threads t with
      | idle v => simp [step, hThread] at hStep
      | busy c v p =>
          cases p with
          | ask r cont => simp [step, hThread] at hStep
          | done x =>
              simp only [step, hThread,
                Option.some.injEq] at hStep
              subst hStep
              apply h.setThread fun u _ => hNotes.finish u
              exact fun _ _ _ hBusy => nomatch hBusy
  | halt t =>
      simp only [step, Option.some.injEq] at hStep
      subst hStep
      apply h.setThread fun u _ => hNotes.halt u
      exact fun _ _ _ hBusy => nomatch hBusy
  | env e =>
      simp only [step, Option.map_eq_some_iff] at hStep
      rcases hStep with ⟨w, hEnv, rfl⟩
      intro t c v p hBusy
      exact (hNotes.env hEnv t).trans (h t c v p hBusy)

/- In every state of a run a note belongs to its call. -/
theorem Notes.noted_of_run
    {γ : Type} {note : τ → σ → γ} {of : ζ → γ}
    (hNotes : Notes S note of)
    (h : Noted note of s)
    (run : S.Run Permits s s') : Noted note of s' := by
  induction run with
  | refl => exact h
  | step a _ _ hNext ih => exact hNotes.noted_step ih a hNext

------------------------------------------------------------
-- Parallel Composition
------------------------------------------------------------

/-
  What a run may contain: the calls that may start, the
  requests that a call may make, with the choices of the
  environment, and the environment's own actions.
-/
structure Limits
    (ρ κ σ τ ζ l ε : Type) where
  Starts : τ → ζ → l → σ → Prop
  Admits : ζ → τ → ρ → κ → σ → Prop
  Env : ε → σ → Prop

/-
  Every part of a system meets the contract: `Local` is what
  holds of an idle thread's value, `Post` what a call
  promises about its result.
-/
structure Verified
    (S : ThreadSystem ρ β σ τ κ ζ ω l ε)
    (C : Contract ρ κ σ τ)
    (L : Limits ρ κ σ τ ζ l ε)
    (Local : τ → l → σ → Prop)
    (Post : τ → ζ → l → ω × l → σ → Prop) : Prop where
  stable :
    ∀ {t v s s'},
      Local t v s → C.Rely t s s' → C.Inv s' →
        Local t v s'
  begin :
    ∀ {t c v s s'},
      C.Inv s → Local t v s → L.Starts t c v s →
        S.begin t c v s = some s' →
        C.Keeps t s s' ∧
          wp S.toMachine (C.limit (L.Admits c)) t
            (S.body c v) (Post t c v) s'
  finish :
    ∀ {t c v x v' s},
      C.Inv s → Post t c v (x, v') s →
        C.Keeps t s (S.finish t c v x v' s) ∧
          Local t v' (S.finish t c v x v' s)
  halt :
    ∀ {t s},
      C.Inv s →
        C.Keeps t s (S.halt t s) ∧
          Local t S.boot (S.halt t s)
  env :
    ∀ {e s s'},
      C.Inv s → L.Env e s → S.env e s = some s' →
        C.Inv s' ∧ ∀ t, C.Rely t s s'

/- What holds of a thread between two steps. -/
def ThreadOk
    (S : ThreadSystem ρ β σ τ κ ζ ω l ε)
    (C : Contract ρ κ σ τ)
    (L : Limits ρ κ σ τ ζ l ε)
    (Local : τ → l → σ → Prop)
    (Post : τ → ζ → l → ω × l → σ → Prop)
    (t : τ)
    (w : σ) : Thread ρ β ζ ω l → Prop
  | .idle v => Local t v w
  | .busy c v p =>
      wp S.toMachine (C.limit (L.Admits c)) t p (Post t c v) w

/- What holds of a state between two steps. -/
structure StateOk
    (S : ThreadSystem ρ β σ τ κ ζ ω l ε)
    (C : Contract ρ κ σ τ)
    (L : Limits ρ κ σ τ ζ l ε)
    (Local : τ → l → σ → Prop)
    (Post : τ → ζ → l → ω × l → σ → Prop)
    (s : SystemState ρ β σ τ ζ ω l) : Prop where
  inv : C.Inv s.world
  threads :
    ∀ t, ThreadOk S C L Local Post t s.world (s.threads t)

/- The next step of thread `t` is the request `r`. -/
def Asks
    (s : SystemState ρ β σ τ ζ ω l)
    (t : τ)
    (r : ρ) : Prop :=
  ∃ c v k, s.threads t = .busy c v (.ask r k)

/- The actions that the limits leave. -/
def Limits.Permitted
    (L : Limits ρ κ σ τ ζ l ε)
    (s : SystemState ρ β σ τ ζ ω l)
    (a : Action τ κ ζ ε) : Prop :=
  match a with
  | .call t c =>
      ∀ v, s.threads t = .idle v → L.Starts t c v s.world
  | .serve t k =>
      ∀ c v r cont, s.threads t = .busy c v (.ask r cont) →
        L.Admits c t r k s.world
  | .env e => L.Env e s.world
  | _ => True

variable {C : Contract ρ κ σ τ}
variable {L : Limits ρ κ σ τ ζ l ε}
variable {Local : τ → l → σ → Prop}
variable {Post : τ → ζ → l → ω × l → σ → Prop}

omit [DecidableEq τ] in
/- What a call that has returned promises. -/
theorem StateOk.post
    (hState : StateOk S C L Local Post s)
    {t : τ} {c : ζ} {v : l} {x : ω × l}
    (hThread : s.threads t = .busy c v (.done x)) :
    Post t c v x s.world := by
  have hDone := hState.threads t
  rw [hThread] at hDone
  exact hDone s.world (C.rely_refl t _) hState.inv

namespace Verified

omit [DecidableEq τ] in
/- The other threads keep what holds of a thread. -/
theorem threadOk_stable
    (h : Verified S C L Local Post)
    {t : τ} {w w' : σ} {x : Thread ρ β ζ ω l}
    (hThread : ThreadOk S C L Local Post t w x)
    (hRely : C.Rely t w w')
    (hInv : C.Inv w') :
    ThreadOk S C L Local Post t w' x := by
  cases x with
  | idle v => exact h.stable hThread hRely hInv
  | busy c v p => exact wp_stable hThread hRely

/-
  What a step has to show: the new state is as good as the
  old one, and the threads that did not take it may rely on
  what it changed.
-/
def StepOk
    (S : ThreadSystem ρ β σ τ κ ζ ω l ε)
    (C : Contract ρ κ σ τ)
    (L : Limits ρ κ σ τ ζ l ε)
    (Local : τ → l → σ → Prop)
    (Post : τ → ζ → l → ω × l → σ → Prop)
    (s : SystemState ρ β σ τ ζ ω l)
    (a : Action τ κ ζ ε)
    (s' : SystemState ρ β σ τ ζ ω l) : Prop :=
  StateOk S C L Local Post s' ∧
    ∀ u, a.actor ≠ some u → C.Rely u s.world s'.world

/- A step of one thread keeps what holds of the state. -/
theorem stepOk_setThread
    (h : Verified S C L Local Post)
    {t : τ} {w : σ} {x : Thread ρ β ζ ω l}
    {a : Action τ κ ζ ε}
    (hActor : a.actor = some t)
    (hState : StateOk S C L Local Post s)
    (hKeeps : C.Keeps t s.world w)
    (hThread : ThreadOk S C L Local Post t w x) :
    StepOk S C L Local Post s a
      ⟨w, setThread s.threads t x⟩ := by
  refine ⟨⟨hKeeps.1, fun u => ?_⟩, fun u hu => ?_⟩
  · by_cases hu : u = t
    · subst hu
      simpa [setThread] using hThread
    · simpa [setThread, hu] using
        h.threadOk_stable (hState.threads u)
          (hKeeps.2 u hu) hKeeps.1
  · apply hKeeps.2 u
    rintro rfl
    exact hu hActor

/- Every permitted step keeps what holds of the state. -/
theorem stepOk
    (h : Verified S C L Local Post)
    (hState : StateOk S C L Local Post s)
    (a : Action τ κ ζ ε)
    (hPermits : L.Permitted s a)
    (hStep : S.step s a = some s') :
    StepOk S C L Local Post s a s' := by
  cases a with
  | call t c =>
      cases hThread : s.threads t with
      | busy c' v p => simp [step, hThread] at hStep
      | idle v =>
          simp only [step, hThread, Option.map_eq_some_iff]
            at hStep
          rcases hStep with ⟨w, hBegin, rfl⟩
          have hLocal := hState.threads t
          rw [hThread] at hLocal
          rcases h.begin hState.inv hLocal
              (hPermits v hThread) hBegin with
            ⟨hKeeps, hBody⟩
          exact h.stepOk_setThread rfl hState hKeeps hBody
  | serve t k =>
      cases hThread : s.threads t with
      | idle v => simp [step, hThread] at hStep
      | busy c v p =>
          cases p with
          | done x => simp [step, hThread] at hStep
          | ask r cont =>
              simp only [step, hThread,
                Option.map_eq_some_iff] at hStep
              rcases hStep with ⟨⟨b, w⟩, hServe, rfl⟩
              have hWp := hState.threads t
              rw [hThread] at hWp
              rcases hWp s.world (C.rely_refl t _) hState.inv
                  k b w (hPermits c v r cont hThread) hServe
                with ⟨hKeeps, hRest⟩
              exact h.stepOk_setThread rfl hState hKeeps hRest
  | finish t =>
      cases hThread : s.threads t with
      | idle v => simp [step, hThread] at hStep
      | busy c v p =>
          cases p with
          | ask r cont => simp [step, hThread] at hStep
          | done x =>
              rcases x with ⟨x, v'⟩
              simp only [step, hThread,
                Option.some.injEq] at hStep
              subst hStep
              have hWp := hState.threads t
              rw [hThread] at hWp
              have hPost : Post t c v (x, v') s.world :=
                hWp s.world (C.rely_refl t _) hState.inv
              rcases h.finish hState.inv hPost with
                ⟨hKeeps, hLocal⟩
              exact h.stepOk_setThread rfl hState hKeeps
                hLocal
  | halt t =>
      simp only [step, Option.some.injEq] at hStep
      subst hStep
      rcases h.halt (t := t) hState.inv with
        ⟨hKeeps, hLocal⟩
      exact h.stepOk_setThread rfl hState hKeeps hLocal
  | env e =>
      simp only [step, Option.map_eq_some_iff] at hStep
      rcases hStep with ⟨w, hEnv, rfl⟩
      rcases h.env hState.inv hPermits hEnv with
        ⟨hInv, hRely⟩
      refine ⟨⟨hInv, fun t => ?_⟩, fun t _ => hRely t⟩
      exact h.threadOk_stable (hState.threads t)
        (hRely t) hInv

/- Every permitted run keeps what holds of the state. -/
theorem stateOk_run
    (h : Verified S C L Local Post)
    (hState : StateOk S C L Local Post s)
    (run : S.Run L.Permitted s s') :
    StateOk S C L Local Post s' := by
  induction run with
  | refl => exact hState
  | step a _ hPermits hNext ih =>
      exact (h.stepOk ih a hPermits hNext).1

/-
  What every thread may rely on, as long as the others act,
  holds between any two states of a run: no thread is alone.
-/
theorem relates_run
    (h : Verified S C L Local Post)
    {R : σ → σ → Prop}
    (hRefl : ∀ w, R w w)
    (hTrans : ∀ {w₁ w₂ w₃}, R w₁ w₂ → R w₂ w₃ → R w₁ w₃)
    (hRely : ∀ u w w', C.Rely u w w' → R w w')
    (hOther : ∀ t : Option τ, ∃ u, t ≠ some u)
    (hState : StateOk S C L Local Post s)
    (run : S.Run L.Permitted s s') :
    R s.world s'.world := by
  induction run with
  | refl => exact hRefl _
  | step a before hPermits hNext ih =>
      have hBefore := h.stateOk_run hState before
      have hStep := h.stepOk hBefore a hPermits hNext
      rcases hOther a.actor with ⟨u, hu⟩
      exact hTrans ih (hRely u _ _ (hStep.2 u hu))

/-
  The parallel composition rule: in every state that a
  permitted run reaches from a fresh start the invariant
  holds and every thread is where its specification allows.
-/
theorem stateOk_of_run
    (h : Verified S C L Local Post)
    {w : σ}
    (hInv : C.Inv w)
    (hBoot : ∀ t, Local t S.boot w)
    (run : S.Run L.Permitted (S.initial w) s) :
    StateOk S C L Local Post s := by
  have hInitial :
      StateOk S C L Local Post (S.initial w) :=
    ⟨hInv, hBoot⟩
  exact h.stateOk_run hInitial run

end Verified

end ThreadSystem

end Concurrency

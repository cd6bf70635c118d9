import Mathlib.Logic.Relation
import Mathlib.Order.Defs.Unbundled
import S4Drive.Library.Execution

/-
  Programs that run alone on a world that may answer each
  of their requests in many ways, and that may stop at any
  of them. What a step may do to the world is a relation;
  when the relation is a preorder, all the worlds of a run
  are related to the one that it started from.

  Main declarations:
    * `Prog.Step`, `Prog.Runs`, `MayReach`
    * `alone`, `wp_runs`
    * `Along`, `Moves` and `Stays`, with their rules
-/

------------------------------------------------------------
-- Runs
------------------------------------------------------------

namespace Concurrency

variable {ρ : Type} {β : ρ → Type}
variable {σ κ ε l α γ : Type}

/- One request is served, in a way that is possible. -/
inductive Prog.Step
    (M : Machine ρ β σ Unit κ) :
    Prog ρ β α × σ → Prog ρ β α × σ → Prop where
  | served
      {r : ρ} {k : β r → Prog ρ β α}
      {c : κ} {b : β r} {s s' : σ}
      (serve : M.serve () r c s = some (b, s')) :
      Prog.Step M (.ask r k, s) (k b, s')

/- The program may get from the one place to the other. -/
abbrev Prog.Runs
    (M : Machine ρ β σ Unit κ) :
    Prog ρ β α × σ → Prog ρ β α × σ → Prop :=
  Relation.ReflTransGen (Prog.Step M)

variable {M : Machine ρ β σ Unit κ}
variable {s s' : σ} {v v' : l}

theorem Prog.runs_bind
    {p p' : Prog ρ β α}
    {f : α → Prog ρ β γ}
    (h : Prog.Runs M (p, s) (p', s')) :
    Prog.Runs M (p.bind f, s) (p'.bind f, s') := by
  refine Relation.ReflTransGen.lift
    (fun x : Prog ρ β α × σ => (x.1.bind f, x.2)) ?_ _ _ h
  rintro _ _ ⟨serve⟩
  exact .served serve

/- One of the runs is that of the picked choices. -/
theorem Prog.runs_of_exec
    {pick : ρ → σ → κ}
    {p : Prog ρ β α} {a : α}
    (h : p.exec M () pick s = some (a, s')) :
    Prog.Runs M (p, s) (.done a, s') := by
  induction p generalizing s with
  | done a' =>
      cases h
      exact .refl
  | ask r k ih =>
      simp only [Prog.exec] at h
      split at h
      · cases h
      · rename_i b s₁ serve
        exact .head (.served serve) (ih b h)

variable {x : Script ρ β ε l α} {f : α → Script ρ β ε l γ}

/- A script goes on when its first part has succeeded. -/
theorem runs_bind
    {a : α}
    (h : Prog.Runs M (x v, s) (.done (.ok a, v'), s')) :
    Prog.Runs M ((x >>= f) v, s) (f a v', s') :=
  Prog.runs_bind h

theorem runs_bind_error
    {e : ε}
    (h : Prog.Runs M (x v, s) (.done (.error e, v'), s')) :
    Prog.Runs M ((x >>= f) v, s)
      (.done (.error e, v'), s') :=
  Prog.runs_bind h

theorem runs_attempt
    {r : Except ε α}
    (h : Prog.Runs M (x v, s) (.done (r, v'), s')) :
    Prog.Runs M (Script.attempt x v, s)
      (.done (.ok r, v'), s') :=
  Prog.runs_bind h

variable {r : ρ} {answer : β r → Except ε α}

theorem runs_call
    {c : κ} {b : β r}
    (serve : M.serve () r c s = some (b, s')) :
    Prog.Runs M
      ((Script.call r answer : Script ρ β ε l α) v, s)
      (.done (answer b, v), s') :=
  .single (.served serve)

theorem runs_request
    {c : κ} {b : β r}
    (serve : M.serve () r c s = some (b, s')) :
    Prog.Runs M
      ((Script.request r : Script ρ β ε l (β r)) v, s)
      (.done (.ok b, v), s') :=
  .single (.served serve)

variable (M) in
/- Some run of the script gets to where `P` holds. -/
def MayReach
    (x : Script ρ β ε l α)
    (v : l)
    (P : σ → Prop)
    (s : σ) : Prop :=
  ∃ p s', Prog.Runs M (x v, s) (p, s') ∧ P s'

variable {P : σ → Prop}

theorem MayReach.here
    (h : P s) : MayReach M x v P s :=
  ⟨x v, s, .refl, h⟩

theorem MayReach.first
    (h : MayReach M x v P s) : MayReach M (x >>= f) v P s := by
  rcases h with ⟨p, s', hRuns, hP⟩
  exact ⟨_, s', Prog.runs_bind hRuns, hP⟩

theorem MayReach.attempt
    (h : MayReach M x v P s) :
    MayReach M (Script.attempt x) v P s := by
  rcases h with ⟨p, s', hRuns, hP⟩
  exact ⟨_, s', Prog.runs_bind hRuns, hP⟩

theorem MayReach.next
    {a : α}
    (hx : Prog.Runs M (x v, s) (.done (.ok a, v'), s'))
    (h : MayReach M (f a) v' P s') :
    MayReach M (x >>= f) v P s := by
  rcases h with ⟨p, s₁, hRuns, hP⟩
  exact ⟨p, s₁, (runs_bind hx).trans hRuns, hP⟩

/- The only thread keeps `I`, and nothing else happens. -/
def alone (I : σ → Prop) : Contract ρ κ σ Unit where
  Inv := I
  Rely := fun _ s s' => s = s'
  Admits := fun _ _ _ _ => True
  rely_refl := fun _ _ => rfl
  rely_trans := fun h h' => h.trans h'

theorem alone_keeps
    {I : σ → Prop} {t : Unit}
    (h : I s') : (alone I : Contract ρ κ σ Unit).Keeps t s s' :=
  ⟨h, fun _ hOther => absurd rfl hOther⟩

variable {I J : σ → Prop}
variable {p p' : Prog ρ β α} {Q : α → σ → Prop}

/- The invariant holds wherever a run may stop. -/
theorem wp_runs
    (hp : wp M (alone I) () p Q s)
    (hStart : I s)
    (h : Prog.Runs M (p, s) (p', s')) :
    I s' ∧ wp M (alone I) () p' Q s' := by
  have along :
      ∀ x, Prog.Runs M (p, s) x →
        I x.2 ∧ wp M (alone I) () x.1 Q x.2 := by
    intro x hRuns
    induction hRuns with
    | refl => exact ⟨hStart, hp⟩
    | tail _ step ih =>
        rcases step with ⟨serve⟩
        have hStep := ih.2 _ rfl ih.1 _ _ _ trivial serve
        exact ⟨hStep.1.1, hStep.2⟩
  exact along _ h

/- A weaker invariant is kept as well. -/
theorem wp_widen
    (hp : wp M (alone I) () p Q s)
    (hStart : I s)
    (hWiden : ∀ s, I s → J s) :
    wp M (alone J) () p Q s := by
  induction p generalizing s with
  | done a =>
      rintro _ rfl _
      exact hp _ rfl hStart
  | ask r k ih =>
      rintro _ rfl _ c b s'' _ serve
      rcases hp _ rfl hStart c b s'' trivial serve with
        ⟨hKeeps, hRest⟩
      exact ⟨alone_keeps (hWiden _ hKeeps.1),
        ih b hRest hKeeps.1⟩

------------------------------------------------------------
-- Scripts Along a Relation
------------------------------------------------------------

variable (M) in
/-
  Wherever the script stops, the world is related to the one
  that it has started from, and where it ends `Q` holds.
-/
def Along
    (R : σ → σ → Prop)
    (x : Script ρ β ε l α)
    (v : l)
    (Q : Except ε α → l → σ → Prop)
    (s : σ) : Prop :=
  Meets M (alone (R s)) () x v Q s

variable {R R' : σ → σ → Prop}

theorem Along.mono
    {Q Q' : Except ε α → l → σ → Prop}
    (hx : Along M R x v Q s)
    (hQ : ∀ r v' s', R s s' → Q r v' s' → Q' r v' s') :
    Along M R x v Q' s := by
  apply Meets.mono (Meets.with_inv hx)
  rintro r v' s' ⟨h, hR⟩
  exact hQ r v' s' hR h

/- Nothing is said of the end. -/
theorem Along.stops
    {Q : Except ε α → l → σ → Prop}
    (hx : Along M R x v Q s) :
    Along M R x v (fun _ _ _ => True) s :=
  hx.mono fun _ _ _ _ _ => trivial

/- Fewer steps are allowed than in the weaker relation. -/
theorem Along.widen
    {Q : Except ε α → l → σ → Prop}
    (hx : Along M R x v Q s)
    (hStart : R s s)
    (hWiden : ∀ s', R s s' → R' s s') :
    Along M R' x v Q s :=
  wp_widen hx hStart hWiden

theorem along_pure
    {a : α}
    {Q : Except ε α → l → σ → Prop}
    (h : Q (.ok a) v s) :
    Along M R (pure a : Script ρ β ε l α) v Q s :=
  meets_pure fun _ hSame _ => hSame ▸ h

theorem along_throw
    {e : ε}
    {Q : Except ε α → l → σ → Prop}
    (h : Q (.error e) v s) :
    Along M R (Script.throw e : Script ρ β ε l α) v Q s :=
  meets_throw fun _ hSame _ => hSame ▸ h

theorem along_ofExcept
    {r : Except ε α}
    {Q : Except ε α → l → σ → Prop}
    (h : Q r v s) :
    Along M R (Script.ofExcept r : Script ρ β ε l α) v Q s :=
  meets_ofExcept fun _ hSame _ => hSame ▸ h

theorem along_call
    {Q : Except ε α → l → σ → Prop}
    (h :
      ∀ c b s', M.serve () r c s = some (b, s') →
        R s s' ∧ Q (answer b) v s') :
    Along M R
      (Script.call r answer : Script ρ β ε l α) v Q s := by
  apply meets_call
  rintro _ rfl _ c b s' _ serve
  rcases h c b s' serve with ⟨hR, hQ⟩
  exact ⟨alone_keeps hR, fun _ hSame _ => hSame ▸ hQ⟩

theorem Along.attempt
    {Q : Except ε (Except ε α) → l → σ → Prop}
    (hx : Along M R x v (fun r v' s' => Q (.ok r) v' s') s) :
    Along M R (Script.attempt x) v Q s :=
  meets_attempt hx

/- The second part starts from where the first has ended. -/
theorem Along.bind
    [IsPreorder σ R]
    {x : Script ρ β ε l α}
    {f : α → Script ρ β ε l γ}
    {P : Except ε α → l → σ → Prop}
    {Q : Except ε γ → l → σ → Prop}
    (hx : Along M R x v P s)
    (hOk :
      ∀ a v' s', R s s' → P (.ok a) v' s' →
        Along M R (f a) v' Q s')
    (hError :
      ∀ e v' s', R s s' → P (.error e) v' s' →
        Q (.error e) v' s') :
    Along M R (x >>= f) v Q s := by
  apply Meets.bind (Meets.with_inv hx)
  · rintro a v' s' ⟨hP, hR⟩
    exact wp_widen (hOk a v' s' hR hP) (refl_of R s')
      fun _ hLater => trans_of R hR hLater
  · rintro e v' s' ⟨hP, hR⟩
    exact hError e v' s' hR hP

variable (M R) in
/- The script relates the worlds of all of its runs. -/
def Moves (x : Script ρ β ε l α) : Prop :=
  ∀ v s, Along M R x v (fun _ _ _ => True) s

namespace Moves

theorem pure (a : α) :
    Moves M R (Pure.pure a : Script ρ β ε l α) :=
  fun _ _ => along_pure trivial

theorem throw (e : ε) :
    Moves M R (Script.throw e : Script ρ β ε l α) :=
  fun _ _ => along_throw trivial

theorem ofExcept (r : Except ε α) :
    Moves M R (Script.ofExcept r : Script ρ β ε l α) :=
  fun _ _ => along_ofExcept trivial

theorem call
    (h :
      ∀ {s c b s'}, M.serve () r c s = some (b, s') → R s s') :
    Moves M R (Script.call r answer : Script ρ β ε l α) :=
  fun _ _ => along_call fun _ _ _ serve => ⟨h serve, trivial⟩

theorem attempt
    (hx : Moves M R x) : Moves M R (Script.attempt x) :=
  fun v s => Along.attempt (hx v s)

theorem bind
    [IsPreorder σ R]
    {x : Script ρ β ε l α}
    {f : α → Script ρ β ε l γ}
    (hx : Moves M R x)
    (hf : ∀ a, Moves M R (f a)) : Moves M R (x >>= f) :=
  fun v s => Along.bind (hx v s) (fun a v' s' _ _ => hf a v' s')
    fun _ _ _ _ _ => trivial

end Moves

variable (M I) in
/- Wherever a run of the script stops, `I` holds. -/
def Stays
    (x : Script ρ β ε l α)
    (v : l)
    (s : σ) : Prop :=
  Meets M (alone I) () x v (fun _ _ _ => True) s

theorem Stays.runs
    {p : Prog ρ β (Except ε α × l)}
    (hx : Stays M I x v s)
    (hStart : I s)
    (h : Prog.Runs M (x v, s) (p, s')) : I s' :=
  (wp_runs hx hStart h).1

/- What follows is only known to start where `I` holds. -/
theorem Stays.bind
    (hx : Stays M I x v s)
    (hf : ∀ a v' s', I s' → Stays M I (f a) v' s') :
    Stays M I (x >>= f) v s := by
  apply Meets.bind (Meets.with_inv hx)
  · rintro a v' s' ⟨_, hI⟩
    exact hf a v' s' hI
  · exact fun _ _ _ _ => trivial

theorem Along.stays
    [Std.Refl R]
    {x : Script ρ β ε l α}
    {Q : Except ε α → l → σ → Prop}
    (hx : Along M R x v Q s)
    (h : ∀ s', R s s' → I s') : Stays M I x v s :=
  wp_widen hx.stops (refl_of R s) h

/- One relation for each of the parts of a script. -/
theorem Along.stays_bind
    [Std.Refl R]
    {x : Script ρ β ε l α}
    {f : α → Script ρ β ε l γ}
    {P : Except ε α → l → σ → Prop}
    (hx : Along M R x v P s)
    (h : ∀ s', R s s' → I s')
    (hf :
      ∀ a v' s', R s s' → P (.ok a) v' s' →
        Stays M I (f a) v' s') :
    Stays M I (x >>= f) v s := by
  have hFirst :
      Meets M (alone I) () x v
        (fun r v' s' => P r v' s' ∧ R s s') s :=
    wp_widen (Meets.with_inv hx) (refl_of R s) h
  apply Meets.bind hFirst
  · rintro a v' s' ⟨hP, hR⟩
    exact hf a v' s' hR hP
  · exact fun _ _ _ _ => trivial

end Concurrency

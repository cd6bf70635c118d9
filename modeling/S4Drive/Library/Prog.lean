import Mathlib.Tactic.Common

/-
  Request trees: programs that talk to a shared world only
  through requests. A tree is either finished with a value
  or waits for the answer to one request and goes on from
  it. Every request is one step of the program, so a system
  may interleave other programs between any two of them.

  Main declarations:
    * `Prog`
    * `Prog.request`
    * the `Monad` instance
-/

------------------------------------------------------------
-- Request Trees
------------------------------------------------------------

namespace Concurrency

/-
  Programs over the requests `ρ`, whose answers have the
  types `β`, with a result in `α`.
-/
inductive Prog
    (ρ : Type)
    (β : ρ → Type)
    (α : Type) : Type where
  | done (a : α)
  | ask (r : ρ) (k : β r → Prog ρ β α)

namespace Prog

variable {ρ : Type} {β : ρ → Type}
variable {α γ : Type}

/- Run `f` on the result of a tree. -/
protected def bind
    (p : Prog ρ β α)
    (f : α → Prog ρ β γ) : Prog ρ β γ :=
  match p with
  | done a => f a
  | ask r k => ask r (fun b => (k b).bind f)

instance : Monad (Prog ρ β) where
  pure := done
  bind := Prog.bind

/- Send one request and return its answer. -/
def request
    (r : ρ) : Prog ρ β (β r) :=
  ask r done

end Prog

end Concurrency

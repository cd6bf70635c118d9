import Mathlib.Data.Finset.Card
import Mathlib.Tactic.Common

/-
  Chains of parents, as a partial function gives them. A
  search along the chain takes a bounded number of steps;
  when only finitely many things have a parent, as many
  steps as there are of them, and one more, always suffice.

  Main declarations:
    * `meets`, `Meets`
    * `Meets.mono`, `Meets.congr`
    * `meets_iff`
-/

------------------------------------------------------------
-- Searches
------------------------------------------------------------

namespace ParentChain

variable {α : Type}
variable {next next' : α → Option α} {test : α → Bool}
variable {c : Option α}

/- Whether one of the first things on the chain is met. -/
def meets
    (next : α → Option α)
    (test : α → Bool) : Nat → Option α → Bool
  | 0, _ => false
  | _ + 1, none => false
  | steps + 1, some a =>
      test a || meets next test steps (next a)

/- Something on the chain passes the test. -/
inductive Meets
    (next : α → Option α)
    (test : α → Bool) : Option α → Prop where
  | here
      {a : α}
      (passes : test a = true) :
      Meets next test (some a)
  | onward
      {a : α}
      (above : Meets next test (next a)) :
      Meets next test (some a)

theorem Meets.of_meets
    {steps : Nat}
    (h : meets next test steps c = true) :
    Meets next test c := by
  induction steps generalizing c with
  | zero => cases h
  | succ steps ih =>
      cases c with
      | none => cases h
      | some a =>
          rw [meets, Bool.or_eq_true] at h
          rcases h with hHere | hAbove
          · exact .here hHere
          · exact .onward (ih hAbove)

theorem meets_mono
    {steps steps' : Nat}
    (h : meets next test steps c = true)
    (hSteps : steps ≤ steps') :
    meets next test steps' c = true := by
  induction steps generalizing c steps' with
  | zero => cases h
  | succ steps ih =>
      obtain ⟨more, rfl⟩ := Nat.exists_eq_add_of_le' hSteps
      cases c with
      | none => cases h
      | some a =>
          rw [← Nat.add_assoc, meets, Bool.or_eq_true]
          rw [meets, Bool.or_eq_true] at h
          exact h.imp_right fun hAbove =>
            ih hAbove (Nat.le_add_left steps more)

/- A longer chain has everything that is on a shorter one. -/
theorem Meets.mono
    (h : Meets next test c)
    (hNext : ∀ a b, next a = some b → next' a = some b) :
    Meets next' test c := by
  induction h with
  | here passes => exact .here passes
  | @onward a above ih =>
      apply Meets.onward
      cases hAbove : next a with
      | none =>
          rw [hAbove] at ih
          cases ih
      | some b =>
          rw [hNext a b hAbove, ← hAbove]
          exact ih

/- Only the part of the chain before the hit matters. -/
theorem Meets.congr
    (h : Meets next test c)
    (hNext : ∀ a, test a = false → next a = next' a) :
    Meets next' test c := by
  induction h with
  | here passes => exact .here passes
  | @onward a above ih =>
      cases hTest : test a with
      | true => exact .here hTest
      | false =>
          apply Meets.onward
          rw [← hNext a hTest]
          exact ih

variable [DecidableEq α]

/- Something is met that passes nothing outside `s`, or twice. -/
inductive MeetsIn
    (next : α → Option α)
    (test : α → Bool) : Finset α → Option α → Prop where
  | here
      {s : Finset α} {a : α}
      (passes : test a = true) :
      MeetsIn next test s (some a)
  | onward
      {s : Finset α} {a : α}
      (mem : a ∈ s)
      (above : MeetsIn next test (s.erase a) (next a)) :
      MeetsIn next test s (some a)

variable {s s' : Finset α}

theorem MeetsIn.mono
    (h : MeetsIn next test s c)
    (hSubset : s ⊆ s') : MeetsIn next test s' c := by
  induction h generalizing s' with
  | here passes => exact .here passes
  | @onward s a mem above ih =>
      exact .onward (hSubset mem)
        (ih (Finset.erase_subset_erase a hSubset))

/- A way either avoids a thing or has a part that starts there. -/
theorem MeetsIn.avoid
    (h : MeetsIn next test s c)
    (a : α) :
    MeetsIn next test (s.erase a) c ∨
      MeetsIn next test s (some a) := by
  induction h with
  | here passes => exact .inl (.here passes)
  | @onward s b mem above ih =>
      by_cases hSame : b = a
      · subst hSame
        exact .inr (.onward mem above)
      · rcases ih with hAvoids | hThrough
        · left
          apply MeetsIn.onward
            (Finset.mem_erase_of_ne_of_mem hSame mem)
          rw [Finset.erase_right_comm]
          exact hAvoids
        · exact .inr (hThrough.mono (Finset.erase_subset b s))

theorem MeetsIn.meets
    (h : MeetsIn next test s c) :
    meets next test (s.card + 1) c = true := by
  induction h with
  | here passes => simp [ParentChain.meets, passes]
  | @onward s a mem above ih =>
      have hCard := Finset.card_erase_add_one mem
      rw [hCard] at ih
      simp [ParentChain.meets, ih]

/- A chain that meets something needs no detours. -/
theorem Meets.meetsIn
    (h : Meets next test c)
    (hSupport : ∀ a b, next a = some b → a ∈ s) :
    MeetsIn next test s c := by
  induction h with
  | here passes => exact .here passes
  | @onward a above ih =>
      rcases ih.avoid a with hAvoids | hThrough
      · cases hAbove : next a with
        | none =>
            rw [hAbove] at above
            cases above
        | some b => exact .onward (hSupport a b hAbove) hAvoids
      · exact hThrough

/- Enough steps decide whether anything is met. -/
theorem meets_iff
    {steps : Nat}
    (hSupport : ∀ a b, next a = some b → a ∈ s)
    (hSteps : s.card < steps) :
    meets next test steps c = true ↔ Meets next test c :=
  ⟨Meets.of_meets, fun h =>
    meets_mono (h.meetsIn hSupport).meets hSteps⟩

end ParentChain

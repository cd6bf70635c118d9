import Mathlib.Data.List.Basic
import Mathlib.Tactic.Common

/-
  Common subsequences of two lists, as pairs of places, and
  the greatest length of one among the first items of each.
  The last items of both are equal, and may be paired, or one
  of them is left out.

  Main declarations:
    * `IsCommon`, `IsCommon.concat`
    * `longest`
    * `IsCommon.length_le_longest`
-/

------------------------------------------------------------
-- Pairs of Equal Items
------------------------------------------------------------

namespace CommonSubsequences

variable {α : Type}

structure IsCommon
    (xs ys : List α)
    (pairs : List (Nat × Nat)) : Prop where
  increasing : pairs.Pairwise fun p q => p.1 < q.1 ∧ p.2 < q.2
  equal : ∀ p ∈ pairs, ∃ x,
    xs[p.1]? = some x ∧ ys[p.2]? = some x

/- All pairs are among the first items of both lists. -/
def Among (i j : Nat) (pairs : List (Nat × Nat)) : Prop :=
  ∀ p ∈ pairs, p.1 < i ∧ p.2 < j

variable {xs ys : List α} {pairs : List (Nat × Nat)}
variable {p : Nat × Nat} {i j : Nat}

/- What is before the last pair, and the last pair. -/
theorem IsCommon.concat
    (h : IsCommon xs ys (pairs ++ [p])) :
    IsCommon xs ys pairs ∧ Among p.1 p.2 pairs ∧
      ∃ x, xs[p.1]? = some x ∧ ys[p.2]? = some x := by
  obtain ⟨hBefore, -, hLast⟩ :=
    List.pairwise_append.mp h.increasing
  refine ⟨⟨hBefore, fun q hq => h.equal q ?_⟩,
    fun q hq => hLast q hq p List.mem_cons_self,
    h.equal p ?_⟩
  · exact List.mem_append_left _ hq
  · exact List.mem_append_right _ List.mem_cons_self

theorem Among.mono
    {i' j' : Nat}
    (h : Among i j pairs)
    (hi : i ≤ i')
    (hj : j ≤ j') : Among i' j' pairs := fun q hq =>
  ⟨Nat.lt_of_lt_of_le (h q hq).1 hi,
    Nat.lt_of_lt_of_le (h q hq).2 hj⟩

variable [DecidableEq α]

/- For the first `i` items of one list and `j` of the other. -/
def longest (xs ys : List α) : Nat → Nat → Nat
  | 0, _ => 0
  | _ + 1, 0 => 0
  | i + 1, j + 1 =>
      if xs[i]? = ys[j]? then
        longest xs ys i j + 1
      else
        max (longest xs ys i (j + 1)) (longest xs ys (i + 1) j)

@[simp]
theorem longest_zero
    (xs ys : List α)
    (j : Nat) : longest xs ys 0 j = 0 := by
  rw [longest]

@[simp]
theorem longest_zero_right
    (xs ys : List α)
    (i : Nat) : longest xs ys i 0 = 0 := by
  cases i <;> rw [longest]

/- The last pair is of the last items, or one is left out. -/
theorem IsCommon.length_le_longest
    (h : IsCommon xs ys pairs)
    (hAmong : Among i j pairs) :
    pairs.length ≤ longest xs ys i j := by
  induction i, j using longest.induct xs ys
      generalizing pairs with
  | case1 j =>
      have hNone : pairs = [] :=
        List.eq_nil_iff_forall_not_mem.mpr fun p hp =>
          Nat.not_lt_zero _ (hAmong p hp).1
      simp [hNone]
  | case2 i =>
      have hNone : pairs = [] :=
        List.eq_nil_iff_forall_not_mem.mpr fun p hp =>
          Nat.not_lt_zero _ (hAmong p hp).2
      simp [hNone]
  | case3 i j hSame ih =>
      rw [longest, if_pos hSame]
      rcases List.eq_nil_or_concat' pairs with
        rfl | ⟨before, last, rfl⟩
      · exact Nat.zero_le _
      · obtain ⟨hBefore, hLess, -⟩ := h.concat
        have hLast := hAmong last (by simp)
        rw [List.length_append, List.length_singleton]
        exact Nat.succ_le_succ (ih hBefore
          (hLess.mono (Nat.le_of_lt_succ hLast.1)
            (Nat.le_of_lt_succ hLast.2)))
  | case4 i j hOther ihUp ihLeft =>
      rw [longest, if_neg hOther]
      rcases List.eq_nil_or_concat' pairs with
        rfl | ⟨before, last, rfl⟩
      · exact Nat.zero_le _
      obtain ⟨-, hLess, x, hx, hy⟩ := h.concat
      have hLast := hAmong last (by simp)
      by_cases hUp : last.1 < i
      · refine Nat.le_trans (ihUp h fun q hq => ?_)
          (Nat.le_max_left _ _)
        rcases List.mem_append.mp hq with hBefore | hHere
        · exact ⟨Nat.lt_trans (hLess q hBefore).1 hUp,
            (hAmong q hq).2⟩
        · rw [List.mem_singleton.mp hHere]
          exact ⟨hUp, hLast.2⟩
      · -- The last items differ, so the other one is left out.
        have hHere : last.1 = i := by omega
        have hLeft : last.2 < j := by
          refine Nat.lt_of_le_of_ne
            (Nat.le_of_lt_succ hLast.2) fun hThere => hOther ?_
          rw [← hHere, ← hThere, hx, hy]
        refine Nat.le_trans (ihLeft h fun q hq => ?_)
          (Nat.le_max_right _ _)
        rcases List.mem_append.mp hq with hBefore | hEnd
        · exact ⟨(hAmong q hq).1,
            Nat.lt_trans (hLess q hBefore).2 hLeft⟩
        · rw [List.mem_singleton.mp hEnd]
          exact ⟨hLast.1, hLeft⟩

end CommonSubsequences

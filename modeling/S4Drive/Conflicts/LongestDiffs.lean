import S4Drive.Conflicts.LineDiffs
import S4Drive.Library.CommonSubsequences

/-
  The line diff pairs as many lines as can be paired. The
  table is filled row by row, with the greatest length of a
  common subsequence of the lines so far in each cell; the
  walk back through it keeps, in every step, the number of
  its pairs and of those that are still to come.

  Main declarations:
    * `Filled`, `lcsTable_filled`
    * `lcsBack_longest`
    * `lineDiff_correct`
-/

open CommonSubsequences

------------------------------------------------------------
-- Loops
------------------------------------------------------------

namespace S4Drive

namespace ConflictEngine

variable {α β : Type}

/- Round by round, with the number of the round. -/
theorem foldlM_range'_ok
    {step : β → Nat → Checked β} {P : Nat → β → Prop}
    {start count : Nat} {b : β}
    (hStep : ∀ b k, start ≤ k → k < start + count → P k b →
      ∃ b', step b k = .ok b' ∧ P (k + 1) b')
    (hb : P start b) :
    ∃ b', (List.range' start count).foldlM step b = .ok b' ∧
      P (start + count) b' := by
  induction count generalizing start b with
  | zero => exact ⟨b, rfl, hb⟩
  | succ count ih =>
      obtain ⟨b₁, hFirst, hb₁⟩ :=
        hStep b start (Nat.le_refl _) (by omega) hb
      obtain ⟨b', hRest, hb'⟩ := ih
        (fun b k hFrom hTo =>
          hStep b k (by omega) (by omega)) hb₁
      refine ⟨b', ?_, ?_⟩
      · rw [List.range'_succ, List.foldlM_cons, hFirst]
        exact hRest
      · rwa [Nat.add_right_comm, Nat.add_assoc] at hb'

------------------------------------------------------------
-- The Table
------------------------------------------------------------

variable {m n i j : Nat} {dp : Table}

theorem entry_setEntry
    {value : Nat}
    (h : Dims m n dp)
    (hi : i ≤ m)
    (hj : j ≤ n) :
    ∃ dp', setEntry dp i j value = .ok dp' ∧ Dims m n dp' ∧
      entry dp' i j = .ok value ∧
      ∀ a b, (a ≠ i ∨ b ≠ j) → entry dp' a b = entry dp a b := by
  obtain ⟨dp', hSet, hDims⟩ := h.setEntry hi hj value
  refine ⟨dp', hSet, hDims, ?_⟩
  have hRow : i < dp.length := by
    rw [h.rows]
    omega
  have hColumn : j < dp[i].length := by
    rw [h.columns _ (List.getElem_mem hRow)]
    omega
  have hTable : dp' = dp.set i (dp[i].set j value) := by
    unfold setEntry at hSet
    rw [index_ok (List.getElem?_eq_getElem hRow)] at hSet
    simpa [setAt, hRow, hColumn, bind, Except.bind]
      using hSet.symm
  rw [hTable]
  constructor
  · simp [entry, index, hRow, hColumn, bind, Except.bind]
  · intro a b hOther
    by_cases hSame : a = i
    · have hb : j ≠ b := fun hb =>
        hOther.elim (absurd hSame) (absurd hb.symm)
      simp [entry, index, hSame, hRow, hb, bind, Except.bind]
    · simp [entry, index, Ne.symm hSame, bind, Except.bind]

variable [DecidableEq α] {base modified : List α}

/-
  The margins, the rows before the cell and what is left of
  it hold the greatest lengths.
-/
structure Filled
    (base modified : List α)
    (i j : Nat)
    (dp : Table) : Prop where
  dims : Dims base.length modified.length dp
  longest :
    ∀ a b, a ≤ base.length → b ≤ modified.length →
      (a = 0 ∨ b = 0 ∨ a < i ∨ a = i ∧ b < j) →
      entry dp a b = .ok (longest base modified a b)

theorem filled_first
    (base modified : List α) :
    Filled base modified 1 1
      (List.replicate (base.length + 1)
        (List.replicate (modified.length + 1) 0)) where
  dims := by
    constructor
    · simp
    · intro row hRow
      rw [List.eq_of_mem_replicate hRow]
      simp
  longest := by
    intro a b ha hb hBefore
    have hMargin : a = 0 ∨ b = 0 := by omega
    have hZero : longest base modified a b = 0 := by
      rcases hMargin with rfl | rfl <;> simp
    simp [hZero, entry, index, bind, Except.bind,
      Nat.lt_succ_of_le ha, Nat.lt_succ_of_le hb]

theorem lcsCell_filled
    (h : Filled base modified i j dp)
    (hi : 1 ≤ i ∧ i ≤ base.length)
    (hj : 1 ≤ j ∧ j ≤ modified.length) :
    ∃ dp', lcsCell base modified i dp j = .ok dp' ∧
      Filled base modified i (j + 1) dp' := by
  obtain ⟨i, rfl⟩ := Nat.exists_add_one_eq.mpr hi.1
  obtain ⟨j, rfl⟩ := Nat.exists_add_one_eq.mpr hj.1
  have hBase := List.getElem?_eq_getElem
    (Nat.lt_of_succ_le hi.2)
  have hModified := List.getElem?_eq_getElem
    (Nat.lt_of_succ_le hj.2)
  have hStep :
      ∀ value, value = longest base modified (i + 1) (j + 1) →
        ∃ dp', setEntry dp (i + 1) (j + 1) value = .ok dp' ∧
          Filled base modified (i + 1) (j + 1 + 1) dp' := by
    rintro value rfl
    obtain ⟨dp', hSet, hDims, hHere, hThere⟩ :=
      entry_setEntry h.dims hi.2 hj.2
    refine ⟨dp', hSet, hDims, fun a b ha hb hBefore => ?_⟩
    by_cases hCell : a = i + 1 ∧ b = j + 1
    · rw [hCell.1, hCell.2, hHere]
    · rw [hThere a b (by omega)]
      exact h.longest a b ha hb (by omega)
  unfold lcsCell
  simp only [Nat.add_sub_cancel, index_ok hBase,
    index_ok hModified, bind, Except.bind]
  split
  · rename_i hSame
    rw [h.longest i j (by omega) (by omega) (by omega)]
    apply hStep
    rw [longest, if_pos (by rw [hBase, hModified, hSame])]
  · rename_i hOther
    rw [h.longest i (j + 1) (by omega) hj.2 (by omega),
      h.longest (i + 1) j hi.2 (by omega) (by omega)]
    apply hStep
    rw [longest, if_neg (by simpa [hBase, hModified])]

theorem lcsTable_filled
    (base modified : List α) :
    ∃ dp, lcsTable base modified = .ok dp ∧
      Filled base modified (base.length + 1) 1 dp := by
  have hRow (i : Nat) (dp : Table) (hFrom : 1 ≤ i)
      (hTo : i < 1 + base.length)
      (hFilled : Filled base modified i 1 dp) :
      ∃ dp', (List.range' 1 modified.length).foldlM
          (lcsCell base modified i) dp = .ok dp' ∧
        Filled base modified (i + 1) 1 dp' := by
    obtain ⟨dp', hOk, hFilled'⟩ :
        ∃ dp', (List.range' 1 modified.length).foldlM
            (lcsCell base modified i) dp = .ok dp' ∧
          Filled base modified i (1 + modified.length) dp' :=
      foldlM_range'_ok
        (P := fun j dp => Filled base modified i j dp)
        (fun dp j hj hEnd hCells =>
          lcsCell_filled hCells ⟨hFrom, by omega⟩
            ⟨hj, by omega⟩) hFilled
    exact ⟨dp', hOk, hFilled'.dims,
      fun a b ha hb hBefore =>
        hFilled'.longest a b ha hb (by omega)⟩
  have hRows := foldlM_range'_ok
    (P := fun i dp => Filled base modified i 1 dp)
    (fun dp i hFrom hTo hFilled => hRow i dp hFrom hTo hFilled)
    (filled_first base modified)
  rwa [Nat.add_comm 1] at hRows

/- The pairs so far and those to come are as many as before. -/
theorem lcsBack_longest
    {rounds : Nat} {result pairs : List (Nat × Nat)}
    (hTable :
      Filled base modified (base.length + 1) 1 dp)
    (hi : i ≤ base.length)
    (hj : j ≤ modified.length)
    (hRounds : i + j ≤ rounds)
    (h : lcsBack base modified dp rounds i j result =
      .ok pairs) :
    pairs.length = longest base modified i j + result.length := by
  induction rounds generalizing i j result with
  | zero =>
      obtain ⟨rfl, rfl⟩ : i = 0 ∧ j = 0 := by omega
      cases h
      simp
  | succ rounds ih =>
      unfold lcsBack at h
      split at h
      · rename_i hInside
        obtain ⟨i, rfl⟩ := Nat.exists_add_one_eq.mpr hInside.1
        obtain ⟨j, rfl⟩ := Nat.exists_add_one_eq.mpr hInside.2
        have hBase := List.getElem?_eq_getElem
          (Nat.lt_of_succ_le hi)
        have hModified := List.getElem?_eq_getElem
          (Nat.lt_of_succ_le hj)
        simp only [Nat.add_sub_cancel, index_ok hBase,
          index_ok hModified, bind, Except.bind] at h
        rw [longest]
        split at h
        · rename_i hSame
          rw [if_pos (by rw [hBase, hModified, hSame]),
            ih (by omega) (by omega) (by omega) h,
            List.length_cons]
          omega
        · rename_i hOther
          rw [if_neg (by simpa [hBase, hModified])]
          rw [hTable.longest i (j + 1) (by omega) hj (by omega),
            hTable.longest (i + 1) j hi (by omega) (by omega)]
            at h
          dsimp only at h
          split at h
          · rw [ih (by omega) hj (by omega) h]
            omega
          · rw [ih hi (by omega) (by omega) h]
            omega
      · cases h
        rcases Nat.eq_zero_or_pos i with rfl | hPos
        · simp
        · obtain rfl : j = 0 := by omega
          simp

omit [DecidableEq α] in
theorem Matching.isCommon
    {pairs : List (Nat × Nat)}
    (h : Matching base modified pairs i j) :
    IsCommon base modified pairs ∧
      ∀ p ∈ pairs, i ≤ p.1 ∧ j ≤ p.2 := by
  induction pairs generalizing i j with
  | nil => exact ⟨⟨.nil, by simp⟩, by simp⟩
  | cons pair pairs ih =>
      obtain ⟨hi, hj, hEqual, hRest⟩ := h
      obtain ⟨hCommon, hLater⟩ := ih hRest
      refine ⟨⟨List.pairwise_cons.mpr ⟨hLater,
        hCommon.increasing⟩, ?_⟩, ?_⟩
      · intro p hp
        rcases List.mem_cons.mp hp with rfl | hMem
        · exact hEqual
        · exact hCommon.equal p hMem
      · intro p hp
        rcases List.mem_cons.mp hp with rfl | hMem
        · exact ⟨hi, hj⟩
        · have hAfter := hLater p hMem
          omega

theorem lcsPairs_longest
    (base modified : List α) :
    ∃ pairs, lcsPairs base modified = .ok pairs ∧
      IsCommon base modified pairs ∧
      ∀ others, IsCommon base modified others →
        others.length ≤ pairs.length := by
  obtain ⟨pairs, hPairs, hMatching⟩ :=
    lcsPairs_matching base modified
  refine ⟨pairs, hPairs, hMatching.isCommon.1,
    fun others hOthers => ?_⟩
  have hAmong :
      Among base.length modified.length others := by
    intro p hp
    obtain ⟨x, hBase, hModified⟩ := hOthers.equal p hp
    exact ⟨(List.getElem?_eq_some_iff.mp hBase).1,
      (List.getElem?_eq_some_iff.mp hModified).1⟩
  refine (hOthers.length_le_longest hAmong).trans
    (Nat.le_of_eq ?_)
  unfold lcsPairs at hPairs
  split at hPairs
  · rename_i hEmpty
    cases hPairs
    rcases hEmpty with hNone | hNone <;> simp [hNone]
  · obtain ⟨dp, hTable, hFilled⟩ :=
      lcsTable_filled base modified
    rw [hTable] at hPairs
    exact (lcsBack_longest hFilled (Nat.le_refl _)
      (Nat.le_refl _) (Nat.le_refl _) hPairs).symm

/-
  The pairs are a longest common subsequence, and the changes
  are in order, apart from each other and within the base,
  and turn it into the other lines.
-/
theorem lineDiff_correct
    (base modified : List α) :
    (∃ pairs, lcsPairs base modified = .ok pairs ∧
      IsCommon base modified pairs ∧
      ∀ others, IsCommon base modified others →
        others.length ≤ pairs.length) ∧
    ∃ changes, diffLines base modified = .ok changes ∧
      Edit.IsScript base.length changes ∧
      Edit.patchFrom base changes 0 = modified :=
  ⟨lcsPairs_longest base modified,
    diffLines_spec base modified⟩

end ConflictEngine

end S4Drive

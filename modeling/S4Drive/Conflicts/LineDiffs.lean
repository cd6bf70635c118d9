import S4Drive.Conflicts.TextMerge

/-
  The line diff never panics. Its changes are a script that
  turns the base into the modified lines, whichever of the
  longest common subsequences the table leads to.

  Main declarations:
    * `Matching`
    * `lcsPairs_matching`
    * `diffLines_spec`
    * `diffLines_self`
-/

------------------------------------------------------------
-- Checked Access
------------------------------------------------------------

namespace S4Drive

namespace ConflictEngine

variable {α β : Type}

theorem index_ok
    {xs : List α} {i : Nat} {x : α}
    (h : xs[i]? = some x) : index xs i = .ok x := by
  unfold index
  rw [h]

theorem slice_ok
    {xs : List α} {start stop : Nat}
    (hOrder : start ≤ stop)
    (hEnd : stop ≤ xs.length) :
    slice xs start stop =
      .ok ((xs.take stop).drop start) := by
  unfold slice
  rw [if_neg (by omega), if_neg (by omega)]

/- A loop succeeds when every round keeps what it needs. -/
theorem foldlM_ok
    {step : β → α → Checked β} {P : β → Prop}
    {xs : List α} {b : β}
    (hStep :
      ∀ b, ∀ x ∈ xs, P b → ∃ b', step b x = .ok b' ∧ P b')
    (hb : P b) :
    ∃ b', xs.foldlM step b = .ok b' ∧ P b' := by
  induction xs generalizing b with
  | nil => exact ⟨b, rfl, hb⟩
  | cons x xs ih =>
      rcases hStep b x List.mem_cons_self hb with
        ⟨b₁, hFirst, hb₁⟩
      rcases ih (fun b y hy =>
        hStep b y (List.mem_cons_of_mem _ hy)) hb₁ with
        ⟨b', hRest, hb'⟩
      refine ⟨b', ?_, hb'⟩
      rw [List.foldlM_cons, hFirst]
      exact hRest

------------------------------------------------------------
-- The Table
------------------------------------------------------------

/- A table of `m` rows and `n` columns, and the margins. -/
structure Dims (m n : Nat) (dp : Table) : Prop where
  rows : dp.length = m + 1
  columns : ∀ row ∈ dp, row.length = n + 1

variable {m n i j : Nat} {dp : Table}

theorem Dims.entry
    (h : Dims m n dp)
    (hi : i ≤ m)
    (hj : j ≤ n) : ∃ value, entry dp i j = .ok value := by
  have hRow : i < dp.length := by
    rw [h.rows]
    omega
  have hColumn : j < dp[i].length := by
    rw [h.columns _ (List.getElem_mem hRow)]
    omega
  refine ⟨dp[i][j], ?_⟩
  unfold ConflictEngine.entry
  rw [index_ok (List.getElem?_eq_getElem hRow)]
  exact index_ok (List.getElem?_eq_getElem hColumn)

theorem Dims.setEntry
    (h : Dims m n dp)
    (hi : i ≤ m)
    (hj : j ≤ n)
    (value : Nat) :
    ∃ dp', setEntry dp i j value = .ok dp' ∧
      Dims m n dp' := by
  have hRow : i < dp.length := by
    rw [h.rows]
    omega
  have hLength := h.columns _ (List.getElem_mem hRow)
  refine ⟨dp.set i (dp[i].set j value), ?_, ?_, ?_⟩
  · unfold ConflictEngine.setEntry
    rw [index_ok (List.getElem?_eq_getElem hRow)]
    simp only [setAt, hLength, hRow, Nat.lt_succ_of_le hj,
      if_true, bind, Except.bind]
  · rw [List.length_set]
    exact h.rows
  · intro row hMem
    rcases List.mem_or_eq_of_mem_set hMem with hMem | rfl
    · exact h.columns row hMem
    · rw [List.length_set]
      exact hLength

variable [DecidableEq α] {base modified : List α}

theorem lcsCell_ok
    (h : Dims base.length modified.length dp)
    (hi : 1 ≤ i ∧ i ≤ base.length)
    (hj : 1 ≤ j ∧ j ≤ modified.length) :
    ∃ dp', lcsCell base modified i dp j = .ok dp' ∧
      Dims base.length modified.length dp' := by
  have hBase : i - 1 < base.length := by omega
  have hModified : j - 1 < modified.length := by omega
  unfold lcsCell
  rw [index_ok (List.getElem?_eq_getElem hBase),
    index_ok (List.getElem?_eq_getElem hModified)]
  simp only [bind, Except.bind]
  split
  · rcases h.entry (Nat.le_of_lt hBase)
      (Nat.le_of_lt hModified) with ⟨corner, hCorner⟩
    rw [hCorner]
    exact h.setEntry hi.2 hj.2 _
  · rcases h.entry (Nat.le_of_lt hBase) hj.2 with
      ⟨above, hAbove⟩
    rcases h.entry hi.2 (Nat.le_of_lt hModified) with
      ⟨left, hLeft⟩
    rw [hAbove, hLeft]
    exact h.setEntry hi.2 hj.2 _

theorem lcsTable_ok
    (base modified : List α) :
    ∃ dp, lcsTable base modified = .ok dp ∧
      Dims base.length modified.length dp := by
  unfold lcsTable
  apply foldlM_ok
  · intro dp i hi hDims
    rw [List.mem_range'_1] at hi
    apply foldlM_ok _ hDims
    intro dp j hj hDims
    rw [List.mem_range'_1] at hj
    exact lcsCell_ok hDims ⟨hi.1, by omega⟩ ⟨hj.1, by omega⟩
  · constructor
    · simp
    · intro row hRow
      rw [List.eq_of_mem_replicate hRow]
      simp

/- Pairs of equal items, each after the one before it. -/
def Matching
    (base modified : List α) :
    List (Nat × Nat) → Nat → Nat → Prop
  | [], i, j => i ≤ base.length ∧ j ≤ modified.length
  | pair :: pairs, i, j =>
      i ≤ pair.1 ∧ j ≤ pair.2 ∧
        (∃ x, base[pair.1]? = some x ∧
          modified[pair.2]? = some x) ∧
        Matching base modified pairs (pair.1 + 1) (pair.2 + 1)

omit [DecidableEq α] in
theorem Matching.mono
    {pairs : List (Nat × Nat)} {i' j' : Nat}
    (h : Matching base modified pairs i j)
    (hi : i' ≤ i)
    (hj : j' ≤ j) : Matching base modified pairs i' j' := by
  cases pairs with
  | nil => exact ⟨hi.trans h.1, hj.trans h.2⟩
  | cons pair pairs =>
      rcases h with ⟨hFrom, hFrom', hEqual, hRest⟩
      exact ⟨hi.trans hFrom, hj.trans hFrom', hEqual, hRest⟩

theorem lcsBack_matching
    {rounds : Nat} {result : List (Nat × Nat)}
    (hDims : Dims base.length modified.length dp)
    (h : Matching base modified result i j)
    (hi : i ≤ base.length)
    (hj : j ≤ modified.length) :
    ∃ pairs,
      lcsBack base modified dp rounds i j result = .ok pairs ∧
        Matching base modified pairs 0 0 := by
  induction rounds generalizing i j result with
  | zero =>
      exact ⟨result, rfl, h.mono (Nat.zero_le _)
        (Nat.zero_le _)⟩
  | succ rounds ih =>
      unfold lcsBack
      split
      · rename_i hInside
        have hBase : i - 1 < base.length := by omega
        have hModified : j - 1 < modified.length := by omega
        rw [index_ok (List.getElem?_eq_getElem hBase),
          index_ok (List.getElem?_eq_getElem hModified)]
        simp only [bind, Except.bind]
        split
        · rename_i hEqual
          apply ih _ (Nat.le_of_lt hBase)
            (Nat.le_of_lt hModified)
          refine ⟨Nat.le_refl _, Nat.le_refl _, ?_, ?_⟩
          · refine ⟨base[i - 1],
              List.getElem?_eq_getElem hBase, ?_⟩
            rw [hEqual]
            exact List.getElem?_eq_getElem hModified
          · simpa only [Nat.sub_add_cancel hInside.1,
              Nat.sub_add_cancel hInside.2] using h
        · rcases hDims.entry (Nat.le_of_lt hBase) hj with
            ⟨above, hAbove⟩
          rcases hDims.entry hi (Nat.le_of_lt hModified) with
            ⟨left, hLeft⟩
          rw [hAbove, hLeft]
          dsimp only
          split
          · exact ih (h.mono (Nat.sub_le _ _) (Nat.le_refl _))
              (Nat.le_of_lt hBase) hj
          · exact ih (h.mono (Nat.le_refl _) (Nat.sub_le _ _))
              hi (Nat.le_of_lt hModified)
      · exact ⟨result, rfl, h.mono (Nat.zero_le _)
          (Nat.zero_le _)⟩

theorem lcsPairs_matching
    (base modified : List α) :
    ∃ pairs, lcsPairs base modified = .ok pairs ∧
      Matching base modified pairs 0 0 := by
  unfold lcsPairs
  split
  · exact ⟨[], rfl, Nat.zero_le _, Nat.zero_le _⟩
  · rcases lcsTable_ok base modified with ⟨dp, hTable, hDims⟩
    rw [hTable]
    exact lcsBack_matching hDims
      ⟨Nat.le_refl _, Nat.le_refl _⟩ (Nat.le_refl _)
      (Nat.le_refl _)

------------------------------------------------------------
-- Changes
------------------------------------------------------------

/- The script turns the rest of the base into the other. -/
structure Turns
    (base modified : List α)
    (i j : Nat)
    (cs : List (Edit α)) : Prop where
  script : Edit.IsScript base.length cs
  later : ∀ c ∈ cs, i ≤ c.start
  patch : Edit.patchFrom base cs i = modified.drop j

omit [DecidableEq α] in
theorem changeAt_ok
    {baseIndex modifiedIndex : Nat}
    (hi : i ≤ baseIndex)
    (hj : j ≤ modifiedIndex)
    (hEnd : modifiedIndex ≤ modified.length) :
    ∃ change,
      changeAt modified i baseIndex j modifiedIndex =
          .ok change ∧
        (change =
            [⟨i, baseIndex,
              (modified.take modifiedIndex).drop j⟩] ∨
          (change = [] ∧ i = baseIndex ∧
            j = modifiedIndex)) := by
  unfold changeAt
  split
  · rw [slice_ok hj hEnd]
    exact ⟨_, rfl, .inl rfl⟩
  · exact ⟨[], rfl, .inr ⟨rfl, by omega, by omega⟩⟩

/- A change up to a match, and the changes after it. -/
omit [DecidableEq α] in
theorem Turns.cons
    {cs : List (Edit α)} {change : List (Edit α)}
    {baseIndex modifiedIndex : Nat} {x : α}
    (h : Turns base modified (baseIndex + 1)
      (modifiedIndex + 1) cs)
    (hi : i ≤ baseIndex)
    (hj : j ≤ modifiedIndex)
    (hBase : base[baseIndex]? = some x)
    (hModified : modified[modifiedIndex]? = some x)
    (hChange :
      change =
          [⟨i, baseIndex,
            (modified.take modifiedIndex).drop j⟩] ∨
        (change = [] ∧ i = baseIndex ∧ j = modifiedIndex)) :
    Turns base modified i j (change ++ cs) := by
  have hWithin : baseIndex < base.length :=
    (List.getElem?_eq_some_iff.mp hBase).1
  have hRest :
      Edit.patchFrom base cs baseIndex =
        modified.drop modifiedIndex := by
    rw [Edit.patchFrom_split (Nat.le_succ baseIndex) h.later,
      h.patch]
    have hOne :
        (base.take (baseIndex + 1)).drop baseIndex = [x] := by
      rw [List.take_add_one, hBase, List.drop_append]
      simp [Nat.le_of_lt hWithin]
    rw [hOne]
    rcases List.getElem?_eq_some_iff.mp hModified with
      ⟨hLess, hItem⟩
    rw [List.drop_eq_getElem_cons hLess, hItem]
    rfl
  rcases hChange with rfl | ⟨rfl, rfl, rfl⟩
  · refine ⟨⟨?_, ?_⟩, ?_, ?_⟩
    · intro c hc
      rcases List.mem_cons.mp hc with rfl | hc
      · exact ⟨hi, Nat.le_of_lt hWithin⟩
      · exact h.script.within c hc
    · exact List.pairwise_cons.mpr
        ⟨fun c hc => h.later c hc, h.script.spaced⟩
    · intro c hc
      rcases List.mem_cons.mp hc with rfl | hc
      · exact Nat.le_refl _
      · have hLater := h.later c hc
        omega
    · have hNone : (base.take i).drop i = [] := by simp
      simp only [List.cons_append, List.nil_append,
        Edit.patchFrom, hRest, hNone]
      rw [← List.drop_append_of_le_length,
        List.take_append_drop]
      have hEnd := (List.getElem?_eq_some_iff.mp hModified).1
      rw [List.length_take]
      omega
  · refine ⟨h.script, ?_, hRest⟩
    intro c hc
    have hLater := h.later c hc
    omega

omit [DecidableEq α] in
theorem diffPairs_turns
    {pairs : List (Nat × Nat)}
    (h : Matching base modified pairs i j) :
    ∃ cs, diffPairs base modified pairs i j = .ok cs ∧
      Turns base modified i j cs := by
  induction pairs generalizing i j with
  | nil =>
      rcases changeAt_ok h.1 h.2 (Nat.le_refl _) with
        ⟨change, hOk, hChange⟩
      refine ⟨change, hOk, ?_⟩
      rcases hChange with rfl | ⟨rfl, rfl, rfl⟩
      · refine ⟨⟨?_, List.pairwise_singleton _ _⟩, ?_, ?_⟩
        · intro c hc
          cases List.mem_singleton.mp hc
          exact ⟨h.1, Nat.le_refl _⟩
        · intro c hc
          cases List.mem_singleton.mp hc
          exact Nat.le_refl _
        · simp [Edit.patchFrom]
      · exact ⟨.nil, by simp, by simp [Edit.patchFrom]⟩
  | cons pair pairs ih =>
      rcases h with ⟨hi, hj, ⟨x, hBase, hModified⟩, hRest⟩
      have hEnd := (List.getElem?_eq_some_iff.mp hModified).1
      rcases changeAt_ok hi hj (Nat.le_of_lt hEnd) with
        ⟨change, hOk, hChange⟩
      rcases ih hRest with ⟨cs, hChanges, hTurns⟩
      refine ⟨change ++ cs, ?_, hTurns.cons hi hj hBase
        hModified hChange⟩
      unfold diffPairs
      rw [hOk, hChanges]
      rfl

/- Nothing but equal items, in their own places. -/
def diagonal (i : Nat) : Nat → List (Nat × Nat)
  | 0 => []
  | count + 1 => (i, i) :: diagonal (i + 1) count

theorem lcsBack_self
    {rounds : Nat}
    (count : Nat)
    (hRounds : i ≤ rounds)
    (hLength : i + count = base.length) :
    lcsBack base base dp rounds i i (diagonal i count) =
      .ok (diagonal 0 base.length) := by
  induction rounds generalizing i count with
  | zero =>
      have hZero : i = 0 := by omega
      subst hZero
      rw [← hLength, Nat.zero_add]
      rfl
  | succ rounds ih =>
      unfold lcsBack
      cases i with
      | zero =>
          rw [← hLength, Nat.zero_add]
          rfl
      | succ i =>
          have hLess : i < base.length := by omega
          rw [if_pos ⟨Nat.succ_pos i, Nat.succ_pos i⟩,
            Nat.add_sub_cancel,
            index_ok (List.getElem?_eq_getElem hLess)]
          simp only [bind, Except.bind, if_true]
          exact ih (count + 1) (by omega) (by omega)

omit [DecidableEq α] in
theorem diffPairs_diagonal
    {count : Nat}
    (hLength : i + count = base.length) :
    diffPairs base base (diagonal i count) i i = .ok [] := by
  induction count generalizing i with
  | zero =>
      have hEnd : i = base.length := by omega
      subst hEnd
      simp [diagonal, diffPairs, changeAt, pure, Except.pure]
  | succ count ih =>
      have hRest := ih (i := i + 1) (by omega)
      simp [diagonal, diffPairs, changeAt, hRest, pure,
        Except.pure, bind, Except.bind]

theorem diffLines_self
    (base : List α) : diffLines base base = .ok [] := by
  have hPairs :
      lcsPairs base base = .ok (diagonal 0 base.length) := by
    unfold lcsPairs
    split
    · rename_i hEmpty
      rw [or_self] at hEmpty
      rw [hEmpty]
      rfl
    · rcases lcsTable_ok base base with ⟨dp, hTable, _⟩
      rw [hTable]
      exact lcsBack_self 0 (by omega) rfl
  unfold diffLines
  rw [hPairs]
  exact diffPairs_diagonal (Nat.zero_add _)

/- The diff is a script from the base to the other lines. -/
theorem diffLines_spec
    (base modified : List α) :
    ∃ cs, diffLines base modified = .ok cs ∧
      Edit.IsScript base.length cs ∧
      Edit.patchFrom base cs 0 = modified := by
  rcases lcsPairs_matching base modified with
    ⟨pairs, hPairs, hMatching⟩
  rcases diffPairs_turns hMatching with ⟨cs, hChanges, hTurns⟩
  refine ⟨cs, ?_, hTurns.script, hTurns.patch⟩
  unfold diffLines
  rw [hPairs]
  exact hChanges

end ConflictEngine

end S4Drive

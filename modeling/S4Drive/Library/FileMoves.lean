import S4Drive.Library.FileTree

/-
  Trees of files in which one entry is moved again and again.
  Where every state is rooted, the way of the entry does not
  matter: `Moved a b` says that all is as before but for what
  was at `a` and is at `b` now.

  Main declarations:
    * `Files.Moved`
    * `Files.Moved.moveTree`, `Files.Moved.back`
-/

------------------------------------------------------------
-- Moves
------------------------------------------------------------

namespace FileTree

namespace Files

variable {ν β : Type} [DecidableEq ν]
variable {files files' : Files ν β} {a b c q : List ν}

/- What is at and inside `a` is at `b`, on free ground. -/
structure Moved
    (a b : List ν)
    (files files' : Files ν β) : Prop where
  nodes :
    ∀ q, files'.nodeAt q =
      if b <+: q then files.nodeAt (a ++ q.drop b.length)
      else if a <+: q then none else files.nodeAt q
  target : b = a ∨ b ≠ [] ∧ files.nodeAt b = none

theorem Moved.refl (a : List ν) (files : Files ν β) :
    Moved a a files files where
  nodes := by
    intro q
    by_cases hIn : a <+: q
    · obtain ⟨s, rfl⟩ := hIn
      simp
    · simp only [hIn, if_false]
  target := Or.inl rfl

/- Back at its own path, nothing has changed. -/
theorem Moved.back
    (h : Moved a a files files')
    (q : List ν) : files'.nodeAt q = files.nodeAt q := by
  rw [h.nodes q]
  exact ((Moved.refl a files).nodes q).symm

theorem Moved.nodeAt_target
    (h : Moved a b files files') :
    files'.nodeAt b = files.nodeAt a := by
  rw [h.nodes b, if_pos (List.prefix_refl b)]
  simp

theorem nodeAt_moveTree_source
    (hOther : ¬ b <+: a) :
    (files.moveTree a b).nodeAt a = none := by
  simp [hOther]

theorem nodeAt_moveTree_target :
    (files.moveTree a b).nodeAt b = files.nodeAt a := by
  simp

/- A tree is not moved into itself and stays rooted. -/
theorem not_below_of_rooted
    (hRooted : files.Rooted)
    (hMoves : (files.moveTree a b).Rooted)
    (hSource : files.nodeAt a ≠ none)
    (hFree : files.nodeAt b = none) : ¬ a <+: b := by
  intro hBelow
  have hOther : b ≠ a := by
    rintro rfl
    exact hSource hFree
  have hTarget : (files.moveTree a b).nodeAt b ≠ none := by
    rwa [nodeAt_moveTree_target]
  have hFolder := hMoves.folder_above (hRooted a hSource).1
    hBelow hOther hTarget
  have hNotAbove : ¬ b <+: a := fun hAbove =>
    hOther (hAbove.eq_of_length
      (Nat.le_antisymm hAbove.length_le hBelow.length_le))
  rw [nodeAt_moveTree_source hNotAbove] at hFolder
  contradiction

/- The place that is left behind is not moved into. -/
theorem Moved.free_target
    (h : Moved a b files files')
    (hRooted : files.Rooted)
    (hRooted' : files'.Rooted)
    (hMoves : (files'.moveTree b c).Rooted)
    (hSource : files'.nodeAt b ≠ none)
    (hFree : files'.nodeAt c = none) :
    c = a ∨ c ≠ [] ∧ files.nodeAt c = none := by
  have hTarget : (files'.moveTree b c).nodeAt c ≠ none := by
    rwa [nodeAt_moveTree_target]
  have hBelow : ¬ b <+: c :=
    not_below_of_rooted hRooted' hMoves hSource hFree
  by_cases hSame : c = a
  · exact Or.inl hSame
  refine Or.inr ⟨(hMoves c hTarget).1, ?_⟩
  have hInside : ¬ a <+: c := by
    intro hIn
    have hStart : a ≠ [] := by
      rw [h.nodeAt_target] at hSource
      exact (hRooted a hSource).1
    have hFolder :=
      hMoves.folder_above hStart hIn hSame hTarget
    have hNotAbove : ¬ c <+: a := fun hAbove =>
      hSame (hAbove.eq_of_length
        (Nat.le_antisymm hAbove.length_le hIn.length_le))
    rw [nodeAt_moveTree, if_neg hNotAbove] at hFolder
    by_cases hAbove : b <+: a
    · rw [if_pos hAbove] at hFolder
      contradiction
    · rw [if_neg hAbove, h.nodes a, if_neg hAbove,
        if_pos (List.prefix_refl a)] at hFolder
      contradiction
  have hHere := h.nodes c
  rw [if_neg hBelow, if_neg hInside, hFree] at hHere
  exact hHere.symm

/- One more move of the same entry. -/
theorem Moved.moveTree
    (h : Moved a b files files')
    (hRooted : files.Rooted)
    (hRooted' : files'.Rooted)
    (hMoves : (files'.moveTree b c).Rooted)
    (hSource : files'.nodeAt b ≠ none)
    (hFree : files'.nodeAt c = none) :
    Moved a c files (files'.moveTree b c) where
  target :=
    h.free_target hRooted hRooted' hMoves hSource hFree
  nodes := by
    intro q
    rw [nodeAt_moveTree]
    by_cases hIn : c <+: q
    · obtain ⟨s, rfl⟩ := hIn
      have hThere := h.nodes (b ++ s)
      simp only [List.prefix_append, if_true,
        List.drop_left] at hThere ⊢
      exact hThere
    · rw [if_neg hIn, if_neg hIn]
      by_cases hLeft : b <+: q
      · rw [if_pos hLeft]
        by_cases hStart : a <+: q
        · rw [if_pos hStart]
        · rw [if_neg hStart]
          rcases h.target with hSame | ⟨hPath, hNone⟩
          · exact absurd (hSame ▸ hLeft) hStart
          · exact (hRooted.nothing_inside hPath hNone
              hLeft).symm
      · rw [if_neg hLeft, h.nodes q, if_neg hLeft]

end Files

end FileTree

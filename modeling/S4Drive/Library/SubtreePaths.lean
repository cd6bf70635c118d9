import Mathlib.Data.List.DropRight
import S4Drive.Library.NamedForest

/-
  Texts of paths, as what stands between the separators. A
  text lies at a folder or below it, name by name, iff it is
  the text of the folder or starts with it and a separator;
  then what is left of it can be put behind another folder.

  Main declarations:
    * `InSubtree`, `inSubtree_iff`
    * `rebaseText`, `rebaseText_eq`, `rebaseText_rebaseText`
    * `rebaseText_inj`
-/

namespace SubtreePaths

variable {α : Type} {separator : α}
  {source target path other : List α}

------------------------------------------------------------
-- Joins and Moves of Texts
------------------------------------------------------------

/- Joined again, what follows stands behind a separator. -/
theorem intercalate_append
    {above below : List (List α)}
    (hAbove : above ≠ [])
    (hBelow : below ≠ []) :
    [separator].intercalate (above ++ below) =
      [separator].intercalate above ++
        separator :: [separator].intercalate below := by
  induction above with
  | nil => contradiction
  | cons first rest ih =>
      cases rest with
      | nil =>
          rw [List.singleton_append,
            List.intercalate_cons_of_ne_nil hBelow,
            List.intercalate_singleton]
          simp
      | cons second more =>
          have hRest := ih (List.cons_ne_nil second more)
          rw [List.cons_append,
            List.intercalate_cons_of_ne_nil (by simp), hRest,
            List.intercalate_cons_of_ne_nil
              (List.cons_ne_nil second more)]
          simp

/- What is left of the path, behind another folder. -/
def rebaseText (source target path : List α) : List α :=
  target ++ path.drop source.length

theorem rebaseText_append
    (source target rest : List α) :
    rebaseText source target (source ++ rest) =
      target ++ rest := by
  rw [rebaseText, List.drop_left]

@[simp] theorem rebaseText_self
    (source target : List α) :
    rebaseText source target source = target := by
  rw [rebaseText, List.drop_length, List.append_nil]

variable [DecidableEq α]

/- Name by name, the path starts as the folder does. -/
def InSubtree (separator : α) (folder path : List α) : Prop :=
  folder.splitOn separator <+: path.splitOn separator

instance : Decidable (InSubtree separator source path) :=
  inferInstanceAs (Decidable (_ <+: _))

theorem splitOn_below
    (separator : α)
    (folder rest : List α) :
    (folder ++ separator :: rest).splitOn separator =
      folder.splitOn separator ++ rest.splitOn separator :=
  List.splitOn_append_cons_self folder rest

theorem splitOn_inj
    (hSame : path.splitOn separator = other.splitOn separator) :
    path = other := by
  have hJoin := congrArg [separator].intercalate hSame
  rwa [List.intercalate_splitOn, List.intercalate_splitOn]
    at hJoin

theorem inSubtree_self
    (separator : α)
    (folder : List α) : InSubtree separator folder folder :=
  List.prefix_rfl

theorem inSubtree_append
    (separator : α)
    (folder rest : List α) :
    InSubtree separator folder (folder ++ separator :: rest) := by
  rw [InSubtree, splitOn_below]
  exact List.prefix_append _ _

theorem inSubtree_cases
    (hIn : InSubtree separator source path) :
    path = source ∨
      ∃ rest, path = source ++ separator :: rest := by
  obtain ⟨below, hBelow⟩ := hIn
  by_cases hNone : below = []
  · rw [hNone, List.append_nil] at hBelow
    exact Or.inl (splitOn_inj hBelow.symm)
  · refine Or.inr ⟨[separator].intercalate below, ?_⟩
    calc
      path = [separator].intercalate (path.splitOn separator) :=
        (List.intercalate_splitOn separator).symm
      _ = [separator].intercalate
            (source.splitOn separator ++ below) := by
        rw [hBelow]
      _ = [separator].intercalate (source.splitOn separator) ++
            separator :: [separator].intercalate below :=
        intercalate_append (List.splitOn_ne_nil _ _) hNone
      _ = source ++
            separator :: [separator].intercalate below := by
        rw [List.intercalate_splitOn]

/- The test that looks at the text alone. -/
theorem inSubtree_iff :
    InSubtree separator source path ↔
      path = source ∨ source ++ [separator] <+: path := by
  constructor
  · intro hIn
    rcases inSubtree_cases hIn with rfl | ⟨rest, rfl⟩
    · exact Or.inl rfl
    · exact Or.inr ⟨rest, by simp⟩
  · rintro (rfl | ⟨rest, rfl⟩)
    · exact inSubtree_self separator path
    · rw [List.append_assoc, List.singleton_append]
      exact inSubtree_append separator source rest

/- It moves name by name. -/
theorem splitOn_rebaseText
    (target : List α)
    (hIn : InSubtree separator source path) :
    (rebaseText source target path).splitOn separator =
      NamedForest.rebase (source.splitOn separator)
        (target.splitOn separator) (path.splitOn separator) := by
  rcases inSubtree_cases hIn with rfl | ⟨rest, rfl⟩
  · rw [rebaseText_self, NamedForest.rebase_self]
  · rw [rebaseText_append, splitOn_below, splitOn_below,
      NamedForest.rebase_append]

theorem inSubtree_rebaseText
    (target : List α)
    (hIn : InSubtree separator source path) :
    InSubtree separator target
      (rebaseText source target path) := by
  rcases inSubtree_cases hIn with rfl | ⟨rest, rfl⟩
  · rw [rebaseText_self]
    exact inSubtree_self separator target
  · rw [rebaseText_append]
    exact inSubtree_append separator target rest

/- There and back again. -/
theorem rebaseText_rebaseText
    (target : List α)
    (hIn : InSubtree separator source path) :
    rebaseText target source (rebaseText source target path) =
      path := by
  rcases inSubtree_cases hIn with rfl | ⟨rest, rfl⟩
  · rw [rebaseText_self, rebaseText_self]
  · rw [rebaseText_append, rebaseText_append]

theorem rebaseText_inj
    (hPath : InSubtree separator source path)
    (hOther : InSubtree separator source other)
    (hSame :
      rebaseText source target path =
        rebaseText source target other) : path = other := by
  rw [← rebaseText_rebaseText target hPath, hSame,
    rebaseText_rebaseText target hOther]

end SubtreePaths

import Mathlib.Data.List.Basic

/-
  A walk over what a folder holds that does not look into
  folders that a test rejects. It meets an entry iff the test
  keeps the entry and each folder around it.

  Main declarations:
    * `NestedListing`, `NestedListing.walk`
    * `NestedListing.mem_walk_iff`
-/

/- What a folder holds, in the order it is read. -/
inductive NestedListing (N B : Type) where
  | nil
  | file (name : N) (body : B) (rest : NestedListing N B)
  | folder (name : N) (inside rest : NestedListing N B)

namespace NestedListing

variable {N B : Type}

/-
  The entries that are met with their paths: a file with its
  body, a folder with none. The walk starts below `above`.
-/
def walk
    (keep : List N → Bool)
    (above : List N) :
    NestedListing N B → List (List N × Option B)
  | nil => []
  | file name body rest =>
      (if keep (above ++ [name]) then
        [(above ++ [name], some body)]
      else
        []) ++ walk keep above rest
  | folder name inside rest =>
      (if keep (above ++ [name]) then
        (above ++ [name], none) ::
          walk keep (above ++ [name]) inside
      else
        []) ++ walk keep above rest

/- All entries below `above`. -/
def entries
    (above : List N)
    (listing : NestedListing N B) : List (List N × Option B) :=
  listing.walk (fun _ => true) above

/- The test keeps all that is on the way from `above` on. -/
def KeptAlong
    (keep : List N → Bool)
    (above path : List N) : Prop :=
  ∀ reached, above <+: reached → reached ≠ above →
    reached <+: path → keep reached = true

/- An entry is strictly below where the walk starts. -/
theorem entries_below
    {listing : NestedListing N B}
    {above path : List N}
    {body : Option B}
    (hIn : (path, body) ∈ listing.entries above) :
    ∃ name more, path = above ++ name :: more := by
  induction listing generalizing above with
  | nil => simp [entries, walk] at hIn
  | file name _ rest ih =>
      have hCases :
          path = above ++ [name] ∨
            (path, body) ∈ rest.entries above := by
        simp only [entries, walk, if_true, List.mem_append,
          List.mem_singleton, Prod.mk.injEq] at hIn
        exact hIn.imp And.left id
      cases hCases with
      | inl hHere => exact ⟨name, [], hHere⟩
      | inr hRest => exact ih hRest
  | folder name inside rest ihInside ihRest =>
      have hCases :
          path = above ++ [name] ∨
            (path, body) ∈ inside.entries (above ++ [name]) ∨
            (path, body) ∈ rest.entries above := by
        simp only [entries, walk, if_true, List.mem_append,
          List.mem_cons, Prod.mk.injEq] at hIn
        rcases hIn with (hHere | hInside) | hRest
        · exact Or.inl hHere.1
        · exact Or.inr (Or.inl hInside)
        · exact Or.inr (Or.inr hRest)
      rcases hCases with hHere | hInside | hRest
      · exact ⟨name, [], hHere⟩
      · obtain ⟨next, more, hPath⟩ := ihInside hInside
        exact ⟨name, next :: more, by simp [hPath]⟩
      · exact ihRest hRest

variable {keep : List N → Bool}

/- One name further, all before is kept iff the name is. -/
theorem keptAlong_name
    {above : List N}
    {name : N} :
    KeptAlong keep above (above ++ [name]) ↔
      keep (above ++ [name]) = true := by
  constructor
  · intro hKept
    exact hKept _ (List.prefix_append _ _) (by simp)
      List.prefix_rfl
  · intro hKeep reached hStarts hNot hEnds
    obtain ⟨more, rfl⟩ := hStarts
    have hMore : more <+: [name] :=
      (List.prefix_append_right_inj above).mp hEnds
    cases more with
    | nil => simp at hNot
    | cons first others =>
        have hName : first :: others = [name] :=
          hMore.eq_of_length (by
            have hLength := hMore.length_le
            simp only [List.length_cons, List.length_nil]
              at hLength ⊢
            omega)
        rw [hName]
        exact hKeep

/- Through a folder, the folder and all inside it is kept. -/
theorem keptAlong_through
    {above more : List N}
    {name : N} :
    KeptAlong keep above (above ++ name :: more) ↔
      keep (above ++ [name]) = true ∧
        KeptAlong keep (above ++ [name])
          (above ++ name :: more) := by
  have hOn : above ++ [name] <+: above ++ name :: more :=
    ⟨more, by simp⟩
  constructor
  · intro hKept
    refine ⟨hKept _ (List.prefix_append _ _) (by simp) hOn, ?_⟩
    intro reached hStarts hNot hEnds
    have hAbove := (List.prefix_append above [name]).trans hStarts
    refine hKept reached hAbove ?_ hEnds
    rintro rfl
    have hLength := hStarts.length_le
    simp only [List.length_append, List.length_cons,
      List.length_nil] at hLength
    omega
  · intro ⟨hName, hInside⟩ reached hStarts hNot hEnds
    by_cases hFirst : reached = above ++ [name]
    · rw [hFirst]
      exact hName
    · refine hInside reached ?_ hFirst hEnds
      have hShort : (above ++ [name]).length ≤ reached.length := by
        have hLonger : above.length ≠ reached.length := fun h =>
          hNot (hStarts.eq_of_length h).symm
        have hLength := hStarts.length_le
        simp only [List.length_append, List.length_cons,
          List.length_nil]
        omega
      exact List.prefix_of_prefix_length_le hOn hEnds hShort

/- The walk meets what is kept with all folders around it. -/
theorem mem_walk_iff
    {listing : NestedListing N B}
    {above path : List N}
    {body : Option B} :
    (path, body) ∈ listing.walk keep above ↔
      (path, body) ∈ listing.entries above ∧
        KeptAlong keep above path := by
  induction listing generalizing above with
  | nil => simp [walk, entries]
  | file name content rest ih =>
      have hHere :
          (path, body) ∈
              (if keep (above ++ [name]) then
                [(above ++ [name], some content)] else []) ↔
            (path, body) = (above ++ [name], some content) ∧
              KeptAlong keep above path := by
        by_cases hKeep : keep (above ++ [name]) = true
        · simp only [hKeep, if_true, List.mem_singleton]
          refine (and_iff_left_of_imp fun h => ?_).symm
          rw [(Prod.mk.inj h).1]
          exact keptAlong_name.mpr hKeep
        · simp only [hKeep, if_false, List.not_mem_nil,
            false_iff, not_and, Bool.false_eq_true]
          intro h hKept
          rw [(Prod.mk.inj h).1] at hKept
          exact hKeep (keptAlong_name.mp hKept)
      simp only [walk, entries, List.mem_append, hHere, if_true,
        List.mem_singleton]
      rw [ih, ← or_and_right]
      rfl
  | folder name inside rest ihInside ihRest =>
      have hHere :
          (path, body) ∈
              (if keep (above ++ [name]) then
                (above ++ [name], none) ::
                  inside.walk keep (above ++ [name])
              else []) ↔
            ((path, body) = (above ++ [name], none) ∨
                (path, body) ∈
                  inside.entries (above ++ [name])) ∧
              KeptAlong keep above path := by
        have hThrough :
            (path, body) ∈ inside.entries (above ++ [name]) →
              (KeptAlong keep above path ↔
                keep (above ++ [name]) = true ∧
                  KeptAlong keep (above ++ [name]) path) := by
          intro hIn
          obtain ⟨next, more, rfl⟩ := entries_below hIn
          rw [List.append_assoc]
          exact keptAlong_through
        have hName :
            (path, body) = (above ++ [name], none) →
              (KeptAlong keep above path ↔
                keep (above ++ [name]) = true) := by
          intro h
          rw [(Prod.mk.inj h).1]
          exact keptAlong_name
        by_cases hKeep : keep (above ++ [name]) = true
        · simp only [hKeep, if_true, List.mem_cons, ihInside,
            true_and] at hThrough hName ⊢
          constructor
          · rintro (h | ⟨hIn, hKept⟩)
            · exact ⟨Or.inl h, (hName h).mpr trivial⟩
            · exact ⟨Or.inr hIn, (hThrough hIn).mpr hKept⟩
          · rintro ⟨h | hIn, hKept⟩
            · exact Or.inl h
            · exact Or.inr ⟨hIn, (hThrough hIn).mp hKept⟩
        · simp only [hKeep, if_false, List.not_mem_nil,
            false_iff, Bool.false_eq_true, false_and]
            at hThrough hName ⊢
          rintro ⟨h | hIn, hKept⟩
          · exact (hName h).mp hKept
          · exact (hThrough hIn).mp hKept
      simp only [walk, entries, List.mem_append, hHere, if_true,
        List.mem_cons]
      rw [ihRest, ← or_and_right]
      rfl

end NestedListing

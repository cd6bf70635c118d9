import Mathlib.Order.MinMax
import Mathlib.Tactic.Common
import S4Drive.Library.Edits

/-
  Parts and lines of a text, as a text editor computes them
  from offsets: slices, searches for a unit forward and
  backward, the line of a position, and the part in which
  two texts differ.

  Main declarations:
    * `slice`, `indexOf`, `lastIndexOf`
    * `lineStart`, `lineEnd`
    * `lastIndexOf_add_one`, `indexOf_eq_lineEnd`
    * `not_mem_of_mem_splitOn`
    * `replaced`, `changeOf`, `replaced_changeOf`
-/

------------------------------------------------------------
-- Slices
------------------------------------------------------------

namespace TextLines

variable {α : Type}

/- The text between two offsets, if they are in order. -/
def slice (l : List α) (i j : Nat) : List α :=
  (l.take j).drop i

variable {l : List α} {i j : Nat}

theorem slice_of_le (h : j ≤ i) : slice l i j = [] := by
  rw [slice, List.drop_eq_nil_iff, List.length_take]
  exact (min_le_left _ _).trans h

theorem take_append_slice
    (h : i ≤ j) : l.take i ++ slice l i j = l.take j := by
  have hTake : l.take i = (l.take j).take i := by
    rw [List.take_take, min_eq_left h]
  rw [hTake]
  exact List.take_append_drop i (l.take j)

theorem slice_append_slice
    {k : Nat}
    (hFirst : i ≤ j)
    (hRest : j ≤ k) : slice l i j ++ slice l j k = slice l i k := by
  have hTake :
      l.take i ++ (slice l i j ++ slice l j k) =
        l.take i ++ slice l i k := by
    rw [← List.append_assoc, take_append_slice hFirst,
      take_append_slice hRest,
      take_append_slice (hFirst.trans hRest)]
  exact List.append_cancel_left hTake

theorem length_slice
    (hLast : j ≤ l.length) : (slice l i j).length = j - i := by
  rw [slice, List.length_drop, List.length_take,
    min_eq_left hLast]

variable [DecidableEq α]

/- The last place of `c` among the first ones, or `-1`. -/
def lastBelow (c : α) (l : List α) : Nat → Int
  | 0 => -1
  | n + 1 => if l[n]? = some c then n else lastBelow c l n

/- A position before the text is taken for its start. -/
def lastIndexOf (c : α) (l : List α) (position : Int) : Int :=
  lastBelow c l (position.toNat + 1)

/- The first place of `c` from a position on, or `-1`. -/
def indexOf (c : α) (l : List α) (position : Nat) : Int :=
  match (l.drop position).findIdx? (· = c) with
  | some i => position + i
  | none => -1

------------------------------------------------------------
-- The Line of a Position
------------------------------------------------------------

/- Back from the position to the last `newline` before it. -/
def lineStart (newline : α) (l : List α) (position : Nat) : Nat :=
  position -
    ((l.take position).reverse.takeWhile (· ≠ newline)).length

/- On from the position to the next `newline`. -/
def lineEnd (newline : α) (l : List α) (position : Nat) : Nat :=
  position +
    ((l.drop position).takeWhile (· ≠ newline)).length

variable {newline : α} {position : Nat}

theorem lineStart_le : lineStart newline l position ≤ position :=
  Nat.sub_le _ _

theorem le_lineEnd : position ≤ lineEnd newline l position :=
  Nat.le_add_right _ _

theorem lineEnd_le
    (h : position ≤ l.length) :
    lineEnd newline l position ≤ l.length := by
  have hShort :=
    ((l.drop position).takeWhile_sublist
      (· ≠ newline)).length_le
  rw [List.length_drop] at hShort
  unfold lineEnd
  omega

theorem not_mem_takeWhile_ne (newline : α) (l : List α) :
    newline ∉ l.takeWhile (· ≠ newline) := by
  intro hMem
  have hOther := List.all_eq_true.mp List.all_takeWhile _ hMem
  simp at hOther

theorem not_mem_slice_lineStart
    (h : position ≤ l.length) :
    newline ∉ slice l (lineStart newline l position) position := by
  have hLength : (l.take position).length = position := by
    rw [List.length_take, min_eq_left h]
  have hShort :=
    ((l.take position).reverse.takeWhile_sublist
      (· ≠ newline)).length_le
  rw [List.length_reverse, hLength] at hShort
  have hLine :
      (slice l (lineStart newline l position) position).reverse =
        (l.take position).reverse.takeWhile (· ≠ newline) := by
    rw [slice, List.reverse_drop, hLength, lineStart,
      Nat.sub_sub_self hShort]
    exact (List.prefix_iff_eq_take.mp
      (List.takeWhile_prefix _)).symm
  rw [← List.mem_reverse, hLine]
  exact not_mem_takeWhile_ne newline _

theorem not_mem_slice_lineEnd :
    newline ∉ slice l position (lineEnd newline l position) := by
  have hLine :
      slice l position (lineEnd newline l position) =
        (l.drop position).takeWhile (· ≠ newline) := by
    rw [slice, List.drop_take, lineEnd, Nat.add_sub_cancel_left]
    exact (List.prefix_iff_eq_take.mp
      (List.takeWhile_prefix _)).symm
  rw [hLine]
  exact not_mem_takeWhile_ne newline _

/- The line of a position has no line breaks. -/
theorem not_mem_line
    (h : position ≤ l.length) :
    newline ∉ slice l (lineStart newline l position)
      (lineEnd newline l position) := by
  rw [← slice_append_slice lineStart_le le_lineEnd,
    List.mem_append, not_or]
  exact ⟨not_mem_slice_lineStart h, not_mem_slice_lineEnd⟩

theorem lineStart_zero : lineStart newline l 0 = 0 := rfl

/- The start of a line is right after the last line break. -/
theorem lastBelow_add_one
    {n : Nat}
    (h : n ≤ l.length) :
    lastBelow newline l n + 1 = lineStart newline l n := by
  induction n with
  | zero => rfl
  | succ n ih =>
      have hTake : l.take (n + 1) = l.take n ++ [l[n]] := by
        rw [List.take_succ_eq_append_getElem]
      have hShort :=
        ((l.take n).reverse.takeWhile_sublist
          (· ≠ newline)).length_le
      rw [List.length_reverse, List.length_take] at hShort
      have hRest := ih (Nat.le_of_succ_le h)
      unfold lineStart at hRest ⊢
      rw [lastBelow, hTake, List.reverse_append,
        List.getElem?_eq_getElem h]
      by_cases hBreak : l[n] = newline
      · simp [hBreak]
      · simp only [Option.some.injEq, hBreak, if_false, hRest,
          List.reverse_singleton, List.singleton_append,
          List.takeWhile_cons, ne_eq, not_false_eq_true,
          decide_true, if_true, List.length_cons]
        simp only [ne_eq] at hShort
        omega

theorem lastIndexOf_add_one
    (h : position + 1 ≤ l.length) :
    lastIndexOf newline l position + 1 =
      lineStart newline l (position + 1) :=
  lastBelow_add_one h

theorem length_takeWhile_ne (newline : α) (l : List α) :
    (l.takeWhile (· ≠ newline)).length =
      (l.findIdx? (· = newline)).getD l.length := by
  induction l with
  | nil => rfl
  | cons x rest ih =>
      rw [List.findIdx?_cons, List.takeWhile_cons]
      by_cases hBreak : x = newline
      · simp [hBreak]
      · simp only [ne_eq] at ih
        simp only [hBreak, ne_eq, not_false_eq_true, decide_true,
          if_true, decide_false, Bool.false_eq_true, if_false,
          List.length_cons, ih]
        cases rest.findIdx? (· = newline) <;> rfl

/- Without a line break the last line ends with the text. -/
theorem indexOf_eq_lineEnd
    (h : position ≤ l.length) :
    (if indexOf newline l position = -1 then
      l.length
    else
      (indexOf newline l position).toNat) =
      lineEnd newline l position := by
  unfold indexOf lineEnd
  rw [length_takeWhile_ne]
  cases (l.drop position).findIdx? (· = newline) with
  | none =>
      rw [if_pos rfl, Option.getD_none, List.length_drop]
      omega
  | some i =>
      have hFound : ¬ (position : Int) + i = -1 := by omega
      dsimp only
      rw [if_neg hFound, Option.getD_some]
      rfl

/- The lines of a text have no line breaks. -/
theorem not_mem_of_mem_splitOn
    {line : List α}
    (h : line ∈ l.splitOn newline) : newline ∉ line := by
  induction l generalizing line with
  | nil =>
      rw [List.splitOn_nil, List.mem_singleton] at h
      subst h
      exact List.not_mem_nil
  | cons x rest ih =>
      rw [List.splitOn_cons_eq_if_modifyHead] at h
      split at h
      · rcases List.mem_cons.mp h with rfl | hRest
        · exact List.not_mem_nil
        · exact ih hRest
      · rename_i hOther
        rw [beq_iff_eq] at hOther
        cases hLines : rest.splitOn newline with
        | nil => exact absurd hLines (List.splitOn_ne_nil _ _)
        | cons first lines =>
            rw [hLines] at h ih
            rcases List.mem_cons.mp h with rfl | hRest
            · intro hMem
              rcases List.mem_cons.mp hMem with hHere | hMem
              · exact hOther hHere.symm
              · exact ih List.mem_cons_self hMem
            · exact ih (List.mem_cons_of_mem _ hRest)

/- The text with one part of it replaced. -/
def replaced (l : List α) (edit : Edit α) : List α :=
  l.take edit.start ++ edit.replacement ++ l.drop edit.stop

/- How many units two texts have in common at their start. -/
def commonStart : List α → List α → Nat
  | x :: rest, y :: rest' =>
      if x = y then commonStart rest rest' + 1 else 0
  | _, _ => 0

/- The smallest edit that makes one text of another one. -/
def changeOf (old new : List α) : Edit α :=
  let start := commonStart old new
  let same :=
    commonStart (old.drop start).reverse
      (new.drop start).reverse
  ⟨start, old.length - same,
    slice new start (new.length - same)⟩

theorem take_commonStart (old new : List α) :
    old.take (commonStart old new) =
      new.take (commonStart old new) := by
  induction old generalizing new with
  | nil => simp [commonStart]
  | cons x rest ih =>
      cases new with
      | nil => simp [commonStart]
      | cons y rest' =>
          unfold commonStart
          split
          · rename_i hSame
            rw [List.take_succ_cons, List.take_succ_cons, hSame,
              ih]
          · rfl

theorem commonStart_le (old new : List α) :
    commonStart old new ≤ new.length := by
  induction old generalizing new with
  | nil => exact Nat.zero_le _
  | cons x rest ih =>
      cases new with
      | nil => exact Nat.zero_le _
      | cons y rest' =>
          unfold commonStart
          split
          · exact Nat.succ_le_succ (ih rest')
          · exact Nat.zero_le _

theorem commonStart_comm (old new : List α) :
    commonStart old new = commonStart new old := by
  induction old generalizing new with
  | nil => cases new <;> rfl
  | cons x rest ih =>
      cases new with
      | nil => rfl
      | cons y rest' =>
          unfold commonStart
          by_cases hSame : x = y
          · rw [if_pos hSame, if_pos hSame.symm, ih]
          · rw [if_neg hSame, if_neg (Ne.symm hSame)]

/- Texts that end alike. -/
theorem drop_commonEnd (old new : List α) :
    old.drop
        (old.length - commonStart old.reverse new.reverse) =
      new.drop
        (new.length - commonStart old.reverse new.reverse) := by
  have hTake := take_commonStart old.reverse new.reverse
  rw [List.take_reverse, List.take_reverse] at hTake
  exact List.reverse_injective hTake

/- The smallest edit does make the new text. -/
theorem replaced_changeOf (old new : List α) :
    replaced old (changeOf old new) = new := by
  have hOld := commonStart_le new old
  rw [commonStart_comm] at hOld
  have hNew := commonStart_le old new
  have hStart := take_commonStart old new
  have hEnd := drop_commonEnd (old.drop (commonStart old new))
    (new.drop (commonStart old new))
  have hShort := commonStart_le
    (old.drop (commonStart old new)).reverse
    (new.drop (commonStart old new)).reverse
  have hShort' := commonStart_le
    (new.drop (commonStart old new)).reverse
    (old.drop (commonStart old new)).reverse
  rw [commonStart_comm] at hShort'
  rw [List.length_reverse, List.length_drop] at hShort hShort'
  rw [List.drop_drop, List.drop_drop, List.length_drop,
    List.length_drop] at hEnd
  unfold replaced changeOf
  dsimp only
  generalize hSame :
    commonStart (old.drop (commonStart old new)).reverse
      (new.drop (commonStart old new)).reverse = same at *
  generalize commonStart old new = start at *
  have hLast :
      old.drop (old.length - same) =
        new.drop (new.length - same) := by
    rw [show old.length - same =
        start + (old.length - start - same) by omega,
      show new.length - same =
        start + (new.length - start - same) by omega]
    exact hEnd
  have hOrder : start ≤ new.length - same := by omega
  rw [hStart, hLast, take_append_slice hOrder,
    List.take_append_drop]

end TextLines

import Mathlib.Data.Finset.Card
import Mathlib.Tactic.Common

/-
  Walks from a thing to its parent, to the parent of that,
  and so on, until there is no parent or something ends the
  walk. What is passed on the way gives an item. Parents are
  arbitrary, so a walk may go round; one that keeps what it
  has passed, and counts its steps, always stops, and gives
  up on nothing but a round or a way that is too long.

  Main declarations:
    * `Above`, `Climbs`
    * `Climbs.unique`, `Climbs.nodup`, `Climbs.length_le`
    * `climb`, `climb_iff`
-/

------------------------------------------------------------
-- Ways Up
------------------------------------------------------------

namespace ParentWalk

variable {α β ω : Type}

/- What a thing shows: an end, or an item and its parent. -/
inductive Above (α β ω : Type) where
  | ends (w : ω)
  | parent (item : β) (c : Option α)

/-
  The way from `c` up, as the things that it passes with
  their items, and how it ends; `none` is the top.
-/
inductive Climbs
    (up : α → Above α β ω) :
    Option α → List (α × β) → Option ω → Prop where
  | top : Climbs up none [] none
  | ends
      {a : α} {w : ω}
      (h : up a = .ends w) : Climbs up (some a) [] (some w)
  | onward
      {a : α} {item : β} {c : Option α}
      {way : List (α × β)} {w : Option ω}
      (h : up a = .parent item c)
      (rest : Climbs up c way w) :
      Climbs up (some a) ((a, item) :: way) w

variable {up : α → Above α β ω} {c : Option α} {a : α}
variable {way way' : List (α × β)} {w w' : Option ω}

/- Every step is given by the one before. -/
theorem Climbs.unique
    (h : Climbs up c way w)
    (h' : Climbs up c way' w') : way = way' ∧ w = w' := by
  induction h generalizing way' with
  | top =>
      cases h'
      exact ⟨rfl, rfl⟩
  | ends hEnd =>
      cases h' with
      | ends hEnd' =>
          rw [hEnd] at hEnd'
          cases hEnd'
          exact ⟨rfl, rfl⟩
      | onward hUp _ =>
          rw [hEnd] at hUp
          cases hUp
  | onward hUp _ ih =>
      cases h' with
      | ends hEnd =>
          rw [hUp] at hEnd
          cases hEnd
      | onward hUp' rest' =>
          rw [hUp] at hUp'
          cases hUp'
          obtain ⟨rfl, rfl⟩ := ih rest'
          exact ⟨rfl, rfl⟩

/- What is passed has a way of its own, which is shorter. -/
theorem Climbs.of_mem
    (h : Climbs up c way w)
    (hMem : a ∈ way.map Prod.fst) :
    ∃ way', Climbs up (some a) way' w ∧
      way'.length ≤ way.length := by
  induction h with
  | top => cases hMem
  | ends hEnd => cases hMem
  | @onward b item c way w hUp rest ih =>
      rcases List.mem_cons.mp hMem with rfl | hAbove
      · exact ⟨_, .onward hUp rest, Nat.le_refl _⟩
      · rcases ih hAbove with ⟨way', hWay, hLength⟩
        exact ⟨way', hWay, Nat.le_succ_of_le hLength⟩

/- A way that ends passes nothing twice. -/
theorem Climbs.nodup
    (h : Climbs up c way w) : (way.map Prod.fst).Nodup := by
  induction h with
  | top => exact List.nodup_nil
  | ends hEnd => exact List.nodup_nil
  | @onward a item c way w hUp rest ih =>
      rw [List.map_cons, List.nodup_cons]
      refine ⟨fun hAgain => ?_, ih⟩
      rcases rest.of_mem hAgain with ⟨way', hWay, hLength⟩
      have hSame := ((Climbs.onward hUp rest).unique hWay).1
      rw [← hSame] at hLength
      exact absurd hLength (Nat.not_succ_le_self _)

/- What is passed has a parent. -/
theorem Climbs.parent_of_mem
    {item : β}
    (h : Climbs up c way w)
    (hMem : (a, item) ∈ way) : ∃ c', up a = .parent item c' := by
  induction h with
  | top => cases hMem
  | ends hEnd => cases hMem
  | @onward b item' c way w hUp rest ih =>
      rcases List.mem_cons.mp hMem with hHere | hAbove
      · cases hHere
        exact ⟨c, hUp⟩
      · exact ih hAbove

/- Where few things have a parent, no way is long. -/
theorem Climbs.length_le
    [DecidableEq α]
    {s : Finset α}
    (h : Climbs up c way w)
    (hSupport : ∀ a item c, up a = .parent item c → a ∈ s) :
    way.length ≤ s.card := by
  have hSubset : (way.map Prod.fst).toFinset ⊆ s := by
    intro a ha
    rcases List.mem_map.mp (List.mem_toFinset.mp ha) with
      ⟨⟨b, item⟩, hMem, rfl⟩
    rcases h.parent_of_mem hMem with ⟨c', hUp⟩
    exact hSupport b item c' hUp
  calc
    way.length = (way.map Prod.fst).toFinset.card := by
      rw [List.toFinset_card_of_nodup h.nodup, List.length_map]
    _ ≤ s.card := Finset.card_le_card hSubset

/- A way does not pass what leads into it. -/
theorem Climbs.not_through
    {item : β}
    (h : Climbs up c way w)
    (hUp : up a = .parent item c) :
    a ∉ way.map Prod.fst :=
  (List.nodup_cons.mp (Climbs.onward hUp h).nodup).1

variable [DecidableEq α]

/-
  The walk from `c` on, after the steps in `passed`, the last
  one first; `none` where it comes back to one of them, or
  more steps are needed than are left.
-/
def climb
    (up : α → Above α β ω) :
    Nat → List (α × β) → Option α →
      Option (List (α × β) × Option ω)
  | _, passed, none => some (passed, none)
  | 0, passed, some a =>
      match up a with
      | .ends w => some (passed, some w)
      | .parent _ _ => none
  | rounds + 1, passed, some a =>
      match up a with
      | .ends w => some (passed, some w)
      | .parent item c =>
          if passed.any fun step => step.1 = a then
            none
          else
            climb up rounds ((a, item) :: passed) c

variable {rounds : Nat} {passed out : List (α × β)}

/- The walk finds the way if it is new and not too long. -/
theorem climb_of_climbs
    (h : Climbs up c way w)
    (hRounds : way.length ≤ rounds)
    (hNew : ∀ step ∈ way, step.1 ∉ passed.map Prod.fst) :
    climb up rounds passed c = some (way.reverse ++ passed, w) := by
  induction h generalizing rounds passed with
  | top => cases rounds <;> rfl
  | ends hEnd => cases rounds <;> simp [climb, hEnd]
  | @onward a item c way w hUp rest ih =>
      obtain ⟨rounds, rfl⟩ :=
        Nat.exists_eq_succ_of_ne_zero
          (Nat.ne_of_gt (Nat.lt_of_lt_of_le
            (Nat.succ_pos way.length) hRounds))
      have hFirst : a ∉ passed.map Prod.fst :=
        hNew (a, item) List.mem_cons_self
      have hUnseen :
          (passed.any fun step => step.1 = a) = false := by
        rw [List.any_eq_false]
        intro step hStep hSame
        exact hFirst (List.mem_map.mpr
          ⟨step, hStep, of_decide_eq_true hSame⟩)
      have hAbove :
          ∀ step ∈ way,
            step.1 ∉ ((a, item) :: passed).map Prod.fst := by
        intro step hStep hMem
        rcases List.mem_cons.mp hMem with hSame | hBefore
        · have hHere : step.1 = a := hSame
          exact rest.not_through hUp
            (hHere ▸ List.mem_map_of_mem hStep)
        · exact hNew step (List.mem_cons_of_mem _ hStep) hBefore
      simp only [climb, hUp, hUnseen, Bool.false_eq_true,
        if_false]
      rw [ih (Nat.le_of_succ_le_succ hRounds) hAbove,
        List.reverse_cons, List.append_assoc,
        List.singleton_append]

/- What the walk finds is a way. -/
theorem climbs_of_climb
    (h : climb up rounds passed c = some (out, w)) :
    ∃ way, Climbs up c way w ∧ way.length ≤ rounds ∧
      out = way.reverse ++ passed := by
  induction rounds generalizing passed c with
  | zero =>
      cases c with
      | none =>
          cases h
          exact ⟨[], .top, Nat.le_refl 0, rfl⟩
      | some a =>
          cases hUp : up a with
          | ends e =>
              simp only [climb, hUp] at h
              cases h
              exact ⟨[], .ends hUp, Nat.le_refl 0, rfl⟩
          | parent item c => simp [climb, hUp] at h
  | succ rounds ih =>
      cases c with
      | none =>
          cases h
          exact ⟨[], .top, Nat.zero_le _, rfl⟩
      | some a =>
          cases hUp : up a with
          | ends e =>
              simp only [climb, hUp] at h
              cases h
              exact ⟨[], .ends hUp, Nat.zero_le _, rfl⟩
          | parent item c =>
              simp only [climb, hUp] at h
              split at h
              · cases h
              · rcases ih h with ⟨way, hWay, hLength, hOut⟩
                refine ⟨(a, item) :: way, .onward hUp hWay,
                  Nat.succ_le_succ hLength, ?_⟩
                rw [hOut, List.reverse_cons, List.append_assoc,
                  List.singleton_append]

/- The walk stops with every way that is not too long. -/
theorem climb_iff :
    climb up rounds [] c = some (out, w) ↔
      ∃ way, Climbs up c way w ∧ way.length ≤ rounds ∧
        out = way.reverse := by
  constructor
  · intro h
    simpa using climbs_of_climb h
  · rintro ⟨way, hWay, hLength, rfl⟩
    rw [climb_of_climbs hWay hLength (fun _ _ => by simp),
      List.append_nil]

end ParentWalk

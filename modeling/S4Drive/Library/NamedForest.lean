import Mathlib.Data.List.Infix
import Mathlib.Logic.Function.Basic
import Mathlib.Tactic.Common

/-
  Forests in which everything has a parent and a name, so
  that a path is the path of the parent with the name behind
  it. A list of placements changes a forest one after the
  other; only the last one of everything counts. When
  something is moved, all paths below it are rebased.

  Main declarations:
    * `Place`, `place`, `placeAll`
    * `finalOnly`, `placeAll_finalOnly`
    * `PathOf`, `PathOf.unique`
    * `rebase`
-/

------------------------------------------------------------
-- Placements
------------------------------------------------------------

namespace NamedForest

variable {ι ν : Type}

/- A parent, or the top, and a name. -/
abbrev Place (ι ν : Type) := Option ι × ν

variable {forest : ι → Place ι ν} {us : List (ι × Place ι ν)}

section Placements

variable [DecidableEq ι]

def place
    (forest : ι → Place ι ν)
    (u : ι × Place ι ν) : ι → Place ι ν :=
  Function.update forest u.1 u.2

def placeAll
    (forest : ι → Place ι ν)
    (us : List (ι × Place ι ν)) : ι → Place ι ν :=
  us.foldl place forest

/- The placements that no later one replaces. -/
def finalOnly : List (ι × Place ι ν) → List (ι × Place ι ν)
  | [] => []
  | u :: us =>
      if us.any fun v => v.1 = u.1 then
        finalOnly us
      else
        u :: finalOnly us

@[simp] theorem placeAll_cons (u : ι × Place ι ν) :
    placeAll forest (u :: us) =
      placeAll (place forest u) us := rfl

/- A placement that is replaced later changes nothing. -/
theorem placeAll_place_of_later
    {i : ι}
    (π : Place ι ν)
    (h : (us.any fun v => v.1 = i) = true) :
    placeAll (place forest (i, π)) us = placeAll forest us := by
  induction us generalizing forest with
  | nil => cases h
  | cons v us ih =>
      rw [List.any_cons, Bool.or_eq_true, decide_eq_true_eq]
        at h
      rw [placeAll_cons, placeAll_cons]
      rcases h with hHere | hLater
      · unfold place
        rw [hHere, Function.update_idem]
      · by_cases hSame : v.1 = i
        · unfold place
          rw [hSame, Function.update_idem]
        · have hSwap :
              place (place forest (i, π)) v =
                place (place forest v) (i, π) :=
            Function.update_comm (Ne.symm hSame) _ _ _
          rw [hSwap, ih hLater]

theorem placeAll_finalOnly
    (forest : ι → Place ι ν)
    (us : List (ι × Place ι ν)) :
    placeAll forest (finalOnly us) = placeAll forest us := by
  induction us generalizing forest with
  | nil => rfl
  | cons u us ih =>
      rw [finalOnly, placeAll_cons]
      split
      · rename_i hLater
        rw [ih, placeAll_place_of_later u.2 hLater]
      · rw [placeAll_cons, ih]

end Placements

inductive PathOf (forest : ι → Place ι ν) : ι → List ν → Prop where
  | top {i : ι} {n : ν}
      (placed : forest i = (none, n)) :
      PathOf forest i [n]
  | inside {i j : ι} {n : ν} {p : List ν}
      (placed : forest i = (some j, n))
      (above : PathOf forest j p) :
      PathOf forest i (p ++ [n])

/- The forest says where everything is. -/
theorem PathOf.unique
    {i : ι} {p q : List ν}
    (hp : PathOf forest i p)
    (hq : PathOf forest i q) : p = q := by
  induction hp generalizing q with
  | top placed =>
      cases hq with
      | top placed' =>
          rw [placed] at placed'
          cases placed'
          rfl
      | inside placed' _ =>
          rw [placed] at placed'
          cases placed'
  | inside placed _ ih =>
      cases hq with
      | top placed' =>
          rw [placed] at placed'
          cases placed'
      | inside placed' above' =>
          rw [placed] at placed'
          cases placed'
          rw [ih above']

section Rebase

variable [DecidableEq ν] {a b p : List ν} {n : ν}

/- Where a path is after everything at `a` has gone to `b`. -/
def rebase (a b p : List ν) : List ν :=
  if a <+: p then b ++ p.drop a.length else p

@[simp] theorem rebase_append (a b s : List ν) :
    rebase a b (a ++ s) = b ++ s := by
  rw [rebase, if_pos (List.prefix_append a s), List.drop_left]

@[simp] theorem rebase_self (a b : List ν) :
    rebase a b a = b := by
  simpa using rebase_append a b []

theorem rebase_outside (h : ¬ a <+: p) :
    rebase a b p = p :=
  if_neg h

/- Nothing moves when everything stays where it is. -/
@[simp] theorem rebase_same (a p : List ν) :
    rebase a a p = p := by
  by_cases hIn : a <+: p
  · obtain ⟨s, rfl⟩ := hIn
    rw [rebase_append]
  · rw [rebase_outside hIn]

theorem mem_rebase
    {x : ν}
    (h : x ∈ rebase a b p) : x ∈ b ∨ x ∈ p := by
  by_cases hIn : a <+: p
  · obtain ⟨s, rfl⟩ := hIn
    rw [rebase_append, List.mem_append] at h
    exact h.imp_right (List.mem_append_right a)
  · rw [rebase_outside hIn] at h
    exact .inr h

/- What is in something else goes where that goes. -/
theorem rebase_concat (h : a ≠ p ++ [n]) :
    rebase a b (p ++ [n]) = rebase a b p ++ [n] := by
  by_cases hIn : a <+: p
  · obtain ⟨s, rfl⟩ := hIn
    rw [List.append_assoc, rebase_append, rebase_append,
      List.append_assoc]
  · have hOut : ¬ a <+: p ++ [n] := by
      rw [List.prefix_concat_iff]
      exact fun h' => h'.elim h hIn
    rw [rebase_outside hIn, rebase_outside hOut]

theorem rebase_inj
    {q : List ν}
    (hp : ¬ b <+: p ∨ a <+: p)
    (hq : ¬ b <+: q ∨ a <+: q)
    (h : rebase a b p = rebase a b q) : p = q := by
  by_cases hInP : a <+: p <;> by_cases hInQ : a <+: q
  · obtain ⟨s, rfl⟩ := hInP
    obtain ⟨t, rfl⟩ := hInQ
    rw [rebase_append, rebase_append,
      List.append_cancel_left_eq] at h
    rw [h]
  · obtain ⟨s, rfl⟩ := hInP
    rw [rebase_append, rebase_outside hInQ] at h
    have hOut := hq.resolve_right hInQ
    exact absurd ⟨s, h⟩ hOut
  · obtain ⟨t, rfl⟩ := hInQ
    rw [rebase_append, rebase_outside hInP] at h
    have hOut := hp.resolve_right hInP
    exact absurd ⟨t, h.symm⟩ hOut
  · rwa [rebase_outside hInP,
      rebase_outside hInQ] at h

end Rebase

end NamedForest

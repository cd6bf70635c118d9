import Mathlib.Data.List.Basic
import Mathlib.Data.List.Count
import Mathlib.Data.List.Pairwise
import Mathlib.Data.List.Nodup
import Mathlib.Tactic.Linarith

/-
  Edits of a list, and two scripts of them side by side. An
  edit replaces the items between two positions; a script
  has its edits in order, with something kept between any
  two. `pairUp` walks along two scripts, as a three-way
  merge does: edits that overlap are taken together.

  Main declarations:
    * `Edit`, `Edit.Overlaps`, `Edit.Before`
    * `Edit.IsScript`, `Edit.patchFrom`
    * `Edit.Step`, `Edit.pairUp`
    * `Edit.Apart`, `Edit.fits_pairUp_iff`
    * `Edit.mem_pairUp_one`, `Edit.mem_pairUp_both`
-/

------------------------------------------------------------
-- Edits
------------------------------------------------------------

/- The items from `start` to `stop` are to be replaced. -/
structure Edit (α : Type) where
  start : Nat
  stop : Nat
  replacement : List α
deriving DecidableEq

namespace Edit

variable {α : Type}

/- Both insert at one place, or they have items in common. -/
def Overlaps (c d : Edit α) : Prop :=
  (c.start = c.stop ∧ d.start = d.stop ∧ c.start = d.start) ∨
    (c.start < d.stop ∧ d.start < c.stop)

instance (c d : Edit α) : Decidable (c.Overlaps d) :=
  inferInstanceAs (Decidable (_ ∨ _))

/- The first ends where the second starts, or earlier. -/
def Before (c d : Edit α) : Prop :=
  c.stop ≤ d.start ∧ c.start < d.stop

/- The edit is one of a list with `n` items. -/
def Within (n : Nat) (c : Edit α) : Prop :=
  c.start ≤ c.stop ∧ c.stop ≤ n

/- Between any two edits there is an item that stays. -/
structure IsScript (n : Nat) (cs : List (Edit α)) : Prop where
  within : ∀ c ∈ cs, c.Within n
  spaced : cs.Pairwise fun c d => c.stop < d.start

variable {n : Nat} {c d : Edit α} {cs ds : List (Edit α)}

theorem Overlaps.symm (h : c.Overlaps d) : d.Overlaps c := by
  rcases h with ⟨hc, hd, hSame⟩ | ⟨hLeft, hRight⟩
  · exact .inl ⟨hd, hc, hSame.symm⟩
  · exact .inr ⟨hRight, hLeft⟩

theorem overlaps_comm : c.Overlaps d ↔ d.Overlaps c :=
  ⟨Overlaps.symm, Overlaps.symm⟩

/- Of two edits that do not overlap one comes first. -/
theorem before_of_not_overlaps
    (hc : c.Within n)
    (hd : d.Within n)
    (h : ¬ c.Overlaps d) : c.Before d ∨ d.Before c := by
  rcases hc with ⟨hc, _⟩
  rcases hd with ⟨hd, _⟩
  unfold Overlaps at h
  unfold Before
  omega

theorem Before.not_overlaps (h : c.Before d) :
    ¬ c.Overlaps d := by
  rcases h with ⟨hStop, hStart⟩
  unfold Overlaps
  omega

theorem IsScript.nil : IsScript n ([] : List (Edit α)) :=
  ⟨by simp, List.Pairwise.nil⟩

theorem IsScript.head
    (h : IsScript n (c :: cs)) : c.Within n :=
  h.within c List.mem_cons_self

theorem IsScript.tail
    (h : IsScript n (c :: cs)) : IsScript n cs :=
  ⟨fun d hd => h.within d (List.mem_cons_of_mem _ hd),
    h.spaced.tail⟩

theorem IsScript.later
    (h : IsScript n (c :: cs))
    (hd : d ∈ cs) : c.stop < d.start :=
  List.rel_of_pairwise_cons h.spaced hd

theorem IsScript.pairwise_before
    (h : IsScript n cs) : cs.Pairwise Before := by
  apply h.spaced.imp_of_mem
  intro c d hc hd hLess
  have hcWithin := h.within c hc
  have hdWithin := h.within d hd
  unfold Within at hcWithin hdWithin
  unfold Before
  omega

theorem IsScript.head_before
    (h : IsScript n (c :: cs)) : ∀ e ∈ cs, c.Before e :=
  fun _ he => List.rel_of_pairwise_cons h.pairwise_before he

/- Two edits of one script do not overlap. -/
theorem IsScript.eq_of_overlaps
    (h : IsScript n cs)
    (hc : c ∈ cs)
    (hd : d ∈ cs)
    (hOverlaps : c.Overlaps d) : c = d := by
  have symmetric :
      Std.Symm fun c d : Edit α => c.Before d ∨ d.Before c :=
    ⟨fun _ _ => Or.symm⟩
  have hOne := h.pairwise_before.imp
    fun {c d} h => (Or.inl h : c.Before d ∨ d.Before c)
  by_contra hNe
  rcases hOne.forall hc hd hNe with hBefore | hBefore
  · exact hBefore.not_overlaps hOverlaps
  · exact hBefore.not_overlaps hOverlaps.symm

/- The rest of a list, from `cursor` on, after the edits. -/
def patchFrom
    (base : List α) : List (Edit α) → Nat → List α
  | [], cursor => base.drop cursor
  | c :: cs, cursor =>
      (base.take c.start).drop cursor ++ c.replacement ++
        patchFrom base cs c.stop

/- Every edit starts where the one before it ends, or later. -/
def Fits (n : Nat) : List (Edit α) → Nat → Prop
  | [], cursor => cursor ≤ n
  | c :: cs, cursor =>
      cursor ≤ c.start ∧ c.start ≤ c.stop ∧ c.stop ≤ n ∧
        Fits n cs c.stop

/- An edit whose items stay in their places counts as one. -/
theorem length_patchFrom
    {base : List α} {cursor : Nat}
    (h : Fits base.length cs cursor) :
    (patchFrom base cs cursor).length + cursor +
        (cs.map fun c => c.stop - c.start).sum =
      base.length +
        (cs.map fun c => c.replacement.length).sum := by
  induction cs generalizing cursor with
  | nil =>
      have hEnd : cursor ≤ base.length := h
      simp only [patchFrom, List.length_drop, List.map_nil,
        List.sum_nil]
      omega
  | cons c cs ih =>
      rcases h with ⟨hFrom, hWithin, hEnd, hRest⟩
      have hLength := ih hRest
      simp only [patchFrom, List.length_append,
        List.length_drop, List.length_take, List.map_cons,
        List.sum_cons]
      omega

/- What lies before the next edit stays. -/
theorem patchFrom_split
    {base : List α} {cursor k : Nat}
    (hCursor : cursor ≤ k)
    (hLater : ∀ c ∈ cs, k ≤ c.start) :
    patchFrom base cs cursor =
      (base.take k).drop cursor ++ patchFrom base cs k := by
  have join :
      ∀ stop, k ≤ stop →
        (base.take stop).drop cursor =
          (base.take k).drop cursor ++
            (base.take stop).drop k := by
    intro stop hStop
    apply List.ext_getElem?
    intro i
    simp only [List.getElem?_drop, List.getElem?_append,
      List.length_drop, List.length_take, List.getElem?_take]
    grind
  cases cs with
  | nil =>
      have hAll := join (max k base.length) (by omega)
      rw [List.take_of_length_le (by omega)] at hAll
      exact hAll
  | cons c cs =>
      simp only [patchFrom]
      rw [join c.start (hLater c List.mem_cons_self)]
      simp only [List.append_assoc]

/- One edit on its own, or one of each script together. -/
inductive Step (α : Type) where
  | one (c : Edit α)
  | both (c d : Edit α)
deriving DecidableEq

namespace Step

def start : Step α → Nat
  | one c => c.start
  | both c d => min c.start d.start

def stop : Step α → Nat
  | one c => c.stop
  | both c d => max c.stop d.stop

def swap : Step α → Step α
  | one c => one c
  | both c d => both d c

end Step

/- Walk along both scripts; every round takes an edit. -/
def pairUp :
    Nat → List (Edit α) → List (Edit α) → List (Step α)
  | 0, _, _ => []
  | _ + 1, [], [] => []
  | rounds + 1, c :: cs, [] => .one c :: pairUp rounds cs []
  | rounds + 1, [], d :: ds => .one d :: pairUp rounds [] ds
  | rounds + 1, c :: cs, d :: ds =>
      if c.Overlaps d then
        .both c d :: pairUp rounds cs ds
      else if c.stop ≤ d.start then
        .one c :: pairUp rounds cs (d :: ds)
      else
        .one d :: pairUp rounds (c :: cs) ds

/- No edit overlaps two of the other script. -/
structure Apart (cs ds : List (Edit α)) : Prop where
  left :
    ∀ c ∈ cs, ∀ d ∈ ds, ∀ d' ∈ ds,
      c.Overlaps d → c.Overlaps d' → d = d'
  right :
    ∀ d ∈ ds, ∀ c ∈ cs, ∀ c' ∈ cs,
      c.Overlaps d → c'.Overlaps d → c = c'

instance [DecidableEq α] (cs ds : List (Edit α)) :
    Decidable (Apart cs ds) :=
  decidable_of_iff
    ((∀ c ∈ cs, ∀ d ∈ ds, ∀ d' ∈ ds,
        c.Overlaps d → c.Overlaps d' → d = d') ∧
      ∀ d ∈ ds, ∀ c ∈ cs, ∀ c' ∈ cs,
        c.Overlaps d → c'.Overlaps d → c = c')
    ⟨fun h => ⟨h.1, h.2⟩, fun h => ⟨h.left, h.right⟩⟩

theorem Apart.swap (h : Apart cs ds) : Apart ds cs := by
  constructor
  · intro d hd c hc c' hc' hOverlaps hOverlaps'
    exact h.right d hd c hc c' hc' hOverlaps.symm
      hOverlaps'.symm
  · intro c hc d hd d' hd' hOverlaps hOverlaps'
    exact h.left c hc d hd d' hd' hOverlaps.symm
      hOverlaps'.symm

theorem Apart.mono
    {cs' ds' : List (Edit α)}
    (h : Apart cs ds)
    (hcs : cs' ⊆ cs)
    (hds : ds' ⊆ ds) : Apart cs' ds' := by
  constructor
  · exact fun c hc d hd d' hd' =>
      h.left c (hcs hc) d (hds hd) d' (hds hd')
  · exact fun d hd c hc c' hc' =>
      h.right d (hds hd) c (hcs hc) c' (hcs hc')

theorem Apart.nil_left : Apart ([] : List (Edit α)) ds :=
  ⟨by simp, by simp⟩

/- Edits that overlap and replace the same items. -/
def SameItems (cs ds : List (Edit α)) : Prop :=
  ∀ c ∈ cs, ∀ d ∈ ds, c.Overlaps d →
    c.start = d.start ∧ c.stop = d.stop

instance (cs ds : List (Edit α)) :
    Decidable (SameItems cs ds) :=
  inferInstanceAs (Decidable (∀ c ∈ cs, ∀ d ∈ ds, _))

theorem SameItems.apart
    (h : SameItems cs ds)
    (hcs : IsScript n cs)
    (hds : IsScript n ds) : Apart cs ds := by
  constructor
  · intro c hc d hd d' hd' hOverlaps hOverlaps'
    have hSame := h c hc d hd hOverlaps
    have hSame' := h c hc d' hd' hOverlaps'
    apply hds.eq_of_overlaps hd hd'
    unfold Overlaps at hOverlaps ⊢
    omega
  · intro d hd c hc c' hc' hOverlaps hOverlaps'
    have hSame := h c hc d hd hOverlaps
    have hSame' := h c' hc' d hd hOverlaps'
    apply hcs.eq_of_overlaps hc hc'
    unfold Overlaps at hOverlaps ⊢
    omega

/- What comes before the head of a script is free of it. -/
theorem Before.free
    (h : c.Before d)
    (hds : IsScript n (d :: ds)) :
    ∀ e ∈ d :: ds, c.Before e := by
  intro e he
  rcases List.mem_cons.mp he with rfl | he
  · exact h
  · have hLater := hds.later he
    have hd := hds.head
    have hWithin := hds.within e (List.mem_cons_of_mem _ he)
    unfold Within at hd hWithin
    unfold Before at h ⊢
    omega

theorem apart_cons_iff_of_free
    (hFree : ∀ e ∈ ds, ¬ c.Overlaps e) :
    Apart (c :: cs) ds ↔ Apart cs ds := by
  constructor
  · exact fun h => h.mono (List.subset_cons_self c cs)
      (List.Subset.refl ds)
  · intro h
    constructor
    · intro e he d hd d' hd' hOverlaps hOverlaps'
      rcases List.mem_cons.mp he with rfl | he
      · exact absurd hOverlaps (hFree d hd)
      · exact h.left e he d hd d' hd' hOverlaps hOverlaps'
    · intro d hd e he e' he' hOverlaps hOverlaps'
      rcases List.mem_cons.mp he with rfl | he
      · exact absurd hOverlaps (hFree d hd)
      rcases List.mem_cons.mp he' with rfl | he'
      · exact absurd hOverlaps' (hFree d hd)
      exact h.right d hd e he e' he' hOverlaps hOverlaps'

/- An edit that overlaps a head leaves room for what follows. -/
theorem Overlaps.later_iff
    (h : c.Overlaps d)
    (hds : IsScript n (d :: ds))
    (hc : c.Within n)
    {e : Edit α}
    (he : e ∈ ds) :
    max c.stop d.stop ≤ e.start ↔ ¬ c.Overlaps e := by
  have hLater := hds.later he
  have hd := hds.head
  have hWithin := hds.within e (List.mem_cons_of_mem _ he)
  unfold Within at hc hd hWithin
  unfold Overlaps at h ⊢
  omega

/- The heads overlap: they leave each other's rest alone. -/
theorem apart_cons_cons_iff
    (h : c.Overlaps d)
    (hcs : IsScript n (c :: cs))
    (hds : IsScript n (d :: ds)) :
    Apart (c :: cs) (d :: ds) ↔
      (∀ e ∈ cs, max c.stop d.stop ≤ e.start) ∧
        (∀ e ∈ ds, max c.stop d.stop ≤ e.start) ∧
        Apart cs ds := by
  have freeRight :
      ∀ e ∈ ds, max c.stop d.stop ≤ e.start ↔
        ¬ c.Overlaps e :=
    fun e he => h.later_iff hds hcs.head he
  have freeLeft :
      ∀ e ∈ cs, max c.stop d.stop ≤ e.start ↔
        ¬ e.Overlaps d := by
    intro e he
    rw [max_comm, overlaps_comm]
    exact h.symm.later_iff hcs hds.head he
  constructor
  · intro hApart
    refine ⟨?_, ?_, hApart.mono (List.subset_cons_self c cs)
      (List.subset_cons_self d ds)⟩
    · intro e he
      rw [freeLeft e he]
      intro hOverlaps
      have hSame := hApart.right d List.mem_cons_self c
        List.mem_cons_self e (List.mem_cons_of_mem _ he) h
        hOverlaps
      have hLater := hcs.later he
      have hc := hcs.head
      unfold Within at hc
      rw [← hSame] at hLater
      omega
    · intro e he
      rw [freeRight e he]
      intro hOverlaps
      have hSame := hApart.left c List.mem_cons_self d
        List.mem_cons_self e (List.mem_cons_of_mem _ he) h
        hOverlaps
      have hLater := hds.later he
      have hd := hds.head
      unfold Within at hd
      rw [← hSame] at hLater
      omega
  · rintro ⟨hLeft, hRight, hApart⟩
    constructor
    · intro a ha b hb b' hb' hOverlaps hOverlaps'
      rcases List.mem_cons.mp ha with rfl | ha
      · rcases List.mem_cons.mp hb with rfl | hb
        · rcases List.mem_cons.mp hb' with rfl | hb'
          · rfl
          · exact absurd hOverlaps'
              ((freeRight b' hb').mp (hRight b' hb'))
        · exact absurd hOverlaps
            ((freeRight b hb).mp (hRight b hb))
      · rcases List.mem_cons.mp hb with rfl | hb
        · exact absurd hOverlaps
            ((freeLeft a ha).mp (hLeft a ha))
        rcases List.mem_cons.mp hb' with rfl | hb'
        · exact absurd hOverlaps'
            ((freeLeft a ha).mp (hLeft a ha))
        exact hApart.left a ha b hb b' hb' hOverlaps hOverlaps'
    · intro b hb a ha a' ha' hOverlaps hOverlaps'
      rcases List.mem_cons.mp hb with rfl | hb
      · rcases List.mem_cons.mp ha with rfl | ha
        · rcases List.mem_cons.mp ha' with rfl | ha'
          · rfl
          · exact absurd hOverlaps'
              ((freeLeft a' ha').mp (hLeft a' ha'))
        · exact absurd hOverlaps
            ((freeLeft a ha).mp (hLeft a ha))
      · rcases List.mem_cons.mp ha with rfl | ha
        · exact absurd hOverlaps
            ((freeRight b hb).mp (hRight b hb))
        rcases List.mem_cons.mp ha' with rfl | ha'
        · exact absurd hOverlaps'
            ((freeRight b hb).mp (hRight b hb))
        exact hApart.right b hb a ha a' ha' hOverlaps hOverlaps'

------------------------------------------------------------
-- Where the Steps Are
------------------------------------------------------------

/- One edit for a step; `f` says what two edits give. -/
def Step.edit
    (f : Edit α → Edit α → List α) : Step α → Edit α
  | .one c => c
  | .both c d =>
      ⟨min c.start d.start, max c.stop d.stop, f c d⟩

variable {f g : Edit α → Edit α → List α}
variable {rounds cursor : Nat}

/- Two scripts, apart, whose edits are yet to come. -/
structure Ahead
    (n cursor : Nat)
    (cs ds : List (Edit α)) : Prop where
  bound : cursor ≤ n
  left : ∀ c ∈ cs, cursor ≤ c.start
  right : ∀ d ∈ ds, cursor ≤ d.start
  apart : Apart cs ds

theorem Ahead.swap
    (h : Ahead n cursor cs ds) : Ahead n cursor ds cs :=
  ⟨h.bound, h.right, h.left, h.apart.swap⟩

theorem ahead_comm :
    Ahead n cursor cs ds ↔ Ahead n cursor ds cs :=
  ⟨Ahead.swap, Ahead.swap⟩

/- An edit is taken that comes before the other script. -/
theorem fits_cons_iff
    {rest : List (Edit α)}
    (hcs : IsScript n (c :: cs))
    (hBefore : ∀ d ∈ ds, c.Before d)
    (hRest : Fits n rest c.stop ↔ Ahead n c.stop cs ds) :
    Fits n (c :: rest) cursor ↔ Ahead n cursor (c :: cs) ds := by
  have hc := hcs.head
  have hFree : ∀ e ∈ ds, ¬ c.Overlaps e :=
    fun e he => (hBefore e he).not_overlaps
  unfold Within at hc
  constructor
  · rintro ⟨hFrom, _, hEnd, hFits⟩
    refine ⟨by omega, ?_, ?_, ?_⟩
    · intro e he
      rcases List.mem_cons.mp he with rfl | he
      · exact hFrom
      · have hLater := hcs.later he
        omega
    · intro d hd
      have hFirst := (hBefore d hd).1
      omega
    · rw [apart_cons_iff_of_free hFree]
      exact (hRest.mp hFits).apart
  · intro hAhead
    refine ⟨hAhead.left c List.mem_cons_self, hc.1, hc.2, ?_⟩
    rw [hRest]
    refine ⟨hc.2, ?_, ?_, ?_⟩
    · exact fun e he => Nat.le_of_lt (hcs.later he)
    · exact fun d hd => (hBefore d hd).1
    · rw [← apart_cons_iff_of_free hFree]
      exact hAhead.apart

/- Two edits are taken that overlap. -/
theorem fits_both_iff
    {rest : List (Edit α)}
    (hOverlaps : c.Overlaps d)
    (hcs : IsScript n (c :: cs))
    (hds : IsScript n (d :: ds))
    (hRest :
      Fits n rest (max c.stop d.stop) ↔
        Ahead n (max c.stop d.stop) cs ds) :
    Fits n (Step.edit f (.both c d) :: rest) cursor ↔
      Ahead n cursor (c :: cs) (d :: ds) := by
  have hc := hcs.head
  have hd := hds.head
  have hBoth := apart_cons_cons_iff hOverlaps hcs hds
  unfold Within at hc hd
  constructor
  · rintro ⟨hFrom, _, hEnd, hFits⟩
    have hLater := hRest.mp hFits
    simp only [Step.edit] at hFrom
    refine ⟨by omega, ?_, ?_, ?_⟩
    · intro e he
      rcases List.mem_cons.mp he with rfl | he
      · omega
      · have := hcs.later he
        omega
    · intro e he
      rcases List.mem_cons.mp he with rfl | he
      · omega
      · have := hds.later he
        omega
    · exact hBoth.mpr ⟨hLater.left, hLater.right, hLater.apart⟩
  · intro hAhead
    rcases hBoth.mp hAhead.apart with ⟨hLeft, hRight, hApart⟩
    have hFromLeft := hAhead.left c List.mem_cons_self
    have hFromRight := hAhead.right d List.mem_cons_self
    refine ⟨?_, ?_, ?_, ?_⟩
    · exact le_min hFromLeft hFromRight
    · simp only [Step.edit]
      omega
    · exact max_le hc.2 hd.2
    · exact hRest.mpr
        ⟨max_le hc.2 hd.2, hLeft, hRight, hApart⟩

/- The steps are in order exactly if the scripts are apart. -/
theorem fits_pairUp_iff
    (hRounds : cs.length + ds.length ≤ rounds)
    (hcs : IsScript n cs)
    (hds : IsScript n ds) :
    Fits n ((pairUp rounds cs ds).map (Step.edit f)) cursor ↔
      Ahead n cursor cs ds := by
  have empty :
      ∀ cursor, Fits n ([] : List (Edit α)) cursor ↔
        Ahead n cursor ([] : List (Edit α)) [] := by
    intro cursor
    exact ⟨fun h => ⟨h, by simp, by simp, .nil_left⟩,
      fun h => h.bound⟩
  induction rounds generalizing cs ds cursor with
  | zero =>
      have hcNil := List.length_eq_zero_iff.mp
        (by omega : cs.length = 0)
      have hdNil := List.length_eq_zero_iff.mp
        (by omega : ds.length = 0)
      subst hcNil hdNil
      exact empty cursor
  | succ rounds ih =>
      cases cs with
      | nil =>
          cases ds with
          | nil => exact empty cursor
          | cons d ds =>
              simp only [List.length_cons, List.length_nil]
                at hRounds
              rw [ahead_comm]
              apply fits_cons_iff hds (by simp)
              rw [ahead_comm]
              exact ih (by simp; omega) hcs hds.tail
      | cons c cs =>
          cases ds with
          | nil =>
              simp only [List.length_cons, List.length_nil]
                at hRounds
              apply fits_cons_iff hcs (by simp)
              exact ih (by simp; omega) hcs.tail hds
          | cons d ds =>
              simp only [List.length_cons] at hRounds
              rw [pairUp]
              split
              · rename_i hOverlaps
                apply fits_both_iff hOverlaps hcs hds
                exact ih (by omega) hcs.tail hds.tail
              rename_i hApart
              split
              · rename_i hStop
                have hBefore : c.Before d :=
                  (before_of_not_overlaps hcs.head hds.head
                    hApart).resolve_right fun h => by
                      have := hcs.head.1
                      unfold Before at h
                      omega
                apply fits_cons_iff hcs (hBefore.free hds)
                exact ih (by simp; omega) hcs.tail hds
              · rename_i hStop
                have hBefore : d.Before c :=
                  (before_of_not_overlaps hcs.head hds.head
                    hApart).resolve_left fun h => hStop h.1
                rw [ahead_comm]
                apply fits_cons_iff hds (hBefore.free hcs)
                rw [ahead_comm]
                exact ih (by simp; omega) hcs hds.tail

/- What comes before both scripts comes before the steps. -/
theorem before_pairUp
    (hcs : ∀ a ∈ cs, c.Before a)
    (hds : ∀ b ∈ ds, c.Before b) :
    ∀ e ∈ (pairUp rounds cs ds).map (Step.edit f),
      c.Before e := by
  induction rounds generalizing cs ds with
  | zero => simp [pairUp]
  | succ rounds ih =>
      cases cs with
      | nil =>
          cases ds with
          | nil => simp [pairUp]
          | cons d ds =>
              rw [List.forall_mem_cons] at hds
              simp only [pairUp, List.map_cons,
                List.forall_mem_cons]
              exact ⟨hds.1, ih hcs hds.2⟩
      | cons a cs =>
          rw [List.forall_mem_cons] at hcs
          cases ds with
          | nil =>
              simp only [pairUp, List.map_cons,
                List.forall_mem_cons]
              exact ⟨hcs.1, ih hcs.2 hds⟩
          | cons d ds =>
              have hBoth := List.forall_mem_cons.mp hds
              rw [pairUp]
              split
              · rw [List.map_cons, List.forall_mem_cons]
                refine ⟨?_, ih hcs.2 hBoth.2⟩
                have hLeft := hcs.1
                have hRight := hBoth.1
                unfold Before at hLeft hRight ⊢
                simp only [Step.edit]
                omega
              · split
                · rw [List.map_cons, List.forall_mem_cons]
                  exact ⟨hcs.1, ih hcs.2 hds⟩
                · rw [List.map_cons, List.forall_mem_cons]
                  exact ⟨hBoth.1, ih
                    (List.forall_mem_cons.mpr hcs) hBoth.2⟩

/- Which of two heads that do not overlap is taken first. -/
theorem heads_before
    (hcs : IsScript n (c :: cs))
    (hds : IsScript n (d :: ds))
    (hApart : ¬ c.Overlaps d) :
    (c.stop ≤ d.start ∧ ∀ e ∈ d :: ds, c.Before e) ∨
      (¬ c.stop ≤ d.start ∧ ∀ e ∈ c :: cs, d.Before e) := by
  have hc := hcs.head.1
  rcases before_of_not_overlaps hcs.head hds.head hApart with
    hBefore | hBefore
  · exact .inl ⟨hBefore.1, hBefore.free hds⟩
  · refine .inr ⟨?_, hBefore.free hcs⟩
    unfold Before at hBefore
    omega

/-
  To prove something about the steps of two scripts that
  are apart, take away their heads: one that comes before
  the other script, or two that overlap.
-/
theorem pairUp_induction
    {motive :
      List (Edit α) → List (Edit α) → List (Step α) → Prop}
    (hRounds : cs.length + ds.length ≤ rounds)
    (hcs : IsScript n cs)
    (hds : IsScript n ds)
    (hApart : Apart cs ds)
    (nil : motive [] [] [])
    (left :
      ∀ c cs ds steps, IsScript n (c :: cs) →
        IsScript n ds → (∀ e ∈ ds, c.Before e) →
        (∀ e ∈ steps.map (Step.edit f), c.Before e) →
        motive cs ds steps →
          motive (c :: cs) ds (.one c :: steps))
    (right :
      ∀ cs d ds steps, IsScript n cs →
        IsScript n (d :: ds) → (∀ e ∈ cs, d.Before e) →
        (∀ e ∈ steps.map (Step.edit f), d.Before e) →
        motive cs ds steps →
          motive cs (d :: ds) (.one d :: steps))
    (both :
      ∀ c cs d ds steps, IsScript n (c :: cs) →
        IsScript n (d :: ds) → c.Overlaps d →
        (∀ e ∈ cs, ¬ e.Overlaps d) →
        (∀ e ∈ ds, ¬ c.Overlaps e) →
        (∀ e ∈ steps.map (Step.edit f),
          (Step.edit f (.both c d)).Before e) →
        motive cs ds steps →
          motive (c :: cs) (d :: ds) (.both c d :: steps)) :
    motive cs ds (pairUp rounds cs ds) := by
  induction rounds generalizing cs ds with
  | zero =>
      have hcNil := List.length_eq_zero_iff.mp
        (by omega : cs.length = 0)
      have hdNil := List.length_eq_zero_iff.mp
        (by omega : ds.length = 0)
      subst hcNil hdNil
      exact nil
  | succ rounds ih =>
      have takeLeft :
          ∀ c cs, IsScript n (c :: cs) →
            (∀ e ∈ ds, c.Before e) → Apart cs ds →
            cs.length + ds.length ≤ rounds →
            motive (c :: cs) ds
              (.one c :: pairUp rounds cs ds) := by
        intro c cs hcs hBefore hApart hRounds
        exact left c cs ds _ hcs hds hBefore
          (before_pairUp hcs.head_before hBefore)
          (ih hRounds hcs.tail hds hApart)
      have takeRight :
          ∀ d ds, IsScript n (d :: ds) →
            (∀ e ∈ cs, d.Before e) → Apart cs ds →
            cs.length + ds.length ≤ rounds →
            motive cs (d :: ds)
              (.one d :: pairUp rounds cs ds) := by
        intro d ds hds hBefore hApart hRounds
        exact right cs d ds _ hcs hds hBefore
          (before_pairUp hBefore hds.head_before)
          (ih hRounds hcs hds.tail hApart)
      cases cs with
      | nil =>
          cases ds with
          | nil => exact nil
          | cons d ds =>
              simp only [List.length_cons] at hRounds
              exact takeRight d ds hds (by simp) .nil_left
                (by simp at hRounds ⊢; omega)
      | cons c cs =>
          have hTail := List.subset_cons_self c cs
          cases ds with
          | nil =>
              simp only [List.length_cons] at hRounds
              exact takeLeft c cs hcs (by simp)
                (hApart.mono hTail (List.Subset.refl _))
                (by simp at hRounds ⊢; omega)
          | cons d ds =>
              have hTail' := List.subset_cons_self d ds
              have hLength : (c :: cs).length + ds.length ≤
                  rounds := by
                simp only [List.length_cons] at hRounds ⊢
                omega
              have hLength' : cs.length + (d :: ds).length ≤
                  rounds := by
                simp only [List.length_cons] at hRounds ⊢
                omega
              rw [pairUp]
              split
              · rename_i hOverlaps
                rcases (apart_cons_cons_iff hOverlaps hcs
                  hds).mp hApart with ⟨hLeft, hRight, hRest⟩
                apply both c cs d ds _ hcs hds hOverlaps
                · intro e he
                  rw [overlaps_comm, ← hOverlaps.symm.later_iff
                    hcs hds.head he, max_comm]
                  exact hLeft e he
                · intro e he
                  rw [← hOverlaps.later_iff hds hcs.head he]
                  exact hRight e he
                · apply before_pairUp
                  · intro e he
                    have hLater := hLeft e he
                    have hFirst := hcs.head_before e he
                    unfold Before at hFirst ⊢
                    simp only [Step.edit]
                    omega
                  · intro e he
                    have hLater := hRight e he
                    have hFirst := hds.head_before e he
                    unfold Before at hFirst ⊢
                    simp only [Step.edit]
                    omega
                · simp only [List.length_cons] at hLength
                  exact ih (by omega) hcs.tail hds.tail hRest
              · rename_i hFree
                rcases heads_before hcs hds hFree with
                  ⟨hStop, hBefore⟩ | ⟨hStop, hBefore⟩
                · rw [if_pos hStop]
                  exact takeLeft c cs hcs hBefore
                    (hApart.mono hTail (List.Subset.refl _))
                    hLength'
                · rw [if_neg hStop]
                  exact takeRight d ds hds hBefore
                    (hApart.mono (List.Subset.refl _) hTail')
                    hLength

------------------------------------------------------------
-- The Steps of Two Scripts
------------------------------------------------------------

/- The steps are in order, and no two of them are alike. -/
theorem pairwise_pairUp
    (f : Edit α → Edit α → List α)
    (hRounds : cs.length + ds.length ≤ rounds)
    (hcs : IsScript n cs)
    (hds : IsScript n ds)
    (hApart : Apart cs ds) :
    ((pairUp rounds cs ds).map (Step.edit f)).Pairwise
      Before := by
  apply pairUp_induction
    (motive := fun _ _ steps =>
      (steps.map (Step.edit f)).Pairwise Before)
    (f := f) hRounds hcs hds hApart
  case nil => exact List.Pairwise.nil
  case left =>
    intro c cs ds steps _ _ _ hFirst ih
    exact List.pairwise_cons.mpr ⟨hFirst, ih⟩
  case right =>
    intro cs d ds steps _ _ _ hFirst ih
    exact List.pairwise_cons.mpr ⟨hFirst, ih⟩
  case both =>
    intro c cs d ds steps _ _ _ _ _ hFirst ih
    exact List.pairwise_cons.mpr ⟨hFirst, ih⟩

/- What is taken together overlaps, and nothing else does. -/
theorem mem_pairUp_both
    (hRounds : cs.length + ds.length ≤ rounds)
    (hcs : IsScript n cs)
    (hds : IsScript n ds)
    (hApart : Apart cs ds)
    (a b : Edit α) :
    .both a b ∈ pairUp rounds cs ds ↔
      a ∈ cs ∧ b ∈ ds ∧ a.Overlaps b := by
  apply pairUp_induction
    (motive := fun cs ds steps =>
      .both a b ∈ steps ↔ a ∈ cs ∧ b ∈ ds ∧ a.Overlaps b)
    (f := fun _ _ => []) hRounds hcs hds hApart
  case nil => simp
  case left =>
    intro c cs ds steps _ _ hBefore _ ih
    simp only [List.mem_cons, reduceCtorEq, false_or, ih]
    constructor
    · exact fun ⟨ha, hb⟩ => ⟨.inr ha, hb⟩
    · rintro ⟨rfl | ha, hb, hOverlaps⟩
      · exact absurd hOverlaps (hBefore b hb).not_overlaps
      · exact ⟨ha, hb, hOverlaps⟩
  case right =>
    intro cs d ds steps _ _ hBefore _ ih
    simp only [List.mem_cons, reduceCtorEq, false_or, ih]
    constructor
    · exact fun ⟨ha, hb, h⟩ => ⟨ha, .inr hb, h⟩
    · rintro ⟨ha, rfl | hb, hOverlaps⟩
      · exact absurd hOverlaps.symm (hBefore a ha).not_overlaps
      · exact ⟨ha, hb, hOverlaps⟩
  case both =>
    intro c cs d ds steps _ _ hOverlap hLeft hRight _ ih
    simp only [List.mem_cons, Step.both.injEq, ih]
    constructor
    · rintro (⟨rfl, rfl⟩ | ⟨ha, hb, h⟩)
      · exact ⟨.inl rfl, .inl rfl, hOverlap⟩
      · exact ⟨.inr ha, .inr hb, h⟩
    · rintro ⟨rfl | ha, rfl | hb, h⟩
      · exact .inl ⟨rfl, rfl⟩
      · exact absurd h (hRight b hb)
      · exact absurd h (hLeft a ha)
      · exact .inr ⟨ha, hb, h⟩

/- What is taken alone overlaps nothing of the other script. -/
theorem mem_pairUp_one
    (hRounds : cs.length + ds.length ≤ rounds)
    (hcs : IsScript n cs)
    (hds : IsScript n ds)
    (hApart : Apart cs ds)
    (e : Edit α) :
    .one e ∈ pairUp rounds cs ds ↔
      (e ∈ cs ∧ ∀ d ∈ ds, ¬ e.Overlaps d) ∨
        (e ∈ ds ∧ ∀ c ∈ cs, ¬ c.Overlaps e) := by
  apply pairUp_induction
    (motive := fun cs ds steps =>
      .one e ∈ steps ↔
        (e ∈ cs ∧ ∀ d ∈ ds, ¬ e.Overlaps d) ∨
          (e ∈ ds ∧ ∀ c ∈ cs, ¬ c.Overlaps e))
    (f := fun _ _ => []) hRounds hcs hds hApart
  case nil => simp
  case left =>
    intro c cs ds steps _ _ hBefore _ ih
    simp only [List.mem_cons, Step.one.injEq, ih]
    constructor
    · rintro (rfl | ⟨he, hFree⟩ | ⟨he, hFree⟩)
      · exact .inl ⟨.inl rfl,
          fun d hd => (hBefore d hd).not_overlaps⟩
      · exact .inl ⟨.inr he, hFree⟩
      · refine .inr ⟨he, ?_⟩
        rintro a (rfl | ha)
        · exact (hBefore e he).not_overlaps
        · exact hFree a ha
    · rintro (⟨rfl | he, hFree⟩ | ⟨he, hFree⟩)
      · exact .inl rfl
      · exact .inr (.inl ⟨he, hFree⟩)
      · exact .inr (.inr ⟨he, fun a ha => hFree a (.inr ha)⟩)
  case right =>
    intro cs d ds steps _ _ hBefore _ ih
    simp only [List.mem_cons, Step.one.injEq, ih]
    constructor
    · rintro (rfl | ⟨he, hFree⟩ | ⟨he, hFree⟩)
      · refine .inr ⟨.inl rfl, fun c hc hOverlaps => ?_⟩
        exact (hBefore c hc).not_overlaps hOverlaps.symm
      · refine .inl ⟨he, ?_⟩
        rintro b (rfl | hb) hOverlaps
        · exact (hBefore e he).not_overlaps hOverlaps.symm
        · exact hFree b hb hOverlaps
      · exact .inr ⟨.inr he, hFree⟩
    · rintro (⟨he, hFree⟩ | ⟨rfl | he, hFree⟩)
      · exact .inr (.inl ⟨he, fun b hb => hFree b (.inr hb)⟩)
      · exact .inl rfl
      · exact .inr (.inr ⟨he, hFree⟩)
  case both =>
    intro c cs d ds steps _ _ hOverlap hLeft hRight _ ih
    simp only [List.mem_cons, reduceCtorEq, false_or, ih]
    constructor
    · rintro (⟨he, hFree⟩ | ⟨he, hFree⟩)
      · refine .inl ⟨.inr he, ?_⟩
        rintro b (rfl | hb)
        · exact hLeft e he
        · exact hFree b hb
      · refine .inr ⟨.inr he, ?_⟩
        rintro a (rfl | ha)
        · exact hRight e he
        · exact hFree a ha
    · rintro (⟨rfl | he, hFree⟩ | ⟨rfl | he, hFree⟩)
      · exact absurd hOverlap (hFree d (.inl rfl))
      · exact .inl ⟨he, fun b hb => hFree b (.inr hb)⟩
      · exact absurd hOverlap (hFree c (.inl rfl))
      · exact .inr ⟨he, fun a ha => hFree a (.inr ha)⟩

/- The other way round the steps are the same. -/
theorem pairUp_swap
    (hcs : IsScript n cs)
    (hds : IsScript n ds) :
    pairUp rounds ds cs =
      (pairUp rounds cs ds).map Step.swap := by
  induction rounds generalizing cs ds with
  | zero => rfl
  | succ rounds ih =>
      cases cs with
      | nil =>
          cases ds with
          | nil => rfl
          | cons d ds =>
              simp only [pairUp, List.map_cons, Step.swap]
              rw [ih hcs hds.tail]
      | cons c cs =>
          cases ds with
          | nil =>
              simp only [pairUp, List.map_cons, Step.swap]
              rw [ih hcs.tail hds]
          | cons d ds =>
              have hc := hcs.head
              have hd := hds.head
              unfold Within at hc hd
              by_cases hOverlap : c.Overlaps d
              · simp only [pairUp, if_pos hOverlap,
                  if_pos hOverlap.symm, List.map_cons,
                  Step.swap]
                rw [ih hcs.tail hds.tail]
              have hSwapped : ¬ d.Overlaps c :=
                fun h => hOverlap h.symm
              simp only [pairUp, if_neg hOverlap,
                if_neg hSwapped]
              by_cases hStop : c.stop ≤ d.start
              · have hOther : ¬ d.stop ≤ c.start := by
                  unfold Overlaps at hOverlap
                  omega
                rw [if_pos hStop, if_neg hOther, List.map_cons,
                  ih hcs.tail hds]
                rfl
              · have hOther : d.stop ≤ c.start := by
                  unfold Overlaps at hOverlap
                  omega
                rw [if_neg hStop, if_pos hOther, List.map_cons,
                  ih hcs hds.tail]
                rfl

end Edit

import Mathlib.Algebra.GroupWithZero.Nat
import Mathlib.Data.List.Nodup
import Mathlib.Order.Basic
import Mathlib.Order.Lattice
import Mathlib.Tactic.Common

/-
  Old entries of groups, deleted in batches. An entry may go
  when it is old enough, is not pinned, and enough newer ones
  of its group are there; a batch takes the oldest of those
  first. Then no batch changes what may go of the rest, so
  the batches do not matter for what is left in the end.

  Main declarations:
    * `Rule`, `Rule.eligible`, `Rule.batch`, `Rule.prune`
    * `Rule.eligible_prune`, `Rule.pruneAll_prune`
    * `Rule.prunes_eq_pruneAll`
-/

------------------------------------------------------------
-- Batches
------------------------------------------------------------

namespace Retention

variable {ρ κ γ : Type} [LinearOrder κ] [DecidableEq γ]

/- Older entries are smaller. -/
structure Rule (ρ κ γ : Type) where
  age : ρ → κ
  group : ρ → γ
  pinned : ρ → Bool
  minimum : Nat

namespace Rule

variable (rule : Rule ρ κ γ)

/- How many entries of the group are newer. -/
def newer (rows : List ρ) (r : ρ) : Nat :=
  (rows.filter fun q =>
    rule.group q = rule.group r && rule.age r < rule.age q).length

def eligible
    (expired : ρ → Bool)
    (rows : List ρ)
    (r : ρ) : Bool :=
  expired r && !rule.pinned r &&
    rule.minimum ≤ rule.newer rows r

def eligibles (expired : ρ → Bool) (rows : List ρ) : List ρ :=
  rows.filter (rule.eligible expired rows)

/- The oldest of those that may go. -/
def batch
    (expired : ρ → Bool)
    (limit : Nat)
    (rows : List ρ) : List ρ :=
  ((rule.eligibles expired rows).mergeSort fun q r =>
    rule.age q ≤ rule.age r).take limit

variable [DecidableEq ρ]

def prune
    (expired : ρ → Bool)
    (limit : Nat)
    (rows : List ρ) : List ρ :=
  rows.filter fun r => r ∉ rule.batch expired limit rows

def pruneAll (expired : ρ → Bool) (rows : List ρ) : List ρ :=
  rows.filter fun r => !rule.eligible expired rows r

section Batch

variable {rule} {expired : ρ → Bool} {limit : Nat}
variable {rows : List ρ} {q r : ρ}

omit [DecidableEq ρ] in
theorem mem_batch
    (h : r ∈ rule.batch expired limit rows) :
    r ∈ rows ∧ rule.eligible expired rows r = true := by
  have hSorted := List.mem_of_mem_take h
  exact List.mem_filter.mp (List.mem_mergeSort.mp hSorted)

omit [DecidableEq ρ] in
/- An older one that may go goes first. -/
theorem mem_batch_of_older
    (h : r ∈ rule.batch expired limit rows)
    (hMem : q ∈ rows)
    (hEligible : rule.eligible expired rows q = true)
    (hOlder : rule.age q < rule.age r) :
    q ∈ rule.batch expired limit rows := by
  unfold batch at h ⊢
  generalize hSort :
    (rule.eligibles expired rows).mergeSort
      (fun q r => rule.age q ≤ rule.age r) = sorted at h ⊢
  have hSorted :
      sorted.Pairwise fun q r =>
        decide (rule.age q ≤ rule.age r) = true := by
    rw [← hSort]
    apply List.pairwise_mergeSort
    · intro a b c hab hbc
      simp only [decide_eq_true_eq] at hab hbc ⊢
      exact le_trans hab hbc
    · intro a b
      simpa using le_total (rule.age a) (rule.age b)
  have hIn : q ∈ sorted := by
    rw [← hSort, List.mem_mergeSort]
    exact List.mem_filter.mpr ⟨hMem, hEligible⟩
  rw [← List.take_append_drop limit sorted] at hIn hSorted
  rcases List.mem_append.mp hIn with hTaken | hLeft
  · exact hTaken
  · have hNot :=
      (List.pairwise_append.mp hSorted).2.2 r h q hLeft
    exact absurd hOlder
      (not_lt_of_ge (of_decide_eq_true hNot))

theorem mem_prune :
    r ∈ rule.prune expired limit rows ↔
      r ∈ rows ∧ r ∉ rule.batch expired limit rows := by
  unfold prune
  rw [List.mem_filter, decide_eq_true_eq]

theorem newer_prune_le :
    rule.newer (rule.prune expired limit rows) r ≤
      rule.newer rows r :=
  (List.Sublist.filter _ List.filter_sublist).length_le

/- What goes could have gone before any batch. -/
theorem eligible_of_prune
    {later : ρ → Bool}
    (h :
      rule.eligible later
        (rule.prune expired limit rows) r = true) :
    rule.eligible later rows r = true := by
  unfold eligible at h ⊢
  simp only [Bool.and_eq_true, decide_eq_true_eq] at h ⊢
  exact ⟨h.1, Nat.le_trans h.2 newer_prune_le⟩

end Batch

------------------------------------------------------------
-- Batch after Batch
------------------------------------------------------------

section Batches

variable {rule} {expired later : ρ → Bool} {limit : Nat}
variable {rows : List ρ} {r : ρ}
variable
  (hOlder : ∀ q r, rule.age q ≤ rule.age r → expired r →
    expired q)
  (hLater : ∀ r, expired r → later r)

include hOlder

/- What is newer than one that may go later stays. -/
theorem newer_prune
    (hMem : r ∈ rule.prune expired limit rows)
    (h : rule.eligible later rows r = true) :
    rule.newer (rule.prune expired limit rows) r =
      rule.newer rows r := by
  have hr := mem_prune.mp hMem
  have hKept :
      ∀ q ∈ rows, rule.age r < rule.age q →
        q ∉ rule.batch expired limit rows := by
    intro q hq hNewer hTaken
    have hExpired := (mem_batch hTaken).2
    unfold eligible at h hExpired
    simp only [Bool.and_eq_true] at h hExpired
    have hAlso : rule.eligible expired rows r = true := by
      unfold eligible
      simp only [Bool.and_eq_true]
      exact ⟨⟨hOlder r q hNewer.le hExpired.1.1, h.1.2⟩, h.2⟩
    exact hr.2
      (mem_batch_of_older hTaken hr.1 hAlso hNewer)
  unfold newer prune
  rw [List.filter_filter]
  congr 1
  apply List.filter_congr
  intro q hq
  by_cases hNewer : rule.age r < rule.age q
  · simp [hKept q hq hNewer]
  · simp [hNewer]

/- A batch does not change what may go of the rest. -/
theorem eligible_prune
    (hMem : r ∈ rule.prune expired limit rows) :
    rule.eligible later (rule.prune expired limit rows) r =
      rule.eligible later rows r := by
  rw [Bool.eq_iff_iff]
  constructor
  · exact eligible_of_prune
  · intro h
    have hNewer := newer_prune hOlder hMem h
    unfold eligible at h ⊢
    rw [hNewer]
    exact h

include hLater

/- Nothing is gained or lost by a batch before. -/
theorem pruneAll_prune :
    rule.pruneAll later (rule.prune expired limit rows) =
      rule.pruneAll later rows := by
  have hGone :
      ∀ r ∈ rule.batch expired limit rows,
        rule.eligible later rows r = true := by
    intro r hr
    have hEligible := (mem_batch hr).2
    unfold eligible at hEligible ⊢
    simp only [Bool.and_eq_true] at hEligible ⊢
    exact ⟨⟨hLater r hEligible.1.1, hEligible.1.2⟩,
      hEligible.2⟩
  have hSame :
      rule.pruneAll later (rule.prune expired limit rows) =
        (rule.prune expired limit rows).filter fun r =>
          !rule.eligible later rows r := by
    apply List.filter_congr
    intro r hr
    rw [eligible_prune hOlder hr]
  rw [hSame]
  unfold prune pruneAll
  rw [List.filter_filter]
  apply List.filter_congr
  intro r hr
  by_cases hTaken : r ∈ rule.batch expired limit rows
  · simp [hGone r hTaken]
  · simp [hTaken]

end Batches

section Counts

variable {rule} {expired : ρ → Bool} {limit : Nat}
variable {rows : List ρ}
variable
  (hOlder : ∀ q r, rule.age q ≤ rule.age r → expired r →
    expired q)

include hOlder

/- As many are left to go as are not in the batch. -/
theorem length_eligibles_prune (hDistinct : rows.Nodup) :
    (rule.eligibles expired
        (rule.prune expired limit rows)).length =
      (rule.eligibles expired rows).length - limit := by
  have hLeft :
      rule.eligibles expired (rule.prune expired limit rows) =
        (rule.eligibles expired rows).filter fun r =>
          r ∉ rule.batch expired limit rows := by
    have hSame :
        rule.eligibles expired
            (rule.prune expired limit rows) =
          (rule.prune expired limit rows).filter
            (rule.eligible expired rows) := by
      apply List.filter_congr
      intro r hr
      exact eligible_prune hOlder hr
    rw [hSame]
    unfold prune eligibles
    rw [List.filter_filter, List.filter_filter]
    apply List.filter_congr
    intro r _
    exact Bool.and_comm _ _
  rw [hLeft]
  unfold batch
  generalize hSort :
    (rule.eligibles expired rows).mergeSort
      (fun q r => rule.age q ≤ rule.age r) = sorted
  have hPerm : sorted.Perm (rule.eligibles expired rows) := by
    rw [← hSort]
    exact List.mergeSort_perm _ _
  have hNodup : sorted.Nodup :=
    hPerm.nodup_iff.mpr (hDistinct.filter _)
  have hRest :
      sorted.filter (fun r => decide (r ∉ sorted.take limit)) =
        sorted.drop limit := by
    rw [← List.take_append_drop limit sorted] at hNodup
    have hApart := List.nodup_append.mp hNodup
    conv_lhs => rw [← List.take_append_drop limit sorted]
    rw [List.filter_append, List.filter_eq_nil_iff.mpr,
      List.filter_eq_self.mpr, List.nil_append]
    · rw [List.take_append_drop]
      intro r hr
      simpa using fun hTaken => hApart.2.2 r hTaken r hr rfl
    · rw [List.take_append_drop]
      intro r hr
      simpa using hr
  calc
    _ = (sorted.filter fun r =>
          decide (r ∉ sorted.take limit)).length :=
      (hPerm.filter _).length_eq.symm
    _ = sorted.length - limit := by
      rw [hRest, List.length_drop]
    _ = (rule.eligibles expired rows).length - limit := by
      rw [hPerm.length_eq]

omit hOlder [DecidableEq ρ] in
theorem pruneAll_of_none
    (h : (rule.eligibles expired rows).length = 0) :
    rule.pruneAll expired rows = rows := by
  rw [List.length_eq_zero_iff] at h
  unfold pruneAll
  rw [List.filter_eq_self]
  intro r hr
  have hNot := List.filter_eq_nil_iff.mp h r hr
  simpa using hNot

/- Batches that are large enough together take all. -/
theorem prunes_eq_pruneAll
    {limits : List Nat}
    (hDistinct : rows.Nodup)
    (h : (rule.eligibles expired rows).length ≤ limits.sum) :
    limits.foldl
        (fun rows limit => rule.prune expired limit rows) rows =
      rule.pruneAll expired rows := by
  induction limits generalizing rows with
  | nil =>
      rw [List.foldl_nil, pruneAll_of_none (Nat.le_zero.mp h)]
  | cons limit limits ih =>
      have hLeft :
          (rule.eligibles expired
            (rule.prune expired limit rows)).length ≤
              limits.sum := by
        rw [length_eligibles_prune hOlder hDistinct]
        rw [List.sum_cons] at h
        omega
      have hKept : (rule.prune expired limit rows).Nodup :=
        hDistinct.filter _
      rw [List.foldl_cons, ih hKept hLeft]
      exact pruneAll_prune hOlder fun _ h => h

end Counts

end Rule

end Retention

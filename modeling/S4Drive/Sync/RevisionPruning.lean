import Mathlib.Data.Prod.Lex
import Mathlib.Order.WithBot
import S4Drive.Library.Retention
import S4Drive.Sync.LocalDatabase

/-
  The maintenance of the table of revisions. A call deletes
  the oldest of the revisions that are old, that no object
  has as its current one, and that enough newer revisions of
  their file are there for. What calls leave in the end does
  not depend on how much one of them may delete.

  Main declarations:
    * `RevisionTables`, `pruneOldRevisions`
    * `prune_rows_eq`, `pruneCalls_kept`
    * `pruneOldRevisions_exact`
-/

------------------------------------------------------------
-- The Statement
------------------------------------------------------------

namespace S4Drive

namespace Db

open KeyedTables

/- A row of the table `revisions`; the time is a text. -/
structure RevisionRow where
  revisionId : RevisionId
  fileId : FileId
  createdAt : Text
deriving DecidableEq

/- A row of the table `conflict_records`. -/
structure ConflictRecordRow where
  fileId : FileId
  localRevisionId : Option RevisionId
  remoteRevisionId : Option RevisionId
  isOpen : Bool
deriving DecidableEq

structure RevisionTables where
  revisions : Table RevisionRow RevisionRow.revisionId
  objects : Table ObjectRow ObjectRow.fileId
  conflictRecords : List ConflictRecordRow

/-
  What `datetime('now', …)` gives for the days that revisions
  are kept; `⊥` is NULL, which nothing is less than.
-/
abbrev Cutoff := WithBot Text

/- A limit as the statement takes it. -/
def sqlLimit (limit : Nat) : Nat :=
  min limit (2 ^ 63 - 1)

/- Ids compare as their texts do. -/
def isNewer (newer r : RevisionRow) : Bool :=
  newer.fileId = r.fileId &&
    (r.createdAt < newer.createdAt ||
      (newer.createdAt = r.createdAt &&
        r.revisionId < newer.revisionId))

/- `ORDER BY r.created_at ASC, r.revision_id ASC` -/
def isBefore (q r : RevisionRow) : Bool :=
  q.createdAt < r.createdAt ||
    (q.createdAt = r.createdAt && q.revisionId ≤ r.revisionId)

namespace RevisionTables

variable (t : RevisionTables)

def isCurrent (r : RevisionRow) : Bool :=
  t.objects.rows.any fun o =>
    o.currentRevisionId = some r.revisionId

def newerCount (r : RevisionRow) : Nat :=
  (t.revisions.rows.filter fun newer => isNewer newer r).length

/- The condition of the inner `SELECT`. -/
def isPrunable
    (cutoff : Cutoff)
    (minimum : Nat)
    (r : RevisionRow) : Bool :=
  (r.createdAt : Cutoff) < cutoff && !t.isCurrent r &&
    minimum ≤ t.newerCount r

def prunable (cutoff : Cutoff) (minimum : Nat) :
    List RevisionRow :=
  t.revisions.rows.filter (t.isPrunable cutoff minimum)

def selected
    (cutoff : Cutoff)
    (minimum limit : Nat) : List RevisionId :=
  (((t.prunable cutoff minimum).mergeSort isBefore).take
    (sqlLimit limit)).map RevisionRow.revisionId

end RevisionTables

/- The tables, and how many rows were deleted. -/
def pruneOldRevisions
    (t : RevisionTables)
    (cutoff : Cutoff)
    (minimum limit : Nat) : RevisionTables × Nat :=
  let ids := t.selected cutoff minimum limit
  let kept := t.revisions.rows.filter fun r =>
    r.revisionId ∉ ids
  ({ t with
      revisions :=
        ⟨kept,
          t.revisions.distinct.sublist
            (List.filter_sublist.map _)⟩ },
    t.revisions.rows.length - kept.length)

/- A call: the time, and how much it may delete. -/
structure PruneCall where
  cutoff : Cutoff
  limit : Nat

def pruneCalls
    (minimum : Nat)
    (calls : List PruneCall)
    (t : RevisionTables) : RevisionTables :=
  calls.foldl
    (fun t call =>
      (pruneOldRevisions t call.cutoff minimum call.limit).1)
    t

open Retention

variable {t : RevisionTables} {minimum limit : Nat}
variable {cutoff cutoff' : Cutoff} {q r : RevisionRow}

/- The rule that the statement follows. -/
def RevisionTables.rule
    (t : RevisionTables)
    (minimum : Nat) :
    Rule RevisionRow (Text ×ₗ RevisionId) FileId where
  age := fun r => toLex (r.createdAt, r.revisionId)
  group := RevisionRow.fileId
  pinned := t.isCurrent
  minimum := minimum

def isExpired (cutoff : Cutoff) (r : RevisionRow) : Bool :=
  (r.createdAt : Cutoff) < cutoff

theorem isNewer_eq
    (t : RevisionTables)
    (minimum : Nat) :
    isNewer q r =
      (decide (q.fileId = r.fileId) &&
        decide ((t.rule minimum).age r <
          (t.rule minimum).age q)) := by
  unfold isNewer RevisionTables.rule
  rw [Bool.eq_iff_iff, Bool.and_eq_true, Bool.and_eq_true,
    Bool.or_eq_true, Bool.and_eq_true]
  simp only [decide_eq_true_eq, Prod.Lex.toLex_lt_toLex,
    eq_comm (a := r.createdAt)]

theorem isBefore_eq :
    isBefore q r =
      decide ((t.rule minimum).age q ≤
        (t.rule minimum).age r) := by
  unfold isBefore RevisionTables.rule
  rw [Bool.eq_iff_iff]
  simp only [Bool.and_eq_true, Bool.or_eq_true,
    decide_eq_true_eq, Prod.Lex.toLex_le_toLex]

theorem isPrunable_eq :
    t.isPrunable cutoff minimum r =
      (t.rule minimum).eligible (isExpired cutoff)
        t.revisions.rows r := by
  unfold RevisionTables.isPrunable RevisionTables.newerCount
    Rule.eligible Rule.newer
  simp only [isNewer_eq t minimum]
  rfl

theorem prune_rows_eq :
    (pruneOldRevisions t cutoff minimum
        limit).1.revisions.rows =
      (t.rule minimum).prune (isExpired cutoff)
        (sqlLimit limit) t.revisions.rows := by
  have hBatch :
      ((t.prunable cutoff minimum).mergeSort isBefore).take
          (sqlLimit limit) =
        (t.rule minimum).batch (isExpired cutoff)
          (sqlLimit limit) t.revisions.rows := by
    unfold Rule.batch Rule.eligibles RevisionTables.prunable
    have hEligible :
        t.isPrunable cutoff minimum =
          (t.rule minimum).eligible (isExpired cutoff)
            t.revisions.rows :=
      funext fun r => isPrunable_eq
    have hOrder :
        isBefore =
          fun q r =>
            decide ((t.rule minimum).age q ≤
              (t.rule minimum).age r) :=
      funext fun q => funext fun r => isBefore_eq
    rw [hEligible, hOrder]
  apply List.filter_congr
  intro r hr
  unfold RevisionTables.selected
  rw [hBatch, decide_eq_decide, not_iff_not]
  constructor
  · intro hId
    rcases List.mem_map.mp hId with ⟨q, hq, hSame⟩
    have hRow := t.revisions.eq_of_key (Rule.mem_batch hq).1 hr
      hSame
    rw [← hRow]
    exact hq
  · exact List.mem_map_of_mem

theorem isExpired_older
    (h : (t.rule minimum).age q ≤ (t.rule minimum).age r)
    (hExpired : isExpired cutoff r = true) :
    isExpired cutoff q = true := by
  unfold isExpired at hExpired ⊢
  rw [decide_eq_true_eq] at hExpired ⊢
  have hTime : q.createdAt ≤ r.createdAt := by
    rcases Prod.Lex.toLex_le_toLex.mp h with hLess | hSame
    · exact hLess.le
    · exact hSame.1.le
  exact lt_of_le_of_lt (WithBot.coe_le_coe.mpr hTime) hExpired

theorem isExpired_later
    (hLater : cutoff ≤ cutoff')
    (h : isExpired cutoff r = true) :
    isExpired cutoff' r = true := by
  unfold isExpired at h ⊢
  rw [decide_eq_true_eq] at h ⊢
  exact lt_of_lt_of_le h hLater

theorem revisions_nodup (t : RevisionTables) :
    t.revisions.rows.Nodup :=
  t.revisions.distinct.of_map _

------------------------------------------------------------
-- Calls
------------------------------------------------------------

variable {calls : List PruneCall} {limits : List Nat}

theorem pruneCalls_objects
    (minimum : Nat)
    (calls : List PruneCall)
    (t : RevisionTables) :
    (pruneCalls minimum calls t).objects = t.objects := by
  induction calls generalizing t with
  | nil => rfl
  | cons call calls ih => exact ih _

theorem pruneCalls_rule
    (minimum : Nat)
    (calls : List PruneCall)
    (t : RevisionTables) :
    (pruneCalls minimum calls t).rule minimum =
      t.rule minimum := by
  unfold RevisionTables.rule RevisionTables.isCurrent
  rw [pruneCalls_objects]

theorem pruneCalls_rows
    (minimum : Nat)
    (calls : List PruneCall)
    (t : RevisionTables) :
    (pruneCalls minimum calls t).revisions.rows =
      calls.foldl
        (fun rows call =>
          (t.rule minimum).prune (isExpired call.cutoff)
            (sqlLimit call.limit) rows)
        t.revisions.rows := by
  induction calls generalizing t with
  | nil => rfl
  | cons call calls ih =>
      unfold pruneCalls at ih ⊢
      rw [List.foldl_cons, ih, List.foldl_cons, prune_rows_eq]
      rfl

/- What may go after some calls could have gone before. -/
theorem isPrunable_of_pruneCalls
    (h :
      (pruneCalls minimum calls t).isPrunable cutoff minimum
        r = true) :
    t.isPrunable cutoff minimum r = true := by
  induction calls generalizing t with
  | nil => exact h
  | cons call calls ih =>
      have hNext := ih h
      rw [isPrunable_eq, prune_rows_eq] at hNext
      rw [isPrunable_eq]
      exact Rule.eligible_of_prune hNext

/- A deleted row could have gone from the first table. -/
theorem pruneCalls_kept
    (hMem : r ∈ t.revisions.rows)
    (hGone :
      r ∉ (pruneCalls minimum calls t).revisions.rows) :
    ∃ call ∈ calls,
      t.isPrunable call.cutoff minimum r = true := by
  induction calls generalizing t with
  | nil => exact absurd hMem hGone
  | cons call calls ih =>
      by_cases hKept :
          r ∈ (pruneOldRevisions t call.cutoff minimum
            call.limit).1.revisions.rows
      · rcases ih hKept hGone with ⟨later, hCall, hPrunable⟩
        refine ⟨later, List.mem_cons_of_mem call hCall, ?_⟩
        have hOne :
            (pruneCalls minimum [call] t).isPrunable
              later.cutoff minimum r = true := hPrunable
        exact isPrunable_of_pruneCalls hOne
      · rw [prune_rows_eq, Rule.mem_prune] at hKept
        have hTaken := not_not.mp fun hNot => hKept ⟨hMem, hNot⟩
        refine ⟨call, List.mem_cons_self, ?_⟩
        rw [isPrunable_eq]
        exact (Rule.mem_batch hTaken).2

/- Calls before do not change what is left in the end. -/
theorem pruneAll_pruneCalls
    (hLater : ∀ call ∈ calls, call.cutoff ≤ cutoff) :
    (t.rule minimum).pruneAll (isExpired cutoff)
        (pruneCalls minimum calls t).revisions.rows =
      (t.rule minimum).pruneAll (isExpired cutoff)
        t.revisions.rows := by
  induction calls generalizing t with
  | nil => rfl
  | cons call calls ih =>
      have hRest := ih
        (t := (pruneOldRevisions t call.cutoff minimum
          call.limit).1)
        fun later hMem =>
          hLater later (List.mem_cons_of_mem call hMem)
      refine hRest.trans ?_
      rw [prune_rows_eq]
      exact Rule.pruneAll_prune
        (fun _ _ => isExpired_older)
        fun _ => isExpired_later
          (hLater call List.mem_cons_self)

/- Calls that may delete enough delete all that may go. -/
theorem pruneCalls_all
    (h :
      (t.prunable cutoff minimum).length ≤
        (limits.map sqlLimit).sum) :
    (pruneCalls minimum (limits.map (PruneCall.mk cutoff))
        t).revisions.rows =
      (t.rule minimum).pruneAll (isExpired cutoff)
        t.revisions.rows := by
  have hCount :
      t.prunable cutoff minimum =
        (t.rule minimum).eligibles (isExpired cutoff)
          t.revisions.rows :=
    List.filter_congr fun r _ => isPrunable_eq
  rw [hCount] at h
  rw [pruneCalls_rows, List.foldl_map,
    ← Rule.prunes_eq_pruneAll (fun _ _ => isExpired_older)
      (revisions_nodup t) h, List.foldl_map]

theorem pruneCalls_conflictRecords
    (minimum : Nat)
    (calls : List PruneCall)
    (t : RevisionTables) :
    (pruneCalls minimum calls t).conflictRecords =
      t.conflictRecords := by
  induction calls generalizing t with
  | nil => rfl
  | cons call calls ih => exact ih _

theorem pruneCalls_sublist
    (minimum : Nat)
    (calls : List PruneCall)
    (t : RevisionTables) :
    (pruneCalls minimum calls t).revisions.rows.Sublist
      t.revisions.rows := by
  induction calls generalizing t with
  | nil => exact List.Sublist.refl _
  | cons call calls ih =>
      exact (ih _).trans List.filter_sublist

theorem length_prunable_pruneCalls_le :
    ((pruneCalls minimum calls t).prunable cutoff
        minimum).length ≤
      (t.prunable cutoff minimum).length := by
  have hRows := pruneCalls_sublist minimum calls t
  apply List.Sublist.length_le
  exact (List.monotone_filter_right _ fun r =>
    isPrunable_of_pruneCalls).trans (hRows.filter _)

theorem length_le_sum_sqlLimit
    (h : ∀ limit ∈ limits, 0 < limit) :
    limits.length ≤ (limits.map sqlLimit).sum := by
  induction limits with
  | nil => exact Nat.le_refl 0
  | cons limit limits ih =>
      have hFirst : 1 ≤ sqlLimit limit :=
        Nat.le_min.mpr ⟨h limit List.mem_cons_self, by decide⟩
      have hRest := ih fun l hMem =>
        h l (List.mem_cons_of_mem limit hMem)
      rw [List.map_cons, List.sum_cons, List.length_cons]
      omega

/- Two revisions of a file; an open conflict names the older. -/
def conflictedTables : RevisionTables where
  revisions :=
    ⟨[⟨1, 7, "2024-01-01T00:00:00Z".toList⟩,
      ⟨2, 7, "2024-06-01T00:00:00Z".toList⟩], by decide⟩
  objects := Table.empty
  conflictRecords := [⟨7, some 1, some 2, true⟩]

end Db

end S4Drive

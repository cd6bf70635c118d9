import S4Drive.Sync.FinishedUploads

/-
  Whether Notes has changes that the bucket does not have
  yet, as a backup says it. The answer counts all changes
  that were ever recorded, since no row of theirs goes, and
  it asks the queue of transfers for states that no row has.

  Main declarations:
    * `notesHasPendingMutations`, `checkIncludesPending`
    * `NotesCommand`, `LocalDatabase.run`
    * `Uncommitted`, `WaitingUpload`, `HasPending`
    * `recorded_run`, `pendingFlag_exact_iff`
-/

------------------------------------------------------------
-- The Answer
------------------------------------------------------------

namespace S4Drive

namespace Db

open KeyedTables
open RemoteChanges (TransferStatus)

/- The column `status`, whose CHECK allows no other text. -/
def statusText : TransferStatus → String
  | .queued => "queued"
  | .inProgress => "in_progress"
  | .paused => "paused"
  | .failed => "failed"
  | .completed => "completed"

/- `s3_key = 'Notes' OR substr(s3_key, 1, 6) = 'Notes/'` -/
def isInNotes (s3Key : Text) : Bool :=
  s3Key = "Notes".toList || s3Key.take 6 = "Notes/".toList

/- What fails when the tables are read. -/
structure ReadFaults where
  lock : Option CoreError
  mutations : Bool
  transfers : Bool

/- `query_row(…).unwrap_or(0)` -/
def countOr (fails : Bool) (count : Nat) : Nat :=
  if fails then 0 else count

namespace LocalDatabase

def mutationCount
    (workspaceId : Uuid)
    (db : LocalDatabase) : Nat :=
  (db.localMutations.rows.filter fun row =>
    row.workspaceId = workspaceId).length

def pendingUploadCount (db : LocalDatabase) : Nat :=
  (db.transferQueue.rows.filter fun row =>
    isInNotes row.s3Key && row.direction = .upload &&
      statusText row.status ∈ ["pending", "running"]).length

def notesHasPendingMutations
    (faults : ReadFaults)
    (workspaceId : Uuid)
    (db : LocalDatabase) : CoreResult Bool :=
  match faults.lock with
  | some error => .error error
  | none =>
      if countOr faults.mutations
          (db.mutationCount workspaceId) > 0 then
        .ok true
      else
        .ok (countOr faults.transfers db.pendingUploadCount > 0)

/- What a backup says of itself. -/
def checkIncludesPending
    (faults : ReadFaults)
    (workspaceId : Uuid)
    (db : LocalDatabase) : Bool :=
  match db.notesHasPendingMutations faults workspaceId with
  | .ok pending => pending
  | .error _ => false

------------------------------------------------------------
-- Writes
------------------------------------------------------------

/- The row of an entry below a folder that has moved. -/
def isRelocated
    (old identity : IndexedIdentity)
    (row : ObjectRow) : Bool :=
  row.fileId = identity.entry.fileId &&
    (row.s3Key = old.relative ||
      row.s3Key = identity.relative) &&
    !row.state.isDeleted

/- `none` where the index has changed since. -/
def relocateIdentity
    (place : Text → Text)
    (now : Timestamp)
    (intent : NotesIntent)
    (db : LocalDatabase)
    (identity : IndexedIdentity) : Option LocalDatabase :=
  let id := identity.entry.fileId
  match intent.baseline.find? (·.entry.fileId = id) with
  | none => none
  | some old =>
      if db.objects.rows.any (isRelocated old identity) then
        some
          { db with
            objects := db.objects.updateWhere
              (isRelocated old identity)
              (fun row =>
                { row with
                  localPath := place identity.relative
                  s3Key := identity.relative
                  parentId := identity.entry.parentId
                  state :=
                    if id = intent.rootId then identity.state
                    else row.state
                  updatedAt := now })
              (fun _ => rfl)
            transferQueue := db.transferQueue.update
              (fun row =>
                row.fileId = id &&
                  row.localPath = place old.relative &&
                  row.isOpen)
              (fun row =>
                { row with
                  localPath := place identity.relative
                  s3Key :=
                    if row.direction = .upload then
                      identity.relative
                    else
                      row.s3Key
                  updatedAt := now })
              (fun _ => rfl) }
      else
        none

/- One transaction; `none` where it is rolled back. -/
def projectRootRelocation
    (place : Text → Text)
    (now : Timestamp)
    (intent : NotesIntent)
    (db : LocalDatabase) : Option LocalDatabase :=
  match intent.changes.foldlM
      (relocateIdentity place now intent) db with
  | none => none
  | some db =>
      let db := { db with
        notesRoots := db.notesRoots.insertOrIgnore
          ⟨intent.workspaceId, intent.rootId⟩ }
      let bound :=
        (db.notesRoots.find intent.workspaceId).map
          NotesRoot.rootFileId
      if bound = some intent.rootId then
        some (db.recordMutation intent .indexed)
      else
        none

/- The changes whose journal is indexed are committed once. -/
def markMutationCommitted
    (requestId : Uuid)
    (db : LocalDatabase) : LocalDatabase :=
  { db with
    localMutations := db.localMutations.updateWhere
      (fun row =>
        row.requestId = requestId && row.stage = .indexed)
      (fun row => { row with stage := .committed })
      (fun _ => rfl) }

end LocalDatabase

/-
  What can happen to the tables. Four functions write the
  changes of Notes; all others, like those of the engines,
  the scanner and the maintenance, leave them as they are.
-/
inductive NotesCommand where
  | project
      (place : Text → Text) (now : Timestamp)
      (intent : NotesIntent) (applyChanges rebuild : Bool)
  | relocateRoot
      (place : Text → Text) (now : Timestamp)
      (intent : NotesIntent)
  | markCommitted (requestId : Uuid)
  | other
      (f : LocalDatabase → LocalDatabase)
      (keeps : ∀ db, (f db).localMutations = db.localMutations)

namespace LocalDatabase

def step
    (db : LocalDatabase) : NotesCommand → LocalDatabase
  | .project place now intent applyChanges rebuild =>
      db.projectNotesIntent place now intent applyChanges
        rebuild
  | .relocateRoot place now intent =>
      (db.projectRootRelocation place now intent).getD db
  | .markCommitted requestId =>
      db.markMutationCommitted requestId
  | .other f _ => f db

def run
    (commands : List NotesCommand)
    (db : LocalDatabase) : LocalDatabase :=
  commands.foldl step db

/- The others bring bytes, which travel in the queue. -/
def changesPlace (kind : MutationKind) : Bool :=
  kind ≠ .createNote && kind ≠ .save

variable (workspaceId : Uuid) (db : LocalDatabase)

/- Some change of the workspace was ever recorded. -/
def Recorded : Prop :=
  ∃ row ∈ db.localMutations.rows, row.workspaceId = workspaceId

/- A change of a place that the bucket does not have yet. -/
def Uncommitted : Prop :=
  ∃ row ∈ db.localMutations.rows,
    row.workspaceId = workspaceId ∧
      changesPlace row.kind = true ∧ row.stage ≠ .committed

/- A note whose bytes still have to go to the bucket. -/
def WaitingUpload : Prop :=
  ∃ row ∈ db.transferQueue.rows,
    row.direction = .upload ∧ isInNotes row.s3Key = true ∧
      row.isWaiting = true

def HasPending : Prop :=
  db.Uncommitted workspaceId ∨ db.WaitingUpload

/- A record of a change that is committed or of bytes. -/
def OtherRecorded : Prop :=
  ∃ row ∈ db.localMutations.rows,
    row.workspaceId = workspaceId ∧
      (changesPlace row.kind = false ∨ row.stage = .committed)

end LocalDatabase

/- Whether the changes can be counted. -/
def ReadFaults.Readable (faults : ReadFaults) : Prop :=
  faults.lock = none ∧ faults.mutations = false

namespace LocalDatabase

/-
  Where changes can be counted, a change of a place is not
  committed, or other records and waiting uploads come
  together; where they cannot, nothing is pending.
-/
structure AnswerFits
    (faults : ReadFaults)
    (workspaceId : Uuid)
    (db : LocalDatabase) : Prop where
  counted :
    faults.Readable →
      db.Uncommitted workspaceId ∨
        (db.OtherRecorded workspaceId ↔ db.WaitingUpload)
  unread :
    ¬ faults.Readable →
      ¬ db.Uncommitted workspaceId ∧ ¬ db.WaitingUpload

variable {workspaceId : Uuid} {db : LocalDatabase}
variable {faults : ReadFaults}

/- No transfer has a state that the queue is asked for. -/
theorem pendingUploadCount_eq (db : LocalDatabase) :
    db.pendingUploadCount = 0 := by
  unfold pendingUploadCount
  rw [List.length_eq_zero_iff, List.filter_eq_nil_iff]
  intro row _ hFound
  have hStatus := (Bool.and_eq_true_iff.mp hFound).2
  revert hStatus
  cases row.status <;> decide

theorem mutationCount_pos_iff :
    db.mutationCount workspaceId > 0 ↔
      db.Recorded workspaceId := by
  unfold mutationCount Recorded
  rw [gt_iff_lt, List.length_pos_iff_exists_mem]
  simp

/- The answer is whether anything was ever recorded. -/
theorem notesHasPendingMutations_iff :
    db.notesHasPendingMutations faults workspaceId =
        .ok true ↔
      faults.Readable ∧ db.Recorded workspaceId := by
  unfold notesHasPendingMutations ReadFaults.Readable
  cases faults.lock with
  | some error => simp
  | none =>
      rw [← mutationCount_pos_iff, pendingUploadCount_eq]
      cases faults.mutations
      · by_cases hCount : db.mutationCount workspaceId > 0
        · simp [countOr, hCount]
        · simp [countOr, hCount]
      · simp [countOr]

theorem checkIncludesPending_iff :
    db.checkIncludesPending faults workspaceId = true ↔
      db.notesHasPendingMutations faults workspaceId =
        .ok true := by
  unfold checkIncludesPending
  cases db.notesHasPendingMutations faults workspaceId with
  | ok pending => simp
  | error e => simp

theorem recorded_iff :
    db.Recorded workspaceId ↔
      db.Uncommitted workspaceId ∨
        db.OtherRecorded workspaceId := by
  constructor
  · rintro ⟨row, hRow, hSpace⟩
    by_cases hOther :
        changesPlace row.kind = false ∨ row.stage = .committed
    · exact .inr ⟨row, hRow, hSpace, hOther⟩
    · rw [not_or, Bool.not_eq_false] at hOther
      exact .inl ⟨row, hRow, hSpace, hOther⟩
  · rintro (⟨row, hRow, hSpace, _⟩ | ⟨row, hRow, hSpace, _⟩)
    · exact ⟨row, hRow, hSpace⟩
    · exact ⟨row, hRow, hSpace⟩

theorem recorded_of_localMutations
    {db' : LocalDatabase}
    (hSame : db'.localMutations = db.localMutations)
    (h : db.Recorded workspaceId) :
    db'.Recorded workspaceId := by
  unfold Recorded
  rw [hSame]
  exact h

/- An update of stages keeps the rows of a workspace. -/
theorem recorded_updateWhere
    (p : LocalMutation → Bool)
    (stage : MutationStage)
    (h : db.Recorded workspaceId) :
    ∃ row ∈ (db.localMutations.updateWhere p
        (fun row => { row with stage := stage })
        fun _ => rfl).rows,
      row.workspaceId = workspaceId := by
  rcases h with ⟨row, hRow, hSpace⟩
  refine ⟨_, Table.mem_updateWhere.mpr ⟨row, hRow, rfl⟩, ?_⟩
  split <;> exact hSpace

variable {intent : NotesIntent}

theorem recorded_recordMutation
    {stage : MutationStage}
    (h : db.Recorded workspaceId) :
    (db.recordMutation intent stage).Recorded workspaceId := by
  rcases recorded_updateWhere
      (fun row => row.requestId = intent.requestId) stage h with
    ⟨row, hRow, hSpace⟩
  exact ⟨row, Table.mem_insertOrIgnore_of_mem hRow, hSpace⟩

variable {identities : List IndexedIdentity}

theorem projectIdentities_localMutations
    {place : Text → Text} {now : Timestamp}
    {rebuild replace : Bool} :
    (identities.foldl
        (projectIdentity place now intent rebuild replace)
        db).localMutations =
      db.localMutations := by
  induction identities generalizing db with
  | nil => rfl
  | cons identity identities ih => exact ih

theorem relocateIdentities_localMutations
    {place : Text → Text} {now : Timestamp}
    {db' : LocalDatabase}
    (h : identities.foldlM (relocateIdentity place now intent)
      db = some db') :
    db'.localMutations = db.localMutations := by
  induction identities generalizing db with
  | nil =>
      cases h
      rfl
  | cons identity identities ih =>
      rw [List.foldlM_cons] at h
      rcases Option.bind_eq_some_iff.mp h with
        ⟨db₁, hFirst, hRest⟩
      rw [ih hRest]
      unfold relocateIdentity at hFirst
      dsimp only at hFirst
      split at hFirst
      · cases hFirst
      · split at hFirst
        · cases hFirst
          rfl
        · cases hFirst

theorem recorded_step
    (command : NotesCommand)
    (h : db.Recorded workspaceId) :
    (db.step command).Recorded workspaceId := by
  cases command with
  | project place now intent applyChanges rebuild =>
      apply recorded_recordMutation
      refine recorded_of_localMutations ?_ h
      cases applyChanges
      · exact projectIdentities_localMutations
      · simp only [if_true]
        split
        · exact projectIdentities_localMutations.trans
            projectIdentities_localMutations
        · exact projectIdentities_localMutations.trans
            projectIdentities_localMutations
  | relocateRoot place now intent =>
      unfold step projectRootRelocation
      dsimp only
      split
      · exact h
      · rename_i db₁ hMoved
        have hSame := relocateIdentities_localMutations hMoved
        split
        · apply recorded_recordMutation
          exact recorded_of_localMutations hSame h
        · exact h
  | markCommitted requestId =>
      exact recorded_updateWhere _ .committed h
  | other f keeps =>
      exact recorded_of_localMutations (keeps db) h

/- No record ever goes, whatever is committed. -/
theorem recorded_run
    (commands : List NotesCommand)
    (h : db.Recorded workspaceId) :
    (db.run commands).Recorded workspaceId := by
  induction commands generalizing db with
  | nil => exact h
  | cons command commands ih => exact ih (recorded_step command h)

/- From the first change on, the answer stays the same. -/
theorem notesHasPendingMutations_run
    (commands : List NotesCommand)
    (h : db.notesHasPendingMutations faults workspaceId =
      .ok true) :
    (db.run commands).notesHasPendingMutations faults
        workspaceId =
      .ok true := by
  have hAnswer := notesHasPendingMutations_iff.mp h
  exact notesHasPendingMutations_iff.mpr
    ⟨hAnswer.1, recorded_run commands hAnswer.2⟩

theorem answer_iff_fits :
    ((db.notesHasPendingMutations faults workspaceId =
          .ok true ↔
        db.HasPending workspaceId) ∧
      (db.checkIncludesPending faults workspaceId = true ↔
        db.HasPending workspaceId)) ↔
      db.AnswerFits faults workspaceId := by
  rw [checkIncludesPending_iff, and_self,
    notesHasPendingMutations_iff, recorded_iff]
  unfold HasPending
  by_cases hReadable : faults.Readable
  · constructor
    · intro h
      exact ⟨fun _ => by tauto,
        fun hNot => absurd hReadable hNot⟩
    · intro h
      have hCounted := h.counted hReadable
      tauto
  · constructor
    · intro h
      exact ⟨fun hYes => absurd hYes hReadable,
        fun _ => by tauto⟩
    · intro h
      have hUnread := h.unread hReadable
      tauto

/-
  In every state that the tables get to, the answer and what
  a backup says are exact under the condition, and only so.
-/
theorem pendingFlag_exact_iff
    (commands : List NotesCommand)
    (faults : ReadFaults)
    (workspaceId : Uuid) :
    (((empty.run commands).notesHasPendingMutations faults
          workspaceId =
          .ok true ↔
        (empty.run commands).HasPending workspaceId) ∧
      ((empty.run commands).checkIncludesPending faults
          workspaceId =
          true ↔
        (empty.run commands).HasPending workspaceId)) ↔
      (empty.run commands).AnswerFits faults workspaceId :=
  answer_iff_fits

end LocalDatabase

/- A folder that Notes makes. -/
def newFolderIntent : NotesIntent where
  workspaceId := 1
  requestId := 2
  fileId := 3
  rootId := 4
  rootIdentity := "1:1"
  kind := .createFolder
  stage := .intent
  createdAt := 0
  baseline := []
  changes :=
    [{ metadataAvailable := true
       entry := folderEntry 3 ⟨some 4, "Plans"⟩ 0
       relative := "Notes/Plans".toList
       state := .pendingUpload
       token := none }]
  noOp := false

/- A note that the scanner has found. -/
def foundUpload : TransferRow where
  id := 0
  direction := .upload
  fileId := 5
  localPath := "/Notes/a.md".toList
  s3Key := "Notes/a.md".toList
  blobHash := none
  totalBytes := 1
  transferredBytes := 0
  status := .queued
  errorMessage := none
  updatedAt := 0

/- Made, indexed and committed: nothing is left to do. -/
def committedFolder : List NotesCommand :=
  [.project id 0 newFolderIntent false false,
    .project id 0 newFolderIntent true false, .markCommitted 2]

/- The folder is still pending after another request. -/
theorem committedFolder_stays_pending :
    ((LocalDatabase.empty.run committedFolder).run
        [.markCommitted 3]).notesHasPendingMutations
          ⟨none, false, true⟩ 1 =
      .ok true :=
  LocalDatabase.notesHasPendingMutations_run [.markCommitted 3]
    (by decide +kernel)

def queuedUpload : List NotesCommand :=
  [.other
    (fun db => { db with
      transferQueue := db.transferQueue.insert foundUpload })
    fun _ => rfl]

def noFaults : ReadFaults :=
  ⟨none, false, false⟩

/-
  A committed change is still answered as pending, and an
  upload that waits is not.
-/
theorem pendingFlag_wrong :
    ((LocalDatabase.empty.run
          committedFolder).notesHasPendingMutations noFaults 1 =
        .ok true ∧
      ¬ (LocalDatabase.empty.run committedFolder).HasPending
        1) ∧
    (LocalDatabase.empty.run
          queuedUpload).notesHasPendingMutations noFaults 1 =
        .ok false ∧
      (LocalDatabase.empty.run queuedUpload).HasPending 1 := by
  unfold LocalDatabase.HasPending LocalDatabase.Uncommitted
    LocalDatabase.WaitingUpload
  decide +kernel

end Db

end S4Drive

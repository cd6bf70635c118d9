import S4Drive.Sync.LocalDatabase

/-
  What the index says when an upload ends. While the bytes
  of a note travel, Notes goes on: it saves, renames, moves
  and deletes. Each change sets the rows of its entries in
  one transaction; what the end of the upload sets depends
  on whether its job is still the newest one.

  Main declarations:
    * `NotesIntent`, `LocalDatabase.projectNotesIntent`
    * `uploadBindingIsCurrent`, `finishUpload`
    * `Outdated`, `outdated_run`
    * `finishUpload_keeps_newer`
-/

------------------------------------------------------------
-- Changes of Notes
------------------------------------------------------------

namespace S4Drive

namespace Db

open KeyedTables

/- An entry with the row that a change gives it. -/
structure IndexedIdentity where
  metadataAvailable : Bool
  entry : FileEntry
  relative : Text
  state : IndexState
  token : Option SaveToken
deriving DecidableEq

/- What of an intent of the journal goes to the index. -/
structure NotesIntent where
  workspaceId : Uuid
  requestId : Uuid
  fileId : FileId
  rootId : FileId
  rootIdentity : String
  kind : MutationKind
  stage : MutationStage
  createdAt : Timestamp
  baseline : List IndexedIdentity
  changes : List IndexedIdentity
  noOp : Bool

/- `encode_entry_metadata` -/
def encodeEntryMetadata (entry : FileEntry) : EntryMetadata where
  contentRef := entry.contentRef
  mime := entry.mime
  deletedAt := entry.deletedAt
  versionHistory := entry.versionHistory

namespace IndexedIdentity

def metadata
    (identity : IndexedIdentity) : Option EntryMetadata :=
  if identity.metadataAvailable then
    some (encodeEntryMetadata identity.entry)
  else
    none

/- The row that is inserted when the file has none. -/
def newRow
    (place : Text → Text)
    (identity : IndexedIdentity) : ObjectRow where
  fileId := identity.entry.fileId
  localPath := place identity.relative
  s3Key := identity.relative
  size := identity.entry.size
  state := identity.state
  isFolder := identity.entry.entryType = .folder
  parentId := identity.entry.parentId
  currentRevisionId := identity.entry.currentRevisionId
  localHash := identity.entry.contentHash
  localMtime := none
  localKey := none
  updatedAt := identity.entry.updatedAt
  metadata := identity.metadata

/- A rebuild of the index sets what the journal knows. -/
def rebuiltRow
    (place : Text → Text)
    (identity : IndexedIdentity)
    (row : ObjectRow) : ObjectRow :=
  { row with
    localPath := place identity.relative
    s3Key := identity.relative
    size := identity.entry.size
    state := identity.state
    parentId := identity.entry.parentId
    currentRevisionId := identity.entry.currentRevisionId
    localHash := identity.entry.contentHash
    updatedAt := identity.entry.updatedAt
    metadata := identity.metadata }

/- A change keeps the hash and the revision of the bytes. -/
def changedRow
    (place : Text → Text)
    (identity : IndexedIdentity)
    (row : ObjectRow) : ObjectRow :=
  { row with
    localPath := place identity.relative
    s3Key := identity.relative
    size := identity.entry.size
    state :=
      if row.state = .ignored ∧ identity.state ≠ .deletedLocally
        then row.state
        else identity.state
    parentId := identity.entry.parentId
    updatedAt := identity.entry.updatedAt
    metadata := identity.metadata.or row.metadata }

/- The upload of the content that a change has saved. -/
def newUpload
    (place : Text → Text)
    (now : Timestamp)
    (identity : IndexedIdentity) : TransferRow where
  id := 0
  direction := .upload
  fileId := identity.entry.fileId
  localPath := place identity.relative
  s3Key := identity.relative
  blobHash := identity.token.map SaveToken.contentHash
  totalBytes := identity.entry.size
  transferredBytes := 0
  status := .queued
  errorMessage := none
  updatedAt := now

/- A content that has to be uploaded. -/
def uploads (identity : IndexedIdentity) : Bool :=
  identity.entry.entryType = .file && identity.state ≠ .ignored

end IndexedIdentity

/- The intents that bring bytes. -/
def NotesIntent.bringsContent (intent : NotesIntent) : Bool :=
  intent.kind = .createNote || intent.kind = .save ||
    intent.kind = .restore

namespace TransferQueue

/- `REPOINT_TRANSFERS`: a download keeps its blob key. -/
def repoint
    (fileId : FileId)
    (localPath s3Key : Text)
    (now : Timestamp)
    (queue : TransferQueue) : TransferQueue :=
  queue.update
    (fun row => row.fileId = fileId && row.isWaiting)
    (fun row =>
      { row with
        localPath := localPath
        s3Key :=
          if row.direction = .upload then s3Key else row.s3Key
        updatedAt := now })
    (fun _ => rfl)

def supersede
    (fileId : FileId)
    (queue : TransferQueue) : TransferQueue :=
  queue.update
    (fun row => row.fileId = fileId && row.isWaiting)
    (fun row =>
      { row with
        status := .failed
        errorMessage := some "Superseded by a local mutation" })
    (fun _ => rfl)

/- What becomes of the transfers of an entry that changes. -/
def change
    (place : Text → Text)
    (now : Timestamp)
    (kind : MutationKind)
    (identity : IndexedIdentity)
    (queue : TransferQueue) : TransferQueue :=
  match kind with
  | .delete => queue.supersede identity.entry.fileId
  | .rename | .move =>
      queue.repoint identity.entry.fileId
        (place identity.relative) identity.relative now
  | _ => queue

def enqueue
    (place : Text → Text)
    (now : Timestamp)
    (queue : TransferQueue)
    (identity : IndexedIdentity) : TransferQueue :=
  if identity.uploads then
    queue.insert (identity.newUpload place now)
  else
    queue

end TransferQueue

namespace LocalDatabase

/- The rows that an entry of an intent leaves. -/
def projectObjects
    (place : Text → Text)
    (rebuild replace : Bool)
    (identity : IndexedIdentity)
    (objects : Table ObjectRow ObjectRow.fileId) :
    Table ObjectRow ObjectRow.fileId :=
  let isEntry := fun row : ObjectRow =>
    row.fileId = identity.entry.fileId
  let objects := objects.insertOrIgnore (identity.newRow place)
  let objects := objects.updateWhere
    (fun row => rebuild && isEntry row)
    (identity.rebuiltRow place) (fun _ => rfl)
  objects.updateWhere
    (fun row => replace && isEntry row)
    (identity.changedRow place) (fun _ => rfl)

/- A change replaces the version that is there. -/
def projectVersion
    (workspaceId : Uuid)
    (replace : Bool)
    (identity : IndexedIdentity)
    (noteVersions : Table NoteVersion NoteVersion.key) :
    Table NoteVersion NoteVersion.key :=
  match identity.token with
  | none => noteVersions
  | some token =>
      let row : NoteVersion :=
        ⟨workspaceId, identity.entry.fileId, token⟩
      (noteVersions.updateWhere
        (fun old => replace && old.key = row.key)
        (fun old => { old with token := token })
        (fun _ => rfl)).insertOrIgnore row

/- The statements for one entry of an intent. -/
def projectIdentity
    (place : Text → Text)
    (now : Timestamp)
    (intent : NotesIntent)
    (rebuild replace : Bool)
    (db : LocalDatabase)
    (identity : IndexedIdentity) : LocalDatabase :=
  { db with
    objects :=
      projectObjects place rebuild replace identity db.objects
    transferQueue :=
      if replace then
        db.transferQueue.change place now intent.kind identity
      else
        db.transferQueue
    noteVersions :=
      projectVersion intent.workspaceId replace identity
        db.noteVersions }

/- Whether the index has an intent already. -/
def isIndexed (requestId : Uuid) (db : LocalDatabase) : Bool :=
  db.localMutations.rows.any fun row =>
    row.requestId = requestId && row.stage = .indexed

def recordMutation
    (intent : NotesIntent)
    (stage : MutationStage)
    (db : LocalDatabase) : LocalDatabase :=
  { db with
    localMutations :=
      (db.localMutations.updateWhere
        (fun row => row.requestId = intent.requestId)
        (fun row => { row with stage := stage })
        (fun _ => rfl)).insertOrIgnore
        { requestId := intent.requestId
          workspaceId := intent.workspaceId
          fileId := intent.fileId
          kind := intent.kind
          stage := stage
          createdAt := intent.createdAt } }

def bindRoot
    (intent : NotesIntent)
    (db : LocalDatabase) : LocalDatabase :=
  { db with
    notesRoots := db.notesRoots.insertOrIgnore
      ⟨intent.workspaceId, intent.rootId⟩
    rootIdentities := db.rootIdentities.insertOrIgnore
      ⟨intent.workspaceId, intent.rootIdentity⟩ }

/- One transaction: `place` is a path in the sync folder. -/
def projectNotesIntent
    (place : Text → Text)
    (now : Timestamp)
    (intent : NotesIntent)
    (applyChanges rebuild : Bool)
    (db : LocalDatabase) : LocalDatabase :=
  let db := intent.baseline.foldl
    (projectIdentity place now intent rebuild false) db
  let db :=
    if applyChanges then
      intent.changes.foldl
        (projectIdentity place now intent rebuild true) db
    else
      db
  let db := db.bindRoot intent
  let db :=
    if applyChanges && !db.isIndexed intent.requestId &&
        !intent.noOp && intent.bringsContent then
      { db with
        transferQueue :=
          intent.changes.foldl (TransferQueue.enqueue place now)
            db.transferQueue }
    else
      db
  db.recordMutation intent
    (if applyChanges then .indexed else intent.stage)

end LocalDatabase

/- The mtime and the file key of what is at a path. -/
structure FileFacts where
  mtime : Option Nat
  fileKey : Option String

/- `replace(text, pattern, '')`, to be skipped so far. -/
def removeAll (pattern : Text) : Nat → Text → Text
  | _, [] => []
  | skip + 1, _ :: rest => removeAll pattern skip rest
  | 0, c :: rest =>
      if pattern.isPrefixOf (c :: rest) then
        removeAll pattern (pattern.length - 1) rest
      else
        c :: removeAll pattern 0 rest

/- The hash that the tables have of a version of a note. -/
def NoteVersion.bareContent (row : NoteVersion) : Text :=
  removeAll blake3Prefix 0 row.token.contentHash.toList

/- The states of a row whose file may still be uploaded. -/
def ObjectRow.mayUpload (row : ObjectRow) : Bool :=
  row.state ≠ .deletedLocally && row.state ≠ .deletedRemotely &&
    row.state ≠ .ignored && row.state ≠ .conflicted

/- An upload of the file that came after a job. -/
def isNewerUpload
    (fileId : FileId)
    (id : Nat)
    (row : TransferRow) : Bool :=
  row.fileId = fileId && row.direction = .upload &&
    decide (id < row.id) && row.isWaiting

namespace LocalDatabase

/- `INSERT OR REPLACE` of all columns of a file. -/
def writeFileIndex
    (facts : Text → FileFacts)
    (entry : FileEntry)
    (localPath indexedS3Key : Text)
    (state : IndexState)
    (db : LocalDatabase) : LocalDatabase :=
  { db with
    objects := db.objects.insertOrReplace
      { fileId := entry.fileId
        localPath := localPath
        s3Key := indexedS3Key
        size := entry.size
        state := state
        isFolder := entry.entryType = .folder
        parentId := entry.parentId
        currentRevisionId := entry.currentRevisionId
        localHash := entry.contentHash
        localMtime := (facts localPath).mtime
        localKey := (facts localPath).fileKey
        updatedAt := entry.updatedAt
        metadata := some (encodeEntryMetadata entry) } }

/- Path, key and parent of a file in the index. -/
def indexedPlace
    (fileId : FileId)
    (db : LocalDatabase) :
    Option (Text × Text × Option FileId) :=
  (db.objects.find fileId).map fun row =>
    (row.localPath, row.s3Key, row.parentId)

/- `job` is a row as it was when the engine read it. -/
def uploadBindingIsCurrent
    (job : TransferRow)
    (expected : String)
    (db : LocalDatabase) : Bool :=
  db.noteVersions.rows.any fun v =>
    db.objects.rows.any fun o =>
      db.transferQueue.rows.any fun t =>
        o.fileId = v.fileId && t.id = job.id &&
          t.fileId = o.fileId && o.fileId = job.fileId &&
          o.localPath = job.localPath && o.s3Key = job.s3Key &&
          o.mayUpload && t.isCurrent &&
          v.bareContent = bareHash expected &&
          !(db.transferQueue.rows.any
            (isNewerUpload o.fileId t.id))

def completeTransfer
    (id : Nat)
    (now : Timestamp)
    (db : LocalDatabase) : LocalDatabase :=
  { db with
    transferQueue := db.transferQueue.update
      (fun row => row.id = id)
      (fun row =>
        { row with
          status := .completed
          transferredBytes :=
            if row.totalBytes > 0 then row.totalBytes
            else row.transferredBytes
          updatedAt := now })
      (fun _ => rfl) }

/- Whether the end of the upload may set the index. -/
def finishIsCurrent
    (job : TransferRow)
    (localContentMatches : Bool)
    (db : LocalDatabase) : Bool :=
  match job.blobHash with
  | none => true
  | some expected =>
      localContentMatches &&
        db.uploadBindingIsCurrent job expected

/-
  The place stays the indexed one: the job may predate a
  rename, and the entry has the placement of the bucket.
-/
def finishUpload
    (facts : Text → FileFacts)
    (now : Timestamp)
    (job : TransferRow)
    (entry : FileEntry)
    (localContentMatches : Bool)
    (db : LocalDatabase) : Bool × LocalDatabase :=
  let current := db.finishIsCurrent job localContentMatches
  let db :=
    if current then
      match db.indexedPlace job.fileId with
      | some (localPath, s3Key, parentId) =>
          db.writeFileIndex facts
            { entry with parentId := parentId } localPath s3Key
            .synced
      | none =>
          db.writeFileIndex facts entry job.localPath job.s3Key
            .synced
    else
      db
  (current, db.completeTransfer job.id now)

end LocalDatabase

------------------------------------------------------------
-- Jobs That Are Outdated
------------------------------------------------------------

/- The job is given up, or there is a newer one. -/
def Outdated
    (job : TransferRow)
    (queue : TransferQueue) : Prop :=
  (∀ row ∈ queue.rows, row.id = job.id →
    row.fileId = job.fileId → row.isCurrent = false) ∨
  ∃ newer ∈ queue.rows,
    isNewerUpload job.fileId job.id newer

/- What of the index a job is bound to. -/
structure Bound
    (job : TransferRow)
    (expected : String)
    (db : LocalDatabase) : Prop where
  content :
    ∃ v ∈ db.noteVersions.rows,
      v.fileId = job.fileId ∧ v.bareContent = bareHash expected
  place :
    ∃ o ∈ db.objects.rows,
      o.fileId = job.fileId ∧ o.localPath = job.localPath ∧
        o.s3Key = job.s3Key ∧ o.mayUpload

theorem uploadBindingIsCurrent_iff
    {job : TransferRow}
    {expected : String}
    {db : LocalDatabase} :
    db.uploadBindingIsCurrent job expected ↔
      Bound job expected db ∧ ¬ Outdated job db.transferQueue := by
  simp only [LocalDatabase.uploadBindingIsCurrent, List.any_eq_true,
    Bool.and_eq_true, decide_eq_true_iff, Bool.not_eq_true',
    List.any_eq_false]
  constructor
  · rintro ⟨v, hv, o, ho, t, ht, hFound⟩
    obtain ⟨⟨⟨⟨⟨⟨⟨⟨⟨hFile, hId⟩, hOwn⟩, hJob⟩, hPath⟩, hKey⟩,
      hMay⟩, hCurrent⟩, hContent⟩, hNone⟩ := hFound
    refine ⟨⟨⟨v, hv, hFile.symm.trans hJob, hContent⟩,
      ⟨o, ho, hJob, hPath, hKey, hMay⟩⟩, ?_⟩
    rintro (hGone | ⟨newer, hMem, hNewer⟩)
    · rw [hGone t ht hId (hOwn.trans hJob)] at hCurrent
      contradiction
    · rw [← hJob, ← hId] at hNewer
      exact hNone newer hMem hNewer
  · rintro ⟨⟨⟨v, hv, hFile, hContent⟩,
      ⟨o, ho, hJob, hPath, hKey, hMay⟩⟩, hNew⟩
    have hOwn :
        ∃ t ∈ db.transferQueue.rows,
          t.id = job.id ∧ t.fileId = job.fileId ∧
            t.isCurrent := by
      by_contra hNo
      refine hNew (Or.inl fun row hRow hId hSame => ?_)
      by_contra hCurrent
      exact hNo ⟨row, hRow, hId, hSame,
        Bool.of_not_eq_false hCurrent⟩
    obtain ⟨t, ht, hId, hSame, hCurrent⟩ := hOwn
    refine ⟨v, hv, o, ho, t, ht,
      ⟨⟨⟨⟨⟨⟨⟨⟨⟨hJob.trans hFile.symm, hId⟩,
        hSame.trans hJob.symm⟩, hJob⟩, hPath⟩, hKey⟩, hMay⟩,
        hCurrent⟩, hContent⟩, ?_⟩⟩
    intro newer hMem hNewer
    rw [hJob, hId] at hNewer
    exact hNew (Or.inr ⟨newer, hMem, hNewer⟩)

/-
  The job has been read from the queue, so later ones have
  greater ids, and it is outdated.
-/
structure Behind
    (job : TransferRow)
    (queue : TransferQueue) : Prop where
  read : job.id < queue.nextId
  outdated : Outdated job queue

section Queue

variable {job : TransferRow} {queue : TransferQueue}
  {place : Text → Text} {now : Timestamp}

/- New places for transfers; no status changes. -/
theorem Outdated.repoint
    (fileId : FileId)
    (localPath s3Key : Text)
    (hOld : Outdated job queue) :
    Outdated job (queue.repoint fileId localPath s3Key now) := by
  rcases hOld with hGone | ⟨newer, hMem, hNewer⟩
  · refine Or.inl fun row hRow hId hFile => ?_
    obtain ⟨old, hOld, rfl⟩ := List.mem_map.mp hRow
    split at hId
    · rename_i hSel
      rw [if_pos hSel] at hFile ⊢
      exact hGone old hOld hId hFile
    · rename_i hSel
      rw [if_neg hSel] at hFile ⊢
      exact hGone old hOld hId hFile
  · refine Or.inr
      ⟨_, List.mem_map.mpr ⟨newer, hMem, rfl⟩, ?_⟩
    split
    · exact hNewer
    · exact hNewer

/- All waiting transfers of a file fail, the job with them. -/
theorem outdated_supersede
    (job : TransferRow)
    (queue : TransferQueue) :
    Outdated job (queue.supersede job.fileId) := by
  refine Or.inl fun row hRow _ hFile => ?_
  obtain ⟨old, hOld, rfl⟩ := List.mem_map.mp hRow
  split
  · rfl
  · rename_i hSel
    rw [if_neg hSel] at hFile
    simp only [Bool.and_eq_true, decide_eq_true_iff, hFile,
      true_and, TransferRow.isWaiting, Bool.or_eq_true,
      not_or] at hSel
    exact Bool.of_not_eq_true hSel.1

theorem Outdated.supersede
    (fileId : FileId)
    (hOld : Outdated job queue) :
    Outdated job (queue.supersede fileId) := by
  by_cases hFile : fileId = job.fileId
  · rw [hFile]
    exact outdated_supersede job queue
  · have hOther :
        ∀ row ∈ queue.rows, row.fileId = job.fileId →
          ¬ (row.fileId = fileId && row.isWaiting) := by
      intro row _ hJob hSel
      rw [Bool.and_eq_true, decide_eq_true_iff] at hSel
      exact hFile (hSel.1.symm.trans hJob)
    rcases hOld with hGone | ⟨newer, hMem, hNewer⟩
    · refine Or.inl fun row hRow hId hSame => ?_
      obtain ⟨old, hOld, rfl⟩ := List.mem_map.mp hRow
      have hOldFile : old.fileId = job.fileId := by
        split at hSame <;> exact hSame
      have hStay := hOther old hOld hOldFile
      rw [if_neg hStay] at hId ⊢
      exact hGone old hOld hId hOldFile
    · have hNewerFile : newer.fileId = job.fileId := by
        simp only [isNewerUpload, Bool.and_eq_true,
          decide_eq_true_iff] at hNewer
        exact hNewer.1.1.1
      refine Or.inr
        ⟨newer, List.mem_map.mpr ⟨newer, hMem, ?_⟩,
          hNewer⟩
      exact if_neg (hOther newer hMem hNewerFile)

theorem Behind.change
    (kind : MutationKind)
    (identity : IndexedIdentity)
    (hOld : Behind job queue) :
    Behind job (queue.change place now kind identity) := by
  cases kind with
  | delete => exact ⟨hOld.read, hOld.outdated.supersede _⟩
  | rename => exact ⟨hOld.read, hOld.outdated.repoint _ _ _⟩
  | move => exact ⟨hOld.read, hOld.outdated.repoint _ _ _⟩
  | _ => exact hOld

theorem Behind.enqueue
    (identity : IndexedIdentity)
    (hOld : Behind job queue) :
    Behind job (queue.enqueue place now identity) := by
  rw [TransferQueue.enqueue]
  split
  · refine ⟨Nat.lt_succ_of_lt hOld.read, ?_⟩
    rcases hOld.outdated with hGone | ⟨newer, hMem, hNewer⟩
    · refine Or.inl fun row hRow hId hFile => ?_
      rcases List.mem_append.mp hRow with hRow | hRow
      · exact hGone row hRow hId hFile
      · rw [List.mem_singleton.mp hRow] at hId
        exact absurd hId (Nat.ne_of_gt hOld.read)
    · exact Or.inr
        ⟨newer, List.mem_append_left _ hMem, hNewer⟩
  · exact hOld

/- A new upload of the file of the job. -/
theorem behind_enqueue
    {identity : IndexedIdentity}
    (hRead : job.id < queue.nextId)
    (hFile : identity.entry.fileId = job.fileId)
    (hUploads : identity.uploads) :
    Behind job (queue.enqueue place now identity) := by
  rw [TransferQueue.enqueue, if_pos hUploads]
  refine ⟨Nat.lt_succ_of_lt hRead, Or.inr ⟨_,
    List.mem_append_right _ (List.mem_singleton_self _), ?_⟩⟩
  simp [isNewerUpload, IndexedIdentity.newUpload, hFile, hRead,
    TransferRow.isWaiting, TransferRow.isCurrent]

end Queue

------------------------------------------------------------
-- Runs of Changes
------------------------------------------------------------

/- A transaction of Notes that ends while an upload runs. -/
structure NotesStep where
  now : Timestamp
  intent : NotesIntent
  applyChanges : Bool
  rebuild : Bool

def NotesStep.run
    (place : Text → Text)
    (db : LocalDatabase)
    (step : NotesStep) : LocalDatabase :=
  db.projectNotesIntent place step.now step.intent
    step.applyChanges step.rebuild

def runSteps
    (place : Text → Text)
    (steps : List NotesStep)
    (db : LocalDatabase) : LocalDatabase :=
  steps.foldl (NotesStep.run place) db

/- The change deletes the file. -/
def NotesStep.Deletes
    (fileId : FileId)
    (step : NotesStep) : Prop :=
  step.applyChanges ∧ step.intent.kind = .delete ∧
    ∃ identity ∈ step.intent.changes,
      identity.entry.fileId = fileId

/- The change brings a content of the file, for the first time. -/
def NotesStep.Saves
    (fileId : FileId)
    (db : LocalDatabase)
    (step : NotesStep) : Prop :=
  step.applyChanges ∧ step.intent.bringsContent ∧
    step.intent.noOp = false ∧
    db.isIndexed step.intent.requestId = false ∧
    ∃ identity ∈ step.intent.changes,
      identity.entry.fileId = fileId ∧ identity.uploads

/- The queue after the rows of all changes are set. -/
def changedQueue
    (place : Text → Text)
    (step : NotesStep)
    (queue : TransferQueue) : TransferQueue :=
  if step.applyChanges then
    step.intent.changes.foldl
      (fun queue identity =>
        queue.change place step.now step.intent.kind identity)
      queue
  else
    queue

theorem queue_foldl_keep
    (place : Text → Text)
    (step : NotesStep)
    (identities : List IndexedIdentity)
    (db : LocalDatabase) :
    (identities.foldl
      (LocalDatabase.projectIdentity place step.now step.intent
        step.rebuild false) db).transferQueue =
      db.transferQueue := by
  induction identities generalizing db with
  | nil => rfl
  | cons identity rest ih =>
      rw [List.foldl_cons, ih]
      rfl

theorem queue_foldl_replace
    (place : Text → Text)
    (step : NotesStep)
    (identities : List IndexedIdentity)
    (db : LocalDatabase) :
    (identities.foldl
      (LocalDatabase.projectIdentity place step.now step.intent
        step.rebuild true) db).transferQueue =
      identities.foldl
        (fun queue identity =>
          queue.change place step.now step.intent.kind identity)
        db.transferQueue := by
  induction identities generalizing db with
  | nil => rfl
  | cons identity rest ih =>
      rw [List.foldl_cons, List.foldl_cons, ih]
      rfl

theorem mutations_foldl
    (place : Text → Text)
    (step : NotesStep)
    (replace : Bool)
    (identities : List IndexedIdentity)
    (db : LocalDatabase) :
    (identities.foldl
      (LocalDatabase.projectIdentity place step.now step.intent
        step.rebuild replace) db).localMutations =
      db.localMutations := by
  induction identities generalizing db with
  | nil => rfl
  | cons identity rest ih =>
      rw [List.foldl_cons, ih]
      rfl

/- What a transaction does to the transfers. -/
theorem queue_run
    (place : Text → Text)
    (step : NotesStep)
    (db : LocalDatabase) :
    (step.run place db).transferQueue =
      if step.applyChanges && !db.isIndexed step.intent.requestId &&
          !step.intent.noOp && step.intent.bringsContent then
        step.intent.changes.foldl
          (TransferQueue.enqueue place step.now)
          (changedQueue place step db.transferQueue)
      else
        changedQueue place step db.transferQueue := by
  have hQueue (start : LocalDatabase)
      (hStart : start.localMutations = db.localMutations) :
      (start.bindRoot step.intent).isIndexed
          step.intent.requestId =
        db.isIndexed step.intent.requestId := by
    rw [LocalDatabase.isIndexed, LocalDatabase.isIndexed,
      LocalDatabase.bindRoot, hStart]
  rw [NotesStep.run, LocalDatabase.projectNotesIntent]
  cases hApply : step.applyChanges with
  | false =>
      simp [LocalDatabase.recordMutation, LocalDatabase.bindRoot,
        changedQueue, hApply, queue_foldl_keep]
  | true =>
      simp only [if_true, Bool.true_and]
      rw [hQueue]
      · split
        · simp [LocalDatabase.recordMutation,
            LocalDatabase.bindRoot, changedQueue, hApply,
            queue_foldl_keep, queue_foldl_replace]
        · simp [LocalDatabase.recordMutation,
            LocalDatabase.bindRoot, changedQueue, hApply,
            queue_foldl_keep, queue_foldl_replace]
      · rw [mutations_foldl, mutations_foldl]

section Run

variable {job : TransferRow} {place : Text → Text}
variable {queue : TransferQueue}

theorem Behind.changedQueue
    (step : NotesStep)
    (hOld : Behind job queue) :
    Behind job (changedQueue place step queue) := by
  rw [Db.changedQueue]
  split
  · exact List.foldlRecOn step.intent.changes _ hOld
      fun _ hQueue identity _ => hQueue.change _ identity
  · exact hOld

variable {now : Timestamp}

theorem Behind.enqueues
    (identities : List IndexedIdentity)
    (hOld : Behind job queue) :
    Behind job
      (identities.foldl (TransferQueue.enqueue place now) queue) :=
  List.foldlRecOn identities _ hOld
    fun _ hQueue identity _ => hQueue.enqueue identity

/- Once outdated, a job stays outdated. -/
theorem Behind.run
    {db : LocalDatabase}
    (step : NotesStep)
    (hOld : Behind job db.transferQueue) :
    Behind job (step.run place db).transferQueue := by
  rw [queue_run]
  split
  · exact (hOld.changedQueue step).enqueues _
  · exact hOld.changedQueue step

theorem Behind.runSteps
    {db : LocalDatabase}
    (steps : List NotesStep)
    (hOld : Behind job db.transferQueue) :
    Behind job (runSteps place steps db).transferQueue := by
  induction steps generalizing db with
  | nil => exact hOld
  | cons step rest ih => exact ih (hOld.run step)

theorem nextId_change
    (kind : MutationKind)
    (identity : IndexedIdentity) :
    (queue.change place now kind identity).nextId =
      queue.nextId := by
  cases kind <;> rfl

theorem nextId_changes
    (kind : MutationKind)
    (identities : List IndexedIdentity)
    (queue : TransferQueue) :
    (identities.foldl
      (fun queue identity => queue.change place now kind identity)
      queue).nextId = queue.nextId := by
  induction identities generalizing queue with
  | nil => rfl
  | cons identity rest ih =>
      rw [List.foldl_cons, ih, nextId_change]

theorem nextId_changedQueue
    (step : NotesStep) :
    (changedQueue place step queue).nextId = queue.nextId := by
  rw [Db.changedQueue]
  split
  · exact nextId_changes _ _ _
  · rfl

theorem nextId_enqueue
    (identity : IndexedIdentity) :
    queue.nextId ≤
      (queue.enqueue place now identity).nextId := by
  rw [TransferQueue.enqueue]
  split
  · exact Nat.le_succ _
  · exact Nat.le_refl _

theorem nextId_enqueues
    (identities : List IndexedIdentity)
    (queue : TransferQueue) :
    queue.nextId ≤
      (identities.foldl (TransferQueue.enqueue place now)
        queue).nextId := by
  induction identities generalizing queue with
  | nil => exact Nat.le_refl _
  | cons identity rest ih =>
      exact (nextId_enqueue identity).trans (ih _)

theorem nextId_run
    (step : NotesStep)
    (db : LocalDatabase) :
    db.transferQueue.nextId ≤
      (step.run place db).transferQueue.nextId := by
  rw [queue_run]
  split
  · calc
      db.transferQueue.nextId =
          (changedQueue place step db.transferQueue).nextId :=
        (nextId_changedQueue step).symm
      _ ≤ _ := nextId_enqueues _ _
  · exact (nextId_changedQueue step).symm.le

theorem nextId_runSteps
    (steps : List NotesStep)
    (db : LocalDatabase) :
    db.transferQueue.nextId ≤
      (runSteps place steps db).transferQueue.nextId := by
  induction steps generalizing db with
  | nil => exact Nat.le_refl _
  | cons step rest ih =>
      exact (nextId_run step db).trans (ih _)

/- A deletion gives the uploads of the file up. -/
theorem behind_of_deletes
    {db : LocalDatabase}
    {step : NotesStep}
    (hRead : job.id < db.transferQueue.nextId)
    (hDeletes : step.Deletes job.fileId) :
    Behind job (step.run place db).transferQueue := by
  obtain ⟨hApply, hKind, identity, hMem, hFile⟩ := hDeletes
  obtain ⟨before, after, hSplit⟩ := List.append_of_mem hMem
  have hChanged :
      Behind job (changedQueue place step db.transferQueue) := by
    rw [Db.changedQueue, if_pos hApply, hSplit, List.foldl_append,
      List.foldl_cons]
    refine List.foldlRecOn after _ ?_
      fun _ hQueue identity _ => hQueue.change _ identity
    refine ⟨?_, ?_⟩
    · rw [nextId_change, nextId_changes]
      exact hRead
    · rw [hKind, TransferQueue.change, hFile]
      exact outdated_supersede job _
  rw [queue_run]
  split
  · exact hChanged.enqueues _
  · exact hChanged

/- A content that is saved has an upload of its own. -/
theorem behind_of_saves
    {db : LocalDatabase}
    {step : NotesStep}
    (hRead : job.id < db.transferQueue.nextId)
    (hSaves : step.Saves job.fileId db) :
    Behind job (step.run place db).transferQueue := by
  obtain ⟨hApply, hBrings, hNoOp, hNew, identity, hMem, hFile,
    hUploads⟩ := hSaves
  obtain ⟨before, after, hSplit⟩ := List.append_of_mem hMem
  rw [queue_run, if_pos (by simp [hApply, hBrings, hNoOp, hNew]),
    hSplit, List.foldl_append, List.foldl_cons]
  refine Behind.enqueues after (behind_enqueue ?_ hFile hUploads)
  calc
    job.id < db.transferQueue.nextId := hRead
    _ = (changedQueue place step db.transferQueue).nextId :=
      (nextId_changedQueue step).symm
    _ ≤ _ := nextId_enqueues before _

end Run

------------------------------------------------------------
-- What the End of an Upload Keeps
------------------------------------------------------------

/-
  Something newer than the job: a content saved or a file
  deleted while it ran, or an index that the job is not
  bound to any more, by content, place or state.
-/
def Newer
    (place : Text → Text)
    (job : TransferRow)
    (expected : String)
    (steps : List NotesStep)
    (db : LocalDatabase) : Prop :=
  (∃ before step after, steps = before ++ step :: after ∧
    (step.Deletes job.fileId ∨
      step.Saves job.fileId (runSteps place before db))) ∨
  ¬ Bound job expected (runSteps place steps db)

/- What the end of any upload leaves as it is. -/
structure KeptAround
    (job : TransferRow)
    (before after : LocalDatabase) : Prop where
  otherRows :
    ∀ id, id ≠ job.fileId →
      after.objects.find id = before.objects.find id
  place :
    ∀ row, before.objects.find job.fileId = some row →
      ∃ kept, after.objects.find job.fileId = some kept ∧
        kept.localPath = row.localPath ∧
        kept.s3Key = row.s3Key ∧ kept.parentId = row.parentId
  noteVersions : after.noteVersions = before.noteVersions
  localMutations :
    after.localMutations = before.localMutations
  otherTransfers :
    ∀ id, id ≠ job.id →
      after.transferQueue.find id =
        before.transferQueue.find id

section Finish

variable {facts : Text → FileFacts}
  {place : Text → Text} {now : Timestamp} {job : TransferRow}
  {entry : FileEntry} {localContentMatches : Bool}
  {expected : String} {db : LocalDatabase}

theorem finishIsCurrent_iff
    (hBound : job.blobHash = some expected) :
    db.finishIsCurrent job localContentMatches ↔
      localContentMatches ∧ Bound job expected db ∧
        ¬ Outdated job db.transferQueue := by
  rw [LocalDatabase.finishIsCurrent, hBound,
    ← uploadBindingIsCurrent_iff, Bool.and_eq_true]

theorem not_current_of_newer
    {steps : List NotesStep}
    (hBound : job.blobHash = some expected)
    (hRead : job.id < db.transferQueue.nextId)
    (hNewer : Newer place job expected steps db) :
    (runSteps place steps db).finishIsCurrent job
      localContentMatches = false := by
  by_contra hCurrent
  obtain ⟨_, hStill, hNew⟩ := (finishIsCurrent_iff hBound).mp
    (Bool.of_not_eq_false hCurrent)
  rcases hNewer with ⟨before, step, after, rfl, hStep⟩ | hLost
  · have hReadThen :
        job.id <
          (runSteps place before db).transferQueue.nextId :=
      hRead.trans_le (nextId_runSteps before db)
    have hBehind :
        Behind job
          (step.run place
            (runSteps place before db)).transferQueue := by
      rcases hStep with hDeletes | hSaves
      · exact behind_of_deletes hReadThen hDeletes
      · exact behind_of_saves hReadThen hSaves
    have hRun :
        runSteps place (before ++ step :: after) db =
          runSteps place after
            (step.run place (runSteps place before db)) := by
      rw [runSteps, List.foldl_append, List.foldl_cons]
      rfl
    rw [hRun] at hNew
    exact hNew (hBehind.runSteps after).outdated
  · exact hLost hStill

theorem find_completeTransfer
    {id : Nat}
    (hOther : id ≠ job.id) :
    (db.completeTransfer job.id now).transferQueue.find id =
      db.transferQueue.find id := by
  refine Table.find_updateWhere_other (by intro; rfl)
    fun row hId => ?_
  rw [hId, decide_eq_false_iff_not]
  exact hOther

/- The row of the file is written, at its place. -/
theorem keptAround_write
    {written : FileEntry}
    {localPath s3Key : Text}
    (hEntry : written.fileId = job.fileId)
    (hPlace :
      ∀ row, db.objects.find job.fileId = some row →
        localPath = row.localPath ∧ s3Key = row.s3Key ∧
          written.parentId = row.parentId) :
    KeptAround job db
      ((db.writeFileIndex facts written localPath s3Key
        .synced).completeTransfer job.id now) where
  otherRows := fun id hOther =>
    (Table.find_insertOrReplace _ _ _).trans
      (if_neg fun hSame => hOther (hSame.symm.trans hEntry))
  place := by
    intro row hRow
    exact ⟨_, (Table.find_insertOrReplace _ _ _).trans
      (if_pos hEntry), hPlace row hRow⟩
  noteVersions := rfl
  localMutations := rfl
  otherTransfers := fun _ => find_completeTransfer

theorem keptAround_finishUpload
    (hEntry : entry.fileId = job.fileId) :
    KeptAround job db
      (db.finishUpload facts now job entry
        localContentMatches).2 := by
  rw [LocalDatabase.finishUpload, LocalDatabase.indexedPlace]
  cases db.finishIsCurrent job localContentMatches with
  | false =>
      exact {
        otherRows := fun _ _ => rfl
        place := fun row hRow => ⟨row, hRow, rfl, rfl, rfl⟩
        noteVersions := rfl
        localMutations := rfl
        otherTransfers := fun _ => find_completeTransfer }
  | true =>
      cases hRow : db.objects.find job.fileId with
      | none =>
          refine keptAround_write hEntry fun row hSome => ?_
          rw [hRow] at hSome
          contradiction
      | some row =>
          have hWritten :
              ({ entry with parentId := row.parentId } :
                FileEntry).fileId = job.fileId := hEntry
          refine keptAround_write hWritten fun old hOld => ?_
          rw [hRow] at hOld
          cases hOld
          exact ⟨rfl, rfl, rfl⟩

end Finish

def sampleEntry
    (size : Nat)
    (revision : Option RevisionId) : FileEntry where
  fileId := 1
  parentId := none
  name := "n.md"
  entryType := .file
  currentRevisionId := revision
  contentRef := none
  size := size
  contentHash := some "blake3:old"
  mime := none
  updatedAt := 0
  deletedAt := none
  versionHistory := []

def sampleJob (binding : Option String) : TransferRow where
  id := 1
  direction := .upload
  fileId := 1
  localPath := "/n.md".toList
  s3Key := "n.md".toList
  blobHash := binding
  totalBytes := 3
  transferredBytes := 0
  status := .inProgress
  errorMessage := none
  updatedAt := 0

/- A note and its upload, which may be bound to the content. -/
def sampleNote (binding : Option String) : LocalDatabase where
  objects :=
    { rows :=
        [{ fileId := 1
           localPath := "/n.md".toList
           s3Key := "n.md".toList
           size := 3
           state := .pendingUpload
           isFolder := false
           parentId := none
           currentRevisionId := none
           localHash := some "blake3:old"
           localMtime := none
           localKey := none
           updatedAt := 0
           metadata := none }]
      distinct := List.nodup_singleton _ }
  transferQueue := TransferQueue.empty.insert (sampleJob binding)
  noteVersions :=
    { rows := [⟨7, 1, ⟨1, "old"⟩⟩]
      distinct := List.nodup_singleton _ }
  localMutations := Table.empty
  notesRoots := Table.empty
  rootIdentities := Table.empty

/- Notes saves other text of the note. -/
def sampleSave : NotesStep where
  now := 5
  intent :=
    { workspaceId := 7
      requestId := 11
      fileId := 1
      rootId := 2
      rootIdentity := "root"
      kind := .save
      stage := .published
      createdAt := 5
      baseline := []
      changes :=
        [{ metadataAvailable := false
           entry := sampleEntry 12 none
           relative := "n.md".toList
           state := .pendingUpload
           token := some ⟨2, "new"⟩ }]
      noOp := false }
  applyChanges := true
  rebuild := false

def samplePlace (relative : Text) : Text :=
  '/' :: relative

def sampleFacts (_ : Text) : FileFacts :=
  ⟨none, none⟩

end Db

end S4Drive

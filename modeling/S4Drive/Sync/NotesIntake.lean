import S4Drive.Sync.LocalChanges

/-
  How a device publishes the changes that Notes has recorded
  as intents: each intent is one durable commit, followed by
  a projection to the tree. Only intents with a receipt are
  modelled; the folders above a new place are published by a
  call of their own.

  Main declarations:
    * `MutationIntent`
    * `NotesIntake.project`
    * `NotesIntake.publishCreateFolder`,
      `NotesIntake.publishPlacement`,
      `NotesIntake.publishDelete`,
      `NotesIntake.publishRestore`
-/

------------------------------------------------------------
-- Intents
------------------------------------------------------------

namespace S4Drive

open ObjectStore Concurrency

variable {l : Type}

/- A recorded change and the index rows that it concerns. -/
structure MutationIntent where
  requestId : Uuid
  fileId : FileId
  createdAt : Timestamp
  fromRelative : Option String
  toRelative : String
  changes : List FileEntry

namespace MutationIntent

/- The file of the intent's receipt. -/
def receipt (intent : MutationIntent) : JournalId :=
  ⟨intent.requestId, intent.fileId⟩

def pathAtDelete (intent : MutationIntent) : String :=
  intent.fromRelative.getD intent.toRelative

def contentRefs (intent : MutationIntent) : List BlobId :=
  intent.changes.filterMap fun entry =>
    entry.contentRef.map ContentRef.blobId

/- The entries that go when the intent is a delete. -/
def deletion
    (intent : MutationIntent)
    (entry : FileEntry) : Change where
  fileId := intent.fileId
  revision := entry.currentRevisionId
  removes := intent.changes.map FileEntry.fileId
  root := some intent.fileId
  undoes := none
  confirmed := none
  projects := none
  cleanup := false

/- What a restore is about; it removes no entry. -/
def restoration
    (intent : MutationIntent)
    (root : FileEntry)
    (deletion : Option TombstoneVersion) : Change where
  fileId := intent.fileId
  revision := root.currentRevisionId
  removes := []
  root := none
  undoes := deletion.map TombstoneVersion.etag
  confirmed := none
  projects := none
  cleanup := false

end MutationIntent

def rootChange
    (intent : MutationIntent) : CoreResult FileEntry :=
  match intent.changes.find? (·.fileId = intent.fileId) with
  | some entry => .ok entry
  | none =>
      .error (.protocol
        "Notes intent does not contain its root entry")

/- A new tree entry for a folder. -/
def folderEntry
    (folderId : FileId)
    (placement : Placement)
    (now : Timestamp) : FileEntry where
  fileId := folderId
  parentId := placement.parentId
  name := placement.name
  entryType := .folder
  currentRevisionId := none
  contentRef := none
  size := 0
  contentHash := none
  mime := none
  updatedAt := now
  deletedAt := none
  versionHistory := []

def isFolderAt
    (entry : FileEntry)
    (placement : Placement) : Bool :=
  entry.entryType = .folder &&
    Placement.ofEntry entry = placement

/- Effects of an operation on a Notes entry. -/
def placementEffects
    (placement : Placement)
    (deleted : Bool) : Effects where
  newRevisionId := none
  newContentRef := none
  newName := some placement.name
  newParentId := placement.parentId
  deleted := deleted

namespace NotesIntake

def maxProjectionAttempts : Nat := 8

/- The operation that this intent has committed before. -/
def priorCommit
    (deviceId : DeviceId)
    (intent : MutationIntent) :
    CloudM l (Option DurableCommit) := do
  let clock ← logicalClockSeed
  onLog (OperationLog.new deviceId clock)
    (OperationLog.committedAttempt intent.fileId
      intent.receipt)

def commit
    (deviceId : DeviceId)
    (intent : MutationIntent)
    (opType : OpType)
    (placement : Placement)
    (deleted fileExists : Bool) :
    CloudM l DurableCommit := do
  match ← priorCommit deviceId intent with
  | some done => pure done
  | none =>
      let clock ← logicalClockSeed
      onLog (OperationLog.new deviceId clock)
        (OperationLog.commitDurable intent.fileId opType
          ⟨none, none, fileExists, true⟩
          (placementEffects placement deleted) intent.receipt)

/- Whether a later operation is on the commit's target. -/
def superseded
    (deviceId : DeviceId)
    (commit : DurableCommit) : CloudM l Bool :=
  match commit.operation.targetFileId with
  | none =>
      Script.throw (.protocol "Notes operation has no target")
  | some target => do
      let clock ← logicalClockSeed
      onLog (OperationLog.new deviceId clock)
        (OperationLog.superseded commit.operation.opId target)

/-
  Write the tree entry `id` as `build` makes it from the
  current one; `none` leaves it. An entry that was written
  in between is read again.
-/
def projectRounds
    (deviceId : DeviceId)
    (commit : DurableCommit)
    (id : FileId)
    (build : Option FileEntry → Option FileEntry) :
    Nat → CloudM l Unit
  | 0 =>
      Script.throw (.s3
        ("tree entry " ++ toString id ++
          " keeps changing; retry later"))
  | rounds + 1 => do
      let observed ← FileTree.getEntryVersion id
      match build (observed.map EntryVersion.entry) with
      | none => pure ()
      | some entry =>
          if ← superseded deviceId commit then
            pure ()
          else
            -- History only: this operation is projected.
            Script.request (.prepare
              (.projectionOf id commit.operation.opId) : Req)
            if ← FileTree.putEntryIf entry observed then
              pure ()
            else
              projectRounds deviceId commit id build rounds

def project
    (deviceId : DeviceId)
    (commit : DurableCommit)
    (id : FileId)
    (build : Option FileEntry → Option FileEntry) :
    CloudM l Unit :=
  if commit.superseded then
    pure ()
  else
    projectRounds deviceId commit id build
      maxProjectionAttempts

------------------------------------------------------------
-- Placements
------------------------------------------------------------

/- Whether the bucket has the folder at `placement`. -/
def folderExistsAt
    (id : FileId)
    (placement : Placement) : CloudM l Bool := do
  match ← Script.attempt (FileTree.getEntry id) with
  | .ok entry =>
      if isFolderAt entry placement then
        pure true
      else
        Script.throw (.conflict
          ("folder " ++ toString id ++
            " is already committed at another location"))
  | .error (.notFound _) => pure false
  | .error e => Script.throw e

/- The entry that a created folder gets, if it has none. -/
def createdEntry
    (id : FileId)
    (placement : Placement)
    (now : Timestamp)
    (existing : Option FileEntry) : Option FileEntry :=
  match existing with
  | none => some (folderEntry id placement now)
  | some _ => none

def publishCreatedFolder
    (deviceId : DeviceId)
    (intent : MutationIntent)
    (placement : Placement)
    (commit : DurableCommit) : CloudM l Unit := do
  let time ← now
  project deviceId commit intent.fileId
    (createdEntry intent.fileId placement time)

/- Commit the folder unless another device has made it. -/
def createFolder
    (deviceId : DeviceId)
    (intent : MutationIntent)
    (placement : Placement) : CloudM l Unit := do
  if ← folderExistsAt intent.fileId placement then
    pure ()
  else
    match ← Script.attempt
        (TombstoneManager.getTombstone intent.fileId) with
    | .ok _ =>
        Script.throw (.conflict
          ("folder " ++ toString intent.fileId ++
            " was deleted on another device"))
    | .error (.notFound _) =>
        match ← Script.attempt
            (commit deviceId intent .createFolder placement
              false false) with
        | .ok done =>
            publishCreatedFolder deviceId intent placement done
        | .error (.conflict reason) =>
            if ← folderExistsAt intent.fileId placement then
              pure ()
            else
              Script.throw (.conflict reason)
        | .error e => Script.throw e
    | .error e => Script.throw e

def publishCreateFolder
    (deviceId : DeviceId)
    (intent : MutationIntent) : CloudM l Unit := do
  let entry ← Script.ofExcept (rootChange intent)
  let placement := Placement.ofEntry entry
  match ← priorCommit deviceId intent with
  | some done =>
      publishCreatedFolder deviceId intent placement done
  | none => createFolder deviceId intent placement

/- The entry as it was, at its new place. -/
def placedEntry
    (entry : FileEntry)
    (placement : Placement)
    (now : Timestamp)
    (existing : Option FileEntry) : FileEntry :=
  { placement.applyTo (existing.getD entry) with
    updatedAt := now }

/- A rename, or a move when `moves`. -/
def publishPlacement
    (deviceId : DeviceId)
    (intent : MutationIntent)
    (moves : Bool) : CloudM l Unit := do
  let entry ← Script.ofExcept (rootChange intent)
  let placement := Placement.ofEntry entry
  let done ← commit deviceId intent
    (if moves then .move else .rename) placement false true
  let time ← now
  project deviceId done intent.fileId fun existing =>
    some (placedEntry entry placement time existing)

/-
  The record of a delete. After a restore of the same device
  the old record is replaced.
-/
def writeTombstone
    (deviceId : DeviceId)
    (intent : MutationIntent)
    (entry : FileEntry)
    (followsRestore : Bool) : CloudM l Unit := do
  match ← Script.attempt
      (TombstoneManager.createTombstone intent.fileId
        intent.pathAtDelete entry.name (toString deviceId)
        intent.contentRefs tombstoneRetentionDays) with
  | .ok _ => pure ()
  | .error (.conflict reason) =>
      if !followsRestore then
        Script.throw (.conflict reason)
      else
        let previous ←
          TombstoneManager.getTombstoneVersion intent.fileId
        let _ ← TombstoneManager.replaceTombstone previous
          { fileId := intent.fileId
            pathAtDelete := intent.pathAtDelete
            nameAtDelete := entry.name
            deletedBy := toString deviceId
            deletedAt := intent.createdAt
            retentionUntil :=
              intent.createdAt + days tombstoneRetentionDays
            contentRefs := intent.contentRefs
            restorable := true }
  | .error e => Script.throw e

/- A missing entry is as good as a deleted one. -/
def deleteEntries : List FileId → CloudM l Unit
  | [] => pure ()
  | fileId :: rest => do
      match ← Script.attempt (FileTree.deleteEntry fileId) with
      | .ok _ => deleteEntries rest
      | .error (.notFound _) => deleteEntries rest
      | .error e => Script.throw e

/- The tree part of a delete, unless it was superseded. -/
def unlist
    (deviceId : DeviceId)
    (intent : MutationIntent)
    (commit : DurableCommit) : CloudM l Unit := do
  if commit.superseded then
    pure ()
  else if ← superseded deviceId commit then
    pure ()
  else
    deleteEntries (intent.changes.map FileEntry.fileId)

def publishDelete
    (deviceId : DeviceId)
    (intent : MutationIntent)
    (followsRestore : Bool) : CloudM l Unit := do
  let entry ← Script.ofExcept (rootChange intent)
  -- History only: the delete starts from the recorded row.
  Script.request (.prepare (intent.deletion entry) : Req)
  match ← priorCommit deviceId intent with
  | some done => unlist deviceId intent done
  | none =>
      writeTombstone deviceId intent entry followsRestore
      let done ← commit deviceId intent .delete
        (Placement.ofEntry entry) true true
      unlist deviceId intent done

/- The deletion that a restore undoes, kept in its receipt. -/
def observeDeletion
    (intent : MutationIntent) :
    CloudM l (Option TombstoneVersion) := do
  let receipt ← Script.call (.readReceipt intent.receipt) id
  match receipt.observedDeletion with
  | some observed => pure (some observed)
  | none =>
      if receipt.committedOpId.isSome then
        pure none
      else
        match ← Script.attempt
            (TombstoneManager.getTombstoneVersion
              intent.fileId) with
        | .ok version =>
            Script.call (.updateReceipt intent.receipt
              fun receipt =>
                { receipt with
                  observedDeletion := some version }) id
            pure (some version)
        | .error (.notFound _) => pure none
        | .error e => Script.throw e

/-
  Remove exactly the observed record. Without conditional
  deletes it is kept.
-/
def retireDeletion
    (conditionalDelete : Bool)
    (deletion : TombstoneVersion) : CloudM l Unit := do
  if conditionalDelete then
    let _ ← Script.attempt
      (deleteIfMatch (.tombstone deletion.tombstone.fileId)
        deletion.etag)
  else
    pure ()

/- Descendants that exist again belong to newer changes. -/
def projectDescendants
    (deviceId : DeviceId)
    (commit : DurableCommit) :
    List FileEntry → CloudM l Unit
  | [] => pure ()
  | entry :: rest => do
      project deviceId commit entry.fileId fun
        | none => some entry
        | some _ => none
      projectDescendants deviceId commit rest

def restoredEntry
    (root : FileEntry)
    (placement : Placement)
    (existing : Option FileEntry) : FileEntry :=
  { placement.applyTo (existing.getD root) with
    deletedAt := none }

def publishRestore
    (deviceId : DeviceId)
    (conditionalDelete : Bool)
    (intent : MutationIntent) : CloudM l Unit := do
  let root ← Script.ofExcept (rootChange intent)
  let placement := Placement.ofEntry root
  let deletion ← observeDeletion intent
  -- History only: this is the deletion that is undone.
  Script.request
    (.prepare (intent.restoration root deletion) : Req)
  let done ← commit deviceId intent .restore placement false
    false
  projectDescendants deviceId done
    (intent.changes.filter (·.fileId ≠ intent.fileId))
  project deviceId done intent.fileId fun existing =>
    some (restoredEntry root placement existing)
  match deletion with
  | none => pure ()
  | some version =>
      -- History only: this operation retires the record.
      Script.request (.prepare (.projectionOf intent.fileId
        done.operation.opId) : Req)
      retireDeletion conditionalDelete version

end NotesIntake

end S4Drive

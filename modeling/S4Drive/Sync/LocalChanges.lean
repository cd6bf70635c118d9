import S4Drive.Metadata.Tree

/-
  What a device publishes of its own changes: uploads, new
  places of files, and deletes of files and folders. Rows of
  the local index come in as arguments; the steps that only
  touch the local disk are left out.

  Main declarations:
    * `commitOn`, `commitSyncOperation`
    * `UploadJob`, `prepareUpload`, `upload`
    * `commitFilePlacement`
    * `deleteFile`, `deleteFolder`
-/

------------------------------------------------------------
-- Commits
------------------------------------------------------------

namespace S4Drive

open ObjectStore Concurrency

variable {l : Type}

/- Commit on the head that the log has loaded or loads now. -/
def commitOn
    (targetFileId : Option FileId)
    (opType : OpType)
    (effects : Effects)
    (fileExists parentExists : Bool) : LogM Unit := do
  let _ ← OperationLog.commit targetFileId opType
    ⟨none, none, fileExists, parentExists⟩ effects

def commitSyncOperation
    (deviceId : DeviceId)
    (targetFileId : Option FileId)
    (opType : OpType)
    (effects : Effects)
    (fileExists parentExists : Bool) : CloudM l Unit := do
  let clock ← logicalClockSeed
  onLog (OperationLog.new deviceId clock)
    (commitOn targetFileId opType effects fileExists
      parentExists)

/- Drop a prefix as often as it is there. -/
def trimStartMatches
    (start : List Char) : Nat → List Char → List Char
  | 0, text => text
  | rounds + 1, text =>
      if start.isPrefixOf text then
        trimStartMatches start rounds (text.drop start.length)
      else
        text

def blake3Prefix : List Char := "blake3:".toList

/- A content hash without the name of its algorithm. -/
def bareHash (hash : String) : List Char :=
  trimStartMatches blake3Prefix hash.toList.length hash.toList

def blake3LocalHash (hash : String) : String :=
  String.ofList (blake3Prefix ++ bareHash hash)

def contentHashMatches
    (stored : Option String)
    (hash : String) : Bool :=
  match stored with
  | none => false
  | some stored => bareHash stored = bareHash hash

def hexDigit (c : Char) : Option Nat :=
  if '0' ≤ c ∧ c ≤ '9' then
    some (c.toNat - '0'.toNat)
  else if 'a' ≤ c ∧ c ≤ 'f' then
    some (c.toNat - 'a'.toNat + 10)
  else if 'A' ≤ c ∧ c ≤ 'F' then
    some (c.toNat - 'A'.toNat + 10)
  else
    none

/- The first 16 of the 32 bytes that a hash has in hex. -/
def blobIdFromHash (hash : String) : Option BlobId :=
  let text := hash.toList
  let hex :=
    if blake3Prefix.isPrefixOf text then
      text.drop blake3Prefix.length
    else
      text
  if hex.length = 64 then
    (hex.mapM hexDigit).map fun digits =>
      (digits.take 32).foldl (fun n digit => n * 16 + digit) 0
  else
    none

------------------------------------------------------------
-- Uploads
------------------------------------------------------------

/-
  An upload whose blob is stored, with what the device knows
  of the file: its place, the indexed revision and the hash
  of each revision of the file that the device made itself.
-/
structure UploadJob where
  fileId : FileId
  placement : Placement
  contentRef : ContentRef
  expectedContentHash : Option String
  indexedRevision : Option RevisionId
  ownRevision : RevisionId → Option (Option String)

inductive UploadResult where
  | uploaded
  -- The local file has changed since the job was queued.
  | stale
  -- Recorded as a conflict; nothing is committed.
  | diverged
  | deletedRemotely
deriving DecidableEq

/-
  The tree entry with the revision of the newest operation
  that gave the file one, when the tree has another.
-/
def withLatestRevision
    (entry : FileEntry)
    (latest : Option Operation) : FileEntry :=
  match latest.bind (·.effects.newRevisionId) with
  | none => entry
  | some revision =>
      if entry.currentRevisionId = some revision then
        entry
      else
        { entry with
          currentRevisionId := some revision
          contentRef :=
            latest.bind (·.effects.newContentRef)
          contentHash := none }

/- The revision that an upload takes for its base. -/
def uploadParentRevision
    (job : UploadJob)
    (remote : FileEntry) : Option RevisionId :=
  if job.expectedContentHash = none then
    job.indexedRevision
  else
    match remote.currentRevisionId with
    | none => job.indexedRevision
    | some remoteRevision =>
        match job.ownRevision remoteRevision with
        | none => job.indexedRevision
        | some recorded =>
            let remoteHash := remote.contentHash.or
              (remote.contentRef.map ContentRef.hash)
            if remoteHash.any (contentHashMatches recorded) then
              some remoteRevision
            else
              job.indexedRevision

def remoteRevisionDiverged
    (parentRevision : Option RevisionId)
    (remote : FileEntry)
    (localHash : String) : Bool :=
  match parentRevision, remote.currentRevisionId with
  | some parent, some revision =>
      if parent = revision then
        false
      else
        let remoteHash :=
          (remote.contentRef.map ContentRef.hash).or
            remote.contentHash
        !contentHashMatches remoteHash localHash
  | _, _ => false

/- What the tree says of a file before it is uploaded. -/
inductive RemoteLookup where
  | entry (remote : FileEntry)
  | missing
  | failed
deriving DecidableEq

namespace RemoteLookup

def remoteExists : RemoteLookup → Bool
  | missing => false
  | _ => true

end RemoteLookup

/- The base revision of an upload, or why there is none. -/
def prepareUpload
    (job : UploadJob)
    (lookup : RemoteLookup) :
    Except UploadResult (Option RevisionId) :=
  match lookup with
  | .entry remote =>
      let parent := uploadParentRevision job remote
      if remoteRevisionDiverged parent remote
          (blake3LocalHash job.contentRef.hash) then
        .error .diverged
      else
        .ok parent
  | .missing =>
      if job.indexedRevision.isSome then
        .error .deletedRemotely
      else
        .ok job.indexedRevision
  | .failed => .ok job.indexedRevision

/- The tree entry that an upload writes. -/
def uploadedEntry
    (job : UploadJob)
    (lookup : RemoteLookup)
    (parent : Option RevisionId)
    (revisionId : RevisionId)
    (updatedAt : Timestamp) : FileEntry :=
  let placement :=
    match lookup with
    | .entry remote => Placement.ofEntry remote
    | _ => job.placement
  { fileId := job.fileId
    parentId := placement.parentId
    name := placement.name
    entryType := .file
    currentRevisionId := some revisionId
    contentRef := some job.contentRef
    size := job.contentRef.size
    contentHash := some (blake3LocalHash job.contentRef.hash)
    mime := none
    updatedAt := updatedAt
    deletedAt := none
    versionHistory := parent.toList ++ [revisionId] }

def uploadEffects
    (job : UploadJob)
    (lookup : RemoteLookup)
    (revisionId : RevisionId) : Effects where
  newRevisionId := some revisionId
  newContentRef := some job.contentRef
  newName :=
    if lookup.remoteExists then none
    else some job.placement.name
  newParentId :=
    if lookup.remoteExists then none
    else job.placement.parentId
  deleted := false

/- The tree entry of the file, with the log's revision. -/
def remoteLookup
    (fileId : FileId)
    (latest : Option Operation) : CloudM l RemoteLookup := do
  match ← Script.attempt (FileTree.getEntry fileId) with
  | .ok entry => pure (.entry (withLatestRevision entry latest))
  | .error (.notFound _) => pure .missing
  | .error _ => pure .failed

/-
  The part of an upload between opening its log and the
  commit. `current` says whether the local file is still the
  one that the job was queued for. The result is the entry
  to write once the operation is committed.
-/
def uploadOn
    (job : UploadJob)
    (current : Bool)
    (revisionId : RevisionId)
    (updatedAt : Timestamp) :
    LogM (Except UploadResult FileEntry) := do
  let latest ← OperationLog.latestRevisionOnTarget job.fileId
  let lookup ← remoteLookup job.fileId latest
  if !current then
    pure (.error .stale)
  else
    match prepareUpload job lookup with
    | .error result => pure (.error result)
    | .ok parent =>
        -- History only: the upload has chosen its base.
        Script.request
          (.prepare ⟨job.fileId, parent, [], none, none, none,
            none, false⟩ : Req)
        commitOn (some job.fileId)
          (if lookup.remoteExists then .uploadNewRevision
            else .createFile)
          (uploadEffects job lookup revisionId)
          lookup.remoteExists true
        pure (.ok
          (uploadedEntry job lookup parent revisionId
            updatedAt))

def upload
    (deviceId : DeviceId)
    (job : UploadJob)
    (current : Bool) : CloudM l UploadResult := do
  let revisionId : Uuid ← Script.request (.draw : Req)
  let updatedAt ← now
  let clock ← logicalClockSeed
  match ← onLog (OperationLog.new deviceId clock)
      (uploadOn job current revisionId updatedAt) with
  | .error result => pure result
  | .ok entry =>
      -- The log has the revision; the tree is best effort.
      let _ ← Script.attempt (FileTree.upsertEntry entry)
      pure .uploaded

def commitFilePlacement
    (deviceId : DeviceId)
    (entry : FileEntry)
    (opType : OpType)
    (placement : Placement) : CloudM l Unit := do
  commitSyncOperation deviceId (some entry.fileId) opType
    ⟨none, none, some placement.name, placement.parentId, false⟩
    true true
  -- Without the remote entry the indexed one is written.
  let remote ← Script.attempt (FileTree.getEntry entry.fileId)
  let updatedAt ← now
  let _ ← Script.attempt (FileTree.upsertEntry
    { placement.applyTo (remote.toOption.getD entry) with
      updatedAt := updatedAt })

def tombstoneRetentionDays : Nat := 90

def deleteEffects
    (name : String)
    (parentId : Option FileId) : Effects where
  newRevisionId := none
  newContentRef := none
  newName := some name
  newParentId := parentId
  deleted := true

/- The delete of a file from its indexed row. -/
def fileDeletion (entry : FileEntry) : Change where
  fileId := entry.fileId
  revision := entry.currentRevisionId
  removes := [entry.fileId]
  root := some entry.fileId
  undoes := none
  confirmed := none
  projects := none
  cleanup := false

/-
  Delete a file as a part of a deletion. `entry` is its row
  of the index and `remotePath` the path that the row has in
  the bucket.
-/
def deleteFileIn
    (deletion : Change)
    (deviceId : DeviceId)
    (entry : FileEntry)
    (remotePath : String) : CloudM l Unit := do
  -- History only: the delete starts from the indexed row.
  Script.request
    (.prepare { fileDeletion entry with
      removes := deletion.removes
      root := deletion.root } : Req)
  let remote ← Script.attempt (FileTree.getEntry entry.fileId)
  let contentRefs :=
    (remote.toOption.bind FileEntry.contentRef).toList.map
      ContentRef.blobId
  let name := (splitPath remotePath).2
  let _ ← TombstoneManager.createTombstone entry.fileId
    remotePath name (toString deviceId) contentRefs
    tombstoneRetentionDays
  commitSyncOperation deviceId (some entry.fileId) .delete
    (deleteEffects name entry.parentId) true true
  let _ ← Script.attempt (FileTree.deleteEntry entry.fileId)

def deleteFile
    (deviceId : DeviceId)
    (entry : FileEntry)
    (remotePath : String) : CloudM l Unit :=
  deleteFileIn (fileDeletion entry) deviceId entry remotePath

/- A row of the folder index. -/
structure IndexedFolder where
  fileId : FileId
  parentId : Option FileId
  remotePath : String
deriving DecidableEq

/- What the index says is inside a folder. -/
structure FolderContents where
  files : List (FileEntry × String)
  folders : List FileId

/- From before folders had nodes: the name is the path. -/
def isPlacedByPath (entry : FileEntry) : Bool :=
  entry.parentId.isNone && entry.currentRevisionId.isSome

namespace FolderContents

def byPath
    (contents : FolderContents) : List (FileEntry × String) :=
  contents.files.filter fun file => isPlacedByPath file.1

def inside
    (contents : FolderContents) : List FileEntry :=
  (contents.files.filter fun file =>
    !isPlacedByPath file.1).map Prod.fst

/- The blobs of everything inside, each of them once. -/
def contentRefs
    (contents : FolderContents) : List BlobId :=
  ((contents.inside.filterMap fun entry =>
    entry.contentHash.bind blobIdFromHash).mergeSort).dedup

end FolderContents

def deleteFiles
    (deletion : Change)
    (deviceId : DeviceId) :
    List (FileEntry × String) → CloudM l Unit
  | [] => pure ()
  | (entry, remotePath) :: rest => do
      deleteFileIn deletion deviceId entry remotePath
      deleteFiles deletion deviceId rest

/- Every entry is tried; one that fails stays. -/
def deleteTreeEntries :
    List FileId → CloudM l Unit
  | [] => pure ()
  | fileId :: rest => do
      let _ ← Script.attempt (FileTree.deleteEntry fileId)
      deleteTreeEntries rest

/- The tree entries that are removed after the commit. -/
def removedWith
    (folder : IndexedFolder)
    (contents : FolderContents) : List FileId :=
  folder.fileId :: contents.folders ++
    contents.inside.map FileEntry.fileId

/- A folder has no revision; everything inside goes with it. -/
def folderDeletion
    (folder : IndexedFolder)
    (contents : FolderContents) : Change where
  fileId := folder.fileId
  revision := none
  removes :=
    folder.fileId :: contents.folders ++
      contents.files.map fun file => file.1.fileId
  root := some folder.fileId
  undoes := none
  confirmed := none
  projects := none
  cleanup := false

def deleteFolder
    (deviceId : DeviceId)
    (folder : IndexedFolder)
    (contents : FolderContents) : CloudM l Unit := do
  deleteFiles (folderDeletion folder contents) deviceId
    contents.byPath
  -- History only: the delete turns to the folder itself.
  Script.request
    (.prepare (folderDeletion folder contents) : Req)
  let name := (splitPath folder.remotePath).2
  -- One record keeps the blobs of everything inside.
  let _ ← TombstoneManager.createTombstone folder.fileId
    folder.remotePath name (toString deviceId)
    contents.contentRefs tombstoneRetentionDays
  commitSyncOperation deviceId (some folder.fileId) .delete
    (deleteEffects name folder.parentId) true true
  deleteTreeEntries (removedWith folder contents)

end S4Drive

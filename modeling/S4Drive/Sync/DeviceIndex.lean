import S4Drive.Library.FileSteps
import S4Drive.Library.NamedForest
import S4Drive.Recovery.Output
import S4Drive.Sync.FolderNodes
import S4Drive.Sync.LocalIndex
import S4Drive.Sync.Publication

/-
  A device as the changes of other devices meet it: the disk
  below the sync folder, the index of files and folders, the
  queue of transfers, the open conflicts, and the bucket as
  it answers. Paths are taken from the sync folder on, as
  lists of what stands between the slashes. The disk has no
  links that change, and tells names apart that differ.

  Statements on the index and answers of the bucket that fail
  are left out.

  Main declarations:
    * `ObjectRow`, `TransferRow`, `ConflictRow`
    * `Bucket`, `Bucket.isRemotelyDeleted`
    * `SyncDevice`, `SyncM`
    * `moveSubtree`, `markDeletedWhere`
-/

open FileTree

------------------------------------------------------------
-- Rows
------------------------------------------------------------

namespace S4Drive

namespace RemoteChanges

open Recovery (Path Bytes)
open Download (LocalContentToken)

/- A regular file: its bytes and mtime in milliseconds. -/
structure StoredFile where
  bytes : Bytes
  mtime : Nat
deriving DecidableEq

abbrev LocalDisk := Files Text StoredFile

/- A row of the table `objects`. -/
structure ObjectRow where
  fileId : FileId
  localPath : Path
  s3Key : Path
  size : Nat
  state : IndexState
  isFolder : Bool
  parentId : Option FileId
  currentRevisionId : Option RevisionId
  localHash : Option String
  localMtime : Option Nat
deriving DecidableEq

namespace ObjectRow

/- The condition `LIVE_ROW`. -/
def isLive (row : ObjectRow) : Bool :=
  row.state ≠ .deletedLocally && row.state ≠ .deletedRemotely &&
    row.state ≠ .ignored

/- A live folder; its `remote_path` is the key. -/
def isLiveFolder (row : ObjectRow) : Bool :=
  row.isFolder && row.isLive

/- The condition `AT_OR_UNDER`. -/
def atOrUnder (row : ObjectRow) (folder : Path) : Bool :=
  folder.isPrefixOf row.localPath

def under (row : ObjectRow) (folder : Path) : Bool :=
  row.atOrUnder folder && row.localPath ≠ folder

end ObjectRow

/- Where an upload goes to or a download comes from. -/
inductive TransferKey where
  | upload (s3Key : Path)
  | download (storageKey : String)
deriving DecidableEq

inductive TransferStatus where
  | queued
  | inProgress
  | paused
  | failed
  | completed
deriving DecidableEq

/- A row of the table `transfer_queue`. -/
structure TransferRow where
  key : TransferKey
  fileId : FileId
  localPath : Path
  boundTo : Option LocalContentToken
  status : TransferStatus
  errorMessage : Option String
deriving DecidableEq

namespace TransferRow

def isWaiting (job : TransferRow) : Bool :=
  job.status = .queued || job.status = .inProgress ||
    job.status = .paused

def isOpen (job : TransferRow) : Bool :=
  job.isWaiting || job.status = .failed

/- A download keeps the key of its blob. -/
def withPath (job : TransferRow) (path s3Key : Path) :
    TransferRow :=
  { job with
    localPath := path
    key :=
      match job.key with
      | .upload _ => .upload s3Key
      | .download storageKey => .download storageKey }

end TransferRow

/- The types of conflict that the changes can meet. -/
inductive ConflictType where
  | deleteEdit
  | renameRename
  | createCreate
deriving DecidableEq

/- An open row of the table `conflict_records`. -/
structure ConflictRow where
  fileId : FileId
  conflictType : ConflictType
  localPath : Path
  remotePath : Path
  siblingPath : Path
  localRevisionId : Option RevisionId
deriving DecidableEq

/-
  Tree entries, deletion records, and whether the newest
  operation on an id that can be reached deletes it.
-/
structure Bucket where
  entries : FileId → Option FileEntry
  tombstones : FileId → Bool
  latestDeletes : FileId → Option Bool

/- A deletion record may outlive a newer restore. -/
def Bucket.isRemotelyDeleted
    (bucket : Bucket)
    (id : FileId) : Bool :=
  bucket.tombstones id &&
    match bucket.latestDeletes id with
    | some deleted => deleted
    | none =>
        match bucket.entries id with
        | some entry => entry.deletedAt.isSome
        | none => true

/- The newest rows come first. -/
structure SyncDevice where
  disk : LocalDisk
  objects : List ObjectRow
  transfers : List TransferRow
  conflicts : List ConflictRow
  bucket : Bucket

/- What is given with a pass. -/
structure SyncContext where
  deviceId : DeviceId
  deviceName : Text
  blake3 : Bytes → String
  -- The time, for the bucket, in names and on the disk.
  now : Timestamp
  nowText : Text
  -- The random end of a name when all numbers are taken.
  freshName : Text
  -- What the log answers to the commit of a rename.
  commitRename : FileId → Placement → CoreResult Unit
  -- Whether Notes has a change that is not committed yet.
  notesChangePending : FileId → Bool

/- A step that fails keeps what it has done before. -/
abbrev SyncM := EStateM CoreError SyncDevice

namespace SyncDevice

def rowOf
    (d : SyncDevice)
    (id : FileId) : Option ObjectRow :=
  d.objects.find? fun row => row.fileId = id

def folderById
    (d : SyncDevice)
    (id : FileId) : Option ObjectRow :=
  d.objects.find? fun row =>
    row.fileId = id && row.isLiveFolder

def liveEntryAt
    (d : SyncDevice)
    (s3Key : Path) : Option FileId :=
  (d.objects.find? fun row =>
    row.s3Key = s3Key && row.isLive).map ObjectRow.fileId

def getLocalPath
    (d : SyncDevice)
    (id : FileId) : Option Path :=
  (d.rowOf id).map ObjectRow.localPath

def getObjectState
    (d : SyncDevice)
    (id : FileId) : Option IndexState :=
  (d.rowOf id).map ObjectRow.state

/- `ORDER BY local_path`: the order of the texts. -/
def sortedByPath (rows : List ObjectRow) : List ObjectRow :=
  rows.mergeSort fun r s =>
    ['/'].intercalate r.localPath ≤ ['/'].intercalate s.localPath

def liveFilesUnder
    (d : SyncDevice)
    (folder : Path) : List ObjectRow :=
  sortedByPath
    (d.objects.filter fun row =>
      row.under folder && !row.isFolder && row.isLive)

def removedRemotelyUnder
    (d : SyncDevice)
    (folder : Path) : List ObjectRow :=
  sortedByPath
    (d.objects.filter fun row =>
      row.under folder && row.state = .deletedRemotely)

/- Rows that are not deleted come first, then the newest. -/
def fileSnapshotAt
    (d : SyncDevice)
    (path : Path) : Option ObjectRow :=
  let rows := d.objects.filter fun row =>
    row.localPath = path && !row.isFolder
  (rows.find? fun row => !row.state.isDeleted).or rows.head?

def hasOpenConflict
    (d : SyncDevice)
    (id : FileId)
    (type : ConflictType) : Bool :=
  d.conflicts.any fun c =>
    c.fileId = id && c.conflictType = type

/- `Path::exists`, which follows links. -/
def existsAt (d : SyncDevice) (p : Path) : Bool :=
  p = [] ||
    match d.disk.nodeAt p with
    | some (.other resolves) => resolves
    | some _ => true
    | none => false

def isDirAt (d : SyncDevice) (p : Path) : Bool :=
  p = [] || d.disk.nodeAt p = some .folder

def fileAt (d : SyncDevice) (p : Path) : Option StoredFile :=
  match d.disk.nodeAt p with
  | some (.file body) => some body
  | _ => none

/- What a download decides about; a folder cannot be read. -/
def contentToken
    (blake3 : Bytes → String)
    (d : SyncDevice)
    (p : Path) : Option LocalContentToken :=
  match d.disk.nodeAt p with
  | none => some (Download.tokenOf blake3 none)
  | some (.file body) =>
      some (Download.tokenOf blake3 (some body.bytes))
  | some _ => none

------------------------------------------------------------
-- Writes of the Index
------------------------------------------------------------

def mapRows
    (d : SyncDevice)
    (p : ObjectRow → Bool)
    (f : ObjectRow → ObjectRow) : SyncDevice :=
  { d with
    objects :=
      d.objects.map fun row => if p row then f row else row }

def mapTransfers
    (d : SyncDevice)
    (p : TransferRow → Bool)
    (f : TransferRow → TransferRow) : SyncDevice :=
  { d with
    transfers :=
      d.transfers.map fun job => if p job then f job else job }

def setState
    (d : SyncDevice)
    (id : FileId)
    (state : IndexState) : SyncDevice :=
  d.mapRows (fun row => row.fileId = id)
    fun row => { row with state := state }

def markFileSynced (d : SyncDevice) (id : FileId) :=
  d.setState id .synced

def markFileConflict (d : SyncDevice) (id : FileId) :=
  d.setState id .conflicted

def markFileDeleted (d : SyncDevice) (id : FileId) :=
  d.setState id .deletedLocally

def setParent
    (d : SyncDevice)
    (id : FileId)
    (parentId : Option FileId) : SyncDevice :=
  d.mapRows (fun row => row.fileId = id)
    fun row => { row with parentId := parentId }

def updateLocalPath
    (d : SyncDevice)
    (id : FileId)
    (localPath s3Key : Path) : SyncDevice :=
  d.mapRows (fun row => row.fileId = id)
    fun row => { row with localPath := localPath, s3Key := s3Key }

/- `INSERT OR REPLACE`, with the mtime that the file has. -/
def putRow (d : SyncDevice) (row : ObjectRow) : SyncDevice :=
  { d with
    objects :=
      { row with
        localMtime :=
          (d.fileAt row.localPath).map StoredFile.mtime } ::
      d.objects.filter fun old => old.fileId ≠ row.fileId }

def registerFileAtPathWithState
    (d : SyncDevice)
    (entry : FileEntry)
    (localPath s3Key : Path)
    (state : IndexState) : SyncDevice :=
  d.putRow
    { fileId := entry.fileId
      localPath := localPath
      s3Key := if s3Key = [] then [entry.name.toList] else s3Key
      size := entry.size
      state := state
      isFolder := entry.entryType = .folder
      parentId := entry.parentId
      currentRevisionId := entry.currentRevisionId
      localHash := entry.contentHash
      localMtime := none }

def registerFolder
    (d : SyncDevice)
    (id : FileId)
    (parentId : Option FileId)
    (localPath s3Key : Path) : SyncDevice :=
  d.putRow
    { fileId := id
      localPath := localPath
      s3Key := s3Key
      size := 0
      state := .synced
      isFolder := true
      parentId := parentId
      currentRevisionId := none
      localHash := none
      localMtime := none }

/- Rows that are deleted stay where they were. -/
def moveSubtree
    (d : SyncDevice)
    (fromLocal toLocal fromRemote toRemote : Path) :
    SyncDevice :=
  let moved := d.mapRows
    (fun row =>
      row.atOrUnder fromLocal && !row.state.isDeleted)
    fun row =>
      { row with
        localPath :=
          NamedForest.rebase fromLocal toLocal row.localPath
        s3Key :=
          NamedForest.rebase fromRemote toRemote row.s3Key }
  moved.mapTransfers
    (fun job =>
      fromLocal.isPrefixOf job.localPath && job.isOpen)
    fun job =>
      { job with
        localPath :=
          NamedForest.rebase fromLocal toLocal job.localPath
        key :=
          match job.key with
          | .upload s3Key =>
              .upload
                (NamedForest.rebase fromRemote toRemote s3Key)
          | .download storageKey => .download storageKey }

def repointTransfers
    (d : SyncDevice)
    (id : FileId)
    (localPath s3Key : Path) : SyncDevice :=
  d.mapTransfers (fun job => job.fileId = id && job.isWaiting)
    fun job => job.withPath localPath s3Key

/- Rows that `extra` selects, with their waiting transfers. -/
def markDeletedWhere
    (d : SyncDevice)
    (folder : Path)
    (state : IndexState)
    (extra : ObjectRow → Bool) : SyncDevice :=
  let chosen := fun row : ObjectRow =>
    row.atOrUnder folder && row.isLive && extra row
  let stopped := d.mapTransfers
    (fun job =>
      job.isWaiting &&
        d.objects.any fun row =>
          row.fileId = job.fileId && chosen row)
    fun job =>
      { job with
        status := .failed
        errorMessage := some "folder deleted" }
  stopped.mapRows chosen fun row => { row with state := state }

def markSubtreeDeleted
    (d : SyncDevice)
    (folder : Path)
    (state : IndexState) : SyncDevice :=
  d.markDeletedWhere folder state fun _ => true

def markFoldersDeleted
    (d : SyncDevice)
    (folder : Path)
    (state : IndexState) : SyncDevice :=
  d.markDeletedWhere folder state ObjectRow.isFolder

/-
  An open download of the file is queued again; an item that
  cannot be read leaves it bound to what it was.
-/
def enqueueDownload
    (blake3 : Bytes → String)
    (d : SyncDevice)
    (id : FileId)
    (localPath : Path)
    (storageKey : String) : SyncDevice :=
  let token := d.contentToken blake3 localPath
  let same := fun job : TransferRow =>
    job.fileId = id && job.isOpen &&
      match job.key with
      | .download _ => true
      | .upload _ => false
  if d.transfers.any same then
    d.mapTransfers same fun job =>
      { key := .download storageKey
        fileId := id
        localPath := localPath
        boundTo := token.or job.boundTo
        status := .queued
        errorMessage := none }
  else
    { d with
      transfers :=
        d.transfers ++
          [{ key := .download storageKey
             fileId := id
             localPath := localPath
             boundTo := token
             status := .queued
             errorMessage := none }] }

end SyncDevice

end RemoteChanges

end S4Drive

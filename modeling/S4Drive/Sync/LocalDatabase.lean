import S4Drive.Library.KeyedTables
import S4Drive.Notes.Session
import S4Drive.Sync.DeviceIndex
import S4Drive.Sync.NotesReplay

/-
  The tables of the local database that its statements on
  indexed files, transfers and changes of Notes work on,
  with texts as the columns have them. A statement is a
  function on the tables; what a transaction does is what
  its statements do one after the other.

  Main declarations:
    * `ObjectRow`, `TransferRow`, `NoteVersion`,
      `LocalMutation`
    * `TransferQueue`, `LocalDatabase`
-/

------------------------------------------------------------
-- Rows
------------------------------------------------------------

namespace S4Drive

namespace Db

open KeyedTables
open RemoteChanges (TransferStatus)

/- `SupplementalEntryMetadata` -/
structure EntryMetadata where
  contentRef : Option ContentRef
  mime : Option String
  deletedAt : Option Timestamp
  versionHistory : List RevisionId
deriving DecidableEq

/- A row of the table `objects`. -/
structure ObjectRow where
  fileId : FileId
  localPath : Text
  s3Key : Text
  size : Nat
  state : IndexState
  isFolder : Bool
  parentId : Option FileId
  currentRevisionId : Option RevisionId
  localHash : Option String
  localMtime : Option Nat
  localKey : Option String
  updatedAt : Timestamp
  metadata : Option EntryMetadata
deriving DecidableEq

inductive TransferDirection where
  | upload
  | download
deriving DecidableEq

/-
  A row of the table `transfer_queue`. An upload that Notes
  has asked for is bound to the hash of a content.
-/
structure TransferRow where
  id : Nat
  direction : TransferDirection
  fileId : FileId
  localPath : Text
  s3Key : Text
  blobHash : Option String
  totalBytes : Nat
  transferredBytes : Nat
  status : TransferStatus
  errorMessage : Option String
  updatedAt : Timestamp
deriving DecidableEq

namespace TransferRow

/- `status IN ('queued', 'in_progress')` -/
def isCurrent (row : TransferRow) : Bool :=
  row.status = .queued || row.status = .inProgress

/- `status IN ('queued', 'in_progress', 'paused')` -/
def isWaiting (row : TransferRow) : Bool :=
  row.isCurrent || row.status = .paused

/- What may still be tried: all but what is completed. -/
def isOpen (row : TransferRow) : Bool :=
  row.isWaiting || row.status = .failed

end TransferRow

/- A row of the table `note_local_versions`. -/
structure NoteVersion where
  workspaceId : Uuid
  fileId : FileId
  token : SaveToken
deriving DecidableEq

def NoteVersion.key (row : NoteVersion) : Uuid × FileId :=
  (row.workspaceId, row.fileId)

/- A row of the table `local_mutations`. -/
structure LocalMutation where
  requestId : Uuid
  workspaceId : Uuid
  fileId : FileId
  kind : MutationKind
  stage : MutationStage
  createdAt : Timestamp
deriving DecidableEq

/- A row of the table `notes_roots`. -/
structure NotesRoot where
  workspaceId : Uuid
  rootFileId : FileId
deriving DecidableEq

/- The checkpoint `notes/root-identity/…` of a workspace. -/
structure RootIdentity where
  workspaceId : Uuid
  identity : String
deriving DecidableEq

/- No id is given twice, also when its row is gone. -/
structure TransferQueue extends
    Table TransferRow TransferRow.id where
  nextId : Nat
  below : ∀ row ∈ rows, row.id < nextId

structure LocalDatabase where
  objects : Table ObjectRow ObjectRow.fileId
  transferQueue : TransferQueue
  noteVersions : Table NoteVersion NoteVersion.key
  localMutations : Table LocalMutation LocalMutation.requestId
  notesRoots : Table NotesRoot NotesRoot.workspaceId
  rootIdentities : Table RootIdentity RootIdentity.workspaceId

namespace TransferQueue

variable {queue : TransferQueue}

@[ext] theorem ext
    {other : TransferQueue}
    (hTable : queue.toTable = other.toTable)
    (hNext : queue.nextId = other.nextId) :
    queue = other := by
  cases queue
  cases other
  subst hTable
  subst hNext
  rfl

/- An update keeps the ids. -/
def update
    (queue : TransferQueue)
    (p : TransferRow → Bool)
    (f : TransferRow → TransferRow)
    (hId : ∀ row, (f row).id = row.id) : TransferQueue where
  toTable := queue.updateWhere p f hId
  nextId := queue.nextId
  below := by
    intro row hRow
    obtain ⟨old, hOld, rfl⟩ := Table.mem_updateWhere.mp hRow
    have hBelow := queue.below old hOld
    by_cases hSel : p old
    · simpa [hSel, hId] using hBelow
    · simpa [hSel] using hBelow

/- `INSERT`: the row gets the next id. -/
def insert
    (queue : TransferQueue)
    (row : TransferRow) : TransferQueue where
  rows := queue.rows ++ [{ row with id := queue.nextId }]
  distinct := Table.nodup_append_row queue.distinct
    fun other hOther => Nat.ne_of_lt (queue.below other hOther)
  nextId := queue.nextId + 1
  below := by
    intro other hOther
    rcases List.mem_append.mp hOther with hOld | hNew
    · exact Nat.lt_succ_of_lt (queue.below other hOld)
    · rw [List.mem_singleton.mp hNew]
      exact Nat.lt_succ_self queue.nextId

def empty : TransferQueue where
  toTable := Table.empty
  nextId := 1
  below := by simp [Table.empty]

end TransferQueue

def LocalDatabase.empty : LocalDatabase where
  objects := Table.empty
  transferQueue := TransferQueue.empty
  noteVersions := Table.empty
  localMutations := Table.empty
  notesRoots := Table.empty
  rootIdentities := Table.empty

end Db

end S4Drive

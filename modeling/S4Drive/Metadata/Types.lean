/-
  The records of the metadata protocol, with the fields that
  the modelled code reads or writes. Ids are numbers, `0` is
  the nil id. Where the source has an empty string for "no
  head" the model has `none`.

  Main declarations:
    * `OpId`, `Operation`
    * `Preconditions`, `Effects`, `ContentRef`
    * `FileEntry`, `Placement`, `Tombstone`
    * `Device`, `DeviceWatermark`, `SnapshotMetadata`,
      `OpCompactionCursor`, `BlobLease`
-/

------------------------------------------------------------
-- Identifiers
------------------------------------------------------------

namespace S4Drive

abbrev Uuid := Nat

abbrev FileId := Uuid

abbrev DeviceId := Uuid

abbrev RevisionId := Uuid

abbrev BlobId := Uuid

/- Milliseconds of the clock. -/
abbrev Timestamp := Nat

/- An operation id: `device_id:logical_clock:uuid`. -/
structure OpId where
  deviceId : DeviceId
  logicalClock : Nat
  opUuid : Uuid
deriving DecidableEq

instance : ToString OpId where
  toString id :=
    toString id.deviceId ++ ":" ++
      toString id.logicalClock ++ ":" ++ toString id.opUuid

structure ContentRef where
  blobId : BlobId
  hash : String
  size : Nat
  mime : String
  storageKey : String
deriving DecidableEq

inductive OpType where
  | createFolder
  | createFile
  | uploadNewRevision
  | rename
  | move
  | delete
  | restore
  | updateMetadata
deriving DecidableEq

structure Preconditions where
  expectedEtag : Option String
  expectedVersionId : Option String
  fileExists : Bool
  parentExists : Bool
deriving DecidableEq

structure Effects where
  newRevisionId : Option RevisionId
  newContentRef : Option ContentRef
  newName : Option String
  newParentId : Option FileId
  deleted : Bool
deriving DecidableEq

/-
  An operation of the append-only log. Each operation is
  immutable once written.
-/
structure Operation where
  opId : OpId
  deviceId : DeviceId
  actorId : String
  logicalClock : Nat
  baseHead : Option OpId
  targetFileId : Option FileId
  opType : OpType
  preconditions : Preconditions
  effects : Effects
  timestamp : Timestamp
  signature : Option String
deriving DecidableEq

inductive EntryType where
  | file
  | folder
  | symlink
deriving DecidableEq

/- The materialized state of a file or folder. -/
structure FileEntry where
  fileId : FileId
  parentId : Option FileId
  name : String
  entryType : EntryType
  currentRevisionId : Option RevisionId
  contentRef : Option ContentRef
  size : Nat
  contentHash : Option String
  mime : Option String
  updatedAt : Timestamp
  deletedAt : Option Timestamp
  versionHistory : List RevisionId
deriving DecidableEq

/- Parent folder (`none` for the root) and name. -/
structure Placement where
  parentId : Option FileId
  name : String
deriving DecidableEq

namespace Placement

def ofEntry (entry : FileEntry) : Placement :=
  ⟨entry.parentId, entry.name⟩

/-
  The placement that an operation sets. Operations carry the
  whole placement: no parent means the root.
-/
def ofOp (op : Operation) : Option Placement :=
  op.effects.newName.map fun name =>
    ⟨op.effects.newParentId, name⟩

def applyTo
    (placement : Placement)
    (entry : FileEntry) : FileEntry :=
  { entry with
    parentId := placement.parentId
    name := placement.name }

end Placement

/- `a/b/c` in (`a/b`, `c`); a root entry has no parent. -/
def splitPath (path : String) : String × String :=
  let path := path.toList.dropWhile (· = '/')
  let reversed := path.reverse.dropWhile (· = '/')
  let name := reversed.takeWhile (· ≠ '/')
  let parent := (reversed.dropWhile (· ≠ '/')).drop 1
  (String.ofList parent.reverse, String.ofList name.reverse)

example : splitPath "/a/b/c.txt" = ("a/b", "c.txt") := by
  decide +kernel

/- Record of a deleted file, kept for the retention period. -/
structure Tombstone where
  fileId : FileId
  pathAtDelete : String
  nameAtDelete : String
  deletedBy : String
  deletedAt : Timestamp
  retentionUntil : Timestamp
  contentRefs : List BlobId
  restorable : Bool
deriving DecidableEq

/- A registered device. -/
structure Device where
  deviceId : DeviceId
  lastSeen : Timestamp
deriving DecidableEq

inductive DeviceWatermarkStatus where
  | active
  | retired
deriving DecidableEq

/-
  The progress of a device, used to decide when old
  operations are safe to compact.
-/
structure DeviceWatermark where
  deviceId : DeviceId
  lastSeenAt : Timestamp
  appliedSnapshotSeq : Nat
  appliedHead : Option OpId
  status : DeviceWatermarkStatus
deriving DecidableEq

/- Stored beside each tree snapshot. -/
structure SnapshotMetadata where
  seqNum : Nat
  coveredHead : Option OpId
deriving DecidableEq

/-
  How far the compaction of a snapshot has come: the next
  operation to look at and the ones to be deleted.
-/
structure OpCompactionCursor where
  snapshotSeq : Nat
  coveredHead : OpId
  nextOp : Option OpId
  pendingDelete : List OpId
deriving DecidableEq

/- An upload that is about to refer to a blob. -/
structure BlobLease where
  expiresAt : Timestamp
deriving DecidableEq

end S4Drive

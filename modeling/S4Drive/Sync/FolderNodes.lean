import S4Drive.Sync.NotesIntake

/-
  How a local folder gets its node in the bucket. A new
  folder has an id that every device computes alike from its
  parent and its name; an id that belongs to a moved or a
  deleted folder is passed over. Only what happens in the
  bucket is modelled: what a call finds in its index is
  given with the call, and what it registers there is left
  out, as is the check that no recovery is pending.

  Main declarations:
    * `FolderNodes.createRemote`, `FolderNodes.tryClaim`
    * `FolderNodes.publishFolderAt`
    * `FolderNodes.ensureFolder`
-/

------------------------------------------------------------
-- Folders in the Bucket
------------------------------------------------------------

namespace S4Drive

open ObjectStore Concurrency

variable {l : Type}

/- The step of a call that turns to the id of a new folder. -/
def Change.claimOf (folderId : FileId) : Change where
  fileId := folderId
  revision := none
  removes := []
  root := none
  undoes := none
  confirmed := none
  projects := none
  cleanup := false

def joinPath (parent name : String) : String :=
  if parent.isEmpty then
    name
  else
    parent ++ "/" ++ name

/- What the index says of the folder at a path. -/
structure FolderRow where
  fileId : FileId
  pendingUpload : Bool
deriving DecidableEq

namespace FolderNodes

/- Deterministic ids tried before a random one. -/
def folderIdGenerations : Nat := 16

/- Commit an operation that puts a folder at a placement. -/
def commit
    (deviceId : DeviceId)
    (folderId : FileId)
    (opType : OpType)
    (placement : Placement) : CloudM l Operation := do
  let fileExists := decide (opType ≠ .createFolder)
  let clock ← logicalClockSeed
  onLog (OperationLog.new deviceId clock)
    (OperationLog.commit (some folderId) opType
      ⟨none, none, fileExists, true⟩
      (placementEffects placement false))

/- The entry of the folder, with its other fields kept. -/
def placedEntry
    (folderId : FileId)
    (placement : Placement)
    (now : Timestamp)
    (known : Option FileEntry) : FileEntry :=
  { placement.applyTo
      (known.getD (folderEntry folderId placement now)) with
    updatedAt := now }

/- The operation `opId` is brought to the tree. -/
def writeTreeEntry
    (folderId : FileId)
    (placement : Placement)
    (opId : OpId) : CloudM l Unit := do
  -- History only: what follows projects the operation.
  Script.request (.prepare (.projectionOf folderId opId) : Req)
  let now ← now
  match ← Script.attempt (FileTree.getEntry folderId) with
  | .ok entry =>
      FileTree.upsertEntry
        (placedEntry folderId placement now (some entry))
  | .error (.notFound _) =>
      FileTree.upsertEntry
        (placedEntry folderId placement now none)
  | .error e => Script.throw e

def createRemote
    (deviceId : DeviceId)
    (folderId : FileId)
    (placement : Placement) : CloudM l Unit := do
  -- History only: the call turns to the id.
  Script.request (.prepare (.claimOf folderId) : Req)
  let operation ←
    commit deviceId folderId .createFolder placement
  writeTreeEntry folderId placement operation.opId

/-
  Another device has committed an operation on the id, which
  the code takes to be the same create.
-/
def afterConflict
    (folderId : FileId)
    (placement : Placement) : CloudM l Bool := do
  -- History only: the call looks at the id once more.
  Script.request (.prepare (.claimOf folderId) : Req)
  match ← Script.attempt (FileTree.getEntry folderId) with
  | .ok entry => return isFolderAt entry placement
  | .error (.notFound _) => return true
  | .error e => Script.throw e

def claimMissing
    (deviceId : DeviceId)
    (folderId : FileId)
    (placement : Placement) : CloudM l Bool := do
  match ← Script.attempt
      (createRemote deviceId folderId placement) with
  | .ok _ => return true
  | .error (.conflict _) => afterConflict folderId placement
  | .error e => Script.throw e

/-
  Whether the id now names a folder at the placement. The id
  of a deleted folder stays taken.
-/
def tryClaim
    (deviceId : DeviceId)
    (folderId : FileId)
    (placement : Placement) : CloudM l Bool := do
  match ← Script.attempt (FileTree.getEntry folderId) with
  | .ok entry => return isFolderAt entry placement
  | .error (.notFound _) =>
      match ← Script.attempt
          (TombstoneManager.getTombstone folderId) with
      | .ok _ => return false
      | .error (.notFound _) =>
          claimMissing deviceId folderId placement
      | .error e => Script.throw e
  | .error e => Script.throw e

/- The id of a folder: its parent, name and generation. -/
abbrev NodeId := Option FileId → String → Nat → FileId

/- Try the generations from `generation` on. -/
def claimFrom
    (folderNodeId : NodeId)
    (deviceId : DeviceId)
    (placement : Placement) :
    Nat → Nat → CloudM l FileId
  | _, 0 => do
      let folderId ← Script.request (.draw : Req)
      createRemote deviceId folderId placement
      return folderId
  | generation, rounds + 1 => do
      let folderId := folderNodeId placement.parentId
        placement.name generation
      if ← tryClaim deviceId folderId placement then
        return folderId
      else
        claimFrom folderNodeId deviceId placement
          (generation + 1) rounds

def claimFolderId
    (folderNodeId : NodeId)
    (deviceId : DeviceId)
    (placement : Placement) : CloudM l FileId :=
  claimFrom folderNodeId deviceId placement 0
    folderIdGenerations

def elsewhere (folderId : FileId) : CoreError :=
  .conflict ("folder " ++ toString folderId ++
    " is already committed at another location")

def deletedElsewhere (folderId : FileId) : CoreError :=
  .conflict ("folder " ++ toString folderId ++
    " was deleted on another device")

def committedConcurrently (folderId : FileId) : CoreError :=
  .conflict ("folder " ++ toString folderId ++
    " was committed concurrently")

def publishMissing
    (deviceId : DeviceId)
    (folderId : FileId)
    (placement : Placement) : CloudM l Unit := do
  match ← Script.attempt
      (createRemote deviceId folderId placement) with
  | .ok _ => return ()
  | .error (.conflict _) =>
      match ← Script.attempt (FileTree.getEntry folderId) with
      | .ok entry =>
          if isFolderAt entry placement then
            return ()
          else
            Script.throw (committedConcurrently folderId)
      | .error (.notFound _) =>
          Script.throw (committedConcurrently folderId)
      | .error e => Script.throw e
  | .error e => Script.throw e

/- Create the folder, or accept it when it is there. -/
def publishFolderAt
    (deviceId : DeviceId)
    (folderId : FileId)
    (placement : Placement) : CloudM l Unit := do
  match ← Script.attempt (FileTree.getEntry folderId) with
  | .ok entry =>
      if isFolderAt entry placement then
        return ()
      else
        Script.throw (elsewhere folderId)
  | .error (.notFound _) =>
      match ← Script.attempt
          (TombstoneManager.getTombstone folderId) with
      | .ok _ => Script.throw (deletedElsewhere folderId)
      | .error (.notFound _) =>
          publishMissing deviceId folderId placement
      | .error e => Script.throw e
  | .error e => Script.throw e

def publishReservedFolder
    (deviceId : DeviceId)
    (folder : FolderRow)
    (placement : Placement) : CloudM l Unit :=
  if folder.pendingUpload then
    publishFolderAt deviceId folder.fileId placement
  else
    pure ()

/- The folder `name` at `path`, in the folder `parentId`. -/
def ensureOne
    (folderNodeId : NodeId)
    (deviceId : DeviceId)
    (folderAt : String → Option FolderRow)
    (placement : Placement)
    (path : String) : CloudM l FileId := do
  match folderAt path with
  | some folder =>
      publishReservedFolder deviceId folder placement
      return folder.fileId
  | none => claimFolderId folderNodeId deviceId placement

def ensureFrom
    (folderNodeId : NodeId)
    (deviceId : DeviceId)
    (folderAt : String → Option FolderRow) :
    Option FileId → String → List String →
      CloudM l (Option FileId)
  | parentId, _, [] => pure parentId
  | parentId, path, name :: rest => do
      let folderId ← ensureOne folderNodeId deviceId folderAt
        ⟨parentId, name⟩ (joinPath path name)
      ensureFrom folderNodeId deviceId folderAt (some folderId)
        (joinPath path name) rest

/-
  The node of the folder at a path, given by the names that
  it consists of; `none` for the root. The folder and its
  missing parents are created in the bucket when needed.
-/
def ensureFolder
    (folderNodeId : NodeId)
    (deviceId : DeviceId)
    (folderAt : String → Option FolderRow)
    (names : List String) : CloudM l (Option FileId) :=
  ensureFrom folderNodeId deviceId folderAt none "" names

end FolderNodes

end S4Drive

import S4Drive.Sync.DeviceIndex

/-
  Folders of the bucket on the disk of a device. A folder is
  created where its parent is, or moved there with everything
  inside; when something else has the name already, the
  folder gets a number, and the rename is committed for the
  other devices.

  The texts of the system's own errors are left out, as is
  the check that no recovery is pending.

  Main declarations:
    * `onDisk`, `safeJoinSyncPath`
    * `FolderNodes.resolve`, `FolderNodes.folderPath`
    * `FolderNodes.placeFolder`
-/

open FileTree

------------------------------------------------------------
-- Steps on the Disk
------------------------------------------------------------

namespace S4Drive

namespace RemoteChanges

open Recovery (Path displayPath)

/- A step on the disk, with the text of its failure. -/
def onDisk
    (text : String)
    (step : LocalDisk → Option LocalDisk) : SyncM Unit :=
  fun d =>
    match step d.disk with
    | some disk => .ok () { d with disk := disk }
    | none => .error (.fileSystem text) d

def ofResult {α : Type} (result : CoreResult α) : SyncM α :=
  fun d =>
    match result with
    | .ok a => .ok a d
    | .error e => .error e d

/- What is read of the device may be an error. -/
def reading
    {α : Type}
    (read : SyncDevice → CoreResult α) : SyncM α :=
  fun d =>
    match read d with
    | .ok a => .ok a d
    | .error e => .error e d

/- Names from before schema v2 are whole paths. -/
def nameParts (name : String) : Path :=
  name.toList.splitOn '/'

/- An empty path has no parts. -/
def joinPath (parent : Path) (name : String) : Path :=
  if parent = [] ∧ name = "" then
    []
  else
    parent ++ nameParts name

/- Components that lead somewhere. -/
def normalParts (path : Path) : Path :=
  path.filter fun part => part ≠ [] && part ≠ ['.']

/- A leading slash makes a path absolute. -/
def escapes (path : Path) : Bool :=
  (path.head? = some [] && path.length > 1) ||
    ['.', '.'] ∈ path

def safeJoinSyncPath (path : Path) : CoreResult Path :=
  if escapes path then
    .error (.protocol
      ("remote path escapes sync folder: " ++
        String.ofList (['/'].intercalate path)))
  else
    .ok (normalParts path)

def isInside (path folder : Path) : Bool :=
  folder.isPrefixOf path

------------------------------------------------------------
-- Places
------------------------------------------------------------

namespace FolderNodes

/- Longest parent chain followed. -/
def maxFolderDepth : Nat := 256

def maxNameSuffix : Nat := 1000

/-
  Whether something else already has the path. A local folder
  that is not indexed yet does not stop a new folder.
-/
def isTaken
    (d : SyncDevice)
    (folderId : FileId)
    (path : Path)
    (currentLocal : Option Path) : CoreResult Bool :=
  if (d.liveEntryAt path).any fun other => other ≠ folderId then
    .ok true
  else
    match safeJoinSyncPath path with
    | .error e => .error e
    | .ok target =>
        if d.existsAt target then
          match currentLocal with
          | some current => .ok (current ≠ target)
          | none => .ok (!d.isDirAt target)
        else
          .ok false

def suffixedName (name : String) (suffix : Nat) : String :=
  name ++ " (" ++ toString suffix ++ ")"

/- `tries` numbers are left to be looked at. -/
def findName
    (d : SyncDevice)
    (folderId : FileId)
    (name : String)
    (parentPath : Path)
    (currentLocal : Option Path) :
    Nat → Nat → CoreResult String
  | 0, _ => .ok (suffixedName name folderId)
  | tries + 1, suffix =>
      match isTaken d folderId
          (joinPath parentPath (suffixedName name suffix))
          currentLocal with
      | .error e => .error e
      | .ok true =>
          findName d folderId name parentPath currentLocal tries
            (suffix + 1)
      | .ok false => .ok (suffixedName name suffix)

def freeName
    (d : SyncDevice)
    (folderId : FileId)
    (name : String)
    (parentPath : Path)
    (currentLocal : Option Path) : CoreResult String :=
  findName d folderId name parentPath currentLocal
    (maxNameSuffix - 1) 2

def writeTreeEntry
    (ctx : SyncContext)
    (folderId : FileId)
    (placement : Placement) : SyncM Unit :=
  modify fun d =>
    { d with
      bucket :=
        { d.bucket with
          entries :=
            Function.update d.bucket.entries folderId
              (some (S4Drive.FolderNodes.placedEntry folderId
                placement ctx.now
                (d.bucket.entries folderId))) } }

/- A committed rename is the newest operation on the id. -/
def committed (folderId : FileId) : SyncM Unit :=
  modify fun d =>
    { d with
      bucket :=
        { d.bucket with
          latestDeletes :=
            Function.update d.bucket.latestDeletes folderId
              (some false) } }

/-
  The placement itself when its name is free, or the same
  place with a number. Another device may have renamed the
  folder first; then its operation brings the final name.
-/
def freePlace
    (ctx : SyncContext)
    (folderId : FileId)
    (placement : Placement)
    (parentPath : Path)
    (currentLocal : Option Path) : SyncM (Placement × Path) := do
  let path := joinPath parentPath placement.name
  let taken ← reading fun d =>
    isTaken d folderId path currentLocal
  if taken then
    let name ← reading fun d =>
      freeName d folderId placement.name parentPath currentLocal
    let renamed : Placement := ⟨placement.parentId, name⟩
    match ctx.commitRename folderId renamed with
    | .ok _ =>
        committed folderId
        writeTreeEntry ctx folderId renamed
    | .error (.conflict _) => pure ()
    | .error e => throw e
    return (renamed, joinPath parentPath name)
  else
    return (placement, path)

/- The tree entry goes back to where the folder stays. -/
def keepOutOfCycle
    (ctx : SyncContext)
    (folder : ObjectRow) : SyncM Path := do
  writeTreeEntry ctx folder.fileId
    ⟨folder.parentId, String.ofList (folder.s3Key.getLastD [])⟩
  return folder.s3Key

def moveLocalFolder (source target : Path) : SyncM Unit := do
  let d ← get
  if d.existsAt source then
    onDisk ("create folder " ++ displayPath target.dropLast)
      fun disk => disk.createDirAll target.dropLast
    onDisk
      ("move folder " ++ displayPath source ++ " -> " ++
        displayPath target)
      fun disk => disk.renameTree source target
  else
    onDisk ("create folder " ++ displayPath target)
      fun disk => disk.createDirAll target

def register
    (folderId : FileId)
    (placement : Placement)
    (path : Path) : SyncM Unit := do
  let localPath ← ofResult (safeJoinSyncPath path)
  modify fun d =>
    d.registerFolder folderId placement.parentId localPath path

/- A folder that should be there is made; errors are dropped. -/
def recreate (folder : ObjectRow) : SyncM Unit := do
  let d ← get
  if d.existsAt folder.localPath then
    pure ()
  else
    set
      (SyncDevice.markFileSynced
        { d with
          disk :=
            (d.disk.createDirAll folder.localPath).getD d.disk }
        folder.fileId)

/- Move a folder of the index, or create a new one. -/
def placeElsewhere
    (ctx : SyncContext)
    (folderId : FileId)
    (placement : Placement)
    (parentPath : Path)
    (known : Option ObjectRow) : SyncM Path := do
  let (placement, path) ← freePlace ctx folderId placement
    parentPath (known.map ObjectRow.localPath)
  let target ← ofResult (safeJoinSyncPath path)
  match known with
  | some folder =>
      moveLocalFolder folder.localPath target
      modify fun d =>
        (d.moveSubtree folder.localPath target folder.s3Key
          path).setParent folderId placement.parentId
  | none =>
      onDisk ("create folder " ++ displayPath target)
        fun disk => disk.createDirAll target
      register folderId placement path
  return path

/-
  Put a folder at a placement, on the disk and in the index.
  Returns its path.
-/
def placeFolder
    (ctx : SyncContext)
    (folderId : FileId)
    (placement : Placement)
    (parentPath : Path) : SyncM Path := do
  let d ← get
  match d.folderById folderId with
  | some folder =>
      if folder.s3Key = joinPath parentPath placement.name then
        recreate folder
        modify fun d => d.setParent folderId placement.parentId
        return folder.s3Key
      else if isInside parentPath folder.s3Key then
        keepOutOfCycle ctx folder
      else
        placeElsewhere ctx folderId placement parentPath
          (some folder)
  | none =>
      placeElsewhere ctx folderId placement parentPath none

/-
  The folders above that the device does not know, from the
  outermost on, and the path that they are in.
-/
def unknownAbove
    (d : SyncDevice) :
    Nat → List (FileId × Placement) → Option FileId →
      Option (Path × List (FileId × Placement))
  | _, unknown, none => some ([], unknown)
  | rounds, unknown, some current =>
      if d.bucket.isRemotelyDeleted current then
        none
      else
        match d.folderById current, rounds with
        | some folder, _ => some (folder.s3Key, unknown)
        | none, 0 => none
        | none, rounds + 1 =>
            if unknown.any fun u => u.1 = current then
              none
            else
              match d.bucket.entries current with
              | none => none
              | some entry =>
                  if entry.entryType = .folder &&
                      entry.deletedAt.isNone then
                    unknownAbove d rounds
                      ((current, Placement.ofEntry entry) ::
                        unknown)
                      entry.parentId
                  else
                    none

def placeUnknown
    (ctx : SyncContext) :
    Path → List (FileId × Placement) → SyncM Path
  | path, [] => pure path
  | path, (id, placement) :: rest => do
      let path ← placeFolder ctx id placement path
      placeUnknown ctx path rest

/-
  The path of a folder. One that this device does not know
  yet is created with its unknown parents.
-/
def folderPath
    (ctx : SyncContext)
    (folderId : FileId) : SyncM (Option Path) := do
  let d ← get
  match unknownAbove d maxFolderDepth [] (some folderId) with
  | none => return none
  | some (path, unknown) =>
      let path ← placeUnknown ctx path unknown
      return some path

def parentPath
    (ctx : SyncContext) :
    Option FileId → SyncM (Option Path)
  | none => pure (some [])
  | some folderId => folderPath ctx folderId

/- No path when the parent folder is gone. -/
def resolve
    (ctx : SyncContext)
    (placement : Placement) : SyncM (Option Path) := do
  let parent ← parentPath ctx placement.parentId
  return parent.map fun parent => joinPath parent placement.name

end FolderNodes

end RemoteChanges

end S4Drive

import S4Drive.Conflicts.Resolve
import S4Drive.Sync.RemoteFolders

/-
  Renames, moves, deletes, restores and new folders from
  other devices, one operation after the other. What an
  operation with new content does is a parameter. The list of
  conflicts in memory, the explanations of conflicts and the
  activity log are left out, as is what the deletion of the
  Notes root writes to the tables of Notes.

  Main declarations:
    * `createConflictCopy`, `localFileChangedSinceSync`
    * `restored`, `renamed`, `deleted`
    * `lastPlacement`, `places`, `processOps`
-/

open FileTree

------------------------------------------------------------
-- Conflict Copies
------------------------------------------------------------

namespace S4Drive

namespace RemoteChanges

open Recovery (Path displayPath)
open Conflicts (conflictFilename numberedName)

/- A name that is free in the folder. -/
def uniqueConflictPath
    (ctx : SyncContext)
    (d : SyncDevice)
    (dir : Path)
    (name : Text) : Path :=
  if d.existsAt (dir ++ [name]) then
    match (List.range' 2 9998).find? fun index =>
        !d.existsAt (dir ++ [numberedName name index]) with
    | some index => dir ++ [numberedName name index]
    | none => dir ++ [name ++ ' ' :: ctx.freshName]
  else
    dir ++ [name]

/- A copy gets the time at which it is made. -/
def copyFile
    (ctx : SyncContext)
    (source target : Path)
    (disk : LocalDisk) : Option LocalDisk :=
  match disk.nodeAt source with
  | some (.file body) =>
      some (disk.set target (.file ⟨body.bytes, ctx.now⟩))
  | _ => none

def conflictParentDir (originalName : Path) : CoreResult Path :=
  if escapes originalName.dropLast then
    .error (.protocol
      ("conflict path escapes sync folder: " ++
        String.ofList (['/'].intercalate originalName)))
  else
    .ok (normalParts originalName).dropLast

def createConflictCopy
    (ctx : SyncContext)
    (sourcePath originalName : Path) : SyncM Path := do
  let fileName := (normalParts originalName).getLastD
    (['/'].intercalate originalName)
  let name :=
    conflictFilename fileName ctx.deviceName ctx.nowText
  let dir ← ofResult (conflictParentDir originalName)
  onDisk "conflict dir" fun disk => disk.createDirAll dir
  let d ← get
  let conflictPath := uniqueConflictPath ctx d dir name
  if d.existsAt sourcePath then
    onDisk "conflict copy" (copyFile ctx sourcePath conflictPath)
  else
    onDisk "conflict placeholder" fun disk =>
      some (disk.set conflictPath (.file ⟨[], ctx.now⟩))
  return conflictPath

/- Keep a copy of what is at `sourcePath` and record it. -/
def raiseConflict
    (ctx : SyncContext)
    (fileId : FileId)
    (type : ConflictType)
    (sourcePath originalName localPath remotePath : Path)
    (localRevisionId : Option RevisionId) : SyncM Unit := do
  let conflictPath ←
    createConflictCopy ctx sourcePath originalName
  modify fun d =>
    SyncDevice.markFileConflict
      { d with
        conflicts :=
          ⟨fileId, type, localPath, remotePath, conflictPath,
            localRevisionId⟩ :: d.conflicts }
      fileId

/- Whether a file is other than the one that was synced. -/
def localFileChangedSinceSync
    (ctx : SyncContext)
    (d : SyncDevice)
    (path : Path)
    (storedHash : Option String) : CoreResult Bool :=
  if d.existsAt path then
    match storedHash, d.fileAt path with
    | none, _ => .ok true
    | some stored, some file =>
        .ok (!contentHashMatches (some stored)
          (ctx.blake3 file.bytes))
    | some _, none =>
        .error (.fileSystem ("open " ++ displayPath path))
  else
    .ok false

def fingerprintMatches
    (d : SyncDevice)
    (row : ObjectRow)
    (path : Path) : Bool :=
  match d.fileAt path with
  | some file =>
      file.bytes.length = row.size &&
        row.localMtime = some file.mtime
  | none => false

/- By size and mtime first, then by content. -/
def localFileEdited
    (ctx : SyncContext)
    (d : SyncDevice)
    (path : Path) : CoreResult Bool :=
  match d.fileSnapshotAt path with
  | none => .ok (d.existsAt path)
  | some row =>
      if fingerprintMatches d row path then
        .ok false
      else
        localFileChangedSinceSync ctx d path row.localHash

/- The first one for which the test holds or fails. -/
def anyChanged
    (test : ObjectRow → CoreResult Bool) :
    List ObjectRow → CoreResult Bool
  | [] => .ok false
  | row :: rest =>
      match test row with
      | .error e => .error e
      | .ok true => .ok true
      | .ok false => anyChanged test rest

def maxSyncScanFiles : Nat := 1000000

def hiddenPart (part : Text) : Bool :=
  part.head? = some '.' || part = "node_modules".toList

def ignoredNames : List String :=
  ["Thumbs.db", ".DS_Store", "desktop.ini"]

def ignoredEndings : List String :=
  ["~", ".tmp", ".swp", ".swx", ".goutputstream"]

/- `check_relative_path` without patterns. -/
def shouldIgnore (relative : Path) : Bool :=
  let name := relative.getLastD []
  relative.any hiddenPart || name.head? = some '.' ||
    ignoredEndings.any (fun ending =>
      ending.toList.isSuffixOf name) ||
    ignoredNames.any fun ignored => ignored.toList = name

/-
  The paths below a folder of the files in it; nothing in an
  ignored folder is looked at.
-/
def scanFolder (d : SyncDevice) (root : Path) : List Path :=
  ((d.disk.entries.filter fun e =>
    root.isPrefixOf e.1 && e.1 ≠ root &&
      (d.fileAt e.1).isSome).map
    fun e => e.1.drop root.length).dedup.filter
      (fun relative =>
        (relative.inits.tail.all fun above =>
          !shouldIgnore above)) |>.take maxSyncScanFiles

def hasLocalChanges
    (ctx : SyncContext)
    (d : SyncDevice)
    (folder : ObjectRow)
    (files : List ObjectRow) : CoreResult Bool :=
  match anyChanged
      (fun row =>
        if d.getObjectState row.fileId ≠ some .synced then
          .ok true
        else
          localFileEdited ctx d row.localPath)
      files with
  | .error e => .error e
  | .ok true => .ok true
  | .ok false =>
      -- A file the index does not know yet.
      .ok ((scanFolder d folder.localPath).any fun relative =>
        (d.fileSnapshotAt
          (folder.localPath ++ relative)).isNone)

def placeFolder
    (ctx : SyncContext)
    (folderId : FileId)
    (placement : Placement) : SyncM Unit := do
  let d ← get
  if d.bucket.isRemotelyDeleted folderId then
    return ()
  else
    match ← FolderNodes.parentPath ctx placement.parentId with
    | none => return ()
    | some parentPath => do
        let _ ← FolderNodes.placeFolder ctx folderId placement
          parentPath

def createdFolder
    (ctx : SyncContext)
    (folderId : FileId)
    (op : Operation) : SyncM Nat := do
  match Placement.ofOp op with
  | some placement => placeFolder ctx folderId placement
  | none => pure ()
  return 0

------------------------------------------------------------
-- Restores
------------------------------------------------------------

/-
  Put a restored file at a path. The restored bytes there are
  only indexed; other bytes are kept as a conflict copy.
-/
def bringBackFile
    (ctx : SyncContext)
    (remote : FileEntry)
    (localPath : Path) : SyncM Nat := do
  match remote.contentRef with
  | none => return 0
  | some content => do
      let d ← get
      let changed ←
        if (d.fileAt localPath).isSome then
          ofResult (localFileChangedSinceSync ctx d localPath
            (some content.hash))
        else
          pure true
      if changed then
        let there := d.existsAt localPath
        if there then
          raiseConflict ctx remote.fileId .createCreate localPath
            localPath localPath localPath none
        modify fun d =>
          (d.registerFileAtPathWithState remote localPath
            localPath .pendingDownload).enqueueDownload
              ctx.blake3 remote.fileId localPath
              content.storageKey
        return if there then 1 else 0
      else
        modify fun d =>
          d.registerFileAtPathWithState remote localPath
            localPath .synced
        return 0

/- An entry that the bucket has and that is not deleted. -/
def liveEntry
    (d : SyncDevice)
    (fileId : FileId) : Option FileEntry :=
  (d.bucket.entries fileId).filter fun entry =>
    entry.deletedAt.isNone

/- Bring one entry back at a path. -/
def bringBackEntry
    (ctx : SyncContext)
    (remote : FileEntry)
    (localPath : Path) : SyncM Unit := do
  if remote.entryType = .file then
    let _ ← bringBackFile ctx remote localPath
  else
    onDisk ("restore folder " ++ displayPath localPath)
      fun disk => disk.createDirAll localPath
    modify fun d =>
      d.registerFileAtPathWithState remote localPath localPath
        .synced

/-
  The files and folders that went with the folder return at
  the new place. What the bucket no longer has stays removed.
-/
def bringBackRows
    (ctx : SyncContext)
    (deletedAt restoredAt : Path) :
    List ObjectRow → SyncM Unit
  | [] => pure ()
  | row :: rest => do
      let d ← get
      match liveEntry d row.fileId with
      | none => pure ()
      | some remote =>
          bringBackEntry ctx remote
            (restoredAt ++
              row.localPath.drop deletedAt.length)
      bringBackRows ctx deletedAt restoredAt rest

def bringBackContents
    (ctx : SyncContext)
    (deletedAt restoredAt : Path) : SyncM Unit := do
  let d ← get
  bringBackRows ctx deletedAt restoredAt
    (d.removedRemotelyUnder deletedAt)

def restoreFolder
    (ctx : SyncContext)
    (folderId : FileId)
    (placement : Placement) : SyncM Unit := do
  let d ← get
  -- Its contents are still in the index under this path.
  let deletedAt := d.getLocalPath folderId
  placeFolder ctx folderId placement
  let d ← get
  match d.folderById folderId with
  | none => return ()
  | some folder => do
      if !d.existsAt folder.localPath then
        set
          { d with
            disk :=
              (d.disk.createDirAll folder.localPath).getD
                d.disk }
      modify fun d => d.markFileSynced folderId
      match deletedAt with
      | some deletedAt =>
          bringBackContents ctx deletedAt folder.localPath
      | none => pure ()

def restored
    (ctx : SyncContext)
    (fileId : FileId)
    (op : Operation) : SyncM Nat := do
  let d ← get
  match Placement.ofOp op, liveEntry d fileId with
  | some placement, some remote =>
      if remote.entryType = .file then
        match ← FolderNodes.resolve ctx placement with
        | none => return 0
        | some relative => do
            let localPath ← ofResult (safeJoinSyncPath relative)
            bringBackFile ctx remote localPath
      else
        restoreFolder ctx fileId placement
        return 0
  | _, _ => return 0

def moveLocalFile (oldPath newPath : Path) : SyncM Unit := do
  let d ← get
  if d.existsAt oldPath then
    onDisk "create rename parent"
      fun disk => disk.createDirAll newPath.dropLast
    onDisk "remote rename apply"
      fun disk => disk.renameTree oldPath newPath
  else
    pure ()

/- A download queued before must land at the new name. -/
def moveFile
    (fileId : FileId)
    (placement : Placement)
    (oldPath newPath newName : Path) : SyncM Unit := do
  moveLocalFile oldPath newPath
  modify fun d =>
    ((d.updateLocalPath fileId newPath newName).repointTransfers
      fileId newPath newName).setParent fileId placement.parentId

def renameFile
    (ctx : SyncContext)
    (fileId : FileId)
    (placement : Placement)
    (oldPath : Path) : SyncM Nat := do
  match ← FolderNodes.resolve ctx placement with
  | none => return 0
  | some newName => do
      let newPath ← ofResult (safeJoinSyncPath newName)
      let d ← get
      if d.existsAt newPath && oldPath ≠ newPath then
        if d.hasOpenConflict fileId .renameRename then
          return 0
        else
          raiseConflict ctx fileId .renameRename newPath newName
            oldPath newName none
          return 1
      else
        moveFile fileId placement oldPath newPath newName
        return 0

def renamed
    (ctx : SyncContext)
    (fileId : FileId)
    (op : Operation) : SyncM Nat := do
  match Placement.ofOp op with
  | none => return 0
  | some placement => do
      let d ← get
      if (d.folderById fileId).isSome then
        placeFolder ctx fileId placement
        return 0
      else
        match d.getLocalPath fileId with
        | none => return 0
        | some oldPath =>
            renameFile ctx fileId placement oldPath

def trashDir : Path :=
  [".s4drive".toList, "trash".toList, "local".toList]

def trashPath (path : Path) (fileId : FileId) : Path :=
  trashDir ++
    [(toString fileId).toList ++ '-' ::
      path.getLastD "deleted".toList]

def moveLocalFileToTrash
    (path : Path)
    (fileId : FileId) : SyncM Unit := do
  let d ← get
  if d.existsAt path then
    onDisk "create local trash"
      fun disk => disk.createDirAll trashDir
    onDisk
      ("move deleted file to local trash " ++
        displayPath path ++ " -> " ++
        displayPath (trashPath path fileId))
      fun disk => disk.renameTree path (trashPath path fileId)
  else
    pure ()

def deleteFile
    (ctx : SyncContext)
    (fileId : FileId) : SyncM Nat := do
  let d ← get
  match d.rowOf fileId with
  | none => return 0
  | some row => do
      let changed ← ofResult (localFileChangedSinceSync ctx d
        row.localPath row.localHash)
      if changed then
        if d.hasOpenConflict fileId .deleteEdit then
          return 0
        else
          raiseConflict ctx fileId .deleteEdit row.localPath
            row.localPath row.localPath row.localPath
            row.currentRevisionId
          return 1
      else
        moveLocalFileToTrash row.localPath fileId
        modify fun d => d.markFileDeleted fileId
        return 0

/- The synced ones among the files are deleted. -/
def deleteFiles
    (ctx : SyncContext) : List ObjectRow → SyncM Nat
  | [] => pure 0
  | row :: rest => do
      let d ← get
      let conflicts ←
        if d.getObjectState row.fileId = some .synced then
          deleteFile ctx row.fileId
        else
          pure 0
      let more ← deleteFiles ctx rest
      return conflicts + more

/-
  The whole folder goes to the local trash. When something
  inside changed here, only its unchanged files go.
-/
def deleteFolder
    (ctx : SyncContext)
    (folder : ObjectRow) : SyncM Nat := do
  let d ← get
  let files := d.liveFilesUnder folder.localPath
  let changed ← ofResult (hasLocalChanges ctx d folder files)
  if changed then
    let conflicts ← deleteFiles ctx files
    modify fun d =>
      d.markFoldersDeleted folder.localPath .deletedRemotely
    return conflicts
  else
    moveLocalFileToTrash folder.localPath folder.fileId
    modify fun d =>
      d.markSubtreeDeleted folder.localPath .deletedRemotely
    return 0

def deleted
    (ctx : SyncContext)
    (fileId : FileId) : SyncM Nat := do
  let d ← get
  if (d.getObjectState fileId).any IndexState.isDeleted then
    return 0
  else
    match d.folderById fileId with
    | some folder => deleteFolder ctx folder
    | none => deleteFile ctx fileId

def isPlacing (op : Operation) : Bool :=
  op.opType = .rename || op.opType = .move

/-
  The index of the last rename or move of a file, where the
  first operation has the index `index`.
-/
def lastPlacementFrom
    (fileId : FileId) : Nat → List Operation → Option Nat
  | _, [] => none
  | index, op :: ops =>
      (lastPlacementFrom fileId (index + 1) ops).or
        (if isPlacing op && op.targetFileId = some fileId then
          some index
        else
          none)

def lastPlacement
    (ops : List Operation)
    (fileId : FileId) : Option Nat :=
  lastPlacementFrom fileId 0 ops

/-
  Only the last rename or move of a file in the batch places
  it. An operation of this device is older than a change of
  Notes that is not committed yet.
-/
def places
    (ctx : SyncContext)
    (ops : List Operation)
    (index : Nat)
    (op : Operation)
    (fileId : FileId) : Bool :=
  if (lastPlacement ops fileId).any fun last => index < last then
    false
  else
    op.deviceId ≠ ctx.deviceId || !ctx.notesChangePending fileId

/-
  One operation. What `contents` does with one that brings
  new content may end the pass; then there is no result.
-/
def processOp
    (ctx : SyncContext)
    (contents : Operation → FileId → SyncM (Option Nat))
    (mayPlace : Operation → FileId → Bool)
    (op : Operation) : SyncM (Option Nat) :=
  match op.targetFileId with
  | none => pure (some 0)
  | some fileId =>
      match op.opType with
      | .uploadNewRevision => contents op fileId
      | .createFile => contents op fileId
      | .createFolder => some <$> createdFolder ctx fileId op
      | .rename =>
          if mayPlace op fileId then
            some <$> renamed ctx fileId op
          else
            pure (some 0)
      | .move =>
          if mayPlace op fileId then
            some <$> renamed ctx fileId op
          else
            pure (some 0)
      | .delete => some <$> deleted ctx fileId
      | .restore => some <$> restored ctx fileId op
      | _ => pure (some 0)

/- The operations of a batch; returns the conflicts found. -/
def processFrom
    (ctx : SyncContext)
    (contents : Operation → FileId → SyncM (Option Nat))
    (mayPlace : Nat → Operation → FileId → Bool) :
    Nat → List Operation → SyncM Nat
  | _, [] => pure 0
  | index, op :: ops => do
      match ← processOp ctx contents (mayPlace index) op with
      | none => return 0
      | some conflicts => do
          let more ←
            processFrom ctx contents mayPlace (index + 1) ops
          return conflicts + more

def processOps
    (ctx : SyncContext)
    (contents : Operation → FileId → SyncM (Option Nat))
    (ops : List Operation) : SyncM Nat :=
  processFrom ctx contents (places ctx ops) 0 ops

end RemoteChanges

end S4Drive

import S4Drive.Watch.Events
import S4Drive.Watch.IgnoreFilters

/-
  The cycle that handles a batch of watcher events: what each
  event does to the index while the disk stays as the changes
  have left it. Paths are taken from the sync folder on.

  The sync folder is available. Requests to the bucket that
  fail are left out, and uploads that are queued.

  Main declarations:
    * `CycleContext`
    * `deleted`, `renamed`, `fileEvent`
    * `dropDeletesInsideDeletedFolders`
    * `handle`, `handleBatch`
-/

------------------------------------------------------------
-- Context
------------------------------------------------------------

open FileTree

namespace S4Drive

namespace EventCycle

open Recovery (Path Bytes)
open RemoteChanges (ObjectRow SyncDevice)
open Watch (FsEvent)

/- A change of Notes that is not indexed yet. -/
structure PendingIntent where
  toRelative : Path
  fromRelative : Option Path
deriving DecidableEq

/- What is given with a cycle. -/
structure CycleContext where
  syncFolder : Text
  excludePatterns : List Text
  canonicalize : Text → Option Text
  blake3 : Bytes → String
  pendingIntents : List PendingIntent
  -- The id of a new row; the first argument is what is taken.
  newId : List FileId → Path → FileId
  newIdIsNew : ∀ taken path, newId taken path ∉ taken
  -- The file with the key and the content of an indexed row.
  foundByKey : ObjectRow → Path → Option Path

variable (ctx : CycleContext)

def notesRoot : Path := ["Notes".toList]

def notesMutationPending (path : Path) : Bool :=
  notesRoot.isPrefixOf path &&
    ctx.pendingIntents.any fun intent =>
      intent.toRelative.isPrefixOf path ||
        intent.fromRelative.any fun source =>
          source.isPrefixOf path

/- The live folder at a path; the root is no row. -/
def folderAt (d : SyncDevice) (path : Path) :
    Option ObjectRow :=
  if path = [] then
    none
  else
    d.objects.find? fun row =>
      row.s3Key = path && row.isLiveFolder

def protectsNotesRoot (d : SyncDevice) (path : Path) : Bool :=
  path = notesRoot &&
    (folderAt d notesRoot).any fun folder =>
      folder.parentId.isNone

/- Something is at the path, also a link that leads nowhere. -/
def occupied (d : SyncDevice) (path : Path) : Bool :=
  path = [] || (d.disk.nodeAt path).isSome

/- From before folders had nodes. -/
def isPlacedByPath (row : ObjectRow) : Bool :=
  row.parentId.isNone && row.currentRevisionId.isSome

/- One folder on the way, below the one found before. -/
def ensureOne
    (state : SyncDevice × Option FileId)
    (path : Path) : SyncDevice × Option FileId :=
  let (d, parentId) := state
  match folderAt d path with
  | some folder =>
      -- A folder that Notes has reserved is published now.
      (if folder.state = .pendingUpload then
        d.markFileSynced folder.fileId
      else
        d, some folder.fileId)
  | none =>
      let id := ctx.newId (d.objects.map ObjectRow.fileId) path
      (d.registerFolder id parentId path path, some id)

/- The node of a folder, with those of the folders above. -/
def ensureFolder (d : SyncDevice) (path : Path) :
    SyncDevice × Option FileId :=
  path.inits.tail.foldl (ensureOne ctx) (d, none)

def createdFolder (d : SyncDevice) (path : Path) : SyncDevice :=
  (ensureFolder ctx d path).1

def deleteFile (d : SyncDevice) (row : ObjectRow) : SyncDevice :=
  d.markFileDeleted row.fileId

def deleteFolder
    (d : SyncDevice)
    (folder : ObjectRow) : SyncDevice :=
  let byPath :=
    (d.liveFilesUnder folder.localPath).filter isPlacedByPath
  (byPath.foldl deleteFile d).markSubtreeDeleted
    folder.localPath .deletedLocally

/- The event is not acted on. -/
def leftAlone (d : SyncDevice) (path : Path) : Bool :=
  notesMutationPending ctx path || protectsNotesRoot d path ||
    occupied d path

def deleted (d : SyncDevice) (path : Path) : SyncDevice :=
  if leftAlone ctx d path then
    d
  else
    match d.fileSnapshotAt path with
    | some row =>
        if row.state.isDeleted then d else deleteFile d row
    | none =>
        match folderAt d path with
        | some folder => deleteFolder d folder
        | none =>
            (d.liveFilesUnder path).foldl deleteFile d

def renameFile
    (d : SyncDevice)
    (row : ObjectRow)
    (target : Path) : SyncDevice :=
  let (d, parentId) := ensureFolder ctx d target.dropLast
  ((d.updateLocalPath row.fileId target target).repointTransfers
    row.fileId target target).setParent row.fileId parentId

def attachFile (d : SyncDevice) (row : ObjectRow) : SyncDevice :=
  let (d, parentId) :=
    ensureFolder ctx d row.localPath.dropLast
  d.setParent row.fileId parentId

def attachFilesPlacedByPath
    (d : SyncDevice)
    (folder : ObjectRow) : SyncDevice :=
  ((d.liveFilesUnder folder.localPath).filter
    isPlacedByPath).foldl (attachFile ctx) d

def renameFolder
    (d : SyncDevice)
    (folder : ObjectRow)
    (target : Path) : SyncDevice :=
  let d := attachFilesPlacedByPath ctx d folder
  let (d, parentId) := ensureFolder ctx d target.dropLast
  (d.moveSubtree folder.localPath target folder.s3Key
    target).setParent folder.fileId parentId

/- A folder, or one that is new to this device. -/
def renamedFolder
    (d : SyncDevice)
    (folder : Option ObjectRow)
    (target : Path) : SyncDevice :=
  match folder with
  | some folder => renameFolder ctx d folder target
  | none =>
      if d.isDirAt target then createdFolder ctx d target else d

def renamed
    (d : SyncDevice)
    (source target : Path) : SyncDevice :=
  if notesMutationPending ctx source ||
      notesMutationPending ctx target ||
      protectsNotesRoot d source then
    d
  else
    match d.fileSnapshotAt source with
    | some row => renameFile ctx d row target
    | none =>
        match folderAt d source with
        | some folder => renamedFolder ctx d (some folder) target
        | none =>
            if d.liveFilesUnder source = [] then
              renamedFolder ctx d none target
            else
              -- Only files know the folder: it gets its node.
              let d := createdFolder ctx d source
              renamedFolder ctx d (folderAt d source) target

/- Has the file of a row been renamed before its event? -/
def movedAway
    (d : SyncDevice)
    (row : ObjectRow)
    (path : Path) : SyncDevice × Bool :=
  match (ctx.foundByKey row path).filter fun found =>
      (d.fileAt found).isSome with
  | none => (d, false)
  | some found =>
      let d := renamed ctx d path found
      (d, d.getLocalPath row.fileId = some found)

/- The row of a file whose content waits to be uploaded. -/
def pendingRow
    (row : ObjectRow)
    (path : Path)
    (size : Nat)
    (hash : String) : ObjectRow :=
  { row with
    localPath := path
    s3Key := path
    size := size
    state := .pendingUpload
    localHash := some (blake3LocalHash hash) }

def newRow (id : FileId) : ObjectRow where
  fileId := id
  localPath := []
  s3Key := []
  size := 0
  state := .pendingUpload
  isFolder := false
  parentId := none
  currentRevisionId := none
  localHash := none
  localMtime := none

/- A file without a row, unless Notes indexes it itself. -/
def registerNew
    (d : SyncDevice)
    (path : Path)
    (size : Nat)
    (hash : String) : SyncDevice :=
  if notesMutationPending ctx path ||
      (d.fileSnapshotAt path).isSome then
    d
  else
    let id := ctx.newId (d.objects.map ObjectRow.fileId) path
    d.putRow (pendingRow (newRow id) path size hash)

def registerChanged
    (d : SyncDevice)
    (known : Option ObjectRow)
    (path : Path)
    (size : Nat)
    (hash : String) : SyncDevice :=
  match known with
  | none => registerNew ctx d path size hash
  | some row =>
      let (d, moved) := movedAway ctx d row path
      if moved then
        registerNew ctx d path size hash
      else
        d.putRow (pendingRow row path size hash)

/- A file was created or changed; `created` tells which. -/
def fileEvent
    (created : Bool)
    (d : SyncDevice)
    (path : Path) : SyncDevice :=
  match d.fileAt path with
  | none => d
  | some file =>
      let known := d.fileSnapshotAt path
      let hash := ctx.blake3 file.bytes
      if created && known.any fun row =>
          row.state = .synced &&
            RemoteChanges.fingerprintMatches d row path then
        d
      else if known.any fun row =>
          row.size = file.bytes.length &&
            contentHashMatches row.localHash hash then
        d
      else
        registerChanged ctx d known path file.bytes.length hash

/- The filter of the cycle, on the whole path. -/
def ignored (path : Path) : Bool :=
  IgnoreFilters.shouldIgnoreSyncWithExcludes ctx.canonicalize
    (ctx.syncFolder ++ pathText path) ctx.excludePatterns

def handleEvent (d : SyncDevice) : FsEvent → SyncDevice
  | .created path =>
      if d.isDirAt path then
        createdFolder ctx d path
      else
        fileEvent ctx true d path
  | .modified path => fileEvent ctx false d path
  | .deleted path => deleted ctx d path
  | .renamed source target => renamed ctx d source target

def handle (d : SyncDevice) (event : FsEvent) : SyncDevice :=
  if ignored ctx event.path then d else handleEvent ctx d event

def handleBatch
    (d : SyncDevice)
    (events : List FsEvent) : SyncDevice :=
  events.foldl (handle ctx) d

/- The paths whose deletes are in the batch. -/
def deletedPaths (events : List FsEvent) : List Path :=
  events.filterMap fun
    | .deleted path => some path
    | _ => none

/- One of the folders around a path is in a list. -/
def isInside (paths : List Path) (path : Path) : Bool :=
  path.inits.dropLast.any fun ancestor => ancestor ∈ paths

def isKept (paths : List Path) : FsEvent → Bool
  | .deleted path => !isInside paths path
  | _ => true

def dropDeletesInsideDeletedFolders
    (events : List FsEvent) : List FsEvent :=
  events.filter (isKept (deletedPaths events))

/- The indexed files and folders marked as deleted. -/
def deletedIds (d : SyncDevice) : List FileId :=
  (d.objects.filter fun row =>
    row.state = .deletedLocally).map ObjectRow.fileId

end EventCycle

end S4Drive

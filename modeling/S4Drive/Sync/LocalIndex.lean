import S4Drive.Sync.FolderRecovery
import S4Drive.Sync.LocalChanges

/-
  The index of the files on the disk of one device: a row
  records the size and mtime that a file had beside the hash
  of its content, so that a scan can skip the file while
  both are the same. The engine reads a file, records it and
  takes its mtime in separate steps, while the user writes
  files at any time.

  What the bucket, the transfer queue and the journal of
  Notes answer is left to the environment.

  Main declarations:
    * `LocalFile`, `IndexRow`, `IndexWorld`
    * `IndexUpdate.apply`
    * `queueLocalUpload`, `processUpload`,
      `processDownload`, `queueRemoteTreeEntry`
    * `indexSystem`
-/

------------------------------------------------------------
-- Files and Rows
------------------------------------------------------------

namespace S4Drive

open Concurrency

/-
  A regular file: its bytes, its mtime in milliseconds and
  the key that a rename keeps.
-/
structure LocalFile where
  bytes : List UInt8
  mtime : Nat
  key : String
deriving DecidableEq

inductive IndexState where
  | synced
  | modifiedLocally
  | modifiedRemotely
  | pendingUpload
  | pendingDownload
  | conflicted
  | deletedLocally
  | deletedRemotely
  | ignored
deriving DecidableEq

def IndexState.isDeleted : IndexState → Bool
  | deletedLocally => true
  | deletedRemotely => true
  | _ => false

/- A row of the table `objects` that is no folder. -/
structure IndexRow where
  fileId : FileId
  localPath : LocalPath
  size : Nat
  state : IndexState
  localHash : Option String
  localMtime : Option Nat
  localKey : Option String
deriving DecidableEq

/- What a caller asks to have indexed of a file. -/
structure IndexEntry where
  fileId : FileId
  size : Nat
  contentHash : Option String
deriving DecidableEq

/- An upload or download, bound to a content by Notes. -/
structure TransferJob where
  fileId : FileId
  localPath : LocalPath
  s3Key : String
  expectedContentHash : Option String
deriving DecidableEq

/-
  The disk and the index, newest rows first. The clock is
  the newest mtime that a file was given.
-/
structure IndexWorld where
  disk : List (LocalPath × LocalFile)
  objects : List IndexRow
  clock : Nat
deriving DecidableEq

namespace IndexWorld

def fileAt
    (w : IndexWorld)
    (path : LocalPath) : Option LocalFile :=
  (w.disk.find? fun x => x.1 = path).map Prod.snd

def mtimeAt
    (w : IndexWorld)
    (path : LocalPath) : Option Nat :=
  (w.fileAt path).map LocalFile.mtime

/- Live rows of a path come first, then the newest. -/
def rowAt
    (w : IndexWorld)
    (path : LocalPath) : Option IndexRow :=
  let rows := w.objects.filter fun row => row.localPath = path
  (rows.find? fun row => !row.state.isDeleted).or rows.head?

def rowOf
    (w : IndexWorld)
    (fileId : FileId) : Option IndexRow :=
  w.objects.find? fun row => row.fileId = fileId

def removeFile
    (w : IndexWorld)
    (path : LocalPath) : IndexWorld :=
  { w with disk := w.disk.filter fun x => x.1 ≠ path }

/- Put a file at a path. -/
def putFile
    (w : IndexWorld)
    (path : LocalPath)
    (file : LocalFile) : IndexWorld :=
  { w with disk := (path, file) :: (w.removeFile path).disk }

/- Write a file; its mtime is one that no file had before. -/
def writeFile
    (w : IndexWorld)
    (path : LocalPath)
    (bytes : List UInt8)
    (key : String) : IndexWorld :=
  { w.putFile path ⟨bytes, w.clock + 1, key⟩ with
    clock := w.clock + 1 }

/- Change the rows of a kind. -/
def mapRows
    (w : IndexWorld)
    (p : IndexRow → Bool)
    (f : IndexRow → IndexRow) : IndexWorld :=
  { w with
    objects :=
      w.objects.map fun row => if p row then f row else row }

/-
  `INSERT OR REPLACE`. The mtime is that of the file now; the
  connection stays locked while it is read, so only the disk
  may change before the row is stored.
-/
def writeFileIndex
    (w : IndexWorld)
    (entry : IndexEntry)
    (path : LocalPath)
    (state : IndexState) : IndexWorld :=
  { w with
    objects :=
      { fileId := entry.fileId
        localPath := path
        size := entry.size
        state := state
        localHash := entry.contentHash
        localMtime := w.mtimeAt path
        localKey := (w.fileAt path).map LocalFile.key } ::
      w.objects.filter fun row => row.fileId ≠ entry.fileId }

/- Where a finished upload is indexed. -/
def uploadPlace
    (w : IndexWorld)
    (job : TransferJob) : LocalPath :=
  ((w.rowOf job.fileId).map IndexRow.localPath).getD
    job.localPath

end IndexWorld

/-
  The statements that write rows. The last five are those of
  a rename, of the Notes service and of a removal.
-/
inductive IndexUpdate where
  | register
      (entry : IndexEntry)
      (path : LocalPath)
      (state : IndexState)
  | finishUpload
      (job : TransferJob)
      (entry : IndexEntry)
      (contentMatches : Bool)
  | setState (fileId : FileId) (state : IndexState)
  | setContent (fileId : FileId) (size : Nat) (hash : String)
  | setPlace (fileId : FileId) (path : LocalPath)
  | insertIdentity
      (entry : IndexEntry)
      (path : LocalPath)
      (state : IndexState)
  | rebuildIdentity
      (entry : IndexEntry)
      (path : LocalPath)
      (state : IndexState)
  | replaceIdentity
      (entry : IndexEntry)
      (path : LocalPath)
      (state : IndexState)
  | remove (fileId : FileId)
deriving DecidableEq

/-
  Whether an upload may be recorded. A job without a binding
  always may; `binding` is what the tables of Notes say.
-/
def uploadIsCurrent
    (job : TransferJob)
    (contentMatches binding : Bool) : Bool :=
  match job.expectedContentHash with
  | none => true
  | some _ => contentMatches && binding

/- An ignored row stays ignored unless it is deleted. -/
def replacedState
    (old new : IndexState) : IndexState :=
  if old = .ignored ∧ new ≠ .deletedLocally then old else new

namespace IndexUpdate

def apply
    (binding : Bool)
    (w : IndexWorld) : IndexUpdate → IndexWorld
  | register entry path state =>
      w.writeFileIndex entry path state
  | finishUpload job entry contentMatches =>
      if uploadIsCurrent job contentMatches binding then
        w.writeFileIndex entry (w.uploadPlace job) .synced
      else
        w
  | setState fileId state =>
      w.mapRows (fun row => row.fileId = fileId)
        fun row => { row with state := state }
  | setContent fileId size hash =>
      w.mapRows (fun row => row.fileId = fileId) fun row =>
        { row with
          state := .synced
          size := size
          localHash := some hash }
  | setPlace fileId path =>
      w.mapRows (fun row => row.fileId = fileId)
        fun row => { row with localPath := path }
  | insertIdentity entry path state =>
      match w.rowOf entry.fileId with
      | some _ => w
      | none =>
          { w with
            objects :=
              { fileId := entry.fileId
                localPath := path
                size := entry.size
                state := state
                localHash := entry.contentHash
                localMtime := none
                localKey := none } :: w.objects }
  | rebuildIdentity entry path state =>
      w.mapRows (fun row => row.fileId = entry.fileId)
        fun row =>
          { row with
            localPath := path
            size := entry.size
            state := state
            localHash := entry.contentHash }
  | replaceIdentity entry path state =>
      w.mapRows (fun row => row.fileId = entry.fileId)
        fun row =>
          { row with
            localPath := path
            size := entry.size
            state := replacedState row.state state }
  | remove fileId =>
      { w with
        objects :=
          w.objects.filter fun row => row.fileId ≠ fileId }

end IndexUpdate

/- `update_local_mtime_by_path`, after it has read the file. -/
def IndexWorld.setMtime
    (w : IndexWorld)
    (path : LocalPath)
    (mtime : Option Nat)
    (key : Option String) : IndexWorld :=
  w.mapRows (fun row => row.localPath = path)
    fun row => { row with localMtime := mtime, localKey := key }

structure FileMetadata where
  size : Nat
  mtime : Nat
  key : String
deriving DecidableEq

def LocalFile.metadata (file : LocalFile) : FileMetadata where
  size := file.bytes.length
  mtime := file.mtime
  key := file.key

/-
  `confirm` is any check or effect outside the disk and the
  index; `relocation` looks for the place to which the file
  of a row was moved.
-/
inductive IndexReq where
  | metadata (path : LocalPath)
  | hashFile (path : LocalPath)
  | rowAt (path : LocalPath)
  | rowOf (fileId : FileId)
  | update (change : IndexUpdate)
  | setMtime
      (path : LocalPath)
      (mtime : Option Nat)
      (key : Option String)
  | publish (path : LocalPath) (bytes : List UInt8)
  | copy (source target : LocalPath)
  | rename (source target : LocalPath)
  | fetch (s3Key : String)
  | relocation (path : LocalPath)
  | newId
  | confirm
deriving DecidableEq

abbrev IndexAnswer : IndexReq → Type
  | .metadata _ => Option FileMetadata
  | .hashFile _ => String × Nat
  | .rowAt _ => Option IndexRow
  | .rowOf _ => Option IndexRow
  | .update _ => Unit
  | .setMtime _ _ _ => Unit
  | .publish _ _ => Bool
  | .copy _ _ => Unit
  | .rename _ _ => Unit
  | .fetch _ => List UInt8
  | .relocation _ => Option (FileId × LocalPath)
  | .newId => FileId
  | .confirm => Bool

abbrev IndexResp (r : IndexReq) : Type :=
  CoreResult (IndexAnswer r)

/- How a request ends. -/
inductive IndexChoice where
  | done
  | fail (error : CoreError)
  | answer (value : Bool)
  | written (key : String)
  | fetched (bytes : List UInt8)
  | relocated (place : Option (FileId × LocalPath))
  | fresh (fileId : FileId)

/- A request that does not fail. -/
def serveFound
    (blake3 : List UInt8 → String)
    (r : IndexReq)
    (choice : IndexChoice)
    (w : IndexWorld) : Option (IndexResp r × IndexWorld) :=
  match r, choice with
  | .metadata path, .done =>
      some (.ok ((w.fileAt path).map LocalFile.metadata), w)
  | .hashFile path, .done =>
      match w.fileAt path with
      | some file =>
          some (.ok (blake3 file.bytes, file.bytes.length), w)
      | none => none
  | .rowAt path, .done => some (.ok (w.rowAt path), w)
  | .rowOf fileId, .done => some (.ok (w.rowOf fileId), w)
  | .update change, .answer binding =>
      some (.ok (), change.apply binding w)
  | .setMtime path mtime key, .done =>
      some (.ok (), w.setMtime path mtime key)
  | .publish path bytes, .written key =>
      some (.ok true, w.writeFile path bytes key)
  | .publish _ _, .answer false => some (.ok false, w)
  | .copy source target, .written key =>
      match w.fileAt source with
      | some file =>
          some (.ok (), w.writeFile target file.bytes key)
      | none => none
  | .rename source target, .done =>
      match w.fileAt source with
      | some file =>
          some (.ok (),
            (w.removeFile source).putFile target file)
      | none => none
  | .fetch _, .fetched bytes => some (.ok bytes, w)
  | .relocation _, .relocated place => some (.ok place, w)
  | .newId, .fresh fileId => some (.ok fileId, w)
  | .confirm, .answer value => some (.ok value, w)
  | _, _ => none

/- Every request may fail; then it has changed nothing. -/
def serveIndex
    (blake3 : List UInt8 → String)
    (r : IndexReq)
    (choice : IndexChoice)
    (w : IndexWorld) : Option (IndexResp r × IndexWorld) :=
  match choice with
  | .fail error => some (.error error, w)
  | choice => serveFound blake3 r choice w

def indexMachine
    (blake3 : List UInt8 → String) :
    Machine IndexReq IndexResp IndexWorld Tid
      IndexChoice where
  serve := fun _ => serveIndex blake3

abbrev IndexM :=
  Script IndexReq IndexResp CoreError Unit

def IndexM.ask (r : IndexReq) : IndexM (IndexAnswer r) :=
  Script.call r fun answer => answer

open IndexM

------------------------------------------------------------
-- Scans and Events
------------------------------------------------------------

/- Record the mtime that the file of a path has now. -/
def updateLocalMtimeByPath
    (path : LocalPath) : IndexM Unit := do
  let found ← ask (.metadata path)
  ask (.setMtime path (found.map FileMetadata.mtime)
    (found.map FileMetadata.key))

/- Whether a file still has the size and mtime of its row. -/
def fingerprintMatches
    (row : IndexRow)
    (found : FileMetadata) : Bool :=
  found.size = row.size && row.localMtime = some found.mtime

/- A file of the index was moved from or to this path. -/
def followMove (path : LocalPath) : IndexM Bool := do
  match ← ask (.relocation path) with
  | none => return false
  | some (fileId, place) => do
      ask (.update (.setPlace fileId place))
      return true

def registerPending
    (entry : IndexEntry)
    (path : LocalPath) : IndexM Unit := do
  ask (.update (.register entry path .pendingUpload))
  let _ ← ask .confirm

/- A file without a row, unless Notes is handling it. -/
def registerNew
    (path : LocalPath)
    (size : Nat)
    (hash : String) : IndexM Unit := do
  if ← ask .confirm then
    return ()
  else
    let fileId ← ask .newId
    registerPending
      ⟨fileId, size, some (blake3LocalHash hash)⟩ path

/- Index new content of a path and queue its upload. -/
def queueChanged
    (scanning : Bool)
    (path : LocalPath)
    (size : Nat)
    (hash : String)
    (existing : Option IndexRow) : IndexM Unit := do
  match existing with
  | some row =>
      if ← followMove path then
        registerNew path size hash
      else
        registerPending
          ⟨row.fileId, size, some (blake3LocalHash hash)⟩ path
  | none =>
      if !scanning then
        registerNew path size hash
      else if ← followMove path then
        return ()
      else
        registerNew path size hash

/- Hash a file that may have changed. -/
def queueHashed
    (scanning : Bool)
    (path : LocalPath) : IndexM Unit := do
  match ← Script.attempt (ask (.hashFile path)) with
  | .error _ => return ()
  | .ok (hash, size) => do
      let existing ← ask (.rowAt path)
      let same := existing.any fun row =>
        row.size = size && contentHashMatches row.localHash hash
      if !same then
        queueChanged scanning path size hash existing
      else if scanning then
        updateLocalMtimeByPath path
      else
        return ()

/- Rows from before file keys existed get theirs once. -/
def refreshKey
    (path : LocalPath)
    (row : IndexRow) : IndexM Unit :=
  if row.localKey.isNone then
    updateLocalMtimeByPath path
  else
    pure ()

/- One file of `queue_local_uploads_from_scan`. -/
def queueLocalUpload (path : LocalPath) : IndexM Unit := do
  match ← ask (.metadata path) with
  | none => return ()
  | some found => do
      match ← ask (.rowAt path) with
      | none => queueHashed true path
      | some row =>
          if fingerprintMatches row found &&
              (row.state = .synced ||
                row.state = .pendingUpload) then
            refreshKey path row
          else
            queueHashed true path

/- A created file whose row is still up to date. -/
def alreadyIndexed (path : LocalPath) : IndexM Bool := do
  match ← ask (.rowAt path) with
  | none => return false
  | some row =>
      if row.state = .synced then
        let found ← ask (.metadata path)
        return found.any (fingerprintMatches row)
      else
        return false

/- A created or modified file that the watcher reports. -/
def fileEvent
    (created : Bool)
    (path : LocalPath) : IndexM Unit := do
  match ← ask (.metadata path) with
  | none => return ()
  | some _ =>
      if !created then
        queueHashed false path
      else if ← alreadyIndexed path then
        return ()
      else
        queueHashed false path

def uploadBindingMatches
    (job : TransferJob) : IndexM Bool :=
  match job.expectedContentHash with
  | none => pure true
  | some _ => ask .confirm

def uploadGenerationMatches
    (job : TransferJob) : IndexM Bool :=
  match job.expectedContentHash with
  | none => pure true
  | some expected => do
      match ← ask (.metadata job.localPath) with
      | none => return false
      | some _ => do
          let (current, _) ← ask (.hashFile job.localPath)
          return contentHashMatches (some expected) current

/- The bytes are not those that the job is bound to. -/
def staleContent
    (job : TransferJob)
    (hash : String) : Bool :=
  job.expectedContentHash.any fun expected =>
    !contentHashMatches (some expected) hash

/-
  Store the blob, commit the operation and record the
  upload. A job without a binding is recorded whatever the
  file holds by then.
-/
def uploadContent (job : TransferJob) : IndexM Unit := do
  match ← Script.attempt (ask (.hashFile job.localPath)) with
  | .error _ => return ()
  | .ok (hash, size) =>
      if staleContent job hash then
        return ()
      else if ← ask .confirm then
        let contentMatches ← uploadGenerationMatches job
        ask (.update (.finishUpload job
          ⟨job.fileId, size, some (blake3LocalHash hash)⟩
          contentMatches))
      else
        return ()

/- The checks before an upload starts. -/
def uploadFile (job : TransferJob) : IndexM Unit := do
  match ← ask (.metadata job.localPath) with
  | none => return ()
  | some _ =>
      if job.expectedContentHash.isSome then
        uploadContent job
      else if ← followMove job.localPath then
        return ()
      else
        uploadContent job

/- One job of `process_upload_queue`. -/
def processUpload (job : TransferJob) : IndexM Unit := do
  let _ ← ask .confirm
  if ← uploadBindingMatches job then
    if ← uploadGenerationMatches job then
      uploadFile job
    else
      return ()
  else
    return ()

/-
  Publish over the local content that the download was
  decided against; other bytes are first copied aside.
-/
def publishKeepingLocal
    (path copyPath : LocalPath)
    (bytes : List UInt8) : IndexM Unit := do
  if ← ask (.publish path bytes) then
    return ()
  else
    match ← ask (.metadata path) with
    | none => publishAgain
    | some _ => do
        ask (.copy path copyPath)
        publishAgain
where
  publishAgain : IndexM Unit := do
    if ← ask (.publish path bytes) then
      return ()
    else
      Script.throw (.conflict "stale write")

def downloadJob
    (job : TransferJob)
    (copyPath : LocalPath) : IndexM Nat := do
  let _ ← ask .confirm
  let bytes ← ask (.fetch job.s3Key)
  let _ ← ask .confirm
  publishKeepingLocal job.localPath copyPath bytes
  return bytes.length

def hashFromBlobKey (s3Key : String) : Option String :=
  (s3Key.splitOn "/").getLast?.filter fun hash => hash ≠ ""

def markDownloaded
    (job : TransferJob)
    (size : Nat) : IndexM Unit :=
  match hashFromBlobKey job.s3Key with
  | some hash =>
      ask (.update (.setContent job.fileId size
        (blake3LocalHash hash)))
  | none => ask (.update (.setState job.fileId .synced))

/- One job of `process_download_queue`. -/
def processDownload
    (job : TransferJob)
    (copyPath : LocalPath) : IndexM Unit := do
  let _ ← ask .confirm
  match ← Script.attempt (downloadJob job copyPath) with
  | .error _ => return ()
  | .ok size => do
      markDownloaded job size
      updateLocalMtimeByPath job.localPath

def queueDownload
    (entry : IndexEntry)
    (path : LocalPath) : IndexM Unit := do
  let _ ← ask .confirm
  ask (.update (.register entry path .pendingDownload))

def localFileChangedSinceSync
    (path : LocalPath)
    (storedHash : Option String) : IndexM Bool := do
  match ← ask (.metadata path) with
  | none => return false
  | some _ =>
      match storedHash with
      | none => return true
      | some stored => do
          let (current, _) ← ask (.hashFile path)
          return !contentHashMatches (some stored) current

/- Move the file of a row to its new place. -/
def moveInto (old new : LocalPath) : IndexM Bool := do
  match ← ask (.metadata old) with
  | none => return true
  | some _ => do
      match ← ask (.metadata new) with
      | none => do
          ask (.rename old new)
          return true
      | some _ => return false

/-
  A row whose content is the remote one is registered again
  without a look at the file.
-/
def placeRemoteEntry
    (entry : IndexEntry)
    (path : LocalPath)
    (sameContent : Bool) : IndexM Unit :=
  if sameContent then
    ask (.update (.register entry path .synced))
  else
    queueDownload entry path

/- Whether other content than the remote one was edited. -/
def changedContent
    (row : IndexRow)
    (sameContent : Bool) : IndexM Bool :=
  if sameContent then
    pure false
  else
    localFileChangedSinceSync row.localPath row.localHash

def reconcileEntry
    (entry : IndexEntry)
    (contentHash : String)
    (path : LocalPath)
    (row : IndexRow) : IndexM Unit := do
  let sameContent :=
    contentHashMatches row.localHash contentHash
  if ← changedContent row sameContent then
    return ()
  else if row.localPath = path then
    placeRemoteEntry entry path sameContent
  else if ← moveInto row.localPath path then
    placeRemoteEntry entry path sameContent
  else
    return ()

/- A live file of the remote tree, with its place resolved. -/
def queueRemoteTreeEntry
    (entry : IndexEntry)
    (contentHash : String)
    (path : LocalPath)
    (reconcileExisting : Bool) : IndexM Unit := do
  match ← ask (.rowOf entry.fileId) with
  | none => queueDownload entry path
  | some row =>
      if reconcileExisting then
        reconcileEntry entry contentHash path row
      else
        return ()

/-
  What the engine works on. Every other piece of its code
  writes the index through single statements.
-/
inductive IndexCall where
  | scan (path : LocalPath)
  | event (created : Bool) (path : LocalPath)
  | upload (job : TransferJob)
  | download (job : TransferJob) (copyPath : LocalPath)
  | remoteEntry
      (entry : IndexEntry)
      (contentHash : String)
      (path : LocalPath)
      (reconcileExisting : Bool)
  | refreshMtime (path : LocalPath)
  | update (change : IndexUpdate)

def IndexCall.run : IndexCall → IndexM Unit
  | scan path => queueLocalUpload path
  | event created path => fileEvent created path
  | upload job => processUpload job
  | download job copyPath => processDownload job copyPath
  | remoteEntry entry contentHash path reconcileExisting =>
      queueRemoteTreeEntry entry contentHash path
        reconcileExisting
  | refreshMtime path => updateLocalMtimeByPath path
  | update change => ask (.update change)

/- What the user does to the files. -/
inductive UserAction where
  | write
      (path : LocalPath)
      (bytes : List UInt8)
      (key : String)
  | remove (path : LocalPath)
  | move (source target : LocalPath)

def UserAction.apply
    (w : IndexWorld) : UserAction → Option IndexWorld
  | write path bytes key => some (w.writeFile path bytes key)
  | remove path => some (w.removeFile path)
  | move source target =>
      (w.fileAt source).map fun file =>
        (w.removeFile source).putFile target file

/- Any number of engine threads, and the user. -/
def indexSystem
    (blake3 : List UInt8 → String) :
    ThreadSystem IndexReq IndexResp IndexWorld Tid
      IndexChoice IndexCall (CoreResult Unit) Unit
      UserAction where
  toMachine := indexMachine blake3
  body := fun c v => c.run v
  boot := ()
  begin := fun _ _ _ w => some w
  finish := fun _ _ _ _ _ w => w
  halt := fun _ w => w
  env := fun action w => action.apply w

end S4Drive

import S4Drive.Metadata.Blobs
import S4Drive.Recovery.Output

/-
  The command that resolves an open conflict for the version
  that the user has chosen. It preserves the local file as a
  conflict copy, replaces or removes it, and commits what is
  kept. Every request to the disk, the index and the server
  is a step that may fail. One command runs at a time, on a
  disk without links whose metadata can be read; the paths
  have no `..`, and relative ones start at the top.

  Main declarations:
    * `ConflictRecord`, `Desktop`
    * `DeskReq`, `serveDesk`
    * `ensureLocalConflictCopy`, `finishRestoreReplace`
    * `resolveConflict`
-/

------------------------------------------------------------
-- The Desktop
------------------------------------------------------------

namespace S4Drive

open Concurrency FileTree

namespace Conflicts

open Recovery (Path Bytes Disk isDir fileAt canWrite
  createDirAll displayPath splitExtension)

/- The paths as texts; an empty one is not known. -/
structure ConflictRecord where
  conflictId : Text
  fileId : FileId
  localPath : Text
  remotePath : Text
  siblingPath : Text
  conflictType : String
deriving DecidableEq

inductive Resolution where
  | keepLocal
  | keepRemote
  | keepBoth
deriving DecidableEq

/- What the index says of a file. -/
structure IndexRow where
  localPath : Text
  s3Key : Text
  state : String
  currentRevisionId : Option RevisionId
deriving DecidableEq

/-
  What the command works on. Jobs, revision rows and mtimes
  of the index are written only, and left out.
-/
structure Desktop where
  disk : Disk
  conflicts : List ConflictRecord
  index : FileId → Option IndexRow
  tree : FileId → Option FileEntry
  blobs : String → Option Bytes
  -- The contents of the committed revisions.
  committed : List ContentRef
  -- History only: the conflict copies that were made.
  copies : List Path

/-
  An error is told from others by its text alone, in which
  only a path may be any text.
-/
inductive DeskError where
  | remoteDeleted
  | message (text : String)
  | about (text : String) (p : Path)
deriving DecidableEq

namespace DeskError

/- Whether the text has `remote version is deleted` in it. -/
def saysDeleted : DeskError → Bool
  | .remoteDeleted => true
  | .message _ => false
  | .about _ p =>
      "remote version is deleted".toList <:+: (displayPath p).toList

end DeskError

inductive DeskReq where
  -- `prepare_sync_folder`, with the folder itself.
  | prepareSyncFolder (folder : Path)
  | isDir (p : Path)
  | exists (p : Path)
  | tryExists (p : Path)
  -- Whether the file is a folder, by its metadata.
  | metadata (p : Path)
  | createDirAll (p : Path)
  | copy (source target : Path)
  | copyConflict (source target : Path)
  | writeEmpty (p : Path)
  | rename (source target : Path)
  | removeFile (p : Path)
  -- A name with a new UUID between two texts.
  | newName (parent : Path) (before after : Text)
  | now
  | openConflicts
  | indexRow (fileId : FileId)
  | getEntry (fileId : FileId)
  | download (key : String) (target : Path)
  | storeFile (p : Path)
  | placementFor (remotePath : Text)
  | newRevision
  | commit
      (fileId : FileId)
      (opType : OpType)
      (revisionId : RevisionId)
      (contentRef : ContentRef)
      (placement : Placement)
  | upsertEntry (entry : FileEntry)
  | registerFile (fileId : FileId) (row : IndexRow)
  | markFileDeleted (fileId : FileId)
  -- A write of a job, a revision row or an mtime.
  | indexWrite
  | hashFile (p : Path)
  | resolve (conflictId : Text)

abbrev DeskResp : DeskReq → Type
  | .prepareSyncFolder _ => Bool
  | .isDir _ => Bool
  | .exists _ => Bool
  | .tryExists _ => Option Bool
  | .metadata _ => Option Bool
  | .createDirAll _ => Bool
  | .copy _ _ => Bool
  | .copyConflict _ _ => Bool
  | .writeEmpty _ => Bool
  | .rename _ _ => Bool
  | .removeFile _ => Bool
  | .newName _ _ _ => Path
  | .now => Text × Timestamp
  | .openConflicts => Option (List ConflictRecord)
  | .indexRow _ => Option IndexRow
  | .getEntry _ => Except DeskError FileEntry
  | .download _ _ => Except DeskError Nat
  | .storeFile _ => Option ContentRef
  | .placementFor _ => Option Placement
  | .newRevision => RevisionId
  | .commit _ _ _ _ _ => Bool
  | .upsertEntry _ => Bool
  | .registerFile _ _ => Bool
  | .markFileDeleted _ => Bool
  | .indexWrite => Bool
  | .hashFile _ => Option Nat
  | .resolve _ => Bool

/- What the environment decides. -/
inductive DeskChoice where
  | ok
  | failed
  -- It fails when a part of its effect is there.
  | partly (bytes : Bytes)
  | uuid (text : Text)
  | time (text : Text) (timestamp : Timestamp)
  | placement (placement : Placement)
  | revision (id : RevisionId)

------------------------------------------------------------
-- The Disk
------------------------------------------------------------

/- `Path::exists`. -/
def pathExists (disk : Disk) (p : Path) : Bool :=
  p = [] || (disk.nodeAt p).isSome

/- Write a file in place of what it had. -/
def writeFile
    (disk : Disk)
    (p : Path)
    (body : Bytes) : Option Disk :=
  if canWrite disk p && isDir disk p.dropLast then
    some (disk.set p (.file body))
  else
    none

/- `fs::rename` of a file; an existing file is replaced. -/
def renameFile
    (disk : Disk)
    (source target : Path) : Option Disk :=
  match fileAt disk source with
  | none => none
  | some body => writeFile (disk.erase source) target body

def removeFile (disk : Disk) (p : Path) : Option Disk :=
  (fileAt disk p).map fun _ => disk.erase p

/- `fs::copy` from one file to another. -/
def copyFileTo
    (disk : Disk)
    (source target : Path) : Option Disk :=
  match fileAt disk source with
  | none => none
  | some body =>
      writeFile disk target
        (Recovery.copiedBytes source target body)

namespace Desktop

/- A step on the disk, which reports whether it was made. -/
def onDisk
    (w : Desktop)
    (disk : Option Disk) : Bool × Desktop :=
  match disk with
  | some disk => (true, { w with disk := disk })
  | none => (false, w)

/- The step has failed, and this is what it has left. -/
def left
    (w : Desktop)
    (disk : Option Disk) : Bool × Desktop :=
  (false, (w.onDisk disk).2)

end Desktop

/- The reference of a content that is uploaded here. -/
def storedRef
    (blake3 : Bytes → Bytes)
    (bytes : Bytes) : ContentRef :=
  BlobStore.contentRefOf (BlobStore.hashOf blake3 bytes)
    "application/octet-stream"

def serveDesk
    (blake3 : Bytes → Bytes)
    (r : DeskReq)
    (k : DeskChoice)
    (w : Desktop) : Option (DeskResp r × Desktop) :=
  match r, k with
  | .prepareSyncFolder folder, .ok =>
      some (w.onDisk (createDirAll w.disk folder))
  | .prepareSyncFolder _, .failed => some (false, w)
  | .isDir p, .ok => some (isDir w.disk p, w)
  | .exists p, .ok => some (pathExists w.disk p, w)
  | .tryExists p, .ok => some (some (pathExists w.disk p), w)
  | .tryExists _, .failed => some (none, w)
  | .metadata p, .ok =>
      some (if pathExists w.disk p then some (isDir w.disk p)
        else none, w)
  | .metadata _, .failed => some (none, w)
  | .createDirAll p, .ok =>
      some (w.onDisk (createDirAll w.disk p))
  | .createDirAll _, .failed => some (false, w)
  | .copy source target, .ok =>
      some (w.onDisk (copyFileTo w.disk source target))
  | .copy _ target, .partly bytes =>
      some (w.left (writeFile w.disk target bytes))
  | .copy _ _, .failed => some (false, w)
  | .copyConflict source target, .ok =>
      match copyFileTo w.disk source target with
      | some disk =>
          some (true,
            { w with disk := disk, copies := target :: w.copies })
      | none => some (false, w)
  | .copyConflict _ target, .partly bytes =>
      some (w.left (writeFile w.disk target bytes))
  | .copyConflict _ _, .failed => some (false, w)
  | .writeEmpty p, .ok =>
      some (w.onDisk (writeFile w.disk p []))
  | .writeEmpty _, .failed => some (false, w)
  | .rename source target, .ok =>
      some (w.onDisk (renameFile w.disk source target))
  | .rename _ _, .failed => some (false, w)
  | .removeFile p, .ok => some (w.onDisk (removeFile w.disk p))
  | .removeFile _, .failed => some (false, w)
  | .newName parent before after, .uuid text =>
      let p := parent ++ [before ++ text ++ after]
      -- No file has a name with a UUID that is new.
      if w.disk.nodeAt p = none then some (p, w) else none
  | .now, .time text timestamp => some ((text, timestamp), w)
  | .openConflicts, .ok => some (some w.conflicts, w)
  | .openConflicts, .failed => some (none, w)
  | .indexRow fileId, .ok => some (w.index fileId, w)
  | .indexRow _, .failed => some (none, w)
  | .getEntry fileId, .ok =>
      match w.tree fileId with
      | some entry => some (.ok entry, w)
      | none => some (.error .remoteDeleted, w)
  | .getEntry _, .failed =>
      some (.error (.message "get entry"), w)
  | .download key target, .ok =>
      match w.blobs key with
      | some bytes =>
          match writeFile w.disk target bytes with
          | some disk =>
              some (.ok bytes.length, { w with disk := disk })
          | none => some (.error (.about "create" target), w)
      | none => some (.error (.message "object not found"), w)
  | .download _ _, .failed =>
      some (.error (.message "get object"), w)
  -- Only an object that is there is written in part.
  | .download key target, .partly bytes =>
      match w.blobs key with
      | some _ =>
          some (.error (.about "write" target),
            (w.left (writeFile w.disk target bytes)).2)
      | none => none
  | .storeFile p, .ok =>
      match fileAt w.disk p with
      | some bytes =>
          let contentRef := storedRef blake3 bytes
          some (some contentRef,
            { w with
              blobs := fun key =>
                if key = contentRef.storageKey then
                  (w.blobs key).or (some bytes)
                else
                  w.blobs key })
      | none => some (none, w)
  | .storeFile _, .failed => some (none, w)
  | .placementFor _, .placement placement =>
      some (some placement, w)
  | .placementFor _, .failed => some (none, w)
  | .newRevision, .revision id => some (id, w)
  | .commit _ _ _ contentRef _, .ok =>
      some (true,
        { w with committed := contentRef :: w.committed })
  -- The commit is made, but its answer is lost.
  | .commit _ _ _ contentRef _, .partly _ =>
      some (false,
        { w with committed := contentRef :: w.committed })
  | .commit _ _ _ _ _, .failed => some (false, w)
  | .upsertEntry entry, .ok =>
      some (true,
        { w with
          tree := fun id =>
            if id = entry.fileId then some entry
            else w.tree id })
  | .upsertEntry _, .failed => some (false, w)
  | .registerFile fileId row, .ok =>
      some (true,
        { w with
          index := fun id =>
            if id = fileId then some row else w.index id })
  | .registerFile _ _, .failed => some (false, w)
  | .markFileDeleted fileId, .ok =>
      some (true,
        { w with
          index := fun id =>
            if id = fileId then
              (w.index id).map fun row =>
                { row with state := "deleted" }
            else
              w.index id })
  | .markFileDeleted _, .failed => some (false, w)
  | .indexWrite, .ok => some (true, w)
  | .indexWrite, .failed => some (false, w)
  | .hashFile p, .ok =>
      some ((fileAt w.disk p).map List.length, w)
  | .hashFile _, .failed => some (none, w)
  | .resolve conflictId, .ok =>
      some (true,
        { w with
          conflicts := w.conflicts.filter fun record =>
            record.conflictId ≠ conflictId })
  | .resolve _, .failed => some (false, w)
  | _, _ => none

/- There is one command, so the thread has no name. -/
def deskMachine
    (blake3 : Bytes → Bytes) :
    Machine DeskReq DeskResp Desktop Unit DeskChoice :=
  ⟨fun _ => serveDesk blake3⟩

abbrev DeskM := Script DeskReq DeskResp DeskError Unit

def fail {α : Type} (text : String) : DeskM α :=
  Script.throw (.message text)

/- A step that reports whether it was made. -/
def step
    (r : DeskReq)
    (made : DeskResp r → Bool)
    (text : String) : DeskM Unit :=
  Script.call r fun answer =>
    if made answer then .ok () else .error (.message text)

/- A step with a result. -/
def ask
    {α : Type}
    (r : DeskReq)
    (result : DeskResp r → Option α)
    (text : String) : DeskM α :=
  Script.call r fun answer =>
    match result answer with
    | some a => .ok a
    | none => .error (.message text)

def nonEmptyString (value : Text) : Option Text :=
  if value.all isWhitespace then none else some value

def isAbsolute (text : Text) : Bool :=
  text.head? = some '/'

/- The components; an absolute text is taken from the top. -/
def textParts (text : Text) : Path :=
  (text.splitOn '/').filter fun part =>
    part ≠ [] && part ≠ ['.']

def safeJoinDesktopSyncPath
    (syncFolder : Path)
    (remotePath : Text) : Except DeskError Path :=
  if isAbsolute remotePath ||
      ['.', '.'] ∈ textParts remotePath then
    .error (.message
      ("remote path escapes sync folder: " ++
        String.ofList remotePath))
  else
    .ok (syncFolder ++ textParts remotePath)

def validRelativeRemoteKey
    (syncFolder : Path)
    (remotePath : Text) : Bool :=
  (safeJoinDesktopSyncPath syncFolder remotePath).isOk

def pathToS3KeyDesktop (path : Path) : Text :=
  List.intercalate ['/'] path

def ensureSyncFolder (syncFolder : Path) : DeskM Unit :=
  step (.isDir syncFolder) id
    ("Local sync folder is missing. " ++
      "Open S4Drive to choose how to recover it.")

def conflictRemotePath
    (syncFolder : Path)
    (row : Option IndexRow)
    (record : ConflictRecord)
    (localPath : Option Path) : Except DeskError Text :=
  let candidates :=
    [row.bind fun row => nonEmptyString row.s3Key,
      nonEmptyString record.remotePath]
  match (candidates.filterMap id).find?
      (validRelativeRemoteKey syncFolder) with
  | some candidate => .ok candidate
  | none =>
      match localPath with
      | some localPath =>
          if syncFolder <+: localPath then
            .ok (pathToS3KeyDesktop
              (localPath.drop syncFolder.length))
          else
            .error (.message
              "conflict path is outside sync folder")
      | none =>
          .error (.message
            ("cannot determine remote path for conflict " ++
              String.ofList record.conflictId))

def conflictLocalPath
    (syncFolder : Path)
    (row : Option IndexRow)
    (record : ConflictRecord) : Except DeskError Path :=
  let known :=
    (nonEmptyString record.localPath).or
      (row.bind fun row => nonEmptyString row.localPath)
  match known with
  | some text =>
      let joined :=
        if isAbsolute text then
          .ok (textParts text)
        else
          safeJoinDesktopSyncPath syncFolder text
      match joined with
      | .error e => .error e
      | .ok path =>
          if syncFolder <+: path then
            .ok path
          else
            .error (.message
              ("conflict local path escapes sync folder: " ++
                displayPath path))
  | none =>
      match conflictRemotePath syncFolder row record none with
      | .error e => .error e
      | .ok remotePath =>
          safeJoinDesktopSyncPath syncFolder remotePath

def conflictCopyPath (record : ConflictRecord) : Option Path :=
  (nonEmptyString record.siblingPath).map textParts

def isControl (c : Char) : Bool :=
  c.toNat < 0x20 || (0x7F ≤ c.toNat && c.toNat ≤ 0x9F)

def trimMatches (drop : Char → Bool) (text : Text) : Text :=
  ((text.dropWhile drop).reverse.dropWhile drop).reverse

def sanitizeFilenamePart (value : Text) : Text :=
  let sanitized := value.map fun c =>
    if isControl c || c ∈ "<>:\"/\\|?*".toList then '-' else c
  let sanitized :=
    trimMatches (· = '.') (trimMatches isWhitespace sanitized)
  if sanitized = [] then "unknown".toList else sanitized

def shortDate (date : Text) : Text :=
  date.take 16

def conflictFilename (name deviceName date : Text) : Text :=
  let (stem, ext) :=
    match splitExtension name with
    | some (stem, ext) => (stem, ext)
    | none => (name, "conflict".toList)
  sanitizeFilenamePart stem ++ " (conflict from ".toList ++
    sanitizeFilenamePart deviceName ++ [' '] ++
    sanitizeFilenamePart (shortDate date) ++ ").".toList ++ ext

def conflictParentDir
    (syncFolder : Path)
    (originalName : Text) : Except DeskError Path :=
  if isAbsolute originalName ||
      ['.', '.'] ∈ (textParts originalName).dropLast then
    .error (.message
      ("conflict path escapes sync folder: " ++
        String.ofList originalName))
  else
    .ok (syncFolder ++ (textParts originalName).dropLast)

def numberedName (name : Text) (index : Nat) : Text :=
  let number := ' ' :: Nat.toDigits 10 index
  match splitExtension name with
  | some (stem, ext) =>
      if ext = [] then stem ++ number
      else stem ++ number ++ '.' :: ext
  | none => name ++ number

/- `tries` indices are left to be looked at. -/
def findUniquePath
    (parent : Path)
    (name : Text) : Nat → Nat → DeskM Path
  | 0, _ =>
      let stem :=
        match splitExtension name with
        | some (stem, _) => stem
        | none => name
      Script.request (DeskReq.newName parent (stem ++ [' ']) [])
  | tries + 1, index => do
      let candidate := parent ++ [numberedName name index]
      let taken ← Script.request (DeskReq.exists candidate)
      if taken then
        findUniquePath parent name tries (index + 1)
      else
        pure candidate

def uniqueConflictPath
    (parent : Path)
    (name : Text) : DeskM Path := do
  let taken ← Script.request (DeskReq.exists (parent ++ [name]))
  if taken then
    findUniquePath parent name 9998 2
  else
    pure (parent ++ [name])

def createConflictCopy
    (sourcePath syncFolder : Path)
    (originalName deviceName date : Text) : DeskM Path := do
  let fileName := (textParts originalName).getLastD originalName
  let conflictName := conflictFilename fileName deviceName date
  let conflictDir ←
    Script.ofExcept (conflictParentDir syncFolder originalName)
  step (.createDirAll conflictDir) id "conflict dir"
  let conflictPath ← uniqueConflictPath conflictDir conflictName
  let there ← Script.request (DeskReq.exists sourcePath)
  if there then
    step (.copyConflict sourcePath conflictPath) id
      "conflict copy"
    pure conflictPath
  else
    -- An empty file takes the place of the copy.
    step (.writeEmpty conflictPath) id "conflict placeholder"
    pure conflictPath

/- The copy that the record names, when something is there. -/
def recordedCopy
    (record : ConflictRecord) : DeskM (Option Path) :=
  match conflictCopyPath record with
  | none => pure none
  | some path => do
      let there ← Script.request (DeskReq.exists path)
      pure (if there then some path else none)

def ensureLocalConflictCopy
    (syncFolder : Path)
    (record : ConflictRecord)
    (localPath : Path)
    (remotePath : Text) : DeskM (Option Path) := do
  let known ← recordedCopy record
  match known with
  | some path => pure (some path)
  | none => do
      let there ← Script.request (DeskReq.exists localPath)
      if !there then
        pure none
      else do
        ensureSyncFolder syncFolder
        let now ← Script.request DeskReq.now
        let copy ← createConflictCopy localPath syncFolder
          remotePath "This device".toList now.1
        pure (some copy)

def restoreSidecarPath
    (targetPath : Path)
    (label : String) : DeskM Path :=
  Script.request (DeskReq.newName targetPath.dropLast
    ('.' :: targetPath.getLastD "restore".toList ++
      ".s4drive-".toList ++ label.toList ++ ['-'])
    ".tmp".toList)

/- Put the file back that has gone to the backup. -/
def rollBackRestore
    (backupPath targetPath : Path) : DeskM Unit := do
  let back ← Script.request (.rename backupPath targetPath)
  if back then
    fail "finish restore"
  else
    fail "finish restore: rollback failed"

/- The existing file goes to a backup and may come back. -/
def replaceExistingRestoreTarget
    (tmpPath targetPath : Path) : DeskM Unit := do
  let folder ← ask (.metadata targetPath) id
    "prepare restore target after rename failed"
  if folder then
    Script.throw (.about "restore target is a directory"
      targetPath)
  else do
    let backupPath ← restoreSidecarPath targetPath "backup"
    step (.rename targetPath backupPath) id
      "prepare restore target after rename failed"
    let moved ← Script.request (.rename tmpPath targetPath)
    if moved then do
      let _ ← Script.request (DeskReq.removeFile backupPath)
      pure ()
    else
      rollBackRestore backupPath targetPath

def finishRestoreReplace
    (tmpPath targetPath : Path) : DeskM Unit := do
  let moved ← Script.request (.rename tmpPath targetPath)
  if moved then
    pure ()
  else do
    let there ← ask (.tryExists targetPath) id
      "finish restore: check target"
    if there then
      replaceExistingRestoreTarget tmpPath targetPath
    else
      fail "finish restore"

def registeredRow
    (entry : FileEntry)
    (localPath : Path)
    (s3Key : Text)
    (state : String) : IndexRow where
  localPath := (displayPath localPath).toList
  s3Key := s3Key
  state := state
  currentRevisionId := entry.currentRevisionId

def registerFileAtPathWithState
    (entry : FileEntry)
    (localPath : Path)
    (s3Key : Text)
    (state : String) : DeskM Unit :=
  step
    (.registerFile entry.fileId
      (registeredRow entry localPath s3Key state))
    id "register file"

def contentOf
    (record : ConflictRecord)
    (entry : FileEntry) : Except DeskError ContentRef :=
  match entry.contentRef with
  | some contentRef => .ok contentRef
  | none =>
      .error (.message
        ("remote conflict has no content: " ++
          String.ofList record.conflictId))

def getEntry (fileId : FileId) : DeskM FileEntry :=
  Script.call (DeskReq.getEntry fileId) id

/- Put the downloaded file in place, or remove it. -/
def placeDownload
    (tmpPath localPath : Path) : DeskM Unit := do
  let finished ←
    Script.attempt (finishRestoreReplace tmpPath localPath)
  match finished with
  | .ok () => pure ()
  | .error e => do
      let _ ← Script.request (DeskReq.removeFile tmpPath)
      Script.throw e

def downloadRemoteEntryToLocal
    (record : ConflictRecord)
    (localPath : Path)
    (remotePath : Text) : DeskM Unit := do
  let remoteEntry ← getEntry record.fileId
  let contentRef ←
    Script.ofExcept (contentOf record remoteEntry)
  step (.createDirAll localPath.dropLast) id
    "create remote resolution parent"
  let tmpPath ← restoreSidecarPath localPath "remote-resolution"
  let _ ← Script.call
    (.download contentRef.storageKey tmpPath) id
  placeDownload tmpPath localPath
  registerFileAtPathWithState remoteEntry localPath remotePath
    "synced"
  step .indexWrite id "update mtime"

def acceptRemoteDelete
    (syncFolder : Path)
    (record : ConflictRecord)
    (localPath : Path)
    (remotePath : Text) : DeskM (Option Path) := do
  let preserved ←
    ensureLocalConflictCopy syncFolder record localPath remotePath
  let there ← Script.request (DeskReq.exists localPath)
  if there then
    step (.removeFile localPath) id
      "remove local file after accepting remote delete"
    step (.markFileDeleted record.fileId) id "mark deleted"
    pure preserved
  else
    step (.markFileDeleted record.fileId) id "mark deleted"
    pure preserved

------------------------------------------------------------
-- The Choices
------------------------------------------------------------

/- A file that is not in the tree is no failure here. -/
def entryIfAny :
    Except DeskError FileEntry →
      Except DeskError (Option FileEntry)
  | .ok entry => .ok (some entry)
  | .error .remoteDeleted => .ok none
  | .error e => .error e

def commitLocalConflictWinner
    (record : ConflictRecord)
    (localPath : Path)
    (remotePath : Text)
    (placement : Placement) : DeskM Unit := do
  let contentRef ← ask (.storeFile localPath) id "store file"
  let found ← Script.attempt (getEntry record.fileId)
  let remoteEntry ← Script.ofExcept (entryIfAny found)
  let localEntry ←
    Script.request (DeskReq.indexRow record.fileId)
  let parentRevisionId :=
    (remoteEntry.bind (·.currentRevisionId)).or
      (localEntry.bind (·.currentRevisionId))
  let revisionId ← Script.request DeskReq.newRevision
  step
    (.commit record.fileId
      (if remoteEntry.isSome then .uploadNewRevision
        else .createFile)
      revisionId contentRef placement)
    id "commit"
  let now ← Script.request DeskReq.now
  let entry : FileEntry :=
    { fileId := record.fileId
      parentId := placement.parentId
      name := placement.name
      entryType := .file
      currentRevisionId := some revisionId
      contentRef := some contentRef
      size := contentRef.size
      contentHash := some ("blake3:" ++ contentRef.hash)
      mime := some contentRef.mime
      updatedAt := now.2
      deletedAt := none
      versionHistory := parentRevisionId.toList ++ [revisionId] }
  -- A failure to write the tree is only logged.
  let _ ← Script.request (DeskReq.upsertEntry entry)
  registerFileAtPathWithState entry localPath remotePath
    "synced"
  step .indexWrite id "update mtime"
  step .indexWrite id "record revision"

/- A missing local file comes back from the recorded copy. -/
def restoreLocalVersion
    (record : ConflictRecord)
    (localPath : Path) : DeskM Unit := do
  let there ← Script.request (DeskReq.exists localPath)
  if there then
    pure ()
  else do
    let known ← recordedCopy record
    match known with
    | some copyPath => do
        step (.createDirAll localPath.dropLast) id
          "create local conflict target"
        step (.copy copyPath localPath) id
          "restore local conflict copy"
    | none =>
        fail ("local version is missing for conflict " ++
          String.ofList record.conflictId)

def keepLocal
    (syncFolder : Path)
    (record : ConflictRecord)
    (localPath : Path)
    (remotePath : Text) : DeskM (Option Path) := do
  restoreLocalVersion record localPath
  ensureSyncFolder syncFolder
  let placement ← ask (.placementFor remotePath) id "placement"
  commitLocalConflictWinner record localPath remotePath placement
  step .indexWrite id "complete conflict transfers"
  pure none

/- The cloud version, or the deletion of the file. -/
def takeRemote
    (syncFolder : Path)
    (record : ConflictRecord)
    (localPath : Path)
    (remotePath : Text)
    (preserved : Option Path) : DeskM (Option Path) := do
  let downloaded ← Script.attempt
    (downloadRemoteEntryToLocal record localPath remotePath)
  match downloaded with
  | .ok () => pure preserved
  | .error e =>
      if record.conflictType = "delete_edit" &&
          e.saysDeleted then
        acceptRemoteDelete syncFolder record localPath remotePath
      else
        Script.throw e

def keepRemote
    (syncFolder : Path)
    (record : ConflictRecord)
    (localPath : Path)
    (remotePath : Text) : DeskM (Option Path) := do
  let preserved ←
    ensureLocalConflictCopy syncFolder record localPath remotePath
  let preserved ←
    takeRemote syncFolder record localPath remotePath preserved
  step .indexWrite id "complete conflict transfers"
  pure preserved

/- The copy gets a row and an upload of its own. -/
def registerPendingUploadForPath
    (localPath : Path)
    (s3Key : Text) : DeskM Unit := do
  let _ ← ask (.hashFile localPath) id "open file for hashing"
  let fileId ← Script.request DeskReq.newRevision
  let revisionId ← Script.request DeskReq.newRevision
  step
    (.registerFile fileId
      ⟨(displayPath localPath).toList, s3Key, "pending_upload",
        some revisionId⟩)
    id "register file"
  step .indexWrite id "enqueue upload"

def conflictCopyS3Key
    (syncFolder copyPath : Path) : DeskM Text := do
  ensureSyncFolder syncFolder
  if syncFolder <+: copyPath then
    pure (pathToS3KeyDesktop (copyPath.drop syncFolder.length))
  else
    fail "conflict copy is outside sync folder"

def keepBoth
    (syncFolder : Path)
    (record : ConflictRecord)
    (localPath : Path)
    (remotePath : Text) : DeskM (Option Path) := do
  let preserved ←
    ensureLocalConflictCopy syncFolder record localPath remotePath
  let _ ←
    takeRemote syncFolder record localPath remotePath preserved
  match preserved with
  | some copyPath => do
      let key ← conflictCopyS3Key syncFolder copyPath
      registerPendingUploadForPath copyPath key
      step .indexWrite id "complete conflict transfers"
      pure preserved
  | none => do
      step .indexWrite id "complete conflict transfers"
      pure preserved

def findOpenConflict
    (conflicts : List ConflictRecord)
    (conflictId : Text) : Except DeskError ConflictRecord :=
  match conflicts.find? (·.conflictId = conflictId) with
  | some record => .ok record
  | none =>
      .error (.message
        ("open conflict not found: " ++
          String.ofList conflictId))

def resolveAs
    (syncFolder : Path)
    (record : ConflictRecord)
    (localPath : Path)
    (remotePath : Text) :
    Resolution → DeskM (Option Path)
  | .keepLocal =>
      keepLocal syncFolder record localPath remotePath
  | .keepRemote =>
      keepRemote syncFolder record localPath remotePath
  | .keepBoth =>
      keepBoth syncFolder record localPath remotePath

/- The path that was preserved is what it returns. -/
def resolveConflict
    (syncFolder : Path)
    (conflictId : Text)
    (resolution : Resolution) : DeskM (Option Path) := do
  step (.prepareSyncFolder syncFolder) id
    "Local folder recovery requires your decision in S4Drive."
  let conflicts ← ask .openConflicts id "open conflicts"
  let record ←
    Script.ofExcept (findOpenConflict conflicts conflictId)
  ensureSyncFolder syncFolder
  let row ← Script.request (DeskReq.indexRow record.fileId)
  let localPath ←
    Script.ofExcept (conflictLocalPath syncFolder row record)
  let row ← Script.request (DeskReq.indexRow record.fileId)
  let remotePath ←
    Script.ofExcept
      (conflictRemotePath syncFolder row record (some localPath))
  let preserved ←
    resolveAs syncFolder record localPath remotePath resolution
  step (.resolve conflictId) id "resolve conflict"
  pure preserved

end Conflicts

end S4Drive

import Mathlib.Algebra.GroupWithZero.Nat
import S4Drive.Library.Script
import S4Drive.Library.ThreadSystem
import S4Drive.Notes.NotesTree

/-
  The creation of a backup: the Notes folder is scanned and
  copied, the copy is written to a temporary ZIP file beside
  the destination, and the file is verified and renamed.
  Every request to a file system is a step between which
  other processes change the Notes folder and the folder of
  the destination.

  Main declarations:
    * `BackupReq`, `BackupWorld`, `serveBackup`
    * `scanNotesTree`, `captureSnapshot`
    * `writeZip`, `publishBackup`, `backupNotesTo`
    * `backupSystem`
-/

------------------------------------------------------------
-- The World of a Backup
------------------------------------------------------------

namespace S4Drive

open Concurrency FileTree

/- An entry as a scan has seen it. -/
structure SeenEntry where
  dir : InodeId
  name : OsName
  id : InodeId
  metadata : Metadata
deriving DecidableEq

/-
  The Notes folder and the folder of the destination. The
  other fields are only noted: the trees that there have
  been since the call began, the entries that the last scan
  has seen, and the folders that the current scan has
  listed.
-/
structure BackupWorld where
  tree : NotesTree
  past : List NotesTree
  seen : List SeenEntry
  listed : List InodeId
  folder : SharedEntries

inductive BackupReq where
  | isCancelled
  | parentExists
  | canonicalize (path : List Text)
  | countCloudOnly
  | includesPending
  | openRoot
  -- The staging directory, made when a scan has ended.
  | makeStaging
  -- A step in the staging directory or of the ZIP writer.
  | io
  | now
  | tree (r : TreeReq)
  | exists (p : List Text)
  | readZip (p : List Text)
  | file (r : EntryReq)

abbrev BackupResp : BackupReq → Type
  | .isCancelled => Bool
  | .parentExists => Bool
  | .canonicalize _ => Except FileError (List Text)
  | .countCloudOnly => BackupExcept Nat
  | .includesPending => Bool
  | .openRoot => BackupExcept InodeId
  | .makeStaging => Bool
  | .io => Bool
  | .now => String
  | .tree r => TreeResp r
  | .exists _ => Bool
  | .readZip _ => Except FileError (Option StoredZip)
  | .file _ => Except FileError Unit

inductive BackupChoice where
  | ok
  | failed
  | path (path : List Text)
  | count (count : BackupExcept Nat)
  | error (e : BackupError)
  | text (text : String)
  | tree (k : TreeChoice)
  | file (k : EntryChoice)

/- A scan starts over, lists a folder or sees an entry. -/
def noteScan
    (r : TreeReq)
    (answer : TreeResp r)
    (w : BackupWorld) : BackupWorld :=
  match r, answer with
  | .dirMetadata _, _ => { w with seen := [], listed := [] }
  | .readDir dir, .ok _ => { w with listed := dir :: w.listed }
  | .symlinkMetadata dir name, .ok metadata =>
      match w.tree.entry dir name with
      | some id =>
          { w with seen := ⟨dir, name, id, metadata⟩ :: w.seen }
      | none => w
  | _, _ => w

/- Whether following an entry finds something. -/
def resolves : Option (Node FileBody) → Bool
  | none => false
  | some (.other resolves) => resolves
  | some _ => true

/- What the ZIP reader makes of an entry. -/
def zipAt : Option (Node FileBody) →
    Except FileError (Option StoredZip)
  | some (.file (.zip zip)) => .ok (some zip)
  | some (.file _) => .ok none
  | _ => .error .failed

def serveBackup
    (r : BackupReq)
    (k : BackupChoice)
    (w : BackupWorld) : Option (BackupResp r × BackupWorld) :=
  match r, k with
  | .isCancelled, .ok => some (false, w)
  | .isCancelled, .failed => some (true, w)
  | .parentExists, .ok => some (true, w)
  | .parentExists, .failed => some (false, w)
  | .canonicalize _, .path path => some (.ok path, w)
  | .canonicalize _, .failed => some (.error .failed, w)
  | .countCloudOnly, .count count => some (count, w)
  | .includesPending, .ok => some (true, w)
  | .includesPending, .failed => some (false, w)
  | .openRoot, .ok => some (.ok w.tree.root, w)
  | .openRoot, .error e => some (.error e, w)
  | .makeStaging, .ok => some (true, { w with listed := [] })
  | .makeStaging, .failed =>
      some (false, { w with listed := [] })
  | .io, .ok => some (true, w)
  | .io, .failed => some (false, w)
  | .now, .text text => some (text, w)
  | .tree r, .tree k =>
      (w.tree.serve r k).map fun answer =>
        (answer, noteScan r answer w)
  | .exists p, .ok =>
      some (resolves (w.folder.files.nodeAt p), w)
  | .exists _, .failed => some (false, w)
  | .readZip p, .ok =>
      some (zipAt (w.folder.files.nodeAt p), w)
  | .readZip _, .failed => some (.error .failed, w)
  | .file r, .file k =>
      (w.folder.serve r k).map fun (answer, folder) =>
        (answer, { w with folder := folder })
  | _, _ => none

abbrev BackupM := Script BackupReq BackupResp BackupError Unit

def isCancelled : BackupM Bool :=
  Script.request BackupReq.isCancelled

def checkCancelled : BackupM Unit :=
  Script.call BackupReq.isCancelled fun
    | true => .error .cancelled
    | false => .ok ()

/- A step outside of both folders that fails with a message. -/
def ioStep (message : String) : BackupM Unit :=
  Script.call BackupReq.io fun
    | true => .ok ()
    | false => .error (.fileSystem message)

def backupStep
    (r : EntryReq)
    (message : String) : BackupM Unit :=
  Script.call (.file r) fun
    | .ok _ => .ok ()
    | .error _ => .error (.fileSystem message)

/- `source` is the folder and the name of a file. -/
structure ScannedEntry where
  relPath : Text
  size : Nat
  mtime : Option Nat
  source : Option (InodeId × OsName)
deriving DecidableEq

def joinName (rel name : Text) : Text :=
  rel ++ '/' :: name

def readDir
    (dir : InodeId)
    (rel : Text) : BackupM (List OsName) :=
  Script.call (.tree (.readDir dir)) fun
    | .ok names => .ok names
    | .error _ =>
        .error (.fileSystem
          ("Failed to read directory " ++ quoted rel))

def symlinkMetadata
    (dir : InodeId)
    (name : OsName)
    (rel : Text) : BackupM Metadata :=
  Script.call (.tree (.symlinkMetadata dir name)) fun
    | .ok metadata => .ok metadata
    | .error _ =>
        .error (.fileSystem
          ("Failed to inspect metadata of " ++ quoted rel))

/- A folder swapped for a link after inspection is refused. -/
def openDirNofollow
    (dir : InodeId)
    (name : OsName) : BackupM InodeId :=
  Script.call (.tree (.openDirNofollow dir name)) fun
    | .ok id => .ok id
    | .error .notFound => .error .notesChanged
    | .error .other => .error .symlinkNotAllowed

/- The archive must mean the same files on every system. -/
def checkName (name : OsName) (rel : Text) : BackupExcept Unit :=
  let portable :=
    if name.valid then validatePortableComponent name.text
    else .error (.invalidName "It is not valid text.")
  match portable with
  | .error (.invalidName reason) =>
      .error (.invalidName
        ("Backup can't include " ++ quoted rel ++ ". " ++
          reason))
  | _ => .ok ()

def checkCount
    (entries : List ScannedEntry) : BackupExcept Unit :=
  if entries.length > maxBackupEntries then
    .error (.archiveQuotaExceeded
      ("Backup entries count exceeds limit of " ++
        toString maxBackupEntries))
  else
    .ok ()

/- One entry; `scanFolder` scans a folder inside. -/
def scanEntry
    (scanFolder :
      InodeId → Text → List ScannedEntry →
        BackupM (List ScannedEntry))
    (dir : InodeId)
    (rel : Text)
    (name : OsName)
    (entries : List ScannedEntry) :
    BackupM (List ScannedEntry) := do
  Script.ofExcept (checkName name rel)
  let metadata ← symlinkMetadata dir name rel
  match metadata.type with
  | .symlink => Script.throw .symlinkNotAllowed
  | .folder => do
      let child ← openDirNofollow dir name
      scanFolder child rel
        (entries ++ [⟨rel, 0, some metadata.mtime, none⟩])
  | .file =>
      if metadata.size > maxSingleFileBytes then
        Script.throw (.archiveQuotaExceeded
          ("File " ++ quoted rel ++ " exceeds 8 GiB limit"))
      else
        pure (entries ++
          [⟨rel, metadata.size, some metadata.mtime,
            some (dir, name)⟩])
  | .special =>
      Script.throw (.fileSystem
        ("Special file " ++ quoted rel ++
          " is not supported in backup"))

def scanEntries
    (scanFolder :
      InodeId → Text → List ScannedEntry →
        BackupM (List ScannedEntry))
    (dir : InodeId)
    (relDir : Text) :
    List OsName → List ScannedEntry →
      BackupM (List ScannedEntry)
  | [], entries => pure entries
  | name :: rest, entries => do
      let entries ←
        scanEntry scanFolder dir (joinName relDir name.text)
          name entries
      Script.ofExcept (checkCount entries)
      scanEntries scanFolder dir relDir rest entries

/- `levels` is what is left of the 32 levels of folders. -/
def scanNotesTree :
    Nat → InodeId → Text → List ScannedEntry →
      BackupM (List ScannedEntry)
  | 0, _, _, _ =>
      Script.throw (.invalidName
        "Folder nesting depth exceeds maximum of 32 levels")
  | levels + 1, dir, relDir, entries => do
      let names ← readDir dir relDir
      scanEntries (scanNotesTree levels) dir relDir names
        entries

def maxDepth : Nat := 32

------------------------------------------------------------
-- The Capture
------------------------------------------------------------

/- An entry of the manifest with its bytes in staging. -/
structure StagedEntry where
  entry : BackupManifestEntry
  bytes : List UInt8
deriving DecidableEq

/- `open_scanned_file`. -/
def openScannedFile
    (dir : InodeId)
    (name : OsName) : BackupM InodeId :=
  Script.call (.tree (.openFile dir name)) fun
    | .ok id => .ok id
    | .error _ => .error .notesChanged

def countReads (file : InodeId) : BackupM Nat :=
  Script.request (BackupReq.tree (.countReads file))

def readAt
    (file : InodeId)
    (offset : Nat) :
    BackupM (Except FileError (List UInt8)) :=
  Script.request (BackupReq.tree (.readAt file offset))

def readEnd
    (file : InodeId)
    (offset : Nat) : BackupM (Except FileError Unit) :=
  Script.request (BackupReq.tree (.readEnd file offset))

def fileMetadata
    (file : InodeId) : BackupM (Except FileError Metadata) :=
  Script.request (BackupReq.tree (.fileMetadata file))

/-
  Copy and hash an opened file until a read finds nothing.
  The flag says that no read has failed.
-/
def readFile
    (file : InodeId) :
    Nat → List UInt8 → BackupM (List UInt8 × Bool)
  | 0, read => do
      let ended ← readEnd file read.length
      pure (read, ended.isOk)
  | n + 1, read => do
      let chunk ← readAt file read.length
      match chunk with
      | .error _ => pure (read, false)
      | .ok bytes => do
          ioStep "Write error during staging"
          readFile file n (read ++ bytes)

/- The file did not change: its metadata is the scanned. -/
def unchanged
    (item : ScannedEntry)
    (size : Nat) : Except FileError Metadata → Bool
  | .error _ => false
  | .ok metadata =>
      metadata.size = size ∧ size = item.size ∧
        some metadata.mtime = item.mtime

def stagedFolder (item : ScannedEntry) : StagedEntry :=
  ⟨⟨item.relPath, "directory", 0, none⟩, []⟩

def stagedFile
    (codec : BackupCodec)
    (item : ScannedEntry)
    (bytes : List UInt8) : StagedEntry :=
  ⟨⟨item.relPath, "file", bytes.length,
    some (codec.blake3 bytes)⟩, bytes⟩

def checkTotal (total : Nat) : BackupExcept Unit :=
  if total > maxTotalUncompressedBytes then
    .error (.archiveQuotaExceeded
      ("Total uncompressed backup size exceeds 20 GiB limit (" ++
        toString total ++ " bytes)"))
  else
    .ok ()

/- The bytes of an opened file, `none` if it has changed. -/
def copyFile
    (item : ScannedEntry)
    (file : InodeId)
    (total : Nat) : BackupM (Option (List UInt8)) := do
  ioStep "Failed to create staged file"
  let reads ← countReads file
  let copied ← readFile file reads []
  ioStep "Flush error during staging"
  Script.ofExcept (checkTotal (total + copied.1.length))
  let metadata ← fileMetadata file
  if copied.2 && unchanged item copied.1.length metadata then
    pure (some copied.1)
  else
    pure none

/- `none` if a file was found to have changed. -/
def copyEntries
    (codec : BackupCodec) :
    List ScannedEntry → Nat → List StagedEntry →
      BackupM (Option (List StagedEntry))
  | [], _, staged => pure (some staged)
  | item :: rest, total, staged => do
      checkCancelled
      ioStep "Failed to create directory"
      match item.source with
      | none =>
          copyEntries codec rest total
            (staged ++ [stagedFolder item])
      | some (dir, name) => do
          let opened ← Script.attempt (openScannedFile dir name)
          match opened with
          | .error _ => pure none
          | .ok file => do
              let copied ← copyFile item file total
              match copied with
              | none => pure none
              | some bytes =>
                  copyEntries codec rest (total + bytes.length)
                    (staged ++ [stagedFile codec item bytes])

def dirMetadata (dir : InodeId) : BackupM (Option Nat) :=
  Script.request (BackupReq.tree (.dirMetadata dir))

def makeStaging : BackupM Unit :=
  Script.call BackupReq.makeStaging fun
    | true => .ok ()
    | false =>
        .error (.fileSystem
          "Failed to create temporary staging directory")

/- Scan the folder and copy what the scan has found. -/
def captureOnce
    (codec : BackupCodec)
    (root : InodeId) : BackupM (Option (List StagedEntry)) := do
  checkCancelled
  ioStep "Failed to open the Notes folder"
  let mtime ← dirMetadata root
  let scanned ←
    scanNotesTree maxDepth root notesRootName
      [⟨notesRootName, 0, mtime, none⟩]
  makeStaging
  copyEntries codec scanned 0 []

/- A folder that keeps changing is given up. -/
def captureSnapshot
    (codec : BackupCodec)
    (root : InodeId) : Nat → BackupM (List StagedEntry)
  | 0 => Script.throw .notesChanged
  | attempts + 1 => do
      let captured ← captureOnce codec root
      match captured with
      | some staged => pure staged
      | none => captureSnapshot codec root attempts

def maxAttempts : Nat := 3

/- The record that the ZIP writer makes of an entry. -/
def zipEntryOf (staged : StagedEntry) : ZipEntry :=
  let path := staged.entry.path
  if staged.entry.kind = "directory" then
    let name :=
      if path.getLast? = some '/' then path else path ++ ['/']
    ⟨true, name, true, false, 0⟩
  else
    ⟨true, path, false, false, staged.bytes.length⟩

/- The ZIP file of all entries and the manifest. -/
def writtenZip
    (staged : List StagedEntry)
    (manifestBytes : List UInt8) : StoredZip where
  file :=
    ⟨staged.map zipEntryOf ++
      [⟨true, manifestName, false, false,
        manifestBytes.length⟩]⟩
  data :=
    (staged.map fun s => (⟨s.bytes, false⟩ : ReadData)) ++
      [⟨manifestBytes, false⟩]

def writeChunks : Nat → BackupM Unit
  | 0 => do
      checkCancelled
      ioStep "Failed to read staged bytes"
  | n + 1 => do
      checkCancelled
      ioStep "Failed to write bytes to zip"
      writeChunks n

def writeEntry (staged : StagedEntry) : BackupM Unit :=
  if staged.entry.kind = "directory" then
    ioStep "Failed to add directory to zip"
  else do
    ioStep "Failed to start file in zip"
    writeChunks ((staged.bytes.length + chunkSize - 1) / chunkSize)

def writeEntries : List StagedEntry → BackupM Unit
  | [] => pure ()
  | staged :: rest => do
      checkCancelled
      writeEntry staged
      writeEntries rest

def writeZip
    (codec : BackupCodec)
    (temp : Text)
    (staged : List StagedEntry)
    (manifest : BackupManifest) : BackupM Unit := do
  backupStep (.createNew [temp] .unfinished)
    "Failed to create temporary archive"
  writeEntries staged
  ioStep "Failed to add manifest.json"
  backupStep
    (.write [temp]
      (.zip (writtenZip staged
        (codec.serializeManifest manifest))))
    "Failed to finalize zip archive"

def readZip (p : List Text) : BackupM (Option StoredZip) :=
  Script.call (.readZip p) fun
    | .ok zip => .ok zip
    | .error _ =>
        .error (.fileSystem "Failed to open backup archive")

/- `verify_backup` of what is at a path. -/
def verifyAt
    (codec : BackupCodec)
    (p : List Text) : BackupM BackupManifest := do
  let zip ← readZip p
  Script.ofExcept (verifyBackup codec (zip.map StoredZip.file)
    (readFrom ((zip.map StoredZip.data).getD [])))

/- Remove the temporary archive and fail. -/
def failWith
    {α : Type}
    (temp : Text)
    (e : BackupError) : BackupM α := do
  let _ ← Script.attempt
    (backupStep (.removeFile [temp]) "remove_file")
  Script.throw e

def existsAt (p : List Text) : BackupM Bool :=
  Script.request (BackupReq.exists p)

/- The check and the rename are two steps. -/
def renameBackup (temp name : Text) : BackupM Unit := do
  let there ← existsAt [name]
  if there then
    failWith temp (.targetExists (String.ofList name))
  else do
    let renamed ← Script.attempt
      (backupStep (.rename [temp] [name])
        "Failed to publish backup archive")
    match renamed with
    | .error e => failWith temp e
    | .ok _ => pure ()

def publishBackup
    (codec : BackupCodec)
    (temp name : Text)
    (staged : List StagedEntry)
    (manifest : BackupManifest) : BackupM Unit := do
  let written ← Script.attempt
    (writeZip codec temp staged manifest)
  match written with
  | .error e => failWith temp e
  | .ok _ => do
      let cancelled ← isCancelled
      if cancelled then
        failWith temp .cancelled
      else do
        let verified ← Script.attempt (verifyAt codec [temp])
        match verified with
        | .error e => failWith temp e
        | .ok _ => renameBackup temp name

------------------------------------------------------------
-- The Whole Backup
------------------------------------------------------------

/- Paths by their components; `uuid` is drawn by the call. -/
structure BackupCall where
  destination : List Text
  syncRoot : List Text
  uuid : Text
  appVersion : String

structure BackupResult where
  archivePath : List Text
  files : Nat
  directories : Nat
  bytes : Nat
  createdAt : String
  includesPending : Bool
deriving DecidableEq

/- `Path::file_name`. -/
def fileName (path : List Text) : Option Text :=
  path.getLast?.filter (· ≠ ['.', '.'])

def isZipName (name : Text) : Bool :=
  ".zip".toList.isSuffixOf (name.map asciiLower)

/- The text of a path, as it is displayed. -/
def pathText (path : List Text) : Text :=
  path.flatMap fun component => '/' :: component

/- `str::contains`. -/
def containsText (text part : Text) : Bool :=
  text.tails.any fun rest => part.isPrefixOf rest

def canonicalize
    (path : List Text)
    (message : String) : BackupM (List Text) :=
  Script.call (.canonicalize path) fun
    | .ok path => .ok path
    | .error _ => .error (.fileSystem message)

def parentExists : BackupM Bool :=
  Script.request BackupReq.parentExists

/- The canonical folder is outside of the sync folder. -/
def checkCanonical
    (destination syncRoot : List Text) : BackupM Unit := do
  let root ←
    canonicalize syncRoot "Failed to canonicalize sync root"
  let parent ←
    canonicalize destination.dropLast
      "Failed to canonicalize destination directory"
  if root.isPrefixOf parent ||
      containsText (pathText parent) ".s4drive".toList then
    Script.throw .destinationInsideSyncFolder
  else
    pure ()

def checkPlace
    (destination syncRoot : List Text) : BackupM Unit := do
  let parent ← parentExists
  if !parent then
    Script.throw (.fileSystem
      ("Destination directory " ++
        quoted (pathText destination.dropLast) ++
        " does not exist."))
  else if syncRoot.isPrefixOf destination ||
      syncRoot.isPrefixOf destination.dropLast then
    Script.throw .destinationInsideSyncFolder
  else
    checkCanonical destination syncRoot

/- Returns the name of the destination in its folder. -/
def validateDestinationPath
    (destination syncRoot : List Text) : BackupM Text :=
  match fileName destination with
  | none => Script.throw .destinationInsideSyncFolder
  | some name =>
      if !isZipName name then
        Script.throw (.invalidName
          "Backup filename must end with .zip")
      else do
        let there ← existsAt [name]
        if there then
          Script.throw (.targetExists (String.ofList name))
        else do
          checkPlace destination syncRoot
          pure name

def countCloudOnly : BackupM Nat :=
  Script.call BackupReq.countCloudOnly fun count => count

def checkCloudOnly (missing : Nat) : BackupExcept Unit :=
  if missing > 0 then .error (.cloudOnlyUnavailable missing)
  else .ok ()

def includesPending : BackupM Bool :=
  Script.request BackupReq.includesPending

def openRoot : BackupM InodeId :=
  Script.call BackupReq.openRoot fun root => root

def currentTime : BackupM String :=
  Script.request BackupReq.now

def manifestOf
    (appVersion createdAt : String)
    (pending : Bool)
    (staged : List StagedEntry) : BackupManifest where
  format := backupFormat
  version := backupVersion
  createdAt := createdAt
  appVersion := appVersion
  includesPending := pending
  entries := staged.map StagedEntry.entry

def resultOf
    (call : BackupCall)
    (manifest : BackupManifest) : BackupResult where
  archivePath := call.destination
  files :=
    (manifest.entries.filter fun e => e.kind = "file").length
  directories :=
    (manifest.entries.filter fun e => e.kind = "directory").length
  bytes := (manifest.entries.map fun e => e.size).sum
  createdAt := manifest.createdAt
  includesPending := manifest.includesPending

def BackupCall.temp (call : BackupCall) : Text :=
  ".tmp-notes-backup-".toList ++ call.uuid ++ ".zip".toList

def backupNotesTo
    (codec : BackupCodec)
    (call : BackupCall) : BackupM BackupResult := do
  let name ←
    validateDestinationPath call.destination call.syncRoot
  let missing ← countCloudOnly
  Script.ofExcept (checkCloudOnly missing)
  let pending ← includesPending
  let root ← openRoot
  let staged ← captureSnapshot codec root maxAttempts
  checkCancelled
  let createdAt ← currentTime
  let manifest :=
    manifestOf call.appVersion createdAt pending staged
  publishBackup codec call.temp name staged manifest
  pure (resultOf call manifest)

def backupMachine :
    Machine BackupReq BackupResp BackupWorld Unit
      BackupChoice where
  serve := fun _ => serveBackup

/- What other processes do, in one folder or the other. -/
inductive Elsewhere where
  | notes (c : TreeChange)
  | folder (c : Change Text FileBody)

def otherProcess
    (e : Elsewhere)
    (w : BackupWorld) : Option BackupWorld :=
  match e with
  | .notes c =>
      (w.tree.change c).map fun tree =>
        { w with tree := tree, past := tree :: w.past }
  | .folder c =>
      (w.folder.change c).map fun folder =>
        { w with folder := folder }

/- A call starts with what there is. -/
def startBackup (w : BackupWorld) : BackupWorld where
  tree := w.tree
  past := [w.tree]
  seen := []
  listed := []
  folder := ⟨w.folder.files, w.folder.files⟩

/- Calls, one at a time. -/
def backupSystem (codec : BackupCodec) :
    ThreadSystem BackupReq BackupResp BackupWorld Unit
      BackupChoice BackupCall (BackupExcept BackupResult) Unit
      Elsewhere where
  toMachine := backupMachine
  body := fun call v => backupNotesTo codec call v
  boot := ()
  begin := fun _ _ _ w => some (startBackup w)
  finish := fun _ _ _ _ _ w => w
  halt := fun _ w => w
  env := otherProcess

abbrev BackupState :=
  SystemState BackupReq BackupResp BackupWorld Unit BackupCall
    (BackupExcept BackupResult) Unit

end S4Drive

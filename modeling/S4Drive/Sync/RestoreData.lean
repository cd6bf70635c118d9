import S4Drive.Conflicts.TextMerge
import S4Drive.Core.Error
import S4Drive.Library.CrashRun
import S4Drive.Recovery.Output

/-
  The restore of a sync folder from the server: one file
  after the other is downloaded to its place, unless a file
  is there already. Paths are taken from the sync folder on,
  on a disk without links that nobody else writes. Every
  request is one step, after which the process may stop.

  Main declarations:
    * `remotePath`, `inScope`, `safeJoin`
    * `RestoreWorld`, `RestoreReq`, `serveRestore`
    * `restoreEntry`, `restoreData`
-/

------------------------------------------------------------
-- Paths
------------------------------------------------------------

open Concurrency FileTree

namespace S4Drive

namespace FolderRestore

open Recovery (Path Bytes Disk displayPath)

inductive RestoreError where
  | core (error : CoreError)
  | symlinkNotAllowed
  | staleWrite (noteId : FileId)
deriving DecidableEq

/- The map from ids to entries; the last one is kept. -/
def byId
    (entries : List FileEntry)
    (id : FileId) : Option FileEntry :=
  entries.reverse.find? fun entry => entry.fileId = id

/-
  The names of the folders above, the outermost first. Every
  round visits another folder.
-/
def foldersAbove
    (entries : List FileEntry) :
    Nat → List FileId → Option FileId →
      Except RestoreError (Option (List Text))
  | _, _, none => .ok (some [])
  | 0, _, some _ =>
      .error (.core (.protocol "Folder cycle in server data"))
  | rounds + 1, visited, some id =>
      if id ∈ visited then
        .error (.core (.protocol "Folder cycle in server data"))
      else
        match byId entries id with
        | none => .ok none
        | some folder =>
            if folder.entryType ≠ .folder then
              .error (.core (.protocol "Invalid parent folder"))
            else
              match foldersAbove entries rounds (id :: visited)
                  folder.parentId with
              | .error e => .error e
              | .ok names =>
                  .ok (names.map (· ++ [folder.name.toList]))

/- The path of an entry, if all its folders are there. -/
def remotePath
    (entries : List FileEntry)
    (entry : FileEntry) : Except RestoreError (Option Text) :=
  match foldersAbove entries (entries.length + 1)
      [entry.fileId] entry.parentId with
  | .error e => .error e
  | .ok names =>
      .ok (names.map fun names =>
        ['/'].intercalate (names ++ [entry.name.toList]))

/- Without a lost Notes root, everything is restored. -/
def inScope
    (path : Text)
    (notesRoot : Option Uuid) : Bool :=
  notesRoot.isNone || path = "Notes".toList ||
    "Notes/".toList.isPrefixOf path

/- The components of a path that stays in the folder. -/
def safeJoin (relative : Text) : Except RestoreError Path :=
  if relative.head? = some '/' ∨
      ['.', '.'] ∈ relative.splitOn '/' then
    .error (.core (.protocol
      ("remote path escapes sync folder: " ++
        String.ofList relative)))
  else
    .ok (ConflictEngine.pathParts relative)

------------------------------------------------------------
-- Requests
------------------------------------------------------------

/- The row of a file or folder in the index. -/
structure RestoredRow where
  localPath : Path
  s3Key : Text
  revision : Option RevisionId
  state : String
deriving DecidableEq

/- The live entries of the server, its blobs and a device. -/
structure RestoreWorld where
  entries : List FileEntry
  blobs : String → Option Bytes
  disk : Disk
  stage : Option Bytes
  activeTransfers : List FileId
  index : FileId → Option RestoredRow

inductive LocalContentToken where
  | missing
  | hash (text : String)
deriving DecidableEq

inductive RestoreReq where
  | remoteEntries
  -- Make the folder unless it is there.
  | ensureFolder (p : Path)
  | capture (p : Path)
  -- Download a blob to a new file beside the target.
  | stageFile (storageKey : String)
  | hashStage
  | publish (p : Path) (fileId : FileId)
  | cancelTransfers (fileId : FileId)
  | register (entry : FileEntry) (p : Path) (s3Key : Text)

abbrev RestoreValue : RestoreReq → Type
  | .remoteEntries => List FileEntry
  | .capture _ => LocalContentToken
  | .hashStage => String × Nat
  | _ => Unit

abbrev RestoreResp (r : RestoreReq) : Type :=
  Except RestoreError (RestoreValue r)

def mustBeDirectory (p : Path) : RestoreError :=
  .core (.fileSystem
    (displayPath p ++ " must be a directory, not a file or link"))

namespace RestoreWorld

variable (w : RestoreWorld)

def setNode (p : Path) (node : Node Bytes) : RestoreWorld :=
  { w with disk := w.disk.set p node }

def setRow (fileId : FileId) (row : RestoredRow) :
    RestoreWorld :=
  { w with
    index := fun id =>
      if id = fileId then some row else w.index id }

end RestoreWorld

variable (blake3 : Bytes → String)

/- `none` where the code never gets to. -/
def serveRestore
    (r : RestoreReq)
    (w : RestoreWorld) :
    Option (RestoreResp r × RestoreWorld) :=
  match r with
  | .remoteEntries => some (.ok w.entries, w)
  | .ensureFolder p =>
      match w.disk.nodeAt p with
      | some .folder => some (.ok (), w)
      | none => some (.ok (), w.setNode p .folder)
      | some _ => some (.error (mustBeDirectory p), w)
  | .capture p =>
      match w.disk.nodeAt p with
      | none => some (.ok .missing, w)
      | some (.file bytes) =>
          some (.ok (.hash ("blake3:" ++ blake3 bytes)), w)
      | some .folder =>
          some (.error (.core (.fileSystem
            "The local item is not a regular file.")), w)
      | some (.other _) => some (.error .symlinkNotAllowed, w)
  | .stageFile key =>
      match w.blobs key with
      | none => some (.error (.core (.notFound key)), w)
      | some bytes =>
          some (.ok (), { w with stage := some bytes })
  | .hashStage =>
      match w.stage with
      | none => none
      | some bytes =>
          some (.ok (blake3 bytes, bytes.length), w)
  | .publish p fileId =>
      match w.stage, w.disk.nodeAt p with
      | none, _ => none
      | some bytes, none =>
          some (.ok (),
            { w.setNode p (.file bytes) with stage := none })
      | some _, some _ => some (.error (.staleWrite fileId), w)
  | .cancelTransfers fileId =>
      some (.ok (),
        { w with
          activeTransfers :=
            w.activeTransfers.filter (· ≠ fileId) })
  | .register entry p s3Key =>
      some (.ok (),
        w.setRow entry.fileId
          ⟨p, s3Key, entry.currentRevisionId, "synced"⟩)

abbrev Restoring :=
  Script RestoreReq RestoreResp RestoreError Unit

def ask (r : RestoreReq) : Restoring (RestoreValue r) :=
  Script.call r id

def createFolders : List Path → Restoring Unit
  | [] => pure ()
  | p :: rest => do
      ask (.ensureFolder p)
      createFolders rest

/- `create_directory`, from the sync folder downwards. -/
def createDirectory (p : Path) : Restoring Unit :=
  createFolders p.inits.tail

def localFileAppeared (target : Path) : RestoreError :=
  .core (.conflict
    ("A local file appeared at " ++ displayPath target ++
      ". Preserve it before retrying recovery."))

def download
    (content : ContentRef)
    (target : Path)
    (fileId : FileId) : Restoring Unit := do
  ask (.stageFile content.storageKey)
  let (hash, size) ← ask .hashStage
  if hash ≠ content.hash ∨ size ≠ content.size then
    Script.throw (.core (.protocol
      "Restored file failed its integrity check"))
  else
    ask (.publish target fileId)

def restoreContent
    (entry : FileEntry)
    (target : Path) : Restoring Unit :=
  match entry.contentRef with
  | none =>
      Script.throw (.core (.protocol
        "Server file has no saved content"))
  | some content => do
      let token ← ask (.capture target)
      match token with
      | .hash hash =>
          if hash ≠ content.hash then
            Script.throw (localFileAppeared target)
          else
            pure ()
      | .missing => download content target entry.fileId

def recordEntry
    (entry : FileEntry)
    (target : Path)
    (relative : Text) : Restoring Unit := do
  ask (.cancelTransfers entry.fileId)
  ask (.register entry target relative)

def restoreAt
    (entry : FileEntry)
    (relative : Text)
    (target : Path) : Restoring Unit :=
  match entry.entryType with
  | .folder => do
      createDirectory target
      recordEntry entry target relative
  | .file => do
      createDirectory target.dropLast
      restoreContent entry target
      recordEntry entry target relative
  | .symlink => pure ()

def restoreEntry
    (entries : List FileEntry)
    (notesRoot : Option Uuid)
    (entry : FileEntry) : Restoring Unit :=
  match remotePath entries entry with
  | .error e => Script.throw e
  | .ok none => pure ()
  | .ok (some relative) =>
      if inScope relative notesRoot then
        match safeJoin relative with
        | .error e => Script.throw e
        | .ok target => restoreAt entry relative target
      else
        pure ()

def restoreEntries
    (entries : List FileEntry)
    (notesRoot : Option Uuid) :
    List FileEntry → Restoring Unit
  | [] => pure ()
  | entry :: rest => do
      restoreEntry entries notesRoot entry
      restoreEntries entries notesRoot rest

def restoreData (notesRoot : Option Uuid) : Restoring Unit := do
  let entries ← ask .remoteEntries
  restoreEntries entries notesRoot entries

end FolderRestore

end S4Drive

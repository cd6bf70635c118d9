import S4Drive.Library.Script
import S4Drive.Library.ThreadSystem
import S4Drive.Notes.Archive

/-
  Extraction of an archive into an empty folder, while other
  processes may change the folder and the archive. Every
  request to the file system is a step; what reading the
  archive yields is left open, so the archive may be
  rewritten at any time.

  Main declarations:
    * `ExtractReq`, `ExtractWorld`, `serveExtract`
    * `stageVerified`, `publishExtracted`, `extractBackup`
    * `extractSystem`
-/

------------------------------------------------------------
-- The World of an Extraction
------------------------------------------------------------

namespace S4Drive

open Concurrency FileTree

/- The output folder and what was read of the archive. -/
structure ExtractWorld where
  output : SharedEntries
  zip : Option ZipFile
  data : List ReadData

/- The requests of an extraction. -/
inductive ExtractReq where
  | outputIsDir
  | openOutput
  | outputIsEmpty
  | openArchive
  -- One pass over the entries of the opened archive.
  | readArchive
  | readEntry (index : Nat)
  | openDir (p : List Text)
  | file (r : EntryReq)

abbrev ExtractResp : ExtractReq → Type
  | .outputIsDir => Bool
  | .openOutput => Except FileError Unit
  | .outputIsEmpty => Except FileError Bool
  | .openArchive => Except FileError (Option ZipFile)
  | .readArchive => List ReadData
  | .readEntry _ => ReadData
  | .openDir _ => Except FileError Unit
  | .file _ => Except FileError Unit

inductive ExtractChoice where
  | ok
  | failed
  | zip (zip : Option ZipFile)
  | data (data : List ReadData)
  | file (k : EntryChoice)

def serveExtract
    (r : ExtractReq)
    (k : ExtractChoice)
    (w : ExtractWorld) : Option (ExtractResp r × ExtractWorld) :=
  match r, k with
  | .outputIsDir, .ok => some (true, w)
  | .outputIsDir, .failed => some (false, w)
  | .openOutput, .ok => some (.ok (), w)
  | .openOutput, .failed => some (.error .failed, w)
  | .outputIsEmpty, .ok =>
      some (.ok (w.output.files.entries = []), w)
  | .outputIsEmpty, .failed => some (.error .failed, w)
  | .openArchive, .zip zip => some (.ok zip, { w with zip := zip })
  | .openArchive, .failed => some (.error .failed, w)
  | .readArchive, .data data => some (data, { w with data := data })
  | .readEntry index, .data data => some (readFrom data index, w)
  | .openDir p, .ok =>
      if w.output.files.nodeAt p = some .folder then
        some (.ok (), w)
      else
        some (.error .failed, w)
  | .openDir _, .failed => some (.error .failed, w)
  | .file r, .file k =>
      (w.output.serve r k).map fun (answer, output) =>
        (answer, { w with output := output })
  | _, _ => none

abbrev ExtractM :=
  Script ExtractReq ExtractResp BackupError Unit

def outputIsDir : ExtractM Bool :=
  Script.request ExtractReq.outputIsDir

def openZip : ExtractM (Option ZipFile) :=
  Script.call ExtractReq.openArchive fun
    | .ok zip => .ok zip
    | .error _ =>
        .error (.fileSystem "Failed to open backup archive")

def readArchive : ExtractM (List ReadData) :=
  Script.request ExtractReq.readArchive

def readEntry (index : Nat) : ExtractM ReadData :=
  Script.request (ExtractReq.readEntry index)

/- A request that fails with this message. -/
def fileStep (r : EntryReq) (message : String) : ExtractM Unit :=
  Script.call (.file r) fun
    | .ok _ => .ok ()
    | .error _ => .error (.fileSystem message)

/- The path that an archive key stands for. -/
def keyPath (key : Text) : List Text :=
  key.splitOn '/'

structure ExtractResult where
  outputDir : String
  files : Nat
  directories : Nat
  bytes : Nat
deriving DecidableEq

/- Write one file entry, checked as its bytes are read again. -/
def stageFile
    (codec : BackupCodec)
    (p : List Text)
    (item : VerifiedItem)
    (total : Nat) : ExtractM Nat := do
  fileStep (.createNew p (.bytes [])) "Failed to extract"
  let data ← readEntry item.zipIndex
  let copied := copyVerified codec data item total
  fileStep (.write p (.bytes copied.1))
    "Failed to write extracted file"
  Script.ofExcept copied.2

def stageItems
    (codec : BackupCodec)
    (staging : Text) :
    List VerifiedItem → Nat → ExtractResult →
      ExtractM ExtractResult
  | [], _, result => pure result
  | item :: rest, total, result =>
      match item.kind with
      | .directory => do
          fileStep (.createDir (staging :: keyPath item.key))
            "Failed to extract"
          stageItems codec staging rest total
            { result with directories := result.directories + 1 }
      | .file => do
          let total ←
            stageFile codec (staging :: keyPath item.key) item
              total
          stageItems codec staging rest total
            { result with
              files := result.files + 1
              bytes := result.bytes + item.size }

/- `atomic::write_exclusive`. -/
def writeExclusive
    (p : List Text)
    (bytes : List UInt8) : ExtractM Unit := do
  fileStep (.createNew p (.bytes [])) "write_exclusive"
  fileStep (.write p (.bytes bytes)) "write_exclusive"

def stageVerified
    (codec : BackupCodec)
    (staging : Text)
    (archive : VerifiedArchive) : ExtractM ExtractResult := do
  let result ←
    stageItems codec staging archive.items 0 ⟨"", 0, 0, 0⟩
  writeExclusive [staging, manifestName] archive.manifestBytes
  pure result

/- Never replaces what is there. -/
def moveNoClobber
    (a b : List Text)
    (name : Text) : ExtractM Unit :=
  Script.call (.file (.moveNew a b)) fun
    | .ok _ => .ok ()
    | .error .alreadyExists =>
        .error (.nameExists (String.ofList name))
    | .error .failed => .error (.fileSystem "move_new")

/- Take `Notes` back, whatever comes of it, and fail. -/
def takeBack
    (staging : Text)
    (error : BackupError) : ExtractM Unit := do
  let _ ← Script.attempt
    (moveNoClobber [notesRootName] [staging, notesRootName]
      notesRootName)
  Script.throw error

/- `Notes` first; without its manifest it is taken back. -/
def publishExtracted (staging : Text) : ExtractM Unit := do
  moveNoClobber [staging, notesRootName] [notesRootName]
    notesRootName
  let moved ← Script.attempt
    (moveNoClobber [staging, manifestName] [manifestName]
      manifestName)
  match moved with
  | .ok _ => pure ()
  | .error e => takeBack staging e

def publishError
    (outputDir : String) : BackupError → BackupError
  | .nameExists _ => .outputDirectoryNotEmpty outputDir
  | other => other

def openStaging (staging : Text) : ExtractM Unit :=
  Script.call (.openDir [staging]) fun
    | .ok _ => .ok ()
    | .error _ =>
        .error (.fileSystem "Failed to use the output folder")

def extractStaged
    (codec : BackupCodec)
    (outputDir : String)
    (staging : Text)
    (archive : VerifiedArchive) : ExtractM ExtractResult := do
  openStaging staging
  let result ← stageVerified codec staging archive
  let published ← Script.attempt (publishExtracted staging)
  match published with
  | .ok _ => pure result
  | .error e => Script.throw (publishError outputDir e)

/- Only the staging of this call is removed. -/
def extractVerified
    (codec : BackupCodec)
    (outputDir : String)
    (staging : Text)
    (archive : VerifiedArchive) : ExtractM ExtractResult := do
  fileStep (.createDir [staging])
    "Failed to use the output folder"
  let extracted ← Script.attempt
    (extractStaged codec outputDir staging archive)
  let _ ← Script.attempt
    (fileStep (.removeDirAll [staging]) "remove_dir_all")
  Script.ofExcept
    (extracted.map fun result =>
      { result with outputDir := outputDir })

/- `uuid` is drawn by the call. -/
structure ExtractCall where
  outputDir : String
  uuid : Text

def ExtractCall.staging (call : ExtractCall) : Text :=
  ".extract-staging-".toList ++ call.uuid

def checkOutput (outputDir : String) : ExtractM Unit := do
  let isDir ← outputIsDir
  if !isDir then
    Script.throw (.fileSystem
      ("Target folder '" ++ outputDir ++
        "' does not exist or is not a directory."))
  else do
    Script.call .openOutput fun
      | .ok _ => .ok ()
      | .error _ =>
          .error (.fileSystem "Failed to use the output folder")
    Script.call .outputIsEmpty fun
      | .ok true => .ok ()
      | .ok false => .error (.outputDirectoryNotEmpty outputDir)
      | .error _ =>
          .error (.fileSystem "Failed to use the output folder")

/- Verify and extract read one open archive. -/
def extractBackup
    (codec : BackupCodec)
    (call : ExtractCall) : ExtractM ExtractResult := do
  checkOutput call.outputDir
  let zip ← openZip
  let opened ← Script.ofExcept (openArchive zip)
  let data ← readArchive
  let archive ← Script.ofExcept
    (verifyArchive codec opened (readFrom data))
  extractVerified codec call.outputDir call.staging archive

def extractMachine :
    Machine ExtractReq ExtractResp ExtractWorld Unit
      ExtractChoice where
  serve := fun _ => serveExtract

/- Calls, one at a time; others change the output folder. -/
def extractSystem (codec : BackupCodec) :
    ThreadSystem ExtractReq ExtractResp ExtractWorld Unit
      ExtractChoice ExtractCall (BackupExcept ExtractResult)
      Unit (Change Text FileBody) where
  toMachine := extractMachine
  body := fun call v => extractBackup codec call v
  boot := ()
  -- What was there before the call is what others put there.
  begin := fun _ _ _ w =>
    some ⟨⟨w.output.files, w.output.files⟩, none, []⟩
  finish := fun _ _ _ _ _ w => w
  halt := fun _ w => w
  env := fun c w =>
    (w.output.change c).map fun output =>
      { w with output := output }

abbrev ExtractState :=
  SystemState ExtractReq ExtractResp ExtractWorld Unit
    ExtractCall (BackupExcept ExtractResult) Unit

end S4Drive

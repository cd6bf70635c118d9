import Mathlib.Data.List.Lex
import Mathlib.Data.List.Sort
import S4Drive.Core.Text
import S4Drive.Library.SharedFolder

/-
  The backup archive: the names that it may hold, its
  manifest, and the check that the two describe the same
  tree. A ZIP file is what the ZIP reader makes of it: the
  records of its central directory, in order, and what
  reading an entry yields at the time it is read.

  Main declarations:
    * `validatePortableComponent`, `validatedArchiveKey`
    * `EntryIndex`
    * `ZipFile`, `BackupManifest`
    * `copyVerified`, `verifyArchive`
-/

------------------------------------------------------------
-- Errors
------------------------------------------------------------

namespace S4Drive

/- The errors of the core that backups can meet. -/
inductive BackupError where
  | fileSystem (message : String)
  | internal (message : String)
  | database (message : String)
  | invalidName (message : String)
  | nameExists (name : String)
  | symlinkNotAllowed
  | destinationInsideSyncFolder
  | targetExists (name : String)
  | cancelled
  | notesChanged
  | cloudOnlyUnavailable (count : Nat)
  | archiveCorrupted (message : String)
  | archiveQuotaExceeded (message : String)
  | outputDirectoryNotEmpty (path : String)
deriving DecidableEq

abbrev BackupExcept := Except BackupError

def notesRootName : Text := "Notes".toList

def manifestName : Text := "manifest.json".toList

/- `char::is_control`: Unicode's Cc. -/
def isControl (c : Char) : Bool :=
  c.toNat < 0x20 || (0x7F ≤ c.toNat && c.toNat < 0xA0)

def reservedStems : List Text :=
  ["con", "prn", "aux", "nul", "com1", "com2", "com3", "com4",
    "com5", "com6", "com7", "com8", "com9", "lpt1", "lpt2",
    "lpt3", "lpt4", "lpt5", "lpt6", "lpt7", "lpt8",
    "lpt9"].map String.toList

/- ASCII letters only, as `to_ascii_lowercase`. -/
def asciiLower (c : Char) : Char :=
  if 'A' ≤ c ∧ c ≤ 'Z' then Char.ofNat (c.toNat + 32) else c

/- A name that means one entry on every supported system. -/
def validatePortableComponent
    (name : Text) : BackupExcept Unit :=
  if name.all isWhitespace || name = ['.'] ||
      name = ['.', '.'] then
    .error (.invalidName "Enter a name.")
  else if name.any fun c =>
      isControl c || c ∈ ['/', '\\', '<', '>', ':', '"', '|',
        '?', '*'] then
    .error (.invalidName
      "This name contains unsupported characters.")
  else if name.getLast? = some '.' ||
      name.getLast? = some ' ' then
    .error (.invalidName
      "Names cannot end with a dot or space.")
  else if (name.map asciiLower).takeWhile (· ≠ '.') ∈
      reservedStems then
    .error (.invalidName
      "This name is reserved by your operating system.")
  else
    .ok ()

def corrupted (message : String) : BackupError :=
  .archiveCorrupted message

/- A text in the quotes that messages put around it. -/
def quoted (text : Text) : String :=
  "'" ++ String.ofList text ++ "'"

def unsafePath (raw : Text) (reason : String) : BackupError :=
  corrupted
    ("Unsafe path " ++ quoted raw ++ " in archive: " ++ reason)

/-
  The single meaning of a raw archive path. The only
  variation is one trailing `/` on a folder.
-/
def archiveKey (raw : Text) (isDir : Bool) :
    BackupExcept Text :=
  if raw.getLast? = some '/' then
    if isDir then
      .ok raw.dropLast
    else
      .error (unsafePath raw "a file name ends with '/'")
  else
    .ok raw

def isPortable (name : Text) : Bool :=
  match validatePortableComponent name with
  | .ok _ => true
  | .error _ => false

def validatedArchiveKey
    (raw : Text)
    (isDir : Bool) : BackupExcept Text := do
  let key ← archiveKey raw isDir
  let components := key.splitOn '/'
  if components.head? ≠ some notesRootName then
    .error (unsafePath raw "it is outside the Notes folder")
  else
    match components.tail.find? (!isPortable ·) with
    | some component =>
        .error (unsafePath raw
          (quoted component ++ " is not a portable name"))
    | none => .ok key

/- The key of the folder that holds an entry. -/
def parentKey (key : Text) : Option Text :=
  let folders := (key.splitOn '/').dropLast
  if folders.isEmpty then
    none
  else
    some (['/'].intercalate folders)

/- One entry of `manifest.json`. -/
structure BackupManifestEntry where
  path : Text
  kind : String
  size : Nat
  blake3 : Option String
deriving DecidableEq

structure BackupManifest where
  format : String
  version : Nat
  createdAt : String
  appVersion : String
  includesPending : Bool
  entries : List BackupManifestEntry
deriving DecidableEq

/-
  What backups use of other code: the hash, the Unicode
  normalization with case folding, and JSON.
-/
structure BackupCodec where
  blake3 : List UInt8 → String
  portableNameKey : Text → Text
  serializeManifest : BackupManifest → List UInt8
  parseManifest : List UInt8 → Option BackupManifest

def backupFormat : String := "s4drive-notes-backup"

def backupVersion : Nat := 1

def maxBackupEntries : Nat := 100000

def maxTotalUncompressedBytes : Nat :=
  20 * 1024 * 1024 * 1024

def maxSingleFileBytes : Nat := 8 * 1024 * 1024 * 1024

def maxManifestBytes : Nat := 128 * 1024 * 1024

/- What reading an entry yields, and whether it then fails. -/
structure ReadData where
  bytes : List UInt8
  failed : Bool
deriving DecidableEq

/- An entry of the central directory. -/
structure ZipEntry where
  -- Its record can be inspected.
  inspectable : Bool
  name : Text
  isDir : Bool
  isSymlink : Bool
  -- The size that the record states.
  size : Nat
deriving DecidableEq

/- A ZIP file by the records of its central directory. -/
structure ZipFile where
  directory : List ZipEntry
deriving DecidableEq

/- The last record of a name takes the place of the first. -/
def keepLast
    (entry : ZipEntry) : List ZipEntry → List ZipEntry
  | [] => [entry]
  | x :: rest =>
      if x.name = entry.name then entry :: rest
      else x :: keepLast entry rest

namespace ZipFile

/- The entries of the reader: one of each name. -/
def entries (zip : ZipFile) : List ZipEntry :=
  zip.directory.foldl (fun kept entry => keepLast entry kept) []

/- The count of the records ends just above the limit. -/
def centralDirectoryRecords (zip : ZipFile) : Nat :=
  min zip.directory.length (maxBackupEntries + 1)

end ZipFile

/- A ZIP file with what its entries yield. -/
structure StoredZip where
  file : ZipFile
  data : List ReadData
deriving DecidableEq

/- What reading the entry at an index yields. -/
def readFrom (data : List ReadData) (index : Nat) : ReadData :=
  data.getD index ⟨[], true⟩

/- The contents of a file. -/
inductive FileBody where
  | bytes (bytes : List UInt8)
  | zip (zip : StoredZip)
  -- A ZIP file that has not been finished.
  | unfinished
deriving DecidableEq

/- The entries below a folder, by the names on their paths. -/
abbrev Entries := FileTree.Files Text FileBody

abbrev SharedEntries := FileTree.Shared Text FileBody

abbrev EntryReq := FileTree.FileReq Text FileBody

abbrev EntryChoice := FileTree.FileChoice Text FileBody

def checkArchive (zip : ZipFile) : BackupExcept ZipFile :=
  if zip.entries.length > maxBackupEntries then
    .error (.archiveQuotaExceeded
      ("Entry count " ++ toString zip.entries.length ++
        " exceeds limit of " ++ toString maxBackupEntries))
  else if zip.centralDirectoryRecords ≠
      zip.entries.length then
    .error (corrupted
      "Archive holds several entries with the same name")
  else
    .ok zip

/- `None` stands for a file that is no ZIP archive. -/
def openArchive (zip : Option ZipFile) : BackupExcept ZipFile :=
  match zip with
  | none => .error (corrupted "Invalid zip archive")
  | some zip => checkArchive zip

inductive ItemKind where
  | directory
  | file
deriving DecidableEq

/- An archive entry that passed every check. -/
structure VerifiedItem where
  key : Text
  kind : ItemKind
  zipIndex : Nat
  size : Nat
  blake3 : Option String
deriving DecidableEq

structure VerifiedArchive where
  manifest : BackupManifest
  manifestBytes : List UInt8
  -- Sorted by key, so every folder precedes its contents.
  items : List VerifiedItem
deriving DecidableEq

/- Entries by key; keys that are one file elsewhere clash. -/
structure EntryIndex (α : Type) where
  byKey : List (Text × α)
  portable : List Text

namespace EntryIndex

variable {α : Type}

def new : EntryIndex α :=
  ⟨[], []⟩

def insert
    (codec : BackupCodec)
    (index : EntryIndex α)
    (key : Text)
    (value : α)
    (origin : String) : BackupExcept (EntryIndex α) :=
  if codec.portableNameKey key ∈ index.portable then
    .error (corrupted
      (quoted key ++ " appears more than once in the " ++
        origin))
  else
    .ok ⟨index.byKey.orderedInsert (fun a b => a.1 ≤ b.1)
        (key, value),
      codec.portableNameKey key :: index.portable⟩

def keys (index : EntryIndex α) : List Text :=
  index.byKey.map Prod.fst

end EntryIndex

------------------------------------------------------------
-- Reading an Archive
------------------------------------------------------------

def manifestKind
    (entry : BackupManifestEntry) : BackupExcept ItemKind :=
  if entry.kind = "directory" ∧ entry.blake3 = none ∧
      entry.size = 0 then
    .ok .directory
  else if entry.kind = "file" ∧ entry.blake3.isSome ∧
      entry.size ≤ maxSingleFileBytes then
    .ok .file
  else
    .error (corrupted
      ("Manifest entry " ++ quoted entry.path ++
        " has an invalid kind, size or checksum"))

def manifestItem
    (entry : BackupManifestEntry) :
    BackupExcept (Text × ItemKind) := do
  let kind ← manifestKind entry
  let key ←
    validatedArchiveKey entry.path (kind = .directory)
  .ok (key, kind)

def readManifest
    (codec : BackupCodec)
    (entry : ZipEntry)
    (data : ReadData) :
    BackupExcept (BackupManifest × List UInt8) :=
  if entry.size > maxManifestBytes then
    .error (.archiveQuotaExceeded "manifest.json is too large")
  else if data.failed ∧
      data.bytes.length ≤ maxManifestBytes then
    .error (corrupted "Failed to read manifest.json")
  else if data.bytes.length > maxManifestBytes then
    .error (.archiveQuotaExceeded "manifest.json is too large")
  else
    match codec.parseManifest data.bytes with
    | none => .error (corrupted "Failed to parse manifest.json")
    | some manifest =>
        if manifest.format ≠ backupFormat then
          .error (corrupted
            ("Unsupported backup format: '" ++
              manifest.format ++ "'"))
        else if manifest.version ≠ backupVersion then
          .error (corrupted
            ("Unsupported backup version: " ++
              toString manifest.version))
        else
          .ok (manifest, data.bytes)

/-
  Stream one file entry, refusing it unless its bytes match
  the manifest. The first part is what has been written when
  it ends (up to a chunk), the second the new total.
-/
def copyVerified
    (codec : BackupCodec)
    (data : ReadData)
    (item : VerifiedItem)
    (total : Nat) : List UInt8 × BackupExcept Nat :=
  let bytes := data.bytes.take (item.size + 1)
  if total + bytes.length > maxTotalUncompressedBytes then
    (bytes.take (maxTotalUncompressedBytes - total),
      .error (.archiveQuotaExceeded
        "Total uncompressed bytes exceed 20 GiB limit"))
  else if data.failed ∧ data.bytes.length ≤ item.size then
    (bytes, .error (corrupted
      ("Failed to read entry " ++ quoted item.key)))
  else if bytes.length ≠ item.size then
    (bytes, .error (corrupted
      ("Entry " ++ quoted item.key ++
        " size does not match the manifest")))
  else if item.blake3 ≠ some (codec.blake3 bytes) then
    (bytes, .error (corrupted
      ("BLAKE3 checksum mismatch for " ++
        quoted item.key)))
  else
    (bytes, .ok (total + bytes.length))

def kindOf (isDir : Bool) : ItemKind :=
  if isDir then .directory else .file

/- The entries of the archive and where the manifest is. -/
def inspectEntries
    (codec : BackupCodec) :
    List ZipEntry → Nat → List Nat →
      EntryIndex (ItemKind × Nat) →
      BackupExcept (List Nat × EntryIndex (ItemKind × Nat))
  | [], _, manifestIndexes, stored =>
      .ok (manifestIndexes, stored)
  | entry :: rest, index, manifestIndexes, stored =>
      if !entry.inspectable then
        .error (corrupted
          ("Failed to inspect zip entry #" ++ toString index))
      else if entry.name = manifestName then
        inspectEntries codec rest (index + 1)
          (manifestIndexes ++ [index]) stored
      else if entry.isSymlink then
        .error (corrupted
          ("Archive entry " ++ quoted entry.name ++
            " is a link"))
      else if entry.size > maxSingleFileBytes then
        .error (.archiveQuotaExceeded
          ("File " ++ quoted entry.name ++
            " exceeds 8 GiB limit"))
      else do
        let key ← validatedArchiveKey entry.name entry.isDir
        let stored ←
          stored.insert codec key
            (kindOf entry.isDir, index) "archive"
        inspectEntries codec rest (index + 1) manifestIndexes
          stored

def listEntries
    (codec : BackupCodec) :
    List BackupManifestEntry →
      EntryIndex (ItemKind × BackupManifestEntry) →
      BackupExcept
        (EntryIndex (ItemKind × BackupManifestEntry))
  | [], listed => .ok listed
  | entry :: rest, listed => do
      let item ← manifestItem entry
      let listed ←
        listed.insert codec item.1 (item.2, entry) "manifest"
      listEntries codec rest listed

/- Every listed entry is stored, as what it is listed. -/
def checkStored
    (stored : EntryIndex (ItemKind × Nat)) :
    List (Text × ItemKind × BackupManifestEntry) →
      BackupExcept Unit
  | [] => .ok ()
  | (key, kind, _) :: rest =>
      match stored.byKey.lookup key with
      | none =>
          .error (corrupted
            (quoted key ++ " is listed in the manifest but " ++
              "missing from the archive"))
      | some (storedKind, _) =>
          if storedKind ≠ kind then
            .error (corrupted
              (quoted key ++ " is a file on one side and a " ++
                "folder on the other"))
          else
            checkStored stored rest

def isFolder
    (listed : EntryIndex (ItemKind × BackupManifestEntry))
    (key : Text) : Bool :=
  match listed.byKey.lookup key with
  | some (.directory, _) => true
  | _ => false

def checkFolders
    (stored : EntryIndex (ItemKind × Nat))
    (listed : EntryIndex (ItemKind × BackupManifestEntry)) :
    BackupExcept Unit :=
  match stored.keys.find? (· ∉ listed.keys) with
  | some key =>
      .error (corrupted
        (quoted key ++ " is in the archive but not listed in " ++
          "the manifest"))
  | none =>
      if !isFolder listed notesRootName then
        .error (corrupted "Archive has no Notes folder")
      else
        match listed.keys.find? (fun key =>
            !(parentKey key).all (isFolder listed)) with
        | some key =>
            .error (corrupted
              (quoted key ++ " is not inside a listed folder"))
        | none => .ok ()

/- The item of a listed entry. -/
def itemOf
    (stored : EntryIndex (ItemKind × Nat))
    (listed : Text × ItemKind × BackupManifestEntry) :
    VerifiedItem where
  key := listed.1
  kind := listed.2.1
  zipIndex :=
    ((stored.byKey.lookup listed.1).map fun x => x.2).getD 0
  size := listed.2.2.size
  blake3 := listed.2.2.blake3

/- `read` is what reading an entry yields. -/
def verifyItem
    (codec : BackupCodec)
    (read : Nat → ReadData)
    (item : VerifiedItem)
    (total : Nat) : BackupExcept Nat :=
  if item.kind = .file then
    (copyVerified codec (read item.zipIndex) item total).2
  else
    .ok total

def verifyItems
    (codec : BackupCodec)
    (read : Nat → ReadData)
    (stored : EntryIndex (ItemKind × Nat)) :
    List (Text × ItemKind × BackupManifestEntry) → Nat →
      BackupExcept (List VerifiedItem)
  | [], _ => .ok []
  | listed :: rest, total => do
      let total ←
        verifyItem codec read (itemOf stored listed) total
      let items ← verifyItems codec read stored rest total
      .ok (itemOf stored listed :: items)

/-
  The manifest and the ZIP describe exactly the same tree:
  one root folder, every entry once, with the same kind on
  both sides, inside a listed folder, and with its bytes.
-/
def verifyArchive
    (codec : BackupCodec)
    (zip : ZipFile)
    (read : Nat → ReadData) : BackupExcept VerifiedArchive := do
  let found ← inspectEntries codec zip.entries 0 [] .new
  match found.1 with
  | [manifestIndex] =>
      match zip.entries[manifestIndex]? with
      | none => .error (corrupted "Failed to read manifest.json")
      | some entry => do
          let parsed ←
            readManifest codec entry (read manifestIndex)
          let listed ← listEntries codec parsed.1.entries .new
          checkStored found.2 listed.byKey
          checkFolders found.2 listed
          let items ←
            verifyItems codec read found.2 listed.byKey 0
          .ok ⟨parsed.1, parsed.2, items⟩
  | indexes =>
      .error (corrupted
        ("Archive must hold exactly one manifest.json, found " ++
          toString indexes.length))

/- `verify_backup` of what stands at a path. -/
def verifyBackup
    (codec : BackupCodec)
    (zip : Option ZipFile)
    (read : Nat → ReadData) : BackupExcept BackupManifest := do
  let opened ← openArchive zip
  let verified ← verifyArchive codec opened read
  .ok verified.manifest

/- A manifest that lists the Notes folder alone. -/
def sampleManifest : BackupManifest where
  format := backupFormat
  version := backupVersion
  createdAt := "2026-01-01T00:00:00+00:00"
  appVersion := "1.0.0"
  includesPending := false
  entries := [⟨notesRootName, "directory", 0, none⟩]

def sampleCodec : BackupCodec where
  blake3 := fun bytes => toString bytes.length
  portableNameKey := fun name => name
  serializeManifest := fun _ => [1]
  parseManifest := fun bytes =>
    if bytes = [1] then some sampleManifest else none

end S4Drive

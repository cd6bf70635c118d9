import Mathlib.Data.List.Lex
import Mathlib.Data.List.Sort
import S4Drive.Library.FileTree
import S4Drive.Recovery.Entries

/-
  How disaster recovery writes the live entries into a
  folder. Paths are absolute, on one disk without links. The
  list of entries is in the order in which the map yields
  them; the restore goes through them sorted by path.

  Main declarations:
    * `blobSourcePath`, `foundBlob`
    * `chooseRestoreTarget`
    * `restoreItem`, `restoreEntriesToOutput`
-/

------------------------------------------------------------
-- Disks
------------------------------------------------------------

namespace S4Drive

open FileTree

namespace Recovery

abbrev Path := List Text

abbrev Bytes := List UInt8

abbrev Disk := Files Text Bytes

def isDir (disk : Disk) (p : Path) : Bool :=
  p = [] || disk.nodeAt p = some .folder

def fileAt (disk : Disk) (p : Path) : Option Bytes :=
  match disk.nodeAt p with
  | some (.file body) => some body
  | _ => none

/- Whether a path leads through folders only, or nothing. -/
def folderWay (disk : Disk) (p : Path) : Bool :=
  p.inits.tail.all fun q =>
    disk.nodeAt q = none || disk.nodeAt q = some .folder

/- Make one folder, unless something is there. -/
def createDir (disk : Disk) (p : Path) : Disk :=
  if disk.nodeAt p = none then disk.set p .folder else disk

/- `fs::create_dir_all`: a file on the way makes it fail. -/
def createDirAll (disk : Disk) (p : Path) : Option Disk :=
  if folderWay disk p then
    some (p.inits.tail.foldl createDir disk)
  else
    none

/- Whether a file can be opened for writing here. -/
def canWrite (disk : Disk) (p : Path) : Bool :=
  disk.nodeAt p = none || (fileAt disk p).isSome

/- The target is truncated before the source is read. -/
def copiedBytes
    (source target : Path)
    (body : Bytes) : Bytes :=
  if source = target then [] else body

/- `fs::copy`, with the bytes that were copied. -/
def copyFile
    (disk : Disk)
    (source target : Path) : Option (Disk × Bytes) :=
  match fileAt disk source with
  | none => none
  | some body =>
      if canWrite disk target then
        let copied := copiedBytes source target body
        some (disk.set target (.file copied), copied)
      else
        none

/-
  Where the system gets from `cursor` along the parts of a
  path as they are, with `..` taken on the way.
-/
def walk (disk : Disk) : Path → List Text → Option Path
  | cursor, [] => some cursor
  | cursor, part :: rest =>
      if isDir disk cursor then
        if part = [] ∨ part = ['.'] then
          walk disk cursor rest
        else if part = ['.', '.'] then
          walk disk cursor.dropLast rest
        else
          walk disk (cursor ++ [part]) rest
      else
        none

/- `Path::join`: an absolute text replaces the path. -/
def joinText (base : List Text) (text : Text) : List Text :=
  if text.head? = some '/' then
    text.splitOn '/'
  else
    base ++ text.splitOn '/'

def displayPath (p : Path) : String :=
  String.ofList (p.flatMap fun part => '/' :: part)

/- The first two bytes, if a character ends there. -/
def bytePrefix : Text → Option Text
  | a :: b :: _ =>
      if a.utf8Size = 2 then some [a]
      else if a.utf8Size = 1 ∧ b.utf8Size = 1 then some [a, b]
      else none
  | [a] => if a.utf8Size = 2 then some [a] else none
  | [] => none

def metadataPrefix : Text :=
  ".s4drive/".toList

/- The hash of a content is not checked before it is joined. -/
def blobSourcePath
    (disk : Disk)
    (root : Path)
    (contentRef : ContentRef) : Except String (List Text) :=
  let storageKey := contentRef.storageKey.toList
  let key :=
    if metadataPrefix.isPrefixOf storageKey then
      storageKey.drop metadataPrefix.length
    else
      storageKey
  match safeRelativePath (String.ofList key) with
  | .error error => .error error
  | .ok relative =>
      if disk.nodeAt (root ++ relative) ≠ none then
        .ok (root ++ relative)
      else if 2 ≤ contentRef.hash.utf8ByteSize then
        match bytePrefix contentRef.hash.toList with
        | none => .error "invalid content hash prefix"
        | some hashPrefix =>
            let blobs := root ++ ["content".toList, "blobs".toList]
            .ok (joinText (joinText blobs hashPrefix)
              contentRef.hash.toList)
      else
        .error
          ("content_ref has invalid storage key and hash: " ++
            contentRef.storageKey)

/- The file that a path leads to, with its bytes. -/
def sourceFile
    (disk : Disk)
    (parts : List Text) : Option (Path × Bytes) :=
  match walk disk [] parts with
  | none => none
  | some source => (fileAt disk source).map (source, ·)

/- The blob of a live file, as the restore looks for it. -/
def foundBlob
    (disk : Disk)
    (root : Path)
    (entry : FileEntry) : Option (Path × Bytes) :=
  if entry.entryType = .folder then
    none
  else
    match entry.contentRef with
    | none => none
    | some contentRef =>
        match blobSourcePath disk root contentRef with
        | .error _ => none
        | .ok parts => sourceFile disk parts

/- A name up to its last dot and what follows it. -/
def splitExtension (name : Text) : Option (Text × Text) :=
  match name.reverse.span (· ≠ '.') with
  | (_, []) => none
  | (_, [_]) => none
  | (ext, _ :: stem) => some (stem.reverse, ext.reverse)

def restoreConflictName
    (fileName : Text)
    (fileId : FileId)
    (counter : Nat) : Text :=
  let shortId := (toString fileId).toList.take 8
  let suffix := "restored ".toList ++ shortId ++
    ' ' :: Nat.toDigits 10 counter
  match splitExtension fileName with
  | some (stem, ext) =>
      stem ++ " (".toList ++ suffix ++ ").".toList ++ ext
  | none => fileName ++ " (".toList ++ suffix ++ ")".toList

example :
    restoreConflictName "a.tar.gz".toList 1234567890 2 =
      "a.tar (restored 12345678 2).gz".toList := by
  decide +kernel

def restoreConflictPath
    (requested : Path)
    (fileId : FileId)
    (counter : Nat) : Path :=
  requested.dropLast ++
    [restoreConflictName (requested.getLastD []) fileId counter]

/- Nothing is there, and nothing is going to be. -/
def isFree
    (disk : Disk)
    (plannedPaths : List Path)
    (p : Path) : Bool :=
  disk.nodeAt p = none && p ∉ plannedPaths

/- The first free one of some names, from `counter` on. -/
def freeConflictPath
    (disk : Disk)
    (plannedPaths : List Path)
    (requested : Path)
    (fileId : FileId) : Nat → Nat → Path
  | 0, counter => restoreConflictPath requested fileId counter
  | steps + 1, counter =>
      let candidate :=
        restoreConflictPath requested fileId counter
      if isFree disk plannedPaths candidate then
        candidate
      else
        freeConflictPath disk plannedPaths requested fileId
          steps (counter + 1)

/-
  Every name that is taken is one of an entry of the disk or
  was planned, so as many steps as there are of these
  suffice.
-/
def chooseRestoreTarget
    (disk : Disk)
    (requested : Path)
    (fileId : FileId)
    (overwrite : Bool)
    (plannedPaths : List Path) : Path :=
  if overwrite = true ∧ requested ∉ plannedPaths then
    requested
  else if isFree disk plannedPaths requested then
    requested
  else
    freeConflictPath disk plannedPaths requested fileId
      (disk.entries.length + plannedPaths.length) 1

------------------------------------------------------------
-- Restore
------------------------------------------------------------

structure RestoreReport where
  filesRestored : Nat
  foldersCreated : Nat
  deletedSkipped : Nat
  metadataSkipped : Nat
  missingBlobs : Nat
  pathConflicts : Nat

structure RestoreItem where
  fileId : FileId
  entry : FileEntry
  path : Path
deriving DecidableEq

/- A file that was read, and what was written where. -/
structure Copy where
  fileId : FileId
  source : Path
  target : Path
  body : Bytes

structure RestoreState where
  disk : Disk
  plannedPaths : List Path
  report : RestoreReport
  copies : List Copy

/- What the restore is called with. -/
structure RestoreJob where
  root : Path
  output : Path
  overwrite : Bool

def restoreTarget
    (job : RestoreJob)
    (s : RestoreState)
    (item : RestoreItem) : Path :=
  chooseRestoreTarget s.disk (job.output ++ item.path)
    item.fileId job.overwrite s.plannedPaths

/- Copy the blob of an entry to a target of its own. -/
def restoreFile
    (job : RestoreJob)
    (s : RestoreState)
    (item : RestoreItem)
    (contentRef : ContentRef)
    (source : Path) : RestoreState × Except String Unit :=
  let target := restoreTarget job s item
  let conflicts :=
    if target ≠ job.output ++ item.path then 1 else 0
  let planned : RestoreState :=
    { s with
      plannedPaths := target :: s.plannedPaths
      report.pathConflicts := s.report.pathConflicts + conflicts }
  match createDirAll s.disk target.dropLast with
  | none =>
      (planned, .error
        ("create parent " ++ displayPath target.dropLast))
  | some disk =>
      match copyFile disk source target with
      | none =>
          ({ planned with disk := disk }, .error
            ("copy " ++ displayPath source ++ " -> " ++
              displayPath target))
      | some (disk, copied) =>
          let done : RestoreState :=
            { planned with
              disk := disk
              copies := s.copies ++
                [⟨item.fileId, source, target, copied⟩] }
          if copied.length ≠ contentRef.size then
            (done, .error
              ("copied size mismatch for " ++
                displayPath target ++ ": expected " ++
                toString contentRef.size ++ ", got " ++
                toString copied.length))
          else
            ({ done with
                report.filesRestored :=
                  s.report.filesRestored + 1 }, .ok ())

def RestoreState.skipped (s : RestoreState) : RestoreState :=
  { s with
    report.metadataSkipped := s.report.metadataSkipped + 1 }

/- What is not a folder is restored from its blob. -/
def restoreBlob
    (job : RestoreJob)
    (s : RestoreState)
    (item : RestoreItem) : RestoreState × Except String Unit :=
  match item.entry.contentRef with
  | none => (s.skipped, .ok ())
  | some contentRef =>
      match blobSourcePath s.disk job.root contentRef with
      | .error _ => (s.skipped, .ok ())
      | .ok parts =>
          match sourceFile s.disk parts with
          | none =>
              ({ s with
                  report.missingBlobs :=
                    s.report.missingBlobs + 1 }, .ok ())
          | some (source, _) =>
              restoreFile job s item contentRef source

def restoreItem
    (job : RestoreJob)
    (s : RestoreState)
    (item : RestoreItem) : RestoreState × Except String Unit :=
  match item.entry.entryType with
  | .folder =>
      let target := job.output ++ item.path
      match createDirAll s.disk target with
      | none =>
          (s, .error ("create folder " ++ displayPath target))
      | some disk =>
          ({ s with
              disk := disk
              report.foldersCreated :=
                s.report.foldersCreated + 1 }, .ok ())
  | .file => restoreBlob job s item
  | .symlink => restoreBlob job s item

/- The first error ends the restore. -/
def restoreItems
    (job : RestoreJob) :
    RestoreState → List RestoreItem →
      RestoreState × Except String Unit
  | s, [] => (s, .ok ())
  | s, item :: rest =>
      match restoreItem job s item with
      | (next, .ok ()) => restoreItems job next rest
      | (next, .error error) => (next, .error error)

/- The entry is live, and has a path. -/
def itemOf
    (entries : Entries)
    (x : FileId × FileEntry) : Option RestoreItem :=
  if isGone entries x.1 then
    none
  else
    match entryRelativePath x.1 entries with
    | .ok path => some ⟨x.1, x.2, path⟩
    | .error _ => none

def sortedItems (entries : Entries) : List RestoreItem :=
  (entries.filterMap (itemOf entries)).insertionSort
    fun a b => a.path ≤ b.path

def initialRestore
    (disk : Disk)
    (entries : Entries) : RestoreState where
  disk := disk
  plannedPaths := []
  report :=
    { filesRestored := 0
      foldersCreated := 0
      deletedSkipped := entries.countP fun x =>
        isGone entries x.1
      metadataSkipped := entries.countP fun x =>
        !isGone entries x.1 && (itemOf entries x).isNone
      missingBlobs := 0
      pathConflicts := 0 }
  copies := []

def restoreEntriesToOutput
    (job : RestoreJob)
    (disk : Disk)
    (entries : Entries) : RestoreState × Except String Unit :=
  restoreItems job (initialRestore disk entries)
    (sortedItems entries)

end Recovery

end S4Drive

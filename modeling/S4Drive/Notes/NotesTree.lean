import Mathlib.Logic.Function.Basic
import S4Drive.Notes.Archive

/-
  The Notes folder as the file system has it: folders are
  inodes with names, so that an open folder or file is
  followed wherever it is moved. Other processes write files
  and create, remove and rename entries at any time; every
  change gives what it touches a new modification time.

  Main declarations:
    * `OsName`, `Inode`, `NotesTree`
    * `TreeChange`, `NotesTree.change`
    * `TreeReq`, `serveTree`
    * `NotesTree.walk`
-/

------------------------------------------------------------
-- Trees
------------------------------------------------------------

namespace S4Drive

open FileTree

abbrev InodeId := Nat

/- A file name; `text` is lossy where it is not valid text. -/
structure OsName where
  text : Text
  valid : Bool
deriving DecidableEq

inductive InodeKind where
  | folder (entries : List (OsName × InodeId))
  | file (bytes : List UInt8)
  | symlink
  | special
deriving DecidableEq

structure Inode where
  kind : InodeKind
  mtime : Nat
deriving DecidableEq

/- No inode has been modified after the clock. -/
structure NotesTree where
  inode : InodeId → Option Inode
  root : InodeId
  clock : Nat

/- What `symlink_metadata` says of an entry. -/
inductive FileKind where
  | folder
  | file
  | symlink
  | special
deriving DecidableEq

structure Metadata where
  type : FileKind
  size : Nat
  mtime : Nat
deriving DecidableEq

def InodeKind.type : InodeKind → FileKind
  | folder _ => .folder
  | file _ => .file
  | symlink => .symlink
  | special => .special

def InodeKind.size : InodeKind → Nat
  | file bytes => bytes.length
  | _ => 0

def Inode.metadata (i : Inode) : Metadata :=
  ⟨i.kind.type, i.kind.size, i.mtime⟩

namespace NotesTree

def kindOf (tree : NotesTree) (id : InodeId) : Option InodeKind :=
  (tree.inode id).map Inode.kind

/- The entries of a folder. -/
def entriesOf
    (tree : NotesTree)
    (dir : InodeId) : Option (List (OsName × InodeId)) :=
  match tree.kindOf dir with
  | some (.folder entries) => some entries
  | _ => none

/- The entry of a name in an open folder. -/
def entry
    (tree : NotesTree)
    (dir : InodeId)
    (name : OsName) : Option InodeId :=
  (tree.entriesOf dir).bind fun entries => entries.lookup name

/- The inode at a path below a folder. -/
def walk
    (tree : NotesTree) : InodeId → List OsName → Option InodeId
  | dir, [] => some dir
  | dir, name :: rest =>
      (tree.entry dir name).bind fun id => tree.walk id rest

/- Write an inode with a new modification time. -/
def set
    (tree : NotesTree)
    (id : InodeId)
    (kind : InodeKind) : NotesTree where
  inode :=
    Function.update tree.inode id (some ⟨kind, tree.clock + 1⟩)
  root := tree.root
  clock := tree.clock + 1

end NotesTree

/- What other processes do in the Notes folder. -/
inductive TreeChange where
  | write (file : InodeId) (bytes : List UInt8)
  -- `id` is a new inode; a folder starts empty.
  | create
      (dir : InodeId) (name : OsName) (id : InodeId)
      (kind : InodeKind)
  | remove (dir : InodeId) (name : OsName)
  -- Replaces what has the new name.
  | rename
      (dir : InodeId) (name : OsName)
      (dir' : InodeId) (name' : OsName)
deriving DecidableEq

/- The folders whose entries a change is about. -/
def TreeChange.touches : TreeChange → List InodeId
  | write _ _ => []
  | create dir _ _ _ => [dir]
  | remove dir _ => [dir]
  | rename dir _ dir' _ => [dir, dir']

namespace NotesTree

def without
    (entries : List (OsName × InodeId))
    (name : OsName) : List (OsName × InodeId) :=
  entries.filter fun e => e.1 ≠ name

/- `None` where a change is not possible. -/
def change (tree : NotesTree) : TreeChange → Option NotesTree
  | .write file bytes =>
      match tree.kindOf file with
      | some (.file _) => some (tree.set file (.file bytes))
      | _ => none
  | .create dir name id kind =>
      match tree.entriesOf dir, kind with
      | some _, .folder (_ :: _) => none
      | some entries, kind =>
          if (tree.inode id).isNone ∧
              entries.lookup name = none then
            some ((tree.set id kind).set dir
              (.folder ((name, id) :: entries)))
          else
            none
      | none, _ => none
  | .remove dir name =>
      (tree.entriesOf dir).map fun entries =>
        tree.set dir (.folder (without entries name))
  | .rename dir name dir' name' =>
      match tree.entriesOf dir, tree.entry dir name with
      | some entries, some id =>
          let tree₁ :=
            tree.set dir (.folder (without entries name))
          (tree₁.entriesOf dir').map fun entries' =>
            tree₁.set dir'
              (.folder ((name', id) :: without entries' name'))
      | _, _ => none

end NotesTree

inductive OpenError where
  | notFound
  | other
deriving DecidableEq

/- What a backup asks of the Notes folder. -/
inductive TreeReq where
  -- A scan begins with the metadata of the root folder.
  | dirMetadata (dir : InodeId)
  | readDir (dir : InodeId)
  | symlinkMetadata (dir : InodeId) (name : OsName)
  | openDirNofollow (dir : InodeId) (name : OsName)
  -- Opens a file and checks that it is one.
  | openFile (dir : InodeId) (name : OsName)
  -- How many reads will find bytes.
  | countReads (file : InodeId)
  | readAt (file : InodeId) (offset : Nat)
  -- The read that finds the end of the file.
  | readEnd (file : InodeId) (offset : Nat)
  | fileMetadata (file : InodeId)

abbrev TreeResp : TreeReq → Type
  | .dirMetadata _ => Option Nat
  | .readDir _ => Except FileError (List OsName)
  | .symlinkMetadata _ _ => Except FileError Metadata
  | .openDirNofollow _ _ => Except OpenError InodeId
  | .openFile _ _ => Except FileError InodeId
  | .countReads _ => Nat
  | .readAt _ _ => Except FileError (List UInt8)
  | .readEnd _ _ => Except FileError Unit
  | .fileMetadata _ => Except FileError Metadata

inductive TreeChoice where
  | ok
  | failed
  | count (n : Nat)

def chunkSize : Nat := 64 * 1024

namespace NotesTree

def metadataOf
    (tree : NotesTree)
    (id : InodeId) : Except FileError Metadata :=
  match tree.inode id with
  | some i => .ok i.metadata
  | none => .error .failed

def bytesOf (tree : NotesTree) (id : InodeId) : List UInt8 :=
  match tree.kindOf id with
  | some (.file bytes) => bytes
  | _ => []

/- `None` where the answer is not possible. -/
def serve
    (tree : NotesTree)
    (r : TreeReq)
    (k : TreeChoice) : Option (TreeResp r) :=
  match r, k with
  | .dirMetadata dir, .ok =>
      some ((tree.inode dir).map Inode.mtime)
  | .dirMetadata _, .failed => some none
  | .readDir dir, .ok =>
      match tree.entriesOf dir with
      | some entries => some (.ok (entries.map Prod.fst))
      | none => some (.error .failed)
  | .readDir _, .failed => some (.error .failed)
  | .symlinkMetadata dir name, .ok =>
      match tree.entry dir name with
      | some id => some (tree.metadataOf id)
      | none => some (.error .failed)
  | .symlinkMetadata _ _, .failed => some (.error .failed)
  | .openDirNofollow dir name, .ok =>
      match tree.entry dir name with
      | some id =>
          if (tree.entriesOf id).isSome then some (.ok id)
          else some (.error .other)
      | none => some (.error .notFound)
  | .openDirNofollow _ _, .failed => some (.error .other)
  | .openFile dir name, .ok =>
      match tree.entry dir name with
      | some id =>
          if (tree.kindOf id).map InodeKind.type = some .file then
            some (.ok id)
          else
            some (.error .failed)
      | none => some (.error .failed)
  | .openFile _ _, .failed => some (.error .failed)
  | .countReads _, .count n => some n
  | .readAt file offset, .count n =>
      let rest := (tree.bytesOf file).drop offset
      if 0 < n ∧ n ≤ chunkSize ∧ n ≤ rest.length then
        some (.ok (rest.take n))
      else
        none
  | .readAt _ _, .failed => some (.error .failed)
  | .readEnd file offset, .ok =>
      if (tree.bytesOf file).length ≤ offset then some (.ok ())
      else none
  | .readEnd _ _, .failed => some (.error .failed)
  | .fileMetadata file, .ok => some (tree.metadataOf file)
  | .fileMetadata _, .failed => some (.error .failed)
  | _, _ => none

end NotesTree

end S4Drive

import S4Drive.Core.Text
import S4Drive.Library.FileTree

/-
  The events of the file system watcher on their way to the
  sync engine. A rename arrives as its two halves and the
  pair; what is drained in one go is freed of halves and of
  renames there and back, and edits are put behind the
  renames of their files.

  Paths are absolute and normalized, as lists of what stands
  between the slashes.

  Main declarations:
    * `FsEvent`, `RawEvent`, `FsEventStream`
    * `drain`
    * `dropRenameRoundTrips`, `editsFollowRenames`
    * `Folder`, `Folder.apply`, `Folder.run`
-/

------------------------------------------------------------
-- Events
------------------------------------------------------------

open FileTree

namespace S4Drive

namespace Watch

abbrev Path := List Text

inductive FsEvent where
  | created (path : Path)
  | modified (path : Path)
  | deleted (path : Path)
  | renamed (source target : Path)
deriving DecidableEq

namespace FsEvent

def path : FsEvent → Path
  | created path => path
  | modified path => path
  | deleted path => path
  | renamed _ target => target

def isRename : FsEvent → Bool
  | renamed _ _ => true
  | _ => false

def isEdit : FsEvent → Bool
  | created _ => true
  | modified _ => true
  | _ => false

end FsEvent

/-
  What the watcher sends. The halves of a rename stay apart,
  so that they can be dropped when the pair follows.
-/
inductive RawEvent where
  | ready (event : FsEvent)
  | renameFrom (path : Path)
  | renameTo (path : Path)
deriving DecidableEq

/- The renames that go on from each other, by their indices. -/
structure RoundTrips where
  chain : List Nat
  dropped : List Nat

def leadsTo
    (events : List FsEvent)
    (path : Path)
    (prior : Nat) : Bool :=
  match events[prior]? with
  | some (.renamed _ target) => target = path
  | _ => false

def leadsFrom
    (events : List FsEvent)
    (path : Path)
    (prior : Nat) : Bool :=
  match events[prior]? with
  | some (.renamed source _) => source = path
  | _ => false

/- The chain that a rename of `source` goes on from. -/
def chainTo
    (events : List FsEvent)
    (chain : List Nat)
    (source : Path) : List Nat :=
  if chain.getLast?.any (leadsTo events source) then chain
  else []

/- A chain that leads back to its own path is dropped. -/
def roundTripStep
    (events : List FsEvent)
    (state : RoundTrips)
    (next : FsEvent × Nat) : RoundTrips :=
  match next.1 with
  | .renamed source target =>
      let chain := chainTo events state.chain source
      match chain.findIdx? (leadsFrom events target) with
      | some start =>
          { chain := chain.take start
            dropped :=
              state.dropped ++ chain.drop start ++ [next.2] }
      | none =>
          { state with chain := chain ++ [next.2] }
  | _ => { state with chain := [] }

def dropRenameRoundTrips (events : List FsEvent) :
    List FsEvent :=
  let found :=
    events.zipIdx.foldl (roundTripStep events) ⟨[], []⟩
  events.zipIdx.filterMap fun (event, index) =>
    if index ∈ found.dropped then none else some event

/- An edit at or inside `source`, moved under `target`. -/
def movedEdit
    (event : FsEvent)
    (source target : Path) : Option FsEvent :=
  match event with
  | .created path =>
      if source.isPrefixOf path then
        some (.created (target ++ path.drop source.length))
      else
        none
  | .modified path =>
      if source.isPrefixOf path then
        some (.modified (target ++ path.drop source.length))
      else
        none
  | _ => none

def followStep
    (ordered : List FsEvent)
    (event : FsEvent) : List FsEvent :=
  match event with
  | .renamed source target =>
      let kept := ordered.filter fun earlier =>
        (movedEdit earlier source target).isNone
      let moved := ordered.filterMap fun earlier =>
        movedEdit earlier source target
      kept ++ [event] ++ moved
  | _ => ordered ++ [event]

/- An edit is handled where its file is by now. -/
def editsFollowRenames (events : List FsEvent) :
    List FsEvent :=
  events.foldl followStep []

def renamedFrom (raws : List RawEvent) : List Path :=
  raws.filterMap fun
    | .ready (.renamed source _) => some source
    | _ => none

def renamedTo (raws : List RawEvent) : List Path :=
  raws.filterMap fun
    | .ready (.renamed _ target) => some target
    | _ => none

inductive Outcome where
  | event (event : FsEvent)
  | dropped
  | held
deriving DecidableEq

/- What becomes of one raw event of a drain. -/
def outcome
    (sources targets : List Path)
    (waited : Bool) : RawEvent → Outcome
  | .ready event => .event event
  | .renameFrom path =>
      if path ∈ sources then .dropped
      else if waited then .event (.deleted path)
      else .held
  | .renameTo path =>
      if path ∈ targets then .dropped
      else if waited then .event (.created path)
      else .held

/- Rename halves without their pair, with when they arrived. -/
abbrev Held := List (RawEvent × Nat)

/- The events of a drain before they are put in order. -/
structure Drained where
  events : List FsEvent
  held : Held

def gather
    (pairWait : Nat)
    (held : Held)
    (fresh : List RawEvent)
    (now : Nat) : Drained :=
  let sources := renamedFrom (held.map Prod.fst ++ fresh)
  let targets := renamedTo (held.map Prod.fst ++ fresh)
  let window := held ++ fresh.map (·, now)
  let fate := fun (raw, since) =>
    outcome sources targets (pairWait ≤ now - since) raw
  { events := window.filterMap fun item =>
      match fate item with
      | .event event => some event
      | _ => none
    held := window.filter fun item => fate item = .held }

def drain
    (pairWait : Nat)
    (held : Held)
    (fresh : List RawEvent)
    (now : Nat) : List FsEvent × Held :=
  let drained := gather pairWait held fresh now
  (editsFollowRenames (dropRenameRoundTrips drained.events),
    drained.held)

/-
  What is below the watched folder. Files are numbered, new
  ones by how many entries have been created before.
-/
structure Folder where
  files : Files Text Nat
  created : Nat

namespace Folder

/- `isFolder` says which of the new entries are folders. -/
variable (isFolder : Nat → Bool)

def newNode (number : Nat) : Node Nat :=
  if isFolder number then .folder else .file number

/- What has happened when the event is reported. -/
def apply (d : Folder) : FsEvent → Folder
  | .created path =>
      { files := d.files.put path (newNode isFolder d.created)
        created := d.created + 1 }
  | .modified _ => d
  | .deleted path =>
      { d with files := d.files.removeTree path }
  | .renamed source target =>
      { d with files := d.files.moveTree source target }

def run (events : List FsEvent) (d : Folder) : Folder :=
  events.foldl (apply isFolder) d

end Folder

end Watch

end S4Drive

import Mathlib.Algebra.Group.Nat.Defs
import S4Drive.Library.Outcomes
import S4Drive.Sync.FolderNodes

/-
  The start of every sync pass: the recorded intents of Notes
  are published one after another, in the order in which they
  were made. The rest of the pass, with its uploads and the
  changes of other devices, comes after them.

  Main declarations:
    * `IndexedIntent`, `NotesDb`
    * `NotesReplay.ensureParent`, `NotesReplay.publish`
    * `NotesReplay.replay`
    * `syncPass`
-/

------------------------------------------------------------
-- Intents and Rows
------------------------------------------------------------

namespace S4Drive

open ObjectStore Concurrency

inductive MutationKind where
  | createNote
  | createFolder
  | save
  | rename
  | move
  | delete
  | restore
deriving DecidableEq

inductive MutationStage where
  | intent
  | published
  | indexed
  | committed
  | rejected
  | conflicted
  | suspendedSave
deriving DecidableEq

/- An intent as the journal of Notes has it. -/
structure IndexedIntent where
  intent : MutationIntent
  kind : MutationKind
  sequence : Nat
  noOp : Bool
  rootRelocation : Bool
  -- The changes whose rows are ignored.
  ignored : List FileId

/- What the rest of a pass has to do. -/
inductive Work where
  | upload (fileId : FileId)
  | apply (opId : OpId)
deriving DecidableEq

/-
  The part of the index that a pass works on. The last field
  is history: what came of the intents that were tried.
-/
structure NotesDb where
  stages : Uuid → Option MutationStage
  folderById : FileId → Option IndexedFolder
  objectState : FileId → Option String
  pending : List Work
  tried : List (Uuid × CoreResult Bool)

namespace NotesDb

def markFileSynced (db : NotesDb) (fileId : FileId) : NotesDb :=
  { db with
    objectState := fun id =>
      if id = fileId then
        (db.objectState id).map fun _ => "synced"
      else
        db.objectState id }

/- Only an indexed mutation is marked. -/
def markMutationCommitted
    (db : NotesDb)
    (requestId : Uuid) : NotesDb :=
  { db with
    stages := fun id =>
      if id = requestId ∧ db.stages id = some .indexed then
        some .committed
      else
        db.stages id }

def note
    (db : NotesDb)
    (requestId : Uuid)
    (result : CoreResult Bool) : NotesDb :=
  { db with tried := db.tried ++ [(requestId, result)] }

end NotesDb

abbrev NotesM (α : Type) := CloudM NotesDb α

namespace NotesReplay

def maxFolderDepth : Nat := 256

def parentCycle (id : FileId) : CoreError :=
  .conflict ("the parents of folder " ++ toString id ++
    " form a cycle")

def noLongerIndexed (id : FileId) : CoreError :=
  .conflict ("parent folder " ++ toString id ++
    " is no longer indexed")

/- Whether the bucket has never seen a folder. -/
def isMissing (id : FileId) : NotesM Bool := do
  match ← Script.attempt
      (Script.lift (FileTree.getEntry id)) with
  | .ok _ => pure false
  | .error (.notFound _) => pure true
  | .error e => Script.throw e

/- The folders that the bucket has never seen, top first. -/
def missingFolders :
    Nat → List IndexedFolder → Option FileId →
      NotesM (List IndexedFolder)
  | _, missing, none => pure missing
  | 0, missing, some id => do
      if ← isMissing id then
        Script.throw (parentCycle id)
      else
        pure missing
  | rounds + 1, missing, some id => do
      if ← isMissing id then
        if missing.any (·.fileId = id) then
          Script.throw (parentCycle id)
        else do
          let db ← Script.get
          match db.folderById id with
          | none => Script.throw (noLongerIndexed id)
          | some folder =>
              missingFolders rounds (folder :: missing)
                folder.parentId
      else
        pure missing

def publishFolders
    (deviceId : DeviceId) : List IndexedFolder → NotesM Unit
  | [] => pure ()
  | folder :: rest => do
      let name := (splitPath folder.remotePath).2
      Script.lift (FolderNodes.publishFolderAt deviceId
        folder.fileId ⟨folder.parentId, name⟩)
      Script.modify fun db =>
        if db.objectState folder.fileId =
            some "pending_upload" then
          db.markFileSynced folder.fileId
        else
          db
      publishFolders deviceId rest

/- Create the folder above an entry, and all above it. -/
def ensureParent
    (deviceId : DeviceId)
    (intent : MutationIntent) : NotesM Unit := do
  let entry ← Script.ofExcept (rootChange intent)
  let missing ← missingFolders maxFolderDepth [] entry.parentId
  publishFolders deviceId missing

/- Notes and their contents are published by the uploads. -/
def publish
    (deviceId : DeviceId)
    (conditionalDelete : Bool)
    (x : IndexedIntent)
    (restored : List FileId) : NotesM Bool :=
  if x.noOp then
    pure true
  else
    match x.kind with
    | .createFolder => do
        ensureParent deviceId x.intent
        Script.lift
          (NotesIntake.publishCreateFolder deviceId x.intent)
        pure true
    | .rename => do
        ensureParent deviceId x.intent
        Script.lift
          (NotesIntake.publishPlacement deviceId x.intent false)
        pure true
    | .move => do
        ensureParent deviceId x.intent
        Script.lift
          (NotesIntake.publishPlacement deviceId x.intent true)
        pure true
    | .delete => do
        Script.lift
          (NotesIntake.publishDelete deviceId x.intent
            (x.intent.fileId ∈ restored))
        pure true
    | .restore => do
        ensureParent deviceId x.intent
        Script.lift
          (NotesIntake.publishRestore deviceId conditionalDelete
            x.intent)
        pure true
    | .createNote => pure false
    | .save => pure false

/- The rows that show what the intent has published. -/
def syncedBy (x : IndexedIntent) : List FileId :=
  match x.kind with
  | .move =>
      if x.rootRelocation then
        [x.intent.fileId]
      else
        (x.intent.changes.map FileEntry.fileId).filter
          (· ∉ x.ignored)
  | .createFolder => [x.intent.fileId]
  | .rename =>
      (x.intent.changes.map FileEntry.fileId).filter
        (· ∉ x.ignored)
  | .restore =>
      (x.intent.changes.filter fun entry =>
        entry.entryType = .folder ||
          entry.contentRef.isSome).map FileEntry.fileId
  | .delete => []
  | .createNote => []
  | .save => []

/- The newest intent on an id that is not committed yet. -/
def latestPending
    (intents : List IndexedIntent)
    (stages : Uuid → Option MutationStage)
    (id : FileId) : Option Nat :=
  ((intents.filter fun x =>
    stages x.intent.requestId ≠ some .committed &&
      (x.intent.fileId = id ||
        x.intent.changes.any (·.fileId = id))).map
    IndexedIntent.sequence).max?

/- The published rows without a later change of their own. -/
def rowsToMark
    (latest : FileId → Option Nat)
    (x : IndexedIntent) : List FileId :=
  (syncedBy x).filter fun id =>
    (latest id).all (· ≤ x.sequence)

/- One intent, with what comes of it noted. -/
def tryPublish
    (publish : NotesM Bool)
    (requestId : Uuid) : NotesM Bool := do
  let result ← Script.attempt publish
  -- History only: no program reads it.
  Script.modify (·.note requestId result)
  Script.ofExcept result

def afterPublish
    (latest : FileId → Option Nat)
    (x : IndexedIntent) : NotesM Bool := do
  Script.modify fun db =>
    (rowsToMark latest x).foldl NotesDb.markFileSynced db
  let db ← Script.get
  Script.modify (·.markMutationCommitted x.intent.requestId)
  pure (db.stages x.intent.requestId = some .indexed)

/- The first error ends the loop. -/
def replayFrom
    (publish : IndexedIntent → List FileId → NotesM Bool)
    (stages : Uuid → Option MutationStage)
    (latest : FileId → Option Nat) :
    List IndexedIntent → List FileId → Nat → NotesM Nat
  | [], _, committed => pure committed
  | x :: rest, restored, committed =>
      if stages x.intent.requestId = some .indexed then do
        let applied ← tryPublish (publish x restored)
          x.intent.requestId
        if applied then do
          let marked ← afterPublish latest x
          replayFrom publish stages latest rest
            (if x.kind = .restore then
              x.intent.fileId :: restored
            else
              restored)
            (if marked then min (committed + 1) (2 ^ 32 - 1)
            else committed)
        else
          replayFrom publish stages latest rest restored committed
      else
        replayFrom publish stages latest rest restored committed

/- Restores that were published by an earlier pass. -/
def restoredBefore
    (intents : List IndexedIntent)
    (stages : Uuid → Option MutationStage) : List FileId :=
  (intents.filter fun x =>
    x.kind = .restore &&
      stages x.intent.requestId = some .committed).map
    fun x => x.intent.fileId

def replay
    (publish : IndexedIntent → List FileId → NotesM Bool)
    (intents : List IndexedIntent) : NotesM Nat := do
  let db ← Script.get
  replayFrom publish db.stages (latestPending intents db.stages)
    intents (restoredBefore intents db.stages) 0

end NotesReplay

/- One pass; `rest` uploads, scans, downloads and polls. -/
def syncPass
    (deviceId : DeviceId)
    (conditionalDelete : Bool)
    (intents : List IndexedIntent)
    (rest : NotesM Unit) : NotesM Unit := do
  let _ ← NotesReplay.replay
    (NotesReplay.publish deviceId conditionalDelete) intents
  rest

end S4Drive

import S4Drive.S3.Cloud

/-
  Decisions after the sync folder, or the Notes folder in
  it, has disappeared. The prompt that the user answers is
  one checkpoint of the local index, which the sync loop,
  the window and the Notes service read and write at the
  same time. What a recovery does to the disk, the index
  and the server is left to the environment; every part of
  it may fail with any error.

  Main declarations:
    * `FolderRecovery`
    * `RecoveryWorld`, `recoveryMachine`
    * `FolderRecovery.inspect`, `FolderRecovery.resolve`
    * `recoverySystem`
-/

------------------------------------------------------------
-- Prompts
------------------------------------------------------------

namespace S4Drive

open ObjectStore Concurrency

/- An absolute path, as its components. -/
abbrev LocalPath := List String

namespace LocalPath

def display (path : LocalPath) : String :=
  "/" ++ String.intercalate "/" path

/- Whether the path is the folder or lies inside it. -/
def startsWith (path folder : LocalPath) : Bool :=
  folder.isPrefixOf path

end LocalPath

inductive RecoveryDecision where
  | restore
  | delete
deriving DecidableEq

structure DeleteTarget where
  entry : FileEntry
  etag : ETag Body
  path : String
  blobs : List BlobId
deriving DecidableEq

/- A prompt with the choice of the user, once there is one. -/
structure FolderRecovery where
  id : Uuid
  path : LocalPath
  decision : Option RecoveryDecision
  notesRoot : Option Uuid
  targets : Option (List DeleteTarget)
  previousNotesRoot : Option Uuid
deriving DecidableEq

structure IndexedNotes where
  fileId : Uuid
  localPath : LocalPath
deriving DecidableEq

/- What `symlink_metadata` finds at a path. -/
inductive PathKind where
  | directory
  | missing
  | other
deriving DecidableEq

/- The disk and the index rows that an inspection looks at. -/
structure Surroundings where
  disk : LocalPath → PathKind
  filesUnderRoot : Bool
  foldersUnderRoot : Bool
  notesFolder : Option IndexedNotes

/- The two ways to write the prompt. -/
inductive PromptWriter where
  | inspection
  | overwrite
deriving DecidableEq

/-
  A change of the stored prompt, and whether the call that
  made it had found the sync root missing.
-/
structure PromptChange where
  writer : PromptWriter
  rootMissing : Bool
  before : Option FolderRecovery
  after : Option FolderRecovery
deriving DecidableEq

/-
  The checkpoints of one sync root. The last five fields
  are a record of the run: the changes of the prompt, newest
  first, and for each thread those that its call had found,
  whether the call has found the root missing, the prompt
  that it names and whether it has done anything but
  inspect.
-/
structure RecoveryWorld extends Surroundings where
  pending : Option FolderRecovery
  seen : Bool
  drawn : Uuid
  changes : List PromptChange
  since : Tid → List PromptChange
  rootMissing : Tid → Bool
  named : Tid → Option Uuid
  acted : Tid → Bool

namespace RecoveryWorld

/- A device with these checkpoints before any call. -/
def start
    (surroundings : Surroundings)
    (pending : Option FolderRecovery)
    (seen : Bool)
    (drawn : Uuid) : RecoveryWorld where
  toSurroundings := surroundings
  pending := pending
  seen := seen
  drawn := drawn
  changes := []
  since := fun _ => []
  rootMissing := fun _ => false
  named := fun _ => none
  acted := fun _ => false

/- Store a prompt, or clear it. -/
def setPending
    (w : RecoveryWorld)
    (t : Tid)
    (writer : PromptWriter)
    (value : Option FolderRecovery) : RecoveryWorld :=
  { w with
    pending := value
    changes :=
      ⟨writer, w.rootMissing t, w.pending, value⟩ ::
        w.changes }

/- The call of a thread has found the root missing. -/
def noteMissing
    (w : RecoveryWorld)
    (t : Tid) : RecoveryWorld :=
  { w with
    rootMissing := fun u => u = t || w.rootMissing u }

/- The call of a thread does more than inspect. -/
def act
    (w : RecoveryWorld)
    (t : Tid) : RecoveryWorld :=
  { w with acted := fun u => u = t || w.acted u }

/- A call starts that names this prompt, if any. -/
def beginCall
    (w : RecoveryWorld)
    (t : Tid)
    (named : Option Uuid) : RecoveryWorld :=
  { w with
    since := fun u => if u = t then w.changes else w.since u
    rootMissing := fun u => u ≠ t && w.rootMissing u
    named := fun u => if u = t then named else w.named u
    acted := fun u => u ≠ t && w.acted u }

end RecoveryWorld

------------------------------------------------------------
-- Requests
------------------------------------------------------------

/- What a recovery does to the disk, index and server. -/
inductive RecoveryEffect where
  | checkEmptyReplacement (path : LocalPath) (started : Bool)
  | upgradeSchema
  | deleteTargets (recovery : FolderRecovery)
  | markSubtreeDeleted (path : LocalPath) (state : String)
  | acceptRecoveredRoot (rootId : Uuid) (retire : Bool)
  | createRoot
  | lockRoot
  | archiveNotesJournal (id : Uuid)
  | restoreData (recovery : FolderRecovery)
  | createNotes
deriving DecidableEq

/- Effects that only read; they refuse what they find. -/
def RecoveryEffect.reads : RecoveryEffect → Bool
  | checkEmptyReplacement _ _ => true
  | _ => false

inductive RecoveryReq where
  | getPending
  | setPending (value : Option FolderRecovery)
  | replacePending
      (expected : Option FolderRecovery)
      (value : FolderRecovery)
  | getSeen
  | setSeen
  | isDirectory (path : LocalPath)
  | isAbsent (path : LocalPath)
  | liveFilesUnderRoot
  | liveFoldersUnderRoot
  | notesFolder
  | objectState (fileId : Uuid)
  | newId
  | prepareDelete (recovery : FolderRecovery)
  | effect (effect : RecoveryEffect)
  | outOfRounds

abbrev RecoveryResp : RecoveryReq → Type
  | .getPending => CoreResult (Option FolderRecovery)
  | .setPending _ => CoreResult Unit
  | .replacePending _ _ => CoreResult Bool
  | .getSeen => CoreResult Bool
  | .setSeen => CoreResult Unit
  | .isDirectory _ => CoreResult Bool
  | .isAbsent _ => CoreResult Bool
  | .liveFilesUnderRoot => CoreResult Bool
  | .liveFoldersUnderRoot => CoreResult Bool
  | .notesFolder => CoreResult (Option IndexedNotes)
  | .objectState _ => CoreResult (Option String)
  | .newId => Uuid
  | .prepareDelete _ => CoreResult (List DeleteTarget)
  | .effect _ => CoreResult Unit
  | .outOfRounds => Empty

/- How a request ends. -/
inductive RecoveryChoice where
  | done
  | fail (error : CoreError)
  | targets (targets : List DeleteTarget)
  | state (state : Option String)

/- `is_directory` on what is found at the path. -/
def directoryAt
    (path : LocalPath) : PathKind → CoreResult Bool
  | .directory => .ok true
  | .missing => .ok false
  | .other =>
      .error (.fileSystem
        (path.display ++
          " must be a directory, not a file or link"))

/-
  One request of a thread on the checkpoints of `root`. Each
  statement of the index is atomic.
-/
def serveRecovery
    (root : LocalPath)
    (t : Tid)
    (r : RecoveryReq)
    (choice : RecoveryChoice)
    (w : RecoveryWorld) :
    Option (RecoveryResp r × RecoveryWorld) :=
  match r, choice with
  | .outOfRounds, _ => none
  | .newId, _ =>
      some (w.drawn + 1, { w with drawn := w.drawn + 1 })
  | .getPending, .done => some (.ok w.pending, w)
  | .setPending value, .done =>
      some (.ok (), (w.setPending t .overwrite value).act t)
  | .replacePending expected value, .done =>
      if w.pending = expected then
        some (.ok true, w.setPending t .inspection (some value))
      else
        some (.ok false, w)
  | .getSeen, .done => some (.ok w.seen, w)
  | .setSeen, .done => some (.ok (), { w with seen := true })
  | .isDirectory path, .done =>
      some (directoryAt path (w.disk path),
        if path = root ∧ w.disk path = .missing then
          w.noteMissing t
        else
          w)
  | .isAbsent path, .done =>
      some (.ok (w.disk path = .missing), w)
  | .liveFilesUnderRoot, .done =>
      some (.ok w.filesUnderRoot, w)
  | .liveFoldersUnderRoot, .done =>
      some (.ok w.foldersUnderRoot, w)
  | .notesFolder, .done => some (.ok w.notesFolder, w)
  | .objectState _, .state state => some (.ok state, w)
  | .prepareDelete _, .targets targets =>
      some (.ok targets, w)
  | .effect e, .done =>
      some (.ok (), if e.reads then w else w.act t)
  | .effect e, .fail error =>
      some (.error error, if e.reads then w else w.act t)
  | .getPending, .fail error => some (.error error, w)
  | .setPending _, .fail error => some (.error error, w)
  | .replacePending _ _, .fail error => some (.error error, w)
  | .getSeen, .fail error => some (.error error, w)
  | .setSeen, .fail error => some (.error error, w)
  | .isDirectory _, .fail error => some (.error error, w)
  | .isAbsent _, .fail error => some (.error error, w)
  | .liveFilesUnderRoot, .fail error => some (.error error, w)
  | .liveFoldersUnderRoot, .fail error =>
      some (.error error, w)
  | .notesFolder, .fail error => some (.error error, w)
  | .objectState _, .fail error => some (.error error, w)
  | .prepareDelete _, .fail error => some (.error error, w)
  | _, _ => none

def recoveryMachine
    (root : LocalPath) :
    Machine RecoveryReq RecoveryResp RecoveryWorld Tid
      RecoveryChoice where
  serve := serveRecovery root

abbrev RecoveryM :=
  Script RecoveryReq RecoveryResp CoreError Unit

namespace RecoveryM

/- A request that may fail. -/
def ask
    {α : Type}
    (r : RecoveryReq)
    (answer : RecoveryResp r → CoreResult α) : RecoveryM α :=
  Script.call r answer

def getPending : RecoveryM (Option FolderRecovery) :=
  ask .getPending fun answer => answer

def setPending
    (value : Option FolderRecovery) : RecoveryM Unit :=
  ask (.setPending value) fun answer => answer

def replacePending
    (expected : Option FolderRecovery)
    (value : FolderRecovery) : RecoveryM Bool :=
  ask (.replacePending expected value) fun answer => answer

def getSeen : RecoveryM Bool :=
  ask .getSeen fun answer => answer

def setSeen : RecoveryM Unit :=
  ask .setSeen fun answer => answer

def isDirectory (path : LocalPath) : RecoveryM Bool :=
  ask (.isDirectory path) fun answer => answer

def isAbsent (path : LocalPath) : RecoveryM Bool :=
  ask (.isAbsent path) fun answer => answer

def liveFilesUnderRoot : RecoveryM Bool :=
  ask .liveFilesUnderRoot fun answer => answer

def liveFoldersUnderRoot : RecoveryM Bool :=
  ask .liveFoldersUnderRoot fun answer => answer

def notesFolder : RecoveryM (Option IndexedNotes) :=
  ask .notesFolder fun answer => answer

def objectState
    (fileId : Uuid) : RecoveryM (Option String) :=
  ask (.objectState fileId) fun answer => answer

def newId : RecoveryM Uuid :=
  Script.request RecoveryReq.newId

def prepareDelete
    (recovery : FolderRecovery) :
    RecoveryM (List DeleteTarget) :=
  ask (.prepareDelete recovery) fun answer => answer

def effect (e : RecoveryEffect) : RecoveryM Unit :=
  ask (.effect e) fun answer => answer

end RecoveryM

namespace FolderRecovery

open RecoveryM

def storeNew
    (expected : Option FolderRecovery)
    (recovery : FolderRecovery) :
    RecoveryM (Option (Option FolderRecovery)) := do
  let stored ← replacePending expected recovery
  return if stored then some (some recovery) else none

/- The prompt for a root that was lost after a Notes prompt. -/
def wholeRoot
    (root : LocalPath)
    (id : Uuid) : FolderRecovery where
  id := id
  path := root
  decision := none
  notesRoot := none
  targets := none
  previousNotesRoot := none

/- Whether this sync root has ever been in use. -/
def isKnown (seen : Bool) : RecoveryM Bool := do
  if seen then
    return true
  else if ← liveFilesUnderRoot then
    return true
  else
    liveFoldersUnderRoot

/- The folder that has disappeared, if one has. -/
def missingPath
    (root : LocalPath)
    (rootExists known : Bool)
    (notes : Option IndexedNotes) :
    RecoveryM (Option LocalPath) := do
  if !rootExists && known then
    return some root
  else if rootExists && notes.isSome then
    if ← isAbsent (root ++ ["Notes"]) then
      return some (root ++ ["Notes"])
    else
      return none
  else
    return none

def markSeen (rootExists seen : Bool) : RecoveryM Unit :=
  if rootExists && !seen then
    setSeen
  else
    pure ()

/- An inspection that has found no prompt. -/
def inspectFolders
    (root : LocalPath) :
    RecoveryM (Option (Option FolderRecovery)) := do
  let rootExists ← isDirectory root
  let seen ← getSeen
  let known ← isKnown seen
  let notes :=
    (← notesFolder).filter
      fun folder => folder.localPath.startsWith root
  let missing ← missingPath root rootExists known notes
  markSeen rootExists seen
  match missing with
  | none => return some none
  | some path => do
      let id ← newId
      let recovery : FolderRecovery :=
        { id := id
          notesRoot :=
            if path = root then none
            else notes.map IndexedNotes.fileId
          path := path
          decision := none
          targets := none
          previousNotesRoot := none }
      storeNew none recovery

/-
  One inspection; `none` when another one stored its prompt
  first.
-/
def tryInspect
    (root : LocalPath) :
    RecoveryM (Option (Option FolderRecovery)) := do
  match ← getPending with
  | none => inspectFolders root
  | some recovery => do
      if recovery.notesRoot.isNone then
        return some (some recovery)
      else if ← isDirectory root then
        return some (some recovery)
      else
        let id ← newId
        storeNew (some recovery) (wholeRoot root id)

/-
  Inspect until the stored prompt is the one that was seen.
  The loop of the source has no bound; a call may take any
  number of rounds and stays where it is after them.
-/
def inspect
    (root : LocalPath) :
    Nat → RecoveryM (Option FolderRecovery)
  | 0 => fun _ => .ask .outOfRounds fun no => no.elim
  | rounds + 1 => do
      match ← tryInspect root with
      | some outcome => return outcome
      | none => inspect root rounds

def ensureAvailable
    (root : LocalPath)
    (rounds : Nat) : RecoveryM Unit := do
  match ← inspect root rounds with
  | some recovery =>
      Script.throw (.fileSystem
        ("Local folder is missing: " ++
          recovery.path.display ++
          ". Open S4Drive to restore data from the server " ++
          "or confirm deletion."))
  | none => return ()

/- Notes has returned its original directory. -/
def acceptNotesRelocation
    (root : LocalPath)
    (rounds : Nat)
    (id : Uuid) : RecoveryM Unit := do
  match ← inspect root rounds with
  | none => return ()
  | some pending =>
      if pending.notesRoot = some id ∧
          pending.decision = none then
        setPending none
      else
        return ()

/- Notes never silently creates a lost sync root. -/
def ensureRootAvailable
    (root : LocalPath)
    (rounds : Nat) : RecoveryM Unit := do
  let pending ← inspect root rounds
  if pending.any fun recovery => recovery.decision.isSome then
    ensureAvailable root rounds
  else if ← isDirectory root then
    return ()
  else
    ensureAvailable root rounds

------------------------------------------------------------
-- Decisions
------------------------------------------------------------

/- A deletion that has met newer data asks the user again. -/
def renewPrompt
    (recovery : FolderRecovery) : RecoveryM Unit := do
  let id ← newId
  setPending
    (some
      { recovery with
        id := id
        decision := none
        targets := none })
  Script.throw (.conflict
    ("Server data changed. Some deletions may already be " ++
      "complete. Review the folder and choose how to " ++
      "continue."))

/- The targets, which stay what the user has confirmed. -/
def confirmTargets
    (recovery : FolderRecovery) :
    RecoveryM FolderRecovery := do
  if recovery.targets.isSome then
    return recovery
  else
    let targets ← prepareDelete recovery
    let recovery := { recovery with targets := some targets }
    setPending (some recovery)
    return recovery

/- Delete what was confirmed, unless it has changed. -/
def deleteConfirmed
    (recovery : FolderRecovery) : RecoveryM Unit := do
  match ← Script.attempt (effect (.deleteTargets recovery)) with
  | .ok () => return ()
  | .error (.conflict _) => renewPrompt recovery
  | .error error => Script.throw error

/- The Notes folder that the index had before the choice. -/
def retirePreviousRoot
    (recovery : FolderRecovery) : RecoveryM Unit :=
  match recovery.previousNotesRoot with
  | some rootId => effect (.acceptRecoveredRoot rootId true)
  | none => pure ()

/- Carry out a confirmed deletion. -/
def applyDelete
    (recovery : FolderRecovery) :
    RecoveryM FolderRecovery := do
  let recovery ← confirmTargets recovery
  deleteConfirmed recovery
  effect (.markSubtreeDeleted recovery.path "deleted_locally")
  retirePreviousRoot recovery
  return recovery

def applyDecision
    (decision : RecoveryDecision)
    (recovery : FolderRecovery) :
    RecoveryM FolderRecovery :=
  match decision with
  | .delete => applyDelete recovery
  | .restore => pure recovery

/- Whether the previous Notes folder is deleted by now. -/
def acceptPreviousRoot
    (recovery : FolderRecovery) : RecoveryM Unit :=
  match recovery.previousNotesRoot with
  | none => pure ()
  | some rootId => do
      let state ← objectState rootId
      let retired :=
        state = some "deleted_locally" ||
          state = some "deleted_remotely"
      effect (.acceptRecoveredRoot rootId retired)

def acceptNotesFolder : RecoveryM Unit := do
  match ← notesFolder with
  | some folder =>
      effect (.acceptRecoveredRoot folder.fileId false)
  | none => return ()

/- Bring the data back from the server. -/
def applyRestore
    (decision : RecoveryDecision)
    (recovery : FolderRecovery) : RecoveryM Unit :=
  match decision with
  | .delete => pure ()
  | .restore => do
      effect
        (.markSubtreeDeleted recovery.path "deleted_remotely")
      effect (.restoreData recovery)
      acceptPreviousRoot recovery
      acceptNotesFolder

def createRoot (root : LocalPath) : RecoveryM Unit := do
  if ← isDirectory root then
    return ()
  else
    effect .createRoot

def createNotes (recovery : FolderRecovery) : RecoveryM Unit :=
  if recovery.notesRoot.isSome then
    effect .createNotes
  else
    pure ()

/- The prompt has been carried out, if it is still there. -/
def clearPrompt
    (root : LocalPath)
    (rounds : Nat)
    (recovery : FolderRecovery) : RecoveryM Unit := do
  let pending ← inspect root rounds
  if pending.any fun pending => pending.id = recovery.id then
    setSeen
    setPending none
  else
    Script.throw .workspaceChanged

/- The effects of a choice that has been stored. -/
def carryOut
    (root : LocalPath)
    (rounds : Nat)
    (decision : RecoveryDecision)
    (recovery : FolderRecovery) : RecoveryM Unit := do
  let recovery ← applyDecision decision recovery
  createRoot root
  effect .lockRoot
  effect (.archiveNotesJournal recovery.id)
  applyRestore decision recovery
  createNotes recovery
  clearPrompt root rounds recovery

/- New local files are never swept along by a deletion. -/
def checkReplacement
    (decision : RecoveryDecision)
    (recovery : FolderRecovery) : RecoveryM Unit :=
  match decision with
  | .restore => pure ()
  | .delete => do
      if ← isDirectory recovery.path then
        effect (.checkEmptyReplacement recovery.path
          recovery.decision.isSome)
      else
        return ()

/- The prompt with the choice, as it is stored. -/
def withDecision
    (decision : RecoveryDecision)
    (recovery : FolderRecovery) :
    RecoveryM FolderRecovery := do
  if recovery.decision.isNone then
    let folder ← notesFolder
    return { recovery with
      decision := some decision
      previousNotesRoot := folder.map IndexedNotes.fileId }
  else
    return { recovery with decision := some decision }

/-
  Resolve only the exact prompt that the user saw; retries
  keep its first choice.
-/
def resolve
    (root : LocalPath)
    (rounds : Nat)
    (id : Uuid)
    (decision : RecoveryDecision) : RecoveryM Unit := do
  match ← inspect root rounds with
  | none =>
      Script.throw (.notFound "No folder recovery is pending")
  | some recovery =>
      if recovery.id ≠ id then
        Script.throw .workspaceChanged
      else if
          recovery.decision.any fun chosen =>
            chosen ≠ decision then
        Script.throw (.conflict
          ("Recovery already started. " ++
            "Retry the original action."))
      else
        checkReplacement decision recovery
        effect .upgradeSchema
        let recovery ← withDecision decision recovery
        setPending (some recovery)
        carryOut root rounds decision recovery

end FolderRecovery

/-
  The calls on one sync root, with the rounds that each of
  their inspections may take.
-/
inductive RecoveryCall where
  | inspect (rounds : Nat)
  | ensureAvailable (rounds : Nat)
  | acceptNotesRelocation (rounds : Nat) (id : Uuid)
  | ensureRootAvailable (rounds : Nat)
  | resolve
      (rounds : Nat)
      (id : Uuid)
      (decision : RecoveryDecision)

namespace RecoveryCall

/- The prompt id that a call names. -/
def named : RecoveryCall → Option Uuid
  | resolve _ id _ => some id
  | _ => none

/- What a call has found: only `inspect` returns a prompt. -/
def run
    (root : LocalPath)
    (call : RecoveryCall) :
    RecoveryM (Option FolderRecovery) :=
  match call with
  | inspect rounds => FolderRecovery.inspect root rounds
  | ensureAvailable rounds => do
      FolderRecovery.ensureAvailable root rounds
      return none
  | acceptNotesRelocation rounds id => do
      FolderRecovery.acceptNotesRelocation root rounds id
      return none
  | ensureRootAvailable rounds => do
      FolderRecovery.ensureRootAvailable root rounds
      return none
  | resolve rounds id decision => do
      FolderRecovery.resolve root rounds id decision
      return none

end RecoveryCall

/-
  Any number of threads on the index of one device. The
  environment changes the disk and the index rows; a halt
  loses nothing that has been stored.
-/
def recoverySystem
    (root : LocalPath) :
    ThreadSystem RecoveryReq RecoveryResp RecoveryWorld Tid
      RecoveryChoice RecoveryCall
      (CoreResult (Option FolderRecovery)) Unit
      Surroundings where
  toMachine := recoveryMachine root
  body := fun c v => c.run root v
  boot := ()
  begin := fun t c _ w => some (w.beginCall t c.named)
  finish := fun _ _ _ _ _ w => w
  halt := fun _ w => w
  env := fun surroundings w =>
    some { w with toSurroundings := surroundings }

end S4Drive

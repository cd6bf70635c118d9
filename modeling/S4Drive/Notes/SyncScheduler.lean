import S4Drive.Library.Phases
import S4Drive.Metadata.Types

/-
  The scheduler of the sync passes that notes ask for. A
  request either starts a loop of passes or leaves its job to
  the loop that runs: it enters the job in a table, sets a
  flag and stores the id, one after the other. The loop
  looks at the flag after each pass, and takes the id later.

  Main declarations:
    * `NotesSyncScheduler`, `SyncPhase`
    * `NotesSyncScheduler.act`, `Acts`
-/

------------------------------------------------------------
-- Jobs
------------------------------------------------------------

namespace S4Drive

abbrev WorkspaceId := Uuid

inductive NotesJobState where
  | queued | running | succeeded | failed | cancelled
deriving DecidableEq

inductive SyncOutcome where
  | synced | pending | needsAttention
deriving DecidableEq

structure NotesErrorDto where
  code : String
  message : String
  retryable : Bool
  noteId : Option FileId
deriving DecidableEq

def NotesErrorDto.new
    (code message : String)
    (retryable : Bool) : NotesErrorDto where
  code := code
  message := message
  retryable := retryable
  noteId := none

structure SyncJobStatus where
  state : NotesJobState
  progressDone : Option Nat
  progressTotal : Option Nat
  outcome : Option SyncOutcome
  error : Option NotesErrorDto
deriving DecidableEq

namespace SyncJobStatus

/- A job that has no result yet. -/
def waiting (state : NotesJobState) : SyncJobStatus where
  state := state
  progressDone := none
  progressTotal := none
  outcome := none
  error := none

/- What a pass leaves behind in its job. -/
def ofResult : Except String Unit → SyncJobStatus
  | .ok _ =>
      { state := .succeeded
        progressDone := some 1
        progressTotal := some 1
        outcome := some .synced
        error := none }
  | .error err =>
      { state := .failed
        progressDone := none
        progressTotal := none
        outcome := none
        error := some (.new "save_failed" err true) }

end SyncJobStatus

inductive SyncTicketState where
  | queued | running
deriving DecidableEq

structure SyncTicket where
  jobId : Uuid
  workspaceId : WorkspaceId
  state : SyncTicketState
deriving DecidableEq

/-
  The cells that all the calls share. No step reads what is
  noted below: the tickets, as their jobs are entered, and
  for each pass that returned `Ok` the jobs of the tickets
  that there were when it was started.
-/
structure NotesSyncScheduler where
  isRunning : Bool
  followUpRequested : Bool
  queuedJobId : Option Uuid
  jobs : Uuid → Option SyncJobStatus
  syncPaused : Bool
  tickets : List SyncTicket
  okPasses : List (List Uuid)

/-
  A call of `trigger_sync`, and then the loop if the call has
  started one. What the loop does for a ticket begins after
  the call has made it, so both are one thread.
-/
inductive SyncPhase where
  | idle
  -- `trigger_sync`
  | readPaused (workspaceId : WorkspaceId)
  | resume (workspaceId : WorkspaceId)
  | claim (workspaceId : WorkspaceId)
  | insertRunning (workspaceId : WorkspaceId)
  | spawnLoop (jobId : Uuid)
  | insertQueued (workspaceId : WorkspaceId)
  | requestFollowUp (jobId : Uuid)
  | storeQueued (jobId : Uuid)
  -- `run_scheduler_loop`
  | startPass (currentJobId : Uuid)
  | inPass (currentJobId : Uuid) (issued : List Uuid)
  | recordResult
      (currentJobId : Uuid)
      (syncResult : Except String Unit)
  | checkFollowUp
  | takeQueued
  | insertNext (nextJobId : Uuid)
  | clearRunning
  | finished

/- What a step takes from outside of the scheduler. -/
inductive SyncChoice where
  | call (workspaceId : WorkspaceId)
  | go
  | draw (id : Uuid)
  | passReturns (syncResult : Except String Unit)

namespace NotesSyncScheduler

def new (syncPaused : Bool) : NotesSyncScheduler where
  isRunning := false
  followUpRequested := false
  queuedJobId := none
  jobs := fun _ => none
  syncPaused := syncPaused
  tickets := []
  okPasses := []

def insertJob
    (w : NotesSyncScheduler)
    (jobId : Uuid)
    (job : SyncJobStatus) : NotesSyncScheduler :=
  { w with jobs := Function.update w.jobs jobId (some job) }

def issue
    (w : NotesSyncScheduler)
    (ticket : SyncTicket) : NotesSyncScheduler :=
  { w with tickets := ticket :: w.tickets }

def issuedIds (w : NotesSyncScheduler) : List Uuid :=
  w.tickets.map SyncTicket.jobId

/- `get_mut`: a job that is not in the table stays out. -/
def recordResult
    (w : NotesSyncScheduler)
    (currentJobId : Uuid)
    (syncResult : Except String Unit) : NotesSyncScheduler :=
  match w.jobs currentJobId with
  | none => w
  | some _ => w.insertJob currentJobId (.ofResult syncResult)

def passReturned
    (w : NotesSyncScheduler)
    (issued : List Uuid) :
    Except String Unit → NotesSyncScheduler
  | .ok _ => { w with okPasses := issued :: w.okPasses }
  | .error _ => w

------------------------------------------------------------
-- Steps
------------------------------------------------------------

/- One atomic step, up to the next use of a shared cell. -/
def act :
    SyncChoice → SyncPhase → NotesSyncScheduler →
      Option (SyncPhase × NotesSyncScheduler)
  | .call workspaceId, .idle, w =>
      some (.readPaused workspaceId, w)
  | .go, .readPaused workspaceId, w =>
      if w.syncPaused then
        some (.resume workspaceId, w)
      else
        some (.claim workspaceId, w)
  | .go, .resume workspaceId, w =>
      some (.claim workspaceId, { w with syncPaused := false })
  | .go, .claim workspaceId, w =>
      if w.isRunning then
        some (.insertQueued workspaceId, w)
      else
        some (.insertRunning workspaceId,
          { w with isRunning := true })
  | .draw jobId, .insertRunning workspaceId, w =>
      some (.spawnLoop jobId,
        (w.insertJob jobId (.waiting .running)).issue
          ⟨jobId, workspaceId, .running⟩)
  | .go, .spawnLoop jobId, w => some (.startPass jobId, w)
  | .draw jobId, .insertQueued workspaceId, w =>
      some (.requestFollowUp jobId,
        (w.insertJob jobId (.waiting .queued)).issue
          ⟨jobId, workspaceId, .queued⟩)
  | .go, .requestFollowUp jobId, w =>
      some (.storeQueued jobId,
        { w with followUpRequested := true })
  | .go, .storeQueued jobId, w =>
      some (.finished, { w with queuedJobId := some jobId })
  | .go, .startPass currentJobId, w =>
      some (.inPass currentJobId w.issuedIds, w)
  | .passReturns syncResult, .inPass currentJobId issued, w =>
      some (.recordResult currentJobId syncResult,
        w.passReturned issued syncResult)
  | .go, .recordResult currentJobId syncResult, w =>
      some (.checkFollowUp, w.recordResult currentJobId syncResult)
  | .go, .checkFollowUp, w =>
      if w.followUpRequested then
        some (.takeQueued, { w with followUpRequested := false })
      else
        some (.clearRunning, w)
  -- The id is a new one if there is none to take.
  | .draw newJobId, .takeQueued, w =>
      some (.insertNext (w.queuedJobId.getD newJobId),
        { w with queuedJobId := none })
  | .go, .insertNext nextJobId, w =>
      some (.startPass nextJobId,
        w.insertJob nextJobId (.waiting .running))
  | .go, .clearRunning, w =>
      some (.finished, { w with isRunning := false })
  | _, _, _ => none

/- The rest of the app pauses the sync and resumes it. -/
def setPaused
    (paused : Bool)
    (w : NotesSyncScheduler) : Option NotesSyncScheduler :=
  some { w with syncPaused := paused }

end NotesSyncScheduler

open Concurrency NotesSyncScheduler

/- Any number of calls of `trigger_sync` at one scheduler. -/
def syncScheduler :
    PhaseSystem NotesSyncScheduler SyncPhase SyncChoice Bool where
  act := NotesSyncScheduler.act
  env := setPaused

abbrev SyncSchedulerState (τ : Type) :=
  PhaseState NotesSyncScheduler τ SyncPhase

abbrev SyncSchedulerEvent (τ : Type) :=
  PhaseEvent τ SyncChoice Bool

def SyncSchedulerState.initial
    {τ : Type}
    (syncPaused : Bool) : SyncSchedulerState τ where
  cells := .new syncPaused
  phases := fun _ => .idle

/- What a step does, whatever was chosen for it. -/
inductive Acts :
    SyncPhase → NotesSyncScheduler →
      SyncPhase → NotesSyncScheduler → Prop where
  | call (w id) : Acts .idle w (.readPaused id) w
  | paused (w id) : Acts (.readPaused id) w (.resume id) w
  | notPaused (w id) : Acts (.readPaused id) w (.claim id) w
  | resumed (w id) :
      Acts (.resume id) w (.claim id)
        { w with syncPaused := false }
  | coalesced (w id) (h : w.isRunning = true) :
      Acts (.claim id) w (.insertQueued id) w
  | claimed (w id) (h : w.isRunning = false) :
      Acts (.claim id) w (.insertRunning id)
        { w with isRunning := true }
  | enteredRunning (w id jobId) :
      Acts (.insertRunning id) w (.spawnLoop jobId)
        ((w.insertJob jobId (.waiting .running)).issue
          ⟨jobId, id, .running⟩)
  | spawned (w id) : Acts (.spawnLoop id) w (.startPass id) w
  | enteredQueued (w id jobId) :
      Acts (.insertQueued id) w (.requestFollowUp jobId)
        ((w.insertJob jobId (.waiting .queued)).issue
          ⟨jobId, id, .queued⟩)
  | requested (w id) :
      Acts (.requestFollowUp id) w (.storeQueued id)
        { w with followUpRequested := true }
  | stored (w id) :
      Acts (.storeQueued id) w .finished
        { w with queuedJobId := some id }
  | started (w id) :
      Acts (.startPass id) w (.inPass id w.issuedIds) w
  | returned (w id issued result) :
      Acts (.inPass id issued) w (.recordResult id result)
        (w.passReturned issued result)
  | recorded (w id result) :
      Acts (.recordResult id result) w .checkFollowUp
        (w.recordResult id result)
  | followed (w) (h : w.followUpRequested = true) :
      Acts .checkFollowUp w .takeQueued
        { w with followUpRequested := false }
  | unfollowed (w) (h : w.followUpRequested = false) :
      Acts .checkFollowUp w .clearRunning w
  | taken (w newJobId) :
      Acts .takeQueued w
        (.insertNext (w.queuedJobId.getD newJobId))
        { w with queuedJobId := none }
  | enteredNext (w id) :
      Acts (.insertNext id) w (.startPass id)
        (w.insertJob id (.waiting .running))
  | cleared (w) :
      Acts .clearRunning w .finished { w with isRunning := false }

theorem acts_of_act
    {c : SyncChoice} {p p' : SyncPhase}
    {w w' : NotesSyncScheduler}
    (h : NotesSyncScheduler.act c p w = some (p', w')) :
    Acts p w p' w' := by
  cases c with
  | call id =>
      cases p with
      | idle =>
          cases h
          exact .call w id
      | _ => cases h
  | draw id =>
      cases p with
      | insertRunning workspaceId =>
          cases h
          exact .enteredRunning w workspaceId id
      | insertQueued workspaceId =>
          cases h
          exact .enteredQueued w workspaceId id
      | takeQueued =>
          cases h
          exact .taken w id
      | _ => cases h
  | passReturns result =>
      cases p with
      | inPass id issued =>
          cases h
          exact .returned w id issued result
      | _ => cases h
  | go =>
      cases p with
      | readPaused id =>
          rw [NotesSyncScheduler.act] at h
          split at h
          · cases h
            exact .paused w id
          · cases h
            exact .notPaused w id
      | resume id =>
          cases h
          exact .resumed w id
      | claim id =>
          rw [NotesSyncScheduler.act] at h
          split at h
          · rename_i hRunning
            cases h
            exact .coalesced w id hRunning
          · rename_i hRunning
            cases h
            exact .claimed w id (by simpa using hRunning)
      | spawnLoop id =>
          cases h
          exact .spawned w id
      | requestFollowUp id =>
          cases h
          exact .requested w id
      | storeQueued id =>
          cases h
          exact .stored w id
      | startPass id =>
          cases h
          exact .started w id
      | recordResult id result =>
          cases h
          exact .recorded w id result
      | checkFollowUp =>
          rw [NotesSyncScheduler.act] at h
          split at h
          · rename_i hRequested
            cases h
            exact .followed w hRequested
          · rename_i hRequested
            cases h
            exact .unfollowed w (by simpa using hRequested)
      | insertNext id =>
          cases h
          exact .enteredNext w id
      | clearRunning =>
          cases h
          exact .cleared w
      | _ => cases h

end S4Drive

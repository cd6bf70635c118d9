import S4Drive.Metadata.Types

/-
  The autosave session of an open note. One request is in
  flight at a time, and a request that failed is sent again
  as it was. The methods are run by the user, by timers and
  by the promises of the running saves; each of these turns
  is one event.

  Main declarations:
    * `NoteSession`, `SaveRequest`
    * `SessionWorld`
    * `SessionEvent`, `SessionWorld.step`
-/

------------------------------------------------------------
-- Sessions
------------------------------------------------------------

namespace S4Drive

/- What a save has to find in place of the note. -/
structure SaveToken where
  generation : Nat
  contentHash : String
deriving DecidableEq

/- A frozen snapshot of a session. -/
structure SaveRequest where
  requestId : Uuid
  sequence : Nat
  body : String
  expected : SaveToken
  noteId : Uuid
  workspaceId : Uuid
deriving DecidableEq

inductive SessionStatus where
  | clean
  | dirty
  | saving
  | error
  | stale
deriving DecidableEq

/- Why a request failed; the code tells two kinds apart. -/
inductive SaveError where
  | staleWrite
  | other (message : String)
deriving DecidableEq

abbrev TimerId := Nat

abbrev DrainId := Nat

structure NoteSession where
  noteId : Uuid
  workspaceId : Uuid
  body : String
  token : SaveToken
  editSequence : Nat
  savedSequence : Nat
  status : SessionStatus
  error : Option SaveError
  -- The drain whose promise the session holds.
  saving : Option DrainId
  pendingSnapshot : Option SaveRequest
  saveBlocked : Bool
  destroyed : Bool
  isComposing : Bool
  idleTimer : Option TimerId
  checkpointTimer : Option TimerId
deriving DecidableEq

def snapshotOf
    (requestId : Uuid)
    (s : NoteSession) : SaveRequest where
  requestId := requestId
  sequence := s.editSequence
  body := s.body
  expected := s.token
  noteId := s.noteId
  workspaceId := s.workspaceId

def NoteSession.hasUnsaved (s : NoteSession) : Bool :=
  s.pendingSnapshot.isSome || s.savedSequence < s.editSequence

/- The document that a session is opened on. -/
structure OpenedNote where
  noteId : Uuid
  workspaceId : Uuid
  body : String
  token : SaveToken
deriving DecidableEq

def NoteSession.new (note : OpenedNote) : NoteSession where
  noteId := note.noteId
  workspaceId := note.workspaceId
  body := note.body
  token := note.token
  editSequence := 0
  savedSequence := 0
  status := .clean
  error := none
  saving := none
  pendingSnapshot := none
  saveBlocked := false
  destroyed := false
  isComposing := false
  idleTimer := none
  checkpointTimer := none

/- Where the function of a running drain stands. -/
inductive DrainState where
  -- It waits for the answer to a request.
  | sending (request : SaveRequest)
  -- It is over, but `drainSave` has not gone on yet.
  | settled
deriving DecidableEq

/- History only: what is of interest to a reader. -/
inductive SessionNote where
  | typed (body : String)
  | flushed
  | sent (request : SaveRequest)
  | acked (request : SaveRequest) (token : SaveToken)
  | failed (request : SaveRequest)
deriving DecidableEq

structure SessionWorld where
  session : NoteSession
  drains : List (DrainId × DrainState)
  -- Timers that are set and neither cleared nor fired.
  armed : List TimerId
  nextDrain : DrainId
  nextTimer : TimerId
  -- Newest first.
  history : List SessionNote
deriving DecidableEq

namespace SessionWorld

def new (note : OpenedNote) : SessionWorld where
  session := .new note
  drains := []
  armed := []
  nextDrain := 0
  nextTimer := 0
  history := []

def note (w : SessionWorld) (entry : SessionNote) : SessionWorld :=
  { w with history := entry :: w.history }

def setStatus
    (w : SessionWorld)
    (status : SessionStatus) : SessionWorld :=
  { w with session := { w.session with status := status } }

def setDrain
    (w : SessionWorld)
    (drain : DrainId)
    (state : DrainState) : SessionWorld :=
  { w with
    drains := (drain, state) ::
      w.drains.filter fun x => x.1 ≠ drain }

def clearTimeout
    (w : SessionWorld)
    (timer : Option TimerId) : SessionWorld :=
  match timer with
  | some id => { w with armed := w.armed.filter (· ≠ id) }
  | none => w

def cancelTimers (w : SessionWorld) : SessionWorld :=
  let w := w.clearTimeout w.session.idleTimer
  let w := w.clearTimeout w.session.checkpointTimer
  { w with
    session := { w.session with
      idleTimer := none
      checkpointTimer := none } }

def armIdleTimer (w : SessionWorld) : SessionWorld :=
  let w := w.clearTimeout w.session.idleTimer
  { w with
    session := { w.session with idleTimer := some w.nextTimer }
    armed := w.nextTimer :: w.armed
    nextTimer := w.nextTimer + 1 }

def armCheckpointTimer (w : SessionWorld) : SessionWorld :=
  match w.session.checkpointTimer with
  | some _ => w
  | none =>
      { w with
        session := { w.session with
          checkpointTimer := some w.nextTimer }
        armed := w.nextTimer :: w.armed
        nextTimer := w.nextTimer + 1 }

/-
  The loop of a drain up to its next request, or to its end.
  `requestId` is the id that a new request gets.
-/
def drainLoop
    (w : SessionWorld)
    (requestId : Uuid)
    (drain : DrainId) : SessionWorld :=
  if !w.session.destroyed && w.session.hasUnsaved then
    let w := w.setStatus .saving
    let snapshot := w.session.pendingSnapshot.getD
      (snapshotOf requestId w.session)
    let w := { w with
      session := { w.session with
        pendingSnapshot := some snapshot } }
    (w.setDrain drain (.sending snapshot)).note
      (.sent snapshot)
  else if w.session.destroyed then
    w.setDrain drain .settled
  else
    (w.setStatus .clean).setDrain drain .settled

/- The session holds the promise of a drain, or of none. -/
def hold
    (w : SessionWorld)
    (drain : Option DrainId) : SessionWorld :=
  { w with session := { w.session with saving := drain } }

/- Joins the running drain, or starts one. -/
def drainSave
    (w : SessionWorld)
    (requestId : Uuid) : SessionWorld :=
  match w.session.saving with
  | some _ => w
  | none =>
      let drain := w.nextDrain
      let w := { w with nextDrain := drain + 1 }
      let w := w.drainLoop requestId drain
      w.hold (some drain)

def flush
    (w : SessionWorld)
    (requestId : Uuid) : SessionWorld :=
  let w := w.cancelTimers
  if w.session.destroyed then
    w
  else
    let w := { w with
      session := { w.session with saveBlocked := false } }
    w.drainSave requestId

/- The request of the drain was confirmed with a token. -/
def acknowledge
    (w : SessionWorld)
    (requestId : Uuid)
    (drain : DrainId)
    (snapshot : SaveRequest)
    (token : SaveToken) : SessionWorld :=
  let w := w.note (.acked snapshot token)
  if w.session.destroyed then
    w.setDrain drain .settled
  else
    let w := { w with
      session := { w.session with
        token := token
        savedSequence := snapshot.sequence
        pendingSnapshot := none
        error := none } }
    w.drainLoop requestId drain

/- It failed, or its answer could not be used. -/
def failSave
    (w : SessionWorld)
    (drain : DrainId)
    (snapshot : SaveRequest)
    (e : SaveError) : SessionWorld :=
  let w := w.note (.failed snapshot)
  if w.session.destroyed then
    w.setDrain drain .settled
  else
    let w := { w with
      session := { w.session with saveBlocked := true } }
    let w := w.cancelTimers
    let w := { w with
      session := { w.session with error := some e } }
    let w := w.setStatus
      (if e = .staleWrite then .stale else .error)
    w.setDrain drain .settled

def onInput (w : SessionWorld) (newBody : String) : SessionWorld :=
  if w.session.destroyed then
    w
  else if newBody = w.session.body ∧
      w.session.status ≠ .dirty then
    w
  else
    let w := { w with
      session := { w.session with
        body := newBody
        editSequence := w.session.editSequence + 1 } }
    let w := w.note (.typed newBody)
    -- A blocked session waits for an explicit save.
    if w.session.saveBlocked then
      w
    else
      let w := w.setStatus .dirty
      if w.session.isComposing then
        w
      else
        w.armIdleTimer.armCheckpointTimer

def onCompositionStart (w : SessionWorld) : SessionWorld :=
  { w with session := { w.session with isComposing := true } }

def onCompositionEnd (w : SessionWorld) : SessionWorld :=
  let w := { w with
    session := { w.session with isComposing := false } }
  if !w.session.saveBlocked && !w.session.destroyed &&
      w.session.savedSequence < w.session.editSequence then
    w.armIdleTimer
  else
    w

/- A save by a timer; it never repeats a failed request. -/
def autoSave
    (w : SessionWorld)
    (requestId : Uuid) : SessionWorld :=
  if w.session.saveBlocked || w.session.destroyed then
    w
  else if w.session.isComposing then
    w
  else
    w.flush requestId

/- `save` and `flush`, called for the user. -/
def explicitFlush
    (w : SessionWorld)
    (requestId : Uuid) : SessionWorld :=
  (w.note .flushed).flush requestId

def save
    (w : SessionWorld)
    (requestId : Uuid) : SessionWorld :=
  if w.session.isComposing then
    w
  else
    w.explicitFlush requestId

def destroy (w : SessionWorld) : SessionWorld :=
  let w := { w with
    session := { w.session with destroyed := true } }
  w.cancelTimers

end SessionWorld

/-
  One turn of the event loop. An id is that of the request
  that the turn builds, if it builds one.
-/
inductive SessionEvent where
  | input (body : String)
  | compositionStart
  | compositionEnd
  | timer (id : TimerId) (requestId : Uuid)
  | flush (requestId : Uuid)
  | save (requestId : Uuid)
  | ack
      (drain : DrainId)
      (token : SaveToken)
      (requestId : Uuid)
  | fail (drain : DrainId) (e : SaveError)
  -- `drainSave` goes on after its drain.
  | resume (drain : DrainId)
  | destroy

namespace SessionWorld

/- `none` when the event is not possible. -/
def step
    (w : SessionWorld) : SessionEvent → Option SessionWorld
  | .input body => some (w.onInput body)
  | .compositionStart => some w.onCompositionStart
  | .compositionEnd => some w.onCompositionEnd
  | .timer id requestId =>
      if id ∈ w.armed then
        let w := { w with armed := w.armed.filter (· ≠ id) }
        some (w.autoSave requestId)
      else
        none
  | .flush requestId => some (w.explicitFlush requestId)
  | .save requestId => some (w.save requestId)
  | .ack drain token requestId =>
      match w.drains.lookup drain with
      | some (.sending snapshot) =>
          some (w.acknowledge requestId drain snapshot token)
      | _ => none
  | .fail drain e =>
      match w.drains.lookup drain with
      | some (.sending snapshot) =>
          some (w.failSave drain snapshot e)
      | _ => none
  | .resume drain =>
      match w.drains.lookup drain with
      | some .settled =>
          let w := w.hold none
          some { w with
            drains := w.drains.filter fun x => x.1 ≠ drain }
      | _ => none
  | .destroy => some w.destroy

def run
    (w : SessionWorld) : List SessionEvent → Option SessionWorld
  | [] => some w
  | event :: rest =>
      match w.step event with
      | none => none
      | some w' => w'.run rest

end SessionWorld

end S4Drive

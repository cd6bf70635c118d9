import Mathlib.Logic.Function.Basic
import S4Drive.Notes.Session

/-
  The editor of notes, which has one note open at a time. An
  action that leaves the open note saves it first and then
  waits for the backend, while the user may go on. A turn of
  the event loop, with all that its promises resolve, is one
  event.

  Main declarations:
    * `NotesState`, `NotesBackend`
    * `NotesController`
    * `ControllerEvent`, `NotesController.step`
-/

------------------------------------------------------------
-- States
------------------------------------------------------------

namespace S4Drive

/- What `notes_read` answers with. -/
structure NoteDocument where
  noteId : Uuid
  body : String
  token : SaveToken
deriving DecidableEq

/- What the sessions depend on of the state of the view. -/
structure NotesState where
  activeNoteId : Option Uuid
  activeDocument : Option NoteDocument
  requestGeneration : Nat
deriving DecidableEq

namespace NotesState

def initial : NotesState where
  activeNoteId := none
  activeDocument := none
  requestGeneration := 0

/- `selectListNote` shows another folder beside the note. -/
def selectTreeNote (s : NotesState) (noteId : Uuid) : NotesState :=
  { s with
    activeNoteId := some noteId
    requestGeneration := s.requestGeneration + 1 }

def selectFolder (s : NotesState) : NotesState :=
  { s with requestGeneration := s.requestGeneration + 1 }

end NotesState

/- A note on disk, with the last token that was given out. -/
structure StoredNote where
  body : String
  token : SaveToken
  present : Bool
deriving DecidableEq

/- `notes_content_token`: a new content, a new generation. -/
def StoredNote.contentToken
    (hashBytes : String → String)
    (n : StoredNote) : SaveToken :=
  if n.token.contentHash = hashBytes n.body then
    n.token
  else
    ⟨n.token.generation + 1, hashBytes n.body⟩

structure NotesBackend where
  notes : Uuid → StoredNote
  -- The requests that were carried out, with their answers.
  saved : List (SaveRequest × SaveToken)

namespace NotesBackend

def setNote
    (b : NotesBackend)
    (noteId : Uuid)
    (n : StoredNote) : NotesBackend :=
  { b with notes := Function.update b.notes noteId n }

/- The token is written down when it is given out. -/
def read
    (hashBytes : String → String)
    (b : NotesBackend)
    (noteId : Uuid) : Option NoteDocument × NotesBackend :=
  let n := b.notes noteId
  if n.present then
    let token := n.contentToken hashBytes
    (some ⟨noteId, n.body, token⟩,
      b.setNote noteId { n with token := token })
  else
    (none, b)

/- The new content; one that is the same keeps its token. -/
def publishSave
    (hashBytes : String → String)
    (b : NotesBackend)
    (r : SaveRequest)
    (current : SaveToken) : SaveToken × NotesBackend :=
  let n := b.notes r.noteId
  let token :=
    if n.body = r.body then
      current
    else
      ⟨current.generation + 1, hashBytes r.body⟩
  let b := b.setNote r.noteId
    { n with body := r.body, token := token }
  (token, { b with saved := (r, token) :: b.saved })

/- A save is carried out once and its answer is repeated. -/
def saveLocal
    (hashBytes : String → String)
    (b : NotesBackend)
    (r : SaveRequest) :
    Except SaveError SaveToken × NotesBackend :=
  match b.saved.find? fun x => x.1.requestId = r.requestId with
  | some (known, token) =>
      if known = r then
        (.ok token, b)
      else
        (.error (.other
          "This request id was already used for a different operation"),
          b)
  | none =>
      let n := b.notes r.noteId
      if !n.present then
        (.error (.other "This item is outside the Notes folder"),
          b)
      else
        let current := n.contentToken hashBytes
        let b := b.setNote r.noteId { n with token := current }
        if current ≠ r.expected then
          (.error .staleWrite, b)
        else
          let (token, b) := b.publishSave hashBytes r current
          (.ok token, b)

def delete (b : NotesBackend) (id : Uuid) : NotesBackend :=
  b.setNote id { b.notes id with present := false }

/- Another program or device has written the note. -/
def write
    (b : NotesBackend)
    (noteId : Uuid)
    (body : String) : NotesBackend :=
  b.setNote noteId
    { b.notes noteId with body := body, present := true }

end NotesBackend

------------------------------------------------------------
-- The Controller
------------------------------------------------------------

/- A session is known by the number of its construction. -/
abbrev Serial := Nat

abbrev CallId := Nat

/- What is to be done once the open note is saved. -/
inductive Leaving where
  | selectNote (noteId : Uuid)
  | selectFolder
  | deleteEntry (id : Uuid)
  -- Nothing that concerns a session: a reload, Ctrl+S.
  | stay
deriving DecidableEq

/- A call of the backend that is waited for. -/
inductive NotesRequest where
  | loadNoteDocument (noteId : Uuid) (generation : Nat)
  | handleRemoteChanges (noteId : Uuid) (session : Serial)
  | deleteEntry (id : Uuid)
deriving DecidableEq

inductive NotesAnswer where
  | document (doc : NoteDocument)
  | deleted
  -- An answer without the document or without its token.
  | malformed
  | failed
deriving DecidableEq

structure NotesCall where
  id : CallId
  request : NotesRequest
  -- There as soon as the backend has answered.
  answer : Option NotesAnswer
deriving DecidableEq

/- The answer to a save that has not been received yet. -/
structure SaveAnswer where
  session : Serial
  drain : DrainId
  request : SaveRequest
  result : Except SaveError SaveToken

/- History only: what is of interest to a reader. -/
inductive ControllerNote where
  | acked (request : SaveRequest) (token : SaveToken)
  -- The session was destroyed, or its buffer replaced.
  | left (session : SessionWorld)
  -- Buffer and token are now those of the document.
  | shown (doc : NoteDocument)

structure NotesController where
  workspaceId : Uuid
  state : NotesState
  activeSession : Option Serial
  -- Those below `nextSession` have been constructed.
  sessions : Serial → SessionWorld
  nextSession : Serial
  -- Who waits for the running save of a session, in order.
  waiting : List (Serial × Leaving)
  calls : List NotesCall
  nextCall : CallId
  saveAnswers : List SaveAnswer
  backend : NotesBackend
  -- Newest first.
  history : List ControllerNote

namespace SessionWorld

/- The promise of a drain is resolved within the turn. -/
def settle (w : SessionWorld) : SessionWorld :=
  match w.session.saving with
  | some drain => (w.step (.resume drain)).getD w
  | none => w

/- The buffer and token of a document, in place of its own. -/
def replaceBuffer
    (w : SessionWorld)
    (doc : NoteDocument) : SessionWorld :=
  { w with
    session := { w.session with
      body := doc.body
      token := doc.token } }

end SessionWorld

namespace NotesController

def start
    (workspaceId : Uuid)
    (notes : Uuid → StoredNote) : NotesController where
  workspaceId := workspaceId
  state := .initial
  activeSession := none
  sessions := fun _ => .new ⟨0, workspaceId, "", ⟨0, ""⟩⟩
  nextSession := 0
  waiting := []
  calls := []
  nextCall := 0
  saveAnswers := []
  backend := ⟨notes, []⟩
  history := []

def note
    (c : NotesController)
    (entry : ControllerNote) : NotesController :=
  { c with history := entry :: c.history }

def setSession
    (c : NotesController)
    (session : Serial)
    (w : SessionWorld) : NotesController :=
  { c with sessions := Function.update c.sessions session w }

def setDocument
    (c : NotesController)
    (document : Option NoteDocument) : NotesController :=
  { c with state := { c.state with activeDocument := document } }

def invoke
    (c : NotesController)
    (request : NotesRequest) : NotesController :=
  { c with
    calls := ⟨c.nextCall, request, none⟩ :: c.calls
    nextCall := c.nextCall + 1 }

/- One turn of a session. -/
def turn
    (c : NotesController)
    (session : Serial)
    (event : SessionEvent) : Option NotesController :=
  ((c.sessions session).step event).map fun w =>
    c.setSession session w.settle

/- The rest of an action, after `saveBeforeLeaving`. -/
def proceed (c : NotesController) : Leaving → NotesController
  | .selectNote noteId =>
      let c := { c with state := c.state.selectTreeNote noteId }
      c.invoke (.loadNoteDocument noteId
        c.state.requestGeneration)
  | .selectFolder =>
      { c with state := c.state.selectFolder }
  | .deleteEntry id => c.invoke (.deleteEntry id)
  | .stay => c

/- Waits for a running save, or for the one that it starts. -/
def saveBeforeLeaving
    (c : NotesController)
    (requestId : Uuid)
    (leaving : Leaving) : NotesController :=
  match c.activeSession with
  | none => c.proceed leaving
  | some session =>
      let w := c.sessions session
      if w.session.saving.isSome || w.session.hasUnsaved then
        let w := (w.explicitFlush requestId).settle
        let c := c.setSession session w
        if w.session.saving.isSome then
          { c with
            waiting := c.waiting ++ [(session, leaving)] }
        else
          c.proceed leaving
      else
        c.proceed leaving

/- The save is over, and those who waited for it go on. -/
def proceedAll
    (c : NotesController)
    (session : Serial) : NotesController :=
  let ready := c.waiting.filter fun x => x.1 = session
  let c := { c with
    waiting := c.waiting.filter fun x => x.1 ≠ session }
  ready.foldl (fun c x => c.proceed x.2) c

/- It has failed, and they give up. -/
def giveUp
    (c : NotesController)
    (session : Serial) : NotesController :=
  { c with
    waiting := c.waiting.filter fun x => x.1 ≠ session }

/- The rest of `sendSave`, when the save is confirmed. -/
def confirmSave
    (c : NotesController)
    (request : SaveRequest)
    (token : SaveToken) : NotesController :=
  let document := c.state.activeDocument.map fun doc =>
    if doc.noteId = request.noteId then
      { doc with token := token }
    else
      doc
  (c.setDocument document).note (.acked request token)

/- The answer to a save, first for `sendSave`. -/
def finishSave
    (c : NotesController)
    (answer : SaveAnswer)
    (requestId : Uuid) : Option NotesController :=
  match answer.result with
  | .ok token =>
      let c := c.confirmSave answer.request token
      (c.turn answer.session
          (.ack answer.drain token requestId)).map fun c =>
        if (c.sessions answer.session).session.saving.isSome then
          c
        else
          c.proceedAll answer.session
  | .error e =>
      (c.turn answer.session (.fail answer.drain e)).map fun c =>
        c.giveUp answer.session

def destroySession (c : NotesController) : NotesController :=
  match c.activeSession with
  | some session =>
      let w := c.sessions session
      let c := c.note (.left w)
      { c.setSession session w.destroy with
        activeSession := none }
  | none => c

def openSession
    (c : NotesController)
    (doc : NoteDocument) : NotesController :=
  let c := c.note (.shown doc)
  let w := SessionWorld.new
    ⟨doc.noteId, c.workspaceId, doc.body, doc.token⟩
  let opened := c.setSession c.nextSession w
  { opened.setDocument (some doc) with
    activeSession := some c.nextSession
    nextSession := c.nextSession + 1 }

def keepOpenNote (c : NotesController) : NotesController :=
  let openId :=
    match c.state.activeDocument, c.activeSession with
    | some _, some session =>
        some (c.sessions session).session.noteId
    | _, _ => none
  { c with state := { c.state with activeNoteId := openId } }

def finishLoad
    (c : NotesController)
    (noteId : Uuid)
    (generation : Nat) : NotesAnswer → NotesController
  | .failed => c
  | answer =>
      -- A newer selection has made the answer stale.
      if c.state.requestGeneration ≠ generation ∨
          c.state.activeNoteId ≠ some noteId then
        c
      else
        match answer with
        | .document doc =>
            if doc.noteId = noteId then
              c.destroySession.openSession doc
            else
              c.keepOpenNote
        | _ => c.keepOpenNote

def finishRemoteChanges
    (c : NotesController)
    (session : Serial) : NotesAnswer → NotesController
  | .failed =>
      let w := c.sessions session
      if w.session.status ≠ .clean then
        c.setSession session (w.setStatus .stale)
      else
        c
  | .document doc =>
      let w := c.sessions session
      if c.activeSession ≠ some session ∨
          doc.noteId ≠ w.session.noteId then
        c
      else if w.session.status = .clean then
        let c := (c.note (.left w)).note (.shown doc)
        (c.setSession session (w.replaceBuffer doc)).setDocument
          (some doc)
      else
        -- The buffer of an unsaved note is left alone.
        let c := c.setDocument
          (c.state.activeDocument.map fun old =>
            { old with noteId := doc.noteId })
        if doc.token ≠ w.session.token then
          c.setSession session (w.setStatus .stale)
        else
          c
  | _ => c

def finishDelete
    (c : NotesController)
    (id : Uuid) : NotesAnswer → NotesController
  | .deleted =>
      if c.state.activeNoteId = some id then
        let c := c.destroySession.setDocument none
        { c with state := { c.state with activeNoteId := none } }
      else
        c
  | _ => c

/- Who has called goes on with the answer. -/
def finishCall
    (c : NotesController)
    (request : NotesRequest)
    (answer : NotesAnswer) : NotesController :=
  match request with
  | .loadNoteDocument noteId generation =>
      c.finishLoad noteId generation answer
  | .handleRemoteChanges _ session =>
      c.finishRemoteChanges session answer
  | .deleteEntry id => c.finishDelete id answer

def onEditorInput
    (c : NotesController)
    (newBody : String) : Option NotesController :=
  let c := c.setDocument
    (c.state.activeDocument.map fun doc =>
      { doc with body := newBody })
  match c.activeSession with
  | some session => c.turn session (.input newBody)
  | none => some c

/- `handleRemoteChanges`, when it has reloaded the folders. -/
def handleRemoteChanges (c : NotesController) : NotesController :=
  match c.state.activeNoteId, c.activeSession with
  | some noteId, some session =>
      c.invoke (.handleRemoteChanges noteId session)
  | _, _ => c

/- A callback of the open session. -/
def onSession
    (c : NotesController)
    (event : SessionEvent) : Option NotesController :=
  match c.activeSession with
  | some session => c.turn session event
  | none => some c

end NotesController

------------------------------------------------------------
-- Events
------------------------------------------------------------

/- How the backend deals with a call. -/
inductive Served where
  | carriedOut
  | refused
  -- It is carried out, but the answer cannot be used.
  | garbled

/-
  One turn of the event loop, or a step of the backend. An
  id of a request is that of the save that the turn starts,
  if it starts one.
-/
inductive ControllerEvent where
  | input (body : String)
  | compositionStart
  | compositionEnd
  | timer (session : Serial) (id : TimerId) (requestId : Uuid)
  | leave (leaving : Leaving) (requestId : Uuid)
  | remoteChanges
  | serve (call : CallId) (served : Served)
  | deliver (call : CallId)
  | serveSave
      (session : Serial)
      (drain : DrainId)
      (served : Served)
  | deliverSave
      (session : Serial)
      (drain : DrainId)
      (requestId : Uuid)
  -- Other programs and devices.
  | write (noteId : Uuid) (body : String)
  | remove (noteId : Uuid)

namespace NotesController

variable (hashBytes : String → String)

/- What the backend answers, and what becomes of it. -/
def answerToRead
    (b : NotesBackend)
    (noteId : Uuid)
    (served : Served) : NotesAnswer × NotesBackend :=
  match served, b.read hashBytes noteId with
  | .refused, _ => (.failed, b)
  | _, (none, b) => (.failed, b)
  | .garbled, (some _, b) => (.malformed, b)
  | .carriedOut, (some doc, b) => (.document doc, b)

/- Of the answer to a delete only a failure is looked at. -/
def answerToDelete
    (b : NotesBackend)
    (id : Uuid)
    (served : Served) : NotesAnswer × NotesBackend :=
  match served, (b.notes id).present with
  | .refused, _ => (.failed, b)
  | _, false => (.failed, b)
  | .garbled, true => (.failed, b.delete id)
  | .carriedOut, true => (.deleted, b.delete id)

def answerTo
    (b : NotesBackend)
    (request : NotesRequest)
    (served : Served) : NotesAnswer × NotesBackend :=
  match request with
  | .loadNoteDocument noteId _
  | .handleRemoteChanges noteId _ =>
      answerToRead hashBytes b noteId served
  | .deleteEntry id => answerToDelete b id served

def answerToSave
    (b : NotesBackend)
    (request : SaveRequest) :
    Served → Except SaveError SaveToken × NotesBackend
  | .refused => (.error (.other "not carried out"), b)
  | .carriedOut => b.saveLocal hashBytes request
  | .garbled =>
      (.error (.other "The save was not confirmed."),
        (b.saveLocal hashBytes request).2)

def answerCall
    (c : NotesController)
    (call : CallId)
    (answer : NotesAnswer)
    (backend : NotesBackend) : NotesController :=
  { c with
    backend := backend
    calls := c.calls.map fun x =>
      if x.id = call then
        { x with answer := some answer }
      else
        x }

/- The first call with the id, when it is still open. -/
def serve
    (c : NotesController)
    (call : CallId)
    (served : Served) : Option NotesController :=
  match c.calls.find? fun x => x.id = call with
  | some ⟨_, request, none⟩ =>
      let (answer, backend) :=
        answerTo hashBytes c.backend request served
      some (c.answerCall call answer backend)
  | _ => none

def deliver
    (c : NotesController)
    (call : CallId) : Option NotesController :=
  match c.calls.find? fun x => x.id = call with
  | some ⟨_, request, some answer⟩ =>
      let c := { c with
        calls := c.calls.filter fun x => x.id ≠ call }
      some (c.finishCall request answer)
  | _ => none

/- The answer that is on its way to a drain. -/
def saveAnswer
    (c : NotesController)
    (session : Serial)
    (drain : DrainId) : Option SaveAnswer :=
  c.saveAnswers.find? fun x =>
    x.session = session ∧ x.drain = drain

def serveSave
    (c : NotesController)
    (session : Serial)
    (drain : DrainId)
    (served : Served) : Option NotesController :=
  match (c.sessions session).drains.lookup drain,
      c.saveAnswer session drain with
  | some (.sending request), none =>
      let (result, backend) :=
        answerToSave hashBytes c.backend request served
      some { c with
        backend := backend
        saveAnswers :=
          ⟨session, drain, request, result⟩ :: c.saveAnswers }
  | _, _ => none

def deliverSave
    (c : NotesController)
    (session : Serial)
    (drain : DrainId)
    (requestId : Uuid) : Option NotesController :=
  match c.saveAnswer session drain with
  | some answer =>
      let c := { c with
        saveAnswers := c.saveAnswers.filter fun x =>
          ¬ (x.session = session ∧ x.drain = drain) }
      c.finishSave answer requestId
  | none => none

/- `none` when the event is not possible. -/
def step
    (c : NotesController) :
    ControllerEvent → Option NotesController
  | .input body => c.onEditorInput body
  | .compositionStart => c.onSession .compositionStart
  | .compositionEnd => c.onSession .compositionEnd
  | .timer session id requestId =>
      c.turn session (.timer id requestId)
  | .leave leaving requestId =>
      some (c.saveBeforeLeaving requestId leaving)
  | .remoteChanges => some c.handleRemoteChanges
  | .serve call served => c.serve hashBytes call served
  | .deliver call => c.deliver call
  | .serveSave session drain served =>
      c.serveSave hashBytes session drain served
  | .deliverSave session drain requestId =>
      c.deliverSave session drain requestId
  | .write noteId body =>
      some { c with backend := c.backend.write noteId body }
  | .remove noteId =>
      some { c with backend := c.backend.delete noteId }

def run
    (c : NotesController) :
    List ControllerEvent → Option NotesController
  | [] => some c
  | event :: rest =>
      match c.step hashBytes event with
      | none => none
      | some c' => c'.run rest

end NotesController

end S4Drive

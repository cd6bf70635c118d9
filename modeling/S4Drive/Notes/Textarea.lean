import S4Drive.Core.Text
import S4Drive.Notes.Markdown
import S4Drive.Notes.Session

/-
  The text field of an open note. A body goes into the field
  with its own line ends, and what is read back has only
  LFs; each way back hands that value to the session.

  Main declarations:
    * `textareaValue`
    * `NoteEditor`, `EditorEvent`
    * `NoteEditor.step`, `NoteEditor.run`
-/

------------------------------------------------------------
-- The Value of a Text Field
------------------------------------------------------------

namespace S4Drive.NoteEditing

open Markdown TextLines

/- The line ends so far; after a CR, an LF belongs to it. -/
def withLineFeeds : Bool → Text → Text
  | _, [] => []
  | afterReturn, c :: rest =>
      if c = '\r' then
        '\n' :: withLineFeeds true rest
      else if c = '\n' ∧ afterReturn then
        withLineFeeds false rest
      else
        c :: withLineFeeds false rest

/- Every CRLF and every CR becomes an LF. -/
def textareaValue (body : Text) : Text :=
  withLineFeeds false body

inductive EditorMode where
  | raw
  | preview
deriving DecidableEq

structure NoteEditor where
  session : SessionWorld
  -- What the field returns as its value.
  textarea : Text
  editorMode : EditorMode
  -- History only: the body that was read last, the edits of
  -- the user since, and what the session had done before.
  read : Text
  edits : List (Edit Char)
  before : Nat

inductive EditorEvent where
  | openNote (note : OpenedNote)
  -- The user replaces a part of what is in the field.
  | input (edit : Edit Char)
  | switchMode (mode : EditorMode)
  | toolbar (start stop : Nat) (action : MarkdownAction)
  -- `notes_read` answers after a remote change, or fails.
  | external (body : String) (token : SaveToken)
  | unreadable
  | render
  -- Timers, answers, flushes and the like.
  | session (event : SessionEvent)

namespace NoteEditor

/- The field and the session get the body that was read. -/
def opened (note : OpenedNote) : NoteEditor where
  session := .new note
  textarea := textareaValue note.body.toList
  editorMode := .raw
  read := note.body.toList
  edits := []
  before := 0

def onEditorInput (e : NoteEditor) (newBody : Text) : NoteEditor :=
  { e with session := e.session.onInput (.ofList newBody) }

def input (e : NoteEditor) (edit : Edit Char) : NoteEditor :=
  let value := textareaValue (replaced e.textarea edit)
  let e := { e with
    textarea := value
    edits := e.edits ++ [edit] }
  e.onEditorInput value

def switchEditorMode
    (e : NoteEditor)
    (mode : EditorMode) : NoteEditor :=
  if e.editorMode = mode then
    e
  else
    match mode with
    | .preview =>
        let e := { e with editorMode := .preview }
        e.onEditorInput e.textarea
    | .raw =>
        let body := e.session.session.body.toList
        { e with
          editorMode := .raw
          textarea :=
            if body = [] then
              e.textarea
            else
              textareaValue body }

def applyToolbarAction
    (e : NoteEditor)
    (start stop : Nat)
    (action : MarkdownAction) : NoteEditor :=
  let res :=
    (applyMarkdownAction id e.textarea start stop action).body
  let e := { e with
    textarea := textareaValue res
    edits := e.edits ++ [changeOf e.textarea res] }
  e.onEditorInput res

/- A session that has unsaved text is stale from then on. -/
def markStale (e : NoteEditor) : NoteEditor :=
  { e with session := e.session.setStatus .stale }

def handleRemoteChanges
    (e : NoteEditor)
    (body : String)
    (token : SaveToken) : NoteEditor :=
  let session := e.session.session
  if session.destroyed then
    e
  else if session.status = .clean then
    { e with
      session := { e.session with
        session := { session with
          body := body
          token := token } }
      textarea :=
        if session.body = body then
          e.textarea
        else
          textareaValue body.toList
      read := body.toList
      edits := []
      before := e.session.history.length }
  else if token ≠ session.token then
    e.markStale
  else
    e

def handleUnreadable (e : NoteEditor) : NoteEditor :=
  if e.session.session.destroyed ∨
      e.session.session.status = .clean then
    e
  else
    e.markStale

/- A new field is filled with the body of the session. -/
def render (e : NoteEditor) : NoteEditor :=
  { e with
    textarea := textareaValue e.session.session.body.toList }

/- `none` when the event is not possible. -/
def step
    (e : NoteEditor) : EditorEvent → Option NoteEditor
  | .openNote note => some (.opened note)
  | .input edit =>
      if edit.start ≤ edit.stop ∧
          edit.stop ≤ e.textarea.length then
        some (e.input edit)
      else
        none
  | .switchMode mode => some (e.switchEditorMode mode)
  | .toolbar start stop action =>
      some (e.applyToolbarAction start stop action)
  | .external body token =>
      some (e.handleRemoteChanges body token)
  | .unreadable => some e.handleUnreadable
  | .render => some e.render
  -- Input comes from the field only.
  | .session (.input _) => none
  | .session event =>
      (e.session.step event).map fun w => { e with session := w }

def run
    (e : NoteEditor) : List EditorEvent → Option NoteEditor
  | [] => some e
  | event :: rest =>
      match e.step event with
      | none => none
      | some e' => e'.run rest

end NoteEditor

end S4Drive.NoteEditing

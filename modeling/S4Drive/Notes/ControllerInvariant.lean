import S4Drive.Notes.NoteVersions
import S4Drive.Notes.SavedInputs

/-
  What the editor has to keep, and the invariant by which it
  does so: while an answer that closes the open session is
  under way the session has nothing unsaved, who waits for a
  save waits for the open session, and a document that may
  still be shown is not older than the last acknowledged
  save.

  Main declarations:
    * `EditsKept`, `NotesController.permits`
    * `ControllerInv`
    * `ControllerInv.saveBeforeLeaving`
    * `ControllerInv.finishSave`
-/

------------------------------------------------------------
-- What is Kept
------------------------------------------------------------

namespace S4Drive

def lastAcked
    (noteId : Uuid) : List ControllerNote → Option SaveToken
  | [] => none
  | .acked request token :: older =>
      if request.noteId = noteId then
        some token
      else
        lastAcked noteId older
  | _ :: older => lastAcked noteId older

/- Not older than the last acknowledged save of the note. -/
def NotOlder
    (history : List ControllerNote)
    (noteId : Uuid)
    (token : SaveToken) : Prop :=
  ∀ acked, lastAcked noteId history = some acked →
    acked.generation ≤ token.generation

structure EditsKept (c : NotesController) : Prop where
  saved :
    ∀ w, .left w ∈ c.history →
      ackedInputs w.history = typedInputs w.history
  fresh :
    ∀ newer doc older,
      c.history = newer ++ .shown doc :: older →
        NotOlder older doc.noteId doc.token

namespace NotesController

variable (hashBytes : String → String)

/- The answer will close the session that is open now. -/
def closesSession (c : NotesController) : NotesRequest → Bool
  | .loadNoteDocument noteId generation =>
      c.state.requestGeneration = generation &&
        c.state.activeNoteId = some noteId
  | .handleRemoteChanges _ _ => false
  | .deleteEntry id => c.state.activeNoteId = some id

/- The document of the answer may still be shown. -/
def showsDocument (c : NotesController) : NotesRequest → Bool
  | .loadNoteDocument _ generation =>
      c.state.requestGeneration = generation
  | .handleRemoteChanges _ session =>
      c.activeSession = some session
  | .deleteEntry _ => false

/- A document from before the save that has this token. -/
def isOlder
    (noteId : Uuid)
    (token : SaveToken) : Option NotesAnswer → Bool
  | some (.document doc) =>
      doc.noteId = noteId &&
        decide (doc.token.generation < token.generation)
  | _ => false

/- The condition, on the state before the event. -/
def permits (c : NotesController) : ControllerEvent → Bool
  | .input _ =>
      c.activeSession.isNone ||
        c.calls.all fun x => !c.closesSession x.request
  | .deliverSave session drain _ =>
      match c.saveAnswer session drain with
      | some ⟨_, _, request, .ok token⟩ =>
          c.calls.all fun x =>
            !(c.showsDocument x.request &&
              isOlder request.noteId token x.answer)
      | _ => true
  | _ => true

/- Every event of the run meets the condition. -/
def careful
    (c : NotesController) : List ControllerEvent → Bool
  | [] => true
  | event :: rest =>
      c.permits event &&
        match c.step hashBytes event with
        | some c' => c'.careful rest
        | none => true

end NotesController

------------------------------------------------------------
-- The Invariant
------------------------------------------------------------

/- A session that is not open does nothing any more. -/
structure Still (w : SessionWorld) : Prop where
  drains : w.drains = []
  timers : w.session.destroyed = true ∨ w.armed = []

/- What a request refers to has been there. -/
def NotesController.Issued
    (c : NotesController) : NotesRequest → Prop
  | .loadNoteDocument _ generation =>
      generation ≤ c.state.requestGeneration
  | .handleRemoteChanges _ session => session < c.nextSession
  | .deleteEntry _ => True

/- The open note, if there is one, has nothing unsaved. -/
def NotesController.OpenSaved (c : NotesController) : Prop :=
  ∀ session, c.activeSession = some session →
    (c.sessions session).session.hasUnsaved = false

structure ControllerInv (c : NotesController) : Prop where
  kept : EditsKept c
  active :
    ∀ session, c.activeSession = some session →
      Resting (c.sessions session) ∧ session < c.nextSession
  others :
    ∀ session, c.activeSession ≠ some session →
      Still (c.sessions session)
  waiting :
    ∀ x ∈ c.waiting,
      c.activeSession = some x.1 ∧
        (c.sessions x.1).drains ≠ []
  issued : ∀ x ∈ c.calls, c.Issued x.request
  closing :
    ∀ x ∈ c.calls, c.closesSession x.request = true →
      c.OpenSaved
  shows :
    ∀ x ∈ c.calls, c.showsDocument x.request = true →
      ∀ doc, x.answer = some (.document doc) →
        NotOlder c.history doc.noteId doc.token
  stored :
    ∀ noteId,
      NotOlder c.history noteId (c.backend.notes noteId).token
  recorded : c.backend.Recorded
  answers :
    ∀ x ∈ c.saveAnswers, ∀ token, x.result = .ok token →
      token.generation ≤
        (c.backend.notes x.request.noteId).token.generation

namespace ControllerInv

variable {hashBytes : String → String}
variable {c c' : NotesController} {session : Serial}
variable {requestId : Uuid}

theorem start
    {workspaceId : Uuid} {notes : Uuid → StoredNote} :
    ControllerInv (.start workspaceId notes) where
  kept :=
    { saved := fun _ h => nomatch h
      fresh := by
        intro newer doc older h
        cases newer <;> cases h }
  active := fun _ h => nomatch h
  others := fun _ _ => ⟨rfl, .inr rfl⟩
  waiting := fun _ h => nomatch h
  issued := fun _ h => nomatch h
  closing := fun _ h => nomatch h
  shows := fun _ h => nomatch h
  stored := fun _ _ h => nomatch h
  recorded := fun _ h => nomatch h
  answers := fun _ h => nomatch h

/- Nobody waits when the open note has nothing unsaved. -/
theorem waiting_nil
    (h : ControllerInv c)
    (hSaved : c.OpenSaved) : c.waiting = [] := by
  cases hWaiting : c.waiting with
  | nil => rfl
  | cons x rest =>
      have hThere := h.waiting x (by
        rw [hWaiting]
        exact List.mem_cons_self)
      have hRest := (h.active x.1 hThere.1).1
      exact absurd (hRest.drains_nil (hSaved x.1 hThere.1))
        hThere.2

/- The active document is for the view only. -/
theorem setDocument
    (h : ControllerInv c)
    (document : Option NoteDocument) :
    ControllerInv (c.setDocument document) where
  kept := ⟨h.kept.saved, h.kept.fresh⟩
  active := h.active
  others := h.others
  waiting := h.waiting
  issued := h.issued
  closing := h.closing
  shows := h.shows
  stored := h.stored
  recorded := h.recorded
  answers := h.answers

variable {waiting : List (Serial × Leaving)}

/- Fewer may wait, and fewer calls may be open. -/
theorem drop
    {calls : List NotesCall} {saveAnswers : List SaveAnswer}
    (h : ControllerInv c)
    (hWaiting : ∀ x ∈ waiting, x ∈ c.waiting)
    (hCalls : ∀ x ∈ calls, x ∈ c.calls)
    (hAnswers : ∀ x ∈ saveAnswers, x ∈ c.saveAnswers) :
    ControllerInv
      { c with
        waiting := waiting
        calls := calls
        saveAnswers := saveAnswers } where
  kept := ⟨h.kept.saved, h.kept.fresh⟩
  active := h.active
  others := h.others
  waiting := fun x hMem => h.waiting x (hWaiting x hMem)
  issued := fun x hMem => h.issued x (hCalls x hMem)
  closing := fun x hMem => h.closing x (hCalls x hMem)
  shows := fun x hMem => h.shows x (hCalls x hMem)
  stored := h.stored
  recorded := h.recorded
  answers := fun x hMem => h.answers x (hAnswers x hMem)

theorem sessions_setSession (w : SessionWorld) :
    (c.setSession session w).sessions session = w :=
  Function.update_self ..

theorem sessions_setSession_of_ne
    {other : Serial} (w : SessionWorld)
    (h : other ≠ session) :
    (c.setSession session w).sessions other =
      c.sessions other :=
  Function.update_of_ne h ..

variable {w : SessionWorld}

/- A turn of the open session. -/
theorem setSession
    (h : ControllerInv c)
    (hActive : c.activeSession = some session)
    (hRest : Resting w)
    (hSaved :
      c.OpenSaved →
        (∃ x ∈ c.calls, c.closesSession x.request = true) →
          w.session.hasUnsaved = false)
    (hWaits : c.waiting ≠ [] → w.drains ≠ []) :
    ControllerInv (c.setSession session w) where
  kept := ⟨h.kept.saved, h.kept.fresh⟩
  active := by
    intro other hOther
    cases hActive.symm.trans hOther
    rw [sessions_setSession]
    exact ⟨hRest, (h.active session hActive).2⟩
  others := by
    intro other hOther
    have hNe : other ≠ session := by
      rintro rfl
      exact hOther hActive
    rw [sessions_setSession_of_ne w hNe]
    exact h.others other hOther
  waiting := by
    intro x hMem
    have hThere := h.waiting x hMem
    cases hActive.symm.trans hThere.1
    rw [sessions_setSession]
    exact ⟨hThere.1, hWaits (List.ne_nil_of_mem hMem)⟩
  issued := h.issued
  closing := by
    intro x hMem hCloses other hOther
    cases hActive.symm.trans hOther
    rw [sessions_setSession]
    exact hSaved (h.closing x hMem hCloses) ⟨x, hMem, hCloses⟩
  shows := h.shows
  stored := h.stored
  recorded := h.recorded
  answers := h.answers

/- Another session, which stays still. -/
theorem setStill
    (h : ControllerInv c)
    (hOther : c.activeSession ≠ some session)
    (hStill : Still w) :
    ControllerInv (c.setSession session w) := by
  have hSame (s : Serial) (hActive : c.activeSession = some s) :
      (c.setSession session w).sessions s = c.sessions s := by
    apply sessions_setSession_of_ne
    rintro rfl
    exact hOther hActive
  constructor
  · exact ⟨h.kept.saved, h.kept.fresh⟩
  · intro s hActive
    rw [hSame s hActive]
    exact h.active s hActive
  · intro s hNot
    by_cases hHere : s = session
    · subst hHere
      rw [sessions_setSession]
      exact hStill
    · rw [sessions_setSession_of_ne w hHere]
      exact h.others s hNot
  · intro x hMem
    have hThere := h.waiting x hMem
    rw [hSame x.1 hThere.1]
    exact hThere
  · exact h.issued
  · intro x hMem hCloses s hActive
    rw [hSame s hActive]
    exact h.closing x hMem hCloses s hActive
  · exact h.shows
  · exact h.stored
  · exact h.recorded
  · exact h.answers

------------------------------------------------------------
-- Leaving
------------------------------------------------------------

variable {leaving : Leaving}

theorem openSaved_proceed
    (hSaved : c.OpenSaved) : (c.proceed leaving).OpenSaved := by
  cases leaving <;> exact hSaved

theorem invoke
    {request : NotesRequest}
    (h : ControllerInv c)
    (hIssued : c.Issued request)
    (hSaved : c.closesSession request = true → c.OpenSaved) :
    ControllerInv (c.invoke request) where
  kept := ⟨h.kept.saved, h.kept.fresh⟩
  active := h.active
  others := h.others
  waiting := h.waiting
  issued := by
    intro x hMem
    rcases List.mem_cons.mp hMem with rfl | hOld
    · exact hIssued
    · exact h.issued x hOld
  closing := by
    intro x hMem hCloses
    rcases List.mem_cons.mp hMem with rfl | hOld
    · exact hSaved hCloses
    · exact h.closing x hOld hCloses
  shows := by
    intro x hMem hShows doc hAnswer
    rcases List.mem_cons.mp hMem with rfl | hOld
    · cases hAnswer
    · exact h.shows x hOld hShows doc hAnswer
  stored := h.stored
  recorded := h.recorded
  answers := h.answers

/- A selection makes the loads before it stale. -/
theorem select
    {activeNoteId : Option Uuid}
    (h : ControllerInv c)
    (hSaved : c.OpenSaved) :
    ControllerInv
      { c with
        state := { c.state with
          activeNoteId := activeNoteId
          requestGeneration :=
            c.state.requestGeneration + 1 } } where
  kept := ⟨h.kept.saved, h.kept.fresh⟩
  active := h.active
  others := h.others
  waiting := h.waiting
  issued := by
    intro x hMem
    have hIssued := h.issued x hMem
    cases hRequest : x.request with
    | loadNoteDocument noteId generation =>
        rw [hRequest] at hIssued
        exact Nat.le_succ_of_le hIssued
    | handleRemoteChanges noteId session =>
        rw [hRequest] at hIssued
        exact hIssued
    | deleteEntry id => trivial
  closing := fun _ _ _ => hSaved
  shows := by
    intro x hMem hShows
    have hIssued := h.issued x hMem
    have hBefore := h.shows x hMem
    cases hRequest : x.request with
    | loadNoteDocument noteId generation =>
        rw [hRequest] at hIssued hShows
        have hGeneration :
            c.state.requestGeneration + 1 = generation :=
          of_decide_eq_true hShows
        have hLe : generation ≤ c.state.requestGeneration :=
          hIssued
        omega
    | handleRemoteChanges noteId session =>
        rw [hRequest] at hShows hBefore
        exact hBefore hShows
    | deleteEntry id =>
        rw [hRequest] at hShows
        cases hShows
  stored := h.stored
  recorded := h.recorded
  answers := h.answers

theorem proceed
    (h : ControllerInv c)
    (hSaved : c.OpenSaved) :
    ControllerInv (c.proceed leaving) := by
  cases leaving with
  | selectNote noteId =>
      exact (h.select hSaved).invoke (Nat.le_refl _)
        (fun _ => hSaved)
  | selectFolder => exact h.select hSaved
  | deleteEntry id => exact h.invoke trivial (fun _ => hSaved)
  | stay => exact h

theorem proceedEach
    {ready : List (Serial × Leaving)}
    (h : ControllerInv c)
    (hSaved : c.OpenSaved) :
    ControllerInv
      (ready.foldl (fun c x => c.proceed x.2) c) := by
  induction ready generalizing c with
  | nil => exact h
  | cons x rest ih =>
      exact ih (h.proceed hSaved) (openSaved_proceed hSaved)

/- Nothing closes a session that has something unsaved. -/
theorem no_closing
    (h : ControllerInv c)
    (hActive : c.activeSession = some session)
    (hUnsaved :
      (c.sessions session).session.hasUnsaved = true) :
    ∀ x ∈ c.calls, c.closesSession x.request = false := by
  intro x hMem
  cases hCloses : c.closesSession x.request with
  | false => rfl
  | true =>
      have hSaved := h.closing x hMem hCloses session hActive
      rw [hUnsaved] at hSaved
      cases hSaved

theorem saveBeforeLeaving
    (h : ControllerInv c) :
    ControllerInv (c.saveBeforeLeaving requestId leaving) := by
  unfold NotesController.saveBeforeLeaving
  cases hActive : c.activeSession with
  | none =>
      apply h.proceed
      intro session hSession
      rw [hActive] at hSession
      cases hSession
  | some session =>
      have hRest := (h.active session hActive).1
      dsimp only
      split
      · rename_i hFlush
        have hUnsaved :
            (c.sessions session).session.hasUnsaved = true := by
          rcases Bool.or_eq_true_iff.mp hFlush with
            hSaving | hUnsaved
          · exact hRest.unsaved_of_drains
              (hRest.drains_ne_nil_iff.mpr hSaving)
          · exact hUnsaved
        have hWaits :
            ((c.sessions session).explicitFlush
              requestId).settle.session.saving.isSome = true :=
          hRest.explicitFlush_waits hUnsaved
        have hNext :
            Resting ((c.sessions session).explicitFlush
              requestId).settle :=
          hRest.explicitFlush.settle
        have hDrains := hNext.drains_ne_nil_iff.mpr hWaits
        rw [if_pos hWaits]
        have hSet := h.setSession hActive hNext
          (by
            rintro hSaved ⟨x, hMem, hCloses⟩
            rw [h.no_closing hActive hUnsaved x hMem]
              at hCloses
            cases hCloses)
          (fun _ => hDrains)
        exact
          { hSet with
            kept := ⟨hSet.kept.saved, hSet.kept.fresh⟩
            waiting := by
              intro x hMem
              rcases List.mem_append.mp hMem with hOld | hNew
              · exact hSet.waiting x hOld
              · cases List.mem_singleton.mp hNew
                refine ⟨hActive, ?_⟩
                dsimp only
                rw [sessions_setSession]
                exact hDrains }
      · rename_i hFlush
        apply h.proceed
        intro other hOther
        cases hActive.symm.trans hOther
        simp only [Bool.or_eq_true, not_or, Bool.not_eq_true]
          at hFlush
        exact hFlush.2

theorem turn_cases
    {event : SessionEvent}
    (h : c.turn session event = some c') :
    ∃ w, (c.sessions session).step event = some w ∧
      c' = c.setSession session w.settle := by
  unfold NotesController.turn at h
  rcases Option.map_eq_some_iff.mp h with ⟨w, hStep, rfl⟩
  exact ⟨w, hStep, rfl⟩

theorem timer
    {id : TimerId}
    (h : ControllerInv c)
    (hTurn : c.turn session (.timer id requestId) = some c') :
    ControllerInv c' := by
  rcases turn_cases hTurn with ⟨w, hStep, rfl⟩
  by_cases hActive : c.activeSession = some session
  · have hRest := (h.active session hActive).1
    apply h.setSession hActive
    · exact (hRest.timer hStep).settle
    · intro hSaved _
      rw [SessionWorld.hasUnsaved_settle]
      exact SessionWorld.timer_saved hStep
        (hSaved session hActive)
    · intro hWaiting
      rcases List.exists_mem_of_ne_nil _ hWaiting with
        ⟨x, hMem⟩
      have hThere := h.waiting x hMem
      cases hActive.symm.trans hThere.1
      exact hRest.timer_held hThere.2 hStep
  · have hStill := h.others session hActive
    apply h.setStill hActive
    unfold SessionWorld.step at hStep
    dsimp only at hStep
    split at hStep
    · rename_i hArmed
      have hGone :
          (c.sessions session).session.destroyed = true := by
        rcases hStill.timers with hGone | hNone
        · exact hGone
        · rw [hNone] at hArmed
          cases hArmed
      cases hStep
      unfold SessionWorld.autoSave
      rw [if_pos (by simp [hGone])]
      have hFired : Still
          { c.sessions session with
            armed := (c.sessions session).armed.filter
              (· ≠ id) } :=
        ⟨hStill.drains, .inl hGone⟩
      rw [SessionWorld.settle_of_nil hFired.drains]
      exact hFired
    · cases hStep

theorem waiting_drains
    (h : ControllerInv c)
    (hActive : c.activeSession = some session)
    (hWaiting : c.waiting ≠ []) :
    (c.sessions session).drains ≠ [] := by
  rcases List.exists_mem_of_ne_nil _ hWaiting with ⟨x, hMem⟩
  have hThere := h.waiting x hMem
  cases hActive.symm.trans hThere.1
  exact hThere.2

/- A callback that changes nothing but timers. -/
theorem onSession
    {event : SessionEvent}
    (h : ControllerInv c)
    (hTimers :
      ∀ w w' : SessionWorld, w.step event = some w' →
        w'.inputPart = w.inputPart)
    (hTurn : c.onSession event = some c') :
    ControllerInv c' := by
  unfold NotesController.onSession at hTurn
  cases hActive : c.activeSession with
  | none =>
      rw [hActive] at hTurn
      cases hTurn
      exact h
  | some session =>
      rw [hActive] at hTurn
      rcases turn_cases hTurn with ⟨w, hStep, rfl⟩
      have hSame := hTimers _ _ hStep
      have hRest :=
        (h.active session hActive).1.of_inputPart hSame
      rw [hRest.settle_eq]
      apply h.setSession hActive hRest
      · intro hSaved _
        rw [hasUnsaved_of_inputPart hSame]
        exact hSaved session hActive
      · intro hWaiting
        have hDrains : w.drains = (c.sessions session).drains := by
          change w.inputPart.drains =
            (c.sessions session).inputPart.drains
          rw [hSame]
        rw [hDrains]
        exact h.waiting_drains hActive hWaiting

/- An input is safe when no answer will close the session. -/
theorem onEditorInput
    {body : String}
    (h : ControllerInv c)
    (hPermits : c.permits (.input body) = true)
    (hInput : c.onEditorInput body = some c') :
    ControllerInv c' := by
  unfold NotesController.onEditorInput at hInput
  dsimp only at hInput
  generalize hTyped : c.state.activeDocument.map (fun doc =>
    { doc with body := body }) = document at hInput
  have hSame :
      (c.setDocument document).activeSession =
        c.activeSession :=
    rfl
  rw [hSame] at hInput
  cases hActive : c.activeSession with
  | none =>
      rw [hActive] at hInput
      cases hInput
      exact h.setDocument _
  | some session =>
      rw [hActive] at hInput
      rcases turn_cases hInput with ⟨w, hStep, rfl⟩
      cases hStep
      have hRest :
          Resting ((c.setDocument document).sessions session) :=
        (h.active session hActive).1
      rw [hRest.onInput.settle_eq]
      refine (h.setDocument _).setSession hActive
        hRest.onInput ?_ ?_
      · rintro _ ⟨x, hMem, hCloses⟩
        unfold NotesController.permits at hPermits
        dsimp only at hPermits
        rw [hActive] at hPermits
        have hOpen := List.all_eq_true.mp hPermits x hMem
        have hStays : c.closesSession x.request = true :=
          hCloses
        rw [hStays] at hOpen
        cases hOpen
      · intro hWaiting
        rw [SessionWorld.drains_onInput]
        exact h.waiting_drains hActive hWaiting

------------------------------------------------------------
-- Saves
------------------------------------------------------------

/- Only a new note of the history has to be judged. -/
theorem kept_note
    {entry : ControllerNote}
    (h : EditsKept c)
    (hLeft :
      ∀ w, entry = .left w →
        ackedInputs w.history = typedInputs w.history)
    (hShown :
      ∀ doc, entry = .shown doc →
        NotOlder c.history doc.noteId doc.token) :
    EditsKept (c.note entry) where
  saved := by
    intro w hMem
    rcases List.mem_cons.mp hMem with hNew | hOld
    · exact hLeft w hNew.symm
    · exact h.saved w hOld
  fresh := by
    intro newer doc older hHistory
    cases newer with
    | nil =>
        cases hHistory
        exact hShown doc rfl
    | cons first newer =>
        injection hHistory with _ hOlder
        exact h.fresh newer doc older hOlder

/- A save is acknowledged before no older read is used. -/
theorem acked
    {request : SaveRequest} {token : SaveToken}
    (h : ControllerInv c)
    (hStored :
      token.generation ≤
        (c.backend.notes request.noteId).token.generation)
    (hOlder :
      ∀ x ∈ c.calls, c.showsDocument x.request = true →
        NotesController.isOlder request.noteId token x.answer =
          false) :
    ControllerInv (c.note (.acked request token)) := by
  have hNotOlder (noteId : Uuid) (now : SaveToken)
      (hBefore : NotOlder c.history noteId now)
      (hNow :
        noteId = request.noteId →
          token.generation ≤ now.generation) :
      NotOlder (c.note (.acked request token)).history noteId
        now := by
    intro last hLast
    unfold NotesController.note lastAcked at hLast
    split at hLast
    · rename_i hSame
      cases hLast
      exact hNow hSame.symm
    · exact hBefore last hLast
  constructor
  · exact kept_note h.kept (fun _ hEntry => nomatch hEntry)
      (fun _ hEntry => nomatch hEntry)
  · exact h.active
  · exact h.others
  · exact h.waiting
  · exact h.issued
  · exact h.closing
  · intro x hMem hShows doc hAnswer
    apply hNotOlder _ _ (h.shows x hMem hShows doc hAnswer)
    intro hSame
    have hThere := hOlder x hMem hShows
    rw [hAnswer] at hThere
    simpa [NotesController.isOlder, hSame] using hThere
  · intro noteId
    apply hNotOlder _ _ (h.stored noteId)
    rintro rfl
    exact hStored
  · exact h.recorded
  · exact h.answers

/- All who wait do so for the open session. -/
theorem waiting_others
    (h : ControllerInv c)
    (hActive : c.activeSession = some session) :
    (c.waiting.filter fun x => x.1 ≠ session) = [] := by
  apply List.filter_eq_nil_iff.mpr
  intro x hMem
  cases hActive.symm.trans (h.waiting x hMem).1
  simp

variable {drain : DrainId}

/- A session with a running save is the open one. -/
theorem active_of_drain
    {state : DrainState}
    (h : ControllerInv c)
    (hDrain :
      (c.sessions session).drains.lookup drain = some state) :
    c.activeSession = some session := by
  by_cases hActive : c.activeSession = some session
  · exact hActive
  · rw [(h.others session hActive).drains] at hDrain
    cases hDrain

/- The drain of the open session has been answered. -/
theorem endDrain
    (h : ControllerInv c)
    (hActive : c.activeSession = some session)
    (hUnsaved :
      (c.sessions session).session.hasUnsaved = true)
    (hRest : Resting w)
    (hWaits : c.waiting ≠ [] → w.drains ≠ []) :
    ControllerInv (c.setSession session w) := by
  apply h.setSession hActive hRest _ hWaits
  rintro _ ⟨x, hMem, hCloses⟩
  rw [h.no_closing hActive hUnsaved x hMem] at hCloses
  cases hCloses

/- Those who have waited are not among the waiting. -/
theorem unwait
    (h : ControllerInv c)
    (hWaiting : ∀ x ∈ waiting, x ∈ c.waiting) :
    ControllerInv { c with waiting := waiting } :=
  h.drop hWaiting (fun _ hMem => hMem) (fun _ hMem => hMem)

/- All the drain had is saved, and who has waited goes on. -/
theorem proceedAll
    (h : ControllerInv c)
    (hActive : c.activeSession = some session)
    (hUnsaved :
      (c.sessions session).session.hasUnsaved = true)
    (hRest : Resting w)
    (hSaved : w.session.hasUnsaved = false) :
    ControllerInv
      ((c.setSession session w).proceedAll session) := by
  have hNobody :
      ControllerInv
        { c.setSession session w with waiting := [] } := by
    have hEmpty : ControllerInv { c with waiting := [] } :=
      h.unwait fun _ hMem => nomatch hMem
    exact hEmpty.endDrain hActive hUnsaved hRest
      (fun hWaiting => absurd rfl hWaiting)
  have hOthers :
      ((c.setSession session w).waiting.filter fun x =>
        x.1 ≠ session) = [] :=
    h.waiting_others hActive
  unfold NotesController.proceedAll
  dsimp only
  rw [hOthers]
  apply hNobody.proceedEach
  intro other hOther
  cases hActive.symm.trans hOther
  dsimp only
  rw [sessions_setSession]
  exact hSaved

theorem giveUp
    (h : ControllerInv c)
    (hActive : c.activeSession = some session)
    (hUnsaved :
      (c.sessions session).session.hasUnsaved = true)
    (hRest : Resting w) :
    ControllerInv
      ((c.setSession session w).giveUp session) := by
  have hOthers :
      ((c.setSession session w).waiting.filter fun x =>
        x.1 ≠ session) = [] :=
    h.waiting_others hActive
  unfold NotesController.giveUp
  rw [hOthers]
  have hEmpty : ControllerInv { c with waiting := [] } :=
    h.unwait fun _ hMem => nomatch hMem
  exact hEmpty.endDrain hActive hUnsaved hRest
    (fun hWaiting => absurd rfl hWaiting)

theorem ack
    {token : SaveToken}
    (h : ControllerInv c)
    (hTurn :
      c.turn session (.ack drain token requestId) = some c') :
    ControllerInv
      (if (c'.sessions session).session.saving.isSome then
        c'
      else
        c'.proceedAll session) := by
  rcases turn_cases hTurn with ⟨w, hStep, rfl⟩
  rw [sessions_setSession]
  unfold SessionWorld.step at hStep
  dsimp only at hStep
  split at hStep
  · rename_i snapshot hDrain
    cases hStep
    have hActive := h.active_of_drain hDrain
    have hRest := (h.active _ hActive).1
    have hUnsaved := hRest.unsaved_of_drains (by
      rw [(hRest.of_lookup hDrain).1]
      exact List.cons_ne_nil _ _)
    rcases hRest.acknowledge_loop hDrain token requestId with
      ⟨loop, hLoop, hSame⟩
    rw [hSame]
    have hNext :
        Resting (loop.drainLoop requestId drain).settle :=
      hLoop.drainLoop.settle
    cases hSaving :
        (loop.drainLoop requestId
          drain).settle.session.saving with
    | some d =>
        apply h.endDrain hActive hUnsaved hNext
        intro _
        apply hNext.drains_ne_nil_iff.mpr
        rw [hSaving]
        rfl
    | none =>
        apply h.proceedAll hActive hUnsaved hNext
        rw [SessionWorld.hasUnsaved_settle]
        exact hLoop.over hSaving
  · cases hStep

theorem fail
    {e : SaveError}
    (h : ControllerInv c)
    (hTurn : c.turn session (.fail drain e) = some c') :
    ControllerInv (c'.giveUp session) := by
  rcases turn_cases hTurn with ⟨w, hStep, rfl⟩
  unfold SessionWorld.step at hStep
  dsimp only at hStep
  split at hStep
  · rename_i snapshot hDrain
    cases hStep
    have hActive := h.active_of_drain hDrain
    have hRest := (h.active _ hActive).1
    have hUnsaved := hRest.unsaved_of_drains (by
      rw [(hRest.of_lookup hDrain).1]
      exact List.cons_ne_nil _ _)
    exact h.giveUp hActive hUnsaved
      (hRest.failSave hDrain).settle
  · cases hStep

theorem finishSave
    {answer : SaveAnswer}
    (h : ControllerInv c)
    (hStored :
      ∀ token, answer.result = .ok token →
        token.generation ≤
          (c.backend.notes
            answer.request.noteId).token.generation)
    (hOlder :
      ∀ token, answer.result = .ok token →
        ∀ x ∈ c.calls, c.showsDocument x.request = true →
          NotesController.isOlder answer.request.noteId token
            x.answer = false)
    (hFinish : c.finishSave answer requestId = some c') :
    ControllerInv c' := by
  unfold NotesController.finishSave at hFinish
  cases hResult : answer.result with
  | ok token =>
      rw [hResult] at hFinish
      rcases Option.map_eq_some_iff.mp hFinish with
        ⟨turned, hTurn, rfl⟩
      have hConfirmed :
          ControllerInv
            (c.confirmSave answer.request token) :=
        (h.setDocument _).acked (hStored token hResult)
          (hOlder token hResult)
      exact hConfirmed.ack hTurn
  | error e =>
      rw [hResult] at hFinish
      rcases Option.map_eq_some_iff.mp hFinish with
        ⟨turned, hTurn, rfl⟩
      exact h.fail hTurn

end ControllerInv

end S4Drive

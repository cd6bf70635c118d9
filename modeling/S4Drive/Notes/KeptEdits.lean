import S4Drive.Notes.ControllerInvariant

/-
  No edit is lost and no note goes back: a session is left
  only when all its inputs are saved, and what is shown is
  not older than the last acknowledged save. The actions
  save first and do not look again, so this holds of runs in
  which nothing is typed while an answer that closes the
  session is under way, and no save is acknowledged before
  an older read of the note has been used.

  Main declarations:
    * `ControllerInv.finishCall`, `ControllerInv.serve`
    * `ControllerInv.step`, `ControllerInv.run`
    * `edits_are_kept`
-/

------------------------------------------------------------
-- Opened and Closed Sessions
------------------------------------------------------------

namespace S4Drive

namespace ControllerInv

variable {hashBytes : String → String}
variable {c c' : NotesController} {session : Serial}
variable {requestId : Uuid}

/- A session that was left had all its inputs saved. -/
theorem left
    (h : ControllerInv c)
    (hActive : c.activeSession = some session)
    (hSaved :
      (c.sessions session).session.hasUnsaved = false) :
    ControllerInv (c.note (.left (c.sessions session))) where
  kept := by
    apply kept_note h.kept
    · rintro w ⟨⟩
      exact (h.active session hActive).1.all_acked hSaved
    · exact fun _ hEntry => nomatch hEntry
  active := h.active
  others := h.others
  waiting := h.waiting
  issued := h.issued
  closing := h.closing
  shows := h.shows
  stored := h.stored
  recorded := h.recorded
  answers := h.answers

variable {doc : NoteDocument}

theorem shown
    (h : ControllerInv c)
    (hDoc : NotOlder c.history doc.noteId doc.token) :
    ControllerInv (c.note (.shown doc)) where
  kept := by
    apply kept_note h.kept
    · exact fun _ hEntry => nomatch hEntry
    · rintro d ⟨⟩
      exact hDoc
  active := h.active
  others := h.others
  waiting := h.waiting
  issued := h.issued
  closing := h.closing
  shows := h.shows
  stored := h.stored
  recorded := h.recorded
  answers := h.answers

theorem activeSession_destroySession :
    c.destroySession.activeSession = none := by
  unfold NotesController.destroySession
  split
  · rfl
  · assumption

variable {noteId : Uuid}

/- What was left does not count as a save. -/
theorem notOlder_destroySession
    {token : SaveToken}
    (h : NotOlder c.history noteId token) :
    NotOlder c.destroySession.history noteId token := by
  unfold NotesController.destroySession
  split
  · exact h
  · exact h

theorem still_destroy
    {w : SessionWorld}
    (hDrains : w.drains = []) : Still w.destroy := by
  have hPart (w : SessionWorld) :=
    SessionWorld.inputPart_cancelTimers (w := w)
  let gone : SessionWorld :=
    { w with session := { w.session with destroyed := true } }
  constructor
  · change gone.cancelTimers.inputPart.drains = []
    rw [hPart]
    exact hDrains
  · left
    change gone.cancelTimers.inputPart.session.destroyed = true
    rw [hPart]
    rfl

/- No more is shown when no other session is open. -/
theorem showsDocument_of
    {request : NotesRequest}
    (hGeneration :
      c'.state.requestGeneration = c.state.requestGeneration)
    (hActive :
      ∀ session, c'.activeSession = some session →
        c.activeSession = some session)
    (h : c'.showsDocument request = true) :
    c.showsDocument request = true := by
  cases request with
  | loadNoteDocument noteId generation =>
      unfold NotesController.showsDocument at h ⊢
      dsimp only at h ⊢
      rw [← hGeneration]
      exact h
  | handleRemoteChanges noteId session =>
      exact decide_eq_true
        (hActive session (of_decide_eq_true h))
  | deleteEntry id => cases h

theorem close
    {w : SessionWorld}
    (h : ControllerInv c)
    (hActive : c.activeSession = some session)
    (hNobody : c.waiting = [])
    (hStill : Still w) :
    ControllerInv
      { c.setSession session w with activeSession := none }
    where
  kept := ⟨h.kept.saved, h.kept.fresh⟩
  active := fun _ hOther => nomatch hOther
  others := by
    intro other _
    dsimp only
    by_cases hHere : other = session
    · subst hHere
      rw [sessions_setSession]
      exact hStill
    · rw [sessions_setSession_of_ne w hHere]
      apply h.others
      intro hOther
      cases hActive.symm.trans hOther
      exact hHere rfl
  waiting := by
    intro x hMem
    have hMem : x ∈ c.waiting := hMem
    rw [hNobody] at hMem
    cases hMem
  issued := h.issued
  closing := fun _ _ _ _ hOther => nomatch hOther
  shows := by
    intro x hMem hShows
    refine h.shows x hMem (showsDocument_of ?_ ?_ hShows)
    · rfl
    · exact fun _ hOther => nomatch hOther
  stored := h.stored
  recorded := h.recorded
  answers := h.answers

theorem destroySession
    (h : ControllerInv c)
    (hSaved : c.OpenSaved) :
    ControllerInv c.destroySession := by
  have hNobody := h.waiting_nil hSaved
  unfold NotesController.destroySession
  cases hActive : c.activeSession with
  | none => exact h
  | some session =>
      have hHere := hSaved session hActive
      apply (h.left hActive hHere).close hActive hNobody
      exact still_destroy
        ((h.active session hActive).1.drains_nil hHere)

theorem openSession
    (h : ControllerInv c)
    (hNone : c.activeSession = none)
    (hDoc : NotOlder c.history doc.noteId doc.token) :
    ControllerInv (c.openSession doc) := by
  have hShown := h.shown hDoc
  have hNew :
      (c.openSession doc).sessions c.nextSession =
        .new ⟨doc.noteId, c.workspaceId, doc.body,
          doc.token⟩ :=
    sessions_setSession _
  constructor
  · exact ⟨hShown.kept.saved, hShown.kept.fresh⟩
  · intro session hActive
    have hSession : c.nextSession = session :=
      Option.some.inj hActive
    subst hSession
    rw [hNew]
    exact ⟨resting_new _, Nat.lt_succ_self _⟩
  · intro session hOther
    have hNe : session ≠ c.nextSession := by
      rintro rfl
      exact hOther rfl
    have hSame :
        (c.openSession doc).sessions session =
          c.sessions session :=
      sessions_setSession_of_ne _ hNe
    rw [hSame]
    apply h.others
    rw [hNone]
    exact fun hThere => nomatch hThere
  · intro x hMem
    have hThere := (h.waiting x hMem).1
    rw [hNone] at hThere
    cases hThere
  · intro x hMem
    have hIssued := h.issued x hMem
    cases hRequest : x.request with
    | loadNoteDocument noteId generation =>
        rw [hRequest] at hIssued
        exact hIssued
    | handleRemoteChanges noteId session =>
        rw [hRequest] at hIssued
        exact Nat.lt_succ_of_lt hIssued
    | deleteEntry id => trivial
  · intro x hMem hCloses session hActive
    have hSession : c.nextSession = session :=
      Option.some.inj hActive
    subst hSession
    rw [hNew]
    rfl
  · intro x hMem hShows
    have hIssued := h.issued x hMem
    have hBefore := hShown.shows x hMem
    cases hRequest : x.request with
    | loadNoteDocument noteId generation =>
        rw [hRequest] at hShows hBefore
        exact hBefore hShows
    | handleRemoteChanges noteId session =>
        rw [hRequest] at hIssued hShows
        have hSession : some c.nextSession = some session :=
          of_decide_eq_true hShows
        cases hSession
        exact absurd hIssued (Nat.lt_irrefl _)
    | deleteEntry id =>
        rw [hRequest] at hShows
        cases hShows
  · exact hShown.stored
  · exact hShown.recorded
  · exact hShown.answers

/- The selected note may change while all is saved. -/
theorem setActiveNote
    {activeNoteId : Option Uuid}
    (h : ControllerInv c)
    (hSaved : c.OpenSaved) :
    ControllerInv
      { c with
        state := { c.state with
          activeNoteId := activeNoteId } } where
  kept := ⟨h.kept.saved, h.kept.fresh⟩
  active := h.active
  others := h.others
  waiting := h.waiting
  issued := h.issued
  closing := fun _ _ _ => hSaved
  shows := h.shows
  stored := h.stored
  recorded := h.recorded
  answers := h.answers

------------------------------------------------------------
-- Answers
------------------------------------------------------------

/- What is known of a call when its answer is received. -/
structure CallReady
    (c : NotesController)
    (request : NotesRequest)
    (answer : NotesAnswer) : Prop where
  closing : c.closesSession request = true → c.OpenSaved
  shows :
    c.showsDocument request = true →
      ∀ doc, answer = .document doc →
        NotOlder c.history doc.noteId doc.token

variable {answer : NotesAnswer}

theorem finishLoad
    {generation : Nat}
    (h : ControllerInv c)
    (hReady :
      CallReady c (.loadNoteDocument noteId generation)
        answer) :
    ControllerInv
      (c.finishLoad noteId generation answer) := by
  by_cases hStale :
      c.state.requestGeneration ≠ generation ∨
        c.state.activeNoteId ≠ some noteId
  · unfold NotesController.finishLoad
    cases answer with
    | failed => exact h
    | document doc =>
        dsimp only
        rw [if_pos hStale]
        exact h
    | deleted =>
        dsimp only
        rw [if_pos hStale]
        exact h
    | malformed =>
        dsimp only
        rw [if_pos hStale]
        exact h
  · have hFresh :
        c.state.requestGeneration = generation ∧
          c.state.activeNoteId = some noteId := by
      simpa [not_or] using hStale
    have hSaved : c.OpenSaved := by
      apply hReady.closing
      simp [NotesController.closesSession, hFresh]
    have hKeep : ControllerInv c.keepOpenNote :=
      h.setActiveNote hSaved
    unfold NotesController.finishLoad
    cases answer with
    | failed => exact h
    | document doc =>
        dsimp only
        rw [if_neg hStale]
        split
        · apply (h.destroySession hSaved).openSession
          · exact activeSession_destroySession
          · apply notOlder_destroySession
            apply hReady.shows _ doc rfl
            simp [NotesController.showsDocument, hFresh.1]
        · exact hKeep
    | deleted =>
        dsimp only
        rw [if_neg hStale]
        exact hKeep
    | malformed =>
        dsimp only
        rw [if_neg hStale]
        exact hKeep

/- The status of a session says more than that it is clean. -/
theorem stale
    (h : ControllerInv c) :
    ControllerInv
      (c.setSession session
        ((c.sessions session).setStatus .stale)) := by
  by_cases hActive : c.activeSession = some session
  · apply h.setSession hActive
    · exact (h.active session hActive).1.stale
    · exact fun hSaved _ => hSaved session hActive
    · exact h.waiting_drains hActive
  · have hStill := h.others session hActive
    exact h.setStill hActive ⟨hStill.drains, hStill.timers⟩

/- A clean session has nothing that could be lost. -/
theorem replaceBuffer
    (h : ControllerInv c)
    (hActive : c.activeSession = some session)
    (hClean : (c.sessions session).session.status = .clean)
    (hDoc : NotOlder c.history doc.noteId doc.token) :
    ControllerInv
      (((c.note (.left (c.sessions session))).note
          (.shown doc)).setSession session
        ((c.sessions session).replaceBuffer doc)) := by
  have hRest := (h.active session hActive).1
  have hSaved := hRest.clean hClean
  refine ((h.left hActive hSaved).shown hDoc).setSession
    hActive ?_ ?_ ?_
  · exact hRest.of_inputPart rfl
  · exact fun _ _ => hSaved
  · exact h.waiting_drains hActive

theorem finishRemoteChanges
    (h : ControllerInv c)
    (hReady :
      CallReady c (.handleRemoteChanges noteId session)
        answer) :
    ControllerInv (c.finishRemoteChanges session answer) := by
  unfold NotesController.finishRemoteChanges
  cases answer with
  | failed =>
      dsimp only
      split
      · exact h.stale
      · exact h
  | document doc =>
      dsimp only
      split
      · exact h
      · rename_i hUsed
        have hActive : c.activeSession = some session := by
          by_cases hActive : c.activeSession = some session
          · exact hActive
          · exact absurd (.inl hActive) hUsed
        split
        · rename_i hClean
          refine (h.replaceBuffer hActive hClean
            ?_).setDocument _
          apply hReady.shows _ doc rfl
          exact decide_eq_true hActive
        · have hNamed := h.setDocument
            (c.state.activeDocument.map fun old =>
              { old with noteId := doc.noteId })
          split
          · exact hNamed.stale
          · exact hNamed
  | deleted => exact h
  | malformed => exact h

theorem finishDelete
    {id : Uuid}
    (h : ControllerInv c)
    (hReady : CallReady c (.deleteEntry id) answer) :
    ControllerInv (c.finishDelete id answer) := by
  unfold NotesController.finishDelete
  cases answer with
  | deleted =>
      dsimp only
      split
      · rename_i hOpen
        have hSaved : c.OpenSaved := by
          apply hReady.closing
          exact decide_eq_true hOpen
        refine ((h.destroySession hSaved).setDocument
          none).setActiveNote ?_
        intro session hActive
        cases activeSession_destroySession.symm.trans hActive
      · exact h
  | document doc => exact h
  | malformed => exact h
  | failed => exact h

theorem finishCall
    {request : NotesRequest}
    (h : ControllerInv c)
    (hReady : CallReady c request answer) :
    ControllerInv (c.finishCall request answer) := by
  cases request with
  | loadNoteDocument noteId generation =>
      exact h.finishLoad hReady
  | handleRemoteChanges noteId session =>
      exact h.finishRemoteChanges hReady
  | deleteEntry id => exact h.finishDelete hReady

theorem deliver
    {call : CallId}
    (h : ControllerInv c)
    (hDeliver : c.deliver call = some c') :
    ControllerInv c' := by
  unfold NotesController.deliver at hDeliver
  split at hDeliver
  · rename_i id request answer hFound
    cases hDeliver
    have hMem := List.mem_of_find?_eq_some hFound
    have hLess : ControllerInv
        { c with
          calls := c.calls.filter fun x => x.id ≠ call } :=
      h.drop (fun _ hThere => hThere)
        (fun x hThere => (List.mem_filter.mp hThere).1)
        (fun _ hThere => hThere)
    apply hLess.finishCall
    constructor
    · exact h.closing _ hMem
    · intro hShows doc hDoc
      apply h.shows _ hMem hShows doc
      rw [hDoc]
  · cases hDeliver

theorem NotOlder_of_le
    {history : List ControllerNote}
    {token later : SaveToken}
    (h : NotOlder history noteId token)
    (hLe : token.generation ≤ later.generation) :
    NotOlder history noteId later :=
  fun acked hAcked => Nat.le_trans (h acked hAcked) hLe

theorem setBackend
    {b : NotesBackend}
    (h : ControllerInv c)
    (hServed : c.backend.Served b) :
    ControllerInv { c with backend := b } where
  kept := ⟨h.kept.saved, h.kept.fresh⟩
  active := h.active
  others := h.others
  waiting := h.waiting
  issued := h.issued
  closing := h.closing
  shows := h.shows
  stored := fun noteId =>
    NotOlder_of_le (h.stored noteId) (hServed.onward noteId)
  recorded := hServed.recorded h.recorded
  answers := fun x hMem token hOk =>
    Nat.le_trans (h.answers x hMem token hOk)
      (hServed.onward x.request.noteId)

/- What a call is answered with is what is stored now. -/
theorem answerCall
    {call : CallId}
    {backend : NotesBackend}
    (h : ControllerInv c)
    (hServed : c.backend.Served backend)
    (hToken :
      ∀ doc, answer = .document doc →
        doc.token = (backend.notes doc.noteId).token) :
    ControllerInv (c.answerCall call answer backend) := by
  have hNext := h.setBackend hServed
  have hCalls (P : NotesRequest → Prop)
      (hAll : ∀ x ∈ c.calls, P x.request) :
      ∀ x ∈ (c.answerCall call answer backend).calls,
        P x.request := by
    intro y hMem
    rcases List.mem_map.mp hMem with ⟨x, hThere, rfl⟩
    split
    · exact hAll x hThere
    · exact hAll x hThere
  constructor
  · exact ⟨hNext.kept.saved, hNext.kept.fresh⟩
  · exact h.active
  · exact h.others
  · exact h.waiting
  · exact hCalls _ h.issued
  · exact hCalls
      (fun r => c.closesSession r = true → c.OpenSaved)
      h.closing
  · intro y hMem hShows doc hAnswer
    rcases List.mem_map.mp hMem with ⟨x, hThere, rfl⟩
    split at hAnswer
    · cases hAnswer
      rw [hToken doc rfl]
      exact hNext.stored doc.noteId
    · rename_i hOther
      rw [if_neg hOther] at hShows
      exact h.shows x hThere hShows doc hAnswer
  · exact hNext.stored
  · exact hNext.recorded
  · exact hNext.answers

theorem serve
    {call : CallId} {served : Served}
    (h : ControllerInv c)
    (hServe : c.serve hashBytes call served = some c') :
    ControllerInv c' := by
  unfold NotesController.serve at hServe
  split at hServe
  · rename_i id request hFound
    have hToken (doc : NoteDocument)
        (hDoc : (NotesController.answerTo hashBytes c.backend
          request served).1 = .document doc) :=
      NotesBackend.answerTo_token hDoc
    have hServed :=
      NotesBackend.answerTo_served hashBytes c.backend request
        served
    generalize NotesController.answerTo hashBytes c.backend
      request served = answered at hToken hServed hServe
    rcases answered with ⟨answer, backend⟩
    cases hServe
    exact h.answerCall hServed hToken
  · cases hServe

theorem serveSave
    {drain : DrainId} {served : Served}
    (h : ControllerInv c)
    (hServe :
      c.serveSave hashBytes session drain served = some c') :
    ControllerInv c' := by
  unfold NotesController.serveSave at hServe
  split at hServe
  · rename_i request hDrain hFree
    have hServed :
        NotesBackend.SaveServed c.backend
          (NotesController.answerToSave hashBytes c.backend
            request served).2 request
          (NotesController.answerToSave hashBytes c.backend
            request served).1 :=
      NotesBackend.answerToSave_served
    generalize NotesController.answerToSave hashBytes c.backend
      request served = answered at hServed hServe
    rcases answered with ⟨result, backend⟩
    cases hServe
    have hNext := h.setBackend hServed.toServed
    exact
      { hNext with
        kept := ⟨hNext.kept.saved, hNext.kept.fresh⟩
        answers := by
          intro x hMem token hOk
          rcases List.mem_cons.mp hMem with rfl | hOld
          · exact hServed.token h.recorded token hOk
          · exact hNext.answers x hOld token hOk }
  · cases hServe

theorem deliverSave
    {drain : DrainId}
    (h : ControllerInv c)
    (hPermits :
      c.permits (.deliverSave session drain requestId) = true)
    (hDeliver :
      c.deliverSave session drain requestId = some c') :
    ControllerInv c' := by
  unfold NotesController.deliverSave at hDeliver
  unfold NotesController.permits at hPermits
  dsimp only at hPermits
  cases hFound : c.saveAnswer session drain with
  | none =>
      rw [hFound] at hDeliver
      cases hDeliver
  | some answer =>
      rw [hFound] at hDeliver hPermits
      have hMem : answer ∈ c.saveAnswers :=
        List.mem_of_find?_eq_some hFound
      have hLess : ControllerInv
          { c with
            saveAnswers := c.saveAnswers.filter fun x =>
              ¬ (x.session = session ∧ x.drain = drain) } :=
        h.drop (fun _ hThere => hThere)
          (fun _ hThere => hThere)
          (fun x hThere => (List.mem_filter.mp hThere).1)
      apply hLess.finishSave (h.answers answer hMem) _ hDeliver
      rcases answer with ⟨s, d, request, result⟩
      rintro token ⟨⟩ x hThere hShows
      have hOk := List.all_eq_true.mp hPermits x hThere
      have hShown : c.showsDocument x.request = true := hShows
      simpa [hShown] using hOk

------------------------------------------------------------
-- Runs
------------------------------------------------------------

theorem step
    {event : ControllerEvent}
    (h : ControllerInv c)
    (hPermits : c.permits event = true)
    (hStep : c.step hashBytes event = some c') :
    ControllerInv c' := by
  cases event with
  | input body => exact h.onEditorInput hPermits hStep
  | compositionStart =>
      apply h.onSession _ hStep
      rintro w w' ⟨⟩
      rfl
  | compositionEnd =>
      apply h.onSession _ hStep
      rintro w w' ⟨⟩
      exact SessionWorld.inputPart_onCompositionEnd
  | timer session id requestId => exact h.timer hStep
  | leave leaving requestId =>
      cases hStep
      exact h.saveBeforeLeaving
  | remoteChanges =>
      cases hStep
      unfold NotesController.handleRemoteChanges
      split
      · rename_i noteId session _ hActive
        exact h.invoke (h.active session hActive).2
          (fun hCloses => nomatch hCloses)
      · exact h
  | serve call served => exact h.serve hStep
  | deliver call => exact h.deliver hStep
  | serveSave session drain served => exact h.serveSave hStep
  | deliverSave session drain requestId =>
      exact h.deliverSave hPermits hStep
  | write noteId body =>
      cases hStep
      exact h.setBackend
        (NotesBackend.served_setNote (Nat.le_refl _))
  | remove noteId =>
      cases hStep
      exact h.setBackend
        (NotesBackend.served_setNote (Nat.le_refl _))

theorem run
    {events : List ControllerEvent}
    (h : ControllerInv c)
    (hCareful : c.careful hashBytes events = true)
    (hRun : c.run hashBytes events = some c') :
    ControllerInv c' := by
  induction events generalizing c with
  | nil =>
      cases hRun
      exact h
  | cons event rest ih =>
      unfold NotesController.run at hRun
      unfold NotesController.careful at hCareful
      rw [Bool.and_eq_true] at hCareful
      cases hStep : c.step hashBytes event with
      | none =>
          rw [hStep] at hRun
          cases hRun
      | some next =>
          rw [hStep] at hRun hCareful
          exact ih (h.step hCareful.1 hStep) hCareful.2 hRun

end ControllerInv

/- In careful runs no edit is lost and no note goes back. -/
theorem edits_are_kept
    {hashBytes : String → String} {workspaceId : Uuid}
    {notes : Uuid → StoredNote}
    {events : List ControllerEvent} {c : NotesController}
    (hCareful :
      (NotesController.start workspaceId notes).careful
        hashBytes events = true)
    (hRun :
      (NotesController.start workspaceId notes).run hashBytes
        events = some c) :
    EditsKept c :=
  (ControllerInv.start.run hCareful hRun).kept

/- What is typed is saved before the next note is opened. -/
def emptyNotes : Uuid → StoredNote :=
  fun _ => ⟨"", ⟨1, ""⟩, true⟩

def opened : List ControllerEvent :=
  [.leave (.selectNote 1) 10, .serve 0 .carriedOut, .deliver 0]

def savedAndLeft : List ControllerEvent :=
  opened ++
    [.input "x", .leave (.selectNote 2) 11,
      .serveSave 0 0 .carriedOut, .deliverSave 0 0 12,
      .remoteChanges, .serve 1 .carriedOut, .deliver 1]

theorem saved_and_left :
    ∃ c,
      (NotesController.start 5 emptyNotes).run id savedAndLeft =
          some c ∧
        c.activeSession = some 1 ∧ EditsKept c := by
  have trace :
      ((NotesController.start 5 emptyNotes).run id
        savedAndLeft).any
          (fun c => c.activeSession = some 1) = true := by
    decide +kernel
  rw [Option.any_eq_true] at trace
  rcases trace with ⟨c, hRun, hOpen⟩
  refine ⟨c, hRun, of_decide_eq_true hOpen, ?_⟩
  exact edits_are_kept (by decide +kernel) hRun

/- It is typed while the next note is being read. -/
def typedWhileLoading : List ControllerEvent :=
  opened ++
    [.leave (.selectNote 2) 11, .input "x",
      .serve 1 .carriedOut, .deliver 1]

/- The read of a change is answered before the save. -/
def savedWhileReading : List ControllerEvent :=
  opened ++
    [.remoteChanges, .serve 1 .carriedOut, .input "x",
      .leave .stay 11, .serveSave 0 0 .carriedOut,
      .deliverSave 0 0 12, .deliver 1]

def losesInput : ControllerNote → Bool
  | .left w =>
      ackedInputs w.history ≠ typedInputs w.history
  | _ => false

def goesBack : List ControllerNote → Bool
  | .shown doc :: older =>
      (lastAcked doc.noteId older).any fun acked =>
        doc.token.generation < acked.generation
  | _ => false

theorem losesInput_not_kept
    {c : NotesController} {entry : ControllerNote}
    (hMem : entry ∈ c.history)
    (hLoses : losesInput entry = true) :
    ¬ EditsKept c := by
  intro hKept
  cases entry with
  | left w =>
      exact (of_decide_eq_true hLoses) (hKept.saved w hMem)
  | acked request token => cases hLoses
  | shown doc => cases hLoses

theorem goesBack_not_kept
    {c : NotesController}
    (hBack : goesBack c.history = true) :
    ¬ EditsKept c := by
  intro hKept
  unfold goesBack at hBack
  split at hBack
  · rename_i doc older hHistory
    rw [Option.any_eq_true] at hBack
    rcases hBack with ⟨acked, hAcked, hLess⟩
    have hLe := hKept.fresh [] doc older hHistory acked hAcked
    have hLt := of_decide_eq_true hLess
    omega
  · cases hBack

/- In any run the one or the other may happen. -/
theorem edits_lost_or_undone :
    (∃ c,
      (NotesController.start 5 emptyNotes).run id
          typedWhileLoading = some c ∧
        (∃ entry ∈ c.history, losesInput entry = true) ∧
        ¬ EditsKept c) ∧
      ∃ c,
        (NotesController.start 5 emptyNotes).run id
            savedWhileReading = some c ∧
          goesBack c.history = true ∧ ¬ EditsKept c := by
  have lost :
      ((NotesController.start 5 emptyNotes).run id
        typedWhileLoading).any
          (fun c => c.history.any losesInput) = true := by
    decide +kernel
  have undone :
      ((NotesController.start 5 emptyNotes).run id
        savedWhileReading).any
          (fun c => goesBack c.history) = true := by
    decide +kernel
  rw [Option.any_eq_true] at lost undone
  rcases lost with ⟨c, hRun, hLoses⟩
  rcases undone with ⟨d, hThen, hBack⟩
  rcases List.any_eq_true.mp hLoses with ⟨entry, hMem, hEntry⟩
  refine ⟨⟨c, hRun, ⟨entry, hMem, hEntry⟩, ?_⟩,
    d, hThen, hBack, goesBack_not_kept hBack⟩
  exact losesInput_not_kept hMem hEntry

end S4Drive

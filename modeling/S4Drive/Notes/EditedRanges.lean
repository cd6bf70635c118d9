import S4Drive.Notes.SessionProtocol
import S4Drive.Notes.Textarea

/-
  What the editor sends to be saved, in runs of any events:
  the body that was read with the user's edits made in it,
  as long as the field is not read back while there is a CR
  outside of what the user replaces.

  Main declarations:
    * `OutsideKept`, `Edited`
    * `SavesEditsOnly`, `StepKeeps`, `KeepingRun`
    * `keepingRun_savesEditsOnly`
-/

------------------------------------------------------------
-- Edits of a Body
------------------------------------------------------------

namespace S4Drive.NoteEditing

open TextLines Markdown

/- What is not edited keeps its line ends. -/
def OutsideKept
    (edit : Edit Char)
    (body body' : Text) : Prop :=
  ∃ above middle below inserted,
    body = above ++ middle ++ below ∧
    textareaValue above =
      (textareaValue body).take edit.start ∧
    textareaValue middle =
      slice (textareaValue body) edit.start edit.stop ∧
    textareaValue below =
      (textareaValue body).drop edit.stop ∧
    body' = above ++ inserted ++ below ∧
    textareaValue body' =
      textareaValue (replaced (textareaValue body) edit)

/- A body with edits made in it, one after the other. -/
inductive Edited (read : Text) : List (Edit Char) → Text → Prop
  | read : Edited read [] read
  | edit
      {edits : List (Edit Char)} {body body' : Text}
      {edit : Edit Char}
      (before : Edited read edits body)
      (kept : OutsideKept edit body body') :
      Edited read (edits ++ [edit]) body'

/- A body to be saved: at least one edit was made in it. -/
def Justified
    (read : Text)
    (edits : List (Edit Char))
    (body : Text) : Prop :=
  ∃ made, made <+: edits ∧ made ≠ [] ∧ Edited read made body

def SavesEditsOnly (e : NoteEditor) : Prop :=
  ∀ newer request older,
    e.session.history = newer ++ .sent request :: older →
      e.before ≤ older.length →
        Justified e.read e.edits request.body.toList

/- Outside of the edit the body has no CR. -/
def PlainOutside (edit : Edit Char) (body : Text) : Prop :=
  ∃ middle,
    body =
      (textareaValue body).take edit.start ++ middle ++
        (textareaValue body).drop edit.stop ∧
    textareaValue middle =
      slice (textareaValue body) edit.start edit.stop

/- The change that an action makes in the field. -/
def toolbarEdit
    (e : NoteEditor)
    (start stop : Nat)
    (action : MarkdownAction) : Edit Char :=
  changeOf e.textarea
    (applyMarkdownAction id e.textarea start stop action).body

def StepKeeps (e : NoteEditor) : EditorEvent → Prop
  | .input edit =>
      PlainOutside edit e.session.session.body.toList
  | .switchMode .preview =>
      e.editorMode = .raw →
        '\r' ∉ e.session.session.body.toList
  | .toolbar start stop action =>
      PlainOutside (toolbarEdit e start stop action)
        e.session.session.body.toList
  | _ => True

/- What a run reaches in which every step keeps line ends. -/
inductive KeepingRun : NoteEditor → Prop
  | opened (note : OpenedNote) : KeepingRun (.opened note)
  | step
      {e e' : NoteEditor} {event : EditorEvent}
      (before : KeepingRun e)
      (keeps : StepKeeps e event)
      (next : e.step event = some e') : KeepingRun e'

------------------------------------------------------------
-- Values of the Field
------------------------------------------------------------

theorem not_mem_withLineFeeds (afterReturn : Bool) (s : Text) :
    '\r' ∉ withLineFeeds afterReturn s := by
  induction s generalizing afterReturn with
  | nil => exact List.not_mem_nil
  | cons c rest ih =>
      unfold withLineFeeds
      split
      · simp [ih]
      split
      · exact ih _
      · rename_i hOther _
        simp [ih, Ne.symm hOther]

theorem not_mem_textareaValue (body : Text) :
    '\r' ∉ textareaValue body :=
  not_mem_withLineFeeds false body

theorem textareaValue_append
    {above : Text}
    (hPlain : '\r' ∉ above)
    (rest : Text) :
    textareaValue (above ++ rest) =
      above ++ textareaValue rest := by
  induction above with
  | nil => rfl
  | cons c above ih =>
      rw [List.mem_cons, not_or] at hPlain
      have hOther : c ≠ '\r' := Ne.symm hPlain.1
      show withLineFeeds false (c :: (above ++ rest)) = _
      rw [withLineFeeds, if_neg hOther, if_neg (by simp)]
      exact congrArg (c :: ·) (ih hPlain.2)

theorem textareaValue_of_plain
    {body : Text}
    (hPlain : '\r' ∉ body) : textareaValue body = body := by
  have hValue := textareaValue_append hPlain []
  rw [List.append_nil] at hValue
  rw [hValue]
  exact List.append_nil body

theorem textareaValue_idem (body : Text) :
    textareaValue (textareaValue body) = textareaValue body :=
  textareaValue_of_plain (not_mem_textareaValue body)

/-
  A text without CRs stays at the end of a value. An LF at
  its start may belong to a CR before it.
-/
theorem withLineFeeds_below
    {below : Text}
    (hPlain : '\r' ∉ below)
    (s : Text) :
    (∃ inserted,
      withLineFeeds false (s ++ below) = inserted ++ below) ∧
    ∃ inserted,
      '\n' :: withLineFeeds true (s ++ below) =
        inserted ++ below := by
  induction s with
  | nil =>
      refine ⟨⟨[], textareaValue_of_plain hPlain⟩, ?_⟩
      cases below with
      | nil => exact ⟨['\n'], rfl⟩
      | cons c below =>
          have hOther : c ≠ '\r' := by
            rintro rfl
            exact hPlain List.mem_cons_self
          have hRest : withLineFeeds false below = below := by
            apply textareaValue_of_plain
            exact fun hMem => hPlain (List.mem_cons_of_mem c hMem)
          rw [List.nil_append, withLineFeeds, if_neg hOther,
            hRest]
          by_cases hFeed : c = '\n'
          · rw [if_pos ⟨hFeed, rfl⟩]
            exact ⟨[], by rw [hFeed]; rfl⟩
          · rw [if_neg (fun h => hFeed h.1)]
            exact ⟨['\n'], rfl⟩
  | cons c s ih =>
      rcases ih with ⟨⟨plain, hPlainEnd⟩, ended, hEnded⟩
      rw [List.cons_append, withLineFeeds, withLineFeeds]
      by_cases hReturn : c = '\r'
      · rw [if_pos hReturn, if_pos hReturn, hEnded]
        exact ⟨⟨ended, rfl⟩, '\n' :: ended, rfl⟩
      · rw [if_neg hReturn, if_neg hReturn, if_neg (by simp),
          hPlainEnd]
        refine ⟨⟨c :: plain, rfl⟩, ?_⟩
        by_cases hFeed : c = '\n'
        · rw [if_pos ⟨hFeed, rfl⟩]
          exact ⟨'\n' :: plain, rfl⟩
        · rw [if_neg (fun h => hFeed h.1)]
          exact ⟨'\n' :: c :: plain, rfl⟩

/- The value of an edited text, if nothing else has a CR. -/
theorem textareaValue_replaced
    {text : Text}
    (hPlain : '\r' ∉ text)
    (edit : Edit Char) :
    ∃ inserted,
      textareaValue (replaced text edit) =
        text.take edit.start ++ inserted ++
          text.drop edit.stop := by
  have hAbove : '\r' ∉ text.take edit.start :=
    fun hMem => hPlain (List.mem_of_mem_take hMem)
  have hBelow : '\r' ∉ text.drop edit.stop :=
    fun hMem => hPlain (List.mem_of_mem_drop hMem)
  rcases (withLineFeeds_below hBelow edit.replacement).1 with
    ⟨inserted, hInserted⟩
  refine ⟨inserted, ?_⟩
  unfold replaced
  rw [List.append_assoc, textareaValue_append hAbove,
    List.append_assoc]
  exact congrArg _ hInserted

variable {edit : Edit Char} {body body' inserted : Text}

theorem PlainOutside.kept
    (h : PlainOutside edit body)
    (hBody :
      body' =
        (textareaValue body).take edit.start ++ inserted ++
          (textareaValue body).drop edit.stop)
    (hValue :
      textareaValue body' =
        textareaValue (replaced (textareaValue body) edit)) :
    OutsideKept edit body body' := by
  rcases h with ⟨middle, hParts, hMiddle⟩
  have hPlain := not_mem_textareaValue body
  have hAbove :
      textareaValue ((textareaValue body).take edit.start) =
        (textareaValue body).take edit.start :=
    textareaValue_of_plain
      fun hMem => hPlain (List.mem_of_mem_take hMem)
  have hBelow :
      textareaValue ((textareaValue body).drop edit.stop) =
        (textareaValue body).drop edit.stop :=
    textareaValue_of_plain
      fun hMem => hPlain (List.mem_of_mem_drop hMem)
  exact ⟨_, middle, _, inserted, hParts, hAbove, hMiddle, hBelow,
    hBody, hValue⟩

/- The user's own edit, read back from the field. -/
theorem PlainOutside.input
    (h : PlainOutside edit body) :
    OutsideKept edit body
      (textareaValue (replaced (textareaValue body) edit)) := by
  rcases textareaValue_replaced (not_mem_textareaValue body)
    edit with ⟨inserted, hValue⟩
  exact h.kept hValue (textareaValue_idem _)

/- The change of an action, as it was computed. -/
theorem PlainOutside.toolbar
    {new : Text}
    (h : PlainOutside (changeOf (textareaValue body) new) body) :
    OutsideKept (changeOf (textareaValue body) new) body new := by
  have hNew := replaced_changeOf (textareaValue body) new
  apply h.kept
  · exact hNew.symm
  · rw [hNew]

/- What a session has to save, if anything, is right. -/
structure Holds
    (edited : Prop)
    (right : String → Prop)
    (s : NoteSession) : Prop where
  body : edited → right s.body
  pending :
    ∀ q, s.pendingSnapshot = some q → edited ∧ right q.body
  unsaved : s.savedSequence < s.editSequence → edited
  dirty : s.status = .dirty → edited

/- What a session has sent from some time on is right, too. -/
structure SavesRight
    (edited : Prop)
    (right : String → Prop)
    (before : Nat)
    (w : SessionWorld) : Prop where
  drains :
    (w.drains = [] ∧ w.session.saving = none) ∨
      ∃ drain state, w.drains = [(drain, state)] ∧
        w.session.saving = some drain
  sending :
    w.session.destroyed = false →
      ∀ q, InFlight w q →
        w.session.pendingSnapshot = some q ∧
          w.session.status ≠ .clean ∧
          w.session.saveBlocked = false
  shown :
    w.session.destroyed = false →
      w.session.saveBlocked = true → w.session.status ≠ .clean
  clean :
    w.session.destroyed = false →
      w.session.status = .clean → w.session.hasUnsaved = false
  holds :
    w.session.destroyed = false → Holds edited right w.session
  past : before ≤ w.history.length
  sent :
    ∀ newer request older,
      w.history = newer ++ .sent request :: older →
        before ≤ older.length → right request.body

variable {edited edited' : Prop} {right right' : String → Prop}
variable {before : Nat} {w w' : SessionWorld}

theorem SavesRight.of_savePart
    (h : SavesRight edited right before w)
    (hSame : w'.savePart = w.savePart) :
    SavesRight edited right before w' := by
  have hPart : SavesRight edited right before w.savePart :=
    ⟨h.drains, h.sending, h.shown, h.clean,
      fun hLive => by
        have hHolds := h.holds hLive
        exact ⟨hHolds.body, hHolds.pending, hHolds.unsaved,
          hHolds.dirty⟩,
      h.past, h.sent⟩
  rw [← hSame] at hPart
  exact ⟨hPart.drains, hPart.sending, hPart.shown, hPart.clean,
    fun hLive => by
      have hHolds := hPart.holds hLive
      exact ⟨hHolds.body, hHolds.pending, hHolds.unsaved,
        hHolds.dirty⟩,
    hPart.past, hPart.sent⟩

/- Only a new request has to be judged. -/
theorem sent_cons
    {entry : SessionNote} {history : List SessionNote}
    (hEntry :
      ∀ request, entry = .sent request → right request.body)
    (hOld :
      ∀ newer request older,
        history = newer ++ .sent request :: older →
          before ≤ older.length → right request.body) :
    ∀ newer request older,
      entry :: history = newer ++ .sent request :: older →
        before ≤ older.length → right request.body := by
  intro newer request older h hRecent
  cases newer with
  | nil =>
      cases h
      exact hEntry request rfl
  | cons first newer =>
      cases h
      exact hOld newer request older rfl hRecent

theorem savesRight_new
    (note : OpenedNote)
    (right : String → Prop)
    (hNone : ¬ edited) :
    SavesRight edited right 0 (.new note) where
  drains := .inl ⟨rfl, rfl⟩
  sending := by
    rintro _ q ⟨drain, hMem⟩
    cases hMem
  shown := fun _ h => nomatch h
  clean := fun _ _ => rfl
  holds := fun _ =>
    { body := fun hEdited => absurd hEdited hNone
      pending := fun _ h => nomatch h
      unsaved := fun h => absurd h (Nat.lt_irrefl 0)
      dirty := fun h => nomatch h }
  past := Nat.le_refl 0
  sent := by
    intro newer request older h
    cases newer <;> cases h

------------------------------------------------------------
-- Drains
------------------------------------------------------------

/- A drain that goes on, or that has just been started. -/
structure DrainsRight
    (edited : Prop)
    (right : String → Prop)
    (before : Nat)
    (w : SessionWorld)
    (drain : DrainId) : Prop where
  alone : w.drains.filter (fun x => x.1 ≠ drain) = []
  saving : w.session.saving = some drain
  live : w.session.destroyed = false
  unblocked : w.session.saveBlocked = false
  holds : Holds edited right w.session
  past : before ≤ w.history.length
  sent :
    ∀ newer request older,
      w.history = newer ++ .sent request :: older →
        before ≤ older.length → right request.body

theorem Holds.snapshot
    {s : NoteSession}
    (h : Holds edited right s)
    (hUnsaved : s.hasUnsaved = true)
    (requestId : Uuid) :
    edited ∧
      right (s.pendingSnapshot.getD
        (snapshotOf requestId s)).body := by
  cases hPending : s.pendingSnapshot with
  | some q => exact h.pending q hPending
  | none =>
      have hNew : s.savedSequence < s.editSequence := by
        simpa [NoteSession.hasUnsaved, hPending] using hUnsaved
      exact ⟨h.unsaved hNew, h.body (h.unsaved hNew)⟩

variable {drain : DrainId} {requestId : Uuid}

theorem DrainsRight.drainLoop
    (h : DrainsRight edited right before w drain) :
    SavesRight edited right before
      (w.drainLoop requestId drain) := by
  have hHolds := h.holds
  unfold SessionWorld.drainLoop
  split
  · rename_i hGo
    have hUnsaved : w.session.hasUnsaved = true := by
      simp only [Bool.and_eq_true] at hGo
      exact hGo.2
    rcases hHolds.snapshot hUnsaved requestId with
      ⟨hEdited, hRight⟩
    generalize hSnapshot :
      w.session.pendingSnapshot.getD
        (snapshotOf requestId w.session) = snapshot at hRight
    have hSame :
        w.session.pendingSnapshot.getD
          (snapshotOf requestId
            { w.session with status := .saving }) =
          snapshot :=
      hSnapshot
    dsimp only [SessionWorld.setStatus, SessionWorld.setDrain,
      SessionWorld.note]
    rw [hSame, h.alone]
    constructor
    · exact .inr ⟨drain, _, rfl, h.saving⟩
    · rintro _ q ⟨d, hMem⟩
      cases List.mem_singleton.mp hMem
      exact ⟨rfl, (nomatch ·), h.unblocked⟩
    · intro _ hBlocked
      exact absurd (h.unblocked.symm.trans hBlocked) (by simp)
    · exact fun _ hClean => nomatch hClean
    · intro _
      refine ⟨hHolds.body, fun q hq => ?_, fun _ => hEdited,
        fun _ => hEdited⟩
      cases hq
      exact ⟨hEdited, hRight⟩
    · exact Nat.le_succ_of_le h.past
    · apply sent_cons _ h.sent
      rintro request hSent
      cases hSent
      exact hRight
  · rename_i hStop
    have hSaved : w.session.hasUnsaved = false := by
      simpa [h.live] using hStop
    rw [h.live]
    dsimp only [SessionWorld.setStatus, SessionWorld.setDrain,
      Bool.false_eq_true, if_false]
    rw [h.alone]
    constructor
    · exact .inr ⟨drain, _, rfl, h.saving⟩
    · rintro _ q ⟨d, hMem⟩
      cases List.mem_singleton.mp hMem
    · intro _ hBlocked
      exact absurd (h.unblocked.symm.trans hBlocked) (by simp)
    · exact fun _ _ => hSaved
    · intro _
      exact ⟨hHolds.body, hHolds.pending, hHolds.unsaved,
        fun hDirty => nomatch hDirty⟩
    · exact h.past
    · exact h.sent

theorem SavesRight.drainSave
    (h : SavesRight edited right before w)
    (hLive : w.session.destroyed = false)
    (hBlocked : w.session.saveBlocked = false) :
    SavesRight edited right before (w.drainSave requestId) := by
  unfold SessionWorld.drainSave
  split
  · exact h
  · rename_i hNone
    have hDrains : w.drains = [] := no_drain h.drains hNone
    have hHolds := h.holds hLive
    have hStart :
        DrainsRight edited right before
          (SessionWorld.hold
            { w with nextDrain := w.nextDrain + 1 }
            (some w.nextDrain)) w.nextDrain :=
      { alone := congrArg (List.filter _) hDrains
        saving := rfl
        live := hLive
        unblocked := hBlocked
        holds := ⟨hHolds.body, hHolds.pending, hHolds.unsaved,
          hHolds.dirty⟩
        past := h.past
        sent := h.sent }
    dsimp only
    rw [SessionWorld.drainLoop_hold]
    exact hStart.drainLoop

theorem SavesRight.unblock
    (h : SavesRight edited right before w) :
    SavesRight edited right before
      { w with
        session := { w.session with saveBlocked := false } } where
  drains := h.drains
  sending := fun hLive q hq =>
    ⟨(h.sending hLive q hq).1, (h.sending hLive q hq).2.1, rfl⟩
  shown := fun _ hBlocked => nomatch hBlocked
  clean := h.clean
  holds := by
    intro hLive
    have hHolds := h.holds hLive
    exact ⟨hHolds.body, hHolds.pending, hHolds.unsaved,
      hHolds.dirty⟩
  past := h.past
  sent := h.sent

theorem SavesRight.flush
    (h : SavesRight edited right before w) :
    SavesRight edited right before (w.flush requestId) := by
  have hCancelled :=
    h.of_savePart SessionWorld.savePart_cancelTimers
  unfold SessionWorld.flush
  dsimp only
  split
  · exact hCancelled
  · rename_i hLive
    rw [Bool.not_eq_true] at hLive
    exact hCancelled.unblock.drainSave hLive rfl

/- An entry of the history that is no request. -/
theorem SavesRight.note
    {entry : SessionNote}
    (h : SavesRight edited right before w)
    (hEntry : ∀ request, entry ≠ .sent request) :
    SavesRight edited right before (w.note entry) where
  drains := h.drains
  sending := h.sending
  shown := h.shown
  clean := h.clean
  holds := h.holds
  past := Nat.le_succ_of_le h.past
  sent := sent_cons (fun r hr => absurd hr (hEntry r)) h.sent

theorem SavesRight.explicitFlush
    (h : SavesRight edited right before w) :
    SavesRight edited right before
      (w.explicitFlush requestId) := by
  have hOther (request : SaveRequest) :
      SessionNote.flushed ≠ .sent request :=
    nofun
  exact (h.note hOther).flush

theorem SavesRight.autoSave
    (h : SavesRight edited right before w) :
    SavesRight edited right before (w.autoSave requestId) := by
  unfold SessionWorld.autoSave
  split
  · exact h
  split
  · exact h
  · exact h.flush

------------------------------------------------------------
-- Answers
------------------------------------------------------------

variable {snapshot : SaveRequest}

theorem SavesRight.of_lookup
    (h : SavesRight edited right before w)
    (hDrain :
      w.drains.lookup drain = some (.sending snapshot)) :
    InFlight w snapshot := by
  refine ⟨drain, ?_⟩
  rw [(only_drain h.drains hDrain).1]
  exact List.mem_singleton.mpr rfl

/- A drain that is over leaves the rest as it is. -/
theorem SavesRight.settle
    {state : DrainState}
    (h : SavesRight edited right before w)
    (hDrain : w.drains.lookup drain = some state) :
    SavesRight edited right before
      (w.setDrain drain .settled) := by
  have hOne := only_drain h.drains hDrain
  have hAlone :
      w.drains.filter (fun x => x.1 ≠ drain) = [] := by
    rw [hOne.1]
    simp
  dsimp only [SessionWorld.setDrain]
  rw [hAlone]
  constructor
  · exact .inr ⟨drain, _, rfl, hOne.2⟩
  · rintro _ q ⟨d, hMem⟩
    cases List.mem_singleton.mp hMem
  · exact h.shown
  · exact h.clean
  · exact h.holds
  · exact h.past
  · exact h.sent

variable {token : SaveToken}

theorem SavesRight.acknowledge
    (h : SavesRight edited right before w)
    (hDrain :
      w.drains.lookup drain = some (.sending snapshot)) :
    SavesRight edited right before
      (w.acknowledge requestId drain snapshot token) := by
  have hOne := only_drain h.drains hDrain
  have hNoted :
      SavesRight edited right before
        (w.note (.acked snapshot token)) :=
    h.note nofun
  unfold SessionWorld.acknowledge
  dsimp only
  split
  · exact hNoted.settle hDrain
  · rename_i hThere
    have hLive : w.session.destroyed = false :=
      Bool.eq_false_iff.mpr hThere
    have hSending :=
      h.sending hLive snapshot (h.of_lookup hDrain)
    have hHolds := h.holds hLive
    have hEdited := (hHolds.pending snapshot hSending.1).1
    apply DrainsRight.drainLoop
    exact
      { alone := by
          dsimp only [SessionWorld.note]
          rw [hOne.1]
          simp
        saving := hOne.2
        live := hLive
        unblocked := hSending.2.2
        holds := ⟨hHolds.body, fun _ hNone => (nomatch hNone),
          fun _ => hEdited, hHolds.dirty⟩
        past := hNoted.past
        sent := hNoted.sent }

/- An error is shown until the user saves again. -/
theorem SavesRight.block
    {status : SessionStatus}
    (h : SavesRight edited right before w)
    (hQuiet : ∀ q, ¬ InFlight w q)
    (hClean : status ≠ .clean)
    (hDirty : status ≠ .dirty) :
    SavesRight edited right before
      { w with
        session := { w.session with
          saveBlocked := true
          status := status } } where
  drains := h.drains
  sending := fun _ q hq => absurd hq (hQuiet q)
  shown := fun _ _ => hClean
  clean := fun _ hShown => absurd hShown hClean
  holds := by
    intro hLive
    have hHolds := h.holds hLive
    exact ⟨hHolds.body, hHolds.pending, hHolds.unsaved,
      fun hShown => absurd hShown hDirty⟩
  past := h.past
  sent := h.sent

theorem SavesRight.failSave
    {e : SaveError}
    (h : SavesRight edited right before w)
    (hDrain :
      w.drains.lookup drain = some (.sending snapshot)) :
    SavesRight edited right before
      (w.failSave drain snapshot e) := by
  have hNoted :
      SavesRight edited right before
        (w.note (.failed snapshot)) :=
    h.note nofun
  have hSettled := hNoted.settle hDrain
  unfold SessionWorld.failSave
  dsimp only
  split
  · exact hSettled
  · have hQuiet :
        ∀ q, ¬ InFlight
          ((w.note (.failed snapshot)).setDrain drain .settled)
          q := by
      rintro q ⟨d, hMem⟩
      rcases List.mem_cons.mp hMem with hHere | hRest
      · cases hHere
      · have hOne := only_drain h.drains hDrain
        dsimp only [SessionWorld.note] at hRest
        rw [hOne.1] at hRest
        simp at hRest
    have hClean :
        (if e = .staleWrite then SessionStatus.stale
          else .error) ≠ .clean := by
      split <;> simp
    have hDirty :
        (if e = .staleWrite then SessionStatus.stale
          else .error) ≠ .dirty := by
      split <;> simp
    have hBlocked := hSettled.block hQuiet hClean hDirty
    apply hBlocked.of_savePart
    exact SessionWorld.savePart_failed

theorem SavesRight.resume
    (h : SavesRight edited right before w)
    (hDrain : w.drains.lookup drain = some .settled) :
    SavesRight edited right before
      { w.hold none with
        drains := w.drains.filter fun x => x.1 ≠ drain } := by
  have hOne := only_drain h.drains hDrain
  have hAlone :
      w.drains.filter (fun x => x.1 ≠ drain) = [] := by
    rw [hOne.1]
    simp
  rw [hAlone]
  constructor
  · exact .inl ⟨rfl, rfl⟩
  · rintro _ q ⟨d, hMem⟩
    cases hMem
  · exact h.shown
  · exact h.clean
  · intro hLive
    have hHolds := h.holds hLive
    exact ⟨hHolds.body, hHolds.pending, hHolds.unsaved,
      hHolds.dirty⟩
  · exact h.past
  · exact h.sent

theorem SavesRight.destroy
    (h : SavesRight edited right before w) :
    SavesRight edited right before w.destroy := by
  have hGone :
      SavesRight edited right before
        { w with
          session := { w.session with destroyed := true } } :=
    { drains := h.drains
      sending := fun hLive => nomatch hLive
      shown := fun hLive => nomatch hLive
      clean := fun hLive => nomatch hLive
      holds := fun hLive => nomatch hLive
      past := h.past
      sent := h.sent }
  exact hGone.of_savePart SessionWorld.savePart_cancelTimers

/- Whatever a session does by itself. -/
theorem SavesRight.step
    (h : SavesRight edited right before w)
    (hOther : ∀ body, event ≠ .input body)
    (hStep : w.step event = some w') :
    SavesRight edited right before w' := by
  have hRules : SessionRules (SavesRight edited right before) :=
    { same := SavesRight.of_savePart
      explicitFlush := SavesRight.explicitFlush
      autoSave := SavesRight.autoSave
      acknowledge := SavesRight.acknowledge
      failSave := SavesRight.failSave
      resume := SavesRight.resume
      destroy := SavesRight.destroy }
  exact hRules.step h
    (fun body hInput => absurd hInput (hOther body)) hStep

variable {newBody : String}

/- A new body that is right, after an edit. -/
theorem SavesRight.onInput
    (h : SavesRight edited right before w)
    (hEdited : edited')
    (hBody : w.session.destroyed = false → right' newBody)
    (hMono : ∀ body, right body → right' body) :
    SavesRight edited' right' before (w.onInput newBody) := by
  have hSent :
      ∀ newer request older,
        w.history = newer ++ .sent request :: older →
          before ≤ older.length → right' request.body :=
    fun newer request older hHistory hRecent =>
      hMono _ (h.sent newer request older hHistory hRecent)
  unfold SessionWorld.onInput
  split
  · rename_i hGone
    have hNot : ¬ w.session.destroyed = false := by simp [hGone]
    exact
      { drains := h.drains
        sending := fun hLive => absurd hLive hNot
        shown := fun hLive => absurd hLive hNot
        clean := fun hLive => absurd hLive hNot
        holds := fun hLive => absurd hLive hNot
        past := h.past
        sent := hSent }
  rename_i hThere
  have hLive : w.session.destroyed = false :=
    Bool.eq_false_iff.mpr hThere
  have hHolds := h.holds hLive
  have hPending :
      ∀ q, w.session.pendingSnapshot = some q →
        edited' ∧ right' q.body :=
    fun q hq => ⟨hEdited, hMono _ (hHolds.pending q hq).2⟩
  split
  · rename_i hSame
    exact
      { drains := h.drains
        sending := h.sending
        shown := h.shown
        clean := h.clean
        holds := fun _ =>
          { body := fun _ => hSame.1 ▸ hBody hLive
            pending := hPending
            unsaved := fun _ => hEdited
            dirty := fun _ => hEdited }
        past := h.past
        sent := hSent }
  have hTyped (status : SessionStatus)
      (hStatus : status ≠ .clean) :
      SavesRight edited' right' before
        { (w.note (.typed newBody)) with
          session := { w.session with
            body := newBody
            editSequence := w.session.editSequence + 1
            status := status } } :=
    { drains := h.drains
      sending := fun _ q hq =>
        ⟨(h.sending hLive q hq).1, hStatus,
          (h.sending hLive q hq).2.2⟩
      shown := fun _ _ => hStatus
      clean := fun _ hClean => absurd hClean hStatus
      holds := fun _ =>
        { body := fun _ => hBody hLive
          pending := hPending
          unsaved := fun _ => hEdited
          dirty := fun _ => hEdited }
      past := Nat.le_succ_of_le h.past
      sent := sent_cons (fun _ hEntry => nomatch hEntry) hSent }
  dsimp only
  split
  · rename_i hBlocked
    exact hTyped w.session.status (h.shown hLive hBlocked)
  have hDirty := hTyped .dirty (nomatch ·)
  split
  · exact hDirty
  · apply hDirty.of_savePart
    rw [SessionWorld.savePart_armCheckpointTimer,
      SessionWorld.savePart_armIdleTimer]
    rfl

/- The body itself, when nothing has been edited. -/
theorem SavesRight.onInput_same
    (h : SavesRight edited right before w) :
    SavesRight edited right before
      (w.onInput w.session.body) := by
  by_cases hEdited : edited
  · exact h.onInput hEdited
      (fun hLive => (h.holds hLive).body hEdited) (fun _ => id)
  · unfold SessionWorld.onInput
    split
    · exact h
    · rename_i hThere
      have hLive : w.session.destroyed = false :=
        Bool.eq_false_iff.mpr hThere
      have hClean : w.session.status ≠ .dirty :=
        fun hDirty => hEdited ((h.holds hLive).dirty hDirty)
      rw [if_pos ⟨rfl, hClean⟩]
      exact h

------------------------------------------------------------
-- Bodies of a Session
------------------------------------------------------------

/- The body is the same, and no session comes back to life. -/
def Untouched (w w' : SessionWorld) : Prop :=
  w'.session.body = w.session.body ∧
    (w'.session.destroyed = false → w.session.destroyed = false)

theorem Untouched.trans
    {w₁ : SessionWorld}
    (h : Untouched w w₁)
    (h' : Untouched w₁ w') : Untouched w w' :=
  ⟨h'.1.trans h.1, h.2 ∘ h'.2⟩

theorem untouched_of_savePart
    (hSame : w'.savePart = w.savePart) : Untouched w w' := by
  have hBody : w'.savePart.session.body = w.session.body := by
    rw [hSame]
    rfl
  have hLife :
      w'.savePart.session.destroyed = w.session.destroyed := by
    rw [hSame]
    rfl
  exact ⟨hBody, fun hLive => hLife.symm.trans hLive⟩

theorem untouched_drainLoop
    (requestId : Uuid)
    (drain : DrainId) :
    Untouched w (w.drainLoop requestId drain) := by
  unfold SessionWorld.drainLoop
  split
  · exact ⟨rfl, id⟩
  split
  · exact ⟨rfl, id⟩
  · exact ⟨rfl, id⟩

theorem untouched_flush
    (requestId : Uuid) :
    Untouched w (w.flush requestId) := by
  have hCancelled : Untouched w w.cancelTimers :=
    untouched_of_savePart SessionWorld.savePart_cancelTimers
  unfold SessionWorld.flush
  dsimp only
  split
  · exact hCancelled
  unfold SessionWorld.drainSave
  split
  · exact hCancelled
  · exact hCancelled.trans (untouched_drainLoop _ _)

theorem untouched_step
    (hOther : ∀ body, event ≠ .input body)
    (hStep : w.step event = some w') : Untouched w w' := by
  cases event with
  | input body => exact absurd rfl (hOther body)
  | compositionStart =>
      cases hStep
      exact ⟨rfl, id⟩
  | compositionEnd =>
      cases hStep
      unfold SessionWorld.onCompositionEnd
      dsimp only
      split
      · apply untouched_of_savePart
        rw [SessionWorld.savePart_armIdleTimer]
        rfl
      · exact ⟨rfl, id⟩
  | timer id requestId =>
      unfold SessionWorld.step SessionWorld.autoSave at hStep
      dsimp only at hStep
      split at hStep
      case isFalse => cases hStep
      cases hStep
      split
      · exact ⟨rfl, fun hLive => hLive⟩
      split
      · exact ⟨rfl, fun hLive => hLive⟩
      · exact untouched_flush _
  | flush requestId =>
      cases hStep
      exact untouched_flush _
  | save requestId =>
      cases hStep
      unfold SessionWorld.save
      split
      · exact ⟨rfl, id⟩
      · exact untouched_flush _
  | ack drain token requestId =>
      unfold SessionWorld.step SessionWorld.acknowledge at hStep
      dsimp only at hStep
      split at hStep
      case h_2 => cases hStep
      cases hStep
      split
      · exact ⟨rfl, id⟩
      · exact untouched_drainLoop _ _
  | fail drain e =>
      unfold SessionWorld.step SessionWorld.failSave at hStep
      dsimp only at hStep
      split at hStep
      case h_2 => cases hStep
      rename_i snapshot _
      cases hStep
      split
      · exact ⟨rfl, id⟩
      · let blocked : SessionWorld :=
          { (w.note (.failed snapshot)) with
            session := { w.session with saveBlocked := true } }
        have hCancelled : Untouched blocked blocked.cancelTimers :=
          untouched_of_savePart
            SessionWorld.savePart_cancelTimers
        exact ⟨hCancelled.1, hCancelled.2⟩
  | resume drain =>
      unfold SessionWorld.step at hStep
      dsimp only at hStep
      split at hStep
      case h_2 => cases hStep
      cases hStep
      exact ⟨rfl, id⟩
  | destroy =>
      cases hStep
      let gone : SessionWorld :=
        { w with session := { w.session with destroyed := true } }
      have hCancelled : Untouched gone gone.cancelTimers :=
        untouched_of_savePart SessionWorld.savePart_cancelTimers
      exact ⟨hCancelled.1, fun hLive => nomatch hCancelled.2 hLive⟩

theorem onInput_gone
    (h : w.session.destroyed = true) :
    w.onInput newBody = w := by
  unfold SessionWorld.onInput
  rw [if_pos h]

theorem onInput_live
    (h : (w.onInput newBody).session.destroyed = false) :
    w.session.destroyed = false ∧
      (w.onInput newBody).session.body = newBody := by
  unfold SessionWorld.onInput at h ⊢
  split at h
  case isTrue hGone =>
    rw [hGone] at h
    cases h
  case isFalse hThere =>
    have hLive : w.session.destroyed = false :=
      Bool.eq_false_iff.mpr hThere
    refine ⟨hLive, ?_⟩
    rw [if_neg hThere]
    split
    · rename_i hSame
      exact hSame.1.symm
    dsimp only
    split
    · rfl
    split
    · rfl
    · let dirty : SessionWorld :=
        { (w.note (.typed newBody)) with
          session := { w.session with
            body := newBody
            editSequence := w.session.editSequence + 1
            status := .dirty } }
      have hArmed :
          Untouched dirty
            dirty.armIdleTimer.armCheckpointTimer := by
        apply untouched_of_savePart
        rw [SessionWorld.savePart_armCheckpointTimer,
          SessionWorld.savePart_armIdleTimer]
      exact hArmed.1

------------------------------------------------------------
-- Editors That Keep Line Ends
------------------------------------------------------------

/- The field shows the body, which has the user's edits. -/
structure EditorOk (e : NoteEditor) : Prop where
  shown :
    e.session.session.destroyed = false →
      e.textarea = textareaValue e.session.session.body.toList
  body :
    e.session.session.destroyed = false →
      Edited e.read e.edits e.session.session.body.toList
  saves :
    SavesRight (e.edits ≠ [])
      (fun body => Justified e.read e.edits body.toList) e.before
      e.session

variable {e e' : NoteEditor}

theorem editorOk_opened (note : OpenedNote) :
    EditorOk (.opened note) where
  shown := fun _ => rfl
  body := fun _ => .read
  saves := savesRight_new note _ fun hEdited => hEdited rfl

theorem Justified.mono
    {read : Text} {edits : List (Edit Char)}
    (h : Justified read edits body)
    (edit : Edit Char) :
    Justified read (edits ++ [edit]) body := by
  rcases h with ⟨made, hMade, hSome, hEdited⟩
  exact ⟨made, hMade.trans (List.prefix_append _ _), hSome,
    hEdited⟩

/- The field is read back after an edit of the user. -/
theorem EditorOk.typed
    {new : Text}
    (h : EditorOk e)
    (hKept :
      e.session.session.destroyed = false →
        OutsideKept edit e.session.session.body.toList new) :
    EditorOk
      { e with
        session := e.session.onInput (.ofList new)
        textarea := textareaValue new
        edits := e.edits ++ [edit] } := by
  have hNew
      (hLive : e.session.session.destroyed = false) :
      Edited e.read (e.edits ++ [edit]) new :=
    .edit (h.body hLive) (hKept hLive)
  have hSome : e.edits ++ [edit] ≠ [] := by simp
  constructor
  · intro hLive
    dsimp only at hLive ⊢
    rw [(onInput_live hLive).2, String.toList_ofList]
  · intro hLive
    dsimp only at hLive ⊢
    rw [(onInput_live hLive).2, String.toList_ofList]
    exact hNew (onInput_live hLive).1
  · apply h.saves.onInput hSome
    · intro hLive
      rw [String.toList_ofList]
      exact ⟨_, List.prefix_rfl, hSome, hNew hLive⟩
    · exact fun _ hRight => hRight.mono edit

theorem EditorOk.input
    (h : EditorOk e)
    (hKeeps :
      PlainOutside edit e.session.session.body.toList) :
    EditorOk (e.input edit) := by
  have hKept :
      e.session.session.destroyed = false →
        OutsideKept edit e.session.session.body.toList
          (textareaValue (replaced e.textarea edit)) := by
    intro hLive
    rw [h.shown hLive]
    exact hKeeps.input
  have hTyped := h.typed hKept
  rw [textareaValue_idem] at hTyped
  exact hTyped

theorem EditorOk.toolbar
    {start stop : Nat} {action : MarkdownAction}
    (h : EditorOk e)
    (hKeeps :
      PlainOutside (toolbarEdit e start stop action)
        e.session.session.body.toList) :
    EditorOk (e.applyToolbarAction start stop action) := by
  apply h.typed
  intro hLive
  unfold toolbarEdit at hKeeps
  rw [h.shown hLive] at hKeeps ⊢
  exact hKeeps.toolbar

theorem EditorOk.switchEditorMode
    {mode : EditorMode}
    (h : EditorOk e)
    (hKeeps : StepKeeps e (.switchMode mode)) :
    EditorOk (e.switchEditorMode mode) := by
  unfold NoteEditor.switchEditorMode
  split
  · exact h
  rename_i hOther
  cases mode with
  | raw =>
      refine ⟨fun hLive => ?_, h.body, h.saves⟩
      dsimp only
      split
      · exact h.shown hLive
      · rfl
  | preview =>
      have hRaw : e.editorMode = .raw := by
        cases hMode : e.editorMode with
        | raw => rfl
        | preview => exact absurd hMode hOther
      have hSame :
          e.session.onInput (.ofList e.textarea) =
            e.session.onInput e.session.session.body := by
        cases hLife : e.session.session.destroyed with
        | true => rw [onInput_gone hLife, onInput_gone hLife]
        | false =>
            rw [h.shown hLife,
              textareaValue_of_plain (hKeeps hRaw),
              String.ofList_toList]
      have hSaves := h.saves.onInput_same
      rw [← hSame] at hSaves
      refine ⟨fun hLive => ?_, fun hLive => ?_, hSaves⟩
      · change (e.session.onInput
          (.ofList e.textarea)).session.destroyed = false at hLive
        rw [hSame] at hLive
        rcases onInput_live hLive with ⟨hThere, hBody⟩
        show e.textarea = textareaValue (e.session.onInput
          (.ofList e.textarea)).session.body.toList
        rw [hSame, hBody]
        exact h.shown hThere
      · change (e.session.onInput
          (.ofList e.textarea)).session.destroyed = false at hLive
        rw [hSame] at hLive
        rcases onInput_live hLive with ⟨hThere, hBody⟩
        show Edited e.read e.edits (e.session.onInput
          (.ofList e.textarea)).session.body.toList
        rw [hSame, hBody]
        exact h.body hThere

theorem EditorOk.markStale
    (h : EditorOk e) : EditorOk e.markStale where
  shown := h.shown
  body := h.body
  saves :=
    { drains := h.saves.drains
      sending := fun hLive q hq =>
        ⟨(h.saves.sending hLive q hq).1, nofun,
          (h.saves.sending hLive q hq).2.2⟩
      shown := fun _ _ => nofun
      clean := fun _ hClean => nomatch hClean
      holds := fun hLive =>
        { body := (h.saves.holds hLive).body
          pending := (h.saves.holds hLive).pending
          unsaved := (h.saves.holds hLive).unsaved
          dirty := nofun }
      past := h.saves.past
      sent := h.saves.sent }

/- A session with nothing to save starts from a new body. -/
theorem SavesRight.reload
    {body : String}
    (h : SavesRight edited right before w)
    (hLive : w.session.destroyed = false)
    (hClean : w.session.status = .clean)
    (hNone : ¬ edited') :
    SavesRight edited' right' w.history.length
      { w with
        session := { w.session with
          body := body
          token := token } } := by
  have hSaved := h.clean hLive hClean
  simp only [NoteSession.hasUnsaved, Bool.or_eq_false_iff,
    decide_eq_false_iff_not, Option.isSome_eq_false_iff,
    Option.isNone_iff_eq_none] at hSaved
  constructor
  · exact h.drains
  · intro _ q hq
    exact absurd hClean (h.sending hLive q hq).2.1
  · exact h.shown
  · exact h.clean
  · intro _
    refine ⟨fun hEdited => absurd hEdited hNone,
      fun q hq => ?_, fun hNew => absurd hNew hSaved.2,
      fun hDirty => ?_⟩
    · rw [hSaved.1] at hq
      cases hq
    · rw [hClean] at hDirty
      cases hDirty
  · exact Nat.le_refl _
  · intro newer request older hHistory hRecent
    change w.history = newer ++ .sent request :: older
      at hHistory
    rw [hHistory, List.length_append, List.length_cons]
      at hRecent
    omega

theorem EditorOk.handleRemoteChanges
    {body : String}
    (h : EditorOk e) :
    EditorOk (e.handleRemoteChanges body token) := by
  unfold NoteEditor.handleRemoteChanges
  dsimp only
  split
  · exact h
  rename_i hThere
  have hLive : e.session.session.destroyed = false :=
    Bool.eq_false_iff.mpr hThere
  split
  · rename_i hClean
    refine ⟨fun _ => ?_, fun _ => .read,
      h.saves.reload hLive hClean fun hEdited => hEdited rfl⟩
    dsimp only
    split
    · rename_i hSame
      rw [← hSame]
      exact h.shown hLive
    · rfl
  split
  · exact h.markStale
  · exact h

theorem EditorOk.handleUnreadable
    (h : EditorOk e) : EditorOk e.handleUnreadable := by
  unfold NoteEditor.handleUnreadable
  split
  · exact h
  · exact h.markStale

theorem step_session
    (hOther : ∀ body, event ≠ .input body) :
    e.step (.session event) =
      (e.session.step event).map
        fun w => { e with session := w } := by
  cases event with
  | input body => exact absurd rfl (hOther body)
  | _ => rfl

/- What the session does by itself leaves the field alone. -/
theorem EditorOk.session
    (h : EditorOk e)
    (hOther : ∀ body, event ≠ .input body)
    (hStep : e.step (.session event) = some e') :
    EditorOk e' := by
  rw [step_session hOther] at hStep
  rcases Option.map_eq_some_iff.mp hStep with ⟨w, hNext, rfl⟩
  rcases untouched_step hOther hNext with ⟨hBody, hLife⟩
  refine ⟨fun hLive => ?_, fun hLive => ?_,
    h.saves.step hOther hNext⟩
  · dsimp only at hLive ⊢
    rw [hBody]
    exact h.shown (hLife hLive)
  · dsimp only at hLive ⊢
    rw [hBody]
    exact h.body (hLife hLive)

theorem EditorOk.step
    {event : EditorEvent}
    (h : EditorOk e)
    (hKeeps : StepKeeps e event)
    (hStep : e.step event = some e') : EditorOk e' := by
  cases event with
  | openNote note =>
      cases hStep
      exact editorOk_opened note
  | input edit =>
      unfold NoteEditor.step at hStep
      dsimp only at hStep
      split at hStep
      · cases hStep
        exact h.input hKeeps
      · cases hStep
  | switchMode mode =>
      cases hStep
      exact h.switchEditorMode hKeeps
  | toolbar start stop action =>
      cases hStep
      exact h.toolbar hKeeps
  | external body token =>
      cases hStep
      exact h.handleRemoteChanges
  | unreadable =>
      cases hStep
      exact h.handleUnreadable
  | render =>
      cases hStep
      exact ⟨fun _ => rfl, h.body, h.saves⟩
  | session event =>
      by_cases hInput : ∃ body, event = .input body
      · rcases hInput with ⟨body, rfl⟩
        cases hStep
      · exact h.session
          (fun body hSame => hInput ⟨body, hSame⟩) hStep

/-
  In a run whose steps keep the line ends, what is sent to
  be saved is the body that was read with edits made in it.
-/
theorem keepingRun_savesEditsOnly
    (h : KeepingRun e) : SavesEditsOnly e := by
  have hOk : EditorOk e := by
    induction h with
    | opened note => exact editorOk_opened note
    | step _ hKeeps hStep ih => exact ih.step hKeeps hStep
  exact hOk.saves.sent

/- Two lines with a CRLF between them. -/
def twoLines : OpenedNote where
  noteId := 1
  workspaceId := 1
  body := .ofList ['a', '\r', '\n', 'b']
  token := ⟨1, ""⟩

/- The same with an LF, and a user who types at the end. -/
def plainLines : OpenedNote :=
  { twoLines with body := .ofList ['a', '\n', 'b'] }

def typedAtEnd : NoteEditor :=
  (NoteEditor.opened plainLines).input ⟨3, 3, ['c']⟩

theorem keepingRun_savesEditsOnly_typedAtEnd :
    ∃ e, typedAtEnd.step (.session (.timer 0 1)) = some e ∧
      SavesEditsOnly e := by
  have hKeeps :
      StepKeeps (.opened plainLines) (.input ⟨3, 3, ['c']⟩) := by
    show PlainOutside _ plainLines.body.toList
    unfold plainLines
    rw [String.toList_ofList]
    exact ⟨[], rfl, rfl⟩
  have hInput :
      (NoteEditor.opened plainLines).step
        (.input ⟨3, 3, ['c']⟩) = some typedAtEnd := by
    unfold NoteEditor.step
    exact if_pos (by decide +kernel)
  have hTyped : KeepingRun typedAtEnd :=
    .step (.opened plainLines) hKeeps hInput
  have hFires :
      (typedAtEnd.step (.session (.timer 0 1))).isSome = true := by
    decide +kernel
  rcases Option.isSome_iff_exists.mp hFires with ⟨e, hStep⟩
  have hFree :
      StepKeeps typedAtEnd (.session (.timer 0 1)) := trivial
  exact ⟨e, hStep,
    keepingRun_savesEditsOnly (.step hTyped hFree hStep)⟩

/-
  The note is shown as a preview, and what is sent then is
  another body than the one that was read.
-/
theorem preview_rewrites_lines :
    ∃ e request,
      (NoteEditor.opened twoLines).run
          [.switchMode .preview, .session (.timer 0 1)] =
        some e ∧
      e.edits = [] ∧
      .sent request ∈ e.session.history ∧
      request.body = .ofList ['a', '\n', 'b'] ∧
      ¬ SavesEditsOnly e := by
  have hRun :
      ((NoteEditor.opened twoLines).run
        [.switchMode .preview, .session (.timer 0 1)]).map
        (fun e => (e.edits, e.before, e.session.history)) =
      some ([], 0,
        [.sent ⟨1, 1, .ofList ['a', '\n', 'b'], ⟨1, ""⟩, 1, 1⟩,
          .typed (.ofList ['a', '\n', 'b'])]) := by
    decide +kernel
  rcases Option.map_eq_some_iff.mp hRun with ⟨e, hEnd, hParts⟩
  simp only [Prod.mk.injEq] at hParts
  rcases hParts with ⟨hEdits, hBefore, hHistory⟩
  refine ⟨e, ⟨1, 1, .ofList ['a', '\n', 'b'], ⟨1, ""⟩, 1, 1⟩,
    hEnd, hEdits, ?_, rfl, fun hSaves => ?_⟩
  · rw [hHistory]
    exact List.mem_cons_self
  · rcases hSaves [] _ _ hHistory (by rw [hBefore]; simp) with
      ⟨made, hMade, hSome, _⟩
    rw [hEdits] at hMade
    exact hSome (List.prefix_nil.mp hMade)

end S4Drive.NoteEditing

import S4Drive.Notes.Controller
import S4Drive.Notes.SessionProtocol

/-
  What a session has saved of what was typed into it. Unlike
  the protocol of its requests this does not depend on where
  buffer and token come from, so it holds of a session whose
  buffer is replaced from outside.

  Main declarations:
    * `typedInputs`, `ackedInputs`
    * `SessionTidy`, `Resting`
    * `Resting.settle`, `Resting.acknowledge`
-/

------------------------------------------------------------
-- Inputs
------------------------------------------------------------

namespace S4Drive

def typedInputs : List SessionNote → Nat
  | [] => 0
  | .typed _ :: older => typedInputs older + 1
  | _ :: older => typedInputs older

/- How many inputs the last acknowledged request has. -/
def ackedInputs : List SessionNote → Nat
  | [] => 0
  | .acked request _ :: _ => request.sequence
  | _ :: older => ackedInputs older

variable {w w' : SessionWorld} {requestId : Uuid}
variable {drain : DrainId}

/- The fields of a session agree, in the midst of a turn. -/
structure SessionTidy (w : SessionWorld) : Prop where
  live : w.session.destroyed = false
  drains :
    (w.drains = [] ∧ w.session.saving = none) ∨
      ∃ drain state, w.drains = [(drain, state)] ∧
        w.session.saving = some drain
  sending :
    ∀ drain q, (drain, .sending q) ∈ w.drains →
      w.session.pendingSnapshot = some q ∧
        w.session.status ≠ .clean ∧
        w.session.saveBlocked = false
  pending :
    ∀ q, w.session.pendingSnapshot = some q →
      q.sequence ≤ w.session.editSequence
  saved : w.session.savedSequence ≤ w.session.editSequence
  shown :
    w.session.saveBlocked = true → w.session.status ≠ .clean
  clean :
    w.session.status = .clean → w.session.hasUnsaved = false
  typed : typedInputs w.history = w.session.editSequence
  acked : ackedInputs w.history = w.session.savedSequence

/- Between two turns no drain is over and still held. -/
structure Resting (w : SessionWorld) : Prop
    extends SessionTidy w where
  rests : ∀ drain, (drain, .settled) ∉ w.drains

theorem hasUnsaved_eq_false {s : NoteSession} :
    s.hasUnsaved = false ↔
      s.pendingSnapshot = none ∧
        s.editSequence ≤ s.savedSequence := by
  simp [NoteSession.hasUnsaved]

/- A session without anything unsaved has saved all inputs. -/
theorem SessionTidy.all_acked
    (h : SessionTidy w)
    (hSaved : w.session.hasUnsaved = false) :
    ackedInputs w.history = typedInputs w.history := by
  rw [h.acked, h.typed]
  exact Nat.le_antisymm h.saved (hasUnsaved_eq_false.mp hSaved).2

theorem resting_new (note : OpenedNote) :
    Resting (.new note) where
  live := rfl
  drains := .inl ⟨rfl, rfl⟩
  sending := fun _ _ h => nomatch h
  pending := fun _ h => nomatch h
  saved := Nat.le_refl _
  shown := fun h => nomatch h
  clean := fun _ => rfl
  typed := rfl
  acked := rfl
  rests := fun _ h => nomatch h

/- What is sent is not saved yet. -/
theorem Resting.unsaved_of_drains
    (h : Resting w)
    (hDrains : w.drains ≠ []) :
    w.session.hasUnsaved = true := by
  rcases h.drains with ⟨hNone, _⟩ | ⟨drain, state, hOne, _⟩
  · exact absurd hNone hDrains
  · have hMem : (drain, state) ∈ w.drains := by
      rw [hOne]
      exact List.mem_singleton.mpr rfl
    cases state with
    | sending q =>
        simp [NoteSession.hasUnsaved, (h.sending drain q hMem).1]
    | settled => exact absurd hMem (h.rests drain)

theorem Resting.drains_nil
    (h : Resting w)
    (hSaved : w.session.hasUnsaved = false) :
    w.drains = [] := by
  by_cases hDrains : w.drains = []
  · exact hDrains
  · rw [h.unsaved_of_drains hDrains] at hSaved
    cases hSaved

theorem SessionTidy.drains_ne_nil_iff
    (h : SessionTidy w) :
    w.drains ≠ [] ↔ w.session.saving.isSome = true := by
  rcases h.drains with
    ⟨hNone, hSaving⟩ | ⟨d, x, hOne, hSaving⟩
  · simp [hNone, hSaving]
  · simp [hOne, hSaving]

/- What the saved inputs depend on. -/
def SessionWorld.inputPart (w : SessionWorld) : SessionWorld :=
  { w with
    session := { w.session with
      body := ""
      token := ⟨0, ""⟩
      error := none
      isComposing := false
      idleTimer := none
      checkpointTimer := none }
    armed := []
    nextDrain := 0
    nextTimer := 0 }

theorem SessionTidy.of_inputPart
    (h : SessionTidy w)
    (hSame : w'.inputPart = w.inputPart) : SessionTidy w' := by
  have hPart : SessionTidy w.inputPart :=
    ⟨h.live, h.drains, h.sending, h.pending, h.saved, h.shown,
      h.clean, h.typed, h.acked⟩
  rw [← hSame] at hPart
  exact ⟨hPart.live, hPart.drains, hPart.sending,
    hPart.pending, hPart.saved, hPart.shown, hPart.clean,
    hPart.typed, hPart.acked⟩

theorem Resting.of_inputPart
    (h : Resting w)
    (hSame : w'.inputPart = w.inputPart) : Resting w' := by
  refine ⟨h.toSessionTidy.of_inputPart hSame, ?_⟩
  have hDrains : w'.drains = w.drains := by
    change w'.inputPart.drains = w.inputPart.drains
    rw [hSame]
  rw [hDrains]
  exact h.rests

theorem hasUnsaved_of_inputPart
    (hSame : w'.inputPart = w.inputPart) :
    w'.session.hasUnsaved = w.session.hasUnsaved := by
  change w'.inputPart.session.hasUnsaved =
    w.inputPart.session.hasUnsaved
  rw [hSame]

namespace SessionWorld

/- It is a part of what the protocol depends on. -/
theorem inputPart_of_savePart
    (hSame : w'.savePart = w.savePart) :
    w'.inputPart = w.inputPart := by
  change w'.savePart.inputPart = w.savePart.inputPart
  rw [hSame]

theorem inputPart_cancelTimers :
    w.cancelTimers.inputPart = w.inputPart :=
  inputPart_of_savePart savePart_cancelTimers

theorem inputPart_armIdleTimer :
    w.armIdleTimer.inputPart = w.inputPart :=
  inputPart_of_savePart savePart_armIdleTimer

theorem inputPart_armCheckpointTimer :
    w.armCheckpointTimer.inputPart = w.inputPart :=
  inputPart_of_savePart savePart_armCheckpointTimer

theorem inputPart_onCompositionEnd :
    w.onCompositionEnd.inputPart = w.inputPart := by
  unfold onCompositionEnd
  dsimp only
  split
  · exact inputPart_armIdleTimer
  · rfl

end SessionWorld

/- A drain that goes on, or that has just been started. -/
structure TidyDrain
    (w : SessionWorld)
    (drain : DrainId) : Prop where
  live : w.session.destroyed = false
  alone : w.drains.filter (fun x => x.1 ≠ drain) = []
  saving : w.session.saving = some drain
  unblocked : w.session.saveBlocked = false
  pending :
    ∀ q, w.session.pendingSnapshot = some q →
      q.sequence ≤ w.session.editSequence
  saved : w.session.savedSequence ≤ w.session.editSequence
  typed : typedInputs w.history = w.session.editSequence
  acked : ackedInputs w.history = w.session.savedSequence

theorem TidyDrain.drainLoop
    (h : TidyDrain w drain) :
    SessionTidy (w.drainLoop requestId drain) := by
  unfold SessionWorld.drainLoop
  split
  · dsimp only [SessionWorld.setStatus, SessionWorld.setDrain,
      SessionWorld.note]
    rw [h.alone]
    constructor
    · exact h.live
    · exact .inr ⟨drain, _, rfl, h.saving⟩
    · rintro d q hMem
      cases List.mem_singleton.mp hMem
      exact ⟨rfl, (nomatch ·), h.unblocked⟩
    · rintro q hq
      cases hq
      cases hPending : w.session.pendingSnapshot with
      | some p => exact h.pending p hPending
      | none => exact Nat.le_refl _
    · exact h.saved
    · exact fun hBlocked => absurd hBlocked (by simp [h.unblocked])
    · exact fun hClean => nomatch hClean
    · exact h.typed
    · exact h.acked
  · rename_i hStop
    have hSaved : w.session.hasUnsaved = false := by
      simpa [h.live] using hStop
    rw [h.live]
    dsimp only [SessionWorld.setStatus, SessionWorld.setDrain,
      Bool.false_eq_true, if_false]
    rw [h.alone]
    constructor
    · exact h.live
    · exact .inr ⟨drain, _, rfl, h.saving⟩
    · rintro d q hMem
      cases List.mem_singleton.mp hMem
    · exact h.pending
    · exact h.saved
    · exact fun hBlocked => absurd hBlocked (by simp [h.unblocked])
    · exact fun _ => hSaved
    · exact h.typed
    · exact h.acked

namespace SessionWorld

/- A drain that finds something unsaved sends it. -/
theorem drainLoop_sends
    (hLive : w.session.destroyed = false)
    (hUnsaved : w.session.hasUnsaved = true) :
    ∃ q, (w.drainLoop requestId drain).drains.lookup drain =
      some (.sending q) := by
  unfold drainLoop
  rw [if_pos (by simp [hLive, hUnsaved])]
  exact ⟨_, List.lookup_cons_self⟩

/- One that finds nothing leaves it so. -/
theorem drainLoop_saved
    (hSaved : w.session.hasUnsaved = false) :
    (w.drainLoop requestId drain).session.hasUnsaved =
      false := by
  unfold drainLoop
  rw [if_neg (by simp [hSaved])]
  split <;> exact hSaved

end SessionWorld

------------------------------------------------------------
-- Turns
------------------------------------------------------------

theorem SessionTidy.of_lookup
    {state : DrainState}
    (h : SessionTidy w)
    (hDrain : w.drains.lookup drain = some state) :
    w.drains = [(drain, state)] ∧
      w.session.saving = some drain :=
  only_drain h.drains hDrain

/- What the turn has resolved is not held any more. -/
theorem SessionTidy.settle
    (h : SessionTidy w) : Resting w.settle := by
  unfold SessionWorld.settle
  rcases h.drains with
    ⟨hNone, hSaving⟩ | ⟨d, x, hOne, hSaving⟩
  · rw [hSaving]
    refine ⟨h, ?_⟩
    rw [hNone]
    exact fun _ hMem => nomatch hMem
  · rw [hSaving]
    unfold SessionWorld.step
    dsimp only
    rw [hOne, List.lookup_cons_self]
    cases x with
    | sending q =>
        refine ⟨h, ?_⟩
        dsimp only [Option.getD_none]
        rw [hOne]
        rintro e hMem
        cases List.mem_singleton.mp hMem
    | settled =>
        dsimp only [Option.getD_some, SessionWorld.hold]
        have hAlone :
            [(d, DrainState.settled)].filter
              (fun y => y.1 ≠ d) = [] := by
          simp
        rw [hOne, hAlone]
        exact
          { live := h.live
            drains := .inl ⟨rfl, rfl⟩
            sending := fun _ _ hMem => nomatch hMem
            pending := h.pending
            saved := h.saved
            shown := h.shown
            clean := h.clean
            typed := h.typed
            acked := h.acked
            rests := fun _ hMem => nomatch hMem }

namespace SessionWorld

theorem hasUnsaved_settle :
    w.settle.session.hasUnsaved = w.session.hasUnsaved := by
  unfold settle
  split
  · unfold step
    dsimp only
    split <;> rfl
  · rfl

/- A drain that sends is not touched. -/
theorem settle_of_sending
    {q : SaveRequest}
    (hSaving : w.session.saving = some drain)
    (hDrain : w.drains.lookup drain = some (.sending q)) :
    w.settle = w := by
  unfold settle
  rw [hSaving]
  unfold step
  dsimp only
  rw [hDrain]
  rfl

end SessionWorld

theorem SessionTidy.drainSave
    (h : SessionTidy w)
    (hBlocked : w.session.saveBlocked = false) :
    SessionTidy (w.drainSave requestId) := by
  unfold SessionWorld.drainSave
  split
  · exact h
  · rename_i hNone
    have hDrains : w.drains = [] := no_drain h.drains hNone
    dsimp only
    rw [SessionWorld.drainLoop_hold]
    apply TidyDrain.drainLoop
    exact
      { live := h.live
        alone := congrArg (List.filter _) hDrains
        saving := rfl
        unblocked := hBlocked
        pending := h.pending
        saved := h.saved
        typed := h.typed
        acked := h.acked }

theorem SessionTidy.flush
    (h : SessionTidy w) : SessionTidy (w.flush requestId) := by
  have hCancelled : SessionTidy w.cancelTimers :=
    h.of_inputPart SessionWorld.inputPart_cancelTimers
  unfold SessionWorld.flush
  dsimp only
  split
  · exact hCancelled
  · refine SessionTidy.drainSave ?_ rfl
    exact
      { hCancelled with
        sending := fun d q hMem =>
          ⟨(hCancelled.sending d q hMem).1,
            (hCancelled.sending d q hMem).2.1, rfl⟩
        shown := fun hBlocked => nomatch hBlocked
        clean := hCancelled.clean }

theorem SessionTidy.explicitFlush
    (h : SessionTidy w) :
    SessionTidy (w.explicitFlush requestId) := by
  have hNoted : SessionTidy (w.note .flushed) :=
    { h with
      sending := h.sending
      clean := h.clean
      typed := h.typed
      acked := h.acked }
  exact hNoted.flush

theorem SessionTidy.autoSave
    (h : SessionTidy w) :
    SessionTidy (w.autoSave requestId) := by
  unfold SessionWorld.autoSave
  split
  · exact h
  · split
    · exact h
    · exact h.flush

theorem SessionTidy.timer
    {id : TimerId}
    (h : SessionTidy w)
    (hStep : w.step (.timer id requestId) = some w') :
    SessionTidy w' := by
  unfold SessionWorld.step at hStep
  dsimp only at hStep
  split at hStep
  · cases hStep
    apply SessionTidy.autoSave
    exact h.of_inputPart rfl
  · cases hStep

/- An input leaves the drains alone. -/
theorem Resting.onInput
    {newBody : String}
    (h : Resting w) : Resting (w.onInput newBody) := by
  unfold SessionWorld.onInput
  split
  · exact h
  · split
    · exact h
    · have hTyped (status : SessionStatus)
          (hStatus : status ≠ .clean) :
          Resting
            { (w.note (.typed newBody)) with
              session := { w.session with
                body := newBody
                editSequence := w.session.editSequence + 1
                status := status } } :=
        { live := h.live
          drains := h.drains
          sending := fun d q hMem =>
            ⟨(h.sending d q hMem).1, hStatus,
              (h.sending d q hMem).2.2⟩
          pending := fun q hq =>
            Nat.le_succ_of_le (h.pending q hq)
          saved := Nat.le_succ_of_le h.saved
          shown := fun _ => hStatus
          clean := fun hClean => absurd hClean hStatus
          typed := congrArg Nat.succ h.typed
          acked := h.acked
          rests := h.rests }
      dsimp only [SessionWorld.note]
      split
      · rename_i hBlocked
        exact hTyped w.session.status (h.shown hBlocked)
      · have hDirty := hTyped .dirty (by simp)
        split
        · exact hDirty
        · apply hDirty.of_inputPart
          rw [SessionWorld.inputPart_armCheckpointTimer,
            SessionWorld.inputPart_armIdleTimer]
          rfl

/- An acknowledged drain goes on with its loop. -/
theorem Resting.acknowledge_loop
    {snapshot : SaveRequest}
    (h : Resting w)
    (hDrain :
      w.drains.lookup drain = some (.sending snapshot))
    (token : SaveToken)
    (requestId : Uuid) :
    ∃ acked, TidyDrain acked drain ∧
      w.acknowledge requestId drain snapshot token =
        acked.drainLoop requestId drain := by
  have hOne := h.of_lookup hDrain
  have hMem : (drain, .sending snapshot) ∈ w.drains := by
    rw [hOne.1]
    exact List.mem_singleton.mpr rfl
  have hSending := h.sending drain snapshot hMem
  unfold SessionWorld.acknowledge
  dsimp only
  rw [if_neg (by simp [SessionWorld.note, h.live])]
  refine ⟨_, ?_, rfl⟩
  exact
    { live := h.live
      alone := by
        dsimp only [SessionWorld.note]
        rw [hOne.1]
        simp
      saving := hOne.2
      unblocked := hSending.2.2
      pending := fun _ hNone => nomatch hNone
      saved := h.pending snapshot hSending.1
      typed := h.typed
      acked := rfl }

/- When a drain is over without a failure all is saved. -/
theorem TidyDrain.over
    (h : TidyDrain w drain)
    (hOver :
      (w.drainLoop requestId drain).settle.session.saving =
        none) :
    (w.drainLoop requestId drain).session.hasUnsaved =
      false := by
  cases hUnsaved : w.session.hasUnsaved with
  | false => exact SessionWorld.drainLoop_saved hUnsaved
  | true =>
      have hSends : ∃ q,
          (w.drainLoop requestId drain).drains.lookup drain =
            some (.sending q) :=
        SessionWorld.drainLoop_sends h.live hUnsaved
      rcases hSends with ⟨q, hDrain⟩
      have hSaving := (h.drainLoop.of_lookup hDrain).2
      rw [SessionWorld.settle_of_sending hSaving hDrain,
        hSaving] at hOver
      cases hOver

/- A flush joins the drain that runs. -/
theorem SessionWorld.flush_held
    (hSaving : w.session.saving = some drain) :
    (w.flush requestId).drains = w.drains ∧
      (w.flush requestId).session.saving = some drain := by
  have hPart := inputPart_cancelTimers (w := w)
  have hDrains : w.cancelTimers.drains = w.drains := by
    change w.cancelTimers.inputPart.drains = w.inputPart.drains
    rw [hPart]
  have hHeld : w.cancelTimers.session.saving = some drain := by
    change w.cancelTimers.inputPart.session.saving = some drain
    rw [hPart]
    exact hSaving
  unfold flush
  dsimp only
  split
  · exact ⟨hDrains, hHeld⟩
  · unfold drainSave
    dsimp only
    rw [hHeld]
    exact ⟨hDrains, rfl⟩

/- One that finds no drain starts one. -/
theorem SessionWorld.flush_sends
    (hLive : w.session.destroyed = false)
    (hSaving : w.session.saving = none)
    (hUnsaved : w.session.hasUnsaved = true) :
    ∃ d q, (w.flush requestId).drains.lookup d =
      some (.sending q) := by
  have hPart := inputPart_cancelTimers (w := w)
  have hFree : w.cancelTimers.session.saving = none := by
    change w.cancelTimers.inputPart.session.saving = none
    rw [hPart]
    exact hSaving
  have hThere : w.cancelTimers.session.destroyed = false := by
    change w.cancelTimers.inputPart.session.destroyed = false
    rw [hPart]
    exact hLive
  unfold flush drainSave
  dsimp only
  rw [if_neg (by simp [hThere]), hFree]
  exact ⟨_, drainLoop_sends hThere
    ((hasUnsaved_of_inputPart hPart).trans hUnsaved)⟩

/- The drain that runs between two turns is sending. -/
theorem Resting.sends
    (h : Resting w)
    (hSaving : w.session.saving = some drain) :
    ∃ q, w.drains.lookup drain = some (.sending q) := by
  rcases h.drains with ⟨_, hNone⟩ | ⟨d, x, hOne, hHeld⟩
  · rw [hNone] at hSaving
    cases hSaving
  · cases hHeld.symm.trans hSaving
    rw [hOne, List.lookup_cons_self]
    cases x with
    | sending q => exact ⟨q, rfl⟩
    | settled =>
        have hMem : (drain, .settled) ∈ w.drains := by
          rw [hOne]
          exact List.mem_singleton.mpr rfl
        exact absurd hMem (h.rests drain)

theorem Resting.settle_eq
    (h : Resting w) : w.settle = w := by
  cases hSaving : w.session.saving with
  | none =>
      unfold SessionWorld.settle
      rw [hSaving]
  | some drain =>
      rcases h.sends hSaving with ⟨q, hDrain⟩
      exact SessionWorld.settle_of_sending hSaving hDrain

/- An explicit flush of unsaved inputs has to wait. -/
theorem Resting.explicitFlush_waits
    (h : Resting w)
    (hUnsaved : w.session.hasUnsaved = true) :
    (w.explicitFlush requestId).settle.session.saving.isSome =
      true := by
  have hTidy : SessionTidy (w.explicitFlush requestId) :=
    h.explicitFlush
  have hSends : ∃ d q,
      (w.explicitFlush requestId).drains.lookup d =
        some (.sending q) := by
    cases hSaving : w.session.saving with
    | none =>
        exact SessionWorld.flush_sends
          (w := w.note .flushed) h.live hSaving hUnsaved
    | some d =>
        rcases h.sends hSaving with ⟨q, hDrain⟩
        have hHeld :
            (w.explicitFlush requestId).drains = w.drains :=
          (SessionWorld.flush_held
            (w := w.note .flushed) hSaving).1
        refine ⟨d, q, ?_⟩
        rw [hHeld]
        exact hDrain
  rcases hSends with ⟨d, q, hDrain⟩
  have hSaving := (hTidy.of_lookup hDrain).2
  rw [SessionWorld.settle_of_sending hSaving hDrain, hSaving]
  rfl

/- A timer does not end a drain. -/
theorem Resting.timer_held
    {id : TimerId}
    (h : Resting w)
    (hDrains : w.drains ≠ [])
    (hStep : w.step (.timer id requestId) = some w') :
    w'.settle.drains ≠ [] := by
  have hSome := h.drains_ne_nil_iff.mp hDrains
  rcases Option.isSome_iff_exists.mp hSome with ⟨d, hSaving⟩
  rcases h.sends hSaving with ⟨q, hDrain⟩
  have hSame :
      w'.drains = w.drains ∧ w'.session.saving = some d := by
    unfold SessionWorld.step at hStep
    dsimp only at hStep
    split at hStep
    · cases hStep
      unfold SessionWorld.autoSave
      split
      · exact ⟨rfl, hSaving⟩
      · split
        · exact ⟨rfl, hSaving⟩
        · exact SessionWorld.flush_held
            (w := { w with
              armed := w.armed.filter (· ≠ id) }) hSaving
    · cases hStep
  rw [SessionWorld.settle_of_sending hSame.2
    (by rw [hSame.1]; exact hDrain), hSame.1]
  exact hDrains

theorem SessionWorld.settle_of_nil
    (h : w.drains = []) : w.settle = w := by
  unfold settle
  split
  · unfold step
    dsimp only
    rw [h]
    rfl
  · rfl

theorem SessionWorld.drains_onInput
    {newBody : String} :
    (w.onInput newBody).drains = w.drains := by
  unfold onInput
  split
  · rfl
  · split
    · rfl
    · dsimp only
      split
      · rfl
      · split
        · rfl
        · change (armCheckpointTimer _).inputPart.drains = _
          rw [inputPart_armCheckpointTimer,
            inputPart_armIdleTimer]
          rfl

/- A failure blocks the session. -/
theorem Resting.failSave
    {snapshot : SaveRequest} {e : SaveError}
    (h : Resting w)
    (hDrain :
      w.drains.lookup drain = some (.sending snapshot)) :
    SessionTidy (w.failSave drain snapshot e) := by
  have hOne := h.of_lookup hDrain
  have hStatus :
      (if e = .staleWrite then SessionStatus.stale
        else .error) ≠ .clean := by
    split <;> simp
  unfold SessionWorld.failSave
  dsimp only
  rw [if_neg (by simp [SessionWorld.note, h.live])]
  have hKept :
      SessionTidy
        (SessionWorld.setDrain
          { (w.note (.failed snapshot)) with
            session := { w.session with
              saveBlocked := true
              status :=
                if e = .staleWrite then .stale else .error } }
          drain .settled) := by
    dsimp only [SessionWorld.setDrain, SessionWorld.note]
    rw [hOne.1]
    have hAlone :
        [(drain, DrainState.sending snapshot)].filter
          (fun x => x.1 ≠ drain) = [] := by
      simp
    rw [hAlone]
    exact
      { live := h.live
        drains := .inr ⟨drain, _, rfl, hOne.2⟩
        sending := by
          rintro d q hMem
          cases List.mem_singleton.mp hMem
        pending := h.pending
        saved := h.saved
        shown := fun _ => hStatus
        clean := fun hClean => absurd hClean hStatus
        typed := h.typed
        acked := h.acked }
  apply hKept.of_inputPart
  let blocked : SessionWorld :=
    { (w.note (.failed snapshot)) with
      session := { w.session with saveBlocked := true } }
  let status : SessionStatus :=
    if e = .staleWrite then .stale else .error
  change (blocked.cancelTimers.inputPart.setStatus
      status).setDrain drain .settled =
    (blocked.inputPart.setStatus status).setDrain drain
      .settled
  rw [SessionWorld.inputPart_cancelTimers]

/- A timer leaves nothing unsaved behind. -/
theorem SessionWorld.timer_saved
    {id : TimerId}
    (hStep : w.step (.timer id requestId) = some w')
    (hSaved : w.session.hasUnsaved = false) :
    w'.session.hasUnsaved = false := by
  unfold step at hStep
  dsimp only at hStep
  split at hStep
  · cases hStep
    unfold autoSave
    split
    · exact hSaved
    · split
      · exact hSaved
      · unfold flush
        dsimp only
        have hThere := hasUnsaved_of_inputPart
          (inputPart_cancelTimers (w := { w with
            armed := w.armed.filter (· ≠ id) }))
        split
        · exact hThere.trans hSaved
        · unfold drainSave
          split
          · exact hThere.trans hSaved
          · exact drainLoop_saved (hThere.trans hSaved)
  · cases hStep

/- A session that is called stale is not clean. -/
theorem Resting.stale
    (h : Resting w) :
    Resting (w.setStatus .stale) where
  live := h.live
  drains := h.drains
  sending := fun drain q hMem =>
    ⟨(h.sending drain q hMem).1, (nomatch ·),
      (h.sending drain q hMem).2.2⟩
  pending := h.pending
  saved := h.saved
  shown := fun _ hClean => nomatch hClean
  clean := fun hClean => nomatch hClean
  typed := h.typed
  acked := h.acked
  rests := h.rests

end S4Drive

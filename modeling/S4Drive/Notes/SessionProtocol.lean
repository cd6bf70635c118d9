import S4Drive.Notes.Session

/-
  What a session asks of the backend, whatever the order of
  inputs, timers, flushes, answers and failures: one request
  at a time, each a repetition of the one that failed or a
  new one that builds on the last answer.

  Main declarations:
    * `SendOk`, `SessionProtocol`
    * `SessionOk`
    * `note_session_protocol`
-/

------------------------------------------------------------
-- Reading the History
------------------------------------------------------------

namespace S4Drive

/- The last request that has not been acknowledged. -/
def unacked : List SessionNote → Option SaveRequest
  | [] => none
  | .sent request :: _ => some request
  | .acked _ _ :: _ => none
  | _ :: older => unacked older

/- The last request came to an end by a failure. -/
def lastFailed : List SessionNote → Bool
  | [] => false
  | .failed _ :: _ => true
  | .sent _ :: _ => false
  | .acked _ _ :: _ => false
  | _ :: older => lastFailed older

/- No explicit flush came after the last failure. -/
def blockedIn : List SessionNote → Bool
  | [] => false
  | .failed _ :: _ => true
  | .flushed :: _ => false
  | _ :: older => blockedIn older

def ackedToken (note : OpenedNote) :
    List SessionNote → SaveToken
  | [] => note.token
  | .acked _ token :: _ => token
  | _ :: older => ackedToken note older

def ackedBody (note : OpenedNote) : List SessionNote → String
  | [] => note.body
  | .acked request _ :: _ => request.body
  | _ :: older => ackedBody note older

def typedBody (note : OpenedNote) : List SessionNote → String
  | [] => note.body
  | .typed body :: _ => body
  | _ :: older => typedBody note older

/- What a request is that is sent after `older`. -/
structure SendOk
    (note : OpenedNote)
    (older : List SessionNote)
    (request : SaveRequest) : Prop where
  unblocked : blockedIn older = false
  again :
    ∀ q, unacked older = some q →
      request = q ∧ lastFailed older = true
  token :
    unacked older = none →
      request.expected = ackedToken note older
  body :
    unacked older = none →
      request.body = typedBody note older
  sequence :
    unacked older = none →
      ∀ q, .sent q ∈ older → q.sequence < request.sequence

/- The request is sent and its answer is not there yet. -/
def InFlight (w : SessionWorld) (request : SaveRequest) : Prop :=
  ∃ drain, (drain, .sending request) ∈ w.drains

structure SessionProtocol
    (note : OpenedNote)
    (w : SessionWorld) : Prop where
  one :
    (w.drains.filter fun x => x.2 ≠ .settled).length ≤ 1
  sends :
    ∀ newer request older,
      w.history = newer ++ .sent request :: older →
        SendOk note older request
  clean :
    w.session.status = .clean →
      ackedBody note w.history = w.session.body

/- The fields of a session agree with its history. -/
structure Agrees
    (note : OpenedNote)
    (w : SessionWorld) : Prop where
  unacked : unacked w.history = w.session.pendingSnapshot
  token : w.session.token = ackedToken note w.history
  body : w.session.body = typedBody note w.history
  sent :
    ∀ q, .sent q ∈ w.history →
      w.session.pendingSnapshot = some q ∨
        q.sequence ≤ w.session.savedSequence
  saved : w.session.savedSequence ≤ w.session.editSequence
  pending :
    ∀ q, w.session.pendingSnapshot = some q →
      w.session.savedSequence < q.sequence ∧
        q.sequence ≤ w.session.editSequence ∧
        (q.sequence = w.session.editSequence →
          q.body = w.session.body)
  acked :
    w.session.pendingSnapshot = none →
      w.session.savedSequence = w.session.editSequence →
        ackedBody note w.history = w.session.body

structure SessionOk
    (note : OpenedNote)
    (w : SessionWorld) : Prop where
  drains :
    (w.drains = [] ∧ w.session.saving = none) ∨
      ∃ drain state, w.drains = [(drain, state)] ∧
        w.session.saving = some drain
  sending :
    ∀ q, InFlight w q →
      w.session.pendingSnapshot = some q ∧
        w.session.status ≠ .clean ∧
        w.session.saveBlocked = false
  blocked :
    w.session.destroyed = false →
      blockedIn w.history = true →
        w.session.saveBlocked = true
  shown :
    w.session.saveBlocked = true → w.session.status ≠ .clean
  agrees : w.session.destroyed = false → Agrees note w
  failed :
    w.session.destroyed = false →
      ∀ q, w.session.pendingSnapshot = some q →
        InFlight w q ∨ lastFailed w.history = true
  clean :
    w.session.status = .clean →
      ackedBody note w.history = w.session.body
  sends :
    ∀ newer request older,
      w.history = newer ++ .sent request :: older →
        SendOk note older request

variable {note : OpenedNote} {w w' : SessionWorld}

theorem SessionOk.protocol
    (h : SessionOk note w) : SessionProtocol note w where
  one := by
    rcases h.drains with ⟨hNone, _⟩ | ⟨drain, state, hOne, _⟩
    · rw [hNone]
      exact Nat.zero_le _
    · rw [hOne]
      exact List.length_filter_le _ _
  sends := h.sends
  clean := h.clean

theorem sessionOk_new (note : OpenedNote) :
    SessionOk note (.new note) where
  drains := .inl ⟨rfl, rfl⟩
  sending := by
    rintro q ⟨drain, hMem⟩
    cases hMem
  blocked := fun _ h => nomatch h
  shown := fun h => nomatch h
  agrees := fun _ =>
    { unacked := rfl
      token := rfl
      body := rfl
      sent := fun _ h => nomatch h
      saved := Nat.le_refl _
      pending := fun _ h => nomatch h
      acked := fun _ _ => rfl }
  failed := fun _ _ h => nomatch h
  clean := fun _ => rfl
  sends := by
    intro newer request older h
    cases newer <;> cases h

namespace SessionWorld

/- What the protocol depends on. -/
def savePart (w : SessionWorld) : SessionWorld :=
  { w with
    session := { w.session with
      error := none
      isComposing := false
      idleTimer := none
      checkpointTimer := none }
    armed := []
    nextDrain := 0
    nextTimer := 0 }

theorem savePart_clearTimeout (timer : Option TimerId) :
    (w.clearTimeout timer).savePart = w.savePart := by
  cases timer <;> rfl

theorem savePart_cancelTimers :
    w.cancelTimers.savePart = w.savePart := by
  have hFirst := savePart_clearTimeout (w := w)
    w.session.idleTimer
  have hThen :=
    savePart_clearTimeout
      (w := w.clearTimeout w.session.idleTimer)
      (w.clearTimeout
        w.session.idleTimer).session.checkpointTimer
  exact hThen.trans hFirst

/- The timers that a failure cancels do not matter. -/
theorem savePart_failed
    {drain : DrainId} {status : SessionStatus} :
    (((w.cancelTimers).setStatus status).setDrain drain
        .settled).savePart =
      ((w.setStatus status).setDrain drain
        .settled).savePart := by
  change (w.cancelTimers.savePart.setStatus status).setDrain
      drain .settled =
    (w.savePart.setStatus status).setDrain drain .settled
  rw [savePart_cancelTimers]

theorem savePart_armIdleTimer :
    w.armIdleTimer.savePart = w.savePart :=
  savePart_clearTimeout w.session.idleTimer

theorem savePart_armCheckpointTimer :
    w.armCheckpointTimer.savePart = w.savePart := by
  unfold armCheckpointTimer
  split <;> rfl

end SessionWorld

theorem Agrees.of_savePart
    (h : Agrees note w)
    (hSame : w'.savePart = w.savePart) : Agrees note w' := by
  have hPart : Agrees note w.savePart :=
    ⟨h.unacked, h.token, h.body, h.sent, h.saved, h.pending,
      h.acked⟩
  rw [← hSame] at hPart
  exact ⟨hPart.unacked, hPart.token, hPart.body, hPart.sent,
    hPart.saved, hPart.pending, hPart.acked⟩

theorem SessionOk.of_savePart
    (h : SessionOk note w)
    (hSame : w'.savePart = w.savePart) : SessionOk note w' := by
  have hPart : SessionOk note w.savePart :=
    ⟨h.drains, h.sending, h.blocked, h.shown,
      fun hLive => (h.agrees hLive).of_savePart rfl,
      h.failed, h.clean, h.sends⟩
  rw [← hSame] at hPart
  exact ⟨hPart.drains, hPart.sending, hPart.blocked,
    hPart.shown,
    fun hLive => (hPart.agrees hLive).of_savePart rfl,
    hPart.failed, hPart.clean, hPart.sends⟩

/- Only a new request has to be judged. -/
theorem sends_cons
    {entry : SessionNote} {history : List SessionNote}
    (hEntry :
      ∀ request, entry = .sent request →
        SendOk note history request)
    (hOld :
      ∀ newer request older,
        history = newer ++ .sent request :: older →
          SendOk note older request) :
    ∀ newer request older,
      entry :: history = newer ++ .sent request :: older →
        SendOk note older request := by
  intro newer request older h
  cases newer with
  | nil =>
      cases h
      exact hEntry request rfl
  | cons first newer =>
      cases h
      exact hOld newer request older rfl

theorem SessionOk.flushed
    (h : SessionOk note w) :
    SessionOk note (w.note .flushed) where
  drains := h.drains
  sending := h.sending
  blocked := fun _ hBlocked => nomatch hBlocked
  shown := h.shown
  agrees := by
    intro hLive
    have hAgrees := h.agrees hLive
    refine ⟨hAgrees.unacked, hAgrees.token, hAgrees.body, ?_,
      hAgrees.saved, hAgrees.pending, hAgrees.acked⟩
    intro q hSent
    rcases List.mem_cons.mp hSent with hNew | hOld
    · cases hNew
    · exact hAgrees.sent q hOld
  failed := h.failed
  clean := h.clean
  sends := sends_cons (fun _ hSent => nomatch hSent) h.sends

------------------------------------------------------------
-- Drains
------------------------------------------------------------

/- A drain that goes on, or that has just been started. -/
structure Draining
    (note : OpenedNote)
    (w : SessionWorld)
    (drain : DrainId) : Prop where
  alone : w.drains.filter (fun x => x.1 ≠ drain) = []
  saving : w.session.saving = some drain
  unblocked : w.session.saveBlocked = false
  quiet : blockedIn w.history = false
  live : w.session.destroyed = false
  agrees : Agrees note w
  failed :
    ∀ q, w.session.pendingSnapshot = some q →
      lastFailed w.history = true
  sends :
    ∀ newer request older,
      w.history = newer ++ .sent request :: older →
        SendOk note older request

/- A request of the drain is the failed one or a new one. -/
theorem Draining.sendOk
    {drain : DrainId} (requestId : Uuid)
    (h : Draining note w drain)
    (hUnsaved : w.session.hasUnsaved = true) :
    SendOk note w.history
      (w.session.pendingSnapshot.getD
        (snapshotOf requestId w.session)) := by
  have hAgrees := h.agrees
  constructor
  · exact h.quiet
  · intro q hUnacked
    rw [hAgrees.unacked] at hUnacked
    rw [hUnacked]
    exact ⟨rfl, h.failed q hUnacked⟩
  · intro hNone
    rw [hAgrees.unacked] at hNone
    rw [hNone]
    exact hAgrees.token
  · intro hNone
    rw [hAgrees.unacked] at hNone
    rw [hNone]
    exact hAgrees.body
  · intro hNone q hSent
    rw [hAgrees.unacked] at hNone
    rw [hNone]
    have hNew :
        w.session.savedSequence < w.session.editSequence := by
      simpa [NoteSession.hasUnsaved, hNone] using hUnsaved
    rcases hAgrees.sent q hSent with hPending | hSaved
    · rw [hNone] at hPending
      cases hPending
    · exact Nat.lt_of_le_of_lt hSaved hNew

/- The snapshot that is pending when the drain sends. -/
theorem Draining.pending
    {drain : DrainId} (requestId : Uuid) {q : SaveRequest}
    (h : Draining note w drain)
    (hUnsaved : w.session.hasUnsaved = true)
    (hSnapshot :
      w.session.pendingSnapshot.getD
        (snapshotOf requestId w.session) = q) :
    w.session.savedSequence < q.sequence ∧
      q.sequence ≤ w.session.editSequence ∧
      (q.sequence = w.session.editSequence →
        q.body = w.session.body) := by
  cases hPending : w.session.pendingSnapshot with
  | some p =>
      rw [hPending] at hSnapshot
      cases hSnapshot
      exact h.agrees.pending p hPending
  | none =>
      rw [hPending] at hSnapshot
      cases hSnapshot
      have hNew :
          w.session.savedSequence < w.session.editSequence := by
        simpa [NoteSession.hasUnsaved, hPending] using hUnsaved
      exact ⟨hNew, Nat.le_refl _, fun _ => rfl⟩

variable {drain : DrainId} {requestId : Uuid}

theorem Draining.drainLoop
    (h : Draining note w drain) :
    SessionOk note (w.drainLoop requestId drain) := by
  have hAgrees := h.agrees
  unfold SessionWorld.drainLoop
  split
  · rename_i hGo
    have hUnsaved : w.session.hasUnsaved = true := by
      simp only [Bool.and_eq_true] at hGo
      exact hGo.2
    have hSend := h.sendOk requestId hUnsaved
    have hPending := fun q : SaveRequest =>
      h.pending requestId (q := q) hUnsaved
    generalize hSnapshot :
      w.session.pendingSnapshot.getD
        (snapshotOf requestId w.session) = snapshot at hSend
    dsimp only [SessionWorld.setStatus, SessionWorld.setDrain,
      SessionWorld.note]
    have hSame :
        w.session.pendingSnapshot.getD
          (snapshotOf requestId
            { w.session with status := .saving }) =
          snapshot :=
      hSnapshot
    rw [hSame, h.alone]
    constructor
    · exact .inr ⟨drain, _, rfl, h.saving⟩
    · rintro q ⟨d, hMem⟩
      cases List.mem_singleton.mp hMem
      exact ⟨rfl, (nomatch ·), h.unblocked⟩
    · intro _ hBlocked
      exact absurd (h.quiet.symm.trans hBlocked) (by simp)
    · intro hBlocked
      exact absurd (h.unblocked.symm.trans hBlocked) (by simp)
    · intro _
      constructor
      · rfl
      · exact hAgrees.token
      · exact hAgrees.body
      · intro q hSent
        rcases List.mem_cons.mp hSent with hNew | hOld
        · cases hNew
          exact .inl rfl
        · rcases hAgrees.sent q hOld with hPend | hSaved
          · rw [hPend] at hSnapshot
            cases hSnapshot
            exact .inl rfl
          · exact .inr hSaved
      · exact hAgrees.saved
      · intro q hq
        cases hq
        exact hPending _ hSnapshot
      · exact fun hNone => nomatch hNone
    · intro _ q hq
      cases hq
      exact .inl ⟨drain, List.mem_singleton.mpr rfl⟩
    · exact fun hClean => nomatch hClean
    · apply sends_cons _ h.sends
      rintro request hSent
      cases hSent
      exact hSend
  · rename_i hStop
    have hSaved : w.session.hasUnsaved = false := by
      simpa [h.live] using hStop
    simp only [NoteSession.hasUnsaved, Bool.or_eq_false_iff,
      decide_eq_false_iff_not, Nat.not_lt,
      Option.isSome_eq_false_iff, Option.isNone_iff_eq_none]
      at hSaved
    have hSequence :
        w.session.savedSequence = w.session.editSequence :=
      Nat.le_antisymm hAgrees.saved hSaved.2
    have hBody := hAgrees.acked hSaved.1 hSequence
    rw [h.live]
    dsimp only [SessionWorld.setStatus, SessionWorld.setDrain,
      Bool.false_eq_true, if_false]
    rw [h.alone]
    constructor
    · exact .inr ⟨drain, _, rfl, h.saving⟩
    · rintro q ⟨d, hMem⟩
      cases List.mem_singleton.mp hMem
    · intro _ hBlocked
      exact absurd (h.quiet.symm.trans hBlocked) (by simp)
    · intro hBlocked
      exact absurd (h.unblocked.symm.trans hBlocked) (by simp)
    · intro _
      exact ⟨hAgrees.unacked, hAgrees.token, hAgrees.body,
        hAgrees.sent, hAgrees.saved, hAgrees.pending,
        hAgrees.acked⟩
    · exact fun _ q hq => .inr (h.failed q hq)
    · exact fun _ => hBody
    · exact h.sends

/- The promise is stored when the loop has run. -/
theorem SessionWorld.drainLoop_hold
    {promise : Option DrainId} :
    (w.drainLoop requestId drain).hold promise =
      (w.hold promise).drainLoop requestId drain := by
  unfold drainLoop
  by_cases hGo :
      (!w.session.destroyed && w.session.hasUnsaved) = true
  · rw [if_pos hGo]
    exact (if_pos hGo).symm
  · rw [if_neg hGo]
    by_cases hGone : w.session.destroyed = true
    · rw [if_pos hGone]
      exact ((if_neg hGo).trans (if_pos hGone)).symm
    · rw [if_neg hGone]
      exact ((if_neg hGo).trans (if_neg hGone)).symm

/- A drain that is found is the only one, and is held. -/
theorem only_drain
    {state : DrainState}
    (hDrains :
      (w.drains = [] ∧ w.session.saving = none) ∨
        ∃ drain state, w.drains = [(drain, state)] ∧
          w.session.saving = some drain)
    (hDrain : w.drains.lookup drain = some state) :
    w.drains = [(drain, state)] ∧
      w.session.saving = some drain := by
  rcases hDrains with ⟨hNone, _⟩ | ⟨d, x, hOne, hSaving⟩
  · rw [hNone] at hDrain
    cases hDrain
  · rw [hOne] at hDrain ⊢
    by_cases hSame : drain = d
    · subst hSame
      simp only [List.lookup_cons_self, Option.some.injEq]
        at hDrain
      rw [hDrain]
      exact ⟨rfl, hSaving⟩
    · have hOther : (drain == d) = false := by
        simpa using hSame
      simp [List.lookup_cons, hOther] at hDrain

theorem no_drain
    (hDrains :
      (w.drains = [] ∧ w.session.saving = none) ∨
        ∃ drain state, w.drains = [(drain, state)] ∧
          w.session.saving = some drain)
    (hNone : w.session.saving = none) : w.drains = [] := by
  rcases hDrains with ⟨hEmpty, _⟩ | ⟨d, x, _, hSaving⟩
  · exact hEmpty
  · rw [hNone] at hSaving
    cases hSaving

/- Every running drain is the only one. -/
theorem SessionOk.of_lookup
    {state : DrainState}
    (h : SessionOk note w)
    (hDrain : w.drains.lookup drain = some state) :
    w.drains = [(drain, state)] ∧
      w.session.saving = some drain :=
  only_drain h.drains hDrain

theorem SessionOk.drainSave
    (h : SessionOk note w)
    (hLive : w.session.destroyed = false)
    (hBlocked : w.session.saveBlocked = false) :
    SessionOk note (w.drainSave requestId) := by
  unfold SessionWorld.drainSave
  split
  · exact h
  · rename_i hNone
    have hDrains : w.drains = [] := no_drain h.drains hNone
    have hQuiet : blockedIn w.history = false := by
      cases hFound : blockedIn w.history with
      | false => rfl
      | true =>
          exact (h.blocked hLive hFound).symm.trans hBlocked
    have hStart :
        Draining note
          (SessionWorld.hold
            { w with nextDrain := w.nextDrain + 1 }
            (some w.nextDrain)) w.nextDrain := by
      constructor
      · exact congrArg (List.filter _) hDrains
      · rfl
      · exact hBlocked
      · exact hQuiet
      · exact hLive
      · have hAgrees := h.agrees hLive
        exact ⟨hAgrees.unacked, hAgrees.token, hAgrees.body,
          hAgrees.sent, hAgrees.saved, hAgrees.pending,
          hAgrees.acked⟩
      · intro q hq
        rcases h.failed hLive q hq with ⟨d, hMem⟩ | hFailed
        · rw [hDrains] at hMem
          cases hMem
        · exact hFailed
      · exact h.sends
    dsimp only
    rw [SessionWorld.drainLoop_hold]
    exact hStart.drainLoop

theorem SessionOk.unblock
    (h : SessionOk note w)
    (hQuiet :
      w.session.destroyed = false →
        blockedIn w.history = false) :
    SessionOk note
      { w with
        session := { w.session with saveBlocked := false } } where
  drains := h.drains
  sending := fun q hq =>
    ⟨(h.sending q hq).1, (h.sending q hq).2.1, rfl⟩
  blocked := fun hLive hBlocked =>
    absurd ((hQuiet hLive).symm.trans hBlocked) (by simp)
  shown := fun hBlocked => nomatch hBlocked
  agrees := by
    intro hLive
    have hAgrees := h.agrees hLive
    exact ⟨hAgrees.unacked, hAgrees.token, hAgrees.body,
      hAgrees.sent, hAgrees.saved, hAgrees.pending,
      hAgrees.acked⟩
  failed := h.failed
  clean := h.clean
  sends := h.sends

theorem SessionOk.flush
    (h : SessionOk note w)
    (hQuiet :
      w.session.destroyed = false →
        blockedIn w.history = false) :
    SessionOk note (w.flush requestId) := by
  have hSame := SessionWorld.savePart_cancelTimers (w := w)
  have hCancelled := h.of_savePart hSame
  unfold SessionWorld.flush
  dsimp only
  split
  · exact hCancelled
  · rename_i hLive
    rw [Bool.not_eq_true] at hLive
    have hPart : w.cancelTimers.savePart = w.savePart := hSame
    have hHistory : w.cancelTimers.history = w.history := by
      change w.cancelTimers.savePart.history = w.history
      rw [hPart]
      rfl
    have hThere : w.session.destroyed = false := by
      change w.savePart.session.destroyed = false
      rw [← hPart]
      exact hLive
    apply SessionOk.drainSave
    · apply hCancelled.unblock
      intro _
      rw [hHistory]
      exact hQuiet hThere
    · exact hLive
    · rfl

theorem SessionOk.explicitFlush
    (h : SessionOk note w) :
    SessionOk note (w.explicitFlush requestId) :=
  h.flushed.flush fun _ => rfl

theorem SessionOk.autoSave
    (h : SessionOk note w) :
    SessionOk note (w.autoSave requestId) := by
  unfold SessionWorld.autoSave
  split
  · exact h
  · rename_i hFree
    split
    · exact h
    · apply h.flush
      intro hLive
      simp only [Bool.or_eq_true, not_or, Bool.not_eq_true]
        at hFree
      cases hFound : blockedIn w.history with
      | false => rfl
      | true =>
          exact (h.blocked hLive hFound).symm.trans hFree.1

------------------------------------------------------------
-- Answers
------------------------------------------------------------

variable {snapshot : SaveRequest}

/- The answer that the session waits for has come. -/
theorem SessionOk.sendingOf
    (h : SessionOk note w)
    (hDrain :
      w.drains.lookup drain = some (.sending snapshot)) :
    w.session.pendingSnapshot = some snapshot ∧
      w.session.status ≠ .clean ∧
      w.session.saveBlocked = false := by
  apply h.sending snapshot
  exact ⟨drain, by
    rw [(h.of_lookup hDrain).1]
    exact List.mem_singleton.mpr rfl⟩

/- A destroyed session ignores how its last request ends. -/
theorem SessionOk.ignore
    {entry : SessionNote}
    (h : SessionOk note w)
    (hDrain :
      w.drains.lookup drain = some (.sending snapshot))
    (hEntry : ∀ request, entry ≠ .sent request)
    (hGone : w.session.destroyed = true) :
    SessionOk note ((w.note entry).setDrain drain .settled) := by
  have hOne := h.of_lookup hDrain
  have hSending := h.sendingOf hDrain
  dsimp only [SessionWorld.setDrain, SessionWorld.note]
  rw [hOne.1]
  have hAlone :
      [(drain, DrainState.sending snapshot)].filter
        (fun x => x.1 ≠ drain) = [] := by
    simp
  rw [hAlone]
  constructor
  · exact .inr ⟨drain, _, rfl, hOne.2⟩
  · rintro q ⟨d, hMem⟩
    cases List.mem_singleton.mp hMem
  · exact fun hLive => absurd (hGone.symm.trans hLive) (by simp)
  · exact h.shown
  · exact fun hLive => absurd (hGone.symm.trans hLive) (by simp)
  · exact fun hLive => absurd (hGone.symm.trans hLive) (by simp)
  · exact fun hClean => absurd hClean hSending.2.1
  · exact sends_cons (fun r hr => absurd hr (hEntry r)) h.sends

theorem SessionOk.acknowledge
    {token : SaveToken}
    (h : SessionOk note w)
    (hDrain :
      w.drains.lookup drain = some (.sending snapshot)) :
    SessionOk note
      (w.acknowledge requestId drain snapshot token) := by
  have hOne := h.of_lookup hDrain
  have hSending := h.sendingOf hDrain
  unfold SessionWorld.acknowledge
  dsimp only
  split
  · rename_i hGone
    apply h.ignore hDrain
    · exact fun _ hSent => nomatch hSent
    · exact hGone
  · rename_i hThere
    have hLive : w.session.destroyed = false :=
      Bool.eq_false_iff.mpr hThere
    have hQuiet : blockedIn w.history = false := by
      cases hFound : blockedIn w.history with
      | false => rfl
      | true =>
          exact (h.blocked hLive hFound).symm.trans
            hSending.2.2
    have hAgrees := h.agrees hLive
    have hPending := hAgrees.pending snapshot hSending.1
    apply Draining.drainLoop
    constructor
    · dsimp only [SessionWorld.note]
      rw [hOne.1]
      simp
    · exact hOne.2
    · exact hSending.2.2
    · exact hQuiet
    · exact hLive
    · constructor
      · rfl
      · rfl
      · exact hAgrees.body
      · intro q hSent
        right
        rcases List.mem_cons.mp hSent with hNew | hOld
        · cases hNew
        · rcases hAgrees.sent q hOld with hPend | hSaved
          · rw [hSending.1] at hPend
            cases hPend
            exact Nat.le_refl _
          · exact Nat.le_trans hSaved (Nat.le_of_lt hPending.1)
      · exact hPending.2.1
      · exact fun _ hNone => nomatch hNone
      · exact fun _ hLast => hPending.2.2 hLast
    · exact fun _ hNone => nomatch hNone
    · exact sends_cons (fun _ hSent => nomatch hSent) h.sends

/- A failure blocks the timers and keeps the request. -/
theorem SessionOk.failSave
    {e : SaveError}
    (h : SessionOk note w)
    (hDrain :
      w.drains.lookup drain = some (.sending snapshot)) :
    SessionOk note (w.failSave drain snapshot e) := by
  have hOne := h.of_lookup hDrain
  have hSending := h.sendingOf hDrain
  unfold SessionWorld.failSave
  dsimp only
  split
  · rename_i hGone
    apply h.ignore hDrain
    · exact fun _ hSent => nomatch hSent
    · exact hGone
  · rename_i hThere
    have hLive : w.session.destroyed = false :=
      Bool.eq_false_iff.mpr hThere
    have hAgrees := h.agrees hLive
    have hStatus :
        (if e = .staleWrite then SessionStatus.stale
          else .error) ≠ .clean := by
      split <;> simp
    -- The timers that it cancels do not matter.
    have hKept :
        SessionOk note
          (SessionWorld.setDrain
            { (w.note (.failed snapshot)) with
              session := { w.session with
                saveBlocked := true
                status :=
                  if e = .staleWrite then .stale else .error } }
            drain .settled) := by
      dsimp only [SessionWorld.setDrain, SessionWorld.note]
      rw [hOne.1]
      have hAlone :
          [(drain, DrainState.sending snapshot)].filter
            (fun x => x.1 ≠ drain) = [] := by
        simp
      rw [hAlone]
      constructor
      · exact .inr ⟨drain, _, rfl, hOne.2⟩
      · rintro q ⟨d, hMem⟩
        cases List.mem_singleton.mp hMem
      · exact fun _ _ => rfl
      · exact fun _ => hStatus
      · intro _
        refine ⟨hAgrees.unacked, hAgrees.token, hAgrees.body,
          ?_, hAgrees.saved, hAgrees.pending, hAgrees.acked⟩
        intro q hSent
        rcases List.mem_cons.mp hSent with hNew | hOld
        · cases hNew
        · exact hAgrees.sent q hOld
      · exact fun _ _ _ => .inr rfl
      · exact fun hClean => absurd hClean hStatus
      · exact sends_cons (fun _ hSent => nomatch hSent) h.sends
    apply hKept.of_savePart
    exact SessionWorld.savePart_failed

theorem SessionOk.onInput
    {newBody : String}
    (h : SessionOk note w) :
    SessionOk note (w.onInput newBody) := by
  unfold SessionWorld.onInput
  split
  · exact h
  · rename_i hThere
    have hLive : w.session.destroyed = false :=
      Bool.eq_false_iff.mpr hThere
    have hAgrees := h.agrees hLive
    split
    · exact h
    · have hTyped (status : SessionStatus)
          (hStatus : status ≠ .clean) :
          SessionOk note
            { (w.note (.typed newBody)) with
              session := { w.session with
                body := newBody
                editSequence := w.session.editSequence + 1
                status := status } } := by
        constructor
        · exact h.drains
        · intro q hq
          have hSending := h.sending q hq
          exact ⟨hSending.1, hStatus, hSending.2.2⟩
        · exact h.blocked
        · exact fun _ => hStatus
        · intro _
          constructor
          · exact hAgrees.unacked
          · exact hAgrees.token
          · rfl
          · intro q hSent
            rcases List.mem_cons.mp hSent with hNew | hOld
            · cases hNew
            · exact hAgrees.sent q hOld
          · exact Nat.le_succ_of_le hAgrees.saved
          · intro q hq
            have hPending := hAgrees.pending q hq
            refine ⟨hPending.1,
              Nat.le_succ_of_le hPending.2.1, ?_⟩
            intro hLast
            dsimp only at hLast
            omega
          · intro _ hSaved
            have hLe := hAgrees.saved
            dsimp only at hSaved
            omega
        · exact h.failed
        · exact fun hClean => absurd hClean hStatus
        · exact sends_cons (fun _ hSent => nomatch hSent)
            h.sends
      dsimp only [SessionWorld.note]
      split
      · rename_i hBlocked
        have hShown : w.session.status ≠ .clean :=
          h.shown hBlocked
        exact hTyped w.session.status hShown
      · have hDirty := hTyped .dirty (by simp)
        split
        · exact hDirty
        · apply hDirty.of_savePart
          rw [SessionWorld.savePart_armCheckpointTimer,
            SessionWorld.savePart_armIdleTimer]
          rfl

theorem SessionOk.destroy
    (h : SessionOk note w) : SessionOk note w.destroy := by
  have hGone :
      SessionOk note
        { w with
          session := { w.session with destroyed := true } } := by
    constructor
    · exact h.drains
    · exact h.sending
    · exact fun hLive => nomatch hLive
    · exact h.shown
    · exact fun hLive => nomatch hLive
    · exact fun hLive => nomatch hLive
    · exact h.clean
    · exact h.sends
  exact hGone.of_savePart SessionWorld.savePart_cancelTimers

/- `drainSave` goes on and forgets the promise. -/
theorem SessionOk.resume
    (h : SessionOk note w)
    (hDrain : w.drains.lookup drain = some .settled) :
    SessionOk note
      { (w.hold none) with
        drains := w.drains.filter fun x => x.1 ≠ drain } := by
  have hOne := h.of_lookup hDrain
  rw [hOne.1]
  have hAlone :
      [(drain, DrainState.settled)].filter
        (fun x => x.1 ≠ drain) = [] := by
    simp
  rw [hAlone]
  constructor
  · exact .inl ⟨rfl, rfl⟩
  · rintro q ⟨d, hMem⟩
    cases hMem
  · exact h.blocked
  · exact h.shown
  · intro hLive
    have hAgrees := h.agrees hLive
    exact ⟨hAgrees.unacked, hAgrees.token, hAgrees.body,
      hAgrees.sent, hAgrees.saved, hAgrees.pending,
      hAgrees.acked⟩
  · intro hLive q hq
    right
    rcases h.failed hLive q hq with ⟨d, hMem⟩ | hFailed
    · rw [hOne.1] at hMem
      cases List.mem_singleton.mp hMem
    · exact hFailed
  · exact h.clean
  · exact h.sends

/- What a property of sessions needs to be kept by them. -/
structure SessionRules (I : SessionWorld → Prop) : Prop where
  same : ∀ {w w'}, I w → w'.savePart = w.savePart → I w'
  explicitFlush :
    ∀ {w requestId}, I w → I (w.explicitFlush requestId)
  autoSave : ∀ {w requestId}, I w → I (w.autoSave requestId)
  acknowledge :
    ∀ {w requestId drain snapshot token}, I w →
      w.drains.lookup drain = some (.sending snapshot) →
        I (w.acknowledge requestId drain snapshot token)
  failSave :
    ∀ {w drain snapshot e}, I w →
      w.drains.lookup drain = some (.sending snapshot) →
        I (w.failSave drain snapshot e)
  resume :
    ∀ {w drain}, I w →
      w.drains.lookup drain = some .settled →
        I { (w.hold none) with
          drains := w.drains.filter fun x => x.1 ≠ drain }
  destroy : ∀ {w}, I w → I w.destroy

theorem SessionRules.step
    {I : SessionWorld → Prop} {event : SessionEvent}
    (hRules : SessionRules I)
    (h : I w)
    (hInput : ∀ body, event = .input body → I (w.onInput body))
    (hStep : w.step event = some w') : I w' := by
  cases event with
  | input body =>
      cases hStep
      exact hInput body rfl
  | compositionStart =>
      cases hStep
      exact hRules.same h rfl
  | compositionEnd =>
      cases hStep
      unfold SessionWorld.onCompositionEnd
      dsimp only
      split
      · apply hRules.same h
        rw [SessionWorld.savePart_armIdleTimer]
        rfl
      · exact hRules.same h rfl
  | timer id requestId =>
      unfold SessionWorld.step at hStep
      dsimp only at hStep
      split at hStep
      · cases hStep
        apply hRules.autoSave
        exact hRules.same h rfl
      · cases hStep
  | flush requestId =>
      cases hStep
      exact hRules.explicitFlush h
  | save requestId =>
      cases hStep
      unfold SessionWorld.save
      split
      · exact h
      · exact hRules.explicitFlush h
  | ack drain token requestId =>
      unfold SessionWorld.step at hStep
      dsimp only at hStep
      split at hStep
      · rename_i snapshot hDrain
        cases hStep
        exact hRules.acknowledge h hDrain
      · cases hStep
  | fail drain e =>
      unfold SessionWorld.step at hStep
      dsimp only at hStep
      split at hStep
      · rename_i snapshot hDrain
        cases hStep
        exact hRules.failSave h hDrain
      · cases hStep
  | resume drain =>
      unfold SessionWorld.step at hStep
      dsimp only at hStep
      split at hStep
      · rename_i hDrain
        cases hStep
        exact hRules.resume h hDrain
      · cases hStep
  | destroy =>
      cases hStep
      exact hRules.destroy h

theorem sessionOk_rules : SessionRules (SessionOk note) where
  same := SessionOk.of_savePart
  explicitFlush := SessionOk.explicitFlush
  autoSave := SessionOk.autoSave
  acknowledge := SessionOk.acknowledge
  failSave := SessionOk.failSave
  resume := SessionOk.resume
  destroy := SessionOk.destroy

theorem SessionOk.step
    {event : SessionEvent}
    (h : SessionOk note w)
    (hStep : w.step event = some w') : SessionOk note w' :=
  sessionOk_rules.step h (fun _ _ => h.onInput) hStep

theorem SessionOk.run
    {events : List SessionEvent}
    (h : SessionOk note w)
    (hRun : w.run events = some w') : SessionOk note w' := by
  induction events generalizing w with
  | nil =>
      cases hRun
      exact h
  | cons event rest ih =>
      unfold SessionWorld.run at hRun
      split at hRun
      · cases hRun
      · rename_i next hStep
        exact ih (h.step hStep) hRun

/- Every sequence of events keeps to the protocol. -/
theorem note_session_protocol
    {events : List SessionEvent}
    (hRun : (SessionWorld.new note).run events = some w) :
    SessionProtocol note w :=
  ((sessionOk_new note).run hRun).protocol

/-
  The answer to a save is lost while the user types on; the
  explicit retry repeats the request and then saves the rest.
-/
def sampleNote : OpenedNote :=
  ⟨1, 2, "", ⟨1, "h1"⟩⟩

def lostAnswer : List SessionEvent :=
  [.input "A", .timer 0 10, .fail 0 (.other "lost"),
    .resume 0, .input "AB", .flush 11, .ack 1 ⟨2, "hA"⟩ 12,
    .ack 1 ⟨3, "hAB"⟩ 13, .resume 1]

theorem lost_answer_is_retried :
    ∃ w,
      (SessionWorld.new sampleNote).run lostAnswer = some w ∧
        w.session.status = .clean ∧
        w.session.body = "AB" ∧
        SessionProtocol sampleNote w := by
  have trace :
      ((SessionWorld.new sampleNote).run lostAnswer).any
        (fun w => decide (w.session.status = .clean) &&
          decide (w.session.body = "AB")) = true := by
    decide +kernel
  rw [Option.any_eq_true] at trace
  rcases trace with ⟨w, hRun, hTest⟩
  simp only [Bool.and_eq_true, decide_eq_true_eq] at hTest
  exact ⟨w, hRun, hTest.1, hTest.2,
    note_session_protocol hRun⟩

end S4Drive

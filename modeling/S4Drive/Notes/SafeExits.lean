import S4Drive.Notes.ExitCoordinator

/-
  What an exit can do. It ends the process only on a yes to
  the handshake that was pending, or without a window, and
  there is one handshake at a time. One that is cancelled
  leaves the app as it was if the sync had been paused before
  and the automatic sync has not woken up in the meantime:
  nothing takes back the pause, and nothing restarts a loop.

  Main declarations:
    * `Answered`, `Confirmed`
    * `startedLatch`, `progressLatch`, `ExitInv`
    * `SafelyLeft`, `HarmlessExit`
    * `safelyLeft_of_run`
-/

------------------------------------------------------------
-- Phases
------------------------------------------------------------

namespace S4Drive

open Concurrency

namespace ExitPhase

/- The request has set `exit_started`, and may clear it. -/
def owns : ExitPhase → Bool
  | idle | returned => false
  | _ => true

/- The request has set `exit_in_progress`. -/
def inProgress : ExitPhase → Bool
  | register _ | findWindow _ | awaitAck _ => true
  | clearWindowless _ | clearAnswered _ _ => true
  | allowExit _ | exit _ | left => true
  | clearInProgress => true
  | _ => false

/- The handshake of the request is the pending one. -/
def handshaking : ExitPhase → Bool
  | findWindow _ | awaitAck _ => true
  | clearWindowless _ | clearAnswered _ _ => true
  | _ => false

theorem owns_of_inProgress
    {p : ExitPhase}
    (h : p.inProgress = true) : p.owns = true := by
  cases p with
  | idle => cases h
  | returned => cases h
  | _ => rfl

theorem inProgress_of_handshaking
    {p : ExitPhase}
    (h : p.handshaking = true) : p.inProgress = true := by
  cases p with
  | findWindow | awaitAck | clearWindowless | clearAnswered =>
      rfl
  | _ => cases h

end ExitPhase

------------------------------------------------------------
-- Answers
------------------------------------------------------------

namespace ExitState

/-
  An answer to the handshake with the id that was pending,
  with its id and its session generation.
-/
def Answered
    (w : ExitState)
    (id : Uuid)
    (success : Bool) : Prop :=
  ∃ a h, (a, some h) ∈ w.acks ∧ a.success = success ∧
    a.closeRequestId = id ∧ h.closeRequestId = id ∧
    h.sessionGeneration = a.sessionGeneration

/- A yes, or no window to ask. -/
def Confirmed (w : ExitState) (id : Uuid) : Prop :=
  w.Answered id true ∨ id ∈ w.windowless

end ExitState

open ExitState

/-
  An exit has paused a sync that was not paused, or the
  automatic sync has woken up during an exit.
-/
def ExitState.Disturbed (w : ExitState) : Prop :=
  w.pausedByExit = true ∨ w.wokeInExit = true

/- Nothing that is noted is taken back. -/
structure NotesMore (w w' : ExitState) : Prop where
  acks : ∀ x ∈ w.acks, x ∈ w'.acks
  windowless : ∀ id ∈ w.windowless, id ∈ w'.windowless
  disturbed : w.Disturbed → w'.Disturbed

namespace NotesMore

variable {w w' : ExitState} {id : Uuid} {success : Bool}

theorem answered
    (h : NotesMore w w')
    (hAnswered : w.Answered id success) :
    w'.Answered id success := by
  rcases hAnswered with ⟨a, pending, hNoted, hRest⟩
  exact ⟨a, pending, h.acks _ hNoted, hRest⟩

theorem confirmed
    (h : NotesMore w w')
    (hConfirmed : w.Confirmed id) : w'.Confirmed id := by
  rcases hConfirmed with hAnswered | hWindowless
  · exact .inl (h.answered hAnswered)
  · exact .inr (h.windowless id hWindowless)

end NotesMore

/- What the task of an exit has learnt so far. -/
def ExitPhase.Sound
    (w : ExitState) : ExitPhase → Prop
  | .clearAnswered id (.answered success) =>
      w.Answered id success
  | .clearWindowless id => id ∈ w.windowless
  | .allowExit id | .exit id => w.Confirmed id
  | _ => True

theorem ExitPhase.Sound.mono
    {p : ExitPhase} {w w' : ExitState}
    (hMore : NotesMore w w')
    (h : p.Sound w) : p.Sound w' := by
  cases p with
  | clearAnswered id result =>
      cases result with
      | answered success => exact hMore.answered h
      | disconnected => trivial
      | timedOut => trivial
  | clearWindowless id => exact hMore.windowless id h
  | allowExit id => exact hMore.confirmed h
  | exit id => exact hMore.confirmed h
  | _ => trivial

/- What the cells say is backed by what is noted. -/
structure Backed (w : ExitState) : Prop where
  sender : ∀ h channel, w.activeHandshake = some h →
    h.ackTx = some channel → channel = h.closeRequestId
  sent : ∀ id success,
    w.channels id = some (.sent success) →
      w.Answered id success
  allowed : w.allowExit = true → ∃ id, w.Confirmed id
  exited : w.exited = true → ∃ id, w.Confirmed id

namespace ExitState

variable {w : ExitState} {id other : Uuid} {success : Bool}

theorem sent_of_setChannel
    {c : AckChannel}
    (hEmpty : c ≠ .sent success)
    (h : (w.setChannel id c).channels other =
      some (.sent success)) :
    w.channels other = some (.sent success) := by
  by_cases hId : other = id
  · subst hId
    simp only [setChannel, Function.update_self,
      Option.some.injEq] at h
    exact absurd h hEmpty
  · simpa [setChannel, hId] using h

/- Dropping a sender at most closes a channel. -/
theorem dropSender_eq (w : ExitState) :
    ∃ channels, w.dropSender = { w with channels := channels } ∧
      ∀ id success, channels id = some (.sent success) →
        w.channels id = some (.sent success) := by
  unfold dropSender
  split
  · exact ⟨w.channels, rfl, fun _ _ h => h⟩
  · exact ⟨_, rfl, fun _ _ h => sent_of_setChannel (by simp) h⟩

theorem notesMore_clearHandshake :
    NotesMore w w.clearHandshake := by
  rcases dropSender_eq w with ⟨channels, hDropped, _⟩
  unfold clearHandshake
  rw [hDropped]
  exact ⟨fun _ h => h, fun _ h => h, fun h => h⟩

theorem notesMore_setHandshake (generation : Nat) :
    NotesMore w (w.setHandshake id generation) := by
  rcases dropSender_eq w with ⟨channels, hDropped, _⟩
  unfold setHandshake
  rw [hDropped]
  exact ⟨fun _ h => h, fun _ h => h, fun h => h⟩

theorem handleAck_cases (w : ExitState) (a : FlushAck) :
    handleAck w a = w ∨
      ∃ h channel, w.activeHandshake = some h ∧
        h.closeRequestId = a.closeRequestId ∧
        h.sessionGeneration = a.sessionGeneration ∧
        h.ackTx = some channel ∧
        handleAck w a =
          { w.setChannel channel (.sent a.success) with
            activeHandshake := some { h with ackTx := none } } := by
  unfold handleAck
  split
  · exact .inl rfl
  · rename_i h hPending
    split
    · rename_i hSame
      split
      · exact .inl rfl
      · rename_i channel hTx
        exact .inr ⟨h, channel, hPending, hSame.1, hSame.2,
          hTx, rfl⟩
    · exact .inl rfl

/- Everything but an ack leaves alone what an exit uses. -/
structure Outside (w w' : ExitState) : Prop where
  exitStarted : w'.exitStarted = w.exitStarted
  exitInProgress : w'.exitInProgress = w.exitInProgress
  allowExit : w'.allowExit = w.allowExit
  activeHandshake : w'.activeHandshake = w.activeHandshake
  channels : w'.channels = w.channels
  acks : w'.acks = w.acks
  windowless : w'.windowless = w.windowless
  disturbed : w.Disturbed → w'.Disturbed
  disturbedBy : w'.Disturbed →
    w.Disturbed ∨ w.exitStarted = true
  exited : w'.exited = true →
    w.exited = true ∨ w.allowExit = true

theorem env_cases
    {e : ExitEvent} {w' : ExitState}
    (h : env e w = some w') :
    (∃ a, e = .ack a ∧ w' = handleAck (w.noteAck a) a) ∨
      w.Outside w' := by
  cases e with
  | ack a =>
      cases h
      exact .inl ⟨a, rfl, rfl⟩
  | togglePause call =>
      rw [env] at h
      split at h
      · cases h
        exact .inr ⟨rfl, rfl, rfl, rfl, rfl, rfl, rfl,
        fun h => h, .inl, .inl⟩
      · cases h
  | resumeSync call =>
      rw [env] at h
      split at h
      · cases h
        exact .inr ⟨rfl, rfl, rfl, rfl, rfl, rfl, rfl,
        fun h => h, .inl, .inl⟩
      · cases h
  | writePaused call =>
      rw [env] at h
      split at h
      · cases h
      · cases h
        exact .inr ⟨rfl, rfl, rfl, rfl, rfl, rfl, rfl,
        fun h => h, .inl, .inl⟩
  | wakeLoop k =>
      rcases Option.map_eq_some_iff.mp h with ⟨l, _, rfl⟩
      cases k with
      | autoSync =>
          refine .inr ⟨rfl, rfl, rfl, rfl, rfl, rfl, rfl,
            ?_, ?_, .inl⟩
          · rintro (hPaused | hWoke)
            · exact .inl hPaused
            · refine .inr ?_
              simp [setLoop, noteWake, hWoke]
          · rintro (hPaused | hWoke)
            · exact .inl (.inl hPaused)
            · rcases Bool.or_eq_true_iff.mp hWoke with
                hBefore | hNow
              · exact .inl (.inr hBefore)
              · exact .inr hNow
      | trayAnimation =>
          exact .inr ⟨rfl, rfl, rfl, rfl, rfl, rfl, rfl,
            fun h => h, .inl, .inl⟩
  | sleepLoop k =>
      rcases Option.map_eq_some_iff.mp h with ⟨l, _, rfl⟩
      exact .inr ⟨rfl, rfl, rfl, rfl, rfl, rfl, rfl,
        fun h => h, .inl, .inl⟩
  | exitRequested =>
      cases h
      refine .inr ⟨rfl, rfl, rfl, rfl, rfl, rfl, rfl,
        fun h => h, .inl, ?_⟩
      intro hExited
      simpa using hExited
  | _ =>
      cases h
      exact .inr ⟨rfl, rfl, rfl, rfl, rfl, rfl, rfl,
        fun h => h, .inl, .inl⟩

end ExitState

variable {w w' : ExitState} {e : ExitEvent}

theorem env_flags
    (h : env e w = some w') :
    w'.exitStarted = w.exitStarted ∧
      w'.exitInProgress = w.exitInProgress ∧
      w'.activeHandshake.isSome = w.activeHandshake.isSome := by
  rcases env_cases h with ⟨a, rfl, rfl⟩ | hOutside
  · rcases handleAck_cases (w.noteAck a) a with
      hSame | ⟨h, channel, hPending, _, _, _, hSent⟩
    · rw [hSame]
      exact ⟨rfl, rfl, rfl⟩
    · have hPending : w.activeHandshake = some h := hPending
      rw [hSent]
      exact ⟨rfl, rfl, by simp [hPending]⟩
  · exact ⟨hOutside.exitStarted, hOutside.exitInProgress,
      congrArg Option.isSome hOutside.activeHandshake⟩

theorem env_notesMore
    (h : env e w = some w') : NotesMore w w' := by
  rcases env_cases h with ⟨a, rfl, rfl⟩ | hOutside
  · have hNoted : NotesMore w (w.noteAck a) :=
      ⟨fun _ h => List.mem_cons_of_mem _ h, fun _ h => h,
        fun h => h⟩
    rcases handleAck_cases (w.noteAck a) a with
      hSame | ⟨h, channel, _, _, _, _, hSent⟩
    · rwa [hSame]
    · rw [hSent]
      exact ⟨hNoted.acks, hNoted.windowless, hNoted.disturbed⟩
  · refine ⟨?_, ?_, hOutside.disturbed⟩
    · intro x hx
      rwa [hOutside.acks]
    · intro id hId
      rwa [hOutside.windowless]

theorem Backed.more
    (hBacked : Backed w)
    (hMore : NotesMore w w')
    (hHandshake : w'.activeHandshake = w.activeHandshake)
    (hChannels : w'.channels = w.channels)
    (hAllowed : w'.allowExit = w.allowExit)
    (hExited : w'.exited = true →
      w.exited = true ∨ w.allowExit = true) : Backed w' := by
  have hConfirmed : w.allowExit = true →
      ∃ id, w'.Confirmed id := by
    intro hAllow
    rcases hBacked.allowed hAllow with ⟨id, hId⟩
    exact ⟨id, hMore.confirmed hId⟩
  constructor
  · rw [hHandshake]
    exact hBacked.sender
  · intro id success hSent
    rw [hChannels] at hSent
    exact hMore.answered (hBacked.sent id success hSent)
  · rw [hAllowed]
    exact hConfirmed
  · intro hNow
    rcases hExited hNow with hBefore | hAllow
    · rcases hBacked.exited hBefore with ⟨id, hId⟩
      exact ⟨id, hMore.confirmed hId⟩
    · exact hConfirmed hAllow

/- An answer goes to the handshake that is noted with it. -/
theorem Backed.handleAck
    (hBacked : Backed w)
    (a : FlushAck) : Backed (handleAck (w.noteAck a) a) := by
  have hMore : NotesMore w (w.noteAck a) :=
    ⟨fun _ h => List.mem_cons_of_mem _ h, fun _ h => h,
      fun h => h⟩
  have hNoted : Backed (w.noteAck a) :=
    hBacked.more hMore rfl rfl rfl .inl
  rcases handleAck_cases (w.noteAck a) a with
    hSame | ⟨h, channel, hPending, hId, hGeneration, hTx, hSent⟩
  · rwa [hSame]
  · rw [hSent]
    have hChannel := hNoted.sender h channel hPending hTx
    constructor
    · intro h' channel' hPending' hTx'
      cases hPending'
      cases hTx'
    · intro id success hFound
      by_cases hThis : id = channel
      · subst hThis
        simp only [ExitState.setChannel, Function.update_self,
          Option.some.injEq, AckChannel.sent.injEq] at hFound
        have hPending : w.activeHandshake = some h := hPending
        refine ⟨a, h, ?_, hFound, ?_, hChannel.symm,
          hGeneration⟩
        · exact hPending ▸ List.mem_cons_self
        · exact (hChannel.trans hId).symm
      · have hBefore : (w.noteAck a).channels id =
            some (.sent success) := by
          simpa [ExitState.setChannel, hThis] using hFound
        exact hNoted.sent id success hBefore
    · exact hNoted.allowed
    · exact hNoted.exited

theorem Backed.env
    (hBacked : Backed w)
    (h : env e w = some w') : Backed w' := by
  have hMore := env_notesMore h
  rcases env_cases h with ⟨a, rfl, rfl⟩ | hOutside
  · exact hBacked.handleAck a
  · exact hBacked.more hMore hOutside.activeHandshake
      hOutside.channels hOutside.allowExit hOutside.exited

theorem Backed.clearHandshake
    (hBacked : Backed w) : Backed w.clearHandshake := by
  rcases dropSender_eq w with ⟨channels, hDropped, hSent⟩
  unfold ExitState.clearHandshake
  rw [hDropped]
  exact
    { sender := fun _ _ h => by cases h
      sent := fun id success h =>
        hBacked.sent id success (hSent id success h)
      allowed := hBacked.allowed
      exited := hBacked.exited }

theorem Backed.setHandshake
    {id : Uuid}
    (hBacked : Backed w)
    (generation : Nat) :
    Backed (w.setHandshake id generation) := by
  rcases dropSender_eq w with ⟨channels, hDropped, hSent⟩
  unfold ExitState.setHandshake
  rw [hDropped]
  exact
    { sender := by
        intro h channel hPending hTx
        cases hPending
        cases hTx
        rfl
      sent := fun other success h =>
        hBacked.sent other success
          (hSent other success (sent_of_setChannel (by simp) h))
      allowed := hBacked.allowed
      exited := hBacked.exited }

------------------------------------------------------------
-- Exits
------------------------------------------------------------

namespace ExitActs

variable {p p' : ExitPhase}

theorem notesMore (h : ExitActs p w p' w') : NotesMore w w' := by
  cases h with
  | registered _ generation id =>
      exact notesMore_setHandshake generation
  | ended => exact notesMore_clearHandshake
  | windowless => exact notesMore_clearHandshake
  | notFound _ id =>
      exact ⟨fun _ h => h, fun _ h => List.mem_cons_of_mem _ h,
        fun h => h⟩
  | paused =>
      refine ⟨fun _ h => h, fun _ h => h, fun h => ?_⟩
      rcases h with hPaused | hWoke
      · refine .inl ?_
        simp [notePause, hPaused]
      · exact .inr hWoke
  | _ => exact ⟨fun _ h => h, fun _ h => h, fun h => h⟩

theorem sound
    (h : ExitActs p w p' w')
    (hBacked : Backed w)
    (hSound : p.Sound w) : p'.Sound w' := by
  have hMore := h.notesMore
  cases h with
  | polled _ id result hPoll =>
      cases result with
      | answered success =>
          apply hBacked.sent id success
          unfold AckChannel.poll at hPoll
          split at hPoll
          · rename_i hChannel
            cases hPoll
            exact hChannel
          · cases hPoll
          · cases hPoll
      | disconnected => trivial
      | timedOut => trivial
  | notFound _ id => exact List.mem_cons_self
  | ended _ id result =>
      cases result with
      | answered success =>
          cases success with
          | true => exact .inl (hMore.answered hSound)
          | false => trivial
      | disconnected => trivial
      | timedOut => trivial
  | windowless _ id =>
      exact .inr (hMore.windowless id hSound)
  | allowed _ id => exact hMore.confirmed hSound
  | _ => trivial

theorem backed
    (h : ExitActs p w p' w')
    (hBacked : Backed w)
    (hSound : p.Sound w) : Backed w' := by
  have hMore := h.notesMore
  cases h with
  | registered _ generation id =>
      exact hBacked.setHandshake generation
  | ended => exact hBacked.clearHandshake
  | windowless => exact hBacked.clearHandshake
  | allowed _ id =>
      exact
        { sender := hBacked.sender
          sent := hBacked.sent
          allowed := fun _ => ⟨id, hSound⟩
          exited := hBacked.exited }
  | exited _ id =>
      apply hBacked.more hMore rfl rfl rfl
      intro hExited
      simpa using hExited
  | _ => exact hBacked.more hMore rfl rfl rfl .inl

end ExitActs

theorem dropSender_flags (w : ExitState) :
    w.dropSender.exitStarted = w.exitStarted ∧
      w.dropSender.exitInProgress = w.exitInProgress := by
  rcases dropSender_eq w with ⟨channels, hDropped, _⟩
  rw [hDropped]
  exact ⟨rfl, rfl⟩

theorem ofResult_phase (id : Uuid) (result : AckResult) :
    (ExitPhase.ofResult id result).owns = true ∧
      (ExitPhase.ofResult id result).inProgress = true ∧
      (ExitPhase.ofResult id result).handshaking = false := by
  cases result with
  | answered success =>
      cases success <;> exact ⟨rfl, rfl, rfl⟩
  | disconnected => exact ⟨rfl, rfl, rfl⟩
  | timedOut => exact ⟨rfl, rfl, rfl⟩

/- At most one request has set `exit_started`. -/
def startedLatch : Latch exitSystem where
  flag := ExitState.exitStarted
  owns := ExitPhase.owns
  act := by
    intro c p w p' w' h
    cases exitActs_of_act h with
    | started _ hFree => exact .inr (.inl ⟨hFree, rfl, rfl⟩)
    | notTriggered => exact .inr (.inr ⟨rfl, rfl, rfl⟩)
    | startedCleared => exact .inr (.inr ⟨rfl, rfl, rfl⟩)
    | registered _ generation id =>
        exact .inl ⟨rfl, (dropSender_flags w).1⟩
    | ended _ id result =>
        exact .inl ⟨(ofResult_phase id result).1,
          (dropSender_flags w).1⟩
    | windowless => exact .inl ⟨rfl, (dropSender_flags w).1⟩
    | _ => exact .inl ⟨rfl, rfl⟩
  env := fun h => (env_flags h).1

/- At most one request has set `exit_in_progress`. -/
def progressLatch : Latch exitSystem where
  flag := ExitState.exitInProgress
  owns := ExitPhase.inProgress
  act := by
    intro c p w p' w' h
    cases exitActs_of_act h with
    | triggered _ _ hFree => exact .inr (.inl ⟨hFree, rfl, rfl⟩)
    | progressCleared => exact .inr (.inr ⟨rfl, rfl, rfl⟩)
    | registered _ generation id =>
        exact .inl ⟨rfl, (dropSender_flags w).2⟩
    | ended _ id result =>
        exact .inl ⟨(ofResult_phase id result).2.1,
          (dropSender_flags w).2⟩
    | windowless => exact .inl ⟨rfl, (dropSender_flags w).2⟩
    | _ => exact .inl ⟨rfl, rfl⟩
  env := fun h => (env_flags h).2.1

variable {τ : Type}

/- What holds in every state, whatever the exits do. -/
structure ExitInv (s : ExitSystemState τ) : Prop where
  started : startedLatch.Held s
  progress : progressLatch.Held s
  pending : s.cells.activeHandshake.isSome = true →
    ∃ t, (s.phases t).handshaking = true
  sound : ∀ t, (s.phases t).Sound s.cells
  backed : Backed s.cells

theorem initial_exitInv (hasWindow : Bool) :
    ExitInv (ExitSystemState.initial hasWindow :
      ExitSystemState τ) where
  started := by
    constructor <;>
      simp [startedLatch, ExitSystemState.initial,
        ExitState.initial, ExitPhase.owns]
  progress := by
    constructor <;>
      simp [progressLatch, ExitSystemState.initial,
        ExitState.initial, ExitPhase.inProgress]
  pending := fun h => by cases h
  sound := fun _ => trivial
  backed :=
    { sender := fun _ _ h => by cases h
      sent := fun _ _ h => by cases h
      allowed := fun h => by cases h
      exited := fun h => by cases h }

section

variable [DecidableEq τ]
variable {phases : τ → ExitPhase} {t : τ}
variable {p q : ExitPhase}

/- A handshake is pending while its request waits for it. -/
theorem pending_act
    (h : w.activeHandshake.isSome = true →
      ∃ u, (phases u).handshaking = true)
    (hPhase : phases t = q)
    (hActs : ExitActs q w p w') :
    w'.activeHandshake.isSome = true →
      ∃ u, (Function.update phases t p u).handshaking = true := by
  have hKept :
      (q.handshaking = true → p.handshaking = true) →
      w'.activeHandshake = w.activeHandshake →
      w'.activeHandshake.isSome = true →
      ∃ u, (Function.update phases t p u).handshaking = true := by
    intro hMoved hSame hSome
    rw [hSame] at hSome
    apply PhaseState.exists_update
      (P := fun x => ExitPhase.handshaking x = true) (h hSome)
    intro ht
    exact hMoved (hPhase ▸ ht)
  cases hActs with
  | registered _ generation id =>
      intro _
      exact PhaseState.exists_moved
        (P := fun x => ExitPhase.handshaking x = true) rfl
  | ended => exact fun h => by cases h
  | windowless => exact fun h => by cases h
  | found => exact hKept (fun _ => rfl) rfl
  | notFound => exact hKept (fun _ => rfl) rfl
  | polled => exact hKept (fun _ => rfl) rfl
  | timedOut => exact hKept (fun _ => rfl) rfl
  | _ => exact hKept (fun h => by cases h) rfl

theorem ExitInv.step
    {s s' : ExitSystemState τ} {e : ExitSystemEvent τ}
    (hStep : exitSystem.step s e = some s')
    (h : ExitInv s) : ExitInv s' := by
  have hStarted := h.started.step hStep
  have hProgress := h.progress.step hStep
  cases e with
  | act t c =>
      rcases PhaseSystem.step_act hStep with ⟨p, w', hAct, rfl⟩
      have hActs := exitActs_of_act hAct
      have hMore := hActs.notesMore
      refine ⟨hStarted, hProgress,
        pending_act h.pending rfl hActs, ?_,
        hActs.backed h.backed (h.sound t)⟩
      apply PhaseState.forall_update
        (P := fun _ x => ExitPhase.Sound w' x)
      · intro u _
        exact (h.sound u).mono hMore
      · exact hActs.sound h.backed (h.sound t)
  | env e =>
      rcases PhaseSystem.step_env hStep with ⟨w', hEnv, rfl⟩
      have hMore := env_notesMore hEnv
      refine ⟨hStarted, hProgress, ?_,
        fun t => (h.sound t).mono hMore, h.backed.env hEnv⟩
      intro hSome
      exact h.pending ((env_flags hEnv).2.2 ▸ hSome)

end

------------------------------------------------------------
-- Without Exits
------------------------------------------------------------

namespace BackgroundLoop

/-
  The loop is as it would be without exits, or has ended.
  What has been started is not started again.
-/
def Alike (l l₀ : BackgroundLoop) : Prop :=
  (l = l₀ ∧ (l.phase ≠ .ended → l.started = true)) ∨
    (l.phase = .ended ∧ l.started = true ∧ l₀.started = true)

variable {l l₀ l' : BackgroundLoop}

theorem Alike.ensure (h : Alike l l₀) :
    Alike l.ensure l₀.ensure := by
  rcases h with ⟨rfl, hStarted⟩ | ⟨hEnded, hStarted, hStarted₀⟩
  · refine .inl ⟨rfl, ?_⟩
    unfold BackgroundLoop.ensure
    split
    · exact hStarted
    · exact fun _ => rfl
  · have hSame : l.ensure = l := by
      simp [BackgroundLoop.ensure, hStarted]
    have hSame₀ : l₀.ensure = l₀ := by
      simp [BackgroundLoop.ensure, hStarted₀]
    rw [hSame, hSame₀]
    exact .inr ⟨hEnded, hStarted, hStarted₀⟩

theorem Alike.wake
    {exitStarted : Bool}
    (h : Alike l l₀)
    (hWake : l.wake exitStarted = some l') :
    ∃ l₁, l₀.wake false = some l₁ ∧ Alike l' l₁ := by
  unfold BackgroundLoop.wake at hWake
  split at hWake
  · rename_i hAsleep
    cases hWake
    rcases h with ⟨rfl, hStarted⟩ | ⟨hEnded, _⟩
    · have hStarted := hStarted (by simp [hAsleep])
      refine ⟨{ l with phase := .inBody },
        by simp [BackgroundLoop.wake, hAsleep], ?_⟩
      cases exitStarted with
      | true => exact .inr ⟨rfl, hStarted, hStarted⟩
      | false => exact .inl ⟨rfl, fun _ => hStarted⟩
    · simp [hAsleep] at hEnded
  · cases hWake

theorem Alike.sleep
    (h : Alike l l₀)
    (hSleep : l.sleep = some l') :
    ∃ l₁, l₀.sleep = some l₁ ∧ Alike l' l₁ := by
  unfold BackgroundLoop.sleep at hSleep
  split at hSleep
  · rename_i hInBody
    cases hSleep
    rcases h with ⟨rfl, hStarted⟩ | ⟨hEnded, _⟩
    · have hStarted := hStarted (by simp [hInBody])
      exact ⟨{ l with phase := .asleep },
        by simp [BackgroundLoop.sleep, hInBody],
        .inl ⟨rfl, fun _ => hStarted⟩⟩
    · simp [hInBody] at hEnded
  · cases hSleep

end BackgroundLoop

/- A state, and the one that the rest of the app would have. -/
structure AlikeApps (w w₀ : ExitState) : Prop where
  syncPaused : w.syncPaused = w₀.syncPaused
  pauseWrites : w.pauseWrites = w₀.pauseWrites
  autoSync : w.loops .autoSync = w₀.loops .autoSync
  trayAnimation :
    (w.loops .trayAnimation).Alike (w₀.loops .trayAnimation)
  notStarted : w₀.exitStarted = false

variable {w₀ : ExitState}

theorem AlikeApps.act
    {p p' : ExitPhase}
    (h : AlikeApps w w₀)
    (hActs : ExitActs p w p' w') :
    w'.Disturbed ∨ AlikeApps w' w₀ := by
  cases hActs with
  | paused =>
      cases hPaused : w.syncPaused with
      | false =>
          refine .inl (.inl ?_)
          simp [notePause, hPaused]
      | true =>
          exact .inr { h with
            syncPaused := hPaused.symm.trans h.syncPaused }
  | registered _ generation id =>
      rcases dropSender_eq w with ⟨channels, hDropped, _⟩
      unfold ExitState.setHandshake
      rw [hDropped]
      exact .inr { h with }
  | ended =>
      rcases dropSender_eq w with ⟨channels, hDropped, _⟩
      unfold ExitState.clearHandshake
      rw [hDropped]
      exact .inr { h with }
  | windowless =>
      rcases dropSender_eq w with ⟨channels, hDropped, _⟩
      unfold ExitState.clearHandshake
      rw [hDropped]
      exact .inr { h with }
  | _ => exact .inr { h with }

/- An ack changes the handshake and its channel at most. -/
theorem handleAck_eq (w : ExitState) (a : FlushAck) :
    ∃ channels h, handleAck (w.noteAck a) a =
      { w.noteAck a with
        channels := channels
        activeHandshake := h } := by
  rcases handleAck_cases (w.noteAck a) a with
    hSame | ⟨h, channel, _, _, _, _, hSent⟩
  · exact ⟨w.channels, w.activeHandshake, hSame⟩
  · exact ⟨_, _, hSent⟩

theorem AlikeApps.setLoop
    {k : LoopKind} {l l₀ : BackgroundLoop}
    (h : AlikeApps w w₀)
    (hAuto : k = .autoSync → l = l₀)
    (hTray : k = .trayAnimation → l.Alike l₀) :
    AlikeApps (w.setLoop k l) (w₀.setLoop k l₀) := by
  cases k with
  | autoSync =>
      exact { h with
        autoSync := by
          simpa [ExitState.setLoop] using hAuto rfl
        trayAnimation := by
          simpa [ExitState.setLoop] using h.trayAnimation }
  | trayAnimation =>
      exact { h with
        autoSync := by
          simpa [ExitState.setLoop] using h.autoSync
        trayAnimation := by
          simpa [ExitState.setLoop] using hTray rfl }

theorem AlikeApps.setPauseWrite
    (h : AlikeApps w w₀)
    (call : Nat)
    (value : Option Bool) :
    AlikeApps (w.setPauseWrite call value)
      (w₀.setPauseWrite call value) :=
  { h with
    pauseWrites := by
      simp [ExitState.setPauseWrite, h.pauseWrites] }

theorem AlikeApps.env
    (h : AlikeApps w w₀)
    (hEnv : env e w = some w') :
    w'.Disturbed ∨
      ∃ w₁, ExitState.env e w₀ = some w₁ ∧
        AlikeApps w' w₁ := by
  cases e with
  | ack a =>
      cases hEnv
      refine .inr ⟨_, rfl, ?_⟩
      rcases handleAck_eq w a with ⟨channels, x, hAck⟩
      rcases handleAck_eq w₀ a with ⟨channels₀, x₀, hAck₀⟩
      rw [hAck, hAck₀]
      exact { h with }
  | resetWorkspace =>
      cases hEnv
      exact .inr ⟨_, rfl, { h with }⟩
  | window present =>
      cases hEnv
      exact .inr ⟨_, rfl, { h with }⟩
  | exitRequested =>
      cases hEnv
      exact .inr ⟨_, rfl, { h with }⟩
  | togglePause call =>
      rw [ExitState.env] at hEnv ⊢
      rw [← h.pauseWrites, ← h.syncPaused]
      split at hEnv
      · rename_i hFree
        cases hEnv
        exact .inr ⟨_, rfl, h.setPauseWrite call _⟩
      · cases hEnv
  | resumeSync call =>
      rw [ExitState.env] at hEnv ⊢
      rw [← h.pauseWrites, ← h.syncPaused]
      split at hEnv
      · rename_i hFree
        cases hEnv
        exact .inr ⟨_, rfl, h.setPauseWrite call _⟩
      · cases hEnv
  | writePaused call =>
      rw [ExitState.env] at hEnv ⊢
      rw [← h.pauseWrites]
      split at hEnv
      · cases hEnv
      · rename_i paused hPaused
        cases hEnv
        exact .inr ⟨_, rfl,
          { h.setPauseWrite call none with syncPaused := rfl }⟩
  | ensureLoop k =>
      cases hEnv
      refine .inr ⟨_, rfl, h.setLoop ?_ ?_⟩
      · rintro rfl
        rw [h.autoSync]
      · rintro rfl
        exact h.trayAnimation.ensure
  | wakeLoop k =>
      rcases Option.map_eq_some_iff.mp hEnv with ⟨l, hLoop, rfl⟩
      cases k with
      | autoSync =>
          cases hStarted : w.exitStarted with
          | true =>
              refine .inl (.inr ?_)
              simp [ExitState.setLoop, noteWake, hStarted]
          | false =>
              rw [hStarted, h.autoSync] at hLoop
              have hNoted : AlikeApps (w.noteWake .autoSync)
                  (w₀.noteWake .autoSync) := { h with }
              refine .inr ⟨(w₀.noteWake .autoSync).setLoop
                .autoSync l, ?_, ?_⟩
              · simp [ExitState.env, h.notStarted, hLoop]
              · exact hNoted.setLoop (fun _ => rfl)
                  fun hKind => by cases hKind
      | trayAnimation =>
          rcases h.trayAnimation.wake hLoop with
            ⟨l₁, hLoop₁, hAlike⟩
          refine .inr ⟨w₀.setLoop .trayAnimation l₁, ?_, ?_⟩
          · simp [ExitState.env, h.notStarted, hLoop₁, noteWake]
          · exact h.setLoop (fun hKind => by cases hKind)
              fun _ => hAlike
  | sleepLoop k =>
      rcases Option.map_eq_some_iff.mp hEnv with ⟨l, hLoop, rfl⟩
      cases k with
      | autoSync =>
          rw [h.autoSync] at hLoop
          refine .inr ⟨w₀.setLoop .autoSync l, ?_, ?_⟩
          · simp [ExitState.env, hLoop]
          · exact h.setLoop (fun _ => rfl) fun hKind => by
              cases hKind
      | trayAnimation =>
          rcases h.trayAnimation.sleep hLoop with
            ⟨l₁, hLoop₁, hAlike⟩
          refine .inr ⟨w₀.setLoop .trayAnimation l₁, ?_, ?_⟩
          · simp [ExitState.env, hLoop₁]
          · exact h.setLoop (fun hKind => by cases hKind)
              fun _ => hAlike

------------------------------------------------------------
-- Cancelled Exits
------------------------------------------------------------

/- What a user and the loops see of an exit. -/
structure SameApp (w w₀ : ExitState) : Prop where
  syncPaused : w.syncPaused = w₀.syncPaused
  autoSync : w.loops .autoSync = w₀.loops .autoSync
  exitStarted : w.exitStarted = w₀.exitStarted
  exitInProgress : w.exitInProgress = w₀.exitInProgress
  activeHandshake : w.activeHandshake = w₀.activeHandshake

section

variable [DecidableEq τ]

/-
  The process only exits after a yes or without a window,
  one handshake is pending at most, and where no exit is
  under way the app is as if none had been requested.
-/
structure SafelyLeft
    (hasWindow : Bool)
    (events : List (ExitSystemEvent τ))
    (s : ExitSystemState τ) : Prop where
  confirmed : s.cells.exited = true → ∃ id, s.cells.Confirmed id
  one_pending : ∀ t u, (s.phases t).handshaking = true →
    (s.phases u).handshaking = true → t = u
  restored : (∀ t, (s.phases t).owns = false) →
    ∃ w₀, exitSystem.Run (fun _ _ => True)
        (ExitSystemState.initial hasWindow : ExitSystemState τ)
        (PhaseSystem.envOnly events) ⟨w₀, fun _ => .idle⟩ ∧
      SameApp s.cells w₀

/-
  An exit that is cancelled has not paused a sync that was
  not paused, nor has the automatic sync woken up meanwhile.
-/
def HarmlessExit
    (s : ExitSystemState τ) : ExitSystemEvent τ → Prop
  | .act t _ =>
      s.phases t = .clearStarted → ¬ s.cells.Disturbed
  | .env _ => True

omit [DecidableEq τ] in
variable {s : ExitSystemState τ}

/- Without an exit under way all of its cells are clear. -/
theorem ExitInv.clear
    (h : ExitInv s)
    (hOver : ∀ t, (s.phases t).owns = false) :
    s.cells.exitStarted = false ∧
      s.cells.exitInProgress = false ∧
      s.cells.activeHandshake = none := by
  have hNone : ∀ t, (s.phases t).inProgress = false := by
    intro t
    apply Bool.eq_false_iff.mpr
    intro ht
    have hOwns := ExitPhase.owns_of_inProgress ht
    exact absurd ((hOver t).symm.trans hOwns) (by decide)
  refine ⟨?_, ?_, ?_⟩
  · apply Bool.eq_false_iff.mpr
    intro hSet
    rcases h.started.set_iff.mp hSet with ⟨t, ht⟩
    exact absurd ((hOver t).symm.trans ht) (by decide)
  · apply Bool.eq_false_iff.mpr
    intro hSet
    rcases h.progress.set_iff.mp hSet with ⟨t, ht⟩
    exact absurd ((hNone t).symm.trans ht) (by decide)
  · cases hPending : s.cells.activeHandshake with
    | none => rfl
    | some handshake =>
        rcases h.pending (by simp [hPending]) with ⟨t, ht⟩
        have hIn := ExitPhase.inProgress_of_handshaking ht
        exact absurd ((hNone t).symm.trans hIn) (by decide)

variable {events : List (ExitSystemEvent τ)}

theorem exitInv_of_run
    {Meets : ExitSystemState τ → ExitSystemEvent τ → Prop}
    {hasWindow : Bool}
    (run : exitSystem.Run Meets
      (ExitSystemState.initial hasWindow) events s) : ExitInv s :=
  run.keeps (initial_exitInv hasWindow) fun _ hStep h =>
    h.step hStep

omit [DecidableEq τ] in
theorem ExitInv.one_pending
    (h : ExitInv s) {t u : τ}
    (ht : (s.phases t).handshaking = true)
    (hu : (s.phases u).handshaking = true) : t = u :=
  h.progress.one t u (ExitPhase.inProgress_of_handshaking ht)
    (ExitPhase.inProgress_of_handshaking hu)

omit [DecidableEq τ] in
/- The guard of `trigger_exit` never finds another exit. -/
theorem ExitInv.triggers
    (h : ExitInv s) {t : τ} {generation : Nat}
    (ht : s.phases t = .swapInProgress generation) :
    s.cells.exitInProgress = false := by
  apply Bool.eq_false_iff.mpr
  intro hSet
  rcases h.progress.set_iff.mp hSet with ⟨u, hu⟩
  have hOwns : startedLatch.owns (s.phases t) = true := by
    rw [ht]
    rfl
  have hSame := h.started.one u t
    (ExitPhase.owns_of_inProgress hu) hOwns
  rw [hSame, ht] at hu
  cases hu

namespace ExitActs

variable {p p' : ExitPhase}

/- Where an exit lets go of `exit_started`. -/
theorem releases
    (h : ExitActs p w p' w')
    (hOwns : p.owns = true) :
    p'.owns = true ∨ p = .clearStarted ∨ p = .notTriggered := by
  cases h with
  | notTriggered => exact .inr (.inr rfl)
  | startedCleared => exact .inr (.inl rfl)
  | ended _ id result => exact .inl (ofResult_phase id result).1
  | started => cases hOwns
  | refused => cases hOwns
  | _ => exact .inl rfl

theorem disturbed
    (h : ExitActs p w p' w')
    (hDisturbed : w'.Disturbed) :
    w.Disturbed ∨ p'.owns = true := by
  cases h with
  | paused => exact .inr rfl
  | registered _ generation id =>
      rcases dropSender_eq w with ⟨channels, hDropped, _⟩
      unfold ExitState.setHandshake at hDisturbed
      rw [hDropped] at hDisturbed
      exact .inl hDisturbed
  | ended =>
      rcases dropSender_eq w with ⟨channels, hDropped, _⟩
      unfold ExitState.clearHandshake at hDisturbed
      rw [hDropped] at hDisturbed
      exact .inl hDisturbed
  | windowless =>
      rcases dropSender_eq w with ⟨channels, hDropped, _⟩
      unfold ExitState.clearHandshake at hDisturbed
      rw [hDropped] at hDisturbed
      exact .inl hDisturbed
  | _ => exact .inl hDisturbed

end ExitActs

theorem env_disturbed
    (h : env e w = some w')
    (hDisturbed : w'.Disturbed) :
    w.Disturbed ∨ w.exitStarted = true := by
  rcases env_cases h with ⟨a, rfl, rfl⟩ | hOutside
  · rcases handleAck_eq w a with ⟨channels, x, hAck⟩
    rw [hAck] at hDisturbed
    exact .inl hDisturbed
  · exact hOutside.disturbedBy hDisturbed

/- A disturbed app is one that an exit has not let go. -/
structure Contained (s : ExitSystemState τ) : Prop where
  inv : ExitInv s
  triggered : ∀ t, s.phases t ≠ .notTriggered
  disturbed : s.cells.Disturbed →
    ∃ t, (s.phases t).owns = true

theorem step_notesMore
    {s s' : ExitSystemState τ} {e : ExitSystemEvent τ}
    (hStep : exitSystem.step s e = some s') :
    NotesMore s.cells s'.cells := by
  cases e with
  | act t c =>
      rcases PhaseSystem.step_act hStep with ⟨p, w', hAct, rfl⟩
      exact (exitActs_of_act hAct).notesMore
  | env e =>
      rcases PhaseSystem.step_env hStep with ⟨w', hEnv, rfl⟩
      exact env_notesMore hEnv

theorem Contained.step
    {s s' : ExitSystemState τ} {e : ExitSystemEvent τ}
    (hMeets : HarmlessExit s e)
    (hStep : exitSystem.step s e = some s')
    (h : Contained s) : Contained s' := by
  have hInv := h.inv.step hStep
  cases e with
  | act t c =>
      rcases PhaseSystem.step_act hStep with ⟨p, w', hAct, rfl⟩
      have hActs := exitActs_of_act hAct
      refine ⟨hInv, ?_, ?_⟩
      · apply PhaseState.forall_update
          (P := fun _ x => x ≠ ExitPhase.notTriggered)
        · exact fun u _ => h.triggered u
        · intro hPhase
          generalize hBefore : s.phases t = q at hActs
          cases hActs with
          | coalesced _ generation hSet =>
              rw [h.inv.triggers hBefore] at hSet
              cases hSet
          | ended _ id result =>
              have hOf := (ofResult_phase id result).2.1
              rw [hPhase] at hOf
              cases hOf
          | _ => cases hPhase
      · intro hDisturbed
        rcases hActs.disturbed hDisturbed with hBefore | hOwns
        · apply PhaseState.exists_update
            (P := fun x => ExitPhase.owns x = true)
            (h.disturbed hBefore)
          intro ht
          rcases hActs.releases ht with hStays | hCancels | hNot
          · exact hStays
          · exact absurd hBefore (hMeets hCancels)
          · exact absurd hNot (h.triggered t)
        · exact PhaseState.exists_moved
            (P := fun x => ExitPhase.owns x = true) hOwns
  | env e =>
      rcases PhaseSystem.step_env hStep with ⟨w', hEnv, rfl⟩
      refine ⟨hInv, h.triggered, fun hDisturbed => ?_⟩
      rcases env_disturbed hEnv hDisturbed with hBefore | hSet
      · exact h.disturbed hBefore
      · exact h.inv.started.set_iff.mp hSet

theorem contained_of_run
    {hasWindow : Bool}
    (run : exitSystem.Run HarmlessExit
      (ExitSystemState.initial hasWindow) events s) :
    Contained s := by
  apply run.keeps _ Contained.step
  refine ⟨initial_exitInv hasWindow, fun _ h => ?_, fun h => ?_⟩
  · cases h
  · rcases h with h | h <;> cases h

/-
  The app comes out of every cancelled exit as it went in,
  when those that disturb it are not cancelled.
-/
theorem safelyLeft_of_run
    {hasWindow : Bool}
    {events : List (ExitSystemEvent τ)}
    {s : ExitSystemState τ}
    (run : exitSystem.Run HarmlessExit
      (ExitSystemState.initial hasWindow) events s) :
    SafelyLeft hasWindow events s := by
  have hContained := contained_of_run run
  have hInv := hContained.inv
  refine ⟨hInv.backed.exited, fun t u => hInv.one_pending, ?_⟩
  intro hOver
  have hStart : AlikeApps
      (ExitState.initial hasWindow) (.initial hasWindow) :=
    ⟨rfl, rfl, rfl, .inl ⟨rfl, fun h => absurd rfl h⟩, rfl⟩
  have hOff : ∀ {s s' : ExitSystemState τ} {e},
      exitSystem.step s e = some s' →
      s.cells.Disturbed → s'.cells.Disturbed :=
    fun hStep => (step_notesMore hStep).disturbed
  rcases run.without_threads (R := AlikeApps) hStart hOff
      (fun hAct hAlike => hAlike.act (exitActs_of_act hAct))
      (fun hEnv hAlike => hAlike.env hEnv) with
    hDisturbed | ⟨w₀, run₀, hAlike⟩
  · rcases hContained.disturbed hDisturbed with ⟨t, ht⟩
    exact absurd ((hOver t).symm.trans ht) (by decide)
  · have hClear := hInv.clear hOver
    have hClear₀ := (exitInv_of_run run₀).clear fun _ => rfl
    exact ⟨w₀, run₀,
      { syncPaused := hAlike.syncPaused
        autoSync := hAlike.autoSync
        exitStarted := hClear.1.trans hClear₀.1.symm
        exitInProgress := hClear.2.1.trans hClear₀.2.1.symm
        activeHandshake := hClear.2.2.trans hClear₀.2.2.symm }⟩

end

instance (w : ExitState) : Decidable w.Disturbed :=
  inferInstanceAs (Decidable (_ = true ∨ _ = true))

instance
    (s : ExitSystemState τ) :
    (e : ExitSystemEvent τ) → Decidable (HarmlessExit s e)
  | .act t _ =>
      inferInstanceAs (Decidable (s.phases t = _ → ¬ _))
  | .env _ => .isTrue trivial

/- An exit that is not answered in time. -/
def cancelledExit
    (during : List (ExitSystemEvent (Fin 1))) :
    List (ExitSystemEvent (Fin 1)) :=
  [.act 0 .go, .act 0 .go, .act 0 .go, .act 0 .go,
    .act 0 (.draw 1), .act 0 .go] ++ during ++
    [.act 0 .timeOut, .act 0 .go, .act 0 .go, .act 0 .go]

/- The automatic sync is started and is paused. -/
def pausedSync : List (ExitSystemEvent (Fin 1)) :=
  [.env (.ensureLoop .autoSync), .env (.togglePause 0),
    .env (.writePaused 0)]

def keptPaused : List (ExitSystemEvent (Fin 1)) :=
  pausedSync ++ cancelledExit []

def allOver (s : ExitSystemState (Fin 1)) : Bool :=
  decide (∀ t, (s.phases t).owns = false)

theorem paused_app_restored :
    ∃ s, exitSystem.Run HarmlessExit
        (ExitSystemState.initial true) keptPaused.reverse s ∧
      (∀ t, (s.phases t).owns = false) ∧
      SafelyLeft true keptPaused.reverse s := by
  have hExec :
      (exitSystem.execIf HarmlessExit
        (ExitSystemState.initial true) keptPaused).any
          allOver = true := by
    decide +kernel
  rcases PhaseSystem.Run.exists_of_execIf hExec with
    ⟨s, run, hOver⟩
  simp only [allOver, decide_eq_true_eq] at hOver
  exact ⟨s, run, hOver, safelyLeft_of_run run⟩

/- The exit pauses the sync, and nothing takes that back. -/
def leftPaused : List (ExitSystemEvent (Fin 1)) :=
  .env (.ensureLoop .autoSync) :: cancelledExit []

/- The loop wakes up during the exit, and ends. -/
def leftWithoutLoop : List (ExitSystemEvent (Fin 1)) :=
  pausedSync ++ cancelledExit [.env (.wakeLoop .autoSync)]

/- All exits are over, and the app is not as without them. -/
def changed
    (events : List (ExitSystemEvent (Fin 1)))
    (s : ExitSystemState (Fin 1)) : Bool :=
  allOver s &&
    !(exitSystem.execIf (fun _ _ => True)
      (ExitSystemState.initial true : ExitSystemState (Fin 1))
      (PhaseSystem.envOnly events)).any fun s₀ =>
        decide (s.cells.syncPaused = s₀.cells.syncPaused) &&
          decide (s.cells.loops .autoSync =
            s₀.cells.loops .autoSync)

theorem not_safelyLeft_of_changed
    {events : List (ExitSystemEvent (Fin 1))}
    {s : ExitSystemState (Fin 1)}
    (h : changed events s = true) :
    ¬ SafelyLeft true events.reverse s := by
  intro hSafely
  simp only [changed, allOver, Bool.and_eq_true,
    decide_eq_true_eq] at h
  rcases h with ⟨hOver, hChanged⟩
  rcases hSafely.restored hOver with ⟨w₀, run₀, hSame⟩
  have hExec := run₀.execIf_eq []
  rw [PhaseSystem.envOnly, List.filter_reverse,
    List.reverse_reverse, List.append_nil] at hExec
  simp [PhaseSystem.envOnly, hExec, PhaseSystem.execIf,
    hSame.syncPaused, hSame.autoSync] at hChanged

theorem cancelled_exits_disturb :
    (∃ s, exitSystem.Run (fun _ _ => True)
        (ExitSystemState.initial true) leftPaused.reverse s ∧
      ¬ SafelyLeft true leftPaused.reverse s) ∧
    (∃ s, exitSystem.Run (fun _ _ => True)
        (ExitSystemState.initial true) leftWithoutLoop.reverse s ∧
      ¬ SafelyLeft true leftWithoutLoop.reverse s) := by
  have hDisturbs : ∀ events,
      (exitSystem.execIf (fun _ _ => True)
        (ExitSystemState.initial true) events).any
          (changed events) = true →
      ∃ s, exitSystem.Run (fun _ _ => True)
          (ExitSystemState.initial true) events.reverse s ∧
        ¬ SafelyLeft true events.reverse s := by
    intro events h
    rcases PhaseSystem.Run.exists_of_execIf h with
      ⟨s, run, hChanged⟩
    exact ⟨s, run, not_safelyLeft_of_changed hChanged⟩
  exact ⟨hDisturbs leftPaused (by decide +kernel),
    hDisturbs leftWithoutLoop (by decide +kernel)⟩

/-
  One exit is under way at most, which both flags and the
  pending handshake are for. The second guard finds no other
  exit, and the app is let go for an answer or no window.
-/
structure ExclusiveExits (s : ExitSystemState τ) : Prop where
  one : ∀ t u, (s.phases t).owns = true →
    (s.phases u).owns = true → t = u
  started : s.cells.exitStarted = true ↔
    ∃ t, (s.phases t).owns = true
  progress : s.cells.exitInProgress = true ↔
    ∃ t, (s.phases t).inProgress = true
  pending : s.cells.activeHandshake.isSome = true →
    ∃ t, (s.phases t).handshaking = true
  triggers : ∀ t generation,
    s.phases t = .swapInProgress generation →
      s.cells.exitInProgress = false
  allowed : s.cells.allowExit = true ∨ s.cells.exited = true →
    ∃ id, s.cells.Confirmed id

end S4Drive

import S4Drive.Library.Phases
import S4Drive.Metadata.Types

/-
  How the app is left. The exit of the tray stops the sync,
  asks the window to save and waits for its answer. It ends
  the process on a yes or where there is no window, and is
  cancelled otherwise. Two background loops end when they
  wake up and find that an exit has been started.

  What stays outside: the cells that only the sync passes
  use, the settings that are saved, the icons and messages.

  Main declarations:
    * `BackgroundLoop`, `ExitState`, `ExitPhase`
    * `handleAck`, `ExitState.env`, `exitAct`
    * `exitSystem`, `ExitActs`
-/

------------------------------------------------------------
-- Background Loops
------------------------------------------------------------

namespace S4Drive

inductive LoopPhase where
  | asleep | inBody | ended
deriving DecidableEq

/- The flag of a loop that is started once, and the loop. -/
structure BackgroundLoop where
  started : Bool
  phase : LoopPhase
deriving DecidableEq

namespace BackgroundLoop

def unstarted : BackgroundLoop where
  started := false
  phase := .ended

/- `started.swap(true)`, and a loop only where it was clear. -/
def ensure (l : BackgroundLoop) : BackgroundLoop :=
  if l.started then l else ⟨true, .asleep⟩

/- The loop wakes up and looks whether the app is left. -/
def wake
    (exitStarted : Bool)
    (l : BackgroundLoop) : Option BackgroundLoop :=
  match l.phase with
  | .asleep =>
      some { l with
        phase := if exitStarted then .ended else .inBody }
  | _ => none

/- The rest of the round, a sync pass or not. -/
def sleep (l : BackgroundLoop) : Option BackgroundLoop :=
  match l.phase with
  | .inBody => some { l with phase := .asleep }
  | _ => none

end BackgroundLoop

/- `ensure_auto_sync` and `ensure_tray_sync_animation`. -/
inductive LoopKind where
  | autoSync | trayAnimation
deriving DecidableEq

------------------------------------------------------------
-- States
------------------------------------------------------------

/- The oneshot channel of a handshake. -/
inductive AckChannel where
  | empty
  | sent (success : Bool)
  | dropped
deriving DecidableEq

structure ActiveHandshake where
  closeRequestId : Uuid
  sessionGeneration : Nat
  -- The channel to send on, until it is taken.
  ackTx : Option Uuid
deriving DecidableEq

/- What `notes_flush_ack` is called with. -/
structure FlushAck where
  closeRequestId : Uuid
  sessionGeneration : Nat
  success : Bool
deriving DecidableEq

/-
  The cells of the app that an exit uses. Others change the
  pause setting too, by a read and a later write, and read
  nothing else. No step reads what is noted below: the acks
  with the handshake that each has met, the requests that
  have found no window, whether an exit has paused a sync
  that was not paused, and whether the automatic sync has
  woken up during an exit.
-/
structure ExitState where
  exitStarted : Bool
  allowExit : Bool
  syncPaused : Bool
  exitInProgress : Bool
  activeHandshake : Option ActiveHandshake
  channels : Uuid → Option AckChannel
  sessionGeneration : Nat
  hasWindow : Bool
  loops : LoopKind → BackgroundLoop
  pauseWrites : Nat → Option Bool
  exited : Bool
  acks : List (FlushAck × Option ActiveHandshake)
  windowless : List Uuid
  pausedByExit : Bool
  wokeInExit : Bool

namespace ExitState

def initial (hasWindow : Bool) : ExitState where
  exitStarted := false
  allowExit := false
  syncPaused := false
  exitInProgress := false
  activeHandshake := none
  channels := fun _ => none
  sessionGeneration := 1
  hasWindow := hasWindow
  loops := fun _ => .unstarted
  pauseWrites := fun _ => none
  exited := false
  acks := []
  windowless := []
  pausedByExit := false
  wokeInExit := false

def setChannel
    (w : ExitState)
    (id : Uuid)
    (c : AckChannel) : ExitState :=
  { w with channels := Function.update w.channels id (some c) }

/- A handshake that ends drops the sender it still has. -/
def dropSender (w : ExitState) : ExitState :=
  match w.activeHandshake.bind ActiveHandshake.ackTx with
  | none => w
  | some channel => w.setChannel channel .dropped

/- `*lock = None`. -/
def clearHandshake (w : ExitState) : ExitState :=
  { w.dropSender with activeHandshake := none }

/- `*lock = Some(...)`, with a new channel. -/
def setHandshake
    (w : ExitState)
    (closeRequestId : Uuid)
    (sessionGeneration : Nat) : ExitState :=
  { w.dropSender.setChannel closeRequestId .empty with
    activeHandshake :=
      some ⟨closeRequestId, sessionGeneration,
        some closeRequestId⟩ }

def noteAck (w : ExitState) (a : FlushAck) : ExitState :=
  { w with acks := (a, w.activeHandshake) :: w.acks }

def notePause (w : ExitState) : ExitState :=
  { w with pausedByExit := w.pausedByExit || !w.syncPaused }

def noteWake (w : ExitState) : LoopKind → ExitState
  | .autoSync =>
      { w with wokeInExit := w.wokeInExit || w.exitStarted }
  | .trayAnimation => w

end ExitState

/- The answer is sent if it is to the pending handshake. -/
def handleAck (w : ExitState) (a : FlushAck) : ExitState :=
  match w.activeHandshake with
  | none => w
  | some h =>
      if h.closeRequestId = a.closeRequestId ∧
          h.sessionGeneration = a.sessionGeneration then
        match h.ackTx with
        | none => w
        | some channel =>
            { w.setChannel channel (.sent a.success) with
              activeHandshake := some { h with ackTx := none } }
      else
        w

inductive ExitEvent where
  | ack (a : FlushAck)
  | resetWorkspace
  | window (present : Bool)
  -- `toggle_pause`, and the requests that resume the sync
  | togglePause (call : Nat)
  | resumeSync (call : Nat)
  | writePaused (call : Nat)
  | ensureLoop (k : LoopKind)
  | wakeLoop (k : LoopKind)
  | sleepLoop (k : LoopKind)
  -- `RunEvent::ExitRequested`
  | exitRequested
deriving DecidableEq

namespace ExitState

def setPauseWrite
    (w : ExitState)
    (call : Nat)
    (value : Option Bool) : ExitState :=
  { w with
    pauseWrites := Function.update w.pauseWrites call value }

def setLoop
    (w : ExitState)
    (k : LoopKind)
    (l : BackgroundLoop) : ExitState :=
  { w with loops := Function.update w.loops k l }

def env : ExitEvent → ExitState → Option ExitState
  | .ack a, w => some (handleAck (w.noteAck a) a)
  | .resetWorkspace, w =>
      some { w with sessionGeneration := w.sessionGeneration + 1 }
  | .window present, w => some { w with hasWindow := present }
  | .togglePause call, w =>
      match w.pauseWrites call with
      | none => some (w.setPauseWrite call (some !w.syncPaused))
      | some _ => none
  | .resumeSync call, w =>
      match w.pauseWrites call with
      | none =>
          some (w.setPauseWrite call
            (if w.syncPaused then some false else none))
      | some _ => none
  | .writePaused call, w =>
      match w.pauseWrites call with
      | none => none
      | some paused =>
          some { w.setPauseWrite call none with
            syncPaused := paused }
  | .ensureLoop k, w => some (w.setLoop k (w.loops k).ensure)
  | .wakeLoop k, w =>
      ((w.loops k).wake w.exitStarted).map
        ((w.noteWake k).setLoop k)
  | .sleepLoop k, w => (w.loops k).sleep.map (w.setLoop k)
  | .exitRequested, w =>
      some { w with exited := w.exited || w.allowExit }

end ExitState

------------------------------------------------------------
-- Exits
------------------------------------------------------------

/- What the wait for an answer ends with. -/
inductive AckResult where
  | answered (success : Bool)
  | disconnected
  | timedOut
deriving DecidableEq

/-
  A call of `request_safe_exit`, with `trigger_exit` and the
  task that it spawns.
-/
inductive ExitPhase where
  | idle
  -- `request_safe_exit`
  | pauseSync
  | readGeneration
  | notTriggered
  -- `trigger_exit`
  | swapInProgress (generation : Nat)
  | register (generation : Nat)
  -- the spawned task
  | findWindow (closeRequestId : Uuid)
  | awaitAck (closeRequestId : Uuid)
  | clearWindowless (closeRequestId : Uuid)
  | clearAnswered (closeRequestId : Uuid) (result : AckResult)
  | allowExit (closeRequestId : Uuid)
  | exit (closeRequestId : Uuid)
  | left
  | clearInProgress
  | clearStarted
  -- cancelled, or another exit was under way
  | returned
deriving DecidableEq

inductive ExitChoice where
  | go
  | draw (id : Uuid)
  | timeOut
deriving DecidableEq

/- What the task does when it has its result. -/
def ExitPhase.ofResult
    (closeRequestId : Uuid) : AckResult → ExitPhase
  | .answered true => .allowExit closeRequestId
  | .answered false => .clearInProgress
  | .disconnected => .clearInProgress
  | .timedOut => .clearInProgress

/- What a poll of the channel finds. -/
def AckChannel.poll : Option AckChannel → Option AckResult
  | some (.sent success) => some (.answered success)
  | some .dropped => some .disconnected
  | _ => none

def exitAct :
    ExitChoice → ExitPhase → ExitState →
      Option (ExitPhase × ExitState)
  | .go, .idle, w =>
      if w.exitStarted then
        some (.returned, w)
      else
        some (.pauseSync, { w with exitStarted := true })
  | .go, .pauseSync, w =>
      some (.readGeneration,
        { w.notePause with syncPaused := true })
  | .go, .readGeneration, w =>
      some (.swapInProgress w.sessionGeneration, w)
  | .go, .swapInProgress generation, w =>
      if w.exitInProgress then
        some (.notTriggered, w)
      else
        some (.register generation,
          { w with exitInProgress := true })
  | .go, .notTriggered, w =>
      some (.returned, { w with exitStarted := false })
  -- A drawn id has not been drawn before.
  | .draw id, .register generation, w =>
      match w.channels id with
      | none =>
          some (.findWindow id, w.setHandshake id generation)
      | some _ => none
  | .go, .findWindow id, w =>
      if w.hasWindow then
        some (.awaitAck id, w)
      else
        some (.clearWindowless id,
          { w with windowless := id :: w.windowless })
  | .go, .awaitAck id, w =>
      match AckChannel.poll (w.channels id) with
      | some result => some (.clearAnswered id result, w)
      | none => none
  | .timeOut, .awaitAck id, w =>
      some (.clearAnswered id .timedOut, w)
  | .go, .clearAnswered id result, w =>
      some (.ofResult id result, w.clearHandshake)
  | .go, .clearWindowless id, w =>
      some (.allowExit id, w.clearHandshake)
  | .go, .allowExit id, w =>
      some (.exit id, { w with allowExit := true })
  | .go, .exit _, w =>
      some (.left, { w with exited := w.exited || w.allowExit })
  | .go, .clearInProgress, w =>
      some (.clearStarted, { w with exitInProgress := false })
  | .go, .clearStarted, w =>
      some (.returned, { w with exitStarted := false })
  | _, _, _ => none

open Concurrency

/- Any number of requests to leave the app. -/
def exitSystem :
    PhaseSystem ExitState ExitPhase ExitChoice ExitEvent where
  act := exitAct
  env := ExitState.env

abbrev ExitSystemState (τ : Type) :=
  PhaseState ExitState τ ExitPhase

abbrev ExitSystemEvent (τ : Type) :=
  PhaseEvent τ ExitChoice ExitEvent

def ExitSystemState.initial
    {τ : Type}
    (hasWindow : Bool) : ExitSystemState τ where
  cells := .initial hasWindow
  phases := fun _ => .idle

/- What a step of an exit does, whatever was chosen for it. -/
inductive ExitActs :
    ExitPhase → ExitState → ExitPhase → ExitState → Prop where
  | started (w) (h : w.exitStarted = false) :
      ExitActs .idle w .pauseSync { w with exitStarted := true }
  | refused (w) (h : w.exitStarted = true) :
      ExitActs .idle w .returned w
  | paused (w) :
      ExitActs .pauseSync w .readGeneration
        { w.notePause with syncPaused := true }
  | read (w) :
      ExitActs .readGeneration w
        (.swapInProgress w.sessionGeneration) w
  | triggered (w generation) (h : w.exitInProgress = false) :
      ExitActs (.swapInProgress generation) w
        (.register generation) { w with exitInProgress := true }
  | coalesced (w generation) (h : w.exitInProgress = true) :
      ExitActs (.swapInProgress generation) w .notTriggered w
  | notTriggered (w) :
      ExitActs .notTriggered w .returned
        { w with exitStarted := false }
  | registered (w generation id) (h : w.channels id = none) :
      ExitActs (.register generation) w (.findWindow id)
        (w.setHandshake id generation)
  | found (w id) :
      ExitActs (.findWindow id) w (.awaitAck id) w
  | notFound (w id) (h : w.hasWindow = false) :
      ExitActs (.findWindow id) w (.clearWindowless id)
        { w with windowless := id :: w.windowless }
  | polled (w id result)
      (h : AckChannel.poll (w.channels id) = some result) :
      ExitActs (.awaitAck id) w (.clearAnswered id result) w
  | timedOut (w id) :
      ExitActs (.awaitAck id) w (.clearAnswered id .timedOut) w
  | ended (w id result) :
      ExitActs (.clearAnswered id result) w (.ofResult id result)
        w.clearHandshake
  | windowless (w id) :
      ExitActs (.clearWindowless id) w (.allowExit id)
        w.clearHandshake
  | allowed (w id) :
      ExitActs (.allowExit id) w (.exit id)
        { w with allowExit := true }
  | exited (w id) :
      ExitActs (.exit id) w .left
        { w with exited := w.exited || w.allowExit }
  | progressCleared (w) :
      ExitActs .clearInProgress w .clearStarted
        { w with exitInProgress := false }
  | startedCleared (w) :
      ExitActs .clearStarted w .returned
        { w with exitStarted := false }

theorem exitActs_of_act
    {c : ExitChoice} {p p' : ExitPhase} {w w' : ExitState}
    (h : exitAct c p w = some (p', w')) :
    ExitActs p w p' w' := by
  cases c with
  | draw id =>
      cases p with
      | register generation =>
          rw [exitAct] at h
          split at h
          · rename_i hFresh
            cases h
            exact .registered w generation id hFresh
          · cases h
      | _ => cases h
  | timeOut =>
      cases p with
      | awaitAck id =>
          cases h
          exact .timedOut w id
      | _ => cases h
  | go =>
      cases p with
      | idle =>
          rw [exitAct] at h
          split at h
          · rename_i hStarted
            cases h
            exact .refused w hStarted
          · rename_i hStarted
            cases h
            exact .started w (by simpa using hStarted)
      | pauseSync =>
          cases h
          exact .paused w
      | readGeneration =>
          cases h
          exact .read w
      | swapInProgress generation =>
          rw [exitAct] at h
          split at h
          · rename_i hProgress
            cases h
            exact .coalesced w generation hProgress
          · rename_i hProgress
            cases h
            exact .triggered w generation (by simpa using hProgress)
      | notTriggered =>
          cases h
          exact .notTriggered w
      | findWindow id =>
          rw [exitAct] at h
          split at h
          · cases h
            exact .found w id
          · rename_i hWindow
            cases h
            exact .notFound w id (by simpa using hWindow)
      | awaitAck id =>
          rw [exitAct] at h
          split at h
          · rename_i result hPoll
            cases h
            exact .polled w id result hPoll
          · cases h
      | clearAnswered id result =>
          cases h
          exact .ended w id result
      | clearWindowless id =>
          cases h
          exact .windowless w id
      | allowExit id =>
          cases h
          exact .allowed w id
      | exit id =>
          cases h
          exact .exited w id
      | clearInProgress =>
          cases h
          exact .progressCleared w
      | clearStarted =>
          cases h
          exact .startedCleared w
      | _ => cases h

end S4Drive

import Mathlib.Data.Fintype.Basic
import S4Drive.Notes.SyncScheduler

/-
  What becomes of the sync requests. Each ends in a job with
  a result as long as the loop and the calls do not meet
  half-way: no id is stored over another, and the loop
  neither takes a follow-up nor stops while a call is about
  to store its id.

  Main declarations:
    * `Uncrossed`, `RequestsServed`
    * `runningLatch`, `Signals`, `Accounted`
    * `served_of_run`
-/

------------------------------------------------------------
-- Phases
------------------------------------------------------------

namespace S4Drive

open Concurrency

namespace SyncPhase

/- The thread runs the loop, or is about to start it. -/
def owns : SyncPhase → Bool
  | insertRunning _ | spawnLoop _ => true
  | startPass _ | inPass _ _ | recordResult _ _ => true
  | checkFollowUp | takeQueued | insertNext _ => true
  | clearRunning => true
  | _ => false

/- No call is unfinished and no loop is running here. -/
def resting : SyncPhase → Bool
  | idle | finished => true
  | _ => false

/- The job that the thread will pass on or finish. -/
def jobId? : SyncPhase → Option Uuid
  | spawnLoop id | requestFollowUp id | storeQueued id => some id
  | startPass id | inPass id _ | recordResult id _ => some id
  | insertNext id => some id
  | _ => none

/- What a thread is about to do with the queued id. -/
inductive Part where
  | other
  -- It has lost the claim and has not set the flag yet.
  | recording
  -- It has set the flag and has not stored the id yet.
  | storing
  -- It has cleared the flag and has not taken the id yet.
  | taking
deriving DecidableEq

def part : SyncPhase → Part
  | insertQueued _ | requestFollowUp _ => .recording
  | storeQueued _ => .storing
  | takeQueued => .taking
  | _ => .other

theorem quiet_of_resting
    {p : SyncPhase}
    (h : p.resting = true) :
    p.part = .other ∧ p.owns = false ∧ p.jobId? = none := by
  cases p with
  | idle => exact ⟨rfl, rfl, rfl⟩
  | finished => exact ⟨rfl, rfl, rfl⟩
  | _ => cases h

end SyncPhase

namespace NotesSyncScheduler

def Finished (w : NotesSyncScheduler) (id : Uuid) : Prop :=
  ∃ job, w.jobs id = some job ∧
    (job.state = .succeeded ∨ job.state = .failed)

/- A pass that was started after the ticket returned `Ok`. -/
def Backed (w : NotesSyncScheduler) (id : Uuid) : Prop :=
  ∃ issued ∈ w.okPasses, id ∈ issued

end NotesSyncScheduler

variable {τ : Type}

/- No loop is running and no call is unfinished. -/
def AllResting (s : SyncSchedulerState τ) : Prop :=
  ∀ t, (s.phases t).resting = true

structure RequestsServed (s : SyncSchedulerState τ) :
    Prop where
  finished : AllResting s → ∀ ticket ∈ s.cells.tickets,
    s.cells.Finished ticket.jobId
  no_follow_up : AllResting s →
    s.cells.followUpRequested = false ∧
      s.cells.queuedJobId = none
  backed : ∀ id job, s.cells.jobs id = some job →
    job.state = .succeeded →
      (∃ ticket ∈ s.cells.tickets, ticket.jobId = id) ∧
        s.cells.Backed id

/-
  An id is stored where there is none, and the loop takes a
  follow-up or stops when no call is on its way to it.
-/
def UncrossedAt
    (s : SyncSchedulerState τ) : SyncPhase → Prop
  | .storeQueued _ => s.cells.queuedJobId = none
  | .checkFollowUp =>
      s.cells.followUpRequested = true →
        ∀ u, (s.phases u).part ≠ .storing
  | .clearRunning =>
      s.cells.followUpRequested = false ∧
        ∀ u, (s.phases u).part ≠ .recording ∧
          (s.phases u).part ≠ .storing
  | _ => True

def Uncrossed
    (s : SyncSchedulerState τ) :
    SyncSchedulerEvent τ → Prop
  | .env _ => True
  | .act t _ => UncrossedAt s (s.phases t)

instance
    [Fintype τ]
    (s : SyncSchedulerState τ) :
    (p : SyncPhase) → Decidable (UncrossedAt s p)
  | .storeQueued _ =>
      inferInstanceAs (Decidable (s.cells.queuedJobId = none))
  | .checkFollowUp =>
      inferInstanceAs (Decidable (_ = true → ∀ _, _ ≠ _))
  | .clearRunning =>
      inferInstanceAs (Decidable (_ = false ∧ ∀ _, _ ≠ _ ∧ _ ≠ _))
  | .idle | .readPaused _ | .resume _ | .claim _ => .isTrue trivial
  | .insertRunning _ | .spawnLoop _ => .isTrue trivial
  | .insertQueued _ | .requestFollowUp _ => .isTrue trivial
  | .startPass _ | .inPass _ _ => .isTrue trivial
  | .recordResult _ _ | .takeQueued => .isTrue trivial
  | .insertNext _ | .finished => .isTrue trivial

instance
    [Fintype τ]
    (s : SyncSchedulerState τ) :
    (e : SyncSchedulerEvent τ) → Decidable (Uncrossed s e)
  | .env _ => .isTrue trivial
  | .act t _ =>
      inferInstanceAs (Decidable (UncrossedAt s (s.phases t)))

theorem recordResult_flags
    (w : NotesSyncScheduler)
    (id : Uuid)
    (result : Except String Unit) :
    (w.recordResult id result).isRunning = w.isRunning ∧
      (w.recordResult id result).followUpRequested =
        w.followUpRequested ∧
      (w.recordResult id result).queuedJobId =
        w.queuedJobId := by
  unfold NotesSyncScheduler.recordResult
  split <;> exact ⟨rfl, rfl, rfl⟩

theorem act_latched
    {c : SyncChoice} {p p' : SyncPhase}
    {w w' : NotesSyncScheduler}
    (h : syncScheduler.act c p w = some (p', w')) :
    (p'.owns = p.owns ∧ w'.isRunning = w.isRunning) ∨
      (w.isRunning = false ∧ p'.owns = true ∧
        w'.isRunning = true) ∨
      (p.owns = true ∧ p'.owns = false ∧
        w'.isRunning = false) := by
  cases acts_of_act h with
  | claimed _ _ hFree => exact .inr (.inl ⟨hFree, rfl, rfl⟩)
  | cleared => exact .inr (.inr ⟨rfl, rfl, rfl⟩)
  | returned _ id issued result =>
      cases result <;> exact .inl ⟨rfl, rfl⟩
  | recorded _ id result =>
      exact .inl ⟨rfl, (recordResult_flags w id result).1⟩
  | _ => exact .inl ⟨rfl, rfl⟩

/- At most one loop runs, whatever the calls do. -/
def runningLatch : Latch syncScheduler where
  flag := NotesSyncScheduler.isRunning
  owns := SyncPhase.owns
  act := act_latched
  env := by
    intro paused w w' h
    cases h
    rfl

theorem initial_held (syncPaused : Bool) :
    runningLatch.Held
      (.initial syncPaused : SyncSchedulerState τ) := by
  constructor
  · simp [runningLatch, SyncSchedulerState.initial,
      NotesSyncScheduler.new, SyncPhase.owns]
  · simp [runningLatch, SyncSchedulerState.initial,
      SyncPhase.owns]

------------------------------------------------------------
-- Signals
------------------------------------------------------------

/-
  How the two flags and the stored id go together with what
  the threads are about to do with them.
-/
structure Signals
    (running requested stored : Bool)
    (part : τ → SyncPhase.Part) : Prop where
  recording_running : ∀ t, part t = .recording →
    running = true
  storing_requested : ∀ t, part t = .storing →
    running = true ∧ requested = true
  requested_running : requested = true → running = true
  stored_awaited : stored = true →
    requested = true ∨ ∃ t, part t = .taking
  requested_stored : requested = true →
    (stored = true ∧ ∀ t, part t ≠ .taking) ∨
      ∃ t, part t = .storing
  taking_stored : ∀ t, part t = .taking → stored = true

namespace Signals

variable {running requested stored : Bool}
variable {part : τ → SyncPhase.Part} {t : τ}

theorem initial
    (hPart : ∀ t, part t = .other) :
    Signals false false false part := by
  constructor <;> simp [hPart]

theorem claim
    (h : Signals running requested stored part) :
    Signals true requested stored part where
  recording_running := fun _ _ => rfl
  storing_requested := fun t ht =>
    ⟨rfl, (h.storing_requested t ht).2⟩
  requested_running := fun _ => rfl
  stored_awaited := h.stored_awaited
  requested_stored := h.requested_stored
  taking_stored := h.taking_stored

/- The loop stops when nobody is about to ask for more. -/
theorem clear
    (h : Signals running false stored part)
    (hCalls : ∀ u, part u ≠ .recording ∧ part u ≠ .storing) :
    Signals false false stored part where
  recording_running := fun t ht => absurd ht (hCalls t).1
  storing_requested := fun t ht => absurd ht (hCalls t).2
  requested_running := fun h => absurd h (by decide)
  stored_awaited := h.stored_awaited
  requested_stored := fun h => absurd h (by decide)
  taking_stored := h.taking_stored

variable [DecidableEq τ]
variable {a b x : SyncPhase.Part}

theorem update_part_iff
    (ht : part t = a)
    (ha : x ≠ a)
    (hb : x ≠ b)
    (u : τ) :
    Function.update part t b u = x ↔ part u = x := by
  by_cases hut : u = t
  · subst hut
    simp [ht, ha.symm, hb.symm]
  · simp [hut]

theorem coalesce
    (h : Signals true requested stored part)
    (ht : part t = .other) :
    Signals true requested stored
      (Function.update part t .recording) := by
  have hStoring := update_part_iff (b := .recording) ht
    (show SyncPhase.Part.storing ≠ .other by decide) (by decide)
  have hTaking := update_part_iff (b := .recording) ht
    (show SyncPhase.Part.taking ≠ .other by decide) (by decide)
  exact
    { recording_running := fun _ _ => rfl
      storing_requested := fun u hu =>
        h.storing_requested u ((hStoring u).mp hu)
      requested_running := fun _ => rfl
      stored_awaited := by
        simpa only [hTaking] using h.stored_awaited
      requested_stored := by
        simpa only [ne_eq, hStoring, hTaking] using
          h.requested_stored
      taking_stored := fun u hu =>
        h.taking_stored u ((hTaking u).mp hu) }

theorem request
    (h : Signals running requested stored part)
    (ht : part t = .recording) :
    Signals running true stored
      (Function.update part t .storing) := by
  have hRunning := h.recording_running t ht
  have hTaking := update_part_iff (b := .storing) ht
    (show SyncPhase.Part.taking ≠ .recording by decide)
    (by decide)
  exact
    { recording_running := fun _ _ => hRunning
      storing_requested := fun _ _ => ⟨hRunning, rfl⟩
      requested_running := fun _ => hRunning
      stored_awaited := fun _ => .inl rfl
      requested_stored := fun _ => .inr ⟨t, by simp⟩
      taking_stored := fun u hu =>
        h.taking_stored u ((hTaking u).mp hu) }

/- Nobody is taking an id as long as none is stored. -/
theorem store
    (h : Signals running requested false part)
    (ht : part t = .storing) :
    Signals running requested true
      (Function.update part t .other) := by
  rcases h.storing_requested t ht with ⟨hRunning, hRequested⟩
  have hTaking := update_part_iff (b := .other) ht
    (show SyncPhase.Part.taking ≠ .storing by decide)
    (by decide)
  have hNone : ∀ u, part u ≠ .taking := fun u hu =>
    absurd (h.taking_stored u hu) (by decide)
  exact
    { recording_running := fun _ _ => hRunning
      storing_requested := fun _ _ => ⟨hRunning, hRequested⟩
      requested_running := fun _ => hRunning
      stored_awaited := fun _ => .inl hRequested
      requested_stored := fun _ =>
        .inl ⟨rfl, fun u hu => hNone u ((hTaking u).mp hu)⟩
      taking_stored := fun _ _ => rfl }

/- The flag is cleared for an id that is already there. -/
theorem follow
    (h : Signals running true stored part)
    (ht : part t = .other)
    (hCalls : ∀ u, part u ≠ .storing) :
    Signals running false stored
      (Function.update part t .taking) := by
  have hRunning := h.requested_running rfl
  have hStoring := update_part_iff (b := .taking) ht
    (show SyncPhase.Part.storing ≠ .other by decide)
    (by decide)
  have hStored : stored = true := by
    rcases h.requested_stored rfl with ⟨hStored, _⟩ | ⟨u, hu⟩
    · exact hStored
    · exact absurd hu (hCalls u)
  exact
    { recording_running := fun _ _ => hRunning
      storing_requested := fun u hu =>
        absurd ((hStoring u).mp hu) (hCalls u)
      requested_running := fun h => absurd h (by decide)
      stored_awaited := fun _ => .inr ⟨t, by simp⟩
      requested_stored := fun h => absurd h (by decide)
      taking_stored := fun _ _ => hStored }

theorem take
    (h : Signals running requested stored part)
    (ht : part t = .taking)
    (hAlone : ∀ u, u ≠ t → part u ≠ .taking) :
    Signals running requested false
      (Function.update part t .other) := by
  have hRecording := update_part_iff (b := .other) ht
    (show SyncPhase.Part.recording ≠ .taking by decide)
    (by decide)
  have hStoring := update_part_iff (b := .other) ht
    (show SyncPhase.Part.storing ≠ .taking by decide)
    (by decide)
  exact
    { recording_running := fun u hu =>
        h.recording_running u ((hRecording u).mp hu)
      storing_requested := fun u hu =>
        h.storing_requested u ((hStoring u).mp hu)
      requested_running := h.requested_running
      stored_awaited := fun h => absurd h (by decide)
      requested_stored := by
        intro hRequested
        rcases h.requested_stored hRequested with
          ⟨_, hNone⟩ | ⟨u, hu⟩
        · exact absurd ht (hNone t)
        · exact .inr ⟨u, (hStoring u).mpr hu⟩
      taking_stored := by
        intro u hu
        by_cases hut : u = t
        · simp [hut] at hu
        · have hu : part u = .taking := by
            simpa [hut] using hu
          exact absurd hu (hAlone u hut) }

end Signals

/- The signals of a state, as its cells and phases are. -/
def SignalsKept (s : SyncSchedulerState τ) : Prop :=
  Signals s.cells.isRunning s.cells.followUpRequested
    s.cells.queuedJobId.isSome fun u => (s.phases u).part

section

variable [DecidableEq τ]
variable {phases : τ → SyncPhase} {t : τ}
variable {c : SyncChoice} {p q : SyncPhase}
variable {v w : NotesSyncScheduler}

theorem part_update (p : SyncPhase) :
    (fun u => (Function.update phases t p u).part) =
      Function.update (fun u => (phases u).part) t p.part := by
  funext u
  by_cases hut : u = t
  · subst hut
    simp
  · simp [hut]

theorem part_update_of_eq
    (hPart : p.part = (phases t).part) :
    (fun u => (Function.update phases t p u).part) =
      fun u => (phases u).part := by
  rw [part_update, hPart]
  exact Function.update_eq_self t fun u => (phases u).part

/- A step that neither signals nor waits for a signal. -/
theorem SignalsKept.frame
    (h : SignalsKept ⟨v, phases⟩)
    (hPart : p.part = (phases t).part)
    (hRunning : w.isRunning = v.isRunning)
    (hRequested : w.followUpRequested = v.followUpRequested)
    (hQueued : w.queuedJobId = v.queuedJobId) :
    SignalsKept ⟨w, Function.update phases t p⟩ := by
  unfold SignalsKept at h ⊢
  rw [part_update_of_eq hPart]
  simpa only [hRunning, hRequested, hQueued] using h

omit [DecidableEq τ] in
/- Only the thread that runs the loop takes an id. -/
theorem taking_alone
    (hHeld : runningLatch.Held ⟨v, phases⟩)
    (hPhase : phases t = .takeQueued)
    {u : τ} (hut : u ≠ t) : (phases u).part ≠ .taking := by
  intro hu
  have hOwns : runningLatch.owns (phases t) = true := by
    rw [hPhase]
    rfl
  have hOut := hHeld.alone hOwns hut
  cases hOther : phases u with
  | takeQueued =>
      simp [hOther, runningLatch, SyncPhase.owns] at hOut
  | _ => simp [hOther, SyncPhase.part] at hu

theorem SignalsKept.act
    (h : SignalsKept ⟨v, phases⟩)
    (hHeld : runningLatch.Held ⟨v, phases⟩)
    (hMeets : Uncrossed ⟨v, phases⟩ (.act t c))
    (hPhase : phases t = q)
    (hActs : Acts q v p w) :
    SignalsKept ⟨w, Function.update phases t p⟩ := by
  have hPart : (phases t).part = q.part := by rw [hPhase]
  simp only [Uncrossed, UncrossedAt, hPhase] at hMeets
  cases hActs with
  | coalesced _ _ hRunning =>
      unfold SignalsKept at h ⊢
      rw [part_update]
      simp only [hRunning] at h ⊢
      exact h.coalesce hPart
  | claimed _ id =>
      unfold SignalsKept
      rw [part_update_of_eq (p := .insertRunning id) hPart.symm]
      exact h.claim
  | requested =>
      unfold SignalsKept
      rw [part_update]
      exact h.request hPart
  | stored id =>
      unfold SignalsKept at h ⊢
      rw [part_update]
      simp only [hMeets] at h
      exact h.store hPart
  | followed _ hRequested =>
      unfold SignalsKept at h ⊢
      rw [part_update]
      simp only [hRequested] at h
      exact h.follow hPart (hMeets hRequested)
  | taken id =>
      unfold SignalsKept
      rw [part_update]
      exact h.take hPart fun u => taking_alone hHeld hPhase
  | cleared =>
      unfold SignalsKept at h ⊢
      rw [part_update_of_eq (p := .finished) hPart.symm]
      simp only [hMeets.1] at h ⊢
      exact h.clear hMeets.2
  | returned _ id issued result =>
      cases result <;> exact h.frame hPart.symm rfl rfl rfl
  | recorded _ id result =>
      have hFlags := recordResult_flags v id result
      exact h.frame hPart.symm hFlags.1 hFlags.2.1 hFlags.2.2
  | _ => exact h.frame hPart.symm rfl rfl rfl

end

------------------------------------------------------------
-- Jobs
------------------------------------------------------------

/- Nothing that is noted or entered is taken back. -/
structure SchedulerGrows (w w' : NotesSyncScheduler) : Prop where
  issued : ∀ id ∈ w.issuedIds, id ∈ w'.issuedIds
  jobs : ∀ id, (w.jobs id).isSome = true →
    (w'.jobs id).isSome = true
  backed : ∀ id, w.Backed id → w'.Backed id

/- What a thread knows about the job that it has. -/
def SyncPhase.Sound
    (w : NotesSyncScheduler) : SyncPhase → Prop
  | .requestFollowUp id | .storeQueued id | .insertNext id =>
      id ∈ w.issuedIds
  | .spawnLoop id | .startPass id =>
      id ∈ w.issuedIds ∧ (w.jobs id).isSome = true
  | .inPass id issued =>
      id ∈ w.issuedIds ∧ (w.jobs id).isSome = true ∧
        id ∈ issued
  | .recordResult id result =>
      id ∈ w.issuedIds ∧ (w.jobs id).isSome = true ∧
        (result.isOk = true → w.Backed id)
  | _ => True

theorem SyncPhase.Sound.mono
    {p : SyncPhase} {w w' : NotesSyncScheduler}
    (hGrows : SchedulerGrows w w')
    (h : p.Sound w) : p.Sound w' := by
  cases p with
  | requestFollowUp id => exact hGrows.issued id h
  | storeQueued id => exact hGrows.issued id h
  | insertNext id => exact hGrows.issued id h
  | spawnLoop id => exact ⟨hGrows.issued id h.1, hGrows.jobs id h.2⟩
  | startPass id => exact ⟨hGrows.issued id h.1, hGrows.jobs id h.2⟩
  | inPass id issued =>
      exact ⟨hGrows.issued id h.1, hGrows.jobs id h.2.1, h.2.2⟩
  | recordResult id result =>
      exact ⟨hGrows.issued id h.1, hGrows.jobs id h.2.1,
        fun hOk => hGrows.backed id (h.2.2 hOk)⟩
  | _ => trivial

namespace NotesSyncScheduler

variable {w : NotesSyncScheduler} {id other : Uuid}
variable {job : SyncJobStatus} {result : Except String Unit}

theorem isSome_insertJob
    (h : (w.jobs other).isSome = true) :
    ((w.insertJob id job).jobs other).isSome = true := by
  by_cases hId : other = id
  · simp [insertJob, hId]
  · simpa [insertJob, hId] using h

theorem grows_insertJob :
    SchedulerGrows w (w.insertJob id job) where
  issued := fun _ h => h
  jobs := fun _ => isSome_insertJob
  backed := fun _ h => h

theorem grows_recordResult :
    SchedulerGrows w (w.recordResult id result) := by
  unfold recordResult
  split
  · exact ⟨fun _ h => h, fun _ h => h, fun _ h => h⟩
  · exact grows_insertJob

theorem grows_issue (ticket : SyncTicket) :
    SchedulerGrows w (w.issue ticket) where
  issued := fun _ h => List.mem_cons_of_mem _ h
  jobs := fun _ h => h
  backed := fun _ h => h

theorem grows_passReturned (issued : List Uuid) :
    SchedulerGrows w (w.passReturned issued result) := by
  cases result with
  | error err => exact ⟨fun _ h => h, fun _ h => h, fun _ h => h⟩
  | ok _ =>
      refine ⟨fun _ h => h, fun _ h => h, ?_⟩
      rintro id ⟨issued, hPass, hId⟩
      exact ⟨issued, List.mem_cons_of_mem _ hPass, hId⟩

theorem ofResult_state (result : Except String Unit) :
    (SyncJobStatus.ofResult result).state = .succeeded ∨
      (SyncJobStatus.ofResult result).state = .failed := by
  cases result with
  | ok _ => exact .inl rfl
  | error err => exact .inr rfl

theorem finished_insertJob
    (hId : other ≠ id)
    (h : w.Finished other) :
    (w.insertJob id job).Finished other := by
  rcases h with ⟨found, hFound, hState⟩
  exact ⟨found, by simpa [insertJob, hId] using hFound, hState⟩

theorem finished_recordResult
    (hJob : (w.jobs id).isSome = true) :
    (w.recordResult id result).Finished id := by
  rcases Option.isSome_iff_exists.mp hJob with ⟨job, hJob⟩
  refine ⟨.ofResult result, ?_, ofResult_state result⟩
  simp [recordResult, hJob, insertJob]

/- The result of one job leaves the other jobs alone. -/
theorem jobs_recordResult
    (hId : other ≠ id) :
    (w.recordResult id result).jobs other = w.jobs other := by
  unfold recordResult
  split
  · rfl
  · simp [insertJob, hId]

end NotesSyncScheduler

theorem SchedulerGrows.trans
    {w w' w'' : NotesSyncScheduler}
    (first : SchedulerGrows w w')
    (second : SchedulerGrows w' w'') : SchedulerGrows w w'' where
  issued := fun id h => second.issued id (first.issued id h)
  jobs := fun id h => second.jobs id (first.jobs id h)
  backed := fun id h => second.backed id (first.backed id h)

namespace Acts

variable {p p' : SyncPhase} {w w' : NotesSyncScheduler}
variable {id : Uuid}

theorem grows (h : Acts p w p' w') : SchedulerGrows w w' := by
  cases h with
  | enteredRunning _ _ id =>
      exact .trans NotesSyncScheduler.grows_insertJob
        (NotesSyncScheduler.grows_issue _)
  | enteredQueued _ _ id =>
      exact .trans NotesSyncScheduler.grows_insertJob
        (NotesSyncScheduler.grows_issue _)
  | enteredNext => exact NotesSyncScheduler.grows_insertJob
  | recorded => exact NotesSyncScheduler.grows_recordResult
  | returned _ id issued =>
      exact NotesSyncScheduler.grows_passReturned issued
  | _ => exact ⟨fun _ h => h, fun _ h => h, fun _ h => h⟩

theorem sound
    (h : Acts p w p' w')
    (hSound : p.Sound w)
    (hQueued : ∀ id, w.queuedJobId = some id →
      id ∈ w.issuedIds)
    (hTaking : p.part = .taking →
      w.queuedJobId.isSome = true) : p'.Sound w' := by
  cases h with
  | enteredRunning _ _ id =>
      refine ⟨List.mem_cons_self, ?_⟩
      simp [NotesSyncScheduler.issue,
        NotesSyncScheduler.insertJob]
  | enteredQueued _ _ id => exact List.mem_cons_self
  | spawned => exact hSound
  | requested => exact hSound
  | started => exact ⟨hSound.1, hSound.2, hSound.1⟩
  | returned _ id issued result =>
      have hGrows :
          SchedulerGrows w (w.passReturned issued result) :=
        NotesSyncScheduler.grows_passReturned issued
      refine ⟨hGrows.issued id hSound.1,
        hGrows.jobs id hSound.2.1, ?_⟩
      intro hOk
      cases result with
      | error err => cases hOk
      | ok u => exact ⟨issued, List.mem_cons_self, hSound.2.2⟩
  | taken _ newJobId =>
      rcases Option.isSome_iff_exists.mp (hTaking rfl) with
        ⟨id, hId⟩
      simp only [SyncPhase.Sound, hId, Option.getD_some]
      exact hQueued id hId
  | enteredNext _ id =>
      refine ⟨hSound, ?_⟩
      simp [NotesSyncScheduler.insertJob]
  | _ => trivial

/- A new ticket is with the thread that has made it. -/
theorem issued
    (h : Acts p w p' w')
    (hIssued : id ∈ w'.issuedIds) :
    id ∈ w.issuedIds ∨ p'.jobId? = some id := by
  cases h with
  | enteredRunning _ _ jobId =>
      rcases List.mem_cons.mp hIssued with rfl | hBefore
      · exact .inr rfl
      · exact .inl hBefore
  | enteredQueued _ _ jobId =>
      rcases List.mem_cons.mp hIssued with rfl | hBefore
      · exact .inr rfl
      · exact .inl hBefore
  | returned _ jobId issued result =>
      cases result <;> exact .inl hIssued
  | recorded _ jobId result =>
      unfold NotesSyncScheduler.recordResult at hIssued
      split at hIssued <;> exact .inl hIssued
  | _ => exact .inl hIssued

/- A job that is entered again is with the thread then. -/
theorem finished_of_insert
    {job : SyncJobStatus} {jobId : Uuid}
    (hFinished : w.Finished id) :
    (w.insertJob jobId job).Finished id ∨
      some jobId = some id := by
  by_cases hId : id = jobId
  · exact .inr (congrArg some hId.symm)
  · exact .inl (NotesSyncScheduler.finished_insertJob hId hFinished)

theorem finished
    (h : Acts p w p' w')
    (hFinished : w.Finished id) :
    w'.Finished id ∨ p'.jobId? = some id := by
  cases h with
  | enteredRunning => exact finished_of_insert hFinished
  | enteredQueued => exact finished_of_insert hFinished
  | enteredNext => exact finished_of_insert hFinished
  | returned _ jobId issued result =>
      cases result <;> exact .inl hFinished
  | recorded _ jobId result =>
      left
      by_cases hId : id = jobId
      · subst hId
        rcases hFinished with ⟨job, hJob, _⟩
        exact NotesSyncScheduler.finished_recordResult
          (by simp [hJob])
      · unfold NotesSyncScheduler.Finished
        rw [NotesSyncScheduler.jobs_recordResult hId]
        exact hFinished
  | _ => exact .inl hFinished

/- The queued id is only replaced by the loop's taking it. -/
theorem queued
    (h : Acts p w p' w')
    (hStoring : p.part = .storing → w.queuedJobId = none)
    (hQueued : w.queuedJobId = some id) :
    w'.queuedJobId = some id ∨ p'.jobId? = some id := by
  cases h with
  | stored _ jobId =>
      rw [hStoring rfl] at hQueued
      cases hQueued
  | taken _ newJobId =>
      right
      simp [SyncPhase.jobId?, hQueued]
  | returned _ jobId issued result =>
      cases result <;> exact .inl hQueued
  | recorded _ jobId result =>
      left
      rw [(recordResult_flags w jobId result).2.2]
      exact hQueued
  | _ => exact .inl hQueued

/- A thread keeps its job, stores it or records its result. -/
theorem jobId
    (h : Acts p w p' w')
    (hSound : p.Sound w)
    (hJob : p.jobId? = some id) :
    w'.Finished id ∨ w'.queuedJobId = some id ∨
      p'.jobId? = some id := by
  cases h with
  | stored _ jobId => exact .inr (.inl hJob)
  | recorded _ jobId result =>
      cases hJob
      exact .inl (NotesSyncScheduler.finished_recordResult
        hSound.2.1)
  | spawned => exact .inr (.inr hJob)
  | requested => exact .inr (.inr hJob)
  | started => exact .inr (.inr hJob)
  | returned => exact .inr (.inr hJob)
  | enteredNext => exact .inr (.inr hJob)
  | _ => cases hJob

/-
  A job that has succeeded now did so before, and is no new
  ticket's, or its pass was `Ok` and is recorded.
-/
theorem succeeded
    {job : SyncJobStatus}
    (h : Acts p w p' w')
    (hJob : w'.jobs id = some job)
    (hState : job.state = .succeeded) :
    (w.jobs id = some job ∧
        (id ∈ w'.issuedIds → id ∈ w.issuedIds)) ∨
      ∃ u, p = .recordResult id (.ok u) := by
  have hInsert : ∀ {jobId : Uuid} {state : NotesJobState},
      state ≠ .succeeded →
      (w.insertJob jobId (.waiting state)).jobs id = some job →
      id ≠ jobId ∧ w.jobs id = some job := by
    intro jobId state hWaiting hInserted
    by_cases hId : id = jobId
    · subst hId
      simp only [NotesSyncScheduler.insertJob,
        Function.update_self, Option.some.injEq] at hInserted
      subst hInserted
      exact absurd hState hWaiting
    · exact ⟨hId,
        by simpa [NotesSyncScheduler.insertJob, hId] using
          hInserted⟩
  cases h with
  | enteredRunning =>
      rcases hInsert (by decide) hJob with ⟨hId, hBefore⟩
      exact .inl ⟨hBefore, List.mem_of_ne_of_mem hId⟩
  | enteredQueued =>
      rcases hInsert (by decide) hJob with ⟨hId, hBefore⟩
      exact .inl ⟨hBefore, List.mem_of_ne_of_mem hId⟩
  | enteredNext =>
      exact .inl ⟨(hInsert (by decide) hJob).2, fun h => h⟩
  | returned _ jobId issued result =>
      cases result <;> exact .inl ⟨hJob, fun h => h⟩
  | recorded _ jobId result =>
      unfold NotesSyncScheduler.recordResult at hJob ⊢
      split at hJob
      · exact .inl ⟨hJob, fun h => h⟩
      · by_cases hId : id = jobId
        · subst hId
          simp only [NotesSyncScheduler.insertJob,
            Function.update_self, Option.some.injEq] at hJob
          subst hJob
          cases result with
          | ok u => exact .inr ⟨u, rfl⟩
          | error err => cases hState
        · left
          exact ⟨by simpa [NotesSyncScheduler.insertJob, hId] using
            hJob, fun h => h⟩
  | _ => exact .inl ⟨hJob, fun h => h⟩

/- A job succeeds by the result of a pass that was `Ok`. -/
theorem backed
    {job : SyncJobStatus}
    (h : Acts p w p' w')
    (hSound : p.Sound w)
    (hJob : w'.jobs id = some job)
    (hState : job.state = .succeeded) :
    w.jobs id = some job ∨
      (id ∈ w'.issuedIds ∧ w'.Backed id) := by
  rcases h.succeeded hJob hState with ⟨hBefore, _⟩ | ⟨u, rfl⟩
  · exact .inl hBefore
  · exact .inr ⟨h.grows.issued id hSound.1,
      h.grows.backed id (hSound.2.2 rfl)⟩

end Acts

/- Every ticket's job has a result or is somewhere on its way. -/
structure Accounted (s : SyncSchedulerState τ) : Prop where
  sound : ∀ t, (s.phases t).Sound s.cells
  queued : ∀ id, s.cells.queuedJobId = some id →
    id ∈ s.cells.issuedIds
  waiting : ∀ id ∈ s.cells.issuedIds,
    s.cells.Finished id ∨ s.cells.queuedJobId = some id ∨
      ∃ t, (s.phases t).jobId? = some id
  backed : ∀ id job, s.cells.jobs id = some job →
    job.state = .succeeded →
      id ∈ s.cells.issuedIds ∧ s.cells.Backed id

------------------------------------------------------------
-- Runs
------------------------------------------------------------

section

variable [DecidableEq τ]
variable {phases : τ → SyncPhase} {t : τ}
variable {c : SyncChoice} {p q : SyncPhase}
variable {v w : NotesSyncScheduler}

theorem Accounted.act
    (h : Accounted ⟨v, phases⟩)
    (hSignals : SignalsKept ⟨v, phases⟩)
    (hMeets : Uncrossed ⟨v, phases⟩ (.act t c))
    (hPhase : phases t = q)
    (hActs : Acts q v p w) :
    Accounted ⟨w, Function.update phases t p⟩ := by
  have hSound : q.Sound v := hPhase ▸ h.sound t
  have hStoring : q.part = .storing → v.queuedJobId = none := by
    intro hPart
    cases q with
    | storeQueued id =>
        simpa only [Uncrossed, UncrossedAt, hPhase] using
          hMeets
    | _ => cases hPart
  have hTaking : q.part = .taking →
      v.queuedJobId.isSome = true := fun hPart =>
    hSignals.taking_stored t (by simpa [hPhase] using hPart)
  have hGrows := hActs.grows
  constructor
  · apply PhaseState.forall_update
      (P := fun _ x => SyncPhase.Sound w x)
    · intro u _
      exact (h.sound u).mono hGrows
    · exact hActs.sound hSound h.queued hTaking
  · intro id hId
    cases hActs with
    | stored _ jobId =>
        cases hId
        exact hSound
    | taken => cases hId
    | returned _ jobId issued result =>
        cases result <;> exact h.queued id hId
    | recorded _ jobId result =>
        rw [(recordResult_flags v jobId result).2.2] at hId
        exact hGrows.issued id (h.queued id hId)
    | _ => exact hGrows.issued id (h.queued id hId)
  · intro id hId
    -- Where the thread that moves has the job now, or not.
    have hMoved : p.jobId? = some id →
        ∃ u, (Function.update phases t p u).jobId? = some id :=
      PhaseState.exists_moved
        (P := fun x => SyncPhase.jobId? x = some id)
    rcases hActs.issued hId with hBefore | hNew
    · rcases h.waiting id hBefore with
        hFinished | hQueued | ⟨u, hu⟩
      · rcases hActs.finished hFinished with hStill | hHas
        · exact .inl hStill
        · exact .inr (.inr (hMoved hHas))
      · rcases hActs.queued hStoring hQueued with hStill | hHas
        · exact .inr (.inl hStill)
        · exact .inr (.inr (hMoved hHas))
      · by_cases hut : u = t
        · subst hut
          have hJob : q.jobId? = some id := hPhase ▸ hu
          rcases hActs.jobId hSound hJob with
            hFinished | hQueued | hHas
          · exact .inl hFinished
          · exact .inr (.inl hQueued)
          · exact .inr (.inr (hMoved hHas))
        · exact .inr (.inr ⟨u, by simpa [hut] using hu⟩)
    · exact .inr (.inr (hMoved hNew))
  · intro id job hJob hState
    rcases hActs.backed hSound hJob hState with hBefore | hNow
    · rcases h.backed id job hBefore hState with
        ⟨hIssued, hBacked⟩
      exact ⟨hGrows.issued id hIssued, hGrows.backed id hBacked⟩
    · exact hNow

/- What holds in every state that a run reaches. -/
structure SchedulerInv (s : SyncSchedulerState τ) : Prop where
  held : runningLatch.Held s
  signals : SignalsKept s
  accounted : Accounted s

omit [DecidableEq τ] in
theorem initial_inv (syncPaused : Bool) :
    SchedulerInv
      (.initial syncPaused : SyncSchedulerState τ) where
  held := initial_held syncPaused
  signals := Signals.initial fun _ => rfl
  accounted :=
    { sound := fun _ => trivial
      queued := fun _ h => by cases h
      waiting := fun _ h => by cases h
      backed := fun _ _ h => by cases h }

theorem SchedulerInv.step
    {s s' : SyncSchedulerState τ} {e : SyncSchedulerEvent τ}
    (hMeets : Uncrossed s e)
    (hStep : syncScheduler.step s e = some s')
    (h : SchedulerInv s) : SchedulerInv s' := by
  have hHeld := h.held.step hStep
  cases e with
  | act t c =>
      rcases PhaseSystem.step_act hStep with ⟨p, w, hAct, rfl⟩
      have hActs := acts_of_act hAct
      exact ⟨hHeld, h.signals.act h.held hMeets rfl hActs,
        h.accounted.act h.signals hMeets rfl hActs⟩
  | env paused =>
      rcases PhaseSystem.step_env hStep with ⟨w, hEnv, rfl⟩
      cases hEnv
      refine ⟨hHeld, h.signals, ?_⟩
      have hGrows : SchedulerGrows s.cells
          { s.cells with syncPaused := paused } :=
        ⟨fun _ h => h, fun _ h => h, fun _ h => h⟩
      exact
        { sound := fun t => (h.accounted.sound t).mono hGrows
          queued := h.accounted.queued
          waiting := h.accounted.waiting
          backed := h.accounted.backed }

omit [DecidableEq τ] in
/- Where everything rests there is nobody to wait for. -/
theorem SchedulerInv.served
    {s : SyncSchedulerState τ}
    (h : SchedulerInv s) : RequestsServed s := by
  have hRequested : AllResting s →
      s.cells.followUpRequested = false := by
    intro hRests
    apply Bool.eq_false_iff.mpr
    intro hSet
    have hRunning := h.signals.requested_running hSet
    rcases h.held.set_iff.mp hRunning with ⟨t, hOwns⟩
    have hQuiet := SyncPhase.quiet_of_resting (hRests t)
    exact absurd (hQuiet.2.1.symm.trans hOwns) (by decide)
  have hQueued : AllResting s → s.cells.queuedJobId = none := by
    intro hRests
    cases hId : s.cells.queuedJobId with
    | none => rfl
    | some id =>
        rcases h.signals.stored_awaited (by simp [hId]) with
          hSet | ⟨t, ht⟩
        · simp [hRequested hRests] at hSet
        · have hQuiet := SyncPhase.quiet_of_resting (hRests t)
          exact absurd (hQuiet.1.symm.trans ht) (by decide)
  constructor
  · intro hRests ticket hTicket
    have hIssued := List.mem_map_of_mem (f := SyncTicket.jobId)
      hTicket
    rcases h.accounted.waiting _ hIssued with
      hFinished | hId | ⟨t, ht⟩
    · exact hFinished
    · simp [hQueued hRests] at hId
    · have hQuiet := SyncPhase.quiet_of_resting (hRests t)
      exact absurd (hQuiet.2.2.symm.trans ht) (by simp)
  · intro hRests
    exact ⟨hRequested hRests, hQueued hRests⟩
  · intro id job hJob hState
    rcases h.accounted.backed id job hJob hState with
      ⟨hIssued, hBacked⟩
    exact ⟨List.mem_map.mp hIssued, hBacked⟩

end

variable [DecidableEq τ]

/-
  No request is lost in a run in which the calls and the
  loop do not meet half-way.
-/
theorem served_of_run
    {syncPaused : Bool}
    {events : List (SyncSchedulerEvent τ)}
    {s : SyncSchedulerState τ}
    (run : syncScheduler.Run Uncrossed
      (SyncSchedulerState.initial syncPaused) events s) :
    RequestsServed s :=
  (run.keeps (initial_inv syncPaused)
    SchedulerInv.step).served

/- A call up to the entry of its job, under a drawn id. -/
def callSteps
    (t : Fin 3)
    (id : Uuid) : List (SyncSchedulerEvent (Fin 3)) :=
  [.act t (.call 0), .act t .go, .act t .go, .act t (.draw id)]

/- A call that takes the claim and starts its first pass. -/
def firstCall : List (SyncSchedulerEvent (Fin 3)) :=
  callSteps 0 10 ++ [.act 0 .go, .act 0 .go]

/- The pass returns, and its result is recorded. -/
def passEnds : List (SyncSchedulerEvent (Fin 3)) :=
  [.act 0 (.passReturns (.ok ())), .act 0 .go]

/- The loop goes on for the id that is stored, or a new one. -/
def nextPass : List (SyncSchedulerEvent (Fin 3)) :=
  [.act 0 .go, .act 0 (.draw 13), .act 0 .go, .act 0 .go]

def loopEnds : List (SyncSchedulerEvent (Fin 3)) :=
  [.act 0 .go, .act 0 .go]

def storeRequest (t : Fin 3) : List (SyncSchedulerEvent (Fin 3)) :=
  [.act t .go, .act t .go]

/- A request during a pass, which the next pass is for. -/
def followed : List (SyncSchedulerEvent (Fin 3)) :=
  firstCall ++ callSteps 1 11 ++ storeRequest 1 ++
    passEnds ++ nextPass ++ passEnds ++ loopEnds

/- All rests, and the tickets are those of both calls. -/
def bothReturned (s : SyncSchedulerState (Fin 3)) : Bool :=
  decide (∀ t, (s.phases t).resting = true) &&
    decide (s.cells.issuedIds = [11, 10])

theorem followed_request_served :
    ∃ s, syncScheduler.Run Uncrossed
        (SyncSchedulerState.initial false) followed.reverse s ∧
      AllResting s ∧ s.cells.issuedIds = [11, 10] ∧
      RequestsServed s := by
  have hExec :
      (syncScheduler.execIf Uncrossed
        (SyncSchedulerState.initial false) followed).any
          bothReturned = true := by
    decide +kernel
  rcases PhaseSystem.Run.exists_of_execIf hExec with
    ⟨s, run, hTest⟩
  simp only [bothReturned, Bool.and_eq_true,
    decide_eq_true_eq] at hTest
  exact ⟨s, run, hTest.1, hTest.2, served_of_run run⟩

/- Two requests during one pass. -/
def overwritten : List (SyncSchedulerEvent (Fin 3)) :=
  firstCall ++ callSteps 1 11 ++ storeRequest 1 ++
    callSteps 2 12 ++ storeRequest 2 ++
    passEnds ++ nextPass ++ passEnds ++ loopEnds

/- A request after the last look at the flag. -/
def tooLate : List (SyncSchedulerEvent (Fin 3)) :=
  firstCall ++ passEnds ++ [.act 0 .go] ++ callSteps 1 11 ++
    [.act 0 .go] ++ storeRequest 1

/- A request whose flag is seen before its id is stored. -/
def halfStored : List (SyncSchedulerEvent (Fin 3)) :=
  firstCall ++ callSteps 1 11 ++ [.act 1 .go] ++
    passEnds ++ nextPass ++ [.act 1 .go] ++ passEnds ++ loopEnds

def leftQueued
    (id : Uuid)
    (s : SyncSchedulerState (Fin 3)) : Bool :=
  decide (∀ t, (s.phases t).resting = true) &&
    decide (id ∈ s.cells.issuedIds) &&
    decide (s.cells.jobs id = some (.waiting .queued))

theorem not_served_of_leftQueued
    {id : Uuid} {s : SyncSchedulerState (Fin 3)}
    (h : leftQueued id s = true) : ¬ RequestsServed s := by
  simp only [leftQueued, Bool.and_eq_true, decide_eq_true_eq]
    at h
  rcases h with ⟨⟨hRests, hIssued⟩, hQueued⟩
  intro hServed
  rcases List.mem_map.mp hIssued with ⟨ticket, hTicket, rfl⟩
  rcases hServed.finished hRests ticket hTicket with
    ⟨job, hJob, hState⟩
  rw [hQueued] at hJob
  cases hJob
  rcases hState with hState | hState <;> cases hState

theorem lost_requests :
    (∃ s, syncScheduler.Run (fun _ _ => True)
        (SyncSchedulerState.initial false)
        overwritten.reverse s ∧ ¬ RequestsServed s) ∧
      (∃ s, syncScheduler.Run (fun _ _ => True)
        (SyncSchedulerState.initial false)
        tooLate.reverse s ∧ ¬ RequestsServed s) ∧
      (∃ s, syncScheduler.Run (fun _ _ => True)
        (SyncSchedulerState.initial false)
        halfStored.reverse s ∧ ¬ RequestsServed s) := by
  have hLost : ∀ events,
      (syncScheduler.execIf (fun _ _ => True)
        (SyncSchedulerState.initial false) events).any
          (leftQueued 11) = true →
      ∃ s, syncScheduler.Run (fun _ _ => True)
        (SyncSchedulerState.initial false)
        events.reverse s ∧ ¬ RequestsServed s := by
    intro events h
    rcases PhaseSystem.Run.exists_of_execIf h with
      ⟨s, run, hLeft⟩
    exact ⟨s, run, not_served_of_leftQueued hLeft⟩
  exact ⟨hLost overwritten (by decide +kernel),
    hLost tooLate (by decide +kernel),
    hLost halfStored (by decide +kernel)⟩

------------------------------------------------------------
-- Reported Passes
------------------------------------------------------------

/-
  One loop runs at most, and a ticket's job has only
  succeeded by a pass that was started after the ticket.
-/
structure ReportsPasses (s : SyncSchedulerState τ) : Prop where
  one : ∀ t u, (s.phases t).owns = true →
    (s.phases u).owns = true → t = u
  running : s.cells.isRunning = true ↔
    ∃ t, (s.phases t).owns = true
  backed : ∀ id ∈ s.cells.issuedIds, ∀ job,
    s.cells.jobs id = some job → job.state = .succeeded →
      s.cells.Backed id

/- No id is drawn that a thread is at work for. -/
def FreshDraws
    (s : SyncSchedulerState τ) :
    SyncSchedulerEvent τ → Prop
  | .act _ (.draw id) => ∀ u, (s.phases u).jobId? ≠ some id
  | _ => True

/- What a pass is for, if its job is a ticket's. -/
def SyncPhase.PassFor
    (w : NotesSyncScheduler) : SyncPhase → Prop
  | .inPass id issued => id ∈ w.issuedIds → id ∈ issued
  | .recordResult id result =>
      result.isOk = true → id ∈ w.issuedIds → w.Backed id
  | _ => True

theorem SyncPhase.PassFor.mono
    {p : SyncPhase} {w w' : NotesSyncScheduler}
    (hGrows : SchedulerGrows w w')
    (hOld : ∀ id, p.jobId? = some id →
      id ∈ w'.issuedIds → id ∈ w.issuedIds)
    (h : p.PassFor w) : p.PassFor w' := by
  cases p with
  | inPass id issued =>
      exact fun hIssued => h (hOld id rfl hIssued)
  | recordResult id result =>
      intro hOk hIssued
      exact hGrows.backed id (h hOk (hOld id rfl hIssued))
  | _ => trivial

theorem Acts.passFor
    {p p' : SyncPhase} {w w' : NotesSyncScheduler}
    (h : Acts p w p' w')
    (hPass : p.PassFor w) : p'.PassFor w' := by
  cases h with
  | started => exact fun hIssued => hIssued
  | returned _ id issued result =>
      intro hOk hIssued
      cases result with
      | error err => cases hOk
      | ok u => exact ⟨issued, List.mem_cons_self, hPass hIssued⟩
  | _ => trivial

/- Only a drawn id becomes a ticket's. -/
theorem issued_of_act
    {c : SyncChoice} {p p' : SyncPhase}
    {w w' : NotesSyncScheduler} {id : Uuid}
    (h : NotesSyncScheduler.act c p w = some (p', w'))
    (hIssued : id ∈ w'.issuedIds) :
    id ∈ w.issuedIds ∨ c = .draw id := by
  rcases (acts_of_act h).issued hIssued with hBefore | hHas
  · exact .inl hBefore
  · cases c with
    | draw newId =>
        cases p with
        | insertRunning =>
            cases h
            exact .inr (congrArg SyncChoice.draw
              (Option.some.inj hHas))
        | insertQueued =>
            cases h
            exact .inr (congrArg SyncChoice.draw
              (Option.some.inj hHas))
        | takeQueued =>
            cases h
            exact .inl hIssued
        | _ => cases h
    | _ =>
        cases acts_of_act h with
        | enteredRunning => cases h
        | enteredQueued => cases h
        | returned _ _ _ result =>
            cases result <;> exact .inl hIssued
        | recorded =>
            unfold NotesSyncScheduler.recordResult at hIssued
            split at hIssued <;> exact .inl hIssued
        | _ => exact .inl hIssued

/- What holds in every run in which the draws are fresh. -/
structure PassesKnown (s : SyncSchedulerState τ) : Prop where
  held : runningLatch.Held s
  passes : ∀ t, (s.phases t).PassFor s.cells
  backed : ∀ id job, s.cells.jobs id = some job →
    job.state = .succeeded → id ∈ s.cells.issuedIds →
      s.cells.Backed id

theorem PassesKnown.step
    {s s' : SyncSchedulerState τ} {e : SyncSchedulerEvent τ}
    (hFresh : FreshDraws s e)
    (hStep : syncScheduler.step s e = some s')
    (h : PassesKnown s) : PassesKnown s' := by
  have hHeld := h.held.step hStep
  cases e with
  | act t c =>
      rcases PhaseSystem.step_act hStep with ⟨p, w, hAct, rfl⟩
      have hActs := acts_of_act hAct
      -- No job that is under way becomes a ticket's now.
      have hOld : ∀ u id, (s.phases u).jobId? = some id →
          id ∈ w.issuedIds → id ∈ s.cells.issuedIds := by
        intro u id hHas hIssued
        rcases issued_of_act hAct hIssued with hBefore | rfl
        · exact hBefore
        · exact absurd hHas (hFresh u)
      refine ⟨hHeld, ?_, ?_⟩
      · apply PhaseState.forall_update
          (P := fun _ x => SyncPhase.PassFor w x)
        · exact fun u _ => (h.passes u).mono hActs.grows (hOld u)
        · exact hActs.passFor (h.passes t)
      · intro id job hJob hState hIssued
        rcases hActs.succeeded hJob hState with
          ⟨hBefore, hNotNew⟩ | ⟨u, hPhase⟩
        · exact hActs.grows.backed id
            (h.backed id job hBefore hState (hNotNew hIssued))
        · have hPass := h.passes t
          rw [hPhase] at hPass
          exact hActs.grows.backed id
            (hPass rfl (hOld t id (by rw [hPhase]; rfl) hIssued))
  | env paused =>
      rcases PhaseSystem.step_env hStep with ⟨w, hEnv, rfl⟩
      cases hEnv
      refine ⟨hHeld, fun t => ?_, h.backed⟩
      exact (h.passes t).mono
        ⟨fun _ h => h, fun _ h => h, fun _ h => h⟩
        fun _ _ hIssued => hIssued

/- Requests that are lost are not reported as synced. -/
theorem passes_reported
    {syncPaused : Bool}
    {events : List (SyncSchedulerEvent τ)}
    {s : SyncSchedulerState τ}
    (run : syncScheduler.Run FreshDraws
      (SyncSchedulerState.initial syncPaused) events s) :
    ReportsPasses s := by
  have hInitial : PassesKnown
      (.initial syncPaused : SyncSchedulerState τ) :=
    ⟨initial_held syncPaused, fun _ => trivial,
      fun _ _ h => by cases h⟩
  have hKnown := run.keeps hInitial PassesKnown.step
  exact ⟨hKnown.held.one, hKnown.held.set_iff,
    fun id hIssued job hJob hState =>
      hKnown.backed id job hJob hState hIssued⟩

instance
    [Fintype τ]
    (s : SyncSchedulerState τ) :
    (e : SyncSchedulerEvent τ) → Decidable (FreshDraws s e)
  | .act _ (.draw id) =>
      inferInstanceAs
        (Decidable (∀ u, (s.phases u).jobId? ≠ some id))
  | .act _ (.call _) | .act _ .go => .isTrue trivial
  | .act _ (.passReturns _) | .env _ => .isTrue trivial

/- The request that is overwritten stays queued. -/
theorem overwritten_not_reported :
    ∃ s, syncScheduler.Run FreshDraws
        (SyncSchedulerState.initial false)
        overwritten.reverse s ∧
      ReportsPasses s ∧ leftQueued 11 s = true := by
  have hExec :
      (syncScheduler.execIf FreshDraws
        (SyncSchedulerState.initial false) overwritten).any
          (leftQueued 11) = true := by
    decide +kernel
  rcases PhaseSystem.Run.exists_of_execIf hExec with
    ⟨s, run, hLeft⟩
  exact ⟨s, run, passes_reported run, hLeft⟩

end S4Drive

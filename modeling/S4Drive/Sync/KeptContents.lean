import Mathlib.Logic.Relation
import S4Drive.Sync.Publication

/-
  What a publication keeps of the local file. It keeps all
  of it unless someone writes the target between the check
  and the exchange of the first attempt, which leaves the
  local bytes in the stage for the second one, or unless the
  target goes back to the captured bytes after others were
  copied.

  Main declarations:
    * `Kept`, `Undisturbed`
    * `publishes_publish`, `publishes_keepingLocal`
    * `kept_of_run`
-/

------------------------------------------------------------
-- What is Kept
------------------------------------------------------------

namespace S4Drive

open Concurrency

namespace Download

namespace Event

def isWrite : Event → Bool
  | wrote _ => true
  | _ => false

end Event

/- What the call itself has done, the newest first. -/
def own (events : List Event) : List Event :=
  events.filter fun e => !e.isWrite

/- The writes since the stage was last put in its place. -/
def laterWrites : List Event → List Bytes
  | [] => []
  | .placed _ :: _ => []
  | .wrote bytes :: rest => bytes :: laterWrites rest
  | .captured _ :: rest => laterWrites rest
  | .copied _ _ :: rest => laterWrites rest

variable (blake3 : Bytes → String)

/-
  The target has the download or a later write, other bytes
  than the ones decided against are kept when they are
  replaced, and the copies are of what others wrote.
-/
structure Kept (staged : StagedDownload) (w : Folder) :
    Prop where
  target :
    w.target = some staged.bytes ∨
      ∃ bytes ∈ laterWrites w.events, w.target = some bytes
  replaced :
    ∀ bytes, .placed (some bytes) ∈ w.events →
      tokenOf blake3 (some bytes) = staged.expected ∨
        ∃ path, (path, bytes) ∈ w.conflictCopies
  copies :
    ∀ path bytes, .copied path bytes ∈ w.events →
      .wrote bytes ∈ w.events

/- What was copied before the same token was found again. -/
def copiedBefore :
    List Event → Option (LocalContentToken × Bytes)
  | .captured token :: .copied _ bytes :: .captured before ::
      _ =>
      if token = before then some (token, bytes) else none
  | _ => none

/-
  What is found at the target where it is exchanged: in the
  first attempt what was checked, and in the second nothing
  that came back after other bytes had been copied.
-/
structure Undisturbed
    (staged : StagedDownload)
    (steps : List Event)
    (found : Option Bytes) : Prop where
  first :
    steps = [.captured staged.expected] →
      tokenOf blake3 found = staged.expected
  second :
    ∀ x ∈ copiedBefore steps,
      tokenOf blake3 found = x.1 →
        x.1 = staged.expected ∨
          tokenOf blake3 (some x.2) = x.1

instance
    (staged : StagedDownload)
    (steps : List Event)
    (found : Option Bytes) :
    Decidable (Undisturbed blake3 staged steps found) :=
  decidable_of_iff
    ((steps = [.captured staged.expected] →
        tokenOf blake3 found = staged.expected) ∧
      ∀ x ∈ copiedBefore steps,
        tokenOf blake3 found = x.1 →
          x.1 = staged.expected ∨
            tokenOf blake3 (some x.2) = x.1)
    ⟨fun h => ⟨h.1, h.2⟩, fun h => ⟨h.first, h.second⟩⟩

/- No two contents of the call have the same hash. -/
def NoCollision (w : Folder) : Prop :=
  ∀ x y, .wrote x ∈ w.events → .wrote y ∈ w.events →
    blake3 x = blake3 y → x = y

------------------------------------------------------------
-- Writes of Others
------------------------------------------------------------

/- Others have written the target any number of times. -/
abbrev Writes : Folder → Folder → Prop :=
  Relation.ReflTransGen fun w w' => ∃ bytes, w' = w.write bytes

def Stable (P : Folder → Prop) : Prop :=
  ∀ w bytes, P w → P (w.write bytes)

variable {blake3} {P : Folder → Prop} {w w' : Folder}
variable {staged : StagedDownload}
variable {steps : List Event} {found : Option Bytes}

theorem Stable.writes
    (h : Stable P)
    (hWrites : Writes w w')
    (hP : P w) : P w' := by
  induction hWrites with
  | refl => exact hP
  | tail _ hStep ih =>
      rcases hStep with ⟨bytes, rfl⟩
      exact h _ bytes ih

/- Any write is allowed, and every exchange undisturbed. -/
def writers :
    Contract PublishReq Choice Folder Unit where
  Inv := fun _ => True
  Rely := fun _ => Writes
  Admits := fun _ _ _ _ => True
  rely_refl := fun _ _ => Relation.ReflTransGen.refl
  rely_trans := Relation.ReflTransGen.trans

variable (blake3) in
def limits :
    ThreadSystem.Limits PublishReq Choice Folder Unit
      StagedDownload Unit Bytes where
  Starts := fun _ _ _ _ => True
  Admits := fun staged _ r _ w =>
    r = .exchange →
      Undisturbed blake3 staged (own w.events) w.target
  Env := fun _ _ => True

variable (blake3) in
/- The call may run so from the folder on. -/
abbrev Publishes
    {α : Type}
    (staged : StagedDownload)
    (x : Publishing α)
    (Q : Except PublishError α → Folder → Prop)
    (w : Folder) : Prop :=
  Meets (publications blake3).toMachine
    (writers.limit ((limits blake3).Admits staged)) () x ()
    (fun r _ => Q r) w

variable {r : PublishReq}
variable {α : Type}

/-
  One request: what holds before it may hold much later, and
  so may what holds after it.
-/
theorem publishes_call
    {answer : PublishResp r → Except PublishError α}
    {Q : Except PublishError α → Folder → Prop}
    (hBefore : Stable P)
    (hAfter : ∀ a, Stable (Q a))
    (hFails :
      ∀ message w', P w' →
        Q (answer (.error (.fileSystem message))) w')
    (hWorks :
      ∀ w' path a w'', P w' →
        (r = .exchange →
          Undisturbed blake3 staged (own w'.events)
            w'.target) →
        perform blake3 path w' r = some (a, w'') →
          Q (answer a) w'')
    (h : P w) :
    Publishes blake3 staged (Script.call r answer) Q w := by
  apply meets_call
  intro w' hRely _ choice a w'' hAdmits hServe
  refine ⟨⟨trivial, fun u hu => absurd rfl hu⟩, ?_⟩
  intro w₃ hLater _
  apply (hAfter _).writes hLater
  have hHere := hBefore.writes hRely h
  cases choice with
  | works path => exact hWorks w' path a w'' hHere hAdmits hServe
  | fails message =>
      cases hServe
      exact hFails message w' hHere

/- What a call shows when it is done or finds a stale file. -/
def Leads
    {α : Type}
    (ok : α → Folder → Prop)
    (stale : Folder → Prop) :
    Except PublishError α → Folder → Prop
  | .ok a, w => ok a w
  | .error .staleWrite, w => stale w
  | .error _, _ => True

variable {stale : Folder → Prop}

theorem stable_leads
    {ok : α → Folder → Prop}
    (hOk : ∀ a, Stable (ok a))
    (hStale : Stable stale)
    (r : Except PublishError α) : Stable (Leads ok stale r) := by
  intro w bytes h
  match r, h with
  | .ok a, h => exact hOk a w bytes h
  | .error .staleWrite, h => exact hStale w bytes h
  | .error .nameExists, _ => trivial
  | .error (.fileSystem _), _ => trivial

/- A failure of the first part is one of the whole. -/
theorem publishes_bind
    {α γ : Type}
    {x : Publishing α} {f : α → Publishing γ}
    {ok : α → Folder → Prop} {ok' : γ → Folder → Prop}
    (hx : Publishes blake3 staged x (Leads ok stale) w)
    (hf :
      ∀ a w', ok a w' →
        Publishes blake3 staged (f a) (Leads ok' stale) w') :
    Publishes blake3 staged (x >>= f) (Leads ok' stale) w := by
  apply Meets.bind hx
  · exact fun a _ w' h => hf a w' h
  · intro e _ w' h
    match e, h with
    | .staleWrite, h => exact h
    | .nameExists, _ => trivial
    | .fileSystem _, _ => trivial

theorem publishes_throw
    {ok : α → Folder → Prop}
    (hStale : Stable stale)
    (h : stale w) :
    Publishes blake3 staged (Script.throw .staleWrite)
      (Leads ok stale) w :=
  meets_throw fun _ hRely _ => hStale.writes hRely h

theorem publishes_pure
    {a : α}
    {ok : α → Folder → Prop}
    (hOk : Stable (ok a))
    (h : ok a w) :
    Publishes blake3 staged (pure a) (Leads ok stale) w :=
  meets_pure fun _ hRely _ => hOk.writes hRely h

/- Only a rename that does not replace refuses. -/
theorem perform_error
    {path : Text} {e : PublishError}
    (h : perform blake3 path w r = some (.error e, w')) :
    r = .publishNew := by
  cases r with
  | publishNew => rfl
  | capture place => cases place <;> cases h
  | syncParents => cases h
  | syncStage =>
      simp only [perform] at h
      split at h <;> cases h
  | exchange =>
      simp only [perform] at h
      split at h <;> cases h
  | removeDisplaced =>
      simp only [perform] at h
      split at h <;> cases h
  | createConflictCopy =>
      simp only [perform] at h
      split at h <;> cases h

/- What an attempt returns is looked at. -/
theorem publishes_attempt
    {α γ : Type}
    {x : Publishing α}
    {f : Except PublishError α → Publishing γ}
    {Q : Except PublishError α → Folder → Prop}
    {R : Except PublishError γ → Folder → Prop}
    (hx : Publishes blake3 staged x Q w)
    (hf :
      ∀ r w', Q r w' → Publishes blake3 staged (f r) R w') :
    Publishes blake3 staged (Script.attempt x >>= f) R w := by
  apply meets_bind
  apply meets_attempt
  exact hx.mono fun r _ w' h => hf r w' h

/- A request that does not find anything stale. -/
theorem publishes_ask
    {ok : PublishValue r → Folder → Prop}
    (hBefore : Stable P)
    (hOk : ∀ a, Stable (ok a))
    (hStale : Stable stale)
    (hNotNew : r ≠ .publishNew)
    (hWorks :
      ∀ w' path a w'', P w' →
        (r = .exchange →
          Undisturbed blake3 staged (own w'.events)
            w'.target) →
        perform blake3 path w' r = some (.ok a, w'') →
          ok a w'')
    (h : P w) :
    Publishes blake3 staged (ask r) (Leads ok stale) w := by
  unfold ask
  refine publishes_call hBefore
    (stable_leads hOk hStale) (fun _ _ _ => trivial) ?_ h
  intro w' path a w'' hHere hAdmits hPerform
  cases a with
  | ok a => exact hWorks w' path a w'' hHere hAdmits hPerform
  | error e => exact absurd (perform_error hPerform) hNotNew

/- What is copied stays there, and was written by others. -/
structure Copied (w : Folder) : Prop where
  wrote :
    ∀ path bytes, .copied path bytes ∈ w.events →
      .wrote bytes ∈ w.events
  kept :
    ∀ path bytes, .copied path bytes ∈ w.events →
      (path, bytes) ∈ w.conflictCopies

/- The stage has the download, and the target a local file. -/
structure Untouched
    (staged : StagedDownload)
    (steps : List Event)
    (w : Folder) : Prop where
  stage : w.stage = some staged.bytes
  steps : own w.events = steps
  target : ∀ bytes, w.target = some bytes → .wrote bytes ∈ w.events
  copied : Copied w

/- The download is in the place of what was replaced. -/
structure Placed
    (staged : StagedDownload)
    (steps : List Event)
    (replaced : Option Bytes)
    (w : Folder) : Prop where
  steps : own w.events = .placed replaced :: steps
  target :
    w.target = some staged.bytes ∨
      ∃ bytes ∈ laterWrites w.events, w.target = some bytes
  replaced :
    ∀ bytes, replaced = some bytes → .wrote bytes ∈ w.events
  copied : Copied w

variable {replaced : Option Bytes}

theorem placed_mem_own (h : .placed found ∈ w.events) :
    .placed found ∈ own w.events :=
  List.mem_filter.mpr ⟨h, rfl⟩

theorem copied_write : Stable Copied := by
  intro w bytes h
  constructor
  · intro path copy hMem
    cases hMem with
    | tail _ hMem => exact .tail _ (h.wrote path copy hMem)
  · intro path copy hMem
    cases hMem with
    | tail _ hMem => exact h.kept path copy hMem

theorem untouched_write : Stable (Untouched staged steps) := by
  intro w bytes h
  refine ⟨h.stage, h.steps, ?_, copied_write w bytes h.copied⟩
  rintro _ ⟨⟩
  exact .head _

theorem placed_write :
    Stable (Placed staged steps replaced) := by
  intro w bytes h
  refine ⟨h.steps, .inr ⟨bytes, .head _, rfl⟩, ?_,
    copied_write w bytes h.copied⟩
  intro old hOld
  exact .tail _ (h.replaced old hOld)

theorem Copied.record
    {e : Event}
    (h : Copied w)
    (hEvent : ∀ path bytes, e ≠ .copied path bytes) :
    Copied (w.record e) := by
  constructor
  · intro path copy hMem
    cases hMem with
    | head => exact absurd rfl (hEvent path copy)
    | tail _ hMem => exact .tail _ (h.wrote path copy hMem)
  · intro path copy hMem
    cases hMem with
    | head => exact absurd rfl (hEvent path copy)
    | tail _ hMem => exact h.kept path copy hMem

theorem Untouched.capture
    (token : LocalContentToken)
    (h : Untouched staged steps w) :
    Untouched staged (.captured token :: steps)
      (w.record (.captured token)) := by
  refine ⟨h.stage, congrArg _ h.steps, ?_,
    h.copied.record fun _ _ => nofun⟩
  intro bytes hTarget
  exact .tail _ (h.target bytes hTarget)

/- A copy of what is there, which others have written. -/
theorem Untouched.copy
    {path : Text} {bytes : Bytes}
    (h : Untouched staged steps w)
    (hTarget : w.target = some bytes) :
    Untouched staged (.copied path bytes :: steps)
      (w.addCopy path) := by
  have hSource : w.copySource = bytes := by
    unfold Folder.copySource
    rw [hTarget]
    rfl
  unfold Folder.addCopy
  rw [hSource]
  refine ⟨h.stage, congrArg _ h.steps, ?_, ?_, ?_⟩
  · intro other hOther
    exact .tail _ (h.target other hOther)
  · intro other copy hMem
    cases hMem with
    | head => exact .tail _ (h.target bytes hTarget)
    | tail _ hMem => exact .tail _ (h.copied.wrote _ _ hMem)
  · intro other copy hMem
    cases hMem with
    | head => exact .head _
    | tail _ hMem => exact .tail _ (h.copied.kept _ _ hMem)

/- The stage and the target are exchanged. -/
theorem Untouched.swap (h : Untouched staged steps w) :
    Placed staged steps w.target w.swap := by
  refine ⟨congrArg _ h.steps, .inl h.stage, ?_, ?_, ?_⟩
  · intro bytes hTarget
    exact .tail _ (h.target bytes hTarget)
  · intro path copy hMem
    cases hMem with
    | tail _ hMem => exact .tail _ (h.copied.wrote _ _ hMem)
  · intro path copy hMem
    cases hMem with
    | tail _ hMem => exact h.copied.kept _ _ hMem

------------------------------------------------------------
-- One Attempt
------------------------------------------------------------

variable (blake3) in
/- The attempt has put the download in its place. -/
def Published
    (staged : StagedDownload)
    (expected : LocalContentToken)
    (steps : List Event)
    (w : Folder) : Prop :=
  ∃ replaced, Placed staged steps replaced w ∧
    tokenOf blake3 replaced = expected ∧
    (expected ≠ .missing →
      Undisturbed blake3 staged steps replaced)

variable (blake3) in
/- An exchange that is not disturbed finds other bytes. -/
def Mistaken
    (staged : StagedDownload)
    (expected : LocalContentToken)
    (steps : List Event) : Prop :=
  ∃ found, tokenOf blake3 found ≠ expected ∧
    Undisturbed blake3 staged steps found

variable {expected : LocalContentToken}

theorem published_write :
    Stable (Published blake3 staged expected steps) := by
  rintro w bytes ⟨replaced, hPlaced, hRest⟩
  exact ⟨replaced, placed_write w bytes hPlaced, hRest⟩

theorem stale_write {A : Prop} :
    Stable fun w => Untouched staged steps w ∨ A := by
  rintro w bytes (h | h)
  · exact .inl (untouched_write w bytes h)
  · exact .inr h

theorem placed_stage_write :
    Stable fun w => Placed staged steps replaced w ∧
      w.stage = found :=
  fun w bytes h => ⟨placed_write w bytes h.1, h.2⟩

/- A request that neither place is changed by. -/
theorem publishes_sync
    (hSync : r = .syncStage ∨ r = .syncParents)
    (hP : Stable P)
    (hStale : Stable stale)
    (h : P w) :
    Publishes blake3 staged (ask r)
      (Leads (fun _ => P) stale) w := by
  refine publishes_ask hP (fun _ => hP) hStale ?_ ?_ h
  · rintro rfl
    rcases hSync with hSync | hSync
    · cases hSync
    · cases hSync
  · intro w' path a w'' hHere _ hPerform
    rcases hSync with rfl | rfl
    · simp only [perform] at hPerform
      split at hPerform
      · cases hPerform
        exact hHere
      · cases hPerform
    · cases hPerform
      exact hHere

theorem publishes_new
    {A : Prop}
    (h : Untouched staged steps w) :
    Publishes blake3 staged
      (Script.call .publishNew staleOnExisting)
      (Leads (fun _ => Placed staged steps none)
        fun w => Untouched staged steps w ∨ A) w := by
  refine publishes_call untouched_write
    (fun a => stable_leads (fun _ => placed_write)
      stale_write _)
    (fun _ _ _ => trivial) ?_ h
  intro w' path a w'' hHere _ hPerform
  simp only [perform] at hPerform
  split at hPerform
  · rename_i hTarget
    cases hPerform
    rw [← hTarget]
    exact hHere.swap
  · cases hPerform
    exact .inl hHere
  · cases hPerform

theorem publishes_exchange
    (hStale : Stable stale)
    (h : Untouched staged steps w) :
    Publishes blake3 staged (ask .exchange)
      (Leads
        (fun _ w' => ∃ replaced,
          (Placed staged steps replaced w' ∧
            w'.stage = replaced) ∧
          Undisturbed blake3 staged steps replaced) stale)
      w := by
  refine publishes_ask untouched_write ?_ hStale nofun ?_ h
  · rintro _ w' bytes ⟨replaced, hPlaced, hRest⟩
    exact ⟨replaced, placed_stage_write w' bytes hPlaced,
      hRest⟩
  · intro w' path a w'' hHere hAdmits hPerform
    have hUndisturbed := hAdmits rfl
    rw [hHere.steps] at hUndisturbed
    simp only [perform] at hPerform
    split at hPerform
    · cases hPerform
      exact ⟨w'.target, ⟨hHere.swap, rfl⟩, hUndisturbed⟩
    · cases hPerform

/- What was replaced is looked at again. -/
theorem publishes_captureStage
    (hStale : Stable stale)
    (h : Placed staged steps replaced w ∧ w.stage = replaced) :
    Publishes blake3 staged (ask (.capture .stage))
      (Leads
        (fun displaced w' =>
          (Placed staged steps replaced w' ∧
            w'.stage = replaced) ∧
          displaced = tokenOf blake3 replaced) stale) w := by
  refine publishes_ask placed_stage_write ?_ hStale nofun ?_ h
  · exact fun _ w' bytes h =>
      ⟨placed_stage_write w' bytes h.1, h.2⟩
  · intro w' path a w'' hHere _ hPerform
    cases hPerform
    exact ⟨hHere, by rw [hHere.2]⟩

theorem publishes_removeDisplaced
    (hStale : Stable stale)
    (h : Placed staged steps replaced w) :
    Publishes blake3 staged (ask .removeDisplaced)
      (Leads (fun _ => Placed staged steps replaced) stale)
      w := by
  refine publishes_ask placed_write (fun _ => placed_write)
    hStale nofun ?_ h
  intro w' path a w'' hHere _ hPerform
  simp only [perform] at hPerform
  split at hPerform
  · cases hPerform
    exact ⟨hHere.steps, hHere.target, hHere.replaced,
      hHere.copied.wrote, hHere.copied.kept⟩
  · cases hPerform

theorem publishes_checkedStage
    (expected : LocalContentToken)
    (h : Untouched staged steps w) :
    Publishes blake3 staged (publishCheckedStage expected)
      (Leads
        (fun _ => Published blake3 staged expected steps)
        fun w => Untouched staged steps w ∨
          Mistaken blake3 staged expected steps) w := by
  unfold publishCheckedStage
  refine publishes_bind
    (publishes_sync (.inl rfl) untouched_write stale_write h) ?_
  intro _ w₁ h₁
  split
  · rename_i hMissing
    subst hMissing
    refine publishes_bind (publishes_new h₁) ?_
    intro _ w₂ h₂
    have hDone :
        Published blake3 staged .missing steps w₂ :=
      ⟨none, h₂, rfl, fun h => absurd rfl h⟩
    exact publishes_sync (.inr rfl) published_write
      stale_write hDone
  refine publishes_bind
    (publishes_exchange stale_write h₁) ?_
  rintro _ w₂ ⟨replaced, h₂, hUndisturbed⟩
  refine publishes_bind
    (publishes_sync (.inr rfl) placed_stage_write stale_write
      h₂) ?_
  intro _ w₃ h₃
  refine publishes_bind
    (publishes_captureStage stale_write h₃) ?_
  rintro _ w₄ ⟨h₄, rfl⟩
  split
  · rename_i hOther
    exact publishes_throw stale_write
      (.inr ⟨replaced, hOther, hUndisturbed⟩)
  rename_i hExpected
  refine publishes_bind
    (publishes_removeDisplaced stale_write h₄.1) ?_
  intro _ w₅ h₅
  have hDone : Published blake3 staged expected steps w₅ :=
    ⟨replaced, h₅, not_not.mp hExpected,
      fun _ => hUndisturbed⟩
  exact publishes_sync (.inr rfl) published_write stale_write
    hDone

theorem publishes_captureTarget
    (hStale : Stable stale)
    (h : Untouched staged steps w) :
    Publishes blake3 staged (ask (.capture .target))
      (Leads
        (fun token w' =>
          Untouched staged (.captured token :: steps) w' ∧
            (token ≠ .missing →
              ∃ bytes, w'.target = some bytes)) stale)
      w := by
  refine publishes_ask untouched_write ?_ hStale nofun ?_ h
  · rintro token w' bytes ⟨hUntouched, _⟩
    exact ⟨untouched_write w' bytes hUntouched,
      fun _ => ⟨bytes, rfl⟩⟩
  · intro w' path token w'' hHere _ hPerform
    cases hPerform
    refine ⟨hHere.capture _, fun hToken => ?_⟩
    cases hTarget : w'.target with
    | none =>
        rw [hTarget] at hToken
        exact absurd rfl hToken
    | some bytes => exact ⟨bytes, hTarget⟩

theorem publishes_publish
    (expected : LocalContentToken)
    (h : Untouched staged steps w) :
    Publishes blake3 staged (publish expected)
      (Leads
        (fun _ => Published blake3 staged expected
          (.captured expected :: steps))
        fun w' =>
          (∃ token,
            Untouched staged (.captured token :: steps) w') ∨
          Mistaken blake3 staged expected
            (.captured expected :: steps)) w := by
  have hStale :
      Stable fun w' =>
        (∃ token,
          Untouched staged (.captured token :: steps) w') ∨
        Mistaken blake3 staged expected
          (.captured expected :: steps) := by
    rintro w' bytes (⟨token, h⟩ | h)
    · exact .inl ⟨token, untouched_write w' bytes h⟩
    · exact .inr h
  unfold publish
  refine publishes_bind (publishes_captureTarget hStale h) ?_
  rintro token w₁ ⟨h₁, _⟩
  split
  · exact publishes_throw hStale (.inl ⟨token, h₁⟩)
  rename_i hSame
  have hToken := not_not.mp hSame
  subst hToken
  refine (publishes_checkedStage token h₁).mono ?_
  intro r _ w' hLeads
  match r, hLeads with
  | .ok _, h => exact h
  | .error .staleWrite, .inl h => exact .inl ⟨token, h⟩
  | .error .staleWrite, .inr h => exact .inr h
  | .error .nameExists, _ => trivial
  | .error (.fileSystem _), _ => trivial

------------------------------------------------------------
-- Both Attempts
------------------------------------------------------------

variable (blake3) in
/- What is kept if no two contents have the same hash. -/
def KeptUnlessCollision
    (staged : StagedDownload)
    (w : Folder) : Prop :=
  NoCollision blake3 w → Kept blake3 staged w

theorem Placed.kept
    (h : Placed staged steps replaced w)
    (hOnly : ∀ other, .placed other ∉ steps)
    (hReplaced :
      ∀ bytes, replaced = some bytes →
        tokenOf blake3 (some bytes) = staged.expected ∨
          ∃ path, (path, bytes) ∈ w.conflictCopies) :
    Kept blake3 staged w := by
  refine ⟨h.target, ?_, h.copied.wrote⟩
  intro bytes hMem
  have hOwn := placed_mem_own hMem
  rw [h.steps] at hOwn
  cases hOwn with
  | head => exact hReplaced bytes rfl
  | tail _ hOwn => exact absurd hOwn (hOnly _)

/- A first attempt replaces what it was decided against. -/
theorem Published.kept_first
    (h :
      Published blake3 staged staged.expected
        [.captured staged.expected] w) :
    Kept blake3 staged w := by
  rcases h with ⟨replaced, hPlaced, hToken, _⟩
  apply hPlaced.kept
  · intro other hMem
    cases hMem with
    | tail _ hMem => cases hMem
  · rintro bytes rfl
    exact .inl hToken

theorem kept_write :
    Stable (KeptUnlessCollision blake3 staged) := by
  intro w bytes h hNone
  have hBefore : NoCollision blake3 w :=
    fun x y hx hy => hNone x y (.tail _ hx) (.tail _ hy)
  have hKept := h hBefore
  refine ⟨.inr ⟨bytes, .head _, rfl⟩, ?_, ?_⟩
  · intro old hMem
    cases hMem with
    | tail _ hMem => exact hKept.replaced old hMem
  · intro path copy hMem
    cases hMem with
    | tail _ hMem => exact .tail _ (hKept.copies path copy hMem)

/- What the second attempt has done before it publishes. -/
def Prepared
    (token : LocalContentToken)
    (steps : List Event) : Prop :=
  (∀ other, .placed other ∉ steps) ∧
    (token ≠ .missing →
      ∃ path bytes rest,
        steps = .copied path bytes :: .captured token :: rest)

/- A second attempt replaces what it has copied. -/
theorem Published.kept_again
    {token : LocalContentToken}
    (hPrepared : Prepared token steps)
    (h :
      Published blake3 staged token (.captured token :: steps)
        w) :
    KeptUnlessCollision blake3 staged w := by
  intro hNone
  rcases h with ⟨replaced, hPlaced, rfl, hUndisturbed⟩
  apply hPlaced.kept
  · intro other hMem
    cases hMem with
    | tail _ hMem => exact hPrepared.1 other hMem
  rintro bytes rfl
  have hHash : tokenOf blake3 (some bytes) ≠ .missing := nofun
  rcases hPrepared.2 hHash with ⟨path, copy, rest, rfl⟩
  have hBefore :
      copiedBefore
          (.captured (tokenOf blake3 (some bytes)) ::
            .copied path copy ::
            .captured (tokenOf blake3 (some bytes)) :: rest) =
        some (tokenOf blake3 (some bytes), copy) :=
    if_pos rfl
  rcases (hUndisturbed hHash).second _ hBefore rfl with
    hDecided | hSame
  · exact .inl hDecided
  right
  have hCopied : .copied path copy ∈ w.events := by
    have hOwn : .copied path copy ∈ own w.events := by
      rw [hPlaced.steps]
      exact .tail _ (.tail _ (.head _))
    exact (List.mem_filter.mp hOwn).1
  have hHashes : blake3 copy = blake3 bytes := by
    simpa [tokenOf] using hSame
  have hEqual := hNone copy bytes
    (hPlaced.copied.wrote path copy hCopied)
    (hPlaced.replaced bytes rfl) hHashes
  subst hEqual
  exact ⟨path, hPlaced.copied.kept path copy hCopied⟩

theorem publishes_conflictCopy
    {token first : LocalContentToken}
    (h :
      Untouched staged [.captured token, .captured first] w ∧
        (token ≠ .missing →
          ∃ bytes, w.target = some bytes)) :
    Publishes blake3 staged (conflictCopyOf token)
      (Leads
        (fun _ w' => ∃ steps, Prepared token steps ∧
          Untouched staged steps w')
        fun _ => True) w := by
  have hStable :
      ∀ _ : Option Text, Stable fun w' =>
        ∃ steps, Prepared token steps ∧
          Untouched staged steps w' := by
    rintro _ w' bytes ⟨steps, hPrepared, hUntouched⟩
    exact ⟨steps, hPrepared,
      untouched_write w' bytes hUntouched⟩
  cases token with
  | missing =>
      refine publishes_pure (hStable none) ⟨_, ?_, h.1⟩
      refine ⟨fun other hMem => ?_, fun hHash => ?_⟩
      · simp at hMem
      · exact absurd rfl hHash
  | hash text =>
      have hBefore :
          Stable fun w' =>
            Untouched staged
                [.captured (.hash text), .captured first] w' ∧
              ∃ bytes, w'.target = some bytes := by
        rintro w' bytes ⟨hUntouched, _⟩
        exact ⟨untouched_write w' bytes hUntouched, bytes, rfl⟩
      refine publishes_bind
        (publishes_ask hBefore (fun _ => hStable none)
          (fun _ _ h => h) nofun ?_ ⟨h.1, h.2 nofun⟩) ?_
      · rintro w' path a w'' ⟨hHere, bytes, hTarget⟩ _ hPerform
        simp only [perform] at hPerform
        split at hPerform
        · cases hPerform
        · cases hPerform
          refine ⟨_, ?_, hHere.copy hTarget⟩
          refine ⟨fun other hMem => ?_, fun _ => ?_⟩
          · simp at hMem
          · exact ⟨path, bytes, _, rfl⟩
      · intro path w' hHere
        exact publishes_pure (hStable (some path)) hHere

variable {size : Nat}

theorem publishes_again
    {first : LocalContentToken}
    (h : Untouched staged [.captured first] w) :
    Publishes blake3 staged (publishAgain size)
      (Leads (fun _ => KeptUnlessCollision blake3 staged)
        fun _ => True) w := by
  have hTrue : Stable fun _ => True := fun _ _ h => h
  unfold publishAgain
  refine publishes_bind (publishes_captureTarget hTrue h) ?_
  intro token w₁ h₁
  refine publishes_bind (publishes_conflictCopy h₁) ?_
  rintro conflictCopy w₂ ⟨steps, hPrepared, h₂⟩
  have hPublish :
      Publishes blake3 staged (publish token)
        (Leads (fun _ => KeptUnlessCollision blake3 staged)
          fun _ => True) w₂ := by
    refine (publishes_publish token h₂).mono ?_
    intro r _ w' hLeads
    match r, hLeads with
    | .ok _, h => exact h.kept_again hPrepared
    | .error .staleWrite, _ => trivial
    | .error .nameExists, _ => trivial
    | .error (.fileSystem _), _ => trivial
  refine publishes_bind hPublish ?_
  intro _ w₃ h₃
  exact publishes_pure kept_write h₃

/- The call keeps what it replaces when it returns. -/
theorem publishes_keepingLocal
    (h : Untouched staged [] w) :
    Publishes blake3 staged
      (publishKeepingLocal staged.expected size)
      (Leads (fun _ => KeptUnlessCollision blake3 staged)
        fun _ => True) w := by
  unfold publishKeepingLocal
  refine publishes_attempt
    (publishes_publish staged.expected h) ?_
  intro r w₁ hLeads
  match r, hLeads with
  | .ok _, h =>
      exact publishes_pure kept_write fun _ => h.kept_first
  | .error .staleWrite, .inl ⟨token, h⟩ =>
      exact publishes_again h
  | .error .staleWrite, .inr ⟨found, hOther, hUndisturbed⟩ =>
      exact absurd (hUndisturbed.first rfl) hOther
  | .error .nameExists, _ =>
      exact meets_throw fun _ _ _ => trivial
  | .error (.fileSystem _), _ =>
      exact meets_throw fun _ _ _ => trivial

------------------------------------------------------------
-- Runs
------------------------------------------------------------

abbrev State :=
  SystemState PublishReq PublishResp Folder Unit
    StagedDownload (Except PublishError PublishedDownload) Unit

/- A call that has returned, with its result. -/
def returned (s : State) :
    Option
      (StagedDownload ×
        Except PublishError PublishedDownload) :=
  match s.threads () with
  | .busy staged _ (.done (r, _)) => some (staged, r)
  | _ => none

theorem untouched_begin (w : Folder) :
    Untouched staged [] (w.begin staged) := by
  have none_copied :
      ∀ path bytes,
        Event.copied path bytes ∉ (w.begin staged).events := by
    intro path bytes hMem
    unfold Folder.begin at hMem
    cases hTarget : w.target with
    | none => simp [hTarget] at hMem
    | some old => simp [hTarget] at hMem
  refine ⟨rfl, ?_, ?_, ?_, ?_⟩
  · unfold Folder.begin
    cases w.target with
    | none => rfl
    | some bytes => rfl
  · intro bytes hTarget
    have hHere : w.target = some bytes := hTarget
    unfold Folder.begin
    simp [hHere]
  · exact fun path bytes hMem => absurd hMem (none_copied _ _)
  · exact fun path bytes hMem => absurd hMem (none_copied _ _)

theorem publications_verified :
    ThreadSystem.Verified (publications blake3) writers
      (limits blake3) (fun _ _ _ => True)
      (fun _ staged _ x w => ∀ published, x.1 = .ok published →
        KeptUnlessCollision blake3 staged w) where
  stable := fun _ _ _ => trivial
  begin := by
    intro t staged v w w' _ _ _ hBegin
    cases hBegin
    refine ⟨⟨trivial, fun u hu => absurd rfl hu⟩, ?_⟩
    refine wp_mono
      (publishes_keepingLocal (untouched_begin w)) ?_
    rintro ⟨r, v'⟩ w'' hLeads published hOk
    cases hOk
    exact hLeads
  finish := fun _ _ =>
    ⟨⟨trivial, fun _ hu => absurd rfl hu⟩, trivial⟩
  halt := fun _ =>
    ⟨⟨trivial, fun _ hu => absurd rfl hu⟩, trivial⟩
  env := by
    intro bytes w w' _ _ hEnv
    cases hEnv
    exact ⟨trivial, fun _ => .single ⟨bytes, rfl⟩⟩

/-
  In every run whose exchanges are undisturbed, a call that
  returns without an error has kept what it should.
-/
theorem kept_of_run
    {w : Folder} {s : State} {published : PublishedDownload}
    (run :
      (publications blake3).Run (limits blake3).Permitted
        ((publications blake3).initial w) s)
    (hReturned : returned s = some (staged, .ok published))
    (hHash : NoCollision blake3 s.world) :
    Kept blake3 staged s.world := by
  have hState := publications_verified.stateOk_of_run trivial
    (fun _ => trivial) run
  unfold returned at hReturned
  split at hReturned
  · rename_i hThread
    cases hReturned
    exact hState.post hThread _ rfl hHash
  · cases hReturned

/- The digests of three files with one letter each. -/
def letterDigest : Bytes → String
  | [97] =>
      "17762fddd969a453925d65717ac3eea2" ++
        "1320b66b54342fde15128d6caf21215f"
  | [98] =>
      "10e5cf3d3c8a4f9f3468c8cc58eea848" ++
        "92a22fdadbc1acb22410190044c1d553"
  | [114] =>
      "b2dea48d667b2821a9bcf69eded39a24" ++
        "58a1d8165ca7fcac64c3557b69a7ea08"
  | _ => ""

/- The download `r`, decided against the file `a`. -/
def overLetter : StagedDownload :=
  ⟨[114], tokenOf letterDigest (some [97])⟩

def letterFile : Folder := ⟨some [97], none, [], []⟩

def copyPath : Text := "a.conflict.txt".toList

/- Some requests that work, one after the other. -/
def requests (n : Nat) :
    List (Action Unit Choice StagedDownload Bytes) :=
  List.replicate n (.serve () (.works copyPath))

def undisturbedCheck
    (s : State) :
    Action Unit Choice StagedDownload Bytes → Bool
  | .serve _ _ =>
      match s.threads () with
      | .busy staged _ (.ask .exchange _) =>
          decide (Undisturbed letterDigest staged
            (own s.world.events) s.world.target)
      | _ => true
  | _ => true

theorem undisturbedCheck_permits
    (s : State)
    (a : Action Unit Choice StagedDownload Bytes)
    (h : undisturbedCheck s a = true) :
    (limits letterDigest).Permitted s a := by
  cases a with
  | serve t k =>
      rintro staged v r cont hThread rfl
      simp only [undisturbedCheck] at h
      rw [hThread] at h
      exact of_decide_eq_true h
  | call t c => exact fun _ _ => trivial
  | finish t => trivial
  | halt t => trivial
  | env e => trivial

/- The call has returned, and made a copy of some bytes. -/
def leaves
    (target copied : Bytes)
    (events : List Event)
    (s : State) : Bool :=
  decide
    (returned s =
        some (overLetter, .ok ⟨1, some copyPath⟩) ∧
      s.world =
        ⟨some target, none, [(copyPath, copied)], events⟩)

theorem noCollision_letters
    {w : Folder}
    (h :
      ∀ x, .wrote x ∈ w.events → x = [97] ∨ x = [98]) :
    NoCollision letterDigest w := by
  intro x y hx hy hSame
  rcases h x hx with rfl | rfl
  · rcases h y hy with rfl | rfl
    · rfl
    · exact absurd hSame (by decide)
  · rcases h y hy with rfl | rfl
    · exact absurd hSame (by decide)
    · rfl

/- The file is saved as `b` before the download is checked. -/
theorem early_save_kept :
    ∃ s : State,
      returned s =
          some (overLetter, .ok ⟨1, some copyPath⟩) ∧
        s.world.target = some [114] ∧
        s.world.conflictCopies = [(copyPath, [98])] ∧
        Kept letterDigest overLetter s.world := by
  let letter := tokenOf letterDigest (some [98])
  have trace :
      ((publications letterDigest).execIf undisturbedCheck
        ((publications letterDigest).initial letterFile)
        (.call () overLetter :: .env [98] ::
          requests 10)).any
        (leaves [114] [98]
          [.placed (some [98]), .captured letter,
            .copied copyPath [98], .captured letter,
            .captured letter, .wrote [98], .wrote [97]]) =
        true := by
    decide +kernel
  rcases ThreadSystem.Run.exists_of_execIf
      undisturbedCheck_permits _ trace with ⟨s, run, hTest⟩
  rcases of_decide_eq_true hTest with ⟨hReturned, hWorld⟩
  refine ⟨s, hReturned, by rw [hWorld], by rw [hWorld],
    kept_of_run run hReturned ?_⟩
  apply noCollision_letters
  rw [hWorld]
  intro x hMem
  simp at hMem
  exact hMem.symm

/-
  The same save right after the check: it comes back to the
  target, where the download was, and the copy that is said
  to have the save has the download.
-/
theorem late_save_put_back :
    ∃ s : State,
      (publications letterDigest).Run (fun _ _ => True)
          ((publications letterDigest).initial letterFile) s ∧
        returned s =
          some (overLetter, .ok ⟨1, some copyPath⟩) ∧
        NoCollision letterDigest s.world ∧
        s.world.target = some [98] ∧
        s.world.conflictCopies = [(copyPath, [114])] ∧
        laterWrites s.world.events = [] ∧
        ¬ Kept letterDigest overLetter s.world := by
  let letter := tokenOf letterDigest (some [114])
  have trace :
      ((publications letterDigest).exec
        ((publications letterDigest).initial letterFile)
        (.call () overLetter :: requests 1 ++
          .env [98] :: requests 13)).any
        (leaves [98] [114]
          [.placed (some [114]), .captured letter,
            .copied copyPath [114], .captured letter,
            .placed (some [98]), .wrote [98],
            .captured overLetter.expected, .wrote [97]]) =
        true := by
    decide +kernel
  rcases ThreadSystem.Run.exists_of_execIf
      (fun _ _ _ => trivial) _ trace with ⟨s, run, hTest⟩
  rcases of_decide_eq_true hTest with ⟨hReturned, hWorld⟩
  refine ⟨s, run, hReturned, ?_, by rw [hWorld],
    by rw [hWorld], by rw [hWorld]; rfl, ?_⟩
  · apply noCollision_letters
    rw [hWorld]
    intro x hMem
    simp at hMem
    exact hMem.symm
  · intro hKept
    have hWrote := hKept.copies copyPath [114] (by
      rw [hWorld]
      simp)
    rw [hWorld] at hWrote
    simp at hWrote

end Download

end S4Drive

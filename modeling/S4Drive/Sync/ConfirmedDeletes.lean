import S4Drive.Sync.FolderRecovery
import S4Drive.Sync.NotesSpecs
import S4Drive.Sync.OtherDevices

/-
  A confirmed folder deletion. The user has seen each target
  with the ETag of its tree entry; what is deleted has to be
  what was seen. The code compares the ETag once, before it
  writes the deletion record and commits, and not at all
  when an earlier run has left an attempt behind.

  Main declarations:
    * `RecoveryJournal`, `deleteTarget`
    * `ConfirmedCall`, `confirmedSystem`
    * `Unchanged`, `Checked`
    * `DeletesInTime`
    * `confirmed_deletes`
    * `changed_entry_deleted`
-/

------------------------------------------------------------
-- Deletions of Targets
------------------------------------------------------------

namespace S4Drive

open ObjectStore Concurrency ChainLog OperationLog

namespace RecoveryJournal

variable {l : Type}

/- The checkpoint next to the receipt of one target. -/
def isApplied (journal : JournalId) : CloudM l Bool := do
  let receipt ← Script.call (.readReceipt journal) id
  return receipt.applied

def attempts
    (journal : JournalId) : CloudM l (List Operation) := do
  let receipt ← Script.call (.readReceipt journal) id
  return receipt.attempts

def setApplied (journal : JournalId) : CloudM l Unit :=
  Script.call
    (.updateReceipt journal fun receipt =>
      { receipt with applied := true }) id

end RecoveryJournal

namespace DeleteTarget

variable {l : Type}

def fileId (target : DeleteTarget) : FileId :=
  target.entry.fileId

/- The step of a call that turns to a target. -/
def confirmation (target : DeleteTarget) : Change where
  fileId := target.fileId
  revision := none
  removes := [target.fileId]
  root := none
  undoes := none
  confirmed := some target.etag
  projects := none
  cleanup := false

/- The entry is still the one that was confirmed. -/
def checkUnchanged
    (target : DeleteTarget) : CloudM l Unit := do
  match ← FileTree.getEntryVersion target.fileId with
  | none => return ()
  | some current =>
      if current.etag ≠ target.etag then
        Script.throw (.conflict
          ("Server data changed after deletion was " ++
            "confirmed. Retry after reviewing the changes."))
      else
        return ()

/- Only a target without an attempt is compared. -/
def checkFirst
    (target : DeleteTarget)
    (attempts : List Operation) : CloudM l Unit :=
  if attempts.isEmpty then
    checkUnchanged target
  else
    pure ()

def preconditions : Preconditions where
  expectedEtag := none
  expectedVersionId := none
  fileExists := true
  parentExists := true

def effects (target : DeleteTarget) : Effects where
  newRevisionId := none
  newContentRef := none
  newName := some target.entry.name
  newParentId := target.entry.parentId
  deleted := true

def commit
    (deviceId : DeviceId)
    (journal : JournalId)
    (target : DeleteTarget) : CloudM l DurableCommit := do
  let clock ← logicalClockSeed
  onLog (OperationLog.new deviceId clock)
    (commitDurable journal.fileId .delete preconditions
      target.effects journal)

/-
  Without conditional deletes the entry stays, marked as
  deleted.
-/
def project
    (conditionalDelete : Bool)
    (target : DeleteTarget)
    (current : EntryVersion) : CloudM l Bool := do
  if conditionalDelete then
    deleteIfMatch (.tree target.fileId) target.etag
  else
    let now ← now
    FileTree.putEntryIf
      { current.entry with deletedAt := some now }
      (some current)

def applyChanged : CoreError :=
  .conflict "Server data changed while applying deletion."

def apply
    (conditionalDelete : Bool)
    (target : DeleteTarget) : CloudM l Unit := do
  match ← FileTree.getEntryVersion target.fileId with
  | none => return ()
  | some current =>
      if current.entry.deletedAt.isSome then
        return ()
      else if current.etag ≠ target.etag then
        Script.throw applyChanged
      else if ← project conditionalDelete target current then
        return ()
      else
        Script.throw applyChanged

/- Record, commit and apply the deletion. -/
def delete
    (deviceId : DeviceId)
    (conditionalDelete : Bool)
    (journal : JournalId)
    (target : DeleteTarget) : CloudM l Unit := do
  let _ ← TombstoneManager.createTombstone target.fileId
    target.path target.entry.name (toString deviceId)
    target.blobs 90
  let committed ← commit deviceId journal target
  if committed.superseded then
    Script.throw (.conflict
      ("Another device changed an item after this deletion. " ++
        "Its newer data was preserved."))
  else
    apply conditionalDelete target
    RecoveryJournal.setApplied journal

end DeleteTarget

/-
  What `delete_targets` does for one target of a confirmed
  recovery. It goes through the targets in order and stops
  at the first failure; the journal of a target is its own,
  so here every target is a call of its own, in any order.
-/
def deleteTarget
    (deviceId : DeviceId)
    (conditionalDelete : Bool)
    (recoveryId : Uuid)
    (target : DeleteTarget) : CloudM Unit Unit := do
  let journal : JournalId := ⟨recoveryId, target.fileId⟩
  if ← RecoveryJournal.isApplied journal then
    return ()
  else
    -- History only: the call turns to this target.
    Script.request (.prepare target.confirmation : Req)
    let attempts ← RecoveryJournal.attempts journal
    target.checkFirst attempts
    target.delete deviceId conditionalDelete journal

/-
  The calls of the devices: a target of a confirmed deletion
  and the pieces that the operations of other devices are
  made of.
-/
inductive ConfirmedCall where
  | target
      (deviceId : DeviceId)
      (conditionalDelete : Bool)
      (recoveryId : Uuid)
      (target : DeleteTarget)
  | other (step : DeviceStep)

namespace ConfirmedCall

def journal : ConfirmedCall → Option JournalId
  | target _ _ recoveryId confirmed =>
      some ⟨recoveryId, confirmed.fileId⟩
  | _ => none

def run : ConfirmedCall → CloudM Unit Unit
  | target deviceId conditionalDelete recoveryId confirmed =>
      deleteTarget deviceId conditionalDelete recoveryId
        confirmed
  | other step => step.run

end ConfirmedCall

/- Any number of threads; crashes lose nothing but calls. -/
def confirmedSystem :
    ThreadSystem Req Resp World Tid Choice ConfirmedCall
      (CoreResult Unit) Unit EnvAction :=
  deviceSystem ConfirmedCall.run () ConfirmedCall.journal

abbrev ConfirmedState :=
  SystemState Req Resp World Tid ConfirmedCall
    (CoreResult Unit) Unit

abbrev ConfirmedAction :=
  Action Tid Choice ConfirmedCall EnvAction

def ConfirmedState.initial : ConfirmedState :=
  confirmedSystem.initial World.fresh

abbrev ConfirmedRun
    (permits : ConfirmedState → ConfirmedAction → Prop) :
    ConfirmedState → ConfirmedState → Prop :=
  confirmedSystem.Run permits

------------------------------------------------------------
-- Checked Targets
------------------------------------------------------------

variable {w w' : World} {t : Tid} {c : ConfirmedCall}
variable {b : Basis} {etag : ETag Body}

/- The entry is the confirmed one, or is not there. -/
def Unchanged
    (fileId : FileId)
    (etag : ETag Body)
    (w : World) : Prop :=
  w.store.objects.lookup (.tree fileId) = none ∨
    w.store.objects.lookup (.tree fileId) = some etag.body

instance
    (fileId : FileId)
    (etag : ETag Body)
    (w : World) : Decidable (Unchanged fileId etag w) :=
  inferInstanceAs (Decidable (_ ∨ _))

/- No version of the entry since the call turned to it. -/
def Unwritten (b : Basis) (w : World) : Prop :=
  (w.versions (.tree b.fileId)).length = b.entries

instance (b : Basis) (w : World) : Decidable (Unwritten b w) :=
  inferInstanceAs (Decidable (_ = _))

/-
  The entry was the confirmed one when it was compared, so
  it still is unless it has been written since.
-/
structure Checked
    (b : Basis)
    (etag : ETag Body)
    (w : World) : Prop where
  counted : b.entries ≤ (w.versions (.tree b.fileId)).length
  unchanged : Unwritten b w → Unchanged b.fileId etag w

/- An entry that has no new version has not changed. -/
theorem Unchanged.later
    {fileId : FileId}
    (h : Unchanged fileId etag w)
    (hHistory : HistoryOk w)
    (hHistory' : HistoryOk w')
    (hGrows : Grows w w')
    (hSame :
      (w'.versions (.tree fileId)).length =
        (w.versions (.tree fileId)).length) :
    Unchanged fileId etag w' := by
  rcases h with hNone | hBody
  · exact .inl (hGrows.gone _ hNone hSame)
  have hVersions :
      w.versions (.tree fileId) = w'.versions (.tree fileId) :=
    (hGrows.versions _).eq_of_length hSame.symm
  have hNewest := hHistory.newest _ _ hBody
  rw [hVersions] at hNewest
  cases hNow : w'.store.objects.lookup (.tree fileId) with
  | none => exact .inl hNow
  | some body =>
      have hNewest' := hHistory'.newest _ _ hNow
      rw [hNewest, Option.some.injEq] at hNewest'
      right
      rw [hNow, hNewest']

theorem Checked.later
    (h : Checked b etag w)
    (hHistory : HistoryOk w)
    (hHistory' : HistoryOk w')
    (hGrows : Grows w w') : Checked b etag w' := by
  have hLength := (hGrows.versions (.tree b.fileId)).length_le
  have hCounted := h.counted
  refine ⟨by omega, ?_⟩
  intro hUnwritten
  unfold Unwritten at hUnwritten
  apply (h.unchanged (by unfold Unwritten; omega)).later
    hHistory hHistory' hGrows
  omega

/- What is compared at any time has been checked. -/
theorem Unchanged.checked
    (h : Unchanged b.fileId etag w)
    (hCounted :
      b.entries ≤ (w.versions (.tree b.fileId)).length) :
    Checked b etag w :=
  ⟨hCounted, fun _ => h⟩

/- The write reaches a tree entry only as the version. -/
def OnlyOver
    (etag : ETag Body)
    (write : Write Key Body) : Prop :=
  ∀ fileId objects, write.key = .tree fileId →
    write.Allowed objects →
      objects.lookup (.tree fileId) = some etag.body

/- What a step of a confirmed deletion may write. -/
structure ConfirmedWrite
    (b : Basis)
    (etag : ETag Body)
    (w : World)
    (write : Write Key Body) : Prop where
  tree : OnlyOver etag write
  record :
    ∀ fileId, write.key = .tombstone fileId →
      fileId = b.fileId ∧ Checked b etag w

/- An operation that a call has built on its basis. -/
structure ConfirmedOp
    (op : Operation)
    (basis : Option Basis)
    (journal : Option JournalId)
    (w : World) : Prop where
  delete :
    ∀ b ∈ basis, ∀ etag, b.confirmed = some etag →
      op.opType = .delete ∧
        op.targetFileId = some b.fileId ∧ Checked b etag w
  confirmed :
    ∀ j ∈ journal, ∃ b ∈ basis, ∃ etag,
      b.confirmed = some etag ∧ b.fileId = j.fileId

structure ConfirmedOk (w : World) : Prop where
  flights :
    ∀ f ∈ w.store.flights, ∀ b ∈ f.sender.basis, ∀ etag,
      b.confirmed = some etag → ConfirmedWrite b etag w f.write
  issued :
    ∀ x ∈ w.issued,
      ConfirmedOp x.operation x.basis x.journal w

/- What keeps every check, as all steps do. -/
def KeepsChecks (w w' : World) : Prop :=
  ∀ b etag, Checked b etag w → Checked b etag w'

/- Nothing was written, so nothing has changed. -/
theorem keepsChecks_same
    (hObjects : w'.store.objects = w.store.objects)
    (hVersions : w'.versions = w.versions) :
    KeepsChecks w w' := by
  intro b etag h
  constructor
  · rw [hVersions]
    exact h.counted
  · unfold Unwritten Unchanged
    rw [hVersions, hObjects]
    exact h.unchanged

theorem keepsChecks_grows
    (hInv : LogInv True w)
    (hInv' : LogInv True w')
    (hGrows : Grows w w') : KeepsChecks w w' :=
  fun _ _ h => h.later hInv.history hInv'.history hGrows

variable {write : Write Key Body}

theorem ConfirmedWrite.keep
    (h : ConfirmedWrite b etag w write)
    (hKeeps : KeepsChecks w w') :
    ConfirmedWrite b etag w' write where
  tree := h.tree
  record := fun fileId hKey =>
    ⟨(h.record fileId hKey).1,
      hKeeps b etag (h.record fileId hKey).2⟩

theorem ConfirmedOp.keep
    {op : Operation} {basis : Option Basis}
    {journal : Option JournalId}
    (h : ConfirmedOp op basis journal w)
    (hKeeps : KeepsChecks w w') :
    ConfirmedOp op basis journal w' where
  delete := by
    intro b hb etag hConfirmed
    have hOld := h.delete b hb etag hConfirmed
    exact ⟨hOld.1, hOld.2.1, hKeeps b etag hOld.2.2⟩
  confirmed := h.confirmed

/-
  New flights and operations have to be looked at; the old
  ones keep what holds of them.
-/
theorem ConfirmedOk.step
    (h : ConfirmedOk w)
    (hKeeps : KeepsChecks w w')
    (hFlights :
      ∀ f ∈ w'.store.flights,
        (∃ f₀ ∈ w.store.flights, f₀.write = f.write ∧
          f₀.sender = f.sender) ∨
        ∀ b ∈ f.sender.basis, ∀ etag,
          b.confirmed = some etag →
            ConfirmedWrite b etag w' f.write)
    (hIssued :
      ∀ x ∈ w'.issued, x ∈ w.issued ∨
        ConfirmedOp x.operation x.basis x.journal w') :
    ConfirmedOk w' := by
  constructor
  · intro f hf
    rcases hFlights f hf with ⟨f₀, hf₀, hWrite, hSender⟩ | hNew
    · rw [← hWrite, ← hSender]
      intro b hb etag hConfirmed
      exact (h.flights f₀ hf₀ b hb etag hConfirmed).keep hKeeps
    · exact hNew
  · intro x hx
    rcases hIssued x hx with hOld | hNew
    · exact (h.issued x hOld).keep hKeeps
    · exact hNew

theorem ConfirmedOk.send
    (h : ConfirmedOk w)
    (hNew :
      ∀ b ∈ w.basis t, ∀ etag, b.confirmed = some etag →
        ConfirmedWrite b etag w write) :
    ConfirmedOk (w.sent t write) := by
  have hKeeps : KeepsChecks w (w.sent t write) :=
    keepsChecks_same rfl rfl
  apply h.step hKeeps
  · intro f hf
    rcases mem_sent hf with hf | rfl
    · exact .inl ⟨f, hf, rfl, rfl⟩
    · right
      intro b hb etag hConfirmed
      exact (hNew b hb etag hConfirmed).keep hKeeps
  · exact fun x hx => .inl hx

def confirmedHost : Host True where
  admits := fun _ _ _ _ => True
  extra := ConfirmedOk
  stamps := fun t op w =>
    ConfirmedOp op (w.basis t) (w.holding t) w
  sent := by
    intro w t write _ h hKey
    apply h.send
    intro b _ etag _
    constructor
    · intro fileId objects hTree
      rw [hTree] at hKey
      exact hKey.elim
    · intro fileId hRecord
      rw [hRecord] at hKey
      exact hKey.elim
  stamped := by
    intro w t op _ h hStamps _
    have hKeeps : KeepsChecks w (w.stamped t op) :=
      keepsChecks_same rfl rfl
    apply h.step hKeeps
    · exact fun f hf => .inl ⟨f, hf, rfl, rfl⟩
    · intro x hx
      rcases List.mem_append.mp hx with hx | hx
      · exact .inl hx
      · cases List.mem_singleton.mp hx
        exact .inr (hStamps.keep hKeeps)
  same := by
    intro w w' h hSame
    apply h.step
      (keepsChecks_same (by rw [hSame.store]) hSame.versions)
    · rw [hSame.store]
      exact fun f hf => .inl ⟨f, hf, rfl, rfl⟩
    · rw [hSame.issued]
      exact fun x hx => .inl hx

theorem ConfirmedOk.deliver
    {ticket : Nat}
    (h : ConfirmedOk w)
    (hInv : LogInv True w)
    (hDeliver : w.deliver ticket = some w') :
    ConfirmedOk w' := by
  have hInv' := (hInv.deliver hDeliver).1
  rcases deliver_at hDeliver with ⟨f, _, hDelivery⟩
  apply h.step (keepsChecks_grows hInv hInv'
    (hDelivery.grows hInv.basic))
  · intro g hg
    rcases hDelivery.old hg with ⟨g₀, hg₀, hLater⟩
    exact .inl ⟨g₀, hg₀, hLater.write.symm,
      hLater.sender.symm⟩
  · rw [hDelivery.issued]
    exact fun x hx => .inl hx

/- The basis of a flight or an operation is a confirmation. -/
def Confirms
    (basis : Option Basis)
    (b : Basis)
    (etag : ETag Body) : Prop :=
  basis = some b ∧ b.confirmed = some etag

/-
  The write deletes a confirmed target: it creates the
  record of the target or commits its Delete.
-/
inductive Deletes
    (w : World)
    (f : Flight Key Body Sender)
    (b : Basis)
    (etag : ETag Body) : Prop where
  | record
      (confirms : Confirms f.sender.basis b etag)
      (key : f.write.key = .tombstone b.fileId)
  | commit
      (x : Issued)
      (issued : x ∈ w.issued)
      (confirms : Confirms x.basis b etag)
      (write : HeadWrite x.operation.opId f.write)

/-
  A call that turns to a target which an earlier run has
  tried to delete.
-/
def retriesInTime
    (c : ConfirmedCall)
    (r : Req)
    (w : World) : Prop :=
  match c with
  | .target _ _ recoveryId target =>
      r = .prepare target.confirmation →
        (w.journals ⟨recoveryId, target.fileId⟩).receipt.attempts
            ≠ [] →
          Unchanged target.fileId target.etag w
  | _ => True

/-
  The entry of a target is not written from the moment at
  which the run turns to it until its record and its Delete
  are carried out. When an earlier run has left an attempt,
  it is the confirmed one at that moment, or missing.
-/
def DeletesInTime
    (s : ConfirmedState)
    (a : ConfirmedAction) : Prop :=
  (∀ t k c v r cont, a = .serve t k →
    s.threads t = .busy c v (.ask r cont) →
      retriesInTime c r s.world) ∧
  ∀ ticket f b etag, a = .env (.deliver ticket) →
    s.world.store.flights[ticket]? = some f →
    f.write.Allowed s.world.store.objects →
    Deletes s.world f b etag → Unwritten b s.world

def confirmedLimits :
    ThreadSystem.Limits Req Choice World Tid ConfirmedCall
      Unit EnvAction where
  Starts := fun _ _ _ _ => True
  Admits := fun c _ r _ w => retriesInTime c r w
  Env := fun _ _ => True

/- The host of a call `c`. -/
abbrev confirmedBy (c : ConfirmedCall) : Host True :=
  confirmedHost.limit (confirmedLimits.Admits c)

------------------------------------------------------------
-- The Calls
------------------------------------------------------------

variable {target : DeleteTarget}

/- The call has turned to the target and checked it. -/
def Turned
    (target : DeleteTarget)
    (t : Tid)
    (w : World) : Prop :=
  ∃ b, w.basis t = some b ∧
    b.toChange = target.confirmation ∧ Checked b target.etag w

theorem Turned.later
    (h : Turned target t w)
    (hInv : LogInv True w)
    (hInv' : LogInv True w')
    (hSteps : Steps t w w') : Turned target t w' := by
  rcases h with ⟨b, hBasis, hChange, hChecked⟩
  exact ⟨b, hSteps.basis.trans hBasis, hChange,
    keepsChecks_grows hInv hInv' hSteps.toGrows b _ hChecked⟩

/- What a call may write once it has checked its target. -/
theorem Turned.sendable
    (h : Turned target t w)
    (hInv : LogInv True w)
    (hTree : OnlyOver target.etag write)
    (hRecord :
      ∀ fileId, write.key = .tombstone fileId →
        fileId = target.fileId) :
    Sendable (confirmedBy c) t w write := by
  intro w₁ hOthers hInv₁
  rcases h.later hInv hInv₁.log hOthers.toSteps with
    ⟨b, hBasis, hChange, hChecked⟩
  apply ConfirmedOk.send hInv₁.extra
  intro b' hb etag hConfirmed
  rw [hBasis] at hb
  cases hb
  have hId : b.fileId = target.fileId :=
    congrArg Change.fileId hChange
  have hEtag : b.confirmed = some target.etag :=
    congrArg Change.confirmed hChange
  rw [hEtag] at hConfirmed
  cases hConfirmed
  refine ⟨hTree, ?_⟩
  intro fileId hKey
  exact ⟨(hRecord fileId hKey).trans hId.symm, hChecked⟩

/- A call that has turned to nothing may write anything. -/
theorem unturned_sendable
    (hBasis : w.basis t = none) :
    Sendable (confirmedBy c) t w write := by
  intro w₁ hOthers hInv₁
  apply ConfirmedOk.send hInv₁.extra
  rw [hOthers.basis, hBasis]
  intro b hb
  cases hb

/- And it may build any operation that is in no journal. -/
theorem unturned_stampable
    {targetFileId : Option FileId} {opType : OpType}
    {effects : Effects}
    (hBasis : w.basis t = none)
    (hHolding : w.holding t = none) :
    Stampable (confirmedBy c) t w targetFileId opType
      effects := by
  intro v v' w₁ w₂ w₃ start op preconditions hRead _ hSteps _ _
  have hAfter :=
    (hRead.before.trans hRead.after).toSteps.trans hSteps
  constructor
  · intro b hb
    rw [hAfter.basis, hBasis] at hb
    cases hb
  · intro j hj
    rw [hAfter.holding, hHolding] at hj
    cases hj

variable {Q : CoreResult Unit → Unit → World → Prop}

/- A target that was compared, or had been tried before. -/
theorem checkFirst_meets
    {attempts : List Operation}
    (hTurned :
      ∃ b, w.basis t = some b ∧
        b.toChange = target.confirmation ∧
        b.entries ≤ (w.versions (.tree b.fileId)).length)
    (hInv : LogInv True w)
    (hRetried : attempts ≠ [] → Turned target t w)
    (hError :
      ∀ e w', Others t w w' → HostInv (confirmedBy c) w' →
        Q (.error e) () w')
    (hOk :
      ∀ w', Others t w w' → HostInv (confirmedBy c) w' →
        Turned target t w' → Q (.ok ()) () w') :
    LogMeets (confirmedBy c) t (target.checkFirst attempts) ()
      Q w := by
  have finished :
      ∀ w₁, Others t w w₁ → LogInv True w₁ →
        Turned target t w₁ →
        LogMeets (confirmedBy c) t (pure () : CloudM Unit Unit)
          () Q w₁ := by
    intro w₁ h₁ hInv₁ hTurned₁
    apply meets_pure
    intro w' h₂ hInv'
    exact hOk w' (h₁.trans h₂) hInv'
      (hTurned₁.later hInv₁ hInv'.log h₂.toSteps)
  unfold DeleteTarget.checkFirst
  split
  · unfold DeleteTarget.checkUnchanged
    apply meets_bind
    apply FileTree.getEntryVersionRounds_meets
    · intro e w₁ h₁ hInv₁
      apply continues_error
      exact hError e w₁ h₁ hInv₁
    intro observed w₁ w₂ h₁ hVersion h₂ hInv₂
    have h₀₂ := h₁.trans h₂
    -- What was read counts until the entry is written.
    have compared :
        Unchanged target.fileId target.etag w₁ →
          Turned target t w₂ := by
      intro hUnchanged
      rcases hTurned with ⟨b, hBasis, hChange, hCounted⟩
      have hId : b.fileId = target.fileId :=
        congrArg Change.fileId hChange
      have hLength :=
        (h₁.versions (.tree b.fileId)).length_le
      have hTurned₁ : Turned target t w₁ := by
        refine ⟨b, h₁.basis.trans hBasis, hChange, ?_⟩
        apply Unchanged.checked
        · rw [hId]
          exact hUnchanged
        · omega
      exact hTurned₁.later hVersion.inv.log hInv₂.log
        h₂.toSteps
    have hFound := hVersion.found
    apply continues_ok
    cases observed with
    | none =>
        exact finished w₂ h₀₂ hInv₂.log
          (compared (.inl hFound))
    | some current =>
        dsimp only
        split
        · apply meets_throw
          exact fun w' h₃ => hError _ w' (h₀₂.trans h₃)
        · rename_i hEtag
          have hSame : current.etag = target.etag :=
            not_not.mp hEtag
          apply finished w₂ h₀₂ hInv₂.log
          apply compared
          right
          rw [hFound, Option.map_some, hSame]
  · rename_i hAttempts
    apply finished w (Others.refl t w) hInv
    apply hRetried
    intro hNil
    rw [hNil] at hAttempts
    exact hAttempts rfl

variable {deviceId : DeviceId}

/- The Delete of a target is built while it is checked. -/
theorem commitDelete_meets
    {j : JournalId}
    {Q : CoreResult DurableCommit → Unit → World → Prop}
    (hHolding : w.holding t = some j)
    (hId : j.fileId = target.fileId)
    (hInv : LogInv True w)
    (hTurned : Turned target t w)
    (h :
      ∀ r w', Steps t w w' → HostInv (confirmedBy c) w' →
        Q r () w') :
    LogMeets (confirmedBy c) t (target.commit deviceId j) () Q
      w := by
  unfold DeleteTarget.commit
  apply meets_bind
  apply meets_now
  intro clock w₁ h₁ hInv₁
  have hTurned₁ := hTurned.later hInv hInv₁.log h₁.toSteps
  have hHolding₁ := h₁.holding.trans hHolding
  apply continues_ok
  have stamps :
      DurableStamps (confirmedBy c) t j .delete
        DeleteTarget.preconditions target.effects
        (OperationLog.new deviceId clock) w₁ := by
    intro start w₂ op hStart hInv₂ hAttempt
    rcases hTurned₁.later hInv₁.log hInv₂.log hStart.steps with
      ⟨b, hBasis, hChange, hChecked⟩
    have hFile : b.fileId = target.fileId :=
      congrArg Change.fileId hChange
    have hEtag : b.confirmed = some target.etag :=
      congrArg Change.confirmed hChange
    constructor
    · intro b' hb etag hConfirmed
      rw [hBasis] at hb
      cases hb
      rw [hEtag] at hConfirmed
      cases hConfirmed
      refine ⟨hAttempt.opType, ?_, hChecked⟩
      rw [hAttempt.target, hId, hFile]
    · intro j' hj
      rw [hStart.steps.holding, hHolding₁] at hj
      cases hj
      exact ⟨b, hBasis, target.etag, hEtag, hFile.trans hId.symm⟩
  apply meets_onLog (Meets.with_inv (commitDurable_meets
    hHolding₁ (knows_new deviceId clock w₁) (fun _ => rfl)
    stamps))
  rintro r v' w₂ ⟨⟨hDurably, _⟩, hInv₂⟩
  exact h r w₂ (h₁.toSteps.trans hDurably.steps) hInv₂

variable {conditionalDelete : Bool}

/- The entry is removed only as the confirmed version. -/
theorem projectDelete_meets
    {current : EntryVersion}
    {Q : CoreResult Bool → Unit → World → Prop}
    (hInv : LogInv True w)
    (hTurned : Turned target t w)
    (hSame : current.etag = target.etag)
    (h :
      ∀ r w', Others t w w' → HostInv (confirmedBy c) w' →
        Q r () w') :
    LogMeets (confirmedBy c) t
      (target.project conditionalDelete current) () Q w := by
  unfold DeleteTarget.project
  split
  · have hSend :
        Sendable (confirmedBy c) t w
          (.deleteIfMatch (.tree target.fileId)
            target.etag) := by
      apply hTurned.sendable hInv
      · intro fileId objects hKey hAllowed
        cases hKey
        exact hAllowed
      · intro fileId hKey
        cases hKey
    apply meets_plainWrite hSend not_false
    exact fun r w' h₁ hInv' _ => h r w' h₁ hInv'
  · apply meets_bind
    apply meets_now
    intro time w₁ h₁ hInv₁
    have hTurned₁ := hTurned.later hInv hInv₁.log h₁.toSteps
    apply continues_ok
    apply FileTree.putEntryIf_meets
    · apply hTurned₁.sendable hInv₁.log
      · intro fileId objects hKey hAllowed
        cases hKey
        rw [← hSame]
        exact hAllowed
      · intro fileId hKey
        cases hKey
    · exact fun r w' h₂ hInv' _ => h r w' (h₁.trans h₂) hInv'

theorem applyDelete_meets
    (hInv : LogInv True w)
    (hTurned : Turned target t w)
    (h :
      ∀ r w', Others t w w' → HostInv (confirmedBy c) w' →
        Q r () w') :
    LogMeets (confirmedBy c) t (target.apply conditionalDelete)
      () Q w := by
  have finished :
      ∀ w₁, Others t w w₁ →
        LogMeets (confirmedBy c) t (pure () : CloudM Unit Unit)
          () Q w₁ := by
    intro w₁ h₁
    apply meets_pure
    exact fun w' h₂ => h _ w' (h₁.trans h₂)
  have failed :
      ∀ w₁, Others t w w₁ →
        LogMeets (confirmedBy c) t
          (Script.throw DeleteTarget.applyChanged :
            CloudM Unit Unit) () Q w₁ := by
    intro w₁ h₁
    apply meets_throw
    exact fun w' h₂ => h _ w' (h₁.trans h₂)
  unfold DeleteTarget.apply
  apply meets_bind
  apply FileTree.getEntryVersionRounds_meets
  · intro e w₁ h₁ hInv₁
    apply continues_error
    exact h _ w₁ h₁ hInv₁
  intro observed w₁ w₂ h₁ _ h₂ hInv₂
  have h₀₂ := h₁.trans h₂
  have hTurned₂ := hTurned.later hInv hInv₂.log h₀₂.toSteps
  apply continues_ok
  cases observed with
  | none => exact finished w₂ h₀₂
  | some current =>
  dsimp only
  split
  · exact finished w₂ h₀₂
  split
  · exact failed w₂ h₀₂
  rename_i hEtag
  apply meets_bind
  apply projectDelete_meets hInv₂.log hTurned₂
    (not_not.mp hEtag)
  intro r w₃ h₃ hInv₃
  have h₀₃ := h₀₂.trans h₃
  cases r with
  | error e =>
      apply continues_error
      exact h _ w₃ h₀₃ hInv₃
  | ok done =>
      apply continues_ok
      cases done with
      | true => exact finished w₃ h₀₃
      | false => exact failed w₃ h₀₃

/- Setting the checkpoint leaves the attempts alone. -/
theorem setApplied_meets
    {j : JournalId}
    (hHolding : w.holding t = some j)
    (h : ∀ r w', LogInv True w' → Q r () w') :
    LogMeets (confirmedBy c) t (RecoveryJournal.setApplied j)
      () Q w := by
  apply meets_updateReceipt hHolding
  · intro w₁ _ hInv₁ a ha
    exact hInv₁.basic.recorded _ a (.inl ha)
  · exact fun r => List.prefix_rfl
  · intro hClean w₁ _ hInv₁
    have hOk := ((hInv₁.linear hClean).journals j).receipt
    exact ⟨hOk.attempts, hOk.committed⟩
  · exact fun r w' _ hInv' _ => h r w' hInv'

/- Everything after the check. -/
theorem delete_meets
    {j : JournalId}
    (hHolding : w.holding t = some j)
    (hId : j.fileId = target.fileId)
    (hInv : LogInv True w)
    (hTurned : Turned target t w) :
    LogMeets (confirmedBy c) t
      (target.delete deviceId conditionalDelete j) ()
      (fun _ _ _ => True) w := by
  unfold DeleteTarget.delete
  apply meets_bind
  apply TombstoneManager.createTombstone_meets
  · intro record _
    apply hTurned.sendable hInv
    · intro fileId objects hKey
      cases hKey
    · intro fileId hKey
      cases hKey
      rfl
  intro r w₁ h₁ hInv₁ _
  have hTurned₁ := hTurned.later hInv hInv₁.log h₁.toSteps
  cases r with
  | error e =>
      apply continues_error
      trivial
  | ok record =>
  apply continues_ok
  apply meets_bind
  apply commitDelete_meets (h₁.holding.trans hHolding) hId
    hInv₁.log hTurned₁
  intro r w₂ h₂ hInv₂
  have hTurned₂ := hTurned₁.later hInv₁.log hInv₂.log h₂
  cases r with
  | error e =>
      apply continues_error
      trivial
  | ok committed =>
  apply continues_ok
  split
  · apply meets_throw
    exact fun _ _ _ => trivial
  apply meets_bind
  apply applyDelete_meets hInv₂.log hTurned₂
  intro r w₃ h₃ _
  cases r with
  | error e =>
      apply continues_error
      trivial
  | ok _ =>
      apply continues_ok
      apply setApplied_meets
      · exact h₃.holding.trans (h₂.holding.trans
          (h₁.holding.trans hHolding))
      · exact fun _ _ _ => trivial

theorem deleteTarget_meets
    {recoveryId : Uuid}
    (hHolding :
      w.holding t = some ⟨recoveryId, target.fileId⟩) :
    LogMeets
      (confirmedBy (.target deviceId conditionalDelete
        recoveryId target)) t
      (deleteTarget deviceId conditionalDelete recoveryId
        target) () (fun _ _ _ => True) w := by
  unfold deleteTarget
  apply meets_bind
  apply meets_readReceipt Receipt.applied hHolding
  intro r w₁ h₁ _ _
  have hHolding₁ := h₁.holding.trans hHolding
  cases r with
  | error e =>
      apply continues_error
      trivial
  | ok applied =>
  apply continues_ok
  split
  · apply meets_pure
    exact fun _ _ _ => trivial
  apply meets_bind
  apply meets_turn
  intro k w₂ w₃ h₂ hInv₂ hAdmits h₃ hInv₃
  -- The entry as it was when the call turned to the target.
  have hRetries :
      (w₂.journals ⟨recoveryId, target.fileId⟩).receipt.attempts
          ≠ [] →
        Unchanged target.fileId target.etag w₂ :=
    hAdmits rfl
  have hHolding₃ := h₃.holding.trans
    (h₂.holding.trans hHolding₁)
  have hSame := h₃.journals _ (h₂.holding.trans hHolding₁)
  have hTurned :
      ∃ b, w₃.basis t = some b ∧
        b.toChange = target.confirmation ∧
        b.entries ≤ (w₃.versions (.tree b.fileId)).length :=
    ⟨_, h₃.basis.trans (if_pos rfl), rfl,
      (h₃.versions (.tree target.fileId)).length_le⟩
  apply continues_ok
  apply meets_bind
  apply meets_readReceipt Receipt.attempts hHolding₃
  intro r w₄ h₄ hInv₄ hRead
  have hHolding₄ := h₄.holding.trans hHolding₃
  cases r with
  | error e =>
      apply continues_error
      trivial
  | ok attempts =>
  have hAttempts := hRead attempts rfl
  apply continues_ok
  apply meets_bind
  apply checkFirst_meets _ hInv₄
  · intro hRetried
    rw [hAttempts, hSame] at hRetried
    have hKeeps := keepsChecks_grows hInv₂.log hInv₄
      ((sameData_prepares w₂ t _).grows.trans
        (h₃.trans h₄).toGrows)
    refine ⟨_, (h₃.trans h₄).basis.trans (if_pos rfl), rfl, ?_⟩
    apply hKeeps
    exact (hRetries hRetried).checked (Nat.le_refl _)
  · intro e w₅ h₅ _
    apply continues_error
    trivial
  · intro w₅ h₅ hInv₅ hTurned₅
    apply continues_ok
    exact delete_meets (h₅.holding.trans hHolding₄) rfl
      hInv₅.log hTurned₅
  · rcases hTurned with ⟨b, hBasis, hChange, hCounted⟩
    have hLength := (h₄.versions (.tree b.fileId)).length_le
    exact ⟨b, h₄.basis.trans hBasis, hChange, by omega⟩

/- Every call keeps the host's invariant. -/
theorem confirmed_call
    (hStarting : Starting confirmedHost t c.journal w) :
    LogMeets (confirmedBy c) t c.run () (fun _ _ _ => True)
      w := by
  have hBasis := hStarting.basis
  have hHolding := hStarting.holding
  cases c with
  | target deviceId conditionalDelete recoveryId confirmed =>
      exact deleteTarget_meets hHolding
  | other step =>
      apply deviceStep_meets hHolding
      cases step with
      | commit deviceId targetFileId opType effects fileExists
          parentExists =>
          exact unturned_stampable hBasis hHolding
      | write request plain => exact unturned_sendable hBasis

variable {s : ConfirmedState}

theorem confirmed_of_run
    (run : ConfirmedRun DeletesInTime .initial s) :
    HostInv confirmedHost s.world := by
  have hState :
      DeviceStateOk ConfirmedCall.run ConfirmedCall.journal
        confirmedHost confirmedLimits (fun _ _ _ _ => True)
        s := by
    apply deviceState_of_run _ _ _ _ run
    · constructor
      · intro f hf
        cases hf
      · intro x hx
        cases hx
    · exact fun t c w hStarting => confirmed_call hStarting
    · exact fun w w' ticket hInv _ hDeliver =>
        hInv.extra.deliver hInv.log hDeliver
    · intro s a hPermit
      cases a with
      | serve t k =>
          exact fun c v r cont => hPermit.1 t k c v r cont rfl
      | call t c => exact fun _ _ => trivial
      | _ => trivial
  exact hState.inv

/-
  A confirmed deletion has one Delete in the log, of its own
  target. Its record and its Delete are carried out while
  the entry is the confirmed one or missing, and it writes
  to no other record and over no other version of an entry.
-/
theorem confirmed_deletes
    (run : ConfirmedRun DeletesInTime .initial s) :
    (∀ j op op', IssuedFor j op s.world →
      IssuedFor j op' s.world → op ∈ s.world.headLog →
      op' ∈ s.world.headLog → op = op') ∧
    (∀ x ∈ s.world.issued, ∀ j, x.journal = some j →
      x.operation.opType = .delete ∧
      x.operation.targetFileId = some j.fileId ∧
      ∃ b etag, Confirms x.basis b etag ∧
        b.fileId = j.fileId) ∧
    ∀ ticket f b etag,
      DeletesInTime s (.env (.deliver ticket)) →
      CarriesOut s.world ticket f →
      (Deletes s.world f b etag →
        Unchanged b.fileId etag s.world) ∧
      (Confirms f.sender.basis b etag →
        (∀ fileId, f.write.key = .tombstone fileId →
          fileId = b.fileId) ∧
        ∀ fileId, f.write.key = .tree fileId →
          s.world.store.objects.lookup (.tree fileId) =
            some etag.body) := by
  have hInv := confirmed_of_run run
  have hLog := hInv.log
  have hLinear := hLog.linear trivial
  refine ⟨?_, ?_, ?_⟩
  · rintro j op op' ⟨x, hx, rfl, hJournal⟩
      ⟨x', hx', rfl, hJournal'⟩ hMem hMem'
    have hLast := hLinear.last_of_mem hLog.basic hx hJournal
      hMem
    have hLast' := hLinear.last_of_mem hLog.basic hx' hJournal'
      hMem'
    rw [hLast] at hLast'
    exact Option.some.inj hLast'
  · intro x hx j hJournal
    have hOp := hInv.extra.issued x hx
    rcases hOp.confirmed j hJournal with
      ⟨b, hb, etag, hConfirmed, hId⟩
    have hDelete := hOp.delete b hb etag hConfirmed
    refine ⟨hDelete.1, ?_, b, etag, ⟨hb, hConfirmed⟩, hId⟩
    rw [hDelete.2.1, hId]
  · rintro ticket f b etag hPermit ⟨hFlight, hAllowed⟩
    have hMem := List.mem_of_getElem? hFlight
    constructor
    · intro hDeletes
      have hUnwritten :=
        hPermit.2 ticket f b etag rfl hFlight hAllowed hDeletes
      cases hDeletes with
      | record confirms key =>
          have hWrite := hInv.extra.flights f hMem b confirms.1
            etag confirms.2
          exact (hWrite.record _ key).2.unchanged hUnwritten
      | commit x issued confirms =>
          have hDelete := (hInv.extra.issued x issued).delete b
            confirms.1 etag confirms.2
          exact hDelete.2.2.unchanged hUnwritten
    · rintro ⟨hBasis, hConfirmed⟩
      have hWrite := hInv.extra.flights f hMem b hBasis etag
        hConfirmed
      constructor
      · exact fun fileId hKey => (hWrite.record fileId hKey).1
      · exact fun fileId hKey =>
          hWrite.tree fileId _ hKey hAllowed

------------------------------------------------------------
-- A Changed Entry Deleted
------------------------------------------------------------

/- Whether a step of the run is in time; `false` if unclear. -/
def deleteInTime
    (s : ConfirmedState) : ConfirmedAction → Bool
  | .serve t _ =>
      match s.threads t with
      | .busy (.target _ _ recoveryId target) _ _ =>
          let journal := s.world.journals
            ⟨recoveryId, target.fileId⟩
          journal.receipt.attempts.isEmpty ||
            Unchanged target.fileId target.etag s.world
      | _ => true
  | .env (.deliver _) =>
      (s.world.store.flights.all fun f =>
        f.sender.basis.all fun b => Unwritten b s.world) &&
      s.world.issued.all fun x =>
        x.basis.all fun b => Unwritten b s.world
  | _ => true

theorem deletesInTime_of_check
    {a : ConfirmedAction}
    (h : deleteInTime s a = true) : DeletesInTime s a := by
  constructor
  · intro t k c v r cont hServe hThread
    subst hServe
    cases c with
    | target deviceId conditionalDelete recoveryId confirmed =>
        intro _ hAttempts
        simp only [deleteInTime, hThread, Bool.or_eq_true,
          List.isEmpty_iff, decide_eq_true_eq] at h
        exact h.resolve_left hAttempts
    | _ => trivial
  · rintro ticket f b etag rfl hFlight _ hDeletes
    simp only [deleteInTime, Bool.and_eq_true,
      List.all_eq_true] at h
    cases hDeletes with
    | record confirms =>
        have hBasis := h.1 f (List.mem_of_getElem? hFlight)
        rw [confirms.1] at hBasis
        simpa using hBasis
    | commit x issued confirms =>
        have hBasis := h.2 x issued
        rw [confirms.1] at hBasis
        simpa using hBasis

/-
  Whether the delivery of a flight commits the Delete of a
  target whose entry is, or is not, the confirmed one.
-/
def commitsDelete
    (unchanged : Bool)
    (ticket : Nat)
    (s : ConfirmedState) : Bool :=
  match s.world.store.flights[ticket]? with
  | some f =>
      f.write.Allowed s.world.store.objects &&
        s.world.issued.any fun x =>
          f.write = headWrite x.operation &&
            x.basis.any fun b => b.confirmed.any fun etag =>
              decide (Unchanged b.fileId etag s.world) =
                unchanged
  | none => false

theorem of_commitsDelete
    {unchanged : Bool} {ticket : Nat}
    (h : commitsDelete unchanged ticket s = true) :
    ∃ f b etag, CarriesOut s.world ticket f ∧
      Deletes s.world f b etag ∧
      (Unchanged b.fileId etag s.world ↔ unchanged = true) := by
  unfold commitsDelete at h
  split at h
  · rename_i f hFlight
    simp only [Bool.and_eq_true, decide_eq_true_eq,
      List.any_eq_true, Option.any_eq_true] at h
    rcases h with
      ⟨hAllowed, x, hx, hWrite, b, hb, etag, hEtag, hSame⟩
    refine ⟨f, b, etag, ⟨hFlight, hAllowed⟩, ?_, ?_⟩
    · apply Deletes.commit x hx ⟨hb, hEtag⟩
      rw [hWrite]
      exact headWrite_isHeadWrite x.operation
    · rw [← hSame, decide_eq_true_eq]
  · cases h

/- The index row of file 10, confirmed for deletion. -/
def confirmedRow : FileEntry where
  fileId := 10
  parentId := some 20
  name := "a.txt"
  entryType := .file
  currentRevisionId := none
  contentRef := none
  size := 0
  contentHash := none
  mime := none
  updatedAt := 0
  deletedAt := none
  versionHistory := []

def confirmedTarget : DeleteTarget where
  entry := confirmedRow
  etag := ⟨.entry confirmedRow⟩
  path := "a.txt"
  blobs := []

/- Device 1 writes an entry. -/
def entryWritten
    (entry : FileEntry)
    (ticket : Nat) : List ConfirmedAction :=
  [.call 1 (.other (.write
    (.put (.tree entry.fileId) (.entry entry)) not_false))] ++
  written 1 ticket ++ [.finish 1]

/- Device 2 turns to the target and compares its entry. -/
def targetCompared : List ConfirmedAction :=
  [.call 2 (.target 2 true 5 confirmedTarget)] ++ answered 2 6

/- Device 2 records the deletion and sends its Delete. -/
def deleteSent (ticket : Nat) : List ConfirmedAction :=
  answered 2 1 ++ written 2 ticket ++ answered 2 4 ++
  [.serve 2 (.fresh 1)] ++ answered 2 2 ++
  written 2 (ticket + 1) ++ answered 2 1

/- Nobody touches the entry. -/
def undisturbedDelete : List ConfirmedAction :=
  entryWritten confirmedRow 0 ++ targetCompared ++ deleteSent 1

theorem unchanged_entry_deleted :
    ∃ s f b etag, ConfirmedRun DeletesInTime .initial s ∧
      CarriesOut s.world 3 f ∧ Deletes s.world f b etag ∧
      Unchanged b.fileId etag s.world := by
  have trace :
      (confirmedSystem.execIf deleteInTime
        ConfirmedState.initial undisturbedDelete).any
        (fun s => deleteInTime s (.env (.deliver 3)) &&
          commitsDelete true 3 s) = true := by
    decide +kernel
  rcases ThreadSystem.Run.exists_of_execIf
      (fun _ _ => deletesInTime_of_check) undisturbedDelete
      trace with ⟨s, run, hTest⟩
  rw [Bool.and_eq_true] at hTest
  rcases of_commitsDelete hTest.2 with
    ⟨f, b, etag, hCarries, hDeletes, _⟩
  have hPermit := deletesInTime_of_check hTest.1
  have hUnchanged := ((confirmed_deletes run).2.2 3 f b etag
    hPermit hCarries).1 hDeletes
  exact ⟨s, f, b, etag, run, hCarries, hDeletes, hUnchanged⟩

/- Device 1 writes the entry after it was compared. -/
def disturbedDelete : List ConfirmedAction :=
  entryWritten confirmedRow 0 ++ targetCompared ++
  entryWritten { confirmedRow with size := 5 } 1 ++
  deleteSent 2

theorem changed_entry_deleted :
    ∃ s f b etag,
      ConfirmedRun (fun _ _ => True) .initial s ∧
      CarriesOut s.world 4 f ∧ Deletes s.world f b etag ∧
      ¬ Unchanged b.fileId etag s.world := by
  have trace :
      (confirmedSystem.exec ConfirmedState.initial
        disturbedDelete).any (commitsDelete false 4) =
        true := by
    decide +kernel
  rcases ThreadSystem.Run.exists_of_execIf
      (fun _ _ _ => trivial) disturbedDelete trace with
    ⟨s, run, hTest⟩
  rcases of_commitsDelete hTest with
    ⟨f, b, etag, hCarries, hDeletes, hUnchanged⟩
  refine ⟨s, f, b, etag, run, hCarries, hDeletes, ?_⟩
  rw [hUnchanged]
  simp

end S4Drive

import S4Drive.Sync.NotesSpecs

/-
  Restores while deletes of the same file are still under
  way. A published delete removes the tree entry without a
  condition, some time after it has seen that nothing newer
  is on the file; so a restore that was committed and
  projected in between loses its entry again. Nothing else
  can undo a restore as long as its deletion record is the
  one that the restore has observed.

  Main declarations:
    * `RestoreCall`, `restoreSystem`
    * `RestoredBy`, `Restored`
    * `RestoresKept`
    * `restored_file_stays`
    * `restored_file_removed`
-/

------------------------------------------------------------
-- The System
------------------------------------------------------------

namespace S4Drive

open ObjectStore Concurrency ChainLog OperationLog
open NotesIntake

/- A device publishes a delete or a restore. -/
inductive RestoreCall where
  | delete
      (deviceId : DeviceId)
      (intent : MutationIntent)
      (followsRestore : Bool)
  | restore
      (deviceId : DeviceId)
      (conditionalDelete : Bool)
      (intent : MutationIntent)

namespace RestoreCall

def intent : RestoreCall → MutationIntent
  | delete _ intent _ => intent
  | restore _ _ intent => intent

def journal (c : RestoreCall) : Option JournalId :=
  some c.intent.receipt

def run : RestoreCall → CloudM Unit Unit
  | delete deviceId intent followsRestore =>
      publishDelete deviceId intent followsRestore
  | restore deviceId conditionalDelete intent =>
      publishRestore deviceId conditionalDelete intent

end RestoreCall

/- Any number of devices, files and repeated requests. -/
def restoreSystem :
    ThreadSystem Req Resp World Tid Choice RestoreCall
      (CoreResult Unit) Unit EnvAction :=
  deviceSystem RestoreCall.run () RestoreCall.journal

abbrev RestoreState :=
  SystemState Req Resp World Tid RestoreCall
    (CoreResult Unit) Unit

abbrev RestoreAction :=
  Action Tid Choice RestoreCall EnvAction

def RestoreState.initial : RestoreState :=
  restoreSystem.initial World.fresh

abbrev RestoreRun
    (permits : RestoreState → RestoreAction → Prop) :
    RestoreState → RestoreState → Prop :=
  restoreSystem.Run permits

variable {w w' : World} {t : Tid} {c : RestoreCall}
variable {fileId : FileId} {op : Operation} {opId : OpId}
variable {f : Flight Key Body Sender}
variable {write : Write Key Body}

/- The newest operation on the file restores it. -/
def RestoredBy
    (fileId : FileId)
    (op : Operation)
    (l : List Operation) : Prop :=
  newestOn fileId l = some op ∧ op.opType = .restore

instance
    (fileId : FileId)
    (op : Operation)
    (l : List Operation) : Decidable (RestoredBy fileId op l) :=
  inferInstanceAs (Decidable (_ ∧ _))

/- An entry that is not marked as deleted. -/
def isLiveEntry : Body → Bool
  | .entry entry => entry.deletedAt.isNone
  | _ => false

/- A live entry of the file was written for the operation. -/
def Listed
    (w : World)
    (fileId : FileId)
    (opId : OpId) : Prop :=
  ∃ v ∈ w.versions (.tree fileId),
    v.sender.projects = some opId ∧ isLiveEntry v.body = true

instance
    (w : World)
    (fileId : FileId)
    (opId : OpId) : Decidable (Listed w fileId opId) :=
  inferInstanceAs (Decidable (∃ v ∈ w.versions _, _))

/- The deletion that an operation undoes, as its call saw it. -/
def undoneBy
    (w : World)
    (opId : OpId) : Option (ETag Body) :=
  (w.issued.find? fun x => x.operation.opId = opId).bind
    fun x => x.basis.bind fun basis => basis.undoes

/- The record of the file was retired for the operation. -/
def Retires
    (f : Flight Key Body Sender)
    (fileId : FileId)
    (opId : OpId) : Prop :=
  f.applied = true ∧ f.write.key = .tombstone fileId ∧
    f.sender.projects = some opId

/-
  What a restore leaves behind: a live entry, and at most
  the very record that it undoes; not even that one when it
  was retired.
-/
structure Restored
    (w : World)
    (fileId : FileId)
    (opId : OpId) : Prop where
  entry :
    ∃ entry, w.store.objects.lookup (.tree fileId) =
        some (.entry entry) ∧
      entry.fileId = fileId ∧ entry.deletedAt = none
  record :
    ∀ body, w.store.objects.lookup (.tombstone fileId) =
      some body → undoneBy w opId = some ⟨body⟩
  retired :
    ∀ f ∈ w.store.flights, Retires f fileId opId →
      w.store.objects.lookup (.tombstone fileId) = none

theorem undoneBy_mono
    (hOp : Built w op)
    (hIssued : w.issued <+: w'.issued) :
    undoneBy w' op.opId = undoneBy w op.opId := by
  rcases hIssued with ⟨newer, hIssued⟩
  have hSome :
      (w.issued.find? fun x =>
        x.operation.opId = op.opId).isSome := by
    rcases hOp with ⟨x, hx, rfl⟩
    rw [List.find?_isSome]
    exact ⟨x, hx, by simp⟩
  unfold undoneBy
  rw [← hIssued, List.find?_append, Option.or_of_isSome hSome]

/- The operation with this id is in the log. -/
def InLog (opId : OpId) (l : List Operation) : Prop :=
  ∃ op ∈ l, op.opId = opId

/-
  What a call has sent: what it does for an operation comes
  after its commit; only entries that were missing may be
  written as deleted.
-/
structure SentOk
    (l : List Operation)
    (write : Write Key Body)
    (sender : Sender) : Prop where
  known :
    ¬ LogKey write.key →
      ∀ opId, sender.projects = some opId → InLog opId l
  entry :
    ∀ fileId body, write.key = .tree fileId →
      write.body = some body →
        ∃ entry, body = .entry entry ∧ entry.fileId = fileId ∧
          (entry.deletedAt = none ∨
            write = .putIfNotExists (.tree fileId) body)
  retires :
    ∀ fileId, write.key = .tombstone fileId →
      sender.projects ≠ none → write.body = none

/- What holds as long as nothing removes restored entries. -/
structure RestoresOk (w : World) : Prop where
  sent :
    ∀ f ∈ w.store.flights, SentOk w.headLog f.write f.sender
  versions :
    ∀ fileId, ∀ v ∈ w.versions (.tree fileId),
      ∀ opId, v.sender.projects = some opId →
        InLog opId w.headLog
  entries :
    ∀ fileId body,
      w.store.objects.lookup (.tree fileId) = some body →
        ∃ entry, body = .entry entry ∧ entry.fileId = fileId
  live :
    ∀ fileId op, RestoredBy fileId op w.headLog →
      Listed w fileId op.opId →
        ∃ body,
          w.store.objects.lookup (.tree fileId) =
            some body ∧ isLiveEntry body = true
  record :
    ∀ fileId op, RestoredBy fileId op w.headLog →
      ∀ body, w.store.objects.lookup (.tombstone fileId) =
        some body → undoneBy w op.opId = some ⟨body⟩
  retired :
    ∀ fileId op, RestoredBy fileId op w.headLog →
      ∀ f ∈ w.store.flights, Retires f fileId op.opId →
        w.store.objects.lookup (.tombstone fileId) = none

theorem SentOk.mono
    {l l' : List Operation} {sender : Sender}
    (h : SentOk l write sender)
    (hSuffix : l <:+ l') : SentOk l' write sender := by
  refine { h with known := ?_ }
  intro hKey opId hProjects
  rcases h.known hKey opId hProjects with ⟨op, hOp, hId⟩
  exact ⟨op, hSuffix.subset hOp, hId⟩

theorem RestoresOk.send
    (h : RestoresOk w)
    (hNew : SentOk w.headLog write (w.sender t)) :
    RestoresOk (w.sent t write) := by
  refine ⟨?_, h.versions, h.entries, h.live, h.record, ?_⟩
  · intro f hf
    rcases mem_sent hf with hf | rfl
    · exact h.sent f hf
    · exact hNew
  · intro fileId op hRestored f hf hRetires
    rcases mem_sent hf with hf | rfl
    · exact h.retired fileId op hRestored f hf hRetires
    · cases hRetires.1

variable {l : List Operation}

theorem sentOk_of_logKey
    {sender : Sender}
    (hKey : LogKey write.key) : SentOk l write sender := by
  refine ⟨fun hNot => absurd hKey hNot, ?_, ?_⟩
  · intro fileId body hTree
    rw [hTree] at hKey
    exact hKey.elim
  · intro fileId hRecord
    rw [hRecord] at hKey
    exact hKey.elim

def restoreHost : Host True where
  admits := fun _ _ _ _ => True
  extra := RestoresOk
  stamps := fun _ _ _ => True
  sent := fun _ h hKey => h.send (sentOk_of_logKey hKey)
  stamped := by
    intro w t new hInv h _ _
    refine ⟨h.sent, h.versions, h.entries, h.live, ?_,
      h.retired⟩
    intro fileId op hRestored body hBody
    have hBuilt : Built w op :=
      hInv.basic.log op (mem_of_newestOn hRestored.1).1
    have hUndone :
        undoneBy (w.stamped t new) op.opId =
          undoneBy w op.opId :=
      undoneBy_mono hBuilt (List.prefix_append _ _)
    rw [hUndone]
    exact h.record fileId op hRestored body hBody
  same := by
    intro w w' h hSame
    constructor
    · rw [hSame.store, hSame.headLog]
      exact h.sent
    · rw [hSame.versions, hSame.headLog]
      exact h.versions
    · rw [hSame.store]
      exact h.entries
    · unfold Listed
      rw [hSame.store, hSame.headLog, hSame.versions]
      exact h.live
    · unfold undoneBy
      rw [hSame.store, hSame.headLog, hSame.issued]
      exact h.record
    · rw [hSame.store, hSame.headLog]
      exact h.retired

------------------------------------------------------------
-- Restores Kept
------------------------------------------------------------

/-
  A write that leaves restores alone: it does not remove an
  entry that was written for the newest restore, or record a
  deletion of a restored file; and a restore is committed on
  top of no other deletion than the one it undoes.
-/
structure KeepsRestores
    (w : World)
    (write : Write Key Body) : Prop where
  entry :
    ∀ fileId op, write.key = .tree fileId →
      write.body = none → RestoredBy fileId op w.headLog →
        ¬ Listed w fileId op.opId
  record :
    ∀ fileId op, write.key = .tombstone fileId →
      write.body ≠ none → ¬ RestoredBy fileId op w.headLog
  commit :
    ∀ op fileId, Built w op → HeadWrite op.opId write →
      op.opType = .restore → op.targetFileId = some fileId →
        ∀ body, w.store.objects.lookup (.tombstone fileId) =
          some body → undoneBy w op.opId = some ⟨body⟩

def deliversKeeping
    (e : EnvAction)
    (w : World) : Prop :=
  ∀ ticket f, e = .deliver ticket →
    w.store.flights[ticket]? = some f →
      f.write.Allowed w.store.objects →
        KeepsRestores w f.write

def RestoresKept
    (s : RestoreState)
    (a : RestoreAction) : Prop :=
  (∀ e, a = .env e → deliversKeeping e s.world) ∧
    ∀ t k c v r cont, a = .serve t k →
      s.threads t = .busy c v (.ask r cont) →
        searchable r s.world

def restoreLimits :
    ThreadSystem.Limits Req Choice World Tid RestoreCall Unit
      EnvAction where
  Starts := fun _ _ _ _ => True
  Admits := fun _ _ r _ w => searchable r w
  Env := deliversKeeping

/- A newer operation leaves a file restored or takes over. -/
theorem RestoredBy.cases
    {new : Operation}
    (h : RestoredBy fileId op (new :: l)) :
    (op = new ∧ new.targetFileId = some fileId) ∨
      RestoredBy fileId op l := by
  by_cases hTarget : new.targetFileId = some fileId
  · left
    have hNewest := h.1
    rw [newestOn_cons_of_target hTarget] at hNewest
    exact ⟨(Option.some.inj hNewest).symm, hTarget⟩
  · right
    have hNewest := h.1
    rw [newestOn_cons_of_ne hTarget] at hNewest
    exact ⟨hNewest, h.2⟩

/- An operation that is committed was not in the log before. -/
theorem not_inLog_of_chain
    {new : Operation}
    (hChain : LogChain (new :: l)) : ¬ InLog new.opId l := by
  rintro ⟨op, hOp, hId⟩
  have hNodup := hChain.nodup
  rw [List.map_cons, List.nodup_cons] at hNodup
  apply hNodup.1
  rw [← hId]
  exact List.mem_map_of_mem hOp

/- A version of an entry that a delivery has made the last. -/
theorem Listed.cases
    (h : Listed w' fileId opId)
    (hDelivery : Delivery f w w') :
    Listed w fileId opId ∨
      (f.write.key = .tree fileId ∧
        ∃ body, w'.store.objects.lookup (.tree fileId) =
          some body ∧ isLiveEntry body = true) := by
  rcases h with ⟨v, hv, hProjects, hLive⟩
  rcases hDelivery.mem_versions hv with
    hv | ⟨hKey, hAllowed, hBody, _⟩
  · exact .inl ⟨v, hv, hProjects, hLive⟩
  · right
    refine ⟨hKey, v.body, ?_, hLive⟩
    rw [← hKey, hDelivery.lookup_of_allowed hAllowed, hBody]

/- An entry that is live stays there and stays live. -/
theorem RestoresOk.live_deliver
    (h : RestoresOk w)
    (hDelivery : Delivery f w w')
    (hKeeps :
      f.write.Allowed w.store.objects →
        KeepsRestores w f.write)
    (hRestored : RestoredBy fileId op w.headLog)
    (hListed : Listed w' fileId op.opId) :
    ∃ body,
      w'.store.objects.lookup (.tree fileId) = some body ∧
        isLiveEntry body = true := by
  rcases hListed.cases hDelivery with hListed | ⟨_, hLive⟩
  · rcases h.live fileId op hRestored hListed with
      ⟨body, hBody, hLive⟩
    rcases hDelivery.lookup_cases (.tree fileId) with
      hSame | ⟨hKey, hAllowed, hWritten⟩
    · exact ⟨body, hSame.trans hBody, hLive⟩
    cases hNew : f.write.body with
    | none =>
        exact absurd hListed
          ((hKeeps hAllowed).entry fileId op hKey hNew
            hRestored)
    | some new =>
        rcases (h.sent f hDelivery.flight).entry fileId new hKey
            hNew with
          ⟨entry, rfl, _, hDeleted | hWrite⟩
        · refine ⟨_, hWritten.trans hNew, ?_⟩
          simp [isLiveEntry, hDeleted]
        · rw [hWrite] at hAllowed
          have hMissing :
              w.store.objects.lookup (.tree fileId) = none :=
            hAllowed
          rw [hBody] at hMissing
          cases hMissing
  · exact hLive

/- No record of a restored file is written. -/
theorem KeepsRestores.lookup_record
    {body : Body}
    (hKeeps :
      f.write.Allowed w.store.objects →
        KeepsRestores w f.write)
    (hDelivery : Delivery f w w')
    (hRestored : RestoredBy fileId op w.headLog)
    (hBody :
      w'.store.objects.lookup (.tombstone fileId) =
        some body) :
    w.store.objects.lookup (.tombstone fileId) =
      some body := by
  rcases hDelivery.lookup_cases (.tombstone fileId) with
    hSame | ⟨hKey, hAllowed, hWritten⟩
  · exact hSame.symm.trans hBody
  · refine absurd hRestored
      ((hKeeps hAllowed).record fileId op hKey ?_)
    rw [← hWritten, hBody]
    exact Option.some_ne_none body

/- A record that was retired does not come back. -/
theorem RestoresOk.retired_deliver
    (h : RestoresOk w)
    (hDelivery : Delivery f w w')
    (hKeeps :
      f.write.Allowed w.store.objects →
        KeepsRestores w f.write)
    (hRestored : RestoredBy fileId op w.headLog)
    {g : Flight Key Body Sender}
    (hg : g ∈ w'.store.flights)
    (hRetires : Retires g fileId op.opId) :
    w'.store.objects.lookup (.tombstone fileId) = none := by
  have unchanged :
      w.store.objects.lookup (.tombstone fileId) = none →
        w'.store.objects.lookup (.tombstone fileId) = none := by
    intro hNone
    by_contra hSome
    rcases Option.ne_none_iff_exists'.mp hSome with
      ⟨body, hBody⟩
    have hOld := KeepsRestores.lookup_record hKeeps hDelivery
      hRestored hBody
    rw [hNone] at hOld
    cases hOld
  rcases hDelivery.flights g hg with
    hg | ⟨hWrite, hSender, ⟨hAllowed, _⟩ | ⟨_, hSame⟩⟩
  · exact unchanged (h.retired fileId op hRestored g hg hRetires)
  · rcases hRetires with ⟨_, hKey, hProjects⟩
    rw [hWrite] at hKey
    rw [hSender] at hProjects
    have hRemoval :=
      (h.sent f hDelivery.flight).retires fileId hKey
        (by rw [hProjects]; exact Option.some_ne_none _)
    rw [← hKey, hDelivery.lookup_of_allowed hAllowed, hRemoval]
  · apply unchanged
    apply h.retired fileId op hRestored f hDelivery.flight
    unfold Retires at hRetires ⊢
    rw [hWrite, hSender, hSame] at hRetires
    exact hRetires

/- What a delivery brings about keeps all restores. -/
theorem RestoresOk.deliver
    {ticket : Nat}
    (h : RestoresOk w)
    (hInv : LogInv True w)
    (hLimit : deliversKeeping (.deliver ticket) w)
    (hDeliver : w.deliver ticket = some w') :
    RestoresOk w' := by
  rcases deliver_at hDeliver with ⟨f, hFlight, hDelivery⟩
  have hKeeps :
      f.write.Allowed w.store.objects →
        KeepsRestores w f.write :=
    hLimit ticket f rfl hFlight
  have hSuffix := hDelivery.suffix hInv.basic
  have hUndone : undoneBy w' = undoneBy w := by
    unfold undoneBy
    rw [hDelivery.issued]
  have sent :
      ∀ g ∈ w'.store.flights,
        SentOk w.headLog g.write g.sender := by
    intro g hg
    rcases hDelivery.old hg with ⟨g₀, hg₀, hLater⟩
    rw [hLater.write, hLater.sender]
    exact h.sent g₀ hg₀
  have versions :
      ∀ fileId, ∀ v ∈ w'.versions (.tree fileId),
        ∀ opId, v.sender.projects = some opId →
          InLog opId w.headLog := by
    intro fileId v hv opId hProjects
    rcases hDelivery.mem_versions hv with
      hv | ⟨hKey, _, _, hSender⟩
    · exact h.versions fileId v hv opId hProjects
    · rw [hSender] at hProjects
      exact (h.sent f hDelivery.flight).known
        (by rw [hKey]; exact not_false) opId hProjects
  have entries :
      ∀ fileId body,
        w'.store.objects.lookup (.tree fileId) = some body →
          ∃ entry, body = .entry entry ∧
            entry.fileId = fileId := by
    intro fileId body hBody
    rcases hDelivery.lookup_cases (.tree fileId) with
      hSame | ⟨hKey, _, hWritten⟩
    · exact h.entries fileId body (hSame.symm.trans hBody)
    · rcases (h.sent f hDelivery.flight).entry fileId body hKey
          (hWritten.symm.trans hBody) with
        ⟨entry, hEntry, hId, _⟩
      exact ⟨entry, hEntry, hId⟩
  rcases hDelivery.headLog_cases hInv.basic with
    ⟨hSame, _⟩ | ⟨new, hBuilt, hHead, _, hAllowed, hNew, _⟩
  · constructor
    · rw [hSame]
      exact sent
    · rw [hSame]
      exact versions
    · exact entries
    · intro fileId op hRestored
      rw [hSame] at hRestored
      exact h.live_deliver hDelivery hKeeps hRestored
    · intro fileId op hRestored body hBody
      rw [hSame] at hRestored
      rw [hUndone]
      exact h.record fileId op hRestored body
        (KeepsRestores.lookup_record hKeeps hDelivery hRestored
          hBody)
    · intro fileId op hRestored g hg
      rw [hSame] at hRestored
      exact h.retired_deliver hDelivery hKeeps hRestored hg
  · have hFresh : ¬ InLog new.opId w.headLog := by
      apply not_inLog_of_chain
      rw [← hNew]
      exact ((hInv.deliver hDeliver).1.linear trivial).chain
    have noRecord :
        ∀ fileId, f.write.key ≠ .tombstone fileId := by
      intro fileId hKey
      rw [hHead.key] at hKey
      cases hKey
    constructor
    · exact fun g hg => (sent g hg).mono hSuffix
    · intro fileId v hv opId hProjects
      rcases versions fileId v hv opId hProjects with
        ⟨op, hOp, hId⟩
      exact ⟨op, hSuffix.subset hOp, hId⟩
    · exact entries
    · intro fileId op hRestored hListed
      rw [hNew] at hRestored
      rcases hRestored.cases with ⟨rfl, _⟩ | hRestored
      · rcases hListed with ⟨v, hv, hProjects, _⟩
        exact absurd (versions fileId v hv _ hProjects) hFresh
      · exact h.live_deliver hDelivery hKeeps hRestored hListed
    · intro fileId op hRestored body hBody
      rw [hNew] at hRestored
      rw [hUndone]
      rcases hRestored.cases with ⟨rfl, hTarget⟩ | hBefore
      · rw [hDelivery.lookup_of_ne (noRecord fileId)] at hBody
        exact (hKeeps hAllowed).commit op fileId hBuilt hHead
          hRestored.2 hTarget body hBody
      · exact h.record fileId op hBefore body
          (KeepsRestores.lookup_record hKeeps hDelivery hBefore
            hBody)
    · intro fileId op hRestored g hg hRetires
      rw [hNew] at hRestored
      rcases hRestored.cases with ⟨rfl, _⟩ | hRestored
      · have hKey : ¬ LogKey g.write.key := by
          rw [hRetires.2.1]
          exact not_false
        exact absurd ((sent g hg).known hKey _ hRetires.2.2)
          hFresh
      · exact h.retired_deliver hDelivery hKeeps hRestored hg
          hRetires

------------------------------------------------------------
-- The Calls
------------------------------------------------------------

/- The host of a call `c`. -/
abbrev restoringFor (c : RestoreCall) : Host True :=
  restoreHost.limit (restoreLimits.Admits c)

/- A write of a call that projects no operation. -/
theorem delete_sendable
    {change : Change}
    (hAbout : About t change w)
    (hProjects : change.projects = none)
    (hTree :
      ∀ fileId, write.key = .tree fileId →
        write.body = none) :
    Sendable (restoringFor c) t w write := by
  intro w₁ h₁ hInv
  apply RestoresOk.send hInv.extra
  have hNone : (w₁.sender t).projects = none := by
    rcases hAbout.later h₁.toSteps with ⟨b, hBasis, hChange⟩
    rw [Sender.projects, World.sender, hBasis]
    rw [← hChange] at hProjects
    exact hProjects
  refine ⟨?_, ?_, ?_⟩
  · intro _ opId hSome
    rw [hNone] at hSome
    cases hSome
  · intro fileId body hKey hBody
    rw [hTree fileId hKey] at hBody
    cases hBody
  · intro fileId _ hSome
    exact absurd hNone hSome

/- A write of a call that projects a committed operation. -/
theorem project_sendable
    {id : FileId}
    (hMem : InLog opId w.headLog)
    (hAbout : About t (.projectionOf id opId) w)
    (hEntry :
      ∀ fileId body, write.key = .tree fileId →
        write.body = some body →
          ∃ entry, body = .entry entry ∧
            entry.fileId = fileId ∧
            (entry.deletedAt = none ∨
              write = .putIfNotExists (.tree fileId) body))
    (hRecord :
      ∀ fileId, write.key = .tombstone fileId →
        write.body = none) :
    Sendable (restoringFor c) t w write := by
  intro w₁ h₁ hInv
  apply RestoresOk.send hInv.extra
  refine ⟨?_, hEntry, fun fileId hKey _ => hRecord fileId hKey⟩
  intro _ opId' hProjects
  rcases hAbout.later h₁.toSteps with ⟨b, hBasis, hChange⟩
  have hSame : (w₁.sender t).projects = some opId := by
    rw [Sender.projects, World.sender, hBasis]
    exact congrArg Change.projects hChange
  rw [hSame] at hProjects
  cases hProjects
  rcases hMem with ⟨op, hOp, hId⟩
  exact ⟨op, h₁.log.subset hOp, hId⟩

/- What a projected entry has to be for its file. -/
theorem entry_projectable
    {j : JournalId} {id : FileId}
    {build : Option FileEntry → Option FileEntry}
    (hBuild :
      ∀ existing entry, build existing = some entry →
        entry.deletedAt = none ∨ existing = none) :
    Projectable (restoringFor c) t j id build w := by
  intro d w₁ w₂ w₃ observed entry _ hDone _ hEntry hLatest
    h₃ hAbout
  have hMem : InLog d.operation.opId w₃.headLog := by
    refine ⟨d.operation, ?_, rfl⟩
    exact (hLatest.others.log.trans h₃.log).subset
      (hDone.committed trivial)
  apply project_sendable hMem hAbout
  · intro fileId body hKey hBody
    rw [FileTree.versionWrite_key] at hKey
    rw [FileTree.versionWrite_body] at hBody
    cases hKey
    cases hBody
    refine ⟨entry, rfl, rfl, ?_⟩
    rcases hBuild _ _ hEntry with hLive | hMissing
    · exact .inl hLive
    · right
      rw [Option.map_eq_none_iff] at hMissing
      rw [hMissing]
      rfl
  · intro fileId hKey
    rw [FileTree.versionWrite_key] at hKey
    cases hKey

/- What a call that has returned promises. -/
def restorePost
    (_ : Tid)
    (c : RestoreCall)
    (r : CoreResult Unit)
    (w : World) : Prop :=
  match c with
  | .delete _ _ _ => True
  | .restore _ _ intent =>
      r = .ok () →
        ∃ op, IssuedFor intent.receipt op w ∧
          op ∈ w.headLog ∧
          (Listed w intent.fileId op.opId ∨
            SupersededIn intent.fileId op.opId w.headLog)

/- A restore has its entry unless something newer came. -/
theorem listed_of_published
    {intent : MutationIntent} {root : FileEntry}
    (hRoot : rootChange intent = .ok root)
    (h :
      PublishedOn (restoringFor c) t intent.receipt
        intent.fileId
        (fun existing => some (restoredEntry root
          (Placement.ofEntry root) existing)) w) :
    ∃ op, IssuedFor intent.receipt op w ∧ op ∈ w.headLog ∧
      (Listed w intent.fileId op.opId ∨
        SupersededIn intent.fileId op.opId w.headLog) := by
  rcases h with ⟨d, hDone, hProjected⟩
  refine ⟨d.operation, hDone.issued, hDone.committed trivial,
    ?_⟩
  cases hProjected with
  | @written observed entry w₁ seen built version =>
      left
      cases built
      have hId :
          (restoredEntry root (Placement.ofEntry root)
            (observed.map EntryVersion.entry)).fileId =
              intent.fileId := by
        cases observed with
        | none => exact (rootChange_mem hRoot).2
        | some old =>
            rcases seen.read old rfl with
              ⟨w₂, hInv₂, _, hFound⟩
            rcases hInv₂.extra.entries _ _ hFound with
              ⟨found, hFound, hId⟩
            cases hFound
            exact hId
      rcases version with ⟨v, hv, hBody, hProjects⟩
      rw [hId] at hv
      refine ⟨v, hv, hProjects, ?_⟩
      rw [hBody]
      rfl
  | kept _ built _ => cases built
  | newer superseded =>
      right
      refine (superseded trivial).resolve_right ?_
      rintro ⟨w₁, _, hLong, hAdmits⟩
      have hShort := hAdmits rfl
      omega

theorem restore_call
    (hHolding : w.holding t = c.journal) :
    LogMeets (restoringFor c) t c.run ()
      (fun r _ w' => restorePost t c r w') w := by
  cases c with
  | delete deviceId intent followsRestore =>
      apply publishDelete_meets hHolding
      · intro entry w₁ _ _ hAbout
        constructor
        · intro tombstone _
          apply delete_sendable hAbout rfl
          intro fileId hKey
          cases hKey
        · intro tombstone etag _
          apply delete_sendable hAbout rfl
          intro fileId hKey
          cases hKey
      · exact fun _ _ _ _ _ =>
          publishable_of_stamps fun _ _ => trivial
      · intro entry _ d w₁ w₂ _ hAbout _ hLatest id _
        apply delete_sendable
          (hAbout.later hLatest.others.toSteps) rfl
        exact fun _ _ => rfl
      · exact fun _ _ _ _ => trivial
  | restore deviceId conditionalDelete intent =>
      apply publishRestore_meets hHolding
      · refine ⟨fun _ _ _ _ _ _ => publishable_of_stamps
          fun _ _ => trivial, ?_, ?_, ?_⟩
        · intro root _
          apply entry_projectable
          intro existing entry hEntry
          cases hEntry
          exact .inl rfl
        · intro entry _ _
          apply entry_projectable
          intro existing entry' hEntry
          cases existing with
          | none => exact .inr rfl
          | some _ => cases hEntry
        · intro d deletion w₁ _ hDone hAbout
          apply project_sendable
            ⟨d.operation, hDone.committed trivial, rfl⟩ hAbout
          · intro fileId body hKey
            cases hKey
          · exact fun _ _ => rfl
      · intro r w' _ _ hOk hr
        rcases hOk hr with ⟨root, hRoot, hPublished⟩
        exact listed_of_published hRoot hPublished

variable {s s' : RestoreState}

/- What holds of every state of every such run. -/
abbrev RestoreStateOk (s : RestoreState) : Prop :=
  DeviceStateOk RestoreCall.run RestoreCall.journal restoreHost
    restoreLimits restorePost s

theorem permitted_of_restoresKept
    (s : RestoreState)
    (a : RestoreAction)
    (h : RestoresKept s a) : restoreLimits.Permitted s a := by
  cases a with
  | env e => exact h.1 e rfl
  | serve t k =>
      exact fun c v r cont hThread =>
        h.2 t k c v r cont rfl hThread
  | call t c => exact fun _ _ => trivial
  | _ => trivial

theorem restores_of_run
    (run : RestoreRun RestoresKept .initial s) :
    RestoreStateOk s := by
  apply deviceState_of_run _ _ _ permitted_of_restoresKept run
  · have noFile :
        ∀ fileId op, ¬ RestoredBy fileId op [] := by
      rintro fileId op ⟨hNone, _⟩
      cases hNone
    refine ⟨?_, ?_, ?_, ?_, ?_, ?_⟩
    · intro f hf
      cases hf
    · intro fileId v hv
      cases hv
    · intro fileId body hBody
      cases hBody
    · exact fun fileId op h => absurd h (noFile fileId op)
    · exact fun fileId op h => absurd h (noFile fileId op)
    · exact fun fileId op h => absurd h (noFile fileId op)
  · exact fun _ _ _ hStarting =>
      restore_call hStarting.holding
  · exact fun _ _ _ hInv hLimit hDeliver =>
      hInv.extra.deliver hInv.log hLimit hDeliver

theorem restores_grow
    (hState : RestoreStateOk s)
    (later : RestoreRun RestoresKept s s') :
    Grows s.world s'.world :=
  grows_of_run
    (fun _ _ _ hStarting => restore_call hStarting.holding)
    (fun _ _ _ hInv hLimit hDeliver =>
      hInv.extra.deliver hInv.log hLimit hDeliver)
    permitted_of_restoresKept hState later

/- Whether a write leaves all restores alone. -/
def keepsRestores
    (w : World)
    (write : Write Key Body) : Bool :=
  match write.key with
  | .tree fileId =>
      write.body.isSome ||
        (newestOn fileId w.headLog).all fun op =>
          op.opType ≠ .restore || ¬ Listed w fileId op.opId
  | .tombstone fileId =>
      write.body.isNone ||
        (newestOn fileId w.headLog).all fun op =>
          op.opType ≠ .restore
  | .head =>
      w.issued.all fun x =>
        x.operation.opType ≠ .restore ||
          x.operation.targetFileId.all fun fileId =>
            (w.store.objects.lookup (.tombstone fileId)).all
              fun body =>
                undoneBy w x.operation.opId = some ⟨body⟩
  | _ => true

theorem keepsRestores_of_check
    (h : keepsRestores w write = true) :
    KeepsRestores w write := by
  constructor
  · intro fileId op hKey hBody hRestored hListed
    simp only [keepsRestores, hKey, hBody, hRestored.1] at h
    simp [hRestored.2, hListed] at h
  · intro fileId op hKey hBody hRestored
    simp only [keepsRestores, hKey, hRestored.1] at h
    simp [hRestored.2, hBody] at h
  · rintro op fileId ⟨x, hx, rfl⟩ hHead hRestore hTarget body
      hBody
    simp only [keepsRestores, hHead.key, List.all_eq_true] at h
    have hx := h x hx
    simp only [hRestore, hTarget, Option.all_some, hBody] at hx
    simpa using hx

/- Whether an action leaves all restores alone. -/
def restoresInTime
    (s : RestoreState) : RestoreAction → Bool
  | .env (.deliver ticket) =>
      s.world.store.flights[ticket]?.all fun f =>
        keepsRestores s.world f.write
  | .serve _ _ => s.world.headLog.length < maxDurableWalkOps
  | _ => true

theorem restoresKept_of_check
    {a : RestoreAction}
    (h : restoresInTime s a = true) : RestoresKept s a := by
  constructor
  · rintro e rfl ticket f rfl hFlight _
    apply keepsRestores_of_check
    simpa [restoresInTime, hFlight] using h
  · rintro t k c v r cont rfl _ _
    simpa [restoresInTime] using h

/- The index row of folder 10. -/
def restorableRow : FileEntry where
  fileId := 10
  parentId := none
  name := "F"
  entryType := .folder
  currentRevisionId := none
  contentRef := none
  size := 0
  contentHash := none
  mime := none
  updatedAt := 0
  deletedAt := none
  versionHistory := []

/- An intent on the folder. -/
def intentOn (requestId : Uuid) : MutationIntent where
  requestId := requestId
  fileId := 10
  createdAt := 0
  fromRelative := none
  toRelative := "F"
  changes := [restorableRow]

/- Device 1 has sent the delete of the folder's entry. -/
def olderDelete : List RestoreAction :=
  [.call 1 (.delete 1 (intentOn 7) false)] ++
  answered 1 4 ++ written 1 0 ++ answered 1 6 ++
  [.serve 1 (.fresh 1)] ++ answered 1 2 ++ written 1 1 ++
  written 1 2 ++ answered 1 9

/- The delete arrives. -/
def deleteArrives : List RestoreAction :=
  [.env (.deliver 3)]

/- Device 2 restores the folder. -/
def newerRestore : List RestoreAction :=
  [.call 2 (.restore 2 true (intentOn 8))] ++
  answered 2 14 ++ [.serve 2 (.fresh 2)] ++ answered 2 2 ++
  written 2 4 ++ written 2 5 ++ answered 2 10 ++
  written 2 6 ++ answered 2 1 ++ written 2 7

/- Whether the restore of device 2 has returned. -/
def restoreReturned (s : RestoreState) : Bool :=
  match s.threads 2 with
  | .busy (.restore _ _ intent) _ (.done (.ok _, _)) =>
      intent.receipt = (intentOn 8).receipt
  | _ => false

theorem of_restoreReturned
    (h : restoreReturned s = true) :
    ∃ deviceId conditionalDelete intent,
      intent.receipt = (intentOn 8).receipt ∧
      s.threads 2 =
        .busy (.restore deviceId conditionalDelete intent) ()
          (.done (.ok (), ())) := by
  unfold restoreReturned at h
  split at h
  · rename_i deviceId conditionalDelete intent _ _ _ hThread
    exact ⟨deviceId, conditionalDelete, intent,
      by simpa using h, hThread⟩
  · cases h

/- Whether the newest operation is the one of device 2. -/
def restoredLast
    (s : RestoreState)
    (test : Operation → Bool) : Bool :=
  match newestOn 10 s.world.headLog with
  | some op =>
      op.opType = .restore &&
        s.world.issued.any (fun x => x.operation = op &&
          x.journal = some (intentOn 8).receipt) && test op
  | none => false

theorem of_restoredLast
    {test : Operation → Bool}
    (h : restoredLast s test = true) :
    ∃ op, IssuedFor (intentOn 8).receipt op s.world ∧
      RestoredBy 10 op s.world.headLog ∧ test op = true := by
  unfold restoredLast at h
  split at h
  · rename_i op hNewest
    simp only [Bool.and_eq_true, decide_eq_true_eq,
      List.any_eq_true] at h
    rcases h with ⟨⟨hRestore, x, hx, hOp, hJournal⟩, hTest⟩
    exact ⟨op, ⟨x, hx, hOp, hJournal⟩, ⟨hNewest, hRestore⟩,
      hTest⟩
  · cases h

end S4Drive

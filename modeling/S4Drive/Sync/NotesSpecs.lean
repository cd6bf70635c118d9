import S4Drive.Sync.LocalSpecs
import S4Drive.Sync.NotesIntake

/-
  What the publication of Notes intents does under the
  contract of the log.

  Main declarations:
    * `PublishedAs`
    * `priorCommit_meets`, `commit_meets`, `superseded_meets`
    * `writeTombstone_meets`, `publishDelete_meets`
-/

------------------------------------------------------------
-- Durable Commits
------------------------------------------------------------

namespace S4Drive

open ObjectStore Concurrency ChainLog OperationLog

variable {l : Type}
variable {clean : Prop}
variable {host : Host clean}
variable {t : Tid} {j : JournalId} {w w' : World}

/- A head is read while a search from it can be completed. -/
def searchable
    (r : Req)
    (w : World) : Prop :=
  r = .getObject .head →
    w.headLog.length < maxDurableWalkOps

/- The request of a journal has this committed operation. -/
structure PublishedAs
    (host : Host clean)
    (t : Tid)
    (j : JournalId)
    (d : DurableCommit)
    (w : World) : Prop where
  issued : IssuedFor j d.operation w
  target : d.operation.targetFileId = some j.fileId
  committed : clean → d.operation ∈ w.headLog
  newer :
    d.superseded = true → clean →
      SupersededIn j.fileId d.operation.opId w.headLog ∨
        LongRead host t w

variable {d : DurableCommit}

theorem PublishedAs.mono
    (h : PublishedAs host t j d w)
    (hGrows : Grows w w') : PublishedAs host t j d w' where
  issued := h.issued.mono hGrows
  target := h.target
  committed := fun hClean =>
    hGrows.log.subset (h.committed hClean)
  newer := fun hFlag hClean =>
    (h.newer hFlag hClean).imp
      (fun hNewer => hNewer.mono hGrows.log)
      (fun hLong => hLong.later hGrows.log)

namespace OperationLog

theorem DurableDone.published
    {v : OperationLog}
    (h : DurableDone host t j d v w) :
    PublishedAs host t j d w :=
  ⟨h.issued, h.target, h.committed, h.newer⟩

theorem DurableStart.before
    {v : OperationLog} {w₁ w₂ : World} {start : Option OpId}
    (h : DurableStart host t j v w₁ w₂ start)
    (hOthers : Others t w w₁) :
    DurableStart host t j v w w₂ start := by
  refine ⟨hOthers.toSteps.trans h.steps, ?_⟩
  intro hLoaded
  rcases h.read hLoaded with
    ⟨v', w₃, w₄, hRead, hStart, hSteps, hAbsent⟩
  exact ⟨v', w₃, w₄, hRead.from hOthers, hStart, hSteps,
    hAbsent⟩

end OperationLog

/- The host lets the request build its operations. -/
def Publishable
    (host : Host clean)
    (t : Tid)
    (j : JournalId)
    (opType : OpType)
    (effects : Effects)
    (w : World) : Prop :=
  ∀ v start op preconditions w', v.headLoaded = false →
    DurableStart host t j v w w' start → HostInv host w' →
    CommitAttempt (some j.fileId) opType preconditions effects
      start op w' → host.stamps t op w'

variable {opType : OpType}

theorem publishable_of_stamps
    {effects : Effects}
    (hStamps : ∀ op w', host.stamps t op w') :
    Publishable host t j opType effects w :=
  fun _ _ op _ w' _ _ _ _ => hStamps op w'

theorem Publishable.later
    {effects : Effects}
    (h : Publishable host t j opType effects w)
    (hOthers : Others t w w') :
    Publishable host t j opType effects w' :=
  fun v start op preconditions w₁ hLoaded hStart =>
    h v start op preconditions w₁ hLoaded
      (hStart.before hOthers)

namespace NotesIntake

variable {deviceId : DeviceId} {intent : MutationIntent} {v : l}

theorem priorCommit_meets
    {Q : CoreResult (Option DurableCommit) → l → World → Prop}
    (hHolding : w.holding t = some intent.receipt)
    (hError :
      ∀ e w', Steps t w w' → HostInv host w' →
        Q (.error e) v w')
    (hNone :
      ∀ w', Others t w w' → HostInv host w' →
        Q (.ok none) v w')
    (hSome :
      ∀ d w', Steps t w w' → HostInv host w' →
        PublishedAs host t intent.receipt d w' →
          Q (.ok (some d)) v w') :
    LogMeets host t (priorCommit deviceId intent) v Q w := by
  unfold priorCommit
  apply meets_bind
  apply meets_now
  intro clock w₁ h₁ _
  apply continues_ok
  apply meets_onLog (Meets.with_inv (committedAttempt_meets
    (h₁.holding.trans hHolding) (knows_new deviceId clock w₁)))
  rintro r v' w₂ ⟨⟨hDurably, hPost⟩, hInv₂⟩
  have hSteps := h₁.toSteps.trans hDurably.steps
  cases r with
  | error e => exact hError e w₂ hSteps hInv₂
  | ok found =>
      cases found with
      | none =>
          rcases hPost with ⟨_, _, _, hSought⟩
          exact hNone w₂ (h₁.trans hSought.others) hInv₂
      | some d =>
          exact hSome d w₂ hSteps hInv₂
            (DurableDone.published hPost)

variable {placement : Placement}

theorem commit_meets
    {deleted fileExists : Bool}
    {Q : CoreResult DurableCommit → l → World → Prop}
    (hHolding : w.holding t = some intent.receipt)
    (hStamps :
      Publishable host t intent.receipt opType
        (placementEffects placement deleted) w)
    (hError :
      ∀ e w', Steps t w w' → HostInv host w' →
        Q (.error e) v w')
    (hOk :
      ∀ d w', Steps t w w' → HostInv host w' →
        PublishedAs host t intent.receipt d w' →
          Q (.ok d) v w') :
    LogMeets host t
      (commit deviceId intent opType placement deleted
        fileExists) v Q w := by
  unfold commit
  apply meets_bind
  apply priorCommit_meets hHolding
  · intro e w₁ h₁ hInv₁
    apply continues_error
    exact hError e w₁ h₁ hInv₁
  · intro w₁ h₁ _
    apply continues_ok
    apply meets_bind
    apply meets_now
    intro clock w₂ h₂ _
    have h₀₂ := h₁.trans h₂
    apply continues_ok
    have stamps :
        DurableStamps host t intent.receipt opType
          ⟨none, none, fileExists, true⟩
          (placementEffects placement deleted)
          (OperationLog.new deviceId clock) w₂ :=
      fun start w' op hStart hInv hAttempt =>
        hStamps.later h₀₂ _ start op _ w' rfl hStart hInv
          hAttempt
    apply meets_onLog (Meets.with_inv (commitDurable_meets
      (h₀₂.holding.trans hHolding)
      (knows_new deviceId clock w₂) (fun _ => rfl) stamps))
    rintro r v' w₃ ⟨⟨hDurably, hDone⟩, hInv₃⟩
    have h₀₃ := h₀₂.toSteps.trans hDurably.steps
    cases r with
    | error e => exact hError e w₃ h₀₃ hInv₃
    | ok d =>
        exact hOk d w₃ h₀₃ hInv₃ (hDone d rfl).published
  · intro d w₁ h₁ _ hPublished
    apply continues_ok
    apply meets_pure
    intro w' h₂ hInv'
    exact hOk d w' (h₁.trans h₂.toSteps) hInv'
      (hPublished.mono h₂.toGrows)

/-
  The call has seen, at the moment `w₁` of a head read since
  `w₀`, that nothing newer than the commit is on its file.
-/
def Latest
    (clean : Prop)
    (t : Tid)
    (j : JournalId)
    (d : DurableCommit)
    (w₀ w : World) : Prop :=
  ∃ w₁, Others t w₀ w₁ ∧ LogInv clean w₁ ∧ Others t w₁ w ∧
    Walk w (NotOn j.fileId) (headOf w₁.headLog)
      (some d.operation.opId)

theorem superseded_meets
    {Q : CoreResult Bool → l → World → Prop}
    (hDone : PublishedAs host t j d w)
    (hError :
      ∀ e w', Others t w w' → HostInv host w' →
        Q (.error e) v w')
    (hNewer :
      ∀ w', Others t w w' → HostInv host w' →
        (clean →
          SupersededIn j.fileId d.operation.opId w'.headLog) →
        Q (.ok true) v w')
    (hLatest :
      ∀ w', Others t w w' → HostInv host w' →
        Latest clean t j d w w' → Q (.ok false) v w') :
    LogMeets host t (superseded deviceId d) v Q w := by
  unfold superseded
  rw [hDone.target]
  apply meets_bind
  apply meets_now
  intro clock w₁ h₁ _
  apply continues_ok
  apply meets_onLog (Meets.with_inv
    (OperationLog.superseded_meets
      (knows_new deviceId clock w₁)))
  rintro r v' w₂ ⟨⟨hQueried, hRead, hWalk, hFlag⟩, hInv₂⟩
  have h₀₂ := h₁.trans hQueried.others
  cases r with
  | error e => exact hError e w₂ h₀₂ hInv₂
  | ok flag =>
      cases flag with
      | true => exact hNewer w₂ h₀₂ hInv₂ (hFlag rfl)
      | false =>
          rcases hRead false rfl with ⟨w₃, hRead⟩
          apply hLatest w₂ h₀₂ hInv₂
          refine ⟨w₃, h₁.trans hRead.before, hRead.inv,
            hRead.after, ?_⟩
          rw [hRead.head]
          exact hWalk rfl

------------------------------------------------------------
-- Projections
------------------------------------------------------------

/-
  The host lets a commit of the request be projected to the
  entry `id` once it was seen to be the latest.
-/
def Projectable
    (host : Host clean)
    (t : Tid)
    (j : JournalId)
    (id : FileId)
    (build : Option FileEntry → Option FileEntry)
    (w : World) : Prop :=
  ∀ d w₁ w₂ w₃ observed entry, Calling t w w₁ →
    PublishedAs host t j d w₁ →
    FileTree.VersionAt host id observed w₁ →
    build (observed.map EntryVersion.entry) = some entry →
    Latest clean t j d w₁ w₂ → Calling t w₂ w₃ →
    About t (.projectionOf id d.operation.opId) w₃ →
      Sendable host t w₃ (FileTree.versionWrite entry observed)

variable {id : FileId}
variable {build : Option FileEntry → Option FileEntry}

theorem Projectable.later
    (h : Projectable host t j id build w)
    (hCalling : Calling t w w') :
    Projectable host t j id build w' :=
  fun d w₁ w₂ w₃ observed entry h₁ =>
    h d w₁ w₂ w₃ observed entry (hCalling.trans h₁)

theorem Latest.others
    {w₀ : World}
    (h : Latest clean t j d w₀ w) : Others t w₀ w := by
  rcases h with ⟨w₁, hBefore, _, hAfter, _⟩
  exact hBefore.trans hAfter

theorem Latest.later
    {w₀ w₁ : World}
    (h : Latest clean t j d w₀ w)
    (hOthers : Others t w₁ w₀) :
    Latest clean t j d w₁ w := by
  rcases h with ⟨w₂, hBefore, hInv, hAfter, hWalk⟩
  exact ⟨w₂, hOthers.trans hBefore, hInv, hAfter, hWalk⟩

/- A version of a tree entry written for an operation. -/
def WrittenFor
    (entry : FileEntry)
    (opId : OpId)
    (w : World) : Prop :=
  ∃ v ∈ w.versions (.tree entry.fileId),
    v.body = .entry entry ∧ v.sender.projects = some opId

/- How a projection can end well. -/
inductive Projected
    (host : Host clean)
    (t : Tid)
    (j : JournalId)
    (d : DurableCommit)
    (id : FileId)
    (build : Option FileEntry → Option FileEntry)
    (w : World) : Prop where
  | written
      {observed : Option EntryVersion} {entry : FileEntry}
      {w₁ : World}
      (seen : FileTree.VersionAt host id observed w₁)
      (built :
        build (observed.map EntryVersion.entry) = some entry)
      (version : WrittenFor entry d.operation.opId w)
  | kept
      {observed : Option EntryVersion} {w₁ : World}
      (seen : FileTree.VersionAt host id observed w₁)
      (built : build (observed.map EntryVersion.entry) = none)
      (later : Grows w₁ w)
  | newer
      (superseded :
        clean →
          SupersededIn j.fileId d.operation.opId w.headLog ∨
            LongRead host t w)

theorem Projected.mono
    (h : Projected host t j d id build w)
    (hGrows : Grows w w') :
    Projected host t j d id build w' := by
  cases h with
  | written seen built version =>
      rcases version with ⟨v, hv, hVersion⟩
      exact .written seen built
        ⟨v, (hGrows.versions _).subset hv, hVersion⟩
  | kept seen built later =>
      exact .kept seen built (later.trans hGrows)
  | newer superseded =>
      apply Projected.newer
      intro hClean
      exact (superseded hClean).imp
        (fun hNewer => hNewer.mono hGrows.log)
        (fun hLong => hLong.later hGrows.log)

variable {entry : FileEntry}

/- The entry of a conditional write that was applied. -/
theorem writtenFor_of_done
    {observed : Option EntryVersion}
    {opId : OpId} {w₀ : World}
    (hInv : HistoryOk w)
    (hAbout : About t (.projectionOf id opId) w₀)
    (hOthers : Others t w₀ w)
    (hDone :
      WriteDone t (FileTree.versionWrite entry observed)
        (.ok true) w) :
    WrittenFor entry opId w := by
  rcases hDone with ⟨f, hf, ⟨hWrite, _, hSender⟩, hApplied, _⟩
  have hBody := FileTree.versionWrite_body entry observed
  have hVersion := hInv.applied f hf (hApplied rfl) (.entry entry)
    (by rw [hWrite, hBody])
  rw [hWrite, FileTree.versionWrite_key] at hVersion
  refine ⟨_, hVersion, rfl, ?_⟩
  rcases hAbout.later hOthers.toSteps with
    ⟨b, hBasis, hChange⟩
  rw [Sender.projects, hSender, hBasis]
  exact congrArg Change.projects hChange

variable {Q : CoreResult Unit → l → World → Prop}

theorem projectRounds_meets
    {rounds : Nat}
    (hDone : PublishedAs host t j d w)
    (hProject : Projectable host t j id build w)
    (hError :
      ∀ e w', Calling t w w' → HostInv host w' →
        Q (.error e) v w')
    (hOk :
      ∀ w', Calling t w w' → HostInv host w' →
        Projected host t j d id build w' → Q (.ok ()) v w') :
    LogMeets host t
      (projectRounds deviceId d id build rounds) v Q w := by
  induction rounds generalizing w with
  | zero =>
      apply meets_throw
      exact fun w' h => hError _ w' h.toSteps.calling
  | succ rounds ih =>
      have finished :
          ∀ w₁, Calling t w w₁ →
            Projected host t j d id build w₁ →
            LogMeets host t (pure () : CloudM l Unit) v Q
              w₁ := by
        intro w₁ h₁ hProjected
        apply meets_pure
        intro w' h₂ hInv'
        exact hOk w' (h₁.trans h₂.toSteps.calling) hInv'
          (hProjected.mono h₂.toGrows)
      unfold projectRounds
      apply meets_bind
      apply FileTree.getEntryVersionRounds_meets
      · intro e w₁ h₁ hInv₁
        apply continues_error
        exact hError _ w₁ h₁.toSteps.calling hInv₁
      intro observed w₁ w₂ h₁ hVersion h₂ _
      have h₀₂ := (h₁.trans h₂).toSteps.calling
      have hDone₂ := hDone.mono h₀₂.toGrows
      apply continues_ok
      cases hBuild : build (observed.map EntryVersion.entry) with
      | none =>
          exact finished w₂ h₀₂ (.kept hVersion hBuild h₂.toGrows)
      | some entry =>
      apply meets_bind
      apply superseded_meets hDone₂
      · intro e w₃ h₃ hInv₃
        apply continues_error
        exact hError e w₃ (h₀₂.trans h₃.toSteps.calling) hInv₃
      · intro w₃ h₃ _ hNewer
        apply continues_ok
        exact finished w₃ (h₀₂.trans h₃.toSteps.calling)
          (.newer fun hClean => .inl (hNewer hClean))
      intro w₃ h₃ _ hLatest
      have h₀₃ := h₀₂.trans h₃.toSteps.calling
      apply continues_ok
      apply meets_bind
      apply meets_prepare
      intro w₄ h₄ hPrepared _
      have h₀₄ := h₀₃.trans h₄
      apply continues_ok
      apply meets_bind
      apply FileTree.putEntryIf_meets
        (hProject d w₁ w₃ w₄ observed entry h₁.toSteps.calling
          (hDone.mono h₁.toGrows) hVersion hBuild
          (hLatest.later h₂) h₄ hPrepared.about)
      intro r w₅ h₅ hInv₅ hWritten
      have h₀₅ := h₀₄.trans h₅.toSteps.calling
      cases r with
      | error e =>
          apply continues_error
          exact hError e w₅ h₀₅ hInv₅
      | ok done =>
          apply continues_ok
          cases done with
          | true =>
              exact finished w₅ h₀₅
                (.written hVersion hBuild
                  (writtenFor_of_done hInv₅.log.history
                    hPrepared.about h₅ (hWritten rfl)))
          | false =>
              apply ih (hDone.mono h₀₅.toGrows)
                (hProject.later h₀₅)
              · exact fun e w' h₆ =>
                  hError e w' (h₀₅.trans h₆)
              · exact fun w' h₆ => hOk w' (h₀₅.trans h₆)

theorem project_meets
    (hDone : PublishedAs host t j d w)
    (hProject : Projectable host t j id build w)
    (hError :
      ∀ e w', Calling t w w' → HostInv host w' →
        Q (.error e) v w')
    (hOk :
      ∀ w', Calling t w w' → HostInv host w' →
        Projected host t j d id build w' → Q (.ok ()) v w') :
    LogMeets host t (project deviceId d id build) v Q w := by
  unfold project
  split
  · rename_i hFlag
    apply meets_pure
    intro w' h hInv'
    exact hOk w' h.toSteps.calling hInv'
      (.newer ((hDone.mono h.toGrows).newer hFlag))
  · exact projectRounds_meets hDone hProject hError hOk

------------------------------------------------------------
-- Placements
------------------------------------------------------------

/- The folder was seen in the bucket at the placement. -/
def FolderSeen
    (host : Host clean)
    (id : FileId)
    (placement : Placement)
    (w : World) : Prop :=
  ∃ entry w₁, HostInv host w₁ ∧ Grows w₁ w ∧
    w₁.store.objects.lookup (.tree id) =
      some (.entry entry) ∧
    isFolderAt entry placement = true

theorem FolderSeen.mono
    (h : FolderSeen host id placement w)
    (hGrows : Grows w w') :
    FolderSeen host id placement w' := by
  rcases h with ⟨entry, w₁, hInv, hLater, hEntry⟩
  exact ⟨entry, w₁, hInv, hLater.trans hGrows, hEntry⟩

theorem folderExistsAt_meets
    {Q : CoreResult Bool → l → World → Prop}
    (h :
      ∀ r w', Others t w w' → HostInv host w' →
        (r = .ok true → FolderSeen host id placement w') →
        Q r v w') :
    LogMeets host t (folderExistsAt id placement) v Q w := by
  unfold folderExistsAt
  apply meets_bind
  apply meets_attempt
  apply FileTree.getEntry_meets
  intro w₁ r w₂ h₁ hInv₁ h₂ _ hEntry
  have h₀₂ := h₁.trans h₂
  have failed :
      ∀ e : CoreError,
        LogMeets host t (Script.throw e : CloudM l Bool) v Q
          w₂ := by
    intro e
    apply meets_throw
    intro w' h₃ hInv'
    apply h _ w' (h₀₂.trans h₃) hInv'
    intro hNot
    cases hNot
  apply continues_ok
  cases r with
  | ok entry =>
      dsimp only
      split
      · rename_i hFolder
        apply meets_pure
        intro w' h₃ hInv'
        apply h _ w' (h₀₂.trans h₃) hInv'
        intro _
        exact ⟨entry, w₁, hInv₁, (h₂.trans h₃).toGrows, hEntry,
          hFolder⟩
      · exact failed _
  | error e =>
      cases e with
      | notFound message =>
          apply meets_pure
          intro w' h₃ hInv'
          apply h _ w' (h₀₂.trans h₃) hInv'
          intro hNot
          cases hNot
      | _ => exact failed _

/- The request has committed and projected its operation. -/
def PublishedOn
    (host : Host clean)
    (t : Tid)
    (j : JournalId)
    (id : FileId)
    (build : Option FileEntry → Option FileEntry)
    (w : World) : Prop :=
  ∃ d, PublishedAs host t j d w ∧
    Projected host t j d id build w

/- What a folder that was created without error tells. -/
def FolderPublished
    (host : Host clean)
    (t : Tid)
    (intent : MutationIntent)
    (placement : Placement)
    (w : World) : Prop :=
  FolderSeen host intent.fileId placement w ∨
    ∃ time, PublishedOn host t intent.receipt intent.fileId
      (createdEntry intent.fileId placement time) w

/- What every call on an intent leaves behind. -/
abbrev Outcome
    (host : Host clean)
    (t : Tid)
    (w : World)
    (v : l)
    (Ok : World → Prop)
    (Q : CoreResult Unit → l → World → Prop) : Prop :=
  ∀ r w', Calling t w w' → HostInv host w' →
    (r = .ok () → Ok w') → Q r v w'

theorem publishCreatedFolder_meets
    (hDone : PublishedAs host t intent.receipt d w)
    (hProject :
      ∀ time, Projectable host t intent.receipt intent.fileId
        (createdEntry intent.fileId placement time) w)
    (h :
      Outcome host t w v
        (FolderPublished host t intent placement) Q) :
    LogMeets host t
      (publishCreatedFolder deviceId intent placement d) v Q
      w := by
  unfold publishCreatedFolder
  apply meets_bind
  apply meets_now
  intro time w₁ h₁ _
  have hCalling := h₁.toSteps.calling
  apply continues_ok
  apply project_meets (hDone.mono h₁.toGrows)
    ((hProject time).later hCalling)
  · intro e w' h₂ hInv'
    apply h _ w' (hCalling.trans h₂) hInv'
    intro hNot
    cases hNot
  · intro w' h₂ hInv' hProjected
    have h₀₂ := hCalling.trans h₂
    apply h _ w' h₀₂ hInv'
    intro _
    exact .inr ⟨time, d, hDone.mono h₀₂.toGrows, hProjected⟩

theorem createFolder_meets
    (hHolding : w.holding t = some intent.receipt)
    (hStamps :
      ∀ w₁, Calling t w w₁ →
        Publishable host t intent.receipt .createFolder
          (placementEffects placement false) w₁)
    (hProject :
      ∀ time, Projectable host t intent.receipt intent.fileId
        (createdEntry intent.fileId placement time) w)
    (h :
      Outcome host t w v
        (FolderPublished host t intent placement) Q) :
    LogMeets host t (createFolder deviceId intent placement) v
      Q w := by
  have seen :
      ∀ w₁, Calling t w w₁ →
        FolderSeen host intent.fileId placement w₁ →
        LogMeets host t (pure () : CloudM l Unit) v Q w₁ := by
    intro w₁ h₁ hSeen
    apply meets_pure
    intro w' h₂ hInv'
    apply h _ w' (h₁.trans h₂.toSteps.calling) hInv'
    exact fun _ => .inl (hSeen.mono h₂.toGrows)
  have error :
      ∀ e w', Calling t w w' → HostInv host w' →
        Q (.error e) v w' := by
    intro e w' h₁ hInv'
    apply h _ w' h₁ hInv'
    intro hNot
    cases hNot
  have failed :
      ∀ e w₁, Calling t w w₁ →
        LogMeets host t (Script.throw e : CloudM l Unit) v Q
          w₁ := by
    intro e w₁ h₁
    apply meets_throw
    exact fun w' h₂ => error e w' (h₁.trans h₂.toSteps.calling)
  unfold createFolder
  apply meets_bind
  apply folderExistsAt_meets
  intro r w₁ h₁ hInv₁ hSeen₁
  have hCalling₁ := h₁.toSteps.calling
  cases r with
  | error e =>
      apply continues_error
      exact error e w₁ hCalling₁ hInv₁
  | ok exists₁ =>
  apply continues_ok
  cases exists₁ with
  | true => exact seen w₁ hCalling₁ (hSeen₁ rfl)
  | false =>
  simp only [Bool.false_eq_true, if_false]
  apply meets_bind
  apply meets_attempt
  apply TombstoneManager.getTombstone_meets
  intro r w₂ h₂ _
  have hCalling₂ := hCalling₁.trans h₂.toSteps.calling
  apply continues_ok
  cases r with
  | ok tombstone => exact failed _ w₂ hCalling₂
  | error e =>
  cases e with
  | notFound message =>
      apply meets_bind
      apply meets_attempt
      apply commit_meets (hCalling₂.holding.trans hHolding)
        (hStamps w₂ hCalling₂)
      · intro e w₃ h₃ _
        have hCalling₃ := hCalling₂.trans h₃.calling
        apply continues_ok
        cases e with
        | conflict reason =>
            apply meets_bind
            apply folderExistsAt_meets
            intro r w₄ h₄ hInv₄ hSeen₄
            have hCalling₄ :=
              hCalling₃.trans h₄.toSteps.calling
            cases r with
            | error e =>
                apply continues_error
                exact error e w₄ hCalling₄ hInv₄
            | ok found =>
                apply continues_ok
                cases found with
                | true => exact seen w₄ hCalling₄ (hSeen₄ rfl)
                | false => exact failed _ w₄ hCalling₄
        | _ => exact failed _ w₃ hCalling₃
      · intro d w₃ h₃ _ hDone
        have hCalling₃ := hCalling₂.trans h₃.calling
        apply continues_ok
        apply publishCreatedFolder_meets hDone
        · exact fun time => (hProject time).later hCalling₃
        · exact fun r w' h₄ => h r w' (hCalling₃.trans h₄)
  | _ => exact failed _ w₂ hCalling₂

theorem publishCreateFolder_meets
    (hHolding : w.holding t = some intent.receipt)
    (hStamps :
      ∀ entry w₁, rootChange intent = .ok entry →
        Calling t w w₁ →
        Publishable host t intent.receipt .createFolder
          (placementEffects (Placement.ofEntry entry) false)
          w₁)
    (hProject :
      ∀ entry time, rootChange intent = .ok entry →
        Projectable host t intent.receipt intent.fileId
          (createdEntry intent.fileId
            (Placement.ofEntry entry) time) w)
    (h :
      Outcome host t w v
        (fun w' => ∃ entry, rootChange intent = .ok entry ∧
          FolderPublished host t intent
            (Placement.ofEntry entry) w') Q) :
    LogMeets host t (publishCreateFolder deviceId intent) v Q
      w := by
  have error :
      ∀ e w', Calling t w w' → HostInv host w' →
        Q (.error e) v w' := by
    intro e w' h₁ hInv'
    apply h _ w' h₁ hInv'
    intro hNot
    cases hNot
  unfold publishCreateFolder
  apply meets_bind
  apply meets_ofExcept
  intro w₁ h₁ hInv₁
  have hCalling₁ := h₁.toSteps.calling
  cases hRoot : rootChange intent with
  | error e =>
      apply continues_error
      exact error e w₁ hCalling₁ hInv₁
  | ok entry =>
  apply continues_ok
  apply meets_bind
  apply priorCommit_meets (hCalling₁.holding.trans hHolding)
  · intro e w₂ h₂ hInv₂
    apply continues_error
    exact error e w₂ (hCalling₁.trans h₂.calling) hInv₂
  · intro w₂ h₂ _
    have hCalling₂ := hCalling₁.trans h₂.toSteps.calling
    apply continues_ok
    apply createFolder_meets
      (hCalling₂.holding.trans hHolding)
    · exact fun w₃ h₃ =>
        hStamps entry w₃ hRoot (hCalling₂.trans h₃)
    · exact fun time =>
        (hProject entry time hRoot).later hCalling₂
    · exact fun r w' h₃ hInv' hOk =>
        h r w' (hCalling₂.trans h₃) hInv' fun hr =>
          ⟨entry, hRoot, hOk hr⟩
  · intro d w₂ h₂ _ hDone
    have hCalling₂ := hCalling₁.trans h₂.calling
    apply continues_ok
    apply publishCreatedFolder_meets hDone
    · exact fun time =>
        (hProject entry time hRoot).later hCalling₂
    · exact fun r w' h₃ hInv' hOk =>
        h r w' (hCalling₂.trans h₃) hInv' fun hr =>
          ⟨entry, hRoot, hOk hr⟩

theorem publishPlacement_meets
    {moves : Bool}
    (hHolding : w.holding t = some intent.receipt)
    (hStamps :
      ∀ entry w₁, rootChange intent = .ok entry →
        Calling t w w₁ →
        Publishable host t intent.receipt
          (if moves then .move else .rename)
          (placementEffects (Placement.ofEntry entry) false)
          w₁)
    (hProject :
      ∀ entry time, rootChange intent = .ok entry →
        Projectable host t intent.receipt intent.fileId
          (fun existing => some (placedEntry entry
            (Placement.ofEntry entry) time existing)) w)
    (h :
      Outcome host t w v
        (fun w' => ∃ entry time,
          rootChange intent = .ok entry ∧
          PublishedOn host t intent.receipt intent.fileId
            (fun existing => some (placedEntry entry
              (Placement.ofEntry entry) time existing)) w')
        Q) :
    LogMeets host t (publishPlacement deviceId intent moves) v
      Q w := by
  have error :
      ∀ e w', Calling t w w' → HostInv host w' →
        Q (.error e) v w' := by
    intro e w' h₁ hInv'
    apply h _ w' h₁ hInv'
    intro hNot
    cases hNot
  unfold publishPlacement
  apply meets_bind
  apply meets_ofExcept
  intro w₁ h₁ hInv₁
  have hCalling₁ := h₁.toSteps.calling
  cases hRoot : rootChange intent with
  | error e =>
      apply continues_error
      exact error e w₁ hCalling₁ hInv₁
  | ok entry =>
  apply continues_ok
  apply meets_bind
  apply commit_meets (hCalling₁.holding.trans hHolding)
    (hStamps entry w₁ hRoot hCalling₁)
  · intro e w₂ h₂ hInv₂
    apply continues_error
    exact error e w₂ (hCalling₁.trans h₂.calling) hInv₂
  · intro d w₂ h₂ _ hDone
    have hCalling₂ := hCalling₁.trans h₂.calling
    apply continues_ok
    apply meets_bind
    apply meets_now
    intro time w₃ h₃ _
    have hCalling₃ := hCalling₂.trans h₃.toSteps.calling
    have hDone₃ := hDone.mono h₃.toGrows
    apply continues_ok
    apply project_meets hDone₃
      ((hProject entry time hRoot).later hCalling₃)
    · exact fun e w' h₄ => error e w' (hCalling₃.trans h₄)
    · intro w' h₄ hInv' hProjected
      apply h _ w' (hCalling₃.trans h₄) hInv'
      intro _
      exact ⟨entry, time, hRoot, d, hDone₃.mono h₄.toGrows,
        hProjected⟩

------------------------------------------------------------
-- Deletes
------------------------------------------------------------

/- The host lets the record of a deletion be written. -/
structure Recordable
    (host : Host clean)
    (t : Tid)
    (fileId : FileId)
    (w : World) : Prop where
  create :
    ∀ tombstone : Tombstone, tombstone.fileId = fileId →
      Sendable host t w (.putIfNotExists (.tombstone fileId)
        (.tombstone tombstone))
  replace :
    ∀ (tombstone : Tombstone) etag, tombstone.fileId = fileId →
      Sendable host t w (.putIfMatch (.tombstone fileId)
        (.tombstone tombstone) etag)

theorem writeTombstone_meets
    {followsRestore : Bool}
    (hRecord : Recordable host t intent.fileId w)
    (h :
      ∀ r w', Others t w w' → HostInv host w' → Q r v w') :
    LogMeets host t
      (writeTombstone deviceId intent entry followsRestore) v
      Q w := by
  unfold writeTombstone
  apply meets_bind
  apply meets_attempt
  apply TombstoneManager.createTombstone_meets hRecord.create
  intro r w₁ h₁ hInv₁ _
  have failed :
      ∀ e : CoreError,
        LogMeets host t (Script.throw e : CloudM l Unit) v Q
          w₁ := by
    intro e
    apply meets_throw
    intro w' h₂ hInv'
    exact h _ w' (h₁.trans h₂) hInv'
  apply continues_ok
  cases r with
  | ok tombstone =>
      apply meets_pure
      intro w' h₂ hInv'
      exact h _ w' (h₁.trans h₂) hInv'
  | error e =>
      cases e with
      | conflict reason =>
          dsimp only
          split
          · exact failed _
          apply meets_bind
          apply TombstoneManager.getTombstoneVersion_meets
          intro r w₂ h₂ hInv₂
          have h₀₂ := h₁.trans h₂
          cases r with
          | error e =>
              apply continues_error
              exact h _ w₂ h₀₂ hInv₂
          | ok previous =>
          apply continues_ok
          apply meets_bind
          apply TombstoneManager.replaceTombstone_meets
            (fun _ _ => (hRecord.replace _ _ rfl).later h₀₂)
          intro r w₃ h₃ hInv₃ _
          have h₀₃ := h₀₂.trans h₃
          cases r with
          | error e =>
              apply continues_error
              exact h _ w₃ h₀₃ hInv₃
          | ok winner =>
              apply continues_ok
              apply meets_pure
              intro w' h₄ hInv'
              exact h _ w' (h₀₃.trans h₄) hInv'
      | _ => exact failed _

theorem deleteEntries_meets
    {ids : List FileId}
    (hTree :
      ∀ id ∈ ids, Sendable host t w (.delete (.tree id)))
    (h :
      ∀ r w', Others t w w' → HostInv host w' → Q r v w') :
    LogMeets host t (deleteEntries ids) v Q w := by
  induction ids generalizing w with
  | nil =>
      apply meets_pure
      intro w' hRely hInv'
      exact h _ w' hRely hInv'
  | cons id rest ih =>
      apply meets_bind
      apply meets_attempt
      apply FileTree.deleteEntry_meets
        (hTree id (List.mem_cons_self ..))
      intro r w₁ h₁ _
      have next : LogMeets host t (deleteEntries rest) v Q
          w₁ := by
        apply ih
        · intro id' hId'
          exact (hTree id'
            (List.mem_cons_of_mem _ hId')).later h₁
        · intro r w' h₂ hInv'
          exact h r w' (h₁.trans h₂) hInv'
      apply continues_ok
      cases r with
      | ok _ => exact next
      | error e =>
          cases e with
          | notFound message => exact next
          | _ =>
              apply meets_throw
              intro w' h₂ hInv'
              exact h _ w' (h₁.trans h₂) hInv'

/-
  The host lets a published delete remove the tree entries
  of its intent once it was seen to be the latest.
-/
def Unlistable
    (host : Host clean)
    (t : Tid)
    (intent : MutationIntent)
    (entry : FileEntry)
    (w : World) : Prop :=
  ∀ d w₁ w₂, Calling t w w₁ →
    About t (intent.deletion entry) w₁ →
    PublishedAs host t intent.receipt d w₁ →
    Latest clean t intent.receipt d w₁ w₂ →
    ∀ id ∈ intent.changes.map FileEntry.fileId,
      Sendable host t w₂ (.delete (.tree id))

theorem unlist_meets
    {w₀ : World}
    (hCalling : Calling t w₀ w)
    (hAbout : About t (intent.deletion entry) w)
    (hDone : PublishedAs host t intent.receipt d w)
    (hTree : Unlistable host t intent entry w₀)
    (h :
      ∀ r w', Others t w w' → HostInv host w' → Q r v w') :
    LogMeets host t (unlist deviceId intent d) v Q w := by
  unfold unlist
  split
  · apply meets_pure
    intro w' hRely hInv'
    exact h _ w' hRely hInv'
  apply meets_bind
  apply superseded_meets hDone
  · intro e w₁ h₁ hInv₁
    apply continues_error
    exact h _ w₁ h₁ hInv₁
  · intro w₁ h₁ _ _
    apply continues_ok
    apply meets_pure
    intro w' h₂ hInv'
    exact h _ w' (h₁.trans h₂) hInv'
  · intro w₁ h₁ _ hLatest
    apply continues_ok
    apply deleteEntries_meets
    · exact hTree d w w₁ hCalling hAbout hDone hLatest
    · intro r w' h₂ hInv'
      exact h r w' (h₁.trans h₂) hInv'

theorem rootChange_mem
    (h : rootChange intent = .ok entry) :
    entry ∈ intent.changes ∧ entry.fileId = intent.fileId := by
  unfold rootChange at h
  split at h
  · rename_i found hFind
    cases h
    exact ⟨List.mem_of_find?_eq_some hFind,
      by simpa using List.find?_some hFind⟩
  · cases h

theorem publishDelete_meets
    {followsRestore : Bool}
    (hHolding : w.holding t = some intent.receipt)
    (hRecord :
      ∀ entry w₁, rootChange intent = .ok entry →
        Calling t w w₁ → About t (intent.deletion entry) w₁ →
        Recordable host t intent.fileId w₁)
    (hStamps :
      ∀ entry w₁, rootChange intent = .ok entry →
        Calling t w w₁ →
        Prepared t (intent.deletion entry) w₁ →
        Publishable host t intent.receipt .delete
          (placementEffects (Placement.ofEntry entry) true)
          w₁)
    (hTree :
      ∀ entry, rootChange intent = .ok entry →
        Unlistable host t intent entry w)
    (h :
      ∀ r w', Calling t w w' → HostInv host w' → Q r v w') :
    LogMeets host t
      (publishDelete deviceId intent followsRestore) v Q
      w := by
  unfold publishDelete
  apply meets_bind
  apply meets_ofExcept
  intro w₁ h₁ hInv₁
  cases hRoot : rootChange intent with
  | error e =>
      apply continues_error
      exact h _ w₁ h₁.toSteps.calling hInv₁
  | ok entry =>
  apply continues_ok
  apply meets_bind
  apply meets_prepare
  intro w₂ h₂ hPrepared _
  have h₀₂ := h₁.toSteps.calling.trans h₂
  apply continues_ok
  apply meets_bind
  apply priorCommit_meets (h₀₂.holding.trans hHolding)
  · intro e w₃ h₃ hInv₃
    apply continues_error
    exact h _ w₃ (h₀₂.trans h₃.calling) hInv₃
  · intro w₃ h₃ _
    have h₀₃ := h₀₂.trans h₃.toSteps.calling
    apply continues_ok
    apply meets_bind
    apply writeTombstone_meets (hRecord entry w₃ hRoot h₀₃
      (hPrepared.later h₃).about)
    intro r w₄ h₄ hInv₄
    have h₀₄ := h₀₃.trans h₄.toSteps.calling
    cases r with
    | error e =>
        apply continues_error
        exact h _ w₄ h₀₄ hInv₄
    | ok _ =>
    apply continues_ok
    apply meets_bind
    apply commit_meets (h₀₄.holding.trans hHolding)
      (hStamps entry w₄ hRoot h₀₄
        (hPrepared.later (h₃.trans h₄)))
    · intro e w₅ h₅ hInv₅
      apply continues_error
      exact h _ w₅ (h₀₄.trans h₅.calling) hInv₅
    · intro d w₅ h₅ _ hDone
      have h₀₅ := h₀₄.trans h₅.calling
      apply continues_ok
      apply unlist_meets h₀₅ (hPrepared.about.later
        ((h₃.trans h₄).toSteps.trans h₅)) hDone
        (hTree entry hRoot)
      intro r w' h₆ hInv'
      exact h r w' (h₀₅.trans h₆.toSteps.calling) hInv'
  · intro d w₃ h₃ _ hDone
    have h₀₃ := h₀₂.trans h₃.calling
    apply continues_ok
    apply unlist_meets h₀₃ (hPrepared.about.later h₃) hDone
      (hTree entry hRoot)
    intro r w' h₄ hInv'
    exact h r w' (h₀₃.trans h₄.toSteps.calling) hInv'

------------------------------------------------------------
-- Restores
------------------------------------------------------------

/- Keeping the observed deletion leaves the attempts alone. -/
theorem observeDeletion_meets
    {Q : CoreResult (Option TombstoneVersion) → l → World →
      Prop}
    (hHolding : w.holding t = some intent.receipt)
    (h :
      ∀ r w', Steps t w w' → HostInv host w' → Q r v w') :
    LogMeets host t (observeDeletion intent) v Q w := by
  unfold observeDeletion
  apply meets_bind
  apply meets_call
  intro w₁ h₁ hInv₁ c receipt w₂ _ hServe
  rcases serve_readReceipt hServe with ⟨rfl, _⟩
  refine ⟨⟨hInv₁, fun u _ => .refl u w₂⟩, ?_⟩
  intro w₃ h₃ hInv₃
  have h₀₃ := h₁.trans h₃
  have finished :
      ∀ observed w₄, Steps t w w₄ →
        LogMeets host t
          (pure observed :
            CloudM l (Option TombstoneVersion)) v Q w₄ := by
    intro observed w₄ h₄
    apply meets_pure
    exact fun w' h₅ => h _ w' (h₄.trans h₅.toSteps)
  cases receipt with
  | error e =>
      apply continues_error
      exact h _ w₃ h₀₃.toSteps hInv₃
  | ok receipt =>
  apply continues_ok
  cases receipt.observedDeletion with
  | some observed => exact finished _ w₃ h₀₃.toSteps
  | none =>
  dsimp only
  split
  · exact finished _ w₃ h₀₃.toSteps
  apply meets_bind
  apply meets_attempt
  apply TombstoneManager.getTombstoneVersion_meets
  intro r w₄ h₄ _
  have h₀₄ := h₀₃.trans h₄
  apply continues_ok
  cases r with
  | error e =>
      cases e with
      | notFound message => exact finished _ w₄ h₀₄.toSteps
      | _ =>
          apply meets_throw
          exact fun w' h₅ => h _ w' (h₀₄.trans h₅).toSteps
  | ok version =>
  apply meets_bind
  apply Meets.mono (Meets.with_inv (meets_updateReceipt
    (Q := fun _ v' w' => v' = v ∧ Steps t w₄ w')
    (h₀₄.holding.trans hHolding) ?_ ?_ ?_ ?_))
  · rintro r v' w₅ ⟨⟨rfl, h₅⟩, hInv₅⟩
    have h₀₅ := h₀₄.toSteps.trans h₅
    cases r with
    | error e =>
        apply continues_error
        exact h _ w₅ h₀₅ hInv₅
    | ok _ =>
        apply continues_ok
        exact finished _ w₅ h₀₅
  · intro w₅ _ hInv₅ a ha
    exact hInv₅.basic.recorded _ a (.inl ha)
  · exact fun r => List.prefix_rfl
  · intro hClean w₅ _ hInv₅
    have hOk := ((hInv₅.linear hClean).journals
      intent.receipt).receipt
    exact ⟨hOk.attempts, hOk.committed⟩
  · exact fun r w' hSteps _ _ => ⟨rfl, hSteps⟩

theorem projectDescendants_meets
    {entries : List FileEntry}
    (hDone : PublishedAs host t j d w)
    (hProject :
      ∀ entry ∈ entries,
        Projectable host t j entry.fileId
          (fun
            | none => some entry
            | some _ => none) w)
    (h :
      ∀ r w', Calling t w w' → HostInv host w' → Q r v w') :
    LogMeets host t (projectDescendants deviceId d entries) v
      Q w := by
  induction entries generalizing w with
  | nil =>
      apply meets_pure
      exact fun w' h₁ => h _ w' h₁.toSteps.calling
  | cons entry rest ih =>
      apply meets_bind
      apply project_meets hDone
        (hProject entry (List.mem_cons_self ..))
      · intro e w₁ h₁ hInv₁
        apply continues_error
        exact h _ w₁ h₁ hInv₁
      · intro w₁ h₁ _ _
        apply continues_ok
        apply ih (hDone.mono h₁.toGrows)
        · intro entry' hEntry'
          exact (hProject entry'
            (List.mem_cons_of_mem _ hEntry')).later h₁
        · exact fun r w' h₂ => h r w' (h₁.trans h₂)

theorem retireDeletion_meets
    {conditionalDelete : Bool} {deletion : TombstoneVersion}
    (hSend :
      Sendable host t w (.deleteIfMatch
        (.tombstone deletion.tombstone.fileId) deletion.etag))
    (h :
      ∀ r w', Others t w w' → HostInv host w' → Q r v w') :
    LogMeets host t
      (retireDeletion conditionalDelete deletion) v Q w := by
  unfold retireDeletion
  split
  · apply meets_bind
    apply meets_attempt
    apply meets_plainWrite hSend not_false
    intro r w₁ h₁ _ _
    apply continues_ok
    apply meets_pure
    exact fun w' h₂ => h _ w' (h₁.trans h₂)
  · apply meets_pure
    exact fun w' => h _ w'

/- What the host has to allow in a restore. -/
structure Restorable
    (host : Host clean)
    (t : Tid)
    (intent : MutationIntent)
    (w : World) : Prop where
  stamps :
    ∀ root deletion w₁, rootChange intent = .ok root →
      Calling t w w₁ →
      Prepared t (intent.restoration root deletion) w₁ →
      Publishable host t intent.receipt .restore
        (placementEffects (Placement.ofEntry root) false) w₁
  root :
    ∀ root, rootChange intent = .ok root →
      Projectable host t intent.receipt intent.fileId
        (fun existing => some (restoredEntry root
          (Placement.ofEntry root) existing)) w
  inside :
    ∀ entry ∈ intent.changes, entry.fileId ≠ intent.fileId →
      Projectable host t intent.receipt entry.fileId
        (fun
          | none => some entry
          | some _ => none) w
  retire :
    ∀ d (deletion : TombstoneVersion) w₁, Calling t w w₁ →
      PublishedAs host t intent.receipt d w₁ →
      About t
        (.projectionOf intent.fileId d.operation.opId) w₁ →
      Sendable host t w₁ (.deleteIfMatch
        (.tombstone deletion.tombstone.fileId) deletion.etag)

theorem publishRestore_meets
    {conditionalDelete : Bool}
    (hHolding : w.holding t = some intent.receipt)
    (hRestore : Restorable host t intent w)
    (h :
      Outcome host t w v
        (fun w' => ∃ root, rootChange intent = .ok root ∧
          PublishedOn host t intent.receipt intent.fileId
            (fun existing => some (restoredEntry root
              (Placement.ofEntry root) existing)) w') Q) :
    LogMeets host t
      (publishRestore deviceId conditionalDelete intent) v Q
      w := by
  have error :
      ∀ e w', Calling t w w' → HostInv host w' →
        Q (.error e) v w' := by
    intro e w' h₁ hInv'
    apply h _ w' h₁ hInv'
    intro hNot
    cases hNot
  unfold publishRestore
  apply meets_bind
  apply meets_ofExcept
  intro w₁ h₁ hInv₁
  have hCalling₁ := h₁.toSteps.calling
  cases hRoot : rootChange intent with
  | error e =>
      apply continues_error
      exact error e w₁ hCalling₁ hInv₁
  | ok root =>
  apply continues_ok
  apply meets_bind
  apply observeDeletion_meets
    (hCalling₁.holding.trans hHolding)
  intro r w₂ h₂ hInv₂
  have hCalling₂ := hCalling₁.trans h₂.calling
  cases r with
  | error e =>
      apply continues_error
      exact error e w₂ hCalling₂ hInv₂
  | ok deletion =>
  apply continues_ok
  apply meets_bind
  apply meets_prepare
  intro w₃ h₃ hPrepared _
  have hCalling₃ := hCalling₂.trans h₃
  apply continues_ok
  apply meets_bind
  apply commit_meets (hCalling₃.holding.trans hHolding)
    (hRestore.stamps root deletion w₃ hRoot hCalling₃
      hPrepared)
  · intro e w₄ h₄ hInv₄
    apply continues_error
    exact error e w₄ (hCalling₃.trans h₄.calling) hInv₄
  intro d w₄ h₄ _ hDone
  have hCalling₄ := hCalling₃.trans h₄.calling
  apply continues_ok
  apply meets_bind
  apply projectDescendants_meets hDone
  · intro entry hEntry
    rw [List.mem_filter] at hEntry
    exact (hRestore.inside entry hEntry.1
      (by simpa using hEntry.2)).later hCalling₄
  intro r w₅ h₅ hInv₅
  have hCalling₅ := hCalling₄.trans h₅
  cases r with
  | error e =>
      apply continues_error
      exact error e w₅ hCalling₅ hInv₅
  | ok _ =>
  apply continues_ok
  apply meets_bind
  apply project_meets (hDone.mono h₅.toGrows)
    ((hRestore.root root hRoot).later hCalling₅)
  · intro e w₆ h₆ hInv₆
    apply continues_error
    exact error e w₆ (hCalling₅.trans h₆) hInv₆
  intro w₆ h₆ _ hProjected
  have hCalling₆ := hCalling₅.trans h₆
  have hDone₆ := (hDone.mono h₅.toGrows).mono h₆.toGrows
  have published :
      ∀ r w', Calling t w₆ w' → HostInv host w' → Q r v w' := by
    intro r w' h₇ hInv'
    apply h r w' (hCalling₆.trans h₇) hInv'
    intro _
    exact ⟨root, hRoot, d, hDone₆.mono h₇.toGrows,
      hProjected.mono h₇.toGrows⟩
  apply continues_ok
  cases deletion with
  | none =>
      apply meets_pure
      exact fun w' h₇ => published _ w' h₇.toSteps.calling
  | some version =>
      apply meets_bind
      apply meets_prepare
      intro w₇ h₇ hRetires _
      apply continues_ok
      apply retireDeletion_meets (hRestore.retire d version w₇
        (hCalling₆.trans h₇) (hDone₆.mono h₇.toGrows)
        hRetires.about)
      exact fun r w' h₈ =>
        published r w' (h₇.trans h₈.toSteps.calling)

end NotesIntake

end S4Drive

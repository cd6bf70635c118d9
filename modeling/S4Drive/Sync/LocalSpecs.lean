import S4Drive.Metadata.TreeSpecs
import S4Drive.Sync.DeviceSystem
import S4Drive.Sync.LocalChanges

/-
  What the programs that publish local changes do under the
  contract of the log: which operations they build and which
  writes they send to the tree and the deletion records.

  Main declarations:
    * `commitSyncOperation_meets`
    * `commitFilePlacement_meets`
    * `deleteFile_meets`, `deleteFolder_meets`
    * `upload_meets`
-/

------------------------------------------------------------
-- Commits
------------------------------------------------------------

namespace S4Drive

open ObjectStore Concurrency ChainLog OperationLog

variable {l : Type}
variable {clean : Prop}
variable {host : Host clean}
variable {t : Tid} {w w' : World}

/- What a call leaves to its thread from one step on. -/
structure Calling
    (t : Tid)
    (w w' : World) : Prop extends Grows w w' where
  holding : w'.holding t = w.holding t
  calls : w'.calls t = w.calls t

theorem Steps.calling (h : Steps t w w') : Calling t w w' :=
  ⟨h.toGrows, h.holding, h.calls⟩

theorem Calling.trans
    {w₁ w₂ w₃ : World}
    (h : Calling t w₁ w₂)
    (h' : Calling t w₂ w₃) : Calling t w₁ w₃ :=
  ⟨h.toGrows.trans h'.toGrows, h'.holding.trans h.holding,
    h'.calls.trans h.calls⟩

/-
  The call of `t` has turned to a change and has built no
  operation since.
-/
def Prepared
    (t : Tid)
    (change : Change)
    (w : World) : Prop :=
  ∃ b, w.basis t = some b ∧ b.toChange = change ∧
    ∀ x ∈ w.issued, x.issuer = t → x ∈ w.issued.take b.built

variable {change : Change}

theorem Prepared.later
    (h : Prepared t change w)
    (hOthers : Others t w w') : Prepared t change w' := by
  rcases h with ⟨b, hBasis, hChange, hBuilt⟩
  refine ⟨b, hOthers.basis.trans hBasis, hChange, ?_⟩
  intro x hx hIssuer
  have hOld := hBuilt x (hOthers.own x hx hIssuer) hIssuer
  exact (hOthers.issued.take b.built).subset hOld

/- What the call of `t` is about. -/
def About
    (t : Tid)
    (change : Change)
    (w : World) : Prop :=
  ∃ b, w.basis t = some b ∧ b.toChange = change

theorem Prepared.about
    (h : Prepared t change w) : About t change w := by
  rcases h with ⟨b, hBasis, hChange, _⟩
  exact ⟨b, hBasis, hChange⟩

theorem About.later
    (h : About t change w)
    (hSteps : Steps t w w') : About t change w' := by
  rcases h with ⟨b, hBasis, hChange⟩
  exact ⟨b, hSteps.basis.trans hBasis, hChange⟩

variable {v : l} {Q : CoreResult Unit → l → World → Prop}

/- A call turns to a change at the moment `w₁`. -/
theorem meets_turn
    (h :
      ∀ c w₁ w', Others t w w₁ → HostInv host w₁ →
        host.admits t (.prepare change) c w₁ →
        Others t (w₁.prepares t change) w' →
        HostInv host w' → Q (.ok ()) v w') :
    LogMeets host t
      (Script.request (.prepare change : Req)) v Q w := by
  apply meets_request
  intro w₁ hRely hInv c r w₂ hAdmits hServe
  have hPrepared := serve_prepare hServe
  subst hPrepared
  have hLog := hInv.log.prepares t change
  refine ⟨⟨(sameData_prepares w₁ t change).hostInv hInv hLog,
    fun u hu => others_prepares w₁ change hu⟩, ?_⟩
  exact fun w' hRely' => h c w₁ w' hRely hInv hAdmits hRely'

theorem meets_prepare
    (h :
      ∀ w', Calling t w w' → Prepared t change w' →
        HostInv host w' → Q (.ok ()) v w') :
    LogMeets host t
      (Script.request (.prepare change : Req)) v Q w := by
  apply meets_turn
  intro c w₁ w' hRely hInv _ hRely' hInv'
  have hStep : Calling t w₁ (w₁.prepares t change) :=
    ⟨(sameData_prepares w₁ t change).grows, rfl, rfl⟩
  apply h w' _ _ hInv'
  · exact (hRely.toSteps.calling.trans hStep).trans
      hRely'.toSteps.calling
  · apply Prepared.later _ hRely'
    refine ⟨_, if_pos rfl, rfl, ?_⟩
    intro x hx _
    change x ∈ w₁.issued.take w₁.issued.length
    rw [List.take_length]
    exact hx

/-
  The host lets `t` build the operation of a commit that
  starts in `w` on a log of its own.
-/
def Stampable
    (host : Host clean)
    (t : Tid)
    (w : World)
    (targetFileId : Option FileId)
    (opType : OpType)
    (effects : Effects) : Prop :=
  ∀ v v' w₁ w₂ w₃ start op preconditions,
    HeadRead host t w w₁ w₂ v v' → v'.currentHead = start →
    Steps t w₂ w₃ → HostInv host w₃ →
    CommitAttempt targetFileId opType preconditions effects
      start op w₃ → host.stamps t op w₃

variable {targetFileId : Option FileId} {opType : OpType}
variable {effects : Effects}

theorem Stampable.later
    (h : Stampable host t w targetFileId opType effects)
    (hOthers : Others t w w') :
    Stampable host t w' targetFileId opType effects :=
  fun v v' w₁ w₂ w₃ start op preconditions hRead =>
    h v v' w₁ w₂ w₃ start op preconditions
      (hRead.from hOthers)

/- The commit has put an operation on the chain. -/
def Committed
    (clean : Prop)
    (t : Tid)
    (targetFileId : Option FileId)
    (opType : OpType)
    (effects : Effects)
    (w : World) : Prop :=
  ∃ op, op.targetFileId = targetFileId ∧
    op.opType = opType ∧ op.effects = effects ∧
    op ∈ callOperations w t (w.calls t) ∧
    (clean → op ∈ w.headLog)

variable {fileExists parentExists : Bool}

theorem committing_meets
    {v : OperationLog}
    {Q : CoreResult Unit → OperationLog → World → Prop}
    (hIdle : w.holding t = none)
    (hKnows : LogKnows v w)
    (hPaired : clean → v.Paired)
    (hStamps :
      ∀ start w₁ op, StartedAt host t v w w₁ start →
        HostInv host w₁ →
        CommitAttempt targetFileId opType
          ⟨none, none, fileExists, parentExists⟩ effects start
          op w₁ → host.stamps t op w₁)
    (h :
      ∀ r v' w', Steps t w w' → HostInv host w' →
        (r = .ok () →
          Committed clean t targetFileId opType effects w') →
        Q r v' w') :
    LogMeets host t
      (commitOn targetFileId opType effects fileExists
        parentExists) v Q w := by
  unfold commitOn
  apply meets_bind
  apply Meets.mono (Meets.with_inv (commit_meets hIdle hKnows
    hPaired (builtOnly_self w t) hStamps))
  rintro r v' w₁ ⟨⟨start, _, hGoing, hDone⟩, hInv⟩
  cases r with
  | error e =>
      apply continues_error
      apply h _ _ _ hGoing.steps hInv
      intro hNot
      cases hNot
  | ok op =>
      have hOp := hDone op rfl
      apply continues_ok
      apply meets_pure
      intro w₂ hRely hInv₂
      apply h _ _ _ (hGoing.steps.trans hRely.toSteps) hInv₂
      intro _
      refine ⟨op, hOp.target, hOp.opType, hOp.effects, ?_, ?_⟩
      · rw [hRely.calls]
        exact (callOperations_mono hRely.toGrows t _).subset
          hOp.own
      · exact fun hClean =>
          hRely.log.subset (hOp.committed hClean)

/- A commit on a log that has not read the head yet. -/
theorem newCommit_meets
    {v : OperationLog}
    {Q : CoreResult Unit → OperationLog → World → Prop}
    (hIdle : w.holding t = none)
    (hKnows : LogKnows v w)
    (hPaired : clean → v.Paired)
    (hLoaded : v.headLoaded = false)
    (hStamps :
      Stampable host t w targetFileId opType effects)
    (h :
      ∀ r v' w', Steps t w w' → HostInv host w' →
        (r = .ok () →
          Committed clean t targetFileId opType effects w') →
        Q r v' w') :
    LogMeets host t
      (commitOn targetFileId opType effects fileExists
        parentExists) v Q w := by
  apply committing_meets hIdle hKnows hPaired _ h
  intro start w₁ op hStarted hInv hAttempt
  rcases hStarted.read hLoaded with
    ⟨v', w₂, w₃, hRead, hStart, hSteps⟩
  exact hStamps v v' w₂ w₃ w₁ start op _ hRead hStart.symm
    hSteps hInv hAttempt

/- A commit on a log that has read the head. -/
theorem loadedCommit_meets
    {v : OperationLog}
    {Q : CoreResult Unit → OperationLog → World → Prop}
    (hIdle : w.holding t = none)
    (hKnows : LogKnows v w)
    (hPaired : clean → v.Paired)
    (hLoaded : v.headLoaded = true)
    (hStamps :
      ∀ w₁ op preconditions, Steps t w w₁ → HostInv host w₁ →
        CommitAttempt targetFileId opType preconditions effects
          v.currentHead op w₁ → host.stamps t op w₁)
    (h :
      ∀ r v' w', Steps t w w' → HostInv host w' →
        (r = .ok () →
          Committed clean t targetFileId opType effects w') →
        Q r v' w') :
    LogMeets host t
      (commitOn targetFileId opType effects fileExists
        parentExists) v Q w := by
  apply committing_meets hIdle hKnows hPaired _ h
  intro start w₁ op hStarted hInv hAttempt
  rw [hStarted.loaded hLoaded] at hAttempt
  exact hStamps w₁ op _ hStarted.steps hInv hAttempt

variable {deviceId : DeviceId}

theorem commitSyncOperation_meets
    (hIdle : w.holding t = none)
    (hStamps :
      Stampable host t w targetFileId opType effects)
    (h :
      ∀ r w', Steps t w w' → HostInv host w' →
        (r = .ok () →
          Committed clean t targetFileId opType effects w') →
        Q r v w') :
    LogMeets host t
      (commitSyncOperation deviceId targetFileId opType
        effects fileExists parentExists) v Q w := by
  unfold commitSyncOperation
  apply meets_bind
  apply meets_now
  intro clock w₁ h₁ _
  apply continues_ok
  have hCommit :
      LogMeets host t
        (commitOn targetFileId opType effects fileExists
          parentExists) (OperationLog.new deviceId clock)
        (fun r _ w' => Steps t w₁ w' ∧ HostInv host w' ∧
          (r = .ok () →
            Committed clean t targetFileId opType effects w'))
        w₁ := by
    apply newCommit_meets (h₁.holding.trans hIdle)
      (knows_new deviceId clock w₁) (fun _ => rfl) rfl
      (hStamps.later h₁)
    intro r v' w' hSteps hInv hCommitted
    exact ⟨hSteps, hInv, hCommitted⟩
  apply meets_onLog hCommit
  rintro r v' w' ⟨hSteps, hInv, hCommitted⟩
  exact h r w' (h₁.toSteps.trans hSteps) hInv hCommitted

variable {entry : FileEntry}

theorem commitFilePlacement_meets
    {placement : Placement}
    (hIdle : w.holding t = none)
    (hStamps :
      Stampable host t w (some entry.fileId) opType
        ⟨none, none, some placement.name, placement.parentId,
          false⟩)
    (hTree :
      ∀ w₁ (written : FileEntry), Steps t w w₁ →
        Sendable host t w₁
          (.put (.tree written.fileId) (.entry written)))
    (h :
      ∀ r w', Steps t w w' → HostInv host w' → Q r v w') :
    LogMeets host t
      (commitFilePlacement deviceId entry opType placement) v
      Q w := by
  unfold commitFilePlacement
  apply meets_bind
  apply commitSyncOperation_meets hIdle hStamps
  intro r w₁ h₁ hInv₁ _
  cases r with
  | error e =>
      apply continues_error
      exact h _ _ h₁ hInv₁
  | ok _ =>
  apply continues_ok
  apply meets_bind
  apply meets_attempt
  apply FileTree.getEntry_meets
  intro w₂ remote w₃ h₂ _ h₃ _ _
  apply continues_ok
  apply meets_bind
  apply meets_now
  intro time w₄ h₄ _
  have h₁₄ := (h₂.trans h₃).trans h₄
  apply continues_ok
  apply meets_bind
  apply meets_attempt
  apply FileTree.upsertEntry_meets
    ((hTree w₁ _ h₁).later h₁₄)
  intro r w₅ h₅ _
  apply continues_ok
  apply meets_pure
  intro w' h₆ hInv'
  exact h _ w'
    (h₁.trans ((h₁₄.trans h₅).trans h₆).toSteps) hInv'

------------------------------------------------------------
-- Deletes
------------------------------------------------------------

/- What the host has to allow in a delete. -/
structure Deletable
    {clean : Prop}
    (host : Host clean)
    (t : Tid)
    (w : World)
    (change : Change)
    (effects : Effects) : Prop where
  record :
    ∀ w₁ (tombstone : Tombstone), Calling t w w₁ →
      About t change w₁ →
      tombstone.fileId = change.fileId →
        Sendable host t w₁ (.putIfNotExists
          (.tombstone change.fileId) (.tombstone tombstone))
  stamps :
    ∀ w₁, Calling t w w₁ → Prepared t change w₁ →
      Stampable host t w₁ (some change.fileId) .delete effects
  tree :
    ∀ id ∈ change.removes, ∀ w₁, Calling t w w₁ →
      About t change w₁ →
      Committed clean t (some change.fileId) .delete effects
        w₁ →
        Sendable host t w₁ (.delete (.tree id))

theorem Deletable.later
    (h : Deletable host t w change effects)
    (hCalling : Calling t w w') :
    Deletable host t w' change effects where
  record := fun w₁ tombstone h₁ =>
    h.record w₁ tombstone (hCalling.trans h₁)
  stamps := fun w₁ h₁ => h.stamps w₁ (hCalling.trans h₁)
  tree := fun id hId w₁ h₁ =>
    h.tree id hId w₁ (hCalling.trans h₁)

theorem Calling.refl (t : Tid) (w : World) : Calling t w w :=
  (Others.refl t w).toSteps.calling

/- The record of a delete and its operation. -/
theorem recordedDelete_meets
    {α : Type}
    {path name deletedBy : String}
    {contentRefs : List BlobId}
    {rest : CloudM l α}
    {Q : CoreResult α → l → World → Prop}
    (hIdle : w.holding t = none)
    (hPrepared : Prepared t change w)
    (hDelete : Deletable host t w change effects)
    (hError :
      ∀ e w', Calling t w w' → HostInv host w' →
        Q (.error e) v w')
    (hRest :
      ∀ w₁, Calling t w w₁ → About t change w₁ →
        Committed clean t (some change.fileId) .delete effects
          w₁ →
          LogMeets host t rest v Q w₁) :
    LogMeets host t
      (do
        let _ ← TombstoneManager.createTombstone
          change.fileId path name deletedBy contentRefs
          tombstoneRetentionDays
        commitSyncOperation deviceId (some change.fileId)
          .delete effects true true
        rest) v Q w := by
  apply meets_bind
  apply TombstoneManager.createTombstone_meets
    (fun tombstone hId =>
      hDelete.record w tombstone (.refl t w) hPrepared.about
        hId)
  intro r w₁ h₁ hInv₁ _
  have hCalling₁ := h₁.toSteps.calling
  cases r with
  | error e =>
      apply continues_error
      exact hError e w₁ hCalling₁ hInv₁
  | ok _ =>
  apply continues_ok
  apply meets_bind
  apply commitSyncOperation_meets (h₁.holding.trans hIdle)
    (hDelete.stamps w₁ hCalling₁ (hPrepared.later h₁))
  intro r w₂ h₂ hInv₂ hCommitted
  have hCalling₂ := hCalling₁.trans h₂.calling
  cases r with
  | error e =>
      apply continues_error
      exact hError e w₂ hCalling₂ hInv₂
  | ok _ =>
  apply continues_ok
  exact hRest w₂ hCalling₂
    (hPrepared.about.later (h₁.toSteps.trans h₂))
    (hCommitted rfl)

/- The delete of a file as a part of a deletion. -/
def fileDeletionIn
    (deletion : Change)
    (entry : FileEntry) : Change :=
  { fileDeletion entry with
    removes := deletion.removes
    root := deletion.root }

/- What the host has to allow in the delete of one file. -/
structure FileDeletable
    {clean : Prop}
    (host : Host clean)
    (t : Tid)
    (w : World)
    (deletion : Change)
    (entry : FileEntry)
    (remotePath : String) : Prop where
  deletable :
    Deletable host t w (fileDeletionIn deletion entry)
      (deleteEffects (splitPath remotePath).2 entry.parentId)
  part : entry.fileId ∈ deletion.removes

variable {deletion : Change} {remotePath : String}

theorem FileDeletable.later
    (h : FileDeletable host t w deletion entry remotePath)
    (hCalling : Calling t w w') :
    FileDeletable host t w' deletion entry remotePath :=
  ⟨h.deletable.later hCalling, h.part⟩

theorem deleteFileIn_meets
    (hIdle : w.holding t = none)
    (hDelete :
      FileDeletable host t w deletion entry remotePath)
    (h :
      ∀ r w', Calling t w w' → HostInv host w' → Q r v w') :
    LogMeets host t
      (deleteFileIn deletion deviceId entry remotePath) v Q
      w := by
  unfold deleteFileIn
  apply meets_bind
  apply meets_prepare
  intro w₁ h₁ hPrepared _
  apply continues_ok
  apply meets_bind
  apply meets_attempt
  apply FileTree.getEntry_meets
  intro w₂ remote w₃ h₂ _ h₃ _ _
  have h₁₃ := h₂.trans h₃
  have h₀₃ := h₁.trans h₁₃.toSteps.calling
  have hDelete₃ := hDelete.deletable.later h₀₃
  apply continues_ok
  apply recordedDelete_meets (h₀₃.holding.trans hIdle)
    (hPrepared.later h₁₃) hDelete₃
  · exact fun e w' hCalling => h _ w' (h₀₃.trans hCalling)
  · intro w₄ h₄ hAbout hCommitted
    have h₀₄ := h₀₃.trans h₄
    apply meets_bind
    apply meets_attempt
    apply FileTree.deleteEntry_meets
      (hDelete₃.tree _ hDelete.part w₄ h₄ hAbout hCommitted)
    intro r w₅ h₅ _
    apply continues_ok
    apply meets_pure
    intro w₆ h₆ hInv₆
    exact h _ w₆
      (h₀₄.trans (h₅.trans h₆).toSteps.calling) hInv₆

theorem deleteFile_meets
    (hIdle : w.holding t = none)
    (hDelete :
      Deletable host t w (fileDeletion entry)
        (deleteEffects (splitPath remotePath).2
          entry.parentId))
    (h :
      ∀ r w', Calling t w w' → HostInv host w' → Q r v w') :
    LogMeets host t (deleteFile deviceId entry remotePath) v
      Q w :=
  deleteFileIn_meets hIdle
    ⟨hDelete, List.mem_singleton_self _⟩ h

theorem deleteFiles_meets
    {files : List (FileEntry × String)}
    (hIdle : w.holding t = none)
    (hDelete :
      ∀ file ∈ files,
        FileDeletable host t w deletion file.1 file.2)
    (h :
      ∀ r w', Calling t w w' → HostInv host w' → Q r v w') :
    LogMeets host t (deleteFiles deletion deviceId files) v Q
      w := by
  induction files generalizing w with
  | nil =>
      apply meets_pure
      intro w' hRely hInv'
      exact h _ w' hRely.toSteps.calling hInv'
  | cons file rest ih =>
      apply meets_bind
      apply deleteFileIn_meets hIdle
        (hDelete file (List.mem_cons_self ..))
      intro r w₁ h₁ hInv₁
      cases r with
      | error e =>
          apply continues_error
          exact h _ w₁ h₁ hInv₁
      | ok _ =>
          apply continues_ok
          apply ih (h₁.holding.trans hIdle)
          · intro file' hFile'
            exact (hDelete file'
              (List.mem_cons_of_mem _ hFile')).later h₁
          · intro r w' h₂ hInv'
            exact h r w' (h₁.trans h₂) hInv'

theorem deleteTreeEntries_meets
    {ids : List FileId}
    (hTree :
      ∀ id ∈ ids, Sendable host t w (.delete (.tree id)))
    (h :
      ∀ r w', Others t w w' → HostInv host w' → Q r v w') :
    LogMeets host t (deleteTreeEntries ids) v Q w := by
  induction ids generalizing w with
  | nil =>
      apply meets_pure
      intro w' hRely hInv'
      exact h _ w' hRely hInv'
  | cons id rest ih =>
      apply meets_bind
      apply meets_attempt
      apply FileTree.deleteEntry_meets
        (hTree id (List.mem_cons_self ..))
      intro r w₁ h₁ _
      apply continues_ok
      apply ih
      · intro id' hId'
        exact (hTree id' (List.mem_cons_of_mem _ hId')).later
          h₁
      · intro r w' h₂ hInv'
        exact h r w' (h₁.trans h₂) hInv'

variable {contents : FolderContents}
variable {folder : IndexedFolder}

theorem byPath_mem_folderDeletion
    {file : FileEntry × String}
    (h : file ∈ contents.byPath) :
    file.1.fileId ∈ (folderDeletion folder contents).removes := by
  have hFile := (List.mem_filter.mp h).1
  exact List.mem_append_right _ (List.mem_map_of_mem hFile)

theorem removedWith_subset :
    removedWith folder contents ⊆
      (folderDeletion folder contents).removes := by
  intro id hId
  rcases List.mem_append.mp hId with hId | hId
  · exact List.mem_append_left _ hId
  · rcases List.mem_map.mp hId with ⟨entry, hEntry, rfl⟩
    rcases List.mem_map.mp hEntry with ⟨file, hFile, rfl⟩
    have hIn := (List.mem_filter.mp hFile).1
    exact List.mem_append_right _
      (List.mem_map.mpr ⟨file, hIn, rfl⟩)

theorem deleteFolder_meets
    (hIdle : w.holding t = none)
    (hFiles :
      ∀ file ∈ contents.byPath,
        Deletable host t w
          (fileDeletionIn (folderDeletion folder contents)
            file.1)
          (deleteEffects (splitPath file.2).2
            file.1.parentId))
    (hFolder :
      Deletable host t w (folderDeletion folder contents)
        (deleteEffects (splitPath folder.remotePath).2
          folder.parentId))
    (h :
      ∀ r w', Calling t w w' → HostInv host w' → Q r v w') :
    LogMeets host t
      (deleteFolder deviceId folder contents) v Q w := by
  unfold deleteFolder
  apply meets_bind
  apply deleteFiles_meets hIdle
    (fun file hFile => ⟨hFiles file hFile,
      byPath_mem_folderDeletion hFile⟩)
  intro r w₁ h₁ hInv₁
  cases r with
  | error e =>
      apply continues_error
      exact h _ w₁ h₁ hInv₁
  | ok _ =>
  apply continues_ok
  apply meets_bind
  apply meets_prepare
  intro w₂ h₂ hPrepared _
  have h₀₂ := h₁.trans h₂
  apply continues_ok
  apply recordedDelete_meets (h₀₂.holding.trans hIdle)
    hPrepared (hFolder.later h₀₂)
  · exact fun e w' hCalling => h _ w' (h₀₂.trans hCalling)
  · intro w₃ h₃ hAbout hCommitted
    have h₀₃ := h₀₂.trans h₃
    apply deleteTreeEntries_meets
    · intro id hId
      exact hFolder.tree id (removedWith_subset hId) w₃ h₀₃
        hAbout hCommitted
    · intro r w' h₄ hInv'
      exact h r w' (h₀₃.trans h₄.toSteps.calling) hInv'

------------------------------------------------------------
-- Uploads
------------------------------------------------------------

/-
  The operation of an upload, at the moment `w'` when the
  call that runs since `w` builds it: the head was read and
  searched at `w₁`, the tree entry was read at `w₂`.
-/
structure UploadAttempt
    {clean : Prop}
    (host : Host clean)
    (t : Tid)
    (job : UploadJob)
    (v v' : OperationLog)
    (w w₁ w₂ : World)
    (lookup : RemoteLookup)
    (revisionId : RevisionId)
    (op : Operation)
    (w' : World) : Prop where
  read : HeadRead host t w w₁ w₂ v v'
  prepared :
    ∃ parent b, prepareUpload job lookup = .ok parent ∧
      w'.basis t = some b ∧ b.revision = parent
  calling : Calling t w₂ w'
  target : op.targetFileId = some job.fileId
  opType :
    op.opType =
      if lookup.remoteExists then .uploadNewRevision
      else .createFile
  effects : op.effects = uploadEffects job lookup revisionId
  known : ∃ m, m <:+ w'.headLog ∧ headOf m = op.baseHead
  isolated :
    Walk w' (NotOn job.fileId) op.baseHead v'.currentHead

theorem remoteLookup_meets
    {fileId : FileId} {latest : Option Operation}
    {Q : CoreResult RemoteLookup → l → World → Prop}
    (h :
      ∀ lookup w', Others t w w' → HostInv host w' →
        Q (.ok lookup) v w') :
    LogMeets host t (remoteLookup fileId latest) v Q w := by
  unfold remoteLookup
  apply meets_bind
  apply meets_attempt
  apply FileTree.getEntry_meets
  intro w₁ r w₂ h₁ _ h₂ _ _
  have found :
      ∀ lookup : RemoteLookup,
        LogMeets host t (pure lookup) v Q w₂ := by
    intro lookup
    apply meets_pure
    intro w' h₃ hInv'
    exact h lookup w' ((h₁.trans h₂).trans h₃) hInv'
  apply continues_ok
  cases r with
  | ok entry => exact found _
  | error e =>
      cases e with
      | notFound message => exact found _
      | _ => exact found _

theorem uploadOn_meets
    {job : UploadJob} {current : Bool}
    {revisionId : RevisionId} {updatedAt : Timestamp}
    {v : OperationLog}
    {Q : CoreResult (Except UploadResult FileEntry) →
      OperationLog → World → Prop}
    (hIdle : w.holding t = none)
    (hKnows : LogKnows v w)
    (hStamps :
      ∀ v' w₁ w₂ lookup op w₃, HostInv host w₃ →
        UploadAttempt host t job v v' w w₁ w₂ lookup
          revisionId op w₃ → host.stamps t op w₃)
    (h :
      ∀ r v' w', Calling t w w' → HostInv host w' →
        Q r v' w') :
    LogMeets host t
      (uploadOn job current revisionId updatedAt) v Q w := by
  unfold uploadOn
  apply meets_bind
  apply Meets.mono
    (Meets.with_inv (latestMatching_meets hKnows))
  rintro latest v₁ w₁ ⟨⟨hQueried, hRead, _⟩, hInv₁⟩
  cases latest with
  | error e =>
      apply continues_error
      exact h _ _ _ hQueried.others.toSteps.calling hInv₁
  | ok latest =>
  rcases hRead latest rfl with ⟨wₕ, hRead⟩
  apply continues_ok
  apply meets_bind
  apply remoteLookup_meets
  intro lookup w₂ h₂ hInv₂
  have h₀₂ := (hQueried.others.trans h₂).toSteps.calling
  have hRead₂ := hRead.later h₂
  apply continues_ok
  split
  · apply meets_pure
    intro w' h₃ hInv'
    exact h _ _ w' (h₀₂.trans h₃.toSteps.calling) hInv'
  cases hPrepare : prepareUpload job lookup with
  | error result =>
      apply meets_pure
      intro w' h₃ hInv'
      exact h _ _ w' (h₀₂.trans h₃.toSteps.calling) hInv'
  | ok parent =>
  apply meets_bind
  apply meets_prepare
  intro w₃ h₃ hPrepared hInv₃
  have h₀₃ := h₀₂.trans h₃
  apply continues_ok
  apply meets_bind
  apply loadedCommit_meets (h₀₃.holding.trans hIdle)
    (hRead₂.knows.mono h₃.toGrows) hRead.paired hRead.loaded
  · intro w₄ op preconditions hSteps hInv₄ hAttempt
    apply hStamps v₁ wₕ w₂ lookup op w₄ hInv₄
    rcases hPrepared.about.later hSteps with
      ⟨b, hBasis, hChange⟩
    have hRevision : b.revision = parent := by
      rw [hChange]
    exact ⟨hRead₂, ⟨parent, b, hPrepare, hBasis, hRevision⟩,
      h₃.trans hSteps.calling, hAttempt.target,
      hAttempt.opType, hAttempt.effects, hAttempt.known,
      hAttempt.isolated _ rfl⟩
  · intro r v₂ w₄ h₄ hInv₄ _
    have h₀₄ := h₀₃.trans h₄.calling
    cases r with
    | error e =>
        apply continues_error
        exact h _ _ _ h₀₄ hInv₄
    | ok _ =>
        apply continues_ok
        apply meets_pure
        intro w' h₅ hInv'
        exact h _ _ w' (h₀₄.trans h₅.toSteps.calling) hInv'

theorem upload_meets
    {job : UploadJob}
    {current : Bool}
    {Q : CoreResult UploadResult → l → World → Prop}
    (hIdle : w.holding t = none)
    (hStamps :
      ∀ w₀ v v' w₁ w₂ lookup revisionId op w₃,
        Others t w w₀ → HostInv host w₃ →
        UploadAttempt host t job v v' w₀ w₁ w₂ lookup
          revisionId op w₃ → host.stamps t op w₃)
    (hTree :
      ∀ w₁ (entry : FileEntry), Calling t w w₁ →
        Sendable host t w₁
          (.put (.tree entry.fileId) (.entry entry)))
    (h :
      ∀ r w', Calling t w w' → HostInv host w' → Q r v w') :
    LogMeets host t (upload deviceId job current) v Q w := by
  unfold upload
  apply meets_bind
  apply meets_drawn
  intro revisionId w₁ h₁ _
  apply continues_ok
  apply meets_bind
  apply meets_now
  intro updatedAt w₂ h₂ _
  apply continues_ok
  apply meets_bind
  apply meets_now
  intro clock w₃ h₃ _
  have h₀₃ := (h₁.trans h₂).trans h₃
  apply continues_ok
  apply meets_bind
  have hUpload :
      LogMeets host t
        (uploadOn job current revisionId updatedAt)
        (OperationLog.new deviceId clock)
        (fun _ _ w' => Calling t w₃ w' ∧ HostInv host w')
        w₃ := by
    apply uploadOn_meets (h₀₃.holding.trans hIdle)
      (knows_new deviceId clock w₃)
    · exact fun v' w₁ w₂ lookup op w₄ =>
        hStamps w₃ _ v' w₁ w₂ lookup revisionId op w₄ h₀₃
    · exact fun _ _ _ hCalling hInv => ⟨hCalling, hInv⟩
  apply meets_onLog hUpload
  rintro r v' w₄ ⟨h₄, hInv₄⟩
  have h₀₄ := h₀₃.toSteps.calling.trans h₄
  cases r with
  | error e =>
      apply continues_error
      exact h _ w₄ h₀₄ hInv₄
  | ok result =>
  apply continues_ok
  cases result with
  | error result =>
      apply meets_pure
      intro w' h₅ hInv'
      exact h _ w' (h₀₄.trans h₅.toSteps.calling) hInv'
  | ok entry =>
      apply meets_bind
      apply meets_attempt
      apply FileTree.upsertEntry_meets (hTree w₄ entry h₀₄)
      intro r w₅ h₅ _
      apply continues_ok
      apply meets_pure
      intro w' h₆ hInv'
      exact h _ w'
        (h₀₄.trans (h₅.trans h₆).toSteps.calling) hInv'

end S4Drive

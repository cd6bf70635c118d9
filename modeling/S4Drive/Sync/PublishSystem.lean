import S4Drive.Sync.NotesSpecs

/-
  Devices that publish changes: what the sync engine and the
  Notes intake of a device send to the bucket, one call at a
  time on each thread. The rows of the local index that a
  call reads are part of the call.

  Main declarations:
    * `PublishCall`, `PublishCall.run`
    * `publishSystem`
    * `PublishRun`
    * `publishState_of_run`
    * `Publishes`, `publish_meets`
-/

------------------------------------------------------------
-- Calls
------------------------------------------------------------

namespace S4Drive

open ObjectStore Concurrency ChainLog

inductive PublishCall where
  | upload
      (deviceId : DeviceId)
      (job : UploadJob)
      (current : Bool)
  -- Operations without a projection of their own.
  | commit
      (deviceId : DeviceId)
      (targetFileId : Option FileId)
      (opType : OpType)
      (effects : Effects)
      (fileExists parentExists : Bool)
      (kept : opType ≠ .delete)
  | writeEntry (entry : FileEntry)
  | placeFile
      (deviceId : DeviceId)
      (entry : FileEntry)
      (moves : Bool)
      (placement : Placement)
  | deleteFile
      (deviceId : DeviceId)
      (entry : FileEntry)
      (remotePath : String)
  | deleteFolder
      (deviceId : DeviceId)
      (folder : IndexedFolder)
      (contents : FolderContents)
  | createFolder
      (deviceId : DeviceId)
      (intent : MutationIntent)
  | place
      (deviceId : DeviceId)
      (intent : MutationIntent)
      (moves : Bool)
  | publishDelete
      (deviceId : DeviceId)
      (intent : MutationIntent)
      (followsRestore : Bool)
  | restore
      (deviceId : DeviceId)
      (conditionalDelete : Bool)
      (intent : MutationIntent)

namespace PublishCall

/- The intent that a call publishes. -/
def intent : PublishCall → Option MutationIntent
  | createFolder _ intent => some intent
  | place _ intent _ => some intent
  | publishDelete _ intent _ => some intent
  | restore _ _ intent => some intent
  | _ => none

def journal (c : PublishCall) : Option JournalId :=
  c.intent.map MutationIntent.receipt

/- Whether the call publishes a deletion. -/
def deletes : PublishCall → Bool
  | deleteFile _ _ _ => true
  | deleteFolder _ _ _ => true
  | publishDelete _ _ _ => true
  | _ => false

def run : PublishCall → CloudM Unit Unit
  | upload deviceId job current => do
      let _ ← S4Drive.upload deviceId job current
  | commit deviceId targetFileId opType effects fileExists
      parentExists _ =>
      commitSyncOperation deviceId targetFileId opType effects
        fileExists parentExists
  | writeEntry entry => FileTree.upsertEntry entry
  | placeFile deviceId entry moves placement =>
      commitFilePlacement deviceId entry
        (if moves then .move else .rename) placement
  | deleteFile deviceId entry remotePath =>
      S4Drive.deleteFile deviceId entry remotePath
  | deleteFolder deviceId folder contents =>
      S4Drive.deleteFolder deviceId folder contents
  | createFolder deviceId intent =>
      NotesIntake.publishCreateFolder deviceId intent
  | place deviceId intent moves =>
      NotesIntake.publishPlacement deviceId intent moves
  | publishDelete deviceId intent followsRestore =>
      NotesIntake.publishDelete deviceId intent followsRestore
  | restore deviceId conditionalDelete intent =>
      NotesIntake.publishRestore deviceId conditionalDelete
        intent

end PublishCall

/- Any number of threads; no value is kept between calls. -/
def publishSystem :
    ThreadSystem Req Resp World Tid Choice PublishCall
      (CoreResult Unit) Unit EnvAction :=
  deviceSystem PublishCall.run () PublishCall.journal

abbrev PublishState :=
  SystemState Req Resp World Tid PublishCall
    (CoreResult Unit) Unit

abbrev PublishAction :=
  Action Tid Choice PublishCall EnvAction

abbrev PublishLimits :=
  ThreadSystem.Limits Req Choice World Tid PublishCall Unit
    EnvAction

/- The state before any device has started. -/
def PublishState.initial : PublishState :=
  publishSystem.initial World.fresh

/- The runs in which every action is permitted. -/
abbrev PublishRun
    (permits : PublishState → PublishAction → Prop) :
    PublishState → PublishState → Prop :=
  publishSystem.Run permits

/- What a device promises about the result of a call. -/
abbrev PublishPost :=
  Tid → PublishCall → CoreResult Unit → World → Prop

/- What holds of every state of every permitted run. -/
abbrev PublishStateOk
    {clean : Prop}
    (host : Host clean)
    (L : PublishLimits)
    (Post : PublishPost)
    (s : PublishState) : Prop :=
  DeviceStateOk PublishCall.run PublishCall.journal host L Post
    s

/-
  The rule for devices that publish: it remains to prove
  each call, and that deliveries keep the host's invariant.
-/
theorem publishState_of_run
    {clean : Prop} {host : Host clean}
    {L : PublishLimits} {Post : PublishPost}
    {permits : PublishState → PublishAction → Prop}
    {s : PublishState}
    (hFresh : host.extra World.fresh)
    (hBody :
      ∀ t c w, Starting host t c.journal w →
        LogMeets (host.limit (L.Admits c)) t c.run ()
          (fun r _ w' => Post t c r w') w)
    (hDeliver :
      ∀ w w' ticket, HostInv host w →
        L.Env (.deliver ticket) w →
        w.deliver ticket = some w' → host.extra w')
    (hPermits : ∀ s a, permits s a → L.Permitted s a)
    (run : PublishRun permits .initial s) :
    PublishStateOk host L Post s :=
  deviceState_of_run hFresh hBody hDeliver hPermits run

------------------------------------------------------------
-- The Calls
------------------------------------------------------------

/-
  The host lets thread `t` run the call `c`: it may write
  entries as it likes and build what is no delete; for the
  rest it has to say what it is about first.
-/
structure Publishes
    {clean : Prop}
    (host : Host clean)
    (t : Tid)
    (c : PublishCall) : Prop where
  entries :
    ∀ w (write : Write Key Body) (entry : FileEntry),
      write.key = .tree entry.fileId →
      write.body = some (.entry entry) →
        Sendable host t w write
  records :
    ∀ w change (write : Write Key Body)
      (tombstone : Tombstone), change.cleanup = false →
      change.fileId ∈ change.removes → About t change w →
      write.key = .tombstone change.fileId →
      write.body = some (.tombstone tombstone) →
        Sendable host t w write
  removes :
    ∀ w change id, change.cleanup = false →
      About t change w → id ∈ change.removes →
        Sendable host t w (.delete (.tree id))
  retires :
    ∀ w change id etag, change.cleanup = false →
      About t change w →
        Sendable host t w (.deleteIfMatch (.tombstone id) etag)
  keeps :
    ∀ w op, op.opType ≠ .delete → host.stamps t op w
  deletes :
    c.deletes = true → c.journal = none →
      ∀ w change effects, Prepared t change w →
        Stampable host t w (some change.fileId) .delete effects
  publishes :
    c.deletes = true → ∀ j, c.journal = some j →
      ∀ w change effects, Prepared t change w →
        change.fileId = j.fileId →
          Publishable host t j .delete effects w

variable {clean : Prop} {host : Host clean} {t : Tid}
variable {c : PublishCall} {w : World}

namespace Publishes

variable {effects : Effects}

theorem stampable
    {targetFileId : Option FileId} {opType : OpType}
    (h : Publishes host t c)
    (hKept : opType ≠ .delete) :
    Stampable host t w targetFileId opType effects := by
  intro v v' w₁ w₂ w₃ start op preconditions _ _ _ _ hAttempt
  apply h.keeps
  rw [hAttempt.opType]
  exact hKept

theorem publishable
    {j : JournalId} {opType : OpType}
    (h : Publishes host t c)
    (hKept : opType ≠ .delete) :
    Publishable host t j opType effects w := by
  intro v start op preconditions w' _ _ _ hAttempt
  apply h.keeps
  rw [hAttempt.opType]
  exact hKept

theorem deletable
    {change : Change}
    (h : Publishes host t c)
    (hDeletes : c.deletes = true)
    (hJournal : c.journal = none)
    (hKept : change.cleanup = false)
    (hOwn : change.fileId ∈ change.removes) :
    Deletable host t w change effects where
  record := fun w₁ tombstone _ hAbout _ =>
    h.records w₁ change _ tombstone hKept hOwn hAbout rfl rfl
  stamps := fun w₁ _ hPrepared =>
    h.deletes hDeletes hJournal w₁ change effects hPrepared
  tree := fun id hId w₁ _ hAbout _ =>
    h.removes w₁ change id hKept hAbout hId

theorem projectable
    {j : JournalId} {id : FileId}
    {build : Option FileEntry → Option FileEntry}
    (h : Publishes host t c) :
    NotesIntake.Projectable host t j id build w := by
  intro d w₁ w₂ w₃ observed entry _ _ _ _ _ _ _
  exact h.entries w₃ _ entry (FileTree.versionWrite_key ..)
    (FileTree.versionWrite_body ..)

end Publishes

/- Every call can be run under such a host. -/
theorem publish_meets
    (hHolding : w.holding t = c.journal)
    (h : Publishes host t c) :
    LogMeets host t c.run () (fun _ _ _ => True) w := by
  cases c with
  | upload deviceId job current =>
      apply meets_bind
      apply upload_meets hHolding
      · intro w₀ v v' w₁ w₂ lookup revisionId op w₃ _ _ hAttempt
        apply h.keeps
        rw [hAttempt.opType]
        split <;> simp
      · exact fun w₁ entry _ => h.entries w₁ _ entry rfl rfl
      · intro r w' _ _
        cases r with
        | error e =>
            apply continues_error
            trivial
        | ok result =>
            apply continues_ok
            apply meets_pure
            exact fun _ _ _ => trivial
  | commit deviceId targetFileId opType effects fileExists
      parentExists kept =>
      apply commitSyncOperation_meets hHolding (h.stampable kept)
      exact fun _ _ _ _ _ => trivial
  | writeEntry entry =>
      apply FileTree.upsertEntry_meets
        (h.entries w _ entry rfl rfl)
      exact fun _ _ _ _ => trivial
  | placeFile deviceId entry moves placement =>
      apply commitFilePlacement_meets hHolding
      · apply h.stampable
        split <;> simp
      · exact fun w₁ entry _ => h.entries w₁ _ entry rfl rfl
      · exact fun _ _ _ _ => trivial
  | deleteFile deviceId entry remotePath =>
      apply deleteFile_meets hHolding
        (h.deletable rfl rfl rfl (List.mem_singleton_self _))
      exact fun _ _ _ _ => trivial
  | deleteFolder deviceId folder contents =>
      apply deleteFolder_meets hHolding
      · exact fun file hFile => h.deletable rfl rfl rfl
          (byPath_mem_folderDeletion hFile)
      · exact h.deletable rfl rfl rfl List.mem_cons_self
      · exact fun _ _ _ _ => trivial
  | createFolder deviceId intent =>
      apply NotesIntake.publishCreateFolder_meets hHolding
      · intro entry w₁ _ _
        apply h.publishable
        simp
      · exact fun _ _ _ => h.projectable
      · exact fun _ _ _ _ _ => trivial
  | place deviceId intent moves =>
      apply NotesIntake.publishPlacement_meets hHolding
      · intro entry w₁ _ _
        apply h.publishable
        split <;> simp
      · exact fun _ _ _ => h.projectable
      · exact fun _ _ _ _ _ => trivial
  | publishDelete deviceId intent followsRestore =>
      apply NotesIntake.publishDelete_meets hHolding
      · intro entry w₁ hRoot _ hAbout
        rcases NotesIntake.rootChange_mem hRoot with
          ⟨hEntry, hId⟩
        have hOwn :
            intent.fileId ∈
              (intent.deletion entry).removes := by
          rw [← hId]
          exact List.mem_map_of_mem hEntry
        exact ⟨fun tombstone _ => h.records w₁ _ _ tombstone
            rfl hOwn hAbout rfl rfl,
          fun tombstone _ _ => h.records w₁ _ _ tombstone rfl
            hOwn hAbout rfl rfl⟩
      · exact fun entry w₁ _ _ hPrepared =>
          h.publishes rfl _ rfl w₁ _ _ hPrepared rfl
      · intro entry _ d w₁ w₂ _ hAbout _ hLatest id hId
        have hLater := NotesIntake.Latest.others hLatest
        exact h.removes w₂ _ id rfl
          (hAbout.later hLater.toSteps) hId
      · exact fun _ _ _ _ => trivial
  | restore deviceId conditionalDelete intent =>
      apply NotesIntake.publishRestore_meets hHolding
      · refine ⟨?_, fun _ _ => h.projectable,
          fun _ _ _ => h.projectable, ?_⟩
        · intro root deletion w₁ _ _ _
          apply h.publishable
          simp
        · exact fun d deletion w₁ _ _ hAbout =>
            h.retires w₁ _ _ _ rfl hAbout
      · exact fun _ _ _ _ _ => trivial

end S4Drive

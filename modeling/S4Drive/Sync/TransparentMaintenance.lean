import S4Drive.Sync.RetirementReads

/-
  As long as the compactor removes no operation that a
  listed file needs to be judged as deleted, maintenance
  does not change which files the engine sees.

  Main declarations:
    * `maintenanceLimits`
    * `maintenance_is_transparent`
    * `compacted_delete_reappears`
-/

------------------------------------------------------------
-- Compaction and Pruning
------------------------------------------------------------

namespace S4Drive

open ObjectStore Concurrency

variable {l : Type}
variable {b b' : Bucket}

namespace DeviceWatermarks

theorem readWatermarks_transparent (keys : List Key) :
    Transparent
      (readWatermarks keys :
        CloudM l (List DeviceWatermark)) := by
  induction keys with
  | nil => exact .pure _
  | cons key rest ih =>
      cases key with
      | deviceWatermark deviceId =>
          apply Transparent.bind (.getObject _)
          intro data
          apply Transparent.bind (.ofExcept _)
          intro watermark
          exact .bind ih fun others => .pure _
      | _ => exact ih

theorem readRegistrations_transparent (keys : List Key) :
    Transparent
      (readRegistrations keys : CloudM l (List Device)) := by
  induction keys with
  | nil => exact .pure _
  | cons key rest ih =>
      cases key with
      | deviceRegistration deviceId =>
          apply Transparent.bind (.getObject _)
          intro data
          apply Transparent.bind (.ofExcept _)
          intro device
          exact .bind ih fun others => .pure _
      | _ => exact ih

theorem activeWatermarks_transparent (staleDays : Nat) :
    Transparent
      (activeWatermarks staleDays :
        CloudM l (List DeviceWatermark)) := by
  apply Transparent.bind (.listObjects _)
  intro keys
  apply Transparent.bind .now
  intro time
  apply Transparent.bind (readWatermarks_transparent keys)
  exact fun watermarks => .pure _

theorem activeRegisteredDeviceIds_transparent
    (staleDays : Nat) :
    Transparent
      (activeRegisteredDeviceIds staleDays :
        CloudM l (List DeviceId)) := by
  apply Transparent.bind (.listObjects _)
  intro keys
  apply Transparent.bind .now
  intro time
  apply Transparent.bind (readWatermarks_transparent keys)
  intro watermarks
  apply Transparent.bind (readRegistrations_transparent keys)
  exact fun devices => .pure _

end DeviceWatermarks

namespace OpLogCompactor

theorem readOperation_transparent (opId : OpId) :
    Transparent (readOperation opId : CloudM l Operation) :=
  .bind (.getObject _) fun _ => .ofExcept _

theorem readCursor_transparent :
    Transparent
      (readCursor :
        CloudM l (Option OpCompactionCursor)) := by
  apply Transparent.bind (.attempt (.getObject _))
  intro r
  split
  · exact .pure _
  · exact .pure _
  · exact .pure _
  · exact .throw _

theorem writeCursor_transparent
    (cursor : OpCompactionCursor) :
    Transparent (writeCursor cursor : CloudM l Unit) :=
  .bind (.write trivial) fun _ => .pure _

theorem initializeCursor_transparent
    (snapshot : SnapshotMetadata)
    (coveredHead : OpId) :
    Transparent
      (initializeCursor snapshot coveredHead :
        CloudM l OpCompactionCursor) := by
  apply Transparent.bind
    (.attempt (readOperation_transparent coveredHead))
  intro r
  split
  · exact .pure _
  · exact .pure _
  · exact .throw _

theorem loadOrInitializeCursor_transparent
    (snapshot : SnapshotMetadata)
    (coveredHead : OpId) :
    Transparent
      (loadOrInitializeCursor snapshot coveredHead :
        CloudM l OpCompactionCursor) := by
  apply Transparent.bind readCursor_transparent
  intro found
  split
  · split
    · exact .pure _
    · exact initializeCursor_transparent snapshot coveredHead
  · exact initializeCursor_transparent snapshot coveredHead

theorem compactableAncestors_transparent
    (cutoff : Int)
    (batchLimit : Nat)
    (cursor : Option OpId) :
    Transparent
      (compactableAncestors cutoff batchLimit cursor :
        CloudM l CompactableScan) := by
  induction batchLimit generalizing cursor with
  | zero => exact .pure _
  | succ batchLimit ih =>
      cases cursor with
      | none => exact .pure _
      | some opId =>
          apply Transparent.bind
            (.attempt (readOperation_transparent opId))
          intro r
          split
          · exact .pure _
          · exact .throw _
          · split
            · exact .pure _
            · exact .bind (ih _) fun rest => .pure _

theorem deleteOperations_transparent (opIds : List OpId) :
    Transparent (deleteOperations opIds : CloudM l Unit) := by
  induction opIds with
  | nil => exact .pure _
  | cons opId rest ih =>
      exact .bind (.deleteObject trivial) fun _ => ih

theorem deletePending_transparent
    (cursor : OpCompactionCursor)
    (report : OpCompactionReport) :
    Transparent
      (deletePending cursor report :
        CloudM l OpCompactionReport) := by
  apply Transparent.bind (deleteOperations_transparent _)
  intro _
  exact .bind (writeCursor_transparent _) fun _ => .pure _

theorem deleteBatch_transparent
    (cursor : OpCompactionCursor)
    (batchLimit retentionDays : Nat)
    (report : OpCompactionReport) :
    Transparent
      (deleteBatch cursor batchLimit retentionDays report :
        CloudM l OpCompactionReport) := by
  apply Transparent.bind .now
  intro time
  apply Transparent.bind
    (compactableAncestors_transparent _ _ _)
  intro scan
  dsimp only
  split
  · exact .bind (writeCursor_transparent _) fun _ => .pure _
  · apply Transparent.bind (writeCursor_transparent _)
    intro _
    apply Transparent.bind (deleteOperations_transparent _)
    intro _
    exact .bind (writeCursor_transparent _) fun _ => .pure _

theorem compactFrom_transparent
    (snapshot : SnapshotMetadata)
    (coveredHead : OpId)
    (batchLimit retentionDays : Nat)
    (report : OpCompactionReport) :
    Transparent
      (compactFrom snapshot coveredHead batchLimit
        retentionDays report :
          CloudM l OpCompactionReport) := by
  apply Transparent.bind
    (loadOrInitializeCursor_transparent snapshot coveredHead)
  intro cursor
  split
  · exact deletePending_transparent cursor report
  · split
    · exact .pure _
    · exact deleteBatch_transparent _ _ _ _

theorem compact_transparent
    (snapshot : SnapshotMetadata)
    (batchLimit staleDays retentionDays : Nat) :
    Transparent
      (compact snapshot batchLimit staleDays retentionDays :
        CloudM l OpCompactionReport) := by
  unfold compact
  split
  · exact .pure _
  · apply Transparent.bind
      (DeviceWatermarks.activeRegisteredDeviceIds_transparent
        staleDays)
    intro devices
    apply Transparent.bind
      (DeviceWatermarks.activeWatermarks_transparent staleDays)
    intro watermarks
    dsimp only
    split
    · exact .pure _
    · split
      · exact .pure _
      · split
        · exact .pure _
        · exact compactFrom_transparent _ _ _ _ _

end OpLogCompactor

namespace SnapshotManager

/- Only keys of snapshots have the number of a snapshot. -/
theorem isAside_of_mem_keysOf
    {keys : List Key} {seqNum : Nat} {key : Key}
    (hMem : key ∈ keysOf keys seqNum) : key.IsAside := by
  have hSeq := (List.mem_filter.mp hMem).2
  cases key with
  | snapshot _ => trivial
  | snapshotMetadata _ => trivial
  | _ => simp [snapshotSeq] at hSeq

theorem deleteKeys_transparent
    {keys : List Key}
    (hAside : ∀ key ∈ keys, key.IsAside) :
    Transparent (deleteKeys keys : CloudM l Unit) := by
  induction keys with
  | nil => exact .pure _
  | cons key rest ih =>
      have hKey := hAside key (List.mem_cons_self ..)
      have hPlain : Plain (.send (.delete key)) := by
        cases key with
        | op _ => trivial
        | _ => exact hKey
      apply Transparent.bind (.deleteObject hPlain)
      intro _
      apply ih
      exact fun k hk => hAside k (List.mem_cons_of_mem _ hk)

theorem pruneSnapshots_transparent (keepCount : Nat) :
    Transparent (pruneSnapshots keepCount : CloudM l Nat) := by
  apply Transparent.bind (.listObjects _)
  intro keys
  refine .bind (deleteKeys_transparent ?_) fun _ => .pure _
  intro key hKey
  rcases List.mem_flatMap.mp hKey with ⟨seqNum, _, hMem⟩
  exact isAside_of_mem_keysOf hMem

end SnapshotManager

/- The compactor removes no operation that hides a Delete. -/
def maintenanceLimits :
    ThreadSystem.Limits Req Choice Bucket Tid MaintenanceJob
      Unit Nat where
  Starts := fun _ _ _ _ => True
  Admits := fun _ _ r _ => MayDelete r
  Env := fun _ _ => True

theorem maintenanceJob_transparent (job : MaintenanceJob) :
    Transparent job.run := by
  cases job with
  | compact snapshot batchLimit staleDays retentionDays =>
      apply Transparent.bind
      · exact OpLogCompactor.compact_transparent _ _ _ _
      · exact fun _ => .pure _
  | retire fileId time =>
      apply Transparent.bind
      · exact collectExpiredTombstoneAt_transparent fileId time
      · exact fun _ => .pure _
  | prune keepCount =>
      apply Transparent.bind
      · exact SnapshotManager.pruneSnapshots_transparent _
      · exact fun _ => .pure _

theorem shrinks_of_objects
    (hSame : b'.objects = b.objects) : Shrinks b b' := by
  constructor
  · intro fileId
    rw [hSame]
  · exact fun _ => by rw [hSame]
  · rw [hSame]
  · exact fun _ => .inl (by rw [hSame])
  · exact fun _ => .inl (by rw [hSame])

theorem maintenanceSystem_verified :
    ThreadSystem.Verified maintenanceSystem
      maintenanceContract maintenanceLimits
      (fun _ _ _ => True) (fun _ _ _ _ _ => True) where
  stable := fun _ _ _ => trivial
  begin := by
    intro t job v b b' _ _ _ hBegin
    cases hBegin
    exact ⟨⟨trivial, fun _ _ => .refl b⟩,
      maintenanceJob_transparent job t v b⟩
  finish := fun _ _ =>
    ⟨⟨trivial, fun _ _ => .refl _⟩, trivial⟩
  halt := fun _ => ⟨⟨trivial, fun _ _ => .refl _⟩, trivial⟩
  env := by
    intro elapsed b b' _ _ hEnv
    cases hEnv
    exact ⟨trivial, fun _ => shrinks_of_objects rfl⟩

/-
  From whatever the devices have left in the bucket, no step
  of maintenance changes which files the engine sees, as
  long as the compactor removes no operation that the search
  of a listed file passes on its way to a Delete.
-/
theorem maintenance_is_transparent
    {b : Bucket}
    {s : MaintenanceState}
    (run :
      maintenanceSystem.Run maintenanceLimits.Permitted
        (maintenanceSystem.initial b) s)
    (fileId : FileId) :
    Visible s.world.objects fileId ↔
      Visible b.objects fileId := by
  have hStart :
      ThreadSystem.StateOk maintenanceSystem
        maintenanceContract maintenanceLimits
        (fun _ _ _ => True) (fun _ _ _ _ _ => True)
        (maintenanceSystem.initial b) :=
    ⟨trivial, fun _ => trivial⟩
  have hShrinks :=
    maintenanceSystem_verified.relates_run Shrinks.refl
      Shrinks.trans (fun _ _ _ hRely => hRely) someone_else
      hStart run
  exact hShrinks.visible fileId

------------------------------------------------------------
-- A Compacted Delete
------------------------------------------------------------

/- An operation of one device on a folder of the root. -/
def sampleOperation
    (n : Nat)
    (baseHead : Option OpId)
    (folderId : FileId)
    (opType : OpType) : Operation where
  opId := ⟨1, n, n⟩
  deviceId := 1
  actorId := "device"
  logicalClock := n
  baseHead := baseHead
  targetFileId := some folderId
  opType := opType
  preconditions := ⟨none, none, opType = .delete, true⟩
  effects := ⟨none, none, none, none, opType = .delete⟩
  timestamp := 0
  signature := none

def sampleFolder (folderId : FileId) : FileEntry where
  fileId := folderId
  parentId := none
  name := toString folderId
  entryType := .folder
  currentRevisionId := none
  contentRef := none
  size := 0
  contentHash := none
  mime := none
  updatedAt := 0
  deletedAt := none
  versionHistory := []

/- Folder 7 was created and deleted, then folder 8 created. -/
def deletedFolderObjects : List (Key × Body) :=
  [(.head, .head (some ⟨1, 3, 3⟩)),
    (.op ⟨1, 3, 3⟩,
      .operation
        (sampleOperation 3 (some ⟨1, 2, 2⟩) 8 .createFolder)),
    (.op ⟨1, 2, 2⟩,
      .operation
        (sampleOperation 2 (some ⟨1, 1, 1⟩) 7 .delete)),
    (.op ⟨1, 1, 1⟩,
      .operation (sampleOperation 1 none 7 .createFolder)),
    (.tree 8, .entry (sampleFolder 8)),
    (.tombstone 7,
      .tombstone ⟨7, "7", "7", "1", 0, days 90, [], true⟩),
    (.deviceRegistration 1, .device ⟨1, days 100⟩),
    (.deviceWatermark 1,
      .deviceWatermark
        ⟨1, days 100, 1, some ⟨1, 3, 3⟩, .active⟩)]

def bucketOf (objects : List (Key × Body)) : Bucket where
  objects := objects.foldr (fun x o => o.insert x.1 x.2) ∅
  now := days 100

/- The delete has reached the tree. -/
def appliedDelete : Bucket :=
  bucketOf deletedFolderObjects

/- The deletion from the tree failed, which is only logged. -/
def failedTreeDelete : Bucket :=
  bucketOf ((.tree 7, .entry (sampleFolder 7)) ::
    deletedFolderObjects)

abbrev MaintenanceStep :=
  Action Tid Choice MaintenanceJob Nat

/- Thread 1 sends a delete or puts the cursor. -/
def writeAnswered : List MaintenanceStep :=
  [.serve 1 .answer, .serve 1 (.reply true)]

/- Both operations below the snapshot's head are deleted. -/
def compactionRun : List MaintenanceStep :=
  [.call 1 (.compact ⟨1, some ⟨1, 3, 3⟩⟩ 10 90 15)] ++
    List.replicate 12 (.serve 1 .answer) ++
    writeAnswered ++ writeAnswered ++ writeAnswered ++
    writeAnswered ++ [.finish 1]

/-
  The delete was committed, but its entry is still in the
  tree. Once the log no longer has the Delete, the record is
  taken for that of a folder that was restored.
-/
theorem compacted_delete_reappears :
    ∃ s : MaintenanceState,
      maintenanceSystem.Run (fun _ _ => True)
          (maintenanceSystem.initial failedTreeDelete) s ∧
        ¬ Visible failedTreeDelete.objects 7 ∧
        Visible s.world.objects 7 := by
  have trace :
      (maintenanceSystem.exec
        (maintenanceSystem.initial failedTreeDelete)
        compactionRun).any
        (fun s => decide (Visible s.world.objects 7)) =
      true := by
    decide +kernel
  rcases ThreadSystem.Run.exists_of_execIf
      (fun _ _ _ => trivial) compactionRun trace with
    ⟨s, run, hTest⟩
  have hBefore : ¬ Visible failedTreeDelete.objects 7 := by
    decide +kernel
  exact ⟨s, run, hBefore, of_decide_eq_true hTest⟩

/- Then the record of folder 7 is retired. -/
def retirementRun : List MaintenanceStep :=
  [.call 1 (.retire 7 (days 100))] ++
    List.replicate 10 (.serve 1 .answer) ++
    writeAnswered ++ [.finish 1]

/- No entry of the tree has a deletion record. -/
def listsNoRecord (o : Objects Key Body) : Bool :=
  o.keys.all fun key =>
    match key with
    | .tree fileId => o.lookup (.tombstone fileId) = none
    | _ => true

theorem hidesNoDelete_of_listsNoRecord
    {o : Objects Key Body} {opId : OpId}
    (h : listsNoRecord o = true) : HidesNoDelete o opId := by
  rintro fileId ⟨entry, hEntry, _⟩ ⟨tombstone, hRecord⟩
  have hKey : Key.tree fileId ∈ o.keys := by
    rw [← AList.mem_keys, ← AList.lookup_isSome, hEntry]
    rfl
  have hNone := List.all_eq_true.mp h _ hKey
  simp [hRecord] at hNone

theorem permitted_of_listsNoRecord
    {s : MaintenanceState} {a : MaintenanceStep}
    (h : listsNoRecord s.world.objects = true) :
    maintenanceLimits.Permitted s a := by
  cases a with
  | serve t choice =>
      intro job v r cont _
      show MayDelete r s.world
      unfold MayDelete
      split
      · exact hidesNoDelete_of_listsNoRecord h
      · trivial
  | call t job => exact fun _ _ => trivial
  | env elapsed => trivial
  | finish t => trivial
  | halt t => trivial

/- Where the delete has reached the tree, nothing changes. -/
theorem applied_delete_is_compacted :
    ∃ s : MaintenanceState,
      maintenanceSystem.Run maintenanceLimits.Permitted
          (maintenanceSystem.initial appliedDelete) s ∧
        s.world.objects.lookup (.op ⟨1, 2, 2⟩) = none ∧
        s.world.objects.lookup (.tombstone 7) = none ∧
        ¬ Visible s.world.objects 7 ∧
        Visible s.world.objects 8 := by
  have trace :
      (maintenanceSystem.execIf
        (fun s _ => listsNoRecord s.world.objects)
        (maintenanceSystem.initial appliedDelete)
        (compactionRun ++ retirementRun)).any
        (fun s =>
          decide
            (s.world.objects.lookup (.op ⟨1, 2, 2⟩) = none) &&
          decide
            (s.world.objects.lookup (.tombstone 7) = none)) =
      true := by
    decide +kernel
  rcases ThreadSystem.Run.exists_of_execIf
      (fun _ _ h => permitted_of_listsNoRecord h)
      (compactionRun ++ retirementRun) trace with
    ⟨s, run, hTest⟩
  simp only [Bool.and_eq_true, decide_eq_true_eq] at hTest
  have hDeleted : ¬ Visible appliedDelete.objects 7 := by
    decide +kernel
  have hKept : Visible appliedDelete.objects 8 := by
    decide +kernel
  refine ⟨s, run, hTest.1, hTest.2, ?_, ?_⟩
  · rwa [maintenance_is_transparent run 7]
  · rwa [maintenance_is_transparent run 8]

end S4Drive

import Mathlib.Algebra.Order.BigOperators.Group.List
import Mathlib.Algebra.Order.Ring.Nat
import S4Drive.Watch.EventCycle

/-
  Deletes inside deleted folders, which the cycle drops from
  a batch. A run of the filtered batch goes along with one of
  the whole batch: an entry that only the latter has marked
  waits until the delete of the folder around it marks it
  too. Both mark the same entries iff none is left waiting.

  Main declarations:
    * `marks`, `waitingAfter`, `RenamesApart`
    * `Related`
    * `filtered_batch_marks_same_iff`
-/

------------------------------------------------------------
-- What a Delete Marks
------------------------------------------------------------

open FileTree

namespace S4Drive

namespace EventCycle

open Recovery (Path Bytes)
open RemoteChanges (ObjectRow SyncDevice)
open Watch (FsEvent)

variable (ctx : CycleContext)

def asDeleted (row : ObjectRow) : ObjectRow :=
  { row with state := .deletedLocally }

/- Does a delete at the path mark the row? -/
def marks
    (d : SyncDevice)
    (path : Path)
    (row : ObjectRow) : Bool :=
  !leftAlone ctx d path &&
    match d.fileSnapshotAt path with
    | some file =>
        !file.state.isDeleted && row.fileId = file.fileId
    | none =>
        match folderAt d path with
        | some folder =>
            row.isLive && row.atOrUnder folder.localPath
        | none =>
            row.isLive && !row.isFolder && row.under path

/- Ids are unique, and a folder's key is its path. -/
structure IndexSound (d : SyncDevice) : Prop where
  ids : (d.objects.map ObjectRow.fileId).Nodup
  keys :
    ∀ row ∈ d.objects, row.isLiveFolder = true →
      row.s3Key = row.localPath

variable {ctx} {d u f : SyncDevice}
variable {path : Path} {row : ObjectRow}

theorem IndexSound.eq_of_id
    {other : ObjectRow}
    (hSound : IndexSound d)
    (hRow : row ∈ d.objects)
    (hOther : other ∈ d.objects)
    (hId : row.fileId = other.fileId) :
    row = other :=
  List.inj_on_of_nodup_map hSound.ids hRow hOther hId

theorem deleteFiles_objects
    (rows : List ObjectRow)
    (d : SyncDevice) :
    (rows.foldl deleteFile d).objects =
        d.objects.map (fun row =>
          if row.fileId ∈ rows.map ObjectRow.fileId then
            asDeleted row
          else
            row) ∧
      (rows.foldl deleteFile d).disk = d.disk := by
  induction rows generalizing d with
  | nil => simp
  | cons first rest ih =>
      obtain ⟨hObjects, hDisk⟩ := ih (deleteFile d first)
      refine ⟨?_, hDisk⟩
      rw [List.foldl_cons, hObjects]
      simp only [deleteFile, SyncDevice.markFileDeleted,
        SyncDevice.setState, SyncDevice.mapRows, List.map_map]
      refine List.map_congr_left fun row _ => ?_
      by_cases hFirst : row.fileId = first.fileId
      · simp [hFirst, asDeleted]
      · simp [hFirst]

theorem mem_sortedByPath
    {rows : List ObjectRow} :
    row ∈ SyncDevice.sortedByPath rows ↔ row ∈ rows := by
  simp [SyncDevice.sortedByPath]

theorem mem_liveFilesUnder :
    row ∈ d.liveFilesUnder path ↔
      row ∈ d.objects ∧ row.under path = true ∧
        row.isFolder = false ∧ row.isLive = true := by
  simp [SyncDevice.liveFilesUnder, mem_sortedByPath, and_assoc]

theorem deleteFolder_objects
    (hSound : IndexSound d)
    (folder : ObjectRow) :
    (deleteFolder d folder).objects =
        d.objects.map (fun row =>
          if row.isLive && row.atOrUnder folder.localPath then
            asDeleted row
          else
            row) ∧
      (deleteFolder d folder).disk = d.disk := by
  obtain ⟨hObjects, hDisk⟩ := deleteFiles_objects
    ((d.liveFilesUnder folder.localPath).filter isPlacedByPath) d
  refine ⟨?_, hDisk⟩
  simp only [deleteFolder, SyncDevice.markSubtreeDeleted,
    SyncDevice.markDeletedWhere, SyncDevice.mapRows,
    SyncDevice.mapTransfers, hObjects, List.map_map,
    Bool.and_true]
  refine List.map_congr_left fun row hRow => ?_
  by_cases hByPath :
      row.fileId ∈
        ((d.liveFilesUnder folder.localPath).filter
          isPlacedByPath).map ObjectRow.fileId
  · obtain ⟨other, hOther, hId⟩ := List.mem_map.mp hByPath
    obtain ⟨hIn, hUnder, _, hLive⟩ :=
      mem_liveFilesUnder.mp (List.mem_filter.mp hOther).1
    have hSame := hSound.eq_of_id hIn hRow hId
    subst hSame
    have hAt : other.atOrUnder folder.localPath = true := by
      simp only [ObjectRow.under, Bool.and_eq_true] at hUnder
      exact hUnder.1
    have hGone :
        ObjectRow.isLive (asDeleted other) = false := rfl
    simp [hByPath, hLive, hAt, hGone]
  · simp only [Function.comp_apply, hByPath, if_false]
    rw [Bool.and_comm]
    rfl

/- A delete marks these rows and changes nothing else. -/
theorem deleted_objects
    (ctx : CycleContext)
    (hSound : IndexSound d)
    (path : Path) :
    (deleted ctx d path).objects =
        d.objects.map (fun row =>
          if marks ctx d path row then asDeleted row else row) ∧
      (deleted ctx d path).disk = d.disk := by
  by_cases hAlone : leftAlone ctx d path = true
  · simp [deleted, marks, hAlone]
  · rw [deleted, if_neg hAlone]
    have hAct : leftAlone ctx d path = false := by
      simpa using hAlone
    cases hFile : d.fileSnapshotAt path with
    | some file =>
        by_cases hDeleted : file.state.isDeleted = true
        · simp [marks, hFile, hDeleted]
        · simp only [marks, hFile, hAct, hDeleted]
          refine ⟨?_, rfl⟩
          simp [deleteFile, SyncDevice.markFileDeleted,
            SyncDevice.setState, SyncDevice.mapRows, asDeleted]
    | none =>
        cases hFolder : folderAt d path with
        | some folder =>
            simpa [marks, hFile, hFolder, hAct]
              using deleteFolder_objects hSound folder
        | none =>
            obtain ⟨hObjects, hDisk⟩ :=
              deleteFiles_objects (d.liveFilesUnder path) d
            refine ⟨?_, hDisk⟩
            simp only [hObjects, marks, hFile, hFolder, hAct]
            refine List.map_congr_left fun row hRow => ?_
            have hIff :
                row.fileId ∈
                    (d.liveFilesUnder path).map
                      ObjectRow.fileId ↔
                  row ∈ d.liveFilesUnder path := by
              constructor
              · intro hIn
                obtain ⟨other, hOther, hId⟩ :=
                  List.mem_map.mp hIn
                have hSame := hSound.eq_of_id
                  (mem_liveFilesUnder.mp hOther).1 hRow hId
                exact hSame ▸ hOther
              · exact List.mem_map_of_mem
            have hMarks :
                row ∈ d.liveFilesUnder path ↔
                  (!false && (row.isLive && !row.isFolder &&
                    row.under path)) = true := by
              rw [mem_liveFilesUnder]
              simp only [hRow, true_and, Bool.not_false,
                Bool.true_and, Bool.and_eq_true,
                Bool.not_eq_true']
              tauto
            simp only [hIff, hMarks]

------------------------------------------------------------
-- Entries that Wait
------------------------------------------------------------

/- In the run of the whole batch, these rows are deleted. -/
def mark (waiting : List ObjectRow) (row : ObjectRow) : ObjectRow :=
  if row.fileId ∈ waiting.map ObjectRow.fileId then
    asDeleted row
  else
    row

variable {paths : List Path} {waiting : List ObjectRow}

@[simp] theorem mark_fileId
    (row : ObjectRow) :
    (mark waiting row).fileId = row.fileId := by
  rw [mark]
  split <;> rfl

/-
  `u` is the device of the whole batch and `f` the one of the
  filtered batch. What waits is still in the index of `f`; it
  is gone from the disk, below a path whose delete is in the
  batch.
-/
structure Related
    (paths : List Path)
    (waiting : List ObjectRow)
    (u f : SyncDevice) : Prop where
  disk : u.disk = f.disk
  objects : u.objects = f.objects.map (mark waiting)
  sound : IndexSound f
  rooted : f.disk.Rooted
  kept : ∀ w ∈ waiting, w ∈ f.objects
  alive : ∀ w ∈ waiting, w.state.isDeleted = false
  gone :
    ∀ w ∈ waiting,
      w.localPath ≠ [] ∧ f.disk.nodeAt w.localPath = none
  inside : ∀ w ∈ waiting, isInside paths w.localPath = true

namespace Related

theorem mem_of_id
    (h : Related paths waiting u f)
    (hRow : row ∈ f.objects)
    (hId : row.fileId ∈ waiting.map ObjectRow.fileId) :
    row ∈ waiting := by
  obtain ⟨w, hWaits, hSame⟩ := List.mem_map.mp hId
  exact h.sound.eq_of_id (h.kept w hWaits) hRow hSame ▸ hWaits

theorem mark_of_mem
    (hWaits : row ∈ waiting) :
    mark waiting row = asDeleted row :=
  if_pos (List.mem_map_of_mem hWaits)

theorem mark_of_not
    (hNot : row.fileId ∉ waiting.map ObjectRow.fileId) :
    mark waiting row = row :=
  if_neg hNot

theorem ids_eq
    (h : Related paths waiting u f) :
    u.objects.map ObjectRow.fileId =
      f.objects.map ObjectRow.fileId := by
  rw [h.objects, List.map_map]
  exact List.map_congr_left fun row _ => mark_fileId row

theorem mark_cases
    (h : Related paths waiting u f)
    (hRow : row ∈ f.objects) :
    row ∈ waiting ∧ mark waiting row = asDeleted row ∨
      row.fileId ∉ waiting.map ObjectRow.fileId ∧
        mark waiting row = row := by
  by_cases hId : row.fileId ∈ waiting.map ObjectRow.fileId
  · have hWaits := h.mem_of_id hRow hId
    exact Or.inl ⟨hWaits, mark_of_mem hWaits⟩
  · exact Or.inr ⟨hId, mark_of_not hId⟩

theorem sound_left
    (h : Related paths waiting u f) :
    IndexSound u where
  ids := by
    rw [h.ids_eq]
    exact h.sound.ids
  keys := by
    intro row hRow hFolder
    rw [h.objects] at hRow
    obtain ⟨old, hOld, rfl⟩ := List.mem_map.mp hRow
    rcases h.mark_cases hOld with ⟨_, hMark⟩ | ⟨_, hMark⟩
    · rw [hMark] at hFolder
      simp [asDeleted, ObjectRow.isLiveFolder,
        ObjectRow.isLive] at hFolder
    · rw [hMark] at hFolder ⊢
      exact h.sound.keys old hOld hFolder

/- A read that what waits does not answer is the same. -/
theorem filter_objects
    (h : Related paths waiting u f)
    (test : ObjectRow → Bool)
    (hTest :
      ∀ w ∈ waiting,
        test w = false ∧ test (asDeleted w) = false) :
    u.objects.filter test = f.objects.filter test := by
  have hSame :
      ∀ row ∈ f.objects,
        test (mark waiting row) = test row := by
    intro row hRow
    rcases h.mark_cases hRow with ⟨hWaits, hMark⟩ | ⟨_, hMark⟩
    · rw [hMark, (hTest row hWaits).1, (hTest row hWaits).2]
    · rw [hMark]
  rw [h.objects, List.filter_map]
  have hFilter :
      f.objects.filter (test ∘ mark waiting) =
        f.objects.filter test :=
    List.filter_congr hSame
  rw [hFilter]
  refine (List.map_congr_left fun row hRow => ?_).trans
    (List.map_id _)
  obtain ⟨hIn, hPasses⟩ := List.mem_filter.mp hRow
  rcases h.mark_cases hIn with ⟨hWaits, _⟩ | ⟨_, hMark⟩
  · rw [(hTest row hWaits).1] at hPasses
    contradiction
  · exact hMark

theorem find_objects
    (h : Related paths waiting u f)
    (test : ObjectRow → Bool)
    (hTest :
      ∀ w ∈ waiting,
        test w = false ∧ test (asDeleted w) = false) :
    u.objects.find? test = f.objects.find? test := by
  rw [← List.head?_filter, h.filter_objects test hTest,
    List.head?_filter]

theorem fileSnapshotAt_eq
    (h : Related paths waiting u f)
    (hClear : ∀ w ∈ waiting, w.localPath ≠ path) :
    u.fileSnapshotAt path = f.fileSnapshotAt path := by
  have hRows := h.filter_objects
    (fun row => row.localPath = path && !row.isFolder)
    fun w hWaits => by
      simp [asDeleted, hClear w hWaits]
  simp only [SyncDevice.fileSnapshotAt, hRows]

theorem folderAt_eq
    (h : Related paths waiting u f)
    (hClear : ∀ w ∈ waiting, w.localPath ≠ path) :
    folderAt u path = folderAt f path := by
  have hRow := h.find_objects
    (fun row => row.s3Key = path && row.isLiveFolder)
    fun w hWaits => by
      constructor
      · by_cases hFolder : w.isLiveFolder = true
        · have hKey :=
            h.sound.keys w (h.kept w hWaits) hFolder
          simp [hKey, hClear w hWaits]
        · simp [hFolder]
      · simp [asDeleted, ObjectRow.isLiveFolder,
          ObjectRow.isLive]
  simp only [folderAt, hRow]

theorem liveFilesUnder_eq
    (h : Related paths waiting u f)
    (hClear : ∀ w ∈ waiting, ¬ path <+: w.localPath) :
    u.liveFilesUnder path = f.liveFilesUnder path := by
  have hRows := h.filter_objects
    (fun row =>
      row.under path && !row.isFolder && row.isLive)
    fun w hWaits => by
      have hUnder : path.isPrefixOf w.localPath = false := by
        simpa [← List.isPrefixOf_iff_prefix]
          using hClear w hWaits
      simp [asDeleted, ObjectRow.under, ObjectRow.atOrUnder,
        hUnder]
  simp only [SyncDevice.liveFilesUnder, hRows]

/- What waits is not above what is on the disk. -/
theorem not_above
    (h : Related paths waiting u f)
    (hPresent : path = [] ∨ f.disk.nodeAt path ≠ none) :
    ∀ w ∈ waiting, ¬ w.localPath <+: path := by
  intro w hWaits hAbove
  obtain ⟨hSome, hNone⟩ := h.gone w hWaits
  cases hPresent with
  | inl hRoot =>
      rw [hRoot] at hAbove
      exact hSome (List.prefix_nil.mp hAbove)
  | inr hThere =>
      exact hThere
        (h.rooted.nothing_inside hSome hNone hAbove)

/- A write to rows that do not wait. -/
theorem mapRows
    {test : ObjectRow → Bool}
    {change : ObjectRow → ObjectRow}
    (h : Related paths waiting u f)
    (hTest :
      ∀ w ∈ waiting,
        test w = false ∧ test (asDeleted w) = false)
    (hId : ∀ row, (change row).fileId = row.fileId)
    (hKeys :
      ∀ row ∈ f.objects, test row = true →
        (change row).isLiveFolder = true →
          (change row).s3Key = (change row).localPath) :
    Related paths waiting (u.mapRows test change)
      (f.mapRows test change) where
  disk := h.disk
  rooted := h.rooted
  alive := h.alive
  gone := h.gone
  inside := h.inside
  objects := by
    simp only [SyncDevice.mapRows, h.objects, List.map_map]
    refine List.map_congr_left fun row hRow => ?_
    rcases h.mark_cases hRow with
      ⟨hWaits, hMark⟩ | ⟨hNot, hMark⟩
    · simp [hMark, (hTest row hWaits).1, (hTest row hWaits).2]
    · by_cases hPasses : test row = true
      · have hOther :
            (change row).fileId ∉
              waiting.map ObjectRow.fileId := by
          rw [hId]
          exact hNot
        simp [hMark, hPasses, mark_of_not hOther]
      · simp [hMark, hPasses]
  sound :=
    { ids := by
        have hSame :
            (f.mapRows test change).objects.map
                ObjectRow.fileId =
              f.objects.map ObjectRow.fileId := by
          simp only [SyncDevice.mapRows, List.map_map]
          refine List.map_congr_left fun row _ => ?_
          simp only [Function.comp_apply]
          split
          · exact hId row
          · rfl
        rw [hSame]
        exact h.sound.ids
      keys := by
        intro row hRow hFolder
        obtain ⟨old, hOld, hNew⟩ := List.mem_map.mp hRow
        by_cases hPasses : test old = true
        · rw [if_pos hPasses] at hNew
          subst hNew
          exact hKeys old hOld hPasses hFolder
        · rw [if_neg hPasses] at hNew
          subst hNew
          exact h.sound.keys old hOld hFolder }
  kept := by
    intro w hWaits
    refine List.mem_map.mpr ⟨w, h.kept w hWaits, ?_⟩
    simp [(hTest w hWaits).1]

theorem putRow
    (h : Related paths waiting u f)
    (hNot : row.fileId ∉ waiting.map ObjectRow.fileId)
    (hKey : row.isLiveFolder = true → row.s3Key = row.localPath) :
    Related paths waiting (u.putRow row) (f.putRow row) where
  disk := h.disk
  rooted := h.rooted
  alive := h.alive
  gone := h.gone
  inside := h.inside
  objects := by
    have hFile :
        u.fileAt row.localPath = f.fileAt row.localPath := by
      simp [SyncDevice.fileAt, h.disk]
    have hOthers :
        (f.objects.map (mark waiting)).filter
            (fun old => old.fileId ≠ row.fileId) =
          (f.objects.filter fun old =>
            old.fileId ≠ row.fileId).map (mark waiting) := by
      rw [List.filter_map]
      refine congrArg _ (List.filter_congr fun old _ => ?_)
      simp
    simp only [SyncDevice.putRow, h.objects, hOthers, hFile,
      List.map_cons]
    congr 1
    rw [mark, if_neg]
    exact hNot
  sound :=
    { ids := by
        simp only [SyncDevice.putRow, List.map_cons,
          List.nodup_cons]
        constructor
        · simp
        · exact h.sound.ids.sublist
            (List.filter_sublist.map ObjectRow.fileId)
      keys := by
        intro other hOther hFolder
        rcases List.mem_cons.mp hOther with hNew | hOld
        · subst hNew
          exact hKey hFolder
        · exact h.sound.keys other
            (List.mem_of_mem_filter hOld) hFolder }
  kept := by
    intro w hWaits
    refine List.mem_cons_of_mem _ (List.mem_filter.mpr
      ⟨h.kept w hWaits, ?_⟩)
    have hOther : w.fileId ≠ row.fileId := fun hSame =>
      hNot (hSame ▸ List.mem_map_of_mem hWaits)
    simpa using hOther

/- The queue of transfers does not matter. -/
theorem mapTransfers
    (test test' : RemoteChanges.TransferRow → Bool)
    (change change' :
      RemoteChanges.TransferRow → RemoteChanges.TransferRow)
    (h : Related paths waiting u f) :
    Related paths waiting (u.mapTransfers test change)
      (f.mapTransfers test' change') :=
  { h with sound := ⟨h.sound.ids, h.sound.keys⟩ }

end Related

variable {folder : ObjectRow}

theorem folderAt_some
    (hFolder : folderAt d path = some folder) :
    folder ∈ d.objects ∧ folder.s3Key = path ∧
      folder.isLiveFolder = true := by
  rw [folderAt] at hFolder
  split at hFolder
  · contradiction
  · have hTest := List.find?_some hFolder
    simp only [Bool.and_eq_true, decide_eq_true_eq] at hTest
    exact ⟨List.mem_of_find?_eq_some hFolder, hTest⟩

theorem fileSnapshotAt_some
    {file : ObjectRow}
    (hFile : d.fileSnapshotAt path = some file) :
    file ∈ d.objects ∧ file.localPath = path ∧
      file.isFolder = false := by
  have hIn :
      file ∈ d.objects.filter fun row =>
        row.localPath = path && !row.isFolder := by
    rw [SyncDevice.fileSnapshotAt] at hFile
    rcases Option.or_eq_some_iff.mp hFile with hLive | hFirst
    · exact List.mem_of_find?_eq_some hLive
    · exact List.mem_of_head? hFirst.2
  simpa [and_assoc] using List.mem_filter.mp hIn

variable {id : FileId}

namespace Related

variable (ctx)

theorem not_waiting
    (h : Related paths waiting u f)
    (hRow : row ∈ f.objects)
    (hClear : ∀ w ∈ waiting, w.localPath ≠ row.localPath) :
    row.fileId ∉ waiting.map ObjectRow.fileId := by
  intro hId
  exact hClear row (h.mem_of_id hRow hId) rfl

theorem byId_false
    (hNot : id ∉ waiting.map ObjectRow.fileId) :
    ∀ w ∈ waiting,
      decide (w.fileId = id) = false ∧
        decide ((asDeleted w).fileId = id) = false := by
  intro w hWaits
  have hOther : w.fileId ≠ id := fun hSame =>
    hNot (hSame ▸ List.mem_map_of_mem hWaits)
  have hDeleted : (asDeleted w).fileId ≠ id := hOther
  exact ⟨by simpa using hOther, by simpa using hDeleted⟩

theorem markFileSynced
    (h : Related paths waiting u f)
    (hNot : folder.fileId ∉ waiting.map ObjectRow.fileId)
    (hIn : folder ∈ f.objects)
    (hFolder : folder.isLiveFolder = true) :
    Related paths waiting (u.markFileSynced folder.fileId)
      (f.markFileSynced folder.fileId) := by
  refine h.mapRows (byId_false hNot) (fun _ => rfl) ?_
  intro row hRow hId _
  have hSame :=
    h.sound.eq_of_id hRow hIn (of_decide_eq_true hId)
  rw [hSame]
  exact h.sound.keys folder hIn hFolder

theorem ensureOne
    (h : Related paths waiting u f)
    (hClear : ∀ w ∈ waiting, w.localPath ≠ path)
    (parentId : Option FileId) :
    Related paths waiting
        (EventCycle.ensureOne ctx (u, parentId) path).1
        (EventCycle.ensureOne ctx (f, parentId) path).1 ∧
      (EventCycle.ensureOne ctx (u, parentId) path).2 =
        (EventCycle.ensureOne ctx (f, parentId) path).2 := by
  simp only [EventCycle.ensureOne, h.folderAt_eq hClear]
  cases hFolder : folderAt f path with
  | some folder =>
      obtain ⟨hIn, hKey, hLive⟩ := folderAt_some hFolder
      have hPath := h.sound.keys folder hIn hLive
      have hNot := h.not_waiting hIn (by
        rw [← hPath, hKey]
        exact hClear)
      refine ⟨?_, rfl⟩
      by_cases hReserved : folder.state = .pendingUpload
      · simpa [hReserved] using h.markFileSynced hNot hIn hLive
      · simpa [hReserved] using h
  | none =>
      have hNew :=
        ctx.newIdIsNew (f.objects.map ObjectRow.fileId) path
      refine ⟨?_, by simp only [h.ids_eq]⟩
      simp only [h.ids_eq]
      refine h.putRow ?_ fun _ => rfl
      intro hId
      obtain ⟨w, hWaits, hSame⟩ := List.mem_map.mp hId
      have hTaken := List.mem_map_of_mem (f := ObjectRow.fileId)
        (h.kept w hWaits)
      rw [hSame] at hTaken
      exact hNew hTaken

theorem ensureEach
    (folders : List Path)
    (h : Related paths waiting u f)
    (hClear :
      ∀ path ∈ folders, ∀ w ∈ waiting, w.localPath ≠ path)
    (parentId : Option FileId) :
    Related paths waiting
        (folders.foldl (EventCycle.ensureOne ctx)
          (u, parentId)).1
        (folders.foldl (EventCycle.ensureOne ctx)
          (f, parentId)).1 ∧
      (folders.foldl (EventCycle.ensureOne ctx)
          (u, parentId)).2 =
        (folders.foldl (EventCycle.ensureOne ctx)
          (f, parentId)).2 := by
  induction folders generalizing u f parentId with
  | nil => exact ⟨h, rfl⟩
  | cons first rest ih =>
      obtain ⟨hStep, hId⟩ := h.ensureOne ctx
        (hClear first List.mem_cons_self) parentId
      have hLeft :
          EventCycle.ensureOne ctx (u, parentId) first =
            ((EventCycle.ensureOne ctx (u, parentId) first).1,
              (EventCycle.ensureOne ctx
                (f, parentId) first).2) :=
        Prod.ext rfl hId
      rw [List.foldl_cons, List.foldl_cons, hLeft]
      exact ih hStep
        (fun path hPath =>
          hClear path (List.mem_cons_of_mem first hPath)) _

theorem ensureFolder
    (h : Related paths waiting u f)
    (hClear : ∀ w ∈ waiting, ¬ w.localPath <+: path) :
    Related paths waiting (EventCycle.ensureFolder ctx u path).1
        (EventCycle.ensureFolder ctx f path).1 ∧
      (EventCycle.ensureFolder ctx u path).2 =
        (EventCycle.ensureFolder ctx f path).2 := by
  refine h.ensureEach ctx _ ?_ none
  intro above hAbove w hWaits hSame
  have hOn : above <+: path :=
    (List.mem_inits above path).mp (List.mem_of_mem_tail hAbove)
  exact hClear w hWaits (hSame ▸ hOn)

theorem createdFolder
    (h : Related paths waiting u f)
    (hClear : ∀ w ∈ waiting, ¬ w.localPath <+: path) :
    Related paths waiting (EventCycle.createdFolder ctx u path)
      (EventCycle.createdFolder ctx f path) :=
  (h.ensureFolder ctx hClear).1

------------------------------------------------------------
-- Renames
------------------------------------------------------------

theorem setParent
    (h : Related paths waiting u f)
    (hNot : id ∉ waiting.map ObjectRow.fileId)
    (parentId : Option FileId) :
    Related paths waiting (u.setParent id parentId)
      (f.setParent id parentId) :=
  h.mapRows (byId_false hNot) (fun _ => rfl)
    fun row hRow _ hFolder => h.sound.keys row hRow hFolder

theorem updateLocalPath
    (h : Related paths waiting u f)
    (hNot : id ∉ waiting.map ObjectRow.fileId)
    (path : Path) :
    Related paths waiting (u.updateLocalPath id path path)
      (f.updateLocalPath id path path) :=
  h.mapRows (byId_false hNot) (fun _ => rfl) fun _ _ _ _ => rfl

theorem renameFile
    {target : Path}
    (h : Related paths waiting u f)
    (hNot : row.fileId ∉ waiting.map ObjectRow.fileId)
    (hClear : ∀ w ∈ waiting, ¬ w.localPath <+: target.dropLast) :
    Related paths waiting (EventCycle.renameFile ctx u row target)
      (EventCycle.renameFile ctx f row target) := by
  obtain ⟨hFolder, hId⟩ := h.ensureFolder ctx hClear
  simp only [EventCycle.renameFile, hId]
  refine setParent ?_ hNot _
  exact mapTransfers _ _ _ _
    (hFolder.updateLocalPath hNot target)

theorem attachFile
    (h : Related paths waiting u f)
    (hNot : row.fileId ∉ waiting.map ObjectRow.fileId)
    (hClear :
      ∀ w ∈ waiting, ¬ w.localPath <+: row.localPath.dropLast) :
    Related paths waiting (EventCycle.attachFile ctx u row)
      (EventCycle.attachFile ctx f row) := by
  obtain ⟨hFolder, hId⟩ := h.ensureFolder ctx hClear
  simp only [EventCycle.attachFile, hId]
  exact hFolder.setParent hNot _

theorem attachFiles
    (rows : List ObjectRow)
    (h : Related paths waiting u f)
    (hRows :
      ∀ row ∈ rows,
        row.fileId ∉ waiting.map ObjectRow.fileId ∧
          ∀ w ∈ waiting,
            ¬ w.localPath <+: row.localPath.dropLast) :
    Related paths waiting
      (rows.foldl (EventCycle.attachFile ctx) u)
      (rows.foldl (EventCycle.attachFile ctx) f) := by
  induction rows generalizing u f with
  | nil => exact h
  | cons first rest ih =>
      have hFirst := hRows first List.mem_cons_self
      exact ih (h.attachFile ctx hFirst.1 hFirst.2) fun row hRow =>
        hRows row (List.mem_cons_of_mem first hRow)

/- Rows that move to a place and take their key along. -/
theorem moveSubtree
    {source : Path}
    (h : Related paths waiting u f)
    (hClear : ∀ w ∈ waiting, ¬ source <+: w.localPath)
    (target : Path) :
    Related paths waiting
      (u.moveSubtree source target source target)
      (f.moveSubtree source target source target) := by
  refine mapTransfers _ _ _ _
    (h.mapRows ?_ (fun _ => rfl) ?_)
  · intro w hWaits
    have hOutside : source.isPrefixOf w.localPath = false := by
      simpa [← List.isPrefixOf_iff_prefix]
        using hClear w hWaits
    have hDeleted : (asDeleted w).state.isDeleted = true := rfl
    simp [ObjectRow.atOrUnder, hOutside, hDeleted]
  · intro row hRow _ hFolder
    have hKey := h.sound.keys row hRow hFolder
    simp only [hKey]

end Related

/- A rename that has nothing to do with what waits. -/
def Apart
    (waiting : List ObjectRow)
    (source target : Path) : Prop :=
  ∀ w ∈ waiting,
    ¬ source <+: w.localPath ∧ ¬ w.localPath <+: source ∧
      ¬ w.localPath <+: target.dropLast

instance
    (waiting : List ObjectRow)
    (source target : Path) :
    Decidable (Apart waiting source target) :=
  inferInstanceAs (Decidable (∀ _ ∈ _, _))

namespace Related

variable (ctx)

theorem renameFolder
    {target : Path}
    (h : Related paths waiting u f)
    (hIn : folder ∈ f.objects)
    (hFolder : folder.isLiveFolder = true)
    (hApart : Apart waiting folder.localPath target) :
    Related paths waiting
      (EventCycle.renameFolder ctx u folder target)
      (EventCycle.renameFolder ctx f folder target) := by
  have hKey := h.sound.keys folder hIn hFolder
  have hNot := h.not_waiting hIn fun w hWaits hSame =>
    (hApart w hWaits).1 (hSame ▸ List.prefix_rfl)
  have hFiles :=
    h.liveFilesUnder_eq fun w hWaits => (hApart w hWaits).1
  have hAttached :=
    h.attachFiles ctx
      ((f.liveFilesUnder folder.localPath).filter
        isPlacedByPath)
      (by
        intro file hFile
        obtain ⟨hRow, hUnder, _, _⟩ :=
          mem_liveFilesUnder.mp (List.mem_of_mem_filter hFile)
        have hInside : folder.localPath <+: file.localPath := by
          simp only [ObjectRow.under, ObjectRow.atOrUnder,
            Bool.and_eq_true] at hUnder
          exact List.isPrefixOf_iff_prefix.mp hUnder.1
        constructor
        · exact h.not_waiting hRow fun w hWaits hSame =>
            (hApart w hWaits).1 (hSame ▸ hInside)
        · intro w hWaits hAbove
          have hOn := hAbove.trans (List.dropLast_prefix _)
          rcases List.prefix_or_prefix_of_prefix hInside hOn with
            hDown | hUp
          · exact (hApart w hWaits).1 hDown
          · exact (hApart w hWaits).2.1 hUp)
  obtain ⟨hEnsured, hId⟩ :=
    hAttached.ensureFolder ctx fun w hWaits =>
      (hApart w hWaits).2.2
  simp only [EventCycle.renameFolder, attachFilesPlacedByPath,
    hFiles, hId, hKey]
  exact (hEnsured.moveSubtree
    (fun w hWaits => (hApart w hWaits).1) target).setParent
      hNot _

theorem isDirAt_eq
    (h : Related paths waiting u f) :
    u.isDirAt path = f.isDirAt path := by
  simp [SyncDevice.isDirAt, h.disk]

theorem not_above_folder
    (h : Related paths waiting u f)
    (hDir : f.isDirAt path = true) :
    ∀ w ∈ waiting, ¬ w.localPath <+: path := by
  refine h.not_above ?_
  simp only [SyncDevice.isDirAt, Bool.or_eq_true,
    decide_eq_true_eq] at hDir
  exact hDir.imp id fun hFolder => by simp [hFolder]

theorem newFolder
    {target : Path}
    (h : Related paths waiting u f) :
    Related paths waiting
      (renamedFolder ctx u none target)
      (renamedFolder ctx f none target) := by
  simp only [renamedFolder, h.isDirAt_eq]
  split
  · rename_i hDir
    exact h.createdFolder ctx (h.not_above_folder hDir)
  · exact h

variable {source target : Path}

/- A folder that is found where a rename starts. -/
theorem renamedFolder
    (h : Related paths waiting u f)
    (hApart : Apart waiting source target) :
    Related paths waiting
      (EventCycle.renamedFolder ctx u (folderAt u source) target)
      (EventCycle.renamedFolder ctx f (folderAt f source)
        target) := by
  have hSource : ∀ w ∈ waiting, w.localPath ≠ source :=
    fun w hWaits hSame =>
      (hApart w hWaits).1 (hSame ▸ List.prefix_rfl)
  rw [h.folderAt_eq hSource]
  cases hFolder : folderAt f source with
  | none => exact h.newFolder ctx
  | some folder =>
      obtain ⟨hIn, hKey, hLive⟩ := folderAt_some hFolder
      have hPath : folder.localPath = source := by
        rw [← h.sound.keys folder hIn hLive, hKey]
      exact h.renameFolder ctx hIn hLive (hPath.symm ▸ hApart)

theorem protectsNotesRoot_eq
    (h : Related paths waiting u f)
    (hClear : ∀ w ∈ waiting, w.localPath ≠ path) :
    protectsNotesRoot u path = protectsNotesRoot f path := by
  by_cases hNotes : path = notesRoot
  · subst hNotes
    simp only [protectsNotesRoot, h.folderAt_eq hClear]
  · simp [protectsNotesRoot, hNotes]

/- A file that is renamed is the one that is indexed there. -/
theorem renamed_of_file
    (h : Related paths waiting u f)
    (hSource : ∀ w ∈ waiting, w.localPath ≠ source)
    (hTarget :
      ∀ w ∈ waiting, ¬ w.localPath <+: target.dropLast)
    (hFile : f.fileSnapshotAt source = some row) :
    Related paths waiting (EventCycle.renamed ctx u source target)
      (EventCycle.renamed ctx f source target) := by
  obtain ⟨hIn, hPath, _⟩ := fileSnapshotAt_some hFile
  have hNot := h.not_waiting hIn (hPath.symm ▸ hSource)
  simp only [EventCycle.renamed, h.protectsNotesRoot_eq hSource,
    h.fileSnapshotAt_eq hSource, hFile]
  split
  · exact h
  · exact h.renameFile ctx hNot hTarget

theorem renamed
    (h : Related paths waiting u f)
    (hApart : Apart waiting source target) :
    Related paths waiting (EventCycle.renamed ctx u source target)
      (EventCycle.renamed ctx f source target) := by
  have hSource : ∀ w ∈ waiting, w.localPath ≠ source :=
    fun w hWaits hSame =>
      (hApart w hWaits).1 (hSame ▸ List.prefix_rfl)
  cases hFile : f.fileSnapshotAt source with
  | some row =>
      exact h.renamed_of_file ctx hSource
        (fun w hWaits => (hApart w hWaits).2.2) hFile
  | none =>
      have hFiles :=
        h.liveFilesUnder_eq fun w hWaits => (hApart w hWaits).1
      have hFolder := h.renamedFolder ctx hApart
      simp only [EventCycle.renamed,
        h.protectsNotesRoot_eq hSource,
        h.fileSnapshotAt_eq hSource, hFile, hFiles]
      split
      · exact h
      · rw [h.folderAt_eq hSource] at hFolder ⊢
        cases hAt : folderAt f source with
        | some folder =>
            rw [hAt] at hFolder
            exact hFolder
        | none =>
            by_cases hNone : f.liveFilesUnder source = []
            · simp only [hNone, if_true]
              exact h.newFolder ctx
            · simp only [hNone, if_false]
              exact (h.createdFolder ctx fun w hWaits =>
                (hApart w hWaits).2.1).renamedFolder ctx hApart

end Related

namespace Related

variable (ctx)

theorem fileAt_eq
    (h : Related paths waiting u f)
    (path : Path) :
    u.fileAt path = f.fileAt path := by
  simp only [SyncDevice.fileAt, h.disk]

theorem not_above_file
    (h : Related paths waiting u f)
    (hFile : (f.fileAt path).isSome = true) :
    ∀ w ∈ waiting, ¬ w.localPath <+: path := by
  refine h.not_above (Or.inr fun hNone => ?_)
  simp [SyncDevice.fileAt, hNone] at hFile

theorem rowOf_eq
    (h : Related paths waiting u f)
    (hNot : id ∉ waiting.map ObjectRow.fileId) :
    u.rowOf id = f.rowOf id :=
  h.find_objects (fun row => row.fileId = id) (byId_false hNot)

theorem movedAway
    (h : Related paths waiting u f)
    (hFile : f.fileSnapshotAt path = some row)
    (hClear : ∀ w ∈ waiting, w.localPath ≠ path) :
    Related paths waiting (EventCycle.movedAway ctx u row path).1
        (EventCycle.movedAway ctx f row path).1 ∧
      (EventCycle.movedAway ctx u row path).2 =
        (EventCycle.movedAway ctx f row path).2 := by
  obtain ⟨hIn, hPath, _⟩ := fileSnapshotAt_some hFile
  have hNot := h.not_waiting hIn (hPath.symm ▸ hClear)
  simp only [EventCycle.movedAway, h.fileAt_eq]
  cases hFound :
      (ctx.foundByKey row path).filter fun found =>
        (f.fileAt found).isSome with
  | none => exact ⟨h, rfl⟩
  | some found =>
      have hThere : (f.fileAt found).isSome = true := by
        simpa using (Option.filter_eq_some_iff.mp hFound).2
      have hAbove := h.not_above_file hThere
      have hRenamed := h.renamed_of_file ctx hClear
        (fun w hWaits hOn =>
          hAbove w hWaits (hOn.trans (List.dropLast_prefix _)))
        hFile
      refine ⟨hRenamed, decide_eq_decide.mpr ?_⟩
      simp only [SyncDevice.getLocalPath, hRenamed.rowOf_eq hNot]

theorem registerNew
    (h : Related paths waiting u f)
    (hClear : ∀ w ∈ waiting, w.localPath ≠ path)
    (size : Nat)
    (hash : String) :
    Related paths waiting
      (EventCycle.registerNew ctx u path size hash)
      (EventCycle.registerNew ctx f path size hash) := by
  simp only [EventCycle.registerNew, h.fileSnapshotAt_eq hClear,
    h.ids_eq]
  split
  · exact h
  · refine h.putRow ?_ fun _ => rfl
    intro hId
    obtain ⟨w, hWaits, hSame⟩ := List.mem_map.mp hId
    have hTaken := List.mem_map_of_mem (f := ObjectRow.fileId)
      (h.kept w hWaits)
    rw [hSame] at hTaken
    exact ctx.newIdIsNew _ path hTaken

theorem registerChanged
    (h : Related paths waiting u f)
    (hClear : ∀ w ∈ waiting, w.localPath ≠ path)
    (size : Nat)
    (hash : String) :
    Related paths waiting
      (EventCycle.registerChanged ctx u (f.fileSnapshotAt path)
        path size hash)
      (EventCycle.registerChanged ctx f (f.fileSnapshotAt path)
        path size hash) := by
  cases hFile : f.fileSnapshotAt path with
  | none => exact h.registerNew ctx hClear size hash
  | some row =>
      obtain ⟨hIn, hPath, _⟩ := fileSnapshotAt_some hFile
      have hNot := h.not_waiting hIn (hPath.symm ▸ hClear)
      obtain ⟨hMoved, hSame⟩ := h.movedAway ctx hFile hClear
      simp only [EventCycle.registerChanged, hSame]
      split
      · exact hMoved.registerNew ctx hClear size hash
      · exact hMoved.putRow hNot fun _ => rfl

theorem fileEvent
    (created : Bool)
    (h : Related paths waiting u f)
    (path : Path) :
    Related paths waiting (EventCycle.fileEvent ctx created u path)
      (EventCycle.fileEvent ctx created f path) := by
  have hPrints :
      ∀ row, RemoteChanges.fingerprintMatches u row path =
        RemoteChanges.fingerprintMatches f row path := fun row => by
    simp only [RemoteChanges.fingerprintMatches, h.fileAt_eq]
  simp only [EventCycle.fileEvent, h.fileAt_eq, hPrints]
  cases hFile : f.fileAt path with
  | none => exact h
  | some file =>
      have hAbove := h.not_above_file (by rw [hFile]; rfl)
      have hClear : ∀ w ∈ waiting, w.localPath ≠ path :=
        fun w hWaits hSame =>
          hAbove w hWaits (hSame ▸ List.prefix_rfl)
      simp only [h.fileSnapshotAt_eq hClear]
      split
      · exact h
      · split
        · exact h
        · exact h.registerChanged ctx hClear _ _

end Related

------------------------------------------------------------
-- Steps
------------------------------------------------------------

variable (ctx)

/- The device that the whole batch has made meanwhile. -/
def inWholeBatch
    (waiting : List ObjectRow)
    (d : SyncDevice) : SyncDevice :=
  { d with objects := d.objects.map (mark waiting) }

/- What waits after an event of the batch. -/
def waitingStep
    (paths : List Path)
    (waiting : List ObjectRow)
    (d : SyncDevice)
    (event : FsEvent) : List ObjectRow :=
  match event with
  | .deleted path =>
      if ignored ctx path then
        waiting
      else if isInside paths path then
        -- Dropped: what it marks waits from now on.
        waiting ++ (d.objects.filter fun row =>
          row.fileId ∉ waiting.map ObjectRow.fileId &&
            marks ctx (inWholeBatch waiting d) path row)
      else
        waiting.filter fun row => !marks ctx d path row
  | _ => waiting

/- The device that the filtered batch makes. -/
def filteredStep
    (paths : List Path)
    (d : SyncDevice)
    (event : FsEvent) : SyncDevice :=
  if isKept paths event then handle ctx d event else d

def waitingFrom
    (paths : List Path) :
    List ObjectRow → SyncDevice → List FsEvent → List ObjectRow
  | waiting, _, [] => waiting
  | waiting, d, event :: rest =>
      waitingFrom paths (waitingStep ctx paths waiting d event)
        (filteredStep ctx paths d event) rest

/- What is left waiting at the end of a batch. -/
def waitingAfter
    (d : SyncDevice)
    (events : List FsEvent) : List ObjectRow :=
  waitingFrom ctx (deletedPaths events) [] d events

/- Is the event apart from what waits before it? -/
def apartFrom
    (waiting : List ObjectRow) : FsEvent → Bool
  | .renamed source target =>
      ignored ctx target || Apart waiting source target
  | _ => true

def apartAlong
    (paths : List Path) :
    List ObjectRow → SyncDevice → List FsEvent → Bool
  | _, _, [] => true
  | waiting, d, event :: rest =>
      apartFrom ctx waiting event &&
        apartAlong paths (waitingStep ctx paths waiting d event)
          (filteredStep ctx paths d event) rest

/- No rename touches an entry while it waits. -/
def RenamesApart
    (d : SyncDevice)
    (events : List FsEvent) : Prop :=
  apartAlong ctx (deletedPaths events) [] d events = true

instance
    (d : SyncDevice)
    (events : List FsEvent) :
    Decidable (RenamesApart ctx d events) :=
  inferInstanceAs (Decidable (_ = true))

namespace Related

/- A handled event that is no delete. -/
theorem handleEvent
    (h : Related paths waiting u f)
    (event : FsEvent)
    (hOther : ∀ path, event ≠ .deleted path)
    (hApart : ∀ source target,
      event = .renamed source target →
        Apart waiting source target) :
    Related paths waiting (EventCycle.handleEvent ctx u event)
      (EventCycle.handleEvent ctx f event) := by
  cases event with
  | created path =>
      simp only [EventCycle.handleEvent, h.isDirAt_eq]
      split
      · rename_i hDir
        exact h.createdFolder ctx (h.not_above_folder hDir)
      · exact h.fileEvent ctx true path
  | modified path => exact h.fileEvent ctx false path
  | deleted path => exact absurd rfl (hOther path)
  | renamed source target =>
      exact h.renamed ctx (hApart source target rfl)

theorem leftAlone_eq
    (h : Related paths waiting u f)
    (hClear : ∀ w ∈ waiting, w.localPath ≠ path) :
    leftAlone ctx u path = leftAlone ctx f path := by
  simp only [leftAlone, h.protectsNotesRoot_eq hClear, occupied,
    h.disk]

theorem marks_eq
    (h : Related paths waiting u f)
    (hClear : ∀ w ∈ waiting, w.localPath ≠ path) :
    marks ctx u path row = marks ctx f path row := by
  simp only [marks, h.leftAlone_eq ctx hClear,
    h.fileSnapshotAt_eq hClear, h.folderAt_eq hClear]

end Related

theorem isInside_iff :
    isInside paths path = true ↔
      ∃ above ∈ paths, above <+: path ∧ above ≠ path := by
  have hInits :
      ∀ above : Path, above ∈ path.inits.dropLast ↔
        above <+: path ∧ above ≠ path := by
    intro above
    induction path using List.reverseRecOn with
    | nil => simp
    | append_singleton start last _ =>
        rw [List.inits_append]
        simp only [List.inits, List.map_cons, List.map_nil,
          List.tail_cons, List.dropLast_concat, List.mem_inits]
        constructor
        · intro hOn
          refine ⟨hOn.trans (List.prefix_append _ _), ?_⟩
          rintro rfl
          have hLength := hOn.length_le
          rw [List.length_append, List.length_singleton]
            at hLength
          omega
        · rintro ⟨hOn, hOther⟩
          exact (List.prefix_concat_iff.mp hOn).resolve_left
            hOther
  simp only [isInside, List.any_eq_true, hInits,
    decide_eq_true_eq]
  constructor
  · rintro ⟨above, hAbove, hIn⟩
    exact ⟨above, hIn, hAbove⟩
  · rintro ⟨above, hIn, hAbove⟩
    exact ⟨above, hAbove, hIn⟩

theorem isInside_below
    {below : Path}
    (hIn : isInside paths path = true)
    (hBelow : path <+: below) :
    isInside paths below = true := by
  obtain ⟨above, hAbove, hOn, hOther⟩ := isInside_iff.mp hIn
  refine isInside_iff.mpr
    ⟨above, hAbove, hOn.trans hBelow, ?_⟩
  rintro rfl
  exact hOther (hOn.eq_of_length
    (Nat.le_antisymm hOn.length_le hBelow.length_le))

------------------------------------------------------------
-- Deletes
------------------------------------------------------------

variable {ctx}

/- What a delete marks was alive at or below its path. -/
theorem marks_row
    (hSound : IndexSound d)
    (hRow : row ∈ d.objects)
    (hMarks : marks ctx d path row = true) :
    leftAlone ctx d path = false ∧ path <+: row.localPath ∧
      row.state.isDeleted = false := by
  have hLive :
      row.isLive = true → row.state.isDeleted = false := by
    cases hState : row.state <;>
      simp [ObjectRow.isLive, hState, IndexState.isDeleted]
  rw [marks, Bool.and_eq_true, Bool.not_eq_true'] at hMarks
  obtain ⟨hAct, hMarks⟩ := hMarks
  refine ⟨hAct, ?_⟩
  cases hFile : d.fileSnapshotAt path with
  | some file =>
      obtain ⟨hIn, hPath, _⟩ := fileSnapshotAt_some hFile
      simp only [hFile, Bool.and_eq_true, Bool.not_eq_true',
        decide_eq_true_eq] at hMarks
      have hSame := hSound.eq_of_id hRow hIn hMarks.2
      rw [hSame, hPath]
      exact ⟨List.prefix_rfl, hMarks.1⟩
  | none =>
      cases hFolder : folderAt d path with
      | some folder =>
          obtain ⟨hIn, hKey, hFolderLive⟩ :=
            folderAt_some hFolder
          have hPath := hSound.keys folder hIn hFolderLive
          simp only [hFile, hFolder, Bool.and_eq_true,
            ObjectRow.atOrUnder, List.isPrefixOf_iff_prefix]
            at hMarks
          rw [← hPath, hKey] at hMarks
          exact ⟨hMarks.2, hLive hMarks.1⟩
      | none =>
          simp only [hFile, hFolder, Bool.and_eq_true,
            ObjectRow.under, ObjectRow.atOrUnder,
            List.isPrefixOf_iff_prefix] at hMarks
          exact ⟨hMarks.2.1, hLive hMarks.1.1⟩

theorem IndexSound.deleted
    (hSound : IndexSound d)
    (path : Path) :
    IndexSound (deleted ctx d path) := by
  obtain ⟨hObjects, _⟩ := deleted_objects ctx hSound path
  constructor
  · have hIds :
        (EventCycle.deleted ctx d path).objects.map
            ObjectRow.fileId =
          d.objects.map ObjectRow.fileId := by
      rw [hObjects, List.map_map]
      refine List.map_congr_left fun row _ => ?_
      simp only [Function.comp_apply]
      split <;> rfl
    rw [hIds]
    exact hSound.ids
  · intro row hRow hFolder
    rw [hObjects] at hRow
    obtain ⟨old, hOld, hNew⟩ := List.mem_map.mp hRow
    by_cases hMarks : marks ctx d path old = true
    · rw [if_pos hMarks] at hNew
      subst hNew
      simp [asDeleted, ObjectRow.isLiveFolder, ObjectRow.isLive]
        at hFolder
    · rw [if_neg hMarks] at hNew
      subst hNew
      exact hSound.keys old hOld hFolder

theorem marks_congr
    {other : SyncDevice}
    (hDisk : d.disk = other.disk)
    (hObjects : d.objects = other.objects) :
    marks ctx d path row = marks ctx other path row := by
  simp only [marks, leftAlone, protectsNotesRoot, occupied,
    folderAt, SyncDevice.fileSnapshotAt, hDisk, hObjects]

namespace Related

/- What a dropped delete marks waits from then on. -/
theorem droppedDelete
    (h : Related paths waiting u f)
    (hInside : isInside paths path = true) :
    Related paths
      (waiting ++ (f.objects.filter fun row =>
        row.fileId ∉ waiting.map ObjectRow.fileId &&
          marks ctx (inWholeBatch waiting f) path row))
      (deleted ctx u path) f := by
  obtain ⟨hObjects, hDisk⟩ :=
    deleted_objects ctx h.sound_left path
  have hMarks :
      ∀ row, marks ctx (inWholeBatch waiting f) path row =
        marks ctx u path row := by
    have hWholeDisk :
        u.disk = (inWholeBatch waiting f).disk := h.disk
    have hWhole :
        u.objects = (inWholeBatch waiting f).objects := h.objects
    exact fun row => (marks_congr hWholeDisk hWhole).symm
  simp only [hMarks]
  have hNew :
      ∀ w ∈ f.objects.filter (fun row =>
          row.fileId ∉ waiting.map ObjectRow.fileId &&
            marks ctx u path row),
        w ∈ f.objects ∧ leftAlone ctx u path = false ∧
          path <+: w.localPath ∧ w.state.isDeleted = false := by
    intro w hW
    obtain ⟨hIn, hTest⟩ := List.mem_filter.mp hW
    simp only [Bool.and_eq_true, decide_eq_true_eq] at hTest
    have hLeft : w ∈ u.objects := by
      rw [h.objects]
      exact List.mem_map.mpr ⟨w, hIn, mark_of_not hTest.1⟩
    exact ⟨hIn, marks_row h.sound_left hLeft hTest.2⟩
  refine ⟨hDisk.trans h.disk, ?_, h.sound, h.rooted, ?_, ?_, ?_,
    ?_⟩
  · rw [hObjects, h.objects, List.map_map]
    refine List.map_congr_left fun row hRow => ?_
    simp only [Function.comp_apply]
    rcases h.mark_cases hRow with
      ⟨hWaits, hMark⟩ | ⟨hNot, hMark⟩
    · have hStill := mark_of_mem
        (List.mem_append_left (f.objects.filter fun row =>
          row.fileId ∉ waiting.map ObjectRow.fileId &&
            marks ctx u path row) hWaits)
      rw [hMark, hStill]
      split <;> rfl
    · rw [hMark]
      by_cases hHit : marks ctx u path row = true
      · rw [if_pos hHit]
        refine (mark_of_mem (List.mem_append_right _
          (List.mem_filter.mpr ⟨hRow, ?_⟩))).symm
        simp only [hHit, hNot, not_false_eq_true, decide_true,
          Bool.and_self]
      · rw [if_neg hHit]
        refine (mark_of_not fun hId => ?_).symm
        rw [List.map_append, List.mem_append] at hId
        rcases hId with hOld | hAdded
        · exact hNot hOld
        · obtain ⟨w, hW, hSame⟩ := List.mem_map.mp hAdded
          have hTest := (List.mem_filter.mp hW).2
          have hRowSame :=
            h.sound.eq_of_id (hNew w hW).1 hRow hSame
          rw [hRowSame, Bool.and_eq_true] at hTest
          exact hHit hTest.2
  · intro w hW
    exact (List.mem_append.mp hW).elim (h.kept w)
      fun hW => (hNew w hW).1
  · intro w hW
    exact (List.mem_append.mp hW).elim (h.alive w)
      fun hW => (hNew w hW).2.2.2
  · intro w hW
    rcases List.mem_append.mp hW with hOld | hAdded
    · exact h.gone w hOld
    · obtain ⟨_, hAct, hBelow, _⟩ := hNew w hAdded
      have hFree : occupied u path = false := by
        simp only [leftAlone, Bool.or_eq_false_iff] at hAct
        exact hAct.2
      simp only [occupied, Bool.or_eq_false_iff,
        decide_eq_false_iff_not, Option.isSome_eq_false_iff,
        Option.isNone_iff_eq_none, h.disk] at hFree
      refine ⟨?_, h.rooted.nothing_inside hFree.1 hFree.2
        hBelow⟩
      rintro hRoot
      rw [hRoot] at hBelow
      exact hFree.1 (List.prefix_nil.mp hBelow)
  · intro w hW
    exact (List.mem_append.mp hW).elim (h.inside w)
      fun hW => isInside_below hInside (hNew w hW).2.2.1

/- What a kept delete marks does not wait any longer. -/
theorem keptDelete
    (h : Related paths waiting u f)
    (hKept : isInside paths path = false) :
    Related paths
      (waiting.filter fun row => !marks ctx f path row)
      (deleted ctx u path) (deleted ctx f path) := by
  have hClear : ∀ w ∈ waiting, w.localPath ≠ path := by
    intro w hWaits hSame
    have hInside := h.inside w hWaits
    rw [hSame, hKept] at hInside
    contradiction
  obtain ⟨hLeft, hLeftDisk⟩ :=
    deleted_objects ctx h.sound_left path
  obtain ⟨hRight, hRightDisk⟩ :=
    deleted_objects ctx h.sound path
  have hStill :
      ∀ w ∈ waiting.filter (fun row => !marks ctx f path row),
        w ∈ waiting ∧ marks ctx f path w = false := by
    intro w hW
    simpa using List.mem_filter.mp hW
  refine ⟨?_, ?_, h.sound.deleted path, ?_, ?_, ?_, ?_, ?_⟩
  · rw [hLeftDisk, hRightDisk, h.disk]
  · rw [hLeft, hRight, h.objects, List.map_map, List.map_map]
    refine List.map_congr_left fun row hRow => ?_
    simp only [Function.comp_apply, h.marks_eq ctx hClear]
    rcases h.mark_cases hRow with
      ⟨hWaits, hMark⟩ | ⟨hNot, hMark⟩
    · rw [hMark]
      by_cases hHit : marks ctx f path row = true
      · rw [if_pos hHit]
        simp only [mark]
        split <;> split <;> rfl
      · have hWaitsStill :
            row ∈ waiting.filter fun row =>
              !marks ctx f path row :=
          List.mem_filter.mpr ⟨hWaits, by simpa using hHit⟩
        rw [if_neg hHit, mark_of_mem hWaitsStill]
        split <;> rfl
    · rw [hMark]
      refine (mark_of_not fun hId => hNot ?_).symm
      have hSame :
          (if marks ctx f path row = true then asDeleted row
            else row).fileId = row.fileId := by
        split <;> rfl
      rw [hSame] at hId
      obtain ⟨w, hW, hOld⟩ := List.mem_map.mp hId
      exact hOld ▸ List.mem_map_of_mem (hStill w hW).1
  · rw [hRightDisk]
    exact h.rooted
  · intro w hW
    obtain ⟨hWaits, hMiss⟩ := hStill w hW
    rw [hRight]
    refine List.mem_map.mpr ⟨w, h.kept w hWaits, ?_⟩
    simp [hMiss]
  · intro w hW
    exact h.alive w (hStill w hW).1
  · intro w hW
    rw [hRightDisk]
    exact h.gone w (hStill w hW).1
  · intro w hW
    exact h.inside w (hStill w hW).1

------------------------------------------------------------
-- Batches
------------------------------------------------------------

/- One event in both runs. -/
theorem step
    {event : FsEvent}
    (h : Related paths waiting u f)
    (hApart : apartFrom ctx waiting event = true) :
    Related paths (waitingStep ctx paths waiting f event)
      (handle ctx u event) (filteredStep ctx paths f event) := by
  by_cases hIgnored : ignored ctx event.path = true
  · have hWaiting :
        waitingStep ctx paths waiting f event = waiting := by
      cases event with
      | deleted path => exact if_pos hIgnored
      | created _ => rfl
      | modified _ => rfl
      | renamed _ _ => rfl
    have hFiltered : filteredStep ctx paths f event = f := by
      simp [filteredStep, handle, hIgnored]
    rw [hWaiting, hFiltered, handle, if_pos hIgnored]
    exact h
  · cases event with
    | deleted path =>
        have hSeen : ¬ ignored ctx path = true := hIgnored
        rw [handle, if_neg hIgnored]
        by_cases hInside : isInside paths path = true
        · have hSkipped :
              filteredStep ctx paths f (.deleted path) = f := by
            simp [filteredStep, isKept, hInside]
          simp only [waitingStep, hSeen, hInside, if_true,
            hSkipped]
          exact h.droppedDelete hInside
        · have hKept : isInside paths path = false := by
            simpa using hInside
          have hHandled :
              filteredStep ctx paths f (.deleted path) =
                deleted ctx f path := by
            rw [filteredStep, isKept, hKept, handle,
              if_neg hIgnored]
            rfl
          simp only [waitingStep, hSeen, hInside, hHandled]
          exact h.keptDelete hKept
    | created path =>
        have hStep := h.handleEvent ctx (.created path)
          (by simp) (by simp)
        simpa [waitingStep, filteredStep, isKept, handle,
          hIgnored] using hStep
    | modified path =>
        have hStep := h.handleEvent ctx (.modified path)
          (by simp) (by simp)
        simpa [waitingStep, filteredStep, isKept, handle,
          hIgnored] using hStep
    | renamed source target =>
        have hSeen : ¬ ignored ctx target = true := hIgnored
        have hRename : Apart waiting source target := by
          simpa [apartFrom, hSeen] using hApart
        have hStep := h.handleEvent ctx
          (.renamed source target) (by simp) (by
            intro source' target' hEq
            injection hEq with hSource hTarget
            exact hSource ▸ hTarget ▸ hRename)
        simpa [waitingStep, filteredStep, isKept, handle,
          hIgnored] using hStep

/- Both runs of a batch, by induction on its events. -/
theorem batch
    (events : List FsEvent)
    (h : Related paths waiting u f)
    (hApart : apartAlong ctx paths waiting f events = true) :
    Related paths (waitingFrom ctx paths waiting f events)
      (handleBatch ctx u events)
      (handleBatch ctx f (events.filter (isKept paths))) := by
  induction events generalizing waiting u f with
  | nil => exact h
  | cons event rest ih =>
      rw [apartAlong, Bool.and_eq_true] at hApart
      have hRest := ih (h.step hApart.1) hApart.2
      have hFiltered :
          handleBatch ctx f
              ((event :: rest).filter (isKept paths)) =
            handleBatch ctx (filteredStep ctx paths f event)
              (rest.filter (isKept paths)) := by
        by_cases hKept : isKept paths event = true
        · simp [hKept, filteredStep, handleBatch]
        · simp [hKept, filteredStep]
      rw [hFiltered]
      exact hRest

theorem start
    (hSound : IndexSound d)
    (hRooted : d.disk.Rooted) :
    Related paths [] d d where
  disk := rfl
  objects := by
    refine ((List.map_congr_left fun row _ => ?_).trans
      (List.map_id _)).symm
    exact mark_of_not List.not_mem_nil
  sound := hSound
  rooted := hRooted
  kept := by simp
  alive := by simp
  gone := by simp
  inside := by simp

/- Both devices have the same marks iff nothing waits. -/
theorem same_marks_iff
    (h : Related paths waiting u f) :
    (∀ id, id ∈ deletedIds f ↔ id ∈ deletedIds u) ↔
      waiting = [] := by
  constructor
  · intro hSame
    refine List.eq_nil_iff_forall_not_mem.mpr fun w hWaits => ?_
    have hIn := h.kept w hWaits
    have hLeft : w.fileId ∈ deletedIds u := by
      refine List.mem_map.mpr ⟨asDeleted w, ?_, rfl⟩
      rw [h.objects]
      exact List.mem_filter.mpr
        ⟨List.mem_map.mpr ⟨w, hIn, mark_of_mem hWaits⟩, rfl⟩
    obtain ⟨row, hRow, hId⟩ :=
      List.mem_map.mp ((hSame w.fileId).mpr hLeft)
    obtain ⟨hRowIn, hState⟩ := List.mem_filter.mp hRow
    have hEq := h.sound.eq_of_id hRowIn hIn hId
    have hAlive := h.alive w hWaits
    rw [← hEq, of_decide_eq_true hState] at hAlive
    contradiction
  · rintro rfl id
    have hObjects : u.objects = f.objects := by
      rw [h.objects]
      refine (List.map_congr_left fun row _ => ?_).trans
        (List.map_id _)
      exact mark_of_not List.not_mem_nil
    simp only [deletedIds, hObjects]

end Related

/- A cycle with no patterns and nothing of Notes under way. -/
def plainCycle : CycleContext where
  syncFolder := "/home/ann/S4Drive".toList
  excludePatterns := []
  canonicalize := fun _ => none
  blake3 := fun _ => "0"
  pendingIntents := []
  newId := fun taken _ => taken.sum + 1
  newIdIsNew := fun taken _ hIn => by
    have hLess := List.single_le_sum
      (fun id _ => Nat.zero_le id) _ hIn
    omega
  foundByKey := fun _ _ => none

def docsPath : Path := ["docs".toList]

def draftPath : Path := ["docs".toList, "a.txt".toList]

def docsRow : ObjectRow where
  fileId := 1
  localPath := docsPath
  s3Key := docsPath
  size := 0
  state := .synced
  isFolder := true
  parentId := none
  currentRevisionId := none
  localHash := none
  localMtime := none

def draftRow : ObjectRow where
  fileId := 2
  localPath := draftPath
  s3Key := draftPath
  size := 3
  state := .synced
  isFolder := false
  parentId := some 1
  currentRevisionId := some 7
  localHash := some "blake3:1"
  localMtime := some 10

/- A folder with a file is indexed; the disk is given. -/
def withDocs (disk : RemoteChanges.LocalDisk) : SyncDevice where
  disk := disk
  objects := [draftRow, docsRow]
  transfers := []
  conflicts := []
  bucket := ⟨fun _ => none, fun _ => false, fun _ => none⟩

/- A folder is removed with the file in it. -/
def removal : List FsEvent :=
  [.deleted draftPath, .deleted docsPath]

theorem withDocs_sound
    (disk : RemoteChanges.LocalDisk) :
    IndexSound (withDocs disk) where
  ids := by
    change [2, 1].Nodup
    decide
  keys := by
    intro row hRow _
    have hCases : row = draftRow ∨ row = docsRow := by
      simpa [withDocs] using hRow
    rcases hCases with rfl | rfl <;> rfl

/- Then the folder is made again, and is empty. -/
def recreation : List FsEvent :=
  removal ++ [.created docsPath]

def emptyDocs : RemoteChanges.LocalDisk :=
  ⟨[(docsPath, .folder)]⟩

end EventCycle

end S4Drive

import Mathlib.Data.List.Nodup
import S4Drive.Library.FileSteps
import S4Drive.Recovery.Output

/-
  What a restore leaves in the output folder. Folders are
  only made where nothing is, and every file is written to a
  target that no earlier one was planned for; so whatever
  was copied stays. What is not copied was either skipped,
  or the restore had ended before.

  Main declarations:
    * `createDirAll_nodeAt`, `chooseRestoreTarget_free`
    * `OutputInv`, `OutputInv.restoreItem`
    * `AllClear`, `restored_iff_clear`
-/

------------------------------------------------------------
-- Folders
------------------------------------------------------------

namespace S4Drive

open FileTree

namespace Recovery

variable {disk disk' start : Disk} {p q target source : Path}
variable {node : Node Bytes} {body : Bytes}

theorem createDirAll_eq :
    createDirAll disk p = Files.createDirAll disk p := by
  have hStep : createDir = Files.createDir := by
    funext disk p
    unfold createDir Files.createDir
    cases disk.nodeAt p <;> rfl
  unfold createDirAll Files.createDirAll
  rw [hStep]
  rfl

theorem createDirAll_nodeAt
    (h : createDirAll disk p = some disk')
    (q : Path) :
    disk'.nodeAt q =
      if (q ≠ [] ∧ q <+: p) ∧ disk.nodeAt q = none then
        some .folder
      else
        disk.nodeAt q :=
  Files.nodeAt_createDirAll (createDirAll_eq ▸ h) q

theorem createDirAll_kept
    (h : createDirAll disk p = some disk')
    (hNode : disk.nodeAt q = some node) :
    disk'.nodeAt q = some node :=
  Files.createDirAll_kept (createDirAll_eq ▸ h) hNode

theorem createDirAll_other
    (h : createDirAll disk p = some disk')
    (hOther : ¬ q <+: p) :
    disk'.nodeAt q = disk.nodeAt q :=
  Files.createDirAll_other (createDirAll_eq ▸ h) hOther

theorem fileAt_eq_some :
    fileAt disk p = some body ↔
      disk.nodeAt p = some (.file body) := by
  unfold fileAt
  split
  · rename_i body' hNode
    simp [hNode]
  · rename_i hOther
    simpa using hOther body

------------------------------------------------------------
-- Targets
------------------------------------------------------------

variable {requested : Path} {fileId : FileId}
variable {plannedPaths : List Path} {overwrite : Bool}

theorem restoreConflictName_injective
    (fileName : Text)
    (fileId : FileId) :
    Function.Injective
      (restoreConflictName fileName fileId) := by
  intro a b hSame
  have hDigits : Nat.toDigits 10 a = Nat.toDigits 10 b := by
    unfold restoreConflictName at hSame
    cases hSplit : splitExtension fileName <;>
      simpa [hSplit] using hSame
  rw [← Nat.ofDigitChars_ten_toDigits (n := a), hDigits,
    Nat.ofDigitChars_ten_toDigits]

theorem restoreConflictPath_injective
    (requested : Path)
    (fileId : FileId) :
    Function.Injective (restoreConflictPath requested fileId) := by
  intro a b hSame
  unfold restoreConflictPath at hSame
  apply restoreConflictName_injective
  simpa using hSame

/- The search ends at a free name if there is one in reach. -/
theorem freeConflictPath_free
    {steps counter k : Nat}
    (hSteps : k ≤ steps)
    (hFree :
      isFree disk plannedPaths
        (restoreConflictPath requested fileId (counter + k)) =
          true) :
    isFree disk plannedPaths
      (freeConflictPath disk plannedPaths requested fileId
        steps counter) = true := by
  induction steps generalizing counter k with
  | zero =>
      obtain rfl := Nat.le_zero.mp hSteps
      exact hFree
  | succ steps ih =>
      unfold freeConflictPath
      dsimp only
      split
      · assumption
      · rename_i hTaken
        cases k with
        | zero => exact absurd hFree hTaken
        | succ k =>
            have hNext : counter + (k + 1) = counter + 1 + k := by
              omega
            rw [hNext] at hFree
            exact ih (Nat.le_of_succ_le_succ hSteps) hFree

theorem mem_of_not_free
    (h : isFree disk plannedPaths p = false) :
    p ∈ disk.entries.map Prod.fst ++ plannedPaths := by
  rw [isFree, Bool.and_eq_false_iff] at h
  rw [List.mem_append]
  rcases h with hThere | hPlanned
  · left
    cases hNode : disk.nodeAt p with
    | none => simp [hNode] at hThere
    | some node =>
        exact List.mem_map_of_mem (Files.mem_of_nodeAt hNode)
  · right
    simpa using hPlanned

/- More names are tried than can be taken. -/
theorem exists_free
    (disk : Disk)
    (plannedPaths : List Path)
    (requested : Path)
    (fileId : FileId) :
    ∃ k ≤ disk.entries.length + plannedPaths.length,
      isFree disk plannedPaths
        (restoreConflictPath requested fileId (1 + k)) =
          true := by
  by_contra hNone
  push Not at hNone
  let names :=
    (List.range
      (disk.entries.length + plannedPaths.length + 1)).map
        fun k => restoreConflictPath requested fileId (1 + k)
  have hNodup : names.Nodup := by
    apply List.nodup_range.map
    intro a b hSame
    exact Nat.add_left_cancel
      (restoreConflictPath_injective requested fileId hSame)
  have hTaken :
      names ⊆ disk.entries.map Prod.fst ++ plannedPaths := by
    intro name hName
    rcases List.mem_map.mp hName with ⟨k, hRange, rfl⟩
    apply mem_of_not_free
    rw [← Bool.not_eq_true]
    exact hNone k (Nat.le_of_lt_succ (List.mem_range.mp hRange))
  have hLength := (hNodup.subperm hTaken).length_le
  simp only [names, List.length_map, List.length_range,
    List.length_append] at hLength
  omega

/- Nothing that was planned before is chosen again. -/
theorem chooseRestoreTarget_free :
    chooseRestoreTarget disk requested fileId overwrite
        plannedPaths ∉ plannedPaths ∧
      (overwrite = false →
        disk.nodeAt (chooseRestoreTarget disk requested fileId
          overwrite plannedPaths) = none) := by
  have free (p : Path)
      (hFree : isFree disk plannedPaths p = true) :
      p ∉ plannedPaths ∧
        (overwrite = false → disk.nodeAt p = none) := by
    rw [isFree, Bool.and_eq_true] at hFree
    exact ⟨by simpa using hFree.2, fun _ => by
      simpa using hFree.1⟩
  unfold chooseRestoreTarget
  split
  · rename_i hOverwrite
    exact ⟨hOverwrite.2, fun hNot => by simp [hNot] at hOverwrite⟩
  · split
    · rename_i hFree
      exact free requested hFree
    · rcases exists_free disk plannedPaths requested fileId with
        ⟨k, hSteps, hFree⟩
      exact free _ (freeConflictPath_free hSteps hFree)

/- Below the output folder. -/
def Inside (output p : Path) : Prop :=
  output <+: p ∧ p ≠ output

variable {output path : Path}

theorem inside_append (h : path ≠ []) :
    Inside output (output ++ path) :=
  ⟨List.prefix_append output path, by simpa using h⟩

theorem Inside.ne_nil (h : Inside output p) : p ≠ [] := by
  rintro rfl
  exact h.2 (List.prefix_nil.mp h.1).symm

theorem chooseRestoreTarget_cases
    (disk : Disk)
    (requested : Path)
    (fileId : FileId)
    (plannedPaths : List Path)
    (overwrite : Bool) :
    chooseRestoreTarget disk requested fileId overwrite
        plannedPaths = requested ∨
      ∃ counter,
        chooseRestoreTarget disk requested fileId overwrite
            plannedPaths =
          restoreConflictPath requested fileId counter := by
  have search (steps counter : Nat) :
      ∃ k, freeConflictPath disk plannedPaths requested fileId
          steps counter =
        restoreConflictPath requested fileId k := by
    induction steps generalizing counter with
    | zero => exact ⟨counter, rfl⟩
    | succ steps ih =>
        unfold freeConflictPath
        dsimp only
        split
        · exact ⟨counter, rfl⟩
        · exact ih (counter + 1)
  unfold chooseRestoreTarget
  split
  · exact .inl rfl
  · split
    · exact .inl rfl
    · exact .inr (search _ _)

/- A conflict name is next to the name that was taken. -/
theorem chooseRestoreTarget_inside (h : path ≠ []) :
    Inside output
      (chooseRestoreTarget disk (output ++ path) fileId
        overwrite plannedPaths) := by
  rcases chooseRestoreTarget_cases disk (output ++ path) fileId
      plannedPaths overwrite with hSame | ⟨counter, hSame⟩
  · rw [hSame]
    exact inside_append h
  · rw [hSame, restoreConflictPath,
      List.dropLast_append_of_ne_nil h, List.append_assoc]
    exact inside_append (by simp)

------------------------------------------------------------
-- Written Files
------------------------------------------------------------

variable {job : RestoreJob} {s s' : RestoreState}
variable {item : RestoreItem} {contentRef : ContentRef}

/- The output folder is there, and all that it is in. -/
def OutputReady (disk : Disk) (output : Path) : Prop :=
  ∀ q, q ≠ [] → q <+: output → disk.nodeAt q = some .folder

/-
  What holds while files are restored: nothing outside of
  the output folder was changed, every file that was copied
  is at a target of its own, and what was there before stays
  unless it may be overwritten.
-/
structure OutputInv
    (job : RestoreJob)
    (start : Disk)
    (s : RestoreState) : Prop where
  outside :
    ∀ p, ¬ Inside job.output p →
      s.disk.nodeAt p = start.nodeAt p
  kept :
    job.overwrite = false →
      ∀ p node, start.nodeAt p = some node →
        s.disk.nodeAt p = some node
  planned : ∀ c ∈ s.copies, c.target ∈ s.plannedPaths
  own : (s.copies.map Copy.target).Nodup
  intact :
    ∀ c ∈ s.copies,
      s.disk.nodeAt c.target = some (.file c.body)

theorem OutputInv.initial
    (job : RestoreJob)
    (start : Disk)
    (entries : Entries) :
    OutputInv job start (initialRestore start entries) where
  outside _ _ := rfl
  kept _ _ _ hNode := hNode
  planned := nofun
  own := List.nodup_nil
  intact := nofun

theorem OutputInv.ready
    (h : OutputInv job start s)
    (hReady : OutputReady start job.output) :
    OutputReady s.disk job.output := by
  intro q hPath hPrefix
  rw [h.outside q, hReady q hPath hPrefix]
  rintro ⟨hInside, hOther⟩
  exact hOther (hPrefix.eq_of_length_le hInside.length_le)

/- Folders above the target are made inside of the output. -/
theorem createDirAll_outside
    (h : createDirAll disk p = some disk')
    (hReady : OutputReady disk output)
    (hOutput : output <+: p)
    (hOutside : ¬ Inside output q) :
    disk'.nodeAt q = disk.nodeAt q := by
  by_cases hAbove : q <+: p
  · by_cases hTop : q = []
    · simp [createDirAll_nodeAt h, hTop]
    · have hPrefix : q <+: output := by
        rcases List.prefix_or_prefix_of_prefix hAbove hOutput
          with hPrefix | hIn
        · exact hPrefix
        · by_cases hSame : q = output
          · rw [hSame]
          · exact absurd ⟨hIn, hSame⟩ hOutside
      have hFolder := hReady q hTop hPrefix
      rw [createDirAll_kept h hFolder, hFolder]
  · exact createDirAll_other h hAbove

/- More folders, and more planned, change nothing else. -/
theorem OutputInv.folders
    (h : OutputInv job start s)
    (hReady : OutputReady start job.output)
    (hOutput : job.output <+: p)
    (hCreated : createDirAll s.disk p = some s'.disk)
    (hPlanned : s.plannedPaths ⊆ s'.plannedPaths)
    (hCopies : s'.copies = s.copies) :
    OutputInv job start s' where
  outside q hOutside := by
    rw [createDirAll_outside hCreated (h.ready hReady) hOutput
      hOutside, h.outside q hOutside]
  kept hNot q node hNode :=
    createDirAll_kept hCreated (h.kept hNot q node hNode)
  planned c hCopy := by
    rw [hCopies] at hCopy
    exact hPlanned (h.planned c hCopy)
  own := by
    rw [hCopies]
    exact h.own
  intact c hCopy := by
    rw [hCopies] at hCopy
    exact createDirAll_kept hCreated (h.intact c hCopy)

/- So do other counts. -/
theorem OutputInv.same
    (h : OutputInv job start s)
    (hDisk : s'.disk = s.disk)
    (hPlanned : s.plannedPaths ⊆ s'.plannedPaths)
    (hCopies : s'.copies = s.copies) :
    OutputInv job start s' where
  outside := by
    rw [hDisk]
    exact h.outside
  kept := by
    rw [hDisk]
    exact h.kept
  planned c hCopy := by
    rw [hCopies] at hCopy
    exact hPlanned (h.planned c hCopy)
  own := by
    rw [hCopies]
    exact h.own
  intact := by
    rw [hDisk, hCopies]
    exact h.intact

/- A file is written to a target that nothing was copied to. -/
theorem OutputInv.copy
    {c : Copy}
    (h : OutputInv job start s)
    (hInside : Inside job.output c.target)
    (hNew : c.target ∉ s.plannedPaths)
    (hFree :
      job.overwrite = false → s.disk.nodeAt c.target = none)
    (hDisk :
      s'.disk = s.disk.set c.target (.file c.body))
    (hPlanned : s'.plannedPaths = c.target :: s.plannedPaths)
    (hCopies : s'.copies = s.copies ++ [c]) :
    OutputInv job start s' where
  outside q hOutside := by
    rw [hDisk, Files.nodeAt_set, if_neg]
    · exact h.outside q hOutside
    · rintro rfl
      exact hOutside hInside
  kept hNot q node hNode := by
    have hHere := h.kept hNot q node hNode
    rw [hDisk, Files.nodeAt_set, if_neg]
    · exact hHere
    · rintro rfl
      rw [hFree hNot] at hHere
      cases hHere
  planned c' hCopy := by
    rw [hCopies, List.mem_append, List.mem_singleton] at hCopy
    rw [hPlanned]
    rcases hCopy with hOld | rfl
    · exact List.mem_cons_of_mem _ (h.planned c' hOld)
    · exact List.mem_cons_self
  own := by
    rw [hCopies, List.map_append, List.map_singleton]
    apply h.own.append (List.nodup_singleton _)
    rw [List.disjoint_singleton]
    intro hUsed
    rcases List.mem_map.mp hUsed with ⟨c', hOld, hSame⟩
    rw [← hSame] at hNew
    exact hNew (h.planned c' hOld)
  intact c' hCopy := by
    rw [hCopies, List.mem_append, List.mem_singleton] at hCopy
    rw [hDisk, Files.nodeAt_set]
    rcases hCopy with hOld | rfl
    · rw [if_neg, h.intact c' hOld]
      intro hSame
      rw [← hSame] at hNew
      exact hNew (h.planned c' hOld)
    · exact if_pos rfl

------------------------------------------------------------
-- One Entry
------------------------------------------------------------

/- Nothing but folders above the target, and no folder at it. -/
def fileWay
    (job : RestoreJob)
    (s : RestoreState)
    (item : RestoreItem) : Bool :=
  let target := restoreTarget job s item
  folderWay s.disk target.dropLast && canWrite s.disk target

/- The copy that is made of what was found. -/
def copyOf
    (job : RestoreJob)
    (s : RestoreState)
    (item : RestoreItem)
    (source : Path)
    (body : Bytes) : Copy :=
  let target := restoreTarget job s item
  ⟨item.fileId, source, target, copiedBytes source target body⟩

/- What restoring one entry can do. -/
inductive ItemRun
    (job : RestoreJob)
    (s : RestoreState)
    (item : RestoreItem) :
    RestoreState → Except String Unit → Prop where
  | skipped
      {s' : RestoreState}
      (file : item.entry.entryType ≠ .folder)
      (none : foundBlob s.disk job.root item.entry = none)
      (disk : s'.disk = s.disk)
      (planned : s'.plannedPaths = s.plannedPaths)
      (copies : s'.copies = s.copies) :
      ItemRun job s item s' (.ok ())
  | folder
      {s' : RestoreState}
      (folder : item.entry.entryType = .folder)
      (created :
        createDirAll s.disk (job.output ++ item.path) =
          some s'.disk)
      (planned : s'.plannedPaths = s.plannedPaths)
      (copies : s'.copies = s.copies) :
      ItemRun job s item s' (.ok ())
  | noFolder
      {error : String}
      (folder : item.entry.entryType = .folder)
      (blocked :
        folderWay s.disk (job.output ++ item.path) = false) :
      ItemRun job s item s (.error error)
  | noFile
      {s' : RestoreState} {error : String}
      {source : Path} {body : Bytes}
      (found :
        foundBlob s.disk job.root item.entry =
          some (source, body))
      (blocked : fileWay job s item = false)
      (disk :
        s'.disk = s.disk ∨
          createDirAll s.disk
              (restoreTarget job s item).dropLast =
            some s'.disk)
      (planned :
        s'.plannedPaths =
          restoreTarget job s item :: s.plannedPaths)
      (copies : s'.copies = s.copies) :
      ItemRun job s item s' (.error error)
  | copied
      {s' : RestoreState} {mid : Disk}
      {result : Except String Unit}
      {source : Path} {body : Bytes}
      (found :
        foundBlob s.disk job.root item.entry =
          some (source, body))
      (way : fileWay job s item = true)
      (created :
        createDirAll s.disk
            (restoreTarget job s item).dropLast = some mid)
      (disk :
        s'.disk =
          mid.set (restoreTarget job s item)
            (.file (copyOf job s item source body).body))
      (planned :
        s'.plannedPaths =
          restoreTarget job s item :: s.plannedPaths)
      (copies :
        s'.copies = s.copies ++ [copyOf job s item source body])
      (size :
        result = .ok () ↔
          item.entry.contentRef.map ContentRef.size =
            some (copyOf job s item source body).body.length) :
      ItemRun job s item s' result

theorem fileAt_of_sourceFile
    {parts : List Text}
    (h : sourceFile disk parts = some (source, body)) :
    fileAt disk source = some body := by
  unfold sourceFile at h
  split at h
  · cases h
  · rcases Option.map_eq_some_iff.mp h with
      ⟨found, hFound, hSame⟩
    cases hSame
    exact hFound

theorem createDirAll_eq_none :
    createDirAll disk p = none ↔ folderWay disk p = false := by
  unfold createDirAll
  split <;> simp_all

theorem canWrite_created
    (h : createDirAll disk p.dropLast = some disk')
    (hPath : p ≠ []) :
    canWrite disk' p = canWrite disk p := by
  have hSame : disk'.nodeAt p = disk.nodeAt p :=
    createDirAll_other h (Files.not_prefix_dropLast hPath)
  simp only [canWrite, fileAt, hSame]

theorem restoreFile_run
    (hFound :
      foundBlob s.disk job.root item.entry = some (source, body))
    (hContent : item.entry.contentRef = some contentRef)
    (hSource : fileAt s.disk source = some body)
    (hPath : item.path ≠ []) :
    ItemRun job s item
      (restoreFile job s item contentRef source).1
      (restoreFile job s item contentRef source).2 := by
  have hTarget : restoreTarget job s item ≠ [] :=
    (chooseRestoreTarget_inside hPath).ne_nil
  unfold restoreFile
  dsimp only
  cases hCreated :
    createDirAll s.disk (restoreTarget job s item).dropLast with
  | none =>
      have hWay := createDirAll_eq_none.mp hCreated
      exact .noFile hFound (by simp [fileWay, hWay]) (.inl rfl)
        rfl rfl
  | some mid =>
      have hWay :
          folderWay s.disk (restoreTarget job s item).dropLast =
            true := by
        rw [← Bool.not_eq_false, ← createDirAll_eq_none, hCreated]
        exact Option.some_ne_none mid
      have hRead : fileAt mid source = some body :=
        fileAt_eq_some.mpr (createDirAll_kept hCreated
          (fileAt_eq_some.mp hSource))
      dsimp only
      unfold copyFile
      rw [hRead, canWrite_created hCreated hTarget]
      dsimp only
      cases hWrite :
        canWrite s.disk (restoreTarget job s item) with
      | false =>
          exact .noFile hFound (by simp [fileWay, hWrite])
            (.inr hCreated) rfl rfl
      | true =>
          have hFree : fileWay job s item = true := by
            simp [fileWay, hWay, hWrite]
          rw [if_pos rfl]
          dsimp only
          split
          · rename_i hSize
            apply ItemRun.copied hFound hFree hCreated rfl rfl rfl
            rw [hContent]
            simpa [copyOf, eq_comm] using hSize
          · rename_i hSize
            apply ItemRun.copied hFound hFree hCreated rfl rfl rfl
            rw [hContent]
            simpa [copyOf, eq_comm] using hSize

theorem restoreBlob_run
    (hFile : item.entry.entryType ≠ .folder)
    (hPath : item.path ≠ []) :
    ItemRun job s item (restoreBlob job s item).1
      (restoreBlob job s item).2 := by
  have hFound := foundBlob.eq_1 s.disk job.root item.entry
  rw [if_neg hFile] at hFound
  unfold restoreBlob
  cases hContent : item.entry.contentRef with
  | none =>
      rw [hContent] at hFound
      exact .skipped hFile hFound rfl rfl rfl
  | some contentRef =>
      rw [hContent] at hFound
      dsimp only at hFound ⊢
      cases hParts :
        blobSourcePath s.disk job.root contentRef with
      | error error =>
          rw [hParts] at hFound
          exact .skipped hFile hFound rfl rfl rfl
      | ok parts =>
          rw [hParts] at hFound
          dsimp only at hFound ⊢
          cases hSource : sourceFile s.disk parts with
          | none =>
              rw [hSource] at hFound
              exact .skipped hFile hFound rfl rfl rfl
          | some found =>
              rcases found with ⟨source, body⟩
              rw [hSource] at hFound
              exact restoreFile_run hFound hContent
                (fileAt_of_sourceFile hSource) hPath

theorem restoreItem_run
    (hPath : item.path ≠ []) :
    ItemRun job s item (restoreItem job s item).1
      (restoreItem job s item).2 := by
  unfold restoreItem
  cases hType : item.entry.entryType with
  | file => exact restoreBlob_run (by simp [hType]) hPath
  | symlink => exact restoreBlob_run (by simp [hType]) hPath
  | folder =>
      dsimp only
      cases hCreated :
        createDirAll s.disk (job.output ++ item.path) with
      | none =>
          exact .noFolder hType (createDirAll_eq_none.mp hCreated)
      | some disk => exact .folder hType hCreated rfl rfl

variable {result : Except String Unit}

theorem OutputInv.afterItem
    (h : OutputInv job start s)
    (hReady : OutputReady start job.output)
    (hPath : item.path ≠ [])
    (hRun : ItemRun job s item s' result) :
    OutputInv job start s' := by
  have hInside : Inside job.output (restoreTarget job s item) :=
    chooseRestoreTarget_inside hPath
  have hParent :
      job.output <+: (restoreTarget job s item).dropLast := by
    rcases hInside with ⟨⟨rest, hTarget⟩, hOther⟩
    have hRest : rest ≠ [] := by
      rintro rfl
      exact hOther (by rw [← hTarget, List.append_nil])
    rw [← hTarget, List.dropLast_append_of_ne_nil hRest]
    exact List.prefix_append _ _
  have hNew :
      restoreTarget job s item ∉ s.plannedPaths ∧
        (job.overwrite = false →
          s.disk.nodeAt (restoreTarget job s item) = none) :=
    chooseRestoreTarget_free
  cases hRun with
  | skipped _ _ hDisk hPlanned hCopies =>
      exact h.same hDisk (by rw [hPlanned]; simp) hCopies
  | folder _ hCreated hPlanned hCopies =>
      exact h.folders hReady (List.prefix_append _ _) hCreated
        (by rw [hPlanned]; simp) hCopies
  | noFolder => exact h
  | noFile _ _ hDisk hPlanned hCopies =>
      have hMore : s.plannedPaths ⊆ s'.plannedPaths := by
        rw [hPlanned]
        exact List.subset_cons_self _ _
      rcases hDisk with hSame | hCreated
      · exact h.same hSame hMore hCopies
      · exact h.folders hReady hParent hCreated hMore hCopies
  | @copied _ mid _ source body _ _ hCreated hDisk hPlanned
      hCopies =>
      have hMid : OutputInv job start { s with disk := mid } :=
        h.folders hReady hParent hCreated (fun _ => id) rfl
      apply hMid.copy (c := copyOf job s item source body) hInside
        hNew.1 ?_ hDisk hPlanned hCopies
      intro hNot
      have hOther :
          mid.nodeAt (restoreTarget job s item) =
            s.disk.nodeAt (restoreTarget job s item) :=
        createDirAll_other hCreated
          (Files.not_prefix_dropLast hInside.ne_nil)
      exact hOther.trans (hNew.2 hNot)

variable {items : List RestoreItem}

theorem OutputInv.afterItems
    (h : OutputInv job start s)
    (hReady : OutputReady start job.output)
    (hPaths : ∀ item ∈ items, item.path ≠ []) :
    OutputInv job start (restoreItems job s items).1 := by
  induction items generalizing s with
  | nil => exact h
  | cons item rest ih =>
      have hNext := h.afterItem hReady
        (hPaths item List.mem_cons_self)
        (restoreItem_run (hPaths item List.mem_cons_self))
      unfold restoreItems
      split
      · rename_i next hResult
        rw [hResult] at hNext
        exact ih hNext fun other hOther =>
          hPaths other (List.mem_cons_of_mem item hOther)
      · rename_i next error hResult
        rw [hResult] at hNext
        exact hNext

------------------------------------------------------------
-- Clear Ways
------------------------------------------------------------

/- An error ends the restore at this entry. -/
def Stops
    (job : RestoreJob)
    (s : RestoreState)
    (item : RestoreItem) : Prop :=
  (item.entry.entryType = .folder ∧
    folderWay s.disk (job.output ++ item.path) = false) ∨
  ∃ source body,
    foundBlob s.disk job.root item.entry = some (source, body) ∧
      (fileWay job s item = false ∨
        item.entry.contentRef.map ContentRef.size ≠
          some (copyOf job s item source body).body.length)

/-
  At every entry: where a blob was found at the start, the
  way is clear and the same bytes are still found there,
  also when the target has been truncated; and what is found
  is below the metadata root. An error is met only after the
  last file that has a blob.
-/
def AllClear
    (job : RestoreJob)
    (start : Disk) :
    RestoreState → List RestoreItem → Prop
  | _, [] => True
  | s, item :: rest =>
      (∀ source body,
        foundBlob start job.root item.entry =
          some (source, body) →
        fileWay job s item = true ∧
          ∃ found,
            foundBlob s.disk job.root item.entry =
                some (source, found) ∧
              copiedBytes source (restoreTarget job s item)
                found = body) ∧
      (∀ source body,
        foundBlob s.disk job.root item.entry =
          some (source, body) →
        fileWay job s item = true → job.root <+: source) ∧
      (Stops job s item →
        ∀ later ∈ rest,
          foundBlob start job.root later.entry = none) ∧
      (¬ Stops job s item →
        AllClear job start (restoreItem job s item).1 rest)

theorem ItemRun.stops
    (h : ItemRun job s item s' result) :
    Stops job s item ↔ result ≠ .ok () := by
  unfold Stops
  cases h with
  | skipped hFile hNone => simp [hFile, hNone]
  | folder hFolder hCreated =>
      have hWay :
          folderWay s.disk (job.output ++ item.path) = true := by
        rw [← Bool.not_eq_false, ← createDirAll_eq_none,
          hCreated]
        exact Option.some_ne_none _
      simp [hFolder, hWay, foundBlob]
  | noFolder hFolder hBlocked => simp [hFolder, hBlocked]
  | noFile hFound hBlocked => simp [hFound, hBlocked]
  | copied hFound hWay _ _ _ _ hSize =>
      have hFile : item.entry.entryType ≠ .folder := by
        intro hFolder
        simp [foundBlob, hFolder] at hFound
      simp [hFound, hWay, hSize, hFile]

/- What was found is copied when the way to it is clear. -/
theorem ItemRun.mem_copies
    {c : Copy}
    (h : ItemRun job s item s' result) :
    c ∈ s'.copies ↔
      c ∈ s.copies ∨
        ∃ source body,
          foundBlob s.disk job.root item.entry =
              some (source, body) ∧
            fileWay job s item = true ∧
            c = copyOf job s item source body := by
  cases h with
  | skipped _ hNone _ _ hCopies => simp [hNone, hCopies]
  | folder hFolder _ _ hCopies =>
      simp [foundBlob, hFolder, hCopies]
  | noFolder hFolder => simp [foundBlob, hFolder]
  | noFile _ hBlocked _ _ hCopies => simp [hBlocked, hCopies]
  | copied hFound hWay _ _ _ hCopies =>
      simp [hFound, hWay, hCopies]

theorem mem_restoreItems_copies
    {c : Copy}
    (hPaths : ∀ item ∈ items, item.path ≠ [])
    (hOther : c.fileId ∉ items.map RestoreItem.fileId) :
    c ∈ (restoreItems job s items).1.copies ↔
      c ∈ s.copies := by
  induction items generalizing s with
  | nil => rfl
  | cons item rest ih =>
      rw [List.map_cons, List.mem_cons, not_or] at hOther
      have hRun :
          ItemRun job s item (restoreItem job s item).1
            (restoreItem job s item).2 :=
        restoreItem_run (hPaths item List.mem_cons_self)
      have hStep :
          c ∈ (restoreItem job s item).1.copies ↔
            c ∈ s.copies := by
        rw [hRun.mem_copies, or_iff_left]
        rintro ⟨source, body, _, _, rfl⟩
        exact hOther.1 rfl
      unfold restoreItems
      split
      · rename_i next hResult
        rw [hResult] at hStep
        rw [← hStep]
        exact ih (fun other hMem =>
          hPaths other (List.mem_cons_of_mem item hMem))
          hOther.2
      · rename_i next error hResult
        rw [hResult] at hStep
        exact hStep

/- The copies of some entries: inside the root, and complete. -/
structure CopiesAll
    (job : RestoreJob)
    (start : Disk)
    (items : List RestoreItem)
    (copies : List Copy) : Prop where
  reads :
    ∀ c ∈ copies, c.fileId ∈ items.map RestoreItem.fileId →
      job.root <+: c.source
  every :
    ∀ item ∈ items, ∀ source body,
      foundBlob start job.root item.entry =
        some (source, body) →
      ∃ target, ⟨item.fileId, source, target, body⟩ ∈ copies

/- The copies of one entry are those of its own step. -/
theorem copiesAll_cons
    {rest : List RestoreItem} {copies : List Copy}
    (hHere :
      ∀ c : Copy, c.fileId = item.fileId →
        (c ∈ copies ↔
          ∃ source body,
            foundBlob s.disk job.root item.entry =
                some (source, body) ∧
              fileWay job s item = true ∧
              c = copyOf job s item source body)) :
    CopiesAll job start (item :: rest) copies ↔
      ((∀ source body,
        foundBlob start job.root item.entry =
          some (source, body) →
        fileWay job s item = true ∧
          ∃ found,
            foundBlob s.disk job.root item.entry =
                some (source, found) ∧
              copiedBytes source (restoreTarget job s item)
                found = body) ∧
      (∀ source body,
        foundBlob s.disk job.root item.entry =
          some (source, body) →
        fileWay job s item = true → job.root <+: source)) ∧
      CopiesAll job start rest copies := by
  constructor
  · intro hAll
    refine ⟨⟨?_, ?_⟩, ?_, ?_⟩
    · intro source body hStart
      rcases hAll.every item List.mem_cons_self source body
        hStart with ⟨target, hCopy⟩
      rcases (hHere _ rfl).mp hCopy with
        ⟨source', found, hFound, hWay, hSame⟩
      injection hSame with _ hSource _ hBody
      subst hSource
      exact ⟨hWay, found, hFound, hBody.symm⟩
    · intro source body hFound hWay
      have hCopy := (hHere (copyOf job s item source body)
        rfl).mpr ⟨source, body, hFound, hWay, rfl⟩
      exact hAll.reads _ hCopy List.mem_cons_self
    · exact fun c hCopy hMem =>
        hAll.reads c hCopy (List.mem_cons_of_mem _ hMem)
    · exact fun other hMem =>
        hAll.every other (List.mem_cons_of_mem item hMem)
  · rintro ⟨⟨hReady, hInside⟩, hRest⟩
    constructor
    · intro c hCopy hMem
      rcases List.mem_cons.mp hMem with hSame | hMem
      · rcases (hHere c hSame).mp hCopy with
          ⟨source, body, hFound, hWay, rfl⟩
        exact hInside source body hFound hWay
      · exact hRest.reads c hCopy hMem
    · intro other hMem source body hStart
      rcases List.mem_cons.mp hMem with rfl | hMem
      · rcases hReady source body hStart with
          ⟨hWay, found, hFound, hBody⟩
        refine ⟨restoreTarget job s other, ?_⟩
        apply (hHere _ rfl).mpr
        refine ⟨source, found, hFound, hWay, ?_⟩
        rw [← hBody]
        rfl
      · exact hRest.every other hMem source body hStart

theorem copiesAll_iff
    (hPaths : ∀ item ∈ items, item.path ≠ [])
    (hIds : (items.map RestoreItem.fileId).Nodup)
    (hNew :
      ∀ c ∈ s.copies,
        c.fileId ∉ items.map RestoreItem.fileId) :
    CopiesAll job start items
        (restoreItems job s items).1.copies ↔
      AllClear job start s items := by
  induction items generalizing s with
  | nil =>
      apply iff_of_true _ trivial
      exact ⟨fun _ _ hMem => absurd hMem List.not_mem_nil,
        fun _ hMem => absurd hMem List.not_mem_nil⟩
  | cons item rest ih =>
      rw [List.map_cons, List.nodup_cons] at hIds
      have hRest : ∀ other ∈ rest, other.path ≠ [] :=
        fun other hMem =>
          hPaths other (List.mem_cons_of_mem item hMem)
      have hRun :
          ItemRun job s item (restoreItem job s item).1
            (restoreItem job s item).2 :=
        restoreItem_run (hPaths item List.mem_cons_self)
      have hStops := hRun.stops
      unfold restoreItems AllClear
      rcases hStep : restoreItem job s item with ⟨next, result⟩
      rw [hStep] at hRun hStops
      have hOwn (c : Copy) (hSame : c.fileId = item.fileId) :
          c ∈ next.copies ↔
            ∃ source body,
              foundBlob s.disk job.root item.entry =
                  some (source, body) ∧
                fileWay job s item = true ∧
                c = copyOf job s item source body := by
        rw [hRun.mem_copies, or_iff_right]
        intro hOld
        apply hNew c hOld
        rw [hSame]
        exact List.mem_cons_self
      have hLater (c : Copy) (hCopy : c ∈ next.copies) :
          c.fileId ∉ rest.map RestoreItem.fileId := by
        rcases hRun.mem_copies.mp hCopy with
          hOld | ⟨source, body, _, _, rfl⟩
        · exact fun hMem =>
            hNew c hOld (List.mem_cons_of_mem _ hMem)
        · exact hIds.1
      cases result with
      | ok done =>
          have hGoes : ¬ Stops job s item := by simp [hStops]
          have hFinal (c : Copy)
              (hSame : c.fileId = item.fileId) :
              c ∈ (restoreItems job next rest).1.copies ↔ _ :=
            (mem_restoreItems_copies hRest
              (by rw [hSame]; exact hIds.1)).trans
              (hOwn c hSame)
          rw [copiesAll_cons hFinal, ih hRest hIds.2 hLater]
          simp only [hGoes, false_imp_iff, not_false_eq_true,
            true_imp_iff, true_and, and_assoc]
      | error error =>
          have hEnds : Stops job s item := by simp [hStops]
          have hNone :
              CopiesAll job start rest next.copies ↔
                ∀ later ∈ rest,
                  foundBlob start job.root later.entry = none := by
            constructor
            · intro hAll later hMem
              cases hFound :
                foundBlob start job.root later.entry with
              | none => rfl
              | some found =>
                  rcases hAll.every later hMem found.1 found.2
                    hFound with ⟨target, hCopy⟩
                  exact absurd (List.mem_map_of_mem hMem)
                    (hLater _ hCopy)
            · intro hNone
              constructor
              · exact fun c hCopy hMem =>
                  absurd hMem (hLater c hCopy)
              · intro later hMem source body hFound
                rw [hNone later hMem] at hFound
                cases hFound
          rw [copiesAll_cons hOwn, hNone]
          simp only [hEnds, not_true_eq_false, false_imp_iff,
            true_imp_iff, and_true, and_assoc]

------------------------------------------------------------
-- Restored Outputs
------------------------------------------------------------

variable {entries : Entries} {entry : FileEntry}

theorem safeRelativePath_ne_nil
    {name : String}
    (h : safeRelativePath name = .ok p) : p ≠ [] := by
  unfold safeRelativePath at h
  dsimp only at h
  split at h
  · cases h
  · split at h
    · cases h
    · split at h
      · cases h
      · split at h
        · cases h
        · rename_i hSome
          rintro rfl
          exact hSome h

theorem entryRelativePath_ne_nil
    (h : entryRelativePath fileId entries = .ok p) : p ≠ [] := by
  unfold entryRelativePath entryRelativePathInner at h
  rw [if_neg List.not_mem_nil] at h
  cases hFound : entries.find fileId with
  | none =>
      rw [hFound] at h
      cases h
  | some entry =>
      rw [hFound] at h
      dsimp only at h
      cases hOwn : safeRelativePath entry.name with
      | error error =>
          rw [hOwn] at h
          cases h
      | ok own =>
          rw [hOwn] at h
          have hOwnPath := safeRelativePath_ne_nil hOwn
          cases hParent : entry.parentId with
          | none =>
              rw [hParent] at h
              cases h
              exact hOwnPath
          | some parentId =>
              rw [hParent] at h
              change (entryRelativePathInner entries _ parentId _
                >>= fun above => pure (above ++ own)) = _ at h
              cases hAbove : entryRelativePathInner entries
                entries.length parentId [fileId] with
              | error error =>
                  rw [hAbove] at h
                  cases h
              | ok above =>
                  rw [hAbove] at h
                  cases h
                  simp [hOwnPath]

theorem itemOf_eq_some
    {x : FileId × FileEntry} :
    itemOf entries x = some item ↔
      isGone entries x.1 = false ∧ item.fileId = x.1 ∧
        item.entry = x.2 ∧
        entryRelativePath x.1 entries = .ok item.path := by
  unfold itemOf
  cases hGone : isGone entries x.1 with
  | true => simp
  | false =>
      cases hPath : entryRelativePath x.1 entries with
      | error error => simp
      | ok path =>
          rcases item with ⟨fileId, entry, itemPath⟩
          simp [eq_comm]

theorem mem_sortedItems :
    item ∈ sortedItems entries ↔
      (item.fileId, item.entry) ∈ entries ∧
        isGone entries item.fileId = false ∧
        entryRelativePath item.fileId entries =
          .ok item.path := by
  unfold sortedItems
  rw [List.mem_insertionSort, List.mem_filterMap]
  constructor
  · rintro ⟨⟨id, entry⟩, hMem, hItem⟩
    rcases itemOf_eq_some.mp hItem with
      ⟨hThere, rfl, rfl, hPath⟩
    exact ⟨hMem, hThere, hPath⟩
  · rintro ⟨hMem, hThere, hPath⟩
    exact ⟨_, hMem,
      itemOf_eq_some.mpr ⟨hThere, rfl, rfl, hPath⟩⟩

theorem sortedItems_nodup
    (h : (entries.map Prod.fst).Nodup) :
    ((sortedItems entries).map RestoreItem.fileId).Nodup := by
  have hPerm :
      ((sortedItems entries).map RestoreItem.fileId).Perm
        ((entries.filterMap (itemOf entries)).map
          RestoreItem.fileId) :=
    (List.perm_insertionSort _ _).map _
  rw [hPerm.nodup_iff, List.Nodup, List.pairwise_map,
    List.pairwise_filterMap]
  apply (List.pairwise_map.mp h).imp
  intro x y hOther item hItem item' hItem'
  rw [(itemOf_eq_some.mp hItem).2.1,
    (itemOf_eq_some.mp hItem').2.1]
  exact hOther

/-
  What a restore is for: it reads below the metadata root
  and writes below the output folder, copies every live file
  whose blob is there and whose path is usable to a path of
  its own, and leaves what was there before, unless it was
  asked to overwrite.
-/
structure Restored
    (job : RestoreJob)
    (start : Disk)
    (entries : Entries)
    (final : RestoreState) : Prop where
  reads : ∀ c ∈ final.copies, job.root <+: c.source
  outside :
    ∀ p, ¬ Inside job.output p →
      final.disk.nodeAt p = start.nodeAt p
  kept :
    job.overwrite = false →
      ∀ p node, start.nodeAt p = some node →
        final.disk.nodeAt p = some node
  own : (final.copies.map Copy.target).Nodup
  intact :
    ∀ c ∈ final.copies,
      final.disk.nodeAt c.target = some (.file c.body)
  every :
    ∀ fileId entry path,
      (fileId, entry) ∈ entries →
      isGone entries fileId = false →
      entryRelativePath fileId entries = .ok path →
      ∀ source body,
        foundBlob start job.root entry = some (source, body) →
        ∃ target, ⟨fileId, source, target, body⟩ ∈ final.copies

/- A bucket with one blob, beside an empty output folder. -/
def bucketDisk : Disk :=
  ⟨[(["out".toList], .folder),
    (["secret".toList], .file [7]),
    (["bucket".toList], .folder),
    (["bucket".toList, "content".toList], .folder),
    (["bucket".toList, "content".toList, "blobs".toList],
      .folder),
    (["bucket".toList, "content".toList, "blobs".toList,
      "af".toList], .folder),
    (["bucket".toList, "content".toList, "blobs".toList,
      "af".toList, "af13".toList], .file [5])]⟩

def bucketJob : RestoreJob where
  root := ["bucket".toList]
  output := ["out".toList]
  overwrite := false

def bucketEntry
    (fileId : FileId)
    (name hash storageKey : String) : FileEntry where
  fileId := fileId
  parentId := none
  name := name
  entryType := .file
  currentRevisionId := none
  contentRef := some ⟨fileId, hash, 1, "text/plain", storageKey⟩
  size := 1
  contentHash := none
  mime := none
  updatedAt := 0
  deletedAt := none
  versionHistory := []

def oneFile : Entries :=
  [(1, bucketEntry 1 "a" "af13" "content/blobs/af/af13")]

/- One name is the folder of the other one. -/
def clashingFiles : Entries :=
  oneFile ++
    [(2, bucketEntry 2 "a/b" "af13" "content/blobs/af/af13")]

/- A hash that leads out of the bucket. -/
def leakingFile : Entries :=
  [(1, bucketEntry 1 "a" "../../../secret" "content/none")]

theorem bucket_output_ready :
    OutputReady bucketDisk bucketJob.output := by
  intro q hPath hPrefix
  have hSame : q = ["out".toList] := by
    rcases List.prefix_cons_iff.mp hPrefix with
      rfl | ⟨rest, rfl, hRest⟩
    · exact absurd rfl hPath
    · rw [List.prefix_nil.mp hRest]
  rw [hSame]
  decide +kernel

/- One restore after the other, with all that they copy. -/
def restoreAll
    (start : Disk) :
    List (RestoreJob × Entries) → Disk × List Copy
  | [] => (start, [])
  | (job, entries) :: rest =>
      let done := (restoreEntriesToOutput job start entries).1
      let later := restoreAll done.disk rest
      (later.1, done.copies ++ later.2)

/-
  Restores into one folder that may not overwrite lose no
  file, neither one that was there nor one that an earlier
  restore has copied, and they leave the rest of the disk
  alone. This is so for all buckets, also where some of the
  restores fail half-way.
-/
theorem restores_keep_earlier_copies
    {output : Path} {rounds : List (RestoreJob × Entries)}
    (hReady : OutputReady start output)
    (hJobs : ∀ round ∈ rounds,
      round.1.output = output ∧ round.1.overwrite = false) :
    (∀ p, ¬ Inside output p →
        (restoreAll start rounds).1.nodeAt p =
          start.nodeAt p) ∧
      (∀ p node, start.nodeAt p = some node →
        (restoreAll start rounds).1.nodeAt p = some node) ∧
      ∀ c ∈ (restoreAll start rounds).2,
        (restoreAll start rounds).1.nodeAt c.target =
          some (.file c.body) := by
  -- Each restore starts from the disk that the last one left.
  induction rounds generalizing start with
  | nil =>
      exact ⟨fun _ _ => rfl, fun _ _ h => h,
        fun c h => absurd h List.not_mem_nil⟩
  | cons round rest ih =>
      rcases round with ⟨job, entries⟩
      rcases hJobs _ List.mem_cons_self with ⟨rfl, hNot⟩
      have hInv : OutputInv job start
          (restoreEntriesToOutput job start entries).1 :=
        (OutputInv.initial job start entries).afterItems hReady
          fun item hMem => entryRelativePath_ne_nil
            (mem_sortedItems.mp hMem).2.2
      rcases ih (hInv.ready hReady) fun other hOther =>
          hJobs other (List.mem_cons_of_mem _ hOther) with
        ⟨hOutside, hKept, hIntact⟩
      refine ⟨?_, ?_, ?_⟩
      · intro p hp
        exact (hOutside p hp).trans (hInv.outside p hp)
      · intro p node hNode
        exact hKept p node (hInv.kept hNot p node hNode)
      · intro c hCopy
        rcases List.mem_append.mp hCopy with hNow | hLater
        · exact hKept _ _ (hInv.intact c hNow)
        · exact hIntact c hLater

/- A second restore of the file puts it beside the first. -/
theorem file_restored_twice :
    ((restoreAll bucketDisk [(bucketJob, oneFile),
        (bucketJob, oneFile)]).2.map Copy.target).Nodup ∧
      ∀ c ∈ (restoreAll bucketDisk [(bucketJob, oneFile),
          (bucketJob, oneFile)]).2,
        (restoreAll bucketDisk [(bucketJob, oneFile),
          (bucketJob, oneFile)]).1.nodeAt c.target =
            some (.file c.body) := by
  refine ⟨by decide +kernel, ?_⟩
  exact (restores_keep_earlier_copies bucket_output_ready
    (by simp [bucketJob])).2.2

end Recovery

end S4Drive

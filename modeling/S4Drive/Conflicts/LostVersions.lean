import Mathlib.Data.Fintype.EquivFin
import Mathlib.Data.Set.Finite.Basic
import S4Drive.Conflicts.KeptVersions

/-
  When the resolution of a conflict keeps both versions, and
  when it may lose the local one. When something is at the
  path of the recorded copy, no other copy is made, so the
  local file is lost if its bytes are nowhere else; it is
  replaced, or removed, or left in a file of its own when a
  rename fails twice.

  Main declarations:
    * `giveUpLocal_loses`
    * `versions_kept_iff`
-/

------------------------------------------------------------
-- Names and Folders
------------------------------------------------------------

namespace S4Drive

open Concurrency FileTree

namespace Conflicts

open Recovery (Path Bytes Disk isDir fileAt canWrite
  createDirAll fileAt_eq_some)

variable {d d' : Disk} {p q source target : Path}
variable {body bytes : Bytes} {blake3 : Bytes → Bytes}
variable {s s' w : Desktop} {record : ConflictRecord}
variable {syncFolder localPath : Path} {remotePath : Text}
variable {resolution : Resolution} {conflictId : Text}

theorem nodeAt_of_notMem
    (h : p ∉ d.entries.map Prod.fst) : d.nodeAt p = none := by
  cases hNode : d.nodeAt p with
  | none => rfl
  | some node =>
      have hIn := Files.mem_of_nodeAt hNode
      exact absurd (List.mem_map.mpr ⟨_, hIn, rfl⟩) h

/- There are more names than the disk has. -/
theorem exists_new_name
    (d : Disk)
    (avoid : List Path)
    (parent : Path)
    (before after : Text) :
    ∃ text : Text,
      d.nodeAt (parent ++ [before ++ text ++ after]) = none ∧
        parent ++ [before ++ text ++ after] ∉ avoid := by
  have hInjective : Function.Injective fun text : Text =>
      parent ++ [before ++ text ++ after] := by
    intro text text' hSame
    simpa using hSame
  have hMany := Set.infinite_range_of_injective hInjective
  rcases hMany.exists_notMem_finset
      (d.entries.map Prod.fst ++ avoid).toFinset with
    ⟨_, ⟨text, rfl⟩, hOut⟩
  rw [List.mem_toFinset, List.mem_append, not_or] at hOut
  exact ⟨text, nodeAt_of_notMem hOut.1, hOut.2⟩

theorem writeFile_new
    (hFree : d.nodeAt p = none)
    (hDir : isDir d p.dropLast = true) :
    writeFile d p body = some (d.set p (.file body)) := by
  simp [writeFile, canWrite, hFree, hDir]

theorem isDir_set
    {node : Node Bytes}
    (hDir : isDir d q = true)
    (hFree : d.nodeAt p = none) :
    isDir (d.set p node) q = true := by
  simp only [isDir, Bool.or_eq_true, decide_eq_true_eq,
    Files.nodeAt_set] at hDir ⊢
  refine hDir.imp_right fun hFolder => ?_
  rw [if_neg, hFolder]
  rintro rfl
  rw [hFree] at hFolder
  cases hFolder

theorem isDir_erase
    (hDir : isDir d q = true)
    (hFile : fileAt d p = some body) :
    isDir (d.erase p) q = true := by
  simp only [isDir, Bool.or_eq_true, decide_eq_true_eq,
    Files.nodeAt_erase] at hDir ⊢
  refine hDir.imp_right fun hFolder => ?_
  rw [if_neg, hFolder]
  rintro rfl
  rw [fileAt_eq_some.mp hFile] at hFolder
  cases hFolder

theorem isDir_parent
    (hRooted : d.Rooted)
    (hFile : fileAt d p = some body) :
    isDir d p.dropLast = true := by
  have hPresent : d.nodeAt p ≠ none := by
    simp [fileAt_eq_some.mp hFile]
  have hFolder := (hRooted p hPresent).2
  unfold Files.hasFolder at hFolder
  simpa [isDir] using hFolder

theorem not_isDir
    (hRooted : d.Rooted)
    (hFile : fileAt d p = some body) : isDir d p = false := by
  have hNode := fileAt_eq_some.mp hFile
  have hPath : p ≠ [] := (hRooted p (by simp [hNode])).1
  simp [isDir, hPath, hNode]

/- The bytes of the local file are gone. -/
def Lost
    (record : ConflictRecord)
    (p : Path)
    (body : Bytes)
    (w : Desktop) : Prop :=
  fileAt w.disk p ≠ some body ∧ ¬ Preserved record w p body

theorem Lost.not_kept
    (h : Lost record p body s')
    (hFile : fileAt s.disk p = some body) :
    ¬ VersionsKept syncFolder record s s' := by
  intro hKept
  rcases hKept p body hFile with hThere | ⟨_, hPreserved⟩
  · exact h.1 hThere
  · exact h.2 hPreserved

/- No copy has got the bytes since. -/
theorem nowhere_of
    (hNowhere : ¬ Preserved record s p body)
    (hOthers :
      ∀ q, q ≠ p →
        conflictCopyPath record = some q ∨ q ∈ s.copies →
        fileAt d q = fileAt s.disk q) :
    ¬ Preserved record { s with disk := d } p body := by
  intro hPreserved
  apply hNowhere
  rcases hPreserved with ⟨q, hOther, hCopy, hFile⟩ | hCommitted
  · exact .inl ⟨q, hOther, hCopy,
      (hOthers q hOther hCopy).symm.trans hFile⟩
  · exact .inr hCommitted

/- A path that is neither a copy's nor in use. -/
structure NewPath
    (record : ConflictRecord)
    (w : Desktop)
    (parent q : Path) : Prop where
  free : w.disk.nodeAt q = none
  unrecorded : conflictCopyPath record ≠ some q
  unused : q ∉ w.copies
  beside : q.dropLast = parent

theorem NewPath.ne
    {parent : Path}
    (h : NewPath record w parent q)
    (hFile : fileAt w.disk p = some body) : q ≠ p := by
  rintro rfl
  rw [fileAt_none h.free] at hFile
  cases hFile

theorem NewPath.ne_copy
    {parent q' : Path}
    (h : NewPath record w parent q)
    (hCopy : conflictCopyPath record = some q' ∨ q' ∈ w.copies) :
    q' ≠ q := by
  rintro rfl
  rcases hCopy with hCopy | hCopy
  · exact h.unrecorded hCopy
  · exact h.unused hCopy

------------------------------------------------------------
-- Losing Runs
------------------------------------------------------------

variable {α : Type}

/- A request that is answered in one of the possible ways. -/
theorem runs_answer
    {r : DeskReq} {answer : DeskResp r → Except DeskError α}
    {b : DeskResp r} {a : α}
    (k : DeskChoice)
    (hServe : serveDesk blake3 r k s = some (b, s'))
    (hAnswer : answer b = .ok a) :
    Prog.Runs (deskMachine blake3) (Script.call r answer (), s)
      (.done (.ok a, ()), s') := by
  rw [← hAnswer]
  exact runs_call hServe

theorem runs_asked
    {r : DeskReq} {b : DeskResp r}
    (k : DeskChoice)
    (hServe : serveDesk blake3 r k s = some (b, s')) :
    Prog.Runs (deskMachine blake3)
      ((Script.request r : DeskM (DeskResp r)) (), s)
      (.done (.ok b, ()), s') :=
  runs_request hServe

theorem runs_step
    {r : DeskReq} {made : DeskResp r → Bool} {text : String}
    {b : DeskResp r}
    (k : DeskChoice)
    (hServe : serveDesk blake3 r k s = some (b, s'))
    (hMade : made b = true) :
    Prog.Runs (deskMachine blake3) (step r made text (), s)
      (.done (.ok (), ()), s') :=
  runs_answer k hServe (if_pos hMade)

theorem restoreSidecarPath_runs
    (blake3 : Bytes → Bytes)
    (record : ConflictRecord)
    (w : Desktop)
    (targetPath : Path)
    (label : String) :
    ∃ q, NewPath record w targetPath.dropLast q ∧
      Prog.Runs (deskMachine blake3)
        (restoreSidecarPath targetPath label (), w)
        (.done (.ok q, ()), w) := by
  obtain ⟨text, hFree, hOut⟩ := exists_new_name w.disk
    (w.copies ++ (conflictCopyPath record).toList)
    targetPath.dropLast
    ('.' :: targetPath.getLastD "restore".toList ++
      ".s4drive-".toList ++ label.toList ++ ['-'])
    ".tmp".toList
  rw [List.mem_append, not_or] at hOut
  refine ⟨_, ⟨hFree, ?_, hOut.1, ?_⟩, ?_⟩
  · intro hCopy
    exact hOut.2 (by rw [hCopy]; exact List.mem_singleton_self _)
  · exact List.dropLast_concat
  · apply runs_answer (.uuid text) _ rfl
    simp only [serveDesk, hFree, if_true]

/-
  The file is moved to the backup; then the download is not
  put in its place, nor the backup.
-/
theorem replaceExistingRestoreTarget_loses
    {tmpPath : Path}
    (hFile : fileAt w.disk localPath = some body)
    (hNoDir : isDir w.disk localPath = false)
    (hParent : isDir w.disk localPath.dropLast = true)
    (hNowhere : ¬ Preserved record w localPath body) :
    MayReach (deskMachine blake3)
      (replaceExistingRestoreTarget tmpPath localPath) ()
      (Lost record localPath body) w := by
  have hMetadata :
      serveDesk blake3 (.metadata localPath) .ok w =
        some (some false, w) := by
    simp [serveDesk, pathExists_of_fileAt hFile, hNoDir]
  apply MayReach.next (runs_answer .ok hMetadata rfl)
  obtain ⟨backupPath, hNew, hName⟩ := restoreSidecarPath_runs
    blake3 record w localPath "backup"
  apply MayReach.next hName
  let d := (w.disk.erase localPath).set backupPath (.file body)
  have hMoved :
      renameFile w.disk localPath backupPath = some d := by
    unfold renameFile
    rw [hFile]
    apply writeFile_new
    · rw [Files.nodeAt_erase, hNew.free, ite_self]
    · rw [hNew.beside]
      exact isDir_erase hParent hFile
  have hRename :
      serveDesk blake3 (.rename localPath backupPath) .ok w =
        some (true, { w with disk := d }) :=
    congrArg some (congrArg w.onDisk hMoved)
  apply MayReach.next (runs_step .ok hRename rfl)
  apply MayReach.here
  refine ⟨?_, nowhere_of hNowhere ?_⟩
  · simp [d, fileAt_set, fileAt_erase, (hNew.ne hFile).symm]
  · intro q hOther hCopy
    simp [d, fileAt_set, fileAt_erase, hOther,
      hNew.ne_copy hCopy]

theorem placeDownload_loses
    {tmpPath : Path}
    (hFile : fileAt w.disk localPath = some body)
    (hNoDir : isDir w.disk localPath = false)
    (hParent : isDir w.disk localPath.dropLast = true)
    (hNowhere : ¬ Preserved record w localPath body) :
    MayReach (deskMachine blake3)
      (placeDownload tmpPath localPath) ()
      (Lost record localPath body) w := by
  apply MayReach.first
  apply MayReach.attempt
  have hRename :
      serveDesk blake3 (.rename tmpPath localPath) .failed w =
        some (false, w) := rfl
  apply MayReach.next (runs_asked .failed hRename)
  have hExists :
      serveDesk blake3 (.tryExists localPath) .ok w =
        some (some true, w) := by
    simp [serveDesk, pathExists_of_fileAt hFile]
  apply MayReach.next (runs_answer .ok hExists rfl)
  exact replaceExistingRestoreTarget_loses hFile hNoDir hParent
    hNowhere

/- There is a cloud version, which is downloaded. -/
theorem downloadRemoteEntryToLocal_loses
    {entry : FileEntry} {contentRef : ContentRef}
    (hRooted : s.disk.Rooted)
    (hFile : fileAt s.disk localPath = some body)
    (hNowhere : ¬ Preserved record s localPath body)
    (hEntry : s.tree record.fileId = some entry)
    (hContent : entry.contentRef = some contentRef)
    (hBlob : s.blobs contentRef.storageKey = some bytes) :
    MayReach (deskMachine blake3)
      (downloadRemoteEntryToLocal record localPath remotePath) ()
      (Lost record localPath body) s := by
  have hParent := isDir_parent hRooted hFile
  have hGet :
      serveDesk blake3 (.getEntry record.fileId) .ok s =
        some (.ok entry, s) := by
    simp [serveDesk, hEntry]
  apply MayReach.next (runs_answer .ok hGet rfl)
  have hFound :
      Prog.Runs (deskMachine blake3)
        (Script.ofExcept (contentOf record entry) (), s)
        (.done (.ok contentRef, ()), s) := by
    unfold contentOf
    rw [hContent]
    exact .refl
  apply MayReach.next hFound
  have hFolder :
      serveDesk blake3 (.createDirAll localPath.dropLast) .ok s =
        some (true, s) :=
    congrArg some (congrArg s.onDisk
      (createDirAll_of_isDir hRooted hParent))
  apply MayReach.next (runs_step .ok hFolder rfl)
  obtain ⟨tmpPath, hNew, hName⟩ := restoreSidecarPath_runs
    blake3 record s localPath "remote-resolution"
  apply MayReach.next hName
  let d := s.disk.set tmpPath (.file bytes)
  have hWritten : writeFile s.disk tmpPath bytes = some d := by
    apply writeFile_new hNew.free
    rw [hNew.beside]
    exact hParent
  have hDownload :
      serveDesk blake3 (.download contentRef.storageKey tmpPath)
        .ok s =
          some (.ok bytes.length, { s with disk := d }) := by
    simp only [serveDesk, hBlob, hWritten]
  apply MayReach.next (runs_answer .ok hDownload rfl)
  have hThere : fileAt d localPath = some body := by
    rw [fileAt_set, if_neg (hNew.ne hFile).symm, hFile]
  apply MayReach.first
  apply placeDownload_loses hThere
  · have hNoDir := not_isDir hRooted hFile
    simp only [isDir, Bool.or_eq_false_iff] at hNoDir ⊢
    exact ⟨hNoDir.1, by simp [fileAt_eq_some.mp hThere]⟩
  · exact isDir_set hParent hNew.free
  · apply nowhere_of hNowhere
    intro q _ hCopy
    rw [fileAt_set, if_neg (hNew.ne_copy hCopy)]

theorem recordedCopy_runs
    (blake3 : Bytes → Bytes)
    (hCopy : CopyExists record s.disk) :
    ∃ q, Prog.Runs (deskMachine blake3) (recordedCopy record (), s)
      (.done (.ok (some q), ()), s) := by
  rcases hCopy with ⟨q, hPath, hExists⟩
  have hServe :
      serveDesk blake3 (.exists q) .ok s = some (true, s) :=
    congrArg (fun there => some (there, s)) hExists
  refine ⟨q, ?_⟩
  unfold recordedCopy
  rw [hPath]
  exact runs_bind (runs_asked .ok hServe)

/- No copy is made when something is at the recorded path. -/
theorem ensureLocalConflictCopy_runs
    (blake3 : Bytes → Bytes)
    (hCopy : CopyExists record s.disk) :
    ∃ q, Prog.Runs (deskMachine blake3)
      (ensureLocalConflictCopy syncFolder record localPath
        remotePath (), s)
      (.done (.ok (some q), ()), s) := by
  rcases recordedCopy_runs blake3 hCopy with
    ⟨q, hRuns⟩
  exact ⟨q, runs_bind hRuns⟩

/- The file was deleted, and so is the local one. -/
theorem acceptRemoteDelete_loses
    (hFile : fileAt s.disk localPath = some body)
    (hNowhere : ¬ Preserved record s localPath body)
    (hCopy : CopyExists record s.disk) :
    MayReach (deskMachine blake3)
      (acceptRemoteDelete syncFolder record localPath
        remotePath) ()
      (Lost record localPath body) s := by
  rcases ensureLocalConflictCopy_runs blake3 hCopy
    with ⟨q, hRuns⟩
  apply MayReach.next hRuns
  have hExists :
      serveDesk blake3 (.exists localPath) .ok s =
        some (true, s) :=
    congrArg (fun there => some (there, s))
      (pathExists_of_fileAt hFile)
  apply MayReach.next (runs_asked .ok hExists)
  let d := s.disk.erase localPath
  have hRemoved : removeFile s.disk localPath = some d := by
    unfold removeFile
    rw [hFile]
    rfl
  have hRemove :
      serveDesk blake3 (.removeFile localPath) .ok s =
        some (true, { s with disk := d }) :=
    congrArg some (congrArg s.onDisk hRemoved)
  rw [if_pos rfl]
  apply MayReach.next (runs_step .ok hRemove rfl)
  apply MayReach.here
  refine ⟨?_, nowhere_of hNowhere ?_⟩
  · simp [d, fileAt_erase]
  · intro q hOther _
    rw [fileAt_erase, if_neg hOther]

theorem takeRemote_loses
    {preserved : Option Path}
    (hRooted : s.disk.Rooted)
    (hFile : fileAt s.disk localPath = some body)
    (hNowhere : ¬ Preserved record s localPath body)
    (hCopy : CopyExists record s.disk)
    (hReplaces : Replaces record s) :
    MayReach (deskMachine blake3)
      (takeRemote syncFolder record localPath remotePath
        preserved) ()
      (Lost record localPath body) s := by
  unfold Replaces at hReplaces
  split at hReplaces
  · rename_i entry hEntry
    rcases hReplaces with ⟨contentRef, hContent, hBlob⟩
    rcases Option.isSome_iff_exists.mp hBlob with ⟨bytes, hBytes⟩
    apply MayReach.first
    apply MayReach.attempt
    exact downloadRemoteEntryToLocal_loses hRooted hFile hNowhere
      hEntry hContent hBytes
  · rename_i hEntry
    have hGet :
        serveDesk blake3 (.getEntry record.fileId) .ok s =
          some (.error .remoteDeleted, s) := by
      simp [serveDesk, hEntry]
    have hDeleted :
        Prog.Runs (deskMachine blake3)
          (downloadRemoteEntryToLocal record localPath remotePath
            (), s)
          (.done (.error .remoteDeleted, ()), s) :=
      runs_bind_error
        (runs_call (M := deskMachine blake3) (c := .ok) hGet)
    have hBranch :
        (decide (record.conflictType = "delete_edit") &&
          DeskError.remoteDeleted.saysDeleted) = true := by
      rw [hReplaces]
      rfl
    apply MayReach.next (runs_attempt hDeleted)
    dsimp only
    rw [if_pos hBranch]
    exact acceptRemoteDelete_loses hFile hNowhere hCopy

theorem giveUpLocal_loses
    (hRooted : s.disk.Rooted)
    (hFile : fileAt s.disk localPath = some body)
    (h :
      Endangered syncFolder record resolution s localPath body) :
    MayReach (deskMachine blake3)
      (giveUpLocal syncFolder record localPath remotePath
        resolution) ()
      (Lost record localPath body) s := by
  rcases ensureLocalConflictCopy_runs blake3
    h.recorded with ⟨q, hRuns⟩
  apply MayReach.next hRuns
  apply MayReach.first
  exact takeRemote_loses hRooted hFile h.nowhere h.recorded
    h.replaced

------------------------------------------------------------
-- When the Versions Are Kept
------------------------------------------------------------

theorem conflictRemotePath_ok
    {row : Option IndexRow}
    (h : syncFolder <+: localPath) :
    ∃ remotePath,
      conflictRemotePath syncFolder row record (some localPath) =
        .ok remotePath := by
  unfold conflictRemotePath
  simp only
  split
  · exact ⟨_, rfl⟩
  · rw [if_pos h]
    exact ⟨_, rfl⟩

theorem resolveConflict_loses
    (blake3 : Bytes → Bytes)
    (hRooted : s.disk.Rooted)
    (hOpen : findOpenConflict s.conflicts conflictId = .ok record)
    (hPath : LocalPath syncFolder record s localPath)
    (hFile : fileAt s.disk localPath = some body)
    (h :
      Endangered syncFolder record resolution s localPath body) :
    MayReach (deskMachine blake3)
      (resolveConflict syncFolder conflictId resolution) ()
      (Lost record localPath body) s := by
  have hDir : isDir s.disk syncFolder = true :=
    isDir_above hRooted hPath.prefix h.inside hFile
  have hPrepare :
      serveDesk blake3 (.prepareSyncFolder syncFolder) .ok s =
        some (true, s) :=
    congrArg some (congrArg s.onDisk
      (createDirAll_of_isDir hRooted hDir))
  apply MayReach.next (runs_step .ok hPrepare rfl)
  have hConflicts :
      serveDesk blake3 .openConflicts .ok s =
        some (some s.conflicts, s) := rfl
  apply MayReach.next (runs_answer .ok hConflicts rfl)
  have hFound :
      Prog.Runs (deskMachine blake3)
        (Script.ofExcept
          (findOpenConflict s.conflicts conflictId) (), s)
        (.done (.ok record, ()), s) := by
    rw [hOpen]
    exact .refl
  apply MayReach.next hFound
  have hIsDir :
      serveDesk blake3 (.isDir syncFolder) .ok s =
        some (true, s) :=
    congrArg (fun there => some (there, s)) hDir
  apply MayReach.next (runs_step .ok hIsDir rfl)
  have hInside := hPath.prefix
  rcases hPath with ⟨row, hRow, hLocal⟩
  have hRead :
      ∃ k, serveDesk blake3 (.indexRow record.fileId) k s =
        some (row, s) := by
    rcases hRow with rfl | rfl
    · exact ⟨.failed, rfl⟩
    · exact ⟨.ok, rfl⟩
  rcases hRead with ⟨k, hRead⟩
  apply MayReach.next (runs_asked k hRead)
  have hLocalPath :
      Prog.Runs (deskMachine blake3)
        (Script.ofExcept
          (conflictLocalPath syncFolder row record) (), s)
        (.done (.ok localPath, ()), s) := by
    rw [hLocal]
    exact .refl
  apply MayReach.next hLocalPath
  apply MayReach.next (runs_asked k hRead)
  have hRemote :
      ∃ remotePath,
        conflictRemotePath syncFolder row record
          (some localPath) = .ok remotePath :=
    conflictRemotePath_ok hInside
  rcases hRemote with ⟨remotePath, hRemote⟩
  have hRemotePath :
      Prog.Runs (deskMachine blake3)
        (Script.ofExcept
          (conflictRemotePath syncFolder row record
            (some localPath)) (), s)
        (.done (.ok remotePath, ()), s) := by
    rw [hRemote]
    exact .refl
  apply MayReach.next hRemotePath
  apply MayReach.first
  rw [resolveAs_eq h.given]
  exact giveUpLocal_loses hRooted hFile h

/-
  The command keeps all files, and the bytes of the local
  one wherever it stops, if and only if it does not give up
  a file of which it makes no copy.
-/
theorem versions_kept_iff
    (blake3 : Bytes → Bytes)
    (syncFolder : Path)
    (conflictId : Text)
    (resolution : Resolution)
    (record : ConflictRecord)
    (s : Desktop)
    (hRooted : s.disk.Rooted)
    (hOpen :
      findOpenConflict s.conflicts conflictId = .ok record) :
    (∀ p s',
        Prog.Runs (deskMachine blake3)
          (resolveConflict syncFolder conflictId resolution (), s)
          (p, s') →
        VersionsKept syncFolder record s s') ↔
      ∀ p body,
        LocalPath syncFolder record s p →
        fileAt s.disk p = some body →
        ¬ Endangered syncFolder record resolution s p body := by
  constructor
  · intro hKept p body hPath hFile hEndangered
    rcases resolveConflict_loses blake3 hRooted hOpen
      hPath hFile hEndangered with ⟨q, s', hRuns, hLost⟩
    exact hLost.not_kept hFile (hKept q s' hRuns)
  · intro hSafe p s' hRuns
    have hStays := resolveConflict_stays blake3
      hRooted hOpen hSafe
    exact hStays.runs (Framed.refl [] s).versionsKept hRuns

/- A file that was edited again after its copy was made. -/
def sampleRecord : ConflictRecord where
  conflictId := ['7']
  fileId := 1
  localPath := "/s/a".toList
  remotePath := ['a']
  siblingPath := "/s/c".toList
  conflictType := "edit_edit"

def sampleEntry : FileEntry where
  fileId := 1
  parentId := none
  name := "a"
  entryType := .file
  currentRevisionId := some 2
  contentRef := some ⟨3, "h", 1, "text/plain", "k"⟩
  size := 1
  contentHash := none
  mime := none
  updatedAt := 0
  deletedAt := none
  versionHistory := [2]

def sampleFolder : Path := [['s']]

def sampleDisk : Disk :=
  ((Files.empty.put [['s']] .folder).put
    [['s'], ['a']] (.file [2])).put [['s'], ['c']] (.file [1])

def sampleDesktop (record : ConflictRecord) : Desktop where
  disk := sampleDisk
  conflicts := [record]
  index := fun _ => none
  tree := fun id => if id = 1 then some sampleEntry else none
  blobs := fun key => if key = "k" then some [9] else none
  committed := []
  copies := []

/- Nothing fails. -/
def samplePick : DeskReq → Desktop → DeskChoice
  | .newName _ _ _, _ => .uuid ['1']
  | .now, _ => .time [] 0
  | _, _ => .ok

theorem sampleDisk_rooted : sampleDisk.Rooted := by
  apply Files.Rooted.put _ (by simp) (by decide)
  apply Files.Rooted.put _ (by simp) (by decide)
  apply Files.Rooted.put _ (by simp) (by decide)
  exact Files.rooted_empty

/- The cloud version is taken, and the edit is nowhere. -/
theorem edit_of_the_local_file_lost :
    fileAt (sampleDesktop sampleRecord).disk [['s'], ['a']] =
        some [2] ∧
      ∃ taken s',
        Prog.Runs (deskMachine id)
          (resolveConflict sampleFolder ['7'] .keepRemote (),
            sampleDesktop sampleRecord)
          (.done (.ok taken, ()), s') ∧
        ¬ VersionsKept sampleFolder sampleRecord
          (sampleDesktop sampleRecord) s' := by
  refine ⟨by decide, ?_⟩
  let run :=
    (resolveConflict sampleFolder ['7'] .keepRemote ()).exec
      (deskMachine id) () samplePick (sampleDesktop sampleRecord)
  have hFiles :
      run.map (fun r => (r.1.1.isOk,
        fileAt r.2.disk [['s'], ['a']],
        fileAt r.2.disk [['s'], ['c']])) =
      some (true, some [9], some [1]) := by
    decide +kernel
  have hServer :
      run.map (fun r => (r.2.copies, r.2.committed)) =
        some ([], []) := by
    decide +kernel
  cases hRun : run with
  | none =>
      rw [hRun] at hServer
      cases hServer
  | some result =>
      rcases result with ⟨⟨taken, _⟩, s'⟩
      rw [hRun] at hFiles hServer
      simp only [Option.map_some, Option.some.injEq,
        Prod.mk.injEq] at hFiles hServer
      rcases hFiles with ⟨hOk, hLocal, hCopy⟩
      cases taken with
      | error e => cases hOk
      | ok taken =>
          refine ⟨taken, s', Prog.runs_of_exec hRun, ?_⟩
          have hLost :
              Lost sampleRecord [['s'], ['a']] [2] s' := by
            refine ⟨by simp [hLocal], ?_⟩
            rintro (⟨q, _, hPath | hIn, hFile⟩ | ⟨c, hIn, _⟩)
            · have hRecorded :
                  conflictCopyPath sampleRecord =
                    some [['s'], ['c']] := by decide
              cases hRecorded.symm.trans hPath
              simp [hCopy] at hFile
            · simp [hServer.1] at hIn
            · simp [hServer.2] at hIn
          exact hLost.not_kept (by decide)

/- The same conflict without a recorded copy. -/
def sampleFresh : ConflictRecord :=
  { sampleRecord with siblingPath := [] }

theorem local_file_copied_first :
    conflictCopyPath sampleFresh = none ∧
      ∀ p s',
        Prog.Runs (deskMachine id)
          (resolveConflict sampleFolder ['7'] .keepBoth (),
            sampleDesktop sampleFresh)
          (p, s') →
        VersionsKept sampleFolder sampleFresh
          (sampleDesktop sampleFresh) s' := by
  have hNone : conflictCopyPath sampleFresh = none := by decide
  refine ⟨hNone, ?_⟩
  apply (versions_kept_iff id sampleFolder ['7'] .keepBoth
    sampleFresh (sampleDesktop sampleFresh) sampleDisk_rooted
    (by decide)).mpr
  rintro p body _ _ ⟨_, _, ⟨q, hPath, _⟩, _, _⟩
  rw [hNone] at hPath
  cases hPath

end Conflicts

end S4Drive

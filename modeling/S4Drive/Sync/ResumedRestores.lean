import S4Drive.Sync.RestoreData

/-
  A restore that is run again after it was cut off. What it
  has downloaded is a local file then, whose token names the
  hash function, while the hash on the server does not: the
  two are never equal, and the restore is refused where it
  meets the first file that is there already.

  Main declarations:
    * `Wanted`, `WantedFile`
    * `ServerFiles`, `LocalFiles`, `Restored`
    * `endures_restoreData`
    * `restore_resumes_iff`
-/

------------------------------------------------------------
-- Server Files
------------------------------------------------------------

open Concurrency FileTree

namespace S4Drive

namespace FolderRestore

open Recovery (Path Bytes Disk displayPath)

/- An entry that is restored, and its place. -/
structure Wanted
    (entries : List FileEntry)
    (notesRoot : Option Uuid)
    (entry : FileEntry)
    (relative : Text)
    (target : Path) : Prop where
  listed : entry ∈ entries
  path : remotePath entries entry = .ok (some relative)
  scope : inScope relative notesRoot = true
  join : safeJoin relative = .ok target
  kind : entry.entryType ≠ .symlink

structure WantedFile
    (entries : List FileEntry)
    (blobs : String → Option Bytes)
    (notesRoot : Option Uuid)
    (entry : FileEntry)
    (relative : Text)
    (target : Path)
    (content : ContentRef)
    (bytes : Bytes) : Prop
    extends Wanted entries notesRoot entry relative target where
  file : entry.entryType = .file
  reference : entry.contentRef = some content
  stored : blobs content.storageKey = some bytes

/-
  The entries have places in one folder, no two of them in
  the way of each other, and every file has the content that
  was uploaded for it.
-/
structure ServerFiles
    (blake3 : Bytes → String)
    (entries : List FileEntry)
    (blobs : String → Option Bytes)
    (notesRoot : Option Uuid) : Prop where
  ids : (entries.map FileEntry.fileId).Nodup
  paths :
    ∀ entry ∈ entries, ∃ r, remotePath entries entry = .ok r
  safe :
    ∀ entry ∈ entries, ∀ relative,
      remotePath entries entry = .ok (some relative) →
        inScope relative notesRoot = true →
          ∃ target, safeJoin relative = .ok target
  contents :
    ∀ entry relative target,
      Wanted entries notesRoot entry relative target →
        entry.entryType = .file →
          target ≠ [] ∧
            ∃ content bytes,
              entry.contentRef = some content ∧
                blobs content.storageKey = some bytes ∧
                content.hash = blake3 bytes ∧
                content.size = bytes.length
  apart :
    ∀ entry relative target other relative' target',
      Wanted entries notesRoot entry relative target →
        entry.entryType = .file →
          Wanted entries notesRoot other relative' target' →
            other ≠ entry → ¬ target <+: target'

/- The folders above an entry, and the entry if it is one. -/
def FolderPlace
    (entries : List FileEntry)
    (notesRoot : Option Uuid)
    (p : Path) : Prop :=
  ∃ entry relative target,
    Wanted entries notesRoot entry relative target ∧
      p ≠ [] ∧ p <+: target ∧
      (p ≠ target ∨ entry.entryType = .folder)

/- Every local file is missing or as it is on the server. -/
structure LocalFiles
    (entries : List FileEntry)
    (blobs : String → Option Bytes)
    (notesRoot : Option Uuid)
    (disk : Disk) : Prop where
  folders :
    ∀ p, FolderPlace entries notesRoot p →
      disk.nodeAt p = none ∨ disk.nodeAt p = some .folder
  files :
    ∀ entry relative target content bytes,
      WantedFile entries blobs notesRoot entry relative target
          content bytes →
        disk.nodeAt target = none ∨
          disk.nodeAt target = some (.file bytes)

/- All files are there and in the index. -/
def Restored
    (notesRoot : Option Uuid)
    (w : RestoreWorld) : Prop :=
  ∀ entry relative target content bytes,
    WantedFile w.entries w.blobs notesRoot entry relative
        target content bytes →
      w.disk.nodeAt target = some (.file bytes) ∧
        w.index entry.fileId =
          some ⟨target, relative, entry.currentRevisionId,
            "synced"⟩

------------------------------------------------------------
-- Progress
------------------------------------------------------------

variable {blake3 : Bytes → String}
variable {entries : List FileEntry}
variable {blobs : String → Option Bytes}
variable {notesRoot : Option Uuid}
variable {entry other : FileEntry} {relative relative' : Text}
variable {target target' p : Path}
variable {content : ContentRef} {bytes : Bytes}
variable {old : Disk} {done touched : List FileEntry}
variable {w : RestoreWorld}

theorem Wanted.unique
    (h : Wanted entries notesRoot entry relative target)
    (h' : Wanted entries notesRoot entry relative' target') :
    relative = relative' ∧ target = target' := by
  have hPath := h.path.symm.trans h'.path
  cases hPath
  have hJoin := h.join.symm.trans h'.join
  cases hJoin
  exact ⟨rfl, rfl⟩

theorem WantedFile.unique
    {content' : ContentRef} {bytes' : Bytes}
    (h :
      WantedFile entries blobs notesRoot entry relative target
        content bytes)
    (h' :
      WantedFile entries blobs notesRoot entry relative'
        target' content' bytes') :
    relative = relative' ∧ target = target' ∧
      bytes = bytes' := by
  rcases h.toWanted.unique h'.toWanted with ⟨hRelative, hTarget⟩
  have hContent := h.reference.symm.trans h'.reference
  cases hContent
  have hBlob := h.stored.symm.trans h'.stored
  cases hBlob
  exact ⟨hRelative, hTarget, rfl⟩

/- No file goes where a folder is. -/
theorem FolderPlace.ne_target
    (hServer : ServerFiles blake3 entries blobs notesRoot)
    (hPlace : FolderPlace entries notesRoot p)
    (hFile :
      WantedFile entries blobs notesRoot entry relative target
        content bytes) : p ≠ target := by
  rintro rfl
  rcases hPlace with
    ⟨other, relative', target', hOther, _, hPrefix, hCase⟩
  by_cases hSame : other = entry
  · subst hSame
    rcases hOther.unique hFile.toWanted with ⟨_, hTarget⟩
    rcases hCase with hNe | hFolder
    · exact hNe hTarget.symm
    · rw [hFile.file] at hFolder
      cases hFolder
  · exact hServer.apart _ _ _ _ _ _ hFile.toWanted hFile.file
      hOther hSame hPrefix

/- Two files have two places. -/
theorem WantedFile.ne_target
    {content' : ContentRef} {bytes' : Bytes}
    (hServer : ServerFiles blake3 entries blobs notesRoot)
    (h :
      WantedFile entries blobs notesRoot entry relative target
        content bytes)
    (h' :
      WantedFile entries blobs notesRoot other relative'
        target' content' bytes')
    (hOther : other ≠ entry) : target' ≠ target := by
  rintro rfl
  exact hServer.apart _ _ _ _ _ _ h.toWanted h.file
    h'.toWanted hOther (List.prefix_refl _)

/- What holds wherever the restore may be cut off. -/
structure Interrupted
    (entries : List FileEntry)
    (blobs : String → Option Bytes)
    (notesRoot : Option Uuid)
    (w : RestoreWorld) : Prop where
  sameEntries : w.entries = entries
  sameBlobs : w.blobs = blobs
  locals : LocalFiles entries blobs notesRoot w.disk

/-
  The files of `done` were missing and are restored; the
  places of files that are not `touched` are as they were.
-/
structure Progress
    (entries : List FileEntry)
    (blobs : String → Option Bytes)
    (notesRoot : Option Uuid)
    (old : Disk)
    (done touched : List FileEntry)
    (w : RestoreWorld) : Prop
    extends Interrupted entries blobs notesRoot w where
  finished :
    ∀ entry ∈ done, ∀ relative target content bytes,
      WantedFile entries blobs notesRoot entry relative target
          content bytes →
        old.nodeAt target = none ∧
          w.disk.nodeAt target = some (.file bytes) ∧
          w.index entry.fileId =
            some ⟨target, relative, entry.currentRevisionId,
              "synced"⟩
  waiting :
    ∀ entry, entry ∉ touched →
      ∀ relative target content bytes,
        WantedFile entries blobs notesRoot entry relative target
            content bytes →
          w.disk.nodeAt target = old.nodeAt target

theorem Progress.setFolder
    (hServer : ServerFiles blake3 entries blobs notesRoot)
    (h :
      Progress entries blobs notesRoot old done touched w)
    (hPlace : FolderPlace entries notesRoot p) :
    Progress entries blobs notesRoot old done touched
      (w.setNode p .folder) := by
  have unchanged :
      ∀ entry relative target content bytes,
        WantedFile entries blobs notesRoot entry relative target
            content bytes →
          (w.setNode p .folder).disk.nodeAt target =
            w.disk.nodeAt target := by
    intro entry relative target content bytes hFile
    have hNe := hPlace.ne_target hServer hFile
    simp only [RestoreWorld.setNode, Files.nodeAt_set]
    rw [if_neg fun hSame => hNe hSame.symm]
  refine ⟨⟨h.sameEntries, h.sameBlobs, ?_, ?_⟩, ?_, ?_⟩
  · intro q hq
    simp only [RestoreWorld.setNode, Files.nodeAt_set]
    split
    · exact .inr rfl
    · exact h.locals.folders q hq
  · intro entry relative target content bytes hFile
    rw [unchanged _ _ _ _ _ hFile]
    exact h.locals.files _ _ _ _ _ hFile
  · intro entry hDone relative target content bytes hFile
    rw [unchanged _ _ _ _ _ hFile]
    exact h.finished _ hDone _ _ _ _ hFile
  · intro entry hOut relative target content bytes hFile
    rw [unchanged _ _ _ _ _ hFile]
    exact h.waiting _ hOut _ _ _ _ hFile

/- A file is published where nothing is. -/
theorem Progress.publish
    (hServer : ServerFiles blake3 entries blobs notesRoot)
    (h :
      Progress entries blobs notesRoot old done touched w)
    (hFile :
      WantedFile entries blobs notesRoot entry relative target
        content bytes)
    (hDone : entry ∉ done) :
    Progress entries blobs notesRoot old done
      (entry :: touched)
      { w.setNode target (.file bytes) with stage := none } := by
  have unchanged :
      ∀ other relative' target' content' bytes',
        WantedFile entries blobs notesRoot other relative'
            target' content' bytes' →
          other ≠ entry →
            (w.setNode target (.file bytes)).disk.nodeAt
                target' =
              w.disk.nodeAt target' := by
    intro other relative' target' content' bytes' hOther hNe
    have hPlaces := hFile.ne_target hServer hOther hNe
    simp only [RestoreWorld.setNode, Files.nodeAt_set]
    rw [if_neg hPlaces]
  refine ⟨⟨h.sameEntries, h.sameBlobs, ?_, ?_⟩, ?_, ?_⟩
  · intro q hq
    have hNe := hq.ne_target hServer hFile
    simp only [RestoreWorld.setNode, Files.nodeAt_set]
    rw [if_neg hNe]
    exact h.locals.folders q hq
  · intro other relative' target' content' bytes' hOther
    by_cases hSame : other = entry
    · subst hSame
      rcases hFile.unique hOther with ⟨_, rfl, rfl⟩
      right
      simp [RestoreWorld.setNode]
    · have hNode := unchanged _ _ _ _ _ hOther hSame
      dsimp only
      rw [hNode]
      exact h.locals.files _ _ _ _ _ hOther
  · intro other hOtherDone relative' target' content' bytes'
      hOther
    have hNe : other ≠ entry := by
      rintro rfl
      exact hDone hOtherDone
    have hNode := unchanged _ _ _ _ _ hOther hNe
    dsimp only
    rw [hNode]
    exact h.finished _ hOtherDone _ _ _ _ hOther
  · intro other hOut relative' target' content' bytes' hOther
    rw [List.mem_cons, not_or] at hOut
    have hNode := unchanged _ _ _ _ _ hOther hOut.1
    dsimp only
    rw [hNode]
    exact h.waiting _ hOut.2 _ _ _ _ hOther

/- Other entries have other ids. -/
theorem ServerFiles.fileId_ne
    (hServer : ServerFiles blake3 entries blobs notesRoot)
    (hEntry : entry ∈ entries)
    (hOther : other ∈ entries)
    (hNe : other ≠ entry) : other.fileId ≠ entry.fileId :=
  fun hSame => hNe
    (List.inj_on_of_nodup_map hServer.ids hOther hEntry hSame)

/- The row of an entry that was not done yet is written. -/
theorem Progress.setRow
    {row : RestoredRow}
    (hServer : ServerFiles blake3 entries blobs notesRoot)
    (h :
      Progress entries blobs notesRoot old done touched w)
    (hEntry : entry ∈ entries)
    (hDone : entry ∉ done) :
    Progress entries blobs notesRoot old done touched
      (w.setRow entry.fileId row) := by
  refine ⟨⟨h.sameEntries, h.sameBlobs, h.locals⟩, ?_,
    h.waiting⟩
  intro other hOtherDone relative target content bytes hFile
  have hNe : other ≠ entry := by
    rintro rfl
    exact hDone hOtherDone
  rcases h.finished _ hOtherDone _ _ _ _ hFile with
    ⟨hOld, hNode, hRow⟩
  refine ⟨hOld, hNode, ?_⟩
  have hIds :=
    hServer.fileId_ne hEntry hFile.listed hNe
  simp only [RestoreWorld.setRow, if_neg hIds]
  exact hRow

/- A file is done that is there and has its row. -/
theorem Progress.finish
    (h :
      Progress entries blobs notesRoot old done touched w)
    (hEntry :
      ∀ relative target content bytes,
        WantedFile entries blobs notesRoot entry relative target
            content bytes →
          old.nodeAt target = none ∧
            w.disk.nodeAt target = some (.file bytes) ∧
            w.index entry.fileId =
              some ⟨target, relative, entry.currentRevisionId,
                "synced"⟩) :
    Progress entries blobs notesRoot old (entry :: done)
      (entry :: touched) w := by
  refine ⟨h.toInterrupted, ?_, ?_⟩
  · intro other hOther
    rcases List.mem_cons.mp hOther with rfl | hOther
    · exact hEntry
    · exact h.finished other hOther
  · intro other hOut
    exact h.waiting other fun hIn => hOut (.tail _ hIn)

------------------------------------------------------------
-- One Entry
------------------------------------------------------------

variable (blake3 entries blobs notesRoot) in
/- The restore may be cut off anywhere, or ends like that. -/
abbrev Lasts
    {α : Type}
    (x : Restoring α)
    (Q : Except RestoreError α → RestoreWorld → Prop)
    (w : RestoreWorld) : Prop :=
  Endures (serveRestore blake3)
    (Interrupted entries blobs notesRoot) x ()
    (fun r _ => Q r) w

variable (entries blobs notesRoot old) in
/- A file that is as it is on the server is refused. -/
def Refused (r : Except RestoreError Unit) : Prop :=
  ∃ entry relative target content bytes,
    WantedFile entries blobs notesRoot entry relative target
        content bytes ∧
      old.nodeAt target = some (.file bytes) ∧
      r = .error (localFileAppeared target)

theorem lasts_ask
    {r : RestoreReq} {b : RestoreResp r} {w' : RestoreWorld}
    {Q : Except RestoreError (RestoreValue r) →
      RestoreWorld → Prop}
    (hInterrupted : Interrupted entries blobs notesRoot w)
    (hServe : serveRestore blake3 r w = some (b, w'))
    (h : Q b w') :
    Lasts blake3 entries blobs notesRoot (ask r) Q w :=
  endures_call hInterrupted hServe h

/- The second part runs when the first has succeeded. -/
theorem lasts_bind
    {α γ : Type}
    {x : Restoring α} {f : α → Restoring γ}
    {P : α → RestoreWorld → Prop}
    {Q : Except RestoreError γ → RestoreWorld → Prop}
    (hx :
      Lasts blake3 entries blobs notesRoot x
        (fun r w' => ∃ a, r = .ok a ∧ P a w') w)
    (hf :
      ∀ a w', P a w' →
        Lasts blake3 entries blobs notesRoot (f a) Q w') :
    Lasts blake3 entries blobs notesRoot (x >>= f) Q w := by
  apply endures_bind
  apply Endures.mono hx
  rintro r v w' ⟨a, rfl, h⟩
  exact hf a w' h

theorem lasts_createFolders
    (hServer : ServerFiles blake3 entries blobs notesRoot)
    {places : List Path}
    (hPlaces :
      ∀ p ∈ places, FolderPlace entries notesRoot p)
    (h :
      Progress entries blobs notesRoot old done touched w) :
    Lasts blake3 entries blobs notesRoot
      (createFolders places)
      (fun r w' => ∃ a, r = .ok a ∧
        Progress entries blobs notesRoot old done touched w')
      w := by
  induction places generalizing w with
  | nil => exact endures_pure ⟨(), rfl, h⟩
  | cons p rest ih =>
      rw [List.forall_mem_cons] at hPlaces
      rcases hPlaces with ⟨hPlace, hRest⟩
      have hMade := h.setFolder hServer hPlace
      unfold createFolders
      rcases h.locals.folders p hPlace with hNone | hFolder
      · have hServe :
            serveRestore blake3 (.ensureFolder p) w =
              some (.ok (), w.setNode p .folder) := by
          simp only [serveRestore, hNone]
        refine lasts_bind
          (P := fun _ => Progress entries blobs notesRoot old
            done touched)
          (lasts_ask h.toInterrupted hServe
            ⟨(), rfl, hMade⟩) ?_
        exact fun _ w' h' => ih hRest h'
      · have hServe :
            serveRestore blake3 (.ensureFolder p) w =
              some (.ok (), w) := by
          simp only [serveRestore, hFolder]
        refine lasts_bind
          (P := fun _ => Progress entries blobs notesRoot old
            done touched)
          (lasts_ask h.toInterrupted hServe ⟨(), rfl, h⟩) ?_
        exact fun _ w' h' => ih hRest h'

theorem mem_inits_tail {q : Path} (h : q ∈ p.inits.tail) :
    q ≠ [] ∧ q <+: p := by
  cases p with
  | nil => cases h
  | cons x p =>
      simp only [List.inits_cons, List.tail_cons, List.mem_map]
        at h
      rcases h with ⟨rest, hRest, rfl⟩
      have hPrefix := (List.mem_inits _ _).mp hRest
      exact ⟨nofun, List.cons_prefix_cons.mpr ⟨rfl, hPrefix⟩⟩

/- The folders above a file are made. -/
theorem lasts_createParents
    (hServer : ServerFiles blake3 entries blobs notesRoot)
    (hWanted : Wanted entries notesRoot entry relative target)
    (hTarget : target ≠ [])
    (h :
      Progress entries blobs notesRoot old done touched w) :
    Lasts blake3 entries blobs notesRoot
      (createDirectory target.dropLast)
      (fun r w' => ∃ a, r = .ok a ∧
        Progress entries blobs notesRoot old done touched w')
      w := by
  refine lasts_createFolders hServer ?_ h
  intro p hp
  rcases mem_inits_tail hp with ⟨hPath, hPrefix⟩
  refine ⟨entry, relative, target, hWanted, hPath,
    hPrefix.trans (List.dropLast_prefix target), .inl ?_⟩
  rintro rfl
  exact Files.not_prefix_dropLast hTarget hPrefix

/- A folder is made with the ones above it. -/
theorem lasts_createFolder
    (hServer : ServerFiles blake3 entries blobs notesRoot)
    (hWanted : Wanted entries notesRoot entry relative target)
    (hFolder : entry.entryType = .folder)
    (h :
      Progress entries blobs notesRoot old done touched w) :
    Lasts blake3 entries blobs notesRoot
      (createDirectory target)
      (fun r w' => ∃ a, r = .ok a ∧
        Progress entries blobs notesRoot old done touched w')
      w := by
  refine lasts_createFolders hServer ?_ h
  intro p hp
  rcases mem_inits_tail hp with ⟨hPath, hPrefix⟩
  exact ⟨entry, relative, target, hWanted, hPath, hPrefix,
    .inr hFolder⟩

/- The token of a file is never the hash on the server. -/
theorem token_ne_hash (hash : String) :
    "blake3:" ++ hash ≠ hash := by
  intro h
  have hLength := congrArg String.length h
  rw [String.length_append] at hLength
  have hPrefix : "blake3:".length = 7 := rfl
  omega

/- A file that is missing is downloaded and published. -/
theorem lasts_download
    (hServer : ServerFiles blake3 entries blobs notesRoot)
    (hFile :
      WantedFile entries blobs notesRoot entry relative target
        content bytes)
    (hHash : content.hash = blake3 bytes)
    (hSize : content.size = bytes.length)
    (hDone : entry ∉ done)
    (hNone : w.disk.nodeAt target = none)
    (h :
      Progress entries blobs notesRoot old done touched w) :
    Lasts blake3 entries blobs notesRoot
      (download content target entry.fileId)
      (fun r w' => r = .ok () ∧
        w'.disk.nodeAt target = some (.file bytes) ∧
        Progress entries blobs notesRoot old done
          (entry :: touched) w') w := by
  have hBlob : w.blobs content.storageKey = some bytes := by
    rw [h.sameBlobs]
    exact hFile.stored
  have hStage :
      serveRestore blake3 (.stageFile content.storageKey) w =
        some (.ok (), { w with stage := some bytes }) := by
    simp only [serveRestore, hBlob]
  have hStaged :
      Progress entries blobs notesRoot old done touched
        { w with stage := some bytes } :=
    ⟨⟨h.sameEntries, h.sameBlobs, h.locals⟩, h.finished,
      h.waiting⟩
  unfold download
  refine lasts_bind
    (P := fun _ w' => w' = { w with stage := some bytes })
    (lasts_ask h.toInterrupted hStage ⟨(), rfl, rfl⟩) ?_
  rintro _ _ rfl
  refine lasts_bind
    (P := fun found w' =>
      found = (blake3 bytes, bytes.length) ∧
        w' = { w with stage := some bytes })
    (lasts_ask hStaged.toInterrupted rfl
      ⟨_, rfl, rfl, rfl⟩) ?_
  rintro _ _ ⟨rfl, rfl⟩
  have hGood :
      ¬ (blake3 bytes ≠ content.hash ∨
        bytes.length ≠ content.size) := by
    rw [hHash, hSize]
    simp
  dsimp only
  rw [if_neg hGood]
  have hPublish :
      serveRestore blake3 (.publish target entry.fileId)
          { w with stage := some bytes } =
        some (.ok (),
          { w.setNode target (.file bytes) with
            stage := none }) := by
    simp only [serveRestore, hNone, RestoreWorld.setNode]
  refine lasts_ask hStaged.toInterrupted hPublish
    ⟨rfl, ?_, h.publish hServer hFile hDone⟩
  simp [RestoreWorld.setNode]

theorem lasts_restoreContent
    (hServer : ServerFiles blake3 entries blobs notesRoot)
    (hFile :
      WantedFile entries blobs notesRoot entry relative target
        content bytes)
    (hHash : content.hash = blake3 bytes)
    (hSize : content.size = bytes.length)
    (hDone : entry ∉ done)
    (hTouched : entry ∉ touched)
    (h :
      Progress entries blobs notesRoot old done touched w) :
    Lasts blake3 entries blobs notesRoot
      (restoreContent entry target)
      (fun r w' =>
        (r = .ok () ∧ old.nodeAt target = none ∧
          w'.disk.nodeAt target = some (.file bytes) ∧
          Progress entries blobs notesRoot old done
            (entry :: touched) w') ∨
        (old.nodeAt target = some (.file bytes) ∧
          r = .error (localFileAppeared target))) w := by
  have hOld := h.waiting _ hTouched _ _ _ _ hFile
  unfold restoreContent
  rw [hFile.reference]
  rcases h.locals.files _ _ _ _ _ hFile with hNone | hLocal
  · have hServe :
        serveRestore blake3 (.capture target) w =
          some (.ok .missing, w) := by
      simp only [serveRestore, hNone]
    refine lasts_bind
      (P := fun token w' => token = .missing ∧ w' = w)
      (lasts_ask h.toInterrupted hServe ⟨_, rfl, rfl, rfl⟩) ?_
    rintro _ _ ⟨rfl, rfl⟩
    rw [hNone] at hOld
    refine (lasts_download hServer hFile hHash hSize hDone hNone
      h).mono ?_
    rintro r v w' ⟨hOk, hNode, hProgress⟩
    exact .inl ⟨hOk, hOld.symm, hNode, hProgress⟩
  · have hServe :
        serveRestore blake3 (.capture target) w =
          some (.ok (.hash ("blake3:" ++ blake3 bytes)), w) := by
      simp only [serveRestore, hLocal]
    refine lasts_bind
      (P := fun token w' =>
        token = .hash ("blake3:" ++ blake3 bytes) ∧ w' = w)
      (lasts_ask h.toInterrupted hServe ⟨_, rfl, rfl, rfl⟩) ?_
    rintro _ _ ⟨rfl, rfl⟩
    have hNever : "blake3:" ++ blake3 bytes ≠ content.hash := by
      rw [hHash]
      exact token_ne_hash (blake3 bytes)
    dsimp only
    rw [if_pos hNever]
    rw [hLocal] at hOld
    exact .inr ⟨hOld.symm, rfl⟩

/- An entry is done when its row is written. -/
theorem lasts_recordEntry
    (hServer : ServerFiles blake3 entries blobs notesRoot)
    (hEntry : entry ∈ entries)
    (hDone : entry ∉ done)
    (hFile :
      ∀ relative' target' content bytes,
        WantedFile entries blobs notesRoot entry relative'
            target' content bytes →
          relative' = relative ∧ target' = target ∧
            old.nodeAt target = none ∧
            w.disk.nodeAt target = some (.file bytes))
    (h :
      Progress entries blobs notesRoot old done touched w) :
    Lasts blake3 entries blobs notesRoot
      (recordEntry entry target relative)
      (fun r w' => r = .ok () ∧
        Progress entries blobs notesRoot old (entry :: done)
          (entry :: touched) w') w := by
  let cancelled : RestoreWorld :=
    { w with
      activeTransfers :=
        w.activeTransfers.filter (· ≠ entry.fileId) }
  have hCancelled :
      Progress entries blobs notesRoot old done touched
        cancelled :=
    ⟨⟨h.sameEntries, h.sameBlobs, h.locals⟩, h.finished,
      h.waiting⟩
  unfold recordEntry
  refine lasts_bind
    (P := fun _ w' => w' = cancelled)
    (lasts_ask h.toInterrupted rfl ⟨(), rfl, rfl⟩) ?_
  rintro _ _ rfl
  refine lasts_ask hCancelled.toInterrupted rfl ⟨rfl, ?_⟩
  apply (hCancelled.setRow hServer hEntry hDone).finish
  intro relative' target' content bytes hWanted
  rcases hFile _ _ _ _ hWanted with ⟨rfl, rfl, hOld, hNode⟩
  refine ⟨hOld, hNode, ?_⟩
  simp only [RestoreWorld.setRow, if_true]

theorem lasts_restoreEntry
    (hServer : ServerFiles blake3 entries blobs notesRoot)
    (hEntry : entry ∈ entries)
    (hDone : entry ∉ done)
    (h : Progress entries blobs notesRoot old done done w) :
    Lasts blake3 entries blobs notesRoot
      (restoreEntry entries notesRoot entry)
      (fun r w' =>
        (r = .ok () ∧
          Progress entries blobs notesRoot old (entry :: done)
            (entry :: done) w') ∨
        Refused entries blobs notesRoot old r) w := by
  -- What is no file of the restore is done at once.
  have skipped :
      (∀ relative target content bytes,
        ¬ WantedFile entries blobs notesRoot entry relative
          target content bytes) →
        Lasts blake3 entries blobs notesRoot (pure ())
          (fun r w' =>
            (r = .ok () ∧
              Progress entries blobs notesRoot old
                (entry :: done) (entry :: done) w') ∨
            Refused entries blobs notesRoot old r) w := by
    intro hNot
    refine endures_pure (.inl ⟨rfl, h.finish ?_⟩)
    intro relative target content bytes hFile
    exact absurd hFile (hNot _ _ _ _)
  rcases hServer.paths entry hEntry with ⟨found, hPath⟩
  unfold restoreEntry
  rw [hPath]
  cases found with
  | none =>
      apply skipped
      intro relative target content bytes hFile
      cases hPath.symm.trans hFile.path
  | some relative =>
      dsimp only
      split
      · rename_i hScope
        rcases hServer.safe entry hEntry relative hPath hScope
          with ⟨target, hJoin⟩
        rw [hJoin]
        dsimp only
        unfold restoreAt
        cases hKind : entry.entryType with
        | folder =>
            have hWanted :
                Wanted entries notesRoot entry relative
                  target :=
              ⟨hEntry, hPath, hScope, hJoin, by
                rw [hKind]; exact nofun⟩
            refine lasts_bind
              (P := fun _ => Progress entries blobs notesRoot
                old done done)
              (lasts_createFolder hServer hWanted hKind h) ?_
            intro _ w' h'
            refine (lasts_recordEntry hServer hEntry hDone ?_
              h').mono fun r _ w' h => .inl h
            intro relative' target' content bytes hFile
            have hOther := hFile.file
            rw [hKind] at hOther
            cases hOther
        | file =>
            have hWanted :
                Wanted entries notesRoot entry relative
                  target :=
              ⟨hEntry, hPath, hScope, hJoin, by
                rw [hKind]; exact nofun⟩
            rcases hServer.contents _ _ _ hWanted hKind with
              ⟨hTarget, content, bytes, hReference, hStored,
                hHash, hSize⟩
            have hFile :
                WantedFile entries blobs notesRoot entry
                  relative target content bytes :=
              ⟨hWanted, hKind, hReference, hStored⟩
            refine lasts_bind
              (P := fun _ => Progress entries blobs notesRoot
                old done done)
              (lasts_createParents hServer hWanted hTarget h)
              ?_
            intro _ w₁ h₁
            apply endures_bind
            refine (lasts_restoreContent hServer hFile hHash
              hSize hDone hDone h₁).mono ?_
            rintro r v w₂ (⟨rfl, hOld, hNode, h₂⟩ |
              ⟨hOld, rfl⟩)
            · apply proceeds_ok
              refine (lasts_recordEntry hServer hEntry hDone ?_
                h₂).mono ?_
              · intro relative' target' content' bytes' hOther
                rcases hFile.unique hOther with
                  ⟨rfl, rfl, rfl⟩
                exact ⟨rfl, rfl, hOld, hNode⟩
              · rintro r v w₃ ⟨hOk, h₃⟩
                exact .inl ⟨hOk, h₃.toInterrupted,
                  h₃.finished, fun other hOut =>
                    h₃.waiting other fun hIn => hOut (by
                      simpa using hIn)⟩
            · exact .inr ⟨entry, relative, target, content,
                bytes, hFile, hOld, rfl⟩
        | symlink =>
            apply skipped
            intro relative target content bytes hFile
            have hOther := hFile.file
            rw [hKind] at hOther
            cases hOther
      · rename_i hScope
        apply skipped
        intro relative' target content bytes hFile
        cases hPath.symm.trans hFile.path
        exact hScope hFile.scope

------------------------------------------------------------
-- All Entries
------------------------------------------------------------

theorem lasts_restoreEntries
    (hServer : ServerFiles blake3 entries blobs notesRoot)
    {rest : List FileEntry}
    (hRest : ∀ entry ∈ rest, entry ∈ entries)
    (hOnce : rest.Nodup)
    (hDone : ∀ entry ∈ rest, entry ∉ done)
    (h : Progress entries blobs notesRoot old done done w) :
    Lasts blake3 entries blobs notesRoot
      (restoreEntries entries notesRoot rest)
      (fun r w' =>
        (r = .ok () ∧
          Progress entries blobs notesRoot old
            (rest.reverse ++ done) (rest.reverse ++ done) w') ∨
        Refused entries blobs notesRoot old r) w := by
  induction rest generalizing done w with
  | nil => exact endures_pure (.inl ⟨rfl, h⟩)
  | cons entry rest ih =>
      rw [List.forall_mem_cons] at hRest hDone
      rw [List.nodup_cons] at hOnce
      unfold restoreEntries
      apply endures_bind
      refine (lasts_restoreEntry hServer hRest.1 hDone.1
        h).mono ?_
      rintro r v w' (⟨rfl, h'⟩ | hRefused)
      · apply proceeds_ok
        have hLater :
            ∀ other ∈ rest, other ∉ entry :: done := by
          intro other hOther hIn
          rcases List.mem_cons.mp hIn with rfl | hIn
          · exact hOnce.1 hOther
          · exact hDone.2 other hOther hIn
        have hNext := ih hRest.2 hOnce.2 hLater h'
        rw [List.reverse_cons, List.append_assoc]
        exact hNext
      · rcases hRefused with
          ⟨other, relative, target, content, bytes, hFile, hOld,
            rfl⟩
        exact .inr ⟨other, relative, target, content, bytes,
          hFile, hOld, rfl⟩

/- A restore of local files that are missing or as they are. -/
theorem endures_restoreData
    (hServer : ServerFiles blake3 w.entries w.blobs notesRoot)
    (hLocal : LocalFiles w.entries w.blobs notesRoot w.disk) :
    Lasts blake3 w.entries w.blobs notesRoot
      (restoreData notesRoot)
      (fun r w' =>
        (r = .ok () ∧
          Progress w.entries w.blobs notesRoot w.disk
            w.entries.reverse w.entries.reverse w') ∨
        Refused w.entries w.blobs notesRoot w.disk r) w := by
  have hStart :
      Progress w.entries w.blobs notesRoot w.disk [] [] w :=
    ⟨⟨rfl, rfl, hLocal⟩, List.forall_mem_nil _,
      fun _ _ _ _ _ _ _ => rfl⟩
  have hNodup : w.entries.Nodup := hServer.ids.of_map
  unfold restoreData
  refine lasts_bind
    (P := fun found w' => found = w.entries ∧ w' = w)
    (lasts_ask hStart.toInterrupted rfl ⟨_, rfl, rfl, rfl⟩) ?_
  rintro _ _ ⟨rfl, rfl⟩
  have hAll := lasts_restoreEntries hServer
    (fun _ h => h) hNodup (fun _ _ => List.not_mem_nil) hStart
  rw [List.append_nil] at hAll
  exact hAll

/- No file of the restore is there. -/
def Absent
    (notesRoot : Option Uuid)
    (w : RestoreWorld) : Prop :=
  ∀ entry relative target content bytes,
    WantedFile w.entries w.blobs notesRoot entry relative target
        content bytes →
      w.disk.nodeAt target = none

/- The digest of a file with the letter `a`. -/
def restoredDigest : Bytes → String
  | [97] =>
      "17762fddd969a453925d65717ac3eea2" ++
        "1320b66b54342fde15128d6caf21215f"
  | _ => ""

def letterContent : ContentRef where
  blobId := 1
  hash := restoredDigest [97]
  size := 1
  mime := "text/plain"
  storageKey := "a"

def letterEntry : FileEntry where
  fileId := 1
  parentId := none
  name := "a.txt"
  entryType := .file
  currentRevisionId := some 1
  contentRef := some letterContent
  size := 1
  contentHash := some (restoredDigest [97])
  mime := some "text/plain"
  updatedAt := 0
  deletedAt := none
  versionHistory := [1]

/- A device whose sync folder is empty. -/
def emptyDevice : RestoreWorld where
  entries := [letterEntry]
  blobs := fun key => if key = "a" then some [97] else none
  disk := .empty
  stage := none
  activeTransfers := []
  index := fun _ => none

theorem emptyDevice_serverFiles :
    ServerFiles restoredDigest emptyDevice.entries
      emptyDevice.blobs none := by
  have only :
      ∀ {entry relative target},
        Wanted emptyDevice.entries none entry relative target →
          entry = letterEntry := by
    intro entry relative target hWanted
    exact List.mem_singleton.mp hWanted.listed
  refine ⟨by decide, ?_, ?_, ?_, ?_⟩
  · intro entry hEntry
    cases List.mem_singleton.mp hEntry
    exact ⟨some "a.txt".toList, by decide +kernel⟩
  · intro entry hEntry relative hPath _
    cases List.mem_singleton.mp hEntry
    have hName :
        remotePath emptyDevice.entries letterEntry =
          .ok (some "a.txt".toList) := by decide +kernel
    cases hName.symm.trans hPath
    exact ⟨["a.txt".toList], by decide +kernel⟩
  · intro entry relative target hWanted _
    cases only hWanted
    have hName :
        remotePath emptyDevice.entries letterEntry =
          .ok (some "a.txt".toList) := by decide +kernel
    cases hName.symm.trans hWanted.path
    have hPlace :
        safeJoin "a.txt".toList = .ok ["a.txt".toList] := by
      decide +kernel
    cases hPlace.symm.trans hWanted.join
    exact ⟨nofun, letterContent, [97], rfl, rfl, rfl, rfl⟩
  · intro entry relative target other relative' target' hWanted
      _ hOther hNe
    exact absurd ((only hOther).trans (only hWanted).symm) hNe

end FolderRestore

end S4Drive

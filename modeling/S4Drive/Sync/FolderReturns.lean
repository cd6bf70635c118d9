import S4Drive.Sync.RemoteSteps

/-
  A folder that another device restores, on a device that has
  removed it with what was in it. When nothing is in the way
  of what returns, the restore goes through: folders are made
  again, the downloads of the files are queued, and all else
  stays.

  Main declarations:
    * `Fetching`, `Returned`
    * `Returning`, `Extends`
    * `bringBackRows_ok`
    * `Ready`, `restored_of_ready`
-/

open FileTree

------------------------------------------------------------
-- Registered Rows
------------------------------------------------------------

namespace S4Drive

namespace RemoteChanges

open Recovery (Path)

variable {d d' e e' : SyncDevice} {r s f : ObjectRow}
variable {ctx : SyncContext} {rows rest : List ObjectRow}
variable {id : FileId}

namespace SyncDevice

theorem mem_putRow :
    s ∈ (d.putRow r).objects ↔
      s =
          { r with
            localMtime :=
              (d.fileAt r.localPath).map StoredFile.mtime } ∨
        s ∈ d.objects ∧ s.fileId ≠ r.fileId := by
  unfold putRow
  rw [List.mem_cons, List.mem_filter, decide_eq_true_eq]

variable {state : IndexState}

theorem mem_register
    {entry : FileEntry}
    {path s3Key : Path}
    (hMem : s ∈ d.objects)
    (hOther : s.fileId ≠ entry.fileId) :
    s ∈ (d.registerFileAtPathWithState entry path s3Key
      state).objects :=
  mem_putRow.mpr (.inr ⟨hMem, hOther⟩)

theorem of_mem_register
    {entry : FileEntry}
    {path s3Key : Path}
    (h :
      s ∈ (d.registerFileAtPathWithState entry path s3Key
        state).objects) :
    s.fileId = entry.fileId ∨ s ∈ d.objects := by
  rcases mem_putRow.mp h with hNew | hOld
  · exact .inl (by rw [hNew])
  · exact .inr hOld.1

theorem mem_setState :
    s ∈ (d.setState id state).objects ↔
      ∃ t ∈ d.objects,
        (if t.fileId = id then { t with state := state }
          else t) = s := by
  unfold setState mapRows
  simp only [List.mem_map, decide_eq_true_eq]

/- The rows of other files stay. -/
theorem mem_setState_other
    (hOther : s.fileId ≠ id) :
    s ∈ (d.setState id state).objects ↔ s ∈ d.objects := by
  rw [mem_setState]
  constructor
  · rintro ⟨t, ht, rfl⟩
    by_cases hSame : t.fileId = id
    · rw [if_pos hSame] at hOther
      exact absurd hSame hOther
    · rwa [if_neg hSame]
  · intro hs
    exact ⟨s, hs, if_neg hOther⟩

theorem state_of_mem_setState
    (h : s ∈ (d.setState id state).objects)
    (hId : s.fileId = id) : s.state = state := by
  rcases mem_setState.mp h with ⟨t, _, rfl⟩
  by_cases hSame : t.fileId = id
  · rw [if_pos hSame]
  · rw [if_neg hSame] at hId
    exact absurd hId hSame

theorem mem_removedRemotelyUnder {folder : Path} :
    r ∈ d.removedRemotelyUnder folder ↔
      r ∈ d.objects ∧ r.under folder = true ∧
        r.state = .deletedRemotely := by
  unfold removedRemotelyUnder sortedByPath
  rw [List.mem_mergeSort, List.mem_filter, Bool.and_eq_true,
    decide_eq_true_eq]

@[simp] theorem enqueueDownload_objects
    (blake3 : Recovery.Bytes → String)
    (d : SyncDevice)
    (id : FileId)
    (path : Path)
    (storageKey : String) :
    (d.enqueueDownload blake3 id path storageKey).objects =
      d.objects := by
  unfold enqueueDownload
  dsimp only
  split <;> rfl

@[simp] theorem enqueueDownload_disk
    (blake3 : Recovery.Bytes → String)
    (d : SyncDevice)
    (id : FileId)
    (path : Path)
    (storageKey : String) :
    (d.enqueueDownload blake3 id path storageKey).disk =
      d.disk := by
  unfold enqueueDownload
  dsimp only
  split <;> rfl

@[simp] theorem enqueueDownload_bucket
    (blake3 : Recovery.Bytes → String)
    (d : SyncDevice)
    (id : FileId)
    (path : Path)
    (storageKey : String) :
    (d.enqueueDownload blake3 id path storageKey).bucket =
      d.bucket := by
  unfold enqueueDownload
  dsimp only
  split <;> rfl

/- The download of a file waits in the queue. -/
def awaits
    (d : SyncDevice)
    (id : FileId)
    (path : Path)
    (storageKey : String) : Prop :=
  ∃ job ∈ d.transfers,
    job.fileId = id ∧ job.localPath = path ∧
      job.key = .download storageKey ∧ job.status = .queued

theorem awaits_enqueueDownload
    (blake3 : Recovery.Bytes → String)
    (d : SyncDevice)
    (id : FileId)
    (path : Path)
    (storageKey : String) :
    (d.enqueueDownload blake3 id path storageKey).awaits id path
      storageKey := by
  unfold awaits enqueueDownload
  dsimp only
  split
  · rename_i hSame
    rcases List.any_eq_true.mp hSame with ⟨job, hJob, hTest⟩
    refine ⟨_, List.mem_map.mpr ⟨job, hJob, if_pos hTest⟩, ?_⟩
    exact ⟨rfl, rfl, rfl, rfl⟩
  · exact ⟨_, List.mem_append_right _ List.mem_cons_self, rfl,
      rfl, rfl, rfl⟩

/- The jobs of other files stay as they are. -/
theorem awaits_of_other
    {blake3 : Recovery.Bytes → String}
    {id other : FileId}
    {path path' : Path}
    {storageKey storageKey' : String}
    (h : d.awaits id path storageKey)
    (hOther : id ≠ other) :
    (d.enqueueDownload blake3 other path' storageKey').awaits id
      path storageKey := by
  rcases h with ⟨job, hJob, hId, hRest⟩
  unfold awaits enqueueDownload
  dsimp only
  split
  · refine ⟨job, List.mem_map.mpr ⟨job, hJob, if_neg ?_⟩, hId,
      hRest⟩
    simp [hId, hOther]
  · exact ⟨job, List.mem_append_left _ hJob, hId, hRest⟩

end SyncDevice

/- The file of a row is about to be downloaded to its path. -/
structure Fetching (d : SyncDevice) (r : ObjectRow) : Prop where
  row :
    ∃ s ∈ d.objects,
      s.fileId = r.fileId ∧ s.localPath = r.localPath ∧
        s.isFolder = false ∧
        s.currentRevisionId = r.currentRevisionId ∧
        s.state = .pendingDownload
  job :
    ∃ remote content,
      d.bucket.entries r.fileId = some remote ∧
        remote.contentRef = some content ∧
        d.awaits r.fileId r.localPath content.storageKey

/-
  The file of a row is in the index at its path and with its
  revision, and on the disk or about to be downloaded.
-/
def Returned (old new : SyncDevice) (r : ObjectRow) : Prop :=
  Fetching new r ∨
    ∃ s ∈ new.objects,
      s.fileId = r.fileId ∧ s.localPath = r.localPath ∧
        s.isFolder = false ∧
        s.currentRevisionId = r.currentRevisionId ∧
        s.state = .synced ∧
        new.fileAt r.localPath = old.fileAt r.localPath

/- Whether the bucket has the entry of a row. -/
def ObjectRow.isRemote (d : SyncDevice) (r : ObjectRow) : Prop :=
  (liveEntry d r.fileId).isSome

/-
  The rows are those of entries that the bucket has, of the
  same kind and with the same revision, and nothing is in
  their way on the disk.
-/
structure Returning
    (d : SyncDevice)
    (rows : List ObjectRow) : Prop where
  ids :
    ∀ r ∈ rows, ∀ s ∈ rows, r.fileId = s.fileId → r = s
  paths : ∀ r ∈ rows, r.localPath ≠ []
  entries :
    ∀ r ∈ rows, ∀ remote,
      liveEntry d r.fileId = some remote →
        remote.fileId = r.fileId ∧
          (remote.entryType = .file ↔ r.isFolder = false)
  contents :
    ∀ r ∈ rows, ∀ remote,
      liveEntry d r.fileId = some remote →
        r.isFolder = false →
          remote.contentRef.isSome ∧
            remote.currentRevisionId = r.currentRevisionId
  free :
    ∀ r ∈ rows, r.isRemote d → r.isFolder = false →
      d.disk.nodeAt r.localPath = none
  way :
    ∀ r ∈ rows, r.isRemote d → r.isFolder = true →
      ∀ q, q ≠ [] → q <+: r.localPath →
        d.disk.nodeAt q = none ∨
          d.disk.nodeAt q = some .folder
  apart :
    ∀ r ∈ rows, ∀ s ∈ rows, r.isRemote d → s.isRemote d →
      r.isFolder = false → s.isFolder = true →
        ¬ r.localPath <+: s.localPath

/- The rows have been worked on, and all else stays. -/
structure Extends
    (rows : List ObjectRow)
    (d d' : SyncDevice) : Prop where
  bucket : d'.bucket = d.bucket
  nodes :
    ∀ q node, d.disk.nodeAt q = some node →
      d'.disk.nodeAt q = some node
  made :
    ∀ q node, d'.disk.nodeAt q = some node →
      d.disk.nodeAt q = some node ∨ node = .folder
  kept :
    ∀ s ∈ d.objects, (∀ r ∈ rows, s.fileId ≠ r.fileId) →
      s ∈ d'.objects
  others :
    ∀ s ∈ d'.objects, (∀ r ∈ rows, s.fileId ≠ r.fileId) →
      s ∈ d.objects
  fetching :
    ∀ r ∈ rows, r.isFolder = false → Fetching d r →
      Fetching d' r

namespace Extends

variable {d₁ d₂ : SyncDevice} {rows' : List ObjectRow}

theorem refl (rows : List ObjectRow) (d : SyncDevice) :
    Extends rows d d where
  bucket := rfl
  nodes := fun _ _ h => h
  made := fun _ _ h => .inl h
  kept := fun _ h _ => h
  others := fun _ h _ => h
  fetching := fun _ _ _ h => h

theorem trans
    (h : Extends rows d d₁)
    (h' : Extends rows d₁ d₂) : Extends rows d d₂ where
  bucket := h'.bucket.trans h.bucket
  nodes := fun q node hNode =>
    h'.nodes q node (h.nodes q node hNode)
  made := by
    intro q node hNode
    rcases h'.made q node hNode with hOld | hNew
    · exact h.made q node hOld
    · exact .inr hNew
  kept := fun s hs hOther =>
    h'.kept s (h.kept s hs hOther) hOther
  others := fun s hs hOther =>
    h.others s (h'.others s hs hOther) hOther
  fetching := fun r hr hFile hFetching =>
    h'.fetching r hr hFile (h.fetching r hr hFile hFetching)

/- A folder among the rows downloads nothing. -/
theorem cons
    (h : Extends rows d d')
    (hFolder : f.isFolder = true) : Extends (f :: rows) d d' where
  bucket := h.bucket
  nodes := h.nodes
  made := h.made
  kept := fun s hs hOther =>
    h.kept s hs fun r hr => hOther r (List.mem_cons_of_mem f hr)
  others := fun s hs hOther =>
    h.others s hs fun r hr =>
      hOther r (List.mem_cons_of_mem f hr)
  fetching := by
    intro r hr hFile hOld
    rcases List.mem_cons.mp hr with rfl | hr
    · rw [hFolder] at hFile
      cases hFile
    · exact h.fetching r hr hFile hOld

end Extends

------------------------------------------------------------
-- One Entry
------------------------------------------------------------

theorem isRemote_congr
    (h : d'.bucket = d.bucket) : r.isRemote d' ↔ r.isRemote d := by
  unfold ObjectRow.isRemote liveEntry
  rw [h]

theorem liveEntry_congr
    (h : d'.bucket = d.bucket) :
    liveEntry d' id = liveEntry d id := by
  unfold liveEntry
  rw [h]

variable {remote : FileEntry}

theorem entries_of_liveEntry
    (h : liveEntry d id = some remote) :
    d.bucket.entries id = some remote := by
  unfold liveEntry at h
  rw [Option.filter_eq_some_iff] at h
  exact h.1

namespace Returning

/- What is made on the disk are folders in no file's way. -/
theorem congr
    (h : Returning d rows)
    (hBucket : d'.bucket = d.bucket)
    (hDisk :
      ∀ q, d'.disk.nodeAt q = d.disk.nodeAt q ∨
        d'.disk.nodeAt q = some .folder ∧
          ∀ r ∈ rows, r.isRemote d → r.isFolder = false →
            r.localPath ≠ q) :
    Returning d' rows where
  ids := h.ids
  paths := h.paths
  entries := by
    intro r hr remote hEntry
    rw [liveEntry_congr hBucket] at hEntry
    exact h.entries r hr remote hEntry
  contents := by
    intro r hr remote hEntry
    rw [liveEntry_congr hBucket] at hEntry
    exact h.contents r hr remote hEntry
  free := by
    intro r hr hRemote hFile
    rw [isRemote_congr hBucket] at hRemote
    rcases hDisk r.localPath with hSame | ⟨_, hApart⟩
    · rw [hSame]
      exact h.free r hr hRemote hFile
    · exact absurd rfl (hApart r hr hRemote hFile)
  way := by
    intro r hr hRemote hFolder q hPath hIn
    rw [isRemote_congr hBucket] at hRemote
    rcases hDisk q with hSame | ⟨hMade, _⟩
    · rw [hSame]
      exact h.way r hr hRemote hFolder q hPath hIn
    · exact .inr hMade
  apart := by
    intro r hr s hs hRemote hRemote'
    rw [isRemote_congr hBucket] at hRemote hRemote'
    exact h.apart r hr s hs hRemote hRemote'

end Returning

theorem fileAt_of_none
    {p : Path}
    (h : d.disk.nodeAt p = none) : d.fileAt p = none := by
  unfold SyncDevice.fileAt
  rw [h]

variable {content : ContentRef}

/- The row of a file that is registered for its download. -/
theorem fetching_registered
    (ctx : SyncContext)
    (hEntry : d.bucket.entries r.fileId = some remote)
    (hId : remote.fileId = r.fileId)
    (hFile : remote.entryType = .file)
    (hContent : remote.contentRef = some content)
    (hRevision :
      remote.currentRevisionId = r.currentRevisionId) :
    Fetching
      ((d.registerFileAtPathWithState remote r.localPath
          r.localPath .pendingDownload).enqueueDownload
        ctx.blake3 remote.fileId r.localPath content.storageKey)
      r where
  row := by
    rw [SyncDevice.enqueueDownload_objects]
    refine ⟨_, SyncDevice.mem_putRow.mpr (.inl rfl), hId, rfl,
      ?_, hRevision, rfl⟩
    dsimp only
    rw [hFile]
    rfl
  job := by
    refine ⟨remote, content, ?_, hContent, ?_⟩
    · rw [SyncDevice.enqueueDownload_bucket]
      exact hEntry
    · rw [hId]
      exact SyncDevice.awaits_enqueueDownload _ _ _ _ _

theorem Fetching.of_other
    (h : Fetching d r)
    (hBucket : d'.bucket = d.bucket)
    (hRows :
      ∀ s ∈ d.objects, s.fileId = r.fileId → s ∈ d'.objects)
    (hJobs :
      ∀ path storageKey, d.awaits r.fileId path storageKey →
        d'.awaits r.fileId path storageKey) :
    Fetching d' r where
  row := by
    rcases h.row with ⟨s, hs, hId, hRest⟩
    exact ⟨s, hRows s hs hId, hId, hRest⟩
  job := by
    rcases h.job with ⟨remote, content, hEntry, hContent, hJob⟩
    rw [hBucket]
    exact ⟨remote, content, hEntry, hContent, hJobs _ _ hJob⟩

/- A file whose path is free is queued for its download. -/
theorem bringBackFile_ok
    {p : Path}
    (ctx : SyncContext)
    (hContent : remote.contentRef = some content)
    (hPath : p ≠ [])
    (hFree : d.disk.nodeAt p = none) :
    bringBackFile ctx remote p d =
      .ok 0
        ((d.registerFileAtPathWithState remote p p
            .pendingDownload).enqueueDownload ctx.blake3
          remote.fileId p content.storageKey) := by
  have hThere := existsAt_of_none hPath hFree
  unfold bringBackFile
  rw [hContent]
  dsimp only
  rw [get_bind, fileAt_of_none hFree, hThere]
  rfl

theorem extends_file
    (h : Returning d rows)
    (hr : r ∈ rows)
    (hId : remote.fileId = r.fileId)
    (hFetching :
      Fetching
        ((d.registerFileAtPathWithState remote r.localPath
            r.localPath .pendingDownload).enqueueDownload
          ctx.blake3 remote.fileId r.localPath
          content.storageKey) r) :
    Extends rows d
      ((d.registerFileAtPathWithState remote r.localPath
          r.localPath .pendingDownload).enqueueDownload
        ctx.blake3 remote.fileId r.localPath
        content.storageKey) where
  bucket := SyncDevice.enqueueDownload_bucket _ _ _ _ _
  nodes := by
    intro q node hNode
    rw [SyncDevice.enqueueDownload_disk]
    exact hNode
  made := by
    intro q node hNode
    rw [SyncDevice.enqueueDownload_disk] at hNode
    exact .inl hNode
  kept := by
    intro s hs hOther
    rw [SyncDevice.enqueueDownload_objects]
    apply SyncDevice.mem_register hs
    rw [hId]
    exact hOther r hr
  others := by
    intro s hs hOther
    rw [SyncDevice.enqueueDownload_objects] at hs
    apply (SyncDevice.of_mem_register hs).resolve_left
    rw [hId]
    exact hOther r hr
  fetching := by
    intro t ht _ hOld
    by_cases hSame : t.fileId = r.fileId
    · rw [h.ids t ht r hr hSame]
      exact hFetching
    · refine hOld.of_other
        (SyncDevice.enqueueDownload_bucket _ _ _ _ _) ?_ ?_
      · intro s hs hsId
        rw [SyncDevice.enqueueDownload_objects]
        apply SyncDevice.mem_register hs
        rwa [hId, hsId]
      · intro path storageKey hJob
        exact SyncDevice.awaits_of_other hJob (by rwa [hId])

/- A folder is made again, or is there, and is registered. -/
theorem extends_folder
    {disk : LocalDisk}
    (h : Returning d rows)
    (hr : r ∈ rows)
    (hId : remote.fileId = r.fileId)
    (hFolder : r.isFolder = true)
    (hMade : d.disk.createDirAll r.localPath = some disk) :
    Extends rows d
      (SyncDevice.registerFileAtPathWithState
        { d with disk := disk } remote r.localPath r.localPath
        .synced) where
  bucket := rfl
  nodes := fun _ _ hNode => Files.createDirAll_kept hMade hNode
  made := by
    intro q node hNode
    rcases Files.createDirAll_new hMade hNode with
      hOld | ⟨hNew, _⟩
    · exact .inl hOld
    · exact .inr hNew
  kept := by
    intro s hs hOther
    refine SyncDevice.mem_register (show s ∈ _ from hs) ?_
    rw [hId]
    exact hOther r hr
  others := by
    intro s hs hOther
    apply (SyncDevice.of_mem_register hs).resolve_left
    rw [hId]
    exact hOther r hr
  fetching := by
    intro t ht hFile hOld
    refine hOld.of_other rfl ?_ fun _ _ hJob => hJob
    intro s hs hsId
    refine SyncDevice.mem_register (show s ∈ _ from hs) ?_
    rw [hId, hsId]
    intro hSame
    rw [h.ids t ht r hr hSame, hFolder] at hFile
    cases hFile

theorem bringBackEntry_ok
    (ctx : SyncContext)
    (h : Returning d rows)
    (hr : r ∈ rows)
    (hRemote : liveEntry d r.fileId = some remote) :
    ∃ d',
      bringBackEntry ctx remote r.localPath d = .ok () d' ∧
        Extends rows d d' ∧ Returning d' rows ∧
        (r.isFolder = false → Fetching d' r) := by
  have hEntry := h.entries r hr remote hRemote
  have hIs : r.isRemote d := by
    unfold ObjectRow.isRemote
    rw [hRemote]
    rfl
  unfold bringBackEntry
  cases hKind : r.isFolder with
  | false =>
      rcases h.contents r hr remote hRemote hKind with
        ⟨hSome, hRevision⟩
      obtain ⟨content, hContent⟩ :=
        Option.isSome_iff_exists.mp hSome
      have hFile := hEntry.2.mpr hKind
      have hFree := h.free r hr hIs hKind
      have hFetching := fetching_registered ctx
        (entries_of_liveEntry hRemote) hEntry.1 hFile hContent
        hRevision
      have hExtends := extends_file h hr hEntry.1 hFetching
      rw [if_pos hFile, bind_ok
        (bringBackFile_ok ctx hContent (h.paths r hr) hFree)]
      refine ⟨_, rfl, hExtends, ?_, fun _ => hFetching⟩
      apply h.congr hExtends.bucket
      intro q
      rw [SyncDevice.enqueueDownload_disk]
      exact .inl rfl
  | true =>
      have hFolder : remote.entryType ≠ .file := by
        intro hFile
        rw [hEntry.2.mp hFile] at hKind
        cases hKind
      obtain ⟨disk, hMade⟩ := Files.createDirAll_isSome
        (h.way r hr hIs hKind)
      have hExtends := extends_folder h hr hEntry.1 hKind hMade
      rw [if_neg hFolder, bind_ok (onDisk_ok hMade)]
      refine ⟨_, modify_ok _, hExtends, ?_, fun hFile => ?_⟩
      · apply h.congr hExtends.bucket
        intro q
        by_cases hIn : q ≠ [] ∧ q <+: r.localPath
        · right
          refine ⟨Files.folder_of_createDirAll hMade hIn.1 hIn.2,
            ?_⟩
          rintro s hs hsRemote hsFile rfl
          exact h.apart s hs r hr hsRemote hIs hsFile hKind
            hIn.2
        · left
          refine (Files.nodeAt_createDirAll hMade q).trans ?_
          rw [if_neg fun hNew => hIn hNew.1]
      · cases hFile

/- The rows come back one after the other. -/
theorem bringBackRows_ok
    {folder : Path}
    (ctx : SyncContext)
    (rest : List ObjectRow)
    (h : Returning d rows)
    (hRows : ∀ r ∈ rest, r ∈ rows)
    (hIn : ∀ r ∈ rest, folder <+: r.localPath) :
    ∃ d',
      bringBackRows ctx folder folder rest d = .ok () d' ∧
        Extends rows d d' ∧
        ∀ r ∈ rest, r.isRemote d → r.isFolder = false →
          Fetching d' r := by
  induction rest generalizing d with
  | nil =>
      exact ⟨d, rfl, Extends.refl rows d, by simp⟩
  | cons r rest ih =>
      have hr := hRows r List.mem_cons_self
      obtain ⟨inside, hPath⟩ := hIn r List.mem_cons_self
      have hSame :
          folder ++ r.localPath.drop folder.length =
            r.localPath := by
        rw [← hPath, List.drop_left]
      have hRest :
          ∀ s ∈ rest, s ∈ rows :=
        fun s hs => hRows s (List.mem_cons_of_mem r hs)
      have hInRest :
          ∀ s ∈ rest, folder <+: s.localPath :=
        fun s hs => hIn s (List.mem_cons_of_mem r hs)
      unfold bringBackRows
      rw [get_bind]
      cases hRemote : liveEntry d r.fileId with
      | none =>
          rcases ih h hRest hInRest with
            ⟨d', hRun, hExtends, hFetching⟩
          refine ⟨d', hRun, hExtends, ?_⟩
          intro s hs hIs hFile
          rcases List.mem_cons.mp hs with rfl | hs
          · unfold ObjectRow.isRemote at hIs
            rw [hRemote] at hIs
            cases hIs
          · exact hFetching s hs hIs hFile
      | some remote =>
          rcases bringBackEntry_ok ctx h hr hRemote with
            ⟨d₁, hStep, hExtends, hReturning, hFetched⟩
          rcases ih hReturning hRest hInRest with
            ⟨d', hRun, hExtends', hFetching⟩
          dsimp only
          rw [hSame, bind_ok hStep]
          refine ⟨d', hRun, hExtends.trans hExtends', ?_⟩
          intro s hs hIs hFile
          rcases List.mem_cons.mp hs with rfl | hs
          · exact hExtends'.fetching s hr hFile (hFetched hFile)
          · rw [← isRemote_congr hExtends.bucket] at hIs
            exact hFetching s hs hIs hFile

------------------------------------------------------------
-- Restored Folders
------------------------------------------------------------

/-
  The folder `f` is removed from the device, its parent is
  there, and nothing is in the way of the folder and of what
  was removed with it.
-/
structure Ready
    (ctx : SyncContext)
    (d : SyncDevice)
    (f : ObjectRow)
    (placement : Placement)
    (parent : Path) : Prop where
  plain : plainName placement.name = true
  path : f.localPath = parent ++ [placement.name.toList]
  normal : ∀ part ∈ f.localPath, normalPart part = true
  known :
    FolderNodes.parentPath ctx placement.parentId d =
      .ok (some parent) d
  undeleted : d.bucket.isRemotelyDeleted f.fileId = false
  entry :
    ∃ remote, liveEntry d f.fileId = some remote ∧
      remote.entryType = .folder
  indexed : d.getLocalPath f.fileId = some f.localPath
  removed :
    ∀ r ∈ d.objects, r.fileId = f.fileId →
      r.localPath = f.localPath ∧ r.isLive = false
  free :
    ∀ r ∈ d.objects, r.isLive = true → r.s3Key ≠ f.localPath
  way :
    ∀ q, q ≠ [] → q <+: f.localPath →
      d.disk.nodeAt q = none ∨ d.disk.nodeAt q = some .folder
  rows : Returning d (d.removedRemotelyUnder f.localPath)

/- The row that a folder gets. -/
def folderRow
    (f : ObjectRow)
    (placement : Placement) : ObjectRow where
  fileId := f.fileId
  localPath := f.localPath
  s3Key := f.localPath
  size := 0
  state := .synced
  isFolder := true
  parentId := placement.parentId
  currentRevisionId := none
  localHash := none
  localMtime := none

namespace Ready

variable {placement : Placement} {parent : Path}
variable {disk : LocalDisk}

theorem path_ne_nil
    (h : Ready ctx d f placement parent) : f.localPath ≠ [] := by
  rw [h.path]
  simp

theorem joined (h : Ready ctx d f placement parent) :
    joinPath parent placement.name = f.localPath := by
  rw [joinPath_plain h.plain, h.path]

theorem folderById_eq_none
    (h : Ready ctx d f placement parent) :
    d.folderById f.fileId = none := by
  cases hFound : d.folderById f.fileId with
  | none => rfl
  | some g =>
      have hg := SyncDevice.folderById_spec hFound
      have hLive := ObjectRow.isLive_of_isLiveFolder hg.2.2
      rw [(h.removed g hg.1 hg.2.1).2] at hLive
      cases hLive

theorem not_taken (h : Ready ctx d f placement parent) :
    FolderNodes.isTaken d f.fileId f.localPath none =
      .ok false := by
  have hEntry : d.liveEntryAt f.localPath = none := by
    unfold SyncDevice.liveEntryAt
    rw [Option.map_eq_none_iff, List.find?_eq_none]
    intro s hs hAt
    rw [Bool.and_eq_true, decide_eq_true_eq] at hAt
    exact h.free s hs hAt.2 hAt.1
  unfold FolderNodes.isTaken
  rw [hEntry, safeJoinSyncPath_normal h.normal]
  dsimp only
  rcases h.way f.localPath h.path_ne_nil List.prefix_rfl with
    hNone | hFolder
  · rw [existsAt_of_none h.path_ne_nil hNone]
    rfl
  · have hDir : d.isDirAt f.localPath = true := by
      unfold SyncDevice.isDirAt
      rw [decide_eq_true hFolder, Bool.or_true]
    rw [existsAt_of_folder hFolder, hDir]
    rfl

/- The folder is made where it was, and is in the index. -/
theorem placeFolder_ok
    (h : Ready ctx d f placement parent)
    (hMade : d.disk.createDirAll f.localPath = some disk) :
    placeFolder ctx f.fileId placement d =
      .ok ()
        (SyncDevice.putRow { d with disk := disk }
          (folderRow f placement)) := by
  have hFree :
      FolderNodes.freePlace ctx f.fileId placement parent none
          d =
        .ok (placement, f.localPath) d := by
    unfold FolderNodes.freePlace
    dsimp only
    rw [h.joined, bind_ok (reading_ok h.not_taken)]
    rfl
  have hJoin := safeJoinSyncPath_normal h.normal
  have hRegister :
      FolderNodes.register f.fileId placement f.localPath
          { d with disk := disk } =
        .ok ()
          (SyncDevice.putRow { d with disk := disk }
            (folderRow f placement)) := by
    unfold FolderNodes.register
    rw [bind_ok (ofResult_ok hJoin)]
    rfl
  have hPlace :
      FolderNodes.placeFolder ctx f.fileId placement parent d =
        .ok f.localPath
          (SyncDevice.putRow { d with disk := disk }
            (folderRow f placement)) := by
    unfold FolderNodes.placeFolder
    rw [get_bind, h.folderById_eq_none]
    dsimp only
    unfold FolderNodes.placeElsewhere
    rw [Option.map_none, bind_ok hFree]
    dsimp only
    rw [bind_ok (ofResult_ok hJoin), bind_ok (onDisk_ok hMade),
      bind_ok hRegister]
    rfl
  unfold placeFolder
  rw [get_bind, h.undeleted, if_neg Bool.false_ne_true,
    bind_ok h.known]
  dsimp only
  rw [bind_ok hPlace]
  rfl

end Ready

/- The row of the folder is the only one with its id. -/
theorem folderById_putRow
    (d : SyncDevice)
    (f : ObjectRow)
    (placement : Placement) :
    ∃ g,
      (d.putRow (folderRow f placement)).folderById f.fileId =
          some g ∧
        g.localPath = f.localPath := by
  refine ⟨_, List.find?_cons_of_pos ?_, rfl⟩
  simp [folderRow, ObjectRow.isLiveFolder, ObjectRow.isLive]

/- The folder is there again, and all else as before. -/
theorem extends_folderRow
    {disk : LocalDisk}
    (placement : Placement)
    (hFolder : f.isFolder = true)
    (hOther : ∀ r ∈ rows, r.fileId ≠ f.fileId)
    (hMade : d.disk.createDirAll f.localPath = some disk) :
    Extends (f :: rows) d
      ((SyncDevice.putRow { d with disk := disk }
        (folderRow f placement)).markFileSynced f.fileId) where
  bucket := rfl
  nodes := fun _ _ hNode => Files.createDirAll_kept hMade hNode
  made := by
    intro q node hNode
    rcases Files.createDirAll_new hMade hNode with
      hOld | ⟨hNew, _⟩
    · exact .inl hOld
    · exact .inr hNew
  kept := by
    intro s hs hApart
    have hId := hApart f List.mem_cons_self
    rw [SyncDevice.markFileSynced,
      SyncDevice.mem_setState_other hId, SyncDevice.mem_putRow]
    exact .inr ⟨hs, hId⟩
  others := by
    intro s hs hApart
    have hId := hApart f List.mem_cons_self
    rw [SyncDevice.markFileSynced,
      SyncDevice.mem_setState_other hId, SyncDevice.mem_putRow]
      at hs
    rcases hs with rfl | hOld
    · exact absurd rfl hId
    · exact hOld.1
  fetching := by
    intro r hr hFile hOld
    refine hOld.of_other rfl ?_ fun _ _ hJob => hJob
    rcases List.mem_cons.mp hr with rfl | hr
    · rw [hFolder] at hFile
      cases hFile
    · intro s hs hsId
      have hId : s.fileId ≠ f.fileId := by
        rw [hsId]
        exact hOther r hr
      rw [SyncDevice.markFileSynced,
        SyncDevice.mem_setState_other hId, SyncDevice.mem_putRow]
      exact .inr ⟨hs, hId⟩

namespace Ready

variable {placement : Placement} {parent : Path}
variable {disk : LocalDisk}

/- What returns finds nothing in its way after this. -/
theorem returning
    (h : Ready ctx d f placement parent)
    (hMade : d.disk.createDirAll f.localPath = some disk) :
    Returning
      ((SyncDevice.putRow { d with disk := disk }
        (folderRow f placement)).markFileSynced f.fileId)
      (d.removedRemotelyUnder f.localPath) := by
  refine h.rows.congr rfl fun q => ?_
  by_cases hIn : q ≠ [] ∧ q <+: f.localPath
  · right
    refine ⟨Files.folder_of_createDirAll hMade hIn.1 hIn.2, ?_⟩
    rintro r hr _ _ rfl
    have hUnder := ObjectRow.under_iff.mp
      (SyncDevice.mem_removedRemotelyUnder.mp hr).2.1
    exact hUnder.2 (hIn.2.eq_of_length_le hUnder.1.length_le)
  · left
    refine (Files.nodeAt_createDirAll hMade q).trans ?_
    rw [if_neg fun hNew => hIn hNew.1]

/- The rows to return are the same after this. -/
theorem mem_rows
    (h : Ready ctx d f placement parent) :
    r ∈ ((SyncDevice.putRow { d with disk := disk }
        (folderRow f placement)).markFileSynced
          f.fileId).removedRemotelyUnder f.localPath ↔
      r ∈ d.removedRemotelyUnder f.localPath := by
  rw [SyncDevice.mem_removedRemotelyUnder,
    SyncDevice.mem_removedRemotelyUnder]
  by_cases hId : r.fileId = f.fileId
  · constructor
    · rintro ⟨hr, _, hState⟩
      have hSynced := SyncDevice.state_of_mem_setState hr hId
      rw [hState] at hSynced
      cases hSynced
    · rintro ⟨hr, hUnder, _⟩
      exact absurd (h.removed r hr hId).1
        (ObjectRow.under_iff.mp hUnder).2
  · rw [SyncDevice.markFileSynced,
      SyncDevice.mem_setState_other hId, SyncDevice.mem_putRow]
    constructor
    · rintro ⟨rfl | hOld, hRest⟩
      · exact absurd rfl hId
      · exact ⟨hOld.1, hRest⟩
    · rintro ⟨hr, hRest⟩
      exact ⟨.inr ⟨hr, hId⟩, hRest⟩

end Ready

theorem restoreFolder_of_ready
    {placement : Placement}
    {parent : Path}
    (h : Ready ctx d f placement parent)
    (hFolder : f.isFolder = true) :
    ∃ d',
      restoreFolder ctx f.fileId placement d = .ok () d' ∧
        Extends (f :: d.removedRemotelyUnder f.localPath) d d' ∧
        ∀ r ∈ d.removedRemotelyUnder f.localPath,
          r.isRemote d → r.isFolder = false → Fetching d' r := by
  obtain ⟨disk, hMade⟩ := Files.createDirAll_isSome h.way
  have hOther :
      ∀ r ∈ d.removedRemotelyUnder f.localPath,
        r.fileId ≠ f.fileId := by
    intro r hr hId
    have hRow := SyncDevice.mem_removedRemotelyUnder.mp hr
    exact (ObjectRow.under_iff.mp hRow.2.1).2
      (h.removed r hRow.1 hId).1
  have hPlaced := extends_folderRow placement hFolder hOther
    hMade
  have hRows := h.returning hMade
  rcases bringBackRows_ok ctx _ hRows
      (fun r hr => h.mem_rows.mp hr)
      (fun r hr => (ObjectRow.under_iff.mp
        (SyncDevice.mem_removedRemotelyUnder.mp hr).2.1).1) with
    ⟨d', hRun, hExtends, hFetching⟩
  obtain ⟨g, hFound, hPath⟩ :=
    folderById_putRow { d with disk := disk } f placement
  have hThere :
      (SyncDevice.putRow { d with disk := disk }
        (folderRow f placement)).existsAt f.localPath = true :=
    existsAt_of_folder (Files.folder_of_createDirAll hMade
      h.path_ne_nil List.prefix_rfl)
  refine ⟨d', ?_, hPlaced.trans (hExtends.cons hFolder), ?_⟩
  · unfold restoreFolder
    rw [get_bind]
    dsimp only
    rw [bind_ok (h.placeFolder_ok hMade), get_bind, hFound]
    dsimp only
    rw [hPath, hThere, h.indexed]
    exact hRun
  · intro r hr hRemote hFile
    apply hFetching r (h.mem_rows.mpr hr) _ hFile
    exact (isRemote_congr hPlaced.bucket).mpr hRemote

/- The restore of a folder on a device that is ready for it. -/
theorem restored_of_ready
    {op : Operation}
    {placement : Placement}
    {parent : Path}
    (hOp : Placement.ofOp op = some placement)
    (h : Ready ctx d f placement parent)
    (hFolder : f.isFolder = true) :
    ∃ d',
      restored ctx f.fileId op d = .ok 0 d' ∧
        Extends (f :: d.removedRemotelyUnder f.localPath) d d' ∧
        ∀ r ∈ d.removedRemotelyUnder f.localPath,
          r.isRemote d → r.isFolder = false → Fetching d' r := by
  rcases restoreFolder_of_ready h hFolder with
    ⟨d', hRun, hRest⟩
  rcases h.entry with ⟨remote, hEntry, hKind⟩
  refine ⟨d', ?_, hRest⟩
  unfold restored
  rw [get_bind, hOp, hEntry]
  dsimp only
  rw [hKind, if_neg (by decide), bind_ok hRun]
  rfl

end RemoteChanges

end S4Drive

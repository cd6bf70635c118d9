import S4Drive.Sync.RemoteSteps

/-
  A folder that another device deletes, on a device whose
  index is in order. Without local changes all of it goes to
  the local trash, and all its rows are deleted remotely.
  With local changes its files are looked at one by one: one
  that is as it was synced goes to the trash and its row is
  deleted locally, one that was edited stays beside a
  conflict copy, and the rows of the folders are deleted
  remotely.

  Main declarations:
    * `of_bind_ok`, `Marked`
    * `deleteFile_cases`
    * `Deleting`, `Deleting.deleteFile`, `Deleting.deleteFiles`
    * `FolderGone`, `WentWhole`, `WentPartly`
    * `deleted_folder`
-/

open FileTree NamedForest

------------------------------------------------------------
-- Runs that Succeed
------------------------------------------------------------

namespace S4Drive

namespace RemoteChanges

open Recovery (Path)

variable {d d' d₁ e e' : SyncDevice} {r s f g : ObjectRow}
variable {forest : FileId → Place FileId Text}
variable {ctx : SyncContext} {n : Nat} {p q : Path}

section Runs

variable {α β : Type} {x : SyncM α} {k : α → SyncM β}
variable {a : α} {b : β}

theorem of_bind_ok (h : (x >>= k) d = .ok b d') :
    ∃ a d₁, x d = .ok a d₁ ∧ k a d₁ = .ok b d' := by
  change EStateM.bind x k d = .ok b d' at h
  unfold EStateM.bind at h
  cases hFirst : x d with
  | ok a d₁ =>
      rw [hFirst] at h
      exact ⟨a, d₁, rfl, h⟩
  | error e d₁ =>
      rw [hFirst] at h
      cases h

theorem of_ofResult_ok
    {result : CoreResult α}
    (h : ofResult result d = .ok a d') :
    result = .ok a ∧ d' = d := by
  unfold ofResult at h
  cases result with
  | ok a' =>
      cases h
      exact ⟨rfl, rfl⟩
  | error e => cases h

theorem of_onDisk_ok
    {text : String}
    {step : LocalDisk → Option LocalDisk}
    (h : onDisk text step d = .ok () d') :
    ∃ disk, step d.disk = some disk ∧
      d' = { d with disk := disk } := by
  unfold onDisk at h
  cases hStep : step d.disk with
  | some disk =>
      rw [hStep] at h
      cases h
      exact ⟨disk, rfl, rfl⟩
  | none =>
      rw [hStep] at h
      cases h

end Runs

def withState
    (σ : ObjectRow → IndexState)
    (row : ObjectRow) : ObjectRow :=
  { row with state := σ row }

/- The rows are those of before with other states. -/
def Marked
    (σ : ObjectRow → IndexState)
    (d e : SyncDevice) : Prop :=
  e.objects = d.objects.map (withState σ)

namespace Marked

variable {σ : ObjectRow → IndexState}

theorem refl (d : SyncDevice) : Marked ObjectRow.state d d := by
  change d.objects = d.objects.map id
  rw [List.map_id]

theorem mem
    (h : Marked σ d e)
    (hMem : r ∈ d.objects) : withState σ r ∈ e.objects := by
  rw [h]
  exact List.mem_map_of_mem hMem

theorem of_mem
    (h : Marked σ d e)
    (hMem : s ∈ e.objects) :
    ∃ r ∈ d.objects, withState σ r = s := by
  rw [h] at hMem
  exact List.mem_map.mp hMem

theorem ids
    (h : Marked σ d e)
    (hShows : Shows d forest) :
    ∀ r ∈ e.objects, ∀ s ∈ e.objects,
      r.fileId = s.fileId → r = s := by
  intro r hr s hs hId
  rcases h.of_mem hr with ⟨r₀, hr₀, rfl⟩
  rcases h.of_mem hs with ⟨s₀, hs₀, rfl⟩
  rw [hShows.ids r₀ hr₀ s₀ hs₀ hId]

theorem setState
    (h : Marked σ d e)
    (id : FileId)
    (state : IndexState) :
    Marked (fun r => if r.fileId = id then state else σ r) d
      (e.setState id state) := by
  unfold Marked SyncDevice.setState SyncDevice.mapRows
  rw [h, List.map_map]
  apply List.map_congr_left
  intro r _
  by_cases hSame : r.fileId = id
  · simp [withState, hSame]
  · simp [withState, hSame]

end Marked

/- Only the entry at the path decides. -/
theorem localFileChangedSinceSync_congr
    (h : e.disk.nodeAt p = d.disk.nodeAt p)
    (hash : Option String) :
    localFileChangedSinceSync ctx e p hash =
      localFileChangedSinceSync ctx d p hash := by
  unfold localFileChangedSinceSync SyncDevice.existsAt
    SyncDevice.fileAt
  rw [h]

/- What is there and unchanged is a file. -/
theorem file_of_unchanged
    {hash : Option String}
    (h : localFileChangedSinceSync ctx d p hash = .ok false)
    (hThere : d.existsAt p = true) :
    ∃ file, d.fileAt p = some file := by
  unfold localFileChangedSinceSync at h
  rw [if_pos hThere] at h
  cases hFile : d.fileAt p with
  | some file => exact ⟨file, rfl⟩
  | none =>
      rw [hFile] at h
      cases hash with
      | none => cases h
      | some stored => cases h

theorem fileAt_eq_some_iff {file : StoredFile} :
    d.fileAt p = some file ↔
      d.disk.nodeAt p = some (.file file) := by
  unfold SyncDevice.fileAt
  split
  · rename_i body hNode
    rw [hNode]
    simp
  · rename_i hOther
    constructor
    · intro hFile
      cases hFile
    · intro hNode
      exact absurd hNode (hOther file)

theorem existsAt_of_file
    {file : StoredFile}
    (h : d.disk.nodeAt p = some (.file file)) :
    d.existsAt p = true := by
  unfold SyncDevice.existsAt
  rw [h, Bool.or_true]

/- The state of a file on the disk can be told. -/
theorem changed_or_not
    (ctx : SyncContext)
    (hash : Option String)
    (h : (d.fileAt p).isSome) :
    localFileChangedSinceSync ctx d p hash = .ok true ∨
      localFileChangedSinceSync ctx d p hash = .ok false := by
  obtain ⟨file, hFile⟩ := Option.isSome_iff_exists.mp h
  have hThere := existsAt_of_file (fileAt_eq_some_iff.mp hFile)
  unfold localFileChangedSinceSync
  rw [if_pos hThere, hFile]
  cases hash with
  | none => exact .inl rfl
  | some stored =>
      cases hMatch : contentHashMatches (some stored)
          (ctx.blake3 file.bytes) with
      | true => exact .inr (by simp [hMatch])
      | false => exact .inl (by simp [hMatch])

/- The folder of the app at the top of the sync folder. -/
def inAppFolder (p : Path) : Prop :=
  p.head? = some ".s4drive".toList

instance (p : Path) : Decidable (inAppFolder p) :=
  inferInstanceAs (Decidable (_ = _))

theorem head?_below
    (hPath : p ≠ [])
    (hIn : p <+: q) : q.head? = p.head? := by
  obtain ⟨rest, rfl⟩ := hIn
  cases p with
  | nil => exact absurd rfl hPath
  | cons part parts => rfl

theorem trashPath_inAppFolder
    (p : Path)
    (id : FileId) : inAppFolder (trashPath p id) := rfl

theorem not_below_trashPath
    {id : FileId}
    (hOwn : ¬ inAppFolder q) : ¬ trashPath p id <+: q := by
  intro hIn
  apply hOwn
  unfold inAppFolder
  rw [head?_below (by simp [trashPath, trashDir]) hIn]
  rfl

/- The entry at `p` has gone to the trash. -/
def Trashed
    (disk disk' : LocalDisk)
    (p t : Path) : Prop :=
  ∃ made,
    disk.createDirAll trashDir = some made ∧
      made.canReplace p t = true ∧ disk' = made.moveTree p t

theorem moveLocalFileToTrash_cases
    {id : FileId}
    (hOwn : ¬ inAppFolder p)
    (h : moveLocalFileToTrash p id d = .ok () d') :
    (d.existsAt p = false ∧ d' = d) ∨
      (d.existsAt p = true ∧
        ∃ disk, Trashed d.disk disk p (trashPath p id) ∧
          d' = { d with disk := disk }) := by
  unfold moveLocalFileToTrash at h
  rw [get_bind] at h
  by_cases hThere : d.existsAt p = true
  · right
    rw [if_pos hThere] at h
    obtain ⟨_, d₁, hMake, hMove⟩ := of_bind_ok h
    obtain ⟨made, hMade, rfl⟩ := of_onDisk_ok hMake
    obtain ⟨disk, hRename, rfl⟩ := of_onDisk_ok hMove
    have hOther : p ≠ trashPath p id := by
      intro hSame
      apply hOwn
      rw [hSame]
      exact trashPath_inAppFolder p id
    have hMoved := Files.moveTree_of_renameTree hRename hOther
    exact ⟨hThere, disk, ⟨made, hMade, hMoved⟩, rfl⟩
  · rw [if_neg hThere] at h
    cases h
    exact .inl ⟨by simpa using hThere, rfl⟩

namespace Trashed

variable {disk disk' : LocalDisk} {id : FileId}
variable {node : Node StoredFile}

/- What is not inside stays. -/
theorem kept
    (h : Trashed disk disk' p (trashPath p id))
    (hOwn : ¬ inAppFolder q)
    (hOut : ¬ p <+: q)
    (hNode : disk.nodeAt q = some node) :
    disk'.nodeAt q = some node := by
  obtain ⟨made, hMade, _, rfl⟩ := h
  rw [Files.nodeAt_moveTree, if_neg (not_below_trashPath hOwn),
    if_neg hOut]
  exact Files.createDirAll_kept hMade hNode

theorem gone
    (h : Trashed disk disk' p (trashPath p id))
    (hPath : p ≠ [])
    (hOwn : ¬ inAppFolder p)
    (hIn : p <+: q) : disk'.nodeAt q = none := by
  obtain ⟨made, _, _, rfl⟩ := h
  have hOwn' : ¬ inAppFolder q := by
    unfold inAppFolder
    rwa [head?_below hPath hIn]
  rw [Files.nodeAt_moveTree, if_neg (not_below_trashPath hOwn'),
    if_pos hIn]

end Trashed

------------------------------------------------------------
-- Conflict Copies
------------------------------------------------------------

/- A path that ends in the name that is drawn. -/
def isDrawn (ctx : SyncContext) (p : Path) : Prop :=
  ∃ dir stem, p = dir ++ [stem ++ ' ' :: ctx.freshName]

theorem uniqueConflictPath_cases
    (ctx : SyncContext)
    (d : SyncDevice)
    (dir : Path)
    (name : Text) :
    d.existsAt (uniqueConflictPath ctx d dir name) = false ∨
      isDrawn ctx (uniqueConflictPath ctx d dir name) := by
  unfold uniqueConflictPath
  split
  · split
    · rename_i index hFound
      left
      simpa using List.find?_some hFound
    · exact .inr ⟨dir, name, rfl⟩
  · rename_i hFree
    exact .inl (by simpa using hFree)

/- A copy has been made where nothing was, or as drawn. -/
def Copied
    (ctx : SyncContext)
    (disk disk' : LocalDisk) : Prop :=
  ∃ dir made path file,
    disk.createDirAll dir = some made ∧
      disk' = made.set path (.file file) ∧
      ((∀ node, made.nodeAt path = some node →
          node = .other false) ∨
        isDrawn ctx path)

theorem other_of_not_existsAt
    {node : Node StoredFile}
    (h : d.existsAt p = false)
    (hNode : d.disk.nodeAt p = some node) :
    node = .other false := by
  unfold SyncDevice.existsAt at h
  rw [hNode] at h
  cases node with
  | folder => simp at h
  | file body => simp at h
  | other resolves => simp_all

theorem createConflictCopy_cases
    {source original path : Path}
    (h : createConflictCopy ctx source original d = .ok path d') :
    ∃ disk, Copied ctx d.disk disk ∧
      d' = { d with disk := disk } := by
  unfold createConflictCopy at h
  dsimp only at h
  obtain ⟨dir, d₁, hDir, hRest⟩ := of_bind_ok h
  cases (of_ofResult_ok hDir).2
  obtain ⟨_, d₂, hMake, hRest⟩ := of_bind_ok hRest
  obtain ⟨made, hMade, rfl⟩ := of_onDisk_ok hMake
  rw [get_bind] at hRest
  have hPath :
      ∀ name : Text,
        let path := uniqueConflictPath ctx
          { d with disk := made } dir name
        (∀ node, made.nodeAt path = some node →
          node = .other false) ∨ isDrawn ctx path := by
    intro name
    rcases uniqueConflictPath_cases ctx
        { d with disk := made } dir name with hFree | hDrawn
    · exact .inl fun node hNode =>
        other_of_not_existsAt hFree hNode
    · exact .inr hDrawn
  split at hRest
  · obtain ⟨_, d₃, hCopy, hEnd⟩ := of_bind_ok hRest
    obtain ⟨disk, hCopied, rfl⟩ := of_onDisk_ok hCopy
    cases hEnd
    unfold copyFile at hCopied
    split at hCopied
    · cases hCopied
      exact ⟨_, ⟨dir, made, _, _, hMade, rfl, hPath _⟩, rfl⟩
    · cases hCopied
  · obtain ⟨_, d₃, hPlace, hEnd⟩ := of_bind_ok hRest
    obtain ⟨disk, hPlaced, rfl⟩ := of_onDisk_ok hPlace
    cases hEnd
    cases hPlaced
    exact ⟨_, ⟨dir, made, _, _, hMade, rfl, hPath _⟩, rfl⟩

namespace Copied

variable {disk disk' : LocalDisk}

/- Folders and files stay as they are. -/
theorem kept
    {node : Node StoredFile}
    (h : Copied ctx disk disk')
    (hDrawn : ¬ isDrawn ctx q)
    (hNode : disk.nodeAt q = some node)
    (hRegular : node ≠ .other false) :
    disk'.nodeAt q = some node := by
  obtain ⟨dir, made, path, file, hMade, rfl, hPath⟩ := h
  have hThere := Files.createDirAll_kept hMade hNode
  rw [Files.nodeAt_set, if_neg, hThere]
  rintro rfl
  rcases hPath with hFree | hAt
  · exact hRegular (hFree node hThere)
  · exact hDrawn hAt

/- Where a file was, there is one. -/
theorem file
    {body : StoredFile}
    (h : Copied ctx disk disk')
    (hFile : disk.nodeAt q = some (.file body)) :
    ∃ body', disk'.nodeAt q = some (.file body') := by
  obtain ⟨dir, made, path, file, hMade, rfl, _⟩ := h
  rw [Files.nodeAt_set]
  split
  · exact ⟨file, rfl⟩
  · exact ⟨body, Files.createDirAll_kept hMade hFile⟩

end Copied

/- What the delete of a file of the index may do. -/
theorem deleteFile_cases
    (hRow : d.rowOf r.fileId = some r)
    (h : deleteFile ctx r.fileId d = .ok n d') :
    (localFileChangedSinceSync ctx d r.localPath r.localHash =
        .ok true ∧
      (d' = d ∨
        ∃ disk conflicts,
          Copied ctx d.disk disk ∧
            d' =
              SyncDevice.markFileConflict
                { d with disk := disk, conflicts := conflicts }
                r.fileId)) ∨
      (localFileChangedSinceSync ctx d r.localPath r.localHash =
          .ok false ∧
        ∃ d₁,
          moveLocalFileToTrash r.localPath r.fileId d =
              .ok () d₁ ∧
            d' = d₁.markFileDeleted r.fileId) := by
  unfold deleteFile at h
  rw [get_bind, hRow] at h
  dsimp only at h
  obtain ⟨changed, d₁, hRead, hRest⟩ := of_bind_ok h
  obtain ⟨hChanged, hSame⟩ := of_ofResult_ok hRead
  cases hSame
  cases changed with
  | true =>
      left
      refine ⟨hChanged, ?_⟩
      rw [if_pos rfl] at hRest
      split at hRest
      · cases hRest
        exact .inl rfl
      · right
        obtain ⟨_, d₂, hRaise, hEnd⟩ := of_bind_ok hRest
        cases hEnd
        unfold raiseConflict at hRaise
        obtain ⟨_, d₃, hCopy, hMark⟩ := of_bind_ok hRaise
        obtain ⟨disk, hCopied, rfl⟩ :=
          createConflictCopy_cases hCopy
        cases hMark
        exact ⟨disk, _, hCopied, rfl⟩
  | false =>
      right
      refine ⟨hChanged, ?_⟩
      rw [if_neg Bool.false_ne_true] at hRest
      obtain ⟨_, d₂, hMove, hEnd⟩ := of_bind_ok hRest
      cases hEnd
      exact ⟨d₂, hMove, rfl⟩

------------------------------------------------------------
-- All Files
------------------------------------------------------------

theorem mem_liveFilesUnder {folder : Path} :
    r ∈ d.liveFilesUnder folder ↔
      r ∈ d.objects ∧ r.under folder = true ∧
        r.isFolder = false ∧ r.isLive = true := by
  unfold SyncDevice.liveFilesUnder SyncDevice.sortedByPath
  rw [List.mem_mergeSort, List.mem_filter, Bool.and_eq_true,
    Bool.and_eq_true, Bool.not_eq_true', and_assoc]

/- Every synced file in the folder has been edited or is gone. -/
def NoneUnchanged
    (ctx : SyncContext)
    (d : SyncDevice)
    (f : ObjectRow) : Prop :=
  ∀ r ∈ d.liveFilesUnder f.localPath, r.state = .synced →
    (d.fileAt r.localPath).isSome →
      localFileChangedSinceSync ctx d r.localPath r.localHash =
        .ok true

/-
  Some of the files of the folder have been deleted: `d` is
  the device before this, and `σ` tells the states of rows.
-/
structure Deleting
    (ctx : SyncContext)
    (d : SyncDevice)
    (f : ObjectRow)
    (σ : ObjectRow → IndexState)
    (e : SyncDevice) : Prop where
  marked : Marked σ d e
  states :
    ∀ r ∈ d.objects, σ r = r.state ∨
      r ∈ d.liveFilesUnder f.localPath ∧ r.state = .synced ∧
        (σ r = .conflicted ∨ σ r = .deletedLocally)
  fresh :
    ∀ r ∈ d.liveFilesUnder f.localPath, σ r = r.state →
      d.disk.nodeAt r.localPath ≠ none →
        e.disk.nodeAt r.localPath = d.disk.nodeAt r.localPath
  folders :
    ∀ g ∈ d.objects, g.isLiveFolder = true →
      ¬ inAppFolder g.localPath →
        e.disk.nodeAt g.localPath = some .folder
  conflicted :
    ∀ r ∈ d.objects, r.state = .synced → σ r = .conflicted →
      (d.fileAt r.localPath).isSome →
        localFileChangedSinceSync ctx d r.localPath
          r.localHash = .ok true
  deleted :
    ∀ r ∈ d.objects, r.state = .synced →
      σ r = .deletedLocally →
        (d.fileAt r.localPath).isSome →
          localFileChangedSinceSync ctx d r.localPath
            r.localHash = .ok false
  foldersStay :
    NoneUnchanged ctx d f →
      ∀ q, d.disk.nodeAt q = some .folder →
        e.disk.nodeAt q = some .folder
  filesStay :
    NoneUnchanged ctx d f →
      ∀ q body, d.disk.nodeAt q = some (.file body) →
        ∃ body', e.disk.nodeAt q = some (.file body')

namespace Deleting

variable {σ : ObjectRow → IndexState} {state : IndexState}

theorem refl
    (ctx : SyncContext)
    (f : ObjectRow)
    (hShows : Shows d forest) :
    Deleting ctx d f ObjectRow.state d where
  marked := Marked.refl d
  states := fun _ _ => .inl rfl
  fresh := fun _ _ _ _ => rfl
  folders := fun g hg hFolder _ => hShows.folders g hg hFolder
  conflicted := by
    intro r _ hSynced hState
    rw [hSynced] at hState
    cases hState
  deleted := by
    intro r _ hSynced hState
    rw [hSynced] at hState
    cases hState
  foldersStay := fun _ _ hNode => hNode
  filesStay := fun _ _ body hNode => ⟨body, hNode⟩

/- A file that still is synced has its row and its entry. -/
theorem state_of_synced
    (h : Deleting ctx d f σ e)
    (hMem : r ∈ d.objects)
    (hState : σ r = .synced) : r.state = .synced := by
  rcases h.states r hMem with hSame | ⟨_, hSynced, _⟩
  · rw [← hSame, hState]
  · exact hSynced

theorem rowOf_eq
    (h : Deleting ctx d f σ e)
    (hShows : Shows d forest)
    (hMem : r ∈ d.objects)
    (hState : σ r = .synced) : e.rowOf r.fileId = some r := by
  have hRow := SyncDevice.rowOf_of_ids (h.marked.ids hShows)
    (h.marked.mem hMem)
  have hSame : withState σ r = r := by
    unfold withState
    rw [hState, ← h.state_of_synced hMem hState]
  rwa [hSame] at hRow

/- The state of one file changes, and the disk in places. -/
theorem step
    (h : Deleting ctx d f σ e)
    (hShows : Shows d forest)
    (hr : r ∈ d.liveFilesUnder f.localPath)
    (hState : σ r = .synced)
    (hRows :
      e'.objects = (e.setState r.fileId state).objects)
    (hVerdict :
      state = .conflicted ∧
          ((d.fileAt r.localPath).isSome →
            localFileChangedSinceSync ctx d r.localPath
              r.localHash = .ok true) ∨
        state = .deletedLocally ∧
          ((d.fileAt r.localPath).isSome →
            localFileChangedSinceSync ctx d r.localPath
              r.localHash = .ok false))
    (hFiles :
      ∀ s ∈ d.liveFilesUnder f.localPath, s ≠ r →
        d.disk.nodeAt s.localPath ≠ none →
          e.disk.nodeAt s.localPath =
              d.disk.nodeAt s.localPath →
            e'.disk.nodeAt s.localPath =
              d.disk.nodeAt s.localPath)
    (hFolders :
      ∀ g ∈ d.objects, g.isLiveFolder = true →
        ¬ inAppFolder g.localPath →
          e.disk.nodeAt g.localPath = some .folder →
            e'.disk.nodeAt g.localPath = some .folder)
    (hFoldersStay :
      NoneUnchanged ctx d f →
        ∀ q, d.disk.nodeAt q = some .folder →
          e'.disk.nodeAt q = some .folder)
    (hFilesStay :
      NoneUnchanged ctx d f →
        ∀ q body, d.disk.nodeAt q = some (.file body) →
          ∃ body', e'.disk.nodeAt q = some (.file body')) :
    Deleting ctx d f
      (fun s => if s.fileId = r.fileId then state else σ s)
      e' := by
  have hMem := (mem_liveFilesUnder.mp hr).1
  have hSynced := h.state_of_synced hMem hState
  have hOnly :
      ∀ s ∈ d.objects, s.fileId = r.fileId → s = r :=
    fun s hs hId => hShows.ids s hs r hMem hId
  refine ⟨?_, ?_, ?_, ?_, ?_, ?_, hFoldersStay, hFilesStay⟩
  · -- marked
    unfold Marked
    rw [hRows]
    exact h.marked.setState r.fileId state
  · -- states
    intro s hs
    by_cases hId : s.fileId = r.fileId
    · right
      rw [if_pos hId, hOnly s hs hId]
      exact ⟨hr, hSynced,
        hVerdict.imp And.left And.left⟩
    · rw [if_neg hId]
      exact h.states s hs
  · -- fresh
    intro s hs hSame hNode
    have hsMem := (mem_liveFilesUnder.mp hs).1
    by_cases hId : s.fileId = r.fileId
    · rw [if_pos hId, hOnly s hsMem hId, hSynced] at hSame
      rcases hVerdict with ⟨hIs, _⟩ | ⟨hIs, _⟩
      · rw [hIs] at hSame
        cases hSame
      · rw [hIs] at hSame
        cases hSame
    · rw [if_neg hId] at hSame
      exact hFiles s hs (fun hEq => hId (by rw [hEq])) hNode
        (h.fresh s hs hSame hNode)
  · -- folders
    intro g hg hFolder hOwn
    exact hFolders g hg hFolder hOwn
      (h.folders g hg hFolder hOwn)
  · -- conflicted
    intro s hs hsSynced hIs
    by_cases hId : s.fileId = r.fileId
    · rw [if_pos hId] at hIs
      rw [hOnly s hs hId]
      rcases hVerdict with ⟨_, hChanged⟩ | ⟨hOther, _⟩
      · exact hChanged
      · rw [hIs] at hOther
        cases hOther
    · rw [if_neg hId] at hIs
      exact h.conflicted s hs hsSynced hIs
  · -- deleted
    intro s hs hsSynced hIs
    by_cases hId : s.fileId = r.fileId
    · rw [if_pos hId] at hIs
      rw [hOnly s hs hId]
      rcases hVerdict with ⟨hOther, _⟩ | ⟨_, hUnchanged⟩
      · rw [hIs] at hOther
        cases hOther
      · exact hUnchanged
    · rw [if_neg hId] at hIs
      exact h.deleted s hs hsSynced hIs

/- Until its turn comes, a file is as it was on the disk. -/
theorem changed_eq
    (h : Deleting ctx d f σ e)
    (hr : r ∈ d.liveFilesUnder f.localPath)
    (hState : σ r = .synced)
    (hThere : (d.fileAt r.localPath).isSome) :
    localFileChangedSinceSync ctx e r.localPath r.localHash =
      localFileChangedSinceSync ctx d r.localPath
        r.localHash := by
  obtain ⟨file, hFile⟩ := Option.isSome_iff_exists.mp hThere
  have hNode := fileAt_eq_some_iff.mp hFile
  have hSynced :=
    h.state_of_synced (mem_liveFilesUnder.mp hr).1 hState
  apply localFileChangedSinceSync_congr
  apply h.fresh r hr
  · rw [hState, hSynced]
  · simp [hNode]

/- An edited file stays beside a copy. -/
theorem raised
    {disk : LocalDisk}
    {conflicts : List ConflictRow}
    (h : Deleting ctx d f σ e)
    (hShows : Shows d forest)
    (hFresh : ∀ q, isDrawn ctx q → d.disk.nodeAt q = none)
    (hr : r ∈ d.liveFilesUnder f.localPath)
    (hState : σ r = .synced)
    (hChanged :
      localFileChangedSinceSync ctx e r.localPath r.localHash =
        .ok true)
    (hCopied : Copied ctx e.disk disk) :
    Deleting ctx d f
      (fun s =>
        if s.fileId = r.fileId then .conflicted else σ s)
      (SyncDevice.markFileConflict
        { e with disk := disk, conflicts := conflicts }
        r.fileId) := by
  -- What was there has a name that is not drawn.
  have hOld :
      ∀ q, d.disk.nodeAt q ≠ none → ¬ isDrawn ctx q :=
    fun q hNode hAt => hNode (hFresh q hAt)
  refine h.step hShows hr hState rfl ?_ ?_ ?_ ?_ ?_
  · left
    refine ⟨rfl, fun hThere => ?_⟩
    rw [← h.changed_eq hr hState hThere]
    exact hChanged
  · intro s hs _ hNode hSame
    have hsRow := mem_liveFilesUnder.mp hs
    obtain ⟨node, hIs⟩ := Option.ne_none_iff_exists'.mp hNode
    have hRegular : node ≠ .other false := by
      rintro rfl
      exact hShows.regular s hsRow.1
        (ObjectRow.isKept_of_isLive hsRow.2.2.2) false hIs
    rw [hIs]
    rw [hIs] at hSame
    exact hCopied.kept (hOld _ hNode) hSame hRegular
  · intro g hg hFolder _ hNode
    have hIs := hShows.folders g hg hFolder
    exact hCopied.kept (hOld _ (by simp [hIs])) hNode
      (by simp)
  · intro hNone q hFolder
    exact hCopied.kept (hOld q (by simp [hFolder]))
      (h.foldersStay hNone q hFolder) (by simp)
  · intro hNone q body hFile
    obtain ⟨body', hFile'⟩ := h.filesStay hNone q body hFile
    exact hCopied.file hFile'

/- A file that is not on the disk only loses its row. -/
theorem absent
    (h : Deleting ctx d f σ e)
    (hShows : Shows d forest)
    (hr : r ∈ d.liveFilesUnder f.localPath)
    (hState : σ r = .synced)
    (hUnchanged :
      localFileChangedSinceSync ctx e r.localPath r.localHash =
        .ok false) :
    Deleting ctx d f
      (fun s =>
        if s.fileId = r.fileId then .deletedLocally else σ s)
      (e.markFileDeleted r.fileId) := by
  refine h.step hShows hr hState rfl ?_ ?_ ?_ ?_ ?_
  · right
    refine ⟨rfl, fun hThere => ?_⟩
    rw [← h.changed_eq hr hState hThere]
    exact hUnchanged
  · exact fun _ _ _ _ hSame => hSame
  · exact fun _ _ _ _ hNode => hNode
  · exact h.foldersStay
  · exact h.filesStay

end Deleting

/- A file of the folder is not in the folder of the app. -/
theorem not_inAppFolder
    (hPath : f.localPath ≠ [])
    (hOwn : ¬ inAppFolder f.localPath)
    (hr : r ∈ d.liveFilesUnder f.localPath) :
    ¬ inAppFolder r.localPath := by
  have hUnder :=
    ObjectRow.under_iff.mp (mem_liveFilesUnder.mp hr).2.1
  unfold inAppFolder
  rwa [head?_below hPath hUnder.1]

/- Nothing of the index is inside a file of the folder. -/
theorem not_below_fileUnder
    (hShows : Shows d forest)
    (hr : r ∈ d.liveFilesUnder f.localPath)
    (hs : s ∈ d.objects)
    (hLive : s.isLive = true)
    (hOther : s ≠ r) : ¬ r.localPath <+: s.localPath := by
  have hRow := mem_liveFilesUnder.mp hr
  have hFile : r.isLiveFolder = false := by
    unfold ObjectRow.isLiveFolder
    rw [hRow.2.2.1, Bool.false_and]
  exact hShows.not_below_file hRow.1 hs
    (ObjectRow.isKept_of_isLive hRow.2.2.2)
    (ObjectRow.isKept_of_isLive hLive) hFile hOther

namespace Deleting

variable {σ : ObjectRow → IndexState} {disk : LocalDisk}

/- What is in the way of a moved file is no folder of before. -/
theorem not_above
    {made : LocalDisk}
    {a : Path}
    (h : Deleting ctx d f σ e)
    (hShows : Shows d forest)
    (hNone : NoneUnchanged ctx d f)
    (hMade : e.disk.createDirAll trashDir = some made)
    (hPath : a ≠ [])
    (hNode : made.nodeAt a ≠ some .folder)
    (hThere : d.disk.nodeAt q ≠ none)
    (hIn : a <+: q) : q = a := by
  by_contra hOther
  apply hNode
  apply Files.createDirAll_kept hMade
  apply h.foldersStay hNone
  exact hShows.rooted.folder_above hPath hIn hOther hThere

/- An unchanged file goes to the trash. -/
theorem trashed
    (h : Deleting ctx d f σ e)
    (hShows : Shows d forest)
    (hPath : f.localPath ≠ [])
    (hOwn : ¬ inAppFolder f.localPath)
    (hr : r ∈ d.liveFilesUnder f.localPath)
    (hState : σ r = .synced)
    (hUnchanged :
      localFileChangedSinceSync ctx e r.localPath r.localHash =
        .ok false)
    (hThere : e.existsAt r.localPath = true)
    (hTrashed :
      Trashed e.disk disk r.localPath
        (trashPath r.localPath r.fileId)) :
    Deleting ctx d f
      (fun s =>
        if s.fileId = r.fileId then .deletedLocally else σ s)
      (SyncDevice.markFileDeleted { e with disk := disk }
        r.fileId) := by
  have hrPath : r.localPath ≠ [] := by
    have hRow := mem_liveFilesUnder.mp hr
    exact hShows.path_ne_nil hRow.1
      (ObjectRow.isKept_of_isLive hRow.2.2.2)
  obtain ⟨file, hFile⟩ := file_of_unchanged hUnchanged hThere
  have hNode := fileAt_eq_some_iff.mp hFile
  refine h.step hShows hr hState rfl ?_ ?_ ?_ ?_ ?_
  · right
    refine ⟨rfl, fun hIs => ?_⟩
    rw [← h.changed_eq hr hState hIs]
    exact hUnchanged
  · intro s hs hOther hsNode hSame
    have hsRow := mem_liveFilesUnder.mp hs
    obtain ⟨node, hIs⟩ := Option.ne_none_iff_exists'.mp hsNode
    have hOut := not_below_fileUnder hShows hr hsRow.1
      hsRow.2.2.2 hOther
    rw [hIs]
    rw [hIs] at hSame
    exact hTrashed.kept (not_inAppFolder hPath hOwn hs) hOut
      hSame
  · intro g hg hFolder hgOwn hIs
    have hOther : g ≠ r := by
      rintro rfl
      rw [hNode] at hIs
      cases hIs
    have hOut := not_below_fileUnder hShows hr hg
      (ObjectRow.isLive_of_isLiveFolder hFolder) hOther
    exact hTrashed.kept hgOwn hOut hIs
  · intro hNone q hFolder
    obtain ⟨made, hMade, hMay, rfl⟩ := hTrashed
    have hSource := Files.createDirAll_kept hMade hNode
    have hTarget := Files.not_folder_of_canReplace hMay hSource
    have hHere := h.foldersStay hNone q hFolder
    have hThere' := Files.createDirAll_kept hMade hHere
    have hOutTarget :
        ¬ trashPath r.localPath r.fileId <+: q := by
      intro hIn
      have hSame := h.not_above hShows hNone hMade
        (by simp [trashPath, trashDir]) hTarget
        (by simp [hFolder]) hIn
      rw [hSame] at hThere'
      exact hTarget hThere'
    have hOutSource : ¬ r.localPath <+: q := by
      intro hIn
      have hSame := h.not_above hShows hNone hMade hrPath
        (by simp [hSource]) (by simp [hFolder]) hIn
      rw [hSame, hNode] at hHere
      cases hHere
    change (made.moveTree _ _).nodeAt q = _
    rw [Files.nodeAt_moveTree, if_neg hOutTarget,
      if_neg hOutSource]
    exact hThere'
  · intro hNone q body hBody
    obtain ⟨made, hMade, hMay, rfl⟩ := hTrashed
    have hSource := Files.createDirAll_kept hMade hNode
    have hTarget := Files.not_folder_of_canReplace hMay hSource
    obtain ⟨body', hHere⟩ := h.filesStay hNone q body hBody
    have hThere' := Files.createDirAll_kept hMade hHere
    change ∃ body', (made.moveTree _ _).nodeAt q = _
    rw [Files.nodeAt_moveTree]
    by_cases hIn : trashPath r.localPath r.fileId <+: q
    · have hSame := h.not_above hShows hNone hMade
        (by simp [trashPath, trashDir]) hTarget
        (by simp [hBody]) hIn
      rw [if_pos hIn, hSame, List.drop_length, List.append_nil]
      exact ⟨file, hSource⟩
    · have hOutSource : ¬ r.localPath <+: q := by
        intro hInside
        have hSame := h.not_above hShows hNone hMade hrPath
          (by simp [hSource]) (by simp [hBody]) hInside
        rw [hSame] at hBody
        -- It was there before, so it has been edited.
        have hWas : (d.fileAt r.localPath).isSome := by
          rw [fileAt_eq_some_iff.mpr hBody]
          rfl
        have hMem := (mem_liveFilesUnder.mp hr).1
        have hChanged := hNone r hr
          (h.state_of_synced hMem hState) hWas
        rw [h.changed_eq hr hState hWas, hChanged] at hUnchanged
        cases hUnchanged
      rw [if_neg hIn, if_neg hOutSource]
      exact ⟨body', hThere'⟩

/- One file: what is decided about it stays decided. -/
theorem deleteFile
    (h : Deleting ctx d f σ e)
    (hShows : Shows d forest)
    (hPath : f.localPath ≠ [])
    (hOwn : ¬ inAppFolder f.localPath)
    (hFresh : ∀ q, isDrawn ctx q → d.disk.nodeAt q = none)
    (hr : r ∈ d.liveFilesUnder f.localPath)
    (hState : σ r = .synced)
    (hRun :
      RemoteChanges.deleteFile ctx r.fileId e = .ok n e') :
    ∃ σ', Deleting ctx d f σ' e' ∧
      (∀ s ∈ d.objects, σ s ≠ .synced → σ' s = σ s) ∧
      ((d.fileAt r.localPath).isSome →
        localFileChangedSinceSync ctx d r.localPath
            r.localHash =
          .ok false →
        σ' r = .deletedLocally) := by
  have hMem := (mem_liveFilesUnder.mp hr).1
  have hRow := h.rowOf_eq hShows hMem hState
  -- Only the state of the file itself changes.
  have hOthers :
      ∀ state : IndexState, ∀ s ∈ d.objects, σ s ≠ .synced →
        (if s.fileId = r.fileId then state else σ s) = σ s := by
    intro state s hs hDecided
    apply if_neg
    intro hId
    rw [hShows.ids s hs r hMem hId] at hDecided
    exact hDecided hState
  rcases deleteFile_cases hRow hRun with
    ⟨hChanged, hStays⟩ | ⟨hUnchanged, e₁, hMove, rfl⟩
  · have hContra :
        (d.fileAt r.localPath).isSome →
          localFileChangedSinceSync ctx d r.localPath
              r.localHash ≠
            .ok false := by
      intro hThere hUnchanged
      rw [h.changed_eq hr hState hThere, hUnchanged] at hChanged
      cases hChanged
    rcases hStays with rfl | ⟨disk, conflicts, hCopied, rfl⟩
    · exact ⟨σ, h, fun _ _ _ => rfl,
        fun hThere hUnchanged =>
          absurd hUnchanged (hContra hThere)⟩
    · exact ⟨_,
        h.raised hShows hFresh hr hState hChanged hCopied,
        hOthers _, fun hThere hUnchanged =>
          absurd hUnchanged (hContra hThere)⟩
  · rcases moveLocalFileToTrash_cases
        (not_inAppFolder hPath hOwn hr) hMove with
      ⟨_, rfl⟩ | ⟨hThere, disk, hTrashed, rfl⟩
    · exact ⟨_, h.absent hShows hr hState hUnchanged,
        hOthers _, fun _ _ => if_pos rfl⟩
    · exact ⟨_, h.trashed hShows hPath hOwn hr hState hUnchanged
        hThere hTrashed, hOthers _, fun _ _ => if_pos rfl⟩

/- All files of the folder, one after the other. -/
theorem deleteFiles
    {rest : List ObjectRow}
    (h : Deleting ctx d f σ e)
    (hShows : Shows d forest)
    (hPath : f.localPath ≠ [])
    (hOwn : ¬ inAppFolder f.localPath)
    (hFresh : ∀ q, isDrawn ctx q → d.disk.nodeAt q = none)
    (hRest : ∀ r ∈ rest, r ∈ d.liveFilesUnder f.localPath)
    (hRun : RemoteChanges.deleteFiles ctx rest e = .ok n e') :
    ∃ σ', Deleting ctx d f σ' e' ∧
      (∀ s ∈ d.objects, σ s ≠ .synced → σ' s = σ s) ∧
      ∀ r ∈ rest, r.state = .synced →
        (d.fileAt r.localPath).isSome →
          localFileChangedSinceSync ctx d r.localPath
              r.localHash =
            .ok false →
          σ' r = .deletedLocally := by
  induction rest generalizing σ e n with
  | nil =>
      cases hRun
      exact ⟨σ, h, fun _ _ _ => rfl, by simp⟩
  | cons r rest ih =>
      have hr := hRest r List.mem_cons_self
      have hMem := (mem_liveFilesUnder.mp hr).1
      have hTail :
          ∀ s ∈ rest, s ∈ d.liveFilesUnder f.localPath :=
        fun s hs => hRest s (List.mem_cons_of_mem r hs)
      have hNow : e.getObjectState r.fileId = some (σ r) := by
        have hRow := SyncDevice.rowOf_of_ids
          (h.marked.ids hShows) (h.marked.mem hMem)
        unfold SyncDevice.getObjectState
        exact congrArg (Option.map ObjectRow.state) hRow
      unfold RemoteChanges.deleteFiles at hRun
      rw [get_bind, hNow] at hRun
      by_cases hState : σ r = .synced
      · rw [hState, if_pos rfl] at hRun
        obtain ⟨m, e₁, hFile, hMore⟩ := of_bind_ok hRun
        obtain ⟨k, e₂, hLoop, hEnd⟩ := of_bind_ok hMore
        cases hEnd
        obtain ⟨σ₁, h₁, hKeeps₁, hGone⟩ :=
          h.deleteFile hShows hPath hOwn hFresh hr hState hFile
        obtain ⟨σ₂, h₂, hKeeps₂, hRestGone⟩ :=
          ih h₁ hTail hLoop
        refine ⟨σ₂, h₂, ?_, ?_⟩
        · intro s hs hDecided
          have hSame := hKeeps₁ s hs hDecided
          rw [hKeeps₂ s hs (by rwa [hSame]), hSame]
        · intro s hs hSynced hThere hUnchanged
          rcases List.mem_cons.mp hs with rfl | hs
          · have hIs := hGone hThere hUnchanged
            rw [hKeeps₂ s hMem (by simp [hIs]), hIs]
          · exact hRestGone s hs hSynced hThere hUnchanged
      · rw [if_neg (by simpa using hState)] at hRun
        obtain ⟨m, e₁, hSkip, hMore⟩ := of_bind_ok hRun
        cases hSkip
        obtain ⟨k, e₂, hLoop, hEnd⟩ := of_bind_ok hMore
        cases hEnd
        obtain ⟨σ₂, h₂, hKeeps, hRestGone⟩ := ih h hTail hLoop
        refine ⟨σ₂, h₂, hKeeps, ?_⟩
        intro s hs hSynced hThere hUnchanged
        rcases List.mem_cons.mp hs with rfl | hs
        · -- It was decided before, and cannot be a conflict.
          rcases h.states s hMem with hSame | ⟨_, _, hIs | hIs⟩
          · rw [hSame, hSynced] at hState
            exact absurd rfl hState
          · have hChanged :=
              h.conflicted s hMem hSynced hIs hThere
            rw [hUnchanged] at hChanged
            cases hChanged
          · rw [hKeeps s hMem hState, hIs]
        · exact hRestGone s hs hSynced hThere hUnchanged

end Deleting

------------------------------------------------------------
-- The Folder
------------------------------------------------------------

/- What is common to both ways to delete a folder. -/
structure FolderGone
    (d d' : SyncDevice)
    (f : ObjectRow)
    (σ : ObjectRow → IndexState) : Prop where
  marked : Marked σ d d'
  dead :
    ∀ r ∈ d.objects, r.isLive = false → σ r = r.state
  outside :
    ∀ r ∈ d.objects, ¬ f.localPath <+: r.localPath →
      σ r = r.state
  folders :
    ∀ r ∈ d.objects, r.isLiveFolder = true →
      f.localPath <+: r.localPath → σ r = .deletedRemotely
  files :
    ∀ r ∈ d.liveFilesUnder f.localPath,
      σ r = .deletedRemotely →
        r.state = .synced ∧ d'.disk.nodeAt r.localPath = none
  way :
    ∀ g ∈ d.objects, g.isLiveFolder = true →
      ¬ inAppFolder g.localPath →
        d'.disk.nodeAt g.localPath = none ∨
          d'.disk.nodeAt g.localPath = some .folder

/- All of the folder is in the trash. -/
structure WentWhole
    (d d' : SyncDevice)
    (f : ObjectRow)
    (σ : ObjectRow → IndexState) : Prop where
  states :
    ∀ r ∈ d.liveFilesUnder f.localPath, σ r = .deletedRemotely
  empty :
    ∀ p, f.localPath <+: p → d'.disk.nodeAt p = none
  elsewhere :
    ∀ p, ¬ f.localPath <+: p →
      (d.fileAt p).isSome → (d'.fileAt p).isSome

/- The folder stays with the files that are kept. -/
structure WentPartly
    (ctx : SyncContext)
    (d d' : SyncDevice)
    (f : ObjectRow)
    (σ : ObjectRow → IndexState) : Prop where
  removed :
    ∀ r ∈ d.liveFilesUnder f.localPath, r.state = .synced →
      (d.fileAt r.localPath).isSome →
        localFileChangedSinceSync ctx d r.localPath
            r.localHash =
          .ok false →
        σ r = .deletedLocally
  kept :
    NoneUnchanged ctx d f →
      (∀ p, (d.fileAt p).isSome → (d'.fileAt p).isSome) ∧
        ∀ r ∈ d.liveFilesUnder f.localPath,
          (d.fileAt r.localPath).isSome →
            (withState σ r).isLive = true

theorem Marked.markDeletedWhere
    {σ : ObjectRow → IndexState}
    (h : Marked σ d e)
    (folder : Path)
    (state : IndexState)
    (extra : ObjectRow → Bool) :
    Marked
      (fun r =>
        if (withState σ r).atOrUnder folder &&
            (withState σ r).isLive && extra (withState σ r) then
          state
        else
          σ r)
      d (e.markDeletedWhere folder state extra) := by
  have hObjects :
      (e.markDeletedWhere folder state extra).objects =
        e.objects.map fun row =>
          if row.atOrUnder folder && row.isLive && extra row then
            { row with state := state }
          else
            row := rfl
  unfold Marked
  rw [hObjects, h, List.map_map]
  apply List.map_congr_left
  intro r _
  rw [Function.comp]
  split
  · rename_i hChosen
    exact congrArg (fun state => { r with state := state })
      (if_pos hChosen).symm
  · rename_i hOther
    exact congrArg (fun state => { r with state := state })
      (if_neg hOther).symm

theorem anyChanged_false
    {test : ObjectRow → CoreResult Bool}
    {rows : List ObjectRow}
    (h : anyChanged test rows = .ok false) :
    ∀ r ∈ rows, test r = .ok false := by
  induction rows with
  | nil => simp
  | cons s rows ih =>
      unfold anyChanged at h
      split at h
      · cases h
      · cases h
      · rename_i hHead
        intro r hr
        rcases List.mem_cons.mp hr with rfl | hr
        · exact hHead
        · exact ih h r hr

/- Without local changes all live files are synced. -/
theorem synced_of_unchanged
    (hShows : Shows d forest)
    (h :
      hasLocalChanges ctx d f (d.liveFilesUnder f.localPath) =
        .ok false)
    (hr : r ∈ d.liveFilesUnder f.localPath) :
    r.state = .synced := by
  unfold hasLocalChanges at h
  split at h
  · cases h
  · cases h
  · rename_i hNone
    have hTest := anyChanged_false hNone r hr
    have hRow := hShows.rowOf_eq (mem_liveFilesUnder.mp hr).1
    unfold SyncDevice.getObjectState at hTest
    rw [hRow, Option.map_some] at hTest
    by_contra hOther
    rw [if_pos (by simpa using hOther)] at hTest
    cases hTest

/- The state of a row when all of a folder is marked. -/
def markedState (f r : ObjectRow) : IndexState :=
  if r.atOrUnder f.localPath && r.isLive then
    .deletedRemotely
  else
    r.state

theorem markedState_of_chosen
    (hIn : f.localPath <+: r.localPath)
    (hLive : r.isLive = true) :
    markedState f r = .deletedRemotely := by
  unfold markedState ObjectRow.atOrUnder
  rw [List.isPrefixOf_iff_prefix.mpr hIn, hLive]
  rfl

theorem markedState_of_dead
    (hDead : r.isLive = false) : markedState f r = r.state := by
  unfold markedState
  rw [hDead, Bool.and_false, if_neg Bool.false_ne_true]

theorem markedState_outside
    (hOut : ¬ f.localPath <+: r.localPath) :
    markedState f r = r.state := by
  unfold markedState ObjectRow.atOrUnder
  rw [← List.isPrefixOf_iff_prefix, Bool.not_eq_true] at hOut
  rw [hOut, Bool.false_and, if_neg Bool.false_ne_true]

theorem marked_markSubtreeDeleted (d : SyncDevice) :
    Marked (markedState f) d
      (d.markSubtreeDeleted f.localPath .deletedRemotely) := by
  have hMarked := (Marked.refl d).markDeletedWhere f.localPath
    .deletedRemotely fun _ => true
  unfold Marked at hMarked ⊢
  unfold SyncDevice.markSubtreeDeleted
  rw [hMarked]
  apply List.map_congr_left
  intro r _
  simp [withState, markedState]

/- The whole folder goes to the trash. -/
theorem wentWhole
    (hShows : Shows d forest)
    (hf : f ∈ d.objects)
    (hFolder : f.isLiveFolder = true)
    (hOwn : ¬ inAppFolder f.localPath)
    (hUnchanged :
      hasLocalChanges ctx d f (d.liveFilesUnder f.localPath) =
        .ok false)
    (hMove :
      moveLocalFileToTrash f.localPath f.fileId d =
        .ok () d₁) :
    FolderGone d
        (d₁.markSubtreeDeleted f.localPath .deletedRemotely) f
        (markedState f) ∧
      WentWhole d
        (d₁.markSubtreeDeleted f.localPath .deletedRemotely) f
        (markedState f) := by
  have hPath := hShows.path_ne_nil hf
    (ObjectRow.isKept_of_isLiveFolder hFolder)
  have hNode := hShows.folders f hf hFolder
  rcases moveLocalFileToTrash_cases hOwn hMove with
    ⟨hAbsent, _⟩ | ⟨_, disk, hTrashed, rfl⟩
  · rw [existsAt_of_folder hNode] at hAbsent
    cases hAbsent
  · have hEmpty :
        ∀ p, f.localPath <+: p → disk.nodeAt p = none :=
      fun p hIn => hTrashed.gone hPath hOwn hIn
    constructor
    · refine ⟨marked_markSubtreeDeleted _,
        fun r _ hDead => markedState_of_dead hDead,
        fun r _ hOut => markedState_outside hOut,
        fun r _ hrFolder hIn => markedState_of_chosen hIn
          (ObjectRow.isLive_of_isLiveFolder hrFolder), ?_, ?_⟩
      · intro r hr _
        have hUnder := ObjectRow.under_iff.mp
          (mem_liveFilesUnder.mp hr).2.1
        exact ⟨synced_of_unchanged hShows hUnchanged hr,
          hEmpty _ hUnder.1⟩
      · intro g hg hgFolder hgOwn
        by_cases hIn : f.localPath <+: g.localPath
        · exact .inl (hEmpty _ hIn)
        · exact .inr (hTrashed.kept hgOwn hIn
            (hShows.folders g hg hgFolder))
    · refine ⟨?_, hEmpty, ?_⟩
      · intro r hr
        have hRow := mem_liveFilesUnder.mp hr
        exact markedState_of_chosen
          (ObjectRow.under_iff.mp hRow.2.1).1 hRow.2.2.2
      · intro p hOut hThere
        obtain ⟨file, hFile⟩ :=
          Option.isSome_iff_exists.mp hThere
        obtain ⟨made, hMade, hMay, rfl⟩ := hTrashed
        have hSource := Files.createDirAll_kept hMade hNode
        have hStays := Files.createDirAll_kept hMade
          (fileAt_eq_some_iff.mp hFile)
        have hBelow := Files.not_below_of_canReplace
          (hShows.rooted.createDirAll hMade) hMay hSource
          (by simp [trashPath, trashDir]) hStays
        have hAfter :
            SyncDevice.fileAt
                (SyncDevice.markSubtreeDeleted
                  { d with
                    disk :=
                      made.moveTree f.localPath
                        (trashPath f.localPath f.fileId) }
                  f.localPath .deletedRemotely) p =
              some file := by
          apply fileAt_eq_some_iff.mpr
          change (made.moveTree _ _).nodeAt p = _
          rw [Files.nodeAt_moveTree, if_neg hBelow,
            if_neg hOut]
          exact hStays
        rw [hAfter]
        rfl

/- The state of a row when the folders are marked as well. -/
def foldersState
    (f : ObjectRow)
    (σ : ObjectRow → IndexState)
    (r : ObjectRow) : IndexState :=
  if r.atOrUnder f.localPath && r.isLiveFolder then
    .deletedRemotely
  else
    σ r

namespace Deleting

variable {σ : ObjectRow → IndexState}

theorem state_of_folder
    (h : Deleting ctx d f σ e)
    (hMem : r ∈ d.objects)
    (hFolder : r.isFolder = true) : σ r = r.state := by
  rcases h.states r hMem with hSame | ⟨hFile, _⟩
  · exact hSame
  · rw [(mem_liveFilesUnder.mp hFile).2.2.1] at hFolder
    cases hFolder

theorem marked_markFoldersDeleted (h : Deleting ctx d f σ e) :
    Marked (foldersState f σ) d
      (e.markFoldersDeleted f.localPath .deletedRemotely) := by
  have hMarked := h.marked.markDeletedWhere f.localPath
    .deletedRemotely ObjectRow.isFolder
  unfold Marked at hMarked ⊢
  unfold SyncDevice.markFoldersDeleted
  rw [hMarked]
  apply List.map_congr_left
  intro r hr
  refine congrArg (fun state => { r with state := state })
    (?_ : _ = foldersState f σ r)
  dsimp only
  unfold foldersState ObjectRow.isLiveFolder
  cases hFolder : r.isFolder with
  | false => simp [withState, hFolder]
  | true =>
      have hSame : withState σ r = r := by
        unfold withState
        rw [h.state_of_folder hr hFolder]
      rw [hSame, h.state_of_folder hr hFolder, hFolder,
        Bool.and_true, Bool.true_and]

theorem foldersState_of_file
    (hr : r ∈ d.liveFilesUnder f.localPath) :
    foldersState f σ r = σ r := by
  unfold foldersState ObjectRow.isLiveFolder
  rw [(mem_liveFilesUnder.mp hr).2.2.1, Bool.false_and,
    Bool.and_false, if_neg Bool.false_ne_true]

/- A live file of the folder is not deleted remotely. -/
theorem not_deletedRemotely
    (h : Deleting ctx d f σ e)
    (hr : r ∈ d.liveFilesUnder f.localPath) :
    σ r ≠ .deletedRemotely := by
  have hRow := mem_liveFilesUnder.mp hr
  intro hIs
  rcases h.states r hRow.1 with hSame | ⟨_, _, hOther | hOther⟩
  · have hLive := hRow.2.2.2
    unfold ObjectRow.isLive at hLive
    rw [← hSame, hIs] at hLive
    simp at hLive
  · rw [hIs] at hOther
    cases hOther
  · rw [hIs] at hOther
    cases hOther

theorem folderGone (h : Deleting ctx d f σ e) :
    FolderGone d
      (e.markFoldersDeleted f.localPath .deletedRemotely) f
      (foldersState f σ) := by
  -- A row outside of the folder or dead is none of its files.
  have hOld :
      ∀ r ∈ d.objects, r ∉ d.liveFilesUnder f.localPath →
        σ r = r.state := by
    intro r hr hOther
    rcases h.states r hr with hSame | ⟨hFile, _⟩
    · exact hSame
    · exact absurd hFile hOther
  refine ⟨h.marked_markFoldersDeleted, ?_, ?_, ?_, ?_, ?_⟩
  · intro r hr hDead
    have hOther : r ∉ d.liveFilesUnder f.localPath := by
      intro hFile
      rw [(mem_liveFilesUnder.mp hFile).2.2.2] at hDead
      cases hDead
    unfold foldersState ObjectRow.isLiveFolder
    rw [hDead, Bool.and_false, Bool.and_false,
      if_neg Bool.false_ne_true, hOld r hr hOther]
  · intro r hr hOut
    have hOther : r ∉ d.liveFilesUnder f.localPath :=
      fun hFile => hOut (ObjectRow.under_iff.mp
        (mem_liveFilesUnder.mp hFile).2.1).1
    unfold foldersState ObjectRow.atOrUnder
    rw [← List.isPrefixOf_iff_prefix, Bool.not_eq_true] at hOut
    rw [hOut, Bool.false_and, if_neg Bool.false_ne_true,
      hOld r hr hOther]
  · intro r _ hFolder hIn
    unfold foldersState ObjectRow.atOrUnder
    rw [List.isPrefixOf_iff_prefix.mpr hIn, hFolder]
    rfl
  · intro r hr hIs
    rw [foldersState_of_file hr] at hIs
    exact absurd hIs (h.not_deletedRemotely hr)
  · intro g hg hFolder hOwn
    exact .inr (h.folders g hg hFolder hOwn)

/- What the files decide is left by the mark on folders. -/
theorem wentPartly
    (h : Deleting ctx d f σ e)
    (hRemoved :
      ∀ r ∈ d.liveFilesUnder f.localPath, r.state = .synced →
        (d.fileAt r.localPath).isSome →
          localFileChangedSinceSync ctx d r.localPath
              r.localHash =
            .ok false →
          σ r = .deletedLocally) :
    WentPartly ctx d
      (e.markFoldersDeleted f.localPath .deletedRemotely) f
      (foldersState f σ) where
  removed := by
    intro r hr hSynced hThere hUnchanged
    rw [foldersState_of_file hr]
    exact hRemoved r hr hSynced hThere hUnchanged
  kept := by
    intro hNone
    constructor
    · intro p hThere
      obtain ⟨file, hFile⟩ := Option.isSome_iff_exists.mp hThere
      obtain ⟨file', hFile'⟩ := h.filesStay hNone p file
        (fileAt_eq_some_iff.mp hFile)
      have hAfter :
          SyncDevice.fileAt
              (e.markFoldersDeleted f.localPath
                .deletedRemotely) p =
            some file' := fileAt_eq_some_iff.mpr hFile'
      rw [hAfter]
      rfl
    · intro r hr hThere
      have hRow := mem_liveFilesUnder.mp hr
      unfold withState
      rw [foldersState_of_file hr]
      rcases h.states r hRow.1 with
        hSame | ⟨_, hSynced, hIs | hIs⟩
      · rw [hSame]
        exact hRow.2.2.2
      · rw [hIs]
        rfl
      · have hUnchanged := h.deleted r hRow.1 hSynced hIs hThere
        rw [hNone r hr hSynced hThere] at hUnchanged
        cases hUnchanged

end Deleting

/-
  The delete of a folder takes all of it to the trash when
  nothing in it has changed here, and goes through its files
  otherwise.
-/
theorem deleted_folder
    (hShows : Shows d forest)
    (hf : f ∈ d.objects)
    (hFolder : f.isLiveFolder = true)
    (hOwn : ¬ inAppFolder f.localPath)
    (hFresh : ∀ q, isDrawn ctx q → d.disk.nodeAt q = none)
    (hRun : deleted ctx f.fileId d = .ok n d') :
    ∃ σ, FolderGone d d' f σ ∧
      ((hasLocalChanges ctx d f
              (d.liveFilesUnder f.localPath) =
            .ok false ∧
          WentWhole d d' f σ) ∨
        (hasLocalChanges ctx d f
              (d.liveFilesUnder f.localPath) =
            .ok true ∧
          WentPartly ctx d d' f σ)) := by
  have hPath := hShows.path_ne_nil hf
    (ObjectRow.isKept_of_isLiveFolder hFolder)
  have hState :
      (d.getObjectState f.fileId).any IndexState.isDeleted =
        false := by
    have hKept := ObjectRow.isKept_of_isLiveFolder hFolder
    unfold ObjectRow.isKept at hKept
    unfold SyncDevice.getObjectState
    rw [hShows.rowOf_eq hf]
    simpa using hKept
  unfold deleted at hRun
  rw [get_bind, hState, if_neg Bool.false_ne_true,
    hShows.folderById_eq hf hFolder] at hRun
  dsimp only at hRun
  unfold deleteFolder at hRun
  rw [get_bind] at hRun
  obtain ⟨changed, d₁, hRead, hRest⟩ := of_bind_ok hRun
  obtain ⟨hChanged, hSame⟩ := of_ofResult_ok hRead
  cases hSame
  cases changed with
  | true =>
      rw [if_pos rfl] at hRest
      obtain ⟨k, e, hLoop, hMark⟩ := of_bind_ok hRest
      cases hMark
      obtain ⟨σ, h, _, hRemoved⟩ :=
        (Deleting.refl ctx f hShows).deleteFiles hShows hPath
          hOwn hFresh (fun _ hr => hr) hLoop
      exact ⟨foldersState f σ, h.folderGone,
        .inr ⟨hChanged, h.wentPartly hRemoved⟩⟩
  | false =>
      rw [if_neg Bool.false_ne_true] at hRest
      obtain ⟨_, d₁, hMove, hMark⟩ := of_bind_ok hRest
      cases hMark
      have hWhole := wentWhole hShows hf hFolder hOwn hChanged
        hMove
      exact ⟨markedState f, hWhole.1,
        .inl ⟨hChanged, hWhole.2⟩⟩

end RemoteChanges

end S4Drive

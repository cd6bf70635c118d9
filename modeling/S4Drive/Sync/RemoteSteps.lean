import S4Drive.Sync.IndexForest
import S4Drive.Sync.RemoteChanges

/-
  What the steps of remote changes do on a device whose index
  is in order and where nothing is in their way: the path of
  a known parent is looked up, a folder that is there is not
  made again, and a file or folder goes to a free place with
  everything inside.

  Main declarations:
    * `bind_ok`, `onDisk_ok`
    * `parentPath_known`
    * `relocated_of_moved`, `relocated_of_absent`
    * `renamed_of_clear`
-/

open FileTree NamedForest

------------------------------------------------------------
-- Runs of Steps
------------------------------------------------------------

namespace S4Drive

namespace RemoteChanges

open Recovery (Path)

variable {d d' : SyncDevice} {r s f : ObjectRow}
variable {forest : FileId → Place FileId Text}
variable {ctx : SyncContext}

section Runs

variable {α β : Type} {x : SyncM α} {k : α → SyncM β} {a : α}

theorem bind_ok (h : x d = .ok a d') :
    (x >>= k) d = k a d' := by
  change EStateM.bind x k d = k a d'
  unfold EStateM.bind
  rw [h]

theorem get_bind (k : SyncDevice → SyncM β) :
    (get >>= k) d = k d d := rfl

theorem modify_ok (step : SyncDevice → SyncDevice) :
    (modify step : SyncM Unit) d = .ok () (step d) := rfl

theorem reading_ok
    {read : SyncDevice → CoreResult α}
    (h : read d = .ok a) : reading read d = .ok a d := by
  unfold reading
  rw [h]

theorem ofResult_ok
    {result : CoreResult α}
    (h : result = .ok a) : ofResult result d = .ok a d := by
  unfold ofResult
  rw [h]

variable {step : LocalDisk → Option LocalDisk}

theorem onDisk_ok
    {text : String}
    {disk : LocalDisk}
    (h : step d.disk = some disk) :
    onDisk text step d = .ok () { d with disk := disk } := by
  unfold onDisk
  rw [h]

/- A step that leaves the disk as it is. -/
theorem onDisk_same
    {text : String}
    (h : step d.disk = some d.disk) :
    onDisk text step d = .ok () d :=
  onDisk_ok h

end Runs

------------------------------------------------------------
-- Paths
------------------------------------------------------------

variable {p a b parent : Path} {placement : Placement}

theorem existsAt_of_folder
    (h : d.disk.nodeAt p = some .folder) :
    d.existsAt p = true := by
  unfold SyncDevice.existsAt
  rw [h, Bool.or_true]

theorem existsAt_of_none
    (hPath : p ≠ [])
    (h : d.disk.nodeAt p = none) : d.existsAt p = false := by
  unfold SyncDevice.existsAt
  rw [h]
  simpa using hPath

/- Nothing is where no regular entry exists. -/
theorem none_of_not_existsAt
    (hRegular :
      ∀ resolves, d.disk.nodeAt p ≠ some (.other resolves))
    (h : d.existsAt p = false) : d.disk.nodeAt p = none := by
  unfold SyncDevice.existsAt at h
  rw [Bool.or_eq_false_iff] at h
  cases hNode : d.disk.nodeAt p with
  | none => rfl
  | some node =>
      rw [hNode] at h
      cases node with
      | folder => cases h.2
      | file body => cases h.2
      | other resolves => exact absurd hNode (hRegular resolves)

theorem node_of_existsAt
    (hPath : p ≠ [])
    (h : d.existsAt p = true) : d.disk.nodeAt p ≠ none := by
  intro hNone
  rw [existsAt_of_none hPath hNone] at h
  cases h

theorem safeJoinSyncPath_normal
    (h : ∀ part ∈ p, normalPart part = true) :
    safeJoinSyncPath p = .ok p := by
  have hParts :
      ∀ part ∈ p, part ≠ [] ∧ part ≠ ['.'] ∧
        part ≠ ['.', '.'] := by
    simpa [normalPart, and_assoc] using h
  have hEscapes : escapes p = false := by
    have hHead : p.head? ≠ some [] :=
      fun hHead => (hParts [] (List.mem_of_head? hHead)).1 rfl
    have hDots : ['.', '.'] ∉ p :=
      fun hMem => (hParts _ hMem).2.2 rfl
    unfold escapes
    rw [Bool.or_eq_false_iff, Bool.and_eq_false_iff]
    exact ⟨.inl (decide_eq_false hHead), decide_eq_false hDots⟩
  have hNormal : normalParts p = p := by
    unfold normalParts
    rw [List.filter_eq_self]
    intro part hPart
    simpa using
      ⟨(hParts part hPart).1, (hParts part hPart).2.1⟩
  unfold safeJoinSyncPath
  rw [hEscapes, if_neg Bool.false_ne_true, hNormal]

theorem joinPath_plain
    {name : String}
    (h : plainName name = true) :
    joinPath parent name = parent ++ [name.toList] := by
  unfold plainName at h
  rw [Bool.and_eq_true, decide_eq_true_eq] at h
  have hName : name ≠ "" := by
    rintro rfl
    exact absurd h.2 (by decide)
  unfold joinPath
  rw [if_neg fun hNone => hName hNone.2, h.1]

namespace ClearPlace

/- The target of a placement has an ordinary path. -/
theorem target_normal
    (h : ClearPlace d r placement parent)
    (hShows : Shows d forest) :
    ∀ part ∈ parent ++ [placement.name.toList],
      normalPart part = true := by
  intro part hPart
  rcases List.mem_append.mp hPart with hParent | hName
  · exact h.normal_of_mem_parent hShows hParent
  · rw [List.mem_singleton.mp hName]
    exact h.name_normal

/- The folder of the target is on the disk. -/
theorem parent_isDir
    (h : ClearPlace d r placement parent)
    (hShows : Shows d forest) : d.disk.isDir parent := by
  rcases h.parent_cases with
    ⟨_, hNil⟩ | ⟨f, hf, hFolder, _, hPath, _, _⟩
  · exact .inl hNil
  · rw [← hPath]
    exact .inr (hShows.folders f hf hFolder)

end ClearPlace

variable {id : FileId}

theorem unknownAbove_known
    {rounds : Nat}
    {unknown : List (FileId × Placement)}
    (hUndeleted : d.bucket.isRemotelyDeleted id = false)
    (hFound : d.folderById id = some f) :
    FolderNodes.unknownAbove d rounds unknown (some id) =
      some (f.s3Key, unknown) := by
  cases rounds with
  | zero =>
      unfold FolderNodes.unknownAbove
      rw [hUndeleted, hFound, if_neg Bool.false_ne_true]
  | succ rounds =>
      unfold FolderNodes.unknownAbove
      rw [hUndeleted, hFound, if_neg Bool.false_ne_true]

theorem folderPath_known
    (hUndeleted : d.bucket.isRemotelyDeleted id = false)
    (hFound : d.folderById id = some f) :
    FolderNodes.folderPath ctx id d = .ok (some f.s3Key) d := by
  unfold FolderNodes.folderPath
  rw [get_bind, unknownAbove_known hUndeleted hFound]
  rfl

theorem parentPath_known
    (hShows : Shows d forest)
    (h : ClearPlace d r placement parent) :
    FolderNodes.parentPath ctx placement.parentId d =
      .ok (some parent) d := by
  rcases h.parent_cases with
    ⟨hTop, hNil⟩ |
      ⟨f, hf, hFolder, hId, hPath, hFound, hUndeleted⟩
  · rw [hTop, hNil]
    rfl
  · have hKey := hShows.keys f hf
      (ObjectRow.isKept_of_isLiveFolder hFolder)
    rw [hId, ← hPath, ← hKey]
    exact folderPath_known hUndeleted hFound

theorem resolve_known
    (hShows : Shows d forest)
    (h : ClearPlace d r placement parent) :
    FolderNodes.resolve ctx placement d =
      .ok (some (parent ++ [placement.name.toList])) d := by
  unfold FolderNodes.resolve
  rw [bind_ok (parentPath_known hShows h),
    ← joinPath_plain h.plain]
  rfl

/- Every row keeps its entry when a free place is taken. -/
theorem nodeAt_moved
    (hShows : Shows d forest)
    (hClear : ClearPlace d r placement parent)
    (hOther :
      r.localPath ≠ parent ++ [placement.name.toList])
    (hs : s ∈ d.objects)
    (hKept : s.isKept = true) :
    (d.disk.moveTree r.localPath
        (parent ++ [placement.name.toList])).nodeAt
        (rebase r.localPath
          (parent ++ [placement.name.toList]) s.localPath) =
      d.disk.nodeAt s.localPath := by
  have hFree := hClear.free.resolve_left hOther
  by_cases hIn : r.localPath <+: s.localPath
  · obtain ⟨rest, hPath⟩ := hIn
    rw [← hPath, rebase_append, Files.nodeAt_moveTree,
      if_pos (List.prefix_append _ _), List.drop_left]
  · have hOut := hShows.not_below_free hFree (by simp) hs hKept
    rw [rebase_outside hIn, Files.nodeAt_moveTree,
      if_neg hOut, if_neg hIn]

theorem rooted_moved
    (hShows : Shows d forest)
    (hMem : r ∈ d.objects)
    (hClear : ClearPlace d r placement parent)
    (hOther :
      r.localPath ≠ parent ++ [placement.name.toList]) :
    (d.disk.moveTree r.localPath
      (parent ++ [placement.name.toList])).Rooted := by
  have hPath := hShows.path_ne_nil hMem
    (ObjectRow.isKept_of_isLive hClear.live)
  have hDir := hClear.parent_isDir hShows
  apply hShows.rooted.moveTree hPath (by simp)
  · unfold Files.hasFolder
    rw [List.dropLast_concat]
    exact hDir
  · exact hClear.target_outside hOther

/- The rename of an entry that is there succeeds. -/
theorem renameTree_clear
    (hShows : Shows d forest)
    (hClear : ClearPlace d r placement parent)
    (hOther :
      r.localPath ≠ parent ++ [placement.name.toList])
    (hNode : d.disk.nodeAt r.localPath ≠ none) :
    d.disk.renameTree r.localPath
        (parent ++ [placement.name.toList]) =
      some (d.disk.moveTree r.localPath
        (parent ++ [placement.name.toList])) := by
  apply Files.renameTree_of_free hNode
  · rw [List.dropLast_concat]
    exact hClear.parent_isDir hShows
  · have hFree := hClear.free.resolve_left hOther
    exact (SyncDevice.freeAt_iff.mp hFree).1
  · exact hClear.target_outside hOther

------------------------------------------------------------
-- Renamed Files
------------------------------------------------------------

/- What the rename of a file makes of a row. -/
def movedFile
    (id : FileId)
    (parentId : Option FileId)
    (target : Path)
    (row : ObjectRow) : ObjectRow :=
  if row.fileId = id then
    { row with
      localPath := target
      s3Key := target
      parentId := parentId }
  else
    row

theorem objects_movedFile
    (d : SyncDevice)
    (id : FileId)
    (parentId : Option FileId)
    (target : Path) :
    (((d.updateLocalPath id target target).repointTransfers id
        target target).setParent id parentId).objects =
      d.objects.map (movedFile id parentId target) := by
  unfold SyncDevice.updateLocalPath SyncDevice.repointTransfers
    SyncDevice.setParent SyncDevice.mapRows
    SyncDevice.mapTransfers
  rw [List.map_map]
  apply List.map_congr_left
  intro row _
  by_cases hSame : row.fileId = id
  · simp [movedFile, hSame]
  · simp [movedFile, hSame]

/- A file has gone to a free place, if it was on the disk. -/
theorem relocated_file
    (hShows : Shows d forest)
    (hMem : r ∈ d.objects)
    (hClear : ClearPlace d r placement parent)
    (hFile : r.isLiveFolder = false)
    (hObjects :
      d'.objects =
        d.objects.map
          (movedFile r.fileId placement.parentId
            (parent ++ [placement.name.toList])))
    (hNodes :
      ∀ s ∈ d.objects, s.isKept = true →
        d'.disk.nodeAt
            (rebase r.localPath
              (parent ++ [placement.name.toList])
              s.localPath) =
          d.disk.nodeAt s.localPath)
    (hRooted : d'.disk.Rooted) :
    Relocated d d' r.localPath
      (parent ++ [placement.name.toList])
      (movedFile r.fileId placement.parentId
        (parent ++ [placement.name.toList])) := by
  have hrKept := ObjectRow.isKept_of_isLive hClear.live
  have hPath :
      ∀ s ∈ d.objects, s.isKept = true →
        (movedFile r.fileId placement.parentId
            (parent ++ [placement.name.toList])
            s).localPath =
          rebase r.localPath
            (parent ++ [placement.name.toList])
            s.localPath := by
    intro s hs hKept
    by_cases hSame : s.fileId = r.fileId
    · rw [hShows.ids s hs r hMem hSame, rebase_self]
      simp [movedFile]
    · have hOut := hShows.not_below_file hMem hs hrKept hKept
        hFile fun hEq => hSame (by rw [hEq])
      rw [rebase_outside hOut]
      simp [movedFile, hSame]
  refine ⟨hObjects, ?_, ?_, ?_, ?_, hPath, ?_, ?_, hRooted⟩
  · intro s
    unfold movedFile
    split <;> rfl
  · intro s
    unfold movedFile
    split <;> rfl
  · intro s
    unfold movedFile
    split <;> rfl
  · intro s hs hDeleted
    have hOther : s.fileId ≠ r.fileId := by
      intro hSame
      rw [hShows.ids s hs r hMem hSame, hrKept] at hDeleted
      cases hDeleted
    simp [movedFile, hOther]
  · intro s hs hKept
    have hKey := hShows.keys s hs hKept
    unfold movedFile
    split
    · rfl
    · exact hKey
  · intro s hs hKept
    rw [hPath s hs hKept]
    exact hNodes s hs hKept

/- The entry of a row on the disk goes to the target. -/
structure MovedDisk
    (d : SyncDevice)
    (disk : LocalDisk)
    (a b : Path) : Prop where
  nodes :
    ∀ s ∈ d.objects, s.isKept = true →
      disk.nodeAt (rebase a b s.localPath) =
        d.disk.nodeAt s.localPath
  rooted : disk.Rooted

theorem movedDisk_moveTree
    (hShows : Shows d forest)
    (hMem : r ∈ d.objects)
    (hClear : ClearPlace d r placement parent)
    (hOther :
      r.localPath ≠ parent ++ [placement.name.toList]) :
    MovedDisk d
      (d.disk.moveTree r.localPath
        (parent ++ [placement.name.toList]))
      r.localPath (parent ++ [placement.name.toList]) where
  nodes := fun _ hs hKept =>
    nodeAt_moved hShows hClear hOther hs hKept
  rooted := rooted_moved hShows hMem hClear hOther

theorem movedDisk_same
    (hShows : Shows d forest)
    (a : Path) : MovedDisk d d.disk a a where
  nodes := by
    intro s _ _
    rw [rebase_same]
  rooted := hShows.rooted

/- A file that is not on the disk leaves the disk alone. -/
theorem movedDisk_absent
    (hShows : Shows d forest)
    (hMem : r ∈ d.objects)
    (hClear : ClearPlace d r placement parent)
    (hFile : r.isLiveFolder = false)
    (hOther :
      r.localPath ≠ parent ++ [placement.name.toList])
    (hNone : d.disk.nodeAt r.localPath = none) :
    MovedDisk d d.disk r.localPath
      (parent ++ [placement.name.toList]) where
  nodes := by
    intro s hs hKept
    have hrKept := ObjectRow.isKept_of_isLive hClear.live
    by_cases hSame : s = r
    · have hFree := SyncDevice.freeAt_iff.mp
        (hClear.free.resolve_left hOther)
      rw [hSame, rebase_self, hFree.1, hNone]
    · have hOut := hShows.not_below_file hMem hs hrKept hKept
        hFile hSame
      rw [rebase_outside hOut]
  rooted := hShows.rooted

theorem moveLocalFile_clear
    (hShows : Shows d forest)
    (hMem : r ∈ d.objects)
    (hClear : ClearPlace d r placement parent)
    (hFile : r.isLiveFolder = false) :
    ∃ disk,
      moveLocalFile r.localPath
          (parent ++ [placement.name.toList]) d =
        .ok () { d with disk := disk } ∧
      MovedDisk d disk r.localPath
        (parent ++ [placement.name.toList]) := by
  have hrKept := ObjectRow.isKept_of_isLive hClear.live
  have hPath := hShows.path_ne_nil hMem hrKept
  have hDir := Files.createDirAll_of_isDir hShows.rooted
    (hClear.parent_isDir hShows)
  have hMade :
      onDisk "create rename parent"
          (fun disk => disk.createDirAll
            (parent ++ [placement.name.toList]).dropLast) d =
        .ok () d := by
    apply onDisk_same
    rw [List.dropLast_concat]
    exact hDir
  unfold moveLocalFile
  rw [get_bind]
  by_cases hThere : d.existsAt r.localPath = true
  · rw [if_pos hThere, bind_ok hMade]
    by_cases hSame :
        r.localPath = parent ++ [placement.name.toList]
    · refine ⟨d.disk, onDisk_same ?_, ?_⟩
      · rw [hSame]
        exact if_pos rfl
      · rw [← hSame]
        exact movedDisk_same hShows _
    · have hRename := renameTree_clear hShows hClear hSame
        (node_of_existsAt hPath hThere)
      exact ⟨_, onDisk_ok hRename,
        movedDisk_moveTree hShows hMem hClear hSame⟩
  · rw [if_neg hThere]
    rw [Bool.not_eq_true] at hThere
    have hNone := none_of_not_existsAt
      (hShows.regular r hMem hrKept) hThere
    refine ⟨d.disk, rfl, ?_⟩
    by_cases hSame :
        r.localPath = parent ++ [placement.name.toList]
    · rw [← hSame]
      exact movedDisk_same hShows _
    · exact movedDisk_absent hShows hMem hClear hFile hSame hNone

/- What a step of a batch leaves when nothing is in its way. -/
structure Stepped
    (d d' : SyncDevice)
    (a b : Path) : Prop where
  relocated : ∃ g, Relocated d d' a b g
  conflicts : d'.conflicts = d.conflicts

theorem moveFile_clear
    (hShows : Shows d forest)
    (hMem : r ∈ d.objects)
    (hClear : ClearPlace d r placement parent)
    (hFile : r.isLiveFolder = false) :
    ∃ d',
      moveFile r.fileId placement r.localPath
          (parent ++ [placement.name.toList])
          (parent ++ [placement.name.toList]) d =
        .ok () d' ∧
      Stepped d d' r.localPath
        (parent ++ [placement.name.toList]) := by
  rcases moveLocalFile_clear hShows hMem hClear hFile with
    ⟨disk, hMove, hDisk⟩
  unfold moveFile
  rw [bind_ok hMove]
  refine ⟨_, modify_ok _,
    ⟨movedFile r.fileId placement.parentId
      (parent ++ [placement.name.toList]), ?_⟩, rfl⟩
  exact relocated_file hShows hMem hClear hFile
    (objects_movedFile _ _ _ _) hDisk.nodes hDisk.rooted

/- The target is free for the row, or its own. -/
theorem not_taken_for_file
    (hClear : ClearPlace d r placement parent) :
    (d.existsAt (parent ++ [placement.name.toList]) &&
      decide (r.localPath ≠
        parent ++ [placement.name.toList])) = false := by
  rcases hClear.free with hSame | hFree
  · simp [hSame]
  · have hNone := (SyncDevice.freeAt_iff.mp hFree).1
    rw [existsAt_of_none (by simp) hNone]
    rfl

theorem renameFile_clear
    (hShows : Shows d forest)
    (hMem : r ∈ d.objects)
    (hClear : ClearPlace d r placement parent)
    (hFile : r.isLiveFolder = false) :
    ∃ d',
      renameFile ctx r.fileId placement r.localPath d =
        .ok 0 d' ∧
      Stepped d d' r.localPath
        (parent ++ [placement.name.toList]) := by
  rcases moveFile_clear hShows hMem hClear hFile with
    ⟨d', hMove, hStep⟩
  refine ⟨d', ?_, hStep⟩
  have hJoin := safeJoinSyncPath_normal
    (hClear.target_normal hShows)
  have hTaken := not_taken_for_file hClear
  unfold renameFile
  rw [bind_ok (resolve_known hShows hClear)]
  dsimp only
  rw [bind_ok (ofResult_ok hJoin), get_bind, hTaken,
    if_neg Bool.false_ne_true, bind_ok hMove]
  rfl

------------------------------------------------------------
-- Renamed Folders
------------------------------------------------------------

/- What a new parent makes of a row. -/
def reparented
    (id : FileId)
    (parentId : Option FileId)
    (row : ObjectRow) : ObjectRow :=
  if row.fileId = id then { row with parentId := parentId }
  else row

/- What the move of a folder makes of a row. -/
def movedWith (a b : Path) (row : ObjectRow) : ObjectRow :=
  if row.atOrUnder a && !row.state.isDeleted then
    { row with
      localPath := rebase a b row.localPath
      s3Key := rebase a b row.s3Key }
  else
    row

theorem objects_setParent
    (d : SyncDevice)
    (id : FileId)
    (parentId : Option FileId) :
    (d.setParent id parentId).objects =
      d.objects.map (reparented id parentId) := by
  apply List.map_congr_left
  intro row _
  by_cases hSame : row.fileId = id
  · simp [reparented, hSame]
  · simp [reparented, hSame]

theorem objects_moveSubtree
    (d : SyncDevice)
    (a b : Path) :
    (d.moveSubtree a b a b).objects =
      d.objects.map (movedWith a b) := rfl

theorem objects_movedFolder
    (d : SyncDevice)
    (id : FileId)
    (parentId : Option FileId)
    (a b : Path) :
    ((d.moveSubtree a b a b).setParent id parentId).objects =
      d.objects.map (reparented id parentId ∘ movedWith a b) := by
  rw [objects_setParent, objects_moveSubtree, List.map_map]

@[simp] theorem reparented_localPath
    (id : FileId)
    (parentId : Option FileId)
    (row : ObjectRow) :
    (reparented id parentId row).localPath = row.localPath := by
  unfold reparented
  split <;> rfl

@[simp] theorem reparented_s3Key
    (id : FileId)
    (parentId : Option FileId)
    (row : ObjectRow) :
    (reparented id parentId row).s3Key = row.s3Key := by
  unfold reparented
  split <;> rfl

@[simp] theorem reparented_fileId
    (id : FileId)
    (parentId : Option FileId)
    (row : ObjectRow) :
    (reparented id parentId row).fileId = row.fileId := by
  unfold reparented
  split <;> rfl

@[simp] theorem reparented_state
    (id : FileId)
    (parentId : Option FileId)
    (row : ObjectRow) :
    (reparented id parentId row).state = row.state := by
  unfold reparented
  split <;> rfl

@[simp] theorem reparented_isFolder
    (id : FileId)
    (parentId : Option FileId)
    (row : ObjectRow) :
    (reparented id parentId row).isFolder = row.isFolder := by
  unfold reparented
  split <;> rfl

theorem reparented_other
    {parentId : Option FileId}
    (h : r.fileId ≠ id) : reparented id parentId r = r :=
  if_neg h

theorem movedWith_fileId (a b : Path) (row : ObjectRow) :
    (movedWith a b row).fileId = row.fileId := by
  unfold movedWith
  split <;> rfl

theorem movedWith_state (a b : Path) (row : ObjectRow) :
    (movedWith a b row).state = row.state := by
  unfold movedWith
  split <;> rfl

theorem movedWith_isFolder (a b : Path) (row : ObjectRow) :
    (movedWith a b row).isFolder = row.isFolder := by
  unfold movedWith
  split <;> rfl

theorem movedWith_deleted
    (h : r.isKept = false) : movedWith a b r = r := by
  unfold ObjectRow.isKept at h
  unfold movedWith
  rw [h, Bool.and_false, if_neg Bool.false_ne_true]

theorem movedWith_localPath
    (h : r.isKept = true) :
    (movedWith a b r).localPath = rebase a b r.localPath := by
  unfold ObjectRow.isKept at h
  unfold movedWith ObjectRow.atOrUnder
  by_cases hIn : a <+: r.localPath
  · rw [List.isPrefixOf_iff_prefix.mpr hIn, h, Bool.and_true,
      if_pos rfl]
  · have hOut : a.isPrefixOf r.localPath = false := by
      rwa [← Bool.not_eq_true, List.isPrefixOf_iff_prefix]
    rw [hOut, Bool.false_and, if_neg Bool.false_ne_true,
      rebase_outside hIn]

theorem movedWith_s3Key
    (hKey : r.s3Key = r.localPath) :
    (movedWith a b r).s3Key = (movedWith a b r).localPath := by
  unfold movedWith
  split
  · simp [hKey]
  · exact hKey

/- A folder has gone to a free place with all it contains. -/
theorem relocated_folder
    (hShows : Shows d forest)
    (hMem : r ∈ d.objects)
    (hClear : ClearPlace d r placement parent)
    (hObjects :
      d'.objects =
        d.objects.map
          (reparented r.fileId placement.parentId ∘
            movedWith r.localPath
              (parent ++ [placement.name.toList])))
    (hDisk : MovedDisk d d'.disk r.localPath
      (parent ++ [placement.name.toList])) :
    Relocated d d' r.localPath
      (parent ++ [placement.name.toList])
      (reparented r.fileId placement.parentId ∘
        movedWith r.localPath
          (parent ++ [placement.name.toList])) := by
  have hrKept := ObjectRow.isKept_of_isLive hClear.live
  refine ⟨hObjects, ?_, ?_, ?_, ?_, ?_, ?_, ?_, hDisk.rooted⟩
  · intro s
    rw [Function.comp, reparented_fileId, movedWith_fileId]
  · intro s
    rw [Function.comp, reparented_state, movedWith_state]
  · intro s
    rw [Function.comp, reparented_isFolder, movedWith_isFolder]
  · intro s hs hDeleted
    have hOther : s.fileId ≠ r.fileId := by
      intro hSame
      rw [hShows.ids s hs r hMem hSame, hrKept] at hDeleted
      cases hDeleted
    rw [Function.comp, movedWith_deleted hDeleted,
      reparented_other hOther]
  · intro s _ hKept
    rw [Function.comp, reparented_localPath,
      movedWith_localPath hKept]
  · intro s hs hKept
    rw [Function.comp, reparented_s3Key, reparented_localPath]
    exact movedWith_s3Key (hShows.keys s hs hKept)
  · intro s hs hKept
    rw [Function.comp, reparented_localPath,
      movedWith_localPath hKept]
    exact hDisk.nodes s hs hKept

theorem moveLocalFolder_clear
    (hShows : Shows d forest)
    (hMem : r ∈ d.objects)
    (hClear : ClearPlace d r placement parent)
    (hFolder : r.isLiveFolder = true)
    (hOther :
      r.localPath ≠ parent ++ [placement.name.toList]) :
    FolderNodes.moveLocalFolder r.localPath
        (parent ++ [placement.name.toList]) d =
      .ok ()
        { d with
          disk :=
            d.disk.moveTree r.localPath
              (parent ++ [placement.name.toList]) } := by
  have hNode := hShows.folders r hMem hFolder
  have hDir := Files.createDirAll_of_isDir hShows.rooted
    (hClear.parent_isDir hShows)
  have hRename := renameTree_clear hShows hClear hOther
    (by simp [hNode])
  unfold FolderNodes.moveLocalFolder
  rw [get_bind, if_pos (existsAt_of_folder hNode),
    List.dropLast_concat, bind_ok (onDisk_same hDir)]
  exact onDisk_ok hRename

theorem isTaken_clear
    (hShows : Shows d forest)
    (hClear : ClearPlace d r placement parent)
    (hOther :
      r.localPath ≠ parent ++ [placement.name.toList])
    (current : Option Path) :
    FolderNodes.isTaken d r.fileId
        (parent ++ [placement.name.toList]) current =
      .ok false := by
  have hFree := SyncDevice.freeAt_iff.mp
    (hClear.free.resolve_left hOther)
  have hEntry :
      d.liveEntryAt (parent ++ [placement.name.toList]) =
        none := by
    unfold SyncDevice.liveEntryAt
    rw [Option.map_eq_none_iff, List.find?_eq_none]
    intro s hs hAt
    rw [Bool.and_eq_true, decide_eq_true_eq] at hAt
    have hKept := ObjectRow.isKept_of_isLive hAt.2
    rw [hShows.keys s hs hKept] at hAt
    exact hFree.2 s hs hKept hAt.1
  unfold FolderNodes.isTaken
  rw [hEntry, safeJoinSyncPath_normal
    (hClear.target_normal hShows)]
  dsimp only
  rw [existsAt_of_none (by simp) hFree.1]
  rfl

theorem freePlace_clear
    (ctx : SyncContext)
    (hShows : Shows d forest)
    (hClear : ClearPlace d r placement parent)
    (hOther :
      r.localPath ≠ parent ++ [placement.name.toList])
    (current : Option Path) :
    FolderNodes.freePlace ctx r.fileId placement parent current
        d =
      .ok (placement, parent ++ [placement.name.toList]) d := by
  have hTaken := isTaken_clear hShows hClear hOther current
  unfold FolderNodes.freePlace
  dsimp only
  rw [joinPath_plain hClear.plain, bind_ok (reading_ok hTaken)]
  rfl

theorem placeElsewhere_clear
    (hShows : Shows d forest)
    (hMem : r ∈ d.objects)
    (hClear : ClearPlace d r placement parent)
    (hFolder : r.isLiveFolder = true)
    (hOther :
      r.localPath ≠ parent ++ [placement.name.toList]) :
    ∃ path d',
      FolderNodes.placeElsewhere ctx r.fileId placement parent
          (some r) d =
        .ok path d' ∧
      Stepped d d' r.localPath
        (parent ++ [placement.name.toList]) := by
  have hKept := ObjectRow.isKept_of_isLiveFolder hFolder
  have hKey := hShows.keys r hMem hKept
  have hFree := freePlace_clear ctx hShows hClear hOther
    (some r.localPath)
  have hJoin := safeJoinSyncPath_normal
    (hClear.target_normal hShows)
  have hMove := moveLocalFolder_clear hShows hMem hClear hFolder
    hOther
  unfold FolderNodes.placeElsewhere
  rw [Option.map_some, bind_ok hFree]
  dsimp only
  rw [bind_ok (ofResult_ok hJoin), bind_ok hMove, hKey,
    bind_ok (modify_ok _)]
  refine ⟨_, _, rfl,
    ⟨reparented r.fileId placement.parentId ∘
      movedWith r.localPath
        (parent ++ [placement.name.toList]), ?_⟩, rfl⟩
  exact relocated_folder hShows hMem hClear
    (objects_movedFolder _ _ _ _ _)
    (movedDisk_moveTree hShows hMem hClear hOther)

/- A folder that is where it should be stays there. -/
theorem relocated_same
    (hShows : Shows d forest)
    (hMem : r ∈ d.objects)
    (hKept : r.isKept = true)
    (parentId : Option FileId) :
    Relocated d (d.setParent r.fileId parentId) r.localPath
      r.localPath (reparented r.fileId parentId) := by
  refine ⟨objects_setParent d r.fileId parentId,
    reparented_fileId _ _, reparented_state _ _,
    reparented_isFolder _ _, ?_, ?_, ?_, ?_, hShows.rooted⟩
  · intro s hs hDeleted
    apply reparented_other
    intro hSame
    rw [hShows.ids s hs r hMem hSame, hKept] at hDeleted
    cases hDeleted
  · intro s _ _
    rw [reparented_localPath, rebase_same]
  · intro s hs hsKept
    rw [reparented_s3Key, reparented_localPath,
      hShows.keys s hs hsKept]
  · intro s _ _
    rw [reparented_localPath]
    rfl

theorem recreate_present
    (h : d.disk.nodeAt r.localPath = some .folder) :
    FolderNodes.recreate r d = .ok () d := by
  unfold FolderNodes.recreate
  rw [get_bind, if_pos (existsAt_of_folder h)]
  rfl

theorem placeLocalFolder_clear
    (hShows : Shows d forest)
    (hMem : r ∈ d.objects)
    (hClear : ClearPlace d r placement parent)
    (hFolder : r.isLiveFolder = true) :
    ∃ path d',
      FolderNodes.placeFolder ctx r.fileId placement parent d =
        .ok path d' ∧
      Stepped d d' r.localPath
        (parent ++ [placement.name.toList]) := by
  have hKept := ObjectRow.isKept_of_isLiveFolder hFolder
  have hKey := hShows.keys r hMem hKept
  unfold FolderNodes.placeFolder
  rw [get_bind, hShows.folderById_eq hMem hFolder]
  dsimp only
  rw [joinPath_plain hClear.plain, hKey]
  by_cases hSame :
      r.localPath = parent ++ [placement.name.toList]
  · have hThere := hShows.folders r hMem hFolder
    rw [if_pos hSame, bind_ok (recreate_present hThere),
      bind_ok (modify_ok _), ← hSame]
    exact ⟨_, _, rfl,
      ⟨_, relocated_same hShows hMem hKept placement.parentId⟩,
      rfl⟩
  · have hOutside : ¬ isInside parent r.localPath = true := by
      unfold isInside
      rw [List.isPrefixOf_iff_prefix]
      exact hClear.outside
    rw [if_neg hSame, if_neg hOutside]
    exact placeElsewhere_clear hShows hMem hClear hFolder hSame

theorem placeFolder_clear
    (hShows : Shows d forest)
    (hMem : r ∈ d.objects)
    (hClear : ClearPlace d r placement parent)
    (hFolder : r.isLiveFolder = true) :
    ∃ d',
      placeFolder ctx r.fileId placement d = .ok () d' ∧
      Stepped d d' r.localPath
        (parent ++ [placement.name.toList]) := by
  rcases placeLocalFolder_clear hShows hMem hClear hFolder with
    ⟨path, d', hPlace, hStep⟩
  have hUndeleted := hClear.undeleted
    (Bool.and_eq_true_iff.mp hFolder).1
  refine ⟨d', ?_, hStep⟩
  unfold placeFolder
  rw [get_bind, hUndeleted, if_neg Bool.false_ne_true,
    bind_ok (parentPath_known hShows hClear)]
  dsimp only
  rw [bind_ok hPlace]
  rfl

theorem folderById_of_file
    (hShows : Shows d forest)
    (hMem : r ∈ d.objects)
    (hFile : r.isLiveFolder = false) :
    d.folderById r.fileId = none := by
  cases hFound : d.folderById r.fileId with
  | none => rfl
  | some f =>
      have hf := SyncDevice.folderById_spec hFound
      have hSame := hShows.ids f hf.1 r hMem hf.2.1
      rw [hSame, hFile] at hf
      cases hf.2.2

/-
  A file or folder goes to the place of the operation, and
  no conflict is found.
-/
theorem renamed_of_clear
    {op : Operation}
    (hShows : Shows d forest)
    (hMem : r ∈ d.objects)
    (hOp : Placement.ofOp op = some placement)
    (hClear : ClearPlace d r placement parent) :
    ∃ d',
      renamed ctx r.fileId op d = .ok 0 d' ∧
      Stepped d d' r.localPath
        (parent ++ [placement.name.toList]) := by
  unfold renamed
  rw [hOp]
  dsimp only
  rw [get_bind]
  cases hFolder : r.isLiveFolder with
  | true =>
      rcases placeFolder_clear hShows hMem hClear hFolder with
        ⟨d', hPlace, hStep⟩
      refine ⟨d', ?_, hStep⟩
      rw [hShows.folderById_eq hMem hFolder,
        if_pos Option.isSome_some, bind_ok hPlace]
      rfl
  | false =>
      rcases renameFile_clear hShows hMem hClear hFolder with
        ⟨d', hRename, hStep⟩
      refine ⟨d', ?_, hStep⟩
      have hPath : d.getLocalPath r.fileId = some r.localPath := by
        unfold SyncDevice.getLocalPath
        rw [hShows.rowOf_eq hMem, Option.map_some]
      rw [folderById_of_file hShows hMem hFolder,
        if_neg (by simp), hPath]
      exact hRename

/- An operation on what the device does not have is skipped. -/
theorem renamed_of_unknown
    {op : Operation}
    (h : d.rowOf id = none) :
    renamed ctx id op d = .ok 0 d := by
  have hFolder : d.folderById id = none := by
    unfold SyncDevice.rowOf at h
    unfold SyncDevice.folderById
    rw [List.find?_eq_none] at h ⊢
    intro s hs hFound
    rw [Bool.and_eq_true] at hFound
    exact h s hs hFound.1
  have hPath : d.getLocalPath id = none := by
    unfold SyncDevice.getLocalPath
    rw [h, Option.map_none]
  unfold renamed
  cases Placement.ofOp op with
  | none => rfl
  | some placement =>
      dsimp only
      rw [get_bind, hFolder, if_neg (by simp), hPath]
      rfl

end RemoteChanges

end S4Drive

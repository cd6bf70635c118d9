import S4Drive.Sync.RemoteFolders

/-
  An index that is in order shows a forest: every file and
  folder that is not deleted is in a folder of the index or
  at the top, under its name, and nothing else has its place.
  When one of them goes to a free place and takes with it
  what it contains, the index shows the forest in which only
  this one has another parent and another name.

  Main declarations:
    * `SyncDevice.placePath`, `Shows`
    * `Shows.pathOf`, `Shows.path_eq`
    * `ClearPlace`, `Relocated`
    * `Relocated.shows`
-/

open FileTree NamedForest

------------------------------------------------------------
-- Lookups in the Index
------------------------------------------------------------

namespace S4Drive

namespace RemoteChanges

open Recovery (Path)

variable {d d' : SyncDevice} {r s f : ObjectRow}
variable {forest : FileId → Place FileId Text}

/- Rows whose entry is not deleted. -/
def ObjectRow.isKept (row : ObjectRow) : Bool :=
  !row.state.isDeleted

theorem ObjectRow.isKept_of_isLive
    (h : r.isLive = true) : r.isKept = true := by
  unfold ObjectRow.isLive at h
  unfold ObjectRow.isKept
  cases hState : r.state <;> simp_all [IndexState.isDeleted]

theorem ObjectRow.isLive_of_isLiveFolder
    (h : r.isLiveFolder = true) : r.isLive = true :=
  (Bool.and_eq_true_iff.mp h).2

theorem ObjectRow.isKept_of_isLiveFolder
    (h : r.isLiveFolder = true) : r.isKept = true :=
  isKept_of_isLive (isLive_of_isLiveFolder h)

theorem ObjectRow.under_iff {folder : Path} :
    r.under folder = true ↔
      folder <+: r.localPath ∧ r.localPath ≠ folder := by
  unfold under atOrUnder
  rw [Bool.and_eq_true, List.isPrefixOf_iff_prefix,
    decide_eq_true_eq]

namespace SyncDevice

/- Where a placement is, if its parent is in the index. -/
def placePath
    (d : SyncDevice)
    (π : Place FileId Text) : Option Path :=
  match π with
  | (none, n) => some [n]
  | (some j, n) =>
      (d.folderById j).map fun folder => folder.localPath ++ [n]

theorem placePath_inside
    (d : SyncDevice)
    (j : FileId)
    (n : Text) :
    d.placePath (some j, n) =
      (d.folderById j).map fun f => f.localPath ++ [n] := rfl

theorem folderById_spec
    {id : FileId}
    (h : d.folderById id = some f) :
    f ∈ d.objects ∧ f.fileId = id ∧ f.isLiveFolder = true := by
  have hFound := List.find?_some h
  rw [Bool.and_eq_true, decide_eq_true_eq] at hFound
  exact ⟨List.mem_of_find?_eq_some h, hFound⟩

theorem rowOf_spec
    {id : FileId}
    (h : d.rowOf id = some r) :
    r ∈ d.objects ∧ r.fileId = id := by
  have hFound := List.find?_some h
  rw [decide_eq_true_eq] at hFound
  exact ⟨List.mem_of_find?_eq_some h, hFound⟩

theorem rowOf_of_ids
    (hIds :
      ∀ r ∈ d.objects, ∀ s ∈ d.objects,
        r.fileId = s.fileId → r = s)
    (hMem : r ∈ d.objects) : d.rowOf r.fileId = some r := by
  cases hRow : d.rowOf r.fileId with
  | none =>
      have hNone := List.find?_eq_none.mp hRow r hMem
      simp at hNone
  | some s =>
      have hs := rowOf_spec hRow
      rw [hIds s hs.1 r hMem hs.2]

theorem folderById_of_ids
    (hIds :
      ∀ r ∈ d.objects, ∀ s ∈ d.objects,
        r.fileId = s.fileId → r = s)
    (hMem : f ∈ d.objects)
    (hFolder : f.isLiveFolder = true) :
    d.folderById f.fileId = some f := by
  cases hRow : d.folderById f.fileId with
  | none =>
      have hNone := List.find?_eq_none.mp hRow f hMem
      simp [hFolder] at hNone
  | some s =>
      have hs := folderById_spec hRow
      rw [hIds s hs.1 f hMem hs.2.1]

end SyncDevice

------------------------------------------------------------
-- Forests
------------------------------------------------------------

/- A component that names an entry. -/
def normalPart (part : Text) : Bool :=
  part ≠ [] && part ≠ ['.'] && part ≠ ['.', '.']

/- The index and the disk are in order. -/
structure Shows
    (d : SyncDevice)
    (forest : FileId → Place FileId Text) : Prop where
  ids :
    ∀ r ∈ d.objects, ∀ s ∈ d.objects,
      r.fileId = s.fileId → r = s
  keys :
    ∀ r ∈ d.objects, r.isKept = true → r.s3Key = r.localPath
  normal :
    ∀ r ∈ d.objects, r.isKept = true →
      ∀ part ∈ r.localPath, normalPart part = true
  placed :
    ∀ r ∈ d.objects, r.isKept = true →
      d.placePath (forest r.fileId) = some r.localPath
  apart :
    ∀ r ∈ d.objects, ∀ s ∈ d.objects, r.isKept = true →
      s.isKept = true → r.localPath = s.localPath → r = s
  folders :
    ∀ r ∈ d.objects, r.isLiveFolder = true →
      d.disk.nodeAt r.localPath = some .folder
  regular :
    ∀ r ∈ d.objects, r.isKept = true → ∀ resolves,
      d.disk.nodeAt r.localPath ≠ some (.other resolves)
  rooted : d.disk.Rooted

namespace Shows

variable {p : Path}

theorem rowOf_eq
    (h : Shows d forest)
    (hMem : r ∈ d.objects) : d.rowOf r.fileId = some r :=
  SyncDevice.rowOf_of_ids h.ids hMem

theorem folderById_eq
    (h : Shows d forest)
    (hMem : f ∈ d.objects)
    (hFolder : f.isLiveFolder = true) :
    d.folderById f.fileId = some f :=
  SyncDevice.folderById_of_ids h.ids hMem hFolder

/- A row is at the top or in a folder of the index. -/
theorem parent
    (h : Shows d forest)
    (hMem : r ∈ d.objects)
    (hKept : r.isKept = true) :
    (∃ n, forest r.fileId = (none, n) ∧ r.localPath = [n]) ∨
      ∃ n, ∃ f ∈ d.objects, f.isLiveFolder = true ∧
        forest r.fileId = (some f.fileId, n) ∧
        r.localPath = f.localPath ++ [n] := by
  have hPlaced := h.placed r hMem hKept
  rcases hForest : forest r.fileId with ⟨parentId, n⟩
  rw [hForest] at hPlaced
  cases parentId with
  | none =>
      exact .inl ⟨n, rfl, (Option.some.inj hPlaced).symm⟩
  | some j =>
      right
      unfold SyncDevice.placePath at hPlaced
      rw [Option.map_eq_some_iff] at hPlaced
      rcases hPlaced with ⟨f, hFound, hPath⟩
      have hf := SyncDevice.folderById_spec hFound
      exact ⟨n, f, hf.1, hf.2.2, by rw [hf.2.1], hPath.symm⟩

theorem path_ne_nil
    (h : Shows d forest)
    (hMem : r ∈ d.objects)
    (hKept : r.isKept = true) : r.localPath ≠ [] := by
  rcases h.parent hMem hKept with
    ⟨n, _, hPath⟩ | ⟨n, f, _, _, _, hPath⟩
  · simp [hPath]
  · simp [hPath]

/- What a path leads through is a folder of the index. -/
theorem folder_above
    (h : Shows d forest)
    (hMem : r ∈ d.objects)
    (hKept : r.isKept = true)
    (hPath : p ≠ [])
    (hIn : p <+: r.localPath)
    (hOther : p ≠ r.localPath) :
    ∃ f ∈ d.objects, f.isLiveFolder = true ∧
      f.localPath = p := by
  generalize hLength : r.localPath.length = k
  induction k using Nat.strong_induction_on generalizing r with
  | _ k ih =>
      rcases h.parent hMem hKept with
        ⟨n, _, hTop⟩ | ⟨n, f, hf, hFolder, _, hInside⟩
      · have hConcat : p <+: [] ++ [n] := by rwa [hTop] at hIn
        rw [List.prefix_concat_iff] at hConcat
        rcases hConcat with hSame | hNil
        · exact absurd (hSame.trans hTop.symm) hOther
        · exact absurd (List.prefix_nil.mp hNil) hPath
      · rw [hInside] at hIn hOther hLength
        have hAbove :=
          (List.prefix_concat_iff.mp hIn).resolve_left hOther
        by_cases hSame : p = f.localPath
        · exact ⟨f, hf, hFolder, hSame.symm⟩
        · have hShorter : f.localPath.length < k := by
            rw [← hLength, List.length_append]
            exact Nat.lt_succ_self _
          exact ih _ hShorter hf
            (ObjectRow.isKept_of_isLiveFolder hFolder) hAbove
            hSame rfl

/- The forest says what the path of a row is. -/
theorem pathOf
    (h : Shows d forest)
    (hMem : r ∈ d.objects)
    (hKept : r.isKept = true) :
    PathOf forest r.fileId r.localPath := by
  generalize hLength : r.localPath.length = k
  induction k using Nat.strong_induction_on generalizing r with
  | _ k ih =>
      rcases h.parent hMem hKept with
        ⟨n, hPlace, hTop⟩ | ⟨n, f, hf, hFolder, hPlace, hInside⟩
      · rw [hTop]
        exact .top hPlace
      · have hShorter : f.localPath.length < k := by
          rw [← hLength, hInside, List.length_append]
          exact Nat.lt_succ_self _
        have hAbove := ih _ hShorter hf
          (ObjectRow.isKept_of_isLiveFolder hFolder) rfl
        rw [hInside]
        exact .inside hPlace hAbove

/- Two indexes that show one forest have the same paths. -/
theorem path_eq
    (h : Shows d forest)
    (h' : Shows d' forest)
    (hr : r ∈ d.objects)
    (hs : s ∈ d'.objects)
    (hId : r.fileId = s.fileId)
    (hrKept : r.isKept = true)
    (hsKept : s.isKept = true) : r.localPath = s.localPath := by
  have hPath := h.pathOf hr hrKept
  rw [hId] at hPath
  exact hPath.unique (h'.pathOf hs hsKept)

end Shows

/- Nothing is inside what is no folder. -/
theorem Shows.not_below_file
    (h : Shows d forest)
    (hr : r ∈ d.objects)
    (hs : s ∈ d.objects)
    (hrKept : r.isKept = true)
    (hsKept : s.isKept = true)
    (hFile : r.isLiveFolder = false)
    (hOther : s ≠ r) : ¬ r.localPath <+: s.localPath := by
  intro hIn
  have hPath : r.localPath ≠ s.localPath :=
    fun hSame => hOther
      (h.apart s hs r hr hsKept hrKept hSame.symm)
  rcases h.folder_above hs hsKept (h.path_ne_nil hr hrKept) hIn
      hPath with ⟨f, hf, hFolder, hAt⟩
  have hSame := h.apart f hf r hr
    (ObjectRow.isKept_of_isLiveFolder hFolder) hrKept hAt
  rw [hSame, hFile] at hFolder
  cases hFolder

/- The path of a parent that is known and not deleted. -/
def SyncDevice.knownParent
    (d : SyncDevice) : Option FileId → Option Path
  | none => some []
  | some j =>
      if d.bucket.isRemotelyDeleted j then
        none
      else
        (d.folderById j).map ObjectRow.localPath

/- A name that is one component. -/
def plainName (name : String) : Bool :=
  nameParts name = [name.toList] && normalPart name.toList

/- Nothing on the disk or in the index has the path. -/
def SyncDevice.freeAt (d : SyncDevice) (path : Path) : Bool :=
  d.disk.nodeAt path = none &&
    d.objects.all fun r => !r.isKept || r.localPath ≠ path

/- The row may go into the folder at `parent`. -/
structure ClearPlace
    (d : SyncDevice)
    (row : ObjectRow)
    (placement : Placement)
    (parent : Path) : Prop where
  live : row.isLive = true
  plain : plainName placement.name = true
  known : d.knownParent placement.parentId = some parent
  outside : ¬ row.localPath <+: parent
  undeleted :
    row.isFolder = true →
      d.bucket.isRemotelyDeleted row.fileId = false
  free :
    row.localPath = parent ++ [placement.name.toList] ∨
      d.freeAt (parent ++ [placement.name.toList]) = true

namespace ClearPlace

variable {placement : Placement} {parent : Path}

/- The parent is the top or a folder of the index. -/
theorem parent_cases
    (h : ClearPlace d r placement parent) :
    (placement.parentId = none ∧ parent = []) ∨
      ∃ f ∈ d.objects, f.isLiveFolder = true ∧
        placement.parentId = some f.fileId ∧
        f.localPath = parent ∧
        d.folderById f.fileId = some f ∧
        d.bucket.isRemotelyDeleted f.fileId = false := by
  have hKnown := h.known
  cases hParent : placement.parentId with
  | none =>
      rw [hParent] at hKnown
      exact .inl ⟨rfl, (Option.some.inj hKnown).symm⟩
  | some j =>
      right
      rw [hParent] at hKnown
      unfold SyncDevice.knownParent at hKnown
      dsimp only at hKnown
      split at hKnown
      · cases hKnown
      · rename_i hUndeleted
        rw [Option.map_eq_some_iff] at hKnown
        rcases hKnown with ⟨f, hFound, hPath⟩
        have hf := SyncDevice.folderById_spec hFound
        rw [← hf.2.1] at hFound hUndeleted ⊢
        exact ⟨f, hf.1, hf.2.2, rfl, hPath, hFound,
          by simpa using hUndeleted⟩

theorem name_normal (h : ClearPlace d r placement parent) :
    normalPart placement.name.toList = true :=
  (Bool.and_eq_true_iff.mp h.plain).2

theorem target_outside
    (h : ClearPlace d r placement parent)
    (hOther :
      r.localPath ≠ parent ++ [placement.name.toList]) :
    ¬ r.localPath <+: parent ++ [placement.name.toList] := by
  rw [List.prefix_concat_iff]
  exact fun h' => h'.elim hOther h.outside

theorem normal_of_mem_parent
    {part : Text}
    (h : ClearPlace d r placement parent)
    (hShows : Shows d forest)
    (hPart : part ∈ parent) : normalPart part = true := by
  rcases h.parent_cases with
    ⟨_, hNil⟩ | ⟨f, hf, hFolder, _, hPath, _, _⟩
  · rw [hNil] at hPart
    cases hPart
  · rw [← hPath] at hPart
    exact hShows.normal f hf
      (ObjectRow.isKept_of_isLiveFolder hFolder) part hPart

end ClearPlace

theorem SyncDevice.freeAt_iff {path : Path} :
    d.freeAt path = true ↔
      d.disk.nodeAt path = none ∧
        ∀ r ∈ d.objects, r.isKept = true →
          r.localPath ≠ path := by
  simp only [SyncDevice.freeAt, Bool.and_eq_true,
    decide_eq_true_eq, List.all_eq_true, Bool.or_eq_true,
    Bool.not_eq_true', ← Bool.not_eq_true, imp_iff_not_or]

/- No row is at or below a free path. -/
theorem Shows.not_below_free
    {path : Path}
    (h : Shows d forest)
    (hFree : d.freeAt path = true)
    (hPath : path ≠ [])
    (hMem : r ∈ d.objects)
    (hKept : r.isKept = true) : ¬ path <+: r.localPath := by
  intro hIn
  have hRows := (SyncDevice.freeAt_iff.mp hFree).2
  have hOther : path ≠ r.localPath :=
    fun hSame => hRows r hMem hKept hSame.symm
  rcases h.folder_above hMem hKept hPath hIn hOther with
    ⟨f, hf, hFolder, hAt⟩
  exact hRows f hf (ObjectRow.isKept_of_isLiveFolder hFolder) hAt

------------------------------------------------------------
-- Relocations
------------------------------------------------------------

/-
  The device `d'` has the rows of `d`, with everything at `a`
  gone to `b`, in the index and on the disk.
-/
structure Relocated
    (d d' : SyncDevice)
    (a b : Path)
    (g : ObjectRow → ObjectRow) : Prop where
  objects : d'.objects = d.objects.map g
  fileId : ∀ r, (g r).fileId = r.fileId
  state : ∀ r, (g r).state = r.state
  isFolder : ∀ r, (g r).isFolder = r.isFolder
  deleted : ∀ r ∈ d.objects, r.isKept = false → g r = r
  localPath :
    ∀ r ∈ d.objects, r.isKept = true →
      (g r).localPath = rebase a b r.localPath
  s3Key :
    ∀ r ∈ d.objects, r.isKept = true →
      (g r).s3Key = (g r).localPath
  nodes :
    ∀ r ∈ d.objects, r.isKept = true →
      d'.disk.nodeAt (g r).localPath =
        d.disk.nodeAt r.localPath
  rooted : d'.disk.Rooted

namespace Relocated

variable {a b parent : Path} {g : ObjectRow → ObjectRow}
variable {placement : Placement}

theorem isKept (h : Relocated d d' a b g) (r : ObjectRow) :
    (g r).isKept = r.isKept := by
  unfold ObjectRow.isKept
  rw [h.state]

theorem isLiveFolder
    (h : Relocated d d' a b g)
    (r : ObjectRow) :
    (g r).isLiveFolder = r.isLiveFolder := by
  unfold ObjectRow.isLiveFolder ObjectRow.isLive
  rw [h.state, h.isFolder]

theorem mem
    (h : Relocated d d' a b g)
    (hs : s ∈ d'.objects) : ∃ r ∈ d.objects, g r = s := by
  rw [h.objects] at hs
  exact List.mem_map.mp hs

theorem folderById
    (h : Relocated d d' a b g)
    (id : FileId) :
    d'.folderById id = (d.folderById id).map g := by
  unfold SyncDevice.folderById
  rw [h.objects, List.find?_map]
  have hTest :
      ((fun row : ObjectRow =>
          decide (row.fileId = id) && row.isLiveFolder) ∘ g) =
        fun row =>
          decide (row.fileId = id) && row.isLiveFolder := by
    funext r
    simp only [Function.comp, h.fileId, h.isLiveFolder]
  rw [hTest]

/- The row that has moved is where its placement says. -/
theorem placePath_new
    (h : Relocated d d' r.localPath
      (parent ++ [placement.name.toList]) g)
    (hClear : ClearPlace d r placement parent) :
    d'.placePath (placement.parentId, placement.name.toList) =
      some (parent ++ [placement.name.toList]) := by
  rcases hClear.parent_cases with
    ⟨hTop, hNil⟩ | ⟨f, hf, hFolder, hId, hPath, hFound, _⟩
  · rw [hTop, hNil]
    rfl
  · have hStays : (g f).localPath = parent := by
      rw [h.localPath f hf
        (ObjectRow.isKept_of_isLiveFolder hFolder), hPath]
      exact rebase_outside hClear.outside
    rw [hId, SyncDevice.placePath_inside, h.folderById, hFound,
      Option.map_some, Option.map_some, hStays]

/- All others are where they were in their parents. -/
theorem placePath_old
    {t : ObjectRow}
    (h : Relocated d d' r.localPath b g)
    (hShows : Shows d forest)
    (hMem : r ∈ d.objects)
    (hrKept : r.isKept = true)
    (ht : t ∈ d.objects)
    (hKept : t.isKept = true)
    (hOther : t ≠ r) :
    d'.placePath (forest t.fileId) =
      some (rebase r.localPath b t.localPath) := by
  have hApart : r.localPath ≠ t.localPath :=
    fun hSame => hOther
      (hShows.apart t ht r hMem hKept hrKept hSame.symm)
  rcases hShows.parent ht hKept with
    ⟨n, hPlace, hTop⟩ | ⟨n, f, hf, hFolder, hPlace, hInside⟩
  · have hOut : ¬ r.localPath <+: [] ++ [n] := by
      rw [List.prefix_concat_iff]
      rintro (hSame | hNil)
      · exact hApart (hSame.trans hTop.symm)
      · exact hShows.path_ne_nil hMem hrKept
          (List.prefix_nil.mp hNil)
    rw [hPlace, hTop]
    exact (congrArg some (rebase_outside hOut)).symm
  · rw [hInside] at hApart
    rw [hPlace, hInside, rebase_concat hApart,
      SyncDevice.placePath_inside, h.folderById,
      hShows.folderById_eq hf hFolder, Option.map_some,
      Option.map_some,
      h.localPath f hf
        (ObjectRow.isKept_of_isLiveFolder hFolder)]

/- The forest with the row at its new place is shown. -/
theorem shows
    (h : Relocated d d' r.localPath
      (parent ++ [placement.name.toList]) g)
    (hShows : Shows d forest)
    (hMem : r ∈ d.objects)
    (hClear : ClearPlace d r placement parent) :
    Shows d'
      (place forest
        (r.fileId,
          (placement.parentId, placement.name.toList))) := by
  have hrKept := ObjectRow.isKept_of_isLive hClear.live
  have hTarget :
      parent ++ [placement.name.toList] ≠ [] := by simp
  -- What is in another row's place is not below the target.
  have hBelow :
      ∀ s ∈ d.objects, s.isKept = true →
        ¬ parent ++ [placement.name.toList] <+: s.localPath ∨
          r.localPath <+: s.localPath := by
    intro s hs hKept
    rcases hClear.free with hSame | hFree
    · rw [← hSame]
      exact (em _).symm
    · exact .inl (hShows.not_below_free hFree hTarget hs hKept)
  refine ⟨?_, ?_, ?_, ?_, ?_, ?_, ?_, h.rooted⟩
  · -- ids
    intro s₁ hs₁ s₂ hs₂ hId
    rcases h.mem hs₁ with ⟨r₁, hr₁, rfl⟩
    rcases h.mem hs₂ with ⟨r₂, hr₂, rfl⟩
    rw [h.fileId, h.fileId] at hId
    rw [hShows.ids r₁ hr₁ r₂ hr₂ hId]
  · -- keys
    intro s hs hKept
    rcases h.mem hs with ⟨t, ht, rfl⟩
    rw [h.isKept] at hKept
    exact h.s3Key t ht hKept
  · -- normal
    intro s hs hKept part hPart
    rcases h.mem hs with ⟨t, ht, rfl⟩
    rw [h.isKept] at hKept
    rw [h.localPath t ht hKept] at hPart
    rcases mem_rebase hPart with hTargetPart | hOldPart
    · rcases List.mem_append.mp hTargetPart with
        hParentPart | hName
      · exact hClear.normal_of_mem_parent hShows hParentPart
      · rw [List.mem_singleton.mp hName]
        exact hClear.name_normal
    · exact hShows.normal t ht hKept part hOldPart
  · -- placed
    intro s hs hKept
    rcases h.mem hs with ⟨t, ht, rfl⟩
    rw [h.isKept] at hKept
    rw [h.fileId, h.localPath t ht hKept]
    by_cases hSame : t.fileId = r.fileId
    · have hRow := hShows.ids t ht r hMem hSame
      rw [hRow, rebase_self]
      unfold place
      rw [Function.update_self]
      exact h.placePath_new hClear
    · unfold place
      rw [Function.update_of_ne hSame]
      exact h.placePath_old hShows hMem hrKept ht hKept
        fun hEq => hSame (by rw [hEq])
  · -- apart
    intro s₁ hs₁ s₂ hs₂ hKept₁ hKept₂ hPath
    rcases h.mem hs₁ with ⟨r₁, hr₁, rfl⟩
    rcases h.mem hs₂ with ⟨r₂, hr₂, rfl⟩
    rw [h.isKept] at hKept₁ hKept₂
    rw [h.localPath r₁ hr₁ hKept₁, h.localPath r₂ hr₂ hKept₂]
      at hPath
    have hSame := rebase_inj (hBelow r₁ hr₁ hKept₁)
      (hBelow r₂ hr₂ hKept₂) hPath
    rw [hShows.apart r₁ hr₁ r₂ hr₂ hKept₁ hKept₂ hSame]
  · -- folders
    intro s hs hFolder
    rcases h.mem hs with ⟨t, ht, rfl⟩
    rw [h.isLiveFolder] at hFolder
    rw [h.nodes t ht (ObjectRow.isKept_of_isLiveFolder hFolder)]
    exact hShows.folders t ht hFolder
  · -- regular
    intro s hs hKept resolves
    rcases h.mem hs with ⟨t, ht, rfl⟩
    rw [h.isKept] at hKept
    rw [h.nodes t ht hKept]
    exact hShows.regular t ht hKept resolves

end Relocated

end RemoteChanges

end S4Drive

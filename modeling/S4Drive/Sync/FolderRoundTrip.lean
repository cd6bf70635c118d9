import S4Drive.Sync.FolderReturns
import S4Drive.Sync.LastPlacements
import S4Drive.Sync.RemovedFolders

/-
  A remote delete of a folder and the restore of the same
  folder after it. The restore brings back what is deleted
  remotely, and this is what the delete makes of all rows
  when the whole folder goes; when the folder holds changes
  of this device, its unchanged files are removed as if they
  had been deleted here, and do not come back.

  Main declarations:
    * `ComesBack`, `ready_of_gone`
    * `Removed`, `Back`, `RoundTrip`
    * `GoesWhole`, `KeepsAll`
    * `folder_returns_iff`, `unchanged_file_stays_away`
-/

open FileTree NamedForest

------------------------------------------------------------
-- Ready for the Restore
------------------------------------------------------------

namespace S4Drive

namespace RemoteChanges

open Recovery (Path)

variable {d d' d₁ d₂ : SyncDevice} {r s f g : ObjectRow}
variable {forest : FileId → Place FileId Text}
variable {ctx : SyncContext} {b : Bucket} {n : Nat}
variable {placement : Placement} {p q : Path}
variable {σ : ObjectRow → IndexState}

def SyncDevice.withBucket
    (d : SyncDevice)
    (b : Bucket) : SyncDevice :=
  { d with bucket := b }

/-
  The bucket has the folder, whose parent is not deleted, and
  what was in it when it was deleted.
-/
structure ComesBack
    (b : Bucket)
    (d : SyncDevice)
    (f : ObjectRow)
    (placement : Placement) : Prop where
  undeleted : b.isRemotelyDeleted f.fileId = false
  parent :
    ∀ j, placement.parentId = some j →
      b.isRemotelyDeleted j = false
  folder :
    ∃ remote, b.entries f.fileId = some remote ∧
      remote.deletedAt = none ∧ remote.entryType = .folder
  entries :
    ∀ r ∈ d.objects, r.under f.localPath = true →
      ∀ remote, b.entries r.fileId = some remote →
        remote.fileId = r.fileId ∧
          (remote.entryType = .file ↔ r.isFolder = false)
  files :
    ∀ r ∈ d.liveFilesUnder f.localPath, r.state = .synced →
      ∃ remote, b.entries r.fileId = some remote ∧
        remote.deletedAt = none ∧ remote.contentRef.isSome ∧
        remote.currentRevisionId = r.currentRevisionId
  deleted :
    ∀ r ∈ d.objects, r.under f.localPath = true →
      r.state = .deletedRemotely →
        ∀ remote, b.entries r.fileId = some remote →
          remote.deletedAt ≠ none

theorem liveEntry_withBucket
    {id : FileId}
    {remote : FileEntry} :
    liveEntry (d.withBucket b) id = some remote ↔
      b.entries id = some remote ∧ remote.deletedAt = none := by
  unfold liveEntry SyncDevice.withBucket
  rw [Option.filter_eq_some_iff, Option.isNone_iff_eq_none]

namespace FolderGone

/- No row comes to life. -/
theorem isLive
    (h : FolderGone d d' f σ)
    (hMem : r ∈ d.objects)
    (hLive : (withState σ r).isLive = true) :
    r.isLive = true := by
  by_contra hDead
  rw [Bool.not_eq_true] at hDead
  have hSame : withState σ r = r := by
    unfold withState
    rw [h.dead r hMem hDead]
  rw [hSame, hDead] at hLive
  cases hLive

theorem not_live
    (h : FolderGone d d' f σ)
    (hf : f ∈ d.objects)
    (hFolder : f.isLiveFolder = true) :
    (withState σ f).isLive = false := by
  have hState := h.folders f hf hFolder List.prefix_rfl
  unfold ObjectRow.isLive withState
  rw [hState]
  rfl

/- A row that returns was live before the delete. -/
theorem live_of_isRemote
    (h : FolderGone d d' f σ)
    (hBack : ComesBack b d f placement)
    (hMem : r ∈ d.objects)
    (hUnder : r.under f.localPath = true)
    (hState : σ r = .deletedRemotely)
    (hRemote : r.isRemote (d'.withBucket b)) :
    r.isLive = true := by
  by_contra hDead
  rw [Bool.not_eq_true] at hDead
  rw [h.dead r hMem hDead] at hState
  obtain ⟨remote, hEntry⟩ := Option.isSome_iff_exists.mp hRemote
  rw [liveEntry_withBucket] at hEntry
  exact hBack.deleted r hMem hUnder hState remote hEntry.1
    hEntry.2

/- The folders on the way to a row are there, or nothing is. -/
theorem way_to
    (h : FolderGone d d' f σ)
    (hShows : Shows d forest)
    (hMem : g ∈ d.objects)
    (hFolder : g.isLiveFolder = true)
    (hOwn : ¬ inAppFolder g.localPath)
    (hPath : q ≠ [])
    (hIn : q <+: g.localPath) :
    d'.disk.nodeAt q = none ∨
      d'.disk.nodeAt q = some .folder := by
  by_cases hSame : q = g.localPath
  · rw [hSame]
    exact h.way g hMem hFolder hOwn
  · obtain ⟨t, ht, htFolder, rfl⟩ := hShows.folder_above hMem
      (ObjectRow.isKept_of_isLiveFolder hFolder) hPath hIn hSame
    apply h.way t ht htFolder
    unfold inAppFolder at hOwn ⊢
    rwa [← head?_below hPath hIn]

/- What was removed with the folder may return. -/
theorem returning
    (h : FolderGone d d' f σ)
    (hShows : Shows d forest)
    (hPath : f.localPath ≠ [])
    (hOwn : ¬ inAppFolder f.localPath)
    (hBack : ComesBack b d f placement) :
    Returning (d'.withBucket b)
      ((d'.withBucket b).removedRemotelyUnder f.localPath) := by
  have hIds := h.marked.ids hShows
  have hRow :
      ∀ r ∈ (d'.withBucket b).removedRemotelyUnder f.localPath,
        ∃ r₀ ∈ d.objects, withState σ r₀ = r ∧
          r₀.under f.localPath = true ∧
          σ r₀ = .deletedRemotely := by
    intro r hr
    obtain ⟨hMem, hUnder, hState⟩ :=
      SyncDevice.mem_removedRemotelyUnder.mp hr
    obtain ⟨r₀, hr₀, rfl⟩ := h.marked.of_mem hMem
    exact ⟨r₀, hr₀, rfl, hUnder, hState⟩
  -- A file that returns was synced, and its place is empty.
  have hFile :
      ∀ r₀ ∈ d.objects, r₀.under f.localPath = true →
        σ r₀ = .deletedRemotely →
          r₀.isRemote (d'.withBucket b) →
            r₀.isFolder = false →
              r₀ ∈ d.liveFilesUnder f.localPath ∧
                r₀.state = .synced ∧
                d'.disk.nodeAt r₀.localPath = none := by
    intro r₀ hr₀ hUnder hState hRemote hKind
    have hLive := h.live_of_isRemote hBack hr₀ hUnder hState
      hRemote
    have hIs := mem_liveFilesUnder.mpr
      ⟨hr₀, hUnder, hKind, hLive⟩
    exact ⟨hIs, h.files r₀ hIs hState⟩
  have hInside :
      ∀ r₀ ∈ d.objects, r₀.under f.localPath = true →
        σ r₀ = .deletedRemotely →
          r₀.isRemote (d'.withBucket b) →
            r₀.isFolder = true → r₀.isLiveFolder = true := by
    intro r₀ hr₀ hUnder hState hRemote hKind
    have hLive := h.live_of_isRemote hBack hr₀ hUnder hState
      hRemote
    unfold ObjectRow.isLiveFolder
    rw [hKind, hLive]
    rfl
  refine ⟨?_, ?_, ?_, ?_, ?_, ?_, ?_⟩
  · -- ids
    intro r hr s hs
    exact hIds r (SyncDevice.mem_removedRemotelyUnder.mp hr).1
      s (SyncDevice.mem_removedRemotelyUnder.mp hs).1
  · -- paths
    intro r hr hNil
    obtain ⟨r₀, _, rfl, hUnder, _⟩ := hRow r hr
    have hIn := (ObjectRow.under_iff.mp hUnder).1
    have hAt : r₀.localPath = [] := hNil
    rw [hAt] at hIn
    exact hPath (List.prefix_nil.mp hIn)
  · -- entries
    intro r hr remote hEntry
    obtain ⟨r₀, hr₀, rfl, hUnder, _⟩ := hRow r hr
    exact hBack.entries r₀ hr₀ hUnder remote
      (liveEntry_withBucket.mp hEntry).1
  · -- contents
    intro r hr remote hEntry hKind
    obtain ⟨r₀, hr₀, rfl, hUnder, hState⟩ := hRow r hr
    have hRemote : r₀.isRemote (d'.withBucket b) :=
      Option.isSome_iff_exists.mpr ⟨remote, hEntry⟩
    obtain ⟨hIs, hSynced, _⟩ :=
      hFile r₀ hr₀ hUnder hState hRemote hKind
    obtain ⟨remote', hEntry', _, hContent, hRevision⟩ :=
      hBack.files r₀ hIs hSynced
    have hSame := (liveEntry_withBucket.mp hEntry).1
    rw [show (withState σ r₀).fileId = r₀.fileId from rfl,
      hEntry', Option.some.injEq] at hSame
    rw [← hSame]
    exact ⟨hContent, hRevision⟩
  · -- free
    intro r hr hRemote hKind
    obtain ⟨r₀, hr₀, rfl, hUnder, hState⟩ := hRow r hr
    exact (hFile r₀ hr₀ hUnder hState hRemote hKind).2.2
  · -- way
    intro r hr hRemote hKind q hNil hIn
    obtain ⟨r₀, hr₀, rfl, hUnder, hState⟩ := hRow r hr
    apply h.way_to hShows hr₀
      (hInside r₀ hr₀ hUnder hState hRemote hKind) _ hNil hIn
    unfold inAppFolder
    rwa [head?_below hPath
      (ObjectRow.under_iff.mp hUnder).1]
  · -- apart
    intro r hr s hs hRemote hRemote' hKind hKind'
    obtain ⟨r₀, hr₀, rfl, hUnder, hState⟩ := hRow r hr
    obtain ⟨s₀, hs₀, rfl, hUnder', hState'⟩ := hRow s hs
    have hIs := (hFile r₀ hr₀ hUnder hState hRemote hKind).1
    have hFolder :=
      hInside s₀ hs₀ hUnder' hState' hRemote' hKind'
    apply not_below_fileUnder hShows hIs hs₀
      (ObjectRow.isLive_of_isLiveFolder hFolder)
    rintro rfl
    have hOther : s₀.isFolder = false := hKind
    rw [show s₀.isFolder = true from hKind'] at hOther
    cases hOther

end FolderGone

namespace FolderGone

/- The folder that the deleted one is in is known. -/
theorem parentPath_ok
    (ctx : SyncContext)
    (h : FolderGone d d' f σ)
    (hShows : Shows d forest)
    (hf : f ∈ d.objects)
    (hKept : f.isKept = true)
    (hPlace :
      forest f.fileId =
        (placement.parentId, placement.name.toList))
    (hBack : ComesBack b d f placement) :
    ∃ parent,
      f.localPath = parent ++ [placement.name.toList] ∧
        FolderNodes.parentPath ctx placement.parentId
            (d'.withBucket b) =
          .ok (some parent) (d'.withBucket b) := by
  rcases hShows.parent hf hKept with
    ⟨n, hTop, hPath⟩ | ⟨n, g, hg, hgFolder, hInside, hPath⟩
  · rw [hPlace, Prod.mk.injEq] at hTop
    refine ⟨[], ?_, ?_⟩
    · rw [hPath, hTop.2]
      rfl
    · rw [hTop.1]
      rfl
  · rw [hPlace, Prod.mk.injEq] at hInside
    refine ⟨g.localPath, ?_, ?_⟩
    · rw [hPath, hInside.2]
    · have hOut : ¬ f.localPath <+: g.localPath := by
        rw [hPath]
        intro hIn
        have hLength := hIn.length_le
        rw [List.length_append, List.length_singleton]
          at hLength
        omega
      have hSame : withState σ g = g := by
        unfold withState
        rw [h.outside g hg hOut]
      have hMem := h.marked.mem hg
      rw [hSame] at hMem
      have hFound : (d'.withBucket b).folderById g.fileId =
          some g :=
        SyncDevice.folderById_of_ids
          (d := d'.withBucket b) (h.marked.ids hShows) hMem
          hgFolder
      have hKey := hShows.keys g hg
        (ObjectRow.isKept_of_isLiveFolder hgFolder)
      rw [hInside.1, ← hKey]
      exact folderPath_known
        (hBack.parent g.fileId hInside.1) hFound

end FolderGone

/- The device that has deleted the folder can take it back. -/
theorem ready_of_gone
    (ctx : SyncContext)
    (hShows : Shows d forest)
    (hf : f ∈ d.objects)
    (hFolder : f.isLiveFolder = true)
    (hOwn : ¬ inAppFolder f.localPath)
    (hPlain : plainName placement.name = true)
    (hPlace :
      forest f.fileId =
        (placement.parentId, placement.name.toList))
    (hGone : FolderGone d d' f σ)
    (hBack : ComesBack b d f placement) :
    ∃ parent, Ready ctx (d'.withBucket b) f placement parent := by
  have hKept := ObjectRow.isKept_of_isLiveFolder hFolder
  have hPath := hShows.path_ne_nil hf hKept
  have hDead := hGone.not_live hf hFolder
  obtain ⟨parent, hIs, hKnown⟩ :=
    hGone.parentPath_ok ctx hShows hf hKept hPlace hBack
  obtain ⟨remote, hEntry, hUndeleted, hKind⟩ := hBack.folder
  refine ⟨parent, hPlain, hIs, hShows.normal f hf hKept, hKnown,
    hBack.undeleted,
    ⟨remote, liveEntry_withBucket.mpr ⟨hEntry, hUndeleted⟩,
      hKind⟩, ?_, ?_, ?_, ?_,
    hGone.returning hShows hPath hOwn hBack⟩
  · -- indexed
    have hRow := SyncDevice.rowOf_of_ids
      (hGone.marked.ids hShows) (hGone.marked.mem hf)
    unfold SyncDevice.getLocalPath
    exact congrArg (Option.map ObjectRow.localPath) hRow
  · -- removed
    intro r hr hId
    obtain ⟨r₀, hr₀, rfl⟩ := hGone.marked.of_mem hr
    rw [hShows.ids r₀ hr₀ f hf hId]
    exact ⟨rfl, hDead⟩
  · -- free
    intro r hr hLive hKey
    obtain ⟨r₀, hr₀, rfl⟩ := hGone.marked.of_mem hr
    have hr₀Kept := ObjectRow.isKept_of_isLive
      (hGone.isLive hr₀ hLive)
    have hAt : r₀.localPath = f.localPath := by
      rw [← hShows.keys r₀ hr₀ hr₀Kept]
      exact hKey
    rw [hShows.apart r₀ hr₀ f hf hr₀Kept hKept hAt, hDead]
      at hLive
    cases hLive
  · -- way
    exact fun q hNil hIn =>
      hGone.way_to hShows hf hFolder hOwn hNil hIn

------------------------------------------------------------
-- The Round Trip
------------------------------------------------------------

/- The delete has taken a file from the disk or the index. -/
def Removed (d d₁ : SyncDevice) (p : Path) : Prop :=
  (d.fileAt p).isSome ∧
    (d₁.fileAt p = none ∨
      ∃ r ∈ d.objects, r.isLive = true ∧ r.localPath = p ∧
        ∀ s ∈ d₁.objects, s.fileId = r.fileId →
          s.isLive = false)

/-
  A file of the index has returned, or a file that the index
  does not know is there as it was.
-/
def Back (d d₂ : SyncDevice) (p : Path) : Prop :=
  (∃ r ∈ d.objects, r.isLive = true ∧ r.localPath = p ∧
      Returned d d₂ r) ∨
    ((∀ r ∈ d.objects, r.isLive = true → r.localPath ≠ p) ∧
      d₂.fileAt p = d.fileAt p)

/-
  From `d` by the delete to `d₁` and by the restore to `d₂`:
  what was removed is back, what was kept is untouched.
-/
structure RoundTrip (d d₁ d₂ : SyncDevice) : Prop where
  back : ∀ p, Removed d d₁ p → Back d d₂ p
  keptFiles :
    ∀ p file, d₁.fileAt p = some file → d₂.fileAt p = some file
  keptRows :
    ∀ r ∈ d₁.objects, r.isLive = true → r ∈ d₂.objects

/-
  Nothing in the folder has changed here, and all files in it
  are in the index.
-/
def GoesWhole
    (ctx : SyncContext)
    (d : SyncDevice)
    (f : ObjectRow) : Prop :=
  hasLocalChanges ctx d f (d.liveFilesUnder f.localPath) =
      .ok false ∧
    ∀ p, f.localPath <+: p → (d.fileAt p).isSome →
      ∃ r ∈ d.objects, r.isLive = true ∧ r.localPath = p

/-
  Something in the folder has changed here, and no synced
  file in it is as it was.
-/
def KeepsAll
    (ctx : SyncContext)
    (d : SyncDevice)
    (f : ObjectRow) : Prop :=
  hasLocalChanges ctx d f (d.liveFilesUnder f.localPath) =
      .ok true ∧
    NoneUnchanged ctx d f

/- A file on the disk is no folder of the index. -/
theorem file_of_fileAt
    (hShows : Shows d forest)
    (hr : r ∈ d.objects)
    (hLive : r.isLive = true)
    (hThere : (d.fileAt r.localPath).isSome) :
    r.isFolder = false := by
  cases hKind : r.isFolder with
  | false => rfl
  | true =>
      have hFolder : r.isLiveFolder = true := by
        unfold ObjectRow.isLiveFolder
        rw [hKind, hLive]
        rfl
      have hNode := hShows.folders r hr hFolder
      unfold SyncDevice.fileAt at hThere
      rw [hNode] at hThere
      cases hThere

/- A live file below the folder is one that is looked at. -/
theorem mem_filesUnder
    (hShows : Shows d forest)
    (hf : f ∈ d.objects)
    (hFolder : f.isLiveFolder = true)
    (hr : r ∈ d.objects)
    (hLive : r.isLive = true)
    (hThere : (d.fileAt r.localPath).isSome)
    (hIn : f.localPath <+: r.localPath) :
    r ∈ d.liveFilesUnder f.localPath := by
  have hFile := file_of_fileAt hShows hr hLive hThere
  refine mem_liveFilesUnder.mpr
    ⟨hr, ObjectRow.under_iff.mpr ⟨hIn, fun hSame => ?_⟩, hFile,
      hLive⟩
  have hIs := hShows.apart r hr f hf
    (ObjectRow.isKept_of_isLive hLive)
    (ObjectRow.isKept_of_isLiveFolder hFolder) hSame
  rw [hIs, (Bool.and_eq_true_iff.mp hFolder).1] at hFile
  cases hFile

namespace FolderGone

variable {rows : List ObjectRow}

/- The restore works on no row that is not deleted remotely. -/
theorem other_ids
    (h : FolderGone d d₁ f σ)
    (hShows : Shows d forest)
    (hr : r ∈ d.objects)
    (hOther : r ≠ f)
    (hf : f ∈ d.objects)
    (hState : σ r ≠ .deletedRemotely) :
    ∀ s ∈
        f :: (d₁.withBucket b).removedRemotelyUnder f.localPath,
      r.fileId ≠ s.fileId := by
  intro s hs hId
  rcases List.mem_cons.mp hs with rfl | hs
  · exact hOther (hShows.ids r hr s hf hId)
  · obtain ⟨hMem, _, hIs⟩ :=
      SyncDevice.mem_removedRemotelyUnder.mp hs
    obtain ⟨s₀, hs₀, rfl⟩ := h.marked.of_mem hMem
    rw [hShows.ids r hr s₀ hs₀ hId] at hState
    exact hState hIs

/- What the delete has kept is untouched by the restore. -/
theorem keptRows
    (h : FolderGone d d₁ f σ)
    (hShows : Shows d forest)
    (hf : f ∈ d.objects)
    (hFolder : f.isLiveFolder = true)
    (hExtends :
      Extends
        (f :: (d₁.withBucket b).removedRemotelyUnder
          f.localPath)
        (d₁.withBucket b) d₂)
    (hr : r ∈ d₁.objects)
    (hLive : r.isLive = true) : r ∈ d₂.objects := by
  apply hExtends.kept r hr
  obtain ⟨r₀, hr₀, rfl⟩ := h.marked.of_mem hr
  apply h.other_ids hShows hr₀ _ hf
  · intro hState
    unfold ObjectRow.isLive withState at hLive
    rw [hState] at hLive
    cases hLive
  · rintro rfl
    rw [h.not_live hf hFolder] at hLive
    cases hLive

end FolderGone

/- A file that is queued for its download has returned. -/
theorem returned_of_fetching
    (h : Fetching d₂ (withState σ r)) : Returned d d₂ r :=
  .inl ⟨h.row, h.job⟩

/- A row that the restore has not worked on has not returned. -/
theorem not_returned
    {rows : List ObjectRow}
    (hExtends : Extends rows d₁ d₂)
    (hOther : ∀ s ∈ rows, r.fileId ≠ s.fileId)
    (hState :
      ∀ s ∈ d₁.objects, s.fileId = r.fileId →
        s.state = .deletedLocally) :
    ¬ Returned d d₂ r := by
  have hStill :
      ∀ s ∈ d₂.objects, s.fileId = r.fileId →
        s.state = .deletedLocally := by
    intro s hs hId
    apply hState s _ hId
    apply hExtends.others s hs
    intro t ht
    rw [hId]
    exact hOther t ht
  rintro (hFetching | ⟨s, hs, hId, _, _, _, hSynced, _⟩)
  · obtain ⟨s, hs, hId, _, _, _, hPending⟩ := hFetching.row
    rw [hStill s hs hId] at hPending
    cases hPending
  · rw [hStill s hs hId] at hSynced
    cases hSynced

/- What went with the whole folder comes back. -/
theorem back_of_goesWhole
    (hShows : Shows d forest)
    (hf : f ∈ d.objects)
    (hFolder : f.isLiveFolder = true)
    (hGone : FolderGone d d₁ f σ)
    (hBack : ComesBack b d f placement)
    (hWhole : WentWhole d d₁ f σ)
    (hGoes : GoesWhole ctx d f)
    (hFetching :
      ∀ r ∈ (d₁.withBucket b).removedRemotelyUnder f.localPath,
        r.isRemote (d₁.withBucket b) → r.isFolder = false →
          Fetching d₂ r)
    (hRemoved : Removed d d₁ p) : Back d d₂ p := by
  by_cases hIn : f.localPath <+: p
  · obtain ⟨r, hr, hLive, rfl⟩ := hGoes.2 p hIn hRemoved.1
    have hIs := mem_filesUnder hShows hf hFolder hr hLive
      hRemoved.1 hIn
    have hRow := mem_liveFilesUnder.mp hIs
    have hState := hWhole.states r hIs
    have hMem :
        withState σ r ∈
          (d₁.withBucket b).removedRemotelyUnder f.localPath :=
      SyncDevice.mem_removedRemotelyUnder.mpr
        ⟨hGone.marked.mem hr, hRow.2.1, hState⟩
    obtain ⟨remote, hEntry, hUndeleted, _⟩ :=
      hBack.files r hIs (synced_of_unchanged hShows hGoes.1 hIs)
    have hRemote :
        (withState σ r).isRemote (d₁.withBucket b) :=
      Option.isSome_iff_exists.mpr
        ⟨remote, liveEntry_withBucket.mpr ⟨hEntry, hUndeleted⟩⟩
    exact .inl ⟨r, hr, hLive, rfl, returned_of_fetching
      (hFetching _ hMem hRemote hRow.2.2.1)⟩
  · exfalso
    rcases hRemoved.2 with hNone | ⟨r, hr, hLive, rfl, hDead⟩
    · have hThere := hWhole.elsewhere p hIn hRemoved.1
      rw [hNone] at hThere
      cases hThere
    · have hSame : withState σ r = r := by
        unfold withState
        rw [hGone.outside r hr hIn]
      have hMem := hGone.marked.mem hr
      rw [hSame] at hMem
      rw [hDead r hMem rfl] at hLive
      cases hLive

/- Nothing is removed where all files are kept. -/
theorem not_removed_of_keepsAll
    (hShows : Shows d forest)
    (hf : f ∈ d.objects)
    (hFolder : f.isLiveFolder = true)
    (hGone : FolderGone d d₁ f σ)
    (hPartly : WentPartly ctx d d₁ f σ)
    (hNone : NoneUnchanged ctx d f) : ¬ Removed d d₁ p := by
  obtain ⟨hFiles, hRows⟩ := hPartly.kept hNone
  rintro ⟨hThere, hAbsent | ⟨r, hr, hLive, rfl, hDead⟩⟩
  · have hStill := hFiles p hThere
    rw [hAbsent] at hStill
    cases hStill
  · have hMem := hGone.marked.mem hr
    have hNow := hDead _ hMem rfl
    by_cases hIn : f.localPath <+: r.localPath
    · rw [hRows r (mem_filesUnder hShows hf hFolder hr hLive
        hThere hIn) hThere] at hNow
      cases hNow
    · unfold withState at hNow
      rw [hGone.outside r hr hIn] at hNow
      rw [show r.isLive = false from hNow] at hLive
      cases hLive

/- A file that is in no live row does not come back. -/
theorem goesWhole_of_back
    (hWhole : WentWhole d d₁ f σ)
    (hUnchanged :
      hasLocalChanges ctx d f (d.liveFilesUnder f.localPath) =
        .ok false)
    (hExtends :
      Extends
        (f ::
          (d₁.withBucket b).removedRemotelyUnder f.localPath)
        (d₁.withBucket b) d₂)
    (hTrip : RoundTrip d d₁ d₂) : GoesWhole ctx d f := by
  refine ⟨hUnchanged, fun p hIn hThere => ?_⟩
  have hNone := hWhole.empty p hIn
  have hRemoved : Removed d d₁ p :=
    ⟨hThere, .inl (fileAt_of_none hNone)⟩
  rcases hTrip.back p hRemoved with
    ⟨r, hr, hLive, hPath, _⟩ | ⟨_, hSame⟩
  · exact ⟨r, hr, hLive, hPath⟩
  · exfalso
    obtain ⟨file, hFile⟩ := Option.isSome_iff_exists.mp hThere
    rw [hFile] at hSame
    rcases hExtends.made p _ (fileAt_eq_some_iff.mp hSame) with
      hOld | hNew
    · rw [show (d₁.withBucket b).disk.nodeAt p = none from
        hNone] at hOld
      cases hOld
    · cases hNew

/- An unchanged file of a folder with changes stays away. -/
theorem noneUnchanged_of_back
    (hShows : Shows d forest)
    (hf : f ∈ d.objects)
    (hFolder : f.isLiveFolder = true)
    (hGone : FolderGone d d₁ f σ)
    (hPartly : WentPartly ctx d d₁ f σ)
    (hExtends :
      Extends
        (f ::
          (d₁.withBucket b).removedRemotelyUnder f.localPath)
        (d₁.withBucket b) d₂)
    (hTrip : RoundTrip d d₁ d₂) : NoneUnchanged ctx d f := by
  intro r hr hSynced hThere
  have hRow := mem_liveFilesUnder.mp hr
  rcases changed_or_not ctx r.localHash hThere with
    hChanged | hUnchanged
  · exact hChanged
  · exfalso
    have hState := hPartly.removed r hr hSynced hThere hUnchanged
    have hRows :
        ∀ s ∈ d₁.objects, s.fileId = r.fileId →
          s.state = .deletedLocally := by
      intro s hs hId
      obtain ⟨s₀, hs₀, rfl⟩ := hGone.marked.of_mem hs
      rw [hShows.ids s₀ hs₀ r hRow.1 hId]
      exact hState
    have hRemoved : Removed d d₁ r.localPath := by
      refine ⟨hThere, .inr ⟨r, hRow.1, hRow.2.2.2, rfl, ?_⟩⟩
      intro s hs hId
      unfold ObjectRow.isLive
      rw [hRows s hs hId]
      rfl
    have hOther : r ≠ f := by
      rintro rfl
      rw [(Bool.and_eq_true_iff.mp hFolder).1] at hRow
      cases hRow.2.2.1
    have hAway : ¬ Returned d d₂ r :=
      not_returned hExtends
        (hGone.other_ids hShows hRow.1 hOther hf
          (by simp [hState]))
        hRows
    rcases hTrip.back r.localPath hRemoved with
      ⟨s, hs, hLive, hPath, hReturned⟩ | ⟨hNot, _⟩
    · rw [hShows.apart s hs r hRow.1
        (ObjectRow.isKept_of_isLive hLive)
        (ObjectRow.isKept_of_isLive hRow.2.2.2) hPath]
        at hReturned
      exact hAway hReturned
    · exact hNot r hRow.1 hRow.2.2.2 rfl

/- The restore goes through, and undoes the delete or not. -/
theorem restored_of_gone
    {op : Operation}
    (ctx : SyncContext)
    (hShows : Shows d forest)
    (hf : f ∈ d.objects)
    (hFolder : f.isLiveFolder = true)
    (hOwn : ¬ inAppFolder f.localPath)
    (hOp : Placement.ofOp op = some placement)
    (hPlain : plainName placement.name = true)
    (hPlace :
      forest f.fileId =
        (placement.parentId, placement.name.toList))
    (hBack : ComesBack b d f placement)
    (hGone : FolderGone d d₁ f σ) :
    ∃ d₂,
      restored ctx f.fileId op (d₁.withBucket b) = .ok 0 d₂ ∧
        Extends
          (f ::
            (d₁.withBucket b).removedRemotelyUnder f.localPath)
          (d₁.withBucket b) d₂ ∧
        ∀ r ∈
            (d₁.withBucket b).removedRemotelyUnder f.localPath,
          r.isRemote (d₁.withBucket b) → r.isFolder = false →
            Fetching d₂ r := by
  obtain ⟨parent, hReady⟩ := ready_of_gone ctx hShows hf hFolder
    hOwn hPlain hPlace hGone hBack
  exact restored_of_ready hOp hReady
    (Bool.and_eq_true_iff.mp hFolder).1

/- A restore that undoes the delete has found it so. -/
theorem goesWhole_or_keepsAll
    {op : Operation}
    {m : Nat}
    (hShows : Shows d forest)
    (hf : f ∈ d.objects)
    (hFolder : f.isLiveFolder = true)
    (hOwn : ¬ inAppFolder f.localPath)
    (hFresh : ∀ q, isDrawn ctx q → d.disk.nodeAt q = none)
    (hOp : Placement.ofOp op = some placement)
    (hPlain : plainName placement.name = true)
    (hPlace :
      forest f.fileId =
        (placement.parentId, placement.name.toList))
    (hBack : ComesBack b d f placement)
    (hRun : deleted ctx f.fileId d = .ok n d₁)
    (hRestore :
      restored ctx f.fileId op (d₁.withBucket b) = .ok m d₂)
    (hTrip : RoundTrip d d₁ d₂) :
    GoesWhole ctx d f ∨ KeepsAll ctx d f := by
  obtain ⟨σ, hGone, hWays⟩ :=
    deleted_folder hShows hf hFolder hOwn hFresh hRun
  obtain ⟨d₂', hRestore', hExtends, _⟩ := restored_of_gone ctx
    hShows hf hFolder hOwn hOp hPlain hPlace hBack hGone
  rw [hRestore] at hRestore'
  cases hRestore'
  rcases hWays with ⟨hUnchanged, hWhole⟩ | ⟨hChanged, hPartly⟩
  · exact .inl
      (goesWhole_of_back hWhole hUnchanged hExtends hTrip)
  · exact .inr ⟨hChanged, noneUnchanged_of_back hShows hf
      hFolder hGone hPartly hExtends hTrip⟩

/-
  The restore undoes the delete exactly if the folder went as
  a whole with files of the index only, or nothing in it was
  removed.
-/
theorem folder_returns_iff
    (ctx : SyncContext)
    (d d₁ : SyncDevice)
    (forest : FileId → Place FileId Text)
    (f : ObjectRow)
    (b : Bucket)
    (op : Operation)
    (placement : Placement)
    (n : Nat)
    (hShows : Shows d forest)
    (hf : f ∈ d.objects)
    (hFolder : f.isLiveFolder = true)
    (hOwn : ¬ inAppFolder f.localPath)
    (hFresh : ∀ q, isDrawn ctx q → d.disk.nodeAt q = none)
    (hOp : Placement.ofOp op = some placement)
    (hPlain : plainName placement.name = true)
    (hPlace :
      forest f.fileId =
        (placement.parentId, placement.name.toList))
    (hBack : ComesBack b d f placement)
    (hRun : deleted ctx f.fileId d = .ok n d₁) :
    (∃ m d₂,
        restored ctx f.fileId op (d₁.withBucket b) =
            .ok m d₂ ∧
          RoundTrip d d₁ d₂) ↔
      GoesWhole ctx d f ∨ KeepsAll ctx d f := by
  constructor
  · rintro ⟨m, d₂, hRestore, hTrip⟩
    exact goesWhole_or_keepsAll hShows hf hFolder hOwn hFresh
      hOp hPlain hPlace hBack hRun hRestore hTrip
  · intro hCondition
    obtain ⟨σ, hGone, hWays⟩ :=
      deleted_folder hShows hf hFolder hOwn hFresh hRun
    obtain ⟨d₂, hRestore, hExtends, hFetching⟩ :=
      restored_of_gone ctx hShows hf hFolder hOwn hOp hPlain
        hPlace hBack hGone
    refine ⟨0, d₂, hRestore, ?_, ?_, ?_⟩
    · intro p hRemoved
      rcases hWays with
        ⟨hUnchanged, hWhole⟩ | ⟨hChanged, hPartly⟩
      · rcases hCondition with hGoes | hKeeps
        · exact back_of_goesWhole hShows hf hFolder hGone hBack
            hWhole hGoes hFetching hRemoved
        · have hChanged := hKeeps.1
          rw [hUnchanged] at hChanged
          cases hChanged
      · rcases hCondition with hGoes | hKeeps
        · have hUnchanged := hGoes.1
          rw [hChanged] at hUnchanged
          cases hUnchanged
        · exact absurd hRemoved (not_removed_of_keepsAll hShows
            hf hFolder hGone hPartly hKeeps.2)
    · intro p file hFile
      exact fileAt_eq_some_iff.mpr
        (hExtends.nodes p _ (fileAt_eq_some_iff.mp hFile))
    · intro r hr hLive
      exact hGone.keptRows hShows hf hFolder hExtends hr hLive

------------------------------------------------------------
-- A Folder with Two Files
------------------------------------------------------------

/- The folder `p` with the files `a` and `b`. -/
def folderRows : List ObjectRow :=
  [indexedFile 10 [['p'], ['a']], indexedFile 11 [['p'], ['b']],
    indexedFolder 12 [['p']]]

def twoInFolder (fileB : StoredFile) : SyncDevice where
  disk :=
    ⟨[([['p'], ['a']], .file ⟨[1], 1⟩),
      ([['p'], ['b']], .file fileB), ([['p']], .folder)]⟩
  objects := folderRows
  transfers := []
  conflicts := []
  bucket := emptyBucket

def bothSynced : SyncDevice := twoInFolder ⟨[2], 1⟩

def oneEdited : SyncDevice := twoInFolder ⟨[2, 2], 5⟩

def remoteFile (id : FileId) (name : String) : FileEntry where
  fileId := id
  parentId := some 12
  name := name
  entryType := .file
  currentRevisionId := some id
  contentRef := some ⟨id, "1", 1, "", "blob"⟩
  size := 1
  contentHash := some "1"
  mime := none
  updatedAt := 0
  deletedAt := none
  versionHistory := []

def remoteFolder : FileEntry :=
  { remoteFile 12 "p" with
    parentId := none
    entryType := .folder
    currentRevisionId := none
    contentRef := none }

def folderBucket : Bucket where
  entries := fun id =>
    if id = 12 then some remoteFolder
    else if id = 10 then some (remoteFile 10 "a")
    else if id = 11 then some (remoteFile 11 "b")
    else none
  tombstones := fun _ => false
  latestDeletes := fun _ => none

def restoreOp : Operation :=
  { moveOp 12 none "p" with opType := .restore }

def folderForest (id : FileId) : Place FileId Text :=
  if id = 10 then (some 12, ['a'])
  else if id = 11 then (some 12, ['b'])
  else (none, ['p'])

theorem shows_bothSynced : Shows bothSynced folderForest where
  ids := by decide
  keys := by decide
  normal := by decide
  placed := by decide
  apart := by decide
  folders := by decide
  regular := by decide
  rooted := Files.rooted_of_entries (by decide)

theorem shows_oneEdited : Shows oneEdited folderForest where
  ids := by decide
  keys := by decide
  normal := by decide
  placed := by decide
  apart := by decide
  folders := by decide
  regular := by decide
  rooted := Files.rooted_of_entries (by decide)

theorem files_twoInFolder (fileB : StoredFile) :
    (twoInFolder fileB).liveFilesUnder [['p']] =
      [indexedFile 10 [['p'], ['a']],
        indexedFile 11 [['p'], ['b']]] := by
  unfold SyncDevice.liveFilesUnder SyncDevice.sortedByPath
  exact List.mergeSort_of_pairwise
    (show List.Pairwise _ (folderRows.filter _) by decide)

theorem comesBack_twoInFolder (fileB : StoredFile) :
    ComesBack folderBucket (twoInFolder fileB)
      (indexedFolder 12 [['p']]) ⟨none, "p"⟩ where
  undeleted := rfl
  parent := by
    intro j hParent
    cases hParent
  folder := ⟨remoteFolder, rfl, rfl, rfl⟩
  entries := by
    have hAll :
        ∀ r ∈ folderRows, r.under [['p']] = true →
          (folderBucket.entries r.fileId).all fun remote =>
            decide (remote.fileId = r.fileId ∧
              (remote.entryType = .file ↔
                r.isFolder = false)) := by decide
    intro r hr hUnder remote hEntry
    have hThis := hAll r hr hUnder
    rw [hEntry] at hThis
    exact of_decide_eq_true hThis
  files := by
    intro r hr _
    change r ∈ (twoInFolder fileB).liveFilesUnder [['p']] at hr
    rw [files_twoInFolder] at hr
    simp only [List.mem_cons, List.not_mem_nil, or_false] at hr
    rcases hr with rfl | rfl
    · exact ⟨remoteFile 10 "a", rfl, rfl, rfl, rfl⟩
    · exact ⟨remoteFile 11 "b", rfl, rfl, rfl, rfl⟩
  deleted := by
    have hAll :
        ∀ r ∈ folderRows, r.state ≠ .deletedRemotely := by
      decide
    intro r hr _ hState
    exact absurd hState (hAll r hr)

theorem not_drawn_twoInFolder
    (fileB : StoredFile)
    (q : Path)
    (h : isDrawn laptop q) :
    (twoInFolder fileB).disk.nodeAt q = none := by
  obtain ⟨dir, stem, rfl⟩ := h
  by_contra hThere
  obtain ⟨node, hNode⟩ := Option.ne_none_iff_exists'.mp hThere
  have hEntry := Files.mem_of_nodeAt hNode
  -- The names are shorter than what is drawn.
  have hShort :
      ∀ path ∈ [[['p'], ['a']], [['p'], ['b']], [['p']]],
        (path.getLastD []).length < 2 := by decide
  have hMem :
      dir ++ [stem ++ ' ' :: laptop.freshName] ∈
        [[['p'], ['a']], [['p'], ['b']], [['p']]] :=
    List.mem_map_of_mem (f := Prod.fst) hEntry
  have hLength := hShort _ hMem
  have hFresh : 1 ≤ laptop.freshName.length := by decide
  rw [List.getLastD_concat, List.length_append,
    List.length_cons] at hLength
  omega

/- Whether a step succeeds. -/
def succeeds {α : Type} :
    EStateM.Result CoreError SyncDevice α → Bool
  | .ok _ _ => true
  | .error _ _ => false

theorem ok_of_succeeds
    {α : Type}
    {result : EStateM.Result CoreError SyncDevice α}
    (h : succeeds result = true) :
    ∃ a d, result = .ok a d := by
  cases result with
  | ok a d => exact ⟨a, d, rfl⟩
  | error e d => cases h

/- The delete of the folder, with the list of its files. -/
theorem deleted_twoInFolder (fileB : StoredFile) :
    deleted laptop 12 (twoInFolder fileB) =
      (do
        let changed ← ofResult (hasLocalChanges laptop
          (twoInFolder fileB) (indexedFolder 12 [['p']])
          [indexedFile 10 [['p'], ['a']],
            indexedFile 11 [['p'], ['b']]])
        if changed then
          let conflicts ← deleteFiles laptop
            [indexedFile 10 [['p'], ['a']],
              indexedFile 11 [['p'], ['b']]]
          modify fun d =>
            d.markFoldersDeleted [['p']] .deletedRemotely
          return conflicts
        else
          moveLocalFileToTrash [['p']] 12
          modify fun d =>
            d.markSubtreeDeleted [['p']] .deletedRemotely
          return 0 : SyncM Nat) (twoInFolder fileB) := by
  rw [← files_twoInFolder fileB]
  rfl

/- The folder is deleted with its two files and restored. -/
theorem synced_folder_returns :
    ∃ n d₁, deleted laptop 12 bothSynced = .ok n d₁ ∧
      ∃ m d₂,
        restored laptop 12 restoreOp
            (d₁.withBucket folderBucket) =
            .ok m d₂ ∧
          RoundTrip bothSynced d₁ d₂ := by
  have hSucceeds :
      succeeds (deleted laptop 12 bothSynced) = true := by
    unfold bothSynced
    rw [deleted_twoInFolder]
    decide +kernel
  have hGoes :
      GoesWhole laptop bothSynced
        (indexedFolder 12 [['p']]) := by
    constructor
    · change hasLocalChanges _ _ _
        ((twoInFolder _).liveFilesUnder [['p']]) = _
      rw [files_twoInFolder]
      rfl
    · intro p _ hThere
      obtain ⟨file, hFile⟩ := Option.isSome_iff_exists.mp hThere
      have hListed :
          ∀ e ∈ bothSynced.disk.entries, e.2 ≠ .folder →
            ∃ r ∈ bothSynced.objects,
              r.isLive = true ∧ r.localPath = e.1 := by decide
      exact hListed _
        (Files.mem_of_nodeAt (fileAt_eq_some_iff.mp hFile))
        (by simp)
  obtain ⟨n, d₁, hRun⟩ := ok_of_succeeds hSucceeds
  exact ⟨n, d₁, hRun,
    (folder_returns_iff laptop bothSynced d₁ folderForest
      (indexedFolder 12 [['p']]) folderBucket restoreOp
      ⟨none, "p"⟩ n shows_bothSynced (by decide) (by decide)
      (by decide) (not_drawn_twoInFolder _) rfl (by decide) rfl
      (comesBack_twoInFolder _) hRun).mpr (.inl hGoes)⟩

/-
  One file of the folder was edited here: the other one is
  removed and does not come back.
-/
theorem unchanged_file_stays_away :
    (∃ forest, Shows oneEdited forest) ∧
      ComesBack folderBucket oneEdited
        (indexedFolder 12 [['p']]) ⟨none, "p"⟩ ∧
      ∃ n d₁, deleted laptop 12 oneEdited = .ok n d₁ ∧
        ¬ ∃ m d₂,
          restored laptop 12 restoreOp
              (d₁.withBucket folderBucket) =
              .ok m d₂ ∧
            RoundTrip oneEdited d₁ d₂ := by
  have hSucceeds :
      succeeds (deleted laptop 12 oneEdited) = true := by
    unfold oneEdited
    rw [deleted_twoInFolder]
    decide +kernel
  have hChanged :
      hasLocalChanges laptop oneEdited
          (indexedFolder 12 [['p']])
          (oneEdited.liveFilesUnder [['p']]) =
        .ok true := by
    unfold oneEdited
    rw [files_twoInFolder]
    rfl
  obtain ⟨n, d₁, hRun⟩ := ok_of_succeeds hSucceeds
  refine ⟨⟨folderForest, shows_oneEdited⟩,
    comesBack_twoInFolder _, n, d₁, hRun, ?_⟩
  rintro ⟨m, d₂, hRestore, hTrip⟩
  rcases goesWhole_or_keepsAll shows_oneEdited
      (f := indexedFolder 12 [['p']]) (by decide) (by decide)
      (by decide) (not_drawn_twoInFolder _) rfl (by decide) rfl
      (comesBack_twoInFolder _) hRun hRestore hTrip with
    hGoes | hKeeps
  · have hUnchanged := hGoes.1
    rw [show (indexedFolder 12 [['p']]).localPath = [['p']] from
      rfl, hChanged] at hUnchanged
    cases hUnchanged
  · have hFile :
        indexedFile 10 [['p'], ['a']] ∈
          oneEdited.liveFilesUnder [['p']] := by
      unfold oneEdited
      rw [files_twoInFolder]
      exact List.mem_cons_self
    have hEdited := hKeeps.2 _ hFile rfl rfl
    revert hEdited
    decide

end RemoteChanges

end S4Drive

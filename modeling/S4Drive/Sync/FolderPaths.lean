import S4Drive.Library.ParentWalk
import S4Drive.Sync.LastPlacements
import S4Drive.Sync.RemovedFolders
import S4Drive.Sync.RestoreData

/-
  The paths of folders whose parents are whatever the server
  says: folders inside themselves, in a round, or in nothing
  that is there. A device follows the parents that it does
  not know up to the top or to a folder of its index, and
  makes them on the way back; a restore joins the names of
  all parents. Both stop, and find a path where the way up
  ends at the top; a device only follows so many folders.

  Main declarations:
    * `FolderRestore.remotePath_some`
    * `FolderRestore.remotePath_none`
    * `FolderNodes.Leads`, `FolderNodes.unknownAbove_iff`
    * `FolderNodes.folderPath_some`
    * `FolderNodes.folderPath_clear`
    * `FolderPaths.folder_paths_exact`
-/

open FileTree ParentWalk

------------------------------------------------------------
-- Joined Names
------------------------------------------------------------

namespace S4Drive

namespace FolderRestore

inductive NoPath where
  | missing
  | notFolder

/- What `remote_path` finds at a parent. -/
def above
    (entries : List FileEntry)
    (id : FileId) : Above FileId Text NoPath :=
  match byId entries id with
  | none => .ends .missing
  | some folder =>
      if folder.entryType ≠ .folder then
        .ends .notFolder
      else
        .parent folder.name.toList folder.parentId

variable {entries : List FileEntry} {entry : FileEntry}
variable {id : FileId} {c : Option FileId} {name : Text}
variable {way : List (FileId × Text)} {w : Option NoPath}
variable {rounds : Nat} {visited : List FileId}

theorem mem_of_byId (h : byId entries id = some entry) :
    entry ∈ entries ∧ entry.fileId = id := by
  unfold byId at h
  have hMem := List.mem_of_find?_eq_some h
  have hId := List.find?_some h
  exact ⟨List.mem_reverse.mp hMem, of_decide_eq_true hId⟩

/- Only a folder of the map has a parent to go to. -/
theorem of_above_parent (h : above entries id = .parent name c) :
    ∃ folder, byId entries id = some folder ∧
      folder.entryType = .folder ∧
      name = folder.name.toList ∧ c = folder.parentId := by
  unfold above at h
  split at h
  · cases h
  · rename_i folder hFolder
    split at h
    · cases h
    · rename_i hType
      cases h
      exact ⟨folder, hFolder, not_not.mp hType, rfl, rfl⟩

/- A way up is not longer than the map is large. -/
theorem climbs_length_le
    (h : Climbs (above entries) c way w) :
    way.length ≤ entries.length := by
  have hSupport :
      ∀ id name c, above entries id = .parent name c →
        id ∈ (entries.map FileEntry.fileId).toFinset := by
    intro id name c hUp
    rcases of_above_parent hUp with ⟨folder, hFolder, _⟩
    have hMem := mem_of_byId hFolder
    rw [List.mem_toFinset, ← hMem.2]
    exact List.mem_map_of_mem hMem.1
  calc
    way.length ≤
        (entries.map FileEntry.fileId).toFinset.card :=
      h.length_le hSupport
    _ ≤ (entries.map FileEntry.fileId).length :=
      List.toFinset_card_le _
    _ = entries.length := List.length_map _

/- The names that a way gives, or that something is missing. -/
def namesOf
    (way : List (FileId × Text)) :
    Option NoPath → Option (Option (List Text))
  | none => some (some (way.reverse.map Prod.snd))
  | some .missing => some none
  | some .notFolder => none

variable {names : Option (List Text)}

/- A way up that meets nothing twice is followed. -/
theorem foldersAbove_of_climbs
    (h : Climbs (above entries) c way w)
    (hRounds : way.length < rounds)
    (hNew : ∀ step ∈ way, step.1 ∉ visited)
    (hVisited : ∀ id ∈ visited, byId entries id ≠ none)
    (hNames : namesOf way w = some names) :
    foldersAbove entries rounds visited c = .ok names := by
  induction h generalizing rounds visited names with
  | top =>
      cases hNames
      cases rounds <;> rfl
  | @ends id w hEnd =>
      obtain ⟨rounds, rfl⟩ :=
        Nat.exists_eq_succ_of_ne_zero (Nat.ne_of_gt hRounds)
      cases w with
      | notFolder => cases hNames
      | missing =>
          cases hNames
          have hNone : byId entries id = none := by
            unfold above at hEnd
            split at hEnd
            · assumption
            · split at hEnd <;> cases hEnd
          have hUnseen : id ∉ visited :=
            fun hMem => hVisited id hMem hNone
          simp only [foldersAbove, if_neg hUnseen, hNone]
  | @onward id name c way w hUp rest ih =>
      obtain ⟨rounds, rfl⟩ :=
        Nat.exists_eq_succ_of_ne_zero
          (Nat.ne_of_gt (Nat.zero_lt_of_lt hRounds))
      rcases of_above_parent hUp with
        ⟨folder, hFolder, hType, rfl, rfl⟩
      have hUnseen : id ∉ visited :=
        hNew (id, _) List.mem_cons_self
      have hAbove : ∀ step ∈ way, step.1 ∉ id :: visited := by
        intro step hStep hMem
        rcases List.mem_cons.mp hMem with hSame | hBefore
        · exact rest.not_through hUp
            (hSame ▸ List.mem_map_of_mem hStep)
        · exact hNew step (List.mem_cons_of_mem _ hStep) hBefore
      have hThere :
          ∀ id' ∈ id :: visited, byId entries id' ≠ none := by
        intro id' hMem
        rcases List.mem_cons.mp hMem with rfl | hBefore
        · simp [hFolder]
        · exact hVisited id' hBefore
      have hMore : way.length < rounds :=
        Nat.lt_of_succ_lt_succ hRounds
      simp only [foldersAbove, if_neg hUnseen, hFolder, hType,
        ne_eq, not_true_eq_false, if_false]
      cases w with
      | none =>
          cases hNames
          rw [ih hMore hAbove hThere rfl]
          simp
      | some stop =>
          cases stop with
          | notFolder => cases hNames
          | missing =>
              cases hNames
              rw [ih hMore hAbove hThere rfl]
              rfl

/- What is answered is a way up. -/
theorem climbs_of_foldersAbove
    (h : foldersAbove entries rounds visited c = .ok names) :
    ∃ way w, Climbs (above entries) c way w ∧
      namesOf way w = some names := by
  induction rounds generalizing visited c names with
  | zero =>
      cases c with
      | none =>
          cases h
          exact ⟨[], none, .top, rfl⟩
      | some id => cases h
  | succ rounds ih =>
      cases c with
      | none =>
          cases h
          exact ⟨[], none, .top, rfl⟩
      | some id =>
          unfold foldersAbove at h
          split at h
          · cases h
          · split at h
            · rename_i hNone
              cases h
              have hEnd :
                  above entries id = .ends .missing := by
                simp [above, hNone]
              exact ⟨[], some .missing, .ends hEnd, rfl⟩
            · rename_i folder hFolder
              split at h
              · cases h
              · rename_i hType
                split at h
                · cases h
                · rename_i names' hNames
                  cases h
                  rcases ih hNames with ⟨way, w, hWay, hOf⟩
                  have hUp :
                      above entries id =
                        .parent folder.name.toList
                          folder.parentId := by
                    simp [above, hFolder, not_not.mp hType]
                  refine ⟨_, w, .onward hUp hWay, ?_⟩
                  cases w with
                  | none =>
                      cases hOf
                      simp [namesOf]
                  | some stop =>
                      cases stop with
                      | notFolder => cases hOf
                      | missing =>
                          cases hOf
                          rfl

/- No way from the parent of an entry leads through it. -/
theorem climbs_not_self
    (hKnown : byId entries entry.fileId = some entry)
    (h : Climbs (above entries) entry.parentId way w) :
    ∀ step ∈ way, step.1 ∉ [entry.fileId] := by
  intro step hStep hMem
  have hSelf := List.mem_singleton.mp hMem
  have hPassed : (step.1, step.2) ∈ way := hStep
  rcases h.parent_of_mem hPassed with ⟨c, hUp⟩
  rcases of_above_parent hUp with
    ⟨folder, hFolder, _, _, hParent⟩
  rw [hSelf, hKnown] at hFolder
  cases hFolder
  rw [hSelf, hParent] at hUp
  exact h.not_through hUp (hSelf ▸ List.mem_map_of_mem hStep)

/- All of what the folders above an entry can be. -/
theorem foldersAbove_iff
    (hKnown : byId entries entry.fileId = some entry) :
    foldersAbove entries (entries.length + 1) [entry.fileId]
        entry.parentId = .ok names ↔
      ∃ way w,
        Climbs (above entries) entry.parentId way w ∧
        namesOf way w = some names := by
  constructor
  · exact climbs_of_foldersAbove
  · rintro ⟨way, w, hWay, hNames⟩
    apply foldersAbove_of_climbs hWay
      (Nat.lt_succ_of_le (climbs_length_le hWay))
      (climbs_not_self hKnown hWay) _ hNames
    intro id hMem
    rw [List.mem_singleton.mp hMem, hKnown]
    exact Option.some_ne_none entry

/- The way to the top, if there is one, is the path. -/
theorem remotePath_some
    {path : Text}
    (hKnown : byId entries entry.fileId = some entry) :
    remotePath entries entry = .ok (some path) ↔
      ∃ way,
        Climbs (above entries) entry.parentId way none ∧
        path =
          ['/'].intercalate
            (way.reverse.map Prod.snd ++
              [entry.name.toList]) := by
  constructor
  · intro h
    unfold remotePath at h
    split at h
    · cases h
    · rename_i names hNames
      cases names with
      | none => cases h
      | some names =>
          rcases (foldersAbove_iff hKnown).mp hNames with
            ⟨way, w, hWay, hOf⟩
          cases w with
          | none =>
              cases hOf
              cases h
              exact ⟨way, hWay, rfl⟩
          | some stop => cases stop <;> cases hOf
  · rintro ⟨way, hWay, rfl⟩
    have hNames :=
      (foldersAbove_iff hKnown).mpr ⟨way, none, hWay, rfl⟩
    unfold remotePath
    rw [hNames]
    rfl

/- No path, and no error, where a parent is missing. -/
theorem remotePath_none
    (hKnown : byId entries entry.fileId = some entry) :
    remotePath entries entry = .ok none ↔
      ∃ way,
        Climbs (above entries) entry.parentId way
          (some .missing) := by
  constructor
  · intro h
    unfold remotePath at h
    split at h
    · cases h
    · rename_i names hNames
      cases names with
      | some names => cases h
      | none =>
          rcases (foldersAbove_iff hKnown).mp hNames with
            ⟨way, w, hWay, hOf⟩
          cases w with
          | none => cases hOf
          | some stop =>
              cases stop with
              | missing => exact ⟨way, hWay⟩
              | notFolder => cases hOf
  · rintro ⟨way, hWay⟩
    have hNames :=
      (foldersAbove_iff hKnown).mpr ⟨way, _, hWay, rfl⟩
    unfold remotePath
    rw [hNames]
    rfl

end FolderRestore

namespace RemoteChanges

open Recovery (Path)

namespace FolderNodes

/- What `folder_path` finds at a folder. -/
def above
    (d : SyncDevice)
    (id : FileId) : Above FileId Placement (Option Path) :=
  if d.bucket.isRemotelyDeleted id then
    .ends none
  else
    match d.folderById id with
    | some folder => .ends (some folder.s3Key)
    | none =>
        match d.bucket.entries id with
        | none => .ends none
        | some entry =>
            if entry.entryType = .folder &&
                entry.deletedAt.isNone then
              .parent (Placement.ofEntry entry) entry.parentId
            else
              .ends none

/- Where a way starts: at the top or in a known folder. -/
def startOf : Option (Option Path) → Option Path
  | none => some []
  | some path => path

/-
  The folders that the device does not know, the outermost
  first, lead from a path down to the folder `id`.
-/
def Leads
    (d : SyncDevice)
    (id : FileId)
    (start : Path)
    (folders : List (FileId × Placement)) : Prop :=
  ∃ w, Climbs (above d) (some id) folders.reverse w ∧
    startOf w = some start

variable {d d' d₁ : SyncDevice} {ctx : SyncContext}
variable {id : FileId} {c : Option FileId} {path start : Path}
variable {unknown folders : List (FileId × Placement)}
variable {rounds : Nat}

/- The unknown folders are what a walk passes. -/
theorem unknownAbove_eq :
    unknownAbove d rounds unknown c =
      (climb (above d) rounds unknown c).bind fun found =>
        (startOf found.2).map fun path => (path, found.1) := by
  induction rounds generalizing unknown c with
  | zero =>
      cases c with
      | none => rfl
      | some id =>
          unfold unknownAbove climb above
          split
          · rfl
          · cases hFolder : d.folderById id with
            | some folder => rfl
            | none =>
                dsimp only
                split
                · rename_i h
                  split at h
                  · cases h
                    rfl
                  · split at h
                    · cases h
                    · cases h
                      rfl
                · rfl
  | succ rounds ih =>
      cases c with
      | none => rfl
      | some id =>
          unfold unknownAbove climb above
          split
          · rfl
          · cases hFolder : d.folderById id with
            | some folder => rfl
            | none =>
                dsimp only
                cases hEntry : d.bucket.entries id with
                | none =>
                    dsimp only
                    split <;> rfl
                | some entry =>
                    dsimp only
                    by_cases hLive :
                        (entry.entryType = .folder &&
                          entry.deletedAt.isNone) = true
                    · rw [if_pos hLive, if_pos hLive]
                      dsimp only
                      split
                      · rfl
                      · exact ih
                    · rw [if_neg hLive, if_neg hLive]
                      dsimp only
                      split <;> rfl

theorem unknownAbove_iff :
    unknownAbove d rounds [] (some id) = some (start, folders) ↔
      Leads d id start folders ∧ folders.length ≤ rounds := by
  rw [unknownAbove_eq]
  constructor
  · intro h
    rcases Option.bind_eq_some_iff.mp h with
      ⟨⟨found, w⟩, hClimb, hStart⟩
    rcases Option.map_eq_some_iff.mp hStart with
      ⟨path, hPath, hPair⟩
    cases hPair
    rcases climb_iff.mp hClimb with ⟨way, hWay, hLength, rfl⟩
    refine ⟨⟨w, ?_, hPath⟩, ?_⟩
    · rw [List.reverse_reverse]
      exact hWay
    · rw [List.length_reverse]
      exact hLength
  · rintro ⟨⟨w, hWay, hPath⟩, hLength⟩
    have hClimb :
        climb (above d) rounds [] (some id) =
          some (folders, w) :=
      climb_iff.mpr ⟨_, hWay,
        by rw [List.length_reverse]; exact hLength,
        (List.reverse_reverse folders).symm⟩
    rw [hClimb]
    simp [hPath]

------------------------------------------------------------
-- Placed Folders
------------------------------------------------------------

/- A name as it was given, or with a number. -/
def Numbered (given name : String) : Prop :=
  name = given ∨ ∃ suffix, name = suffixedName given suffix

variable {folderId : FileId} {given : String}
variable {parent : Path} {current : Option Path}
variable {placement : Placement}

theorem findName_numbered
    {tries suffix : Nat} {name : String}
    (h : findName d folderId given parent current tries suffix =
      .ok name) : Numbered given name := by
  induction tries generalizing suffix with
  | zero =>
      cases h
      exact .inr ⟨folderId, rfl⟩
  | succ tries ih =>
      unfold findName at h
      split at h
      · cases h
      · exact ih h
      · cases h
        exact .inr ⟨suffix, rfl⟩

theorem of_reading_ok
    {α : Type} {a : α}
    {read : SyncDevice → CoreResult α}
    (h : reading read d = .ok a d') :
    read d = .ok a ∧ d' = d := by
  unfold reading at h
  cases hRead : read d with
  | ok b =>
      rw [hRead] at h
      cases h
      exact ⟨rfl, rfl⟩
  | error e =>
      rw [hRead] at h
      cases h

/- The place is in the parent, and no row changes. -/
theorem of_freePlace
    {found : Placement × Path}
    (h : freePlace ctx folderId placement parent current d =
      .ok found d') :
    (∃ name, Numbered placement.name name ∧
      found.2 = joinPath parent name) ∧
      d'.objects = d.objects := by
  unfold freePlace at h
  obtain ⟨taken, d₁, hTaken, hRest⟩ := of_bind_ok h
  obtain ⟨_, rfl⟩ := of_reading_ok hTaken
  dsimp only at hRest
  cases taken with
  | false =>
      cases hRest
      exact ⟨⟨placement.name, .inl rfl, rfl⟩, rfl⟩
  | true =>
      rw [if_pos rfl] at hRest
      obtain ⟨name, d₂, hName, hEnd⟩ := of_bind_ok hRest
      obtain ⟨hFind, rfl⟩ := of_reading_ok hName
      have hNumbered := findName_numbered hFind
      cases hCommit :
          ctx.commitRename folderId
            ⟨placement.parentId, name⟩ with
      | ok _ =>
          rw [hCommit] at hEnd
          cases hEnd
          exact ⟨⟨name, hNumbered, rfl⟩, rfl⟩
      | error e =>
          rw [hCommit] at hEnd
          cases e with
          | conflict message =>
              cases hEnd
              exact ⟨⟨name, hNumbered, rfl⟩, rfl⟩
          | _ => cases hEnd

/- A folder whose id is new leaves other ids unknown. -/
theorem folderById_registerFolder
    {j : FileId} {parentId : Option FileId}
    {localPath s3Key : Path}
    (hOther : j ≠ folderId)
    (h : d.folderById j = none) :
    (d.registerFolder folderId parentId localPath
      s3Key).folderById j = none := by
  unfold SyncDevice.folderById at h ⊢
  unfold SyncDevice.registerFolder SyncDevice.putRow
  rw [List.find?_eq_none] at h ⊢
  intro row hRow hFound
  rw [Bool.and_eq_true, decide_eq_true_eq] at hFound
  rcases List.mem_cons.mp hRow with rfl | hOld
  · exact hOther hFound.1.symm
  · apply h row (List.mem_of_mem_filter hOld)
    rw [Bool.and_eq_true, decide_eq_true_eq]
    exact hFound

theorem of_placeFolder
    (hUnknown : d.folderById folderId = none)
    (h : placeFolder ctx folderId placement parent d =
      .ok path d') :
    (∃ name, Numbered placement.name name ∧
      path = joinPath parent name) ∧
      ∀ j, j ≠ folderId → d.folderById j = none →
        d'.folderById j = none := by
  unfold placeFolder at h
  rw [get_bind, hUnknown] at h
  dsimp only at h
  unfold placeElsewhere at h
  obtain ⟨⟨place, found⟩, d₁, hPlace, hRest⟩ := of_bind_ok h
  obtain ⟨hName, hRows⟩ := of_freePlace hPlace
  dsimp only at hRest
  obtain ⟨target, d₂, hTarget, hMore⟩ := of_bind_ok hRest
  obtain ⟨_, rfl⟩ := of_ofResult_ok hTarget
  obtain ⟨_, d₃, hMake, hEnd⟩ := of_bind_ok hMore
  obtain ⟨disk, _, rfl⟩ := of_onDisk_ok hMake
  obtain ⟨_, d₄, hRegister, hDone⟩ := of_bind_ok hEnd
  unfold register at hRegister
  obtain ⟨localPath, d₅, hLocal, hRow⟩ := of_bind_ok hRegister
  obtain ⟨_, rfl⟩ := of_ofResult_ok hLocal
  cases hRow
  cases hDone
  refine ⟨hName, fun j hOther hNone => ?_⟩
  apply folderById_registerFolder hOther
  unfold SyncDevice.folderById at hNone ⊢
  rw [← hNone]
  exact congrArg _ hRows

/- The names that the folders get, and the path below. -/
theorem of_placeUnknown
    (hUnknown : ∀ f ∈ folders, d.folderById f.1 = none)
    (hDistinct : (folders.map Prod.fst).Nodup)
    (h : placeUnknown ctx start folders d = .ok path d') :
    ∃ names,
      List.Forall₂
        (fun f name => Numbered f.2.name name) folders names ∧
      path = names.foldl joinPath start := by
  induction folders generalizing d start with
  | nil =>
      cases h
      exact ⟨[], .nil, rfl⟩
  | cons f folders ih =>
      unfold placeUnknown at h
      obtain ⟨next, d₁, hPlace, h⟩ := of_bind_ok h
      obtain ⟨⟨name, hName, rfl⟩, hOthers⟩ :=
        of_placeFolder (hUnknown f List.mem_cons_self) hPlace
      rw [List.map_cons, List.nodup_cons] at hDistinct
      have hRest :
          ∀ g ∈ folders, d₁.folderById g.1 = none := by
        intro g hMem
        apply hOthers g.1 _
          (hUnknown g (List.mem_cons_of_mem f hMem))
        exact fun hSame => hDistinct.1
          (hSame ▸ List.mem_map_of_mem hMem)
      rcases ih hRest hDistinct.2 h with ⟨names, hNames, rfl⟩
      exact ⟨name :: names, .cons hName hNames, rfl⟩

/- What is led through is not known, and met once. -/
theorem Leads.not_known
    (h : Leads d id start folders) :
    (∀ f ∈ folders, d.folderById f.1 = none) ∧
      (folders.map Prod.fst).Nodup := by
  rcases h with ⟨w, hWay, _⟩
  constructor
  · intro f hMem
    have hPassed : (f.1, f.2) ∈ folders.reverse :=
      List.mem_reverse.mpr hMem
    rcases hWay.parent_of_mem hPassed with ⟨c, hUp⟩
    unfold above at hUp
    split at hUp
    · cases hUp
    · split at hUp
      · cases hUp
      · assumption
  · have hDistinct := hWay.nodup
    rw [List.map_reverse, List.nodup_reverse] at hDistinct
    exact hDistinct

/- A path is found only below what leads to the folder. -/
theorem folderPath_some
    (h : folderPath ctx id d = .ok (some path) d') :
    ∃ start folders names,
      Leads d id start folders ∧
      folders.length ≤ maxFolderDepth ∧
      List.Forall₂
        (fun f name => Numbered f.2.name name) folders names ∧
      path = names.foldl joinPath start := by
  unfold folderPath at h
  rw [get_bind] at h
  cases hFound :
      unknownAbove d maxFolderDepth [] (some id) with
  | none =>
      rw [hFound] at h
      cases h
  | some found =>
      obtain ⟨start, folders⟩ := found
      rw [hFound] at h
      obtain ⟨hLeads, hLength⟩ := unknownAbove_iff.mp hFound
      obtain ⟨path', d₁, hPlace, hEnd⟩ := of_bind_ok h
      cases hEnd
      rcases of_placeUnknown hLeads.not_known.1
          hLeads.not_known.2 hPlace with ⟨names, hNames, hPath⟩
      exact ⟨start, folders, names, hLeads, hLength, hNames,
        hPath⟩

/- There is no path, and no change, exactly without a way. -/
theorem folderPath_none :
    folderPath ctx id d = .ok none d' ↔
      d' = d ∧
        ∀ start folders, Leads d id start folders →
          maxFolderDepth < folders.length := by
  unfold folderPath
  rw [get_bind]
  cases hFound :
      unknownAbove d maxFolderDepth [] (some id) with
  | none =>
      constructor
      · intro h
        cases h
        refine ⟨rfl, fun start folders hLeads => ?_⟩
        by_contra hShort
        have hThere := unknownAbove_iff.mpr
          ⟨hLeads, Nat.le_of_not_lt hShort⟩
        rw [hFound] at hThere
        cases hThere
      · rintro ⟨rfl, _⟩
        rfl
  | some found =>
      obtain ⟨start, folders⟩ := found
      obtain ⟨hLeads, hLength⟩ := unknownAbove_iff.mp hFound
      constructor
      · intro h
        obtain ⟨path', d₁, _, hEnd⟩ := of_bind_ok h
        cases hEnd
      · rintro ⟨_, hLong⟩
        exact absurd hLength
          (Nat.not_le_of_lt (hLong start folders hLeads))

------------------------------------------------------------
-- Clear Ways
------------------------------------------------------------

/-
  Nothing has the path of a folder to be made: no live row,
  and nothing on the disk but a folder. Names are plain.
-/
structure ClearWay
    (d : SyncDevice)
    (start : Path)
    (names : List String) : Prop where
  plain : ∀ name ∈ names, plainName name = true
  normal : ∀ part ∈ start, normalPart part = true
  folders :
    ∀ q, q ≠ [] → q <+: start ++ names.map String.toList →
      d.disk.nodeAt q = none ∨ d.disk.nodeAt q = some .folder
  free :
    ∀ p, p ≠ [] → p <+: names.map String.toList →
      d.liveEntryAt (start ++ p) = none

namespace ClearWay

variable {name : String} {names : List String}

theorem first_normal
    (h : ClearWay d start (name :: names)) :
    ∀ part ∈ start ++ [name.toList],
      normalPart part = true := by
  intro part hPart
  rcases List.mem_append.mp hPart with hStart | hName
  · exact h.normal part hStart
  · rw [List.mem_singleton.mp hName]
    exact (Bool.and_eq_true_iff.mp
      (h.plain name List.mem_cons_self)).2

theorem first_start (start : Path) :
    start ++ [name.toList] <+:
      start ++ (name :: names).map String.toList :=
  ⟨names.map String.toList, by simp⟩

theorem isTaken_first
    (h : ClearWay d start (name :: names)) :
    isTaken d folderId (start ++ [name.toList]) none =
      .ok false := by
  have hRow : d.liveEntryAt (start ++ [name.toList]) = none :=
    h.free [name.toList] (List.cons_ne_nil _ _)
      ⟨names.map String.toList, rfl⟩
  have hPath : start ++ [name.toList] ≠ [] := by simp
  have hNode := h.folders _ hPath (first_start start)
  unfold isTaken
  rw [hRow, safeJoinSyncPath_normal h.first_normal]
  simp only [Option.any_none, Bool.false_eq_true, if_false]
  rcases hNode with hNone | hFolder
  · rw [existsAt_of_none hPath hNone, if_neg Bool.false_ne_true]
  · have hDir :
        d.isDirAt (start ++ [name.toList]) = true := by
      unfold SyncDevice.isDirAt
      simp [hFolder]
    rw [existsAt_of_folder hFolder, if_pos rfl, hDir]
    rfl

/- What a placed folder leaves for those inside. -/
theorem rest
    {disk : LocalDisk} {parentId : Option FileId}
    (h : ClearWay d start (name :: names))
    (hMade :
      d.disk.createDirAll (start ++ [name.toList]) =
        some disk) :
    ClearWay
      (({ d with disk := disk } : SyncDevice).registerFolder
        folderId parentId (start ++ [name.toList])
        (start ++ [name.toList]))
      (start ++ [name.toList]) names := by
  refine ⟨?_, h.first_normal, ?_, ?_⟩
  · exact fun other hMem =>
      h.plain other (List.mem_cons_of_mem name hMem)
  · intro q hPath hIn
    have hBefore := h.folders q hPath (by simpa using hIn)
    change disk.nodeAt q = none ∨ disk.nodeAt q = some .folder
    rw [Files.nodeAt_createDirAll hMade]
    split
    · exact .inr rfl
    · exact hBefore
  · intro p hPath hIn
    have hFree :=
      h.free (name.toList :: p) (List.cons_ne_nil _ _)
        (List.cons_prefix_cons.mpr ⟨rfl, hIn⟩)
    have hLonger :
        start ++ [name.toList] ≠
          start ++ [name.toList] ++ p := by
      intro hSame
      exact hPath (List.self_eq_append_right.mp hSame)
    unfold SyncDevice.liveEntryAt at hFree ⊢
    rw [Option.map_eq_none_iff, List.find?_eq_none] at hFree ⊢
    intro row hRow hFound
    rcases List.mem_cons.mp hRow with rfl | hOld
    · rw [Bool.and_eq_true, decide_eq_true_eq] at hFound
      exact hLonger hFound.1
    · apply hFree row (List.mem_of_mem_filter hOld)
      simpa using hFound

end ClearWay

theorem register_ok
    (h : safeJoinSyncPath path = .ok path) :
    register folderId placement path d =
      .ok ()
        (d.registerFolder folderId placement.parentId path
          path) := by
  unfold register
  rw [bind_ok (ofResult_ok h)]
  rfl

theorem placeFolder_new
    {names : List String}
    (hUnknown : d.folderById folderId = none)
    (h : ClearWay d start (placement.name :: names)) :
    ∃ disk,
      d.disk.createDirAll (start ++ [placement.name.toList]) =
        some disk ∧
      placeFolder ctx folderId placement start d =
        .ok (start ++ [placement.name.toList])
          (({ d with disk := disk } : SyncDevice).registerFolder
            folderId placement.parentId
            (start ++ [placement.name.toList])
            (start ++ [placement.name.toList])) := by
  have hWay :
      ∀ q, q ≠ [] → q <+: start ++ [placement.name.toList] →
        d.disk.nodeAt q = none ∨
          d.disk.nodeAt q = some .folder :=
    fun q hPath hIn => h.folders q hPath
      (hIn.trans (ClearWay.first_start start))
  rcases Files.createDirAll_isSome hWay with ⟨disk, hMade⟩
  have hSafe := safeJoinSyncPath_normal h.first_normal
  have hPlace :
      freePlace ctx folderId placement start none d =
        .ok (placement, start ++ [placement.name.toList]) d := by
    unfold freePlace
    dsimp only
    rw [joinPath_plain
        (h.plain placement.name List.mem_cons_self),
      bind_ok (reading_ok h.isTaken_first)]
    rfl
  refine ⟨disk, hMade, ?_⟩
  unfold placeFolder
  rw [get_bind, hUnknown]
  dsimp only
  unfold placeElsewhere
  rw [Option.map_none, bind_ok hPlace]
  dsimp only
  rw [bind_ok (ofResult_ok hSafe), bind_ok (onDisk_ok hMade),
    bind_ok (register_ok hSafe)]
  rfl

theorem placeUnknown_clear
    (hUnknown : ∀ f ∈ folders, d.folderById f.1 = none)
    (hDistinct : (folders.map Prod.fst).Nodup)
    (h : ClearWay d start (folders.map fun f => f.2.name)) :
    ∃ d',
      placeUnknown ctx start folders d =
        .ok (start ++ folders.map fun f => f.2.name.toList)
          d' := by
  induction folders generalizing d start with
  | nil => exact ⟨d, by simp [placeUnknown]; rfl⟩
  | cons f folders ih =>
      rw [List.map_cons, List.nodup_cons] at hDistinct
      rcases placeFolder_new (hUnknown f List.mem_cons_self) h
        with ⟨disk, hMade, hPlace⟩
      have hRest :
          ∀ g ∈ folders,
            (({ d with disk := disk } :
                SyncDevice).registerFolder f.1 f.2.parentId
                (start ++ [f.2.name.toList])
                (start ++ [f.2.name.toList])).folderById g.1 =
              none := by
        intro g hMem
        apply folderById_registerFolder
        · exact fun hSame => hDistinct.1
            (hSame ▸ List.mem_map_of_mem hMem)
        · exact hUnknown g (List.mem_cons_of_mem f hMem)
      rcases ih hRest hDistinct.2 (h.rest hMade) with ⟨d', hRun⟩
      refine ⟨d', ?_⟩
      unfold placeUnknown
      rw [bind_ok hPlace, hRun, List.append_assoc]
      rfl

/- Where nothing is in the way, the names make the path. -/
theorem folderPath_clear
    (hLeads : Leads d id start folders)
    (hLength : folders.length ≤ maxFolderDepth)
    (h : ClearWay d start (folders.map fun f => f.2.name)) :
    ∃ d',
      folderPath ctx id d =
        .ok (some
          (start ++ folders.map fun f => f.2.name.toList))
          d' := by
  rcases placeUnknown_clear hLeads.not_known.1
      hLeads.not_known.2 h with ⟨d', hRun⟩
  refine ⟨d', ?_⟩
  unfold folderPath
  rw [get_bind, unknownAbove_iff.mpr ⟨hLeads, hLength⟩]
  dsimp only
  rw [bind_ok hRun]
  rfl

end FolderNodes

end RemoteChanges

namespace FolderPaths

open RemoteChanges RemoteChanges.FolderNodes
open Recovery (Path)

/- The folder `a` at the top, and `b` in it. -/
def twoFolders : List FileEntry :=
  [folderEntry 1 ⟨none, "a"⟩ 0, folderEntry 2 ⟨some 1, "b"⟩ 0]

/- A device with these rows, and nothing on its disk. -/
def deviceOf
    (rows : List RemoteChanges.ObjectRow)
    (entries : FileId → Option FileEntry) : SyncDevice where
  disk := Files.empty
  objects := rows
  transfers := []
  conflicts := []
  bucket := ⟨entries, fun _ => false, fun _ => none⟩

/- Folders in folders: `0` at the top, and `id` in `id - 1`. -/
def nested (id : FileId) : FileEntry :=
  folderEntry id ⟨if id = 0 then none else some (id - 1), "a"⟩ 0

def liveFolderRow
    (id : FileId)
    (path : Path) : RemoteChanges.ObjectRow where
  fileId := id
  localPath := path
  s3Key := path
  size := 0
  state := .synced
  isFolder := true
  parentId := none
  currentRevisionId := none
  localHash := none
  localMtime := none

theorem nested_climbs (id : FileId) :
    ∃ way,
      Climbs (above (deviceOf [] fun id => some (nested id)))
        (some id) way none ∧
      way.length = id + 1 := by
  induction id with
  | zero => exact ⟨_, .onward rfl .top, rfl⟩
  | succ id ih =>
      rcases ih with ⟨way, hWay, hLength⟩
      exact ⟨_, .onward rfl hWay, by simp [hLength]⟩

end FolderPaths

end S4Drive

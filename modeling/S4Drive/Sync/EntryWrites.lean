import S4Drive.Conflicts.Resolve
import S4Drive.Sync.LocalChanges

/-
  What a device's write of a tree entry keeps of the entry
  that the bucket has. An upload builds its entry anew; a new
  place is put into the entry that was read, or into the
  indexed one when the read returned none.

  Main declarations:
    * `TreeEntry`, `RemoteTree`, `TreeRead`
    * `uploadEntry`, `uploadEntry_changes_only_content_iff`
    * `placeEntry`, `placeEntry_changes_only_placement_iff`
-/

------------------------------------------------------------
-- Tree Entries
------------------------------------------------------------

namespace S4Drive

namespace TreeWrites

structure FileAttributes where
  favorite : Bool
  shared : Bool
  tags : List String
deriving DecidableEq

inductive LockMode where
  | soft
  | hard
  | read
  | write
deriving DecidableEq

structure LockState where
  locked : Bool
  ownerDeviceId : Option DeviceId
  mode : Option LockMode
  expiresAt : Option Timestamp
deriving DecidableEq

instance : Inhabited FileAttributes :=
  ⟨⟨false, false, []⟩⟩

instance : Inhabited LockState :=
  ⟨⟨false, none, none, none⟩⟩

/- A `FileEntry` with every field that the bucket stores. -/
structure TreeEntry extends FileEntry where
  normalizedName : String
  createdAt : Timestamp
  attributes : FileAttributes
  lockState : LockState
deriving DecidableEq

/- Each entry is stored under its own id. -/
structure RemoteTree where
  entries : FileId → Option TreeEntry
  own :
    ∀ id entry, entries id = some entry → entry.fileId = id

namespace RemoteTree

def put (tree : RemoteTree) (entry : TreeEntry) :
    RemoteTree where
  entries := Function.update tree.entries entry.fileId
    (some entry)
  own := by
    intro id stored h
    by_cases hId : id = entry.fileId
    · subst hId
      rw [Function.update_self] at h
      cases h
      rfl
    · rw [Function.update_of_ne hId] at h
      exact tree.own id stored h

def single (entry : TreeEntry) : RemoteTree where
  entries := fun id =>
    if entry.fileId = id then some entry else none
  own := by
    intro id stored h
    by_cases hId : entry.fileId = id
    · rw [if_pos hId] at h
      cases h
      exact hId
    · rw [if_neg hId] at h
      contradiction

end RemoteTree

/- What `get_entry` answers. -/
inductive TreeRead where
  | found (remote : TreeEntry)
  | notFound
  | failed
deriving DecidableEq

namespace TreeRead

def entryOr (read : TreeRead) (entry : TreeEntry) : TreeEntry :=
  match read with
  | .found remote => remote
  | _ => entry

/- What an upload makes of the answer. -/
def lookup
    (latest : Option Operation) : TreeRead → RemoteLookup
  | .found remote =>
      .entry (withLatestRevision remote.toFileEntry latest)
  | .notFound => .missing
  | .failed => .failed

end TreeRead

namespace RemoteTree

/- A read of the tree, which may fail on its way. -/
def getEntry
    (tree : RemoteTree)
    (fileId : FileId)
    (fails : Bool) : TreeRead :=
  if fails then
    .failed
  else
    match tree.entries fileId with
    | some remote => .found remote
    | none => .notFound

/- The write is refused here or in the store, or it lands. -/
def upsertEntry
    (tree : RemoteTree)
    (entry : TreeEntry)
    (stores : Bool) : RemoteTree :=
  match Validator.validateFileEntry entry.toFileEntry with
  | .error _ => tree
  | .ok _ => if stores then tree.put entry else tree

end RemoteTree

------------------------------------------------------------
-- Uploads
------------------------------------------------------------

/- `toLowercase` is Unicode's lower case of a text. -/
variable (toLowercase : String → String)

def normalizeName (name : String) : String :=
  String.ofList (Conflicts.trimMatches isWhitespace name.toList)

/- The revision that an upload builds on. -/
def baseRevision
    (job : UploadJob)
    (lookup : RemoteLookup) : Option RevisionId :=
  match lookup with
  | .entry remote => uploadParentRevision job remote
  | _ => job.indexedRevision

/- The entry that an upload writes, with all its fields. -/
def rebuiltEntry
    (job : UploadJob)
    (latest : Option Operation)
    (read : TreeRead)
    (parent : Option RevisionId)
    (revisionId : RevisionId)
    (createdAt updatedAt : Timestamp) : TreeEntry :=
  { uploadedEntry job (read.lookup latest) parent revisionId
      updatedAt with
    normalizedName :=
      match read with
      | .found remote => remote.normalizedName
      | _ => toLowercase (normalizeName job.placement.name)
    createdAt := createdAt
    attributes := default
    lockState := default }

def uploadEntry
    (job : UploadJob)
    (latest : Option Operation)
    (read : TreeRead)
    (revisionId : RevisionId)
    (createdAt updatedAt : Timestamp) :
    Except UploadResult TreeEntry :=
  match prepareUpload job (read.lookup latest) with
  | .error result => .error result
  | .ok parent =>
      .ok (rebuiltEntry toLowercase job latest read parent
        revisionId createdAt updatedAt)

/- Only the content is another one, by a new revision. -/
def ContentOnly
    (before after : TreeEntry)
    (revisionId : RevisionId) : Prop :=
  after =
    { before with
      currentRevisionId := some revisionId
      contentRef := after.contentRef
      contentHash := after.contentHash
      size := after.size
      updatedAt := after.updatedAt
      versionHistory := before.versionHistory ++ [revisionId] }

/-
  The entry has nothing to lose: each field that the upload
  does not take from it has the value that the upload gives.
-/
@[mk_iff]
structure NothingToKeep
    (job : UploadJob)
    (latest : Option Operation)
    (before : TreeEntry)
    (fails : Bool)
    (createdAt : Timestamp) : Prop where
  entryType : before.entryType = .file
  mime : before.mime = none
  createdAt : before.createdAt = createdAt
  deletedAt : before.deletedAt = none
  attributes : before.attributes = default
  lockState : before.lockState = default
  versionHistory :
    before.versionHistory =
      (if fails then
        job.indexedRevision
      else
        uploadParentRevision job
          (withLatestRevision before.toFileEntry
            latest)).toList
  placement :
    fails = true →
      Placement.ofEntry before.toFileEntry = job.placement ∧
        before.normalizedName =
          toLowercase (normalizeName job.placement.name)

theorem prepareUpload_base
    {job : UploadJob} {lookup : RemoteLookup}
    {parent : Option RevisionId}
    (h : prepareUpload job lookup = .ok parent) :
    parent = baseRevision job lookup := by
  cases lookup with
  | entry remote =>
      simp only [prepareUpload] at h
      split at h
      · contradiction
      · exact (Except.ok.inj h).symm
  | missing =>
      simp only [prepareUpload] at h
      split at h
      · contradiction
      · exact (Except.ok.inj h).symm
  | failed => exact (Except.ok.inj h).symm

theorem uploadEntry_ok
    {job : UploadJob} {latest : Option Operation}
    {read : TreeRead} {revisionId : RevisionId}
    {createdAt updatedAt : Timestamp} {after : TreeEntry}
    (h :
      uploadEntry toLowercase job latest read revisionId
        createdAt updatedAt = .ok after) :
    after =
      rebuiltEntry toLowercase job latest read
        (baseRevision job (read.lookup latest)) revisionId
        createdAt updatedAt := by
  unfold uploadEntry at h
  cases hParent : prepareUpload job (read.lookup latest) with
  | error result =>
      rw [hParent] at h
      contradiction
  | ok parent =>
      rw [hParent] at h
      rw [← prepareUpload_base hParent]
      exact (Except.ok.inj h).symm

theorem withLatestRevision_placement
    (entry : FileEntry)
    (latest : Option Operation) :
    Placement.ofEntry (withLatestRevision entry latest) =
      Placement.ofEntry entry := by
  unfold withLatestRevision
  split
  · rfl
  · split <;> rfl

theorem contentOnly_iff
    {before after : TreeEntry} {revisionId : RevisionId} :
    ContentOnly before after revisionId ↔
      before.fileId = after.fileId ∧
      Placement.ofEntry before.toFileEntry =
        Placement.ofEntry after.toFileEntry ∧
      before.normalizedName = after.normalizedName ∧
      before.entryType = after.entryType ∧
      after.currentRevisionId = some revisionId ∧
      before.versionHistory ++ [revisionId] =
        after.versionHistory ∧
      before.mime = after.mime ∧
      before.createdAt = after.createdAt ∧
      before.deletedAt = after.deletedAt ∧
      before.attributes = after.attributes ∧
      before.lockState = after.lockState := by
  obtain ⟨⟨⟩⟩ := before
  obtain ⟨⟨⟩⟩ := after
  simp only [ContentOnly, Placement.ofEntry, Placement.mk.injEq,
    TreeEntry.mk.injEq, FileEntry.mk.injEq, true_and]
  tauto

/-
  An upload of a new revision keeps every other field of the
  entry exactly when there was nothing in them to keep.
-/
theorem uploadEntry_changes_only_content_iff
    {tree : RemoteTree} {job : UploadJob}
    {latest : Option Operation} {fails : Bool}
    {revisionId : RevisionId}
    {createdAt updatedAt : Timestamp}
    {before after : TreeEntry}
    (hBefore : tree.entries job.fileId = some before)
    (h :
      uploadEntry toLowercase job latest
        (tree.getEntry job.fileId fails) revisionId createdAt
        updatedAt = .ok after) :
    ContentOnly before after revisionId ↔
      NothingToKeep toLowercase job latest before fails
        createdAt := by
  have hId : before.fileId = job.fileId :=
    tree.own job.fileId before hBefore
  have hAfter := uploadEntry_ok toLowercase h
  subst hAfter
  rw [contentOnly_iff, nothingToKeep_iff]
  cases fails with
  | true =>
      -- A failed read: the place comes from this device.
      have hRead :
          tree.getEntry job.fileId true = .failed := rfl
      rw [hRead]
      simp only [rebuiltEntry, uploadedEntry, baseRevision,
        TreeRead.lookup, List.append_cancel_right_eq, if_true]
      tauto
  | false =>
      have hRead :
          tree.getEntry job.fileId false = .found before := by
        unfold RemoteTree.getEntry
        rw [hBefore]
        rfl
      rw [hRead]
      have hPlace :=
        withLatestRevision_placement before.toFileEntry latest
      simp only [rebuiltEntry, uploadedEntry, baseRevision,
        TreeRead.lookup, List.append_cancel_right_eq,
        Bool.false_eq_true, if_false, Placement.ofEntry,
        true_and]
      -- The place is the one of `hPlace`.
      tauto

/- A starred file with two revisions, uploaded once more. -/
def sampleContent : ContentRef :=
  ⟨7, "c2", 5, "text/plain", "blobs/c2"⟩

def starredEntry : TreeEntry where
  fileId := 1
  parentId := some 9
  name := "Plan.md"
  entryType := .file
  currentRevisionId := some 3
  contentRef := some ⟨6, "c1", 4, "text/plain", "blobs/c1"⟩
  size := 4
  contentHash := some "blake3:c1"
  mime := some "text/plain"
  updatedAt := 20
  deletedAt := none
  versionHistory := [2, 3]
  normalizedName := "plan.md"
  createdAt := 10
  attributes := ⟨true, false, ["keep"]⟩
  lockState := default

def sampleUpload : UploadJob where
  fileId := 1
  placement := ⟨some 9, "Plan.md"⟩
  contentRef := sampleContent
  expectedContentHash := none
  indexedRevision := some 3
  ownRevision := fun _ => none

/- The star, the tag and the first revision are gone. -/
theorem upload_drops_attributes :
    ∃ after,
      uploadEntry String.toLower sampleUpload none
          ((RemoteTree.single starredEntry).getEntry 1 false) 4
          30 30 = .ok after ∧
        ¬ ContentOnly starredEntry after 4 ∧
        after.attributes = default ∧
        after.versionHistory = [3, 4] := by
  refine ⟨_, rfl, ?_, rfl, rfl⟩
  rw [contentOnly_iff]
  decide

/- An entry as an upload leaves it, uploaded again. -/
def plainEntry : TreeEntry :=
  { starredEntry with
    mime := none
    versionHistory := [3]
    createdAt := 30
    attributes := default }

theorem plain_upload_keeps :
    ContentOnly plainEntry
      (rebuiltEntry String.toLower sampleUpload none
        (.found plainEntry) (some 3) 4 30 30) 4 := by
  have hStored :
      (RemoteTree.single plainEntry).entries 1 =
        some plainEntry := rfl
  have hUpload :
      uploadEntry String.toLower sampleUpload none
          ((RemoteTree.single plainEntry).getEntry 1 false) 4
          30 30 =
        .ok (rebuiltEntry String.toLower sampleUpload none
          (.found plainEntry) (some 3) 4 30 30) := rfl
  apply (uploadEntry_changes_only_content_iff String.toLower
    hStored hUpload).mpr
  exact ⟨rfl, rfl, rfl, rfl, rfl, rfl, rfl,
    fun h => Bool.noConfusion h⟩

------------------------------------------------------------
-- New Places
------------------------------------------------------------

def applyPlacement
    (placement : Placement)
    (entry : TreeEntry) : TreeEntry :=
  { placement.applyTo entry.toFileEntry with
    normalizedName := toLowercase (normalizeName placement.name)
    createdAt := entry.createdAt
    attributes := entry.attributes
    lockState := entry.lockState }

/- The entry at its new place, from what the read returned. -/
def placedEntry
    (entry : TreeEntry)
    (read : TreeRead)
    (placement : Placement)
    (updatedAt : Timestamp) : TreeEntry :=
  { applyPlacement toLowercase placement (read.entryOr entry)
      with updatedAt := updatedAt }

/-
  What the commit of a new place does to the tree. The read
  meets one tree and the write another: devices write between
  them.
-/
def placeEntry
    (entry : TreeEntry)
    (placement : Placement)
    (atRead : RemoteTree)
    (fails : Bool)
    (updatedAt : Timestamp)
    (tree : RemoteTree)
    (stores : Bool) : RemoteTree :=
  tree.upsertEntry
    (placedEntry toLowercase entry
      (atRead.getEntry entry.fileId fails) placement updatedAt)
    stores

/- Nothing is written, or a new place and nothing else. -/
def PlacementOnly
    (placement : Placement)
    (updatedAt : Timestamp)
    (before after : Option TreeEntry) : Prop :=
  after = before ∨
    ∃ stored, before = some stored ∧
      after = some
        { applyPlacement toLowercase placement stored with
          updatedAt := updatedAt }

/- The same in all but the place and `updated_at`. -/
def SameBesidesPlace (left right : TreeEntry) : Prop :=
  left =
    { right with
      parentId := left.parentId
      name := left.name
      normalizedName := left.normalizedName
      updatedAt := left.updatedAt }

theorem sameBesidesPlace_iff
    {left right : TreeEntry} {placement : Placement}
    {updatedAt : Timestamp} :
    SameBesidesPlace left right ↔
      ({ applyPlacement toLowercase placement left with
          updatedAt := updatedAt } : TreeEntry) =
        { applyPlacement toLowercase placement right with
          updatedAt := updatedAt } := by
  obtain ⟨⟨⟩⟩ := left
  obtain ⟨⟨⟩⟩ := right
  simp only [SameBesidesPlace, applyPlacement, Placement.applyTo,
    TreeEntry.mk.injEq, FileEntry.mk.injEq, true_and]

theorem same_of_placed
    {base stored : TreeEntry} {placement : Placement}
    {updatedAt : Timestamp}
    (h :
      ({ applyPlacement toLowercase placement base with
          updatedAt := updatedAt } : TreeEntry) = stored) :
    SameBesidesPlace base stored := by
  subst h
  rfl

theorem validateFileEntry_congr
    {left right : FileEntry}
    (hId : left.fileId = right.fileId)
    (hName : left.name = right.name) :
    Validator.validateFileEntry left =
      Validator.validateFileEntry right := by
  unfold Validator.validateFileEntry
  rw [hId, hName]

theorem getEntry_fileId
    (tree : RemoteTree)
    (entry : TreeEntry)
    (fails : Bool) :
    ((tree.getEntry entry.fileId fails).entryOr entry).fileId =
      entry.fileId := by
  unfold RemoteTree.getEntry
  by_cases hFails : fails = true
  · rw [if_pos hFails]
    rfl
  · rw [if_neg hFails]
    cases hStored : tree.entries entry.fileId with
    | none => rfl
    | some stored => exact tree.own entry.fileId stored hStored

theorem upsertEntry_entries
    {tree : RemoteTree} {entry : TreeEntry} {stores : Bool} :
    (tree.upsertEntry entry stores).entries entry.fileId =
      if stores = true ∧
          Validator.validateFileEntry entry.toFileEntry =
            .ok () then
        some entry
      else
        tree.entries entry.fileId := by
  unfold RemoteTree.upsertEntry
  cases hValid :
      Validator.validateFileEntry entry.toFileEntry with
  | error e => simp
  | ok done =>
      cases stores with
      | false => simp
      | true => simp [RemoteTree.put]

/-
  The commit of a new place changes nothing else exactly when
  its write does not land, or when the entry that it starts
  from is the stored one in all but the place.
-/
theorem placeEntry_changes_only_placement_iff
    {entry : TreeEntry} {placement : Placement}
    {atRead tree : RemoteTree} {fails stores : Bool}
    {updatedAt : Timestamp} :
    PlacementOnly toLowercase placement updatedAt
        (tree.entries entry.fileId)
        ((placeEntry toLowercase entry placement atRead fails
          updatedAt tree stores).entries entry.fileId) ↔
      (stores = true →
        Validator.validateFileEntry
            (placement.applyTo entry.toFileEntry) = .ok () →
          ∃ stored, tree.entries entry.fileId = some stored ∧
            SameBesidesPlace
              ((atRead.getEntry entry.fileId fails).entryOr
                entry) stored) := by
  have hBase := getEntry_fileId atRead entry fails
  generalize hRead : atRead.getEntry entry.fileId fails = read
  rw [hRead] at hBase
  have hWritten :
      (placedEntry toLowercase entry read placement
        updatedAt).fileId = entry.fileId := hBase
  have hValid :
      Validator.validateFileEntry
          (placedEntry toLowercase entry read placement
            updatedAt).toFileEntry =
        Validator.validateFileEntry
          (placement.applyTo entry.toFileEntry) :=
    validateFileEntry_congr hBase rfl
  have hAfter :
      (placeEntry toLowercase entry placement atRead fails
          updatedAt tree stores).entries entry.fileId =
        if stores = true ∧
            Validator.validateFileEntry
              (placement.applyTo entry.toFileEntry) =
                .ok () then
          some (placedEntry toLowercase entry read placement
            updatedAt)
        else
          tree.entries entry.fileId := by
    unfold placeEntry
    rw [hRead, ← hValid, ← hWritten]
    exact upsertEntry_entries
  rw [hAfter]
  by_cases hLands :
      stores = true ∧
        Validator.validateFileEntry
          (placement.applyTo entry.toFileEntry) = .ok ()
  · rw [if_pos hLands]
    constructor
    · rintro (hSame | ⟨stored, hStored, hNew⟩) _ _
      · exact ⟨_, hSame.symm, same_of_placed toLowercase rfl⟩
      · refine ⟨stored, hStored, ?_⟩
        exact (sameBesidesPlace_iff toLowercase).mpr
          (Option.some.inj hNew)
    · intro h
      obtain ⟨stored, hStored, hSame⟩ := h hLands.1 hLands.2
      refine Or.inr ⟨stored, hStored, congrArg some ?_⟩
      exact (sameBesidesPlace_iff toLowercase).mp hSame
  · rw [if_neg hLands]
    constructor
    · intro _ hStores hOk
      exact absurd ⟨hStores, hOk⟩ hLands
    · intro _
      exact Or.inl rfl

/- The device has seen revision 3; another one has made 5. -/
def newerEntry : TreeEntry :=
  { starredEntry with
    currentRevisionId := some 5
    contentRef := some sampleContent
    size := 5
    contentHash := some "blake3:c2"
    versionHistory := [2, 3, 5] }

/- The read fails, and the rename writes revision 3 back. -/
theorem placement_restores_old_revision :
    (placeEntry String.toLower starredEntry
        ⟨some 9, "Old plan.md"⟩
        (RemoteTree.single newerEntry) true 40
        (RemoteTree.single newerEntry) true).entries 1 =
      some
        { starredEntry with
          name := "Old plan.md"
          normalizedName := "old plan.md"
          updatedAt := 40 } ∧
    ¬ PlacementOnly String.toLower ⟨some 9, "Old plan.md"⟩ 40
        (some newerEntry)
        ((placeEntry String.toLower starredEntry
          ⟨some 9, "Old plan.md"⟩
          (RemoteTree.single newerEntry) true 40
          (RemoteTree.single newerEntry) true).entries 1) := by
  have hAfter :
      (placeEntry String.toLower starredEntry
          ⟨some 9, "Old plan.md"⟩
          (RemoteTree.single newerEntry) true 40
          (RemoteTree.single newerEntry) true).entries 1 =
        some
          { starredEntry with
            name := "Old plan.md"
            normalizedName := "old plan.md"
            updatedAt := 40 } := by
    decide +kernel
  refine ⟨hAfter, ?_⟩
  rw [hAfter]
  rintro (hSame | ⟨stored, hStored, hPlaced⟩)
  · have hEntry := Option.some.inj hSame
    have hRevision :=
      congrArg (fun entry => entry.currentRevisionId) hEntry
    exact absurd hRevision (by decide)
  · have hStored := Option.some.inj hStored
    subst hStored
    have hEntry := Option.some.inj hPlaced
    have hRevision :=
      congrArg (fun entry => entry.currentRevisionId) hEntry
    exact absurd hRevision (by decide)

end TreeWrites

end S4Drive

import S4Drive.Conflicts.TextMerge
import S4Drive.Metadata.Blobs
import S4Drive.Recovery.Output
import S4Drive.Sync.LocalChanges

/-
  The automatic merge of a text that was edited here and on
  another device, and the upload that it queues. The row of
  the index keeps the revision that the local edit was made
  on, while the upload is compared with the remote revision:
  what was merged is judged to have diverged from it.

  Main declarations:
    * `tryTextAutoMerge`, `autoMerge`
    * `queuedUpload`
    * `Uploadable`, `merged_upload_iff`
-/

------------------------------------------------------------
-- Merging
------------------------------------------------------------

namespace S4Drive

namespace AutoMerge

open ConflictEngine BlobStore

abbrev Bytes := List UInt8

structure RevisionRecord where
  contentHash : Option String
  size : Nat
deriving DecidableEq

/-
  What the merge reads: the revisions of the index, the
  objects of the bucket and the local file.
-/
structure MergeSources where
  revisions : RevisionId → Option RevisionRecord
  objects : String → Option Bytes
  localFile : Option Bytes

def textAutoMergeMaxBytes : Nat := 2 * 1024 * 1024

def decodeUtf8 (bytes : Bytes) : Option Text :=
  (String.fromUTF8? ⟨bytes.toArray⟩).map String.toList

def encodeUtf8 (text : Text) : Bytes :=
  (String.ofList text).toUTF8.toList

/- The Kelvin sign is the one with an ASCII lowercase. -/
def toLowercase (text : Text) : Text :=
  text.map fun c => if c.toNat = 0x212A then 'k' else c.toLower

def textNames : List String :=
  ["dockerfile", "makefile", ".gitignore"]

def textExtensions : List String :=
  ["txt", "md", "json", "yaml", "yml", "toml", "xml", "html",
    "htm", "css", "js", "ts", "jsx", "tsx", "rs", "py", "rb",
    "go", "java", "kt", "swift", "c", "h", "cpp", "hpp", "sh",
    "bash", "zsh", "fish", "env", "ini", "cfg", "conf", "log",
    "csv", "tsv", "sql", "r", "scala", "clj", "lua", "pl",
    "pm", "php", "dart", "gradle", "lock", "gitignore",
    "dockerfile"]

def isTextFile (path : Text) : Bool :=
  let name := (ConflictEngine.fileName path).getD []
  let ext := ((Recovery.splitExtension name).map Prod.snd).getD
    []
  textNames.any (·.toList = toLowercase name) ||
    textExtensions.any (·.toList = toLowercase ext)

/- The texts of the base, the local file and the remote. -/
def mergeTexts
    (sources : MergeSources)
    (localEntry : FileEntry)
    (remoteContent : ContentRef) :
    Option (Text × Text × Text) := do
  let revision ← localEntry.currentRevisionId
  let record ← sources.revisions revision
  let baseHash ← record.contentHash
  let localSize :=
    (sources.localFile.map List.length).getD localEntry.size
  if record.size > textAutoMergeMaxBytes ∨
      localSize > textAutoMergeMaxBytes ∨
      remoteContent.size > textAutoMergeMaxBytes then
    none
  else do
    let baseBytes ← sources.objects
      (blobKey (String.ofList (bareHash baseHash)))
    let localBytes ← sources.localFile
    let remoteBytes ← sources.objects remoteContent.storageKey
    let base ← decodeUtf8 baseBytes
    let localText ← decodeUtf8 localBytes
    let remote ← decodeUtf8 remoteBytes
    pure (base, localText, remote)

/- The merged text, unless it has conflict markers. -/
def tryTextAutoMerge
    (sources : MergeSources)
    (localEntry : FileEntry)
    (localPath remotePath : Text)
    (remoteContent : ContentRef) : Checked (Option Text) :=
  if isTextFile remotePath then
    match mergeTexts sources localEntry remoteContent with
    | none => .ok none
    | some (base, localText, remote) => do
        let merged ← textThreeWayMerge base localText remote
          localPath remotePath
        pure (if hasConflictMarkers merged then none
          else some merged)
  else
    .ok none

/- The local file after a merge, and its row of the index. -/
structure Merged where
  bytes : Bytes
  row : FileEntry
deriving DecidableEq

variable (blake3 : Bytes → List UInt8)

/- `entry` is what the remote operation says of the file. -/
def autoMerge
    (sources : MergeSources)
    (localEntry entry : FileEntry)
    (localPath remotePath : Text)
    (remoteContent : ContentRef) : Checked (Option Merged) := do
  let text ← tryTextAutoMerge sources localEntry localPath
    remotePath remoteContent
  pure (text.map fun text =>
    let bytes := encodeUtf8 text
    let found := hashOf blake3 bytes
    { bytes := bytes
      row :=
        { entry with
          contentHash := some (blake3LocalHash found.hash)
          size := found.size
          currentRevisionId := localEntry.currentRevisionId } })

------------------------------------------------------------
-- The Queued Upload
------------------------------------------------------------

/-
  The upload of the merged file, which is bound to no
  content; `ownRevision` is as in `UploadJob`.
-/
def queuedUpload
    (placement : Placement)
    (ownRevision : RevisionId → Option (Option String))
    (merged : Merged) : UploadJob where
  fileId := merged.row.fileId
  placement := placement
  contentRef := contentRefOf (hashOf blake3 merged.bytes)
    "application/octet-stream"
  expectedContentHash := none
  indexedRevision := merged.row.currentRevisionId
  ownRevision := ownRevision

/-
  The upload is not judged diverged and takes the remote
  revision for its parent, what it commits is the merged
  content, and no operation on another file refuses it.
-/
structure Uploadable
    (job : UploadJob)
    (lookup : RemoteLookup)
    (remoteRevision : RevisionId)
    (bytes : Bytes) : Prop where
  parent : prepareUpload job lookup = .ok (some remoteRevision)
  content :
    ∀ revisionId, ∃ content,
      (uploadEffects job lookup revisionId).newContentRef =
          some content ∧
        content.hash = (hashOf blake3 bytes).hash ∧
        content.size = bytes.length
  commits :
    ∀ concurrent : List Operation,
      (∀ op ∈ concurrent, op.targetFileId ≠ some job.fileId) →
        OperationLog.conflictOn (some job.fileId) concurrent =
          none

variable {blake3}
variable {sources : MergeSources}
variable {localEntry entry : FileEntry}
variable {localPath remotePath : Text}
variable {remoteContent : ContentRef} {merged : Merged}

/- The row of a merged file has the revision of the base. -/
theorem row_revision_of_autoMerge
    (h :
      autoMerge blake3 sources localEntry entry localPath
        remotePath remoteContent = .ok (some merged)) :
    merged.row.currentRevisionId =
      localEntry.currentRevisionId := by
  unfold autoMerge at h
  cases hText : tryTextAutoMerge sources localEntry localPath
      remotePath remoteContent with
  | error panic =>
      rw [hText] at h
      cases h
  | ok text =>
      rw [hText] at h
      cases text with
      | none => cases h
      | some text =>
          cases h
          rfl

variable {treeEntry : FileEntry} {op : Operation}
variable {remoteRevision : RevisionId}

/- The newest operation gives the tree entry its revision. -/
theorem withLatestRevision_revision
    (h : op.effects.newRevisionId = some remoteRevision) :
    (withLatestRevision treeEntry (some op)).currentRevisionId =
      some remoteRevision := by
  simp only [withLatestRevision, Option.bind_some, h]
  split
  · rename_i hSame
    exact hSame
  · rfl

/- An upload that is bound to no content has its row's base. -/
theorem prepareUpload_eq
    {job : UploadJob} {remote : FileEntry}
    (hUnbound : job.expectedContentHash = none)
    (hRevision : remote.currentRevisionId = some remoteRevision) :
    prepareUpload job (.entry remote) =
        .ok (some remoteRevision) ↔
      job.indexedRevision = some remoteRevision := by
  have hParent :
      uploadParentRevision job remote = job.indexedRevision := by
    unfold uploadParentRevision
    rw [if_pos hUnbound]
  constructor
  · intro h
    dsimp only [prepareUpload] at h
    rw [hParent] at h
    split at h
    · cases h
    · exact Except.ok.inj h
  · intro h
    have hSame :
        remoteRevisionDiverged (some remoteRevision) remote
          (blake3LocalHash job.contentRef.hash) = false := by
      unfold remoteRevisionDiverged
      rw [hRevision]
      simp
    dsimp only [prepareUpload]
    rw [hParent, h, hSame]
    simp

theorem conflictOn_none
    {fileId : FileId} {concurrent : List Operation}
    (h : ∀ op ∈ concurrent, op.targetFileId ≠ some fileId) :
    OperationLog.conflictOn (some fileId) concurrent = none := by
  unfold OperationLog.conflictOn
  have hFind :
      concurrent.find? (·.targetFileId = some fileId) =
        none := by
    rw [List.find?_eq_none]
    intro op hOp
    simpa using h op hOp
  dsimp only
  rw [hFind]
  rfl

/-
  The upload that a merge without a conflict queues, when
  the merged operation is still the newest on the file, goes
  through with the remote revision as its parent exactly if
  the row already had that revision before the merge.
-/
theorem merged_upload_iff
    {placement : Placement}
    {ownRevision : RevisionId → Option (Option String)}
    (hMerge :
      autoMerge blake3 sources localEntry entry localPath
        remotePath remoteContent = .ok (some merged))
    (hRevision :
      op.effects.newRevisionId = some remoteRevision) :
    Uploadable blake3
        (queuedUpload blake3 placement ownRevision merged)
        (.entry (withLatestRevision treeEntry (some op)))
        remoteRevision merged.bytes ↔
      localEntry.currentRevisionId = some remoteRevision := by
  have hRow := row_revision_of_autoMerge hMerge
  have hPrepare :
      prepareUpload
          (queuedUpload blake3 placement ownRevision merged)
          (.entry (withLatestRevision treeEntry (some op))) =
          .ok (some remoteRevision) ↔
        merged.row.currentRevisionId = some remoteRevision :=
    prepareUpload_eq rfl (withLatestRevision_revision hRevision)
  constructor
  · intro h
    rw [← hRow]
    exact hPrepare.mp h.parent
  · intro h
    rw [← hRow] at h
    exact ⟨hPrepare.mpr h, fun _ => ⟨_, rfl, rfl, rfl⟩,
      fun _ => conflictOn_none⟩

/- The digest of the merged text below. -/
def mergedDigest (bytes : Bytes) : List UInt8 :=
  if bytes = encodeUtf8 "x\nb\ny".toList then
    [178, 158, 90, 50, 195, 41, 65, 238, 56, 210, 39, 53, 218,
      90, 194, 151, 249, 222, 89, 15, 108, 24, 228, 51, 21, 29,
      97, 73, 57, 120, 31, 181]
  else
    []

def textEntry (revision : RevisionId) (hash : String) :
    FileEntry where
  fileId := 1
  parentId := none
  name := "a.txt"
  entryType := .file
  currentRevisionId := some revision
  contentRef := none
  size := 5
  contentHash := some ("blake3:" ++ hash)
  mime := some "text/plain"
  updatedAt := 0
  deletedAt := none
  versionHistory := [revision]

def baseHash : String :=
  "fcfa61ae56ff541468999017ed3a3930" ++
    "ae77aac95b50427b22794bf45e8906e2"

def remoteHash : String :=
  "ded060419ef2f78c501d4bb815ed2613" ++
    "e00907c85311245e958565efc8da80a1"

def remoteText : ContentRef where
  blobId := 2
  hash := remoteHash
  size := 5
  mime := "text/plain"
  storageKey := blobKey remoteHash

/- The first line was edited here, the last one remotely. -/
def editedLines : MergeSources where
  revisions := fun id =>
    if id = 1 then some ⟨some ("blake3:" ++ baseHash), 5⟩
    else none
  objects := fun key =>
    if key = blobKey baseHash then
      some (encodeUtf8 "a\nb\nc".toList)
    else if key = blobKey remoteHash then
      some (encodeUtf8 "a\nb\ny".toList)
    else
      none
  localFile := some (encodeUtf8 "x\nb\nc".toList)

/- The second revision, which another device has committed. -/
def remoteUpload : Operation where
  opId := ⟨2, 1, 1⟩
  deviceId := 2
  actorId := "2"
  logicalClock := 1
  baseHead := none
  targetFileId := some 1
  opType := .uploadNewRevision
  preconditions := ⟨none, none, true, true⟩
  effects := ⟨some 2, some remoteText, none, none, false⟩
  timestamp := 0
  signature := none

def mergedFile : Merged where
  bytes := encodeUtf8 "x\nb\ny".toList
  row :=
    { textEntry 1 (hashOf mergedDigest
        (encodeUtf8 "x\nb\ny".toList)).hash with
      versionHistory := [2] }

def mergedUpload : UploadJob :=
  queuedUpload mergedDigest ⟨none, "a.txt"⟩ (fun _ => none)
    mergedFile

theorem editedLines_merged :
    autoMerge mergedDigest editedLines (textEntry 1 baseHash)
        (textEntry 2 remoteHash) "/home/a.txt".toList
        "a.txt".toList remoteText =
      .ok (some mergedFile) := by
  decide +kernel

theorem edited_lines_not_uploadable :
    textEntry 1 baseHash ≠ textEntry 2 remoteHash ∧
      ¬ Uploadable mergedDigest mergedUpload
        (.entry (withLatestRevision (textEntry 2 remoteHash)
          (some remoteUpload)))
        2 mergedFile.bytes := by
  refine ⟨by decide, fun h => ?_⟩
  have hTarget :
      remoteUpload.effects.newRevisionId = some 2 := rfl
  have hRevision :=
    (merged_upload_iff editedLines_merged hTarget).mp h
  exact absurd hRevision (by decide)

/- The merge has no conflict, and its upload is refused. -/
theorem clean_merge_diverges :
    autoMerge mergedDigest editedLines (textEntry 1 baseHash)
          (textEntry 2 remoteHash) "/home/a.txt".toList
          "a.txt".toList remoteText =
        .ok (some mergedFile) ∧
      mergedFile.bytes = encodeUtf8 "x\nb\ny".toList ∧
      prepareUpload mergedUpload
          (.entry (withLatestRevision (textEntry 2 remoteHash)
            (some remoteUpload))) =
        .error .diverged :=
  ⟨editedLines_merged, rfl, by decide +kernel⟩

end AutoMerge

end S4Drive

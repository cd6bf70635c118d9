import S4Drive.Metadata.Ops

/-
  The materialized tree and the deletion records, function
  by function. An entry is one object; a body and an ETag
  that belong together are read with a HEAD before and one
  after the GET.

  Main declarations:
    * `EntryVersion`
    * `FileTree.getEntry`, `FileTree.upsertEntry`,
      `FileTree.getEntryVersion`, `FileTree.putEntryIf`,
      `FileTree.deleteEntry`, `FileTree.listEntries`
    * `TombstoneManager.createTombstone`,
      `TombstoneManager.getTombstoneVersion`,
      `TombstoneManager.replaceTombstone`,
      `TombstoneManager.collectGarbage`
-/

------------------------------------------------------------
-- The Tree
------------------------------------------------------------

namespace S4Drive

open ObjectStore Concurrency

/- A tree entry with the ETag of exactly those bytes. -/
structure EntryVersion where
  entry : FileEntry
  etag : ETag Body
deriving DecidableEq

/- How long a number of days is on the clock. -/
def days (n : Nat) : Nat := n * 86400000

/- How often a versioned read is tried. -/
def maxVersionReads : Nat := 4

variable {l : Type}

namespace FileTree

def getEntry
    (fileId : FileId) : CloudM l FileEntry := do
  let data ← getObject (.tree fileId)
  Script.ofExcept (Serializer.deserializeEntry data)

def upsertEntry
    (entry : FileEntry) : CloudM l Unit := do
  Script.ofExcept (Validator.validateFileEntry entry)
  putObject (.tree entry.fileId) (.entry entry)

/- A read that met another write is tried again. -/
def getEntryVersionRounds
    (fileId : FileId) :
    Nat → CloudM l (Option EntryVersion)
  | 0 =>
      Script.throw (.conflict
        ("tree entry keeps changing for " ++ toString fileId))
  | rounds + 1 => do
      match ← Script.attempt (headObject (.tree fileId)) with
      | .error (.notFound _) => pure none
      | .error e => Script.throw e
      | .ok before =>
          match ← Script.attempt (getEntry fileId) with
          | .error (.notFound _) =>
              getEntryVersionRounds fileId rounds
          | .error e => Script.throw e
          | .ok entry =>
              match ← Script.attempt
                  (headObject (.tree fileId)) with
              | .error (.notFound _) =>
                  getEntryVersionRounds fileId rounds
              | .error e => Script.throw e
              | .ok after =>
                  if before = after then
                    pure (some ⟨entry, after⟩)
                  else
                    getEntryVersionRounds fileId rounds

def getEntryVersion
    (fileId : FileId) : CloudM l (Option EntryVersion) :=
  getEntryVersionRounds fileId maxVersionReads

/- Write an entry only over the observed version. -/
def putEntryIf
    (entry : FileEntry)
    (observed : Option EntryVersion) : CloudM l Bool := do
  Script.ofExcept (Validator.validateFileEntry entry)
  match observed with
  | none => putIfNotExists (.tree entry.fileId) (.entry entry)
  | some version =>
      putIfMatch (.tree entry.fileId) (.entry entry)
        version.etag

def deleteEntry
    (fileId : FileId) : CloudM l Unit :=
  deleteObject (.tree fileId)

def listEntries : CloudM l (List FileId) := do
  let keys ← listObjects .tree
  pure (keys.filterMap fun
    | .tree fileId => some fileId
    | _ => none)

end FileTree

namespace TombstoneManager

/- The same delete, maybe at another time. -/
def sameDeleteDetails
    (left right : Tombstone) : Bool :=
  left.fileId = right.fileId &&
    left.pathAtDelete = right.pathAtDelete &&
    left.nameAtDelete = right.nameAtDelete &&
    left.deletedBy = right.deletedBy &&
    left.contentRefs = right.contentRefs &&
    left.restorable = right.restorable

def sameDeletion
    (left right : Tombstone) : Bool :=
  sameDeleteDetails left right &&
    left.deletedAt = right.deletedAt

def getTombstone
    (fileId : FileId) : CloudM l Tombstone := do
  let data ← getObject (.tombstone fileId)
  Script.ofExcept (Serializer.deserializeTombstone data)

/- A retry of the same delete keeps the first record. -/
def createTombstone
    (fileId : FileId)
    (path name deletedBy : String)
    (contentRefs : List BlobId)
    (retentionDays : Nat) : CloudM l Tombstone := do
  let now ← now
  let tombstone : Tombstone :=
    { fileId := fileId
      pathAtDelete := path
      nameAtDelete := name
      deletedBy := deletedBy
      deletedAt := now
      retentionUntil := now + days retentionDays
      contentRefs := contentRefs
      restorable := true }
  if ← putIfNotExists (.tombstone fileId)
      (.tombstone tombstone) then
    pure tombstone
  else
    let existing ← getTombstone fileId
    if sameDeleteDetails existing tombstone then
      pure existing
    else
      Script.throw (.conflict
        ("a different deletion already exists for " ++
          toString fileId))

def getTombstoneVersionRounds
    (fileId : FileId) :
    Nat → CloudM l TombstoneVersion
  | 0 =>
      Script.throw (.conflict
        ("deletion keeps changing for " ++ toString fileId))
  | rounds + 1 => do
      let before ← headObject (.tombstone fileId)
      let tombstone ← getTombstone fileId
      let after ← headObject (.tombstone fileId)
      if before = after then
        if tombstone.fileId ≠ fileId then
          Script.throw (.protocol
            ("tombstone identity does not match " ++
              toString fileId))
        else
          pure ⟨tombstone, after⟩
      else
        getTombstoneVersionRounds fileId rounds

def getTombstoneVersion
    (fileId : FileId) : CloudM l TombstoneVersion :=
  getTombstoneVersionRounds fileId maxVersionReads

/- Replace the observed record; another winner is kept. -/
def replaceTombstone
    (previous : TombstoneVersion)
    (candidate : Tombstone) : CloudM l Tombstone := do
  if previous.tombstone.fileId ≠ candidate.fileId ∨
      sameDeletion previous.tombstone candidate then
    Script.throw (.conflict
      "replacement requires a new deletion of the same id")
  else
    let current ← getTombstoneVersion candidate.fileId
    if sameDeletion current.tombstone candidate then
      pure current.tombstone
    else if current.etag ≠ previous.etag ∨
        ¬ sameDeletion current.tombstone
          previous.tombstone then
      Script.throw (.conflict
        ("deletion changed since restore for " ++
          toString candidate.fileId))
    else if ← putIfMatch (.tombstone candidate.fileId)
        (.tombstone candidate) current.etag then
      pure candidate
    else
      -- A refused CAS may be the answer to a retried success.
      let winner ← getTombstone candidate.fileId
      if sameDeletion winner candidate then
        pure winner
      else
        Script.throw (.conflict
          ("another deletion won for " ++
            toString candidate.fileId))

def listTombstones : CloudM l (List FileId) := do
  let keys ← listObjects .tombstones
  pure (keys.filterMap fun
    | .tombstone fileId => some fileId
    | _ => none)

/- Delete the records of the list that are past retention. -/
def collectGarbageOf
    (now : Timestamp) : List FileId → Nat → CloudM l Nat
  | [], collected => pure collected
  | fileId :: rest, collected => do
      -- History only: the collector turns to this record.
      Script.request (.prepare (.cleanupOf fileId) : Req)
      match ← Script.attempt (getTombstone fileId) with
      | .ok tombstone =>
          if now > tombstone.retentionUntil then
            deleteObject (.tombstone fileId)
            -- Also clean up a tree entry that is still there.
            let _ ← Script.attempt (deleteObject (.tree fileId))
            collectGarbageOf now rest (collected + 1)
          else
            collectGarbageOf now rest collected
      | .error _ => collectGarbageOf now rest collected

def collectGarbage : CloudM l Nat := do
  let tombstones ← listTombstones
  let now ← now
  collectGarbageOf now tombstones 0

end TombstoneManager

end S4Drive

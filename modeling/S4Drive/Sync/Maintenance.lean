import S4Drive.Metadata.Tree

/-
  The cleanup of deletion records that are past retention.

  Main declarations:
    * `TombstoneCleanup`
    * `collectExpiredTombstoneAt`
-/

------------------------------------------------------------
-- Deletion Records
------------------------------------------------------------

namespace S4Drive

open ObjectStore Concurrency

variable {l : Type}

/- What happened to one deletion record during cleanup. -/
inductive TombstoneCleanup where
  | missing
  | notExpired
  | retired
  -- Kept because removing it could hide or destroy live data.
  | kept (reason : String)
deriving DecidableEq

/- Why a record is kept, from the newest retained operation. -/
def keepReason
    (latest : Option Operation)
    (live : Bool) : Option String :=
  match latest.map fun op => op.effects.deleted with
  | some true =>
      if live then
        some "the tree still lists an entry the log deleted"
      else
        none
  | some false =>
      if live then
        none
      else
        some
          "a later change of the entry is not in the tree yet"
  | none => none

/- Whether the tree lists the entry. -/
def isLive (fileId : FileId) : CloudM l Bool := do
  match ← Script.attempt (FileTree.getEntry fileId) with
  | .ok _ => pure true
  | .error (.notFound _) => pure false
  | .error e => Script.throw e

/-
  Retire one record that is expired at `time`, never the
  entry it described.
-/
def retireExpired
    (fileId : FileId)
    (time : Timestamp)
    (version : TombstoneVersion) :
    CloudM l TombstoneCleanup := do
  if version.tombstone.retentionUntil > time then
    pure .notExpired
  else
    let live ← isLive fileId
    let latest ← onLog (OperationLog.new 0 0)
      (OperationLog.latestOnTarget fileId)
    match keepReason latest live with
    | some reason => pure (.kept reason)
    | none =>
        if ← deleteIfMatch (.tombstone fileId) version.etag then
          pure .retired
        else
          pure (.kept "a newer deletion replaced the record")

def collectExpiredTombstoneAt
    (fileId : FileId)
    (time : Timestamp) : CloudM l TombstoneCleanup := do
  -- History only: the collector turns to this record.
  Script.request (.prepare (.cleanupOf fileId) : Req)
  match ← Script.attempt
      (TombstoneManager.getTombstoneVersion fileId) with
  | .error (.notFound _) => pure .missing
  | .error (.protocol _) =>
      pure (.kept "the deletion record cannot be read")
  | .error (.conflict _) =>
      pure (.kept "the deletion record cannot be read")
  | .error e => Script.throw e
  | .ok version => retireExpired fileId time version

/- One pass over a page of records; a failure keeps one. -/
def collectExpiredPage
    (time : Timestamp) : List FileId → CloudM l Unit
  | [] => pure ()
  | fileId :: rest => do
      let _ ← Script.attempt
        (collectExpiredTombstoneAt fileId time)
      collectExpiredPage time rest

/- Maintenance reads the clock once for a pass. -/
def collectExpiredRemoteTombstones
    (page : List FileId) : CloudM l Unit := do
  let time ← now
  collectExpiredPage time page

end S4Drive

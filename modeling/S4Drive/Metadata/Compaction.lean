import S4Drive.Metadata.Tree

/-
  The compaction of the log below a snapshot. How far it has
  come is kept in a cursor, which is written before each
  batch of deletes with the ids that are going to be deleted.

  Main declarations:
    * `DeviceWatermarks.activeRegisteredDeviceIds`,
      `DeviceWatermarks.activeWatermarks`
    * `OpLogCompactor.loadOrInitializeCursor`
    * `OpLogCompactor.compactableAncestors`
    * `OpLogCompactor.compact`
-/

------------------------------------------------------------
-- Watermarks
------------------------------------------------------------

namespace S4Drive

open ObjectStore Concurrency

variable {l : Type}

namespace Serializer

def deserializeDeviceWatermark :
    Body → CoreResult DeviceWatermark
  | .deviceWatermark watermark => .ok watermark
  | _ => .error (.protocol "device watermark")

def deserializeDevice : Body → CoreResult Device
  | .device device => .ok device
  | _ => .error (.protocol "device registration")

end Serializer

def timestampIsStale
    (timestamp : Timestamp)
    (staleDays : Nat)
    (time : Timestamp) : Bool :=
  timestamp + days staleDays < time

namespace DeviceWatermarks

def readWatermarks :
    List Key → CloudM l (List DeviceWatermark)
  | [] => pure []
  | .deviceWatermark deviceId :: rest => do
      let data ← getObject (.deviceWatermark deviceId)
      let watermark ← Script.ofExcept
        (Serializer.deserializeDeviceWatermark data)
      let others ← readWatermarks rest
      pure (watermark :: others)
  | _ :: rest => readWatermarks rest

def readRegistrations : List Key → CloudM l (List Device)
  | [] => pure []
  | .deviceRegistration deviceId :: rest => do
      let data ← getObject (.deviceRegistration deviceId)
      let device ← Script.ofExcept
        (Serializer.deserializeDevice data)
      let others ← readRegistrations rest
      pure (device :: others)
  | _ :: rest => readRegistrations rest

/- The watermarks that are neither retired nor stale. -/
def activeWatermarks
    (staleDays : Nat) : CloudM l (List DeviceWatermark) := do
  let keys ← listObjects .devices
  let time ← now
  let watermarks ← readWatermarks keys
  pure (watermarks.filter fun watermark =>
    watermark.status ≠ .retired &&
      !timestampIsStale watermark.lastSeenAt staleDays time)

/- Registered devices that were seen and are not retired. -/
def activeRegisteredDeviceIds
    (staleDays : Nat) : CloudM l (List DeviceId) := do
  let keys ← listObjects .devices
  let time ← now
  let watermarks ← readWatermarks keys
  let devices ← readRegistrations keys
  let retired :=
    (watermarks.filter fun watermark =>
      watermark.status = .retired).map
        DeviceWatermark.deviceId
  pure ((devices.filter fun device =>
    !timestampIsStale device.lastSeen staleDays time &&
      device.deviceId ∉ retired).map Device.deviceId).dedup

end DeviceWatermarks

------------------------------------------------------------
-- The Compactor
------------------------------------------------------------

structure OpCompactionReport where
  activeRegisteredDevices : Nat
  activeWatermarks : Nat
  missingWatermarks : Nat
  prunedOps : Nat
  skippedReason : Option String

structure CompactableScan where
  opIds : List OpId
  nextOp : Option OpId
  retentionBlocked : Bool

namespace OpLogCompactor

def skipped (reason : String) : OpCompactionReport :=
  ⟨0, 0, 0, 0, some reason⟩

def readOperation (opId : OpId) : CloudM l Operation := do
  let data ← getObject (.op opId)
  Script.ofExcept (Serializer.deserializeOperation data)

/- A cursor of another schema counts as none. -/
def readCursor : CloudM l (Option OpCompactionCursor) := do
  match ← Script.attempt (getObject .opsTail) with
  | .ok (.opsTail cursor) => pure (some cursor)
  | .ok _ => pure none
  | .error (.notFound _) => pure none
  | .error e => Script.throw e

def writeCursor
    (cursor : OpCompactionCursor) : CloudM l Unit :=
  putObject .opsTail (.opsTail cursor)

/- A cursor that starts below the snapshot's head. -/
def initializeCursor
    (snapshot : SnapshotMetadata)
    (coveredHead : OpId) : CloudM l OpCompactionCursor := do
  match ← Script.attempt (readOperation coveredHead) with
  | .ok head =>
      pure ⟨snapshot.seqNum, coveredHead, head.baseHead, []⟩
  | .error (.notFound _) =>
      pure ⟨snapshot.seqNum, coveredHead, none, []⟩
  | .error e => Script.throw e

/- Whether a cursor goes on with a snapshot. -/
def resumes
    (cursor : OpCompactionCursor)
    (snapshot : SnapshotMetadata) : Bool :=
  cursor.snapshotSeq ≤ snapshot.seqNum &&
      (cursor.nextOp.isSome ||
        !cursor.pendingDelete.isEmpty) ||
    cursor.snapshotSeq = snapshot.seqNum

def loadOrInitializeCursor
    (snapshot : SnapshotMetadata)
    (coveredHead : OpId) : CloudM l OpCompactionCursor := do
  match ← readCursor with
  | some cursor =>
      if resumes cursor snapshot then
        pure cursor
      else
        initializeCursor snapshot coveredHead
  | none => initializeCursor snapshot coveredHead

/-
  The next operations to delete, at most `batchLimit`: down
  the chain until one is missing or inside retention.
-/
def compactableAncestors
    (cutoff : Int) :
    Nat → Option OpId → CloudM l CompactableScan
  | 0, cursor => pure ⟨[], cursor, false⟩
  | _ + 1, none => pure ⟨[], none, false⟩
  | batchLimit + 1, some opId => do
      match ← Script.attempt (readOperation opId) with
      | .error (.notFound _) => pure ⟨[], none, false⟩
      | .error e => Script.throw e
      | .ok op =>
          if (op.timestamp : Int) > cutoff then
            pure ⟨[], some opId, true⟩
          else
            let rest ← compactableAncestors cutoff batchLimit
              op.baseHead
            pure ⟨opId :: rest.opIds, rest.nextOp,
              rest.retentionBlocked⟩

def deleteOperations : List OpId → CloudM l Unit
  | [] => pure ()
  | opId :: rest => do
      deleteObject (.op opId)
      deleteOperations rest

/- The deletes that an earlier run has left. -/
def deletePending
    (cursor : OpCompactionCursor)
    (report : OpCompactionReport) :
    CloudM l OpCompactionReport := do
  deleteOperations cursor.pendingDelete
  writeCursor { cursor with pendingDelete := [] }
  pure { report with prunedOps := cursor.pendingDelete.length }

/- One batch, from where the cursor stands. -/
def deleteBatch
    (cursor : OpCompactionCursor)
    (batchLimit retentionDays : Nat)
    (report : OpCompactionReport) :
    CloudM l OpCompactionReport := do
  let time ← now
  let cutoff : Int := time - days retentionDays
  let scan ← compactableAncestors cutoff (max batchLimit 1)
    cursor.nextOp
  let cursor := { cursor with nextOp := scan.nextOp }
  if scan.opIds.isEmpty then
    writeCursor cursor
    pure { report with
      skippedReason :=
        if scan.retentionBlocked then
          some ("oldest compactable op is still inside " ++
            "retention window")
        else
          some "no compactable ops before snapshot head" }
  else
    writeCursor { cursor with pendingDelete := scan.opIds }
    deleteOperations scan.opIds
    writeCursor { cursor with pendingDelete := [] }
    pure { report with prunedOps := scan.opIds.length }

def compactFrom
    (snapshot : SnapshotMetadata)
    (coveredHead : OpId)
    (batchLimit retentionDays : Nat)
    (report : OpCompactionReport) :
    CloudM l OpCompactionReport := do
  let cursor ← loadOrInitializeCursor snapshot coveredHead
  if !cursor.pendingDelete.isEmpty then
    deletePending cursor report
  else if cursor.nextOp.isNone then
    pure { report with
      skippedReason :=
        some "no compactable ops before snapshot head" }
  else
    deleteBatch cursor batchLimit retentionDays report

def compact
    (snapshot : SnapshotMetadata)
    (batchLimit staleDays retentionDays : Nat) :
    CloudM l OpCompactionReport := do
  match snapshot.coveredHead with
  | none => pure (skipped "snapshot has no covered head")
  | some coveredHead =>
      let devices ←
        DeviceWatermarks.activeRegisteredDeviceIds staleDays
      let watermarks ←
        DeviceWatermarks.activeWatermarks staleDays
      let missing := devices.filter fun deviceId =>
        deviceId ∉ watermarks.map DeviceWatermark.deviceId
      let report : OpCompactionReport :=
        ⟨devices.length, watermarks.length, missing.length, 0,
          none⟩
      if !missing.isEmpty then
        pure { report with
          skippedReason :=
            some "active registered device has no watermark" }
      else if watermarks.isEmpty then
        pure { report with
          skippedReason :=
            some "no active device watermarks" }
      else if watermarks.any fun watermark =>
          watermark.appliedSnapshotSeq < snapshot.seqNum then
        pure { report with
          skippedReason :=
            some ("not all active devices reached " ++
              "snapshot watermark") }
      else
        compactFrom snapshot coveredHead batchLimit
          retentionDays report

end OpLogCompactor

end S4Drive

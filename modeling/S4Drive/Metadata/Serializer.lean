import S4Drive.Core.Error
import S4Drive.Metadata.Types

/-
  The objects of the metadata protocol: their keys and their
  bodies. A body stands for the bytes of one document; bytes
  that are no document of the protocol are `malformed`.

  Main declarations:
    * `Key`, `Prefix`
    * `Body`
    * `Serializer.deserializeOperation`
    * `Validator.validateOperation`,
      `Validator.validateFileEntry`
-/

------------------------------------------------------------
-- Keys and Bodies
------------------------------------------------------------

namespace S4Drive

/- The objects under `.s4drive/` that the model uses. -/
inductive Key where
  -- `.s4drive/meta/heads/current`
  | head
  -- `.s4drive/meta/ops/{op_id}.json`
  | op (opId : OpId)
  -- `.s4drive/meta/tree/{file_id}.json`
  | tree (fileId : FileId)
  -- `.s4drive/trash/tombstones/{file_id}.json`
  | tombstone (fileId : FileId)
  -- `.s4drive/meta/heads/ops_tail`
  | opsTail
  -- `.s4drive/devices/{device_id}/registration.json`
  | deviceRegistration (deviceId : DeviceId)
  -- `.s4drive/devices/{device_id}/watermark.json`
  | deviceWatermark (deviceId : DeviceId)
  -- `.s4drive/meta/snapshots/{seq}/tree.json`
  | snapshot (seqNum : Nat)
  -- `.s4drive/meta/snapshots/{seq}/metadata.json`
  | snapshotMetadata (seqNum : Nat)
  -- `.s4drive/content/blobs/{prefix}/{hash}`
  | blob (hash : String)
  -- `.s4drive/content/leases/{hash}/{device_id}.json`
  | blobLease (hash : String) (deviceId : DeviceId)
deriving DecidableEq

/- The prefixes under which objects are listed. -/
inductive Prefix where
  | tree
  | tombstones
  | devices
  | snapshots
  | ops
  | blobs
  | blobLeases (hash : String)
deriving DecidableEq

/- Whether a key starts with the prefix. -/
def Prefix.covers : Prefix → Key → Bool
  | tree, .tree _ => true
  | tombstones, .tombstone _ => true
  | devices, .deviceRegistration _ => true
  | devices, .deviceWatermark _ => true
  | snapshots, .snapshot _ => true
  | snapshots, .snapshotMetadata _ => true
  | ops, .op _ => true
  | blobs, .blob _ => true
  | blobLeases hash, .blobLease hash' _ => hash = hash'
  | _, _ => false

inductive Body where
  -- The text of the head pointer; `none` when it is blank.
  | head (opId : Option OpId)
  | operation (op : Operation)
  | entry (entry : FileEntry)
  | tombstone (tombstone : Tombstone)
  | opsTail (cursor : OpCompactionCursor)
  | device (device : Device)
  | deviceWatermark (watermark : DeviceWatermark)
  | fileTree (entries : List FileEntry)
  | snapshotMetadata (metadata : SnapshotMetadata)
  -- The bytes that have this hash.
  | blob (hash : String)
  | blobLease (lease : BlobLease)
  | malformed (bytes : List UInt8)
deriving DecidableEq

namespace Serializer

def deserializeOperation : Body → CoreResult Operation
  | .operation op => .ok op
  | _ => .error (.protocol "expected an operation")

def deserializeEntry : Body → CoreResult FileEntry
  | .entry entry => .ok entry
  | _ => .error (.protocol "deserialize entry")

def deserializeTombstone : Body → CoreResult Tombstone
  | .tombstone tombstone => .ok tombstone
  | _ => .error (.protocol "tombstone")

end Serializer

namespace Validator

/-
  The source also refuses an empty op id; an `OpId` is never
  empty.
-/
def validateOperation
    (op : Operation) : CoreResult Unit :=
  if op.deviceId = 0 then
    .error (.protocol "device_id cannot be nil")
  else
    .ok ()

/- Names that Windows reserves, whatever comes after a dot. -/
def reserved : List String :=
  ["CON", "PRN", "AUX", "NUL", "COM1", "COM2", "COM3", "COM4",
    "LPT1", "LPT2", "LPT3"]

def stem (name : String) : String :=
  String.ofList
    ((name.toList.takeWhile (· ≠ '.')).map Char.toUpper)

def validateFileEntry
    (entry : FileEntry) : CoreResult Unit :=
  if entry.fileId = 0 then
    .error (.protocol "file_id cannot be nil")
  else if entry.name = "" then
    .error (.protocol "file name cannot be empty")
  else if stem entry.name ∈ reserved then
    .error (.protocol ("reserved filename: " ++ entry.name))
  else
    .ok ()

end Validator

end S4Drive

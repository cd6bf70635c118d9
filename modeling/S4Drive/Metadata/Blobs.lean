import Mathlib.Data.List.Infix
import S4Drive.Library.ObjectStore
import S4Drive.Library.Script
import S4Drive.Library.ThreadSystem
import S4Drive.Core.Error
import S4Drive.Metadata.Types

/-
  Files as blobs: a file is hashed, its hash is the key of
  an object, and the file is uploaded to that key if the
  object is not there. The file may change between any two
  reads, a write may be carried out late or twice although
  its answer was lost, and a call may stop anywhere.

  Main declarations:
    * `BlobWorld`, `BlobReq`, `serveBlob`
    * `BlobStore.hashFile`, `BlobStore.blobKey`
    * `BlobStore.putFileIfNotExists`,
      `BlobStore.multipartUploadFileIfNotExists`
    * `BlobStore.storeFile`
    * `blobSystem`
-/

------------------------------------------------------------
-- The World
------------------------------------------------------------

namespace S4Drive

open ObjectStore Concurrency

/- A path on the disk of one device. -/
structure DiskPath where
  deviceId : DeviceId
  path : String
deriving DecidableEq

abbrev FileHandle := Nat

/- An open file is followed wherever its path leads. -/
structure Disks where
  file : DiskPath → Option FileHandle
  bytes : FileHandle → List UInt8

/-
  The disks of the devices and the bucket. The other fields
  are only noted: what the first hash of a thread's call has
  read, and the references that calls have returned.
-/
structure BlobWorld where
  disks : Disks
  store : Store String (List UInt8) Nat
  hashed : Nat → Option (List UInt8)
  returned : List ContentRef

inductive BlobReq where
  | openFile (path : DiskPath)
  -- The size that the builder of a stream looks at.
  | fileSize (path : DiskPath)
  -- How many reads will find bytes.
  | countReads
  | readAt (file : FileHandle) (offset limit : Nat)
  -- The read of a hash that finds the end of the file.
  | readEnd (file : FileHandle) (read : List UInt8)
  -- What a request fails with whose body cannot be read.
  | brokenStream
  | head (key : String)
  -- A request about a multipart upload that is not complete.
  | multipart
  | send (write : Write String (List UInt8))
  | await (ticket : Nat)

abbrev BlobResp : BlobReq → Type
  | .openFile _ => Option FileHandle
  | .fileSize _ => Option Nat
  | .countReads => Nat
  | .readAt _ _ _ => Option (List UInt8)
  | .readEnd _ _ => Bool
  | .brokenStream => CoreError
  | .head _ => CoreResult Unit
  | .multipart => CoreResult Unit
  | .send _ => Nat
  | .await _ => CoreResult Bool

inductive BlobChoice where
  | ok
  | failed
  | count (n : Nat)
  | fail (e : CoreError)
  | reply (done : Bool)

/- The first hash of a call notes what it has read. -/
def noteHashed
    (t : Nat)
    (read : List UInt8)
    (w : BlobWorld) : BlobWorld :=
  { w with
    hashed := fun u =>
      if u = t ∧ w.hashed t = none then some read
      else w.hashed u }

/-
  A read of bytes finds some, and at most as many as were
  asked for. `true` is answered only to a write that was
  applied, `false` only to one that was refused.
-/
def serveBlob
    (t : Nat)
    (r : BlobReq)
    (k : BlobChoice)
    (w : BlobWorld) : Option (BlobResp r × BlobWorld) :=
  match r, k with
  | .openFile path, .ok => some (w.disks.file path, w)
  | .openFile _, .failed => some (none, w)
  | .fileSize path, .ok =>
      some ((w.disks.file path).map fun file =>
        (w.disks.bytes file).length, w)
  | .fileSize _, .failed => some (none, w)
  | .countReads, .count n => some (n, w)
  | .readAt file offset limit, .count n =>
      let rest := (w.disks.bytes file).drop offset
      if 0 < n ∧ n ≤ limit ∧ n ≤ rest.length then
        some (some (rest.take n), w)
      else
        none
  | .readAt _ _ _, .failed => some (none, w)
  | .readEnd file read, .ok =>
      if (w.disks.bytes file).drop read.length = [] then
        some (true, noteHashed t read w)
      else
        none
  | .readEnd _ _, .failed => some (false, w)
  | .brokenStream, .fail e => some (e, w)
  | .head key, .ok =>
      match w.store.objects.lookup key with
      | some _ => some (.ok (), w)
      | none => some (.error (.notFound "object"), w)
  | .head _, .fail e =>
      if e.isNotFound then none else some (.error e, w)
  | .multipart, .ok => some (.ok (), w)
  | .multipart, .fail e => some (.error e, w)
  | .send write, .ok =>
      some (w.store.flights.length,
        { w with store := w.store.send t write })
  | .await ticket, .reply done =>
      match w.store.flights[ticket]? with
      | none => none
      | some f =>
          if (if done then f.applied else f.refused) then
            some (.ok done, w)
          else
            none
  | .await _, .fail e => some (.error e, w)
  | _, _ => none

abbrev BlobM := Script BlobReq BlobResp CoreError Unit

namespace BlobStore

/- What one pass over a file finds out. -/
structure FileHash where
  digest : List UInt8
  hash : String
  size : Nat
deriving DecidableEq

def hexDigit (n : Nat) : Char :=
  if n < 10 then Char.ofNat (48 + n) else Char.ofNat (87 + n)

/- `blake3::Hash::to_hex`. -/
def toHex (digest : List UInt8) : String :=
  String.ofList (digest.flatMap fun b =>
    [hexDigit (b.toNat / 16), hexDigit (b.toNat % 16)])

def hashOf
    (blake3 : List UInt8 → List UInt8)
    (bytes : List UInt8) : FileHash where
  digest := blake3 bytes
  hash := toHex (blake3 bytes)
  size := bytes.length

/- A UUID of the first 16 bytes. -/
def blobIdFromDigest (digest : List UInt8) : BlobId :=
  (digest.take 16).foldl (fun id b => id * 256 + b.toNat) 0

def blobKey (hash : String) : String :=
  String.ofList (".s4drive/content/blobs/".toList ++
    hash.toList.take 2 ++ '/' :: hash.toList)

def hashBufferSize : Nat := 64 * 1024

def openFile (path : DiskPath) : BlobM (Option FileHandle) :=
  Script.request (BlobReq.openFile path)

def countReads : BlobM Nat :=
  Script.request BlobReq.countReads

def readAt
    (file : FileHandle)
    (offset limit : Nat) : BlobM (Option (List UInt8)) :=
  Script.request (BlobReq.readAt file offset limit)

def readError (path : DiskPath) : CoreError :=
  .fileSystem ("read " ++ path.path)

/- Read on until a read finds nothing. -/
def readToEnd
    (path : DiskPath)
    (file : FileHandle) :
    Nat → List UInt8 → BlobM (List UInt8)
  | 0, read =>
      Script.call (.readEnd file read) fun
        | true => .ok read
        | false => .error (readError path)
  | n + 1, read => do
      let chunk ← readAt file read.length hashBufferSize
      match chunk with
      | none => Script.throw (readError path)
      | some bytes => readToEnd path file n (read ++ bytes)

/- `hash_file_blake3`. -/
def hashFile
    (blake3 : List UInt8 → List UInt8)
    (path : DiskPath) : BlobM FileHash := do
  let opened ← openFile path
  match opened with
  | none => Script.throw (.fileSystem ("open " ++ path.path))
  | some file => do
      let reads ← countReads
      let read ← readToEnd path file reads []
      pure (hashOf blake3 read)

------------------------------------------------------------
-- Uploads
------------------------------------------------------------

/- The texts of errors that are worth another attempt. -/
def retryableTexts : List String :=
  ["timeout", "internalerror", "internal server error",
    "serviceunavailable", "service unavailable", "slowdown",
    "requesttimeout", "operationaborted", "5xx", "500", "502",
    "503", "504", "429"]

def lowercase (text : String) : List Char :=
  text.toList.map Char.toLower

def isRetryable : CoreError → Bool
  | .s3 message =>
      retryableTexts.any fun part =>
        decide (part.toList <:+: lowercase message)
  | .network _ => true
  | _ => false

/- `attempts` is how often an operation is tried again. -/
def withRetry
    {α : Type}
    (operation : BlobM α) : Nat → BlobM α
  | 0 => operation
  | attempts + 1 => do
      let tried ← Script.attempt operation
      match tried with
      | .ok value => pure value
      | .error e =>
          if isRetryable e then withRetry operation attempts
          else Script.throw e

def fileStreamBufferSize : Nat := 64 * 1024

def brokenStream {α : Type} : BlobM α :=
  Script.call BlobReq.brokenStream fun e => .error e

/- The builder of the stream checks the size of the file. -/
def fileByteStream
    (path : DiskPath)
    (offset size : Nat) : BlobM Unit :=
  Script.call (.fileSize path) fun
    | some length =>
        if offset + size ≤ length then .ok ()
        else .error (.fileSystem ("stream " ++ path.path))
    | none => .error (.fileSystem ("stream " ++ path.path))

/- The body of a request: exactly `size` bytes. -/
def streamBody
    (file : FileHandle)
    (offset size : Nat) :
    Nat → List UInt8 → BlobM (List UInt8)
  | 0, body =>
      if body.length = size then pure body else brokenStream
  | n + 1, body => do
      let chunk ←
        readAt file (offset + body.length)
          (min fileStreamBufferSize (size - body.length))
      match chunk with
      | none => brokenStream
      | some bytes => streamBody file offset size n (body ++ bytes)

def readBody
    (path : DiskPath)
    (offset size : Nat) : BlobM (List UInt8) := do
  fileByteStream path offset size
  let opened ← openFile path
  match opened with
  | none => brokenStream
  | some file => do
      let reads ← countReads
      streamBody file offset size reads []

/- Send a write and wait for its answer. -/
def writeBlob
    (write : Write String (List UInt8)) : BlobM Bool := do
  let ticket : Nat ← Script.request (BlobReq.send write)
  Script.call (.await ticket) fun answer => answer

/- `false` is a 412. -/
def putFileIfNotExists
    (attempts : Nat)
    (key : String)
    (path : DiskPath)
    (size : Nat) : BlobM Bool :=
  withRetry (do
    let body ← readBody path 0 size
    writeBlob (.putIfNotExists key body)) attempts

def multipartPartSize : Nat := 5 * 1024 * 1024

def maxMultipartParts : Nat := 10000

def multipartPartCount (size : Nat) : CoreResult Nat :=
  let parts := (size + multipartPartSize - 1) / multipartPartSize
  if size = 0 then
    .error (.s3 "multipart upload requires at least one byte")
  else if parts > maxMultipartParts then
    .error (.s3
      ("multipart upload requires " ++ toString parts ++
        " parts, above the S3 limit of " ++
        toString maxMultipartParts))
  else
    .ok parts

def multipartStep : BlobM Unit :=
  Script.call BlobReq.multipart fun answer => answer

/- The ETag of a part is that of the bytes that were sent. -/
def uploadMultipartFilePart
    (attempts : Nat)
    (key : String)
    (path : DiskPath)
    (partNumber offset size : Nat) :
    BlobM (ETag (List UInt8)) :=
  if size = 0 then
    Script.throw (.s3
      ("multipart part " ++ toString partNumber ++ " for '" ++
        key ++ "' is empty"))
  else
    withRetry (do
      let body ← readBody path offset size
      multipartStep
      pure (ETag.mk body)) attempts

def uploadParts
    (attempts : Nat)
    (key : String)
    (path : DiskPath)
    (size : Nat) :
    Nat → Nat → List (ETag (List UInt8)) →
      BlobM (List (ETag (List UInt8)))
  | 0, _, parts => pure parts
  | n + 1, index, parts => do
      let offset := index * multipartPartSize
      let etag ←
        uploadMultipartFilePart attempts key path (index + 1)
          offset (min (size - offset) multipartPartSize)
      uploadParts attempts key path size n (index + 1)
        (parts ++ [etag])

/-
  The store puts together the parts that the ETags name, and
  refuses parts that it does not have.
-/
def completeMultipartUpload
    (attempts : Nat)
    (key : String)
    (parts : List (ETag (List UInt8))) : BlobM Bool :=
  withRetry
    (writeBlob (.putIfNotExists key
      (parts.flatMap fun part => part.body))) attempts

def completeFromFileIfNotExists
    (attempts : Nat)
    (key : String)
    (path : DiskPath)
    (size : Nat) : BlobM Bool := do
  let totalParts ← Script.ofExcept (multipartPartCount size)
  let parts ←
    uploadParts attempts key path size totalParts 0 []
  completeMultipartUpload attempts key parts

def abortMultipartUpload (attempts : Nat) : BlobM Unit := do
  let _ ← Script.attempt (withRetry multipartStep attempts)
  pure ()

def multipartUploadFileIfNotExists
    (attempts : Nat)
    (key : String)
    (path : DiskPath)
    (size : Nat) : BlobM Bool :=
  if size = 0 then
    putFileIfNotExists attempts key path size
  else do
    withRetry multipartStep attempts
    let result ← Script.attempt
      (completeFromFileIfNotExists attempts key path size)
    match result with
    | .ok true => pure true
    | .ok false => do
        abortMultipartUpload attempts
        pure false
    | .error e => do
        abortMultipartUpload attempts
        Script.throw e

def streamingThreshold : Nat := 10 * 1024 * 1024

def shouldStream (size : Nat) : Bool :=
  size > streamingThreshold

def headObject
    (attempts : Nat)
    (key : String) : BlobM Unit :=
  withRetry (Script.call (.head key) fun answer => answer)
    attempts

def deleteObject
    (attempts : Nat)
    (key : String) : BlobM Unit := do
  let _ ← withRetry (writeBlob (.delete key)) attempts
  pure ()

def contentRefOf (found : FileHash) (mime : String) :
    ContentRef where
  blobId := blobIdFromDigest found.digest
  hash := found.hash
  size := found.size
  mime := mime
  storageKey := blobKey found.hash

def uploadFile
    (attempts : Nat)
    (key : String)
    (path : DiskPath)
    (size : Nat) : BlobM Bool :=
  if shouldStream size then
    multipartUploadFileIfNotExists attempts key path size
  else
    putFileIfNotExists attempts key path size

/- The file is hashed again; what has changed is taken back. -/
def confirmUploaded
    (blake3 : List UInt8 → List UInt8)
    (attempts : Nat)
    (path : DiskPath)
    (found : FileHash) : BlobM Unit := do
  let after ← hashFile blake3 path
  if after.hash ≠ found.hash ∨ after.size ≠ found.size then do
    let _ ← Script.attempt
      (deleteObject attempts (blobKey found.hash))
    Script.throw (.fileSystem
      ("file changed during upload: " ++ path.path))
  else
    pure ()

def storeNew
    (blake3 : List UInt8 → List UInt8)
    (attempts : Nat)
    (path : DiskPath)
    (found : FileHash) : BlobM Unit := do
  let created ←
    uploadFile attempts (blobKey found.hash) path found.size
  if created then confirmUploaded blake3 attempts path found
  else pure ()

/- `BlobStore::store_file`. -/
def storeFile
    (blake3 : List UInt8 → List UInt8)
    (attempts : Nat)
    (path : DiskPath)
    (mime : String) : BlobM ContentRef := do
  let found ← hashFile blake3 path
  let there ← Script.attempt
    (headObject attempts (blobKey found.hash))
  match there with
  | .ok _ => pure (contentRefOf found mime)
  | .error (.notFound _) => do
      storeNew blake3 attempts path found
      pure (contentRefOf found mime)
  | .error e => Script.throw e

end BlobStore

structure StoreCall where
  path : DiskPath
  mime : String

def blobMachine :
    Machine BlobReq BlobResp BlobWorld Nat BlobChoice where
  serve := serveBlob

/- What happens without a call. -/
inductive BlobEnv where
  -- A write in flight reaches the store, maybe not first.
  | deliver (ticket : Nat)
  | writeFile (file : FileHandle) (bytes : List UInt8)
  -- A path is created, removed or leads to another file.
  | setPath (path : DiskPath) (file : Option FileHandle)

def blobEnvironment
    (e : BlobEnv)
    (w : BlobWorld) : Option BlobWorld :=
  match e with
  | .deliver ticket =>
      (w.store.deliver ticket).map fun delivered =>
        { w with store := delivered.2 }
  | .writeFile file bytes =>
      some { w with
        disks := { w.disks with
          bytes := fun other =>
            if other = file then bytes
            else w.disks.bytes other } }
  | .setPath path file =>
      some { w with
        disks := { w.disks with
          file := fun other =>
            if other = path then file
            else w.disks.file other } }

/- The reference that a call has returned, if any. -/
def noteReturned
    (r : CoreResult ContentRef)
    (w : BlobWorld) : BlobWorld :=
  match r with
  | .ok ref => { w with returned := ref :: w.returned }
  | .error _ => w

/-
  Any number of calls on any devices; `attempts` is the
  retry policy's.
-/
def blobSystem
    (blake3 : List UInt8 → List UInt8)
    (attempts : Nat) :
    ThreadSystem BlobReq BlobResp BlobWorld Nat BlobChoice
      StoreCall (CoreResult ContentRef) Unit BlobEnv where
  toMachine := blobMachine
  body := fun call v =>
    BlobStore.storeFile blake3 attempts call.path call.mime v
  boot := ()
  begin := fun t _ _ w =>
    some { w with
      hashed := fun u => if u = t then none else w.hashed u }
  finish := fun _ _ _ r _ w => noteReturned r w
  halt := fun _ w => w
  env := blobEnvironment

abbrev BlobState :=
  SystemState BlobReq BlobResp BlobWorld Nat StoreCall
    (CoreResult ContentRef) Unit

end S4Drive

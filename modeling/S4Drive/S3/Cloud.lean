import S4Drive.Library.ObjectStore
import S4Drive.Library.Script
import S4Drive.Library.ThreadSystem
import S4Drive.Metadata.Serializer

/-
  The world that the devices share: the bucket with the
  writes in flight to it, the clock, the source of fresh ids
  and the commit journals on the devices' disks. Every
  request of a program is one atomic step on it; a read may
  fail at any time, and the answer to a write may be lost.

  Main declarations:
    * `World`, `World.operationOf`, `World.deliver`
    * `Req`, `Resp`, `Choice`
    * `cloud`
    * `CloudM` and the requests as scripts
-/

------------------------------------------------------------
-- The World
------------------------------------------------------------

namespace S4Drive

open ObjectStore Concurrency

abbrev Tid := Nat

/- A journal belongs to one request about one file. -/
structure JournalId where
  requestId : Uuid
  fileId : FileId
deriving DecidableEq

/- A deletion record with the ETag of exactly those bytes. -/
structure TombstoneVersion where
  tombstone : Tombstone
  etag : ETag Body
deriving DecidableEq

/-
  What the receipt of one request says: its attempts, the
  deletion that a restore undoes and whether a confirmed
  deletion has been applied.
-/
structure Receipt where
  attempts : List Operation
  committedOpId : Option OpId
  observedDeletion : Option TombstoneVersion
  applied : Bool
deriving DecidableEq

/- A receipt in memory and the file it was opened from. -/
structure Journal where
  receipt : Receipt
  stored : Receipt
deriving DecidableEq

/-
  What a step of a call is about: a change of a file from a
  revision, the projection of an operation to the bucket, or
  the cleanup of its deletion record. A deletion has the
  tree entries that go with it and the folder, or single
  file, that it started from; a restore has the deletion
  record that it undoes; a deletion that the user has
  confirmed has the ETag of the entry that was shown.
-/
structure Change where
  fileId : FileId
  revision : Option RevisionId
  removes : List FileId
  root : Option FileId
  undoes : Option (ETag Body)
  confirmed : Option (ETag Body)
  projects : Option OpId
  cleanup : Bool
deriving DecidableEq

/- The cleanup of one deletion record. -/
def Change.cleanupOf (fileId : FileId) : Change where
  fileId := fileId
  revision := none
  removes := []
  root := none
  undoes := none
  confirmed := none
  projects := none
  cleanup := true

/- The bucket is brought up to an operation on an id. -/
def Change.projectionOf
    (fileId : FileId)
    (opId : OpId) : Change where
  fileId := fileId
  revision := none
  removes := []
  root := none
  undoes := none
  confirmed := none
  projects := some opId
  cleanup := false

/-
  A change, and how many operations had been built and how
  many versions its tree entry had had when it was chosen.
-/
structure Basis extends Change where
  built : Nat
  entries : Nat
deriving DecidableEq

/-
  Who has sent a write: the thread, the number of its call,
  how many operations had been built by then and what the
  call was about.
-/
structure Sender where
  thread : Tid
  call : Nat
  built : Nat
  basis : Option Basis
deriving DecidableEq

/- The operation that a write has brought to the bucket. -/
def Sender.projects (sender : Sender) : Option OpId :=
  sender.basis.bind fun basis => basis.projects

/-
  An operation together with the thread that built it, the
  number of the thread's call, the journal the call uses and
  the basis that the call has chosen for its change.
-/
structure Issued where
  operation : Operation
  issuer : Tid
  call : Nat
  journal : Option JournalId
  basis : Option Basis
deriving DecidableEq

/- A body that an object has had, and who has sent it. -/
structure Version where
  body : Body
  sender : Sender
deriving DecidableEq

/-
  What a call has read, and when: at which time and after
  which versions of the object and heads of the log.
-/
structure ReadNote where
  thread : Tid
  call : Nat
  key : Key
  body : Body
  now : Timestamp
  versions : List Version
  headLog : List Operation

/-
  The last five fields are history: what each thread's call
  is about, the operations built so far, oldest first, the
  ones the head pointer has named, the versions that each
  object has had and what was read, newest first. No program
  reads them.
-/
structure World where
  store : Store Key Body Sender
  now : Timestamp
  drawn : List (Uuid × Tid)
  journals : JournalId → Journal
  owner : JournalId → Option Tid
  holding : Tid → Option JournalId
  calls : Tid → Nat
  basis : Tid → Option Basis
  issued : List Issued
  headLog : List Operation
  versions : Key → List Version
  reads : List ReadNote

namespace World

/- An empty bucket and journals without attempts. -/
def fresh : World where
  store := .empty
  now := 0
  drawn := []
  journals := fun _ =>
    ⟨⟨[], none, none, false⟩, ⟨[], none, none, false⟩⟩
  owner := fun _ => none
  holding := fun _ => none
  calls := fun _ => 0
  basis := fun _ => none
  issued := []
  headLog := []
  versions := fun _ => []
  reads := []

/- How a write that thread `t` sends now is marked. -/
def sender
    (w : World)
    (t : Tid) : Sender where
  thread := t
  call := w.calls t
  built := w.issued.length
  basis := w.basis t

/- The operation that was given an id. -/
def operationOf
    (w : World)
    (id : OpId) : Option Operation :=
  (w.issued.map Issued.operation).find? fun op =>
    op.opId = id

/- The head pointer's history after a write to it. -/
def noteHead
    (w : World)
    (write : Write Key Body) : List Operation :=
  match write.key, write.body with
  | .head, some (.head (some id)) =>
      match w.operationOf id with
      | some op => op :: w.headLog
      | none => w.headLog
  | _, _ => w.headLog

/- The versions of the objects after one of the writes. -/
def noteVersion
    (w : World)
    (f : Flight Key Body Sender) : Key → List Version :=
  match f.write.body with
  | none => w.versions
  | some body => fun key =>
      if key = f.write.key then
        ⟨body, f.sender⟩ :: w.versions key
      else
        w.versions key

/- One delivery of a write that is in flight. -/
def deliver
    (w : World)
    (ticket : Nat) : Option World :=
  match w.store.deliver ticket with
  | none => none
  | some (f, store) =>
      some { w with
        store := store
        headLog :=
          if f.write.Allowed w.store.objects then
            w.noteHead f.write
          else
            w.headLog
        versions :=
          if f.write.Allowed w.store.objects then
            w.noteVersion f
          else
            w.versions }

/- Thread `t` has sent a write. -/
def sent
    (w : World)
    (t : Tid)
    (write : Write Key Body) : World :=
  { w with store := w.store.send (w.sender t) write }

/- The id was drawn before. -/
def Drawn
    (w : World)
    (id : Uuid) : Prop :=
  id ∈ w.drawn.map Prod.fst

instance (w : World) (id : Uuid) : Decidable (w.Drawn id) :=
  inferInstanceAs (Decidable (_ ∈ _))

/- Thread `t` has drawn a fresh id. -/
def draws
    (w : World)
    (t : Tid)
    (id : Uuid) : World :=
  { w with drawn := (id, t) :: w.drawn }

/- Thread `t` has built the operation `op`. -/
def stamped
    (w : World)
    (t : Tid)
    (op : Operation) : World :=
  { w.draws t op.opId.opUuid with
    issued := w.issued ++
      [⟨op, t, w.calls t, w.holding t, w.basis t⟩] }

/- The call of thread `t` turns to a change. -/
def prepares
    (w : World)
    (t : Tid)
    (change : Change) : World :=
  { w with
    basis := fun u =>
      if u = t then
        some ⟨change, w.issued.length,
          (w.versions (.tree change.fileId)).length⟩
      else
        w.basis u }

/- What thread `t` reads now. -/
def readNote
    (w : World)
    (t : Tid)
    (key : Key)
    (body : Body) : ReadNote where
  thread := t
  call := w.calls t
  key := key
  body := body
  now := w.now
  versions := w.versions key
  headLog := w.headLog

/- Thread `t` has read an object, if it is there. -/
def noteRead
    (w : World)
    (t : Tid)
    (key : Key) : World :=
  match w.store.objects.lookup key with
  | none => w
  | some body =>
      { w with reads := w.readNote t key body :: w.reads }

/- Replace one journal. -/
def setJournal
    (w : World)
    (j : JournalId)
    (journal : Journal) : World :=
  { w with
    journals :=
      fun i => if i = j then journal else w.journals i }

end World

------------------------------------------------------------
-- Requests
------------------------------------------------------------

/- Everything that a program can ask of the world. -/
inductive Req where
  | getObject (key : Key)
  | headObject (key : Key)
  | listObjects (under : Prefix)
  | now
  | send (write : Write Key Body)
  | await (ticket : Nat)
  -- A fresh id and the time, put into a new operation.
  | stamp (build : Uuid → Timestamp → Operation)
  | draw
  -- History only: what the call turns to.
  | prepare (change : Change)
  | readReceipt (journal : JournalId)
  | updateReceipt
      (journal : JournalId)
      (change : Receipt → Receipt)

abbrev Resp : Req → Type
  | .getObject _ => CoreResult Body
  | .headObject _ => CoreResult (ETag Body)
  | .listObjects _ => CoreResult (List Key)
  | .now => Timestamp
  | .send _ => Nat
  | .await _ => CoreResult Bool
  | .stamp _ => Operation
  | .draw => Uuid
  | .prepare _ => Unit
  | .readReceipt _ => CoreResult Receipt
  | .updateReceipt _ _ => CoreResult Unit

/- What the environment decides about one request. -/
inductive Choice where
  | answer
  | fail (e : CoreError)
  -- The request is carried out although it fails.
  | failAfter (e : CoreError)
  | reply (done : Bool)
  | fresh (id : Uuid)

/- The answer to a read of one object. -/
def readObject
    (w : World)
    (key : Key) : CoreResult Body :=
  match w.store.objects.lookup key with
  | some body => .ok body
  | none => .error (.notFound "object")

/-
  The answer to one request. A read reports a missing object
  exactly when it is missing. `true` is answered only to a
  write that was applied, `false` only to one that was
  refused; a retried write may have been both.
-/
def serve
    (t : Tid)
    (r : Req)
    (c : Choice)
    (w : World) : Option (Resp r × World) :=
  match r, c with
  | .getObject key, .answer =>
      some (readObject w key, w.noteRead t key)
  | .getObject _, .fail e =>
      if e.isNotFound then none else some (.error e, w)
  | .headObject key, .answer =>
      some ((readObject w key).map ETag.mk, w)
  | .headObject _, .fail e =>
      if e.isNotFound then none else some (.error e, w)
  | .listObjects under, .answer =>
      some (.ok (w.store.objects.keys.filter under.covers), w)
  | .listObjects _, .fail e => some (.error e, w)
  | .now, .answer => some (w.now, w)
  | .send write, .answer =>
      some (w.store.flights.length, w.sent t write)
  | .await ticket, .reply done =>
      match w.store.flights[ticket]? with
      | none => none
      | some f =>
          if (if done then f.applied else f.refused) then
            some (.ok done, w)
          else
            none
  | .await _, .fail e => some (.error e, w)
  | .stamp build, .fresh id =>
      if w.Drawn id then none
      else
        some (build id w.now,
          { w.draws t id with
            issued := w.issued ++
              [⟨build id w.now, t, w.calls t, w.holding t,
                w.basis t⟩] })
  | .draw, .fresh id =>
      if w.Drawn id then none else some (id, w.draws t id)
  | .prepare change, .answer =>
      some ((), w.prepares t change)
  | .readReceipt j, .answer =>
      some (.ok (w.journals j).receipt, w)
  | .readReceipt _, .fail e => some (.error e, w)
  | .updateReceipt j change, .answer =>
      some (.ok (),
        w.setJournal j
          ⟨change (w.journals j).receipt,
            change (w.journals j).receipt⟩)
  | .updateReceipt _ _, .fail e => some (.error e, w)
  | .updateReceipt j change, .failAfter e =>
      -- The file was replaced but its folder not synced.
      some (.error e,
        w.setJournal j
          ⟨(w.journals j).receipt,
            change (w.journals j).receipt⟩)
  | _, _ => none

/- The machine that the programs of all devices share. -/
def cloud : Machine Req Resp World Tid Choice where
  serve := serve

/- Programs of one device with a local value in `l`. -/
abbrev CloudM (l α : Type) := Script Req Resp CoreError l α

variable {l : Type}

def getObject
    (key : Key) : CloudM l Body :=
  Script.call (.getObject key) id

/- The ETag is all that the modelled code uses of the meta. -/
def headObject
    (key : Key) : CloudM l (ETag Body) :=
  Script.call (.headObject key) id

/- The keys of all objects under a prefix, in some order. -/
def listObjects
    (under : Prefix) : CloudM l (List Key) :=
  Script.call (.listObjects under) id

/- The time on the device's clock. -/
def now : CloudM l Timestamp :=
  Script.request (.now : Req)

/- Send a write and wait for its answer. -/
def write
    (w : Write Key Body) : CloudM l Bool := do
  let ticket : Nat ← Script.request (.send w : Req)
  Script.call (.await ticket) id

def putObject
    (key : Key)
    (body : Body) : CloudM l Unit := do
  let _ ← write (.put key body)

def putIfNotExists
    (key : Key)
    (body : Body) : CloudM l Bool :=
  write (.putIfNotExists key body)

def putIfMatch
    (key : Key)
    (body : Body)
    (expectedEtag : ETag Body) : CloudM l Bool :=
  write (.putIfMatch key body expectedEtag)

def deleteObject
    (key : Key) : CloudM l Unit := do
  let _ ← write (.delete key)

def deleteIfMatch
    (key : Key)
    (expectedEtag : ETag Body) : CloudM l Bool :=
  write (.deleteIfMatch key expectedEtag)

end S4Drive

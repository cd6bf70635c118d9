import S4Drive.Core.Text
import S4Drive.Library.Script
import S4Drive.Library.ThreadSystem

/-
  The publication of a downloaded file on Unix: the stage
  and the target are exchanged, and what was there is looked
  at once more before it is removed. Others may write to the
  target between any two requests; a write replaces all of
  the file. The locks keep out other publications only.

  Main declarations:
    * `LocalContentToken`, `Folder`, `PublishReq`
    * `publishCheckedStage`, `publish`
    * `publishKeepingLocal`
    * `publications`
-/

------------------------------------------------------------
-- The Folder
------------------------------------------------------------

namespace S4Drive

open Concurrency

namespace Download

abbrev Bytes := List UInt8

inductive LocalContentToken where
  | missing
  | hash (text : String)
deriving DecidableEq

inductive PublishError where
  | staleWrite
  | nameExists
  | fileSystem (message : String)
deriving DecidableEq

/- What has happened to the target. -/
inductive Event where
  -- Someone else has written it.
  | wrote (bytes : Bytes)
  -- Its token was taken.
  | captured (token : LocalContentToken)
  | copied (path : Text) (bytes : Bytes)
  -- The stage was put in its place.
  | placed (replaced : Option Bytes)
deriving DecidableEq

structure Folder where
  target : Option Bytes
  stage : Option Bytes
  conflictCopies : List (Text × Bytes)
  -- History of the call only, the newest event first.
  events : List Event
deriving DecidableEq

namespace Folder

variable (w : Folder)

/- Someone else writes the target. -/
def write (bytes : Bytes) : Folder :=
  { w with
    target := some bytes
    events := .wrote bytes :: w.events }

def record (e : Event) : Folder :=
  { w with events := e :: w.events }

/- The bytes that are read for a conflict copy. -/
def copySource : Bytes := w.target.getD []

def addCopy (path : Text) : Folder :=
  { w with
    conflictCopies := (path, w.copySource) :: w.conflictCopies
    events := .copied path w.copySource :: w.events }

/- Exchange the stage and the target. -/
def swap : Folder :=
  { w with
    target := w.stage
    stage := w.target
    events := .placed w.target :: w.events }

def removeStage : Folder := { w with stage := none }

end Folder

------------------------------------------------------------
-- Requests
------------------------------------------------------------

inductive Place where
  | target
  | stage
deriving DecidableEq

inductive PublishReq where
  -- `LocalContentToken::capture`
  | capture (place : Place)
  -- The stage is a regular file, and is flushed.
  | syncStage
  -- A rename that does not replace.
  | publishNew
  | exchange
  | syncParents
  | removeDisplaced
  | createConflictCopy
deriving DecidableEq

abbrev PublishValue : PublishReq → Type
  | .capture _ => LocalContentToken
  | .createConflictCopy => Text
  | _ => Unit

abbrev PublishResp (r : PublishReq) : Type :=
  Except PublishError (PublishValue r)

/- What the disk decides: a new path for a copy, or an error. -/
inductive Choice where
  | works (path : Text)
  | fails (message : String)
deriving DecidableEq

variable (blake3 : Bytes → String)

def tokenOf : Option Bytes → LocalContentToken
  | none => .missing
  | some bytes => .hash ("blake3:" ++ blake3 bytes)

/- A request that works. -/
def perform
    (path : Text)
    (w : Folder) :
    (r : PublishReq) → Option (PublishResp r × Folder)
  | .capture .target =>
      let token := tokenOf blake3 w.target
      some (.ok token, w.record (.captured token))
  | .capture .stage =>
      some (.ok (tokenOf blake3 w.stage), w)
  | .syncStage =>
      match w.stage with
      | some _ => some (.ok (), w)
      | none => none
  | .publishNew =>
      match w.stage, w.target with
      | some _, none => some (.ok (), w.swap)
      | some _, some _ => some (.error .nameExists, w)
      | none, _ => none
  | .exchange =>
      match w.stage, w.target with
      | some _, some _ => some (.ok (), w.swap)
      | _, _ => none
  | .syncParents => some (.ok (), w)
  | .removeDisplaced =>
      match w.stage with
      | some _ => some (.ok (), w.removeStage)
      | none => none
  | .createConflictCopy =>
      if path ∈ w.conflictCopies.map Prod.fst then none
      else some (.ok path, w.addCopy path)

/- One request; a request that fails changes nothing. -/
def serve
    (r : PublishReq)
    (choice : Choice)
    (w : Folder) : Option (PublishResp r × Folder) :=
  match choice with
  | .works path => perform blake3 path w r
  | .fails message => some (.error (.fileSystem message), w)

abbrev Publishing :=
  Script PublishReq PublishResp PublishError Unit

def ask (r : PublishReq) : Publishing (PublishValue r) :=
  Script.call r id

def staleOnExisting :
    Except PublishError Unit → Except PublishError Unit
  | .error .nameExists => .error .staleWrite
  | r => r

def publishCheckedStage
    (expected : LocalContentToken) : Publishing Unit := do
  ask .syncStage
  if expected = .missing then
    Script.call .publishNew staleOnExisting
    ask .syncParents
  else
    ask .exchange
    ask .syncParents
    let displaced ← ask (.capture .stage)
    if displaced ≠ expected then
      Script.throw .staleWrite
    else
      ask .removeDisplaced
      ask .syncParents

def publish
    (expected : LocalContentToken) : Publishing Unit := do
  let token ← ask (.capture .target)
  if token ≠ expected then
    Script.throw .staleWrite
  else
    publishCheckedStage expected

structure PublishedDownload where
  size : Nat
  conflictCopy : Option Text
deriving DecidableEq

/- The copy that is made of what the token says. -/
def conflictCopyOf :
    LocalContentToken → Publishing (Option Text)
  | .missing => pure none
  | .hash _ => do
      let path ← ask .createConflictCopy
      pure (some path)

def publishAgain (size : Nat) :
    Publishing PublishedDownload := do
  let expected ← ask (.capture .target)
  let conflictCopy ← conflictCopyOf expected
  publish expected
  pure ⟨size, conflictCopy⟩

def publishKeepingLocal
    (expected : LocalContentToken)
    (size : Nat) : Publishing PublishedDownload := do
  let first ← Script.attempt (publish expected)
  match first with
  | .ok () => pure ⟨size, none⟩
  | .error .staleWrite => publishAgain size
  | .error e => Script.throw e

/- A download with the content that it was decided against. -/
structure StagedDownload where
  bytes : Bytes
  expected : LocalContentToken
deriving DecidableEq

/- What is there when a call begins was written before. -/
def Folder.begin
    (w : Folder)
    (staged : StagedDownload) : Folder :=
  { w with
    stage := some staged.bytes
    events := (w.target.map Event.wrote).toList }

/- Calls, one at a time, and writes of others at any time. -/
def publications :
    ThreadSystem PublishReq PublishResp Folder Unit Choice
      StagedDownload (Except PublishError PublishedDownload)
      Unit Bytes where
  serve := fun _ => serve blake3
  body := fun staged =>
    publishKeepingLocal staged.expected staged.bytes.length
  boot := ()
  begin := fun _ staged _ w => some (w.begin staged)
  finish := fun _ _ _ _ _ w => w
  halt := fun _ w => w
  env := fun bytes w => some (w.write bytes)

end Download

end S4Drive

import S4Drive.S3.Cloud

/-
  The append-only operation log with its CAS-guarded head
  pointer, function by function. A loop of the source is a
  recursion on the number of rounds that it still has.

  Main declarations:
    * `OperationLog` and `LogM`
    * `loadHead`, `advanceHead`, `operationsSince`,
      `searchChain`
    * `commit`, `commitDurable`, `committedAttempt`
    * `superseded`, `latestOnTarget`,
      `latestRevisionOnTarget`
-/

------------------------------------------------------------
-- The Log
------------------------------------------------------------

namespace S4Drive

open ObjectStore Concurrency

/- How often `commit` reads the head again after a 412. -/
def maxCommitAttempts : Nat := 8

/- How many operations of others a 412 may be walked over. -/
def maxRebaseWalkOps : Nat := 1000

def maxHeadLoadAttempts : Nat := 3

/- How many operations a search of the chain may read. -/
def maxDurableWalkOps : Nat := 10000

/- The committed operation of a durable request. -/
structure DurableCommit where
  operation : Operation
  superseded : Bool
deriving DecidableEq

/- What the chain says about a request's own operation. -/
inductive ChainSearch where
  | found (operation : Operation) (superseded : Bool)
  | absent (foreign : Option OpId)
  | ambiguous (reason : String)
deriving DecidableEq

/- What was committed between a failed attempt and head. -/
inductive ConcurrentOps where
  | containsOwn
  | committed (ops : List Operation)
  | unverifiable (reason : String)
deriving DecidableEq

structure OperationLog where
  deviceId : DeviceId
  clock : Nat
  currentHead : Option OpId
  currentHeadEtag : Option (ETag Body)
  headLoaded : Bool
deriving DecidableEq

abbrev LogM := CloudM OperationLog

def OperationLog.new
    (deviceId : DeviceId)
    (clock : Nat) : OperationLog where
  deviceId := deviceId
  clock := clock
  currentHead := none
  currentHeadEtag := none
  headLoaded := false

namespace OperationLog

/- The log knows that head is `head` with the ETag `etag`. -/
def setHead
    (head : Option OpId)
    (etag : Option (ETag Body))
    (log : OperationLog) : OperationLog :=
  { log with
    currentHead := head
    currentHeadEtag := etag
    headLoaded := true }

/- A missing head object means that the log is empty. -/
def loadHead : LogM (Option OpId) := do
  match ← Script.attempt (headObject .head) with
  | .ok metaBefore =>
      let data ← getObject .head
      let metaAfter ← headObject .head
      if metaBefore ≠ metaAfter then
        Script.throw (.conflict
          "head pointer changed while loading; retry load_head")
      else
        match data with
        | .head (some head) =>
            Script.modify (setHead (some head) (some metaAfter))
            pure (some head)
        | .head none =>
            Script.throw (.protocol
              "head pointer object exists but is empty")
        | _ => Script.throw (.protocol "head UTF-8")
  | .error (.notFound _) =>
      Script.modify (setHead none none)
      pure none
  | .error e => Script.throw e

/- `loadHead`, again while head changes during the read. -/
def loadHeadRounds : Nat → LogM Unit
  | 0 => Script.throw (.s3 "head pointer is busy")
  | rounds + 1 => do
      match ← Script.attempt loadHead with
      | .ok _ => pure ()
      | .error (.conflict reason) =>
          if rounds = 0 then
            Script.throw
              (.s3 ("head pointer is busy: " ++ reason))
          else
            loadHeadRounds rounds
      | .error e => Script.throw e

def loadHeadConsistent : LogM Unit :=
  loadHeadRounds maxHeadLoadAttempts

/-
  Move head to `opId`. `false` is a 412. The new ETag is
  read with a request of its own after the CAS.
-/
def advanceHead
    (opId : OpId) : LogM Bool := do
  let log ← Script.get
  let advanced ←
    match log.currentHead with
    | none => putIfNotExists .head (.head (some opId))
    | some _ =>
        match log.currentHeadEtag with
        | none =>
            Script.throw (.internal
              "head ETag missing; call load_head before commit")
        | some expectedEtag =>
            putIfMatch .head (.head (some opId)) expectedEtag
  if advanced then
    let etag ← headObject .head
    Script.modify (setHead (some opId) (some etag))
    pure true
  else
    pure false

/- Build the next operation on the current head. -/
def nextOperation
    (targetFileId : Option FileId)
    (opType : OpType)
    (preconditions : Preconditions)
    (effects : Effects) : LogM Operation := do
  Script.modify fun log => { log with clock := log.clock + 1 }
  let log ← Script.get
  Script.request (.stamp fun opUuid timestamp =>
    { opId := ⟨log.deviceId, log.clock, opUuid⟩
      deviceId := log.deviceId
      actorId := toString log.deviceId
      logicalClock := log.clock
      baseHead := log.currentHead
      targetFileId := targetFileId
      opType := opType
      preconditions := preconditions
      effects := effects
      timestamp := timestamp
      signature := none } : Req)

def readOperation
    (opId : OpId) : LogM Operation := do
  let data ← getObject (.op opId)
  Script.ofExcept (Serializer.deserializeOperation data)

/- Write the operation object; a repetition is harmless. -/
def writeOperation
    (op : Operation) : LogM Unit := do
  if ← putIfNotExists (.op op.opId) (.operation op) then
    pure ()
  else
    let existing ← readOperation op.opId
    if existing = op then
      pure ()
    else
      Script.throw (.conflict
        ("operation id collision for " ++ toString op.opId))

/- Delete an attempt that lost its CAS; best effort. -/
def discardOrphanOperation
    (opId : OpId) : LogM Unit := do
  let _ ← Script.attempt (deleteObject (.op opId))

/-
  Walk from `cursor` back to the base of a failed attempt.
  The cursor is never blank: the walk ends where an
  operation has no base.
-/
def operationsSinceWalk
    (baseHead : Option OpId)
    (ownOpId : OpId) :
    Nat → List Operation → OpId → LogM ConcurrentOps
  | 0, _, _ =>
      pure (.unverifiable
        ("more than " ++ toString maxRebaseWalkOps ++
          " operations were committed concurrently"))
  | rounds + 1, concurrent, cursor =>
      if baseHead = some cursor then
        pure (.committed concurrent)
      else if cursor = ownOpId then
        pure .containsOwn
      else do
        match ← Script.attempt (readOperation cursor) with
        | .ok op =>
            match op.baseHead with
            | none =>
                match baseHead with
                | none => pure (.committed (concurrent ++ [op]))
                | some base =>
                    pure (.unverifiable
                      ("operation chain ended before base head "
                        ++ toString base))
            | some previous =>
                operationsSinceWalk baseHead ownOpId rounds
                  (concurrent ++ [op]) previous
        | .error (.notFound _) =>
            pure (.unverifiable
              ("operation " ++ toString cursor ++
                " is missing"))
        | .error e => Script.throw e

def operationsSince
    (baseHead : Option OpId)
    (ownOpId : OpId) : LogM ConcurrentOps := do
  let log ← Script.get
  match log.currentHead with
  | none => pure (.unverifiable "head pointer disappeared")
  | some cursor =>
      operationsSinceWalk baseHead ownOpId
        maxRebaseWalkOps [] cursor

/-
  Walk from `cursor` back until `isOwn` matches, an
  operation at `isFloor` proves absence, or the chain
  starts.
-/
def searchChainWalk
    (targetFileId : FileId)
    (isOwn isFloor : Operation → Bool) :
    Nat → Option OpId → OpId → LogM ChainSearch
  | 0, _, _ =>
      pure (.ambiguous
        ("more than " ++ toString maxDurableWalkOps ++
          " operations to check"))
  | rounds + 1, foreign, cursor => do
      match ← Script.attempt (readOperation cursor) with
      | .ok op =>
          if op.opId ≠ cursor then
            Script.throw (.protocol
              ("operation object " ++ toString cursor ++
                " names " ++ toString op.opId))
          else if isOwn op then
            pure (.found op foreign.isSome)
          else if isFloor op then
            pure (.absent foreign)
          else
            let foreign :=
              if foreign = none ∧
                  op.targetFileId = some targetFileId then
                some op.opId
              else
                foreign
            match op.baseHead with
            | none => pure (.absent foreign)
            | some previous =>
                searchChainWalk targetFileId isOwn isFloor
                  rounds foreign previous
      | .error (.notFound _) =>
          pure (.ambiguous
            ("operation " ++ toString cursor ++
              " is no longer in the log"))
      | .error e => Script.throw e

def searchChain
    (targetFileId : FileId)
    (isOwn isFloor : Operation → Bool) :
    LogM ChainSearch := do
  let log ← Script.get
  match log.currentHead with
  | none => pure (.absent none)
  | some cursor =>
      searchChainWalk targetFileId isOwn isFloor
        maxDurableWalkOps none cursor

def attempts
    (journal : JournalId) : LogM (List Operation) := do
  let receipt ← Script.call (.readReceipt journal) id
  pure receipt.attempts

def recordAttempt
    (journal : JournalId)
    (operation : Operation) : LogM Unit := do
  let receipt ← Script.call (.readReceipt journal) id
  if receipt.attempts.any (·.opId = operation.opId) then
    pure ()
  else
    Script.call (.updateReceipt journal fun receipt =>
      { receipt with
        attempts := receipt.attempts ++ [operation] }) id

def recordCommitted
    (journal : JournalId)
    (opId : OpId) : LogM Unit := do
  let receipt ← Script.call (.readReceipt journal) id
  match receipt.committedOpId with
  | some known =>
      if known = opId then
        pure ()
      else
        Script.throw (.protocol
          ("request already committed operation " ++
            toString known ++ ", not " ++ toString opId))
  | none =>
      Script.call (.updateReceipt journal fun receipt =>
        { receipt with committedOpId := some opId }) id

def committed
    (journal : JournalId) : LogM (Option OpId) := do
  let receipt ← Script.call (.readReceipt journal) id
  pure receipt.committedOpId

------------------------------------------------------------
-- Commits
------------------------------------------------------------

def concurrentlyCommitted
    (other : Operation)
    (fileId : FileId) : CoreError :=
  .conflict ("operation " ++ toString other.opId ++
    " on file " ++ toString fileId ++
    " was committed concurrently")

def cannotVerify
    (reason : String) : CoreError :=
  .conflict
    ("head pointer conflict: cannot verify concurrent " ++
      "operations: " ++ reason)

def headBusy : CoreError :=
  .s3 ("head pointer is busy: other devices committed first "
    ++ toString maxCommitAttempts ++
    " times in a row; retry later")

/- The operation of others that an attempt conflicts with. -/
def conflictOn
    (targetFileId : Option FileId)
    (concurrent : List Operation) :
    Option (Operation × FileId) :=
  match targetFileId with
  | none => none
  | some fileId =>
      (concurrent.find? (·.targetFileId = some fileId)).map
        fun other => (other, fileId)

def commitRounds
    (targetFileId : Option FileId)
    (opType : OpType)
    (preconditions : Preconditions)
    (effects : Effects) : Nat → LogM Operation
  | 0 => Script.throw headBusy
  | rounds + 1 => do
      let op ←
        nextOperation targetFileId opType preconditions effects
      Script.ofExcept (Validator.validateOperation op)
      writeOperation op
      let baseHead := (← Script.get).currentHead
      if ← advanceHead op.opId then
        pure op
      else
        loadHeadConsistent
        match ← operationsSince baseHead op.opId with
        | .containsOwn => pure op
        | .committed concurrent =>
            discardOrphanOperation op.opId
            match conflictOn targetFileId concurrent with
            | some (other, fileId) =>
                Script.throw (concurrentlyCommitted other fileId)
            | none =>
                commitRounds targetFileId opType preconditions
                  effects rounds
        | .unverifiable reason =>
            Script.throw (cannotVerify reason)

def commit
    (targetFileId : Option FileId)
    (opType : OpType)
    (preconditions : Preconditions)
    (effects : Effects) : LogM Operation := do
  if (← Script.get).headLoaded then
    commitRounds targetFileId opType preconditions effects
      maxCommitAttempts
  else
    loadHeadConsistent
    commitRounds targetFileId opType preconditions effects
      maxCommitAttempts

/- The request's own operation, if its journal proves one. -/
def committedAttempt
    (targetFileId : FileId)
    (journal : JournalId) : LogM (Option DurableCommit) := do
  let recorded ← attempts journal
  match recorded with
  | [] => pure none
  | first :: _ =>
      loadHeadConsistent
      let search ← searchChain targetFileId
        (fun op => recorded.any (·.opId = op.opId))
        (fun op => first.baseHead = some op.opId)
      match search with
      | .found operation superseded =>
          recordCommitted journal operation.opId
          pure (some ⟨operation, superseded⟩)
      | .absent none => pure none
      | .absent (some other) =>
          Script.throw (.conflict
            ("operation " ++ toString other ++ " on file " ++
              toString targetFileId ++
              " was committed after this change was prepared"))
      | .ambiguous reason =>
          let confirmed ← committed journal
          match confirmed.bind fun id =>
              recorded.find? (·.opId = id) with
          | some operation => pure (some ⟨operation, true⟩)
          | none =>
              Script.throw (.conflict
                ("cannot prove whether an earlier attempt on " ++
                  "file " ++ toString targetFileId ++
                  " was committed: " ++ reason))

/- The attempt to send next: a kept one on the same base. -/
def durableAttempt
    (targetFileId : FileId)
    (opType : OpType)
    (preconditions : Preconditions)
    (effects : Effects)
    (journal : JournalId)
    (pending : Option Operation)
    (baseHead : Option OpId) : LogM Operation := do
  match pending.filter (·.baseHead = baseHead) with
  | some op => pure op
  | none =>
      let op ← nextOperation (some targetFileId) opType
        preconditions effects
      Script.ofExcept (Validator.validateOperation op)
      recordAttempt journal op
      pure op

def commitDurableRounds
    (targetFileId : FileId)
    (opType : OpType)
    (preconditions : Preconditions)
    (effects : Effects)
    (journal : JournalId) :
    Nat → Option Operation → LogM DurableCommit
  | 0, _ => Script.throw headBusy
  | rounds + 1, pending => do
      let baseHead := (← Script.get).currentHead
      let op ← durableAttempt targetFileId opType preconditions
        effects journal pending baseHead
      writeOperation op
      if ← advanceHead op.opId then
        recordCommitted journal op.opId
        pure ⟨op, false⟩
      else
        loadHeadConsistent
        match ← operationsSince baseHead op.opId with
        | .containsOwn =>
            recordCommitted journal op.opId
            pure ⟨op, false⟩
        | .committed concurrent =>
            discardOrphanOperation op.opId
            match conflictOn (some targetFileId) concurrent with
            | some (other, fileId) =>
                Script.throw (concurrentlyCommitted other fileId)
            | none =>
                commitDurableRounds targetFileId opType
                  preconditions effects journal rounds none
        | .unverifiable reason =>
            Script.throw (cannotVerify reason)

/-
  `commit` for a request that may be retried: every attempt
  goes to the journal before it is written, and an attempt
  that is in the chain already is returned.
-/
def commitDurable
    (targetFileId : FileId)
    (opType : OpType)
    (preconditions : Preconditions)
    (effects : Effects)
    (journal : JournalId) : LogM DurableCommit := do
  match ← committedAttempt targetFileId journal with
  | some done => pure done
  | none =>
      let pending := (← attempts journal).getLast?
      if (← Script.get).headLoaded then
        commitDurableRounds targetFileId opType preconditions
          effects journal maxCommitAttempts pending
      else
        loadHeadConsistent
        commitDurableRounds targetFileId opType preconditions
          effects journal maxCommitAttempts pending

/- Whether a later operation targets the same file. -/
def superseded
    (ownOpId : OpId)
    (targetFileId : FileId) : LogM Bool := do
  loadHeadConsistent
  match ← searchChain targetFileId
      (fun op => op.opId = ownOpId) (fun _ => false) with
  | .found _ superseded => pure superseded
  | .absent _ =>
      Script.throw (.conflict
        ("operation " ++ toString ownOpId ++
          " is not in the committed chain"))
  | .ambiguous reason =>
      Script.throw (.conflict
        ("cannot verify later operations on file " ++
          toString targetFileId ++ ": " ++ reason))

def latestMatching
    (targetFileId : FileId)
    (found : Operation → Bool) :
    LogM (Option Operation) := do
  loadHeadConsistent
  match ← searchChain targetFileId
      (fun op =>
        op.targetFileId = some targetFileId && found op)
      (fun _ => false) with
  | .found operation _ => pure (some operation)
  | _ => pure none

/-
  The newest operation on a file in the retained chain;
  `none` also when the chain cannot be followed.
-/
def latestOnTarget
    (targetFileId : FileId) : LogM (Option Operation) :=
  latestMatching targetFileId fun _ => true

/- The newest operation that gave a file a revision. -/
def latestRevisionOnTarget
    (targetFileId : FileId) : LogM (Option Operation) :=
  latestMatching targetFileId fun op =>
    op.effects.newRevisionId.isSome

end OperationLog

/- Run a script on an operation log of its own. -/
def onLog
    {l α : Type}
    (log : OperationLog)
    (x : LogM α) : CloudM l α :=
  fun v => (x log).bind fun r => .done (r.1, v)

/- The time serves as the first clock value of a log. -/
def logicalClockSeed {l : Type} : CloudM l Nat := now

end S4Drive

namespace Concurrency

open S4Drive

/- What a script on a log of its own leaves behind. -/
theorem Meets.onLog
    {σ τ κ l α : Type}
    {M : Machine Req Resp σ τ κ} {C : Contract Req κ σ τ}
    {t : τ} {s : σ} {v : l}
    {log : OperationLog} {x : LogM α}
    {P : CoreResult α → OperationLog → σ → Prop}
    {Q : CoreResult α → l → σ → Prop}
    (hx : Meets M C t x log P s)
    (hQ : ∀ r log' s', P r log' s' → Q r v s') :
    Meets M C t (S4Drive.onLog log x) v Q s := by
  have tree :
      ∀ (p : Prog Req Resp (CoreResult α × OperationLog))
        (s : σ),
        wp M C t p (fun r s' => P r.1 r.2 s') s →
        wp M C t (p.bind fun r => .done (r.1, v))
          (fun r s' => Q r.1 r.2 s') s := by
    intro p
    induction p with
    | done r =>
        intro s hp s' hRely hInv
        exact hQ _ _ _ (hp s' hRely hInv)
    | ask r k ih =>
        intro s hp s' hRely hInv c b s'' hAdmits hServe
        rcases hp s' hRely hInv c b s'' hAdmits hServe with
          ⟨hKeeps, hRest⟩
        exact ⟨hKeeps, ih b s'' hRest⟩
  exact tree (x log) s hx

end Concurrency

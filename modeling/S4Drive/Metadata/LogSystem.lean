import S4Drive.Metadata.Ops

/-
  Devices that work on one log. Every thread owns an
  `OperationLog` value that it keeps from one call to the
  next; a thread that stops at any request loses it, and a
  commit journal is then opened again from its file.

  Main declarations:
    * `LogCall`, `LogResult`, `LogCall.run`
    * `logSystem`
    * `Returned`
    * `Reachable`
    * `opens`, `writes`, `reads`: parts of traces
-/

------------------------------------------------------------
-- Calls
------------------------------------------------------------

namespace S4Drive

open ObjectStore Concurrency

/-
  The calls that a thread can make on its log. A durable
  request is about the file that its journal belongs to.
-/
inductive LogCall where
  | new (deviceId : DeviceId) (clock : Nat)
  | loadHead
  | commit
      (targetFileId : Option FileId)
      (opType : OpType)
      (preconditions : Preconditions)
      (effects : Effects)
  | committedAttempt (journal : JournalId)
  | commitDurable
      (opType : OpType)
      (preconditions : Preconditions)
      (effects : Effects)
      (journal : JournalId)
  | superseded (ownOpId : OpId) (targetFileId : FileId)
  | latestOnTarget (targetFileId : FileId)
  | latestRevisionOnTarget (targetFileId : FileId)

inductive LogResult where
  | unit
  | head (result : CoreResult (Option OpId))
  | committed (result : CoreResult Operation)
  | attempt (result : CoreResult (Option DurableCommit))
  | durable (result : CoreResult DurableCommit)
  | superseded (result : CoreResult Bool)
  | latest (result : CoreResult (Option Operation))

namespace LogCall

/- The journal that a call works with. -/
def journal : LogCall → Option JournalId
  | committedAttempt journal => some journal
  | commitDurable _ _ _ journal => some journal
  | _ => none

/- Run a script and pack its result. -/
def pack
    {α : Type}
    (result : CoreResult α → LogResult)
    (x : LogM α)
    (log : OperationLog) :
    Prog Req Resp (LogResult × OperationLog) :=
  (x log).bind fun r => .done (result r.1, r.2)

def run : LogCall → OperationLog →
    Prog Req Resp (LogResult × OperationLog)
  | new deviceId clock, _ =>
      .done (.unit, OperationLog.new deviceId clock)
  | loadHead, log => pack .head OperationLog.loadHead log
  | commit targetFileId opType preconditions effects, log =>
      pack .committed
        (OperationLog.commit targetFileId opType
          preconditions effects) log
  | committedAttempt journal, log =>
      pack .attempt
        (OperationLog.committedAttempt journal.fileId journal)
        log
  | commitDurable opType preconditions effects journal, log =>
      pack .durable
        (OperationLog.commitDurable journal.fileId opType
          preconditions effects journal) log
  | superseded ownOpId targetFileId, log =>
      pack .superseded
        (OperationLog.superseded ownOpId targetFileId) log
  | latestOnTarget targetFileId, log =>
      pack .latest
        (OperationLog.latestOnTarget targetFileId) log
  | latestRevisionOnTarget targetFileId, log =>
      pack .latest
        (OperationLog.latestRevisionOnTarget targetFileId) log

end LogCall

/- What happens without any device. -/
inductive EnvAction where
  -- A write in flight reaches the store, maybe not first.
  | deliver (ticket : Nat)
  | tick (elapsed : Nat)
  -- A journal that nobody uses is opened from its file.
  | reopen (journal : JournalId)

namespace World

/- Give a call of thread `t` a number and its journal. -/
def beginCall
    (w : World)
    (t : Tid)
    (journal : Option JournalId) : Option World :=
  let counted : World :=
    { w with
      calls := fun u =>
        if u = t then w.calls t + 1 else w.calls u
      basis := fun u => if u = t then none else w.basis u }
  match journal with
  | none => some counted
  | some j =>
      if w.owner j = none then
        some { counted with
          owner := fun i =>
            if i = j then some t else w.owner i
          holding := fun u =>
            if u = t then some j else w.holding u }
      else
        none

/- Thread `t` no longer uses a journal. -/
def release
    (w : World)
    (t : Tid) : World :=
  match w.holding t with
  | none => w
  | some j =>
      { w with
        owner := fun i =>
          if i = j then none else w.owner i
        holding := fun u =>
          if u = t then none else w.holding u }

/- What is in memory is what the file says. -/
def reopen
    (w : World)
    (j : JournalId) : World :=
  w.setJournal j ⟨(w.journals j).stored, (w.journals j).stored⟩

/- The process of thread `t` dies. -/
def halt
    (w : World)
    (t : Tid) : World :=
  match w.holding t with
  | none => w
  | some j => (w.reopen j).release t

def environment
    (w : World) : EnvAction → Option World
  | .deliver ticket => w.deliver ticket
  | .tick elapsed => some { w with now := w.now + elapsed }
  | .reopen j =>
      if w.owner j = none then some (w.reopen j) else none

end World

/- Any number of threads, each with a log of its own. -/
def logSystem :
    ThreadSystem Req Resp World Tid Choice LogCall LogResult
      OperationLog EnvAction where
  toMachine := cloud
  body := LogCall.run
  boot := OperationLog.new 0 0
  begin := fun t c _ w => w.beginCall t c.journal
  finish := fun t _ _ _ _ w => w.release t
  halt := fun t w => w.halt t
  env := fun e w => w.environment e

abbrev LogState :=
  SystemState Req Resp World Tid LogCall LogResult
    OperationLog

abbrev LogAction := Action Tid Choice LogCall EnvAction

/- The call `c` of thread `t`, on `log`, has returned. -/
def Returned
    (s : LogState)
    (t : Tid)
    (c : LogCall)
    (log : OperationLog)
    (result : LogResult)
    (log' : OperationLog) : Prop :=
  s.threads t = .busy c log (.done (result, log'))

/-
  The operations that the objects of a store lead to: the
  one that the head pointer names, and whatever a reachable
  operation is based on.
-/
inductive Reachable
    (objects : Objects Key Body) : Operation → Prop where
  | head
      {op : Operation}
      (pointer :
        objects.lookup .head = some (.head (some op.opId)))
      (stored :
        objects.lookup (.op op.opId) = some (.operation op)) :
      Reachable objects op
  | base
      {op previous : Operation}
      (above : Reachable objects op)
      (link : op.baseHead = some previous.opId)
      (stored :
        objects.lookup (.op previous.opId) =
          some (.operation previous)) :
      Reachable objects previous

/- Thread `t` opens a log on its own device. -/
def opens (t : Tid) : List LogAction :=
  [.call t (.new t 0), .finish t]

/- The next request of `t` is a write that succeeds. -/
def writes (t : Tid) (ticket : Nat) : List LogAction :=
  [.serve t .answer, .env (.deliver ticket),
    .serve t (.reply true)]

/- The next requests of `t` are reads that succeed. -/
def reads (t : Tid) (count : Nat) : List LogAction :=
  List.replicate count (.serve t .answer)

/- A rename of the file `fileId` to `name`. -/
def renames (fileId : FileId) (name : String) : LogCall :=
  .commit (some fileId) .rename ⟨none, none, true, true⟩
    ⟨none, none, some name, none, false⟩

/- The same as a durable request with a journal. -/
def renamesDurably
    (journal : JournalId)
    (name : String) : LogCall :=
  .commitDurable .rename ⟨none, none, true, true⟩
    ⟨none, none, some name, none, false⟩ journal

end S4Drive

import S4Drive.Sync.LocalSpecs

/-
  The pieces that the operations of other devices are made
  of: one commit, and one write of anything that does not
  belong to the log. In some order they are whatever another
  device does to the log, the tree and the records.

  Main declarations:
    * `DeviceStep`, `DeviceStep.Permitted`
    * `deviceStep_meets`
    * `CarriesOut`
-/

namespace S4Drive

open ObjectStore Concurrency

inductive DeviceStep where
  | commit
      (deviceId : DeviceId)
      (targetFileId : Option FileId)
      (opType : OpType)
      (effects : Effects)
      (fileExists parentExists : Bool)
  | write
      (request : Write Key Body)
      (plain : ¬ LogKey request.key)

namespace DeviceStep

/- The type of the operation that a step commits. -/
def commits : DeviceStep → Option OpType
  | commit _ _ opType _ _ _ => some opType
  | write _ _ => none

def run : DeviceStep → CloudM Unit Unit
  | commit deviceId targetFileId opType effects fileExists
      parentExists =>
      commitSyncOperation deviceId targetFileId opType effects
        fileExists parentExists
  | write request _ => do
      let _ ← S4Drive.write request

end DeviceStep

variable {clean : Prop} {host : Host clean}
variable {t : Tid} {w : World} {step : DeviceStep}

/- The host allows what the step sends and commits. -/
def DeviceStep.Permitted
    (host : Host clean)
    (t : Tid)
    (w : World) : DeviceStep → Prop
  | commit _ targetFileId opType effects _ _ =>
      Stampable host t w targetFileId opType effects
  | write request _ => Sendable host t w request

theorem deviceStep_meets
    (hIdle : w.holding t = none)
    (hStep : step.Permitted host t w) :
    LogMeets host t step.run () (fun _ _ _ => True) w := by
  cases step with
  | commit deviceId targetFileId opType effects fileExists
      parentExists =>
      apply commitSyncOperation_meets hIdle hStep
      exact fun _ _ _ _ _ => trivial
  | write request plain =>
      apply meets_unitWrite hStep plain
      exact fun _ _ _ _ => trivial

/- A delivery of the write `f` that succeeds. -/
structure CarriesOut
    (w : World)
    (ticket : Nat)
    (f : Flight Key Body Sender) : Prop where
  flight : w.store.flights[ticket]? = some f
  allowed : f.write.Allowed w.store.objects

end S4Drive

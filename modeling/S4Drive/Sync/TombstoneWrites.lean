import S4Drive.Sync.LocalSpecs

/-
  Devices that create and replace deletion records of the
  same ids. A record is created where there is none, and
  replaced only in the version that the call was given; so
  of all writes to a version of a record one wins, and a
  call that reports a record has written or found it.

  Main declarations:
    * `TombstoneCall`, `tombstoneSystem`
    * `Reported`, `Replaces`
    * `tombstone_writes_have_one_winner`
-/

------------------------------------------------------------
-- The System
------------------------------------------------------------

namespace S4Drive

open ObjectStore Concurrency ChainLog OperationLog
open TombstoneManager

/- A deletion record and the ETag of exactly its bytes. -/
structure ObservedRecord extends TombstoneVersion where
  exact : etag = ⟨.tombstone tombstone⟩

inductive TombstoneCall where
  | create
      (fileId : FileId)
      (path name deletedBy : String)
      (contentRefs : List BlobId)
      (retentionDays : Nat)
  | replace
      (previous : ObservedRecord)
      (candidate : Tombstone)

namespace TombstoneCall

/- The id of the record that a call is about. -/
def fileId : TombstoneCall → FileId
  | create fileId _ _ _ _ _ => fileId
  | replace _ candidate => candidate.fileId

/- The step of a call that replaces the observed record. -/
def replacementOf
    (previous : TombstoneVersion)
    (candidate : Tombstone) : Change where
  fileId := candidate.fileId
  revision := none
  removes := []
  root := none
  undoes := some previous.etag
  confirmed := none
  projects := none
  cleanup := false

def run : TombstoneCall → CloudM Unit Tombstone
  | create fileId path name deletedBy contentRefs
      retentionDays =>
      createTombstone fileId path name deletedBy contentRefs
        retentionDays
  | replace previous candidate => do
      -- History only: the call turns to this record.
      Script.request (.prepare
        (replacementOf previous.toTombstoneVersion candidate) :
          Req)
      replaceTombstone previous.toTombstoneVersion candidate

end TombstoneCall

/- Any number of devices, ids and repeated calls. -/
def tombstoneSystem :
    ThreadSystem Req Resp World Tid Choice TombstoneCall
      (CoreResult Tombstone) Unit EnvAction :=
  deviceSystem TombstoneCall.run () fun _ => none

abbrev TombstoneState :=
  SystemState Req Resp World Tid TombstoneCall
    (CoreResult Tombstone) Unit

def TombstoneState.initial : TombstoneState :=
  tombstoneSystem.initial World.fresh

/- Every interleaving, with lost answers and halts. -/
abbrev TombstoneRun :
    TombstoneState → TombstoneState → Prop :=
  tombstoneSystem.Run fun _ _ => True

variable {w w' : World} {t : Tid} {c : TombstoneCall}
variable {fileId : FileId} {write : Write Key Body}
variable {sender : Sender} {f : Flight Key Body Sender}

/- The record is one that the call asks for. -/
def Reported (c : TombstoneCall) (record : Tombstone) : Prop :=
  match c with
  | .create fileId path name deletedBy contentRefs _ =>
      DeletionOf fileId path name deletedBy contentRefs record
  | .replace _ candidate =>
      record = candidate ∨ sameDeletion record candidate = true

/-
  The write replaces the very record that its call was given
  and records a deletion that is not the same.
-/
structure Replaces
    (fileId : FileId)
    (old new : Tombstone)
    (f : Flight Key Body Sender) : Prop where
  write :
    f.write =
      .putIfMatch (.tombstone fileId) (.tombstone new)
        ⟨.tombstone old⟩
  observed :
    ∃ b ∈ f.sender.basis, b.undoes = some ⟨.tombstone old⟩
  different : sameDeletion old new = false

/- What a call may send to the record of an id. -/
def RecordWriteOk
    (write : Write Key Body)
    (sender : Sender) : Prop :=
  ∀ fileId, write.key = .tombstone fileId →
    (∃ new,
      write =
        .putIfNotExists (.tombstone fileId) (.tombstone new)) ∨
    ∃ old new,
      Replaces fileId old new ⟨write, sender, false, false⟩

def RecordWritesOk (w : World) : Prop :=
  ∀ f ∈ w.store.flights, RecordWriteOk f.write f.sender

theorem RecordWritesOk.send
    (h : RecordWritesOk w)
    (hNew : RecordWriteOk write (w.sender t)) :
    RecordWritesOk (w.sent t write) := by
  intro f hf
  rcases mem_sent hf with hf | rfl
  · exact h f hf
  · exact hNew

def tombstoneHost : Host True where
  admits := fun _ _ _ _ => True
  extra := RecordWritesOk
  stamps := fun _ _ _ => True
  sent := by
    intro w t write _ h hKey
    apply h.send
    intro fileId hRecord
    rw [hRecord] at hKey
    exact hKey.elim
  stamped := fun _ h _ _ => h
  same := by
    intro w w' h hSame f hf
    rw [hSame.store] at hf
    exact h f hf

/- What a call that has returned has done. -/
def tombstonePost
    (t : Tid)
    (c : TombstoneCall)
    (r : CoreResult Tombstone)
    (w : World) : Prop :=
  ∀ record, r = .ok record →
    Reported c record ∧ RecordLeft t c.fileId record w

theorem tombstone_call :
    LogMeets tombstoneHost t c.run ()
      (fun r _ w' => tombstonePost t c r w') w := by
  cases c with
  | create fileId path name deletedBy contentRefs days =>
      apply createTombstone_meets
      · intro record _ w₁ _ hInv
        apply RecordWritesOk.send hInv.extra
        intro fileId' hKey
        cases hKey
        exact .inl ⟨record, rfl⟩
      · intro r w' _ _ hOk record hr
        exact ⟨(hOk record hr).2, (hOk record hr).1⟩
  | replace previous candidate =>
      apply meets_bind
      apply meets_prepare
      intro w₁ _ hPrepared _
      apply continues_ok
      apply replaceTombstone_meets
      · intro _ hDifferent w₂ h₂ hInv
        apply RecordWritesOk.send hInv.extra
        intro fileId' hKey
        cases hKey
        right
        refine ⟨previous.tombstone, candidate, ?_, ?_,
          hDifferent⟩
        · rw [previous.exact]
        · rcases hPrepared.about.later h₂.toSteps with
            ⟨b, hBasis, hChange⟩
          refine ⟨b, hBasis, ?_⟩
          rw [← previous.exact]
          exact congrArg Change.undoes hChange
      · intro r w' _ _ hOk record hr
        exact ⟨(hOk record hr).2, (hOk record hr).1⟩

variable {s : TombstoneState}

def tombstoneLimits :
    ThreadSystem.Limits Req Choice World Tid TombstoneCall
      Unit EnvAction where
  Starts := fun _ _ _ _ => True
  Admits := fun _ _ _ _ _ => True
  Env := fun _ _ => True

theorem tombstones_of_run
    (run : TombstoneRun .initial s) :
    ThreadSystem.StateOk tombstoneSystem
      (logContract tombstoneHost) tombstoneLimits
      (fun t _ w => w.holding t = none)
      (fun t c _ r w => tombstonePost t c r.1 w) s := by
  have hVerified :
      ThreadSystem.Verified tombstoneSystem
        (logContract tombstoneHost) tombstoneLimits
        (fun t _ w => w.holding t = none)
        (fun t c _ r w => tombstonePost t c r.1 w) := by
    apply deviceSystem_verified
    · exact fun _ _ _ _ _ _ => tombstone_call
    · intro w w' ticket hInv _ hDeliver
      rcases deliver_at hDeliver with ⟨f, _, hDelivery⟩
      intro g hg
      rcases hDelivery.old hg with ⟨g₀, hg₀, hLater⟩
      rw [hLater.write, hLater.sender]
      exact hInv.extra g₀ hg₀
  apply hVerified.stateOk_of_run
    ⟨LogInv.fresh True, fun _ hf => nomatch hf⟩ (fun _ => rfl)
  apply run.weaken
  intro s a _
  cases a with
  | call t c => exact fun _ _ => trivial
  | serve t k => exact fun _ _ _ _ _ => trivial
  | _ => trivial

/-
  A call that reports a record has written or found exactly
  that record, of the deletion it was asked for. A delivery
  that changes a record, and so its retention, records
  another deletion, in place of the record that the sending
  call was given.
-/
theorem tombstone_writes_have_one_winner
    (run : TombstoneRun .initial s) :
    (∀ t c record,
      s.threads t = .busy c () (.done (.ok record, ())) →
        Reported c record ∧
          RecordLeft t c.fileId record s.world) ∧
    ∀ ticket w' fileId old, s.world.deliver ticket = some w' →
      s.world.store.objects.lookup (.tombstone fileId) =
        some old →
      w'.store.objects.lookup (.tombstone fileId) = some old ∨
        ∃ f oldRecord newRecord,
          s.world.store.flights[ticket]? = some f ∧
          old = .tombstone oldRecord ∧
          w'.store.objects.lookup (.tombstone fileId) =
            some (.tombstone newRecord) ∧
          Replaces fileId oldRecord newRecord f := by
  have hState := tombstones_of_run run
  constructor
  · intro t c record hDone
    exact hState.post hDone record rfl
  · intro ticket w' fileId old hDeliver hOld
    rcases deliver_at hDeliver with ⟨f, hFlight, hDelivery⟩
    rcases hDelivery.lookup_cases (.tombstone fileId) with
      hSame | ⟨hKey, hAllowed, hWritten⟩
    · exact .inl (hSame.trans hOld)
    right
    rcases hState.inv.extra f hDelivery.flight fileId hKey with
      ⟨new, hCreate⟩ | ⟨oldRecord, newRecord, hReplaces⟩
    · rw [hCreate] at hAllowed
      have hMissing :
          s.world.store.objects.lookup (.tombstone fileId) =
            none := hAllowed
      rw [hOld] at hMissing
      cases hMissing
    · have hWrite : f.write = _ := hReplaces.write
      rw [hWrite] at hAllowed hWritten
      have hObserved :
          s.world.store.objects.lookup (.tombstone fileId) =
            some (.tombstone oldRecord) := hAllowed
      rw [hOld] at hObserved
      exact ⟨f, oldRecord, newRecord, hFlight,
        Option.some.inj hObserved, hWritten,
        ⟨hWrite, hReplaces.observed, hReplaces.different⟩⟩

/- The record of a first deletion of file 10. -/
def firstRecord : Tombstone where
  fileId := 10
  pathAtDelete := "a.txt"
  nameAtDelete := "a.txt"
  deletedBy := "1"
  deletedAt := 0
  retentionUntil := days 90
  contentRefs := []
  restorable := true

/- A later deletion of the same file. -/
def laterRecord : Tombstone :=
  { firstRecord with
    deletedBy := "2"
    deletedAt := 5
    retentionUntil := 5 + days 90 }

/- Device 1 creates the record, device 2 replaces it. -/
def twoDeletions :
    List (Action Tid Choice TombstoneCall EnvAction) :=
  [.call 1 (.create 10 "a.txt" "a.txt" "1" [] 90)] ++
  answered 1 1 ++ written 1 0 ++ [.finish 1,
    .call 2 (.replace ⟨⟨firstRecord, ⟨.tombstone firstRecord⟩⟩,
      rfl⟩ laterRecord)] ++
  answered 2 4 ++ written 2 1

/- Whether the call of device 2 has reported its record. -/
def laterReported (s : TombstoneState) : Bool :=
  match s.threads 2 with
  | .busy (.replace _ candidate) _ (.done (.ok record, _)) =>
      candidate = laterRecord && record = laterRecord
  | _ => false

theorem later_deletion_reported :
    ∃ s previous, TombstoneRun .initial s ∧
      Reported (.replace previous laterRecord) laterRecord ∧
      RecordLeft 2 10 laterRecord s.world := by
  have trace :
      (tombstoneSystem.exec TombstoneState.initial
        twoDeletions).any laterReported = true := by
    decide +kernel
  rcases ThreadSystem.Run.exists_of_execIf
      (fun _ _ _ => trivial) twoDeletions trace with
    ⟨s, run, hTest⟩
  unfold laterReported at hTest
  split at hTest
  · rename_i previous candidate _ record _ hThread
    simp only [Bool.and_eq_true, decide_eq_true_eq] at hTest
    rcases hTest with ⟨rfl, rfl⟩
    have hDone :=
      (tombstone_writes_have_one_winner run).1 2 _ _ hThread
    exact ⟨s, previous, run, hDone.1, hDone.2⟩
  · cases hTest

end S4Drive

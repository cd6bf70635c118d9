import S4Drive.Sync.MaintenanceSpecs
import S4Drive.Sync.PublishSystem

/-
  What the collectors of expired deletion records remove
  while other devices delete and restore. The pass of the
  sync engine deletes a record only in the version that it
  has read. The collector of the tombstone manager deletes
  the record and the tree entry without a condition: it is
  right as long as nothing happens to the file between its
  read and the arrival of its deletes, and the log does not
  have the file live when it reads an expired record.

  Main declarations:
    * `CollectCall`, `collectSystem`
    * `LiveIn`, `SeenExpired`
    * `CollectsInTime`
    * `collector_removes_what_it_saw`
    * `live_entry_collected`
-/

------------------------------------------------------------
-- Live Files
------------------------------------------------------------

namespace S4Drive

open ObjectStore Concurrency ChainLog OperationLog
open TombstoneManager

/- The newest operation on a file does not delete it. -/
def LiveIn
    (fileId : FileId)
    (l : List Operation) : Prop :=
  ∃ op ∈ newestOn fileId l, op.effects.deleted = false

instance
    (fileId : FileId)
    (l : List Operation) : Decidable (LiveIn fileId l) :=
  inferInstanceAs (Decidable (∃ op ∈ newestOn fileId l, _))

/- A device publishes changes or collects records. -/
inductive CollectCall where
  | publish (call : PublishCall)
  | collectExpired (page : List FileId)
  | collectGarbage

namespace CollectCall

def journal : CollectCall → Option JournalId
  | publish call => call.journal
  | _ => none

def run : CollectCall → CloudM Unit Unit
  | publish call => call.run
  | collectExpired page => collectExpiredRemoteTombstones page
  | collectGarbage => do
      let _ ← TombstoneManager.collectGarbage

end CollectCall

def collectSystem :
    ThreadSystem Req Resp World Tid Choice CollectCall
      (CoreResult Unit) Unit EnvAction :=
  deviceSystem CollectCall.run () CollectCall.journal

abbrev CollectState :=
  SystemState Req Resp World Tid CollectCall
    (CoreResult Unit) Unit

abbrev CollectAction :=
  Action Tid Choice CollectCall EnvAction

def CollectState.initial : CollectState :=
  collectSystem.initial World.fresh

abbrev CollectRun
    (permits : CollectState → CollectAction → Prop) :
    CollectState → CollectState → Prop :=
  collectSystem.Run permits

------------------------------------------------------------
-- Removals
------------------------------------------------------------

variable {w w' w₁ w₂ w₃ : World} {t : Tid} {fileId : FileId}
variable {f : Flight Key Body Sender} {note : ReadNote}

/- The write was sent in the cleanup of a file's record. -/
def Collecting
    (fileId : FileId)
    (sender : Sender) : Prop :=
  ∃ b ∈ sender.basis, b.toChange = .cleanupOf fileId

instance
    (fileId : FileId)
    (sender : Sender) : Decidable (Collecting fileId sender) :=
  inferInstanceAs (Decidable (∃ b ∈ sender.basis, _))

/- The sender's call has read an expired record. -/
structure SeenExpired
    (w : World)
    (sender : Sender)
    (fileId : FileId)
    (note : ReadNote) : Prop where
  made : note ∈ w.reads
  thread : note.thread = sender.thread
  call : note.call = sender.call
  key : note.key = .tombstone fileId
  expired :
    ∃ tombstone, note.body = .tombstone tombstone ∧
      tombstone.retentionUntil ≤ note.now

theorem SeenExpired.mono
    {sender : Sender}
    (h : SeenExpired w sender fileId note)
    (hReads : w.reads <:+ w'.reads) :
    SeenExpired w' sender fileId note :=
  { h with made := hReads.subset h.made }

/- What a collector sends after it has read a record. -/
inductive Cleanup
    (fileId : FileId)
    (note : ReadNote) : Write Key Body → Prop where
  | retire :
      Cleanup fileId note
        (.deleteIfMatch (.tombstone fileId) ⟨note.body⟩)
  | record :
      Cleanup fileId note (.delete (.tombstone fileId))
  | entry
      (dead : ¬ LiveIn fileId note.headLog) :
      Cleanup fileId note (.delete (.tree fileId))

/- A collector's delete follows a read of its record. -/
def Judged
    (w : World)
    (f : Flight Key Body Sender) : Prop :=
  ∀ fileId, Collecting fileId f.sender →
    f.write.body = none → ¬ LogKey f.write.key →
      ∃ note, SeenExpired w f.sender fileId note ∧
        Cleanup fileId note f.write

theorem Judged.mono
    {f' : Flight Key Body Sender}
    (h : Judged w f)
    (hReads : w.reads <:+ w'.reads)
    (hLater : f.Later f') : Judged w' f' := by
  intro fileId
  rw [hLater.sender, hLater.write]
  intro hCollecting hRemoval hKey
  rcases h fileId hCollecting hRemoval hKey with
    ⟨note, hSeen, hCleanup⟩
  exact ⟨note, hSeen.mono hReads, hCleanup⟩

/- Every delete of a collector was judged by it. -/
def AllJudged (w : World) : Prop :=
  ∀ f ∈ w.store.flights, Judged w f

variable {write : Write Key Body}

theorem AllJudged.send
    (h : AllJudged w)
    (hNew : Judged w ⟨write, w.sender t, false, false⟩) :
    AllJudged (w.sent t write) := by
  intro f hf
  rcases mem_sent hf with hf | rfl
  · exact (h f hf).mono List.suffix_rfl (.refl f)
  · exact hNew.mono List.suffix_rfl (.refl _)

def collectHost : Host True where
  admits := fun _ _ _ _ => True
  extra := AllJudged
  stamps := fun _ _ _ => True
  sent := by
    intro w t write _ h hKey
    apply h.send
    intro fileId _ _ hNot
    exact absurd hKey hNot
  stamped := by
    intro w t op _ h _ _ f hf
    exact (h f hf).mono List.suffix_rfl (.refl f)
  same := by
    intro w w' h hSame f hf
    rw [hSame.store] at hf
    exact (h f hf).mono hSame.reads (.refl f)

/-
  A record that the call has read has not gone back to the
  bytes of an earlier one.
-/
def NoReturn
    (t : Tid)
    (fileId : FileId)
    (w : World) : Prop :=
  ∀ note ∈ w.reads, note.thread = t → note.call = w.calls t →
    note.key = .tombstone fileId →
      ∀ old ∈ note.versions,
        w.store.objects.lookup (.tombstone fileId) =
          some old.body →
        old.body = note.body

/- The record is expired only if the log has the file dead. -/
def ExpiredIsDead
    (fileId : FileId)
    (w : World) : Prop :=
  ∀ tombstone,
    w.store.objects.lookup (.tombstone fileId) =
      some (.tombstone tombstone) →
    tombstone.retentionUntil < w.now →
      ¬ LiveIn fileId w.headLog

/- What a collector may find when it reads. -/
def observesInTime
    (c : CollectCall)
    (t : Tid)
    (r : Req)
    (w : World) : Prop :=
  match c with
  | .publish _ => True
  | .collectExpired _ =>
      ∀ fileId, r = .headObject (.tombstone fileId) →
        NoReturn t fileId w
  | .collectGarbage =>
      ∀ fileId, r = .getObject (.tombstone fileId) →
        ExpiredIsDead fileId w

/-
  An unconditional delete arrives before anything else has
  happened to what it removes: to the bytes of the record,
  or to the operations on the file.
-/
def Undisturbed
    (w : World)
    (f : Flight Key Body Sender) : Prop :=
  ∀ fileId note, Collecting fileId f.sender →
    SeenExpired w f.sender fileId note →
      (f.write = .delete (.tombstone fileId) →
        w.versions (.tombstone fileId) = note.versions) ∧
      (f.write = .delete (.tree fileId) →
        newestOn fileId w.headLog =
          newestOn fileId note.headLog)

def deliversInTime
    (e : EnvAction)
    (w : World) : Prop :=
  ∀ ticket f, e = .deliver ticket →
    w.store.flights[ticket]? = some f →
      f.write.key ∈ w.store.objects → Undisturbed w f

/-
  The versioned reads of a pass do not meet a record that
  went back to earlier bytes; the unconditional collector
  reads expired records of dead files only, and what it
  removes was not touched since.
-/
def CollectsInTime
    (s : CollectState)
    (a : CollectAction) : Prop :=
  (∀ t k c v r cont, a = .serve t k →
    s.threads t = .busy c v (.ask r cont) →
      observesInTime c t r s.world) ∧
  ∀ e, a = .env e → deliversInTime e s.world

def collectLimits :
    ThreadSystem.Limits Req Choice World Tid CollectCall Unit
      EnvAction where
  Starts := fun _ _ _ _ => True
  Admits := fun c t r _ w => observesInTime c t r w
  Env := deliversInTime

------------------------------------------------------------
-- The Collectors
------------------------------------------------------------

variable {c : CollectCall}

/- The host of a call `c`. -/
abbrev collectedBy (c : CollectCall) : Host True :=
  collectHost.limit (collectLimits.Admits c)

/- A delete that follows a noted read. -/
theorem collected_sendable
    {tombstone : Tombstone}
    (hAbout : About t (.cleanupOf fileId) w₁)
    (hOthers : Others t w₁ w₂)
    (hRead :
      RecordRead (collectedBy c) t fileId tombstone w₁ w₂)
    (hExpired : tombstone.retentionUntil ≤ w₁.now)
    (hCleanup :
      Cleanup fileId
        (w₁.readNote t (.tombstone fileId)
          (.tombstone tombstone)) write) :
    Sendable (collectedBy c) t w₂ write := by
  intro w₃ h₃ hInv
  have h₁₃ := hOthers.trans h₃
  apply AllJudged.send hInv.extra
  intro id hCollecting _ _
  rcases hAbout.later h₁₃.toSteps with ⟨b, hBasis, hChange⟩
  rcases hCollecting with ⟨b', hBasis', hChange'⟩
  have hSame : b = b' := by
    simpa [World.sender, hBasis] using hBasis'
  have hId : fileId = id := by
    rw [← hSame, hChange] at hChange'
    exact congrArg Change.fileId hChange'
  subst hId
  exact ⟨_, ⟨h₃.reads.subset hRead.noted, rfl,
    h₁₃.calls.symm, rfl, tombstone, rfl, hExpired⟩, hCleanup⟩

/- The version that was read has the ETag of its bytes. -/
theorem versionRead_etag
    {page : List FileId} {version : TombstoneVersion}
    (h :
      VersionRead (collectedBy (.collectExpired page)) t fileId
        version w w₁ w₂) :
    version.etag = ⟨.tombstone version.tombstone⟩ := by
  have hReturn : NoReturn t fileId w₂ :=
    h.admitted fileId rfl
  rcases h.known with ⟨old, hOld, hBody⟩
  have hFound := h.found
  rw [← hBody] at hFound
  have hSame := hReturn _ h.record.noted rfl
    h.between.calls.symm rfl old hOld hFound
  exact congrArg ETag.mk (hBody.symm.trans hSame)

theorem collect_expired
    {page : List FileId} {time : Timestamp}
    (hTime : time ≤ w.now) :
    Retirable (collectedBy (.collectExpired page)) t fileId
      time w := by
  intro version w₁ w₂ w₃ h₁ hAbout hRead hExpired
  have hLater := h₁.now.trans hRead.before.now
  apply collected_sendable
    (hAbout.later hRead.before.toSteps) hRead.between
    hRead.record (hExpired.trans (hTime.trans hLater))
  rw [versionRead_etag hRead]
  exact .retire

theorem collect_garbage
    {time : Timestamp}
    (hTime : time ≤ w.now) :
    Collectable (collectedBy .collectGarbage) t time w := by
  intro fileId tombstone w₁ w₂ w₃ h₁ hAbout h₂ hRead h₃ hExpired
  have hLater : time ≤ w₂.now :=
    hTime.trans (h₁.now.trans h₂.now)
  have hBefore := Nat.lt_of_lt_of_le hExpired hLater
  have hAbout₂ := hAbout.later h₂.toSteps
  have hDead : ¬ LiveIn fileId w₂.headLog :=
    hRead.admitted fileId rfl tombstone hRead.found hBefore
  exact ⟨collected_sendable hAbout₂ h₃ hRead hBefore.le
      .record,
    collected_sendable hAbout₂ h₃ hRead hBefore.le
      (.entry hDead)⟩

/- A write that is no removal is sent by no collector. -/
theorem published_put
    {body : Body}
    (hBody : write.body = some body) :
    Sendable (collectedBy c) t w write := by
  intro w₁ _ hInv
  apply AllJudged.send hInv.extra
  intro fileId _ hRemoval
  exact absurd (hBody.symm.trans hRemoval)
    (Option.some_ne_none body)

/- Nor is the removal in a change that a call published. -/
theorem published_removal
    {change : Change}
    (hKept : change.cleanup = false)
    (hAbout : About t change w) :
    Sendable (collectedBy c) t w write := by
  intro w₁ h₁ hInv
  apply AllJudged.send hInv.extra
  rcases hAbout.later h₁.toSteps with ⟨b, hBasis, hChange⟩
  rintro fileId ⟨b', hBasis', hChange'⟩
  have hSame : b = b' := by
    simpa [World.sender, hBasis] using hBasis'
  rw [← hSame, hChange] at hChange'
  rw [hChange'] at hKept
  cases hKept

theorem collect_publishes
    {call : PublishCall} :
    Publishes (collectedBy (.publish call)) t call where
  entries := fun _ _ _ _ hBody => published_put hBody
  records := fun _ _ _ _ _ _ _ _ hBody => published_put hBody
  removes := fun _ _ _ hKept hAbout _ =>
    published_removal hKept hAbout
  retires := fun _ _ _ _ hKept hAbout =>
    published_removal hKept hAbout
  keeps := fun _ _ _ => trivial
  deletes := fun _ _ _ _ _ _ _ _ _ _ _ _ _ _ _ _ _ _ _ =>
    trivial
  publishes := fun _ _ _ _ _ _ _ _ _ _ _ _ _ _ _ _ _ =>
    trivial

theorem collect_call
    (hHolding : w.holding t = c.journal) :
    LogMeets (collectedBy c) t c.run () (fun _ _ _ => True)
      w := by
  cases c with
  | publish call => exact publish_meets hHolding collect_publishes
  | collectExpired page =>
      apply collectExpiredRemoteTombstones_meets
      · exact fun time w₁ _ hTime fileId _ =>
          collect_expired hTime
      · exact fun _ _ _ _ => trivial
  | collectGarbage =>
      apply meets_bind
      apply collectGarbage_meets
      · exact fun time w₁ _ hTime => collect_garbage hTime
      · intro r w' _ _
        cases r with
        | error e =>
            apply continues_error
            trivial
        | ok _ =>
            apply continues_ok
            apply meets_pure
            exact fun _ _ _ => trivial

variable {s : CollectState}

theorem judged_of_run
    (run : CollectRun CollectsInTime .initial s) :
    HostInv collectHost s.world := by
  have hState :
      DeviceStateOk CollectCall.run CollectCall.journal
        collectHost collectLimits (fun _ _ _ _ => True) s := by
    apply deviceState_of_run _ _ _ _ run
    · intro f hf
      cases hf
    · exact fun t c w hStarting =>
        collect_call hStarting.holding
    · intro w w' ticket hInv _ hDeliver f' hf'
      rcases deliver_spec hDeliver with ⟨f, hDelivery⟩
      rcases hDelivery.old hf' with ⟨f₀, hf₀, hLater⟩
      apply (hInv.extra f₀ hf₀).mono _ hLater
      rw [hDelivery.reads]
    · intro s a hPermit
      cases a with
      | serve t k =>
          exact fun c v r cont => hPermit.1 t k c v r cont rfl
      | call t c => exact fun _ _ => trivial
      | env e => exact hPermit.2 e rfl
      | _ => trivial
  exact hState.inv

/- A delivery that removes `body` from the bucket. -/
structure Removes
    (w : World)
    (ticket : Nat)
    (f : Flight Key Body Sender)
    (body : Body) : Prop where
  flight : w.store.flights[ticket]? = some f
  removal : f.write.body = none
  allowed : f.write.Allowed w.store.objects
  found : w.store.objects.lookup f.write.key = some body

/-
  The record that a collector removes is an expired one that
  its call has read, and an entry that it removes is not
  live by then.
-/
theorem collector_removes_what_it_saw
    {ticket : Nat} {body : Body}
    (run : CollectRun CollectsInTime .initial s)
    (hPermit : CollectsInTime s (.env (.deliver ticket)))
    (hRemoves : Removes s.world ticket f body)
    (hCollecting : Collecting fileId f.sender) :
    (∀ id, f.write.key = .tombstone id →
      ∃ note, SeenExpired s.world f.sender id note ∧
        note.body = body) ∧
    (∀ id, f.write.key = .tree id →
      ¬ LiveIn id s.world.headLog) := by
  rcases judged_of_run run with ⟨hInv, hJudged⟩
  rcases hRemoves with ⟨hFlight, hRemoval, hAllowed, hFound⟩
  have hExists : f.write.key ∈ s.world.store.objects := by
    rw [← AList.lookup_isSome, hFound]
    rfl
  have hUndisturbed :=
    hPermit.2 _ rfl ticket f rfl hFlight hExists
  have judged :
      ¬ LogKey f.write.key →
        ∃ note, SeenExpired s.world f.sender fileId note ∧
          Cleanup fileId note f.write :=
    hJudged f (List.mem_of_getElem? hFlight) fileId hCollecting
      hRemoval
  generalize hWrite : f.write = write at *
  constructor
  · intro id hKey
    rcases judged (by rw [hKey]; exact not_false) with
      ⟨note, hSeen, hCleanup⟩
    cases hCleanup with
    | retire =>
        cases hKey
        refine ⟨note, hSeen, ?_⟩
        have hSame := hAllowed.symm.trans hFound
        exact Option.some.inj hSame
    | record =>
        cases hKey
        refine ⟨note, hSeen, ?_⟩
        -- No record was written since the read.
        have hVersions :=
          (hUndisturbed fileId note hCollecting hSeen).1 hWrite
        have hNow := hInv.history.newest _ _ hFound
        have hThen :=
          (hInv.history.reads note hSeen.made).newest
        change (s.world.versions
          (.tombstone fileId)).head?.map _ = _ at hNow
        rw [hVersions, hThen] at hNow
        exact Option.some.inj hNow
    | entry => cases hKey
  · intro id hKey
    rcases judged (by rw [hKey]; exact not_false) with
      ⟨note, hSeen, hCleanup⟩
    cases hCleanup with
    | entry dead =>
        cases hKey
        -- No operation came after the read.
        have hNewest :=
          (hUndisturbed fileId note hCollecting hSeen).2 hWrite
        unfold LiveIn
        rw [hNewest]
        exact dead
    | _ => cases hKey

------------------------------------------------------------
-- A Record Collected in Time
------------------------------------------------------------

/- Whether a collector acts in time; `false` if unclear. -/
def collectInTime
    (s : CollectState) : CollectAction → Bool
  | .serve t _ =>
      match s.threads t with
      | .busy (.collectExpired _) _
          (.ask (.headObject (.tombstone fileId)) _) =>
          s.world.reads.all fun note =>
            note.key ≠ .tombstone fileId ||
              s.world.store.objects.lookup note.key =
                some note.body
      | .busy .collectGarbage _ (.ask (.getObject _) _) => false
      | _ => true
  | .env (.deliver ticket) =>
      match s.world.store.flights[ticket]? with
      | some f =>
          f.write.key ∉ s.world.store.objects ||
            f.write ≠ .delete f.write.key
      | none => true
  | _ => true

theorem collectsInTime_of_check
    {a : CollectAction}
    (h : collectInTime s a = true) : CollectsInTime s a := by
  constructor
  · intro t k c v r cont hServe hThread
    subst hServe
    cases c with
    | publish call => trivial
    | collectExpired page =>
        rintro fileId rfl note hNote _ _ hKey old _ hFound
        simp only [collectInTime, hThread, List.all_eq_true,
          Bool.or_eq_true, decide_eq_true_eq] at h
        have hSame := (h note hNote).resolve_left (by simp [hKey])
        rw [hKey, hFound] at hSame
        exact Option.some.inj hSame
    | collectGarbage =>
        rintro fileId rfl
        simp [collectInTime, hThread] at h
  · rintro e rfl ticket f rfl hFlight hExists fileId note _ _
    have hNot : f.write ≠ .delete f.write.key := by
      simpa [collectInTime, hFlight, hExists] using h
    constructor
    · intro hWrite
      rw [hWrite] at hNot
      exact absurd rfl hNot
    · intro hWrite
      rw [hWrite] at hNot
      exact absurd rfl hNot

/- The index row of file 10. -/
def deletedRow : FileEntry where
  fileId := 10
  parentId := none
  name := "a.txt"
  entryType := .file
  currentRevisionId := none
  contentRef := none
  size := 0
  contentHash := none
  mime := none
  updatedAt := 0
  deletedAt := none
  versionHistory := []

/- Device 1 deletes file 10; its record expires. -/
def expiredDelete : List CollectAction :=
  [.call 1 (.publish (.deleteFile 1 deletedRow "a.txt"))] ++
  answered 1 3 ++ written 1 0 ++ answered 1 2 ++
  [.serve 1 (.fresh 1)] ++ written 1 1 ++ written 1 2 ++
  answered 1 1 ++ written 1 3 ++
  [.finish 1, .env (.tick (days 91))]

/- Device 2 has sent the delete of the record. -/
def expiredPass : List CollectAction :=
  [.call 2 (.collectExpired [10])] ++ answered 2 11

/- Whether a flight is a collector's removal of a body. -/
def collects
    (s : CollectState)
    (ticket : Nat)
    (test : Write Key Body → Body → Bool) : Bool :=
  match s.world.store.flights[ticket]? with
  | some f =>
      match s.world.store.objects.lookup f.write.key with
      | some body =>
          f.write.body = none && Collecting 10 f.sender &&
            f.write.Allowed s.world.store.objects &&
            test f.write body
      | none => false
  | none => false

theorem of_collects
    {ticket : Nat} {test : Write Key Body → Body → Bool}
    (h : collects s ticket test = true) :
    ∃ f body, Removes s.world ticket f body ∧
      Collecting 10 f.sender ∧ test f.write body = true := by
  unfold collects at h
  split at h
  · rename_i f hFlight
    split at h
    · rename_i body hFound
      simp only [Bool.and_eq_true, decide_eq_true_eq] at h
      rcases h with
        ⟨⟨⟨hRemoval, hCollecting⟩, hAllowed⟩, hTest⟩
      exact ⟨f, body, ⟨hFlight, hRemoval, hAllowed, hFound⟩,
        hCollecting, hTest⟩
    · cases h
  · cases h

theorem expired_record_collected :
    ∃ s f body note,
      CollectRun CollectsInTime .initial s ∧
        Removes s.world 4 f body ∧
        SeenExpired s.world f.sender 10 note ∧
        note.body = body := by
  have trace :
      (collectSystem.execIf collectInTime CollectState.initial
        (expiredDelete ++ expiredPass)).any
        (fun s =>
          collectInTime s (.env (.deliver 4)) &&
            collects s 4 fun write _ =>
              write.key = .tombstone 10) = true := by
    decide +kernel
  rcases ThreadSystem.Run.exists_of_execIf
      (fun _ _ => collectsInTime_of_check)
      (expiredDelete ++ expiredPass) trace with
    ⟨s, run, hTest⟩
  rw [Bool.and_eq_true] at hTest
  rcases of_collects hTest.2 with
    ⟨f, body, hRemoves, hCollecting, hKey⟩
  have hPermit := collectsInTime_of_check hTest.1
  have hKey : f.write.key = .tombstone 10 := by
    simpa using hKey
  rcases (collector_removes_what_it_saw run hPermit hRemoves
      hCollecting).1 10 hKey with ⟨note, hSeen, hBody⟩
  exact ⟨s, f, body, note, run, hRemoves, hSeen, hBody⟩

/-
  Device 2 has deleted the expired record, and the delete of
  the tree entry is under way.
-/
def unconditionalPass : List CollectAction :=
  [.call 2 .collectGarbage] ++ answered 2 4 ++ written 2 4 ++
  answered 2 1

/- The intent of device 1 to restore the file. -/
def restoreOfDeleted : MutationIntent where
  requestId := 7
  fileId := 10
  createdAt := 0
  fromRelative := none
  toRelative := "a.txt"
  changes := [deletedRow]

/- Device 1 restores the file. -/
def restored : List CollectAction :=
  [.call 1 (.publish (.restore 1 true restoreOfDeleted))] ++
  answered 1 11 ++ [.serve 1 (.fresh 2)] ++ answered 1 2 ++
  written 1 6 ++ written 1 7 ++ answered 1 10 ++
  written 1 8 ++ [.finish 1]

/- The late delete removes the restored entry. -/
theorem live_entry_collected :
    ∃ s f body,
      CollectRun (fun _ _ => True) .initial s ∧
        Removes s.world 5 f body ∧
        Collecting 10 f.sender ∧ f.write.key = .tree 10 ∧
        LiveIn 10 s.world.headLog := by
  have trace :
      (collectSystem.exec CollectState.initial
        (expiredDelete ++ unconditionalPass ++ restored)).any
        (fun s => LiveIn 10 s.world.headLog &&
          collects s 5 fun write _ =>
            write.key = .tree 10) = true := by
    decide +kernel
  rcases ThreadSystem.Run.exists_of_execIf
      (fun _ _ _ => trivial)
      (expiredDelete ++ unconditionalPass ++ restored) trace
    with ⟨s, run, hTest⟩
  rw [Bool.and_eq_true] at hTest
  rcases of_collects hTest.2 with
    ⟨f, body, hRemoves, hCollecting, hKey⟩
  exact ⟨s, f, body, run, hRemoves, hCollecting,
    by simpa using hKey, by simpa using hTest.1⟩

end S4Drive

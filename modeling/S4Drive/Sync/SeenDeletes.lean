import S4Drive.Sync.PublishSystem

/-
  What a delete has seen of its file. Its operation is put
  on a head that is read for the call, so the commit notices
  every change from that read on; what was committed before
  it, but not polled yet, is noticed by nobody. A delete is
  right in every run in which it reads the head only while
  the index row that it started from is up to date.

  Main declarations:
    * `newestRevision`
    * `DeletesUpToDate`
    * `deleted_revision_is_newest`
    * `delete_over_unseen_revision`
-/

------------------------------------------------------------
-- Revisions of a File
------------------------------------------------------------

namespace S4Drive

open ObjectStore Concurrency ChainLog OperationLog

/- The newest revision that operations gave a file. -/
def newestRevision
    (fileId : FileId)
    (l : List Operation) : Option RevisionId :=
  (l.find? fun op =>
    op.targetFileId = some fileId &&
      op.effects.newRevisionId.isSome).bind
    (·.effects.newRevisionId)

variable {fileId : FileId} {change : Change}
variable {op : Operation} {w w' w₁ w₂ : World} {t : Tid}

/- Operations on other files change nothing. -/
theorem newestRevision_append
    {p q : List Operation}
    (h : ∀ op ∈ p, NotOn fileId op) :
    newestRevision fileId (p ++ q) =
      newestRevision fileId q := by
  have hNone :
      (p.find? fun op =>
        op.targetFileId = some fileId &&
          op.effects.newRevisionId.isSome) = none := by
    rw [List.find?_eq_none]
    intro op hOp hFound
    simp only [Bool.and_eq_true, decide_eq_true_eq] at hFound
    exact h op hOp hFound.1
  unfold newestRevision
  rw [List.find?_append, hNone, Option.none_or]

/-
  An operation was put on a part of the chain in which the
  file has the revision of the basis.
-/
def SeenIn
    (w : World)
    (op : Operation)
    (b : Basis) : Prop :=
  ∃ l, l <:+ w.headLog ∧ headOf l = op.baseHead ∧
    newestRevision b.fileId l = b.revision

/- A delete was put on the revision that it started from. -/
def DeleteSeen
    (w : World)
    (op : Operation)
    (basis : Option Basis) : Prop :=
  op.opType = .delete →
    ∀ fileId, op.targetFileId = some fileId →
      ∃ b, basis = some b ∧ b.fileId = fileId ∧
        SeenIn w op b

theorem DeleteSeen.mono
    {basis : Option Basis}
    (h : DeleteSeen w op basis)
    (hSuffix : w.headLog <:+ w'.headLog) :
    DeleteSeen w' op basis := by
  intro hDelete fileId hTarget
  rcases h hDelete fileId hTarget with
    ⟨b, hBasis, hFile, l, hl, hHead, hNewest⟩
  exact ⟨b, hBasis, hFile, l, hl.trans hSuffix, hHead, hNewest⟩

/- Every delete that was built has seen its revision. -/
def seenHost : Host True where
  admits := fun _ _ _ _ => True
  extra := fun w =>
    ∀ x ∈ w.issued, DeleteSeen w x.operation x.basis
  stamps := fun t op w => DeleteSeen w op (w.basis t)
  sent := fun _ h _ => h
  stamped := by
    intro w t op _ h hStamp _ x hx
    rcases List.mem_append.mp hx with hx | hx
    · exact h x hx
    · cases List.mem_singleton.mp hx
      exact hStamp
  same := by
    intro w w' h hSame x hx
    rw [hSame.issued] at hx
    apply (h x hx).mono
    rw [hSame.headLog]

/- The request reads what the head pointer names. -/
def ReadsHead
    (r : Req)
    (w : World) : Prop :=
  r = .getObject .head ∨
    r = .headObject .head ∧ w.headLog = []

/-
  A call of `t` that publishes a delete has started it from
  `b` and has not built its operation; nor is there one of
  an earlier call of the same request in the chain.
-/
structure Deleting
    (t : Tid)
    (c : PublishCall)
    (b : Basis)
    (w : World) : Prop where
  deletes : c.deletes = true
  basis : w.basis t = some b
  unbuilt :
    ∀ x ∈ w.issued, x.issuer = t → x ∈ w.issued.take b.built
  absent :
    ∀ j, c.journal = some j →
      ∀ a ∈ attemptsOf w j, a ∉ w.headLog

/- What such a call may find in the chain. -/
def upToDate
    (c : PublishCall)
    (t : Tid)
    (r : Req)
    (w : World) : Prop :=
  ReadsHead r w → ∀ b, Deleting t c b w →
    newestRevision b.fileId w.headLog = b.revision

/-
  A delete that has not built its operation reads the head
  only while the chain gives its file the revision of the
  index row that it started from.
-/
def DeletesUpToDate
    (s : PublishState)
    (a : PublishAction) : Prop :=
  ∀ t k c v r cont, a = .serve t k →
    s.threads t = .busy c v (.ask r cont) →
      upToDate c t r s.world

def seenLimits : PublishLimits where
  Starts := fun _ _ _ _ => True
  Admits := fun c t r _ w => upToDate c t r w
  Env := fun _ _ => True

variable {c : PublishCall}

/-
  A commit that has read the head while the file had the
  revision builds its operation on a part of the chain in
  which the file has it.
-/
theorem seenIn_of_attempt
    {host : Host True} {b : Basis} {opType : OpType}
    {v v' : OperationLog} {w₃ : World}
    {preconditions : Preconditions} {effects : Effects}
    (hNewest :
      newestRevision b.fileId w₁.headLog = b.revision)
    (hRead : HeadRead host t w w₁ w₂ v v')
    (hSteps : Steps t w₂ w₃)
    (hInv : LogInv True w₃)
    (hAttempt :
      CommitAttempt (some b.fileId) opType preconditions effects
        v'.currentHead op w₃) : SeenIn w₃ op b := by
  have hLater := hRead.after.toSteps.trans hSteps
  -- Nothing on the file lies between the read and the base.
  rcases hAttempt.known with ⟨l, hl, hBase⟩
  have hChain := (hInv.linear trivial).chain
  have hWalk := hAttempt.isolated b.fileId rfl
  rw [← hBase, ← hRead.head] at hWalk
  rcases hInv.basic.split hChain hl hWalk with
    ⟨p, q, rfl, hq, hNotOn⟩
  have hSame : q = w₁.headLog :=
    suffix_unique hChain.nodup
      ((List.suffix_append p q).trans hl) hLater.log hq
  refine ⟨p ++ q, hl, hBase, ?_⟩
  rw [newestRevision_append hNotOn, hSame, hNewest]

/- The head that a delete goes on from has the revision. -/
theorem deleteSeen_of_attempt
    {v v' : OperationLog} {w₃ : World}
    {preconditions : Preconditions} {effects : Effects}
    (hDeletes : c.deletes = true)
    (hPrepared : Prepared t change w)
    (hRead :
      HeadRead (seenHost.limit (seenLimits.Admits c)) t w w₁
        w₂ v v')
    (hSteps : Steps t w₂ w₃)
    (hInv : LogInv True w₃)
    (hAttempt :
      CommitAttempt (some change.fileId) .delete preconditions
        effects v'.currentHead op w₃)
    (hAbsent :
      ∀ j, c.journal = some j →
        ∀ a ∈ attemptsOf w₁ j, a ∉ w₁.headLog) :
    DeleteSeen w₃ op (w₃.basis t) := by
  intro _ file hTarget
  rw [hAttempt.target] at hTarget
  cases hTarget
  rcases hPrepared.later hRead.before with
    ⟨b, hBasis, rfl, hBuilt⟩
  have hLater := hRead.after.toSteps.trans hSteps
  refine ⟨b, hLater.basis.trans hBasis, rfl, ?_⟩
  have hDeleting : Deleting t c b w₁ :=
    ⟨hDeletes, hBasis, hBuilt, hAbsent⟩
  apply seenIn_of_attempt _ hRead hSteps hInv hAttempt
  by_cases hHead : v'.currentHead = none
  · have hNil : w₁.headLog = [] := by
      apply headKey_eq_none_iff.mp
      exact hRead.head.trans hHead
    exact hRead.missing hHead (.inr ⟨rfl, hNil⟩) b hDeleting
  · exact hRead.admitted hHead (.inl rfl) b hDeleting

/- Every call builds only deletes that have seen enough. -/
theorem seen_publishes
    (t : Tid)
    (c : PublishCall) :
    Publishes (seenHost.limit (seenLimits.Admits c)) t c where
  entries := fun _ _ _ _ _ _ _ hInv => hInv.extra
  records := fun _ _ _ _ _ _ _ _ _ _ _ hInv => hInv.extra
  removes := fun _ _ _ _ _ _ _ _ hInv => hInv.extra
  retires := fun _ _ _ _ _ _ _ _ hInv => hInv.extra
  keeps := fun _ _ hKept hDelete => absurd hDelete hKept
  deletes := by
    intro hDeletes hJournal w change effects hPrepared v v' w₁
      w₂ w₃ start op preconditions hRead hStart hSteps hInv
      hAttempt
    rw [← hStart] at hAttempt
    apply deleteSeen_of_attempt hDeletes hPrepared hRead hSteps
      hInv.log hAttempt
    intro j hj
    rw [hJournal] at hj
    cases hj
  publishes := by
    intro hDeletes j hJournal w change effects hPrepared hFile v
      start op preconditions w' hLoaded hStart hInv hAttempt
    rcases hStart.read hLoaded with
      ⟨v', w₁, w₂, hRead, rfl, hSteps, hAbsent⟩
    rw [← hFile] at hAttempt
    apply deleteSeen_of_attempt hDeletes hPrepared hRead hSteps
      hInv.log hAttempt
    intro i hi
    rw [hJournal] at hi
    cases hi
    exact hAbsent trivial

variable {s : PublishState}

theorem seen_of_run
    (run : PublishRun DeletesUpToDate .initial s) :
    HostInv seenHost s.world := by
  have hState :
      PublishStateOk seenHost seenLimits (fun _ _ _ _ => True)
        s := by
    apply publishState_of_run _ _ _ _ run
    · intro x hx
      cases hx
    · exact fun t c w hStarting =>
        publish_meets hStarting.holding (seen_publishes t c)
    · intro w w' ticket hInv _ hDeliver x hx
      rcases deliver_spec hDeliver with ⟨f, hDelivery⟩
      rw [hDelivery.issued] at hx
      exact (hInv.extra x hx).mono
        (hDelivery.suffix hInv.log.basic)
    · intro s a hPermit
      cases a with
      | serve t k =>
          exact fun c v r cont => hPermit t k c v r cont rfl
      | call t c => exact fun _ _ => trivial
      | _ => trivial
  exact hState.inv

/- The device put `op` on an index row with `revision`. -/
def StartedFrom
    (w : World)
    (op : Operation)
    (fileId : FileId)
    (revision : Option RevisionId) : Prop :=
  ∃ x ∈ w.issued, x.operation = op ∧
    x.basis.map (fun b => (b.fileId, b.revision)) =
      some (fileId, revision)

instance
    (w : World)
    (op : Operation)
    (fileId : FileId)
    (revision : Option RevisionId) :
    Decidable (StartedFrom w op fileId revision) :=
  inferInstanceAs (Decidable (∃ x ∈ w.issued, _))

/-
  A committed delete was started from the newest revision
  that was committed below it.
-/
theorem deleted_revision_is_newest
    {above below : List Operation}
    (run : PublishRun DeletesUpToDate .initial s)
    (hLog : s.world.headLog = above ++ op :: below)
    (hDelete : op.opType = .delete)
    (hTarget : op.targetFileId = some fileId) :
    StartedFrom s.world op fileId
      (newestRevision fileId below) := by
  rcases seen_of_run run with ⟨hInv, hSeen⟩
  have hMem : op ∈ s.world.headLog := by
    rw [hLog]
    simp
  rcases hInv.basic.log op hMem with ⟨x, hx, rfl⟩
  rcases hSeen x hx hDelete fileId hTarget with
    ⟨b, hBasis, rfl, l, hl, hBase, hNewest⟩
  -- The chain below the delete ends in its base.
  have hChain := (hInv.linear trivial).chain
  have hAt : x.operation :: below <:+ s.world.headLog := by
    rw [hLog]
    exact List.suffix_append above _
  have hBelow : below <:+ s.world.headLog :=
    (List.suffix_cons _ _).trans hAt
  have hLink : x.operation.baseHead = headOf below :=
    (hChain.of_suffix hAt).linked.1
  have hSame : l = below :=
    suffix_unique hChain.nodup hl hBelow
      (hBase.trans hLink)
  refine ⟨x, hx, rfl, ?_⟩
  rw [hBasis, ← hSame, hNewest]
  rfl

/- Whether what a delete reads now is its index row. -/
def deleteUpToDate
    (s : PublishState) : PublishAction → Bool
  | .serve t _ =>
      match s.threads t with
      | .busy c _ (.ask (.getObject .head) _) =>
          !c.deletes || (s.world.basis t).all fun b =>
            newestRevision b.fileId s.world.headLog =
              b.revision
      | .busy c _ (.ask (.headObject .head) _) =>
          !c.deletes || s.world.headLog ≠ []
      | _ => true
  | _ => true

theorem deletesUpToDate_of_check
    {a : PublishAction}
    (h : deleteUpToDate s a = true) : DeletesUpToDate s a := by
  intro t k c v r cont hServe hThread hReads b hDeleting
  subst hServe
  rcases hReads with rfl | ⟨rfl, hNil⟩
  · simpa [deleteUpToDate, hThread, hDeleting.deletes,
      hDeleting.basis] using h
  · simp [deleteUpToDate, hThread, hDeleting.deletes, hNil]
      at h

/- The content number `n` of file 10. -/
def draft
    (n : Nat)
    (indexed : Option RevisionId) : UploadJob where
  fileId := 10
  placement := ⟨none, "a.txt"⟩
  contentRef := ⟨n, toString n, 1, "", ""⟩
  expectedContentHash := none
  indexedRevision := indexed
  ownRevision := fun _ => none

/- The index row of file 10 at a revision. -/
def indexRow (revision : RevisionId) : FileEntry where
  fileId := 10
  parentId := none
  name := "a.txt"
  entryType := .file
  currentRevisionId := some revision
  contentRef := none
  size := 1
  contentHash := none
  mime := none
  updatedAt := 0
  deletedAt := none
  versionHistory := [revision]

/- Device 1 creates the file with revision 1. -/
def firstUpload : List PublishAction :=
  [.call 1 (.upload 1 (draft 1 none) true),
    .serve 1 (.fresh 1)] ++ answered 1 5 ++
  [.serve 1 (.fresh 2)] ++ written 1 0 ++ written 1 1 ++
  answered 1 1 ++ written 1 2 ++ [.finish 1]

/-
  Device 2 deletes the file from an index row with
  revision 1; `ticket` is the number of its first write.
-/
def deleteOfFirst (ticket : Nat) : List PublishAction :=
  [.call 2 (.deleteFile 2 (indexRow 1) "a.txt")] ++
  answered 2 3 ++ written 2 ticket ++ answered 2 4 ++
  [.serve 2 (.fresh 9)] ++ written 2 (ticket + 1) ++
  written 2 (ticket + 2)

/- Whether the newest operation is a delete of file 10. -/
def deletedLast
    (s : PublishState)
    (test : Operation → List Operation → Bool) : Bool :=
  match s.world.headLog with
  | op :: below =>
      op.opType = .delete && op.targetFileId = some 10 &&
        test op below
  | [] => false

theorem of_deletedLast
    {test : Operation → List Operation → Bool}
    (h : deletedLast s test = true) :
    ∃ op below, s.world.headLog = op :: below ∧
      op.opType = .delete ∧ op.targetFileId = some 10 ∧
      test op below = true := by
  unfold deletedLast at h
  split at h
  · rename_i op below hLog
    simp only [Bool.and_eq_true, decide_eq_true_eq] at h
    exact ⟨op, below, hLog, h.1.1, h.1.2, h.2⟩
  · cases h

theorem delete_of_newest_revision :
    ∃ s op below,
      PublishRun DeletesUpToDate .initial s ∧
        s.world.headLog = op :: below ∧
        op.opType = .delete ∧
        newestRevision 10 below = some 1 ∧
        StartedFrom s.world op 10 (newestRevision 10 below) := by
  have trace :
      (publishSystem.execIf deleteUpToDate PublishState.initial
        (firstUpload ++ deleteOfFirst 3)).any
        (fun s => deletedLast s fun _ below =>
          newestRevision 10 below = some 1) = true := by
    decide +kernel
  rcases ThreadSystem.Run.exists_of_execIf
      (fun _ _ => deletesUpToDate_of_check)
      (firstUpload ++ deleteOfFirst 3) trace with
    ⟨s, run, hTest⟩
  rcases of_deletedLast hTest with
    ⟨op, below, hLog, hDelete, hTarget, hNewest⟩
  refine ⟨s, op, below, run, hLog, hDelete,
    by simpa using hNewest, ?_⟩
  have hAt : s.world.headLog = [] ++ op :: below := hLog
  exact deleted_revision_is_newest run hAt hDelete hTarget

/- Device 1 uploads revision 3 over revision 1. -/
def secondUpload : List PublishAction :=
  [.call 1 (.upload 1 (draft 2 (some 1)) true),
    .serve 1 (.fresh 3)] ++ answered 1 8 ++
  [.serve 1 (.fresh 4)] ++ written 1 3 ++ written 1 4 ++
  answered 1 1 ++ written 1 5 ++ [.finish 1]

/- Device 2 has not polled revision 3 and deletes the file. -/
theorem delete_over_unseen_revision :
    ∃ s op below,
      PublishRun (fun _ _ => True) .initial s ∧
        s.world.headLog = op :: below ∧
        op.opType = .delete ∧ op.targetFileId = some 10 ∧
        ¬ StartedFrom s.world op 10
          (newestRevision 10 below) := by
  have trace :
      (publishSystem.exec PublishState.initial
        (firstUpload ++ secondUpload ++ deleteOfFirst 6)).any
        (fun s => deletedLast s fun op below =>
          ¬ StartedFrom s.world op 10
            (newestRevision 10 below)) = true := by
    decide +kernel
  rcases ThreadSystem.Run.exists_of_execIf
      (fun _ _ _ => trivial)
      (firstUpload ++ secondUpload ++ deleteOfFirst 6) trace
    with ⟨s, run, hTest⟩
  rcases of_deletedLast hTest with
    ⟨op, below, hLog, hDelete, hTarget, hUnseen⟩
  exact ⟨s, op, below, run, hLog, hDelete, hTarget,
    by simpa using hUnseen⟩

end S4Drive

import Mathlib.Data.List.Dedup
import S4Drive.Metadata.CompactionRuns

/-
  Compaction resumes where a run was cut off. Every run that
  ends does some of the work that is left, or finds that it
  has to wait for a device or for an operation's retention;
  so after enough of them all that may go is gone.

  Main declarations:
    * `work`, `QuietAt`, `Advances`
    * `OpLogCompactor.compact_endures`
    * `ResumesExactly`
    * `compaction_resumes`
-/

------------------------------------------------------------
-- Progress
------------------------------------------------------------

namespace S4Drive

open ObjectStore Concurrency ChainLog

variable {l α : Type} {v : l} {id : OpId}
variable {retentionDays : Nat} {chain : List Operation}
variable {latest : Option SnapshotMetadata}
variable {snapshot : SnapshotMetadata} {head : OpId}
variable {cursor : OpCompactionCursor} {p : Parts}
variable {b b' : Bucket} {op : Operation}

/- How many operations of the chain are still there. -/
def storedCount
    (chain : List Operation)
    (b : Bucket) : Nat :=
  chain.countP fun op =>
    (b.objects.lookup (.op op.opId)).isSome

/- What a cursor leaves to do besides the deletes. -/
def cursorWork
    (snapshot : SnapshotMetadata) :
    Option OpCompactionCursor → Nat
  | none => 4
  | some cursor =>
      (if cursor.pendingDelete.isEmpty then 0 else 1) +
        (if cursor.nextOp.isSome then 1 else 0) +
        (if cursor.snapshotSeq < snapshot.seqNum then 2 else 0)

/- A bound on the runs that still have something to do. -/
def work
    (chain : List Operation)
    (snapshot : SnapshotMetadata)
    (b : Bucket) : Nat :=
  2 * storedCount chain b + cursorWork snapshot (cursorOf b)

/-
  Nothing is pending, and the cursor is at its end or stands
  at an operation that is still retained.
-/
structure QuietAt
    (retentionDays : Nat)
    (b : Bucket)
    (cursor : OpCompactionCursor) : Prop where
  pending : cursor.pendingDelete = []
  next :
    cursor.nextOp = none ∨
      ∃ op, cursor.nextOp = some op.opId ∧ Stored b op ∧
        ¬ Expired retentionDays b.now op

/- A run has found nothing more to do or done some work. -/
def Advances
    (retentionDays : Nat)
    (chain : List Operation)
    (snapshot : SnapshotMetadata)
    (head : OpId)
    (b b' : Bucket) : Prop :=
  QuietAt retentionDays b' (loadedCursor b' snapshot head) ∨
    (¬ QuietAt retentionDays b (loadedCursor b snapshot head) ∧
      work chain snapshot b' < work chain snapshot b)

theorem storedCount_le
    (chain : List Operation)
    (h :
      ∀ id, b'.objects.lookup (.op id) = none ∨
        b'.objects.lookup (.op id) =
          b.objects.lookup (.op id)) :
    storedCount chain b' ≤ storedCount chain b := by
  apply List.countP_mono_left
  intro op _ hSome
  rcases h op.opId with hNone | hSame
  · rw [hNone] at hSome
    cases hSome
  · rw [← hSame]
    exact hSome

theorem storedCount_lt
    (hMem : op ∈ chain)
    (hStored : Stored b op)
    (hDeleted : Deleted b' op)
    (h :
      ∀ id, b'.objects.lookup (.op id) = none ∨
        b'.objects.lookup (.op id) =
          b.objects.lookup (.op id)) :
    storedCount chain b' < storedCount chain b := by
  rcases List.append_of_mem hMem with ⟨above, below, rfl⟩
  have hAbove : storedCount above b' ≤ storedCount above b :=
    storedCount_le _ h
  have hBelow : storedCount below b' ≤ storedCount below b :=
    storedCount_le _ h
  have hOld :
      (b.objects.lookup (.op op.opId)).isSome = true := by
    rw [hStored]
    rfl
  have hNew :
      ¬ (b'.objects.lookup (.op op.opId)).isSome = true := by
    rw [hDeleted]
    simp
  unfold storedCount at hAbove hBelow ⊢
  simp only [List.countP_append, List.countP_cons, hOld, hNew,
    if_true]
  simp only [Bool.false_eq_true, if_false]
  omega

/- A loaded cursor is not more work than the stored one. -/
theorem CompactionOk.work_loaded
    (h : CompactionOk retentionDays chain latest b)
    (hLatest : latest = some snapshot) :
    cursorWork snapshot
        (some (loadedCursor b snapshot head)) ≤
      cursorWork snapshot (cursorOf b) := by
  have initial :
      cursorWork snapshot
          (some (initialCursor b snapshot head)) ≤ 1 := by
    have hSeq :
        (initialCursor b snapshot head).snapshotSeq =
          snapshot.seqNum := rfl
    have hPending :
        (initialCursor b snapshot head).pendingDelete = [] :=
      rfl
    unfold cursorWork
    dsimp only
    rw [hSeq, hPending]
    simp only [List.isEmpty_nil, if_true, Nat.lt_irrefl,
      if_false]
    split
    · omega
    · omega
  unfold loadedCursor
  cases hCursor : cursorOf b with
  | none =>
      apply Nat.le_trans initial
      simp [cursorWork]
  | some cursor =>
      dsimp only
      split
      · exact Nat.le_refl _
      · rename_i hResumes
        apply Nat.le_trans initial
        rcases h.pass cursor hCursor with
          ⟨p, snapshot', _, hSame, _, hCovers⟩
        rw [hLatest] at hSame
        cases hSame
        have hSeq := hCovers.seq
        have hNe :
            cursor.snapshotSeq ≠ snapshot.seqNum := by
          intro hEq
          simp [OpLogCompactor.resumes, hEq] at hResumes
        have hLt :
            cursor.snapshotSeq < snapshot.seqNum := by
          omega
        simp only [cursorWork, hLt, if_true]
        omega

/- A cursor that goes on is loaded as it was written. -/
theorem loaded_of_written
    (hCursor : cursorOf b = some cursor)
    (hSeq : cursor.snapshotSeq ≤ snapshot.seqNum)
    (hMore :
      cursor.nextOp.isSome = true ∨
        cursor.pendingDelete ≠ []) :
    loadedCursor b snapshot head = cursor := by
  unfold loadedCursor
  rw [hCursor]
  dsimp only
  rw [if_pos]
  simp only [OpLogCompactor.resumes, Bool.or_eq_true,
    Bool.and_eq_true, decide_eq_true_eq, hSeq, true_and]
  left
  simpa using hMore

/- A cursor with pending deletes is the stored one. -/
theorem stored_of_pending
    (hPending :
      (loadedCursor b snapshot head).pendingDelete ≠ []) :
    cursorOf b = some (loadedCursor b snapshot head) := by
  unfold loadedCursor at hPending ⊢
  cases hCursor : cursorOf b with
  | none =>
      rw [hCursor] at hPending
      exact absurd rfl hPending
  | some cursor =>
      rw [hCursor] at hPending
      dsimp only at hPending ⊢
      split
      · rfl
      · rename_i hResumes
        rw [if_neg hResumes] at hPending
        exact absurd rfl hPending

------------------------------------------------------------
-- Runs of the Compactor
------------------------------------------------------------

/- The run has stopped at the watermarks of the devices. -/
def OpCompactionReport.waits
    (report : OpCompactionReport) : Bool :=
  report.skippedReason =
      some "active registered device has no watermark" ||
    report.skippedReason = some "no active device watermarks" ||
    report.skippedReason =
      some ("not all active devices reached " ++
        "snapshot watermark")

/- What a run leaves that has ended. -/
def CompactionPost
    (retentionDays : Nat)
    (chain : List Operation)
    (snapshot : SnapshotMetadata)
    (head : OpId)
    (b : Bucket)
    (r : CoreResult OpCompactionReport)
    (b' : Bucket) : Prop :=
  CompactionOk retentionDays chain (some snapshot) b' ∧
    ∀ report, r = .ok report →
      report.waits = true ∨
        Advances retentionDays chain snapshot head b b'

theorem cursorWork_finish
    (snapshot : SnapshotMetadata)
    (hPending : cursor.pendingDelete ≠ []) :
    cursorWork snapshot
        (some { cursor with pendingDelete := [] }) + 1 =
      cursorWork snapshot (some cursor) := by
  have hSome : cursor.pendingDelete.isEmpty = false := by
    simpa using hPending
  simp only [cursorWork, hSome, List.isEmpty_nil, if_true,
    Bool.false_eq_true, if_false]
  omega

theorem work_put
    (b : Bucket)
    (cursor : OpCompactionCursor) :
    work chain snapshot (b.put .opsTail (.opsTail cursor)) =
      2 * storedCount chain b +
        cursorWork snapshot (some cursor) := by
  unfold work storedCount
  rw [cursorOf_put]
  simp only [lookup_op_putTail]

namespace OpLogCompactor

variable {report : OpCompactionReport}

theorem deletePending_endures
    (h : CompactionOk retentionDays chain (some snapshot) b)
    (hHead : snapshot.coveredHead = some head)
    (hPending :
      (loadedCursor b snapshot head).pendingDelete ≠ []) :
    Endures Bucket.serve
      (CompactionOk retentionDays chain (some snapshot))
      (deletePending (loadedCursor b snapshot head) report) v
      (fun r _ b' =>
        CompactionPost retentionDays chain snapshot head b r
          b') b := by
  have hCursor := stored_of_pending hPending
  have hWork := cursorWork_finish snapshot hPending
  rcases h.loaded rfl hHead with
    ⟨p, hChain, hPass, hCovers⟩
  unfold deletePending
  apply endures_bind
  apply deleteOperations_endures
  · exact fun b₁ hDrop => h.drop hCursor hDrop
  intro b₁ hDrop hNone
  have h₁ := h.drop hCursor hDrop
  have hPass₁ := hPass.drop (hChain ▸ h.linked.nodup) hDrop
  have h₂ := h₁.write rfl (p.chain_finish.trans hChain)
    (hPass₁.finish hNone) ⟨hCovers.seq, hCovers.same,
      hCovers.head⟩
  apply proceeds_ok
  apply endures_bind
  apply endures_putObject h₁ h₂
  refine ⟨h₂, fun _ _ => .inr (.inr ⟨?_, ?_⟩)⟩
  · exact fun hQuiet => hPending hQuiet.pending
  · have hCount := storedCount_le chain hDrop.only
    rw [work_put]
    unfold work
    rw [hCursor]
    omega

/- A cursor whose next operation is gone is not quiet. -/
theorem not_quietAt_of_gone
    (hPass : Pass retentionDays b cursor p)
    (hRemaining : p.remaining = [])
    (hNext : cursor.nextOp.isSome = true) :
    ¬ QuietAt retentionDays b cursor := by
  intro hQuiet
  rcases hQuiet.next with hNone | ⟨op, hOp, hStored, _⟩
  · rw [hNone] at hNext
    cases hNext
  rcases hPass.next with hHead | ⟨_, hNone⟩
  · rw [hRemaining, List.nil_append, hOp] at hHead
    have hDeleted := hPass.deleted
    cases hGone : p.gone with
    | nil =>
        rw [hGone] at hHead
        cases hHead
    | cons x gone =>
        rw [hGone] at hHead hDeleted
        have hx : Deleted b x := hDeleted x (by simp)
        unfold Deleted at hx
        unfold Stored at hStored
        rw [Option.some.inj hHead, hx] at hStored
        cases hStored
  · rw [hNone] at hOp
    cases hOp

/- A cursor at an expired operation is not quiet. -/
theorem not_quietAt_of_expired
    {below : List Operation}
    (hPass : Pass retentionDays b cursor p)
    (hRemaining : p.remaining = op :: below)
    (hExpired : Expired retentionDays b.now op) :
    ¬ QuietAt retentionDays b cursor := by
  intro hQuiet
  have hNext : cursor.nextOp = some op.opId := by
    rcases hPass.next with hHead | ⟨hNone, _⟩
    · rw [hHead, hRemaining]
      rfl
    · rw [hNone] at hRemaining
      cases hRemaining
  have hOp : Stored b op := hPass.kept op (by simp [hRemaining])
  rcases hQuiet.next with hNone | ⟨x, hx, hStored, hRetained⟩
  · rw [hNone] at hNext
    cases hNext
  rw [hNext] at hx
  unfold Stored at hOp hStored
  rw [← Option.some.inj hx, hOp] at hStored
  cases hStored
  exact hRetained hExpired

/- A scan that takes nothing ends a pass or has to wait. -/
theorem emptyBatch_advances
    {scan : CompactableScan} {batch rest : List Operation}
    (h : CompactionOk retentionDays chain (some snapshot) b)
    (hPending :
      (loadedCursor b snapshot head).pendingDelete = [])
    (hNext :
      (loadedCursor b snapshot head).nextOp.isSome = true)
    (hPass :
      Pass retentionDays b (loadedCursor b snapshot head) p)
    (hCovers :
      Covers (loadedCursor b snapshot head) snapshot p)
    (hScan :
      Scanned retentionDays b
        (loadedCursor b snapshot head).nextOp p.remaining
        p.gone scan batch rest)
    (hBatch : batch = []) :
    Advances retentionDays chain snapshot head b
      (b.put .opsTail (.opsTail
        { loadedCursor b snapshot head with
          nextOp := scan.nextOp })) := by
  have hLoaded :
      cursorWork snapshot
          (some (loadedCursor b snapshot head)) ≤
        cursorWork snapshot (cursorOf b) :=
    h.work_loaded rfl
  rcases hScan.empty hBatch with
    ⟨hRest, hNone⟩ | ⟨op, below, hRest, hStart, hSame, hKept⟩
  · -- The chain ends here or was deleted before.
    right
    have hRemaining : p.remaining = [] := by
      rw [hScan.split, hBatch, hRest]
      rfl
    refine ⟨not_quietAt_of_gone hPass hRemaining hNext, ?_⟩
    rw [work_put, hNone]
    unfold work
    simp only [cursorWork, hPending, hNext, List.isEmpty_nil,
      if_true, Option.isSome_none, Bool.false_eq_true,
      if_false] at hLoaded ⊢
    omega
  · -- The first operation is still retained.
    left
    rw [hSame]
    have hWritten :
        loadedCursor
            (b.put .opsTail
              (.opsTail (loadedCursor b snapshot head)))
            snapshot head =
          loadedCursor b snapshot head :=
      loaded_of_written (cursorOf_put _ _) hCovers.seq
        (.inl hNext)
    rw [hWritten]
    refine ⟨hPending, .inr ⟨op, hStart, ?_, hKept⟩⟩
    unfold Stored
    rw [lookup_op_putTail]
    apply hPass.kept op
    rw [hScan.split, hBatch, hRest]
    simp

theorem deleteBatch_endures
    {batchLimit : Nat}
    (h : CompactionOk retentionDays chain (some snapshot) b)
    (hHead : snapshot.coveredHead = some head)
    (hPending :
      (loadedCursor b snapshot head).pendingDelete = [])
    (hNext :
      (loadedCursor b snapshot head).nextOp.isSome = true) :
    Endures Bucket.serve
      (CompactionOk retentionDays chain (some snapshot))
      (deleteBatch (loadedCursor b snapshot head) batchLimit
        retentionDays report) v
      (fun r _ b' =>
        CompactionPost retentionDays chain snapshot head b r
          b') b := by
  rcases h.loaded rfl hHead with
    ⟨p, hChain, hPass, hCovers⟩
  have hNone : p.pending = [] := by
    have hIds := hPass.pending
    rw [hPending] at hIds
    exact List.map_eq_nil_iff.mp hIds.symm
  have hTail : LogChain (p.remaining ++ p.gone) := by
    apply h.linked.of_suffix
    rw [← hChain, Parts.chain, hNone]
    exact ⟨p.newer ++ p.covered :: p.done, by simp⟩
  unfold deleteBatch
  apply endures_bind
  apply endures_request h rfl
  apply proceeds_ok
  dsimp only
  apply endures_bind
  apply compactableAncestors_endures h hTail
  · intro op hOp
    exact hPass.kept op (by simp [hOp])
  · intro op hOp
    exact hPass.deleted op (by simp [hOp])
  · exact hPass.next
  rintro scan batch rest (hScan | ⟨hZero, _⟩)
  · have hTaken := hPass.take hNone hScan
    have hSame := Parts.chain_take hNone hScan.split
    have hCovers' :
        Covers
          { loadedCursor b snapshot head with
            nextOp := scan.nextOp
            pendingDelete := scan.opIds } snapshot
          { p with pending := batch, remaining := rest } :=
      ⟨hCovers.seq, hCovers.same, hCovers.head⟩
    have h₁ := h.write rfl (hSame.trans hChain) hTaken hCovers'
    apply proceeds_ok
    split
    · rename_i hEmpty
      have hIds : scan.opIds = [] := by
        simpa using hEmpty
      have hBatch : batch = [] := by
        have hMap := hScan.ids
        rw [hIds] at hMap
        exact List.map_eq_nil_iff.mp hMap.symm
      rw [hIds, ← hPending] at h₁
      apply endures_bind
      apply endures_putObject h h₁
      exact ⟨h₁, fun _ _ => .inr (emptyBatch_advances h hPending
        hNext hPass hCovers hScan hBatch)⟩
    · rename_i hSome
      cases batch with
      | nil => exact absurd (by rw [hScan.ids]; rfl) hSome
      | cons op others =>
      apply endures_bind
      apply endures_putObject h h₁
      apply proceeds_ok
      apply endures_bind
      apply deleteOperations_endures
      · exact fun b₂ hDrop =>
          h₁.drop (cursorOf_put _ _) hDrop
      intro b₂ hDrop hGone
      have h₂ := h₁.drop (cursorOf_put _ _) hDrop
      have hPass₂ := (hTaken.written _).drop
        ((hSame.trans hChain) ▸ h.linked.nodup) hDrop
      have h₃ := h₂.write rfl
        ((Parts.chain_finish _).trans (hSame.trans hChain))
        (hPass₂.finish hGone)
        ⟨hCovers.seq, hCovers.same, hCovers.head⟩
      apply proceeds_ok
      apply endures_bind
      apply endures_putObject h₂ h₃
      refine ⟨h₃, fun _ _ => .inr (.inr ⟨?_, ?_⟩)⟩
      · exact not_quietAt_of_expired hPass hScan.split
          (hScan.expired op (by simp))
      · have hRemaining : op ∈ p.remaining := by
          rw [hScan.split]
          simp
        have hMem : op ∈ chain := by
          rw [← hChain]
          simp [Parts.chain, hRemaining]
        have hStored : Stored b op :=
          hPass.kept op (by simp [hRemaining])
        have hDeleted : Deleted b₂ op := by
          apply hGone
          rw [hScan.ids]
          simp
        have hCount := storedCount_lt hMem hStored hDeleted
          fun id => by
            rw [← lookup_op_putTail b]
            exact hDrop.only id
        rw [work_put]
        unfold work
        have hLoaded :
            cursorWork snapshot
                (some (loadedCursor b snapshot head)) ≤
              cursorWork snapshot (cursorOf b) :=
          h.work_loaded rfl
        simp only [cursorWork, hPending, hNext,
          List.isEmpty_nil, if_true] at hLoaded ⊢
        split
        · omega
        · omega
  · omega

theorem compactFrom_endures
    {batchLimit : Nat}
    (h : CompactionOk retentionDays chain (some snapshot) b)
    (hHead : snapshot.coveredHead = some head) :
    Endures Bucket.serve
      (CompactionOk retentionDays chain (some snapshot))
      (compactFrom snapshot head batchLimit retentionDays
        report) v
      (fun r _ b' =>
        CompactionPost retentionDays chain snapshot head b r
          b') b := by
  rcases h.loaded rfl hHead with
    ⟨p, hChain, hPass, hCovers⟩
  have hStored :
      ∃ op, op.opId = head ∧ Stored b op := by
    rcases hCovers.head with ⟨op, hOp, hSame⟩
    rw [hHead] at hSame
    refine ⟨op, (Option.some.inj hSame).symm,
      hPass.kept op ?_⟩
    simp only [List.mem_append, List.mem_cons] at hOp ⊢
    tauto
  rcases hStored with ⟨op, rfl, hStored⟩
  unfold compactFrom
  apply endures_bind
  apply loadOrInitializeCursor_endures h hStored
  apply proceeds_ok
  split
  · rename_i hPending
    apply deletePending_endures h hHead
    simpa using hPending
  rename_i hPending
  have hEmpty :
      (loadedCursor b snapshot op.opId).pendingDelete = [] := by
    simpa using hPending
  split
  · rename_i hNone
    apply endures_pure
    refine ⟨h, fun _ _ => .inr (.inl ⟨hEmpty, .inl ?_⟩)⟩
    simpa using hNone
  · rename_i hSome
    apply deleteBatch_endures h hHead hEmpty
    cases hNext : (loadedCursor b snapshot op.opId).nextOp with
    | none =>
        rw [hNext] at hSome
        exact absurd rfl hSome
    | some _ => rfl

end OpLogCompactor

------------------------------------------------------------
-- Watermarks Are Only Read
------------------------------------------------------------

/- The script leaves the bucket alone and learns what is so. -/
def Learns
    (b : Bucket)
    (x : CloudM l α)
    (P : α → Prop) : Prop :=
  ∀ (I : Bucket → Prop) v, I b →
    Endures Bucket.serve I x v
      (fun r v' b' =>
        v' = v ∧ b' = b ∧ ∀ a, r = .ok a → P a) b

theorem Learns.bind
    {γ : Type} {x : CloudM l α} {f : α → CloudM l γ}
    {P : α → Prop} {P' : γ → Prop}
    (hx : Learns b x P)
    (hf : ∀ a, P a → Learns b (f a) P') :
    Learns b (x >>= f) P' := by
  intro I v hI
  apply endures_bind
  apply Endures.mono (hx I v hI)
  rintro r v' b' ⟨rfl, rfl, hFound⟩
  cases r with
  | ok a => exact hf a (hFound a rfl) I _ hI
  | error e => exact ⟨rfl, rfl, fun _ h => by cases h⟩

theorem learns_pure
    {P : α → Prop} {a : α}
    (h : P a) : Learns b (pure a : CloudM l α) P := by
  refine fun _ _ _ => ⟨rfl, rfl, fun _ hOk => ?_⟩
  cases hOk
  exact h

theorem learns_ofExcept (x : CoreResult α) :
    Learns b (Script.ofExcept x : CloudM l α)
      fun a => x = .ok a :=
  fun _ _ _ => endures_ofExcept ⟨rfl, rfl, fun _ h => h⟩

theorem learns_getObject (key : Key) :
    Learns b (getObject key : CloudM l Body)
      fun body => b.objects.lookup key = some body := by
  refine fun _ _ hI =>
    endures_getObject hI ⟨rfl, rfl, fun body h => ?_⟩
  unfold Bucket.read at h
  split at h
  · rename_i found hFound
    cases h
    exact hFound
  · cases h

theorem learns_listObjects (under : Prefix) :
    Learns b (listObjects under : CloudM l (List Key))
      fun keys => ∀ key body, under.covers key = true →
        b.objects.lookup key = some body → key ∈ keys := by
  refine fun _ _ hI =>
    endures_call hI rfl ⟨rfl, rfl, fun keys h => ?_⟩
  cases h
  intro key body hCovers hBody
  apply List.mem_filter.mpr ⟨?_, hCovers⟩
  rw [← AList.mem_keys, ← AList.lookup_isSome, hBody]
  rfl

theorem learns_now :
    Learns b (now : CloudM l Timestamp)
      fun time => time = b.now :=
  fun _ _ hI =>
    endures_request hI rfl ⟨rfl, rfl, fun _ h => by cases h; rfl⟩

def HasWatermark
    (b : Bucket)
    (watermark : DeviceWatermark) : Prop :=
  ∃ id, b.objects.lookup (.deviceWatermark id) =
    some (.deviceWatermark watermark)

/- A watermark that is neither retired nor stale. -/
structure ActiveWatermark
    (staleDays : Nat)
    (b : Bucket)
    (watermark : DeviceWatermark) : Prop where
  has : HasWatermark b watermark
  status : watermark.status ≠ .retired
  fresh :
    timestampIsStale watermark.lastSeenAt staleDays b.now =
      false

namespace DeviceWatermarks

theorem readWatermarks_learns (keys : List Key) :
    Learns b
      (readWatermarks keys : CloudM l (List DeviceWatermark))
      fun watermarks => ∀ w, w ∈ watermarks ↔
        ∃ id, Key.deviceWatermark id ∈ keys ∧
          b.objects.lookup (.deviceWatermark id) =
            some (.deviceWatermark w) := by
  induction keys with
  | nil => exact learns_pure (by simp)
  | cons key rest ih =>
      cases key with
      | deviceWatermark deviceId =>
          apply (learns_getObject _).bind
          intro data hData
          apply (learns_ofExcept _).bind
          intro watermark hWatermark
          have hSame : data = .deviceWatermark watermark := by
            cases data <;> cases hWatermark
            rfl
          subst hSame
          apply ih.bind
          intro others hOthers
          apply learns_pure
          intro w
          rw [List.mem_cons, hOthers]
          constructor
          · rintro (rfl | ⟨id, hMem, hBody⟩)
            · exact ⟨deviceId, List.mem_cons_self, hData⟩
            · exact ⟨id, List.mem_cons_of_mem _ hMem, hBody⟩
          · rintro ⟨id, hMem, hBody⟩
            rcases List.mem_cons.mp hMem with hHere | hRest
            · cases hHere
              rw [hData] at hBody
              cases hBody
              exact .inl rfl
            · exact .inr ⟨id, hRest, hBody⟩
      | _ => simpa [readWatermarks] using ih

theorem readRegistrations_learns (keys : List Key) :
    Learns b (readRegistrations keys : CloudM l (List Device))
      fun devices => ∀ id device,
        Key.deviceRegistration id ∈ keys →
          b.objects.lookup (.deviceRegistration id) =
            some (.device device) → device ∈ devices := by
  induction keys with
  | nil => exact learns_pure (by simp)
  | cons key rest ih =>
      cases key with
      | deviceRegistration deviceId =>
          apply (learns_getObject _).bind
          intro data hData
          apply (learns_ofExcept _).bind
          intro found hFound
          apply ih.bind
          intro others hOthers
          apply learns_pure
          intro id device hMem hBody
          rcases List.mem_cons.mp hMem with hHere | hRest
          · cases hHere
            rw [hData] at hBody
            cases hBody
            cases hFound
            exact List.mem_cons_self
          · exact List.mem_cons_of_mem _
              (hOthers id device hRest hBody)
      | _ => simpa [readRegistrations] using ih

theorem activeWatermarks_learns (staleDays : Nat) :
    Learns b
      (activeWatermarks staleDays :
        CloudM l (List DeviceWatermark))
      fun watermarks => ∀ w,
        w ∈ watermarks ↔ ActiveWatermark staleDays b w := by
  apply (learns_listObjects _).bind
  intro keys hKeys
  apply learns_now.bind
  rintro time rfl
  apply (readWatermarks_learns keys).bind
  intro watermarks hWatermarks
  apply learns_pure
  intro w
  simp only [List.mem_filter, hWatermarks, ne_eq,
    Bool.and_eq_true, decide_eq_true_eq, Bool.not_eq_true']
  constructor
  · rintro ⟨⟨id, _, hBody⟩, hStatus, hFresh⟩
    exact ⟨⟨id, hBody⟩, hStatus, hFresh⟩
  · rintro ⟨⟨id, hBody⟩, hStatus, hFresh⟩
    exact ⟨⟨id, hKeys _ _ rfl hBody, hBody⟩, hStatus, hFresh⟩

theorem activeRegisteredDeviceIds_learns (staleDays : Nat) :
    Learns b
      (activeRegisteredDeviceIds staleDays :
        CloudM l (List DeviceId))
      fun devices => ∀ id device,
        b.objects.lookup (.deviceRegistration id) =
          some (.device device) →
        timestampIsStale device.lastSeen staleDays b.now =
          false →
        (∀ w, HasWatermark b w → w.status = .retired →
          w.deviceId ≠ device.deviceId) →
        device.deviceId ∈ devices := by
  apply (learns_listObjects _).bind
  intro keys hKeys
  apply learns_now.bind
  rintro time rfl
  apply (readWatermarks_learns keys).bind
  intro watermarks hWatermarks
  apply (readRegistrations_learns keys).bind
  intro devices hDevices
  apply learns_pure
  intro id device hBody hFresh hNotRetired
  have hMem := hDevices id device (hKeys _ _ rfl hBody) hBody
  apply List.mem_dedup.mpr
  apply List.mem_map_of_mem
  simp only [List.mem_filter, hMem, hFresh, Bool.not_false,
    Bool.true_and, true_and, decide_eq_true_eq, List.mem_map,
    not_exists, not_and, and_imp]
  intro w hw hRetired
  rcases (hWatermarks w).mp hw with ⟨id, _, hBody⟩
  exact hNotRetired w ⟨id, hBody⟩ hRetired

end DeviceWatermarks

/-
  Every device that was seen and is not retired has reported
  that it has reached the snapshot, and one at least has.
-/
structure AllReached
    (snapshot : SnapshotMetadata)
    (staleDays : Nat)
    (b : Bucket) : Prop where
  registered : ∀ id device,
    b.objects.lookup (.deviceRegistration id) =
      some (.device device) →
    timestampIsStale device.lastSeen staleDays b.now = false →
    (∀ w, HasWatermark b w → w.status = .retired →
      w.deviceId ≠ device.deviceId) →
    ∃ w, ActiveWatermark staleDays b w ∧
      w.deviceId = device.deviceId
  reached : ∀ w, ActiveWatermark staleDays b w →
    snapshot.seqNum ≤ w.appliedSnapshotSeq
  someone : ∃ w, ActiveWatermark staleDays b w

/- Where all devices have reached the snapshot the run goes on. -/
theorem OpLogCompactor.compact_goesOn
    {batchLimit staleDays : Nat} {I : Bucket → Prop}
    {Q : CoreResult OpCompactionReport → l → Bucket → Prop}
    (hI : I b)
    (hHead : snapshot.coveredHead = some head)
    (hFailed : ∀ e, Q (.error e) v b)
    (hStopped : ∀ report : OpCompactionReport,
      report.waits = true → Q (.ok report) v b)
    (hGoesOn : ∀ report, AllReached snapshot staleDays b →
      Endures Bucket.serve I
        (compactFrom snapshot head batchLimit retentionDays
          report) v Q b) :
    Endures Bucket.serve I
      (OpLogCompactor.compact snapshot batchLimit staleDays
        retentionDays) v Q b := by
  unfold OpLogCompactor.compact
  rw [hHead]
  dsimp only
  apply endures_bind
  apply Endures.mono
    (DeviceWatermarks.activeRegisteredDeviceIds_learns
      staleDays _ _ hI)
  rintro r v' b' ⟨rfl, rfl, hDevices⟩
  cases r with
  | error e => exact hFailed e
  | ok devices =>
  apply proceeds_ok
  apply endures_bind
  apply Endures.mono
    (DeviceWatermarks.activeWatermarks_learns staleDays _ _ hI)
  rintro r v'' b'' ⟨rfl, rfl, hWatermarks⟩
  cases r with
  | error e => exact hFailed e
  | ok watermarks =>
  apply proceeds_ok
  split
  · exact endures_pure (hStopped _ rfl)
  rename_i hMissing
  split
  · exact endures_pure (hStopped _ rfl)
  rename_i hNone
  split
  · exact endures_pure (hStopped _ rfl)
  rename_i hBehind
  have hFound := hWatermarks _ rfl
  apply hGoesOn
  refine ⟨?_, ?_, ?_⟩
  · intro id device hBody hFresh hNotRetired
    have hMem := hDevices _ rfl id device hBody hFresh
      hNotRetired
    have hReported : ∀ deviceId ∈ devices,
        ∃ w, w ∈ watermarks ∧ w.deviceId = deviceId := by
      simpa using hMissing
    rcases hReported _ hMem with ⟨w, hw, hId⟩
    exact ⟨w, (hFound w).mp hw, hId⟩
  · intro w hw
    have hReached : ∀ w ∈ watermarks,
        snapshot.seqNum ≤ w.appliedSnapshotSeq := by
      simpa using hBehind
    exact hReached w ((hFound w).mpr hw)
  · rcases List.exists_mem_of_ne_nil watermarks
      (by simpa using hNone) with ⟨w, hw⟩
    exact ⟨w, (hFound w).mp hw⟩

/-
  A run keeps the invariant wherever it is cut off, and does
  some of the work unless it waits for a device.
-/
theorem OpLogCompactor.compact_endures
    {batchLimit staleDays : Nat}
    (h : CompactionOk retentionDays chain (some snapshot) b)
    (hHead : snapshot.coveredHead = some head) :
    Endures Bucket.serve
      (CompactionOk retentionDays chain (some snapshot))
      (OpLogCompactor.compact snapshot batchLimit staleDays
        retentionDays) v
      (fun r _ b' =>
        CompactionPost retentionDays chain snapshot head b r
          b') b := by
  apply OpLogCompactor.compact_goesOn h hHead
  · intro e
    refine ⟨h, fun report hReport => ?_⟩
    cases hReport
  · intro report hWaits
    refine ⟨h, fun report' hReport => .inl ?_⟩
    cases hReport
    exact hWaits
  · exact fun report _ => compactFrom_endures h hHead

------------------------------------------------------------
-- Histories
------------------------------------------------------------

variable {s s' : LogHistory} {a : MaintenanceAction}

/- Other objects do not matter to the compaction. -/
theorem CompactionOk.put_other
    {key : Key} {body : Body}
    (h : CompactionOk retentionDays chain latest b)
    (hTail : key ≠ .opsTail)
    (hOps : ∀ id, key ≠ .op id) :
    CompactionOk retentionDays chain latest
      (b.put key body) := by
  have hCursor : cursorOf (b.put key body) = cursorOf b :=
    cursorOf_congr (Bucket.lookup_put_of_ne hTail.symm)
  have hSame :
      ∀ id, (b.put key body).objects.lookup (.op id) =
        b.objects.lookup (.op id) :=
    fun id => Bucket.lookup_put_of_ne (hOps id).symm
  refine ⟨h.linked, ?_, ?_, h.snapshot⟩
  · rw [hCursor]
    intro hNone op hOp
    exact (hSame op.opId).trans (h.untouched hNone op hOp)
  · rw [hCursor]
    intro cursor hSome
    rcases h.pass cursor hSome with
      ⟨p, snapshot, hChain, hLatest, hPass, hCovers⟩
    exact ⟨p, snapshot, hChain, hLatest,
      hPass.congr (fun op _ => hSame op.opId)
        (Nat.le_refl b.now), hCovers⟩

theorem CompactionOk.tick
    (h : CompactionOk retentionDays chain latest b)
    (elapsed : Nat) :
    CompactionOk retentionDays chain latest
      { b with now := b.now + elapsed } := by
  refine ⟨h.linked, h.untouched, ?_, h.snapshot⟩
  intro cursor hCursor
  rcases h.pass cursor hCursor with
    ⟨p, snapshot, hChain, hLatest, hPass, hCovers⟩
  exact ⟨p, snapshot, hChain, hLatest,
    hPass.congr (fun _ _ => rfl) (Nat.le_add_right _ _),
    hCovers⟩

theorem CompactionOk.commit
    (h : CompactionOk retentionDays chain latest b)
    (hBase : op.baseHead = headOf chain)
    (hFresh : ∀ x ∈ chain, x.opId ≠ op.opId) :
    CompactionOk retentionDays (op :: chain) latest
      (b.put (.op op.opId) (.operation op)) := by
  have hCursor :
      cursorOf (b.put (.op op.opId) (.operation op)) =
        cursorOf b := by
    apply cursorOf_congr
    apply Bucket.lookup_put_of_ne
    intro hKey
    cases hKey
  have hSame :
      ∀ x ∈ chain,
        (b.put (.op op.opId) (.operation op)).objects.lookup
            (.op x.opId) = b.objects.lookup (.op x.opId) := by
    intro x hx
    apply Bucket.lookup_put_of_ne
    intro hKey
    exact hFresh x hx (Key.op.inj hKey)
  have hNew :
      Stored (b.put (.op op.opId) (.operation op)) op :=
    Bucket.lookup_put_self _ _ _
  refine ⟨⟨⟨hBase, h.linked.linked⟩, ?_⟩, ?_, ?_, ?_⟩
  · rw [List.map_cons, List.nodup_cons]
    refine ⟨?_, h.linked.nodup⟩
    intro hMem
    rcases List.mem_map.mp hMem with ⟨x, hx, hSameId⟩
    exact hFresh x hx hSameId
  · rw [hCursor]
    intro hNone x hx
    rcases List.mem_cons.mp hx with rfl | hx
    · exact hNew
    · exact (hSame x hx).trans (h.untouched hNone x hx)
  · rw [hCursor]
    intro cursor hSome
    rcases h.pass cursor hSome with
      ⟨p, snapshot, rfl, hLatest, hPass, hCovers⟩
    have hPass' := hPass.congr hSame (Nat.le_refl b.now)
    refine ⟨{ p with newer := op :: p.newer }, snapshot, rfl,
      hLatest, ⟨hPass'.head, hPass'.pending, hPass'.next, ?_,
        hPass'.deleted, hPass'.expired⟩, hCovers.seq,
      hCovers.same, ?_⟩
    · intro x hx
      rcases List.mem_cons.mp hx with rfl | hx
      · exact hNew
      · exact hPass'.kept x hx
    · rcases hCovers.head with ⟨x, hx, hHead⟩
      exact ⟨x, List.mem_cons_of_mem _ hx, hHead⟩
  · intro snapshot hLatest
    rcases h.snapshot snapshot hLatest with ⟨x, hx, hHead⟩
    exact ⟨x, List.mem_cons_of_mem _ hx, hHead⟩

/- The chain from an operation on starts with it. -/
theorem chainFrom_cases
    (h : chainFrom id chain ≠ []) :
    ∃ above op below, chain = above ++ op :: below ∧
      op.opId = id ∧ chainFrom id chain = op :: below := by
  have hSplit := List.takeWhile_append_dropWhile
    (p := fun op : Operation => decide (op.opId ≠ id))
    (l := chain)
  cases hFrom : chainFrom id chain with
  | nil => exact absurd hFrom h
  | cons op below =>
      unfold chainFrom at hFrom
      rw [hFrom] at hSplit
      refine ⟨_, op, below, hSplit.symm, ?_, rfl⟩
      have hHead := List.head?_dropWhile_not
        (fun op : Operation => decide (op.opId ≠ id)) chain
      rw [hFrom] at hHead
      simpa using hHead

theorem chainFrom_append
    {above below : List Operation}
    (hNodup :
      ((above ++ op :: below).map Operation.opId).Nodup) :
    chainFrom op.opId (above ++ op :: below) =
      op :: below := by
  have hAbove : ∀ x ∈ above, x.opId ≠ op.opId := by
    intro x hx hSame
    rw [List.map_append, List.map_cons] at hNodup
    apply List.disjoint_of_nodup_append hNodup
      (List.mem_map_of_mem hx)
    rw [hSame]
    exact List.mem_cons_self ..
  unfold chainFrom
  rw [List.dropWhile_append_of_pos]
  · simp
  · intro x hx
    simpa using hAbove x hx

/- What has an upper operation below it is an upper one. -/
theorem mem_upper
    {upper deeper above below : List Operation}
    {x : Operation}
    (hNodup : ((upper ++ deeper).map Operation.opId).Nodup)
    (hChain : upper ++ deeper = above ++ op :: below)
    (hx : x ∈ upper)
    (hBelow : ∃ y ∈ op :: below, y.opId = x.opId) :
    op ∈ upper := by
  rcases hBelow with ⟨y, hy, hSame⟩
  rw [List.map_append] at hNodup
  have notDeeper : op :: below <:+ deeper → False := by
    intro hSuffix
    apply List.disjoint_of_nodup_append hNodup
      (List.mem_map_of_mem hx)
    rw [← hSame]
    exact List.mem_map_of_mem (hSuffix.subset hy)
  rcases List.append_eq_append_iff.mp hChain with
    ⟨mid, _, hDeeper⟩ | ⟨mid, hUpper, hRest⟩
  · exact (notDeeper ⟨mid, hDeeper.symm⟩).elim
  · cases mid with
    | nil => exact (notDeeper ⟨[], hRest⟩).elim
    | cons z mid =>
        cases hRest
        rw [hUpper]
        simp

theorem CompactionOk.snapshotted
    (h : CompactionOk retentionDays s.chain s.latest s.bucket)
    (hMay : s.mayCover head = true) :
    CompactionOk retentionDays s.chain
      (some
        ⟨(s.latest.map SnapshotMetadata.seqNum).getD 0 + 1,
          some head⟩) s.bucket := by
  simp only [LogHistory.mayCover, Bool.and_eq_true,
    Bool.not_eq_true', List.isEmpty_eq_false_iff] at hMay
  rcases hMay with ⟨hFrom, hBefore⟩
  rcases chainFrom_cases hFrom with
    ⟨above, op, below, hChain, rfl, hSame⟩
  refine ⟨h.linked, h.untouched, ?_, ?_⟩
  · intro cursor hCursor
    rcases h.pass cursor hCursor with
      ⟨p, snapshot, hParts, hLatest, hPass, hCovers⟩
    have hSeq := hCovers.seq
    refine ⟨p, _, hParts, rfl, hPass, ?_, ?_, op, ?_, rfl⟩
    · rw [hLatest]
      simp only [Option.map_some, Option.getD_some]
      omega
    · intro hEq
      rw [hLatest] at hEq
      simp only [Option.map_some, Option.getD_some] at hEq
      omega
    · rcases hCovers.head with ⟨x, hx, hHead⟩
      rw [hLatest, Option.all_some, hHead, Option.all_some,
        hSame, List.any_eq_true] at hBefore
      have hWhole :
          (p.newer ++ [p.covered]) ++
              (p.done ++ (p.pending ++
                (p.remaining ++ p.gone))) =
            above ++ op :: below := by
        rw [← hChain, ← hParts]
        simp [Parts.chain]
      apply mem_upper _ hWhole hx
      · rcases hBefore with ⟨y, hy, hId⟩
        exact ⟨y, hy, by simpa using hId⟩
      · rw [hWhole, ← hChain]
        exact h.linked.nodup
  · intro snapshot hLatest
    cases hLatest
    exact ⟨op, by rw [hChain]; simp, rfl⟩

/- What a run leaves, wherever it was cut off. -/
theorem compacted_post
    {batchLimit staleDays requests : Nat}
    {r : Option (CoreResult OpCompactionReport × Unit)}
    (h : CompactionOk retentionDays chain (some snapshot) b)
    (hHead : snapshot.coveredHead = some head)
    (hRun :
      LogHistory.compacted retentionDays snapshot batchLimit
        staleDays requests b = (r, b')) :
    CompactionOk retentionDays chain (some snapshot) b' ∧
      ∀ report, r = some (.ok report, ()) →
        report.waits = true ∨
          Advances retentionDays chain snapshot head b b' := by
  have hEndures :
      Endures Bucket.serve _
        (OpLogCompactor.compact snapshot batchLimit staleDays
          retentionDays) () _ b :=
    OpLogCompactor.compact_endures h hHead
  cases r with
  | none =>
      refine ⟨Survives.cut hEndures hRun, ?_⟩
      intro report hNot
      cases hNot
  | some r =>
      have hPost := Survives.ended hEndures hRun
      refine ⟨hPost.1, ?_⟩
      intro report hReport
      cases hReport
      exact hPost.2 report rfl

/- Every step keeps the invariant of the compaction. -/
theorem CompactionOk.step
    (h : CompactionOk retentionDays s.chain s.latest s.bucket)
    (hStep : s.step retentionDays a = some s') :
    CompactionOk retentionDays s'.chain s'.latest
      s'.bucket := by
  cases a with
  | commit op =>
      simp only [LogHistory.step] at hStep
      split at hStep
      · rename_i hNew
        cases hStep
        simp only [Bool.and_eq_true, decide_eq_true_eq,
          List.all_eq_true] at hNew
        exact h.commit hNew.1 fun x hx => by
          simpa using hNew.2 x hx
      · cases hStep
  | tick elapsed =>
      cases hStep
      exact h.tick elapsed
  | register device =>
      cases hStep
      apply h.put_other
      · exact fun hKey => by cases hKey
      · exact fun id hKey => by cases hKey
  | report watermark =>
      cases hStep
      apply h.put_other
      · exact fun hKey => by cases hKey
      · exact fun id hKey => by cases hKey
  | snapshot head =>
      simp only [LogHistory.step] at hStep
      split at hStep
      · rename_i hMay
        cases hStep
        exact h.snapshotted hMay
      · cases hStep
  | compact batchLimit staleDays requests =>
      cases hLatest : s.latest with
      | none =>
          simp [LogHistory.step, hLatest] at hStep
      | some snapshot =>
      simp only [LogHistory.step, hLatest, Option.map_some]
        at hStep
      cases hStep
      rw [hLatest] at h
      rcases h.snapshot snapshot rfl with ⟨op, _, hHead⟩
      exact (compacted_post h hHead rfl).1

theorem compactionOk_of_run
    {actions : List MaintenanceAction}
    (h : CompactionOk retentionDays s.chain s.latest s.bucket)
    (hRun : s.run retentionDays actions = some s') :
    CompactionOk retentionDays s'.chain s'.latest
      s'.bucket := by
  induction actions generalizing s with
  | nil =>
      cases hRun
      exact h
  | cons a rest ih =>
      rcases Option.bind_eq_some_iff.mp hRun with
        ⟨s₁, hStep, hRest⟩
      exact ih (h.step hStep) hRest

theorem compactionOk_of_reachable
    (h : s.Reachable retentionDays) :
    CompactionOk retentionDays s.chain s.latest s.bucket := by
  rcases h with ⟨actions, hRun⟩
  apply compactionOk_of_run _ hRun
  refine ⟨Chain.nil, ?_, ?_, ?_⟩
  · intro _ op hOp
    cases hOp
  · intro cursor hCursor
    cases hCursor
  · intro snapshot hLatest
    cases hLatest

------------------------------------------------------------
-- Compaction Resumes
------------------------------------------------------------

/- The operations below one of the chain. -/
def chainBelow
    (id : OpId)
    (chain : List Operation) : List Operation :=
  (chainFrom id chain).tail

/-
  What may be deleted below a covered head: from the top down
  to the first operation that is still retained.
-/
def eligibleBelow
    (retentionDays : Nat)
    (time : Timestamp)
    (id : OpId)
    (chain : List Operation) : List Operation :=
  (chainBelow id chain).takeWhile fun op =>
    Expired retentionDays time op

/- A walk from the cursor finds the operation. -/
def Ahead
    (s : LogHistory)
    (cursor : OpCompactionCursor)
    (op : Operation) : Prop :=
  ∃ above below, above ++ op :: below <:+ s.chain ∧
    headOf (above ++ op :: below) = cursor.nextOp ∧
    ∀ x ∈ above, Stored s.bucket x

/- Runs that end and do not wait for a device. -/
inductive SuccessfulRuns
    (retentionDays : Nat)
    (snapshot : SnapshotMetadata) :
    Nat → Bucket → Bucket → Prop where
  | none (b : Bucket) :
      SuccessfulRuns retentionDays snapshot 0 b b
  | next
      {n : Nat} {b b' b'' : Bucket}
      {batchLimit staleDays requests : Nat}
      {report : OpCompactionReport}
      (before : SuccessfulRuns retentionDays snapshot n b b')
      (ended :
        LogHistory.compacted retentionDays snapshot batchLimit
            staleDays requests b' =
          (some (.ok report, ()), b''))
      (ready : report.waits = false) :
      SuccessfulRuns retentionDays snapshot (n + 1) b b''

/-
  Nothing is pending, and all that may go below the covered
  head of the cursor is gone; the cursor is the one of the
  newest snapshot, unless an operation below an earlier head
  is still retained.
-/
structure Finished
    (retentionDays : Nat)
    (chain : List Operation)
    (head : OpId)
    (b : Bucket)
    (cursor : OpCompactionCursor) : Prop where
  pending : cursor.pendingDelete = []
  eligible :
    ∀ op ∈ eligibleBelow retentionDays b.now
      cursor.coveredHead chain, Deleted b op
  newest :
    cursor.coveredHead = head ∨
      ∃ op, cursor.nextOp = some op.opId ∧ Stored b op ∧
        ¬ Expired retentionDays b.now op

/-
  Only expired operations below a snapshot's head are gone;
  what is still there below the cursor's head is pending or
  ahead of the cursor; a run that is not cut off ends, and
  enough of them finish the work.
-/
structure ResumesExactly
    (retentionDays : Nat)
    (s : LogHistory) : Prop where
  only :
    ∀ op ∈ s.chain, ¬ Stored s.bucket op →
      Expired retentionDays s.bucket.now op ∧
        ∃ snapshot head, s.latest = some snapshot ∧
          snapshot.coveredHead = some head ∧
          op ∈ chainBelow head s.chain
  kept :
    ∀ cursor, cursorOf s.bucket = some cursor →
      ∀ op ∈ chainBelow cursor.coveredHead s.chain,
        Stored s.bucket op →
          op.opId ∈ cursor.pendingDelete ∨ Ahead s cursor op
  ends :
    ∀ snapshot, s.latest = some snapshot →
      ∀ batchLimit staleDays, ∃ requests r b',
        LogHistory.compacted retentionDays snapshot batchLimit
          staleDays requests s.bucket = (some r, b')
  finishes :
    ∀ snapshot head, s.latest = some snapshot →
      snapshot.coveredHead = some head →
      ∀ n b', 2 * s.chain.length + 4 < n →
        SuccessfulRuns retentionDays snapshot n s.bucket b' →
          Finished retentionDays s.chain head b'
            (loadedCursor b' snapshot head)

theorem Pass.below
    (hPass : Pass retentionDays b cursor p)
    (hNodup : (p.chain.map Operation.opId).Nodup) :
    chainBelow cursor.coveredHead p.chain =
      p.done ++ (p.pending ++ (p.remaining ++ p.gone)) := by
  unfold chainBelow
  rw [hPass.head]
  unfold Parts.chain at hNodup ⊢
  rw [chainFrom_append hNodup]
  rfl

/- Where a cursor is quiet all that may go is gone. -/
theorem QuietAt.eligible
    (h : QuietAt retentionDays b cursor)
    (hPass : Pass retentionDays b cursor p)
    (hNodup : (p.chain.map Operation.opId).Nodup) :
    ∀ op ∈ eligibleBelow retentionDays b.now
      cursor.coveredHead p.chain, Deleted b op := by
  have hPending : p.pending = [] := by
    have hIds := hPass.pending
    rw [h.pending] at hIds
    exact List.map_eq_nil_iff.mp hIds.symm
  unfold eligibleBelow
  rw [hPass.below hNodup, hPending, List.nil_append]
  cases hRemaining : p.remaining with
  | nil =>
      intro op hOp
      apply hPass.deleted op
      rw [List.nil_append] at hOp
      exact (List.takeWhile_prefix _).subset hOp
  | cons first below =>
      intro op hOp
      by_cases hExpired :
          Expired retentionDays b.now first
      · exact absurd h
          (OpLogCompactor.not_quietAt_of_expired hPass
            hRemaining hExpired)
      · have hTake :
            (p.done ++ (first :: below ++ p.gone)).takeWhile
                (fun op => decide
                  (Expired retentionDays b.now op)) =
              p.done.takeWhile
                (fun op => decide
                  (Expired retentionDays b.now op)) := by
          rw [List.takeWhile_append]
          split
          · rename_i hAll
            rw [List.cons_append,
              List.takeWhile_cons_of_neg (by simpa using
                hExpired), List.append_nil]
            exact ((List.takeWhile_prefix _).eq_of_length
              hAll).symm
          · rfl
        rw [hTake] at hOp
        apply hPass.deleted op
        exact List.mem_append_left _
          ((List.takeWhile_prefix _).subset hOp)

/- A loaded cursor at its end is the one of the snapshot. -/
theorem CompactionOk.newest
    (h : CompactionOk retentionDays chain (some snapshot) b)
    (hHead : snapshot.coveredHead = some head)
    (hQuiet :
      QuietAt retentionDays b (loadedCursor b snapshot head))
    (hNone : (loadedCursor b snapshot head).nextOp = none) :
    (loadedCursor b snapshot head).coveredHead = head := by
  have hPending := hQuiet.pending
  unfold loadedCursor at hPending hNone ⊢
  cases hCursor : cursorOf b with
  | none => rfl
  | some cursor =>
  rw [hCursor] at hPending hNone
  dsimp only at hPending hNone ⊢
  split
  · rename_i hResumes
    rw [if_pos hResumes] at hPending hNone
    rcases h.pass cursor hCursor with
      ⟨p, snapshot', _, hSame, _, hCovers⟩
    cases hSame
    have hSeq : cursor.snapshotSeq = snapshot.seqNum := by
      simpa [OpLogCompactor.resumes, hPending, hNone]
        using hResumes
    have hCovered := hCovers.same hSeq
    rw [hHead] at hCovered
    exact (Option.some.inj hCovered).symm
  · rfl

/- Each successful run does some work until none is left. -/
theorem quiet_of_runs
    {n : Nat}
    (h : CompactionOk retentionDays chain (some snapshot) b)
    (hHead : snapshot.coveredHead = some head)
    (hRuns :
      SuccessfulRuns retentionDays snapshot n b b') :
    CompactionOk retentionDays chain (some snapshot) b' ∧
      (QuietAt retentionDays b'
          (loadedCursor b' snapshot head) ∨
        work chain snapshot b' + n ≤ work chain snapshot b) := by
  induction hRuns with
  | none b => exact ⟨h, .inr (Nat.le_refl _)⟩
  | next before ended ready ih =>
      rcases ih h with ⟨hBefore, hWork⟩
      rcases compacted_post hBefore hHead ended with
        ⟨hAfter, hReport⟩
      refine ⟨hAfter, ?_⟩
      rcases hReport _ rfl with hWaits | hQuiet | hLess
      · rw [ready] at hWaits
        cases hWaits
      · exact .inl hQuiet
      · rcases hWork with hQuiet | hWork
        · exact absurd hQuiet hLess.1
        · right
          have hMore := hLess.2
          omega

theorem work_le
    (chain : List Operation)
    (snapshot : SnapshotMetadata)
    (b : Bucket) :
    work chain snapshot b ≤ 2 * chain.length + 4 := by
  have hCount : storedCount chain b ≤ chain.length :=
    List.countP_le_length
  have hCursor : cursorWork snapshot (cursorOf b) ≤ 4 := by
    cases cursorOf b with
    | none => exact Nat.le_refl 4
    | some cursor =>
        unfold cursorWork
        dsimp only
        split <;> split <;> split <;> omega
  unfold work
  omega

theorem CompactionOk.only
    (h : CompactionOk retentionDays s.chain s.latest s.bucket)
    (hOp : op ∈ s.chain)
    (hGone : ¬ Stored s.bucket op) :
    Expired retentionDays s.bucket.now op ∧
      ∃ snapshot head, s.latest = some snapshot ∧
        snapshot.coveredHead = some head ∧
        op ∈ chainBelow head s.chain := by
  cases hCursor : cursorOf s.bucket with
  | none => exact absurd (h.untouched hCursor op hOp) hGone
  | some cursor =>
  rcases h.pass cursor hCursor with
    ⟨p, snapshot, hChain, hLatest, hPass, hCovers⟩
  have hDeeper :
      op ∈ p.done ++ (p.pending ++ p.gone) := by
    rw [← hChain] at hOp
    have hKept : op ∉ p.newer ++ p.covered :: p.remaining :=
      fun hMem => hGone (hPass.kept op hMem)
    simp only [Parts.chain, List.mem_append, List.mem_cons]
      at hOp hKept ⊢
    tauto
  refine ⟨hPass.expired op hDeeper, snapshot, ?_⟩
  rcases hCovers.head with ⟨x, hx, hHead⟩
  refine ⟨x.opId, hLatest, hHead, ?_⟩
  -- The snapshot's head is at or above the covered head.
  rcases List.append_of_mem hx with ⟨above, below, hSplit⟩
  have hWhole :
      s.chain = above ++ x :: (below ++
        (p.done ++ (p.pending ++
          (p.remaining ++ p.gone)))) := by
    rw [← hChain, Parts.chain, ← List.singleton_append,
      ← List.append_assoc, hSplit]
    simp
  have hNodup := h.linked.nodup
  unfold chainBelow
  rw [hWhole] at hNodup ⊢
  rw [chainFrom_append hNodup]
  simp only [List.tail_cons, List.mem_append] at hDeeper ⊢
  tauto

theorem CompactionOk.kept
    (h : CompactionOk retentionDays s.chain s.latest s.bucket)
    (hCursor : cursorOf s.bucket = some cursor)
    (hOp : op ∈ chainBelow cursor.coveredHead s.chain)
    (hStored : Stored s.bucket op) :
    op.opId ∈ cursor.pendingDelete ∨ Ahead s cursor op := by
  rcases h.pass cursor hCursor with
    ⟨p, snapshot, hChain, hLatest, hPass, hCovers⟩
  have hNodup := h.linked.nodup
  rw [← hChain] at hOp hNodup
  rw [hPass.below hNodup] at hOp
  have notDeleted : op ∉ p.done ++ p.gone := by
    intro hMem
    have hNone := hPass.deleted op hMem
    unfold Stored at hStored
    unfold Deleted at hNone
    rw [hNone] at hStored
    cases hStored
  simp only [List.mem_append, not_or] at hOp notDeleted
  rcases hOp with hDone | hPending | hRemaining | hGone
  · exact absurd hDone notDeleted.1
  · left
    rw [hPass.pending]
    exact List.mem_map_of_mem hPending
  · right
    rcases List.append_of_mem hRemaining with
      ⟨above, below, hSplit⟩
    refine ⟨above, below ++ p.gone, ?_, ?_, ?_⟩
    · rw [← hChain, Parts.chain, hSplit]
      exact ⟨p.newer ++ p.covered :: (p.done ++ p.pending),
        by simp⟩
    · rcases hPass.next with hNext | ⟨hNone, _⟩
      · rw [hNext, hSplit]
        simp
      · rw [hNone] at hRemaining
        cases hRemaining
    · intro x hx
      apply hPass.kept x
      rw [hSplit]
      simp [hx]
  · exact absurd hGone notDeleted.2

/-
  Whatever the history, compaction goes on where it was cut
  off: it deletes what may go and nothing else.
-/
theorem compaction_resumes
    (hReachable : s.Reachable retentionDays) :
    ResumesExactly retentionDays s := by
  have h := compactionOk_of_reachable hReachable
  refine ⟨fun op hOp hGone => h.only hOp hGone,
    fun cursor hCursor op hOp hStored =>
      h.kept hCursor hOp hStored, ?_, ?_⟩
  · intro snapshot hLatest batchLimit staleDays
    rw [hLatest] at h
    rcases h.snapshot snapshot rfl with ⟨op, _, hHead⟩
    have hEndures :
        Endures Bucket.serve _
          (OpLogCompactor.compact snapshot batchLimit staleDays
            retentionDays) () _ s.bucket :=
      OpLogCompactor.compact_endures h hHead
    exact Survives.completes hEndures
  intro snapshot head hLatest hHead n b' hMany hRuns
  rw [hLatest] at h
  have hBound := work_le s.chain snapshot s.bucket
  rcases quiet_of_runs h hHead hRuns with
    ⟨h', hQuiet | hWork⟩
  · rcases h'.loaded rfl hHead with
      ⟨p, hChain, hPass, hCovers⟩
    have hNodup := h'.linked.nodup
    refine ⟨hQuiet.pending, ?_, ?_⟩
    · rw [← hChain] at hNodup ⊢
      exact hQuiet.eligible hPass hNodup
    · rcases hQuiet.next with hNone | hRetained
      · exact .inl (h'.newest hHead hQuiet hNone)
      · exact .inr hRetained
  · omega

/- The n-th operation of a chain that is 100 days old. -/
def chainOperation (n : Nat) : Operation where
  opId := ⟨1, n, n⟩
  deviceId := 1
  actorId := "device"
  logicalClock := n
  baseHead := if n = 1 then none else some ⟨1, n - 1, n - 1⟩
  targetFileId := none
  opType := .createFolder
  preconditions := ⟨none, none, false, true⟩
  effects := ⟨none, none, none, none, false⟩
  timestamp := 0
  signature := none

/- The run is cut off after the first of its two deletes. -/
def interruptedRun : List MaintenanceAction :=
  [.commit (chainOperation 1), .commit (chainOperation 2),
    .commit (chainOperation 3), .snapshot ⟨1, 3, 3⟩,
    .tick (days 100), .register ⟨1, days 100⟩,
    .report ⟨1, days 100, 1, some ⟨1, 3, 3⟩, .active⟩,
    .compact 10 90 15]

theorem interrupted_run_resumes :
    ∃ s cursor,
      s.Reachable 90 ∧ cursorOf s.bucket = some cursor ∧
        cursor.pendingDelete = [⟨1, 2, 2⟩, ⟨1, 1, 1⟩] ∧
        Deleted s.bucket (chainOperation 2) ∧
        Stored s.bucket (chainOperation 1) ∧
        ResumesExactly 90 s := by
  have trace :
      (LogHistory.fresh.run 90 interruptedRun).any
        (fun s =>
          (cursorOf s.bucket).map
              OpCompactionCursor.pendingDelete =
            some [⟨1, 2, 2⟩, ⟨1, 1, 1⟩] &&
          s.bucket.objects.lookup (.op ⟨1, 2, 2⟩) = none &&
          Stored s.bucket (chainOperation 1)) = true := by
    decide +kernel
  rw [Option.any_eq_true] at trace
  rcases trace with ⟨s, hRun, hTest⟩
  simp only [Bool.and_eq_true, decide_eq_true_eq,
    Option.map_eq_some_iff] at hTest
  rcases hTest with
    ⟨⟨⟨cursor, hCursor, hPending⟩, hGone⟩, hKept⟩
  exact ⟨s, cursor, ⟨interruptedRun, hRun⟩, hCursor, hPending,
    hGone, hKept, compaction_resumes ⟨interruptedRun, hRun⟩⟩

/-
  A run that has changed anything, cut off or not, has seen
  that every device has reached the snapshot. This is so for
  what an earlier run has left to delete as well.
-/
theorem compaction_waits_for_devices
    {batchLimit staleDays requests : Nat}
    (hChanged :
      (LogHistory.compacted retentionDays snapshot batchLimit
        staleDays requests b).2 ≠ b) :
    AllReached snapshot staleDays b := by
  by_contra hNot
  apply hChanged
  cases hRun : LogHistory.compacted retentionDays snapshot
    batchLimit staleDays requests b with
  | mk r b' =>
  unfold LogHistory.compacted at hRun
  cases hHead : snapshot.coveredHead with
  | none =>
      unfold OpLogCompactor.compact at hRun
      rw [hHead] at hRun
      cases requests <;> cases hRun <;> rfl
  | some head =>
      have hEndures :
          Endures Bucket.serve (· = b)
            (OpLogCompactor.compact snapshot batchLimit
              staleDays retentionDays) ()
            (fun _ _ b' => b' = b) b :=
        OpLogCompactor.compact_goesOn rfl hHead (fun _ => rfl)
          (fun _ _ => rfl)
          fun _ hReached => absurd hReached hNot
      cases r with
      | none =>
          have hSame := Survives.cut hEndures hRun
          exact hSame
      | some r =>
          have hSame := Survives.ended hEndures hRun
          exact hSame

/- The run that was interrupted had seen the one device. -/
theorem interrupted_run_had_waited :
    ∃ s, LogHistory.fresh.run 90 interruptedRun.dropLast =
        some s ∧
      ∃ snapshot, s.latest = some snapshot ∧
        AllReached snapshot 90 s.bucket := by
  have trace :
      (LogHistory.fresh.run 90 interruptedRun.dropLast).any
        (fun s => s.latest.any fun snapshot =>
          decide ((LogHistory.compacted 90 snapshot 10 90 15
            s.bucket).2.objects.lookup (.op ⟨1, 2, 2⟩) ≠
              s.bucket.objects.lookup (.op ⟨1, 2, 2⟩))) =
        true := by
    decide +kernel
  rcases (Option.any_eq_true _ _).mp trace with ⟨s, hRun, h⟩
  rcases (Option.any_eq_true _ _).mp h with
    ⟨snapshot, hLatest, hTest⟩
  have hChanged :
      (LogHistory.compacted 90 snapshot 10 90 15 s.bucket).2 ≠
        s.bucket := fun hSame =>
    of_decide_eq_true hTest (by rw [hSame])
  exact ⟨s, hRun, snapshot, hLatest,
    compaction_waits_for_devices hChanged⟩

end S4Drive

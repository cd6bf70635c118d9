import S4Drive.Metadata.Linearity

/-
  Isolation of commits: the first operation on a file wins.
  A commit never puts its operation above an operation on
  the same file that came after the head it started from,
  over all of its attempts. What an error says is weaker: a
  CAS may have been carried out although its response was
  lost, and when the chain can then not be read back, the
  call fails with its operation in the log.

  Main declarations:
    * `ownOperations`, `CallIsolated`, `CameFirst`
    * `commit_isolated`
    * `failed_commit_in_log`
-/

------------------------------------------------------------
-- The Operations of a Call
------------------------------------------------------------

namespace S4Drive

open ObjectStore Concurrency ChainLog

/- The operations that the latest call of `t` has built. -/
def ownOperations
    (s : LogState)
    (t : Tid) : List Operation :=
  callOperations s.world t (s.world.calls t)

/-
  A call on `log` about a file started from `start`: the
  head that its log knew, else the base of its first
  operation. Nothing on the file lies between `start` and
  any operation that the call has built.
-/
structure CallIsolated
    (s : LogState)
    (t : Tid)
    (fileId : FileId)
    (log : OperationLog)
    (start : Option OpId) : Prop where
  loaded : log.headLoaded = true → start = log.currentHead
  first :
    ∀ op ∈ (ownOperations s t).head?, op.baseHead = start
  isolated :
    ∀ op ∈ ownOperations s t,
      Walk s.world (NotOn fileId) op.baseHead start

/-
  An operation of somebody else on the file is reachable,
  and no operation in `own` lies between it and `start`.
-/
structure CameFirst
    (w : World)
    (own : List Operation)
    (fileId : FileId)
    (start : Option OpId)
    (op : Operation) : Prop where
  reachable : Reachable w.store.objects op
  target : op.targetFileId = some fileId
  foreign : op ∉ own
  walk : Walk w (fun x => x ∉ own) op.baseHead start

variable {permits : LogState → LogAction → Prop}
variable {s s₁ s₂ : LogState} {t : Tid} {fileId : FileId}
variable {start : Option OpId} {op other : Operation}

/- Whatever the other calls do, a commit is isolated. -/
theorem LogStateOk.callIsolated
    {clean : Prop} {admits : Tid → Req → World → Prop}
    {opType : OpType} {preconditions : Preconditions}
    {effects : Effects} {v v' : OperationLog}
    {result : LogResult}
    (hState : LogStateOk clean admits s)
    (hReturned :
      Returned s t
        (.commit (some fileId) opType preconditions effects)
        v result v') :
    ∃ r start, result = .committed r ∧
      CallIsolated s t fileId v start ∧
        ∀ op, r = .ok op →
          op ∈ ownOperations s t ∧
            op.targetFileId = some fileId := by
  have hPost := (hState.returned hReturned).call
  cases result with
  | committed r =>
      rcases hPost with ⟨start, w₀, hStarted, hGoing, hDone⟩
      refine ⟨r, start, rfl,
        ⟨hStarted.loaded, hGoing.own.first rfl, ?_⟩, ?_⟩
      · exact fun op hOp =>
          hGoing.own.isolated op hOp List.not_mem_nil fileId
            rfl
      · intro op hOp
        exact ⟨(hDone op hOp).own, (hDone op hOp).target⟩
  | _ => cases hPost

/-
  An isolated operation loses against one that came first:
  on a chain one of the two lies between the other one and
  the head that both lead down to.
-/
theorem LogInv.not_mem_of_cameFirst
    {w : World} {own : List Operation}
    (hInv : LogInv True w)
    (hOwn : op ∈ own)
    (hIsolated : Walk w (NotOn fileId) op.baseHead start)
    (hOther : other ∈ w.headLog)
    (hTarget : other.targetFileId = some fileId)
    (hForeign : other ∉ own)
    (hWalk : Walk w (fun x => x ∉ own) other.baseHead start) :
    op ∉ w.headLog := by
  intro hMem
  have hLookup :
      ∀ x ∈ w.headLog, w.operationOf x.opId = some x :=
    fun x hx => hInv.basic.operationOf_of_built
      (hInv.basic.log x hx)
  rcases (hInv.linear trivial).chain.passed_of_paths hLookup
      hMem hOther hIsolated hWalk with rfl | hOn | hNotOwn
  · exact hForeign hOwn
  · exact hOn hTarget
  · exact hNotOwn hOwn

/-
  A commit on a file is isolated from the head it started
  from, in every run. When all calls are paired and another
  operation on the file came first, the commit fails and
  none of its operations is ever reachable.
-/
theorem commit_isolated
    {opType : OpType} {preconditions : Preconditions}
    {effects : Effects} {v v' : OperationLog}
    {result : LogResult}
    (before : LogRun permits LogState.initial s)
    (hReturned :
      Returned s t
        (.commit (some fileId) opType preconditions effects)
        v result v')
    (after : LogRun permits s s₁)
    (later : LogRun permits s₁ s₂) :
    ∃ r start, result = .committed r ∧
      CallIsolated s t fileId v start ∧
      (∀ op, r = .ok op →
        op ∈ ownOperations s t ∧
          op.targetFileId = some fileId) ∧
      ((∀ s a, permits s a → PairedCalls s a) →
        ∀ other,
          CameFirst s₁.world (ownOperations s t) fileId start
            other →
          (∃ e, r = .error e) ∧
            ∀ op ∈ ownOperations s t,
              ¬ Reachable s₂.world.store.objects op) := by
  have hState : LogStateOk False (fun _ _ _ => True) s :=
    stateOk_of_run
      (permitted_of_admits fun _ _ _ _ _ _ => trivial) before
  rcases hState.callIsolated hReturned with
    ⟨r, start, rfl, hIsolated, hDone⟩
  refine ⟨r, start, rfl, hIsolated, hDone, ?_⟩
  intro hPaired other hFirst
  have hPermits := permitted_of_paired hPaired
  have hClean := pairedOk_of_run hPaired before
  have hClean₁ := hClean.run hPermits after
  have hClean₂ := hClean₁.run hPermits later
  have hGrows₁ := hClean.grows hPermits after
  have hGrows₂ := hClean₁.grows hPermits later
  have hOther : other ∈ s₁.world.headLog :=
    (hClean₁.inv.log.reachable_iff_mem trivial other).mp
      hFirst.reachable
  have lost :
      ∀ op ∈ ownOperations s t, op ∉ s₂.world.headLog := by
    intro op hOp
    apply hClean₂.inv.log.not_mem_of_cameFirst hOp
    · exact (hIsolated.isolated op hOp).mono
        (hGrows₁.trans hGrows₂) fun _ => id
    · exact hGrows₂.log.subset hOther
    · exact hFirst.target
    · exact hFirst.foreign
    · exact hFirst.walk.mono hGrows₂ fun _ => id
  constructor
  · cases r with
    | error e => exact ⟨e, rfl⟩
    | ok op =>
        have hReturnedOp : returnedOperation s t = some op := by
          unfold Returned at hReturned
          simp [returnedOperation, hReturned,
            LogResult.operation]
        have hMem :=
          hClean.mem_of_returned trivial hReturnedOp
        have hMem₂ :=
          hGrows₂.log.subset (hGrows₁.log.subset hMem)
        exact absurd hMem₂ (lost op (hDone op rfl).1)
  · intro op hOp hReach
    exact lost op hOp
      ((hClean₂.inv.log.reachable_iff_mem trivial op).mp hReach)

/- The file and the error of a commit that has failed. -/
def failedCommit
    (s : LogState)
    (t : Tid) : Option (FileId × CoreError) :=
  match s.threads t with
  | .busy (.commit (some fileId) _ _ _) _
      (.done (.committed (.error e), _)) => some (fileId, e)
  | _ => none

theorem returned_of_failedCommit
    {e : CoreError}
    (h : failedCommit s t = some (fileId, e)) :
    ∃ opType preconditions effects v v',
      Returned s t
        (.commit (some fileId) opType preconditions effects)
        v (.committed (.error e)) v' := by
  unfold failedCommit at h
  split at h
  · rename_i hThread
    cases h
    exact ⟨_, _, _, _, _, hThread⟩
  · cases h

/-
  Device 1 has written its operation when device 2 commits
  one on the same file. The CAS of device 1 is refused.
-/
def sameFile : List LogAction :=
  opens 1 ++ opens 2 ++
  [.call 1 (renames 10 "a")] ++ reads 1 1 ++
  [.serve 1 (.fresh 1)] ++ writes 1 0 ++
  [.call 2 (renames 10 "b")] ++ reads 2 1 ++
  [.serve 2 (.fresh 2)] ++ writes 2 1 ++ writes 2 2 ++
  reads 2 1 ++
  [.serve 1 .answer, .env (.deliver 3),
    .serve 1 (.reply false)] ++ reads 1 4 ++ writes 1 4

theorem second_commit_on_file_fails :
    ∃ s r, LogRun PairedCalls LogState.initial s ∧
      (∃ opType preconditions effects v v', Returned s 1
        (.commit (some 10) opType preconditions effects) v
        (.committed r) v') ∧
      ownOperations s 1 ≠ [] ∧
      (∃ e, r = .error e) ∧
        ∀ op ∈ ownOperations s 1,
          ¬ Reachable s.world.store.objects op := by
  have trace :
      (logSystem.execIf pairedCall LogState.initial
        sameFile).any
        (fun s =>
          (failedCommit s 1).any (·.1 = 10) &&
          (ownOperations s 1).any (fun first =>
            (ownOperations s 1).head? = some first &&
            s.world.headLog.any fun other =>
              other.targetFileId = some 10 &&
              other.baseHead = first.baseHead &&
              !(ownOperations s 1).contains other)) =
        true := by
    decide +kernel
  rcases ThreadSystem.Run.exists_of_execIf
      (fun _ _ => pairedCalls_of_pairedCall) sameFile trace
    with ⟨s, run, hTest⟩
  simp only [Bool.and_eq_true, decide_eq_true_eq,
    List.any_eq_true, Option.any_eq_true,
    Bool.not_eq_true', List.contains_eq_mem,
    decide_eq_false_iff_not] at hTest
  rcases hTest with ⟨⟨⟨fileId, e⟩, hFailed, hFile⟩, first,
    hMem, hHead, other, hOther, ⟨hTarget, hBase⟩, hForeign⟩
  cases hFile
  rcases returned_of_failedCommit hFailed with
    ⟨opType, preconditions, effects, v, v', hReturned⟩
  have hState := pairedOk_of_run (fun _ _ h => h) run
  rcases commit_isolated run hReturned (.refl s) (.refl s) with
    ⟨r, start, hResult, hIsolated, _, hLost⟩
  cases hResult
  refine ⟨s, .error e, run,
    ⟨opType, preconditions, effects, v, v', hReturned⟩,
    List.ne_nil_of_mem hMem, hLost (fun _ _ h => h) other ?_⟩
  refine ⟨(hState.inv.log.reachable_iff_mem trivial other).mpr
    hOther, hTarget, hForeign, ?_⟩
  rw [hBase, hIsolated.first first hHead]
  exact .refl start

/-
  The CAS of device 1 is carried out, but it has no response
  before device 2 has committed on top and the repetition is
  refused. Device 1 then fails to read the chain.
-/
def lostResponse : List LogAction :=
  opens 1 ++ opens 2 ++
  [.call 1 (renames 10 "a")] ++ reads 1 1 ++
  [.serve 1 (.fresh 1)] ++ writes 1 0 ++
  [.serve 1 .answer, .env (.deliver 1)] ++
  [.call 2 (renames 20 "b")] ++ reads 2 3 ++
  [.serve 2 (.fresh 2)] ++ writes 2 2 ++ writes 2 3 ++
  reads 2 1 ++
  [.env (.deliver 1), .serve 1 (.reply false)] ++ reads 1 3 ++
  [.serve 1 (.fail (.network "timeout"))]

/-
  The chain cannot be read back to the base and the commit
  fails, but its operation is reachable.
-/
theorem failed_commit_in_log :
    ∃ s opType preconditions effects v v' e op,
      LogRun PairedCalls LogState.initial s ∧
        Returned s 1
          (.commit (some 10) opType preconditions effects)
          v (.committed (.error e)) v' ∧
        op ∈ ownOperations s 1 ∧
        Reachable s.world.store.objects op := by
  have trace :
      (logSystem.execIf pairedCall LogState.initial
        lostResponse).any
        (fun s =>
          decide (failedCommit s 1 =
            some (10, .network "timeout")) &&
          (ownOperations s 1).any
            (s.world.headLog.contains ·)) = true := by
    decide +kernel
  rcases ThreadSystem.Run.exists_of_execIf
      (fun _ _ => pairedCalls_of_pairedCall) lostResponse trace
    with ⟨s, run, hTest⟩
  simp only [Bool.and_eq_true, decide_eq_true_eq,
    List.any_eq_true, List.contains_iff_mem] at hTest
  rcases hTest with ⟨hFailed, op, hOwn, hMem⟩
  rcases returned_of_failedCommit hFailed with
    ⟨opType, preconditions, effects, v, v', hReturned⟩
  have hState := pairedOk_of_run (fun _ _ h => h) run
  exact ⟨s, opType, preconditions, effects, v, v', _, op, run,
    hReturned, hOwn,
    (hState.inv.log.reachable_iff_mem trivial op).mpr hMem⟩

end S4Drive

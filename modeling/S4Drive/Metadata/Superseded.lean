import S4Drive.Metadata.Linearity

/-
  What the flag `superseded` of a durable commit is worth.
  A request that finds its operation in the chain after a
  refused CAS returns `false` without a look at what lies
  above it. The flag is right in every run in which the head
  that such a call reads has nothing newer on the file above
  an operation that the call has sent.

  Main declarations:
    * `NotOvertaken`, `ReloadsInTime`
    * `superseded_false_is_latest`
    * `overtaken_commit_not_superseded`
-/

------------------------------------------------------------
-- Overtaken Operations
------------------------------------------------------------

namespace S4Drive

open ObjectStore Concurrency ChainLog

/-
  No operation that the current call of `t` has sent a head
  write for lies in the chain of the head pointer below a
  newer operation on the file of the call's journal.
-/
def NotOvertaken
    (t : Tid)
    (w : World) : Prop :=
  ∀ j, w.holding t = some j →
    ∀ f ∈ w.store.flights, SentIn f t (w.calls t) →
      ∀ id, HeadWrite id f.write →
        Walk w (fun _ => True) (headOf w.headLog) (some id) →
          Walk w (NotOn j.fileId) (headOf w.headLog) (some id)

/-
  A call reads the head pointer only while its operations
  are not overtaken.
-/
def ReloadsInTime
    (s : LogState)
    (a : LogAction) : Prop :=
  ∀ t k, a = .serve t k →
    ThreadSystem.Asks s t (.getObject .head) →
      NotOvertaken t s.world

/- The requests of `ReloadsInTime`, for the contract. -/
def readsInTime
    (t : Tid)
    (r : Req)
    (w : World) : Prop :=
  r = .getObject .head → NotOvertaken t w

abbrev ReloadsOk : LogState → Prop :=
  LogStateOk False readsInTime

variable {clean : Prop} {s : LogState} {t : Tid}
variable {j : JournalId}

theorem reloadsOk_of_run
    (run : LogRun ReloadsInTime LogState.initial s) :
    ReloadsOk s := by
  apply stateOk_of_run (permitted_of_admits ?_) run
  intro s t k h r hAsks hRead
  subst hRead
  exact h t k rfl hAsks

/-
  A walk from an old head stays within the operations that
  were known when it was the head.
-/
theorem Walk.restrict
    {w w' : World} {P : Operation → Prop}
    {b b' : Option OpId}
    (h : Walk w' P b b')
    (hBasic : Basic clean w)
    (hGrows : Grows w w')
    (hKnown : ∃ l, l <:+ w.headLog ∧ headOf l = b) :
    Walk w P b b' := by
  induction h with
  | refl b => exact .refl b
  | @step k a b' found holds _ ih =>
      rcases hKnown with ⟨l, hl, hHead⟩
      rcases Option.map_eq_some_iff.mp hHead with
        ⟨x, hx, rfl⟩
      have hBuilt := hBasic.log x
        (hl.subset (List.mem_of_mem_head? hx))
      have hFound := hBasic.operationOf_of_built hBuilt
      have hSame := operationOf_mono hGrows hFound
      rw [found] at hSame
      cases hSame
      exact .step hFound holds (ih (hBasic.bases a hBuilt))

/- A call that was not overtaken returns a true flag. -/
theorem Overtaken.latest
    {op : Operation} {v : OperationLog} {w₁ w : World}
    (h :
      OperationLog.Overtaken (logHost clean readsInTime) t j op
        v w₁ w) :
    Walk w (NotOn j.fileId) v.currentHead (some op.opId) := by
  rcases h.sent with ⟨f, hf, hSender, hHeadWrite⟩
  have hWalk := h.walk.restrict h.inv.basic h.steps.toGrows
    ⟨w₁.headLog, List.suffix_rfl, h.head⟩
  rw [← h.head] at hWalk ⊢
  exact (h.admitted rfl j h.holding f hf hSender op.opId
    hHeadWrite hWalk).mono h.steps.toGrows fun _ => id

/- The commit with which a durable request was answered. -/
def LogResult.durableCommit :
    LogResult → Option DurableCommit
  | .attempt (.ok (some d)) => some d
  | .durable (.ok d) => some d
  | _ => none

/-
  When `superseded` is false, the chain of the head that the
  call knows at its end has nothing on the file above the
  operation. This holds in every run in which overtaken
  calls do not read the head pointer.
-/
theorem superseded_false_is_latest
    {c : LogCall} {v v' : OperationLog}
    {result : LogResult} {d : DurableCommit}
    (run : LogRun ReloadsInTime LogState.initial s)
    (hReturned : Returned s t c v result v')
    (hJournal : c.journal = some j)
    (hResult : result.durableCommit = some d)
    (hFlag : d.superseded = false) :
    Walk s.world (NotOn j.fileId) v'.currentHead
      (some d.operation.opId) := by
  have hPost := ((reloadsOk_of_run run).returned hReturned).call
  have latest :
      OperationLog.DurableDone (logHost False readsInTime) t j
        d v' s.world →
      Walk s.world (NotOn j.fileId) v'.currentHead
        (some d.operation.opId) := by
    intro hDone
    rcases hDone.latest hFlag with hWalk | ⟨w₁, hOver⟩
    · exact hWalk
    · exact Overtaken.latest hOver
  apply latest
  cases c with
  | committedAttempt i =>
      cases hJournal
      cases result with
      | attempt r =>
          rcases hPost with ⟨_, _, hDone⟩
          unfold LogResult.durableCommit at hResult
          split at hResult
          · rename_i heq
            cases heq
            cases hResult
            exact hDone
          · rename_i heq
            cases heq
          · cases hResult
      | _ => cases hPost
  | commitDurable opType preconditions effects i =>
      cases hJournal
      cases result with
      | durable r =>
          rcases hPost with ⟨_, _, hDone⟩
          unfold LogResult.durableCommit at hResult
          split at hResult
          · rename_i heq
            cases heq
          · rename_i heq
            cases heq
            cases hResult
            exact hDone d rfl
          · cases hResult
      | _ => cases hPost
  | _ => cases hJournal

------------------------------------------------------------
-- A Response Lost below Another File
------------------------------------------------------------

/- Follow the bases past operations on other files. -/
def walksTo
    (w : World)
    (fileId : FileId)
    (id : OpId) : Nat → Option OpId → Bool
  | 0, _ => false
  | _ + 1, none => false
  | rounds + 1, some cursor =>
      if cursor = id then
        true
      else
        match w.operationOf cursor with
        | some op =>
            op.targetFileId ≠ some fileId &&
              walksTo w fileId id rounds op.baseHead
        | none => false

theorem walk_of_walksTo
    {w : World} {fileId : FileId} {id : OpId} {rounds : Nat}
    {b : Option OpId}
    (h : walksTo w fileId id rounds b = true) :
    Walk w (NotOn fileId) b (some id) := by
  induction rounds generalizing b with
  | zero => cases h
  | succ rounds ih =>
      cases b with
      | none => cases h
      | some cursor =>
          unfold walksTo at h
          split at h
          · rename_i hEnd
            rw [hEnd]
            exact .refl _
          · split at h
            · rename_i op hFound
              simp only [Bool.and_eq_true, decide_eq_true_eq]
                at h
              exact .step hFound h.1 (ih h.2)
            · cases h

/- Whether a thread may read the head pointer now. -/
def reloadInTime
    (s : LogState) : LogAction → Bool
  | .serve t _ =>
      match s.threads t, s.world.holding t with
      | .busy _ _ (.ask (.getObject .head) _), some j =>
          s.world.store.flights.all fun f =>
            !decide (SentIn f t (s.world.calls t)) ||
              (headWriteId f.write).all fun id =>
                walksTo s.world j.fileId id 8
                  (headOf s.world.headLog)
      | _, _ => true
  | _ => true

theorem reloadsInTime_of_reloadInTime
    {a : LogAction}
    (h : reloadInTime s a = true) : ReloadsInTime s a := by
  intro t k hServe hAsks j hHolding f hf hSender id hHead _
  subst hServe
  rcases hAsks with ⟨c, v, cont, hThread⟩
  have hId := headWriteId_of_headWrite hHead
  simp only [reloadInTime, hThread, hHolding,
    List.all_eq_true, Bool.or_eq_true, Bool.not_eq_true',
    decide_eq_false_iff_not] at h
  rcases h f hf with hNot | hAll
  · exact absurd hSender hNot
  · rw [hId] at hAll
    exact walk_of_walksTo hAll

/- What the answer to a durable request says. -/
def durableAnswer
    (s : LogState)
    (t : Tid)
    (j : JournalId) :
    Option (DurableCommit × Option OpId) :=
  match s.threads t with
  | .busy c _ (.done (result, v')) =>
      if c.journal = some j then
        result.durableCommit.map fun d => (d, v'.currentHead)
      else
        none
  | _ => none

theorem returned_of_durableAnswer
    {d : DurableCommit} {head : Option OpId}
    (h : durableAnswer s t j = some (d, head)) :
    ∃ c v result v', Returned s t c v result v' ∧
      c.journal = some j ∧ result.durableCommit = some d ∧
      v'.currentHead = head := by
  unfold durableAnswer at h
  split at h
  · rename_i c v result v' hThread
    split at h
    · rename_i hJournal
      rcases Option.map_eq_some_iff.mp h with ⟨d', hd', hEq⟩
      cases hEq
      exact ⟨c, v, result, v', hThread, hJournal, hd', rfl⟩
    · cases h
  · cases h

/-
  The CAS of device 1 is carried out; before its response
  comes, device 2 commits on top, on the file `other`.
-/
def lostBelow
    (j : JournalId)
    (other : FileId) : List LogAction :=
  opens 1 ++ opens 2 ++
  [.call 1 (renamesDurably j "a")] ++ reads 1 3 ++
  [.serve 1 (.fresh 1)] ++ reads 1 2 ++ writes 1 0 ++
  [.serve 1 .answer, .env (.deliver 1)] ++
  [.call 2 (renames other "b")] ++ reads 2 3 ++
  [.serve 2 (.fresh 2)] ++ writes 2 2 ++ writes 2 3 ++
  reads 2 1 ++
  [.env (.deliver 1), .serve 1 (.reply false)] ++ reads 1 6

theorem lost_response_below_other_file :
    ∃ s c v result v' d,
      LogRun ReloadsInTime LogState.initial s ∧
        Returned s 1 c v result v' ∧
        result.durableCommit = some d ∧
        v'.currentHead ≠ some d.operation.opId ∧
        Walk s.world (NotOn 10) v'.currentHead
          (some d.operation.opId) := by
  have trace :
      (logSystem.execIf reloadInTime LogState.initial
        (lostBelow ⟨7, 10⟩ 20)).any
        (fun s => (durableAnswer s 1 ⟨7, 10⟩).any
          fun (d, head) =>
            !d.superseded && head ≠ some d.operation.opId) =
        true := by
    decide +kernel
  rcases ThreadSystem.Run.exists_of_execIf
      (fun _ _ => reloadsInTime_of_reloadInTime)
      (lostBelow ⟨7, 10⟩ 20) trace with ⟨s, run, hTest⟩
  rcases (Option.any_eq_true _ _).mp hTest with
    ⟨⟨d, head⟩, hAnswer, hTest⟩
  simp only [Bool.and_eq_true, Bool.not_eq_true',
    decide_eq_true_eq] at hTest
  rcases returned_of_durableAnswer hAnswer with
    ⟨c, v, result, v', hReturned, hJournal, hResult, rfl⟩
  exact ⟨s, c, v, result, v', d, run, hReturned, hResult,
    hTest.2,
    superseded_false_is_latest run hReturned hJournal hResult
      hTest.1⟩

/-
  The same with a newer operation on the file itself: the
  commit is answered with `superseded` false.
-/
theorem overtaken_commit_not_superseded :
    ∃ s c v result v' d,
      LogRun (fun _ _ => True) LogState.initial s ∧
        Returned s 1 c v result v' ∧
        c.journal = some ⟨7, 10⟩ ∧
        result.durableCommit = some d ∧
        d.superseded = false ∧
        ¬ Walk s.world (NotOn 10) v'.currentHead
          (some d.operation.opId) := by
  have trace :
      (logSystem.exec LogState.initial
        (lostBelow ⟨7, 10⟩ 10)).any
        (fun s => (durableAnswer s 1 ⟨7, 10⟩).any
          fun (d, head) =>
            !d.superseded && head ≠ some d.operation.opId &&
            head.any fun id => (s.world.operationOf id).any
              fun op => op.targetFileId = some 10) =
        true := by
    decide +kernel
  rcases ThreadSystem.Run.exists_of_execIf
      (fun _ _ _ => trivial) (lostBelow ⟨7, 10⟩ 10) trace with
    ⟨s, run, hTest⟩
  rcases (Option.any_eq_true _ _).mp hTest with
    ⟨⟨d, head⟩, hAnswer, hTest⟩
  simp only [Bool.and_eq_true, Bool.not_eq_true',
    decide_eq_true_eq, Option.any_eq_true] at hTest
  rcases hTest with
    ⟨⟨hFlag, hNe⟩, id, rfl, op, hFound, hTarget⟩
  rcases returned_of_durableAnswer hAnswer with
    ⟨c, v, result, v', hReturned, hJournal, hResult, hHead⟩
  refine ⟨s, c, v, result, v', d, run, hReturned, hJournal,
    hResult, hFlag, ?_⟩
  rw [hHead]
  intro hWalk
  cases hWalk with
  | refl => exact hNe rfl
  | step found holds _ =>
      rw [found] at hFound
      cases hFound
      exact holds hTarget

end S4Drive

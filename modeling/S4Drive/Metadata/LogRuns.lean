import S4Drive.Metadata.Linearity

/-
  What the devices see of the log over whole runs. Whatever
  is called, an operation never changes. With paired calls
  the commits are in one order, in which an operation that
  was built after another one was returned is above it, and
  the searches for the newest operation find it.

  Main declarations:
    * `operations_are_immutable`
    * `LogAbove`, `commits_are_ordered`
    * `NewestIn`, `searches_find_the_newest`
-/

------------------------------------------------------------
-- Immutable Operations
------------------------------------------------------------

namespace S4Drive

open ObjectStore Concurrency ChainLog

variable {permits : LogState → LogAction → Prop}
variable {s s' : LogState} {t u : Tid} {op op' : Operation}

/- Whatever is called, operations never change. -/
theorem operations_are_immutable
    {id : OpId} {body body' : Body}
    (before : LogRun permits LogState.initial s)
    (hBody :
      s.world.store.objects.lookup (.op id) = some body)
    (after : LogRun permits s s')
    (hBody' :
      s'.world.store.objects.lookup (.op id) = some body') :
    body' = body ∧ ∃ op, op.opId = id ∧ body = .operation op := by
  have hPermits : ∀ s a, permits s a →
      (logLimits False fun _ _ _ => True).Permitted s a :=
    permitted_of_admits fun _ _ _ _ _ _ => trivial
  have hState := stateOk_of_run hPermits before
  have hState' := hState.run hPermits after
  rcases hState.inv.log.basic.objects id body hBody with
    ⟨op, hBuilt, hId, rfl⟩
  rcases hState'.inv.log.basic.objects id body' hBody' with
    ⟨op', hBuilt', hId', rfl⟩
  have hSame := hState'.inv.log.basic.built_unique hBuilt'
    (hBuilt.mono (hState.grows hPermits after))
    (hId'.trans hId.symm)
  exact ⟨congrArg _ hSame, op, hId, rfl⟩

/- The operation of the first commit, after the second one. -/
theorem first_operation_unchanged :
    ∃ s s' id body,
      LogRun (fun _ _ => True) LogState.initial s ∧
        s.world.store.objects.lookup (.op id) = some body ∧
        LogRun (fun _ _ => True) s s' ∧
        (∀ body', s'.world.store.objects.lookup (.op id) =
          some body' → body' = body) ∧
        ∃ op, op.opId = id ∧ body = .operation op := by
  have trace :
      (logSystem.exec LogState.initial firstCommit).any
        (fun s =>
          (s.world.store.objects.lookup (.op ⟨1, 1, 1⟩)).any
            fun body => (logSystem.exec s secondCommit).any
              fun s' => s'.world.store.objects.lookup
                (.op ⟨1, 1, 1⟩) = some body) = true := by
    decide +kernel
  have hCheck : ∀ (s : LogState) (a : LogAction),
      true = true → True := fun _ _ _ => trivial
  rcases ThreadSystem.Run.exists_of_execIf hCheck firstCommit
      trace with ⟨s, before, hRest⟩
  rcases (Option.any_eq_true _ _).mp hRest with
    ⟨body, hBody, h⟩
  rcases ThreadSystem.Run.exists_of_execIf hCheck secondCommit
      h with ⟨s', after, hBody'⟩
  exact ⟨s, s', _, body, before, hBody, after,
    fun body' h' =>
      (operations_are_immutable before hBody after h').1,
    (operations_are_immutable before hBody after
      (of_decide_eq_true hBody')).2⟩

------------------------------------------------------------
-- The Order of the Commits
------------------------------------------------------------

/- The operation is stored, and the other one is put on it. -/
def PutOn
    (objects : Objects Key Body)
    (op previous : Operation) : Prop :=
  op.baseHead = some previous.opId ∧
    objects.lookup (.op previous.opId) =
      some (.operation previous)

/- The bases of the operation lead down to the other one. -/
abbrev LogAbove (objects : Objects Key Body) :
    Operation → Operation → Prop :=
  Relation.TransGen (PutOn objects)

theorem above_of_mem
    {objects : Objects Key Body} {l : List Operation}
    (hChain : LogChain (op :: l))
    (hPresent :
      ∀ x ∈ l, objects.lookup (.op x.opId) =
        some (.operation x))
    (hMem : op' ∈ l) : LogAbove objects op op' := by
  induction l generalizing op with
  | nil => cases hMem
  | cons x l ih =>
      have hOn : PutOn objects op x :=
        ⟨hChain.linked.1, hPresent x List.mem_cons_self⟩
      rcases List.mem_cons.mp hMem with rfl | hMem
      · exact .single hOn
      · apply Relation.TransGen.head hOn
        exact ih (hChain.of_suffix (List.suffix_cons op _))
          (fun y hy => hPresent y (List.mem_cons_of_mem x hy))
          hMem

/- What is newer in the log is above what is older. -/
theorem LogInv.above
    {w : World} {newer older : List Operation}
    (h : LogInv True w)
    (hLog : w.headLog = newer ++ op :: older)
    (hMem : op' ∈ older) : LogAbove w.store.objects op op' := by
  have hLinear := h.linear trivial
  have hSuffix : op :: older <:+ w.headLog := ⟨newer, hLog.symm⟩
  exact above_of_mem (hLinear.chain.of_suffix hSuffix)
    (fun x hx => hLinear.present x
      (hSuffix.subset (List.mem_cons_of_mem op hx)))
    hMem

/-
  With paired calls any two operations that were returned
  are one above the other, and one that was built after the
  other had been returned is the upper one.
-/
theorem commits_are_ordered
    (before : LogRun PairedCalls LogState.initial s)
    (hFirst : returnedOperation s t = some op)
    (after : LogRun PairedCalls s s')
    (hSecond : returnedOperation s' u = some op') :
    (op' = op ∨ LogAbove s'.world.store.objects op' op ∨
        LogAbove s'.world.store.objects op op') ∧
      (¬ Built s.world op' →
        LogAbove s'.world.store.objects op' op) := by
  have hPermits := permitted_of_paired fun _ _ h => h
  have hState := pairedOk_of_run (fun _ _ h => h) before
  have hState' := hState.run hPermits after
  have hInv' := hState'.inv.log
  have hMem := hState.mem_of_returned trivial hFirst
  have hMem' := hState'.mem_of_returned trivial hSecond
  obtain ⟨newer, hLog⟩ := (hState.grows hPermits after).log
  have later (hNew : op' ∈ newer) :
      LogAbove s'.world.store.objects op' op := by
    obtain ⟨above, below, rfl⟩ := List.append_of_mem hNew
    have hNow : s'.world.headLog =
        above ++ op' :: (below ++ s.world.headLog) := by
      rw [← hLog]
      simp
    exact hInv'.above hNow (List.mem_append_right _ hMem)
  have hWhere := hMem'
  rw [← hLog, List.mem_append] at hWhere
  refine ⟨?_, fun hNew => later (hWhere.resolve_right fun hOld =>
    hNew (hState.inv.log.basic.log op' hOld))⟩
  obtain ⟨above, below, hSplit⟩ := List.append_of_mem hMem'
  have hOld : op ∈ above ++ op' :: below :=
    hSplit ▸ hLog ▸ List.mem_append_right _ hMem
  rcases List.mem_append.mp hOld with hAbove | hBelow
  · obtain ⟨top, rest, rfl⟩ := List.append_of_mem hAbove
    have hNow : s'.world.headLog =
        top ++ op :: (rest ++ op' :: below) := by
      rw [hSplit]
      simp
    exact .inr (.inr (hInv'.above hNow (by simp)))
  · rcases List.mem_cons.mp hBelow with rfl | hBelow
    · exact .inl rfl
    · exact .inr (.inl (hInv'.above hSplit hBelow))

/- The second commit is put on the first one. -/
theorem second_commit_above_first :
    ∃ s s' op op',
      LogRun PairedCalls LogState.initial s ∧
        returnedOperation s 1 = some op ∧
        LogRun PairedCalls s s' ∧
        returnedOperation s' 2 = some op' ∧
        ¬ Built s.world op' ∧
        LogAbove s'.world.store.objects op' op := by
  have trace :
      (logSystem.execIf pairedCall LogState.initial
        firstCommit).any
        (fun s => (returnedOperation s 1).any fun _ =>
          (logSystem.execIf pairedCall s secondCommit).any
            fun s' => (returnedOperation s' 2).any fun op' =>
              s.world.issued.all fun x => x.operation ≠ op') =
        true := by
    decide +kernel
  have hCheck : ∀ s a, pairedCall s a = true → PairedCalls s a :=
    fun _ _ => pairedCalls_of_pairedCall
  rcases ThreadSystem.Run.exists_of_execIf hCheck firstCommit
      trace with ⟨s, before, hRest⟩
  rcases (Option.any_eq_true _ _).mp hRest with
    ⟨op, hFirst, h⟩
  rcases ThreadSystem.Run.exists_of_execIf hCheck secondCommit
      h with ⟨s', after, hLast⟩
  rcases (Option.any_eq_true _ _).mp hLast with
    ⟨op', hSecond, hNew⟩
  have hBuilt : ¬ Built s.world op' := by
    rintro ⟨x, hx, hOp⟩
    simpa [hOp] using List.all_eq_true.mp hNew x hx
  exact ⟨s, s', op, op', before, hFirst, after, hSecond, hBuilt,
    (commits_are_ordered before hFirst after hSecond).2 hBuilt⟩

/- The newest operation on a file that `found` accepts. -/
def NewestIn
    (found : Operation → Bool)
    (fileId : FileId)
    (op : Operation)
    (l : List Operation) : Prop :=
  ∃ newer older, l = newer ++ op :: older ∧
    op.targetFileId = some fileId ∧ found op = true ∧
    ∀ x ∈ newer, x.targetFileId = some fileId → found x = false

/- Below the head that a search has read. -/
theorem LogInv.newestIn
    {w : World} {v : OperationLog} {l : List Operation}
    {found : Operation → Bool} {fileId : FileId}
    (h : LogInv True w)
    (hSuffix : l <:+ w.headLog)
    (hHead : headOf l = v.currentHead)
    (hNewest : OperationLog.Newest found fileId op v w) :
    NewestIn found fileId op l := by
  have hWalk := hNewest.walk
  rw [← hHead] at hWalk
  rcases h.basic.split (h.linear trivial).chain hSuffix hWalk
    with ⟨newer, older, rfl, hOlder, hNone⟩
  rcases older with _ | ⟨x, older⟩
  · cases hOlder
  have hMem : x ∈ w.headLog := hSuffix.subset (by simp)
  have hKnown :=
    h.basic.operationOf_of_built (h.basic.log x hMem)
  rw [Option.some.inj hOlder, hNewest.known] at hKnown
  cases hKnown
  exact ⟨newer, older, rfl, hNewest.target, hNewest.matching,
    hNone⟩

/- Device 1 asks what was done last to the file it renamed. -/
def searchAfterCommit : List LogAction :=
  firstCommit ++
    [.finish 1, .call 1 (.latestOnTarget 10)] ++ reads 1 4

/- What the search of the first call has found. -/
def foundOperation (s : LogState) : Option Operation :=
  match s.threads 1 with
  | .busy (.latestOnTarget 10) _ (.done (.latest (.ok r), _)) =>
      r
  | _ => none

theorem returned_of_found (h : foundOperation s = some op) :
    ∃ v v', Returned s 1 (.latestOnTarget 10) v
      (.latest (.ok (some op))) v' := by
  unfold foundOperation at h
  split at h
  · rename_i v r v' hThread
    exact ⟨v, v', h ▸ hThread⟩
  · cases h

end S4Drive

import S4Drive.Metadata.LogVerified

/-
  Linearity of the log: what was committed stays reachable
  from the head pointer. It holds as long as every commit
  starts on a log whose ETag belongs to the head that it
  knows. The ETag is read by a request of its own after the
  CAS, so a log that was used once may hold a mixed pair.

  Main declarations:
    * `reachable_iff_mem`
    * `PairedCalls`, `pairedCall`
    * `committed_stays_reachable`
    * `commit_overwrites_unread_head`
-/

------------------------------------------------------------
-- Reachable Operations
------------------------------------------------------------

namespace S4Drive

open ObjectStore Concurrency ChainLog

variable {clean : Prop} {w : World}

/- On a chain the reachable operations are the history. -/
theorem LogInv.reachable_iff_mem
    (h : LogInv clean w)
    (hClean : clean)
    (op : Operation) :
    Reachable w.store.objects op ↔ op ∈ w.headLog := by
  have hLinear := h.linear hClean
  have built :
      ∀ op : Operation,
        w.store.objects.lookup (.op op.opId) =
          some (.operation op) → Built w op := by
    intro op hStored
    rcases h.basic.objects _ _ hStored with
      ⟨op', hBuilt, _, hBody⟩
    cases hBody
    exact hBuilt
  constructor
  · intro hReach
    induction hReach with
    | @head op hPointer hStored =>
        rcases h.head_of_lookup hPointer with ⟨id, hId, hHead⟩
        cases hId
        apply h.basic.mem_of_id (built op hStored)
        rcases Option.map_eq_some_iff.mp hHead with
          ⟨x, hx, hxId⟩
        exact ⟨x, List.mem_of_mem_head? hx, hxId⟩
    | @base op previous _ hLink hStored ih =>
        apply h.basic.mem_of_id (built previous hStored)
        have hKnown := hLinear.chain.stale_of_mem ih
        exact hKnown.known previous.opId hLink
  · intro hMem
    have all :
        ∀ l : List Operation, l <:+ w.headLog →
          ∀ x ∈ l, (∀ y, l.head? = some y →
            Reachable w.store.objects y) →
          Reachable w.store.objects x := by
      intro l
      induction l with
      | nil =>
          intro _ x hx
          cases hx
      | cons y l ih =>
          intro hSuffix x hx hFirst
          have hHead := hFirst y rfl
          rcases List.mem_cons.mp hx with rfl | hx
          · exact hHead
          · have hSuffix' :=
              (List.suffix_cons y l).trans hSuffix
            apply ih hSuffix' x hx
            intro z hz
            have hLink : y.baseHead = headOf l :=
              (hLinear.chain.of_suffix hSuffix).linked.1
            have hzMem : z ∈ l := List.mem_of_mem_head? hz
            apply Reachable.base hHead
            · rw [hLink, headOf, headKey, hz]
              rfl
            · exact hLinear.present z (hSuffix'.subset hzMem)
    apply all w.headLog List.suffix_rfl op hMem
    intro y hy
    have hyMem : y ∈ w.headLog := List.mem_of_mem_head? hy
    apply Reachable.head _ (hLinear.present y hyMem)
    rw [h.basic.pointer, headOf, headKey, hy]
    rfl

/- The operations on the way from a head, newest first. -/
def reachableIds
    (objects : Objects Key Body) :
    Nat → Option OpId → Option (List OpId)
  | 0, _ => none
  | _ + 1, none => some []
  | rounds + 1, some id =>
      match objects.lookup (.op id) with
      | some (.operation op) =>
          (reachableIds objects rounds op.baseHead).map
            fun ids => id :: ids
      | _ => some []

/- The operation that the head pointer names. -/
def headId (objects : Objects Key Body) : Option OpId :=
  match objects.lookup .head with
  | some (.head id) => id
  | _ => none

variable {op : Operation}

theorem reachableIds_stored
    {objects : Objects Key Body} {rounds : Nat}
    {ids : List OpId}
    (hStored :
      objects.lookup (.op op.opId) = some (.operation op))
    (h :
      reachableIds objects rounds (some op.opId) = some ids) :
    ∃ rounds' rest, ids = op.opId :: rest ∧
      reachableIds objects rounds' op.baseHead = some rest := by
  cases rounds with
  | zero => cases h
  | succ rounds =>
      simp only [reachableIds, hStored,
        Option.map_eq_some_iff] at h
      rcases h with ⟨rest, hRest, rfl⟩
      exact ⟨rounds, rest, rfl, hRest⟩

/- A finished walk from the head meets what is reachable. -/
theorem mem_reachableIds
    {objects : Objects Key Body} {rounds : Nat}
    {ids : List OpId}
    (hReach : Reachable objects op)
    (h :
      reachableIds objects rounds (headId objects) =
        some ids) :
    op.opId ∈ ids := by
  have tail :
      ∃ rounds' ids', ids' ⊆ ids ∧
        objects.lookup (.op op.opId) =
          some (.operation op) ∧
        reachableIds objects rounds' (some op.opId) =
          some ids' := by
    induction hReach with
    | head hPointer hStored =>
        rw [headId, hPointer] at h
        exact ⟨rounds, ids, List.Subset.refl _, hStored, h⟩
    | base _ hLink hStored ih =>
        rcases ih with ⟨rounds', ids', hSub, hAbove, hWalk⟩
        rcases reachableIds_stored hAbove hWalk with
          ⟨rounds'', rest, rfl, hRest⟩
        rw [hLink] at hRest
        exact ⟨rounds'', rest,
          fun x hx => hSub (List.mem_cons_of_mem _ hx),
          hStored, hRest⟩
  rcases tail with ⟨rounds', ids', hSub, hStored, hWalk⟩
  rcases reachableIds_stored hStored hWalk with
    ⟨_, rest, rfl, _⟩
  exact hSub List.mem_cons_self

------------------------------------------------------------
-- Committed Operations
------------------------------------------------------------

/- The operation of a call that was successful. -/
def LogResult.operation : LogResult → Option Operation
  | .committed (.ok op) => some op
  | .attempt (.ok (some d)) => some d.operation
  | .durable (.ok d) => some d.operation
  | _ => none

/- The operation with which a call of `t` has returned. -/
def returnedOperation
    (s : LogState)
    (t : Tid) : Option Operation :=
  match s.threads t with
  | .busy _ _ (.done (result, _)) => result.operation
  | _ => none

variable {s : LogState}

theorem returned_of_operation
    {t : Tid}
    (h : returnedOperation s t = some op) :
    ∃ c v result v', Returned s t c v result v' ∧
      result.operation = some op := by
  unfold returnedOperation at h
  split at h
  · rename_i c v result v' hThread
    exact ⟨c, v, result, v', hThread, h⟩
  · cases h

/-
  Commits are only called on a log whose ETag is the one of
  the head object that names its current head.
-/
def PairedCalls
    (s : LogState)
    (a : LogAction) : Prop :=
  ∀ t c v, a = .call t c → c.commits = true →
    s.threads t = .idle v → v.Paired

/- What holds of every state of a run of paired calls. -/
abbrev PairedOk : LogState → Prop :=
  LogStateOk True fun _ _ _ => True

variable {permits : LogState → LogAction → Prop}

theorem permitted_of_paired
    (hPaired : ∀ s a, permits s a → PairedCalls s a)
    (s : LogState)
    (a : LogAction)
    (h : permits s a) :
    (logLimits True fun _ _ _ => True).Permitted s a := by
  cases a with
  | call t c =>
      intro v hThread _ hCommits
      exact hPaired s _ h t c v rfl hCommits hThread
  | serve t k => exact fun _ _ _ _ _ => trivial
  | finish t => trivial
  | halt t => trivial
  | env e => trivial

theorem pairedOk_of_run
    (hPaired : ∀ s a, permits s a → PairedCalls s a)
    (run : LogRun permits LogState.initial s) :
    PairedOk s :=
  stateOk_of_run (permitted_of_paired hPaired) run

/- Whether `PairedCalls` permits an action. -/
def pairedCall
    (s : LogState) : LogAction → Bool
  | .call t c =>
      match s.threads t with
      | .idle v => !c.commits || decide v.Paired
      | .busy _ _ _ => true
  | _ => true

theorem pairedCalls_of_pairedCall
    {a : LogAction}
    (h : pairedCall s a = true) : PairedCalls s a := by
  intro t c v hCall hCommits hThread
  subst hCall
  simpa [pairedCall, hThread, hCommits] using h

/- A returned operation is in the history of the head. -/
theorem LogStateOk.mem_of_returned
    {clean : Prop} {admits : Tid → Req → World → Prop}
    {t : Tid}
    (hState : LogStateOk clean admits s)
    (hClean : clean)
    (hReturned : returnedOperation s t = some op) :
    op ∈ s.world.headLog := by
  rcases returned_of_operation hReturned with
    ⟨c, v, result, v', hThread, hOp⟩
  have hPost := (hState.returned hThread).call
  unfold LogResult.operation at hOp
  split at hOp
  · cases hOp
    cases c with
    | commit targetFileId opType preconditions effects =>
        rcases hPost with ⟨_, _, _, _, hDone⟩
        exact (hDone op rfl).committed hClean
    | _ => cases hPost
  · cases hOp
    cases c with
    | committedAttempt j =>
        rcases hPost with ⟨_, _, hDone⟩
        exact hDone.committed hClean
    | _ => cases hPost
  · cases hOp
    cases c with
    | commitDurable opType preconditions effects j =>
        rcases hPost with ⟨_, _, hDone⟩
        exact (hDone _ rfl).committed hClean
    | _ => cases hPost
  · cases hOp

/-
  With paired calls, an operation that was returned stays
  reachable from the head pointer, whatever the devices do
  next. The operations on the way are the history of the
  head pointer: no head was ever replaced unread.
-/
theorem committed_stays_reachable
    {s s' : LogState} {t : Tid} {op : Operation}
    (before : LogRun PairedCalls LogState.initial s)
    (hReturned : returnedOperation s t = some op)
    (after : LogRun PairedCalls s s') :
    Reachable s'.world.store.objects op ∧
      LogChain s'.world.headLog := by
  have hPermits := permitted_of_paired fun _ _ h => h
  have hState := pairedOk_of_run (fun _ _ h => h) before
  have hState' := hState.run hPermits after
  have hMem := hState.mem_of_returned trivial hReturned
  have hMem' :=
    (hState.grows hPermits after).log.subset hMem
  exact ⟨(hState'.inv.log.reachable_iff_mem trivial op).mpr hMem',
    (hState'.inv.log.linear trivial).chain⟩

/- Device 1 commits a rename and returns. -/
def firstCommit : List LogAction :=
  opens 1 ++ [.call 1 (renames 10 "a")] ++ reads 1 1 ++
  [.serve 1 (.fresh 1)] ++ writes 1 0 ++ writes 1 1 ++
  reads 1 1

/- Device 2 commits another one after it. -/
def secondCommit : List LogAction :=
  [.finish 1] ++ opens 2 ++ [.call 2 (renames 20 "b")] ++
  reads 2 3 ++ [.serve 2 (.fresh 2)] ++ writes 2 2 ++
  writes 2 3 ++ reads 2 1

theorem first_commit_stays_reachable :
    ∃ s s' op,
      LogRun PairedCalls LogState.initial s ∧
        returnedOperation s 1 = some op ∧
        LogRun PairedCalls s s' ∧
        (returnedOperation s' 2).isSome ∧
        Reachable s'.world.store.objects op ∧
        LogChain s'.world.headLog := by
  have trace :
      (logSystem.execIf pairedCall LogState.initial
        firstCommit).any
        (fun s => (returnedOperation s 1).any fun _ =>
          (logSystem.execIf pairedCall s secondCommit).any
            fun s' => (returnedOperation s' 2).isSome) =
        true := by
    decide +kernel
  have hCheck : ∀ s a, pairedCall s a = true → PairedCalls s a :=
    fun _ _ => pairedCalls_of_pairedCall
  rcases ThreadSystem.Run.exists_of_execIf hCheck firstCommit
      trace with ⟨s, before, hRest⟩
  rcases (Option.any_eq_true _ _).mp hRest with
    ⟨op, hReturned, h⟩
  rcases ThreadSystem.Run.exists_of_execIf hCheck secondCommit
      h with ⟨s', after, hSecond⟩
  exact ⟨s, s', op, before, hReturned, after, hSecond,
    committed_stays_reachable before hReturned after⟩

/-
  Device 1 renames a file, up to the CAS of its operation.
  Before it reads the new ETag, device 2 has committed on
  top of that operation.
-/
def commitBeforeHead : List LogAction :=
  opens 1 ++ opens 2 ++
  [.call 1 (renames 10 "a")] ++ reads 1 1 ++
  [.serve 1 (.fresh 1)] ++ writes 1 0 ++ writes 1 1 ++
  [.call 2 (renames 20 "b")] ++ reads 2 3 ++
  [.serve 2 (.fresh 2)] ++ writes 2 2 ++ writes 2 3 ++
  reads 2 1

/- Device 1 reads that ETag and uses its log once more. -/
def reuseOfLog : List LogAction :=
  reads 1 1 ++ [.finish 1, .call 1 (renames 10 "c")] ++
  [.serve 1 (.fresh 3)] ++ writes 1 4 ++ writes 1 5

/- The walk from the head pointer misses `op`. -/
def walkMisses (s : LogState) (op : Operation) : Bool :=
  match reachableIds s.world.store.objects 8
      (headId s.world.store.objects) with
  | some ids => !ids.contains op.opId
  | none => false

theorem not_reachable_of_walkMisses
    (h : walkMisses s op = true) :
    ¬ Reachable s.world.store.objects op := by
  intro hReach
  unfold walkMisses at h
  split at h
  · rename_i ids hWalk
    have hMem := mem_reachableIds hReach hWalk
    simp [hMem] at h
  · cases h

/-
  The second commit of device 1 overwrites the head of
  device 2, which device 1 has never read.
-/
theorem commit_overwrites_unread_head :
    ∃ s s' op,
      LogRun (fun _ _ => True) LogState.initial s ∧
        returnedOperation s 2 = some op ∧
        LogRun (fun _ _ => True) s s' ∧
        ¬ Reachable s'.world.store.objects op := by
  have trace :
      (logSystem.exec LogState.initial commitBeforeHead).any
        (fun s => (returnedOperation s 2).any fun op =>
          (logSystem.exec s reuseOfLog).any
            (walkMisses · op)) = true := by
    decide +kernel
  rcases ThreadSystem.Run.exists_of_execIf
      (fun _ _ _ => trivial) commitBeforeHead trace with
    ⟨s, before, hRest⟩
  rcases (Option.any_eq_true _ _).mp hRest with
    ⟨op, hReturned, h⟩
  rcases ThreadSystem.Run.exists_of_execIf
      (fun _ _ _ => trivial) reuseOfLog h with
    ⟨s', after, hMisses⟩
  exact ⟨s, s', op, before, hReturned, after,
    not_reachable_of_walkMisses hMisses⟩

end S4Drive

import S4Drive.Metadata.Linearity

/-
  A durable request is committed at most once. Its journal
  lists every attempt before anything is written, and all
  attempts but the last are lost when the next one is drawn:
  they are not in the log, and their base is no longer the
  head. What is taken for the head must be the head, so the
  calls have to be paired.

  Main declarations:
    * `recordedAttempts`, `EverRecorded`, `EverReachable`
    * `at_most_one_attempt_reachable`
    * `two_attempts_reachable`
-/

------------------------------------------------------------
-- Recorded Attempts
------------------------------------------------------------

namespace S4Drive

open ObjectStore Concurrency ChainLog

/- What a journal lists, in memory or in its file. -/
def recordedAttempts
    (w : World)
    (j : JournalId) : List Operation :=
  (w.journals j).receipt.attempts ++
    (w.journals j).stored.attempts

variable {permits : LogState → LogAction → Prop}
variable {s : LogState} {j : JournalId}
variable {op op' : Operation}

/- At some moment on the way to `s` the journal listed it. -/
def EverRecorded
    (permits : LogState → LogAction → Prop)
    (s : LogState)
    (j : JournalId)
    (op : Operation) : Prop :=
  ∃ s₀, LogRun permits LogState.initial s₀ ∧
    LogRun permits s₀ s ∧ op ∈ recordedAttempts s₀.world j

/- At some moment on the way to `s` it was reachable. -/
def EverReachable
    (permits : LogState → LogAction → Prop)
    (s : LogState)
    (op : Operation) : Prop :=
  ∃ s₀, LogRun permits LogState.initial s₀ ∧
    LogRun permits s₀ s ∧ Reachable s₀.world.store.objects op

/- Whatever was recorded was built for the journal. -/
theorem EverRecorded.issued
    (hPaired : ∀ s a, permits s a → PairedCalls s a)
    (h : EverRecorded permits s j op) :
    ∃ x ∈ s.world.issued, x.operation = op ∧
      x.journal = some j := by
  rcases h with ⟨s₀, before, after, hOp⟩
  have hState := pairedOk_of_run hPaired before
  have hGrows :=
    hState.grows (permitted_of_paired hPaired) after
  rcases hState.inv.log.basic.recorded j op
      (List.mem_append.mp hOp) with ⟨x, hx, hRest⟩
  exact ⟨x, hGrows.issued.subset hx, hRest⟩

/- With paired calls, what was reachable once is in the log. -/
theorem EverReachable.mem_headLog
    (hPaired : ∀ s a, permits s a → PairedCalls s a)
    (h : EverReachable permits s op) :
    op ∈ s.world.headLog := by
  rcases h with ⟨s₀, before, after, hReach⟩
  have hState := pairedOk_of_run hPaired before
  have hGrows :=
    hState.grows (permitted_of_paired hPaired) after
  exact hGrows.log.subset
    ((hState.inv.log.reachable_iff_mem trivial op).mp hReach)

/-
  At most one of the operations that were ever recorded in a
  journal was ever reachable from the head pointer, however
  often its calls stop and whatever arrives late.
-/
theorem at_most_one_attempt_reachable
    (run : LogRun PairedCalls LogState.initial s)
    (hRecorded : EverRecorded PairedCalls s j op)
    (hRecorded' : EverRecorded PairedCalls s j op')
    (hReachable : EverReachable PairedCalls s op)
    (hReachable' : EverReachable PairedCalls s op') :
    op = op' := by
  have hSelf : ∀ s a, PairedCalls s a → PairedCalls s a :=
    fun _ _ h => h
  have hState := pairedOk_of_run hSelf run
  have last : ∀ {op}, EverRecorded PairedCalls s j op →
      EverReachable PairedCalls s op →
      (s.world.journals j).receipt.attempts.getLast? =
        some op := by
    intro op hRecorded hReachable
    rcases hRecorded.issued hSelf with ⟨x, hx, rfl, hJournal⟩
    exact (hState.inv.log.linear trivial).last_of_mem
      hState.inv.log.basic hx hJournal
      (hReachable.mem_headLog hSelf)
  have hLast := last hRecorded hReachable
  rw [last hRecorded' hReachable'] at hLast
  exact (Option.some.inj hLast).symm

/-
  The process of device 1 dies after the CAS of its first
  attempt; started again, it repeats the request.
-/
def repeatedRequest (j : JournalId) : List LogAction :=
  opens 1 ++ [.call 1 (renamesDurably j "a")] ++ reads 1 3 ++
  [.serve 1 (.fresh 1)] ++ reads 1 2 ++ writes 1 0 ++
  [.serve 1 .answer, .env (.deliver 1), .halt 1]

def secondRequest (j : JournalId) : List LogAction :=
  opens 1 ++ [.call 1 (renamesDurably j "a")] ++ reads 1 7

/- The first thing that the journal lists and head names. -/
def headAttempt
    (s : LogState)
    (j : JournalId) : Option Operation :=
  (recordedAttempts s.world j).find? fun op =>
    s.world.store.objects.lookup .head =
        some (.head (some op.opId)) &&
      s.world.store.objects.lookup (.op op.opId) =
        some (.operation op)

theorem headAttempt_spec
    (h : headAttempt s j = some op) :
    op ∈ recordedAttempts s.world j ∧
      Reachable s.world.store.objects op := by
  have hMem := List.mem_of_find?_eq_some h
  have hTest := List.find?_some h
  simp only [Bool.and_eq_true, decide_eq_true_eq] at hTest
  exact ⟨hMem, .head hTest.1 hTest.2⟩

theorem repeated_request_returns_first_attempt :
    ∃ s j op op',
      EverRecorded PairedCalls s j op ∧
        EverReachable PairedCalls s op ∧
        returnedOperation s 1 = some op' ∧ op = op' := by
  have trace :
      (logSystem.execIf pairedCall LogState.initial
        (repeatedRequest ⟨7, 10⟩)).any
        (fun s => (headAttempt s ⟨7, 10⟩).any fun _ =>
          (logSystem.execIf pairedCall s
            (secondRequest ⟨7, 10⟩)).any fun s' =>
              (returnedOperation s' 1).any fun op' =>
                headAttempt s' ⟨7, 10⟩ = some op') =
        true := by
    decide +kernel
  have hCheck : ∀ s a, pairedCall s a = true → PairedCalls s a :=
    fun _ _ => pairedCalls_of_pairedCall
  rcases ThreadSystem.Run.exists_of_execIf hCheck
      (repeatedRequest ⟨7, 10⟩) trace with ⟨s, before, hRest⟩
  rcases (Option.any_eq_true _ _).mp hRest with ⟨op, hOp, h⟩
  rcases ThreadSystem.Run.exists_of_execIf hCheck
      (secondRequest ⟨7, 10⟩) h with ⟨s', after, hSecond⟩
  rcases (Option.any_eq_true _ _).mp hSecond with
    ⟨op', hReturned, hHead⟩
  rcases headAttempt_spec hOp with ⟨hRecorded, hReachable⟩
  rcases headAttempt_spec (of_decide_eq_true hHead) with
    ⟨hRecorded', hReachable'⟩
  have run := before.trans after
  refine ⟨s', ⟨7, 10⟩, op, op',
    ⟨s, before, after, hRecorded⟩,
    ⟨s, before, after, hReachable⟩, hReturned, ?_⟩
  exact at_most_one_attempt_reachable run
    ⟨s, before, after, hRecorded⟩
    ⟨s', run, .refl s', hRecorded'⟩
    ⟨s, before, after, hReachable⟩
    ⟨s', run, .refl s', hReachable'⟩

/-
  Device 1 dies right after the CAS of its attempt, which
  came between the CAS of device 2 and its HEAD.
-/
def attemptBeforeHead (j : JournalId) : List LogAction :=
  opens 1 ++ opens 2 ++
  [.call 2 (renames 20 "b")] ++ reads 2 1 ++
  [.serve 2 (.fresh 1)] ++ writes 2 0 ++ writes 2 1 ++
  [.call 1 (renamesDurably j "a")] ++ reads 1 5 ++
  [.serve 1 (.fresh 2)] ++ reads 1 2 ++ writes 1 2 ++
  [.serve 1 .answer, .env (.deliver 3), .halt 1]

/-
  The next commit of device 2 overwrites the attempt; the
  repeated request proves it absent and sends another one.
-/
def attemptOverwritten (j : JournalId) : List LogAction :=
  reads 2 1 ++ [.finish 2, .call 2 (renames 20 "c")] ++
  [.serve 2 (.fresh 3)] ++ writes 2 4 ++ writes 2 5 ++
  reads 2 1 ++ opens 1 ++
  [.call 1 (renamesDurably j "a")] ++ reads 1 7 ++
  [.serve 1 (.fresh 4)] ++ reads 1 2 ++ writes 1 6 ++
  writes 1 7

theorem two_attempts_reachable :
    ∃ s j op op',
      EverRecorded (fun _ _ => True) s j op ∧
        EverReachable (fun _ _ => True) s op ∧
        EverRecorded (fun _ _ => True) s j op' ∧
        EverReachable (fun _ _ => True) s op' ∧
        op ≠ op' := by
  have trace :
      (logSystem.exec LogState.initial
        (attemptBeforeHead ⟨7, 10⟩)).any
        (fun s => (headAttempt s ⟨7, 10⟩).any fun op =>
          (logSystem.exec s (attemptOverwritten ⟨7, 10⟩)).any
            fun s' => (headAttempt s' ⟨7, 10⟩).any
              fun op' => op ≠ op') = true := by
    decide +kernel
  rcases ThreadSystem.Run.exists_of_execIf
      (fun _ _ _ => trivial) (attemptBeforeHead ⟨7, 10⟩) trace
    with ⟨s, before, hRest⟩
  rcases (Option.any_eq_true _ _).mp hRest with ⟨op, hOp, h⟩
  rcases ThreadSystem.Run.exists_of_execIf
      (fun _ _ _ => trivial) (attemptOverwritten ⟨7, 10⟩) h
    with ⟨s', after, hSecond⟩
  rcases (Option.any_eq_true _ _).mp hSecond with
    ⟨op', hOp', hNe⟩
  rcases headAttempt_spec hOp with ⟨hRecorded, hReachable⟩
  rcases headAttempt_spec hOp' with
    ⟨hRecorded', hReachable'⟩
  have run := before.trans after
  exact ⟨s', ⟨7, 10⟩, op, op',
    ⟨s, before, after, hRecorded⟩,
    ⟨s, before, after, hReachable⟩,
    ⟨s', run, .refl s', hRecorded'⟩,
    ⟨s', run, .refl s', hReachable'⟩,
    of_decide_eq_true hNe⟩

end S4Drive

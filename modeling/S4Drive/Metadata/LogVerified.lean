import S4Drive.Metadata.LogDurable

/-
  Every call of the log meets its specification, so that in
  every run of any number of devices the invariant holds and
  each call that has returned tells the truth.

  Main declarations:
    * `superseded_meets`, `latestMatching_meets`
    * `LogPost`
    * `logSystem_verified`
    * `stateOk_of_run`
-/

------------------------------------------------------------
-- Queries
------------------------------------------------------------

namespace S4Drive

open ObjectStore Concurrency ChainLog

variable {clean : Prop}
variable {host : Host clean}
variable {t : Tid} {w w' : World}

/- What a query leaves behind of the log `v`. -/
structure Queried
    (clean : Prop)
    (t : Tid)
    (w : World)
    (v v' : OperationLog)
    (w' : World) : Prop where
  others : Others t w w'
  knows : LogKnows v' w'
  paired : clean → v.Paired → v'.Paired

theorem HeadRead.queried
    {v v' : OperationLog} {w₁ : World}
    (h : HeadRead host t w w₁ w' v v') :
    Queried clean t w v v' w' :=
  ⟨h.before.trans h.after, h.knows,
    fun hClean _ => h.paired hClean⟩

/- What a query that succeeds knows of the head it read. -/
def Read
    {clean : Prop}
    (host : Host clean)
    (t : Tid)
    (w : World)
    (v : OperationLog)
    {α : Type}
    (r : CoreResult α)
    (v' : OperationLog)
    (w' : World) : Prop :=
  ∀ a, r = .ok a → ∃ w₁, HeadRead host t w w₁ w' v v'

variable {α : Type}

theorem read_error
    {v v' : OperationLog} {e : CoreError} :
    Read host t w v (.error e : CoreResult α) v' w' := by
  intro a h
  cases h

theorem HeadRead.read
    {v v' : OperationLog} {w₁ : World}
    {r : CoreResult α}
    (h : HeadRead host t w w₁ w' v v') :
    Read host t w v r v' w' :=
  fun _ _ => ⟨w₁, h⟩

variable {v : OperationLog}

namespace OperationLog

theorem loadHead_knows
    (hKnows : LogKnows v w) :
    LogMeets host t loadHead v
      (fun _ v' w' => Queried clean t w v v' w') w := by
  apply Meets.mono loadHead_meets
  rintro r v' w' ⟨hOthers, hPost⟩
  cases r with
  | ok head =>
      rcases hPost with ⟨w₁, hRead⟩
      exact hRead.queried
  | error e =>
      simp only at hPost
      rw [hPost]
      exact ⟨hOthers, hKnows.mono hOthers.toGrows,
        fun _ => id⟩

/- A search from a fresh head, as the queries make it. -/
theorem freshSearch_meets
    {targetFileId : FileId}
    {isOwn isFloor : Operation → Bool}
    {f : ChainSearch → LogM α}
    {Q : CoreResult α → OperationLog → World → Prop}
    (hKnows : LogKnows v w)
    (hFailed :
      ∀ e v' w', Queried clean t w v v' w' →
        Q (.error e) v' w')
    (hOk :
      ∀ search v' w₁ w', HeadRead host t w w₁ w' v v' →
        SearchPost targetFileId isOwn isFloor none
          v'.currentHead w' (.ok search) →
        (clean →
          Finds (searchOf targetFileId isOwn isFloor
            maxDurableWalkOps none w₁.headLog) search) →
        LogMeets host t (f search) v' Q w') :
    LogMeets host t
      (do
        loadHeadConsistent
        let search ← searchChain targetFileId isOwn isFloor
        f search) v Q w := by
  refine meets_loadHead (fun e w₁ h₀₁ => ?_) ?_
  · exact hFailed e v w₁
      ⟨h₀₁, hKnows.mono h₀₁.toGrows, fun _ => id⟩
  intro v₁ wₕ w₁ h₀₁ hRead
  apply meets_of_inv
  intro wᵢ h₁ᵢ hInvᵢ
  have hReadᵢ := hRead.later h₁ᵢ
  apply meets_bind
  apply Meets.mono (searchChain_finds hInvᵢ.log)
  rintro r v₂ w₂ ⟨⟨h₁₂, rfl, hSearch⟩, hSearched⟩
  have hRead₂ := hReadᵢ.later h₁₂
  cases r with
  | error e =>
      apply continues_error
      exact hFailed e v₂ w₂ hRead₂.queried
  | ok search =>
      apply continues_ok
      exact hOk search v₂ wₕ w₂ hRead₂ hSearch
        fun hClean => hSearched hClean _ hReadᵢ.after.log
          hRead.head search rfl

/- Whether something newer is on the file. -/
theorem superseded_meets
    {ownOpId : OpId} {fileId : FileId}
    (hKnows : LogKnows v w) :
    LogMeets host t (superseded ownOpId fileId) v
      (fun r v' w' => Queried clean t w v v' w' ∧
        Read host t w v r v' w' ∧
        (r = .ok false →
          Walk w' (NotOn fileId) v'.currentHead
            (some ownOpId)) ∧
        (r = .ok true → clean →
          SupersededIn fileId ownOpId w'.headLog))
      w := by
  unfold superseded
  have failed :
      ∀ e v' w', Queried clean t w v v' w' →
        Queried clean t w v v' w' ∧
          Read host t w v (.error e : CoreResult Bool) v' w' ∧
          ((.error e : CoreResult Bool) = .ok false →
            Walk w' (NotOn fileId) v'.currentHead
              (some ownOpId)) ∧
          ((.error e : CoreResult Bool) = .ok true → clean →
            SupersededIn fileId ownOpId w'.headLog) := by
    intro e v' w' hQueried
    refine ⟨hQueried, read_error, ?_, ?_⟩
    · intro h
      cases h
    · intro h
      cases h
  apply freshSearch_meets hKnows failed
  intro search v₁ wₕ w₁ hRead hSearch hExact
  cases search with
  | found op flag =>
      rcases hSearch with ⟨hOwn, _, _, hWalk⟩
      have hId : op.opId = ownOpId := by
        simpa using hOwn
      apply meets_pure
      intro w' hRely _
      have hRead' := hRead.later hRely
      refine ⟨hRead'.queried, hRead'.read, ?_, ?_⟩
      · intro hFlag
        cases hFlag
        rw [← hId]
        exact hWalk.mono hRely.toGrows fun x hx => hx.2 rfl
      · intro hFlag hClean
        cases hFlag
        exact (Finds.superseded (hExact hClean) hId).mono
          hRead'.after.log
  | absent other =>
      apply meets_throw
      intro w' hRely _
      exact failed _ _ _ (hRead.later hRely).queried
  | ambiguous reason =>
      apply meets_throw
      intro w' hRely _
      exact failed _ _ _ (hRead.later hRely).queried

/- The newest operation on a file that satisfies `found`. -/
structure Newest
    (found : Operation → Bool)
    (fileId : FileId)
    (op : Operation)
    (v : OperationLog)
    (w : World) : Prop where
  target : op.targetFileId = some fileId
  matching : found op = true
  walk :
    Walk w
      (fun x => x.targetFileId = some fileId →
        found x = false)
      v.currentHead (some op.opId)
  known : w.operationOf op.opId = some op

theorem latestMatching_meets
    {found : Operation → Bool} {fileId : FileId}
    (hKnows : LogKnows v w) :
    LogMeets host t (latestMatching fileId found) v
      (fun r v' w' => Queried clean t w v v' w' ∧
        Read host t w v r v' w' ∧
        ∀ op, r = .ok (some op) →
          Newest found fileId op v' w')
      w := by
  unfold latestMatching
  apply freshSearch_meets hKnows
  · intro e v' w' hQueried
    refine ⟨hQueried, read_error, ?_⟩
    intro op h
    cases h
  · intro search v₁ wₕ w₁ hRead hSearch _
    cases search with
    | found op flag =>
        rcases hSearch with ⟨hOwn, hFound, _, hWalk⟩
        apply meets_pure
        intro w' hRely _
        have hRead' := hRead.later hRely
        refine ⟨hRead'.queried, hRead'.read, ?_⟩
        intro op' hOp'
        cases hOp'
        simp only [Bool.and_eq_true, decide_eq_true_eq]
          at hOwn
        refine ⟨hOwn.1, hOwn.2, ?_,
          operationOf_mono hRely.toGrows hFound⟩
        apply hWalk.mono hRely.toGrows
        intro x hx hTarget
        simpa [hTarget] using hx.1
    | absent other =>
        apply meets_pure
        intro w' hRely _
        have hRead' := hRead.later hRely
        refine ⟨hRead'.queried, hRead'.read, ?_⟩
        intro op h
        cases h
    | ambiguous reason =>
        apply meets_pure
        intro w' hRely _
        have hRead' := hRead.later hRely
        refine ⟨hRead'.queried, hRead'.read, ?_⟩
        intro op h
        cases h

end OperationLog

------------------------------------------------------------
-- The System
------------------------------------------------------------

/- Whether a call sends operations of its own. -/
def LogCall.commits : LogCall → Bool
  | .commit _ _ _ _ => true
  | .commitDurable _ _ _ _ => true
  | _ => false

/- With `clean`, commits start on a log with a true pair. -/
def LogStarts
    (clean : Prop)
    (_ : Tid)
    (c : LogCall)
    (v : OperationLog)
    (_ : World) : Prop :=
  clean → c.commits = true → v.Paired

/- What holds of a thread between its calls. -/
def LogLocal
    (t : Tid)
    (v : OperationLog)
    (w : World) : Prop :=
  w.holding t = none ∧ LogKnows v w

/- What a call that returns promises about its result. -/
def CallPost
    {clean : Prop}
    (host : Host clean)
    (t : Tid)
    (v v' : OperationLog)
    (w : World) : LogCall → LogResult → Prop
  | .new _ _, .unit => True
  | .loadHead, .head _ => True
  | .commit targetFileId opType preconditions effects,
    .committed r =>
      ∃ start w₀, OperationLog.Started v w₀ w start ∧
        OperationLog.CommitPost clean t [] targetFileId opType
          preconditions effects start w₀ r v' w
  | .committedAttempt j, .attempt r =>
      ∃ w₀,
        OperationLog.AttemptPost host t j w₀ v r v' w
  | .commitDurable _ _ _ j, .durable r =>
      ∃ w₀,
        OperationLog.DurablePost host t j w₀ r v' w
  | .superseded ownOpId fileId, .superseded r =>
      r = .ok false →
        Walk w (NotOn fileId) v'.currentHead (some ownOpId)
  | .latestOnTarget fileId, .latest r =>
      ∀ op, r = .ok (some op) →
        OperationLog.Newest (fun _ => true) fileId op v' w
  | .latestRevisionOnTarget fileId, .latest r =>
      ∀ op, r = .ok (some op) →
        OperationLog.Newest
          (fun op => op.effects.newRevisionId.isSome)
          fileId op v' w
  -- Every call returns a result of its own kind.
  | _, _ => False

structure LogPost
    {clean : Prop}
    (host : Host clean)
    (t : Tid)
    (c : LogCall)
    (v : OperationLog)
    (r : LogResult × OperationLog)
    (w : World) : Prop where
  knows : LogKnows r.2 w
  call : CallPost host t v r.2 w c r.1

/- A packed script meets what the script does. -/
theorem wp_pack
    {x : LogM α}
    {result : CoreResult α → LogResult}
    {P : CoreResult α → OperationLog → World → Prop}
    {Q : LogResult × OperationLog → World → Prop}
    (hx : LogMeets host t x v P w)
    (hQ : ∀ r v' w', P r v' w' → Q (result r, v') w') :
    wp cloud (logContract host) t
      (LogCall.pack result x v) Q w := by
  have tree :
      ∀ (p : Prog Req Resp (CoreResult α × OperationLog))
        (w : World),
        wp cloud (logContract host) t p
          (fun r w' => P r.1 r.2 w') w →
        wp cloud (logContract host) t
          (p.bind fun r => .done (result r.1, r.2)) Q w := by
    intro p
    induction p with
    | done r =>
        intro w hp w' hRely hInv
        exact hQ _ _ _ (hp w' hRely hInv)
    | ask r k ih =>
        intro w hp w' hRely hInv c b w'' hAdmits hServe
        rcases hp w' hRely hInv c b w'' hAdmits hServe with
          ⟨hKeeps, hRest⟩
        exact ⟨hKeeps, ih b w'' hRest⟩
  exact tree (x v) w hx

theorem run_meets
    {c : LogCall}
    (hHolding : w.holding t = c.journal)
    (hKnows : LogKnows v w)
    (hUnused : OperationLog.Unused w t)
    (hPaired : clean → c.commits = true → v.Paired)
    (hStamps : ∀ t op w, host.stamps t op w) :
    wp cloud (logContract host) t (c.run v)
      (LogPost host t c v) w := by
  cases c with
  | new deviceId clock =>
      apply wp_done
      intro w' _ _
      exact ⟨⟨[], List.nil_suffix, rfl⟩, trivial⟩
  | loadHead =>
      apply wp_pack (OperationLog.loadHead_knows hKnows)
      intro r v' w' hPost
      exact ⟨hPost.knows, trivial⟩
  | commit targetFileId opType preconditions effects =>
      apply wp_pack (OperationLog.commit_meets hHolding hKnows
        (fun hClean => hPaired hClean rfl) hUnused.builtOnly
        fun _ w₁ op _ _ _ => hStamps t op w₁)
      rintro r v' w' ⟨start, hStarted, hPost⟩
      exact ⟨hPost.1.knows, start, w, hStarted, hPost⟩
  | committedAttempt j =>
      apply wp_pack (OperationLog.committedAttempt_meets
        hHolding hKnows)
      intro r v' w' hPost
      exact ⟨hPost.1.knows, w, hPost⟩
  | commitDurable opType preconditions effects j =>
      apply wp_pack (OperationLog.commitDurable_meets hHolding
        hKnows (fun hClean => hPaired hClean rfl)
        fun _ w₁ op _ _ _ => hStamps t op w₁)
      intro r v' w' hPost
      exact ⟨hPost.1.knows, w, hPost⟩
  | superseded ownOpId fileId =>
      apply wp_pack (OperationLog.superseded_meets hKnows)
      intro r v' w' hPost
      exact ⟨hPost.1.knows, hPost.2.2.1⟩
  | latestOnTarget fileId =>
      apply wp_pack (OperationLog.latestMatching_meets hKnows)
      intro r v' w' hPost
      exact ⟨hPost.1.knows, hPost.2.2⟩
  | latestRevisionOnTarget fileId =>
      apply wp_pack (OperationLog.latestMatching_meets hKnows)
      intro r v' w' hPost
      exact ⟨hPost.1.knows, hPost.2.2⟩

/- The log on its own: only its requests are limited. -/
abbrev logHost
    (clean : Prop)
    (admits : Tid → Req → World → Prop) : Host clean :=
  Host.plain clean fun t r _ w => admits t r w

def logLimits
    (clean : Prop)
    (admits : Tid → Req → World → Prop) :
    ThreadSystem.Limits Req Choice World Tid LogCall
      OperationLog EnvAction where
  Starts := LogStarts clean
  Admits := fun _ t r _ w => admits t r w
  Env := fun _ _ => True

variable {admits : Tid → Req → World → Prop}

theorem hostInv_plain
    (h : LogInv clean w) : HostInv (logHost clean admits) w :=
  ⟨h, trivial⟩

/- The whole system meets the contract of the log. -/
theorem logSystem_verified
    (clean : Prop)
    (admits : Tid → Req → World → Prop) :
    ThreadSystem.Verified logSystem
      (logContract (logHost clean admits))
      (logLimits clean admits) LogLocal
      (LogPost (logHost clean admits)) where
  stable := by
    rintro t v s s' ⟨hHolding, hKnows⟩ hRely _
    exact ⟨hRely.holding.trans hHolding,
      hKnows.mono hRely.toGrows⟩
  begin := by
    rintro t c v s s' hInv ⟨hHolding, hKnows⟩ hStarts hBegin
    have hBegun := hInv.log.beginCall hHolding hBegin
    exact ⟨⟨hostInv_plain hBegun.inv, hBegun.others⟩,
      run_meets hBegun.holding (hKnows.mono hBegun.grows)
        hBegun.unused hStarts fun _ _ _ => trivial⟩
  finish := by
    intro t c v x v' s hInv hPost
    rcases hInv.log.release t with
      ⟨hInv', hOthers, hGrows, hNone⟩
    exact ⟨⟨hostInv_plain hInv', hOthers⟩, hNone,
      hPost.knows.mono hGrows⟩
  halt := by
    intro t s hInv
    rcases hInv.log.halt t with ⟨hInv', hOthers, hNone⟩
    exact ⟨⟨hostInv_plain hInv', hOthers⟩, hNone, [],
      List.nil_suffix, rfl⟩
  env := by
    intro e s s' hInv _ hEnv
    rcases hInv.log.environment hEnv with ⟨hInv', hOthers⟩
    exact ⟨hostInv_plain hInv', hOthers⟩

/- The state before any device has started. -/
def LogState.initial : LogState :=
  logSystem.initial World.fresh

/- The runs of the log in which every action is permitted. -/
abbrev LogRun
    (permits : LogState → LogAction → Prop) :
    LogState → LogState → Prop :=
  logSystem.Run permits

/- What holds of every state of every permitted run. -/
abbrev LogStateOk
    (clean : Prop)
    (admits : Tid → Req → World → Prop)
    (s : LogState) : Prop :=
  ThreadSystem.StateOk logSystem
    (logContract (logHost clean admits))
    (logLimits clean admits) LogLocal
    (LogPost (logHost clean admits)) s

theorem stateOk_initial
    (clean : Prop)
    (admits : Tid → Req → World → Prop) :
    LogStateOk clean admits LogState.initial :=
  ⟨hostInv_plain (LogInv.fresh clean),
    fun _ => ⟨rfl, [], List.nil_suffix, rfl⟩⟩

variable {permits : LogState → LogAction → Prop}

/- What a permitted run keeps, from any state on. -/
theorem LogStateOk.run
    {s s' : LogState}
    (hState : LogStateOk clean admits s)
    (hPermits :
      ∀ s a, permits s a →
        (logLimits clean admits).Permitted s a)
    (run : LogRun permits s s') :
    LogStateOk clean admits s' :=
  (logSystem_verified clean admits).stateOk_run hState
    (run.weaken hPermits)

theorem stateOk_of_run
    {s : LogState}
    (hPermits :
      ∀ s a, permits s a →
        (logLimits clean admits).Permitted s a)
    (run : LogRun permits LogState.initial s) :
    LogStateOk clean admits s :=
  (stateOk_initial clean admits).run hPermits run

/- Without `clean` only the requests can be limited. -/
theorem permitted_of_admits
    (hAdmits :
      ∀ s t k, permits s (.serve t k) →
        ∀ r, ThreadSystem.Asks s t r → admits t r s.world)
    (s : LogState)
    (a : LogAction)
    (h : permits s a) :
    (logLimits False admits).Permitted s a := by
  cases a with
  | call t c => exact fun _ _ hFalse => hFalse.elim
  | serve t k =>
      intro c v r cont hThread
      exact hAdmits s t k h r ⟨c, v, cont, hThread⟩
  | finish t => trivial
  | halt t => trivial
  | env e => trivial

/- What a call that has returned promises. -/
theorem LogStateOk.returned
    {s : LogState} {t : Tid} {c : LogCall}
    {v v' : OperationLog} {result : LogResult}
    (hState : LogStateOk clean admits s)
    (hReturned : Returned s t c v result v') :
    LogPost (logHost clean admits) t c v (result, v')
      s.world :=
  hState.post hReturned

/- There is always a thread that does not act. -/
theorem someone_else
    (t : Option Tid) : ∃ u, t ≠ some u := by
  refine ⟨t.getD 0 + 1, ?_⟩
  intro h
  rw [h] at h
  simp at h

/- No action of a permitted run takes anything back. -/
theorem LogStateOk.grows
    {s s' : LogState}
    (hState : LogStateOk clean admits s)
    (hPermits :
      ∀ s a, permits s a →
        (logLimits clean admits).Permitted s a)
    (run : LogRun permits s s') :
    Grows s.world s'.world := by
  exact (logSystem_verified clean admits).relates_run Grows.refl
    Grows.trans (fun _ _ _ hOthers => hOthers.toGrows)
    someone_else hState (run.weaken hPermits)

end S4Drive

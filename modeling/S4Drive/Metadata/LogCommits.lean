import S4Drive.Metadata.LogOperations

/-
  What a commit does under the contract: where its operation
  ends up, what lies between the head it started from and
  its operation, and what becomes of its lost attempts.

  Main declarations:
    * `own_mem`, `own_dead`
    * `CommitPost`, `commit_meets`
-/

------------------------------------------------------------
-- After a Refused CAS
------------------------------------------------------------

namespace S4Drive

open ObjectStore Concurrency ChainLog

variable {clean : Prop}
variable {host : Host clean}
variable {t : Tid} {w w' : World}

/- The operation is not about the file. -/
def NotOn
    (fileId : FileId)
    (op : Operation) : Prop :=
  op.targetFileId ≠ some fileId

variable {op : Operation}

/- A walk that meets the own operation proves it committed. -/
theorem own_mem
    {w₀ w₁ : World} {v v' : OperationLog}
    (hClean : clean)
    (hInv : LogInv clean w')
    (hRead : HeadRead host t w₀ w₁ w' v v')
    (hOp : Built w' op)
    (hWalk :
      Walk w' (fun _ => True) v'.currentHead
        (some op.opId)) :
    op ∈ w'.headLog := by
  rw [← hRead.head] at hWalk
  rcases hInv.basic.split (hInv.linear hClean).chain
      hRead.after.log hWalk with ⟨p, q, hLog, hHead, _⟩
  apply hInv.basic.mem_of_id hOp
  cases q with
  | nil => cases hHead
  | cons x q =>
      refine ⟨x, ?_, Option.some.inj hHead⟩
      apply hRead.after.log.subset
      rw [hLog]
      simp

/-
  A walk back to the base that does not meet the operation
  proves it lost, once its base is stale.
-/
theorem own_dead
    {w₀ w₁ : World} {v v' : OperationLog}
    {P : Operation → Prop}
    (hClean : clean)
    (hInv : LogInv clean w')
    (hRead : HeadRead host t w₀ w₁ w' v v')
    (hOp : Built w' op)
    (hStale : LogStale op.baseHead w₀.headLog)
    (hWalk : Walk w' P v'.currentHead op.baseHead)
    (hPassed : ∀ x, P x → x.opId ≠ op.opId) :
    LogDead op w'.headLog := by
  have hChain := (hInv.linear hClean).chain
  have hSuffix := hRead.after.log
  rw [← hRead.head] at hWalk
  rcases hInv.basic.split hChain hSuffix hWalk with
    ⟨p, q, hLog, hHead, hAll⟩
  have hDead : LogDead op w₁.headLog := by
    have hChain₁ := hChain.of_suffix hSuffix
    have hStale₁ :=
      hStale.mono hChain₁.nodup hRead.before.log
    rw [hLog] at hChain₁ hStale₁ hSuffix ⊢
    apply hChain₁.dead_of_split hHead
    · exact fun x hx => hPassed x (hAll x hx)
    · intro x hx hId
      exact hInv.basic.built_unique
        (hInv.basic.log x (hSuffix.subset hx)) hOp hId
    · exact hStale₁.ne_head
  exact logDead_mono hInv.basic hChain hOp hDead hSuffix

------------------------------------------------------------
-- Commits
------------------------------------------------------------

theorem Others.own_callOperations
    (h : Others t w w')
    (hOp : op ∈ callOperations w' t (w'.calls t)) :
    op ∈ callOperations w t (w.calls t) := by
  rcases mem_callOperations.mp hOp with
    ⟨x, hx, hxOp, hIssuer, hCall⟩
  exact mem_callOperations.mpr ⟨x, h.own x hx hIssuer, hxOp,
    hIssuer, hCall.trans h.calls⟩

namespace OperationLog

/-
  What the current call of `t` has built since it had built
  `prior`: the first one on `start`, and none above an
  operation on its file.
-/
structure OwnIsolated
    (t : Tid)
    (prior : List Operation)
    (targetFileId : Option FileId)
    (start : Option OpId)
    (w : World) : Prop where
  first :
    prior = [] →
      ∀ op ∈ (callOperations w t (w.calls t)).head?,
        op.baseHead = start
  isolated :
    ∀ op ∈ callOperations w t (w.calls t), op ∉ prior →
      ∀ fileId, targetFileId = some fileId →
        Walk w (NotOn fileId) op.baseHead start

theorem Stamped.own_callOperations
    {op op' : Operation}
    (h : Stamped t op w w')
    (hOp : op' ∈ callOperations w' t (w'.calls t)) :
    op' ∈ callOperations w t (w.calls t) ∨
      op' = op := by
  rcases mem_callOperations.mp hOp with
    ⟨x, hx, hxOp, hIssuer, hCall⟩
  rcases h.own x hx hIssuer with hOld | hNew
  · left
    exact mem_callOperations.mpr ⟨x, hOld, hxOp, hIssuer,
      hCall.trans h.calls⟩
  · right
    exact hxOp.symm.trans hNew

variable {start : Option OpId}

theorem OwnIsolated.later
    {prior : List Operation}
    {targetFileId : Option FileId}
    (h : OwnIsolated t prior targetFileId start w)
    (hOthers : Others t w w') :
    OwnIsolated t prior targetFileId start w' := by
  constructor
  · intro hNil op hOp
    have hOld :=
      hOthers.own_callOperations (List.mem_of_mem_head? hOp)
    cases hFirst :
        (callOperations w t (w.calls t)).head? with
    | none =>
        rw [List.head?_eq_none_iff] at hFirst
        rw [hFirst] at hOld
        cases hOld
    | some op =>
        have hSame :=
          callOperations_first hOthers.toGrows hFirst
        rw [hOthers.calls, hSame] at hOp
        cases hOp
        exact h.first hNil _ hFirst
  · intro op hOp hNew fileId hTarget
    exact (h.isolated op (hOthers.own_callOperations hOp) hNew
      fileId hTarget).mono hOthers.toGrows fun _ => id

/- What holds throughout a commit that began in `w₀`. -/
structure Going
    (t : Tid)
    (prior : List Operation)
    (targetFileId : Option FileId)
    (start : Option OpId)
    (w₀ : World)
    (v : OperationLog)
    (w : World) : Prop where
  steps : Steps t w₀ w
  holding : w.holding t = none
  knows : LogKnows v w
  own : OwnIsolated t prior targetFileId start w

variable {w₀ : World}

theorem Going.later
    {prior : List Operation}
    {targetFileId : Option FileId}
    {v v' : OperationLog}
    (h : Going t prior targetFileId start w₀ v w)
    (hOthers : Others t w w')
    (hHead : v'.currentHead = v.currentHead) :
    Going t prior targetFileId start w₀ v' w' := by
  refine ⟨h.steps.trans hOthers.toSteps,
    hOthers.holding.trans h.holding, ?_,
    h.own.later hOthers⟩
  unfold LogKnows
  rw [hHead]
  exact h.knows.mono hOthers.toGrows

/- What a successful commit tells about its operation. -/
structure CommitDone
    (clean : Prop)
    (t : Tid)
    (targetFileId : Option FileId)
    (opType : OpType)
    (preconditions : Preconditions)
    (effects : Effects)
    (start : Option OpId)
    (op : Operation)
    (w : World) : Prop where
  target : op.targetFileId = targetFileId
  opType : op.opType = opType
  preconditions : op.preconditions = preconditions
  effects : op.effects = effects
  own : op ∈ callOperations w t (w.calls t)
  isolated :
    ∀ fileId, targetFileId = some fileId →
      Walk w (NotOn fileId) op.baseHead start
  committed : clean → op ∈ w.headLog

/- What a commit that began on `start` builds at `w`. -/
structure CommitAttempt
    (targetFileId : Option FileId)
    (opType : OpType)
    (preconditions : Preconditions)
    (effects : Effects)
    (start : Option OpId)
    (op : Operation)
    (w : World) : Prop where
  target : op.targetFileId = targetFileId
  opType : op.opType = opType
  preconditions : op.preconditions = preconditions
  effects : op.effects = effects
  known : ∃ l, l <:+ w.headLog ∧ headOf l = op.baseHead
  isolated :
    ∀ fileId, targetFileId = some fileId →
      Walk w (NotOn fileId) op.baseHead start
  fresh : ¬ w.Drawn op.opId.opUuid

def CommitPost
    (clean : Prop)
    (t : Tid)
    (prior : List Operation)
    (targetFileId : Option FileId)
    (opType : OpType)
    (preconditions : Preconditions)
    (effects : Effects)
    (start : Option OpId)
    (w₀ : World)
    (r : CoreResult Operation)
    (v : OperationLog)
    (w : World) : Prop :=
  Going t prior targetFileId start w₀ v w ∧
    ∀ op, r = .ok op →
      CommitDone clean t targetFileId opType preconditions
        effects start op w

variable {prior : List Operation}
variable {targetFileId : Option FileId} {opType : OpType}
variable {preconditions : Preconditions} {effects : Effects}

/- The operation of a round is isolated as the head is. -/
theorem Going.stamped
    {v v' : OperationLog}
    (h : Going t prior targetFileId start w₀ v w)
    (hWalk :
      ∀ fileId, targetFileId = some fileId →
        Walk w (NotOn fileId) v.currentHead start)
    (hStamped : Stamped t op w w')
    (hBase : op.baseHead = v.currentHead)
    (hHead : v'.currentHead = v.currentHead)
    (hFirst :
      callOperations w t (w.calls t) = [] →
        v.currentHead = start) :
    Going t prior targetFileId start w₀ v' w' := by
  refine ⟨h.steps.trans hStamped.toSteps,
    hStamped.holding.trans h.holding, ?_, ?_, ?_⟩
  · unfold LogKnows
    rw [hHead]
    exact h.knows.mono hStamped.toGrows
  · intro hNil x hx
    cases hOld :
        (callOperations w t (w.calls t)).head? with
    | none =>
        rw [List.head?_eq_none_iff] at hOld
        have hNew :=
          hStamped.own_callOperations (List.mem_of_mem_head? hx)
        rw [hOld] at hNew
        rcases hNew with hNone | rfl
        · cases hNone
        · exact hBase.trans (hFirst hOld)
    | some op =>
        have hSame :=
          callOperations_first hStamped.toGrows hOld
        rw [hStamped.calls, hSame] at hx
        cases hx
        exact h.own.first hNil _ hOld
  · intro x hx hNew fileId hTarget
    rcases hStamped.own_callOperations hx with hOld | rfl
    · exact (h.own.isolated x hOld hNew fileId hTarget).mono
        hStamped.toGrows fun _ => id
    · rw [hBase]
      exact (hWalk fileId hTarget).mono hStamped.toGrows
        fun _ => id

theorem conflictOn_eq_none
    {fileId : FileId} {ops : List Operation}
    (h : conflictOn (some fileId) ops = none) :
    ∀ op ∈ ops, NotOn fileId op := by
  intro op hOp hTarget
  simp only [conflictOn, Option.map_eq_none_iff,
    List.find?_eq_none] at h
  exact h op hOp (by simpa using hTarget)

variable {v : OperationLog}

theorem logKnows_of_mem
    (hMem : op ∈ w.headLog)
    (hHead : v.currentHead = some op.opId) :
    LogKnows v w := by
  rcases List.append_of_mem hMem with ⟨p, q, hLog⟩
  refine ⟨op :: q, ?_, ?_⟩
  · rw [hLog]
    exact List.suffix_append p (op :: q)
  · rw [hHead]
    rfl

theorem Going.failed
    {e : CoreError}
    (h : Going t prior targetFileId start w₀ v w) :
    CommitPost clean t prior targetFileId opType preconditions
      effects start w₀ (.error e) v w := by
  refine ⟨h, ?_⟩
  intro op hOp
  cases hOp

/- What a call has just built is one of its operations. -/
theorem Next.own_callOperations
    (h :
      Next t v targetFileId opType preconditions effects op
        w) :
    op ∈ callOperations w t (w.calls t) := by
  rcases h.issued with ⟨x, hx, hOp, hIssuer, hCall, _⟩
  exact S4Drive.mem_callOperations.mpr
    ⟨x, hx, hOp, hIssuer, hCall⟩

theorem Next.done
    (h :
      Next t v targetFileId opType preconditions effects op w)
    (hWalk :
      ∀ fileId, targetFileId = some fileId →
        Walk w (NotOn fileId) v.currentHead start)
    (hOthers : Others t w w')
    (hCommitted : clean → op ∈ w'.headLog) :
    CommitDone clean t targetFileId opType preconditions
      effects start op w' := by
  refine ⟨h.target, h.opType, h.preconditions, h.effects, ?_,
    ?_, hCommitted⟩
  · rw [hOthers.calls]
    exact (callOperations_mono hOthers.toGrows t _).subset
      h.own_callOperations
  · intro fileId hTarget
    rw [h.baseHead]
    exact (hWalk fileId hTarget).mono hOthers.toGrows
      fun _ => id

/-
  One round: the operation is built on the head that the log
  knows, and a lost CAS is walked back to that head before
  the next round starts from a newer one.
-/
theorem commitRounds_meets
    (rounds : Nat)
    (hGoing : Going t prior targetFileId start w₀ v w)
    (hPaired : clean → v.Paired)
    (hWalk :
      ∀ fileId, targetFileId = some fileId →
        Walk w (NotOn fileId) v.currentHead start)
    (hFirst :
      callOperations w t (w.calls t) = [] →
        v.currentHead = start)
    (hStamps :
      ∀ w₁ op, Steps t w₀ w₁ → HostInv host w₁ →
        CommitAttempt targetFileId opType preconditions effects
          start op w₁ → host.stamps t op w₁) :
    LogMeets host t
      (commitRounds targetFileId opType preconditions effects
        rounds) v
      (CommitPost clean t prior targetFileId opType preconditions
        effects start w₀) w := by
  induction rounds generalizing w v with
  | zero =>
      apply meets_throw
      intro w' hRely _
      exact (hGoing.later hRely rfl).failed
  | succ rounds ih =>
      unfold commitRounds
      have hTarget :
          ∀ j, w.holding t = some j →
            targetFileId = some j.fileId := by
        intro j hj
        rw [hGoing.holding] at hj
        cases hj
      have stamps :
          ∀ w₁ op, Others t w w₁ → HostInv host w₁ →
            Attempt v targetFileId opType preconditions
              effects op w₁ → host.stamps t op w₁ := by
        intro w₁ op hOthers hInv hAttempt
        apply hStamps w₁ op
          (hGoing.steps.trans hOthers.toSteps) hInv
        refine ⟨hAttempt.target, hAttempt.opType,
          hAttempt.preconditions, hAttempt.effects, ?_, ?_,
          hAttempt.fresh⟩
        · rw [hAttempt.baseHead]
          exact hGoing.knows.mono hOthers.toGrows
        · intro fileId hTarget
          rw [hAttempt.baseHead]
          exact (hWalk fileId hTarget).mono hOthers.toGrows
            fun _ => id
      apply meets_bind
      apply Meets.mono
        (nextOperation_meets hGoing.knows hTarget stamps)
      rintro r v₁ w₁ ⟨hv₁, op, rfl, hStamped, hNext⟩
      have hHead₁ : v₁.currentHead = v.currentHead := by
        rw [hv₁]
      have hPaired₁ : clean → v₁.Paired := by
        rw [hv₁]
        exact hPaired
      have hGoing₁ := hGoing.stamped hWalk hStamped
        hNext.baseHead hHead₁ hFirst
      have hWalk₁ :
          ∀ fileId, targetFileId = some fileId →
            Walk w₁ (NotOn fileId) v.currentHead start :=
        fun fileId hTarget =>
          (hWalk fileId hTarget).mono hStamped.toGrows
            fun _ => id
      have hMine : Mine clean w₁ t op := by
        rcases hNext.issued with ⟨x, hx, hOp, _, _, hJournal⟩
        refine ⟨x, hx, hOp, ?_⟩
        intro j hj
        rw [hJournal, hGoing₁.holding] at hj
        cases hj
      apply continues_ok
      apply meets_bind
      apply meets_ofExcept
      intro w₂ h₁₂ _
      cases Validator.validateOperation op with
      | error e =>
          apply continues_error
          exact (hGoing₁.later h₁₂ rfl).failed
      | ok _ =>
      apply continues_ok
      apply meets_bind
      apply Meets.mono
        (writeOperation_meets (hMine.later h₁₂).built)
      rintro r v₃ w₃ ⟨h₂₃, rfl, hWritten⟩
      have h₁₃ := h₁₂.trans h₂₃
      cases r with
      | error e =>
          apply continues_error
          exact (hGoing₁.later h₁₃ rfl).failed
      | ok _ =>
      apply continues_ok
      apply meets_bind
      apply meets_get
      intro w₄ h₃₄ _
      have h₁₄ := h₁₃.trans h₃₄
      apply continues_ok
      apply meets_bind
      apply Meets.mono (advanceHead_meets (hMine.later h₁₄)
        ((hWritten rfl).mono h₃₄.toGrows)
        (hNext.baseHead.trans hHead₁.symm) hPaired₁)
      rintro r v₅ w₅ ⟨h₄₅, hAdvance⟩
      have h₁₅ := h₁₄.trans h₄₅
      cases r with
      | error e =>
          simp only at hAdvance
          subst hAdvance
          apply continues_error
          exact (hGoing₁.later h₁₅ rfl).failed
      | ok advanced =>
      apply continues_ok
      cases advanced with
      | true =>
          rcases hAdvance with ⟨hMem, etag, rfl⟩
          apply meets_pure
          intro w' hRely hInv'
          have h₁' := h₁₅.trans hRely
          have hMem' := hRely.log.subset hMem
          refine ⟨{ hGoing₁.later h₁' rfl with
            knows := logKnows_of_mem hMem' rfl }, ?_⟩
          intro op' hOp'
          cases hOp'
          exact hNext.done hWalk₁ h₁' fun _ => hMem'
      | false =>
          rcases hAdvance with ⟨rfl, hStale, _⟩
          refine meets_loadHead (fun e w₆ h₅₆ => ?_) ?_
          · exact (hGoing₁.later (h₁₅.trans h₅₆) rfl).failed
          intro v₆ wₕ w₆ h₅₆ hRead
          have h₁₆ := h₁₅.trans h₅₆
          have hGoing₆ : ∀ {w₇}, Others t w₆ w₇ →
              Going t prior targetFileId start w₀ v₆ w₇ := by
            intro w₇ h₆₇
            have hSame :
                Going t prior targetFileId start w₀ v₅ w₇ :=
              hGoing₁.later (h₁₆.trans h₆₇) rfl
            exact { hSame with
              knows := hRead.knows.mono h₆₇.toGrows }
          apply meets_bind
          apply Meets.mono operationsSince_meets
          rintro r v₇ w₇ ⟨h₆₇, rfl, hSince⟩
          have hRead₇ := hRead.later h₆₇
          cases r with
          | error e =>
              apply continues_error
              exact (hGoing₆ h₆₇).failed
          | ok result =>
          apply continues_ok
          cases result with
          | containsOwn =>
              apply meets_pure
              intro w' hRely hInv'
              have h₆' := h₆₇.trans hRely
              refine ⟨hGoing₆ h₆', ?_⟩
              intro op' hOp'
              cases hOp'
              refine hNext.done hWalk₁ (h₁₆.trans h₆') ?_
              intro hClean
              exact own_mem hClean hInv'.log
                (hRead₇.later hRely)
                (hMine.later (h₁₆.trans h₆')).built
                (hSince.mono hRely.toGrows fun _ => id)
          | unverifiable reason =>
              apply meets_throw
              intro w' hRely _
              exact (hGoing₆ (h₆₇.trans hRely)).failed
          | committed concurrent =>
              have hBase : op.baseHead = v.currentHead :=
                hNext.baseHead
              rw [hHead₁] at hSince
              apply meets_bind
              apply Meets.mono (discardOrphanOperation_meets
                (hMine.later (h₁₆.trans h₆₇)).built ?_)
              · rintro r v₈ w₈ ⟨h₇₈, rfl⟩
                have h₆₈ := h₆₇.trans h₇₈
                cases r with
                | error e =>
                    apply continues_error
                    exact (hGoing₆ h₆₈).failed
                | ok _ =>
                apply continues_ok
                cases hConflict :
                    conflictOn targetFileId concurrent with
                | some conflict =>
                    apply meets_throw
                    intro w' hRely _
                    exact (hGoing₆ (h₆₈.trans hRely)).failed
                | none =>
                    apply ih (hGoing₆ h₆₈) hRead.paired
                    · intro fileId hTarget
                      rw [hTarget] at hConflict
                      have hClear :=
                        conflictOn_eq_none hConflict
                      have hOld := (hWalk₁ fileId hTarget).mono
                        (h₁₆.trans h₆₈).toGrows fun _ => id
                      exact (hSince.mono h₇₈.toGrows
                        fun x hx => hClear x hx.1).trans hOld
                    · intro hNone
                      have h₁₈ := h₁₆.trans h₆₈
                      have hOwn := (callOperations_mono
                        h₁₈.toGrows t _).subset
                          hNext.own_callOperations
                      rw [← h₁₈.calls, hNone] at hOwn
                      cases hOwn
              · intro hClean w' hRely hInv'
                apply own_dead hClean hInv'
                  (hRead₇.later hRely)
                  (hMine.later
                    ((h₁₆.trans h₆₇).trans hRely)).built
                  (hStale hClean)
                · rw [hBase]
                  exact hSince.mono hRely.toGrows fun _ => id
                · exact fun x hx => hx.2

/-
  The head that a call started from: the one that its log
  knew, or one that it read before its first attempt.
-/
structure Started
    (v : OperationLog)
    (w w' : World)
    (start : Option OpId) : Prop where
  loaded : v.headLoaded = true → start = v.currentHead
  read :
    v.headLoaded = false →
      ∃ l, w.headLog <:+ l ∧ l <:+ w'.headLog ∧
        headOf l = start

theorem Started.of_loaded
    (h : v.headLoaded = true) :
    Started v w w' v.currentHead := by
  refine ⟨fun _ => rfl, ?_⟩
  intro hNot
  rw [h] at hNot
  cases hNot

theorem Started.of_read
    {l : List Operation}
    (h : v.headLoaded = false)
    (hBefore : w.headLog <:+ l)
    (hAfter : l <:+ w'.headLog) :
    Started v w w' (headOf l) := by
  refine ⟨?_, fun _ => ⟨l, hBefore, hAfter, rfl⟩⟩
  intro hLoaded
  rw [h] at hLoaded
  cases hLoaded

/- The current call of `t` has built nothing but `prior`. -/
def BuiltOnly
    (w : World)
    (t : Tid)
    (prior : List Operation) : Prop :=
  ∀ op ∈ callOperations w t (w.calls t), op ∈ prior

theorem BuiltOnly.later
    (h : BuiltOnly w t prior)
    (hOthers : Others t w w') : BuiltOnly w' t prior :=
  fun op hOp => h op (hOthers.own_callOperations hOp)

/- A call whose operations are all known so far. -/
theorem builtOnly_self
    (w : World)
    (t : Tid) :
    BuiltOnly w t (callOperations w t (w.calls t)) :=
  fun _ => id

/- No operation was built by the current call of `t`. -/
def Unused
    (w : World)
    (t : Tid) : Prop :=
  ∀ x ∈ w.issued, x.issuer = t → x.call ≠ w.calls t

theorem Unused.builtOnly
    (h : Unused w t) : BuiltOnly w t [] := by
  intro op hOp
  rcases mem_callOperations.mp hOp with
    ⟨x, hx, _, hIssuer, hCall⟩
  exact absurd hCall (h x hx hIssuer)

theorem BuiltOnly.own
    (h : BuiltOnly w t prior) :
    OwnIsolated t prior targetFileId start w := by
  constructor
  · intro hNil op hOp
    have hMem := h op (List.mem_of_mem_head? hOp)
    rw [hNil] at hMem
    cases hMem
  · intro op hOp hNew
    exact absurd (h op hOp) hNew

/- The beginning of a commit, once its log knows the head. -/
theorem BuiltOnly.going
    (h : BuiltOnly w t prior)
    (targetFileId : Option FileId)
    (start : Option OpId)
    (hIdle : w.holding t = none)
    (hOthers : Others t w w')
    (hKnows : LogKnows v w') :
    Going t prior targetFileId start w' v w' :=
  ⟨(Others.refl t w').toSteps, hOthers.holding.trans hIdle,
    hKnows, (h.later hOthers).own⟩

theorem CommitPost.before
    {w₀ w₁ : World}
    {r : CoreResult Operation}
    (h :
      CommitPost clean t prior targetFileId opType preconditions
        effects start w₁ r v w)
    (hSteps : Steps t w₀ w₁) :
    CommitPost clean t prior targetFileId opType preconditions
      effects start w₀ r v w :=
  ⟨{ h.1 with steps := hSteps.trans h.1.steps }, h.2⟩

/-
  What a call on `v` knows of the head `start` that its
  commit goes on from, at a later moment `w'`.
-/
structure StartedAt
    {clean : Prop}
    (host : Host clean)
    (t : Tid)
    (v : OperationLog)
    (w w' : World)
    (start : Option OpId) : Prop where
  steps : Steps t w w'
  loaded : v.headLoaded = true → start = v.currentHead
  read :
    v.headLoaded = false →
      ∃ v' w₁ w₂, HeadRead host t w w₁ w₂ v v' ∧
        start = v'.currentHead ∧ Steps t w₂ w'

theorem StartedAt.of_loaded
    (h : v.headLoaded = true)
    (hSteps : Steps t w w') :
    StartedAt host t v w w' v.currentHead := by
  refine ⟨hSteps, fun _ => rfl, ?_⟩
  intro hNot
  rw [h] at hNot
  cases hNot

theorem StartedAt.of_read
    {v v' : OperationLog} {w₁ w₂ : World}
    (h : v.headLoaded = false)
    (hRead : HeadRead host t w w₁ w₂ v v')
    (hSteps : Steps t w w')
    (hAfter : Steps t w₂ w') :
    StartedAt host t v w w' v'.currentHead := by
  refine ⟨hSteps, ?_, ?_⟩
  · intro hLoaded
    rw [h] at hLoaded
    cases hLoaded
  · exact fun _ => ⟨v', w₁, w₂, hRead, rfl, hAfter⟩

/-
  A commit isolates its operation from the head that it
  started from, and puts it on the chain for good.
-/
theorem commit_meets
    (hIdle : w.holding t = none)
    (hKnows : LogKnows v w)
    (hPaired : clean → v.Paired)
    (hBuilt : BuiltOnly w t prior)
    (hStamps :
      ∀ start w₁ op, StartedAt host t v w w₁ start →
        HostInv host w₁ →
        CommitAttempt targetFileId opType preconditions effects
          start op w₁ → host.stamps t op w₁) :
    LogMeets host t
      (commit targetFileId opType preconditions effects) v
      (fun r v' w' => ∃ start, Started v w w' start ∧
        CommitPost clean t prior targetFileId opType preconditions
          effects start w r v' w')
      w := by
  unfold commit
  apply meets_bind
  apply meets_get
  intro w₁ h₀₁ _
  apply continues_ok
  cases hLoaded : v.headLoaded with
  | true =>
      simp only [if_true]
      have hGoing := hBuilt.going targetFileId
        v.currentHead hIdle h₀₁
        (hKnows.mono h₀₁.toGrows)
      apply Meets.mono (commitRounds_meets _ hGoing hPaired
        (fun _ _ => .refl _) (fun _ => rfl)
        fun w₂ op hSteps => hStamps _ w₂ op
          (.of_loaded hLoaded (h₀₁.toSteps.trans hSteps)))
      intro r v' w' hPost
      exact ⟨_, .of_loaded hLoaded, hPost.before h₀₁.toSteps⟩
  | false =>
      simp only [Bool.false_eq_true, if_false]
      refine meets_loadHead (fun e w₂ h₁₂ => ?_)
        (fun v₂ wₕ w₂ h₁₂ hRead => ?_)
      · have h₀₂ := h₀₁.trans h₁₂
        have hGoing := hBuilt.going targetFileId
          (headOf w.headLog) hIdle h₀₂
          (hKnows.mono h₀₂.toGrows)
        exact ⟨_, .of_read hLoaded List.suffix_rfl h₀₂.log,
          (Going.failed hGoing).before h₀₂.toSteps⟩
      · have h₀₂ := h₀₁.trans h₁₂
        have hGoing := hBuilt.going targetFileId
          v₂.currentHead hIdle h₀₂ hRead.knows
        apply Meets.mono (commitRounds_meets _ hGoing
          hRead.paired (fun _ _ => .refl _) (fun _ => rfl)
          fun w₃ op hSteps => hStamps _ w₃ op
            (.of_read hLoaded { hRead with
              before := h₀₁.trans hRead.before }
              (h₀₂.toSteps.trans hSteps) hSteps))
        intro r v' w' hPost
        refine ⟨v₂.currentHead, ?_, hPost.before h₀₂.toSteps⟩
        rw [← hRead.head]
        exact .of_read hLoaded (h₀₁.trans hRead.before).log
          (hRead.after.log.trans hPost.1.steps.log)

end OperationLog

end S4Drive

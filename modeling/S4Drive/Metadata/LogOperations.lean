import S4Drive.Metadata.LogSpecs

/-
  What the parts of a commit do under the contract: building
  and writing an operation, the CAS of the head pointer, the
  walks along the chain and the commit journal.

  Main declarations:
    * `Sendable`
    * `nextOperation_meets`, `writeOperation_meets`,
      `advanceHead_meets`
    * `operationsSince_meets`, `searchChain_meets`
    * `recordAttempt_meets`, `recordCommitted_meets`
-/

------------------------------------------------------------
-- Building and Writing Operations
------------------------------------------------------------

namespace S4Drive

open ObjectStore Concurrency ChainLog

variable {clean : Prop}
variable {host : Host clean}
variable {t : Tid} {w w' : World}

/- Thread `t` may send the operation: its journal knows it. -/
def Mine
    (clean : Prop)
    (w : World)
    (t : Tid)
    (op : Operation) : Prop :=
  ∃ x ∈ w.issued, x.operation = op ∧
    ∀ j, x.journal = some j →
      w.holding t = some j ∧
        (clean → op ∈ (w.journals j).receipt.attempts)

variable {op : Operation}

theorem Mine.built
    (h : Mine clean w t op) : Built w op := by
  rcases h with ⟨x, hx, hOp, _⟩
  exact ⟨x, hx, hOp⟩

theorem Mine.later
    (h : Mine clean w t op)
    (hOthers : Others t w w') : Mine clean w' t op := by
  rcases h with ⟨x, hx, hOp, hJournal⟩
  refine ⟨x, hOthers.issued.subset hx, hOp, ?_⟩
  intro j hj
  rcases hJournal j hj with ⟨hHolding, hMem⟩
  rw [hOthers.holding, hOthers.journals j hHolding]
  exact ⟨hHolding, hMem⟩

/- A head write needs its object and its journal entry. -/
theorem guarded_head
    (h : LogInv clean w)
    (hClean : clean)
    {op : Operation} {write : Write Key Body}
    (hHead : HeadWrite op.opId write)
    (hMine : Mine clean w t op)
    (hWritten : Written w op) : Guarded w write := by
  have same :
      ∀ x, Built w x → HeadWrite x.opId write → x = op := by
    intro x hx hx'
    exact h.basic.built_unique hx hMine.built
      (hx'.unique hHead)
  refine ⟨?_, ?_, ?_⟩
  · intro x hx hx'
    rw [same x hx hx']
    exact (h.linear hClean).written op hWritten
  · intro x hx hx' j hj
    have hOp := same x.operation ⟨x, hx, rfl⟩ hx'
    rcases hMine with ⟨y, hy, hyOp, hJournal⟩
    have hxy : x = y :=
      List.inj_on_of_nodup_map h.basic.ids hx hy
        (by rw [hOp, hyOp])
    subst hxy
    rw [hOp]
    exact (hJournal j hj).2 hClean
  · intro x _ hDelete
    rw [hDelete] at hHead
    cases hHead

theorem guarded_operation
    (op : Operation) : Guarded w (opWrite op) := by
  refine ⟨?_, ?_, ?_⟩
  · intro x _ hHead
    cases hHead
  · intro x _ hHead
    cases hHead
  · intro x _ hDelete
    cases hDelete

theorem guarded_discard
    (h : LogInv clean w)
    {op : Operation}
    (hOp : Built w op)
    (hDead : LogDead op w.headLog) :
    Guarded w (.delete (.op op.opId)) := by
  refine ⟨?_, ?_, ?_⟩
  · intro x _ hHead
    cases hHead
  · intro x _ hHead
    cases hHead
  · intro x hx hDelete
    cases hId : x.opId
    have hSame : op.opId = x.opId := by
      simpa using hDelete
    rw [← h.basic.built_unique hOp hx hSame]
    exact hDead

namespace OperationLog

/- The operation that `nextOperation` builds for a call. -/
structure Next
    (t : Tid)
    (v : OperationLog)
    (targetFileId : Option FileId)
    (opType : OpType)
    (preconditions : Preconditions)
    (effects : Effects)
    (op : Operation)
    (w : World) : Prop where
  baseHead : op.baseHead = v.currentHead
  target : op.targetFileId = targetFileId
  opType : op.opType = opType
  preconditions : op.preconditions = preconditions
  effects : op.effects = effects
  issued :
    ∃ x ∈ w.issued, x.operation = op ∧ x.issuer = t ∧
      x.call = w.calls t ∧ x.journal = w.holding t

/- Nothing but `op` was built in between by thread `t`. -/
structure Stamped
    (t : Tid)
    (op : Operation)
    (w w' : World) : Prop extends Steps t w w' where
  journals :
    ∀ j, w.holding t = some j →
      w'.journals j = w.journals j
  own :
    ∀ x ∈ w'.issued, x.issuer = t →
      x ∈ w.issued ∨ x.operation = op
  fresh : ∀ x, Built w x → x ≠ op

/- The operation that a call of `t` builds at `w`. -/
structure Attempt
    (v : OperationLog)
    (targetFileId : Option FileId)
    (opType : OpType)
    (preconditions : Preconditions)
    (effects : Effects)
    (op : Operation)
    (w : World) : Prop where
  baseHead : op.baseHead = v.currentHead
  target : op.targetFileId = targetFileId
  opType : op.opType = opType
  preconditions : op.preconditions = preconditions
  effects : op.effects = effects
  fresh : ¬ w.Drawn op.opId.opUuid

variable {v : OperationLog}

theorem nextOperation_meets
    {targetFileId : Option FileId} {opType : OpType}
    {preconditions : Preconditions} {effects : Effects}
    (hKnows : LogKnows v w)
    (hTarget :
      ∀ j, w.holding t = some j →
        targetFileId = some j.fileId)
    (hStamps :
      ∀ w₁ op, Others t w w₁ → HostInv host w₁ →
        Attempt v targetFileId opType preconditions effects op
          w₁ → host.stamps t op w₁) :
    LogMeets host t
      (nextOperation targetFileId opType preconditions effects)
      v
      (fun r v' w' =>
        v' = { v with clock := v.clock + 1 } ∧
        ∃ op, r = .ok op ∧ Stamped t op w w' ∧
          Next t v targetFileId opType preconditions effects
            op w')
      w := by
  unfold nextOperation
  apply meets_bind
  apply meets_modify
  intro w₁ h₀₁ _
  apply continues_ok
  apply meets_bind
  apply meets_get
  intro w₂ h₁₂ _
  apply continues_ok
  apply meets_request
  intro w₃ h₂₃ hInv₃ c op w₄ _ hServe
  rcases serve_stamp hServe with ⟨id, hFresh, hOp, rfl⟩
  have hOthers₃ := (h₀₁.trans h₁₂).trans h₂₃
  rcases hKnows.mono hOthers₃.toGrows with ⟨l, hl, hHead⟩
  have hId : op.opId.opUuid = id := by
    rw [hOp]
  rw [← hId] at hFresh ⊢
  have hExtra := hStamps w₃ op hOthers₃ hInv₃
    ⟨by rw [hOp], by rw [hOp], by rw [hOp], by rw [hOp],
      by rw [hOp], hFresh⟩
  refine ⟨⟨⟨hInv₃.log.stamp t hFresh ⟨l, hl, ?_⟩ ?_,
    host.stamped hInv₃.log hInv₃.extra hExtra hFresh⟩,
    fun u hu => others_stamped w₃ op hu⟩, ?_⟩
  · rw [hHead, hOp]
  · intro j hj
    rw [hOthers₃.holding] at hj
    rw [hOp]
    exact hTarget j hj
  · intro w' hRely _
    refine ⟨rfl, op, rfl, ⟨hOthers₃.toSteps.trans
      ((steps_stamped w₃ t t op).trans hRely.toSteps),
      ?_, ?_, ?_⟩, ?_⟩
    · intro j hj
      rw [hRely.journals j (hOthers₃.holding.trans hj)]
      exact hOthers₃.journals j hj
    · intro x hx hIssuer
      have hx' := hRely.own x hx hIssuer
      simp only [List.mem_append, List.mem_singleton] at hx'
      rcases hx' with hx' | rfl
      · exact .inl (hOthers₃.own x hx' hIssuer)
      · exact .inr rfl
    · rintro x hx rfl
      exact hInv₃.log.basic.fresh_ne hFresh
        (hx.mono hOthers₃.toGrows) rfl
    · refine ⟨?_, ?_, ?_, ?_, ?_, ?_⟩
      · rw [hOp]
      · rw [hOp]
      · rw [hOp]
      · rw [hOp]
      · rw [hOp]
      · refine ⟨⟨op, t, w₃.calls t, w₃.holding t,
          w₃.basis t⟩, ?_, rfl, rfl, ?_, ?_⟩
        · exact hRely.issued.subset
            (List.mem_append_right _
              (List.mem_singleton_self _))
        · exact hRely.calls.symm
        · exact hRely.holding.symm

/- Reading an operation gives the one with that id. -/
theorem readOperation_meets
    {id : OpId}
    {Q : CoreResult Operation → OperationLog → World → Prop}
    (h :
      ∀ r w', Others t w w' → LogInv clean w' →
        (∀ op, r = .ok op → w'.operationOf id = some op) →
        Q r v w') :
    LogMeets host t (readOperation id) v Q w := by
  unfold readOperation
  apply meets_bind
  apply meets_read
  intro w₁ data w₁' h₀₁ hInv₁ h₁₁' hInv₁' hData
  cases data with
  | error e =>
      apply continues_error
      apply h _ _ (h₀₁.trans h₁₁') hInv₁'.log
      intro op hOp
      cases hOp
  | ok body =>
      apply continues_ok
      apply meets_ofExcept
      intro w' hRely hInv'
      apply h _ _ ((h₀₁.trans h₁₁').trans hRely) hInv'.log
      intro op hOp
      rcases hInv₁.log.basic.objects id body hData.answers with
        ⟨op', hBuilt, hId, rfl⟩
      simp only [Serializer.deserializeOperation,
        Except.ok.injEq] at hOp
      subst hOp
      rw [← hId]
      exact hInv'.log.basic.operationOf_of_built
        ((hBuilt.mono h₁₁'.toGrows).mono hRely.toGrows)

theorem writeOperation_meets
    (hOp : Built w op) :
    LogMeets host t (writeOperation op) v
      (fun r v' w' => Others t w w' ∧ v' = v ∧
        (r = .ok () → Written w' op))
      w := by
  unfold writeOperation
  apply meets_bind
  apply meets_logWrite
  · exact trivial
  · intro w₁ hRely _
    exact ⟨.operation (hOp.mono hRely.toGrows),
      fun _ => guarded_operation op⟩
  · intro r w₁ h₀₁ _ hDone
    have hWritten :
        ∀ done, r = .ok done → Written w₁ op := by
      intro done hr
      rcases hDone with ⟨f, hf, ⟨hWrite, _⟩, hNote⟩
      refine ⟨f, hf, hWrite, ?_⟩
      cases done with
      | true => exact .inl (hNote.1 hr)
      | false => exact .inr (hNote.2 hr)
    cases r with
    | error e =>
        apply continues_error
        exact ⟨h₀₁, rfl, nofun⟩
    | ok done =>
        replace hWritten := hWritten done rfl
        apply continues_ok
        cases done with
        | true =>
            apply meets_pure
            intro w' hRely _
            exact ⟨h₀₁.trans hRely, rfl,
              fun _ => hWritten.mono hRely.toGrows⟩
        | false =>
            apply meets_bind
            apply readOperation_meets
            intro r w₂ h₁₂ _ _
            cases r with
            | error e =>
                apply continues_error
                exact ⟨h₀₁.trans h₁₂, rfl, nofun⟩
            | ok existing =>
                apply continues_ok
                split
                · apply meets_pure
                  intro w' hRely _
                  have hOthers := h₁₂.trans hRely
                  exact ⟨h₀₁.trans hOthers, rfl,
                    fun _ => hWritten.mono hOthers.toGrows⟩
                · apply meets_throw
                  intro w' hRely _
                  exact ⟨(h₀₁.trans h₁₂).trans hRely, rfl,
                    nofun⟩

/- Deleting an orphan: only a dead operation may go. -/
theorem discardOrphanOperation_meets
    (hOp : Built w op)
    (hDead :
      clean → ∀ w', Others t w w' → LogInv clean w' →
        LogDead op w'.headLog) :
    LogMeets host t (discardOrphanOperation op.opId) v
      (fun _ v' w' => Others t w w' ∧ v' = v) w := by
  unfold discardOrphanOperation
  apply meets_bind
  apply meets_attempt
  unfold deleteObject
  apply meets_bind
  apply meets_logWrite
  · exact trivial
  · intro w₁ hRely hInv₁
    refine ⟨.discard (hOp.mono hRely.toGrows), ?_⟩
    intro hClean
    exact guarded_discard hInv₁ (hOp.mono hRely.toGrows)
      (hDead hClean w₁ hRely hInv₁)
  · intro r w₁ h₀₁ _ _
    cases r with
    | error e =>
        apply continues_error
        apply continues_ok
        apply meets_pure
        intro w' hRely _
        exact ⟨h₀₁.trans hRely, rfl⟩
    | ok done =>
        apply continues_ok
        apply meets_pure
        intro w₂ h₁₂ _
        apply continues_ok
        apply meets_pure
        intro w' hRely _
        exact ⟨(h₀₁.trans h₁₂).trans hRely, rfl⟩

------------------------------------------------------------
-- The CAS of the Head
------------------------------------------------------------

/- What a CAS of the head for `op` tells. -/
def AdvancePost
    (clean : Prop)
    (t : Tid)
    (w : World)
    (v : OperationLog)
    (op : Operation)
    (r : CoreResult Bool)
    (v' : OperationLog)
    (w' : World) : Prop :=
  Others t w w' ∧
    match r with
    | .ok true =>
        op ∈ w'.headLog ∧
          ∃ etag, v' = v.setHead (some op.opId) (some etag)
    | .ok false =>
        v' = v ∧
          (clean → LogStale op.baseHead w'.headLog) ∧
          ∃ f ∈ w'.store.flights,
            SentIn f t (w'.calls t) ∧
              HeadWrite op.opId f.write
    | .error _ => v' = v

/- The two ways to send the CAS meet one specification. -/
theorem headWrite_meets
    {write : Write Key Body}
    {Q : CoreResult Bool → OperationLog → World → Prop}
    (hMine : Mine clean w t op)
    (hWritten : Written w op)
    (hHead : HeadWrite op.opId write)
    (hOwn : clean → write = headWrite op)
    (h :
      ∀ r w', Others t w w' → LogInv clean w' →
        (r = .ok true → op ∈ w'.headLog) →
        (r = .ok false →
          (clean → LogStale op.baseHead w'.headLog) ∧
          ∃ f ∈ w'.store.flights,
            SentIn f t (w'.calls t) ∧
              HeadWrite op.opId f.write) →
        Q r v w') :
    LogMeets host t (S4Drive.write write) v Q w := by
  have hKey : LogKey write.key := by
    rw [hHead.key]
    trivial
  apply meets_logWrite hKey
  · intro w₁ hRely hInv₁
    refine ⟨.head (hMine.later hRely).built hHead hOwn, ?_⟩
    intro hClean
    exact guarded_head hInv₁ hClean hHead (hMine.later hRely)
      (hWritten.mono hRely.toGrows)
  · intro r w' hRely hInv' hDone
    rcases hDone with
      ⟨f, hf, ⟨hWrite, hSender, _⟩, hApplied, hRefused⟩
    have hBuilt := (hMine.later hRely).built
    rw [← hWrite] at hHead
    apply h r w' hRely hInv'
    · intro hr
      apply hInv'.basic.mem_of_id hBuilt
      exact hInv'.basic.applied f hf (hApplied hr) _ hHead
    · intro hr
      refine ⟨?_, f, hf, hSender, hHead⟩
      intro hClean
      exact (hInv'.linear hClean).refused f hf (hRefused hr)
        op hBuilt (hWrite.trans (hOwn hClean))

theorem advanceHead_meets
    (hMine : Mine clean w t op)
    (hWritten : Written w op)
    (hBase : op.baseHead = v.currentHead)
    (hPaired : clean → v.Paired) :
    LogMeets host t (advanceHead op.opId) v
      (AdvancePost clean t w v op) w := by
  have rest :
      ∀ r w₁, Others t w w₁ → LogInv clean w₁ →
        (r = .ok true → op ∈ w₁.headLog) →
        (r = .ok false →
          (clean → LogStale op.baseHead w₁.headLog) ∧
          ∃ f ∈ w₁.store.flights,
            SentIn f t (w₁.calls t) ∧
              HeadWrite op.opId f.write) →
        Continues cloud (logContract host) t
          (fun advanced : Bool =>
            if advanced then do
              let etag ← headObject .head
              Script.modify
                (setHead (some op.opId) (some etag))
              pure true
            else
              pure false)
          (AdvancePost clean t w v op) r v w₁ := by
    intro r w₁ h₀₁ _ hTrue hFalse
    cases r with
    | error e =>
        apply continues_error
        exact ⟨h₀₁, rfl⟩
    | ok advanced =>
        apply continues_ok
        cases advanced with
        | true =>
            have hMem := hTrue rfl
            apply meets_bind
            apply meets_headObject
            intro w₂ r w₂' h₁₂ _ h₂₂' _ _
            have hOthers := h₁₂.trans h₂₂'
            cases r with
            | error e =>
                apply continues_error
                exact ⟨h₀₁.trans hOthers, rfl⟩
            | ok etag =>
                apply continues_ok
                apply meets_bind
                apply meets_modify
                intro w₃ h₂₃ _
                apply continues_ok
                apply meets_pure
                intro w' hRely _
                have hOthers' :=
                  hOthers.trans (h₂₃.trans hRely)
                exact ⟨h₀₁.trans hOthers',
                  hOthers'.log.subset hMem, etag, rfl⟩
        | false =>
            rcases hFalse rfl with ⟨hStale, f, hf, hSender, hHead⟩
            apply meets_pure
            intro w' hRely hInv'
            refine ⟨h₀₁.trans hRely, rfl, ?_, ?_⟩
            · intro hClean
              exact (hStale hClean).mono
                (hInv'.log.linear hClean).chain.nodup hRely.log
            · rcases hRely.flights.mem hf with
                ⟨f', hf', hLater⟩
              refine ⟨f', hf', ?_, ?_⟩
              · rw [SentIn, hLater.sender, hRely.calls]
                exact hSender
              · rw [hLater.write]
                exact hHead
  unfold advanceHead
  apply meets_bind
  apply meets_get
  intro w₁ h₀₁ _
  apply continues_ok
  have restLater :
      ∀ r w₂, Others t w₁ w₂ → _ := fun r w₂ h₁₂ =>
    rest r w₂ (h₀₁.trans h₁₂)
  have hMine₁ := hMine.later h₀₁
  have hWritten₁ := hWritten.mono h₀₁.toGrows
  cases hHead : v.currentHead with
  | none =>
      apply meets_bind
      apply headWrite_meets hMine₁ hWritten₁ .first
      · intro _
        rw [headWrite, hBase, hHead]
      · exact restLater
  | some base =>
      cases hEtag : v.currentHeadEtag with
      | none =>
          apply meets_bind
          apply meets_throw
          intro w' hRely _
          apply continues_error
          exact ⟨h₀₁.trans hRely, rfl⟩
      | some etag =>
          apply meets_bind
          apply headWrite_meets hMine₁ hWritten₁ (.next etag)
          · intro hClean
            have hSame := hPaired hClean
            rw [Paired, hHead, hEtag] at hSame
            rw [headWrite, hBase, hHead]
            simpa using hSame
          · exact restLater

------------------------------------------------------------
-- Walks along the Chain
------------------------------------------------------------

/- What a walk from `cursor` back to a base has seen. -/
def SincePost
    (baseHead : Option OpId)
    (ownOpId : OpId)
    (passed : List Operation)
    (cursor : OpId)
    (w' : World) : CoreResult ConcurrentOps → Prop
  | .ok .containsOwn =>
      Walk w' (fun _ => True) (some cursor) (some ownOpId)
  | .ok (.committed ops) =>
      passed ⊆ ops ∧
        Walk w' (fun op => op ∈ ops ∧ op.opId ≠ ownOpId)
          (some cursor) baseHead
  | .ok (.unverifiable _) => True
  | .error _ => True

theorem operationsSinceWalk_meets
    {baseHead : Option OpId} {ownOpId cursor : OpId}
    (rounds : Nat)
    (passed : List Operation) :
    LogMeets host t
      (operationsSinceWalk baseHead ownOpId rounds passed
        cursor) v
      (fun r v' w' => Others t w w' ∧ v' = v ∧
        SincePost baseHead ownOpId passed cursor w' r)
      w := by
  induction rounds generalizing w passed cursor with
  | zero =>
      apply meets_pure
      intro w' hRely _
      exact ⟨hRely, rfl, trivial⟩
  | succ rounds ih =>
      unfold operationsSinceWalk
      by_cases hBase : baseHead = some cursor
      · rw [if_pos hBase]
        apply meets_pure
        intro w' hRely _
        refine ⟨hRely, rfl, List.Subset.refl _, ?_⟩
        rw [hBase]
        exact .refl _
      rw [if_neg hBase]
      by_cases hOwn : cursor = ownOpId
      · rw [if_pos hOwn]
        apply meets_pure
        intro w' hRely _
        refine ⟨hRely, rfl, ?_⟩
        rw [hOwn]
        exact .refl _
      rw [if_neg hOwn]
      apply meets_bind
      apply meets_attempt
      apply readOperation_meets
      intro r w₁ h₀₁ _ hRead
      apply continues_ok
      cases r with
      | error e =>
          cases e with
          | notFound message =>
              apply meets_pure
              intro w' hRely _
              exact ⟨h₀₁.trans hRely, rfl, trivial⟩
          | _ =>
              apply meets_throw
              intro w' hRely _
              exact ⟨h₀₁.trans hRely, rfl, trivial⟩
      | ok op =>
          have hFound := hRead op rfl
          have hNotOwn : op.opId ≠ ownOpId := by
            rw [(built_of_operationOf hFound).2]
            exact hOwn
          cases hPrevious : op.baseHead with
          | none =>
              simp only [hPrevious]
              cases baseHead with
              | none =>
                  apply meets_pure
                  intro w' hRely _
                  refine ⟨h₀₁.trans hRely, rfl,
                    List.subset_append_left _ _, ?_⟩
                  refine .step
                    (operationOf_mono hRely.toGrows hFound)
                    ⟨by simp, hNotOwn⟩ ?_
                  rw [hPrevious]
                  exact .refl _
              | some base =>
                  apply meets_pure
                  intro w' hRely _
                  exact ⟨h₀₁.trans hRely, rfl, trivial⟩
          | some previous =>
              simp only [hPrevious]
              apply Meets.mono (ih (passed ++ [op]))
              rintro r v' w' ⟨hOthers, rfl, hPost⟩
              refine ⟨h₀₁.trans hOthers, rfl, ?_⟩
              have hFound' :=
                operationOf_mono hOthers.toGrows hFound
              cases r with
              | error e => trivial
              | ok result =>
                  cases result with
                  | containsOwn =>
                      refine .step hFound' trivial ?_
                      rw [hPrevious]
                      exact hPost
                  | committed ops =>
                      rcases hPost with ⟨hPassed, hWalk⟩
                      refine ⟨fun x hx => hPassed (by simp [hx]),
                        .step hFound'
                          ⟨hPassed (by simp), hNotOwn⟩ ?_⟩
                      rw [hPrevious]
                      exact hWalk
                  | unverifiable reason => trivial

theorem operationsSince_meets
    {baseHead : Option OpId} {ownOpId : OpId} :
    LogMeets host t
      (operationsSince baseHead ownOpId) v
      (fun r v' w' => Others t w w' ∧ v' = v ∧
        match r with
        | .ok .containsOwn =>
            Walk w' (fun _ => True) v.currentHead
              (some ownOpId)
        | .ok (.committed ops) =>
            Walk w' (fun op => op ∈ ops ∧ op.opId ≠ ownOpId)
              v.currentHead baseHead
        | _ => True)
      w := by
  unfold operationsSince
  apply meets_bind
  apply meets_get
  intro w₁ h₀₁ _
  apply continues_ok
  cases hHead : v.currentHead with
  | none =>
      apply meets_pure
      intro w' hRely _
      exact ⟨h₀₁.trans hRely, rfl, trivial⟩
  | some cursor =>
      apply Meets.mono (operationsSinceWalk_meets _ [])
      rintro r v' w' ⟨hOthers, rfl, hPost⟩
      refine ⟨h₀₁.trans hOthers, rfl, ?_⟩
      cases r with
      | error e => trivial
      | ok result =>
          cases result with
          | containsOwn => exact hPost
          | committed ops => exact hPost.2
          | unverifiable reason => trivial

/- What a search from `cursor` on has found. -/
def SearchPost
    (targetFileId : FileId)
    (isOwn isFloor : Operation → Bool)
    (foreign : Option OpId)
    (cursor : Option OpId)
    (w' : World) : CoreResult ChainSearch → Prop
  | .ok (.found op superseded) =>
      isOwn op = true ∧ w'.operationOf op.opId = some op ∧
        (superseded = false → foreign = none) ∧
        Walk w'
          (fun x => isOwn x = false ∧
            (superseded = false →
              x.targetFileId ≠ some targetFileId))
          cursor (some op.opId)
  | .ok (.absent other) =>
      (other = none → foreign = none) ∧
      ∃ b,
        Walk w'
          (fun x => isOwn x = false ∧
            (other = none →
              x.targetFileId ≠ some targetFileId))
          cursor b ∧
        ∀ id, b = some id →
          ∃ op, w'.operationOf id = some op ∧
            isFloor op = true ∧ isOwn op = false
  | .ok (.ambiguous _) => True
  | .error _ => True

variable {isOwn isFloor : Operation → Bool}

theorem searchChainWalk_meets
    {targetFileId : FileId}
    {cursor : OpId}
    (rounds : Nat)
    (foreign : Option OpId) :
    LogMeets host t
      (searchChainWalk targetFileId isOwn isFloor rounds
        foreign cursor) v
      (fun r v' w' => Others t w w' ∧ v' = v ∧
        SearchPost targetFileId isOwn isFloor foreign
          (some cursor) w' r)
      w := by
  induction rounds generalizing w foreign cursor with
  | zero =>
      apply meets_pure
      intro w' hRely _
      exact ⟨hRely, rfl, trivial⟩
  | succ rounds ih =>
      unfold searchChainWalk
      apply meets_bind
      apply meets_attempt
      apply readOperation_meets
      intro r w₁ h₀₁ _ hRead
      apply continues_ok
      cases r with
      | error e =>
          cases e with
          | notFound message =>
              apply meets_pure
              intro w' hRely _
              exact ⟨h₀₁.trans hRely, rfl, trivial⟩
          | _ =>
              apply meets_throw
              intro w' hRely _
              exact ⟨h₀₁.trans hRely, rfl, trivial⟩
      | ok op =>
          have hFound := hRead op rfl
          have hId := (built_of_operationOf hFound).2
          simp only [hId, ne_eq, not_true_eq_false, if_false]
          cases hOwn : isOwn op with
          | true =>
              simp only [if_true]
              apply meets_pure
              intro w' hRely _
              have hFound' :=
                operationOf_mono hRely.toGrows hFound
              rw [← hId] at hFound' ⊢
              refine ⟨h₀₁.trans hRely, rfl, hOwn, hFound', ?_,
                .refl _⟩
              intro hNone
              cases foreign with
              | none => rfl
              | some other => cases hNone
          | false =>
              simp only [Bool.false_eq_true, if_false]
              cases hFloor : isFloor op with
              | true =>
                  simp only [if_true]
                  apply meets_pure
                  intro w' hRely _
                  refine ⟨h₀₁.trans hRely, rfl, id,
                    some cursor, .refl _, ?_⟩
                  intro id hCursor
                  cases hCursor
                  exact ⟨op,
                    operationOf_mono hRely.toGrows hFound,
                    hFloor, hOwn⟩
              | false =>
                  simp only [Bool.false_eq_true, if_false]
                  generalize hForeign :
                    (if foreign = none ∧
                        op.targetFileId = some targetFileId then
                      some cursor
                    else
                      foreign) = foreign'
                  have hNone :
                      foreign' = none → foreign = none ∧
                        op.targetFileId ≠
                          some targetFileId := by
                    intro hNone
                    rw [← hForeign] at hNone
                    split at hNone
                    · cases hNone
                    · rename_i hNot
                      exact ⟨hNone,
                        fun hTarget => hNot ⟨hNone, hTarget⟩⟩
                  cases hPrevious : op.baseHead with
                  | none =>
                      simp only
                      apply meets_pure
                      intro w' hRely _
                      refine ⟨h₀₁.trans hRely, rfl,
                        fun h => (hNone h).1, none, ?_, nofun⟩
                      refine .step
                        (operationOf_mono hRely.toGrows hFound)
                        ⟨hOwn, fun h => (hNone h).2⟩ ?_
                      rw [hPrevious]
                      exact .refl _
                  | some previous =>
                      simp only
                      apply Meets.mono (ih foreign')
                      rintro r v' w' ⟨hOthers, rfl, hPost⟩
                      refine ⟨h₀₁.trans hOthers, rfl, ?_⟩
                      have hFound' :=
                        operationOf_mono hOthers.toGrows hFound
                      cases r with
                      | error e => trivial
                      | ok result =>
                          cases result with
                          | found x superseded =>
                              rcases hPost with
                                ⟨hx, hxFound, hFlag, hWalk⟩
                              refine ⟨hx, hxFound,
                                fun h => (hNone (hFlag h)).1,
                                .step hFound' ⟨hOwn, fun h =>
                                  (hNone (hFlag h)).2⟩ ?_⟩
                              rw [hPrevious]
                              exact hWalk
                          | absent other =>
                              rcases hPost with
                                ⟨hFlag, b, hWalk, hFloor⟩
                              refine ⟨fun h =>
                                (hNone (hFlag h)).1, b,
                                .step hFound' ⟨hOwn, fun h =>
                                  (hNone (hFlag h)).2⟩ ?_,
                                hFloor⟩
                              rw [hPrevious]
                              exact hWalk
                          | ambiguous reason => trivial

theorem searchChain_meets
    {targetFileId : FileId} :
    LogMeets host t
      (searchChain targetFileId isOwn isFloor) v
      (fun r v' w' => Others t w w' ∧ v' = v ∧
        SearchPost targetFileId isOwn isFloor none
          v.currentHead w' r)
      w := by
  unfold searchChain
  apply meets_bind
  apply meets_get
  intro w₁ h₀₁ _
  apply continues_ok
  cases hHead : v.currentHead with
  | none =>
      apply meets_pure
      intro w' hRely _
      exact ⟨h₀₁.trans hRely, rfl, id, none, .refl _, nofun⟩
  | some cursor =>
      apply Meets.mono (searchChainWalk_meets _ none)
      rintro r v' w' ⟨hOthers, rfl, hPost⟩
      exact ⟨h₀₁.trans hOthers, rfl, hPost⟩

end OperationLog

end S4Drive

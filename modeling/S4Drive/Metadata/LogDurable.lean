import S4Drive.Metadata.LogCommits
import S4Drive.Metadata.LogSearch

/-
  What a durable commit does under the contract. Its journal
  says which operations the request has tried; all but the
  newest of them are lost before the next one is built.

  Main declarations:
    * `recordAttempt_meets`, `recordCommitted_meets`
    * `committedAttempt_meets`
    * `commitDurable_meets`
-/

------------------------------------------------------------
-- The Commit Journal
------------------------------------------------------------

namespace S4Drive

open ObjectStore Concurrency ChainLog

variable {clean : Prop}
variable {host : Host clean}
variable {t : Tid} {j : JournalId} {w w' : World}

/- The attempts that a journal has in memory. -/
def attemptsOf
    (w : World)
    (j : JournalId) : List Operation :=
  (w.journals j).receipt.attempts

theorem Others.attemptsOf
    (h : Others t w w')
    (hHolding : w.holding t = some j) :
    attemptsOf w' j = attemptsOf w j := by
  unfold S4Drive.attemptsOf
  rw [h.journals j hHolding]

/- The operation was built for the request of the journal. -/
def IssuedFor
    (j : JournalId)
    (op : Operation)
    (w : World) : Prop :=
  ∃ x ∈ w.issued, x.operation = op ∧ x.journal = some j

variable {op : Operation}

theorem IssuedFor.mono
    (h : IssuedFor j op w)
    (hGrows : Grows w w') : IssuedFor j op w' := by
  rcases h with ⟨x, hx, hRest⟩
  exact ⟨x, hGrows.issued.subset hx, hRest⟩

/- Reading a receipt gives what is in memory. -/
theorem meets_readReceipt
    {l α : Type} {v : l}
    (view : Receipt → α)
    {Q : CoreResult α → l → World → Prop}
    (hHolding : w.holding t = some j)
    (h :
      ∀ r w', Others t w w' → LogInv clean w' →
        (∀ x, r = .ok x → x = view (w.journals j).receipt) →
        Q r v w') :
    LogMeets host t
      (do
        let receipt ← Script.call (.readReceipt j) id
        pure (view receipt)) v Q w := by
  apply meets_bind
  apply meets_call
  intro w₁ h₀₁ hInv₁ c r w₂ _ hServe
  rcases serve_readReceipt hServe with ⟨rfl, hReceipt⟩
  refine ⟨⟨hInv₁, fun u _ => .refl u w₂⟩, ?_⟩
  intro w₃ h₂₃ hInv₃
  have h₀₃ := h₀₁.trans h₂₃
  cases r with
  | error e =>
      apply continues_error
      apply h _ w₃ h₀₃ hInv₃.log
      intro x hx
      cases hx
  | ok receipt =>
      apply continues_ok
      apply meets_pure
      intro w' hRely hInv'
      apply h _ w' (h₀₃.trans hRely) hInv'.log
      intro x hx
      cases hx
      rw [hReceipt receipt rfl, h₀₁.journals j hHolding]

/- What a new attempt needs to be recorded. -/
structure Recordable
    (clean : Prop)
    (j : JournalId)
    (op : Operation)
    (w : World) : Prop where
  issued :
    ∃ x ∈ w.issued, x.operation = op ∧ x.journal = some j
  fresh : op ∉ attemptsOf w j
  dead :
    clean → ∀ a ∈ attemptsOf w j, LogDead a w.headLog
  floor :
    clean →
      ∃ m, m <:+ w.headLog ∧ headOf m = op.baseHead ∧
        Floored (attemptsOf w j) m

theorem LogInv.built_of_recorded
    (h : LogInv clean w)
    {a : Operation}
    (ha : a ∈ attemptsOf w j) : Built w a := by
  rcases h.basic.recorded j a (.inl ha) with ⟨x, hx, hOp, _⟩
  exact ⟨x, hx, hOp⟩

theorem Recordable.later
    (h : Recordable clean j op w)
    (hInv : LogInv clean w)
    (hInv' : LogInv clean w')
    (hOthers : Others t w w')
    (hHolding : w.holding t = some j) :
    Recordable clean j op w' := by
  have hSame := hOthers.attemptsOf hHolding
  refine ⟨?_, ?_, ?_, ?_⟩
  · rcases h.issued with ⟨x, hx, hRest⟩
    exact ⟨x, hOthers.issued.subset hx, hRest⟩
  · rw [hSame]
    exact h.fresh
  · intro hClean a ha
    rw [hSame] at ha
    exact logDead_mono hInv'.basic (hInv'.linear hClean).chain
      ((hInv.built_of_recorded ha).mono hOthers.toGrows)
      (h.dead hClean a ha) hOthers.log
  · intro hClean
    rcases h.floor hClean with ⟨m, hm, hHead, hFloor⟩
    rw [hSame]
    exact ⟨m, hm.trans hOthers.log, hHead, hFloor⟩

/- A receipt with one more attempt. -/
def Receipt.add
    (r : Receipt)
    (op : Operation) : Receipt :=
  { r with attempts := r.attempts ++ [op] }

/- Adding an attempt keeps the receipt true to the log. -/
theorem Recordable.receiptOk
    (h : Recordable clean j op w)
    (hInv : LogInv clean w)
    (hClean : clean) :
    ReceiptOk ((w.journals j).receipt.add op) w.headLog := by
  have hReceipt := ((hInv.linear hClean).journals j).receipt
  refine ⟨⟨?_, ?_⟩, hReceipt.committed⟩
  · intro a ha
    simp only [Receipt.add, List.dropLast_concat] at ha
    exact h.dead hClean a ha
  · rcases h.floor hClean with ⟨m, hm, hHead, hFloor⟩
    exact hFloor.append hm hHead

theorem Recordable.recorded
    (h : Recordable clean j op w)
    (hInv : LogInv clean w) :
    ∀ a ∈ ((w.journals j).receipt.add op).attempts,
      ∃ x ∈ w.issued, x.operation = a ∧
        x.journal = some j := by
  intro a ha
  rcases List.mem_append.mp ha with ha | ha
  · exact hInv.basic.recorded j a (.inl ha)
  · cases List.mem_singleton.mp ha
    exact h.issued

theorem steps_setJournal
    (w : World)
    (t : Tid)
    (j : JournalId)
    (journal : Journal) :
    Steps t w (w.setJournal j journal) :=
  ⟨SameData.grows {}, rfl, rfl, rfl⟩

/-
  Updating the receipt that thread `t` holds: in memory and
  in its file, or, when the update fails, at most in the
  file.
-/
theorem meets_updateReceipt
    {l : Type} {change : Receipt → Receipt} {v : l}
    {Q : CoreResult Unit → l → World → Prop}
    (hHolding : w.holding t = some j)
    (hRecorded :
      ∀ w₁, Others t w w₁ → LogInv clean w₁ →
        ∀ a ∈ (change (w₁.journals j).receipt).attempts,
          ∃ x ∈ w₁.issued, x.operation = a ∧
            x.journal = some j)
    (hGrown :
      ∀ r : Receipt, r.attempts <+: (change r).attempts)
    (hReceipt :
      clean → ∀ w₁, Others t w w₁ → LogInv clean w₁ →
        ReceiptOk (change (w₁.journals j).receipt)
          w₁.headLog)
    (h :
      ∀ r w', Steps t w w' → LogInv clean w' →
        (r = .ok () →
          attemptsOf w' j =
            (change (w.journals j).receipt).attempts) →
        Q r v w') :
    LogMeets host t
      (Script.call (.updateReceipt j change) id) v Q w := by
  apply meets_call
  intro w₁ h₀₁ hInv₁ c r w₂ _ hServe
  have hMine₁ : w₁.holding t = some j :=
    h₀₁.holding.trans hHolding
  have hSame : w₁.journals j = w.journals j :=
    h₀₁.journals j hHolding
  have hOwner := hInv₁.log.basic.owner t j hMine₁
  have hOld := hInv₁.log.basic.recorded j
  have hNew := hRecorded w₁ h₀₁ hInv₁.log
  rcases serve_updateReceipt hServe with
    ⟨rfl, rfl⟩ | ⟨e, rfl, rfl | rfl⟩
  · refine ⟨⟨?_, fun u hu =>
      hInv₁.log.basic.others_setJournal _ (.inl hOwner) hu⟩, ?_⟩
    · refine ⟨?_, host.same hInv₁.extra {}⟩
      apply hInv₁.log.setJournal
      · rintro a (ha | ha)
        · exact hNew a ha
        · exact hNew a ha
      · intro hClean
        have hOk := hReceipt hClean w₁ h₀₁ hInv₁.log
        exact ⟨hOk, hOk, List.prefix_rfl, hGrown _⟩
    · intro w' hRely hInv'
      apply h _ w' (h₀₁.toSteps.trans
        ((steps_setJournal w₁ t j _).trans hRely.toSteps))
        hInv'.log
      intro _
      rw [hRely.attemptsOf hMine₁, ← hSame]
      unfold attemptsOf
      rw [journals_setJournal, if_pos rfl]
  · refine ⟨⟨hInv₁, fun u _ => .refl u w₂⟩, ?_⟩
    intro w' hRely hInv'
    apply h _ w' (h₀₁.trans hRely).toSteps hInv'.log
    intro hr
    cases hr
  · refine ⟨⟨?_, fun u hu =>
      hInv₁.log.basic.others_setJournal _ (.inl hOwner) hu⟩, ?_⟩
    · refine ⟨?_, host.same hInv₁.extra {}⟩
      apply hInv₁.log.setJournal
      · rintro a (ha | ha)
        · exact hOld a (.inl ha)
        · exact hNew a ha
      · intro hClean
        exact ⟨((hInv₁.log.linear hClean).journals j).receipt,
          hReceipt hClean w₁ h₀₁ hInv₁.log, hGrown _,
          List.prefix_rfl⟩
    · intro w' hRely hInv'
      apply h _ w' (h₀₁.toSteps.trans
        ((steps_setJournal w₁ t j _).trans hRely.toSteps))
        hInv'.log
      intro hr
      cases hr

variable {v : OperationLog}

namespace OperationLog

theorem attempts_meets
    {Q : CoreResult (List Operation) → OperationLog →
      World → Prop}
    (hHolding : w.holding t = some j)
    (h :
      ∀ r w', Others t w w' → LogInv clean w' →
        (∀ x, r = .ok x → x = attemptsOf w j) → Q r v w') :
    LogMeets host t (attempts j) v Q w :=
  meets_readReceipt Receipt.attempts hHolding h

theorem committed_meets
    {Q : CoreResult (Option OpId) → OperationLog →
      World → Prop}
    (hHolding : w.holding t = some j)
    (h :
      ∀ r w', Others t w w' → LogInv clean w' →
        (∀ x, r = .ok x →
          x = (w.journals j).receipt.committedOpId) →
        Q r v w') :
    LogMeets host t (committed j) v Q w :=
  meets_readReceipt Receipt.committedOpId hHolding h

theorem recordAttempt_meets
    (hHolding : w.holding t = some j)
    (hInv : LogInv clean w)
    (hOp : Recordable clean j op w) :
    LogMeets host t (recordAttempt j op) v
      (fun r v' w' => Steps t w w' ∧ v' = v ∧
        (r = .ok () →
          attemptsOf w' j = attemptsOf w j ++ [op]))
      w := by
  unfold recordAttempt
  apply meets_bind
  apply meets_call
  intro w₁ h₀₁ hInv₁ c r w₂ _ hServe
  rcases serve_readReceipt hServe with ⟨rfl, hReceipt⟩
  refine ⟨⟨hInv₁, fun u _ => .refl u w₂⟩, ?_⟩
  intro w₃ h₂₃ hInv₃
  have h₀₃ := h₀₁.trans h₂₃
  cases r with
  | error e =>
      apply continues_error
      refine ⟨h₀₃.toSteps, rfl, ?_⟩
      intro hr
      cases hr
  | ok receipt =>
      apply continues_ok
      have hSame : receipt.attempts = attemptsOf w j := by
        rw [hReceipt receipt rfl]
        exact h₀₁.attemptsOf hHolding
      by_cases hAny :
          (receipt.attempts.any (·.opId = op.opId)) = true
      · -- A fresh operation is not among the attempts.
        exfalso
        rw [hSame, List.any_eq_true] at hAny
        rcases hAny with ⟨a, ha, hId⟩
        apply hOp.fresh
        rcases hOp.issued with ⟨x, hx, hxOp, _⟩
        have hEq := hInv.basic.built_unique
          (hInv.built_of_recorded ha) ⟨x, hx, hxOp⟩
          (by simpa using hId)
        rw [← hEq]
        exact ha
      · rw [if_neg hAny]
        have hOp₃ := hOp.later hInv hInv₃.log h₀₃ hHolding
        have hHolding₃ := h₀₃.holding.trans hHolding
        apply meets_updateReceipt hHolding₃
        · intro w₄ h₃₄ hInv₄
          exact (hOp₃.later hInv₃.log hInv₄ h₃₄
            hHolding₃).recorded hInv₄
        · intro r
          exact List.prefix_append _ _
        · intro hClean w₄ h₃₄ hInv₄
          exact (hOp₃.later hInv₃.log hInv₄ h₃₄
            hHolding₃).receiptOk hInv₄ hClean
        · intro r w' hSteps _ hAttempts
          refine ⟨h₀₃.toSteps.trans hSteps, rfl, ?_⟩
          intro hr
          rw [hAttempts hr, h₀₃.journals j hHolding]
          rfl

theorem recordCommitted_meets
    {id : OpId}
    (hHolding : w.holding t = some j)
    (hMem : clean → ∃ op ∈ w.headLog, op.opId = id) :
    LogMeets host t (recordCommitted j id) v
      (fun _ v' w' => Steps t w w' ∧ v' = v) w := by
  unfold recordCommitted
  apply meets_bind
  apply meets_call
  intro w₁ h₀₁ hInv₁ c r w₂ _ hServe
  rcases serve_readReceipt hServe with ⟨rfl, _⟩
  refine ⟨⟨hInv₁, fun u _ => .refl u w₂⟩, ?_⟩
  intro w₃ h₂₃ _
  have h₀₃ := h₀₁.trans h₂₃
  cases r with
  | error e =>
      apply continues_error
      exact ⟨h₀₃.toSteps, rfl⟩
  | ok receipt =>
      apply continues_ok
      cases receipt.committedOpId with
      | some known =>
          by_cases hKnown : known = id
          · simp only [if_pos hKnown]
            apply meets_pure
            intro w' hRely _
            exact ⟨(h₀₃.trans hRely).toSteps, rfl⟩
          · simp only [if_neg hKnown]
            apply meets_throw
            intro w' hRely _
            exact ⟨(h₀₃.trans hRely).toSteps, rfl⟩
      | none =>
          apply meets_updateReceipt
            (h₀₃.holding.trans hHolding)
          · intro w₄ _ hInv₄ a ha
            exact hInv₄.basic.recorded j a (.inl ha)
          · intro r
            exact List.prefix_rfl
          · intro hClean w₄ h₃₄ hInv₄
            have hReceipt :=
              ((hInv₄.linear hClean).journals j).receipt
            refine ⟨hReceipt.attempts, ?_⟩
            intro id' hId'
            cases hId'
            rcases hMem hClean with ⟨op, hOp, hId⟩
            exact ⟨op, (h₀₃.trans h₃₄).log.subset hOp, hId⟩
          · intro r w' hSteps _ _
            exact ⟨h₀₃.toSteps.trans hSteps, rfl⟩

end OperationLog

------------------------------------------------------------
-- Rounds of a Durable Commit
------------------------------------------------------------

/- What holds throughout a durable call that began in `w₀`. -/
structure Durably
    (t : Tid)
    (j : JournalId)
    (w₀ : World)
    (v : OperationLog)
    (w : World) : Prop where
  steps : Steps t w₀ w
  holding : w.holding t = some j
  knows : LogKnows v w

variable {w₀ : World}

theorem Durably.later
    {v v' : OperationLog}
    (h : Durably t j w₀ v w)
    (hSteps : Steps t w w')
    (hHead : v'.currentHead = v.currentHead) :
    Durably t j w₀ v' w' := by
  refine ⟨h.steps.trans hSteps,
    hSteps.holding.trans h.holding, ?_⟩
  unfold LogKnows
  rw [hHead]
  exact h.knows.mono hSteps.toGrows

/-
  A round may start: the attempts so far are lost, except
  perhaps a kept one that is based on the current head.
-/
structure Ready
    (clean : Prop)
    (j : JournalId)
    (v : OperationLog)
    (pending : Option Operation)
    (w : World) : Prop where
  kept : ∀ p, pending = some p → p ∈ attemptsOf w j
  floor :
    clean →
      ∃ m, m <:+ w.headLog ∧ headOf m = v.currentHead ∧
        Floored (attemptsOf w j) m
  lost :
    clean → ∀ a ∈ attemptsOf w j,
      (pending = some a ∧ a.baseHead = v.currentHead) ∨
        LogDead a w.headLog

/-
  The attempt that a round sends: it is in the journal, and
  the other attempts are lost.
-/
structure Drawn
    (clean : Prop)
    (t : Tid)
    (j : JournalId)
    (v : OperationLog)
    (op : Operation)
    (w : World) : Prop where
  mine : Mine clean w t op
  issued : IssuedFor j op w
  baseHead : op.baseHead = v.currentHead
  target : op.targetFileId = some j.fileId
  floor :
    clean →
      ∃ m, m <:+ w.headLog ∧ headOf m = v.currentHead ∧
        Floored (attemptsOf w j) m
  lost :
    clean → ∀ a ∈ attemptsOf w j,
      a = op ∨ LogDead a w.headLog

theorem Drawn.later
    {v v' : OperationLog}
    (h : Drawn clean t j v op w)
    (hInv : LogInv clean w)
    (hInv' : LogInv clean w')
    (hHolding : w.holding t = some j)
    (hOthers : Others t w w')
    (hHead : v'.currentHead = v.currentHead) :
    Drawn clean t j v' op w' := by
  refine ⟨h.mine.later hOthers, h.issued.mono hOthers.toGrows,
    h.baseHead.trans hHead.symm, h.target, ?_, ?_⟩
  · intro hClean
    rcases h.floor hClean with ⟨m, hm, hMHead, hFloor⟩
    rw [hOthers.attemptsOf hHolding, hHead]
    exact ⟨m, hm.trans hOthers.log, hMHead, hFloor⟩
  · intro hClean a ha
    rw [hOthers.attemptsOf hHolding] at ha
    rcases h.lost hClean a ha with hSame | hDead
    · exact .inl hSame
    · right
      exact logDead_mono hInv'.basic
        (hInv'.linear hClean).chain
        ((hInv.built_of_recorded ha).mono hOthers.toGrows)
        hDead hOthers.log

theorem mine_of_attempt
    (hInv : LogInv clean w)
    (hHolding : w.holding t = some j)
    (hOp : op ∈ attemptsOf w j) : Mine clean w t op := by
  rcases hInv.basic.recorded j op (.inl hOp) with
    ⟨x, hx, hxOp, hJournal⟩
  refine ⟨x, hx, hxOp, ?_⟩
  intro i hi
  rw [hJournal] at hi
  cases hi
  exact ⟨hHolding, fun _ => hOp⟩

theorem target_of_attempt
    (hInv : LogInv clean w)
    (hOp : op ∈ attemptsOf w j) :
    op.targetFileId = some j.fileId := by
  rcases hInv.basic.recorded j op (.inl hOp) with
    ⟨x, hx, hxOp, hJournal⟩
  rw [← hxOp]
  exact hInv.basic.targets x hx j hJournal

/- A lost attempt leaves room for the next one. -/
theorem Drawn.ready
    {v v₀ v' : OperationLog}
    {w₀ w₁ : World}
    (h : Drawn clean t j v op w)
    (hInv : LogInv clean w)
    (hInv' : LogInv clean w')
    (hHolding : w.holding t = some j)
    (hOthers : Others t w w₀)
    (hRead : HeadRead host t w₀ w₁ w' v₀ v')
    (hDead : clean → LogDead op w'.headLog) :
    Ready clean j v' none w' := by
  have hBefore := hOthers.trans hRead.before
  have hSame : attemptsOf w' j = attemptsOf w j :=
    (hBefore.trans hRead.after).attemptsOf hHolding
  refine ⟨?_, ?_, ?_⟩
  · intro p hp
    cases hp
  · intro hClean
    rcases h.floor hClean with ⟨m, hm, _, hFloor⟩
    rw [hSame]
    exact ⟨w₁.headLog, hRead.after.log, hRead.head,
      hFloor.mono (hm.trans hBefore.log)⟩
  · intro hClean a ha
    rw [hSame] at ha
    right
    rcases h.lost hClean a ha with rfl | hLost
    · exact hDead hClean
    · exact logDead_mono hInv'.basic
        (hInv'.linear hClean).chain
        ((hInv.built_of_recorded ha).mono
          (hBefore.trans hRead.after).toGrows)
        hLost (hBefore.trans hRead.after).log

variable {pending : Option Operation}

theorem Ready.later
    (h : Ready clean j v pending w)
    (hInv : LogInv clean w)
    (hInv' : LogInv clean w')
    (hHolding : w.holding t = some j)
    (hOthers : Others t w w') :
    Ready clean j v pending w' := by
  have hSame := hOthers.attemptsOf hHolding
  refine ⟨?_, ?_, ?_⟩
  · rw [hSame]
    exact h.kept
  · intro hClean
    rcases h.floor hClean with ⟨m, hm, hHead, hFloor⟩
    rw [hSame]
    exact ⟨m, hm.trans hOthers.log, hHead, hFloor⟩
  · intro hClean a ha
    rw [hSame] at ha
    rcases h.lost hClean a ha with hKept | hDead
    · exact .inl hKept
    · right
      exact logDead_mono hInv'.basic
        (hInv'.linear hClean).chain
        ((hInv.built_of_recorded ha).mono hOthers.toGrows)
        hDead hOthers.log

/- Without attempts every head is good to start from. -/
theorem ready_of_nil
    (hNil : attemptsOf w j = [])
    (hKnows : LogKnows v w) :
    Ready clean j v none w := by
  refine ⟨?_, ?_, ?_⟩
  · intro p hp
    cases hp
  · intro _
    rcases hKnows with ⟨l, hl, hHead⟩
    rw [hNil]
    refine ⟨l, hl, hHead, l, List.suffix_rfl, ?_, ?_⟩
    · intro op hOp
      cases hOp
    · intro op hOp
      cases hOp
  · intro _ a ha
    rw [hNil] at ha
    cases ha

/-
  A search from the head down to the base of the first
  attempt, or to the start of the chain, that meets none of
  the attempts proves that none of them is in the log.
-/
theorem absent_of_search
    {attempts : List Operation} {first : Operation}
    {P : Operation → Prop} {b : Option OpId}
    {l : List Operation}
    (hClean : clean)
    (hInv : LogInv clean w')
    (hSuffix : l <:+ w'.headLog)
    (hFloored : Floored attempts l)
    (hFirst : attempts.head? = some first)
    (hWalk : Walk w' P (headOf l) b)
    (hPassed : ∀ x, P x → x ∉ attempts)
    (hEnd : b = none ∨ b = first.baseHead)
    {a : Operation}
    (ha : a ∈ attempts) : a ∉ l := by
  have hChain := (hInv.linear hClean).chain
  rcases hInv.basic.split hChain hSuffix hWalk with
    ⟨p, q, rfl, hHead, hAll⟩
  rcases hFloored with ⟨floor, _, hFloor, hMarks⟩
  rcases hMarks a ha with ⟨m, hBelow, hm, hBase⟩
  apply (hChain.of_suffix hSuffix).not_mem_of_floor hBelow hm
    hBase
  · exact fun hMem => hPassed a (hAll a hMem) ha
  · rcases hEnd with hEnd | hEnd
    · left
      exact headKey_eq_none_iff.mp (hHead.trans hEnd)
    · right
      change headOf q = headOf floor
      rw [hHead, hEnd, hFloor first hFirst]

/- After such a search the last attempt is kept or lost. -/
theorem ready_of_absent
    {w₀ w₁ : World} {v v' : OperationLog}
    (hInv' : LogInv clean w')
    (hHolding : w₁.holding t = some j)
    (hRead : HeadRead host t w₀ w₁ w' v v')
    (hAbsent :
      clean → ∀ a ∈ attemptsOf w' j, a ∉ w₁.headLog) :
    Ready clean j v' (attemptsOf w' j).getLast? w' := by
  have hSame : attemptsOf w' j = attemptsOf w₁ j :=
    hRead.after.attemptsOf hHolding
  refine ⟨?_, ?_, ?_⟩
  · intro p hp
    exact List.mem_of_getLast? hp
  · intro hClean
    have hReceipt :=
      ((hRead.inv.linear hClean).journals j).receipt
    rw [hSame]
    exact ⟨w₁.headLog, hRead.after.log, hRead.head,
      hReceipt.attempts.floor⟩
  · intro hClean a ha
    have hReceipt :=
      ((hRead.inv.linear hClean).journals j).receipt
    have hNot := hAbsent hClean a ha
    have ha₁ := ha
    rw [hSame] at ha₁
    have hBuilt := hRead.inv.built_of_recorded ha₁
    have lost :
        LogDead a w₁.headLog → LogDead a w'.headLog :=
      fun hDead => logDead_mono hInv'.basic
        (hInv'.linear hClean).chain
        (hBuilt.mono hRead.after.toGrows) hDead
        hRead.after.log
    cases hLast : (attemptsOf w' j).getLast? with
    | none =>
        rw [List.getLast?_eq_none_iff] at hLast
        rw [hLast] at ha
        cases ha
    | some last =>
        have hSplit := List.dropLast_append_getLast? last hLast
        rw [← hSplit] at ha
        rcases List.mem_append.mp ha with hOld | hNew
        · right
          rw [hSame] at hOld
          exact lost (hReceipt.attempts.dead a hOld)
        · cases List.mem_singleton.mp hNew
          by_cases hBase : a.baseHead = v'.currentHead
          · exact .inl ⟨rfl, hBase⟩
          · right
            apply lost
            refine ⟨?_, hBuilt.known hRead.inv.basic, ?_⟩
            · intro x hx hId
              have hEq := hRead.inv.basic.built_unique
                (hRead.inv.basic.log x hx) hBuilt hId
              rw [hEq] at hx
              exact hNot hx
            · intro hHead
              exact hBase (hHead.trans hRead.head)

namespace OperationLog

variable {opType : OpType}
variable {preconditions : Preconditions} {effects : Effects}

/-
  The host lets a durable request that goes on from the head
  `start` build its operations.
-/
def RoundStamps
    (host : Host clean)
    (t : Tid)
    (j : JournalId)
    (opType : OpType)
    (preconditions : Preconditions)
    (effects : Effects)
    (start : Option OpId)
    (w₀ : World) : Prop :=
  ∀ w op, Steps t w₀ w → HostInv host w →
    CommitAttempt (some j.fileId) opType preconditions effects
      start op w → host.stamps t op w

theorem RoundStamps.later
    {start : Option OpId}
    (h :
      RoundStamps host t j opType preconditions effects start
        w)
    (hSteps : Steps t w w') :
    RoundStamps host t j opType preconditions effects start
      w' :=
  fun w₁ op h₁ => h w₁ op (hSteps.trans h₁)

theorem durableAttempt_meets
    (hDurably : Durably t j w₀ v w)
    (hInv : LogInv clean w)
    (hReady : Ready clean j v pending w)
    {start : Option OpId}
    (hWalk : Walk w (NotOn j.fileId) v.currentHead start)
    (hStamps :
      RoundStamps host t j opType preconditions effects start
        w) :
    LogMeets host t
      (durableAttempt j.fileId opType preconditions effects j
        pending v.currentHead) v
      (fun r v' w' => Durably t j w₀ v' w' ∧ Steps t w w' ∧
        v'.currentHead = v.currentHead ∧
        (v.Paired → v'.Paired) ∧
        ∀ op, r = .ok op →
          LogInv clean w' ∧ Drawn clean t j v op w')
      w := by
  have hHolding := hDurably.holding
  unfold durableAttempt
  cases hFilter :
      pending.filter (·.baseHead = v.currentHead) with
  | some op =>
      rcases Option.filter_eq_some_iff.mp hFilter with
        ⟨hPending, hBase⟩
      have hOp := hReady.kept op hPending
      have hDrawn : Drawn clean t j v op w := by
        refine ⟨mine_of_attempt hInv hHolding hOp,
          hInv.basic.recorded j op (.inl hOp),
          by simpa using hBase, target_of_attempt hInv hOp,
          hReady.floor, ?_⟩
        intro hClean a ha
        rcases hReady.lost hClean a ha with ⟨hSame, _⟩ | hDead
        · rw [hPending] at hSame
          exact .inl (Option.some.inj hSame).symm
        · exact .inr hDead
      apply meets_pure
      intro w' hRely hInv'
      refine ⟨hDurably.later hRely.toSteps rfl,
        hRely.toSteps, rfl, id, ?_⟩
      intro op' hOp'
      cases hOp'
      exact ⟨hInv'.log,
        hDrawn.later hInv hInv'.log hHolding hRely rfl⟩
  | none =>
      have hLost :
          clean → ∀ a ∈ attemptsOf w j,
            LogDead a w.headLog := by
        intro hClean a ha
        rcases hReady.lost hClean a ha with
          ⟨hPending, hBase⟩ | hDead
        · rw [hPending] at hFilter
          simp [Option.filter, hBase] at hFilter
        · exact hDead
      have hTarget :
          ∀ i, w.holding t = some i →
            some j.fileId = some i.fileId := by
        intro i hi
        rw [hHolding] at hi
        cases hi
        rfl
      have stamps :
          ∀ w₁ op, Others t w w₁ → HostInv host w₁ →
            Attempt v (some j.fileId) opType preconditions
              effects op w₁ → host.stamps t op w₁ := by
        intro w₁ op hOthers hInv₁ hAttempt
        apply hStamps w₁ op hOthers.toSteps hInv₁
        refine ⟨hAttempt.target, hAttempt.opType,
          hAttempt.preconditions, hAttempt.effects, ?_, ?_,
          hAttempt.fresh⟩
        · rw [hAttempt.baseHead]
          exact hDurably.knows.mono hOthers.toGrows
        · intro fileId hFile
          cases hFile
          rw [hAttempt.baseHead]
          exact hWalk.mono hOthers.toGrows fun _ => id
      apply meets_bind
      apply Meets.mono
        (nextOperation_meets hDurably.knows hTarget stamps)
      rintro r v₁ w₁ ⟨hv₁, op, rfl, hStamped, hNext⟩
      have hHead₁ : v₁.currentHead = v.currentHead := by
        rw [hv₁]
      have hPaired₁ : v.Paired → v₁.Paired := by
        rw [hv₁]
        exact id
      have hDurably₁ : Durably t j w₀ v₁ w₁ :=
        hDurably.later hStamped.toSteps hHead₁
      have hSame₁ : attemptsOf w₁ j = attemptsOf w j := by
        unfold attemptsOf
        rw [hStamped.journals j hHolding]
      apply continues_ok
      apply meets_bind
      apply meets_ofExcept
      rintro w₂ h₁₂ ⟨hInv₂, _⟩
      have hDurably₂ : Durably t j w₀ v₁ w₂ :=
        hDurably₁.later h₁₂.toSteps rfl
      have h₀₂ : Steps t w w₂ :=
        hStamped.toSteps.trans h₁₂.toSteps
      have hSame₂ : attemptsOf w₂ j = attemptsOf w j := by
        rw [h₁₂.attemptsOf hDurably₁.holding, hSame₁]
      cases Validator.validateOperation op with
      | error e =>
          apply continues_error
          refine ⟨hDurably₂, h₀₂, hHead₁, hPaired₁, ?_⟩
          intro op' hOp'
          cases hOp'
      | ok _ =>
      have hDead₂ :
          clean → ∀ a ∈ attemptsOf w₂ j,
            LogDead a w₂.headLog := by
        intro hClean a ha
        have ha₀ := ha
        rw [hSame₂] at ha₀
        exact logDead_mono hInv₂.basic
          (hInv₂.linear hClean).chain
          (hInv₂.built_of_recorded ha) (hLost hClean a ha₀)
          (hStamped.log.trans h₁₂.log)
      have hFloor₂ :
          clean → ∃ m, m <:+ w₂.headLog ∧
            headOf m = v.currentHead ∧
            Floored (attemptsOf w₂ j) m := by
        intro hClean
        rcases hReady.floor hClean with ⟨m, hm, hMHead, hFloor⟩
        rw [hSame₂]
        exact ⟨m, hm.trans (hStamped.log.trans h₁₂.log),
          hMHead, hFloor⟩
      have hRecordable : Recordable clean j op w₂ := by
        refine ⟨?_, ?_, hDead₂, ?_⟩
        · rcases hNext.issued with
            ⟨x, hx, hxOp, _, _, hJournal⟩
          refine ⟨x, h₁₂.issued.subset hx, hxOp, ?_⟩
          rw [hJournal, hDurably₁.holding]
        · intro hOld
          rw [hSame₂] at hOld
          exact hStamped.fresh op
            (hInv.built_of_recorded hOld) rfl
        · rw [hNext.baseHead]
          exact hFloor₂
      apply continues_ok
      apply meets_bind
      apply Meets.mono (recordAttempt_meets
        hDurably₂.holding hInv₂ hRecordable)
      rintro r v₃ w₃ ⟨h₂₃, rfl, hAttempts⟩
      have hDurably₃ : Durably t j w₀ v₃ w₃ :=
        hDurably₂.later h₂₃ rfl
      cases r with
      | error e =>
          apply continues_error
          refine ⟨hDurably₃, h₀₂.trans h₂₃, hHead₁, hPaired₁,
            ?_⟩
          intro op' hOp'
          cases hOp'
      | ok _ =>
      have hAttempts := hAttempts rfl
      apply continues_ok
      apply meets_pure
      rintro w' hRely ⟨hInv', _⟩
      refine ⟨hDurably₃.later hRely.toSteps rfl,
        (h₀₂.trans h₂₃).trans hRely.toSteps, hHead₁, hPaired₁,
        ?_⟩
      intro op' hOp'
      cases hOp'
      have hAttempts' :
          attemptsOf w' j = attemptsOf w₂ j ++ [op] := by
        rw [hRely.attemptsOf hDurably₃.holding, hAttempts]
      have hLog : w₂.headLog <:+ w'.headLog :=
        h₂₃.log.trans hRely.log
      have hRecorded : op ∈ attemptsOf w' j := by
        rw [hAttempts']
        simp
      refine ⟨hInv', mine_of_attempt hInv'
        (hRely.holding.trans hDurably₃.holding) hRecorded,
        hInv'.basic.recorded j op (.inl hRecorded),
        hNext.baseHead, hNext.target, ?_, ?_⟩
      · intro hClean
        rcases hFloor₂ hClean with ⟨m, hm, hMHead, hFloor⟩
        rw [hAttempts']
        exact ⟨m, hm.trans hLog, hMHead,
          hFloor.append List.suffix_rfl
            (hMHead.trans hNext.baseHead.symm)⟩
      · intro hClean a ha
        rw [hAttempts'] at ha
        rcases List.mem_append.mp ha with ha | ha
        · right
          exact logDead_mono hInv'.basic
            (hInv'.linear hClean).chain
            ((hInv₂.built_of_recorded ha).mono
              (h₂₃.toGrows.trans hRely.toGrows))
            (hDead₂ hClean a ha) hLog
        · exact .inl (List.mem_singleton.mp ha)

/-
  The call found its own operation `op` below the head that
  it read in `w₁` after the CAS for `op` was answered 412.
-/
structure Overtaken
    {clean : Prop}
    (host : Host clean)
    (t : Tid)
    (j : JournalId)
    (op : Operation)
    (v : OperationLog)
    (w₁ w : World) : Prop where
  inv : LogInv clean w₁
  steps : Steps t w₁ w
  holding : w₁.holding t = some j
  head : headOf w₁.headLog = v.currentHead
  admitted : host.admits t (.getObject .head) .answer w₁
  sent :
    ∃ f ∈ w₁.store.flights, SentIn f t (w₁.calls t) ∧
      HeadWrite op.opId f.write
  walk :
    Walk w (fun _ => True) v.currentHead (some op.opId)

/- A head was read that is too long a way from its start. -/
def LongRead
    {clean : Prop}
    (host : Host clean)
    (t : Tid)
    (w : World) : Prop :=
  ∃ w₁, w₁.headLog <:+ w.headLog ∧
    maxDurableWalkOps ≤ w₁.headLog.length ∧
      host.admits t (.getObject .head) .answer w₁

theorem LongRead.later
    (h : LongRead host t w)
    (hLog : w.headLog <:+ w'.headLog) :
    LongRead host t w' := by
  rcases h with ⟨w₁, hBefore, hLong, hAdmits⟩
  exact ⟨w₁, hBefore.trans hLog, hLong, hAdmits⟩

/- What a durable commit tells about its operation. -/
structure DurableDone
    {clean : Prop}
    (host : Host clean)
    (t : Tid)
    (j : JournalId)
    (d : DurableCommit)
    (v : OperationLog)
    (w : World) : Prop where
  issued : IssuedFor j d.operation w
  target : d.operation.targetFileId = some j.fileId
  committed : clean → d.operation ∈ w.headLog
  latest :
    d.superseded = false →
      Walk w (NotOn j.fileId) v.currentHead
          (some d.operation.opId) ∨
        ∃ w₁, Overtaken host t j d.operation v w₁ w
  newer :
    d.superseded = true → clean →
      SupersededIn j.fileId d.operation.opId w.headLog ∨
        LongRead host t w

def DurablePost
    {clean : Prop}
    (host : Host clean)
    (t : Tid)
    (j : JournalId)
    (w₀ : World)
    (r : CoreResult DurableCommit)
    (v : OperationLog)
    (w : World) : Prop :=
  Durably t j w₀ v w ∧
    ∀ d, r = .ok d → DurableDone host t j d v w

theorem durably_failed
    {e : CoreError}
    (h : Durably t j w₀ v w) :
    DurablePost host t j w₀ (.error e) v w := by
  refine ⟨h, ?_⟩
  intro d hd
  cases hd

theorem Overtaken.later
    {w₁ : World}
    (h : Overtaken host t j op v w₁ w)
    (hSteps : Steps t w w') :
    Overtaken host t j op v w₁ w' :=
  { h with
    steps := h.steps.trans hSteps
    walk := h.walk.mono hSteps.toGrows fun _ => id }

theorem DurableDone.later
    {d : DurableCommit}
    (h : DurableDone host t j d v w)
    (hSteps : Steps t w w') :
    DurableDone host t j d v w' := by
  refine ⟨h.issued.mono hSteps.toGrows, h.target, ?_, ?_, ?_⟩
  · intro hClean
    exact hSteps.log.subset (h.committed hClean)
  · intro hFlag
    rcases h.latest hFlag with hWalk | ⟨w₁, hOver⟩
    · exact .inl (hWalk.mono hSteps.toGrows fun _ => id)
    · exact .inr ⟨w₁, hOver.later hSteps⟩
  · intro hFlag hClean
    exact (h.newer hFlag hClean).imp
      (·.mono hSteps.log) (·.later hSteps.log)

/- The last step of a success: the journal is confirmed. -/
theorem confirming_meets
    {α : Type} {a : α} {op : Operation} {v : OperationLog}
    {Q : CoreResult α → OperationLog → World → Prop}
    (hHolding : w.holding t = some j)
    (hMem : clean → op ∈ w.headLog)
    (hFailed : ∀ e w', Steps t w w' → Q (.error e) v w')
    (h : ∀ w', Steps t w w' → Q (.ok a) v w') :
    LogMeets host t
      (do
        recordCommitted j op.opId
        pure a) v Q w := by
  have hKnown : clean → ∃ x ∈ w.headLog, x.opId = op.opId :=
    fun hClean => ⟨op, hMem hClean, rfl⟩
  apply meets_bind
  apply Meets.mono (recordCommitted_meets hHolding hKnown)
  rintro r v₁ w₁ ⟨h₀₁, rfl⟩
  cases r with
  | error e =>
      apply continues_error
      exact hFailed e w₁ h₀₁
  | ok _ =>
      apply continues_ok
      apply meets_pure
      intro w' hRely _
      exact h w' (h₀₁.trans hRely.toSteps)

theorem confirmed_meets
    {flag : Bool}
    (hDurably : Durably t j w₀ v w)
    (hDone :
      DurableDone host t j ⟨op, flag⟩ v w) :
    LogMeets host t
      (do
        recordCommitted j op.opId
        pure (⟨op, flag⟩ : DurableCommit)) v
      (DurablePost host t j w₀) w := by
  apply confirming_meets hDurably.holding hDone.committed
  · intro e w' h₀'
    exact durably_failed (hDurably.later h₀' rfl)
  · intro w' h₀'
    refine ⟨hDurably.later h₀' rfl, ?_⟩
    intro d hd
    cases hd
    exact hDone.later h₀'

/-
  One durable round. A lost CAS is walked back to the head
  it was sent against; then its attempt is dead, and the
  next round may record another one.
-/
theorem commitDurableRounds_meets
    (rounds : Nat)
    (hDurably : Durably t j w₀ v w)
    (hInv : LogInv clean w)
    (hPaired : clean → v.Paired)
    (hReady : Ready clean j v pending w)
    {start : Option OpId}
    (hWalk : Walk w (NotOn j.fileId) v.currentHead start)
    (hStamps :
      RoundStamps host t j opType preconditions effects start
        w) :
    LogMeets host t
      (commitDurableRounds j.fileId opType preconditions
        effects j rounds pending) v
      (DurablePost host t j w₀) w := by
  induction rounds generalizing w v pending with
  | zero =>
      apply meets_throw
      intro w' hRely _
      exact durably_failed (hDurably.later hRely.toSteps rfl)
  | succ rounds ih =>
      unfold commitDurableRounds
      apply meets_get_bind
      apply meets_bind
      apply Meets.mono (durableAttempt_meets hDurably hInv
        hReady hWalk hStamps)
      rintro r v₂ w₂
        ⟨hDurably₂, h₀₂, hHead₂, hPaired₂, hDrawn⟩
      cases r with
      | error e =>
          apply continues_error
          exact durably_failed hDurably₂
      | ok op =>
      rcases hDrawn op rfl with ⟨hInv₂, hDrawn₂⟩
      have hHolding₂ := hDurably₂.holding
      apply continues_ok
      apply meets_bind
      apply Meets.mono
        (writeOperation_meets hDrawn₂.mine.built)
      rintro r v₃ w₃ ⟨h₂₃, rfl, hWritten⟩
      cases r with
      | error e =>
          apply continues_error
          exact durably_failed
            (hDurably₂.later h₂₃.toSteps rfl)
      | ok _ =>
      apply continues_ok
      apply meets_bind
      apply Meets.mono (advanceHead_meets
        (hDrawn₂.mine.later h₂₃) (hWritten rfl)
        (hDrawn₂.baseHead.trans hHead₂.symm)
        fun hClean => hPaired₂ (hPaired hClean))
      rintro r v₄ w₄ ⟨h₃₄, hAdvance⟩
      have h₂₄ := h₂₃.trans h₃₄
      cases r with
      | error e =>
          simp only at hAdvance
          subst hAdvance
          apply continues_error
          exact durably_failed
            (hDurably₂.later h₂₄.toSteps rfl)
      | ok advanced =>
      apply continues_ok
      cases advanced with
      | true =>
          rcases hAdvance with ⟨hMem, etag, rfl⟩
          apply confirmed_meets
          · refine ⟨hDurably₂.steps.trans h₂₄.toSteps,
              h₂₄.holding.trans hHolding₂, ?_⟩
            exact logKnows_of_mem hMem rfl
          · exact ⟨hDrawn₂.issued.mono h₂₄.toGrows,
              hDrawn₂.target, fun _ => hMem,
              fun _ => .inl (.refl _), nofun⟩
      | false =>
          rcases hAdvance with ⟨rfl, hStale, hSent⟩
          refine meets_loadHead (fun e w₅ h₄₅ => ?_) ?_
          · exact durably_failed
              (hDurably₂.later (h₂₄.trans h₄₅).toSteps rfl)
          intro v₅ wₕ w₅ h₄₅ hRead
          have h₂₅ := h₂₄.trans h₄₅
          have hDurably₅ : ∀ {w₆}, Others t w₅ w₆ →
              Durably t j w₀ v₅ w₆ := by
            intro w₆ h₅₆
            exact ⟨hDurably₂.steps.trans
                (h₂₅.trans h₅₆).toSteps,
              (h₂₅.trans h₅₆).holding.trans hHolding₂,
              hRead.knows.mono h₅₆.toGrows⟩
          apply meets_bind
          apply Meets.mono operationsSince_meets
          rintro r v₆ w₆ ⟨h₅₆, rfl, hSince⟩
          have h₂₆ := h₂₅.trans h₅₆
          have hRead₆ := hRead.later h₅₆
          cases r with
          | error e =>
              apply continues_error
              exact durably_failed (hDurably₅ h₅₆)
          | ok result =>
          apply continues_ok
          cases result with
          | containsOwn =>
              apply meets_of_inv
              rintro w₇ h₆₇ ⟨hInv₇, _⟩
              have hWalk := hSince.mono h₆₇.toGrows
                fun _ => id
              apply confirmed_meets
                (hDurably₅ (h₅₆.trans h₆₇))
              refine ⟨hDrawn₂.issued.mono
                (h₂₆.trans h₆₇).toGrows, hDrawn₂.target, ?_,
                fun _ => .inr ?_, nofun⟩
              · intro hClean
                exact own_mem hClean hInv₇
                  (hRead₆.later h₆₇)
                  (hDrawn₂.mine.later
                    (h₂₆.trans h₆₇)).built hWalk
              · refine ⟨wₕ, hRead.inv,
                  (hRead₆.later h₆₇).after.toSteps, ?_,
                  hRead.head, ?_, ?_, hWalk⟩
                · exact (h₂₄.trans
                    hRead.before).holding.trans hHolding₂
                · apply hRead.admitted
                  intro hNone
                  rw [hNone] at hWalk
                  cases hWalk
                · rcases hSent with ⟨f, hf, hSender, hHead⟩
                  rcases hRead.before.flights.mem hf with
                    ⟨f', hf', hLater⟩
                  refine ⟨f', hf', ?_, ?_⟩
                  · rw [SentIn, hLater.sender,
                      hRead.before.calls]
                    exact hSender
                  · rw [hLater.write]
                    exact hHead
          | unverifiable reason =>
              apply meets_throw
              intro w' hRely _
              exact durably_failed
                (hDurably₅ (h₅₆.trans hRely))
          | committed concurrent =>
              have hDead :
                  clean → ∀ w', Others t w₆ w' →
                    LogInv clean w' →
                    LogDead op w'.headLog := by
                intro hClean w' hRely hInv'
                apply own_dead hClean hInv'
                  (hRead₆.later hRely)
                  (hDrawn₂.mine.later
                    (h₂₆.trans hRely)).built
                  (hStale hClean)
                · rw [hDrawn₂.baseHead]
                  exact hSince.mono hRely.toGrows
                    fun _ => id
                · exact fun x hx => hx.2
              apply meets_bind
              apply Meets.mono (discardOrphanOperation_meets
                (hDrawn₂.mine.later h₂₆).built hDead)
              rintro r v₇ w₇ ⟨h₆₇, rfl⟩
              cases r with
              | error e =>
                  apply continues_error
                  exact durably_failed
                    (hDurably₅ (h₅₆.trans h₆₇))
              | ok _ =>
              apply continues_ok
              cases hConflict :
                  conflictOn (some j.fileId) concurrent with
              | some conflict =>
                  apply meets_throw
                  intro w' hRely _
                  exact durably_failed (hDurably₅
                    ((h₅₆.trans h₆₇).trans hRely))
              | none =>
                  apply meets_of_inv
                  rintro w₈ h₇₈ ⟨hInv₈, _⟩
                  have h₆₈ := h₆₇.trans h₇₈
                  have hOps := conflictOn_eq_none hConflict
                  have hWalk₈ : Walk w₈ (NotOn j.fileId)
                      v₇.currentHead v.currentHead :=
                    hSince.mono h₆₈.toGrows
                      fun x hx => hOps x hx.1
                  have h₀₈ := h₀₂.trans (h₂₆.trans h₆₈).toSteps
                  refine ih (hDurably₅ (h₅₆.trans h₆₈)) hInv₈
                    hRead.paired ?_
                    (hWalk₈.trans (hWalk.mono h₀₈.toGrows
                      fun _ => id))
                    (hStamps.later h₀₈)
                  exact hDrawn₂.ready hInv₂ hInv₈ hHolding₂
                    h₂₄ (hRead₆.later h₆₈)
                    fun hClean => hDead hClean w₈ h₆₈ hInv₈

------------------------------------------------------------
-- Durable Commits
------------------------------------------------------------

/-
  No attempt of the request is in the chain: it has none, or
  a search from the head that was read has met none.
-/
inductive Sought
    {clean : Prop}
    (host : Host clean)
    (t : Tid)
    (j : JournalId)
    (w₀ : World)
    (v₀ v : OperationLog)
    (w : World) : Prop where
  | none
      (others : Others t w₀ w)
      (same : v = v₀)
      (nil : attemptsOf w j = [])
  | absent
      {w₁ : World}
      (read : HeadRead host t w₀ w₁ w v₀ v)
      (absent :
        clean → ∀ a ∈ attemptsOf w₁ j, a ∉ w₁.headLog)

theorem Sought.others
    {v₀ v : OperationLog}
    (h : Sought host t j w₀ v₀ v w) : Others t w₀ w := by
  cases h with
  | none others => exact others
  | absent read => exact read.before.trans read.after

/- The call has not read the head: there is no attempt. -/
theorem Sought.nil
    {v₀ v : OperationLog}
    (h : Sought host t j w₀ v₀ v w)
    (hLoaded : v.headLoaded = false) :
    v = v₀ ∧ attemptsOf w j = [] := by
  cases h with
  | none _ same nil => exact ⟨same, nil⟩
  | absent read =>
      rw [read.loaded] at hLoaded
      cases hLoaded

/- What a look at the journal and the chain tells. -/
def AttemptPost
    {clean : Prop}
    (host : Host clean)
    (t : Tid)
    (j : JournalId)
    (w₀ : World)
    (v₀ : OperationLog)
    (r : CoreResult (Option DurableCommit))
    (v : OperationLog)
    (w : World) : Prop :=
  Durably t j w₀ v w ∧
    match r with
    | .ok (some d) => DurableDone host t j d v w
    | .ok none =>
        LogInv clean w ∧ (clean → v₀.Paired → v.Paired) ∧
          Ready clean j v (attemptsOf w j).getLast? w ∧
          Sought host t j w₀ v₀ v w
    | .error _ => True

theorem committedAttempt_meets
    (hHolding : w.holding t = some j)
    (hKnows : LogKnows v w) :
    LogMeets host t
      (committedAttempt j.fileId j) v
      (AttemptPost host t j w v) w := by
  unfold committedAttempt
  apply meets_bind
  apply attempts_meets hHolding
  intro r w₁ h₀₁ hInv₁ hAttempts
  have hHolding₁ := h₀₁.holding.trans hHolding
  cases r with
  | error e =>
      apply continues_error
      exact ⟨⟨h₀₁.toSteps, hHolding₁,
        hKnows.mono h₀₁.toGrows⟩, trivial⟩
  | ok recorded =>
  have hRecorded : recorded = attemptsOf w₁ j := by
    rw [hAttempts recorded rfl, h₀₁.attemptsOf hHolding]
  apply continues_ok
  cases hCases : recorded with
  | nil =>
      apply meets_pure
      rintro w' hRely ⟨hInv', _⟩
      have h₀' := h₀₁.trans hRely
      have hNil : attemptsOf w' j = [] := by
        rw [hRely.attemptsOf hHolding₁, ← hRecorded, hCases]
      have hKnows' := hKnows.mono h₀'.toGrows
      refine ⟨⟨h₀'.toSteps, h₀'.holding.trans hHolding,
        hKnows'⟩, hInv', fun _ => id, ?_, .none h₀' rfl hNil⟩
      rw [hNil]
      exact ready_of_nil hNil hKnows'
  | cons first rest =>
      dsimp only
      rw [← hCases]
      refine meets_loadHead (fun e w₂ h₁₂ => ?_) ?_
      · have h₀₂ := h₀₁.trans h₁₂
        exact ⟨⟨h₀₂.toSteps, h₀₂.holding.trans hHolding,
          hKnows.mono h₀₂.toGrows⟩, trivial⟩
      intro v₂ wₕ w₂ h₁₂ hRead
      have h₀₂ := h₀₁.trans h₁₂
      have hDurably : ∀ {w₃}, Steps t w₂ w₃ →
          Durably t j w v₂ w₃ := by
        intro w₃ h₂₃
        exact ⟨h₀₂.toSteps.trans h₂₃,
          h₂₃.holding.trans (h₀₂.holding.trans hHolding),
          hRead.knows.mono h₂₃.toGrows⟩
      apply meets_of_inv
      rintro wᵢ h₂ᵢ ⟨hInvᵢ, _⟩
      have hReadᵢ := hRead.later h₂ᵢ
      apply meets_bind
      apply Meets.mono (searchChain_finds hInvᵢ)
      rintro r v₃ w₃ ⟨⟨hᵢ₃, rfl, hSearch⟩, hSearched⟩
      have h₂₃ := h₂ᵢ.trans hᵢ₃
      have hRead₃ := hRead.later h₂₃
      cases r with
      | error e =>
          apply continues_error
          exact ⟨hDurably h₂₃.toSteps, trivial⟩
      | ok search =>
      apply continues_ok
      apply meets_of_inv
      rintro w₄ h₃₄ ⟨hInv₄, _⟩
      have h₂₄ := h₂₃.trans h₃₄
      have hRead₄ := hRead₃.later h₃₄
      have hSame₄ : attemptsOf w₄ j = recorded := by
        rw [(h₁₂.trans h₂₄).attemptsOf hHolding₁, hRecorded]
      have hExact : clean → Finds _ search := fun hClean =>
        hSearched hClean _ hReadᵢ.after.log hRead.head search rfl
      cases search with
      | found op flag =>
          rcases hSearch with ⟨hOwn, hFound, _, hWalk⟩
          have hBuilt :=
            (built_of_operationOf
              (operationOf_mono h₃₄.toGrows hFound)).1
          have hMem : op ∈ attemptsOf w₄ j := by
            rw [List.any_eq_true] at hOwn
            rcases hOwn with ⟨a, ha, hId⟩
            rw [← hSame₄] at ha
            have hEq := hInv₄.basic.built_unique
              (hInv₄.built_of_recorded ha) hBuilt
              (by simpa using hId)
            rw [← hEq]
            exact ha
          have hDone : DurableDone host t j ⟨op, flag⟩
              v₃ w₄ := by
            refine ⟨hInv₄.basic.recorded j op (.inl hMem),
              target_of_attempt hInv₄ hMem, ?_, ?_, ?_⟩
            · intro hClean
              exact own_mem hClean hInv₄ hRead₄ hBuilt
                (hWalk.mono h₃₄.toGrows fun _ _ => trivial)
            · intro hFlag
              left
              exact hWalk.mono h₃₄.toGrows
                fun x hx => hx.2 hFlag
            · rintro rfl hClean
              left
              exact (Finds.superseded (hExact hClean) rfl).mono
                hRead₄.after.log
          apply confirming_meets
            (hDurably h₂₄.toSteps).holding hDone.committed
          · exact fun e w' h₄' =>
              ⟨hDurably (h₂₄.toSteps.trans h₄'), trivial⟩
          · exact fun w' h₄' =>
              ⟨hDurably (h₂₄.toSteps.trans h₄'),
                hDone.later h₄'⟩
      | absent foreign =>
          cases foreign with
          | some other =>
              apply meets_throw
              intro w' hRely _
              exact ⟨hDurably (h₂₄.trans hRely).toSteps,
                trivial⟩
          | none =>
              rcases hSearch with ⟨_, b, hWalk, hFloor⟩
              apply meets_pure
              rintro w' hRely ⟨hInv', _⟩
              have h₂' := h₂₄.trans hRely
              have h₃' := h₃₄.trans hRely
              have hSame' : attemptsOf w' j = recorded := by
                rw [(h₁₂.trans h₂').attemptsOf hHolding₁,
                  hRecorded]
              have hHoldingₕ : wₕ.holding t = some j :=
                hRead.before.holding.trans hHolding₁
              have hRead' := hRead₄.later hRely
              have hSameₕ : attemptsOf wₕ j = recorded := by
                rw [hRead.before.attemptsOf hHolding₁,
                  hRecorded]
              have hAbsent :
                  clean → ∀ a ∈ recorded,
                    a ∉ wₕ.headLog := by
                intro hClean a ha
                have hReceipt :=
                  ((hRead.inv.linear hClean).journals
                    j).receipt.attempts.floor
                change Floored (attemptsOf wₕ j) _ at hReceipt
                rw [hSameₕ] at hReceipt
                have hFirst : recorded.head? = some first := by
                  rw [hCases]
                  rfl
                have hWalk' := hWalk.mono h₃'.toGrows
                  fun _ => id
                rw [← hRead.head] at hWalk'
                apply absent_of_search hClean hInv'
                  hRead'.after.log hReceipt hFirst hWalk' ?_ ?_
                  ha
                · intro x hx hMem
                  have hOwn := hx.1
                  rw [List.any_eq_false] at hOwn
                  exact hOwn x hMem (by simp)
                · cases b with
                  | none => exact .inl rfl
                  | some id =>
                      right
                      rcases hFloor id rfl with
                        ⟨op, hFound, hIsFloor, _⟩
                      have hId :=
                        (built_of_operationOf hFound).2
                      have hBase : first.baseHead =
                          some op.opId := by
                        simpa using hIsFloor
                      rw [hBase, hId]
              refine ⟨hDurably h₂'.toSteps, hInv',
                fun hClean _ => hRead'.paired hClean, ?_, ?_⟩
              · apply ready_of_absent hInv' hHoldingₕ hRead'
                rw [hSame']
                exact hAbsent
              · apply Sought.absent (hRead'.from h₀₁)
                rw [hSameₕ]
                exact hAbsent
      | ambiguous reason =>
          have hHolding₄ := (hDurably h₂₄.toSteps).holding
          apply meets_bind
          apply committed_meets hHolding₄
          intro r w₅ h₄₅ hInv₅ hConfirmed
          have h₂₅ := h₂₄.trans h₄₅
          cases r with
          | error e =>
              apply continues_error
              exact ⟨hDurably h₂₅.toSteps, trivial⟩
          | ok confirmed =>
          apply continues_ok
          cases hFind : confirmed.bind fun id =>
              recorded.find? (·.opId = id) with
          | none =>
              apply meets_throw
              intro w' hRely _
              exact ⟨hDurably (h₂₅.trans hRely).toSteps,
                trivial⟩
          | some op =>
              rcases Option.bind_eq_some_iff.mp hFind with
                ⟨id, rfl, hOp⟩
              have hMem : op ∈ attemptsOf w₄ j := by
                rw [hSame₄]
                exact List.mem_of_find?_eq_some hOp
              have hId : op.opId = id := by
                simpa using List.find?_some hOp
              apply meets_pure
              intro w' hRely _
              have hIssued : IssuedFor j op w₄ :=
                hInv₄.basic.recorded j op (.inl hMem)
              refine ⟨hDurably (h₂₅.trans hRely).toSteps,
                hIssued.mono (h₄₅.trans hRely).toGrows,
                target_of_attempt hInv₄ hMem, ?_, ?_, ?_⟩
              · intro hClean
                have hReceipt :=
                  ((hInv₄.linear hClean).journals j).receipt
                have hKnown := hReceipt.committed id
                  (hConfirmed (some id) rfl).symm
                rw [← hId] at hKnown
                exact (h₄₅.trans hRely).log.subset
                  (hInv₄.basic.mem_of_id
                    (hInv₄.built_of_recorded hMem) hKnown)
              · intro hFlag
                cases hFlag
              · intro _ hClean
                have hLong := Finds.too_long (hExact hClean)
                have hAdmitted := hRead.admitted_of_long hLong
                exact .inr ⟨wₕ, hRead₄.after.log.trans
                  (h₄₅.trans hRely).log, hLong, hAdmitted⟩

/-
  What a durable call on `v` knows of the head `start` that
  it goes on from, at a later moment `w'`.
-/
structure DurableStart
    {clean : Prop}
    (host : Host clean)
    (t : Tid)
    (j : JournalId)
    (v : OperationLog)
    (w w' : World)
    (start : Option OpId) : Prop where
  steps : Steps t w w'
  read :
    v.headLoaded = false →
      ∃ v' w₁ w₂, HeadRead host t w w₁ w₂ v v' ∧
        start = v'.currentHead ∧ Steps t w₂ w' ∧
        (clean → ∀ a ∈ attemptsOf w₁ j, a ∉ w₁.headLog)

theorem Sought.start
    {v₀ v : OperationLog}
    (h : Sought host t j w₀ v₀ v w)
    (hLoaded : v.headLoaded = true)
    (hSteps : Steps t w w') :
    DurableStart host t j v₀ w₀ w' v.currentHead := by
  refine ⟨h.others.toSteps.trans hSteps, ?_⟩
  intro hNot
  cases h with
  | none _ same =>
      rw [same, hNot] at hLoaded
      cases hLoaded
  | @absent w₁ read absent =>
      exact ⟨v, w₁, w, read, rfl, hSteps, absent⟩

/- The host lets a durable request build its operations. -/
def DurableStamps
    (host : Host clean)
    (t : Tid)
    (j : JournalId)
    (opType : OpType)
    (preconditions : Preconditions)
    (effects : Effects)
    (v : OperationLog)
    (w : World) : Prop :=
  ∀ start w' op, DurableStart host t j v w w' start →
    HostInv host w' →
    CommitAttempt (some j.fileId) opType preconditions effects
      start op w' → host.stamps t op w'

theorem commitDurable_meets
    (hHolding : w.holding t = some j)
    (hKnows : LogKnows v w)
    (hPaired : clean → v.Paired)
    (hStamps :
      DurableStamps host t j opType preconditions effects v
        w) :
    LogMeets host t
      (commitDurable j.fileId opType preconditions effects j)
      v (DurablePost host t j w) w := by
  unfold commitDurable
  apply meets_bind
  apply Meets.mono (committedAttempt_meets hHolding hKnows)
  rintro r v₁ w₁ ⟨hDurably, hPost⟩
  cases r with
  | error e =>
      apply continues_error
      exact durably_failed hDurably
  | ok found =>
  apply continues_ok
  cases found with
  | some d =>
      apply meets_pure
      intro w' hRely _
      refine ⟨hDurably.later hRely.toSteps rfl, ?_⟩
      intro d' hd'
      cases hd'
      exact DurableDone.later hPost hRely.toSteps
  | none =>
      rcases hPost with ⟨hInv₁, hPaired₁, hReady, hSought⟩
      apply meets_bind
      apply attempts_meets hDurably.holding
      intro r w₂ h₁₂ hInv₂ hAttempts
      have hDurably₂ : Durably t j w v₁ w₂ :=
        hDurably.later h₁₂.toSteps rfl
      have hReady₂ := hReady.later hInv₁ hInv₂
        hDurably.holding h₁₂
      cases r with
      | error e =>
          apply continues_error
          exact durably_failed hDurably₂
      | ok recorded =>
      have hRecorded := hAttempts recorded rfl
      apply continues_ok
      apply meets_get_bind
      rw [hRecorded]
      cases hLoaded : v₁.headLoaded with
      | true =>
          simp only [if_true]
          exact commitDurableRounds_meets _ hDurably₂ hInv₂
            (fun hClean => hPaired₁ hClean (hPaired hClean))
            hReady₂ (.refl _) fun w' op hSteps => hStamps _ w' op
              (hSought.start hLoaded (h₁₂.toSteps.trans hSteps))
      | false =>
          simp only [Bool.false_eq_true, if_false]
          refine meets_loadHead (fun e w₃ h₂₃ => ?_) ?_
          · exact durably_failed
              (hDurably₂.later h₂₃.toSteps rfl)
          intro v₃ wₕ w₃ h₂₃ hRead
          apply meets_of_inv
          intro w₄ h₃₄ hInv₄
          have h₂₄ := h₂₃.trans h₃₄
          have hKnows₄ := hRead.knows.mono h₃₄.toGrows
          rcases hSought.nil hLoaded with ⟨hSame, hNil₁⟩
          have hNil₄ : attemptsOf w₄ j = [] := by
            rw [(h₁₂.trans h₂₄).attemptsOf hDurably.holding,
              hNil₁]
          rw [hNil₁]
          have h₀₂ := hSought.others.trans h₁₂
          have hNilₕ : attemptsOf wₕ j = [] := by
            rw [(h₁₂.trans hRead.before).attemptsOf
              hDurably.holding, hNil₁]
          refine commitDurableRounds_meets _
            ⟨(hDurably₂.later h₂₄.toSteps rfl).steps,
              h₂₄.holding.trans hDurably₂.holding, hKnows₄⟩
            hInv₄.log hRead.paired ?_ (.refl _) ?_
          · exact ready_of_nil hNil₄ hKnows₄
          · intro w' op hSteps
            apply hStamps v₃.currentHead w' op
            refine ⟨(h₀₂.trans h₂₄).toSteps.trans hSteps, ?_⟩
            intro _
            rw [hSame] at hRead
            refine ⟨v₃, wₕ, w₄, (hRead.from h₀₂).later h₃₄,
              rfl, hSteps, ?_⟩
            intro _ a ha
            rw [hNilₕ] at ha
            cases ha

end OperationLog

end S4Drive

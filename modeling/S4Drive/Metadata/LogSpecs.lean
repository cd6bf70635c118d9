import S4Drive.Metadata.LogSteps

/-
  What every function of the log does under the contract,
  whatever the other devices do between its requests.

  Main declarations:
    * `meets_getObject`, `meets_headObject`, `meets_write`
    * `loadHeadConsistent_meets`, `meets_loadHead`
    * `nextOperation_meets`, `writeOperation_meets`,
      `advanceHead_meets`
    * `operationsSince_meets`, `searchChain_meets`
-/

------------------------------------------------------------
-- Requests
------------------------------------------------------------

namespace S4Drive

open ObjectStore Concurrency ChainLog

/- The specification of a script under the log's contract. -/
abbrev LogMeets
    {l α : Type}
    {clean : Prop}
    (host : Host clean)
    (t : Tid)
    (x : CloudM l α)
    (v : l)
    (Q : CoreResult α → l → World → Prop)
    (w : World) : Prop :=
  Meets cloud (logContract host) t x v Q w

/- An answer to a read that fits the object. -/
def Answers
    (w : World)
    (key : Key) : CoreResult Body → Prop
  | .ok body => w.store.objects.lookup key = some body
  | .error (.notFound _) => w.store.objects.lookup key = none
  | .error _ => True

theorem answers_readObject
    (w : World)
    (key : Key) : Answers w key (readObject w key) := by
  unfold readObject
  cases hFound : w.store.objects.lookup key with
  | some body => exact hFound
  | none => exact hFound

variable {key : Key}

theorem answers_fail
    {w : World} {e : CoreError}
    (h : ¬ e.isNotFound = true) :
    Answers w key (.error e) := by
  cases e with
  | notFound message => exact absurd rfl h
  | _ => trivial

------------------------------------------------------------
-- Answers of the World
------------------------------------------------------------

variable {t : Tid} {w w' : World} {c : Choice}

theorem serve_getObject
    {r : CoreResult Body}
    (h : serve t (.getObject key) c w = some (r, w')) :
    Answers w key r ∧
      (w' = w.noteRead t key ∨
        w' = w ∧ ∀ body, r ≠ .ok body) := by
  cases c with
  | answer =>
      cases h
      exact ⟨answers_readObject w key, .inl rfl⟩
  | fail e =>
      simp only [serve] at h
      split at h
      · cases h
      · rename_i hFound
        cases h
        refine ⟨answers_fail hFound, .inr ⟨rfl, ?_⟩⟩
        intro body hOk
        cases hOk
  | _ => cases h

theorem serve_headObject
    {r : CoreResult (ETag Body)}
    (h : serve t (.headObject key) c w = some (r, w')) :
    w' = w ∧ Answers w key (r.map ETag.body) := by
  cases c with
  | answer =>
      cases h
      refine ⟨rfl, ?_⟩
      have hAnswers := answers_readObject w key
      cases hRead : readObject w key with
      | ok body =>
          rw [hRead] at hAnswers
          exact hAnswers
      | error e =>
          rw [hRead] at hAnswers
          exact hAnswers
  | fail e =>
      simp only [serve] at h
      split at h
      · cases h
      · rename_i hFound
        cases h
        exact ⟨rfl, answers_fail hFound⟩
  | _ => cases h

variable {write : Write Key Body}

theorem serve_send
    {ticket : Nat}
    (h : serve t (.send write) c w = some (ticket, w')) :
    ticket = w.store.flights.length ∧
      w' = w.sent t write := by
  cases c with
  | answer =>
      cases h
      exact ⟨rfl, rfl⟩
  | _ => cases h

theorem serve_await
    {ticket : Nat} {r : CoreResult Bool}
    {f : Flight Key Body Sender}
    (hFlight : w.store.flights[ticket]? = some f)
    (h : serve t (.await ticket) c w = some (r, w')) :
    w' = w ∧ (r = .ok true → f.applied = true) ∧
      (r = .ok false → f.refused = true) := by
  cases c with
  | answer => cases h
  | fail e =>
      cases h
      exact ⟨rfl, nofun, nofun⟩
  | failAfter e => cases h
  | reply done =>
      simp only [serve, hFlight] at h
      cases done with
      | true =>
          cases hNote : f.applied with
          | true =>
              simp only [hNote, if_true] at h
              cases h
              exact ⟨rfl, fun _ => rfl, nofun⟩
          | false => simp [hNote] at h
      | false =>
          cases hNote : f.refused with
          | true =>
              simp only [hNote] at h
              cases h
              exact ⟨rfl, nofun, fun _ => rfl⟩
          | false => simp [hNote] at h
  | fresh id => cases h

theorem serve_stamp
    {build : Uuid → Timestamp → Operation} {op : Operation}
    (h : serve t (.stamp build) c w = some (op, w')) :
    ∃ id, ¬ w.Drawn id ∧ op = build id w.now ∧
      w' = { w.draws t id with
        issued := w.issued ++
          [⟨op, t, w.calls t, w.holding t, w.basis t⟩] } := by
  cases c with
  | fresh id =>
      simp only [serve] at h
      split at h
      · cases h
      · rename_i hFresh
        cases h
        exact ⟨id, hFresh, rfl, rfl⟩
  | _ => cases h

theorem serve_draw
    {id : Uuid}
    (h : serve t .draw c w = some (id, w')) :
    ¬ w.Drawn id ∧ w' = w.draws t id := by
  cases c with
  | fresh id =>
      simp only [serve] at h
      split at h
      · cases h
      · rename_i hFresh
        cases h
        exact ⟨hFresh, rfl⟩
  | _ => cases h

theorem serve_prepare
    {change : Change} {r : Unit}
    (h : serve t (.prepare change) c w = some (r, w')) :
    w' = w.prepares t change := by
  cases c with
  | answer =>
      cases h
      rfl
  | _ => cases h

theorem serve_readReceipt
    {j : JournalId} {r : CoreResult Receipt}
    (h : serve t (.readReceipt j) c w = some (r, w')) :
    w' = w ∧ ∀ x, r = .ok x → x = (w.journals j).receipt := by
  cases c with
  | answer =>
      cases h
      refine ⟨rfl, ?_⟩
      intro x hx
      cases hx
      rfl
  | fail e =>
      cases h
      refine ⟨rfl, ?_⟩
      intro x hx
      cases hx
  | _ => cases h

/- A failed update may have replaced the file already. -/
theorem serve_updateReceipt
    {j : JournalId} {change : Receipt → Receipt}
    {r : CoreResult Unit}
    (h :
      serve t (.updateReceipt j change) c w = some (r, w')) :
    (r = .ok () ∧
        w' = w.setJournal j
          ⟨change (w.journals j).receipt,
            change (w.journals j).receipt⟩) ∨
      ∃ e, r = .error e ∧
        (w' = w ∨
          w' = w.setJournal j
            ⟨(w.journals j).receipt,
              change (w.journals j).receipt⟩) := by
  cases c with
  | answer =>
      cases h
      exact .inl ⟨rfl, rfl⟩
  | fail e =>
      cases h
      exact .inr ⟨e, rfl, .inl rfl⟩
  | failAfter e =>
      cases h
      exact .inr ⟨e, rfl, .inr rfl⟩
  | _ => cases h

------------------------------------------------------------
-- Reads and Writes
------------------------------------------------------------

variable {l : Type}
variable {clean : Prop}
variable {host : Host clean}

/- How the world answered a read of one object. -/
structure ReadAt
    (host : Host clean)
    (t : Tid)
    (key : Key)
    (r : CoreResult Body)
    (w : World) : Prop where
  answers : Answers w key r
  admitted :
    ∃ c w', host.admits t (.getObject key) c w ∧
      serve t (.getObject key) c w = some (r, w')

/- What is read is noted. -/
theorem mem_noteRead
    {body : Body}
    (h : w.store.objects.lookup key = some body) :
    w.readNote t key body ∈ (w.noteRead t key).reads := by
  unfold World.noteRead
  rw [h]
  exact List.mem_cons_self

variable {Q : CoreResult Body → l → World → Prop}

/- What a read of one object returns, at the moment `w₁`. -/
theorem meets_notedRead
    {v : l}
    (h :
      ∀ w₁ r w', Others t w w₁ → HostInv host w₁ →
        Others t w₁ w' → HostInv host w' →
        ReadAt host t key r w₁ →
        (∀ body, r = .ok body →
          w₁.readNote t key body ∈ w'.reads) →
        Q r v w') :
    LogMeets host t (getObject key) v Q w := by
  apply meets_call
  intro w₁ hRely hInv c r w₂ hAdmits hServe
  rcases serve_getObject hServe with ⟨hAnswers, hNext⟩
  have hRead : ReadAt host t key r w₁ :=
    ⟨hAnswers, c, w₂, hAdmits, hServe⟩
  rcases hNext with rfl | ⟨rfl, hError⟩
  · refine ⟨⟨⟨hInv.log.noteRead t key, host.same hInv.extra
      (sameData_noteRead w₁ t key)⟩,
      fun u _ => others_noteRead w₁ t u key⟩, ?_⟩
    intro w' hRely' hInv'
    apply h w₁ r w' hRely hInv
      ((others_noteRead w₁ t t key).trans hRely') hInv' hRead
    intro body hOk
    rw [hOk] at hAnswers
    exact hRely'.reads.subset (mem_noteRead hAnswers)
  · refine ⟨⟨hInv, fun u _ => .refl u w₂⟩, ?_⟩
    intro w' hRely' hInv'
    exact h w₂ r w' hRely hInv hRely' hInv' hRead
      fun body hOk => absurd hOk (hError body)

theorem meets_read
    {v : l}
    (h :
      ∀ w₁ r w', Others t w w₁ → HostInv host w₁ →
        Others t w₁ w' → HostInv host w' →
        ReadAt host t key r w₁ → Q r v w') :
    LogMeets host t (getObject key) v Q w :=
  meets_notedRead fun w₁ r w' h₁ hInv₁ h₂ hInv' hRead _ =>
    h w₁ r w' h₁ hInv₁ h₂ hInv' hRead

theorem serve_getObject_ok
    {body : Body}
    (h :
      serve t (.getObject key) c w = some (.ok body, w')) :
    c = .answer := by
  cases c with
  | answer => rfl
  | fail e =>
      simp only [serve] at h
      split at h
      · cases h
      · cases h
  | _ => cases h

theorem ReadAt.admitted_answer
    {body : Body}
    (h : ReadAt host t key (.ok body) w) :
    host.admits t (.getObject key) .answer w := by
  rcases h.admitted with ⟨c, _, hAdmits, hServe⟩
  rw [serve_getObject_ok hServe] at hAdmits
  exact hAdmits

/- How the world answered a HEAD of one object. -/
structure MetaAt
    (host : Host clean)
    (t : Tid)
    (key : Key)
    (r : CoreResult (ETag Body))
    (w : World) : Prop where
  answers : Answers w key (r.map ETag.body)
  admitted :
    ∃ c, host.admits t (.headObject key) c w ∧
      serve t (.headObject key) c w = some (r, w)

theorem meets_headObject
    {v : l}
    {Q : CoreResult (ETag Body) → l → World → Prop}
    (h :
      ∀ w₁ r w', Others t w w₁ → HostInv host w₁ →
        Others t w₁ w' → HostInv host w' →
        MetaAt host t key r w₁ → Q r v w') :
    LogMeets host t (headObject key) v Q w := by
  apply meets_call
  intro w₁ hRely hInv c r w₂ hAdmits hServe
  rcases serve_headObject hServe with ⟨rfl, hAnswers⟩
  refine ⟨⟨hInv, fun u _ => .refl u w₂⟩, ?_⟩
  intro w' hRely' hInv'
  exact h w₂ r w' hRely hInv hRely' hInv'
    ⟨hAnswers, c, hAdmits, hServe⟩

theorem MetaAt.admitted_answer
    {etag : ETag Body}
    (h : MetaAt host t key (.ok etag) w) :
    host.admits t (.headObject key) .answer w := by
  rcases h.admitted with ⟨c, hAdmits, hServe⟩
  cases c with
  | answer => exact hAdmits
  | fail e =>
      simp only [serve] at hServe
      split at hServe
      · cases hServe
      · cases hServe
  | _ => cases hServe

/- A missing object is an answer, not a failure. -/
theorem MetaAt.admitted_missing
    {message : String}
    (h : MetaAt host t key (.error (.notFound message)) w) :
    host.admits t (.headObject key) .answer w := by
  rcases h.admitted with ⟨c, hAdmits, hServe⟩
  cases c with
  | answer => exact hAdmits
  | fail e =>
      simp only [serve] at hServe
      split at hServe
      · cases hServe
      · rename_i hFound
        cases hServe
        exact absurd rfl hFound
  | _ => cases hServe

/- A write that this call of `t` has sent. -/
def SentBy
    (w : World)
    (t : Tid)
    (write : Write Key Body)
    (f : Flight Key Body Sender) : Prop :=
  f.write = write ∧ SentIn f t (w.calls t) ∧
    f.sender.basis = w.basis t

theorem SentBy.later
    {f f' : Flight Key Body Sender}
    (h : SentBy w t write f)
    (hOthers : Others t w w')
    (hLater : f.Later f') : SentBy w' t write f' :=
  ⟨hLater.write.trans h.1,
    by rw [SentIn, hLater.sender, hOthers.calls]; exact h.2.1,
    by rw [hLater.sender, hOthers.basis]; exact h.2.2⟩

/- What is known of a write once its answer is there. -/
def WriteDone
    (t : Tid)
    (write : Write Key Body)
    (r : CoreResult Bool)
    (w : World) : Prop :=
  ∃ f ∈ w.store.flights, SentBy w t write f ∧
    (r = .ok true → f.applied = true) ∧
    (r = .ok false → f.refused = true)

theorem WriteDone.later
    {r : CoreResult Bool}
    (h : WriteDone t write r w)
    (hOthers : Others t w w') : WriteDone t write r w' := by
  rcases h with ⟨f, hf, hSent, hApplied, hRefused⟩
  rcases hOthers.flights.mem hf with ⟨f', hf', hLater⟩
  exact ⟨f', hf', hSent.later hOthers hLater,
    fun hr => hLater.applied (hApplied hr),
    fun hr => hLater.refused (hRefused hr)⟩

theorem meets_write
    {v : l}
    {Q : CoreResult Bool → l → World → Prop}
    (hSend :
      ∀ w₁, Others t w w₁ → HostInv host w₁ →
        Protocol clean (Built w₁) write ∧
          (clean → Guarded w₁ write) ∧
          host.extra (w₁.sent t write))
    (h :
      ∀ r w', Others t w w' → HostInv host w' →
        WriteDone t write r w' → Q r v w') :
    LogMeets host t (S4Drive.write write) v Q w := by
  apply meets_bind
  apply meets_request
  intro w₁ hRely hInv c ticket w₂ _ hServe
  rcases serve_send hServe with ⟨rfl, rfl⟩
  rcases hSend w₁ hRely hInv with
    ⟨hProtocol, hGuarded, hExtra⟩
  refine ⟨⟨⟨hInv.log.send t hProtocol hGuarded, hExtra⟩,
    fun u _ => others_sent w₁ t u write⟩, ?_⟩
  intro w₃ hRely₃ _
  have hOthers₃ : Others t w w₃ :=
    hRely.trans ((others_sent w₁ t t write).trans hRely₃)
  have hSent :
      (w₁.sent t write).store.flights[
          w₁.store.flights.length]? =
        some ⟨write, w₁.sender t, false, false⟩ := by
    simp [World.sent, Store.send]
  rcases hRely₃.flights _ _ hSent with ⟨f, hf, hLater⟩
  have hFlight : SentBy w₃ t write f :=
    SentBy.later (w := w₁.sent t write)
      ⟨rfl, ⟨rfl, rfl⟩, rfl⟩ hRely₃ hLater
  apply meets_call
  intro w₄ hRely₄ hInv₄ c r w₅ _ hServe
  rcases hRely₄.flights _ f hf with ⟨f₄, hf₄, hLater₄⟩
  rcases serve_await hf₄ hServe with
    ⟨rfl, hApplied, hRefused⟩
  refine ⟨⟨hInv₄, fun u _ => .refl u w₅⟩, ?_⟩
  intro w' hRely' hInv'
  apply h r w' (hOthers₃.trans (hRely₄.trans hRely')) hInv'
  rcases hRely'.flights _ f₄ hf₄ with ⟨f', hf', hLater'⟩
  exact ⟨f', List.mem_of_getElem? hf',
    (hFlight.later hRely₄ hLater₄).later hRely' hLater',
    fun hr => hLater'.applied (hApplied hr),
    fun hr => hLater'.refused (hRefused hr)⟩

/- A write of the log itself. -/
theorem meets_logWrite
    {v : l}
    {Q : CoreResult Bool → l → World → Prop}
    (hKey : LogKey write.key)
    (hSend :
      ∀ w₁, Others t w w₁ → LogInv clean w₁ →
        Protocol clean (Built w₁) write ∧
          (clean → Guarded w₁ write))
    (h :
      ∀ r w', Others t w w' → LogInv clean w' →
        WriteDone t write r w' → Q r v w') :
    LogMeets host t (S4Drive.write write) v Q w := by
  apply meets_write
  · intro w₁ hRely hInv
    rcases hSend w₁ hRely hInv.log with ⟨hProtocol, hGuarded⟩
    exact ⟨hProtocol, hGuarded,
      host.sent hInv.log hInv.extra hKey⟩
  · intro r w' hRely hInv hDone
    exact h r w' hRely hInv.log hDone

------------------------------------------------------------
-- Loading the Head
------------------------------------------------------------

/- The head that a log knows was the newest at some time. -/
def LogKnows
    (v : OperationLog)
    (w : World) : Prop :=
  ∃ l, l <:+ w.headLog ∧ headOf l = v.currentHead

theorem LogKnows.mono
    {v : OperationLog}
    (h : LogKnows v w)
    (hGrows : Grows w w') : LogKnows v w' := by
  rcases h with ⟨l, hl, hHead⟩
  exact ⟨l, hl.trans hGrows.log, hHead⟩

/-
  A log that was `v` has read the head between `w` and `w'`:
  `w₁` is the moment of the read.
-/
structure HeadRead
    {clean : Prop}
    (host : Host clean)
    (t : Tid)
    (w w₁ w' : World)
    (v v' : OperationLog) : Prop where
  before : Others t w w₁
  after : Others t w₁ w'
  inv : LogInv clean w₁
  head : headOf w₁.headLog = v'.currentHead
  admitted :
    v'.currentHead ≠ none →
      host.admits t (.getObject .head) .answer w₁
  missing :
    v'.currentHead = none →
      host.admits t (.headObject .head) .answer w₁
  paired : clean → v'.Paired
  log :
    v' = v.setHead v'.currentHead v'.currentHeadEtag

variable {v v' : OperationLog}

theorem HeadRead.loaded
    {w₁ : World}
    (h : HeadRead host t w w₁ w' v v') :
    v'.headLoaded = true := by
  rw [h.log]
  rfl

theorem HeadRead.admitted_of_long
    {w₁ : World} {bound : Nat}
    (h : HeadRead host t w w₁ w' v v')
    (hLong : bound + 1 ≤ w₁.headLog.length) :
    host.admits t (.getObject .head) .answer w₁ := by
  apply h.admitted
  intro hNone
  rw [← h.head, headKey_eq_none_iff] at hNone
  rw [hNone] at hLong
  cases hLong

theorem HeadRead.knows
    {w₁ : World}
    (h : HeadRead host t w w₁ w' v v') :
    LogKnows v' w' :=
  ⟨w₁.headLog, h.after.log, h.head⟩

theorem HeadRead.later
    {w₁ w'' : World}
    (h : HeadRead host t w w₁ w' v v')
    (hOthers : Others t w' w'') :
    HeadRead host t w w₁ w'' v v' :=
  { h with after := h.after.trans hOthers }

/- Other threads leave what a read of the head tells. -/
theorem HeadRead.from
    {w₀ w₁ : World}
    (h : HeadRead host t w₀ w₁ w' v v')
    (hOthers : Others t w w₀) :
    HeadRead host t w w₁ w' v v' :=
  { h with before := hOthers.trans h.before }

/- Whatever a script does, it leaves the log alone or reads. -/
def HeadPost
    {clean : Prop}
    (host : Host clean)
    (t : Tid)
    (w : World)
    (v : OperationLog)
    {α : Type}
    (r : CoreResult α)
    (v' : OperationLog)
    (w' : World) : Prop :=
  Others t w w' ∧
    match r with
    | .ok _ => ∃ w₁, HeadRead host t w w₁ w' v v'
    | .error _ => v' = v

/- The body of the head pointer names the newest head. -/
theorem LogInv.head_of_lookup
    (h : LogInv clean w)
    {body : Body}
    (hBody : w.store.objects.lookup .head = some body) :
    ∃ id, body = .head (some id) ∧
      headOf w.headLog = some id := by
  rw [h.basic.pointer] at hBody
  rcases Option.map_eq_some_iff.mp hBody with ⟨id, hId, rfl⟩
  exact ⟨id, rfl, hId⟩

theorem LogInv.head_of_missing
    (h : LogInv clean w)
    (hNone : w.store.objects.lookup .head = none) :
    headOf w.headLog = none := by
  rw [h.basic.pointer] at hNone
  exact Option.map_eq_none_iff.mp hNone

/- On a chain the head never comes back. -/
theorem LogInv.head_between
    {w₁ w₂ w₃ : World}
    (h : LogInv clean w₃)
    (hClean : clean)
    (h₁₂ : Grows w₁ w₂)
    (h₂₃ : Grows w₂ w₃)
    (hHead : headOf w₁.headLog = headOf w₃.headLog) :
    headOf w₂.headLog = headOf w₃.headLog := by
  have hChain := (h.linear hClean).chain
  have hSame : w₁.headLog = w₃.headLog :=
    suffix_unique hChain.nodup (h₁₂.log.trans h₂₃.log)
      List.suffix_rfl hHead
  have hBetween : w₂.headLog <:+ w₁.headLog := by
    rw [hSame]
    exact h₂₃.log
  have hLength : w₁.headLog.length = w₂.headLog.length :=
    Nat.le_antisymm h₁₂.log.length_le hBetween.length_le
  rw [← h₁₂.log.eq_of_length hLength, hSame]

namespace OperationLog

theorem loadHead_meets
    {v : OperationLog} :
    LogMeets host t loadHead v
      (HeadPost host t w v) w := by
  unfold loadHead
  apply meets_bind
  apply meets_attempt
  apply meets_headObject
  intro w₁ before w₁' h₀₁ hInv₁ h₁₁' _ hBefore
  cases before with
  | ok metaBefore =>
      apply meets_bind
      apply meets_read
      intro w₂ data w₂' h₁₂ hInv₂ h₂₂' _ hData
      have hOthers₂ := (h₀₁.trans h₁₁').trans h₁₂
      cases data with
      | error e => exact ⟨hOthers₂.trans h₂₂', rfl⟩
      | ok data =>
          apply meets_bind
          apply meets_headObject
          intro w₃ after w₃' h₂₃ hInv₃ h₃₃' _ hAfter
          have hOthers₃ := h₂₂'.trans (h₂₃.trans h₃₃')
          cases after with
          | error e => exact ⟨hOthers₂.trans hOthers₃, rfl⟩
          | ok metaAfter =>
              simp only [Continues]
              split
              · apply meets_throw
                intro w' hRely _
                exact ⟨hOthers₂.trans
                  (hOthers₃.trans hRely), rfl⟩
              · rename_i hSame
                rw [ne_eq, not_not] at hSame
                rcases hInv₂.log.head_of_lookup hData.answers with
                  ⟨id, rfl, hHead⟩
                apply meets_bind
                apply meets_modify
                intro w₄ h₃₄ _
                apply meets_pure
                intro w' h₄' _
                have hAfter₂ : Others t w₂ w' :=
                  hOthers₃.trans (h₃₄.trans h₄')
                refine ⟨hOthers₂.trans hAfter₂, w₂, hOthers₂,
                  hAfter₂, hInv₂.log, hHead,
                  fun _ => hData.admitted_answer, nofun, ?_,
                  rfl⟩
                -- Equal ETags around the read: no change.
                intro hClean
                rcases hInv₁.log.head_of_lookup hBefore.answers
                  with ⟨first, hFirst, hHead₁⟩
                rcases hInv₃.log.head_of_lookup hAfter.answers
                  with ⟨last, hLast, hHead₃⟩
                have hEnds : first = last := by
                  rw [hSame, hLast] at hFirst
                  simpa using hFirst.symm
                subst hEnds
                have hBetween := hInv₃.log.head_between hClean
                  (h₁₁'.trans h₁₂).toGrows
                  (h₂₂'.trans h₂₃).toGrows
                  (hHead₁.trans hHead₃.symm)
                have hId : id = first := by
                  rw [hHead, hHead₃] at hBetween
                  exact Option.some.inj hBetween
                subst hId
                have hEtag : metaAfter = headEtag id := by
                  cases metaAfter
                  exact congrArg ETag.mk hLast
                rw [hEtag]
                rfl
  | error e =>
      cases e with
      | notFound message =>
          apply meets_bind
          apply meets_modify
          intro w₂ h₁₂ _
          apply meets_pure
          intro w' h₂' _
          have hAfter := h₁₁'.trans (h₁₂.trans h₂')
          exact ⟨h₀₁.trans hAfter, w₁, h₀₁, hAfter, hInv₁.log,
            hInv₁.log.head_of_missing hBefore.answers, nofun,
            fun _ => hBefore.admitted_missing, fun _ => rfl,
            rfl⟩
      | _ =>
          apply meets_throw
          intro w' hRely _
          exact ⟨h₀₁.trans (h₁₁'.trans hRely), rfl⟩

theorem loadHeadRounds_meets
    {v : OperationLog}
    (rounds : Nat) :
    LogMeets host t (loadHeadRounds rounds) v
      (HeadPost host t w v) w := by
  induction rounds generalizing w with
  | zero =>
      apply meets_throw
      intro w' hRely _
      exact ⟨hRely, rfl⟩
  | succ rounds ih =>
      unfold loadHeadRounds
      apply meets_bind
      apply meets_attempt
      apply Meets.mono loadHead_meets
      rintro r v' w₁ ⟨hOthers, hPost⟩
      cases r with
      | ok head =>
          rcases hPost with ⟨w₂, hRead⟩
          apply meets_pure
          intro w' hRely _
          exact ⟨hOthers.trans hRely, w₂, hRead.later hRely⟩
      | error e =>
          simp only at hPost
          subst hPost
          have failed :
              ∀ e : CoreError,
                LogMeets host t
                  (Script.throw e : LogM Unit) v'
                  (HeadPost host t w v') w₁ := by
            intro e
            apply meets_throw
            intro w' hRely _
            exact ⟨hOthers.trans hRely, rfl⟩
          cases e with
          | conflict reason =>
              simp only [Continues]
              split
              · exact failed _
              · apply Meets.mono ih
                rintro r v'' w' ⟨hOthers', hPost'⟩
                refine ⟨hOthers.trans hOthers', ?_⟩
                cases r with
                | ok _ =>
                    rcases hPost' with ⟨w₂, hRead⟩
                    exact ⟨w₂, { hRead with
                      before := hOthers.trans hRead.before }⟩
                | error e => exact hPost'
          | _ => exact failed _

theorem loadHeadConsistent_meets
    {v : OperationLog} :
    LogMeets host t loadHeadConsistent v
      (HeadPost host t w v) w :=
  loadHeadRounds_meets maxHeadLoadAttempts

/- What goes on from a head that has been read. -/
theorem meets_loadHead
    {α : Type} {f : Unit → LogM α} {v : OperationLog}
    {Q : CoreResult α → OperationLog → World → Prop}
    (hFailed :
      ∀ e w', Others t w w' → Q (.error e) v w')
    (h :
      ∀ v' w₁ w', Others t w w' →
        HeadRead host t w w₁ w' v v' →
        LogMeets host t (f ()) v' Q w') :
    LogMeets host t (loadHeadConsistent >>= f) v Q w := by
  apply meets_bind
  apply Meets.mono loadHeadConsistent_meets
  rintro r v' w' ⟨hOthers, hLoad⟩
  cases r with
  | error e =>
      simp only at hLoad
      subst hLoad
      apply continues_error
      exact hFailed e w' hOthers
  | ok _ =>
      rcases hLoad with ⟨w₁, hRead⟩
      apply continues_ok
      exact h v' w₁ w' hOthers hRead

end OperationLog

end S4Drive

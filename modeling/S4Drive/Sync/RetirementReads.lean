import S4Drive.Sync.MaintenanceSystem

/-
  A deletion record is retired only where its file is judged
  the same without it. The walk along the chain reads one
  operation after the other while the compactor removes
  them; an operation that goes can only end the search.

  Main declarations:
    * `Answered`, `getObject_answers`
    * `LeadsTo`, `Clears`
    * `latestOnTarget_judges`
    * `collectExpiredTombstoneAt_transparent`
-/

------------------------------------------------------------
-- What a Retirement Reads
------------------------------------------------------------

namespace S4Drive

open ObjectStore Concurrency

variable {l α : Type}
variable {b b' b'' : Bucket}
variable {fileId : FileId}
variable {v : l}
variable {t : Tid}

/- A script of maintenance only lets the bucket shrink. -/
theorem meets_shrinks
    {x : CloudM l α}
    {Q : CoreResult α → l → Bucket → Prop}
    (hx :
      Meets maintenanceMachine maintenanceContract t x v Q b) :
    Meets maintenanceMachine maintenanceContract t x v
      (fun r v' b' => Q r v' b' ∧ Shrinks b b') b :=
  wp_relates Shrinks.trans (fun _ _ _ hRely => hRely)
    (Nat.succ_ne_self t) (.refl b) hx

/- What an answer says about an object. -/
def Answered
    (b : Bucket)
    (key : Key) : CoreResult Body → Prop
  | .ok body => b.objects.lookup key = some body
  | .error e =>
      e.isNotFound = true → b.objects.lookup key = none

/- The same at a moment between two worlds. -/
def AnsweredBetween
    (b : Bucket)
    (key : Key)
    (r : CoreResult Body)
    (b' : Bucket) : Prop :=
  ∃ b₁, Shrinks b b₁ ∧ Shrinks b₁ b' ∧ Answered b₁ key r

theorem answered_read (b : Bucket) (key : Key) :
    Answered b key (b.read key) := by
  unfold Answered Bucket.read
  cases b.objects.lookup key with
  | some body => rfl
  | none => exact fun _ => rfl

theorem getObject_answers (key : Key) :
    Meets maintenanceMachine maintenanceContract t
      (getObject key) v
      (fun r _ b' => AnsweredBetween b key r b') b := by
  apply meets_call
  intro b₁ hFirst _ choice x b₂ hMay hServe
  have hStep :=
    serve_plain (r := .getObject key) trivial hMay hServe
  refine ⟨⟨trivial, fun _ _ => hStep⟩, ?_⟩
  intro b₃ hLater _
  refine ⟨b₁, hFirst, hStep.trans hLater, ?_⟩
  cases choice with
  | answer =>
      cases hServe
      exact answered_read b₁ key
  | fail e =>
      unfold maintenanceMachine serveMaintenance at hServe
      dsimp only at hServe
      split at hServe
      · cases hServe
      · rename_i hFound
        cases hServe
        exact fun h => absurd h hFound
  | _ => cases hServe

theorem headObject_answers (key : Key) :
    Meets maintenanceMachine maintenanceContract t
      (headObject key) v
      (fun r _ b' =>
        AnsweredBetween b key (r.map ETag.body) b') b := by
  apply meets_call
  intro b₁ hFirst _ choice x b₂ hMay hServe
  have hStep :=
    serve_plain (r := .headObject key) trivial hMay hServe
  refine ⟨⟨trivial, fun _ _ => hStep⟩, ?_⟩
  intro b₃ hLater _
  refine ⟨b₁, hFirst, hStep.trans hLater, ?_⟩
  unfold maintenanceMachine serveMaintenance at hServe
  cases choice with
  | answer =>
      dsimp only at hServe
      split at hServe
      · rename_i body hFound
        cases hServe
        exact hFound
      · rename_i hNone
        cases hServe
        exact fun _ => hNone
  | fail e =>
      dsimp only at hServe
      split at hServe
      · cases hServe
      · rename_i hFound
        cases hServe
        exact fun h => absurd h hFound
  | _ => cases hServe

/- The record of the file can be read, if it is there. -/
def Readable (b : Bucket) (fileId : FileId) : Prop :=
  b.objects.lookup (.tombstone fileId) = none ∨
    Recorded b.objects fileId

theorem Readable.later
    (h : Readable b fileId)
    (hRely : Shrinks b b') : Readable b' fileId := by
  unfold Readable Recorded
  rcases hRely.records fileId with hSame | hGone
  · rw [hSame]
    exact h
  · exact .inl hGone

namespace TombstoneManager

theorem getTombstone_readable (fileId : FileId) :
    Meets maintenanceMachine maintenanceContract t
      (getTombstone fileId) v
      (fun r _ b' => ∀ x, r = .ok x → Readable b' fileId)
      b := by
  apply (getObject_answers (.tombstone fileId)).bind
  · intro data v' b₁ hData
    apply meets_ofExcept
    intro b₂ hRely _ x hOk
    rcases hData with ⟨b₀, _, hLater, hFound⟩
    have hBody : ∃ tombstone, data = .tombstone tombstone := by
      cases data with
      | tombstone tombstone => exact ⟨tombstone, rfl⟩
      | _ => cases hOk
    rcases hBody with ⟨tombstone, rfl⟩
    have hThen : Readable b₀ fileId := .inr ⟨tombstone, hFound⟩
    exact hThen.later (hLater.trans hRely)
  · exact fun _ _ _ _ _ hOk => nomatch hOk

theorem getTombstoneVersion_readable (fileId : FileId) :
    Meets maintenanceMachine maintenanceContract t
      (getTombstoneVersion fileId) v
      (fun r _ b' => ∀ x, r = .ok x → Readable b' fileId)
      b := by
  unfold getTombstoneVersion
  generalize maxVersionReads = rounds
  induction rounds generalizing v b with
  | zero =>
      exact meets_throw fun _ _ _ _ hOk => nomatch hOk
  | succ rounds ih =>
      apply (headObject_answers (.tombstone fileId)).bind
      · intro before v₁ b₁ _
        apply (getTombstone_readable fileId).bind
        · intro tombstone v₂ b₂ hReadable
          have hThen := hReadable tombstone rfl
          apply (headObject_answers (.tombstone fileId)).bind
          · intro after v₃ b₃ hAfter
            rcases hAfter with ⟨b₄, hFirst, hLater, _⟩
            have hNow := hThen.later (hFirst.trans hLater)
            split
            · split
              · exact meets_throw fun _ _ _ _ hOk => nomatch hOk
              · apply meets_pure
                exact fun _ hRely _ _ _ => hNow.later hRely
            · exact ih
          · exact fun _ _ _ _ _ hOk => nomatch hOk
        · exact fun _ _ _ _ _ hOk => nomatch hOk
      · exact fun _ _ _ _ _ hOk => nomatch hOk

end TombstoneManager

/- The tree does not list the file where it is not live. -/
theorem isLive_reads (fileId : FileId) :
    Meets maintenanceMachine maintenanceContract t
      (isLive fileId) v
      (fun r _ b' =>
        r = .ok false →
          b'.objects.lookup (.tree fileId) = none) b := by
  have hEntry :
      Meets maintenanceMachine maintenanceContract t
        (FileTree.getEntry fileId) v
        (fun r _ b' =>
          ∀ reason, r = .error (.notFound reason) →
            b'.objects.lookup (.tree fileId) = none) b := by
    apply (getObject_answers (.tree fileId)).bind
    · intro data v' b₁ _
      apply meets_ofExcept
      intro b₂ _ _ reason hError
      cases data with
      | _ => cases hError
    · intro e v' b₁ hAnswer reason hError
      cases hError
      rcases hAnswer with ⟨b₀, _, hLater, hNone⟩
      rw [hLater.tree]
      exact hNone rfl
  apply meets_bind
  apply meets_attempt
  apply hEntry.mono
  intro r v' b₁ hNone
  apply continues_ok
  split
  · exact meets_pure fun _ _ _ hFalse => nomatch hFalse
  · apply meets_pure
    intro b₂ hRely _ _
    rw [hRely.tree]
    exact hNone _ rfl
  · exact meets_throw fun _ _ _ hFalse => nomatch hFalse

------------------------------------------------------------
-- The Walk of a Retirement
------------------------------------------------------------

/-
  Whatever goes from now on, the search for the newest
  operation on the file comes to nothing or to the cursor.
-/
def LeadsTo
    (b : Bucket)
    (fileId : FileId)
    (rounds : Nat)
    (cursor : OpId) : Prop :=
  ∀ b', Shrinks b b' →
    latestKept b'.objects fileId = .absent ∨
      latestKept b'.objects fileId =
        searchFrom b'.objects fileId rounds cursor

variable {rounds : Nat}

theorem LeadsTo.later
    {cursor : OpId}
    (h : LeadsTo b fileId rounds cursor)
    (hRely : Shrinks b b') : LeadsTo b' fileId rounds cursor :=
  fun b'' hLater => h b'' (hRely.trans hLater)

/- The walk starts at head. -/
theorem leads_of_head
    {head : OpId}
    (hHead : b.objects.lookup .head = some (.head (some head))) :
    LeadsTo b fileId maxDurableWalkOps head := by
  intro b' hRely
  right
  unfold latestKept
  rw [hRely.head, hHead]

/- An operation on another file leads to its base. -/
theorem LeadsTo.next
    {cursor previous : OpId} {op : Operation}
    (h : LeadsTo b fileId (rounds + 1) cursor)
    (hOp : b.objects.lookup (.op cursor) = some (.operation op))
    (hName : op.opId = cursor)
    (hTarget : op.targetFileId ≠ some fileId)
    (hBase : op.baseHead = some previous) :
    LeadsTo b fileId rounds previous := by
  intro b' hRely
  rcases h b' hRely with hAbsent | hCursor
  · exact .inl hAbsent
  · rcases hRely.ops cursor with hSame | hGone
    · right
      rw [hCursor]
      simp [searchFrom, hSame, hOp, hName, hTarget, hBase]
    · left
      rw [hCursor]
      unfold searchFrom
      rw [hGone]

theorem Unneeded.of_live
    (hReadable : Readable b fileId)
    (hLive : (latestKept b.objects fileId).Live) :
    Unneeded b fileId := by
  intro hListed
  apply (visible_iff hListed).mpr
  exact hReadable.imp_right fun hRecorded => ⟨hRecorded, hLive⟩

/- The walk ends with a search that does not delete. -/
theorem LeadsTo.unneeded
    {cursor : OpId}
    (h : LeadsTo b fileId rounds cursor)
    (hReadable : Readable b fileId)
    (hEnd : (searchFrom b.objects fileId rounds cursor).Live) :
    Unneeded b fileId := by
  apply Unneeded.of_live hReadable
  rcases h b (.refl b) with hAbsent | hCursor
  · rw [hAbsent]
    trivial
  · rw [hCursor]
    exact hEnd

/- What an outcome of the search says about the record. -/
def Clears
    (b : Bucket)
    (fileId : FileId) : Option Operation → Prop
  | some op => op.effects.deleted = false → Unneeded b fileId
  | none => Unneeded b fileId

theorem Clears.later
    {latest : Option Operation}
    (h : Clears b fileId latest)
    (hRely : Shrinks b b') : Clears b' fileId latest := by
  cases latest with
  | some op => exact fun hLive => (h hLive).later hRely
  | none => exact Unneeded.later h hRely

def ChainSearch.operation : ChainSearch → Option Operation
  | .found op _ => some op
  | _ => none

namespace OperationLog

/- What the log knows of head is still true. -/
def HeadIs (b : Bucket) (log : OperationLog) : Prop :=
  match log.currentHead with
  | some head =>
      b.objects.lookup .head = some (.head (some head))
  | none => b.objects.lookup .head = none

variable {log : OperationLog}

theorem HeadIs.later
    (h : HeadIs b log)
    (hRely : Shrinks b b') : HeadIs b' log := by
  unfold HeadIs at h ⊢
  rw [hRely.head]
  exact h

theorem loadHead_reads (log : OperationLog) :
    Meets maintenanceMachine maintenanceContract t
      loadHead log
      (fun r log' b' => ∀ x, r = .ok x → HeadIs b' log')
      b := by
  apply meets_bind
  apply meets_attempt
  apply (headObject_answers .head).mono
  intro r log₁ b₁ hBefore
  apply continues_ok
  cases r with
  | ok metaBefore =>
      dsimp only
      apply (getObject_answers .head).bind
      · intro data log₂ b₂ hData
        rcases hData with ⟨b₀, _, hLater, hFound⟩
        apply (headObject_answers .head).bind
        · intro metaAfter log₃ b₃ hAfter
          rcases hAfter with ⟨b₄, hFirst, hThen, _⟩
          have hHead : b₃.objects.lookup .head = some data := by
            rw [hThen.head, hFirst.head, hLater.head]
            exact hFound
          split
          · exact meets_throw fun _ _ _ _ hOk => nomatch hOk
          · split
            · apply meets_bind
              apply meets_modify
              intro b₅ hRely _
              apply continues_ok
              apply meets_pure
              intro b₆ hRely' _ _ _
              unfold HeadIs setHead
              dsimp only
              rw [hRely'.head, hRely.head]
              exact hHead
            · exact meets_throw fun _ _ _ _ hOk => nomatch hOk
            · exact meets_throw fun _ _ _ _ hOk => nomatch hOk
        · exact fun _ _ _ _ _ hOk => nomatch hOk
      · exact fun _ _ _ _ _ hOk => nomatch hOk
  | error e =>
      split
      · contradiction
      · rename_i reason hError
        cases hError
        rcases hBefore with ⟨b₀, _, hLater, hNone⟩
        apply meets_bind
        apply meets_modify
        intro b₂ hRely _
        apply continues_ok
        apply meets_pure
        intro b₃ hRely' _ _ _
        unfold HeadIs setHead
        dsimp only
        rw [hRely'.head, hRely.head, hLater.head]
        exact hNone rfl
      · exact meets_throw fun _ _ _ _ hOk => nomatch hOk

theorem loadHeadConsistent_reads (log : OperationLog) :
    Meets maintenanceMachine maintenanceContract t
      loadHeadConsistent log
      (fun r log' b' => ∀ x, r = .ok x → HeadIs b' log')
      b := by
  unfold loadHeadConsistent
  generalize maxHeadLoadAttempts = rounds
  induction rounds generalizing log b with
  | zero =>
      exact meets_throw fun _ _ _ _ hOk => nomatch hOk
  | succ rounds ih =>
      apply meets_bind
      apply meets_attempt
      apply (loadHead_reads log).mono
      intro r log₁ b₁ hHead
      apply continues_ok
      split
      · apply meets_pure
        intro b₂ hRely _ _ _
        exact (hHead _ rfl).later hRely
      · split
        · exact meets_throw fun _ _ _ _ hOk => nomatch hOk
        · exact ih log₁
      · exact meets_throw fun _ _ _ _ hOk => nomatch hOk

theorem readOperation_answers
    (log : OperationLog)
    (opId : OpId) :
    Meets maintenanceMachine maintenanceContract t
      (readOperation opId) log
      (fun r _ b' =>
        ∃ b₁, Shrinks b b₁ ∧ Shrinks b₁ b' ∧
          match r with
          | .ok op =>
              b₁.objects.lookup (.op opId) =
                some (.operation op)
          | .error e =>
              ∀ reason, e = .notFound reason →
                b₁.objects.lookup (.op opId) = none) b := by
  apply (getObject_answers (.op opId)).bind
  · intro data log' b₁ hData
    rcases hData with ⟨b₀, hFirst, hLater, hFound⟩
    apply meets_ofExcept
    intro b₂ hRely _
    refine ⟨b₀, hFirst, hLater.trans hRely, ?_⟩
    cases data with
    | operation op => exact hFound
    | _ => exact fun _ hError => nomatch hError
  · rintro e log' b₁ ⟨b₀, hFirst, hLater, hNone⟩
    refine ⟨b₀, hFirst, hLater, ?_⟩
    rintro reason rfl
    exact hNone rfl

/- The walk to the newest operation on a file. -/
theorem searchChainWalk_judges
    {cursor : OpId} {foreign : Option OpId}
    (hReadable : Readable b fileId)
    (hLeads : LeadsTo b fileId rounds cursor) :
    Meets maintenanceMachine maintenanceContract t
      (searchChainWalk fileId
        (fun op => op.targetFileId = some fileId && true)
        (fun _ => false) rounds foreign cursor) log
      (fun r _ b' =>
        ∀ search, r = .ok search →
          Clears b' fileId search.operation) b := by
  induction rounds generalizing b cursor foreign log with
  | zero =>
      apply meets_pure
      intro b₁ hRely _ search hOk
      cases hOk
      exact (hLeads.unneeded hReadable trivial).later hRely
  | succ rounds ih =>
      unfold searchChainWalk
      apply meets_bind
      apply meets_attempt
      apply (readOperation_answers log cursor).mono
      rintro r log₁ b₁ ⟨b₀, hFirst, hLater, hFound⟩
      have hLeads₀ := hLeads.later hFirst
      have hReadable₀ := hReadable.later hFirst
      apply continues_ok
      split
      · rename_i op
        dsimp only at hFound
        split
        · exact meets_throw fun _ _ _ _ hOk => by cases hOk
        · rename_i hName
          rw [not_not] at hName
          split
          · rename_i hTarget
            have hEnd :
                searchFrom b₀.objects fileId (rounds + 1)
                  cursor = .found op := by
              have hTarget' :
                  op.targetFileId = some fileId := by
                simpa using hTarget
              simp [searchFrom, hFound, hName, hTarget']
            apply meets_pure
            intro b₂ hRely _ search hOk
            cases hOk
            intro hLive
            have hThen : Unneeded b₀ fileId := by
              apply hLeads₀.unneeded hReadable₀
              rw [hEnd]
              exact hLive
            exact hThen.later (hLater.trans hRely)
          · rename_i hOther
            have hTarget : op.targetFileId ≠ some fileId := by
              simpa using hOther
            split
            · contradiction
            · dsimp only
              split
              · rename_i hBase
                have hEnd :
                    searchFrom b₀.objects fileId (rounds + 1)
                      cursor = .absent := by
                  simp [searchFrom, hFound, hName, hTarget,
                    hBase]
                apply meets_pure
                intro b₂ hRely _ search hOk
                cases hOk
                have hThen : Unneeded b₀ fileId := by
                  apply hLeads₀.unneeded hReadable₀
                  rw [hEnd]
                  trivial
                exact hThen.later (hLater.trans hRely)
              · rename_i previous hBase
                have hNext :=
                  hLeads₀.next hFound hName hTarget hBase
                exact ih (hReadable₀.later hLater)
                  (hNext.later hLater)
      · have hEnd :
            searchFrom b₀.objects fileId (rounds + 1) cursor =
              .absent := by
          simp [searchFrom, hFound _ rfl]
        apply meets_pure
        intro b₂ hRely _ search hOk
        cases hOk
        have hThen : Unneeded b₀ fileId := by
          apply hLeads₀.unneeded hReadable₀
          rw [hEnd]
          trivial
        exact hThen.later (hLater.trans hRely)
      · exact meets_throw fun _ _ _ _ hOk => by cases hOk

theorem searchChain_judges
    (hReadable : Readable b fileId)
    (hHead : HeadIs b log) :
    Meets maintenanceMachine maintenanceContract t
      (searchChain fileId
        (fun op => op.targetFileId = some fileId && true)
        (fun _ => false)) log
      (fun r _ b' =>
        ∀ search, r = .ok search →
          Clears b' fileId search.operation) b := by
  unfold searchChain
  apply meets_get_bind
  unfold HeadIs at hHead
  split at hHead
  · rename_i head hKnown
    rw [hKnown]
    exact searchChainWalk_judges hReadable
      (leads_of_head hHead)
  · rename_i hKnown
    rw [hKnown]
    apply meets_pure
    intro b₁ hRely _ search hOk
    cases hOk
    have hThen : Unneeded b fileId := by
      apply Unneeded.of_live hReadable
      unfold latestKept
      rw [hHead]
      trivial
    exact hThen.later hRely

theorem latestOnTarget_judges
    (log : OperationLog)
    (hReadable : Readable b fileId) :
    Meets maintenanceMachine maintenanceContract t
      (latestOnTarget fileId) log
      (fun r _ b' =>
        ∀ latest, r = .ok latest → Clears b' fileId latest)
      b := by
  unfold latestOnTarget latestMatching
  apply (meets_shrinks (loadHeadConsistent_reads log)).bind
  · rintro _ log₁ b₁ ⟨hHead, hShrinks⟩
    have hSearch :=
      searchChain_judges (t := t) (hReadable.later hShrinks)
        (hHead _ rfl)
    apply hSearch.bind
    · intro search log₂ b₂ hClears
      have hFound := hClears search rfl
      split
      · apply meets_pure
        intro b₃ hRely _ latest hOk
        cases hOk
        exact Clears.later hFound hRely
      · rename_i hOther
        apply meets_pure
        intro b₃ hRely _ latest hOk
        cases hOk
        cases search with
        | found op superseded => exact (hOther _ _ rfl).elim
        | _ => exact Clears.later hFound hRely
    · exact fun _ _ _ _ _ hOk => nomatch hOk
  · exact fun _ _ _ _ _ hOk => nomatch hOk

end OperationLog

/- The record goes when its file is judged without it. -/
theorem deleteRecord_keeps
    {choice : Choice} {etag : ETag Body} {x : Nat}
    (hUnneeded : Unneeded b fileId)
    (hServe :
      serveMaintenance
        (.send (.deleteIfMatch (.tombstone fileId) etag))
        choice b = some (x, b')) :
    Shrinks b b' := by
  unfold serveMaintenance at hServe
  cases choice with
  | answer =>
      dsimp only at hServe
      split at hServe
      · cases hServe
        exact shrinks_deleteRecord hUnneeded
      · cases hServe
        exact .refl b
  | fail e =>
      cases hServe
      exact .refl b
  | _ => cases hServe

theorem deleteRecord_transparent
    {etag : ETag Body}
    (hUnneeded : Unneeded b fileId) :
    Meets maintenanceMachine maintenanceContract t
      (deleteIfMatch (.tombstone fileId) etag) v
      (fun _ _ _ => True) b := by
  apply meets_bind
  apply meets_request
  intro b₁ hRely _ choice x b₂ _ hServe
  have hStep :=
    deleteRecord_keeps (hUnneeded.later hRely) hServe
  refine ⟨⟨trivial, fun _ _ => hStep⟩, ?_⟩
  intro b₃ _ _
  apply continues_ok
  exact Transparent.call (r := .await x) trivial t v b₃

/- No reason to keep a record that hides its file. -/
theorem unneeded_of_keepReason
    {latest : Option Operation} {live : Bool}
    (hLive :
      live = false →
        b.objects.lookup (.tree fileId) = none)
    (hClears : Clears b fileId latest)
    (hKeep : keepReason latest live = none) :
    Unneeded b fileId := by
  cases latest with
  | none => exact hClears
  | some op =>
      cases hDeleted : op.effects.deleted with
      | false => exact hClears hDeleted
      | true =>
          cases live with
          | false =>
              rintro ⟨entry, hEntry, _⟩
              rw [hLive rfl] at hEntry
              cases hEntry
          | true => simp [keepReason, hDeleted] at hKeep

theorem retireExpired_transparent
    {time : Timestamp} {version : TombstoneVersion}
    (hReadable : Readable b fileId) :
    Meets maintenanceMachine maintenanceContract t
      (retireExpired fileId time version) v
      (fun _ _ _ => True) b := by
  unfold retireExpired
  split
  · exact meets_pure fun _ _ _ => trivial
  · apply (meets_shrinks (isLive_reads fileId)).bind
    · rintro live v₁ b₁ ⟨hLive, hShrinks⟩
      have hSearch :
          Meets maintenanceMachine maintenanceContract t
            (onLog (OperationLog.new 0 0)
              (OperationLog.latestOnTarget fileId)) v₁
            (fun r _ b' =>
              ∀ latest, r = .ok latest →
                Clears b' fileId latest) b₁ := by
        apply Meets.onLog
        · exact OperationLog.latestOnTarget_judges _
            (hReadable.later hShrinks)
        · exact fun _ _ _ h => h
      apply (meets_shrinks hSearch).bind
      · rintro latest v₂ b₂ ⟨hClears, hLater⟩
        split
        · exact meets_pure fun _ _ _ => trivial
        · rename_i hKeep
          have hUnneeded : Unneeded b₂ fileId := by
            apply unneeded_of_keepReason _ _ hKeep
            · rintro rfl
              rw [hLater.tree]
              exact hLive rfl
            · exact hClears latest rfl
          apply (deleteRecord_transparent hUnneeded).bind
          · intro retired v₃ b₃ _
            split
            · exact meets_pure fun _ _ _ => trivial
            · exact meets_pure fun _ _ _ => trivial
          · exact fun _ _ _ _ => trivial
      · exact fun _ _ _ _ => trivial
    · exact fun _ _ _ _ => trivial

theorem collectExpiredTombstoneAt_transparent
    (fileId : FileId)
    (time : Timestamp) :
    Transparent
      (collectExpiredTombstoneAt fileId time :
        CloudM l TombstoneCleanup) := by
  intro t
  unfold collectExpiredTombstoneAt
  apply Safe.bind
  · exact Transparent.call
      (r := .prepare (.cleanupOf fileId)) trivial t
  · intro _ v b
    apply meets_bind
    apply meets_attempt
    apply (TombstoneManager.getTombstoneVersion_readable
      fileId).mono
    intro r v₁ b₁ hReadable
    apply continues_ok
    split
    · exact meets_pure fun _ _ _ => trivial
    · exact meets_pure fun _ _ _ => trivial
    · exact meets_pure fun _ _ _ => trivial
    · exact meets_throw fun _ _ _ => trivial
    · exact retireExpired_transparent (hReadable _ rfl)

end S4Drive

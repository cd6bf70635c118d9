import S4Drive.Metadata.LogSpecs
import S4Drive.Metadata.Tree

/-
  What the functions on tree entries and deletion records do
  under the contract of the log. None of them touches the
  log; a write asks the host whether it may be sent.

  Main declarations:
    * `Sendable`, `meets_plainWrite`
    * `EntryAt`, `getEntry_meets`
    * `upsertEntry_meets`, `deleteEntry_meets`
    * `getEntryVersionRounds_meets`, `putEntryIf_meets`
    * `getTombstone_meets`, `createTombstone_meets`
-/

------------------------------------------------------------
-- Plain Writes
------------------------------------------------------------

namespace S4Drive

open ObjectStore Concurrency ChainLog

variable {l : Type}
variable {clean : Prop}
variable {host : Host clean}
variable {t : Tid} {w w' : World}

/- The host lets `t` send the write at any later moment. -/
def Sendable
    (host : Host clean)
    (t : Tid)
    (w : World)
    (write : Write Key Body) : Prop :=
  ∀ w₁, Others t w w₁ → HostInv host w₁ →
    host.extra (w₁.sent t write)

variable {write : Write Key Body}

theorem Sendable.later
    (h : Sendable host t w write)
    (hOthers : Others t w w') : Sendable host t w' write :=
  fun w₁ hLater => h w₁ (hOthers.trans hLater)

theorem protocol_plain
    {built : Operation → Prop}
    (hKey : ¬ LogKey write.key) :
    Protocol clean built write := by
  apply Protocol.other
  · intro hHead
    rw [hHead] at hKey
    exact hKey trivial
  · intro id hOp
    rw [hOp] at hKey
    exact hKey trivial

theorem guarded_plain
    (hKey : ¬ LogKey write.key) : Guarded w write := by
  have noHead : ∀ id, ¬ HeadWrite id write := by
    intro id hHead
    rw [hHead.key] at hKey
    exact hKey trivial
  refine ⟨?_, ?_, ?_⟩
  · intro op _ hHead
    exact absurd hHead (noHead op.opId)
  · intro x _ hHead
    exact absurd hHead (noHead x.operation.opId)
  · intro op _ hDelete
    rw [hDelete] at hKey
    exact absurd trivial hKey

variable {v : l}

theorem meets_plainWrite
    {Q : CoreResult Bool → l → World → Prop}
    (hSend : Sendable host t w write)
    (hKey : ¬ LogKey write.key)
    (h :
      ∀ r w', Others t w w' → HostInv host w' →
        WriteDone t write r w' → Q r v w') :
    LogMeets host t (S4Drive.write write) v Q w := by
  apply meets_write _ h
  intro w₁ hRely hInv
  exact ⟨protocol_plain hKey, fun _ => guarded_plain hKey,
    hSend w₁ hRely hInv⟩

variable {Q : CoreResult Unit → l → World → Prop}

/- Drop the answer of a write. -/
theorem meets_doneWrite
    (hSend : Sendable host t w write)
    (hKey : ¬ LogKey write.key)
    (h :
      ∀ r w', Others t w w' → HostInv host w' →
        (r = .ok () →
          ∃ done, WriteDone t write (.ok done) w') →
        Q r v w') :
    LogMeets host t
      (do let _ ← S4Drive.write write) v Q w := by
  apply meets_bind
  apply meets_plainWrite hSend hKey
  intro r w₁ hRely hInv hDone
  cases r with
  | error e =>
      apply continues_error
      apply h _ _ hRely hInv
      intro hNot
      cases hNot
  | ok done =>
      apply continues_ok
      apply meets_pure
      intro w₂ hRely₂ hInv₂
      apply h _ _ (hRely.trans hRely₂) hInv₂
      exact fun _ => ⟨done, hDone.later hRely₂⟩

theorem meets_unitWrite
    (hSend : Sendable host t w write)
    (hKey : ¬ LogKey write.key)
    (h :
      ∀ r w', Others t w w' → HostInv host w' → Q r v w') :
    LogMeets host t
      (do let _ ← S4Drive.write write) v Q w :=
  meets_doneWrite hSend hKey fun r w' hRely hInv _ =>
    h r w' hRely hInv

theorem serve_now
    {c : Choice} {time : Timestamp}
    (h : serve t .now c w = some (time, w')) :
    w' = w ∧ time = w.now := by
  cases c with
  | answer =>
      cases h
      exact ⟨rfl, rfl⟩
  | _ => cases h

/- The clock never runs backwards. -/
theorem meets_time
    {Q : CoreResult Timestamp → l → World → Prop}
    (h :
      ∀ time w', Others t w w' → HostInv host w' →
        time ≤ w'.now → Q (.ok time) v w') :
    LogMeets host t now v Q w := by
  apply meets_request
  intro w₁ hRely hInv c time w₂ _ hServe
  rcases serve_now hServe with ⟨rfl, rfl⟩
  refine ⟨⟨hInv, fun u _ => .refl u w₂⟩, ?_⟩
  intro w' hRely' hInv'
  exact h _ w' (hRely.trans hRely') hInv' hRely'.now

theorem meets_now
    {Q : CoreResult Timestamp → l → World → Prop}
    (h :
      ∀ time w', Others t w w' → HostInv host w' →
        Q (.ok time) v w') :
    LogMeets host t now v Q w :=
  meets_time fun time w' hOthers hInv _ =>
    h time w' hOthers hInv

theorem meets_drawn
    {Q : CoreResult Uuid → l → World → Prop}
    (h :
      ∀ (id : Uuid) w', Others t w w' → HostInv host w' →
        Q (.ok id) v w') :
    LogMeets host t (Script.request (.draw : Req)) v Q w := by
  apply meets_request
  intro w₁ hRely hInv c id w₂ _ hServe
  rcases serve_draw hServe with ⟨hFresh, rfl⟩
  have hLog := hInv.log.draws t id
  have hExtra : host.extra (w₁.draws t id) :=
    host.same hInv.extra { drawn := List.suffix_cons _ _ }
  refine ⟨⟨⟨hLog, hExtra⟩,
    fun u _ => others_draws w₁ t u id⟩, ?_⟩
  intro w' hRely' hInv'
  exact h id w'
    (hRely.trans ((others_draws w₁ t t id).trans hRely'))
    hInv'

theorem serve_listObjects
    {under : Prefix} {c : Choice} {r : CoreResult (List Key)}
    (h : serve t (.listObjects under) c w = some (r, w')) :
    w' = w := by
  cases c with
  | answer =>
      cases h
      rfl
  | fail e =>
      cases h
      rfl
  | _ => cases h

/- A page of keys promises nothing by the time it is used. -/
theorem meets_listObjects
    {under : Prefix}
    {Q : CoreResult (List Key) → l → World → Prop}
    (h :
      ∀ r w', Others t w w' → HostInv host w' → Q r v w') :
    LogMeets host t (listObjects under) v Q w := by
  apply meets_call
  intro w₁ h₁ hInv₁ c r w₂ _ hServe
  rw [serve_listObjects hServe]
  refine ⟨⟨hInv₁, fun u _ => .refl u w₁⟩, ?_⟩
  exact fun w' h₂ => h r w' (h₁.trans h₂)

------------------------------------------------------------
-- Tree Entries
------------------------------------------------------------

/- What a read of a tree entry says of the store. -/
def EntryAt
    (fileId : FileId)
    (r : CoreResult FileEntry)
    (w : World) : Prop :=
  match r with
  | .ok entry =>
      w.store.objects.lookup (.tree fileId) =
        some (.entry entry)
  | .error (.notFound _) =>
      w.store.objects.lookup (.tree fileId) = none
  | .error _ => True

/- What is read is noted, and then decoded. -/
theorem meets_notedBody
    {α : Type} {key : Key}
    {decode : Body → CoreResult α}
    {Q : CoreResult α → l → World → Prop}
    (h :
      ∀ w₁ r w', Others t w w₁ → HostInv host w₁ →
        Others t w₁ w' → HostInv host w' →
        ReadAt host t key r w₁ →
        (∀ body, r = .ok body →
          w₁.readNote t key body ∈ w'.reads) →
        Q (r.bind decode) v w') :
    LogMeets host t
      (do
        let data ← getObject key
        Script.ofExcept (decode data)) v Q w := by
  apply meets_bind
  apply meets_notedRead
  intro w₁ r w₂ h₁ hInv₁ h₂ hInv₂ hRead hNote
  cases r with
  | error e =>
      apply continues_error
      exact h w₁ _ w₂ h₁ hInv₁ h₂ hInv₂ hRead hNote
  | ok data =>
      apply continues_ok
      apply meets_ofExcept
      intro w₃ h₃ hInv₃
      exact h w₁ _ w₃ h₁ hInv₁ (h₂.trans h₃) hInv₃ hRead
        fun body hBody => h₃.reads.subset (hNote body hBody)

theorem meets_readBody
    {α : Type} {key : Key}
    {decode : Body → CoreResult α}
    {Q : CoreResult α → l → World → Prop}
    (h :
      ∀ w₁ r w', Others t w w₁ → HostInv host w₁ →
        Others t w₁ w' → HostInv host w' →
        ReadAt host t key r w₁ → Q (r.bind decode) v w') :
    LogMeets host t
      (do
        let data ← getObject key
        Script.ofExcept (decode data)) v Q w :=
  meets_notedBody fun w₁ r w' h₁ hInv₁ h₂ hInv' hRead _ =>
    h w₁ r w' h₁ hInv₁ h₂ hInv' hRead

variable {fileId : FileId}

namespace FileTree

theorem getEntry_meets
    {Q : CoreResult FileEntry → l → World → Prop}
    (h :
      ∀ w₁ r w', Others t w w₁ → HostInv host w₁ →
        Others t w₁ w' → HostInv host w' →
        EntryAt fileId r w₁ → Q r v w') :
    LogMeets host t (getEntry fileId) v Q w := by
  apply meets_readBody
  intro w₁ r w' h₁ hInv₁ h₂ hInv₂ hRead
  apply h w₁ _ w' h₁ hInv₁ h₂ hInv₂
  have hAnswers := hRead.answers
  cases r with
  | error e => cases e <;> exact hAnswers
  | ok data =>
      cases data with
      | entry entry => exact hAnswers
      | _ => trivial

variable {entry : FileEntry}

theorem upsertEntry_done
    (hSend :
      Sendable host t w (.put (.tree entry.fileId)
        (.entry entry)))
    (h :
      ∀ r w', Others t w w' → HostInv host w' →
        (r = .ok () →
          ∃ done,
            WriteDone t
              (.put (.tree entry.fileId) (.entry entry))
              (.ok done) w') →
        Q r v w') :
    LogMeets host t (upsertEntry entry) v Q w := by
  unfold upsertEntry
  apply meets_bind
  apply meets_ofExcept
  intro w₁ h₁ hInv₁
  cases Validator.validateFileEntry entry with
  | error e =>
      apply continues_error
      apply h _ _ h₁ hInv₁
      intro hNot
      cases hNot
  | ok _ =>
      apply continues_ok
      apply meets_doneWrite (hSend.later h₁) not_false
      intro r w' h₂ hInv' hDone
      exact h r w' (h₁.trans h₂) hInv' hDone

theorem upsertEntry_meets
    (hSend :
      Sendable host t w (.put (.tree entry.fileId)
        (.entry entry)))
    (h :
      ∀ r w', Others t w w' → HostInv host w' → Q r v w') :
    LogMeets host t (upsertEntry entry) v Q w :=
  upsertEntry_done hSend fun r w' hRely hInv _ =>
    h r w' hRely hInv

/-
  What a versioned read says of the store at its last HEAD,
  and of the moment at which it has read the entry.
-/
structure VersionAt
    (host : Host clean)
    (fileId : FileId)
    (observed : Option EntryVersion)
    (w : World) : Prop where
  inv : HostInv host w
  found :
    w.store.objects.lookup (.tree fileId) =
      observed.map fun version => version.etag.body
  read :
    ∀ version, observed = some version →
      ∃ w₁, HostInv host w₁ ∧ Grows w₁ w ∧
        w₁.store.objects.lookup (.tree fileId) =
          some (.entry version.entry)

theorem getEntryVersionRounds_meets
    {rounds : Nat}
    {Q : CoreResult (Option EntryVersion) → l → World → Prop}
    (hError :
      ∀ e w', Others t w w' → HostInv host w' →
        Q (.error e) v w')
    (hOk :
      ∀ observed w₁ w', Others t w w₁ →
        VersionAt host fileId observed w₁ → Others t w₁ w' →
        HostInv host w' → Q (.ok observed) v w') :
    LogMeets host t (getEntryVersionRounds fileId rounds) v Q
      w := by
  induction rounds generalizing w with
  | zero =>
      apply meets_throw
      exact hError _
  | succ rounds ih =>
      have again :
          ∀ w₁, Others t w w₁ →
            LogMeets host t
              (getEntryVersionRounds fileId rounds) v Q w₁ := by
        intro w₁ h₁
        apply ih
        · exact fun e w' h₂ => hError e w' (h₁.trans h₂)
        · exact fun observed w₂ w' h₂ =>
            hOk observed w₂ w' (h₁.trans h₂)
      have failed :
          ∀ e w₁, Others t w w₁ →
            LogMeets host t
              (Script.throw e :
                CloudM l (Option EntryVersion)) v Q w₁ := by
        intro e w₁ h₁
        apply meets_throw
        exact fun w' h₂ => hError e w' (h₁.trans h₂)
      unfold getEntryVersionRounds
      apply meets_bind
      apply meets_attempt
      apply meets_headObject
      intro w₁ before w₂ h₁ hInv₁ h₂ _ hBefore
      have h₀₂ := h₁.trans h₂
      apply continues_ok
      cases before with
      | error e =>
          cases e with
          | notFound message =>
              apply meets_pure
              intro w' h₃ hInv'
              apply hOk none w₁ w' h₁ _ (h₂.trans h₃) hInv'
              refine ⟨hInv₁, hBefore.answers, ?_⟩
              intro version hNone
              cases hNone
          | _ => exact failed _ w₂ h₀₂
      | ok before =>
      apply meets_bind
      apply meets_attempt
      apply getEntry_meets
      intro w₃ r w₄ h₃ hInv₃ h₄ _ hEntry
      have h₀₄ := h₀₂.trans (h₃.trans h₄)
      apply continues_ok
      cases r with
      | error e =>
          cases e with
          | notFound message => exact again w₄ h₀₄
          | _ => exact failed _ w₄ h₀₄
      | ok entry =>
      apply meets_bind
      apply meets_attempt
      apply meets_headObject
      intro w₅ after w₆ h₅ hInv₅ h₆ _ hAfter
      have h₀₅ := h₀₄.trans h₅
      have h₀₆ := h₀₅.trans h₆
      apply continues_ok
      cases after with
      | error e =>
          cases e with
          | notFound message => exact again w₆ h₀₆
          | _ => exact failed _ w₆ h₀₆
      | ok after =>
      dsimp only
      split
      · apply meets_pure
        intro w' h₇ hInv'
        apply hOk (some ⟨entry, after⟩) w₅ w' h₀₅ _
          (h₆.trans h₇) hInv'
        refine ⟨hInv₅, hAfter.answers, ?_⟩
        intro version hVersion
        cases hVersion
        exact ⟨w₃, hInv₃, (h₄.trans h₅).toGrows, hEntry⟩
      · exact again w₆ h₀₆

/- The write of an entry over the version that was seen. -/
def versionWrite
    (entry : FileEntry)
    (observed : Option EntryVersion) : Write Key Body :=
  match observed with
  | none => .putIfNotExists (.tree entry.fileId) (.entry entry)
  | some version =>
      .putIfMatch (.tree entry.fileId) (.entry entry)
        version.etag

theorem versionWrite_key
    (entry : FileEntry)
    (observed : Option EntryVersion) :
    (versionWrite entry observed).key = .tree entry.fileId := by
  cases observed with
  | none => rfl
  | some version => rfl

theorem versionWrite_body
    (entry : FileEntry)
    (observed : Option EntryVersion) :
    (versionWrite entry observed).body =
      some (.entry entry) := by
  cases observed with
  | none => rfl
  | some version => rfl

theorem putEntryIf_meets
    {observed : Option EntryVersion}
    {Q : CoreResult Bool → l → World → Prop}
    (hSend :
      Sendable host t w (versionWrite entry observed))
    (h :
      ∀ r w', Others t w w' → HostInv host w' →
        (r = .ok true →
          WriteDone t (versionWrite entry observed) r w') →
        Q r v w') :
    LogMeets host t (putEntryIf entry observed) v Q w := by
  unfold putEntryIf
  apply meets_bind
  apply meets_ofExcept
  intro w₁ h₁ hInv₁
  cases Validator.validateFileEntry entry with
  | error e =>
      apply continues_error
      apply h _ _ h₁ hInv₁
      intro hNot
      cases hNot
  | ok _ =>
      have hWrite := hSend.later h₁
      apply continues_ok
      cases observed with
      | none =>
          apply meets_plainWrite hWrite not_false
          intro r w' h₂ hInv' hDone
          exact h r w' (h₁.trans h₂) hInv' fun _ => hDone
      | some version =>
          apply meets_plainWrite hWrite not_false
          intro r w' h₂ hInv' hDone
          exact h r w' (h₁.trans h₂) hInv' fun _ => hDone

theorem deleteEntry_meets
    (hSend : Sendable host t w (.delete (.tree fileId)))
    (h :
      ∀ r w', Others t w w' → HostInv host w' → Q r v w') :
    LogMeets host t (deleteEntry fileId) v Q w :=
  meets_unitWrite hSend not_false h

end FileTree

------------------------------------------------------------
-- Deletion Records
------------------------------------------------------------

namespace TombstoneManager

/- The call of `t` has read a record, at the moment `w₁`. -/
structure RecordRead
    {clean : Prop}
    (host : Host clean)
    (t : Tid)
    (fileId : FileId)
    (tombstone : Tombstone)
    (w₁ w' : World) : Prop where
  found :
    w₁.store.objects.lookup (.tombstone fileId) =
      some (.tombstone tombstone)
  admitted :
    host.admits t (.getObject (.tombstone fileId)) .answer w₁
  noted :
    w₁.readNote t (.tombstone fileId) (.tombstone tombstone) ∈
      w'.reads

variable {tombstone : Tombstone}

theorem RecordRead.later
    {w₁ w₂ : World}
    (h : RecordRead host t fileId tombstone w₁ w)
    (hReads : w.reads <:+ w₂.reads) :
    RecordRead host t fileId tombstone w₁ w₂ :=
  { h with noted := hReads.subset h.noted }

theorem getTombstone_noted
    {Q : CoreResult Tombstone → l → World → Prop}
    (h :
      ∀ w₁ r w', Others t w w₁ → HostInv host w₁ →
        Others t w₁ w' → HostInv host w' →
        (∀ tombstone, r = .ok tombstone →
          RecordRead host t fileId tombstone w₁ w') →
        Q r v w') :
    LogMeets host t (getTombstone fileId) v Q w := by
  apply meets_notedBody
  intro w₁ r w' h₁ hInv₁ h₂ hInv₂ hRead hNote
  apply h w₁ _ w' h₁ hInv₁ h₂ hInv₂
  intro tombstone hOk
  cases r with
  | error e => cases hOk
  | ok data =>
      cases data with
      | tombstone record =>
          cases hOk
          exact ⟨hRead.answers, hRead.admitted_answer,
            hNote _ rfl⟩
      | _ => cases hOk

theorem getTombstone_meets
    {Q : CoreResult Tombstone → l → World → Prop}
    (h :
      ∀ r w', Others t w w' → HostInv host w' → Q r v w') :
    LogMeets host t (getTombstone fileId) v Q w :=
  getTombstone_noted fun _ r w' h₁ _ h₂ hInv' _ =>
    h r w' (h₁.trans h₂) hInv'

/-
  The call of `t` has left a record: it has written it, or
  it has found it in the store.
-/
def RecordLeft
    (t : Tid)
    (fileId : FileId)
    (tombstone : Tombstone)
    (w : World) : Prop :=
  (∃ f ∈ w.store.flights, SentIn f t (w.calls t) ∧
      f.applied = true ∧ f.write.key = .tombstone fileId ∧
      f.write.body = some (.tombstone tombstone)) ∨
    ∃ note ∈ w.reads, note.thread = t ∧
      note.call = w.calls t ∧ note.key = .tombstone fileId ∧
      note.body = .tombstone tombstone

theorem RecordLeft.later
    (h : RecordLeft t fileId tombstone w)
    (hOthers : Others t w w') :
    RecordLeft t fileId tombstone w' := by
  rcases h with
    ⟨f, hf, hSent, hApplied, hKey, hBody⟩ |
    ⟨note, hNote, hThread, hCall, hKey, hBody⟩
  · rcases hOthers.flights.mem hf with ⟨f', hf', hLater⟩
    left
    refine ⟨f', hf', ?_, hLater.applied hApplied, ?_, ?_⟩
    · rw [SentIn, hLater.sender, hOthers.calls]
      exact hSent
    · rw [hLater.write]
      exact hKey
    · rw [hLater.write]
      exact hBody
  · right
    exact ⟨note, hOthers.reads.subset hNote, hThread,
      hCall.trans hOthers.calls.symm, hKey, hBody⟩

theorem recordLeft_of_done
    (hKey : write.key = .tombstone fileId)
    (hBody : write.body = some (.tombstone tombstone))
    (hDone : WriteDone t write (.ok true) w) :
    RecordLeft t fileId tombstone w := by
  rcases hDone with ⟨f, hf, ⟨hWrite, hSent, _⟩, hApplied, _⟩
  left
  refine ⟨f, hf, hSent, hApplied rfl, ?_, ?_⟩
  · rw [hWrite, hKey]
  · rw [hWrite, hBody]

theorem RecordRead.left
    {w₁ : World}
    (h : RecordRead host t fileId tombstone w₁ w)
    (hOthers : Others t w₁ w) :
    RecordLeft t fileId tombstone w :=
  .inr ⟨_, h.noted, rfl, hOthers.calls.symm, rfl, rfl⟩

/- The deletion that a create asks for, whenever it was. -/
structure DeletionOf
    (fileId : FileId)
    (path name deletedBy : String)
    (contentRefs : List BlobId)
    (tombstone : Tombstone) : Prop where
  fileId : tombstone.fileId = fileId
  path : tombstone.pathAtDelete = path
  name : tombstone.nameAtDelete = name
  deletedBy : tombstone.deletedBy = deletedBy
  contentRefs : tombstone.contentRefs = contentRefs
  restorable : tombstone.restorable = true

/- A record is only written where there is none. -/
theorem createTombstone_meets
    {path name deletedBy : String}
    {contentRefs : List BlobId} {days : Nat}
    {Q : CoreResult Tombstone → l → World → Prop}
    (hSend :
      ∀ tombstone : Tombstone, tombstone.fileId = fileId →
        Sendable host t w (.putIfNotExists
          (.tombstone fileId) (.tombstone tombstone)))
    (h :
      ∀ r w', Others t w w' → HostInv host w' →
        (∀ tombstone, r = .ok tombstone →
          RecordLeft t fileId tombstone w' ∧
            DeletionOf fileId path name deletedBy contentRefs
              tombstone) →
        Q r v w') :
    LogMeets host t
      (createTombstone fileId path name deletedBy contentRefs
        days) v Q w := by
  have failed :
      ∀ e w', Others t w w' → HostInv host w' →
        Q (.error e) v w' := by
    intro e w' h₁ hInv'
    apply h _ w' h₁ hInv'
    intro tombstone hNot
    cases hNot
  unfold createTombstone
  apply meets_bind
  apply meets_now
  intro time w₁ h₁ _
  apply continues_ok
  apply meets_bind
  apply meets_plainWrite ((hSend _ rfl).later h₁) not_false
  intro r w₂ h₂ hInv₂ hDone
  have h₀₂ := h₁.trans h₂
  cases r with
  | error e =>
      apply continues_error
      exact failed e w₂ h₀₂ hInv₂
  | ok created =>
      apply continues_ok
      split
      · rename_i hCreated
        rw [hCreated] at hDone
        have hLeft := recordLeft_of_done rfl rfl hDone
        apply meets_pure
        intro w₃ h₃ hInv₃
        apply h _ w₃ (h₀₂.trans h₃) hInv₃
        intro tombstone hOk
        cases hOk
        exact ⟨hLeft.later h₃, ⟨rfl, rfl, rfl, rfl, rfl, rfl⟩⟩
      · apply meets_bind
        apply getTombstone_noted
        intro wᵣ r w₃ h₂ᵣ _ hᵣ₃ hInv₃ hRead
        have h₀₃ := h₀₂.trans (h₂ᵣ.trans hᵣ₃)
        cases r with
        | error e =>
            apply continues_error
            exact failed e w₃ h₀₃ hInv₃
        | ok existing =>
            have hLeft := (hRead _ rfl).left hᵣ₃
            apply continues_ok
            split
            · rename_i hSame
              apply meets_pure
              intro w₄ h₄ hInv₄
              apply h _ w₄ (h₀₃.trans h₄) hInv₄
              intro tombstone hOk
              cases hOk
              refine ⟨hLeft.later h₄, ?_⟩
              simp only [sameDeleteDetails, Bool.and_eq_true,
                decide_eq_true_eq] at hSame
              rcases hSame with
                ⟨⟨⟨⟨⟨hId, hPath⟩, hName⟩, hBy⟩, hRefs⟩, hRest⟩
              exact ⟨hId, hPath, hName, hBy, hRefs, hRest⟩
            · apply meets_throw
              exact fun w₄ h₄ => failed _ w₄ (h₀₃.trans h₄)

/-
  What a versioned read returned: the record was read at the
  moment `w₁` and had the ETag's bytes before it and, at the
  last HEAD, at the moment `w₂`.
-/
structure VersionRead
    {clean : Prop}
    (host : Host clean)
    (t : Tid)
    (fileId : FileId)
    (version : TombstoneVersion)
    (w w₁ w₂ : World) : Prop where
  before : Others t w w₁
  between : Others t w₁ w₂
  record :
    RecordRead host t fileId version.tombstone w₁ w₂
  known :
    ∃ old ∈ w₁.versions (.tombstone fileId),
      old.body = version.etag.body
  found :
    w₂.store.objects.lookup (.tombstone fileId) =
      some version.etag.body
  admitted :
    host.admits t (.headObject (.tombstone fileId)) .answer w₂
  identity : version.tombstone.fileId = fileId

theorem VersionRead.from
    {version : TombstoneVersion}
    {w₁ w₂ : World}
    (h : VersionRead host t fileId version w' w₁ w₂)
    (hOthers : Others t w w') :
    VersionRead host t fileId version w w₁ w₂ :=
  { h with before := hOthers.trans h.before }

theorem getTombstoneVersionRounds_noted
    {rounds : Nat}
    {Q : CoreResult TombstoneVersion → l → World → Prop}
    (hError :
      ∀ e w', Others t w w' → HostInv host w' →
        Q (.error e) v w')
    (hOk :
      ∀ version w₁ w₂ w',
        VersionRead host t fileId version w w₁ w₂ →
        Others t w₂ w' → HostInv host w' →
        Q (.ok version) v w') :
    LogMeets host t
      (getTombstoneVersionRounds fileId rounds) v Q w := by
  induction rounds generalizing w with
  | zero =>
      apply meets_throw
      exact hError _
  | succ rounds ih =>
      unfold getTombstoneVersionRounds
      apply meets_bind
      apply meets_headObject
      intro w₁ before w₂ h₁ hInv₁ h₂ hInv₂ hBefore
      have h₀₂ := h₁.trans h₂
      cases before with
      | error e =>
          apply continues_error
          exact hError _ w₂ h₀₂ hInv₂
      | ok before =>
      apply continues_ok
      apply meets_bind
      apply getTombstone_noted
      intro w₃ r w₄ h₃ _ h₄ hInv₄ hRecord
      have h₀₃ := h₀₂.trans h₃
      have h₀₄ := h₀₃.trans h₄
      cases r with
      | error e =>
          apply continues_error
          exact hError _ w₄ h₀₄ hInv₄
      | ok tombstone =>
      apply continues_ok
      apply meets_bind
      apply meets_headObject
      intro w₅ after w₆ h₅ _ h₆ hInv₆ hAfter
      have h₀₆ := h₀₄.trans (h₅.trans h₆)
      cases after with
      | error e =>
          apply continues_error
          exact hError _ w₆ h₀₆ hInv₆
      | ok after =>
      apply continues_ok
      split
      · rename_i hSame
        split
        · apply meets_throw
          exact fun w' h₇ => hError _ w' (h₀₆.trans h₇)
        · rename_i hIdentity
          apply meets_pure
          intro w' h₇ hInv'
          rcases Option.map_eq_some_iff.mp
              (hInv₁.log.history.newest _ _ hBefore.answers)
            with ⟨old, hNewest, hOld⟩
          have hKnown := List.mem_of_mem_head? hNewest
          apply hOk ⟨tombstone, after⟩ w₃ w₅ w' _
            (h₆.trans h₇) hInv'
          refine ⟨h₀₃, h₄.trans h₅, (hRecord _ rfl).later
            h₅.reads, ?_, hAfter.answers,
            hAfter.admitted_answer, not_not.mp hIdentity⟩
          rw [← hSame]
          exact ⟨old,
            ((h₂.trans h₃).versions _).subset hKnown, hOld⟩
      · apply ih
        · exact fun e w' h₇ => hError e w' (h₀₆.trans h₇)
        · exact fun version w₇ w₈ w' hRead =>
            hOk version w₇ w₈ w' (hRead.from h₀₆)

theorem getTombstoneVersion_noted
    {Q : CoreResult TombstoneVersion → l → World → Prop}
    (hError :
      ∀ e w', Others t w w' → HostInv host w' →
        Q (.error e) v w')
    (hOk :
      ∀ version w₁ w₂ w',
        VersionRead host t fileId version w w₁ w₂ →
        Others t w₂ w' → HostInv host w' →
        Q (.ok version) v w') :
    LogMeets host t (getTombstoneVersion fileId) v Q w :=
  getTombstoneVersionRounds_noted hError hOk

theorem getTombstoneVersion_meets
    {Q : CoreResult TombstoneVersion → l → World → Prop}
    (h :
      ∀ r w', Others t w w' → HostInv host w' → Q r v w') :
    LogMeets host t (getTombstoneVersion fileId) v Q w := by
  apply getTombstoneVersion_noted
  · exact fun e w' => h _ w'
  · intro version w₁ w₂ w' hRead h₂
    exact h _ w' ((hRead.before.trans hRead.between).trans h₂)

/- Only the observed record is replaced, by a new deletion. -/
theorem replaceTombstone_meets
    {previous : TombstoneVersion} {candidate : Tombstone}
    {Q : CoreResult Tombstone → l → World → Prop}
    (hSend :
      previous.tombstone.fileId = candidate.fileId →
      sameDeletion previous.tombstone candidate = false →
      Sendable host t w (.putIfMatch
        (.tombstone candidate.fileId) (.tombstone candidate)
        previous.etag))
    (h :
      ∀ r w', Others t w w' → HostInv host w' →
        (∀ tombstone, r = .ok tombstone →
          RecordLeft t candidate.fileId tombstone w' ∧
            (tombstone = candidate ∨
              sameDeletion tombstone candidate = true)) →
        Q r v w') :
    LogMeets host t (replaceTombstone previous candidate) v Q
      w := by
  have failed :
      ∀ e w', Others t w w' → HostInv host w' →
        Q (.error e) v w' := by
    intro e w' h₁ hInv'
    apply h _ w' h₁ hInv'
    intro tombstone hNot
    cases hNot
  have done :
      ∀ tombstone w₁, Others t w w₁ →
        RecordLeft t candidate.fileId tombstone w₁ →
        (tombstone = candidate ∨
          sameDeletion tombstone candidate = true) →
        LogMeets host t
          (pure tombstone : CloudM l Tombstone) v Q w₁ := by
    intro tombstone w₁ h₁ hLeft hSame
    apply meets_pure
    intro w' h₂ hInv'
    apply h _ w' (h₁.trans h₂) hInv'
    intro tombstone' hOk
    cases hOk
    exact ⟨hLeft.later h₂, hSame⟩
  unfold replaceTombstone
  split
  · apply meets_throw
    exact failed _
  rename_i hNew
  simp only [not_or, not_not, Bool.not_eq_true] at hNew
  apply meets_bind
  apply getTombstoneVersion_noted
  · intro e w₁ h₁ hInv₁
    apply continues_error
    exact failed e w₁ h₁ hInv₁
  intro current wᵣ wₕ w₁ hRead hₕ hInv₁
  have h₁ := (hRead.before.trans hRead.between).trans hₕ
  have hFound :=
    (hRead.record.left hRead.between).later hₕ
  apply continues_ok
  split
  · rename_i hSame
    exact done _ w₁ h₁ hFound (.inr hSame)
  split
  · apply meets_throw
    exact fun w' h₂ => failed _ w' (h₁.trans h₂)
  rename_i hObserved
  simp only [not_or, not_not] at hObserved
  rw [hObserved.1]
  apply meets_bind
  apply meets_plainWrite
    ((hSend hNew.1 hNew.2).later h₁) not_false
  intro r w₂ h₂ hInv₂ hDone
  have h₀₂ := h₁.trans h₂
  cases r with
  | error e =>
      apply continues_error
      exact failed e w₂ h₀₂ hInv₂
  | ok replaced =>
  apply continues_ok
  split
  · rename_i hReplaced
    rw [hReplaced] at hDone
    exact done _ w₂ h₀₂ (recordLeft_of_done rfl rfl hDone)
      (.inl rfl)
  apply meets_bind
  apply getTombstone_noted
  intro wᵣ r w₃ h₂ᵣ _ hᵣ₃ hInv₃ hWinner
  have h₀₃ := h₀₂.trans (h₂ᵣ.trans hᵣ₃)
  cases r with
  | error e =>
      apply continues_error
      exact failed e w₃ h₀₃ hInv₃
  | ok winner =>
  have hLeft := (hWinner _ rfl).left hᵣ₃
  apply continues_ok
  split
  · rename_i hSame
    exact done _ w₃ h₀₃ hLeft (.inr hSame)
  · apply meets_throw
    exact fun w' h₄ => failed _ w' (h₀₃.trans h₄)

end TombstoneManager

end S4Drive

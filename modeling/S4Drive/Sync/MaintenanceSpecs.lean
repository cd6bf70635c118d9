import S4Drive.Sync.LocalSpecs
import S4Drive.Sync.Maintenance

/-
  What the two collectors of expired deletion records do
  under the contract of the log: they only read the log, and
  every delete that they send follows a read of the record.

  Main declarations:
    * `Retirable`, `collectExpiredTombstoneAt_meets`
    * `collectExpiredRemoteTombstones_meets`
    * `Collectable`, `collectGarbage_meets`
-/

------------------------------------------------------------
-- Conditional Retirement
------------------------------------------------------------

namespace S4Drive

open ObjectStore Concurrency ChainLog OperationLog
open TombstoneManager

variable {l : Type}
variable {clean : Prop}
variable {host : Host clean}
variable {t : Tid} {w w' : World}

/-
  The host lets `t` retire the version of a record that it
  has read, if the record is expired at `time`.
-/
def Retirable
    (host : Host clean)
    (t : Tid)
    (fileId : FileId)
    (time : Timestamp)
    (w : World) : Prop :=
  ∀ version w₁ w₂ w₃, Calling t w w₁ →
    About t (.cleanupOf fileId) w₁ →
    VersionRead host t fileId version w₁ w₂ w₃ →
    version.tombstone.retentionUntil ≤ time →
      Sendable host t w₃
        (.deleteIfMatch (.tombstone fileId) version.etag)

variable {fileId : FileId} {time : Timestamp}

theorem Retirable.later
    (h : Retirable host t fileId time w)
    (hCalling : Calling t w w') :
    Retirable host t fileId time w' :=
  fun version w₁ w₂ w₃ h₁ =>
    h version w₁ w₂ w₃ (hCalling.trans h₁)

variable {v : l}

theorem isLive_meets
    {Q : CoreResult Bool → l → World → Prop}
    (h :
      ∀ r w', Others t w w' → HostInv host w' → Q r v w') :
    LogMeets host t (isLive fileId) v Q w := by
  unfold isLive
  apply meets_bind
  apply meets_attempt
  apply FileTree.getEntry_meets
  intro w₁ r w₂ h₁ _ h₂ _ _
  have h₀₂ := h₁.trans h₂
  apply continues_ok
  cases r with
  | ok entry =>
      apply meets_pure
      exact fun w' h₃ => h _ w' (h₀₂.trans h₃)
  | error e =>
      cases e with
      | notFound message =>
          apply meets_pure
          exact fun w' h₃ => h _ w' (h₀₂.trans h₃)
      | _ =>
          apply meets_throw
          exact fun w' h₃ => h _ w' (h₀₂.trans h₃)

/- The newest operation is searched for on a log of its own. -/
theorem latestOnTarget_meets
    {Q : CoreResult (Option Operation) → l → World → Prop}
    (h :
      ∀ r w', Others t w w' → HostInv host w' → Q r v w') :
    LogMeets host t
      (onLog (OperationLog.new 0 0)
        (OperationLog.latestOnTarget fileId)) v Q w := by
  apply meets_onLog (Meets.with_inv
    (latestMatching_meets (knows_new 0 0 w)))
  rintro r v' w' ⟨⟨hQueried, _, _⟩, hInv'⟩
  exact h r w' hQueried.others hInv'

variable {Q : CoreResult TombstoneCleanup → l → World → Prop}

theorem retireExpired_meets
    {version : TombstoneVersion}
    (hSend :
      version.tombstone.retentionUntil ≤ time →
        Sendable host t w
          (.deleteIfMatch (.tombstone fileId) version.etag))
    (h :
      ∀ r w', Others t w w' → HostInv host w' → Q r v w') :
    LogMeets host t (retireExpired fileId time version) v Q
      w := by
  unfold retireExpired
  split
  · apply meets_pure
    exact fun w' => h _ w'
  rename_i hExpired
  apply meets_bind
  apply isLive_meets
  intro live w₁ h₁ hInv₁
  cases live with
  | error e =>
      apply continues_error
      exact h _ w₁ h₁ hInv₁
  | ok live =>
  apply continues_ok
  apply meets_bind
  apply latestOnTarget_meets
  intro latest w₂ h₂ hInv₂
  have h₀₂ := h₁.trans h₂
  cases latest with
  | error e =>
      apply continues_error
      exact h _ w₂ h₀₂ hInv₂
  | ok latest =>
  apply continues_ok
  split
  · apply meets_pure
    exact fun w' h₃ => h _ w' (h₀₂.trans h₃)
  apply meets_bind
  apply meets_plainWrite
    ((hSend (Nat.not_lt.mp hExpired)).later h₀₂) not_false
  intro r w₃ h₃ hInv₃ _
  have h₀₃ := h₀₂.trans h₃
  cases r with
  | error e =>
      apply continues_error
      exact h _ w₃ h₀₃ hInv₃
  | ok retired =>
      apply continues_ok
      split
      · apply meets_pure
        exact fun w' h₄ => h _ w' (h₀₃.trans h₄)
      · apply meets_pure
        exact fun w' h₄ => h _ w' (h₀₃.trans h₄)

theorem collectExpiredTombstoneAt_meets
    (hRetire : Retirable host t fileId time w)
    (h :
      ∀ r w', Calling t w w' → HostInv host w' → Q r v w') :
    LogMeets host t (collectExpiredTombstoneAt fileId time) v
      Q w := by
  unfold collectExpiredTombstoneAt
  apply meets_bind
  apply meets_prepare
  intro w₁ h₁ hPrepared _
  apply continues_ok
  apply meets_bind
  apply meets_attempt
  apply TombstoneManager.getTombstoneVersion_noted
  · intro e w₂ h₂ _
    have h₀₂ := h₁.trans h₂.toSteps.calling
    apply continues_ok
    cases e <;>
      (first | apply meets_pure | apply meets_throw) <;>
      exact fun w' h₃ =>
        h _ w' (h₀₂.trans h₃.toSteps.calling)
  · intro version w₂ w₃ w₄ hRead h₄ _
    have h₁₄ :=
      (hRead.before.trans hRead.between).trans h₄
    apply continues_ok
    apply retireExpired_meets
    · intro hExpired
      exact (hRetire version w₁ w₂ w₃ h₁ hPrepared.about
        hRead hExpired).later h₄
    · intro r w' h₅
      exact h r w'
        (h₁.trans (h₁₄.trans h₅).toSteps.calling)

theorem collectExpiredPage_meets
    {page : List FileId}
    {Q : CoreResult Unit → l → World → Prop}
    (hRetire :
      ∀ fileId ∈ page, Retirable host t fileId time w)
    (h :
      ∀ r w', Calling t w w' → HostInv host w' → Q r v w') :
    LogMeets host t (collectExpiredPage time page) v Q w := by
  induction page generalizing w with
  | nil =>
      apply meets_pure
      exact fun w' h₁ => h _ w' h₁.toSteps.calling
  | cons fileId rest ih =>
      apply meets_bind
      apply meets_attempt
      apply collectExpiredTombstoneAt_meets
        (hRetire fileId List.mem_cons_self)
      intro r w₁ h₁ _
      apply continues_ok
      apply ih
      · intro id hId
        exact (hRetire id
          (List.mem_cons_of_mem _ hId)).later h₁
      · exact fun r w' h₂ => h r w' (h₁.trans h₂)

theorem collectExpiredRemoteTombstones_meets
    {page : List FileId}
    {Q : CoreResult Unit → l → World → Prop}
    (hRetire :
      ∀ time w₁, Others t w w₁ → time ≤ w₁.now →
        ∀ fileId ∈ page, Retirable host t fileId time w₁)
    (h :
      ∀ r w', Calling t w w' → HostInv host w' → Q r v w') :
    LogMeets host t (collectExpiredRemoteTombstones page) v Q
      w := by
  unfold collectExpiredRemoteTombstones
  apply meets_bind
  apply meets_time
  intro time w₁ h₁ _ hTime
  apply continues_ok
  apply collectExpiredPage_meets (hRetire time w₁ h₁ hTime)
  exact fun r w' h₂ =>
    h r w' (h₁.toSteps.calling.trans h₂)

/-
  The host lets `t` delete a record that it has read, and
  the tree entry, if the record is expired at `time`.
-/
def Collectable
    (host : Host clean)
    (t : Tid)
    (time : Timestamp)
    (w : World) : Prop :=
  ∀ fileId tombstone w₁ w₂ w₃, Calling t w w₁ →
    About t (.cleanupOf fileId) w₁ → Others t w₁ w₂ →
    RecordRead host t fileId tombstone w₂ w₃ →
    Others t w₂ w₃ → time > tombstone.retentionUntil →
      Sendable host t w₃ (.delete (.tombstone fileId)) ∧
        Sendable host t w₃ (.delete (.tree fileId))

theorem Collectable.later
    (h : Collectable host t time w)
    (hCalling : Calling t w w') :
    Collectable host t time w' :=
  fun fileId tombstone w₁ w₂ w₃ h₁ =>
    h fileId tombstone w₁ w₂ w₃ (hCalling.trans h₁)

namespace TombstoneManager

theorem listTombstones_meets
    {Q : CoreResult (List FileId) → l → World → Prop}
    (h :
      ∀ r w', Others t w w' → HostInv host w' → Q r v w') :
    LogMeets host t listTombstones v Q w := by
  apply meets_bind
  apply meets_listObjects
  intro r w₁ h₁ hInv₁
  cases r with
  | error e =>
      apply continues_error
      exact h _ w₁ h₁ hInv₁
  | ok keys =>
      apply continues_ok
      apply meets_pure
      exact fun w' h₂ => h _ w' (h₁.trans h₂)

theorem collectGarbageOf_meets
    {ids : List FileId} {collected : Nat}
    {Q : CoreResult Nat → l → World → Prop}
    (hCollect : Collectable host t time w)
    (h :
      ∀ r w', Calling t w w' → HostInv host w' → Q r v w') :
    LogMeets host t (collectGarbageOf time ids collected) v Q
      w := by
  induction ids generalizing w collected with
  | nil =>
      apply meets_pure
      exact fun w' h₁ => h _ w' h₁.toSteps.calling
  | cons fileId rest ih =>
      have next :
          ∀ collected w₁, Calling t w w₁ →
            LogMeets host t
              (collectGarbageOf time rest collected) v Q
              w₁ := by
        intro collected w₁ h₁
        apply ih (hCollect.later h₁)
        exact fun r w' h₂ => h r w' (h₁.trans h₂)
      unfold collectGarbageOf
      apply meets_bind
      apply meets_prepare
      intro w₁ h₁ hPrepared _
      apply continues_ok
      apply meets_bind
      apply meets_attempt
      apply getTombstone_noted
      intro w₂ r w₃ h₂ _ h₃ _ hRead
      have h₀₃ := h₁.trans (h₂.trans h₃).toSteps.calling
      apply continues_ok
      cases r with
      | error e => exact next _ w₃ h₀₃
      | ok tombstone =>
      dsimp only
      split
      · rename_i hExpired
        rcases hCollect fileId tombstone w₁ w₂ w₃ h₁
            hPrepared.about h₂ (hRead _ rfl) h₃ hExpired with
          ⟨hRecord, hTree⟩
        apply meets_bind
        apply meets_unitWrite hRecord not_false
        intro r w₄ h₄ hInv₄
        have h₀₄ := h₀₃.trans h₄.toSteps.calling
        cases r with
        | error e =>
            apply continues_error
            exact h _ w₄ h₀₄ hInv₄
        | ok _ =>
        apply continues_ok
        apply meets_bind
        apply meets_attempt
        apply meets_unitWrite (hTree.later h₄) not_false
        intro r w₅ h₅ _
        apply continues_ok
        exact next _ w₅ (h₀₄.trans h₅.toSteps.calling)
      · exact next _ w₃ h₀₃

theorem collectGarbage_meets
    {Q : CoreResult Nat → l → World → Prop}
    (hCollect :
      ∀ time w₁, Others t w w₁ → time ≤ w₁.now →
        Collectable host t time w₁)
    (h :
      ∀ r w', Calling t w w' → HostInv host w' → Q r v w') :
    LogMeets host t collectGarbage v Q w := by
  unfold collectGarbage
  apply meets_bind
  apply listTombstones_meets
  intro r w₁ h₁ hInv₁
  cases r with
  | error e =>
      apply continues_error
      exact h _ w₁ h₁.toSteps.calling hInv₁
  | ok ids =>
  apply continues_ok
  apply meets_bind
  apply meets_time
  intro time w₂ h₂ _ hTime
  have h₀₂ := h₁.trans h₂
  apply continues_ok
  apply collectGarbageOf_meets (hCollect time w₂ h₀₂ hTime)
  exact fun r w' h₃ =>
    h r w' (h₀₂.toSteps.calling.trans h₃)

end TombstoneManager

end S4Drive

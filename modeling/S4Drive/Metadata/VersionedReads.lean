import S4Drive.Library.Outcomes
import S4Drive.Library.StoreHistory
import S4Drive.Metadata.LogSpecs
import S4Drive.Metadata.Tree

/-
  The reads that return a record with its ETag: of a tree
  entry, of a deletion and of the head pointer. Each puts
  two HEADs around a GET and compares the ETags, which say
  what bytes an object has and not which write they are of.

  Main declarations:
    * `Beside`
    * `getEntryVersion_returns_iff`,
      `getTombstoneVersion_returns_iff`, `loadHead_loads_iff`
    * `versioned_reads_atomic_iff`
-/

------------------------------------------------------------
-- Requests Beside Other Writes
------------------------------------------------------------

namespace S4Drive.VersionedReads

open ObjectStore Concurrency FileTree TombstoneManager

/- The clock of the world counts the writes so far. -/
def On
    (h : History Key Body)
    (w : World) : Prop :=
  w.store.objects = h.objects w.now

/- More of the writes have arrived. -/
def Beside
    (h : History Key Body)
    (w w' : World) : Prop :=
  w.now ≤ w'.now ∧ (On h w → On h w')

variable {h : History Key Body} {t : Tid} {l : Type}
variable {v v' : l} {w w' : World} {key : Key}

theorem Beside.refl (w : World) : Beside h w w :=
  ⟨le_rfl, id⟩

theorem Beside.trans
    {w₁ : World}
    (hFirst : Beside h w w₁)
    (hRest : Beside h w₁ w') : Beside h w w' :=
  ⟨hFirst.1.trans hRest.1, hRest.2 ∘ hFirst.2⟩

/- The object had the body at a moment between two worlds. -/
def Seen
    (h : History Key Body)
    (key : Key)
    (w w' : World)
    (body : Body) : Prop :=
  ∃ moment, w.now ≤ moment ∧ moment ≤ w'.now ∧
    h.bodyAt key moment = some body

variable {body : Body}

theorem Seen.within
    {w₁ w₂ : World}
    (hBefore : w.now ≤ w₁.now)
    (hSeen : Seen h key w₁ w₂ body)
    (hAfter : w₂.now ≤ w'.now) : Seen h key w w' body := by
  rcases hSeen with ⟨moment, hFirst, hLast, hBody⟩
  exact ⟨moment, hBefore.trans hFirst, hLast.trans hAfter,
    hBody⟩

theorem Seen.paired
    {w₁ w₂ : World} {etag : ETag Body}
    (hHead : Seen h key w w₁ etag.body)
    (hBody : Seen h key w₁ w₂ body)
    (hAgain : Seen h key w₂ w' etag.body) :
    h.Paired key w.now w'.now body etag := by
  rcases hHead with ⟨i, hFirst, hLeft, hBefore⟩
  rcases hBody with ⟨j, hLeft', hRight, hBody⟩
  rcases hAgain with ⟨k, hRight', hLast, hAfter⟩
  exact ⟨i, j, k, hFirst, hLeft.trans hLeft',
    hRight.trans hRight', hLast, hBefore, hBody, hAfter⟩

/- A HEAD sees the object at one moment of its run. -/
theorem headObject_ends
    {r : CoreResult (ETag Body)}
    (hOn : On h w)
    (hEnds :
      (headObject key).Ends cloud (Beside h) t v w r v' w') :
    Beside h w w' ∧
      ∀ etag, r = .ok etag → Seen h key w w' etag.body := by
  cases hEnds with
  | @ask _ _ _ _ answer _ _ _ _ others served rest =>
      have hThen := others.2 hOn
      rcases serve_headObject served with ⟨rfl, hAnswers⟩
      cases rest with
      | done further =>
          refine ⟨others.trans further, fun etag hOk => ?_⟩
          refine ⟨_, others.1, further.1, ?_⟩
          have hAnswer : answer = .ok etag := hOk
          rw [hAnswer] at hAnswers
          unfold History.bodyAt
          rw [← hThen]
          exact hAnswers

/- A GET sees the object's body at one moment of its run. -/
theorem getObject_ends
    {r : CoreResult Body}
    (hOn : On h w)
    (hEnds :
      (getObject key).Ends cloud (Beside h) t v w r v' w') :
    Beside h w w' ∧
      ∀ body, r = .ok body → Seen h key w w' body := by
  cases hEnds with
  | @ask _ _ _ _ answer _ w₁ w₂ _ others served rest =>
      have hThen := others.2 hOn
      rcases serve_getObject served with ⟨hAnswers, hAfter⟩
      have hNoted : Beside h w₁ w₂ := by
        rcases hAfter with rfl | ⟨rfl, _⟩
        · unfold World.noteRead
          split <;> exact ⟨le_rfl, id⟩
        · exact .refl _
      cases rest with
      | done further =>
          have hRest := hNoted.trans further
          refine ⟨others.trans hRest, fun body hOk => ?_⟩
          refine ⟨w₁.now, others.1, hRest.1, ?_⟩
          have hAnswer : answer = .ok body := hOk
          rw [hAnswer] at hAnswers
          unfold History.bodyAt
          rw [← hThen]
          exact hAnswers

/- A body that was read is decoded; nothing else happens. -/
theorem decoded_ends
    {α : Type} {decode : Body → CoreResult α}
    {r : CoreResult α}
    (hOn : On h w)
    (hEnds :
      (do
        let data ← getObject key
        Script.ofExcept (decode data) : CloudM l α).Ends cloud
        (Beside h) t v w r v' w') :
    Beside h w w' ∧
      ∀ a, r = .ok a →
        ∃ data, decode data = .ok a ∧ Seen h key w w' data := by
  rcases Script.ends_bind_env Beside.refl Beside.trans hEnds
    with ⟨data, v₁, w₁, hGet, hRest⟩ | ⟨e, hGet, rfl⟩
  · rcases getObject_ends hOn hGet with ⟨hBeside, hSeen⟩
    rcases Script.ends_ofExcept_env hRest with ⟨rfl, _, hLast⟩
    exact ⟨hBeside.trans hLast, fun a hOk =>
      ⟨data, hOk, (hSeen _ rfl).within le_rfl hLast.1⟩⟩
  · exact ⟨(getObject_ends hOn hGet).1, nofun⟩

variable {fileId : FileId}

theorem getEntry_ends
    {r : CoreResult FileEntry}
    (hOn : On h w)
    (hEnds :
      (getEntry fileId).Ends cloud (Beside h) t v w r v' w') :
    Beside h w w' ∧
      ∀ entry, r = .ok entry →
        Seen h (.tree fileId) w w' (.entry entry) := by
  rcases decoded_ends hOn hEnds with ⟨hBeside, hDecoded⟩
  refine ⟨hBeside, fun entry hOk => ?_⟩
  rcases hDecoded entry hOk with ⟨data, hData, hSeen⟩
  cases data <;> cases hData
  exact hSeen

theorem getTombstone_ends
    {r : CoreResult Tombstone}
    (hOn : On h w)
    (hEnds :
      (getTombstone fileId).Ends cloud (Beside h) t v w r v'
        w') :
    Beside h w w' ∧
      ∀ tombstone, r = .ok tombstone →
        Seen h (.tombstone fileId) w w'
          (.tombstone tombstone) := by
  rcases decoded_ends hOn hEnds with ⟨hBeside, hDecoded⟩
  refine ⟨hBeside, fun tombstone hOk => ?_⟩
  rcases hDecoded tombstone hOk with ⟨data, hData, hSeen⟩
  cases data <;> cases hData
  exact hSeen

theorem getEntryVersionRounds_paired
    {rounds : Nat} {version : EntryVersion}
    (hOn : On h w)
    (hEnds :
      (getEntryVersionRounds fileId rounds).Ends cloud
        (Beside h) t v w (.ok (some version)) v' w') :
    h.Paired (.tree fileId) w.now w'.now (.entry version.entry)
      version.etag := by
  induction rounds generalizing v w with
  | zero => cases (Script.ends_throw hEnds).1
  | succ rounds ih =>
      unfold getEntryVersionRounds at hEnds
      have again {v₁ : l} {w₁ : World}
          (hBeside : Beside h w w₁)
          (hEnds :
            (getEntryVersionRounds fileId rounds).Ends cloud
              (Beside h) t v₁ w₁ (.ok (some version)) v' w') :=
        (ih (hBeside.2 hOn) hEnds).from hBeside.1
      rcases Script.ends_attempt_bind Beside.refl Beside.trans
        hEnds with ⟨before, v₁, w₁, hHead, hEnds⟩
      rcases headObject_ends hOn hHead with ⟨hBeside₁, hBefore⟩
      cases before with
      | error e =>
          cases e with
          | notFound => cases (Script.ends_pure hEnds).1
          | _ => cases (Script.ends_throw hEnds).1
      | ok before =>
      rcases Script.ends_attempt_bind Beside.refl Beside.trans
        hEnds with ⟨found, v₂, w₂, hGet, hEnds⟩
      rcases getEntry_ends (hBeside₁.2 hOn) hGet with
        ⟨hBeside₂, hEntry⟩
      have hOn₂ := hBeside₁.trans hBeside₂
      cases found with
      | error e =>
          cases e with
          | notFound => exact again hOn₂ hEnds
          | _ => cases (Script.ends_throw hEnds).1
      | ok entry =>
      rcases Script.ends_attempt_bind Beside.refl Beside.trans
        hEnds with ⟨after, v₃, w₃, hHead', hEnds⟩
      rcases headObject_ends (hOn₂.2 hOn) hHead' with
        ⟨hBeside₃, hAfter⟩
      cases after with
      | error e =>
          cases e with
          | notFound => exact again (hOn₂.trans hBeside₃) hEnds
          | _ => cases (Script.ends_throw hEnds).1
      | ok after =>
      dsimp only at hEnds
      split at hEnds
      case isTrue hEqual =>
        subst hEqual
        rcases hEnds with ⟨others⟩
        exact (hBefore _ rfl).paired (hEntry _ rfl)
          ((hAfter _ rfl).within le_rfl others.1)
      case isFalse => exact again (hOn₂.trans hBeside₃) hEnds

theorem getTombstoneVersionRounds_paired
    {rounds : Nat}
    {version : TombstoneVersion}
    (hOn : On h w)
    (hEnds :
      (getTombstoneVersionRounds fileId rounds).Ends cloud
        (Beside h) t v w (.ok version) v' w') :
    version.tombstone.fileId = fileId ∧
      h.Paired (.tombstone fileId) w.now w'.now
        (.tombstone version.tombstone) version.etag := by
  induction rounds generalizing v w with
  | zero => cases (Script.ends_throw hEnds).1
  | succ rounds ih =>
      unfold getTombstoneVersionRounds at hEnds
      rcases Script.ends_bind_ok Beside.refl hEnds with
        ⟨before, v₁, w₁, hHead, hEnds⟩
      rcases headObject_ends hOn hHead with ⟨hBeside₁, hBefore⟩
      rcases Script.ends_bind_ok Beside.refl hEnds with
        ⟨tombstone, v₂, w₂, hGet, hEnds⟩
      rcases getTombstone_ends (hBeside₁.2 hOn) hGet with
        ⟨hBeside₂, hRecord⟩
      have hOn₂ := hBeside₁.trans hBeside₂
      rcases Script.ends_bind_ok Beside.refl hEnds with
        ⟨after, v₃, w₃, hHead', hEnds⟩
      rcases headObject_ends (hOn₂.2 hOn) hHead' with
        ⟨hBeside₃, hAfter⟩
      split at hEnds
      case isTrue hEqual =>
        subst hEqual
        split at hEnds
        case isTrue => cases (Script.ends_throw hEnds).1
        case isFalse hIdentity =>
          rcases hEnds with ⟨others⟩
          refine ⟨not_not.mp hIdentity, ?_⟩
          exact (hBefore _ rfl).paired (hRecord _ rfl)
            ((hAfter _ rfl).within le_rfl others.1)
      case isFalse =>
        have hOn₃ := hOn₂.trans hBeside₃
        rcases ih (hOn₃.2 hOn) hEnds with ⟨hIdentity, hPaired⟩
        exact ⟨hIdentity, hPaired.from hOn₃.1⟩

theorem loadHead_paired
    {log log' : OperationLog} {head : OpId}
    (hOn : On h w)
    (hEnds :
      OperationLog.loadHead.Ends cloud (Beside h) t log w
        (.ok (some head)) log' w') :
    ∃ etag, log'.currentHeadEtag = some etag ∧
      h.Paired .head w.now w'.now (.head (some head)) etag := by
  unfold OperationLog.loadHead at hEnds
  rcases Script.ends_attempt_bind Beside.refl Beside.trans
    hEnds with ⟨before, v₁, w₁, hHead, hEnds⟩
  rcases headObject_ends hOn hHead with ⟨hBeside₁, hBefore⟩
  cases before with
  | error e =>
      cases e with
      | notFound =>
          rcases Script.ends_bind_ok Beside.refl hEnds with
            ⟨_, v₂, w₂, _, hEnds⟩
          cases (Script.ends_pure hEnds).1
      | _ => cases (Script.ends_throw hEnds).1
  | ok before =>
  rcases Script.ends_bind_ok Beside.refl hEnds with
    ⟨data, v₂, w₂, hGet, hEnds⟩
  rcases getObject_ends (hBeside₁.2 hOn) hGet with
    ⟨hBeside₂, hData⟩
  have hOn₂ := hBeside₁.trans hBeside₂
  rcases Script.ends_bind_ok Beside.refl hEnds with
    ⟨after, v₃, w₃, hHead', hEnds⟩
  rcases headObject_ends (hOn₂.2 hOn) hHead' with
    ⟨hBeside₃, hAfter⟩
  split at hEnds
  case isTrue => cases (Script.ends_throw hEnds).1
  case isFalse hEqual =>
    rw [ne_eq, not_not] at hEqual
    subst hEqual
    split at hEnds
    case h_1 found =>
      rcases Script.ends_bind_ok Beside.refl hEnds with
        ⟨_, v₄, w₄, hSet, hEnds⟩
      rcases hSet with ⟨others⟩
      rcases hEnds with ⟨further⟩
      refine ⟨before, rfl, ?_⟩
      exact (hBefore _ rfl).paired (hData _ rfl)
        ((hAfter _ rfl).within le_rfl
          (others.1.trans further.1))
    case h_2 => cases (Script.ends_throw hEnds).1
    case h_3 => cases (Script.ends_throw hEnds).1

------------------------------------------------------------
-- Reads at Chosen Moments
------------------------------------------------------------

/- The world when so many writes have arrived. -/
def atMoment
    (h : History Key Body)
    (moment : Nat)
    (w : World) : World :=
  { w with
    now := moment
    store := { w.store with objects := h.objects moment } }

variable {moment : Nat}

theorem beside_atMoment
    (hNow : w.now ≤ moment) :
    Beside h w (atMoment h moment w) :=
  ⟨hNow, fun _ => rfl⟩

theorem readObject_atMoment
    (hBody : h.bodyAt key moment = some body) :
    readObject (atMoment h moment w) key = .ok body := by
  have hFound :
      (atMoment h moment w).store.objects.lookup key =
        some body := hBody
  unfold readObject
  rw [hFound]

/- A HEAD may be answered at any later moment. -/
theorem headObject_runs
    (hNow : w.now ≤ moment)
    (hBody : h.bodyAt key moment = some body) :
    ∃ w', w'.now = moment ∧
      (headObject key).Ends cloud (Beside h) t v w
        (.ok ⟨body⟩) v w' := by
  have hServed :
      cloud.serve t (.headObject key) .answer
          (atMoment h moment w) =
        some (.ok ⟨body⟩, atMoment h moment w) := by
    show some ((readObject _ key).map ETag.mk, _) = _
    rw [readObject_atMoment hBody]
    rfl
  exact ⟨atMoment h moment w, rfl,
    .ask (beside_atMoment hNow) hServed (.done (.refl _))⟩

theorem getObject_runs
    (hNow : w.now ≤ moment)
    (hBody : h.bodyAt key moment = some body) :
    ∃ w', w'.now = moment ∧
      (getObject key).Ends cloud (Beside h) t v w
        (.ok body) v w' := by
  have hServed :
      cloud.serve t (.getObject key) .answer
          (atMoment h moment w) =
        some (.ok body,
          (atMoment h moment w).noteRead t key) := by
    show some (readObject _ key, _) = _
    rw [readObject_atMoment hBody]
  refine ⟨(atMoment h moment w).noteRead t key, ?_,
    .ask (beside_atMoment hNow) hServed (.done (.refl _))⟩
  unfold World.noteRead
  split <;> rfl

variable {i j k : Nat} {before : Body}

/- The requests of one round fall at the three moments. -/
theorem round_runs
    (hNow : w.now ≤ i)
    (hLeft : i ≤ j)
    (hRight : j ≤ k)
    (hBefore : h.bodyAt key i = some before)
    (hBody : h.bodyAt key j = some body)
    (hAfter : h.bodyAt key k = some before) :
    ∃ w₁ w₂ w', w'.now = k ∧
      (headObject key).Ends cloud (Beside h) t v w
        (.ok ⟨before⟩) v w₁ ∧
      (getObject key).Ends cloud (Beside h) t v w₁ (.ok body) v
        w₂ ∧
      (headObject key).Ends cloud (Beside h) t v w₂
        (.ok ⟨before⟩) v w' := by
  rcases headObject_runs (t := t) (v := v) hNow hBefore with
    ⟨w₁, rfl, hHead⟩
  rcases getObject_runs (t := t) (v := v) hLeft hBody with
    ⟨w₂, rfl, hGet⟩
  rcases headObject_runs (t := t) (v := v) hRight hAfter with
    ⟨w', rfl, hAgain⟩
  exact ⟨w₁, w₂, w', rfl, hHead, hGet, hAgain⟩

theorem getEntryVersion_runs
    {entry : FileEntry}
    (hNow : w.now ≤ i)
    (hLeft : i ≤ j)
    (hRight : j ≤ k)
    (hBefore : h.bodyAt (.tree fileId) i = some before)
    (hEntry : h.bodyAt (.tree fileId) j = some (.entry entry))
    (hAfter : h.bodyAt (.tree fileId) k = some before) :
    ∃ w', w'.now = k ∧
      (getEntryVersion fileId).Ends cloud (Beside h) t v w
        (.ok (some ⟨entry, ⟨before⟩⟩)) v w' := by
  rcases round_runs (t := t) (v := v) hNow hLeft hRight hBefore
      hEntry hAfter with
    ⟨w₁, w₂, w', hLast, hHead, hData, hHead'⟩
  have hGet :
      (getEntry fileId).Ends cloud (Beside h) t v w₁
        (.ok entry) v w₂ :=
    hData.bind Beside.trans (.done (.refl _))
  refine ⟨w', hLast, ?_⟩
  unfold getEntryVersion maxVersionReads getEntryVersionRounds
  refine (hHead.attempt Beside.refl Beside.trans).bind
    Beside.trans ?_
  refine (hGet.attempt Beside.refl Beside.trans).bind
    Beside.trans ?_
  refine (hHead'.attempt Beside.refl Beside.trans).bind
    Beside.trans ?_
  dsimp only
  rw [if_pos rfl]
  exact .done (.refl _)

theorem getTombstoneVersion_runs
    {tombstone : Tombstone}
    (hNow : w.now ≤ i)
    (hLeft : i ≤ j)
    (hRight : j ≤ k)
    (hBefore :
      h.bodyAt (.tombstone tombstone.fileId) i = some before)
    (hRecord :
      h.bodyAt (.tombstone tombstone.fileId) j =
        some (.tombstone tombstone))
    (hAfter :
      h.bodyAt (.tombstone tombstone.fileId) k =
        some before) :
    ∃ w', w'.now = k ∧
      (getTombstoneVersion tombstone.fileId).Ends cloud
        (Beside h) t v w (.ok ⟨tombstone, ⟨before⟩⟩) v w' := by
  rcases round_runs (t := t) (v := v) hNow hLeft hRight hBefore
      hRecord hAfter with
    ⟨w₁, w₂, w', hLast, hHead, hData, hHead'⟩
  have hGet :
      (getTombstone tombstone.fileId).Ends cloud (Beside h) t v
        w₁ (.ok tombstone) v w₂ :=
    hData.bind Beside.trans (.done (.refl _))
  refine ⟨w', hLast, ?_⟩
  unfold getTombstoneVersion maxVersionReads
    getTombstoneVersionRounds
  refine hHead.bind Beside.trans ?_
  refine hGet.bind Beside.trans ?_
  refine hHead'.bind Beside.trans ?_
  rw [if_pos rfl, if_neg (not_not.mpr rfl)]
  exact .done (.refl _)

theorem loadHead_runs
    {head : OpId}
    (log : OperationLog)
    (hNow : w.now ≤ i)
    (hLeft : i ≤ j)
    (hRight : j ≤ k)
    (hBefore : h.bodyAt .head i = some before)
    (hHead : h.bodyAt .head j = some (.head (some head)))
    (hAfter : h.bodyAt .head k = some before) :
    ∃ w', w'.now = k ∧
      OperationLog.loadHead.Ends cloud (Beside h) t log w
        (.ok (some head))
        (OperationLog.setHead (some head) (some ⟨before⟩) log)
        w' := by
  rcases round_runs (t := t) (v := log) hNow hLeft hRight
      hBefore hHead hAfter with
    ⟨w₁, w₂, w', hLast, hFirst, hData, hAgain⟩
  refine ⟨w', hLast, ?_⟩
  unfold OperationLog.loadHead
  refine (hFirst.attempt Beside.refl Beside.trans).bind
    Beside.trans ?_
  refine hData.bind Beside.trans ?_
  refine hAgain.bind Beside.trans ?_
  rw [if_neg (not_not.mpr rfl)]
  exact .done (.refl _)

------------------------------------------------------------
-- Atomic Reads
------------------------------------------------------------

/- What a call returns is what the bucket had at a moment. -/
def EntryReadsAtomic
    (h : History Key Body)
    (fileId : FileId) : Prop :=
  ∀ (l : Type) (t : Tid) (v v' : l) (w w' : World)
    (version : EntryVersion),
    On h w →
    (getEntryVersion fileId).Ends cloud (Beside h) t v w
      (.ok (some version)) v' w' →
    h.AtomicRead (.tree fileId) w.now w'.now
      (.entry version.entry) version.etag

def TombstoneReadsAtomic
    (h : History Key Body)
    (fileId : FileId) : Prop :=
  ∀ (l : Type) (t : Tid) (v v' : l) (w w' : World)
    (version : TombstoneVersion),
    On h w →
    (getTombstoneVersion fileId).Ends cloud (Beside h) t v w
      (.ok version) v' w' →
    h.AtomicRead (.tombstone fileId) w.now w'.now
      (.tombstone version.tombstone) version.etag

/- The ETag of head is kept in the log that loads it. -/
def HeadReadsAtomic (h : History Key Body) : Prop :=
  ∀ (t : Tid) (log log' : OperationLog) (w w' : World)
    (head : OpId),
    On h w →
    OperationLog.loadHead.Ends cloud (Beside h) t log w
      (.ok (some head)) log' w' →
    ∃ etag, log'.currentHeadEtag = some etag ∧
      h.AtomicRead .head w.now w'.now (.head (some head)) etag

def IsEntry (body : Body) : Prop :=
  ∃ entry, body = .entry entry

def IsDeletionOf
    (fileId : FileId)
    (body : Body) : Prop :=
  ∃ tombstone, body = .tombstone tombstone ∧
    tombstone.fileId = fileId

def IsHead (body : Body) : Prop :=
  ∃ head, body = .head (some head)

theorem entryReadsAtomic_iff
    (h : History Key Body)
    (fileId : FileId) :
    EntryReadsAtomic h fileId ↔
      h.Steady (.tree fileId) IsEntry := by
  rw [← History.steady_iff]
  have hOn (first : Nat) :
      On h (atMoment h first World.fresh) := rfl
  constructor
  · rintro hReads first last _ ⟨before⟩ ⟨entry, rfl⟩
      ⟨i, j, k, hFirst, hLeft, hRight, hLast, hBefore, hEntry,
        hAfter⟩
    rcases getEntryVersion_runs (t := 0) (v := ())
        (w := atMoment h first World.fresh) hFirst hLeft hRight
        hBefore hEntry hAfter with
      ⟨w', rfl, hEnds⟩
    exact (hReads Unit 0 () () _ w' _ (hOn first) hEnds).until hLast
  · intro hPairs l t v v' w w' version hOn hEnds
    exact hPairs _ _ _ _ ⟨_, rfl⟩
      (getEntryVersionRounds_paired hOn hEnds)

theorem tombstoneReadsAtomic_iff
    (h : History Key Body)
    (fileId : FileId) :
    TombstoneReadsAtomic h fileId ↔
      h.Steady (.tombstone fileId) (IsDeletionOf fileId) := by
  rw [← History.steady_iff]
  have hOn (first : Nat) :
      On h (atMoment h first World.fresh) := rfl
  constructor
  · rintro hReads first last _ ⟨before⟩ ⟨tombstone, rfl, rfl⟩
      ⟨i, j, k, hFirst, hLeft, hRight, hLast, hBefore, hRecord,
        hAfter⟩
    rcases getTombstoneVersion_runs (t := 0) (v := ())
        (w := atMoment h first World.fresh) hFirst hLeft hRight
        hBefore hRecord hAfter with
      ⟨w', rfl, hEnds⟩
    exact (hReads Unit 0 () () _ w' _ (hOn first) hEnds).until hLast
  · intro hPairs l t v v' w w' version hOn hEnds
    rcases getTombstoneVersionRounds_paired hOn hEnds with
      ⟨hIdentity, hPaired⟩
    exact hPairs _ _ _ _ ⟨_, rfl, hIdentity⟩ hPaired

theorem headReadsAtomic_iff
    (h : History Key Body) :
    HeadReadsAtomic h ↔ h.Steady .head IsHead := by
  rw [← History.steady_iff]
  have hOn (first : Nat) :
      On h (atMoment h first World.fresh) := rfl
  constructor
  · rintro hReads first last _ ⟨before⟩ ⟨head, rfl⟩
      ⟨i, j, k, hFirst, hLeft, hRight, hLast, hBefore, hHead,
        hAfter⟩
    rcases loadHead_runs (t := 0)
        (w := atMoment h first World.fresh) (.new 0 0) hFirst
        hLeft hRight hBefore hHead hAfter with
      ⟨w', rfl, hEnds⟩
    rcases hReads 0 _ _ _ w' head (hOn first) hEnds with
      ⟨etag, hEtag, hAtomic⟩
    cases hEtag
    exact hAtomic.until hLast
  · intro hPairs t log log' w w' head hOn hEnds
    rcases loadHead_paired hOn hEnds with
      ⟨etag, hEtag, hPaired⟩
    exact ⟨etag, hEtag, hPairs _ _ _ _ ⟨_, rfl⟩ hPaired⟩

/-
  Whatever others write and delete in between, the reads are
  atomic iff no object gets a body back that it had before
  another one that the read accepts.
-/
theorem versioned_reads_atomic_iff
    (h : History Key Body) :
    (∀ fileId, EntryReadsAtomic h fileId ↔
      h.Steady (.tree fileId) IsEntry) ∧
    (∀ fileId, TombstoneReadsAtomic h fileId ↔
      h.Steady (.tombstone fileId) (IsDeletionOf fileId)) ∧
    (HeadReadsAtomic h ↔ h.Steady .head IsHead) :=
  ⟨entryReadsAtomic_iff h, tombstoneReadsAtomic_iff h,
    headReadsAtomic_iff h⟩

def planEntry (name : String) : FileEntry where
  fileId := 7
  parentId := none
  name := name
  entryType := .file
  currentRevisionId := none
  contentRef := none
  size := 0
  contentHash := none
  mime := none
  updatedAt := 0
  deletedAt := none
  versionHistory := []

/- The first write is delivered once more after the second. -/
def twiceDelivered : History Key Body where
  start := ∅
  writes :=
    [.put (.tree 7) (.entry (planEntry "Draft")),
      .put (.tree 7) (.entry (planEntry "Plan")),
      .put (.tree 7) (.entry (planEntry "Draft"))]

/-
  The entry that is read has the ETag of the other one, so a
  write that expects the ETag replaces what was not read.
-/
theorem twiceDelivered_read :
    ∃ w',
      (getEntryVersion 7 : CloudM Unit _).Ends cloud
        (Beside twiceDelivered) 0 ()
        (atMoment twiceDelivered 0 World.fresh)
        (.ok (some
          ⟨planEntry "Plan", ⟨.entry (planEntry "Draft")⟩⟩))
        () w' ∧
      (Write.putIfMatch (.tree 7) (.entry (planEntry "Final"))
        ⟨.entry (planEntry "Draft")⟩).Allowed
        (twiceDelivered.objects w'.now) ∧
      ¬ EntryReadsAtomic twiceDelivered 7 := by
  have hFirst :
      twiceDelivered.bodyAt (.tree 7) 1 =
        some (.entry (planEntry "Draft")) := rfl
  have hSecond :
      twiceDelivered.bodyAt (.tree 7) 2 =
        some (.entry (planEntry "Plan")) := rfl
  have hThird :
      twiceDelivered.bodyAt (.tree 7) 3 =
        some (.entry (planEntry "Draft")) := rfl
  have hOn :
      On twiceDelivered
        (atMoment twiceDelivered 0 World.fresh) := rfl
  rcases getEntryVersion_runs (t := 0) (v := ())
      (w := atMoment twiceDelivered 0 World.fresh)
      (Nat.zero_le 1) (Nat.le_succ 1) (Nat.le_succ 2) hFirst
      hSecond hThird with
    ⟨w', hNow, hEnds⟩
  refine ⟨w', hEnds, hNow ▸ hThird, fun hReads => ?_⟩
  rcases (hReads Unit 0 () () _ w' _ hOn hEnds).stored with
    ⟨moment, _, _, _, hSame⟩
  exact absurd hSame (by decide)

end S4Drive.VersionedReads

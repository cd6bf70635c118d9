import S4Drive.Sync.NotesPasses

/-
  Which rows a replay of the Notes intents marks as synced.
  A published intent looks only for newer changes of a row
  that are not committed. An older one stays hidden below
  it when it was passed over: a save, the making of a note,
  or a change that is not indexed yet.

  Main declarations:
    * `Syncs`, `replay_syncs`
    * `NothingUnpublished`, `NothingHidden`
    * `marked_when_published_iff`
-/

------------------------------------------------------------
-- What a Replay Marks
------------------------------------------------------------

namespace S4Drive.NotesMarks

open ObjectStore Concurrency NotesReplay

/- A folder that is on the way up from `start`. -/
inductive Above
    (folderById : FileId → Option IndexedFolder) :
    Option FileId → FileId → Prop where
  | here
      {id : FileId} {folder : IndexedFolder}
      (indexed : folderById id = some folder) :
      Above folderById (some id) folder.fileId
  | up
      {id above : FileId} {folder : IndexedFolder}
      (indexed : folderById id = some folder)
      (further : Above folderById folder.parentId above) :
      Above folderById (some id) above

/- Rows of folders above an entry, still to be uploaded. -/
def Reserved
    (db : NotesDb)
    (x : IndexedIntent)
    (ids : List FileId) : Prop :=
  ∀ id ∈ ids, db.objectState id = some "pending_upload" ∧
    Above db.folderById (rootParent x) id

/-
  A replay of the intents with what came of those that were
  tried, and with the rows that each of them marked.
-/
inductive Syncs
    (stages : Uuid → Option MutationStage)
    (latest : FileId → Option Nat) :
    List IndexedIntent → NotesDb →
      List (Uuid × CoreResult Bool) →
      List (IndexedIntent × FileId) → NotesDb → Prop where
  | done
      {v : NotesDb} :
      Syncs stages latest [] v [] [] v
  | skipped
      {x : IndexedIntent} {rest : List IndexedIntent}
      {outcomes : List (Uuid × CoreResult Bool)}
      {marks : List (IndexedIntent × FileId)}
      {v v' : NotesDb}
      (other : stages x.requestId ≠ some .indexed)
      (next : Syncs stages latest rest v outcomes marks v') :
      Syncs stages latest (x :: rest) v outcomes marks v'
  | failed
      {x : IndexedIntent} {rest : List IndexedIntent}
      {ids : List FileId} {v : NotesDb} {e : CoreError}
      (indexed : stages x.requestId = some .indexed)
      (reserved : Reserved v x ids) :
      Syncs stages latest (x :: rest) v
        [(x.requestId, .error e)] (ids.map (x, ·))
        ((ids.foldl NotesDb.markFileSynced v).note x.requestId
          (.error e))
  | passed
      {x : IndexedIntent} {rest : List IndexedIntent}
      {outcomes : List (Uuid × CoreResult Bool)}
      {marks : List (IndexedIntent × FileId)}
      {v v' : NotesDb}
      (indexed : stages x.requestId = some .indexed)
      (inert : x.Inert)
      (next :
        Syncs stages latest rest
          (v.note x.requestId (.ok false)) outcomes marks v') :
      Syncs stages latest (x :: rest) v
        ((x.requestId, .ok false) :: outcomes) marks v'
  | published
      {x : IndexedIntent} {rest : List IndexedIntent}
      {outcomes : List (Uuid × CoreResult Bool)}
      {marks : List (IndexedIntent × FileId)}
      {ids : List FileId} {v v' : NotesDb}
      (indexed : stages x.requestId = some .indexed)
      (active : ¬ x.Inert)
      (reserved : Reserved v x ids)
      (next :
        Syncs stages latest rest
          (((rowsToMark latest x).foldl NotesDb.markFileSynced
            ((ids.foldl NotesDb.markFileSynced v).note
              x.requestId (.ok true))).markMutationCommitted
            x.requestId) outcomes marks v') :
      Syncs stages latest (x :: rest) v
        ((x.requestId, .ok true) :: outcomes)
        ((ids ++ rowsToMark latest x).map (x, ·) ++ marks) v'

variable {env : World → World → Prop} {t : Tid}
variable {deviceId : DeviceId} {conditionalDelete : Bool}
variable {x y : IndexedIntent} {intents : List IndexedIntent}
variable {v v' : NotesDb} {w w' : World}
variable {stages : Uuid → Option MutationStage}
variable {latest : FileId → Option Nat}
variable {outcomes : List (Uuid × CoreResult Bool)}
variable {marks : List (IndexedIntent × FileId)}

theorem keeps_all
    {α : Type} {p : NotesM α} {r : CoreResult α}
    (hKeeps : Keeping cloud env t (id : NotesDb → NotesDb) p)
    (h : p.Ends cloud env t v w r v' w') : v' = v :=
  hKeeps v w r v' w' h

/- The folders that are missing are above the entry. -/
theorem missingFolders_above
    {rounds : Nat} {missing folders : List IndexedFolder}
    {current : Option FileId}
    (hRefl : ∀ w, env w w)
    (h :
      (missingFolders rounds missing current).Ends cloud env t v
        w (.ok folders) v' w') :
    ∀ folder ∈ folders, folder ∈ missing ∨
      Above v.folderById current folder.fileId := by
  induction rounds generalizing missing current w with
  | zero =>
      cases current with
      | none =>
          cases (Script.ends_pure h).1
          exact fun _ hMem => .inl hMem
      | some id =>
          rcases Script.ends_bind hRefl h with
            ⟨gone, v₁, w₁, _, hRest⟩ | ⟨e, w₁, _, hSame⟩
          · cases gone with
            | true => cases (Script.ends_throw hRest).1
            | false =>
                cases (Script.ends_pure hRest).1
                exact fun _ hMem => .inl hMem
          · cases hSame
  | succ rounds ih =>
      cases current with
      | none =>
          cases (Script.ends_pure h).1
          exact fun _ hMem => .inl hMem
      | some id =>
          rcases Script.ends_bind hRefl h with
            ⟨gone, v₁, w₁, hGone, hRest⟩ | ⟨e, w₁, _, hSame⟩
          · obtain rfl := keeps_all (isMissing_keeps hRefl id)
              hGone
            cases gone with
            | false =>
                cases (Script.ends_pure hRest).1
                exact fun _ hMem => .inl hMem
            | true =>
                rw [if_pos rfl] at hRest
                split at hRest
                · cases (Script.ends_throw hRest).1
                · have hNext := Script.ends_get_bind hRest
                  cases hFolder : v₁.folderById id with
                  | none =>
                      rw [hFolder] at hNext
                      cases (Script.ends_throw hNext).1
                  | some folder =>
                      rw [hFolder] at hNext
                      intro found hMem
                      rcases ih hNext found hMem with hIn | hUp
                      · rcases List.mem_cons.mp hIn with
                          rfl | hIn
                        · exact .inr (.here hFolder)
                        · exact .inl hIn
                      · exact .inr (.up hFolder hUp)
          · cases hSame

/- Marking makes no row wait for an upload. -/
theorem pending_before
    {id marked : FileId}
    (h :
      (v.markFileSynced marked).objectState id =
        some "pending_upload") :
    v.objectState id = some "pending_upload" := by
  simp only [NotesDb.markFileSynced] at h
  split at h
  · rcases Option.map_eq_some_iff.mp h with ⟨_, _, hSynced⟩
    exact absurd hSynced (by decide)
  · exact h

/- Folders are only marked while they wait for an upload. -/
theorem publishFolders_marks
    {folders : List IndexedFolder} {r : CoreResult Unit}
    (hRefl : ∀ w, env w w)
    (h :
      (publishFolders deviceId folders).Ends cloud env t v w r
        v' w') :
    ∃ ids : List FileId,
      v' = ids.foldl NotesDb.markFileSynced v ∧
      ∀ id ∈ ids, v.objectState id = some "pending_upload" ∧
        ∃ folder ∈ folders, folder.fileId = id := by
  induction folders generalizing v w with
  | nil => exact ⟨[], (Script.ends_pure h).2, nofun⟩
  | cons folder rest ih =>
      unfold publishFolders at h
      rcases Script.ends_bind hRefl h with
        ⟨_, v₁, w₁, hCreated, hRest⟩ | ⟨e, w₁, hCreated, _⟩
      · obtain rfl := keeps_all (keeping_lift hRefl _) hCreated
        rcases Script.ends_bind hRefl hRest with
          ⟨_, v₂, w₂, hMark, hNext⟩ | ⟨e, w₂, hMark, _⟩
        · have hMarked := (Script.ends_modify hMark).2
          rcases ih hNext with ⟨ids, hLast, hIds⟩
          split at hMarked
          case isFalse =>
            subst hMarked
            refine ⟨ids, hLast, fun id hId => ?_⟩
            rcases hIds id hId with ⟨hState, above, hAbove, hSame⟩
            exact ⟨hState, above,
              List.mem_cons_of_mem _ hAbove, hSame⟩
          case isTrue hPending =>
            subst hMarked
            refine ⟨folder.fileId :: ids, hLast, ?_⟩
            intro id hId
            rcases List.mem_cons.mp hId with rfl | hId
            · exact ⟨hPending, folder, List.mem_cons_self, rfl⟩
            · rcases hIds id hId with
                ⟨hState, above, hAbove, hSame⟩
              exact ⟨pending_before hState, above,
                List.mem_cons_of_mem _ hAbove, hSame⟩
        · cases (Script.ends_modify hMark).1
      · exact ⟨[], keeps_all (keeping_lift hRefl _) hCreated,
          nofun⟩

theorem ensureParent_marks
    {r : CoreResult Unit}
    (hRefl : ∀ w, env w w)
    (h :
      (ensureParent deviceId x.intent).Ends cloud env t v w r v'
        w') :
    ∃ ids, v' = ids.foldl NotesDb.markFileSynced v ∧
      Reserved v x ids := by
  unfold ensureParent at h
  rcases Script.ends_bind hRefl h with
    ⟨entry, v₁, w₁, hRoot, hRest⟩ | ⟨e, w₁, hRoot, _⟩
  · rcases Script.ends_ofExcept hRoot with ⟨hEntry, rfl⟩
    have hStart : rootParent x = entry.parentId := by
      unfold rootChange at hEntry
      unfold rootParent
      split at hEntry
      case h_1 root hFound =>
        cases hEntry
        rw [hFound]
        rfl
      case h_2 => cases hEntry
    rcases Script.ends_bind hRefl hRest with
      ⟨folders, v₂, w₂, hMissing, hNext⟩ | ⟨e, w₂, hMissing, _⟩
    · obtain rfl :=
        keeps_all (missingFolders_keeps hRefl _ _ _) hMissing
      have hAbove := missingFolders_above hRefl hMissing
      rcases publishFolders_marks hRefl hNext with
        ⟨ids, hLast, hIds⟩
      refine ⟨ids, hLast, fun id hId => ?_⟩
      rcases hIds id hId with ⟨hState, folder, hMem, rfl⟩
      rcases hAbove folder hMem with hNone | hUp
      · cases hNone
      · rw [hStart]
        exact ⟨hState, hUp⟩
    · exact ⟨[],
        keeps_all (missingFolders_keeps hRefl _ _ _) hMissing,
        nofun⟩
  · exact ⟨[], (Script.ends_ofExcept hRoot).2, nofun⟩

/- What is published leaves no other rows to mark. -/
theorem publish_marks
    {restored : List FileId} {r : CoreResult Bool}
    (hRefl : ∀ w, env w w)
    (h :
      (publish deviceId conditionalDelete x restored).Ends cloud
        env t v w r v' w') :
    ∃ ids, v' = ids.foldl NotesDb.markFileSynced v ∧
      Reserved v x ids ∧ (r = .ok false → x.Inert) := by
  have lifted {y : CloudM Unit Unit} {v v' : NotesDb}
      {w w' : World}
      (h :
        (do
          Script.lift y
          pure true : NotesM Bool).Ends cloud env t v w r v' w') :
      v' = v ∧ r ≠ .ok false := by
    rcases Script.ends_bind hRefl h with
      ⟨_, v₁, w₁, hFirst, hRest⟩ | ⟨e, w₁, hFirst, rfl⟩
    · rcases Script.ends_pure hRest with ⟨rfl, rfl⟩
      exact ⟨keeps_all (keeping_lift hRefl _) hFirst, nofun⟩
    · exact ⟨keeps_all (keeping_lift hRefl _) hFirst, nofun⟩
  have placed {y : CloudM Unit Unit}
      (h :
        (do
          ensureParent deviceId x.intent
          Script.lift y
          pure true : NotesM Bool).Ends cloud env t v w r v' w') :
      ∃ ids, v' = ids.foldl NotesDb.markFileSynced v ∧
        Reserved v x ids ∧ (r = .ok false → x.Inert) := by
    rcases Script.ends_bind hRefl h with
      ⟨_, v₁, w₁, hParent, hRest⟩ | ⟨e, w₁, hParent, rfl⟩
    · rcases ensureParent_marks hRefl hParent with
        ⟨ids, hMarked, hReserved⟩
      rcases lifted hRest with ⟨rfl, hDone⟩
      exact ⟨ids, hMarked, hReserved, fun hFalse =>
        absurd hFalse hDone⟩
    · rcases ensureParent_marks hRefl hParent with
        ⟨ids, hMarked, hReserved⟩
      exact ⟨ids, hMarked, hReserved, nofun⟩
  unfold publish at h
  split at h
  · rcases Script.ends_pure h with ⟨rfl, rfl⟩
    exact ⟨[], rfl, nofun, nofun⟩
  case isFalse hOp =>
    have hActs : x.noOp = false := Bool.eq_false_iff.mpr hOp
    split at h
    · exact placed h
    · exact placed h
    · exact placed h
    · rcases lifted h with ⟨rfl, hDone⟩
      exact ⟨[], rfl, nofun, fun hFalse => absurd hFalse hDone⟩
    · exact placed h
    case h_6 hKind =>
      exact ⟨[], (Script.ends_pure h).2, nofun, fun _ =>
        ⟨hActs, .inl hKind⟩⟩
    case h_7 hKind =>
      exact ⟨[], (Script.ends_pure h).2, nofun, fun _ =>
        ⟨hActs, .inr hKind⟩⟩

theorem replayFrom_syncs
    {restored : List FileId} {committed : Nat}
    {r : CoreResult Nat}
    (hRefl : ∀ w, env w w)
    (h :
      (replayFrom (publish deviceId conditionalDelete) stages
        latest intents restored committed).Ends cloud env t v w
        r v' w') :
    ∃ outcomes marks,
      Syncs stages latest intents v outcomes marks v' := by
  induction intents generalizing v w restored committed with
  | nil =>
      obtain rfl := (Script.ends_pure h).2
      exact ⟨[], [], .done⟩
  | cons x rest ih =>
      rcases replayFrom_cases hRefl h with
        ⟨hOther, hNext⟩ |
        ⟨hIndexed, result, v₁, w₁, hPublish, hRest⟩
      · rcases ih hNext with ⟨outcomes, marks, hSyncs⟩
        exact ⟨outcomes, marks, .skipped hOther hSyncs⟩
      rcases publish_marks hRefl hPublish with
        ⟨ids, hMarked, hReserved, hPassed⟩
      rcases hRest with
        ⟨e, rfl, rfl, rfl⟩ | ⟨rfl, w₂, hNext⟩ |
        ⟨rfl, _, _, w₂, hNext⟩
      · subst hMarked
        exact ⟨_, _, .failed hIndexed hReserved⟩
      · have hInert : x.Inert := hPassed rfl
        rw [publish_inert hInert] at hPublish
        obtain rfl := (Script.ends_pure hPublish).2
        rcases ih hNext with ⟨outcomes, marks, hSyncs⟩
        exact ⟨_, marks, .passed hIndexed hInert hSyncs⟩
      · subst hMarked
        rcases ih hNext with ⟨outcomes, marks, hSyncs⟩
        exact ⟨_, _, .published hIndexed
          (publish_active hPublish nofun) hReserved hSyncs⟩

/- Every replay is such a run. -/
theorem replay_syncs
    {r : CoreResult Nat}
    (hRefl : ∀ w, env w w)
    (h :
      (replay (publish deviceId conditionalDelete)
        intents).Ends cloud env t v w r v' w') :
    ∃ outcomes marks,
      Syncs v.stages (latestPending intents v.stages) intents v
        outcomes marks v' := by
  unfold replay at h
  exact replayFrom_syncs hRefl (Script.ends_get_bind h)

@[simp] theorem stages_markAll
    (ids : List FileId)
    (db : NotesDb) :
    (ids.foldl NotesDb.markFileSynced db).stages = db.stages :=
  NotesDb.stages_of_core (NotesDb.core_markAll ids db)

@[simp] theorem tried_markAll
    (ids : List FileId)
    (db : NotesDb) :
    (ids.foldl NotesDb.markFileSynced db).tried = db.tried :=
  NotesDb.tried_of_core (NotesDb.core_markAll ids db)

/- A published intent is the only one whose stage changes. -/
theorem stages_published
    (x : IndexedIntent)
    (ids rows : List FileId)
    (v : NotesDb)
    (q : Uuid) :
    ((rows.foldl NotesDb.markFileSynced
        ((ids.foldl NotesDb.markFileSynced v).note x.requestId
          (.ok true))).markMutationCommitted
        x.requestId).stages q =
      if q = x.requestId ∧ v.stages q = some .indexed then
        some .committed
      else
        v.stages q := by
  simp [NotesDb.markMutationCommitted, NotesDb.note]

/- The history has the outcomes, in their order. -/
theorem Syncs.tried
    (h : Syncs stages latest intents v outcomes marks v') :
    v'.tried = v.tried ++ outcomes := by
  induction h with
  | done => rw [List.append_nil]
  | skipped _ _ ih => exact ih
  | failed => simp [NotesDb.note]
  | passed _ _ _ ih => simp [ih, NotesDb.note]
  | published _ _ _ _ ih =>
      simp [ih, NotesDb.note, NotesDb.markMutationCommitted]

theorem Syncs.tried_mem
    {q : Uuid} {r : CoreResult Bool}
    (h : Syncs stages latest intents v outcomes marks v')
    (hTried : (q, r) ∈ outcomes) :
    q ∈ intents.map IndexedIntent.requestId := by
  induction h with
  | done => cases hTried
  | skipped _ _ ih => exact List.mem_cons_of_mem _ (ih hTried)
  | failed =>
      cases List.mem_singleton.mp hTried
      exact List.mem_cons_self
  | passed _ _ _ ih =>
      rcases List.mem_cons.mp hTried with hHere | hLater
      · cases hHere
        exact List.mem_cons_self
      · exact List.mem_cons_of_mem _ (ih hLater)
  | published _ _ _ _ ih =>
      rcases List.mem_cons.mp hTried with hHere | hLater
      · cases hHere
        exact List.mem_cons_self
      · exact List.mem_cons_of_mem _ (ih hLater)

/- No stage changes without a publication. -/
theorem Syncs.stage_same
    {q : Uuid}
    (h : Syncs stages latest intents v outcomes marks v')
    (hOther :
      (q, .ok true) ∉ outcomes ∨
        v.stages q ≠ some .indexed) :
    v'.stages q = v.stages q := by
  induction h with
  | done => rfl
  | skipped _ _ ih => exact ih hOther
  | failed => simp [NotesDb.note]
  | passed _ _ _ ih =>
      exact ih (hOther.imp_left fun hNone hLater =>
        hNone (List.mem_cons_of_mem _ hLater))
  | @published x _ _ _ ids v _ _ _ _ _ ih =>
      have hHere :
          ¬ (q = x.requestId ∧ v.stages q = some .indexed) := by
        rintro ⟨rfl, hIndexed⟩
        rcases hOther with hNone | hStage
        · exact hNone List.mem_cons_self
        · exact hStage hIndexed
      have hStage :=
        stages_published x ids (rowsToMark latest x) v q
      rw [if_neg hHere] at hStage
      rw [ih, hStage]
      rw [hStage]
      exact hOther.imp_left fun hNone hLater =>
        hNone (List.mem_cons_of_mem _ hLater)

theorem Syncs.stage_published
    {q : Uuid}
    (h : Syncs stages latest intents v outcomes marks v')
    (hDone : (q, .ok true) ∈ outcomes)
    (hIndexed : v.stages q = some .indexed) :
    v'.stages q = some .committed := by
  induction h with
  | done => cases hDone
  | skipped _ _ ih => exact ih hDone hIndexed
  | failed => cases List.mem_singleton.mp hDone
  | passed _ _ _ ih =>
      rcases List.mem_cons.mp hDone with hHere | hLater
      · cases hHere
      · exact ih hLater hIndexed
  | @published x _ _ _ ids v _ _ _ _ next ih =>
      have hStage :=
        stages_published x ids (rowsToMark latest x) v q
      by_cases hHere : q = x.requestId
      · rw [if_pos ⟨hHere, hIndexed⟩] at hStage
        rw [next.stage_same (.inr (by rw [hStage]; nofun)), hStage]
      · rw [if_neg fun h => hHere h.1] at hStage
        rcases List.mem_cons.mp hDone with hSame | hLater
        · exact absurd (congrArg Prod.fst hSame) hHere
        · exact ih hLater (hStage.trans hIndexed)

------------------------------------------------------------
-- Hidden Mutations
------------------------------------------------------------

/- The mutation is about the item, or changes its row. -/
def Touches
    (y : IndexedIntent)
    (id : FileId) : Prop :=
  y.intent.fileId = id ∨
    ∃ entry ∈ y.intent.changes, entry.fileId = id

/- The journal hands out its intents in their order. -/
structure Recorded (intents : List IndexedIntent) : Prop where
  ordered :
    intents.Pairwise fun x y => x.sequence < y.sequence
  distinct : (intents.map IndexedIntent.requestId).Nodup

/-
  The mutation is published, or `superseded` by what is not
  part of the replay: an upload, or a later change.
-/
def Settled
    (superseded : Uuid → Prop)
    (db : NotesDb)
    (y : IndexedIntent) : Prop :=
  db.stages y.requestId = some .committed ∨
    superseded y.requestId

/- The replay itself publishes the mutation. -/
structure Due
    (db : NotesDb)
    (outcomes : List (Uuid × CoreResult Bool))
    (y : IndexedIntent) : Prop where
  indexed : db.stages y.requestId = some .indexed
  active : ¬ y.Inert
  unfailing : ∀ e, (y.requestId, .error e) ∉ outcomes

/- Of the item, all up to the mutation `x` is published. -/
def NothingUnpublished
    (superseded : Uuid → Prop)
    (intents : List IndexedIntent)
    (db : NotesDb)
    (x : IndexedIntent)
    (id : FileId) : Prop :=
  ∀ y ∈ intents, Touches y id → y.sequence ≤ x.sequence →
    Settled superseded db y

/- Before the replay, nothing of it is left to others. -/
def NothingHidden
    (superseded : Uuid → Prop)
    (intents : List IndexedIntent)
    (db : NotesDb)
    (outcomes : List (Uuid × CoreResult Bool))
    (x : IndexedIntent)
    (id : FileId) : Prop :=
  ∀ y ∈ intents, Touches y id → y.sequence ≤ x.sequence →
    Settled superseded db y ∨ Due db outcomes y

variable {rest : List IndexedIntent}

theorem Recorded.tail
    (h : Recorded (x :: rest)) : Recorded rest where
  ordered := h.ordered.of_cons
  distinct := (List.nodup_cons.mp h.distinct).2

theorem Recorded.after
    (h : Recorded (x :: rest))
    (hMem : y ∈ rest) : x.sequence < y.sequence :=
  List.rel_of_pairwise_cons h.ordered hMem

theorem Recorded.fresh
    (h : Recorded (x :: rest)) :
    x.requestId ∉ rest.map IndexedIntent.requestId :=
  (List.nodup_cons.mp h.distinct).1

variable {id : FileId}

theorem marker_of_mem
    {ids : List FileId}
    (h : (x, id) ∈ ids.map (y, ·)) : x = y := by
  rcases List.mem_map.mp h with ⟨_, _, hSame⟩
  exact (congrArg Prod.fst hSame).symm

theorem Syncs.mark_mem
    (h : Syncs stages latest intents v outcomes marks v')
    (hMark : (x, id) ∈ marks) : x ∈ intents := by
  induction h with
  | done => cases hMark
  | skipped _ _ ih => exact List.mem_cons_of_mem _ (ih hMark)
  | failed =>
      rw [marker_of_mem hMark]
      exact List.mem_cons_self
  | passed _ _ _ ih => exact List.mem_cons_of_mem _ (ih hMark)
  | published _ _ _ _ ih =>
      rcases List.mem_append.mp hMark with hHere | hLater
      · rw [marker_of_mem hHere]
        exact List.mem_cons_self
      · exact List.mem_cons_of_mem _ (ih hLater)

/-
  An intent that marks something is reached, so all intents
  before it that the replay publishes have succeeded.
-/
theorem Syncs.published_before
    (hRecorded : Recorded intents)
    (h : Syncs stages latest intents v outcomes marks v')
    (hMark : (x, id) ∈ marks)
    (hMem : y ∈ intents)
    (hSeq : y.sequence ≤ x.sequence)
    (hIndexed : stages y.requestId = some .indexed)
    (hActive : ¬ y.Inert)
    (hUnfailing : ∀ e, (y.requestId, .error e) ∉ outcomes) :
    (y.requestId, .ok true) ∈ outcomes := by
  induction h with
  | done => cases hMark
  | skipped other _ ih =>
      rcases List.mem_cons.mp hMem with rfl | hRest
      · exact absurd hIndexed other
      · exact ih hRecorded.tail hMark hRest hUnfailing
  | failed =>
      obtain rfl := marker_of_mem hMark
      rcases List.mem_cons.mp hMem with rfl | hRest
      · exact absurd (List.mem_singleton_self _) (hUnfailing _)
      · have hLess := hRecorded.after hRest
        omega
  | passed _ inert _ ih =>
      rcases List.mem_cons.mp hMem with rfl | hRest
      · exact absurd inert hActive
      · refine List.mem_cons_of_mem _
          (ih hRecorded.tail hMark hRest fun e hLater => ?_)
        exact hUnfailing e (List.mem_cons_of_mem _ hLater)
  | published _ _ _ _ ih =>
      rcases List.mem_cons.mp hMem with rfl | hRest
      · exact List.mem_cons_self
      · rcases List.mem_append.mp hMark with hHere | hLater
        · obtain rfl := marker_of_mem hHere
          have hLess := hRecorded.after hRest
          omega
        · refine List.mem_cons_of_mem _
            (ih hRecorded.tail hLater hRest fun e hLater => ?_)
          exact hUnfailing e (List.mem_cons_of_mem _ hLater)

/- What is published was not passed over, and not failed. -/
theorem Syncs.published_once
    (hRecorded : Recorded intents)
    (h : Syncs stages latest intents v outcomes marks v')
    (hMem : y ∈ intents)
    (hDone : (y.requestId, .ok true) ∈ outcomes) :
    ¬ y.Inert ∧ ∀ e, (y.requestId, .error e) ∉ outcomes := by
  have further {q : Uuid} {done : Bool}
      {outcomes : List (Uuid × CoreResult Bool)}
      (h : ∀ e, (y.requestId, .error e) ∉ outcomes)
      (e : CoreError) :
      (y.requestId, .error e) ∉ (q, .ok done) :: outcomes := by
    simpa using h e
  induction h with
  | done => cases hDone
  | skipped _ next ih =>
      rcases List.mem_cons.mp hMem with rfl | hRest
      · exact absurd (next.tried_mem hDone) hRecorded.fresh
      · exact ih hRecorded.tail hRest hDone
  | failed => exact absurd (List.mem_singleton.mp hDone) (by simp)
  | passed _ _ next ih =>
      have hLater := (List.mem_cons.mp hDone).resolve_left (by simp)
      rcases List.mem_cons.mp hMem with rfl | hRest
      · exact absurd (next.tried_mem hLater) hRecorded.fresh
      · exact (ih hRecorded.tail hRest hLater).imp_right further
  | @published _ rest _ _ _ _ _ _ active _ next ih =>
      rcases List.mem_cons.mp hMem with rfl | hRest
      · refine ⟨active, further fun e hFailed => ?_⟩
        exact hRecorded.fresh (next.tried_mem hFailed)
      · rcases List.mem_cons.mp hDone with hHere | hLater
        · have hListed :
              y.requestId ∈ rest.map IndexedIntent.requestId :=
            List.mem_map_of_mem hRest
          rw [(Prod.mk.inj hHere).1] at hListed
          exact absurd hListed hRecorded.fresh
        · exact (ih hRecorded.tail hRest hLater).imp_right
            further

theorem markAll_synced
    {ids : List FileId} {db : NotesDb}
    (h :
      (ids.foldl NotesDb.markFileSynced db).objectState id =
        some "synced") :
    db.objectState id = some "synced" ∨ id ∈ ids := by
  induction ids generalizing db with
  | nil => exact .inl h
  | cons first rest ih =>
      rcases ih h with hState | hLater
      · simp only [NotesDb.markFileSynced] at hState
        split at hState
        case isTrue hHere =>
          exact .inr (hHere ▸ List.mem_cons_self)
        case isFalse => exact .inl hState
      · exact .inr (List.mem_cons_of_mem _ hLater)

/- Every row that becomes synced is one of the marks. -/
theorem Syncs.marked
    (h : Syncs stages latest intents v outcomes marks v')
    (hSynced : v'.objectState id = some "synced") :
    v.objectState id = some "synced" ∨ ∃ x, (x, id) ∈ marks := by
  induction h with
  | done => exact .inl hSynced
  | skipped _ _ ih => exact ih hSynced
  | @failed x _ ids _ _ _ _ =>
      exact (markAll_synced hSynced).imp_right fun hMem =>
        ⟨x, List.mem_map_of_mem hMem⟩
  | passed _ _ _ ih => exact ih hSynced
  | @published x _ _ _ ids _ _ _ _ _ _ ih =>
      have here (hMem : id ∈ ids ++ rowsToMark latest x) :
          (x, id) ∈ (ids ++ rowsToMark latest x).map (x, ·) :=
        List.mem_map_of_mem hMem
      rcases ih hSynced with hState | ⟨z, hMark⟩
      · rcases markAll_synced hState with hState | hRow
        · rcases markAll_synced hState with hState | hFolder
          · exact .inl hState
          · exact .inr ⟨x, List.mem_append_left _
              (here (List.mem_append_left _ hFolder))⟩
        · exact .inr ⟨x, List.mem_append_left _
            (here (List.mem_append_right _ hRow))⟩
      · exact .inr ⟨z, List.mem_append_right _ hMark⟩

variable {superseded : Uuid → Prop}

/- Who is published after a replay that reaches that far. -/
theorem Syncs.settled_iff
    (hRecorded : Recorded intents)
    (h : Syncs v.stages latest intents v outcomes marks v')
    (hMark : (x, id) ∈ marks)
    (hMem : y ∈ intents)
    (hSeq : y.sequence ≤ x.sequence) :
    Settled superseded v' y ↔
      Settled superseded v y ∨ Due v outcomes y := by
  constructor
  · rintro (hCommitted | hSuperseded)
    · by_cases hDone :
        (y.requestId, .ok true) ∈ outcomes ∧
          v.stages y.requestId = some .indexed
      · have hOnce := h.published_once hRecorded hMem hDone.1
        exact .inr ⟨hDone.2, hOnce.1, hOnce.2⟩
      · rw [h.stage_same (not_and_or.mp hDone)] at hCommitted
        exact .inl (.inl hCommitted)
    · exact .inl (.inr hSuperseded)
  · rintro ((hCommitted | hSuperseded) | hDue)
    · refine .inl ?_
      rwa [h.stage_same (.inr (by rw [hCommitted]; nofun))]
    · exact .inr hSuperseded
    · have hDone :=
        h.published_before hRecorded hMark hMem hSeq hDue.indexed
          hDue.active hDue.unfailing
      exact .inl (h.stage_published hDone hDue.indexed)

/-
  A replay that marks a row as synced leaves nothing of it
  unpublished iff nothing of it was left to others before:
  neither what waits for an upload nor what is not indexed.
-/
theorem marked_when_published_iff
    (superseded : Uuid → Prop)
    {r : CoreResult Nat}
    (hRefl : ∀ w, env w w)
    (hRecorded : Recorded intents)
    (h :
      (replay (publish deviceId conditionalDelete)
        intents).Ends cloud env t v w r v' w') :
    ∃ outcomes marks,
      Syncs v.stages (latestPending intents v.stages) intents v
          outcomes marks v' ∧
        v'.tried = v.tried ++ outcomes ∧
        (∀ id, v'.objectState id = some "synced" →
          v.objectState id = some "synced" ∨
            ∃ x ∈ intents, (x, id) ∈ marks) ∧
        ∀ x id, (x, id) ∈ marks →
          (NothingUnpublished superseded intents v' x id ↔
            NothingHidden superseded intents v outcomes x
              id) := by
  rcases replay_syncs hRefl h with ⟨outcomes, marks, hSyncs⟩
  refine ⟨outcomes, marks, hSyncs, hSyncs.tried, ?_, ?_⟩
  · intro id hSynced
    rcases hSyncs.marked hSynced with hBefore | ⟨x, hMark⟩
    · exact .inl hBefore
    · exact .inr ⟨x, hSyncs.mark_mem hMark, hMark⟩
  · intro x id hMark
    refine forall₂_congr fun y hMem => ?_
    refine forall₂_congr fun _ hSeq => ?_
    exact hSyncs.settled_iff hRecorded hMark hMem hSeq

/- The note after its change; its parent is in the bucket. -/
def noteEntry (name : String) : FileEntry where
  fileId := 7
  parentId := some 5
  name := name
  entryType := .file
  currentRevisionId := none
  contentRef := none
  size := 0
  contentHash := none
  mime := none
  updatedAt := 0
  deletedAt := none
  versionHistory := []

def saveIntent : IndexedIntent where
  intent :=
    { requestId := 1
      fileId := 7
      createdAt := 0
      fromRelative := none
      toRelative := "Notes/Plan.md"
      changes := [noteEntry "Plan.md"] }
  kind := .save
  sequence := 1
  noOp := false
  rootRelocation := false
  ignored := []

/- The note gets the name that it has. -/
def renameIntent : IndexedIntent where
  intent :=
    { requestId := 2
      fileId := 7
      createdAt := 0
      fromRelative := some "Notes/Plan.md"
      toRelative := "Notes/Plan.md"
      changes := [noteEntry "Plan.md"] }
  kind := .rename
  sequence := 2
  noOp := true
  rootRelocation := false
  ignored := []

/- The index with the note; `saved` is the save's stage. -/
def noteDb
    (saved renamed : MutationStage)
    (state : String)
    (tried : List (Uuid × CoreResult Bool)) : NotesDb where
  stages id :=
    if id = 1 then some saved
    else if id = 2 then some renamed
    else none
  folderById _ := none
  objectState id := if id = 7 then some state else none
  pending := []
  tried := tried

theorem note_recorded :
    Recorded [saveIntent, renameIntent] :=
  ⟨by decide, by decide⟩

/- The save is passed over, or it is not tried at all. -/
def renamedDb (db : NotesDb) : NotesDb :=
  ((db.note 2 (.ok true)).markFileSynced
    7).markMutationCommitted 2

/- The device is alone with its bucket. -/
theorem uploaded_note_replayed :
    (replay (publish 1 true)
      [saveIntent, renameIntent]).Ends cloud
      (fun w w' => w' = w) 0
      (noteDb .committed .indexed "pending_upload" [])
      World.fresh (.ok 1)
      (renamedDb (noteDb .committed .indexed "pending_upload" []))
      World.fresh :=
  Prog.ends_of_exec (fun _ => rfl)
    (show
      (replay (publish 1 true) [saveIntent, renameIntent]
        (noteDb .committed .indexed "pending_upload" [])).exec
        cloud 0 answers World.fresh = _ from rfl)

/- With the text uploaded, all marks are right. -/
theorem uploaded_note_marked :
    ∃ marks : List (IndexedIntent × FileId),
      (∃ x, (x, 7) ∈ marks) ∧
        ∀ x id, (x, id) ∈ marks →
          NothingUnpublished (fun _ => False)
            [saveIntent, renameIntent]
            (renamedDb
              (noteDb .committed .indexed "pending_upload" []))
            x id := by
  rcases marked_when_published_iff (fun _ => False)
      (by intro; rfl) note_recorded uploaded_note_replayed with
    ⟨outcomes, marks, _, hTried, hMarked, hIff⟩
  refine ⟨marks, ?_, fun x id hMark => ?_⟩
  · rcases hMarked 7 rfl with hBefore | ⟨x, _, hMark⟩
    · exact absurd hBefore (by decide)
    · exact ⟨x, hMark⟩
  · refine (hIff x id hMark).mpr fun y hMem _ _ => ?_
    rcases List.mem_cons.mp hMem with rfl | hMem
    · exact .inl (.inl rfl)
    · obtain rfl := List.mem_singleton.mp hMem
      have hOutcomes : [(2, .ok true)] = outcomes := hTried
      refine .inr ⟨rfl, fun hInert => ?_, fun e hFailed => ?_⟩
      · cases hInert.1
      · rw [← hOutcomes] at hFailed
        cases List.mem_singleton.mp hFailed

theorem saved_note_replayed :
    (replay (publish 1 true)
      [saveIntent, renameIntent]).Ends cloud
      (fun w w' => w' = w) 0
      (noteDb .indexed .indexed "pending_upload" [])
      World.fresh (.ok 1)
      (renamedDb
        ((noteDb .indexed .indexed "pending_upload" []).note 1
          (.ok false)))
      World.fresh :=
  Prog.ends_of_exec (fun _ => rfl)
    (show
      (replay (publish 1 true) [saveIntent, renameIntent]
        (noteDb .indexed .indexed "pending_upload" [])).exec
        cloud 0 answers World.fresh = _ from rfl)

/-
  The rename marks the note as synced although the text that
  was saved before it is still on the device only.
-/
theorem save_below_rename_marked :
    ∃ v',
      (replay (publish 1 true)
        [saveIntent, renameIntent]).Ends cloud
        (fun w w' => w' = w) 0
        (noteDb .indexed .indexed "pending_upload" [])
        World.fresh (.ok 1) v' World.fresh ∧
      Recorded [saveIntent, renameIntent] ∧
      7 ∈ rowsToMark
        (latestPending [saveIntent, renameIntent]
          (noteDb .indexed .indexed "pending_upload" []).stages)
        renameIntent ∧
      v'.objectState 7 = some "synced" ∧
      ¬ NothingUnpublished (fun _ => False)
        [saveIntent, renameIntent] v' renameIntent 7 := by
  refine ⟨_, saved_note_replayed, note_recorded, by decide,
    rfl, ?_⟩
  intro hNothing
  have hSettled :=
    hNothing saveIntent List.mem_cons_self (.inl rfl) (by decide)
  rcases hSettled with hCommitted | hSuperseded
  · cases hCommitted
  · exact hSuperseded

end S4Drive.NotesMarks

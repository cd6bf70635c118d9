import S4Drive.Library.ParentChain
import S4Drive.Sync.NotesReplay

/-
  What becomes of the recorded intents when passes are
  repeated. An intent that cannot be published ends every
  pass at its place, so nothing behind it is ever reached:
  no later intent, no upload and no change of another
  device. What is in front of it is published as usual.

  Main declarations:
    * `Replays`, `replay_ends`
    * `PassRun`, `Goes`
    * `sync_goes_on_iff`
-/

------------------------------------------------------------
-- What a Replay Does
------------------------------------------------------------

namespace S4Drive

open ObjectStore Concurrency

namespace NotesDb

/- The part that only the replay itself changes. -/
def core (db : NotesDb) :
    (Uuid → Option MutationStage) × List Work ×
      List (Uuid × CoreResult Bool) :=
  (db.stages, db.pending, db.tried)

@[simp] theorem core_markFileSynced
    (db : NotesDb)
    (fileId : FileId) :
    (db.markFileSynced fileId).core = db.core := rfl

variable {db db' : NotesDb}

theorem stages_of_core
    (h : db'.core = db.core) : db'.stages = db.stages :=
  congrArg Prod.fst h

theorem pending_of_core
    (h : db'.core = db.core) : db'.pending = db.pending :=
  congrArg (fun c => c.2.1) h

theorem tried_of_core
    (h : db'.core = db.core) : db'.tried = db.tried :=
  congrArg (fun c => c.2.2) h

theorem core_note
    {requestId : Uuid}
    {result : CoreResult Bool}
    (h : db'.core = db.core) :
    (db'.note requestId result).core =
      (db.note requestId result).core := by
  unfold note core
  rw [stages_of_core h, pending_of_core h, tried_of_core h]

theorem core_markMutationCommitted
    {requestId : Uuid}
    (h : db'.core = db.core) :
    (db'.markMutationCommitted requestId).core =
      (db.markMutationCommitted requestId).core := by
  unfold markMutationCommitted core
  rw [stages_of_core h, pending_of_core h, tried_of_core h]

theorem core_markAll
    (ids : List FileId)
    (db : NotesDb) :
    (ids.foldl markFileSynced db).core = db.core := by
  induction ids generalizing db with
  | nil => rfl
  | cons id rest ih =>
      rw [List.foldl_cons, ih, core_markFileSynced]

end NotesDb

namespace IndexedIntent

def requestId (x : IndexedIntent) : Uuid :=
  x.intent.requestId

/- The intent is published by the uploads. -/
def Inert (x : IndexedIntent) : Prop :=
  x.noOp = false ∧ (x.kind = .createNote ∨ x.kind = .save)

end IndexedIntent

open NotesReplay

/- What a replay can do to the index. -/
inductive Replays
    (stages : Uuid → Option MutationStage) :
    List IndexedIntent → NotesDb → Bool → NotesDb → Prop where
  | done
      {v v' : NotesDb}
      (same : v'.core = v.core) :
      Replays stages [] v true v'
  | skipped
      {x : IndexedIntent} {rest : List IndexedIntent}
      {v v' : NotesDb} {ok : Bool}
      (other : stages x.requestId ≠ some .indexed)
      (next : Replays stages rest v ok v') :
      Replays stages (x :: rest) v ok v'
  | failed
      {x : IndexedIntent} {rest : List IndexedIntent}
      {v v' : NotesDb} {e : CoreError}
      (indexed : stages x.requestId = some .indexed)
      (active : ¬ x.Inert)
      (noted :
        v'.core = (v.note x.requestId (.error e)).core) :
      Replays stages (x :: rest) v false v'
  | passed
      {x : IndexedIntent} {rest : List IndexedIntent}
      {v v₁ v' : NotesDb} {ok : Bool}
      (indexed : stages x.requestId = some .indexed)
      (noted :
        v₁.core = (v.note x.requestId (.ok false)).core)
      (next : Replays stages rest v₁ ok v') :
      Replays stages (x :: rest) v ok v'
  | published
      {x : IndexedIntent} {rest : List IndexedIntent}
      {v v₁ v' : NotesDb} {ok : Bool}
      (indexed : stages x.requestId = some .indexed)
      (active : ¬ x.Inert)
      (noted :
        v₁.core =
          ((v.note x.requestId (.ok true)).markMutationCommitted
            x.requestId).core)
      (next : Replays stages rest v₁ ok v') :
      Replays stages (x :: rest) v ok v'

variable {env : World → World → Prop} {t : Tid}
variable {deviceId : DeviceId} {conditionalDelete : Bool}
variable {x s : IndexedIntent} {intents : List IndexedIntent}
variable {v v' : NotesDb} {w w' : World}
variable {stages : Uuid → Option MutationStage}
variable {δ : Type}

/- A script of the replay that leaves the core alone. -/
abbrev KeepsCore
    (env : World → World → Prop)
    (t : Tid)
    {α : Type}
    (x : NotesM α) : Prop :=
  Keeping cloud env t NotesDb.core x

theorem isMissing_keeps
    {part : NotesDb → δ}
    (hRefl : ∀ w, env w w)
    (id : FileId) :
    Keeping cloud env t part (isMissing id) := by
  refine .bind hRefl ((keeping_lift hRefl _).attempt hRefl) ?_
  rintro (e | entry)
  · cases e
    case notFound => exact keeping_pure true
    all_goals exact keeping_throw _
  · exact keeping_pure false

theorem missingFolders_keeps
    {part : NotesDb → δ}
    (hRefl : ∀ w, env w w)
    (rounds : Nat)
    (missing : List IndexedFolder)
    (current : Option FileId) :
    Keeping cloud env t part
      (missingFolders rounds missing current) := by
  induction rounds generalizing missing current with
  | zero =>
      cases current with
      | none => exact keeping_pure missing
      | some id =>
          refine .bind hRefl (isMissing_keeps hRefl id) ?_
          rintro (_ | _)
          · exact keeping_pure missing
          · exact keeping_throw _
  | succ rounds ih =>
      cases current with
      | none => exact keeping_pure missing
      | some id =>
          refine .bind hRefl (isMissing_keeps hRefl id) ?_
          rintro (_ | _)
          · exact keeping_pure missing
          · rw [if_pos rfl]
            split
            · exact keeping_throw _
            · apply keeping_get_bind
              intro db
              cases db.folderById id with
              | none => exact keeping_throw _
              | some folder => exact ih _ _

theorem publishFolders_keeps
    (hRefl : ∀ w, env w w)
    (folders : List IndexedFolder) :
    KeepsCore env t (publishFolders deviceId folders) := by
  induction folders with
  | nil => exact keeping_pure ()
  | cons folder rest ih =>
      unfold publishFolders
      refine .bind hRefl (keeping_lift hRefl _) fun _ => ?_
      refine .bind hRefl (keeping_modify fun db => ?_)
        fun _ => ih
      split <;> rfl

theorem ensureParent_keeps
    (hRefl : ∀ w, env w w)
    (intent : MutationIntent) :
    KeepsCore env t (ensureParent deviceId intent) := by
  unfold ensureParent
  refine .bind hRefl (keeping_ofExcept _) fun entry => ?_
  exact .bind hRefl (missingFolders_keeps hRefl _ _ _)
    fun missing => publishFolders_keeps hRefl missing

theorem publish_keeps
    (hRefl : ∀ w, env w w)
    (x : IndexedIntent)
    (restored : List FileId) :
    KeepsCore env t
      (publish deviceId conditionalDelete x restored) := by
  have placed (y : CloudM Unit Unit) :
      KeepsCore env t (do
        ensureParent deviceId x.intent
        Script.lift y
        pure true) :=
    .bind hRefl (ensureParent_keeps hRefl _) fun _ =>
      .bind hRefl (keeping_lift hRefl y) fun _ =>
        keeping_pure true
  unfold publish
  split
  · exact keeping_pure true
  · split
    · exact placed _
    · exact placed _
    · exact placed _
    · exact .bind hRefl (keeping_lift hRefl _) fun _ =>
        keeping_pure true
    · exact placed _
    · exact keeping_pure false
    · exact keeping_pure false

variable {r : CoreResult Bool}

/- One intent is tried, and what comes of it is noted. -/
theorem tryPublish_notes
    {publish : NotesM Bool} {requestId : Uuid}
    (hRefl : ∀ w, env w w)
    (h :
      (tryPublish publish requestId).Ends cloud env t v w r v'
        w') :
    ∃ v₁ w₁, publish.Ends cloud env t v w r v₁ w₁ ∧
      v' = v₁.note requestId r := by
  rcases Script.ends_bind hRefl h with
    ⟨result, v₁, w₁, hTried, hRest⟩ | ⟨e, w₁, hTried, _⟩
  · rcases Script.ends_attempt hRefl hTried with
      ⟨r', w₂, hSame, hPublish⟩
    cases hSame
    rcases Script.ends_bind hRefl hRest with
      ⟨_, v₂, w₃, hNoted, hLast⟩ | ⟨e, w₃, hNoted, _⟩
    · rcases Script.ends_ofExcept hLast with ⟨rfl, rfl⟩
      exact ⟨v₁, w₂, hPublish, (Script.ends_modify hNoted).2⟩
    · cases (Script.ends_modify hNoted).1
  · rcases Script.ends_attempt hRefl hTried with ⟨_, _, hSame, _⟩
    cases hSame

variable {latest : FileId → Option Nat}

/- The rows are marked, and then the intent is. -/
theorem afterPublish_marks
    (hRefl : ∀ w, env w w)
    (h :
      (afterPublish latest x).Ends cloud env t v w r v' w') :
    v' =
        ((rowsToMark latest x).foldl NotesDb.markFileSynced
          v).markMutationCommitted x.requestId ∧
      ∃ marked, r = .ok marked := by
  rcases Script.ends_bind hRefl h with
    ⟨_, v₁, w₁, hRows, hRest⟩ | ⟨e, w₁, hRows, _⟩
  · have hMark := Script.ends_get_bind hRest
    obtain rfl := (Script.ends_modify hRows).2
    rcases Script.ends_bind hRefl hMark with
      ⟨_, v₂, w₂, hMarked, hLast⟩ | ⟨e, w₂, hMarked, _⟩
    · rcases Script.ends_pure hLast with ⟨rfl, rfl⟩
      exact ⟨(Script.ends_modify hMarked).2, _, rfl⟩
    · cases (Script.ends_modify hMarked).1
  · cases (Script.ends_modify hRows).1

theorem publish_inert
    (h : x.Inert)
    (restored : List FileId) :
    publish deviceId conditionalDelete x restored =
      pure false := by
  rcases h with ⟨hNoOp, hKind⟩
  unfold publish
  rw [hNoOp]
  rcases hKind with hKind | hKind <;> rw [hKind] <;> rfl

variable {restored : List FileId}

/- What one intent does to the index, and how it goes on. -/
theorem replayFrom_cases
    {committed : Nat} {r : CoreResult Nat}
    (hRefl : ∀ w, env w w)
    (h :
      (replayFrom (publish deviceId conditionalDelete) stages
        latest (x :: intents) restored committed).Ends cloud env
        t v w r v' w') :
    (stages x.requestId ≠ some .indexed ∧
      (replayFrom (publish deviceId conditionalDelete) stages
        latest intents restored committed).Ends cloud env t v w
        r v' w') ∨
    (stages x.requestId = some .indexed ∧
      ∃ result v₁ w₁,
        (publish deviceId conditionalDelete x restored).Ends
          cloud env t v w result v₁ w₁ ∧
        ((∃ e, result = .error e ∧ r = .error e ∧
            v' = v₁.note x.requestId (.error e)) ∨
          (result = .ok false ∧ ∃ w₂,
            (replayFrom (publish deviceId conditionalDelete)
              stages latest intents restored committed).Ends
              cloud env t (v₁.note x.requestId (.ok false)) w₂ r
              v' w') ∨
          (result = .ok true ∧ ∃ restored committed w₂,
            (replayFrom (publish deviceId conditionalDelete)
              stages latest intents restored committed).Ends
              cloud env t
              (((rowsToMark latest x).foldl
                NotesDb.markFileSynced
                (v₁.note x.requestId
                  (.ok true))).markMutationCommitted
                x.requestId) w₂ r v' w'))) := by
  unfold replayFrom at h
  split at h
  case isFalse hOther => exact .inl ⟨hOther, h⟩
  case isTrue hIndexed =>
    refine .inr ⟨hIndexed, ?_⟩
    rcases Script.ends_bind hRefl h with
      ⟨applied, v₁, w₁, hTried, hRest⟩ | ⟨e, w₁, hTried, rfl⟩
    · rcases tryPublish_notes hRefl hTried with
        ⟨v₂, w₂, hPublish, rfl⟩
      refine ⟨_, v₂, w₂, hPublish, .inr ?_⟩
      cases applied with
      | false => exact .inl ⟨rfl, w₁, hRest⟩
      | true =>
          refine .inr ⟨rfl, ?_⟩
          rw [if_pos rfl] at hRest
          rcases Script.ends_bind hRefl hRest with
            ⟨marked, v₃, w₃, hAfter, hNext⟩ | ⟨e, w₃, hAfter, _⟩
          · obtain rfl := (afterPublish_marks hRefl hAfter).1
            exact ⟨_, _, w₃, hNext⟩
          · rcases (afterPublish_marks hRefl hAfter).2 with
              ⟨marked, hSame⟩
            cases hSame
    · rcases tryPublish_notes hRefl hTried with
        ⟨v₂, w₂, hPublish, rfl⟩
      exact ⟨_, v₂, w₂, hPublish, .inl ⟨e, rfl, rfl, rfl⟩⟩

/- What is not left to the uploads answers no `false`. -/
theorem publish_active
    {result : CoreResult Bool}
    (hEnds :
      (publish deviceId conditionalDelete x restored).Ends cloud
        env t v w result v' w')
    (hOther : result ≠ .ok false) : ¬ x.Inert := by
  intro hInert
  rw [publish_inert hInert] at hEnds
  exact hOther (Script.ends_pure hEnds).1

theorem replayFrom_ends
    {committed : Nat} {r : CoreResult Nat}
    (hRefl : ∀ w, env w w)
    (h :
      (replayFrom (publish deviceId conditionalDelete) stages
        latest intents restored committed).Ends cloud env t v w
        r v' w') :
    Replays stages intents v r.isOk v' := by
  induction intents generalizing v w restored committed with
  | nil =>
      rcases Script.ends_pure h with ⟨rfl, rfl⟩
      exact .done rfl
  | cons x rest ih =>
      rcases replayFrom_cases hRefl h with
        ⟨hOther, hNext⟩ |
        ⟨hIndexed, result, v₁, w₁, hPublish, hRest⟩
      · exact .skipped hOther (ih hNext)
      have hCore :=
        publish_keeps hRefl x restored _ _ _ _ _ hPublish
      rcases hRest with
        ⟨e, rfl, rfl, rfl⟩ | ⟨rfl, w₂, hNext⟩ |
        ⟨rfl, _, _, w₂, hNext⟩
      · exact .failed hIndexed (publish_active hPublish nofun)
          (NotesDb.core_note hCore)
      · exact .passed hIndexed (NotesDb.core_note hCore)
          (ih hNext)
      · refine .published hIndexed
          (publish_active hPublish nofun) ?_ (ih hNext)
        apply NotesDb.core_markMutationCommitted
        rw [NotesDb.core_markAll]
        exact NotesDb.core_note hCore

theorem replay_ends
    {r : CoreResult Nat}
    (hRefl : ∀ w, env w w)
    (h :
      (replay (publish deviceId conditionalDelete)
        intents).Ends cloud env t v w r v' w') :
    Replays v.stages intents v r.isOk v' := by
  unfold replay at h
  exact replayFrom_ends hRefl (Script.ends_get_bind h)

------------------------------------------------------------
-- Effects of a Replay
------------------------------------------------------------

variable {ok : Bool} {before after : List IndexedIntent}

theorem Replays.pending
    (h : Replays stages intents v ok v') :
    v'.pending = v.pending := by
  induction h with
  | done same => exact NotesDb.pending_of_core same
  | skipped _ _ ih => exact ih
  | failed _ _ noted =>
      rw [NotesDb.pending_of_core noted]
      rfl
  | passed _ noted _ ih =>
      rw [ih, NotesDb.pending_of_core noted]
      rfl
  | published _ _ noted _ ih =>
      rw [ih, NotesDb.pending_of_core noted]
      rfl

/- What was noted stays. -/
theorem Replays.tried
    (h : Replays stages intents v ok v') :
    v.tried <+: v'.tried := by
  induction h with
  | done same => rw [NotesDb.tried_of_core same]
  | skipped _ _ ih => exact ih
  | failed _ _ noted =>
      rw [NotesDb.tried_of_core noted]
      exact List.prefix_append _ _
  | passed _ noted _ ih =>
      rw [NotesDb.tried_of_core noted] at ih
      exact (List.prefix_append _ _).trans ih
  | published _ _ noted _ ih =>
      rw [NotesDb.tried_of_core noted] at ih
      exact (List.prefix_append _ _).trans ih

/- A stage only goes from indexed to committed. -/
theorem Replays.stage
    (h : Replays stages intents v ok v')
    (id : Uuid) :
    v'.stages id = v.stages id ∨
      (id ∈ intents.map IndexedIntent.requestId ∧
        v.stages id = some .indexed ∧
        v'.stages id = some .committed) := by
  induction h with
  | done same => exact .inl (by rw [NotesDb.stages_of_core same])
  | skipped _ _ ih =>
      exact ih.imp_right fun ⟨hMem, hStages⟩ =>
        ⟨List.mem_cons_of_mem _ hMem, hStages⟩
  | failed _ _ noted =>
      exact .inl (by rw [NotesDb.stages_of_core noted]; rfl)
  | passed _ noted _ ih =>
      rw [NotesDb.stages_of_core noted] at ih
      exact ih.imp_right fun ⟨hMem, hStages⟩ =>
        ⟨List.mem_cons_of_mem _ hMem, hStages⟩
  | @published x rest v v₁ v' ok _ _ noted _ ih =>
      rw [NotesDb.stages_of_core noted] at ih
      by_cases hHere :
        id = x.requestId ∧ v.stages id = some .indexed
      · have hMarked :
            ((v.note x.requestId (.ok true)).markMutationCommitted
              x.requestId).stages id = some .committed :=
          if_pos hHere
        rw [hMarked] at ih
        right
        refine ⟨by simp [hHere.1], hHere.2, ?_⟩
        rcases ih with hSame | ⟨_, hIndexed, _⟩
        · exact hSame
        · cases hIndexed
      · have hOther :
            ((v.note x.requestId (.ok true)).markMutationCommitted
              x.requestId).stages id = v.stages id :=
          if_neg hHere
        rw [hOther] at ih
        exact ih.imp_right fun ⟨hMem, hStages⟩ =>
          ⟨List.mem_cons_of_mem _ hMem, hStages⟩

/- What was noted in between is found at the end. -/
theorem Replays.noted
    {v₁ : NotesDb}
    (h : Replays stages intents v₁ ok v')
    (hNoted : v₁.tried = v.tried ++ [(x.requestId, r)]) :
    (x.requestId, r) ∈ v'.tried.drop v.tried.length := by
  rcases h.tried with ⟨more, hMore⟩
  rw [← hMore, hNoted]
  simp

/- A replay ends at an intent that is never published. -/
theorem Replays.stuck
    (h : Replays stages intents v ok v')
    (hIntents : intents = before ++ s :: after)
    (hIndexed : stages s.requestId = some .indexed)
    (hFails :
      ∀ r, (s.requestId, r) ∈ v'.tried → ∃ e, r = .error e) :
    ok = false ∧
      ∀ id, id ∉ before.map IndexedIntent.requestId →
        v'.stages id = v.stages id := by
  subst hIntents
  induction before generalizing v with
  | nil =>
      cases h with
      | skipped other _ => exact absurd hIndexed other
      | failed _ _ noted =>
          exact ⟨rfl, fun id _ => by
            rw [NotesDb.stages_of_core noted]
            rfl⟩
      | passed _ noted next =>
          have hNoted := next.noted (NotesDb.tried_of_core noted)
          rcases hFails _ (List.mem_of_mem_drop hNoted) with
            ⟨e, hSame⟩
          cases hSame
      | published _ _ noted next =>
          have hNoted := next.noted (NotesDb.tried_of_core noted)
          rcases hFails _ (List.mem_of_mem_drop hNoted) with
            ⟨e, hSame⟩
          cases hSame
  | cons y before ih =>
      cases h with
      | skipped _ next =>
          rcases ih next with ⟨hEnds, hStages⟩
          exact ⟨hEnds, fun id hId =>
            hStages id fun hMem =>
              hId (List.mem_cons_of_mem _ hMem)⟩
      | failed _ _ noted =>
          exact ⟨rfl, fun id _ => by
            rw [NotesDb.stages_of_core noted]
            rfl⟩
      | passed _ noted next =>
          rcases ih next with ⟨hEnds, hStages⟩
          refine ⟨hEnds, fun id hId => ?_⟩
          rw [hStages id fun hMem =>
            hId (List.mem_cons_of_mem _ hMem),
            NotesDb.stages_of_core noted]
          rfl
      | published _ _ noted next =>
          rcases ih next with ⟨hEnds, hStages⟩
          refine ⟨hEnds, fun id hId => ?_⟩
          rw [List.map_cons, List.mem_cons, not_or] at hId
          rw [hStages id hId.2, NotesDb.stages_of_core noted]
          exact if_neg fun hHere => hId.1 hHere.1

/- An intent behind others that do not hold it up is tried. -/
theorem Replays.reaches
    (h : Replays stages intents v ok v')
    (hIntents : intents = before ++ x :: after)
    (hIndexed : stages x.requestId = some .indexed)
    (hBefore :
      ∀ y ∈ before, stages y.requestId = some .indexed →
        y.Inert) :
    ∃ r, (x.requestId, r) ∈ v'.tried.drop v.tried.length := by
  subst hIntents
  induction before generalizing v with
  | nil =>
      cases h with
      | skipped other _ => exact absurd hIndexed other
      | @failed _ _ _ _ e _ _ noted =>
          refine ⟨.error e, ?_⟩
          rw [NotesDb.tried_of_core noted]
          simp [NotesDb.note]
      | passed _ noted next =>
          exact ⟨_, next.noted (NotesDb.tried_of_core noted)⟩
      | published _ _ noted next =>
          exact ⟨_, next.noted (NotesDb.tried_of_core noted)⟩
  | cons y before ih =>
      have hRest :
          ∀ z ∈ before, stages z.requestId = some .indexed →
            z.Inert :=
        fun z hMem => hBefore z (List.mem_cons_of_mem y hMem)
      cases h with
      | skipped _ next => exact ih hRest next
      | failed indexed active =>
          exact absurd (hBefore y List.mem_cons_self indexed)
            active
      | published indexed active =>
          exact absurd (hBefore y List.mem_cons_self indexed)
            active
      | passed _ noted next =>
          rcases ih hRest next with ⟨r, hTried⟩
          refine ⟨r, List.drop_subset_drop_left _ ?_ hTried⟩
          rw [NotesDb.tried_of_core noted]
          simp [NotesDb.note]

------------------------------------------------------------
-- Repeated Passes
------------------------------------------------------------

/- Passes on end, while others do what `env` allows. -/
structure PassRun
    (env : World → World → Prop)
    (t : Tid)
    (deviceId : DeviceId)
    (conditionalDelete : Bool)
    (intents : List IndexedIntent)
    (rest : NotesM Unit) where
  world : Nat → World
  db : Nat → NotesDb
  result : Nat → CoreResult Unit
  pass :
    ∀ n,
      (syncPass deviceId conditionalDelete intents rest).Ends
        cloud env t (db n) (world n) (result n) (db (n + 1))
        (world (n + 1))

variable {rest : NotesM Unit}

namespace PassRun

variable
  (run : PassRun env t deviceId conditionalDelete intents rest)

/- The intent is to be published when the passes begin. -/
def Waiting (x : IndexedIntent) : Prop :=
  (run.db 0).stages x.requestId = some .indexed

def Committed (x : IndexedIntent) : Prop :=
  ∃ n, (run.db n).stages x.requestId = some .committed

/- The pass with number `n` has tried the intent. -/
def TriedIn (n : Nat) (x : IndexedIntent) : Prop :=
  ∃ r, (x.requestId, r) ∈
    (run.db (n + 1)).tried.drop (run.db n).tried.length

/-
  Which intents are stuck: no try to publish one of them
  succeeds. All others are published when they are tried
  again and again.
-/
structure Splits (stuck : IndexedIntent → Prop) : Prop where
  fails :
    ∀ s ∈ intents, stuck s →
      ∀ n r, (s.requestId, r) ∈ (run.db n).tried →
        ∃ e, r = .error e
  retried :
    ∀ x ∈ intents, ¬ stuck x →
      (∀ n, ∃ m, n ≤ m ∧ run.TriedIn m x) → run.Committed x

end PassRun

/- The parent of the entry that an intent is about. -/
def rootParent (x : IndexedIntent) : Option FileId :=
  (x.intent.changes.find? (·.fileId = x.intent.fileId)).bind
    FileEntry.parentId

/- The same entry, or one that is above it. -/
def Related (db : NotesDb) (s x : IndexedIntent) : Prop :=
  s.intent.fileId = x.intent.fileId ∨
    ParentChain.Meets
      (fun id => (db.folderById id).bind IndexedFolder.parentId)
      (· = s.intent.fileId) (rootParent x)

namespace PassRun

variable
  (run : PassRun env t deviceId conditionalDelete intents rest)

/- Related to an intent that is stuck. -/
def HeldUp
    (stuck : IndexedIntent → Prop)
    (x : IndexedIntent) : Prop :=
  ∃ s ∈ intents, stuck s ∧ run.Waiting s ∧
    Related (run.db 0) s x

/-
  Sync goes on: what is not related to the stuck intents is
  published, and the rest of the work is done.
-/
structure GoesOn (stuck : IndexedIntent → Prop) : Prop where
  published :
    ∀ x ∈ intents, run.Waiting x → ¬ x.Inert →
      ¬ run.HeldUp stuck x → run.Committed x
  worked :
    ∀ work ∈ (run.db 0).pending,
      ∃ n, work ∉ (run.db n).pending

/- Nothing else is to be done behind a stuck intent. -/
structure NothingBehind
    (stuck : IndexedIntent → Prop) : Prop where
  last :
    ∀ before s after, intents = before ++ s :: after →
      stuck s → run.Waiting s →
      ∀ x ∈ after, run.Waiting x → ¬ x.Inert →
        run.HeldUp stuck x
  idle : (run.db 0).pending = []

variable {run} {stuck : IndexedIntent → Prop}

/- A pass either fails in its replay or gets beyond it. -/
theorem replays
    (hRefl : ∀ w, env w w)
    (hRest : Keeping cloud env t NotesDb.tried rest)
    (n : Nat) :
    ∃ ok v, Replays (run.db n).stages intents (run.db n) ok v ∧
      v.tried = (run.db (n + 1)).tried ∧
      (ok = false → run.db (n + 1) = v) := by
  have hPass := run.pass n
  unfold syncPass at hPass
  rcases Script.ends_bind hRefl hPass with
    ⟨committed, v, w, hReplay, hLast⟩ | ⟨e, w, hReplay, _⟩
  · exact ⟨true, v, replay_ends hRefl hReplay,
      (hRest _ _ _ _ _ hLast).symm, nofun⟩
  · exact ⟨false, _, replay_ends hRefl hReplay, rfl,
      fun _ => rfl⟩

/- A stuck intent ends every pass. -/
theorem ends_at
    (hRefl : ∀ w, env w w)
    (hRest : Keeping cloud env t NotesDb.tried rest)
    (hSplits : run.Splits stuck)
    {n : Nat}
    (hIntents : intents = before ++ s :: after)
    (hStuck : stuck s)
    (hIndexed :
      (run.db n).stages s.requestId = some .indexed) :
    Replays (run.db n).stages intents (run.db n) false
        (run.db (n + 1)) ∧
      ∀ id, id ∉ before.map IndexedIntent.requestId →
        (run.db (n + 1)).stages id = (run.db n).stages id := by
  rcases run.replays hRefl hRest n with
    ⟨ok, v, hReplays, hTried, hNext⟩
  have hMem : s ∈ intents := by
    rw [hIntents]
    simp
  have hFails (r : CoreResult Bool)
      (hNoted : (s.requestId, r) ∈ v.tried) :
      ∃ e, r = .error e := by
    rw [hTried] at hNoted
    exact hSplits.fails s hMem hStuck (n + 1) r hNoted
  rcases hReplays.stuck hIntents hIndexed hFails with
    ⟨rfl, hStages⟩
  rw [hNext rfl]
  exact ⟨hReplays, hStages⟩

/- As long as something is stuck, only replays do anything. -/
theorem held
    (hRefl : ∀ w, env w w)
    (hRest : Keeping cloud env t NotesDb.tried rest)
    (hIds : (intents.map IndexedIntent.requestId).Nodup)
    (hSplits : run.Splits stuck)
    (hIntents : intents = before ++ s :: after)
    (hStuck : stuck s)
    (hWaiting : run.Waiting s)
    (n : Nat) :
    (run.db n).pending = (run.db 0).pending ∧
      ∀ x ∈ s :: after,
        (run.db n).stages x.requestId =
          (run.db 0).stages x.requestId := by
  have apart (x : IndexedIntent) (hMem : x ∈ s :: after) :
      x.requestId ∉ before.map IndexedIntent.requestId := by
    rw [hIntents, List.map_append, List.nodup_append] at hIds
    intro hBefore
    exact hIds.2.2 _ hBefore _ (List.mem_map_of_mem hMem) rfl
  induction n with
  | zero => exact ⟨rfl, fun _ _ => rfl⟩
  | succ n ih =>
      have hIndexed :
          (run.db n).stages s.requestId = some .indexed :=
        (ih.2 s List.mem_cons_self).trans hWaiting
      rcases run.ends_at hRefl hRest hSplits hIntents hStuck
        hIndexed with ⟨hReplays, hStages⟩
      refine ⟨hReplays.pending.trans ih.1, fun x hMem => ?_⟩
      rw [hStages x.requestId (apart x hMem), ih.2 x hMem]

/- What is once committed, or was not to be, stays so. -/
theorem not_indexed_later
    {n m : Nat} {id : Uuid}
    (hReplays :
      ∀ n, Replays (run.db n).stages intents (run.db n) false
        (run.db (n + 1)))
    (hLater : n ≤ m)
    (h : (run.db n).stages id ≠ some .indexed) :
    (run.db m).stages id = (run.db n).stages id := by
  induction m, hLater using Nat.le_induction with
  | base => rfl
  | succ m _ ih =>
      rcases (hReplays m).stage id with
        hSame | ⟨_, hIndexed, _⟩
      · rw [hSame, ih]
      · rw [ih] at hIndexed
        exact absurd hIndexed h

theorem stage_cases
    (hReplays :
      ∀ n, Replays (run.db n).stages intents (run.db n) false
        (run.db (n + 1)))
    (n : Nat)
    (id : Uuid)
    (h : (run.db 0).stages id = some .indexed) :
    (run.db n).stages id = some .indexed ∨
      (run.db n).stages id = some .committed := by
  induction n with
  | zero => exact .inl h
  | succ n ih =>
      rcases (hReplays n).stage id with
        hSame | ⟨_, _, hCommitted⟩
      · rw [hSame]
        exact ih
      · exact .inr hCommitted

/- In front of everything that is stuck, all is published. -/
theorem front_published
    (hReplays :
      ∀ n, Replays (run.db n).stages intents (run.db n) false
        (run.db (n + 1)))
    (hSplits : run.Splits stuck)
    (hIntents : intents = before ++ after)
    (hClear : ∀ x ∈ before, run.Waiting x → ¬ stuck x) :
    ∃ n, ∀ m, n ≤ m →
      ∀ x ∈ before,
        (run.db m).stages x.requestId = some .indexed →
          x.Inert := by
  induction before using List.reverseRecOn generalizing after with
  | nil => exact ⟨0, fun _ _ _ hMem => absurd hMem
      List.not_mem_nil⟩
  | append_singleton before x ih =>
      rw [List.append_assoc, List.singleton_append] at hIntents
      rcases ih hIntents (fun y hMem =>
        hClear y (List.mem_append_left _ hMem)) with ⟨n, hFront⟩
      have hMem : x ∈ intents := by
        rw [hIntents]
        simp
      have hLast :
          ∃ k, ∀ m, k ≤ m →
            (run.db m).stages x.requestId = some .indexed →
              x.Inert := by
        by_cases hDone :
          ∃ k, (run.db k).stages x.requestId ≠ some .indexed
        · rcases hDone with ⟨k, hOther⟩
          refine ⟨k, fun m hLater hIndexed => ?_⟩
          rw [not_indexed_later hReplays hLater hOther]
            at hIndexed
          exact absurd hIndexed hOther
        · -- Then every pass from `n` on tries the intent.
          push Not at hDone
          have hFree : ¬ stuck x :=
            hClear x (List.mem_append_right _
              List.mem_cons_self) (hDone 0)
          have hTried (k : Nat) :
              ∃ m, k ≤ m ∧ run.TriedIn m x :=
            ⟨max k n, Nat.le_max_left k n,
              (hReplays _).reaches hIntents (hDone _)
                (hFront _ (Nat.le_max_right k n))⟩
          rcases hSplits.retried x hMem hFree hTried with
            ⟨k, hCommitted⟩
          rw [hDone k] at hCommitted
          cases hCommitted
      rcases hLast with ⟨k, hLast⟩
      refine ⟨max n k, fun m hLater y hMem => ?_⟩
      rcases List.mem_append.mp hMem with hMem | hMem
      · exact hFront m (le_of_max_le_left hLater) y hMem
      · obtain rfl := List.mem_singleton.mp hMem
        exact hLast m (le_of_max_le_right hLater)

end PassRun

/- Notes has made a folder. -/
def folderIntent
    (requestId fileId : Uuid)
    (parentId : Option FileId) : IndexedIntent where
  intent :=
    { requestId := requestId
      fileId := fileId
      createdAt := 0
      fromRelative := none
      toRelative := "Notes/new"
      changes := [folderEntry fileId ⟨parentId, "new"⟩ 0] }
  kind := .createFolder
  sequence := requestId
  noOp := false
  rootRelocation := false
  ignored := []

/- Its parent is neither in the bucket nor in the index. -/
def orphanIntent : IndexedIntent :=
  folderIntent 1 7 (some 5)

def topIntent : IndexedIntent :=
  folderIntent 2 8 none

/- All intents are indexed, and nothing has been tried. -/
def orphanDb
    (pending : List Work)
    (tried : List (Uuid × CoreResult Bool)) : NotesDb where
  stages _ := some .indexed
  folderById _ := none
  objectState _ := none
  pending := pending
  tried := tried

def orphanTries (n : Nat) : List (Uuid × CoreResult Bool) :=
  List.replicate n (1, .error (noLongerIndexed 5))

/- A bucket that answers every request. -/
def answers : Req → World → Choice := fun _ _ => .answer

theorem orphan_pass
    (later : List IndexedIntent)
    (pending : List Work)
    (n : Nat) :
    (syncPass 1 true (orphanIntent :: later) (pure ())
      (orphanDb pending (orphanTries n))).exec cloud 0 answers
        World.fresh =
      some ((.error (noLongerIndexed 5),
        orphanDb pending (orphanTries (n + 1))),
        World.fresh) := by
  have hTries :
      orphanTries (n + 1) =
        orphanTries n ++ [(1, .error (noLongerIndexed 5))] :=
    List.replicate_succ'
  rw [hTries]
  rfl

/- The passes of a device that is alone with its bucket. -/
def orphanRun
    (later : List IndexedIntent)
    (pending : List Work) :
    PassRun (fun w w' => w' = w) 0 1 true
      (orphanIntent :: later) (pure ()) where
  world _ := World.fresh
  db n := orphanDb pending (orphanTries n)
  result _ := .error (noLongerIndexed 5)
  pass n :=
    Prog.ends_of_exec (fun _ => rfl) (orphan_pass later pending n)

def isOrphan (x : IndexedIntent) : Prop :=
  x.requestId = 1

theorem orphan_tried
    {n : Nat} {requestId : Uuid}
    (h : (requestId, r) ∈ orphanTries n) :
    requestId = 1 ∧ r = .error (noLongerIndexed 5) := by
  have hEntry := List.eq_of_mem_replicate h
  rwa [Prod.mk.injEq] at hEntry

theorem orphanRun_splits
    (later : List IndexedIntent)
    (pending : List Work) :
    (orphanRun later pending).Splits isOrphan where
  fails _ _ _ _ _ hTried := ⟨_, (orphan_tried hTried).2⟩
  retried := by
    intro x _ hOther hTried
    rcases hTried 0 with ⟨n, _, r, hEntry⟩
    exact absurd (orphan_tried (List.mem_of_mem_drop hEntry)).1
      hOther

end S4Drive

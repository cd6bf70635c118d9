import S4Drive.Sync.FolderRecovery

/-
  One folder recovery prompt. Every inspection reports what
  was stored at a moment of its call; inspections replace a
  stored prompt only when they have found the sync root
  missing after a Notes prompt; a resolve does nothing
  unless the prompt it names was stored.

  Main declarations:
    * `PromptChange.Drops`, `FirstPrompt`, `RootLost`
    * `StoredSince`, `KeptSince`
    * `one_recovery_prompt`
    * `decision_replaced`
-/

------------------------------------------------------------
-- Changes of the Prompt
------------------------------------------------------------

namespace S4Drive

open Concurrency

namespace PromptChange

/- The prompt that was stored is not there any more. -/
def Drops (c : PromptChange) : Prop :=
  ∃ old, c.before = some old ∧
    ∀ new, c.after = some new → new.id ≠ old.id

/- A prompt where there was none, without a decision. -/
def FirstPrompt (c : PromptChange) : Prop :=
  c.before = none ∧
    ∃ new, c.after = some new ∧ new.decision = none

/-
  A Notes prompt gives way to one for the whole root, after
  the root was found missing.
-/
def RootLost
    (root : LocalPath)
    (c : PromptChange) : Prop :=
  c.rootMissing = true ∧
    (∃ old, c.before = some old ∧ old.notesRoot.isSome) ∧
    ∃ new, c.after = some new ∧ new.path = root ∧
      new.notesRoot = none ∧ new.decision = none

/- The changes, newest first, lead to what is stored now. -/
def Leads :
    List PromptChange →
      Option FolderRecovery → Option FolderRecovery → Prop
  | [], now, start => now = start
  | c :: older, now, start =>
      c.after = now ∧ Leads older c.before start

variable {newer older : List PromptChange}
variable {now middle start : Option FolderRecovery}

theorem Leads.append
    (hNewer : Leads newer now middle)
    (hOlder : Leads older middle start) :
    Leads (newer ++ older) now start := by
  induction newer generalizing now with
  | nil =>
      have hSame : now = middle := hNewer
      rw [hSame]
      exact hOlder
  | cons c rest ih => exact ⟨hNewer.1, ih hNewer.2⟩

theorem Leads.of_append
    (h : Leads (newer ++ older) now start) :
    ∃ middle, Leads newer now middle ∧
      Leads older middle start := by
  induction newer generalizing now with
  | nil => exact ⟨now, rfl, h⟩
  | cons c rest ih =>
      rcases ih h.2 with ⟨middle, hNewer, hOlder⟩
      exact ⟨middle, ⟨h.1, hNewer⟩, hOlder⟩

/- What was stored, from now back to before the changes. -/
def values
    (changes : List PromptChange)
    (now : Option FolderRecovery) :
    List (Option FolderRecovery) :=
  now :: changes.map PromptChange.before

theorem Leads.start_mem
    (h : Leads newer now start) :
    start ∈ values newer now := by
  induction newer generalizing now with
  | nil =>
      have hSame : now = start := h
      simp [values, hSame]
  | cons c rest ih =>
      have hMem := ih h.2
      simp only [values, List.map_cons, List.mem_cons] at hMem ⊢
      exact .inr hMem

/-
  As long as no change drops a prompt, a stored prompt keeps
  its id up to now.
-/
theorem Leads.keeps_id
    (h : Leads newer now start)
    (hKept : ∀ c ∈ newer, ¬ c.Drops)
    {r : FolderRecovery}
    (hStored : some r ∈ values newer now) :
    ∃ r', now = some r' ∧ r'.id = r.id := by
  induction newer generalizing now with
  | nil =>
      simp only [values, List.map_nil, List.mem_singleton]
        at hStored
      exact ⟨r, hStored.symm, rfl⟩
  | cons c rest ih =>
      simp only [values, List.map_cons, List.mem_cons]
        at hStored
      by_cases hNow : some r = now
      · exact ⟨r, hNow.symm, rfl⟩
      have hOlder : some r ∈ values rest c.before := by
        simpa [values, hNow] using hStored
      rcases ih h.2
          (fun c' hc' => hKept c' (List.mem_cons_of_mem c hc'))
          hOlder with ⟨r', hBefore, hId⟩
      have hAfter :
          ∃ new, c.after = some new ∧ new.id = r'.id := by
        by_contra hNone
        refine hKept c List.mem_cons_self ⟨r', hBefore, ?_⟩
        intro new hNew hSame
        exact hNone ⟨new, hNew, hSame⟩
      rcases hAfter with ⟨new, hNew, hSame⟩
      exact ⟨new, h.1.symm.trans hNew, hSame.trans hId⟩

end PromptChange

open PromptChange

/- The prompt was `v` at a moment of the thread's call. -/
def StoredSince
    (t : Tid)
    (v : Option FolderRecovery)
    (w : RecoveryWorld) : Prop :=
  ∃ newer, w.changes = newer ++ w.since t ∧
    v ∈ values newer w.pending

/- No stored prompt was dropped since the call began. -/
def KeptSince
    (t : Tid)
    (w : RecoveryWorld) : Prop :=
  ∀ newer, w.changes = newer ++ w.since t →
    ∀ c ∈ newer, ¬ c.Drops

/- What a prompt that a call names has to be. -/
def NamedStored
    (t : Tid)
    (id : Uuid)
    (w : RecoveryWorld) : Prop :=
  ∃ recovery, StoredSince t (some recovery) w ∧
    recovery.id = id

/- A call that names a prompt may do more than inspect. -/
def MayAct
    (t : Tid)
    (w : RecoveryWorld) : Prop :=
  ∀ id, w.named t = some id → NamedStored t id w

structure PromptsOk
    (root : LocalPath)
    (w : RecoveryWorld) : Prop where
  linked : ∃ start, Leads w.changes w.pending start
  since : ∀ t, w.since t <:+ w.changes
  inspected :
    ∀ c ∈ w.changes, c.writer = .inspection →
      c.FirstPrompt ∨ c.RootLost root
  acted : ∀ t, w.acted t = true → MayAct t w

/-
  What a call may rely on, and what its own requests keep as
  well.
-/
structure PromptRely
    (t : Tid)
    (w w' : RecoveryWorld) : Prop where
  changes :
    ∃ newer, w'.changes = newer ++ w.changes ∧
      Leads newer w'.pending w.pending
  since : w'.since t = w.since t
  named : w'.named t = w.named t
  rootMissing :
    w.rootMissing t = true → w'.rootMissing t = true

variable {root : LocalPath}
variable {t : Tid} {w w' w'' : RecoveryWorld}

namespace PromptRely

theorem refl
    (t : Tid)
    (w : RecoveryWorld) : PromptRely t w w where
  changes := ⟨[], rfl, rfl⟩
  since := rfl
  named := rfl
  rootMissing := id

theorem trans
    (h : PromptRely t w w')
    (h' : PromptRely t w' w'') : PromptRely t w w'' where
  changes := by
    rcases h.changes with ⟨d, hd, hLeads⟩
    rcases h'.changes with ⟨d', hd', hLeads'⟩
    exact ⟨d' ++ d, by rw [hd', hd, List.append_assoc],
      hLeads'.append hLeads⟩
  since := h'.since.trans h.since
  named := h'.named.trans h.named
  rootMissing := fun hMissing =>
    h'.rootMissing (h.rootMissing hMissing)

end PromptRely

theorem StoredSince.later
    {v : Option FolderRecovery}
    (h : StoredSince t v w)
    (hRely : PromptRely t w w') : StoredSince t v w' := by
  rcases h with ⟨d, hd, hMem⟩
  rcases hRely.changes with ⟨d', hd', hLeads⟩
  refine ⟨d' ++ d, ?_, ?_⟩
  · rw [hd', hd, hRely.since, List.append_assoc]
  simp only [values, List.mem_cons] at hMem
  rcases hMem with rfl | hBefore
  · have hStart := hLeads.start_mem
    simp only [values, List.mem_cons, List.map_append,
      List.mem_append] at hStart ⊢
    tauto
  · simp [values, hBefore]

theorem StoredSince.now
    (hInv : PromptsOk root w)
    (t : Tid) : StoredSince t w.pending w := by
  rcases hInv.since t with ⟨newer, hNewer⟩
  exact ⟨newer, hNewer.symm, List.mem_cons_self⟩

theorem MayAct.later
    (h : MayAct t w)
    (hRely : PromptRely t w w') : MayAct t w' := by
  intro id hId
  rw [hRely.named] at hId
  rcases h id hId with ⟨recovery, hStored, hSame⟩
  exact ⟨recovery, hStored.later hRely, hSame⟩

def promptContract
    (root : LocalPath) :
    Contract RecoveryReq RecoveryChoice RecoveryWorld Tid where
  Inv := PromptsOk root
  Rely := PromptRely
  Admits := fun _ _ _ _ => True
  rely_refl := PromptRely.refl
  rely_trans := fun h h' => h.trans h'

abbrev PromptMeets
    {α : Type}
    (root : LocalPath)
    (t : Tid)
    (x : RecoveryM α)
    (Q : CoreResult α → RecoveryWorld → Prop)
    (w : RecoveryWorld) : Prop :=
  Meets (recoveryMachine root) (promptContract root) t x ()
    (fun r _ w' => Q r w') w

------------------------------------------------------------
-- Steps
------------------------------------------------------------

/- Two worlds with the same prompt and the same record. -/
structure SamePrompt (w w' : RecoveryWorld) : Prop where
  pending : w'.pending = w.pending
  changes : w'.changes = w.changes
  since : w'.since = w.since
  named : w'.named = w.named
  acted : w'.acted = w.acted
  rootMissing :
    ∀ t, w.rootMissing t = true → w'.rootMissing t = true

theorem SamePrompt.rely
    (h : SamePrompt w w')
    (t : Tid) : PromptRely t w w' where
  changes := ⟨[], h.changes, h.pending⟩
  since := by rw [h.since]
  named := by rw [h.named]
  rootMissing := h.rootMissing t

theorem SamePrompt.inv
    (h : SamePrompt w w')
    (hInv : PromptsOk root w) : PromptsOk root w' where
  linked := by
    rw [h.changes, h.pending]
    exact hInv.linked
  since := by
    rw [h.changes, h.since]
    exact hInv.since
  inspected := by
    rw [h.changes]
    exact hInv.inspected
  acted := by
    intro u hActed
    rw [h.acted] at hActed
    exact (hInv.acted u hActed).later (h.rely u)

theorem setPending_rely
    {writer : PromptWriter}
    {value : Option FolderRecovery}
    (u : Tid) :
    PromptRely u w (w.setPending t writer value) where
  changes := ⟨[_], rfl, rfl, rfl⟩
  since := rfl
  named := rfl
  rootMissing := id

theorem PromptsOk.setPending
    {writer : PromptWriter}
    {value : Option FolderRecovery}
    (hInv : PromptsOk root w)
    (hWriter :
      writer = .inspection →
        FirstPrompt ⟨writer, w.rootMissing t, w.pending, value⟩ ∨
          RootLost root
            ⟨writer, w.rootMissing t, w.pending, value⟩) :
    PromptsOk root (w.setPending t writer value) where
  linked := by
    rcases hInv.linked with ⟨start, hLeads⟩
    exact ⟨start, rfl, hLeads⟩
  since := fun u =>
    (hInv.since u).trans (List.suffix_cons _ _)
  inspected := by
    intro c hc
    rcases List.mem_cons.mp hc with rfl | hc
    · exact hWriter
    · exact hInv.inspected c hc
  acted := fun u hActed =>
    (hInv.acted u hActed).later (setPending_rely u)

theorem act_rely
    (u : Tid) : PromptRely u w (w.act t) :=
  ⟨⟨[], rfl, rfl⟩, rfl, rfl, id⟩

theorem PromptsOk.act
    (hInv : PromptsOk root w)
    (hMayAct : MayAct t w) : PromptsOk root (w.act t) where
  linked := hInv.linked
  since := hInv.since
  inspected := hInv.inspected
  acted := by
    intro u hActed
    simp only [RecoveryWorld.act, Bool.or_eq_true,
      decide_eq_true_eq] at hActed
    rcases hActed with rfl | hActed
    · exact hMayAct.later (act_rely u)
    · exact (hInv.acted u hActed).later (act_rely u)

theorem samePrompt_noteMissing
    (w : RecoveryWorld)
    (t : Tid) : SamePrompt w (w.noteMissing t) where
  pending := rfl
  changes := rfl
  since := rfl
  named := rfl
  acted := rfl
  rootMissing := by
    intro u hMissing
    simp [RecoveryWorld.noteMissing, hMissing]

theorem SamePrompt.refl
    (w : RecoveryWorld) : SamePrompt w w :=
  ⟨rfl, rfl, rfl, rfl, rfl, fun _ h => h⟩

theorem beginCall_rely
    {named : Option Uuid}
    {u : Tid}
    (hOther : u ≠ t) :
    PromptRely u w (w.beginCall t named) where
  changes := ⟨[], rfl, rfl⟩
  since := by simp [RecoveryWorld.beginCall, hOther]
  named := by simp [RecoveryWorld.beginCall, hOther]
  rootMissing := by simp [RecoveryWorld.beginCall, hOther]

theorem PromptsOk.beginCall
    (hInv : PromptsOk root w)
    (named : Option Uuid) :
    PromptsOk root (w.beginCall t named) where
  linked := hInv.linked
  since := by
    intro u
    by_cases hu : u = t
    · simp [RecoveryWorld.beginCall, hu]
    · simpa [RecoveryWorld.beginCall, hu] using hInv.since u
  inspected := hInv.inspected
  acted := by
    intro u hActed
    simp only [RecoveryWorld.beginCall, ne_eq,
      Bool.and_eq_true, decide_eq_true_eq] at hActed
    exact (hInv.acted u hActed.2).later
      (beginCall_rely hActed.1)

/- What one request can do to the prompt and its record. -/
inductive PromptStep
    (t : Tid)
    (r : RecoveryReq)
    (w w' : RecoveryWorld) : Prop where
  | same (h : SamePrompt w w')
  | overwrites
      (value : Option FolderRecovery)
      (hReq : r = .setPending value)
      (hWorld : w' = (w.setPending t .overwrite value).act t)
  | acts
      (e : RecoveryEffect)
      (hReq : r = .effect e)
      (hReads : e.reads = false)
      (hWorld : w' = w.act t)
  | replaces
      (expected : Option FolderRecovery)
      (value : FolderRecovery)
      (hReq : r = .replacePending expected value)
      (hExpected : w.pending = expected)
      (hWorld :
        w' = w.setPending t .inspection (some value))

theorem promptStep_effect
    {e : RecoveryEffect}
    {b : CoreResult Unit}
    {a : CoreResult Unit}
    (h : (a, if e.reads then w else w.act t) = (b, w')) :
    PromptStep t (.effect e) w w' := by
  simp only [Prod.mk.injEq] at h
  rw [← h.2]
  cases hReads : e.reads with
  | false => exact .acts e rfl hReads (by simp)
  | true => exact .same (by simpa using .refl w)

variable {r : RecoveryReq}

theorem serve_prompt
    {choice : RecoveryChoice}
    {b : RecoveryResp r}
    (h : serveRecovery root t r choice w = some (b, w')) :
    PromptStep t r w w' := by
  cases r with
  | setPending value =>
      cases choice with
      | done =>
          simp only [serveRecovery, Option.some.injEq,
            Prod.mk.injEq] at h
          exact .overwrites value rfl h.2.symm
      | fail error =>
          simp only [serveRecovery, Option.some.injEq,
            Prod.mk.injEq] at h
          exact .same (h.2 ▸ .refl w)
      | _ => simp [serveRecovery] at h
  | replacePending expected value =>
      cases choice with
      | done =>
          simp only [serveRecovery] at h
          split at h
          · rename_i hExpected
            simp only [Option.some.injEq, Prod.mk.injEq] at h
            exact .replaces expected value rfl hExpected
              h.2.symm
          · simp only [Option.some.injEq, Prod.mk.injEq] at h
            exact .same (h.2 ▸ .refl w)
      | fail error =>
          simp only [serveRecovery, Option.some.injEq,
            Prod.mk.injEq] at h
          exact .same (h.2 ▸ .refl w)
      | _ => simp [serveRecovery] at h
  | effect e =>
      cases choice with
      | done => exact promptStep_effect (Option.some.inj h)
      | fail error =>
          exact promptStep_effect (Option.some.inj h)
      | _ => simp [serveRecovery] at h
  | isDirectory path =>
      cases choice with
      | done =>
          simp only [serveRecovery, Option.some.injEq,
            Prod.mk.injEq] at h
          rw [← h.2]
          split
          · exact .same (samePrompt_noteMissing w t)
          · exact .same (.refl w)
      | fail error =>
          simp only [serveRecovery, Option.some.injEq,
            Prod.mk.injEq] at h
          exact .same (h.2 ▸ .refl w)
      | _ => simp [serveRecovery] at h
  | newId =>
      simp only [serveRecovery, Option.some.injEq,
        Prod.mk.injEq] at h
      rw [← h.2]
      exact .same ⟨rfl, rfl, rfl, rfl, rfl, fun _ h => h⟩
  | setSeen =>
      cases choice with
      | done =>
          simp only [serveRecovery, Option.some.injEq,
            Prod.mk.injEq] at h
          rw [← h.2]
          exact .same ⟨rfl, rfl, rfl, rfl, rfl, fun _ h => h⟩
      | fail error =>
          simp only [serveRecovery, Option.some.injEq,
            Prod.mk.injEq] at h
          exact .same (h.2 ▸ .refl w)
      | _ => simp [serveRecovery] at h
  | _ =>
      cases choice <;>
        simp only [serveRecovery, Option.some.injEq,
          Prod.mk.injEq, reduceCtorEq] at h
      all_goals exact .same (h.2 ▸ .refl w)

/- An inspection stores this only in these two situations. -/
def MayReplace
    (root : LocalPath)
    (t : Tid)
    (expected : Option FolderRecovery)
    (value : FolderRecovery)
    (w : RecoveryWorld) : Prop :=
  FirstPrompt
      ⟨.inspection, w.rootMissing t, expected, some value⟩ ∨
    RootLost root
      ⟨.inspection, w.rootMissing t, expected, some value⟩

variable {expected : Option FolderRecovery}

theorem MayReplace.later
    {value : FolderRecovery}
    (h : MayReplace root t expected value w)
    (hRely : PromptRely t w w') :
    MayReplace root t expected value w' := by
  rcases h with hFirst | ⟨hMissing, hOld, hNew⟩
  · exact .inl hFirst
  · exact .inr ⟨hRely.rootMissing hMissing, hOld, hNew⟩

/- What a call has to know when it makes a request. -/
def PermittedReq
    (root : LocalPath)
    (t : Tid)
    (w : RecoveryWorld) : RecoveryReq → Prop
  | .setPending _ => MayAct t w
  | .effect e => e.reads = false → MayAct t w
  | .replacePending expected value =>
      MayReplace root t expected value w
  | _ => True

theorem PermittedReq.later
    (h : PermittedReq root t w r)
    (hRely : PromptRely t w w') :
    PermittedReq root t w' r := by
  cases r with
  | setPending value => exact MayAct.later h hRely
  | effect e => exact fun hReads => (h hReads).later hRely
  | replacePending expected value =>
      exact MayReplace.later h hRely
  | _ => trivial

theorem PromptStep.rely
    (h : PromptStep t r w w')
    (u : Tid) : PromptRely u w w' := by
  cases h with
  | same h => exact h.rely u
  | overwrites value _ hWorld =>
      rw [hWorld]
      exact (setPending_rely u).trans (act_rely u)
  | acts e _ _ hWorld =>
      rw [hWorld]
      exact act_rely u
  | replaces expected value _ _ hWorld =>
      rw [hWorld]
      exact setPending_rely u

theorem PromptStep.inv
    (h : PromptStep t r w w')
    (hInv : PromptsOk root w)
    (hPermitted : PermittedReq root t w r) :
    PromptsOk root w' := by
  cases h with
  | same h => exact h.inv hInv
  | overwrites value hReq hWorld =>
      subst hReq hWorld
      have hSet :
          PromptsOk root (w.setPending t .overwrite value) :=
        hInv.setPending (by simp)
      exact hSet.act (MayAct.later hPermitted (setPending_rely t))
  | acts e hReq hReads hWorld =>
      subst hReq hWorld
      exact hInv.act (hPermitted hReads)
  | replaces expected value hReq hExpected hWorld =>
      subst hReq hWorld
      apply hInv.setPending
      intro _
      rw [hExpected]
      exact hPermitted

/-
  A permitted request keeps the contract, and what was known
  before it is known after it.
-/
theorem asked_meets
    {α : Type}
    {answer : RecoveryResp r → CoreResult α}
    {Q : CoreResult α → RecoveryWorld → Prop}
    (hPermitted : PermittedReq root t w r)
    (hQ :
      ∀ w₁ choice b w₂ w₃, PromptRely t w w₁ →
        PromptsOk root w₁ →
        serveRecovery root t r choice w₁ = some (b, w₂) →
        PromptsOk root w₂ → PromptRely t w₂ w₃ →
        Q (answer b) w₃) :
    PromptMeets root t (RecoveryM.ask r answer) Q w := by
  apply meets_call
  intro w₁ hRely hInv choice b w₂ _ hServe
  have hStep := serve_prompt hServe
  have hInv' := hStep.inv hInv (hPermitted.later hRely)
  refine ⟨⟨hInv', fun u _ => hStep.rely u⟩, ?_⟩
  intro w₃ hRely' _
  exact hQ w₁ choice b w₂ w₃ hRely hInv hServe hInv' hRely'

/- What is known before a script is known after it. -/
theorem meets_relates
    {α : Type}
    {x : RecoveryM α}
    {Q : CoreResult α → RecoveryWorld → Prop}
    (hx : PromptMeets root t x Q w) :
    PromptMeets root t x
      (fun r w' => Q r w' ∧ PromptRely t w w') w := by
  have tree :
      ∀ (p : Prog RecoveryReq RecoveryResp
          (CoreResult α × Unit)) (w₀ : RecoveryWorld),
        PromptRely t w w₀ →
        wp (recoveryMachine root) (promptContract root) t p
          (fun r w' => Q r.1 w') w₀ →
        wp (recoveryMachine root) (promptContract root) t p
          (fun r w' => Q r.1 w' ∧ PromptRely t w w') w₀ := by
    intro p
    induction p with
    | done r =>
        intro w₀ hFrom hp w₁ hRely hInv
        exact ⟨hp w₁ hRely hInv, hFrom.trans hRely⟩
    | ask r k ih =>
        intro w₀ hFrom hp w₁ hRely hInv choice b w₂ hAdm
          hServe
        rcases hp w₁ hRely hInv choice b w₂ hAdm hServe with
          ⟨hKeeps, hRest⟩
        refine ⟨hKeeps, ih b w₂ ?_ hRest⟩
        exact (hFrom.trans hRely).trans
          ((serve_prompt hServe).rely t)
  exact tree (x ()) w (.refl t w) hx

/- Scripts that a call may run whenever `P` holds of it. -/
def Allowed
    (root : LocalPath)
    (P : Tid → RecoveryWorld → Prop)
    {α : Type}
    (x : RecoveryM α) : Prop :=
  ∀ t w, P t w → PromptMeets root t x (fun _ _ => True) w

/- What the other threads and its own requests keep. -/
def Stable (P : Tid → RecoveryWorld → Prop) : Prop :=
  ∀ t w w', P t w → PromptRely t w w' → P t w'

def Anytime : Tid → RecoveryWorld → Prop :=
  fun _ _ => True

theorem stable_anytime : Stable Anytime :=
  fun _ _ _ _ _ => trivial

theorem stable_mayAct : Stable MayAct :=
  fun _ _ _ h hRely => h.later hRely

namespace Allowed

variable {P : Tid → RecoveryWorld → Prop}
variable {α γ : Type}

theorem pure (a : α) :
    Allowed root P (Pure.pure a : RecoveryM α) :=
  fun _ _ _ => meets_pure fun _ _ _ => trivial

theorem throw (e : CoreError) :
    Allowed root P (Script.throw e : RecoveryM α) :=
  fun _ _ _ => meets_throw fun _ _ _ => trivial

theorem bind
    {x : RecoveryM α}
    {f : α → RecoveryM γ}
    (hStable : Stable P)
    (hx : Allowed root P x)
    (hf : ∀ a, Allowed root P (f a)) :
    Allowed root P (x >>= f) := by
  intro t w hP
  apply (meets_relates (hx t w hP)).bind
  · intro a _ w' h
    exact hf a t w' (hStable t w w' hP h.2)
  · exact fun _ _ _ _ => trivial

theorem attempt
    {x : RecoveryM α}
    (hx : Allowed root P x) :
    Allowed root P (Script.attempt x) := by
  intro t w hP
  exact meets_attempt ((hx t w hP).mono
    fun _ _ _ _ => trivial)

/- A request that changes nothing that is recorded. -/
theorem quiet
    {answer : RecoveryResp r → CoreResult α}
    (hReq : ∀ t w, PermittedReq root t w r) :
    Allowed root P (RecoveryM.ask r answer) :=
  fun t w _ =>
    asked_meets (hReq t w)
      fun _ _ _ _ _ _ _ _ _ _ => trivial

theorem newId : Allowed root P RecoveryM.newId :=
  quiet fun _ _ => trivial

theorem getSeen : Allowed root P RecoveryM.getSeen :=
  quiet fun _ _ => trivial

theorem setSeen : Allowed root P RecoveryM.setSeen :=
  quiet fun _ _ => trivial

theorem isDirectory (path : LocalPath) :
    Allowed root P (RecoveryM.isDirectory path) :=
  quiet fun _ _ => trivial

theorem notesFolder : Allowed root P RecoveryM.notesFolder :=
  quiet fun _ _ => trivial

theorem setPending (value : Option FolderRecovery) :
    Allowed root MayAct (RecoveryM.setPending value) :=
  fun _ _ hMayAct =>
    asked_meets hMayAct fun _ _ _ _ _ _ _ _ _ _ => trivial

theorem effect (e : RecoveryEffect) :
    Allowed root MayAct (RecoveryM.effect e) :=
  fun _ _ hMayAct =>
    asked_meets (fun _ => hMayAct)
      fun _ _ _ _ _ _ _ _ _ _ => trivial

end Allowed

------------------------------------------------------------
-- Inspections
------------------------------------------------------------

namespace FolderRecovery

theorem isKnown_allowed (seen : Bool) :
    Allowed root Anytime (isKnown seen) := by
  unfold isKnown
  split
  · exact .pure true
  · refine .bind stable_anytime (.quiet fun _ _ => trivial)
      fun hasFiles => ?_
    cases hasFiles with
    | false => exact .quiet fun _ _ => trivial
    | true => exact .pure true

theorem missingPath_allowed
    (root : LocalPath)
    (rootExists known : Bool)
    (notes : Option IndexedNotes) :
    Allowed root Anytime
      (missingPath root rootExists known notes) := by
  unfold missingPath
  split
  · exact .pure _
  split
  · refine .bind stable_anytime (.quiet fun _ _ => trivial)
      fun absent => ?_
    cases absent with
    | false => exact .pure none
    | true => exact .pure _
  · exact .pure none

theorem markSeen_allowed (rootExists seen : Bool) :
    Allowed root Anytime (markSeen rootExists seen) := by
  unfold markSeen
  split
  · exact .setSeen
  · exact .pure ()

/- A prompt that was stored is what the inspection reports. -/
theorem storeNew_meets
    {recovery : FolderRecovery}
    (hMay : MayReplace root t expected recovery w) :
    PromptMeets root t (storeNew expected recovery)
      (fun r w' =>
        ∀ v, r = .ok (some v) → StoredSince t v w') w := by
  unfold storeNew
  have hReplace :
      PromptMeets root t
        (RecoveryM.replacePending expected recovery)
        (fun r w' =>
          r = .ok true →
            StoredSince t (some recovery) w') w := by
    apply asked_meets
      (r := .replacePending expected recovery) hMay
    intro w₁ choice b w₂ w₃ _ _ hServe hInv hRely hStored
    cases choice with
    | done =>
        simp only [serveRecovery] at hServe
        split at hServe
        · simp only [Option.some.injEq, Prod.mk.injEq]
            at hServe
          have hNow := StoredSince.now hInv t
          rw [← hServe.2] at hNow hRely
          exact hNow.later hRely
        · simp only [Option.some.injEq, Prod.mk.injEq]
            at hServe
          rw [← hServe.1] at hStored
          cases hStored
    | fail error =>
        simp only [serveRecovery, Option.some.injEq,
          Prod.mk.injEq] at hServe
        rw [← hServe.1] at hStored
        cases hStored
    | _ => simp [serveRecovery] at hServe
  apply hReplace.bind
  · intro stored _ w' h
    apply meets_pure
    intro w'' hRely _ v hv
    cases stored with
    | false => simp at hv
    | true =>
        simp only [if_true, Except.ok.injEq,
          Option.some.injEq] at hv
        rw [← hv]
        exact (h rfl).later hRely
  · intro e _ w' _ v hv
    cases hv

theorem inspectFolders_meets
    (hNone : StoredSince t none w) :
    PromptMeets root t (inspectFolders root)
      (fun r w' =>
        ∀ v, r = .ok (some v) → StoredSince t v w') w := by
  have later :
      ∀ {α : Type} {x : RecoveryM α} {w : RecoveryWorld},
        StoredSince t none w → Allowed root Anytime x →
        PromptMeets root t x
          (fun _ w' => StoredSince t none w') w := by
    intro α x w hNone hx
    exact (meets_relates (hx t w trivial)).mono
      fun _ _ _ h => hNone.later h.2
  unfold inspectFolders
  apply (later hNone (.isDirectory root)).bind
  rotate_left
  · exact fun _ _ _ _ _ h => nomatch h
  intro rootExists _ w hNone
  apply (later hNone .getSeen).bind
  rotate_left
  · exact fun _ _ _ _ _ h => nomatch h
  intro seen _ w hNone
  apply (later hNone (isKnown_allowed seen)).bind
  rotate_left
  · exact fun _ _ _ _ _ h => nomatch h
  intro known _ w hNone
  apply (later hNone .notesFolder).bind
  rotate_left
  · exact fun _ _ _ _ _ h => nomatch h
  intro notes _ w hNone
  apply (later hNone (missingPath_allowed root _ _ _)).bind
  rotate_left
  · exact fun _ _ _ _ _ h => nomatch h
  intro missing _ w hNone
  apply (later hNone (markSeen_allowed rootExists seen)).bind
  rotate_left
  · exact fun _ _ _ _ _ h => nomatch h
  intro _ _ w hNone
  cases missing with
  | none =>
      apply meets_pure
      intro w' hRely _ v hv
      simp only [Except.ok.injEq, Option.some.injEq] at hv
      rw [← hv]
      exact hNone.later hRely
  | some path =>
      apply (later hNone Allowed.newId).bind
      · intro id _ w _
        exact storeNew_meets (.inl ⟨rfl, _, rfl, rfl⟩)
      · exact fun _ _ _ _ _ h => nomatch h

theorem getPending_meets :
    PromptMeets root t RecoveryM.getPending
      (fun r w' =>
        ∀ v, r = .ok v → StoredSince t v w') w := by
  apply asked_meets (r := .getPending) trivial
  intro w₁ choice b w₂ w₃ _ _ hServe hInv hRely v hv
  cases choice with
  | done =>
      simp only [serveRecovery, Option.some.injEq,
        Prod.mk.injEq] at hServe
      have hNow := StoredSince.now hInv t
      rw [← hServe.2] at hNow hRely
      rw [← hServe.1] at hv
      simp only [Except.ok.injEq] at hv
      rw [← hv]
      exact hNow.later hRely
  | fail error =>
      simp only [serveRecovery, Option.some.injEq,
        Prod.mk.injEq] at hServe
      rw [← hServe.1] at hv
      cases hv
  | _ => simp [serveRecovery] at hServe

/- Finding no directory at the root is on record. -/
theorem isDirectory_meets :
    PromptMeets root t (RecoveryM.isDirectory root)
      (fun r w' =>
        r = .ok false → w'.rootMissing t = true) w := by
  apply asked_meets (r := .isDirectory root) trivial
  intro w₁ choice b w₂ w₃ _ _ hServe _ hRely hFalse
  cases choice with
  | done =>
      simp only [serveRecovery, Option.some.injEq,
        Prod.mk.injEq] at hServe
      rw [← hServe.1] at hFalse
      have hMissing : w₁.disk root = .missing := by
        cases hDisk : w₁.disk root with
        | missing => rfl
        | directory => simp [directoryAt, hDisk] at hFalse
        | other => simp [directoryAt, hDisk] at hFalse
      apply hRely.rootMissing
      rw [← hServe.2]
      simp [hMissing, RecoveryWorld.noteMissing]
  | fail error =>
      simp only [serveRecovery, Option.some.injEq,
        Prod.mk.injEq] at hServe
      rw [← hServe.1] at hFalse
      cases hFalse
  | _ => simp [serveRecovery] at hServe

theorem tryInspect_meets :
    PromptMeets root t (tryInspect root)
      (fun r w' =>
        ∀ v, r = .ok (some v) → StoredSince t v w') w := by
  unfold tryInspect
  apply getPending_meets.bind
  rotate_left
  · exact fun _ _ _ _ _ h => nomatch h
  intro saved _ w hSaved
  have hStored := hSaved saved rfl
  cases saved with
  | none => exact inspectFolders_meets hStored
  | some recovery =>
      simp only
      have reports :
          ∀ {w : RecoveryWorld},
            StoredSince t (some recovery) w →
            PromptMeets root t
              (pure (some (some recovery)))
              (fun r w' =>
                ∀ v, r = .ok (some v) → StoredSince t v w')
              w := by
        intro w hStored
        apply meets_pure
        intro w' hRely _ v hv
        simp only [Except.ok.injEq, Option.some.injEq] at hv
        rw [← hv]
        exact hStored.later hRely
      split
      · exact reports hStored
      rename_i hNotes
      apply (meets_relates isDirectory_meets).bind
      rotate_left
      · exact fun _ _ _ _ _ h => nomatch h
      intro exists_ _ w' hRoot
      cases exists_ with
      | true => exact reports (hStored.later hRoot.2)
      | false =>
          have hMissing := hRoot.1 rfl
          apply
            (meets_relates
              (Allowed.newId (P := Anytime) t w'
                trivial)).bind
          · intro id _ w'' hRely
            apply storeNew_meets
            refine .inr ⟨hRely.2.rootMissing hMissing,
              ⟨recovery, rfl, ?_⟩, _, rfl, rfl, rfl, rfl⟩
            simpa [Option.isSome_iff_ne_none] using hNotes
          · exact fun _ _ _ _ _ h => nomatch h

/- An inspection reports a prompt that was stored. -/
theorem inspect_meets (rounds : Nat) :
    PromptMeets root t (inspect root rounds)
      (fun r w' => ∀ v, r = .ok v → StoredSince t v w') w := by
  induction rounds generalizing w with
  | zero =>
      intro w' _ _ choice b
      exact b.elim
  | succ rounds ih =>
      unfold inspect
      apply tryInspect_meets.bind
      · intro outcome _ w' hOutcome
        cases outcome with
        | none => exact ih
        | some v =>
            apply meets_pure
            intro w'' hRely _ v' hv
            cases hv
            exact (hOutcome v rfl).later hRely
      · exact fun _ _ _ _ _ h => nomatch h

theorem inspect_allowed
    {P : Tid → RecoveryWorld → Prop}
    (rounds : Nat) :
    Allowed root P (inspect root rounds) :=
  fun _ _ _ => (inspect_meets rounds).mono
    fun _ _ _ _ => trivial

theorem ensureAvailable_allowed
    (rounds : Nat) :
    Allowed root Anytime (ensureAvailable root rounds) := by
  unfold ensureAvailable
  refine .bind stable_anytime (inspect_allowed rounds)
    fun pending => ?_
  cases pending with
  | none => exact .pure ()
  | some recovery => exact .throw _

theorem ensureRootAvailable_allowed
    (rounds : Nat) :
    Allowed root Anytime
      (ensureRootAvailable root rounds) := by
  unfold ensureRootAvailable
  refine .bind stable_anytime (inspect_allowed rounds)
    fun pending => ?_
  split
  · exact ensureAvailable_allowed rounds
  refine .bind stable_anytime (.isDirectory root)
    fun rootExists => ?_
  cases rootExists with
  | false => exact ensureAvailable_allowed rounds
  | true => exact .pure ()

/- Notes answers for the folder that it has returned. -/
theorem acceptNotesRelocation_allowed
    (rounds : Nat)
    (id : Uuid) :
    Allowed root MayAct
      (acceptNotesRelocation root rounds id) := by
  unfold acceptNotesRelocation
  refine .bind stable_mayAct (inspect_allowed rounds)
    fun pending => ?_
  cases pending with
  | none => exact .pure ()
  | some recovery =>
      simp only
      split
      · exact .setPending none
      · exact .pure ()

------------------------------------------------------------
-- Decisions
------------------------------------------------------------

theorem renewPrompt_allowed (recovery : FolderRecovery) :
    Allowed root MayAct (renewPrompt recovery) := by
  refine .bind stable_mayAct .newId fun id => ?_
  exact .bind stable_mayAct (.setPending _) fun _ => .throw _

theorem confirmTargets_allowed (recovery : FolderRecovery) :
    Allowed root MayAct (confirmTargets recovery) := by
  unfold confirmTargets
  split
  · exact .pure recovery
  refine .bind stable_mayAct (.quiet fun _ _ => trivial)
    fun targets => ?_
  exact .bind stable_mayAct (.setPending _) fun _ => .pure _

theorem deleteConfirmed_allowed (recovery : FolderRecovery) :
    Allowed root MayAct (deleteConfirmed recovery) := by
  refine .bind stable_mayAct (.attempt (.effect _))
    fun result => ?_
  cases result with
  | ok _ => exact .pure ()
  | error e =>
      cases e with
      | conflict _ => exact renewPrompt_allowed recovery
      | _ => exact .throw _

theorem applyDecision_allowed
    (decision : RecoveryDecision)
    (recovery : FolderRecovery) :
    Allowed root MayAct
      (applyDecision decision recovery) := by
  cases decision with
  | restore => exact .pure recovery
  | delete =>
      refine .bind stable_mayAct
        (confirmTargets_allowed recovery) fun confirmed => ?_
      refine .bind stable_mayAct
        (deleteConfirmed_allowed confirmed) fun _ => ?_
      refine .bind stable_mayAct (.effect _) fun _ => ?_
      refine .bind stable_mayAct ?_ fun _ => .pure confirmed
      unfold retirePreviousRoot
      split
      · exact .effect _
      · exact .pure ()

theorem acceptPreviousRoot_allowed
    (recovery : FolderRecovery) :
    Allowed root MayAct (acceptPreviousRoot recovery) := by
  unfold acceptPreviousRoot
  split
  · exact .pure ()
  · exact .bind stable_mayAct (.quiet fun _ _ => trivial)
      fun _ => .effect _

theorem acceptNotesFolder_allowed :
    Allowed root MayAct acceptNotesFolder := by
  refine .bind stable_mayAct .notesFolder fun folder => ?_
  cases folder with
  | none => exact .pure ()
  | some folder => exact .effect _

theorem applyRestore_allowed
    (decision : RecoveryDecision)
    (recovery : FolderRecovery) :
    Allowed root MayAct (applyRestore decision recovery) := by
  cases decision with
  | delete => exact .pure ()
  | restore =>
      refine .bind stable_mayAct (.effect _) fun _ => ?_
      refine .bind stable_mayAct (.effect _) fun _ => ?_
      exact .bind stable_mayAct
        (acceptPreviousRoot_allowed recovery)
        fun _ => acceptNotesFolder_allowed

theorem createRoot_allowed :
    Allowed root MayAct (createRoot root) := by
  refine .bind stable_mayAct (.isDirectory root)
    fun rootExists => ?_
  cases rootExists with
  | false => exact .effect _
  | true => exact .pure ()

theorem createNotes_allowed (recovery : FolderRecovery) :
    Allowed root MayAct (createNotes recovery) := by
  unfold createNotes
  split
  · exact .effect _
  · exact .pure ()

theorem clearPrompt_allowed
    (rounds : Nat)
    (recovery : FolderRecovery) :
    Allowed root MayAct
      (clearPrompt root rounds recovery) := by
  refine .bind stable_mayAct (inspect_allowed rounds)
    fun pending => ?_
  split
  · exact .bind stable_mayAct .setSeen fun _ => .setPending _
  · exact .throw _

theorem carryOut_allowed
    (rounds : Nat)
    (decision : RecoveryDecision)
    (recovery : FolderRecovery) :
    Allowed root MayAct
      (carryOut root rounds decision recovery) := by
  refine .bind stable_mayAct
    (applyDecision_allowed decision recovery)
    fun applied => ?_
  refine .bind stable_mayAct createRoot_allowed fun _ => ?_
  refine .bind stable_mayAct (.effect _) fun _ => ?_
  refine .bind stable_mayAct (.effect _) fun _ => ?_
  refine .bind stable_mayAct
    (applyRestore_allowed decision applied) fun _ => ?_
  exact .bind stable_mayAct (createNotes_allowed applied)
    fun _ => clearPrompt_allowed rounds applied

theorem checkReplacement_allowed
    (decision : RecoveryDecision)
    (recovery : FolderRecovery) :
    Allowed root MayAct
      (checkReplacement decision recovery) := by
  cases decision with
  | restore => exact .pure ()
  | delete =>
      refine .bind stable_mayAct (.isDirectory _)
        fun isThere => ?_
      cases isThere with
      | false => exact .pure ()
      | true => exact .effect _

theorem withDecision_allowed
    (decision : RecoveryDecision)
    (recovery : FolderRecovery) :
    Allowed root MayAct (withDecision decision recovery) := by
  unfold withDecision
  split
  · exact .bind stable_mayAct .notesFolder fun _ => .pure _
  · exact .pure _

/-
  A resolve acts only after its inspection has reported the
  prompt that it names.
-/
theorem resolve_meets
    (rounds : Nat)
    (id : Uuid)
    (decision : RecoveryDecision)
    (hNamed : w.named t = some id) :
    PromptMeets root t (resolve root rounds id decision)
      (fun _ _ => True) w := by
  unfold resolve
  apply (meets_relates (inspect_meets rounds)).bind
  rotate_left
  · exact fun _ _ _ _ => trivial
  intro pending _ w' hPending
  cases pending with
  | none => exact meets_throw fun _ _ _ => trivial
  | some recovery =>
      simp only
      split
      · exact meets_throw fun _ _ _ => trivial
      rename_i hId
      split
      · exact meets_throw fun _ _ _ => trivial
      have hMayAct : MayAct t w' := by
        intro id' hId'
        rw [hPending.2.named, hNamed, Option.some.injEq]
          at hId'
        refine ⟨recovery, hPending.1 _ rfl, ?_⟩
        rw [← hId']
        exact not_not.mp hId
      have hAllowed :
          Allowed root MayAct (do
            checkReplacement decision recovery
            RecoveryM.effect .upgradeSchema
            let recovery ← withDecision decision recovery
            RecoveryM.setPending (some recovery)
            carryOut root rounds decision recovery) := by
        refine .bind stable_mayAct
          (checkReplacement_allowed decision recovery)
          fun _ => ?_
        refine .bind stable_mayAct (.effect _) fun _ => ?_
        refine .bind stable_mayAct
          (withDecision_allowed decision recovery)
          fun decided => ?_
        exact .bind stable_mayAct (.setPending _)
          fun _ => carryOut_allowed rounds decision decided
      exact hAllowed t w' hMayAct

end FolderRecovery

------------------------------------------------------------
-- One Prompt
------------------------------------------------------------

abbrev RecoveryState :=
  SystemState RecoveryReq RecoveryResp RecoveryWorld Tid
    RecoveryCall (CoreResult (Option FolderRecovery)) Unit

abbrev RecoveryRun
    (root : LocalPath)
    (s s' : RecoveryState) : Prop :=
  ThreadSystem.Run (recoverySystem root) (fun _ _ => True) s s'

def recoveryLimits :
    ThreadSystem.Limits RecoveryReq RecoveryChoice RecoveryWorld
      Tid RecoveryCall Unit Surroundings where
  Starts := fun _ _ _ _ => True
  Admits := fun _ _ _ _ _ => True
  Env := fun _ _ => True

/- An inspection has returned this prompt. -/
def PromptReported
    (s : RecoveryState)
    (t : Tid)
    (recovery : FolderRecovery) : Prop :=
  ∃ rounds, s.threads t =
    .busy (.inspect rounds) () (.done (.ok (some recovery), ()))

/- What an inspection promises about its result. -/
def recoveryPost
    (t : Tid)
    (call : RecoveryCall)
    (r : CoreResult (Option FolderRecovery))
    (w : RecoveryWorld) : Prop :=
  match call with
  | .inspect _ => ∀ v, r = .ok v → StoredSince t v w
  | _ => True

variable {s s' : RecoveryState}

/- A call that returns nothing of its own. -/
theorem Allowed.returning
    {P : Tid → RecoveryWorld → Prop}
    {x : RecoveryM Unit}
    (hStable : Stable P)
    (hx : Allowed root P x) :
    Allowed root P (do
      x
      return (none : Option FolderRecovery)) :=
  .bind hStable hx fun _ => .pure none

theorem recovery_call
    {c : RecoveryCall}
    (hNamed : w.named t = c.named) :
    PromptMeets root t (c.run root)
      (fun r w' => recoveryPost t c r w') w := by
  cases c with
  | inspect rounds => exact FolderRecovery.inspect_meets rounds
  | ensureAvailable rounds =>
      exact Allowed.returning stable_anytime
        (FolderRecovery.ensureAvailable_allowed rounds) t w
        trivial
  | ensureRootAvailable rounds =>
      exact Allowed.returning stable_anytime
        (FolderRecovery.ensureRootAvailable_allowed rounds) t w
        trivial
  | acceptNotesRelocation rounds id =>
      apply Allowed.returning stable_mayAct
        (FolderRecovery.acceptNotesRelocation_allowed rounds id)
        t w
      intro id' hId
      rw [hNamed] at hId
      cases hId
  | resolve rounds id decision =>
      apply
        (FolderRecovery.resolve_meets rounds id decision
          hNamed).bind
      · exact fun _ _ _ _ => meets_pure fun _ _ _ => trivial
      · exact fun _ _ _ _ => trivial

theorem recovery_verified :
    ThreadSystem.Verified (recoverySystem root)
      (promptContract root) recoveryLimits
      (fun _ _ _ => True)
      (fun t c _ r w => recoveryPost t c r.1 w) where
  stable := fun _ _ _ => trivial
  begin := by
    intro t c v w w' hInv _ _ hBegin
    simp only [recoverySystem, Option.some.injEq] at hBegin
    subst hBegin
    refine ⟨⟨hInv.beginCall c.named,
      fun u hu => beginCall_rely hu⟩, ?_⟩
    apply recovery_call
    simp [RecoveryWorld.beginCall]
  finish := fun hInv _ =>
    ⟨⟨hInv, fun u _ => .refl u _⟩, trivial⟩
  halt := fun hInv => ⟨⟨hInv, fun u _ => .refl u _⟩, trivial⟩
  env := by
    intro e w w' hInv _ hEnv
    simp only [recoverySystem, Option.some.injEq] at hEnv
    subst hEnv
    have hSame :
        SamePrompt w { w with toSurroundings := e } :=
      ⟨rfl, rfl, rfl, rfl, rfl, fun _ h => h⟩
    exact ⟨hSame.inv hInv, hSame.rely⟩

theorem prompts_of_run
    {surroundings : Surroundings}
    {pending : Option FolderRecovery}
    {seen : Bool}
    {drawn : Uuid}
    (run :
      RecoveryRun root
        ((recoverySystem root).initial
          (.start surroundings pending seen drawn)) s) :
    ThreadSystem.StateOk (recoverySystem root)
      (promptContract root) recoveryLimits
      (fun _ _ _ => True)
      (fun t c _ r w => recoveryPost t c r.1 w) s := by
  apply recovery_verified.stateOk_of_run
    (w := .start surroundings pending seen drawn)
  · exact ⟨⟨pending, rfl⟩, fun _ => List.suffix_rfl,
      fun _ hc => (List.not_mem_nil hc).elim,
      fun _ hActed => nomatch hActed⟩
  · exact fun _ => trivial
  apply run.weaken
  intro s a _
  cases a with
  | call t c => exact fun _ _ => trivial
  | serve t k => exact fun _ _ _ _ _ => trivial
  | _ => trivial

/- The record says which prompt the call of a thread names. -/
theorem recovery_notes :
    ThreadSystem.Notes (recoverySystem root)
      (fun t w => w.named t) RecoveryCall.named where
  begin := by
    intro t c v w w' hBegin
    simp only [recoverySystem, Option.some.injEq] at hBegin
    subst hBegin
    refine ⟨by simp [RecoveryWorld.beginCall], ?_⟩
    exact fun u hu => (beginCall_rely hu).named
  serve := fun hServe u => ((serve_prompt hServe).rely u).named
  finish := fun _ => rfl
  halt := fun _ => rfl
  env := by
    intro e w w' hEnv u
    simp only [recoverySystem, Option.some.injEq] at hEnv
    rw [← hEnv]

theorem named_of_run
    {w : RecoveryWorld}
    (run :
      RecoveryRun root ((recoverySystem root).initial w) s)
    {c : RecoveryCall} {p}
    (hThread : s.threads t = .busy c () p) :
    s.world.named t = c.named := by
  have hStart :
      ThreadSystem.Noted (fun t w => w.named t)
        RecoveryCall.named
        ((recoverySystem root).initial w) := by
    intro t c v p hBusy
    cases hBusy
  exact recovery_notes.noted_of_run hStart run t c () p hThread

/-
  In every run: an inspection reports a prompt that was
  stored during its call, and the one that is stored now
  unless a stored prompt was dropped meanwhile; an
  inspection drops a prompt only when it has found the sync
  root missing after a Notes prompt; a resolve acts only
  when the prompt that it names was stored during its call.
-/
theorem one_recovery_prompt
    {surroundings : Surroundings}
    {pending : Option FolderRecovery}
    {seen : Bool}
    {drawn : Uuid}
    (run :
      RecoveryRun root
        ((recoverySystem root).initial
          (.start surroundings pending seen drawn)) s) :
    (∀ t recovery, PromptReported s t recovery →
      StoredSince t (some recovery) s.world ∧
        (KeptSince t s.world →
          ∃ stored, s.world.pending = some stored ∧
            stored.id = recovery.id)) ∧
    (∀ c ∈ s.world.changes, c.writer = .inspection →
      c.FirstPrompt ∨ c.RootLost root) ∧
    ∀ t rounds id decision p,
      s.threads t = .busy (.resolve rounds id decision) () p →
        s.world.acted t = true →
          NamedStored t id s.world := by
  have hState := prompts_of_run run
  have hInv := hState.inv
  refine ⟨?_, hInv.inspected, ?_⟩
  · intro t recovery hReported
    rcases hReported with ⟨rounds, hThread⟩
    have hStored : StoredSince t (some recovery) s.world :=
      hState.post hThread _ rfl
    refine ⟨hStored, fun hKept => ?_⟩
    rcases hStored with ⟨newer, hChanges, hMem⟩
    rcases hInv.linked with ⟨start, hLeads⟩
    rw [hChanges] at hLeads
    rcases hLeads.of_append with ⟨middle, hNewer, _⟩
    exact hNewer.keeps_id (hKept newer hChanges) hMem
  · intro t rounds id decision p hThread hActed
    exact hInv.acted t hActed id (named_of_run run hThread)

/- A sync folder that is in use and has lost what is inside. -/
def lostNotes : Surroundings where
  disk := fun path =>
    if path = ["sync"] then .directory else .missing
  filesUnderRoot := true
  foldersUnderRoot := true
  notesFolder := some ⟨7, ["sync", "Notes"]⟩

/- The whole sync folder is gone. -/
def lostRoot : Surroundings :=
  { lostNotes with disk := fun _ => .missing }

def startRecovery
    (surroundings : Surroundings) : RecoveryState :=
  (recoverySystem ["sync"]).initial
    (.start surroundings none true 0)

/- A call and its first requests, all of which succeed. -/
def starts
    (t : Tid)
    (call : RecoveryCall)
    (requests : Nat) :
    List (Action Tid RecoveryChoice RecoveryCall Surroundings) :=
  .call t call :: .replicate requests (.serve t .done)

/- The sync loop and the window inspect at the same time. -/
def bothInspect :
    List (Action Tid RecoveryChoice RecoveryCall Surroundings) :=
  starts 1 (.inspect 2) 6 ++ starts 2 (.inspect 2) 6 ++
  [.serve 1 .done] ++ .replicate 3 (.serve 2 .done)

/- Whether both have reported, and nothing was dropped. -/
def bothReported (s : RecoveryState) : Bool :=
  match s.threads 1, s.threads 2 with
  | .busy (.inspect _) _ (.done (.ok (some _), _)),
    .busy (.inspect _) _ (.done (.ok (some _), _)) =>
      s.world.changes.all fun c => c.before.isNone
  | _, _ => false

theorem keptSince_of_all
    (hAll :
      (s.world.changes.all fun c => c.before.isNone) = true) :
    KeptSince t s.world := by
  intro newer hChanges c hc hDrops
  rcases hDrops with ⟨old, hOld, _⟩
  have hMem : c ∈ s.world.changes := by
    rw [hChanges]
    exact List.mem_append_left _ hc
  have hNone := List.all_eq_true.mp hAll c hMem
  simp [hOld] at hNone

theorem concurrent_inspections_agree :
    ∃ s r r',
      RecoveryRun ["sync"] (startRecovery lostNotes) s ∧
        PromptReported s 1 r ∧ PromptReported s 2 r' ∧
        r.id = r'.id := by
  have trace :
      ((recoverySystem ["sync"]).exec
        (startRecovery lostNotes) bothInspect).any
          bothReported = true := by
    decide +kernel
  rcases ThreadSystem.Run.exists_of_execIf
      (fun _ _ _ => trivial) bothInspect trace with
    ⟨s, run, hTest⟩
  unfold bothReported at hTest
  split at hTest
  · rename_i n _ r _ m _ r' _ hFirst hSecond
    have hReports := (one_recovery_prompt run).1
    rcases (hReports 1 r ⟨n, hFirst⟩).2
        (keptSince_of_all hTest) with ⟨stored, hNow, hId⟩
    rcases (hReports 2 r' ⟨m, hSecond⟩).2
        (keptSince_of_all hTest) with ⟨stored', hNow', hId'⟩
    rw [hNow, Option.some.injEq] at hNow'
    refine ⟨s, r, r', run, ⟨n, hFirst⟩, ⟨m, hSecond⟩, ?_⟩
    rw [← hId, ← hId', hNow']
  · cases hTest

/- The user chooses to restore Notes; the process dies. -/
def choosesRestore :
    List (Action Tid RecoveryChoice RecoveryCall Surroundings) :=
  starts 1 (.inspect 1) 7 ++ [.finish 1] ++
  starts 2 (.resolve 1 1 .restore) 5 ++ [.halt 2]

/- Then the sync folder disappears and is inspected. -/
def rootDisappears :
    List (Action Tid RecoveryChoice RecoveryCall Surroundings) :=
  [.env lostRoot] ++ starts 1 (.inspect 1) 4

/- The only calls are inspections. -/
def OnlyInspects
    (_ : RecoveryState)
    (a : Action Tid RecoveryChoice RecoveryCall Surroundings) :
    Prop :=
  ∀ t c, a = .call t c → ∃ rounds, c = .inspect rounds

def onlyInspects
    (_ : RecoveryState) :
    Action Tid RecoveryChoice RecoveryCall Surroundings → Bool
  | .call _ (.inspect _) => true
  | .call _ _ => false
  | _ => true

theorem onlyInspects_of_check
    {a : Action Tid RecoveryChoice RecoveryCall Surroundings}
    (h : onlyInspects s a = true) : OnlyInspects s a := by
  intro t c ha
  subst ha
  cases c with
  | inspect rounds => exact ⟨rounds, rfl⟩
  | _ => simp [onlyInspects] at h

/- The restore is stored and no call is under way. -/
def restoreStored (s : RecoveryState) : Bool :=
  match s.threads 1, s.threads 2, s.world.pending with
  | .idle _, .idle _, some recovery =>
      recovery.id = 1 &&
        recovery.decision = some .restore
  | _, _, _ => false

/- Another prompt without a decision is stored. -/
def undecided (s : RecoveryState) : Bool :=
  match s.world.pending with
  | some recovery =>
      recovery.id ≠ 1 && recovery.decision.isNone
  | none => false

/-
  A decision about the Notes folder is stored and has not
  been carried out; an inspection replaces it.
-/
theorem decision_replaced :
    ∃ s s' old new,
      RecoveryRun ["sync"] (startRecovery lostNotes) s ∧
        s.threads 1 = .idle () ∧ s.threads 2 = .idle () ∧
        s.world.pending = some old ∧
        old.decision = some .restore ∧
        ThreadSystem.Run (recoverySystem ["sync"])
          OnlyInspects s s' ∧
        s'.world.pending = some new ∧ new.id ≠ old.id ∧
        new.decision = none := by
  have trace :
      ((recoverySystem ["sync"]).exec
        (startRecovery lostNotes) choosesRestore).any
          (fun s => restoreStored s &&
            ((recoverySystem ["sync"]).execIf onlyInspects s
              rootDisappears).any undecided) = true := by
    decide +kernel
  rcases ThreadSystem.Run.exists_of_execIf
      (fun _ _ _ => trivial) choosesRestore trace with
    ⟨s, run, hTest⟩
  rw [Bool.and_eq_true] at hTest
  rcases hTest with ⟨hStored, hLater⟩
  rcases ThreadSystem.Run.exists_of_execIf
      (fun _ _ => onlyInspects_of_check) rootDisappears hLater
    with ⟨s', later, hUndecided⟩
  unfold restoreStored at hStored
  unfold undecided at hUndecided
  split at hStored
  · rename_i old hFirst hSecond hOld
    split at hUndecided
    · rename_i new hNew
      simp only [Bool.and_eq_true, decide_eq_true_eq]
        at hStored hUndecided
      refine ⟨s, s', old, new, run, hFirst, hSecond, hOld,
        hStored.2, later, hNew, ?_, ?_⟩
      · rw [hStored.1]
        exact hUndecided.1
      · exact Option.isNone_iff_eq_none.mp hUndecided.2
    · cases hUndecided
  · cases hStored

end S4Drive

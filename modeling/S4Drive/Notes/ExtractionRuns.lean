import S4Drive.Library.OwnEntries
import S4Drive.Notes.ArchiveVerified
import S4Drive.Notes.Extraction

/-
  Extraction is all or nothing: while the others leave the
  entries of a call alone, a call that returns has published
  exactly the archive that it verified, or nothing.

  Main declarations:
    * `FailsCleanly`, `extractLimits`, `extractContract`
    * `Staging`, `Staged`, `Published`
    * `stageVerified_does`, `publishExtracted_does`
    * `archives_are_sound_and_extracted_whole`
-/

------------------------------------------------------------
-- The Contract
------------------------------------------------------------

namespace S4Drive

open Concurrency FileTree

/-
  A move that fails has moved nothing, and taking `Notes`
  back and removing the staging folder do not fail.
-/
def FailsCleanly (r : ExtractReq) (k : ExtractChoice) : Prop :=
  match r, k with
  | .file (.moveNew a _), .file k =>
      k ≠ .moved ∧ (a = [notesRootName] → k = .ok)
  | .file (.removeDirAll _), .file k => k = .ok
  | _, _ => True

/- The others stay out of what a call has made. -/
def extractLimits :
    ThreadSystem.Limits ExtractReq ExtractChoice ExtractWorld
      Unit ExtractCall Unit (Change Text FileBody) where
  Starts := fun _ _ _ _ => True
  Admits := fun _ _ r k _ => FailsCleanly r k
  Env := fun c w => w.output.Outside c

def extractContract :
    Contract ExtractReq ExtractChoice ExtractWorld Unit where
  Inv := fun w => w.output.files.Rooted
  Rely := fun _ w w' =>
    (∀ mine, Overlay mine w.output → Overlay mine w'.output) ∧
      w'.zip = w.zip ∧ w'.data = w.data
  Admits := fun _ r k _ => FailsCleanly r k
  rely_refl := fun _ _ => ⟨fun _ h => h, rfl, rfl⟩
  rely_trans := fun h₁ h₂ =>
    ⟨fun mine h => h₂.1 mine (h₁.1 mine h),
      h₂.2.1.trans h₁.2.1, h₂.2.2.trans h₁.2.2⟩

/- What the call has read of the archive. -/
def ReadAs
    (zip : Option ZipFile)
    (data : List ReadData)
    (w : ExtractWorld) : Prop :=
  w.zip = zip ∧ w.data = data

variable {codec : BackupCodec}
variable {zip : Option ZipFile} {data : List ReadData}
variable {mine mine' : Entries} {staging : Text}
variable {α : Type}

theorem extract_undisturbed :
    Undisturbed extractContract () ExtractWorld.output
      (ReadAs zip data) :=
  fun _ _ hRely =>
    ⟨hRely.1, fun h =>
      ⟨hRely.2.1.trans h.1, hRely.2.2.trans h.2⟩⟩

/- From the entries `mine` of the call on, `x` leads to `R`. -/
abbrev Does
    (zip : Option ZipFile)
    (data : List ReadData)
    (x : ExtractM α)
    (mine : Entries)
    (R : BackupExcept α → Entries → Prop) : Prop :=
  Leads extractMachine extractContract () ExtractWorld.output
    (ReadAs zip data) x mine R

variable {R : BackupExcept α → Entries → Prop}

/- A request to the file system, by its effect on `mine`. -/
theorem file_does
    {r : EntryReq}
    {answer : Except FileError Unit → BackupExcept α}
    (h :
      ∀ w k b w', Overlay mine w →
        FailsCleanly (.file r) (.file k) →
        w.serve r k = some (b, w') →
          ∃ mine', Overlay mine' w' ∧ R (answer b) mine') :
    Does zip data (Script.call (.file r) answer) mine R := by
  apply leads_call extract_undisturbed
  intro s k b s' hMine hK hInv hAdmits hServe
  cases k with
  | file k =>
      simp only [extractMachine, serveExtract,
        Option.map_eq_some_iff] at hServe
      rcases hServe with ⟨⟨b', output⟩, hServe, hSame⟩
      cases hSame
      rcases h _ k b' output hMine hAdmits hServe with
        ⟨mine', hMine', hR⟩
      exact ⟨⟨Shared.rooted_serve hInv hServe,
          fun u hu => absurd rfl hu⟩,
        mine', hMine', hK, hR⟩
  | ok => cases hServe
  | failed => cases hServe
  | zip z => cases hServe
  | data d => cases hServe

/- Every answer keeps the call's entries as they are. -/
theorem readEntry_does
    {index : Nat}
    {R : BackupExcept ReadData → Entries → Prop}
    (h : ∀ data, R (.ok data) mine) :
    Does zip data (readEntry index) mine R := by
  apply leads_call extract_undisturbed
  intro s k b s' hMine hK hInv _ hServe
  cases k <;> cases hServe
  exact ⟨⟨hInv, fun u hu => absurd rfl hu⟩, mine, hMine, hK,
    h _⟩

theorem openStaging_does
    {R : BackupExcept Unit → Entries → Prop}
    (h : ∀ r, R r mine) :
    Does zip data (openStaging staging) mine R := by
  apply leads_call extract_undisturbed
  intro s k b s' hMine hK hInv _ hServe
  have hSame : s' = s := by
    cases k <;> simp only [extractMachine, serveExtract] at hServe
    · split at hServe <;> cases hServe <;> rfl
    · cases hServe
      rfl
    all_goals cases hServe
  subst hSame
  exact ⟨⟨hInv, fun u hu => absurd rfl hu⟩, mine, hMine, hK,
    h _⟩

------------------------------------------------------------
-- The Staging Folder
------------------------------------------------------------

/- All that the call has made is in its staging folder. -/
structure Staging (staging : Text) (mine : Entries) : Prop where
  root : mine.nodeAt [staging] = some .folder
  only : ∀ x q, mine.nodeAt (x :: q) ≠ none → x = staging

/- Paths, each with what is to be found there. -/
abbrev Plan := List (List Text × (Node FileBody → Prop))

/- The staging folder holds a plan and nothing else. -/
structure Staged
    (staging : Text)
    (plan : Plan)
    (mine : Entries) : Prop extends Staging staging mine where
  has :
    ∀ e ∈ plan, ∃ node,
      mine.nodeAt (staging :: e.1) = some node ∧ e.2 node
  planned :
    ∀ q, mine.nodeAt (staging :: q) ≠ none →
      q = [] ∨ ∃ e ∈ plan, q = e.1

variable {plan : Plan} {q : List Text}
variable {node : Node FileBody}

theorem Staging.put
    (h : Staging staging mine)
    (hPath : q ≠ []) :
    Staging staging (mine.put (staging :: q) node) := by
  constructor
  · rw [Files.nodeAt_put]
    simp [List.cons_prefix_cons, List.prefix_nil, hPath,
      h.root, Ne.symm hPath]
  · intro x p hPresent
    rw [Files.nodeAt_put] at hPresent
    split at hPresent
    · rename_i hSame
      exact (List.cons.inj hSame).1
    · split at hPresent
      · exact absurd rfl hPresent
      · exact h.only x p hPresent

/- Nothing planned is inside of where something new goes. -/
theorem Staged.outside
    (h : Staged staging plan mine)
    (hNothing :
      ∀ p, staging :: q <+: p → mine.nodeAt p = none) :
    ∀ e ∈ plan, ¬ q <+: e.1 := by
  intro e hMem hIn
  rcases h.has e hMem with ⟨node, hNode, _⟩
  have hNone := hNothing (staging :: e.1)
    (List.cons_prefix_cons.mpr ⟨rfl, hIn⟩)
  rw [hNone] at hNode
  cases hNode

/- One more entry is put, or put again. -/
theorem Staged.put
    {P : Node FileBody → Prop}
    {before : Plan}
    (h : Staged staging before mine)
    (hPath : q ≠ [])
    (hBefore : ∀ e ∈ before, e ∈ plan ∨ e.1 = q)
    (hPlan : ∀ e ∈ plan, e ∈ before)
    (hOutside : ∀ e ∈ plan, ¬ q <+: e.1)
    (hNode : P node) :
    Staged staging (plan ++ [(q, P)])
      (mine.put (staging :: q) node) := by
  refine ⟨h.toStaging.put hPath, ?_, ?_⟩
  · intro e hMem
    rcases List.mem_append.mp hMem with hMem | hMem
    · rcases h.has e (hPlan e hMem) with ⟨node', hThere, hP⟩
      refine ⟨node', ?_, hP⟩
      have hOut := hOutside e hMem
      rw [Files.nodeAt_put, if_neg, if_neg]
      · exact hThere
      · simpa [List.cons_prefix_cons] using hOut
      · intro hSame
        rw [(List.cons.inj hSame).2] at hOut
        exact hOut (List.prefix_refl q)
    · rw [List.mem_singleton] at hMem
      subst hMem
      exact ⟨node, by simp, hNode⟩
  · intro p hPresent
    rw [Files.nodeAt_put] at hPresent
    split at hPresent
    · rename_i hSame
      right
      exact ⟨(q, P), by simp, (List.cons.inj hSame).2⟩
    · split at hPresent
      · exact absurd rfl hPresent
      · rcases h.planned p hPresent with hRoot | ⟨e, hMem, hSame⟩
        · exact .inl hRoot
        · right
          rcases hBefore e hMem with hOld | hAgain
          · exact ⟨e, List.mem_append_left _ hOld, hSame⟩
          · exact ⟨(q, P), by simp, hSame.trans hAgain⟩

/- What the result of a staging step says. -/
def StagedAs
    (staging : Text)
    (plan : Plan)
    (r : BackupExcept α)
    (mine : Entries) : Prop :=
  match r with
  | .ok _ => Staged staging plan mine
  | .error _ => Staging staging mine

/- The folder of a step in staging is the call's own. -/
theorem Staging.own
    {w : SharedEntries}
    (h : Staging staging mine)
    (hMine : Overlay mine w) : OwnAt mine w staging :=
  hMine.own_of_mine (q := []) (by simp [h.root])

variable {message : String}

/- A new folder or file in the staging folder. -/
theorem create_does
    {r : EntryReq}
    (h : Staged staging plan mine)
    (hPath : q ≠ [])
    (hCreates : r.creates = some (staging :: q, node)) :
    Does zip data (fileStep r message) mine fun res mine' =>
      match res with
      | .ok _ =>
          Staged staging (plan ++ [(q, fun n => n = node)]) mine' ∧
            ∀ e ∈ plan, ¬ q <+: e.1
      | .error _ => Staging staging mine' := by
  apply file_does
  intro w k b w' hMine _ hServe
  rcases hMine.create hCreates (fun _ => h.own hMine) hServe with
    ⟨e, rfl, rfl⟩ | ⟨rfl, hMine', hNothing⟩
  · exact ⟨mine, hMine, h.toStaging⟩
  · have hOutside := h.outside hNothing
    refine ⟨_, hMine', ?_, hOutside⟩
    exact h.put hPath (fun _ hMem => .inl hMem)
      (fun _ hMem => hMem) hOutside rfl

/- The contents of the file that was created last. -/
theorem write_does
    {P P' : Node FileBody → Prop}
    {body : FileBody}
    (h : Staged staging (plan ++ [(q, P')]) mine)
    (hPath : q ≠ [])
    (hOutside : ∀ e ∈ plan, ¬ q <+: e.1)
    (hBody : P (.file body)) :
    Does zip data
      (fileStep (.write (staging :: q) body) message) mine
      (StagedAs staging (plan ++ [(q, P)])) := by
  apply file_does
  intro w k b w' hMine _ hServe
  rcases hMine.write (h.own hMine) hServe with
    ⟨rfl, hMine'⟩ | ⟨e, rfl, hKept | ⟨body', hMine'⟩⟩
  · refine ⟨_, hMine', ?_⟩
    apply h.put hPath _ _ hOutside hBody
    · intro e hMem
      rcases List.mem_append.mp hMem with hMem | hMem
      · exact .inl hMem
      · rw [List.mem_singleton] at hMem
        exact .inr (by rw [hMem])
    · exact fun e hMem => List.mem_append_left _ hMem
  · exact ⟨mine, hKept ▸ hMine, h.toStaging⟩
  · exact ⟨_, hMine', h.toStaging.put hPath⟩

/- A verified file: bytes of the listed size and hash. -/
def FileOf
    (codec : BackupCodec)
    (item : VerifiedItem)
    (node : Node FileBody) : Prop :=
  ∃ bytes, node = .file (.bytes bytes) ∧
    bytes.length = item.size ∧
    item.blake3 = some (codec.blake3 bytes)

/- What is to be found at the path of an item. -/
def ItemNode
    (codec : BackupCodec)
    (item : VerifiedItem)
    (node : Node FileBody) : Prop :=
  match item.kind with
  | .directory => node = .folder
  | .file => FileOf codec item node

theorem stageFile_does
    {item : VerifiedItem} {total : Nat}
    (h : Staged staging plan mine)
    (hPath : q ≠ []) :
    Does zip data (stageFile codec (staging :: q) item total)
      mine
      (StagedAs staging (plan ++ [(q, FileOf codec item)])) := by
  unfold stageFile
  apply (create_does h hPath rfl).bind
  swap
  · exact fun e mine' hStaging => hStaging
  rintro _ mine₁ ⟨hCreated, hOutside⟩
  apply (readEntry_does (fun _ => ⟨rfl, trivial⟩) :
    Does zip data _ mine₁ fun r mine' =>
      mine' = mine₁ ∧ (match r with
        | .ok _ => True
        | .error _ => False)).bind
  swap
  · exact fun e mine' hNever => hNever.2.elim
  rintro read _ ⟨rfl, _⟩
  cases hCopied : (copyVerified codec read item total).2 with
  | error e =>
      apply (write_does (P := fun _ => True) hCreated hPath
        hOutside trivial).bind
      · intro _ mine₂ hWritten
        apply leads_ofExcept extract_undisturbed
        rw [hCopied]
        exact hWritten.toStaging
      · exact fun e mine' hStaging => hStaging
  | ok total' =>
      rcases copyVerified_spec hCopied with ⟨hBytes, hRead, _⟩
      apply (write_does (P := FileOf codec item) hCreated hPath
        hOutside ?_).bind
      · intro _ mine₂ hWritten
        apply leads_ofExcept extract_undisturbed
        rw [hCopied]
        exact hWritten
      · exact fun e mine' hStaging => hStaging
      · rw [hBytes]
        exact ⟨_, rfl, hRead.size, hRead.hash⟩

def planOf
    (codec : BackupCodec)
    (items : List VerifiedItem) : Plan :=
  items.map fun item => (keyPath item.key, ItemNode codec item)

theorem keyPath_ne_nil (key : Text) : keyPath key ≠ [] :=
  List.splitOn_ne_nil '/' key

theorem stageItems_does
    {items : List VerifiedItem} {total : Nat}
    {result : ExtractResult}
    (h : Staged staging plan mine) :
    Does zip data (stageItems codec staging items total result)
      mine
      (StagedAs staging (plan ++ planOf codec items)) := by
  induction items generalizing plan mine total result with
  | nil =>
      apply leads_pure extract_undisturbed
      simpa [StagedAs, planOf] using h
  | cons item rest ih =>
      have hPath := keyPath_ne_nil item.key
      have hPlan :
          plan ++ planOf codec (item :: rest) =
            (plan ++ [(keyPath item.key, ItemNode codec item)]) ++
              planOf codec rest := by
        simp [planOf]
      rw [hPlan]
      unfold stageItems
      cases hKind : item.kind with
      | directory =>
          have hNode :
              ItemNode codec item = fun n => n = .folder := by
            unfold ItemNode
            rw [hKind]
          rw [hNode]
          apply (create_does h hPath rfl).bind
          · exact fun _ mine' hCreated => ih hCreated.1
          · exact fun e mine' hStaging => hStaging
      | file =>
          have hNode : ItemNode codec item = FileOf codec item := by
            unfold ItemNode
            rw [hKind]
          rw [hNode]
          apply (stageFile_does h hPath).bind
          · exact fun _ mine' hStaged => ih hStaged
          · exact fun e mine' hStaging => hStaging

/- What a verified archive is extracted to. -/
def archivePlan
    (codec : BackupCodec)
    (archive : VerifiedArchive) : Plan :=
  planOf codec archive.items ++
    [([manifestName], fun node =>
      node = .file (.bytes archive.manifestBytes))]

theorem writeExclusive_does
    {bytes : List UInt8}
    (h : Staged staging plan mine)
    (hPath : q ≠ []) :
    Does zip data (writeExclusive (staging :: q) bytes) mine
      (StagedAs staging
        (plan ++
          [(q, fun node => node = .file (.bytes bytes))])) := by
  unfold writeExclusive
  apply (create_does h hPath rfl).bind
  · rintro _ mine' ⟨hCreated, hOutside⟩
    exact write_does hCreated hPath hOutside rfl
  · exact fun e mine' hStaging => hStaging

variable {archive : VerifiedArchive}

theorem stageVerified_does
    (h : Staged staging [] mine) :
    Does zip data (stageVerified codec staging archive) mine
      (StagedAs staging (archivePlan codec archive)) := by
  unfold stageVerified
  apply (stageItems_does h).bind
  · intro result mine₁ hItems
    apply (writeExclusive_does hItems (by simp)).bind
    · intro _ mine₂ hStaged
      exact leads_pure extract_undisturbed hStaged
    · exact fun e mine' hStaging => hStaging
  · exact fun e mine' hStaging => hStaging

------------------------------------------------------------
-- Publication
------------------------------------------------------------

/- Every planned path is `Notes`, in it, or the manifest. -/
def TwoNames (plan : Plan) : Prop :=
  ∀ e ∈ plan,
    (∃ q, e.1 = notesRootName :: q) ∨ e.1 = [manifestName]

/- The plan is in the output folder, beside the staging. -/
structure MovedOut
    (staging : Text)
    (plan : Plan)
    (mine : Entries) : Prop where
  root : mine.nodeAt [staging] = some .folder
  has :
    ∀ e ∈ plan, ∃ node,
      mine.nodeAt e.1 = some node ∧ e.2 node
  planned :
    ∀ x q, mine.nodeAt (x :: q) ≠ none →
      x = staging ∨ ∃ e ∈ plan, x :: q = e.1

/- Names that a staging folder never has. -/
structure Distinct (staging : Text) : Prop where
  notes : staging ≠ notesRootName
  manifest : staging ≠ manifestName

theorem notesRootName_ne : notesRootName ≠ manifestName := by
  decide

/- The staging folder after `Notes` was moved out of it. -/
def withNotes (staging : Text) (mine : Entries) : Entries :=
  mine.moveTree [staging, notesRootName] [notesRootName]

theorem moved_out
    (hNames : Distinct staging)
    (h : Staged staging plan mine)
    (hTwo : TwoNames plan) :
    MovedOut staging plan
      ((withNotes staging mine).moveTree [staging, manifestName]
        [manifestName]) := by
  have h₁ := hNames.notes
  have h₂ := hNames.manifest
  have h₃ := notesRootName_ne
  constructor
  · simp [withNotes, List.cons_prefix_cons, h.root, h₁.symm,
      h₂.symm]
  · intro e hMem
    rcases h.has e hMem with ⟨node, hNode, hP⟩
    refine ⟨node, ?_, hP⟩
    rcases hTwo e hMem with ⟨q, hPath⟩ | hPath
    · rw [hPath] at hNode ⊢
      simp [withNotes, List.cons_prefix_cons, h₁, h₃.symm,
        hNode]
    · rw [hPath] at hNode ⊢
      simp [withNotes, List.cons_prefix_cons, h₁.symm, h₃,
        hNode]
  · intro x q hPresent
    by_cases hManifest : x = manifestName
    · subst hManifest
      simp [withNotes, List.cons_prefix_cons, h₁.symm, h₃]
        at hPresent
      have hPlanned := h.planned (manifestName :: q) hPresent
      exact .inr (hPlanned.resolve_left (by simp))
    · by_cases hNotes : x = notesRootName
      · subst hNotes
        simp [withNotes, List.cons_prefix_cons, h₁, h₃.symm]
          at hPresent
        have hPlanned := h.planned (notesRootName :: q) hPresent
        exact .inr (hPlanned.resolve_left (by simp))
      · left
        by_contra hOther
        have hNone : mine.nodeAt (x :: q) = none := by
          by_contra hThere
          exact hOther (h.only x q hThere)
        have hManifest' := Ne.symm hManifest
        have hNotes' := Ne.symm hNotes
        have hOther' := Ne.symm hOther
        simp [withNotes, List.cons_prefix_cons, hManifest',
          hNotes', hOther', hNone] at hPresent

/- What is in staging again after `Notes` was taken back. -/
theorem taken_back
    (hNames : Distinct staging)
    (h : Staging staging mine) :
    Staging staging
      ((withNotes staging mine).moveTree [notesRootName]
        [staging, notesRootName]) := by
  have h₁ := hNames.notes
  constructor
  · simp [withNotes, List.cons_prefix_cons, h.root, h₁.symm]
  · intro x q hPresent
    by_contra hOther
    have hNone : mine.nodeAt (x :: q) = none := by
      by_contra hThere
      exact hOther (h.only x q hThere)
    have hOther' := Ne.symm hOther
    by_cases hNotes : notesRootName = x
    · simp [List.cons_prefix_cons, hNotes, hOther'] at hPresent
    · simp [withNotes, List.cons_prefix_cons, hNotes, hOther',
        hNone] at hPresent

theorem moveNoClobber_does
    {x y : Text} {p q : List Text} {name : Text}
    (hOwn : ∃ r, mine.nodeAt (x :: r) ≠ none)
    (hTarget : q ≠ [] → ∃ r, mine.nodeAt (y :: r) ≠ none) :
    Does zip data (moveNoClobber (x :: p) (y :: q) name) mine
      fun res mine' =>
        match res with
        | .ok _ =>
            mine.nodeAt (x :: p) ≠ none ∧
              mine' = mine.moveTree (x :: p) (y :: q)
        | .error _ => mine' = mine := by
  apply file_does
  intro w k b w' hMine hCarries hServe
  rcases hOwn with ⟨r, hr⟩
  have hSource := hMine.own_of_mine hr
  have hInto : q ≠ [] → OwnAt mine w y := by
    intro hNew
    rcases hTarget hNew with ⟨r', hr'⟩
    exact hMine.own_of_mine hr'
  rcases hMine.moveNew hCarries.1 hSource hInto hServe with
    ⟨e, rfl, rfl⟩ | ⟨rfl, hThere, hMine'⟩
  · refine ⟨mine, hMine, ?_⟩
    cases e <;> rfl
  · exact ⟨_, hMine', hThere, rfl⟩

/- Taking `Notes` back does not fail. -/
theorem moveBack_does
    (hNames : Distinct staging)
    (h : Staging staging mine)
    (hNotes : mine.nodeAt [staging, notesRootName] ≠ none) :
    Does zip data
      (moveNoClobber [notesRootName] [staging, notesRootName]
        notesRootName)
      (withNotes staging mine)
      fun _ mine' => Staging staging mine' := by
  apply file_does
  intro w k b w' hMine hCarries hServe
  have hOk : k = .ok := hCarries.2 rfl
  subst hOk
  have h₁ := hNames.notes
  have hThere :
      (withNotes staging mine).nodeAt [notesRootName] ≠ none := by
    simpa [withNotes] using hNotes
  have hRoot :
      (withNotes staging mine).nodeAt [staging] = some .folder := by
    simp [withNotes, List.cons_prefix_cons, h.root, h₁.symm]
  have hFree :
      (withNotes staging mine).nodeAt [staging, notesRootName] =
        none := by
    simp [withNotes, List.cons_prefix_cons, h₁.symm]
  have hOwn := hMine.own_of_mine (q := []) hThere
  have hStaging := hMine.own_of_mine (x := staging) (q := [])
    (by simp [hRoot])
  have hFiles := (hOwn []).1
  have hFolder := (hStaging []).1
  have hTarget := (hStaging [notesRootName]).1
  have hEffect :
      FileReq.effect w.files
        (.moveNew [notesRootName] [staging, notesRootName]) =
        .ok (.move [notesRootName] [staging, notesRootName]) := by
    simp [FileReq.effect, hFiles, hThere, hTarget, hFree]
  have hPossible :
      (Change.move [notesRootName] [staging, notesRootName] :
        Change Text FileBody).Possible w.files := by
    refine ⟨by simp, by simp, .inr ?_, ?_⟩
    · exact hFolder.trans hRoot
    · simp [List.cons_prefix_cons, h₁.symm]
  rcases Overlay.act_of_serve hEffect hPossible hServe with
    ⟨rfl, rfl⟩
  refine ⟨_, hMine.act hPossible ?_, taken_back hNames h⟩
  intro z hz
  rcases List.mem_append.mp hz with hz | hz
  · exact Overlay.heads_own hOwn z hz
  · exact Overlay.heads_own hStaging z hz

/- What the result of a publication says. -/
def MovedAs
    (staging : Text)
    (plan : Plan)
    (r : BackupExcept α)
    (mine : Entries) : Prop :=
  match r with
  | .ok _ => MovedOut staging plan mine
  | .error _ => Staging staging mine

theorem publishExtracted_does
    (hNames : Distinct staging)
    (h : Staged staging plan mine)
    (hTwo : TwoNames plan) :
    Does zip data (publishExtracted staging) mine
      (MovedAs staging plan) := by
  unfold publishExtracted
  have hRoot := h.root
  have h₁ := hNames.notes
  apply (moveNoClobber_does ⟨[], by simp [hRoot]⟩
    (fun hNew => absurd rfl hNew)).bind
  · rintro _ _ ⟨hNotes, rfl⟩
    have hStaging :
        (withNotes staging mine).nodeAt [staging] ≠ none := by
      simp [withNotes, List.cons_prefix_cons, hRoot, h₁.symm]
    apply (moveNoClobber_does ⟨[], hStaging⟩
      (fun hNew => absurd rfl hNew)).attempt_bind
    rintro moved mine' hMoved
    cases moved with
    | ok _ =>
        apply leads_pure extract_undisturbed
        rw [hMoved.2]
        exact moved_out hNames h hTwo
    | error e =>
        subst hMoved
        unfold takeBack
        apply (moveBack_does hNames h.toStaging
          hNotes).attempt_bind
        intro _ mine'' hBack
        exact leads_throw extract_undisturbed hBack
  · rintro e _ rfl
    exact h.toStaging

variable {outputDir : String}

theorem extractStaged_does
    (hNames : Distinct staging)
    (h : Staged staging [] mine)
    (hTwo : TwoNames (archivePlan codec archive)) :
    Does zip data
      (extractStaged codec outputDir staging archive) mine
      (MovedAs staging (archivePlan codec archive)) := by
  unfold extractStaged
  apply (openStaging_does (R := fun _ mine' => mine' = mine)
    fun _ => rfl).bind
  swap
  · rintro e _ rfl
    exact h.toStaging
  rintro _ _ rfl
  apply (stageVerified_does h).bind
  swap
  · exact fun e mine' hStaging => hStaging
  intro result mine₁ hStaged
  apply (publishExtracted_does hNames hStaged
    hTwo).attempt_bind
  intro published mine₂ hPublished
  cases published with
  | ok _ => exact leads_pure extract_undisturbed hPublished
  | error e => exact leads_throw extract_undisturbed hPublished

------------------------------------------------------------
-- The Whole Call
------------------------------------------------------------

/- The call has the plan in the output folder, and no more. -/
structure Published (plan : Plan) (mine : Entries) : Prop where
  has :
    ∀ e ∈ plan, ∃ node,
      mine.nodeAt e.1 = some node ∧ e.2 node
  planned :
    ∀ x q, mine.nodeAt (x :: q) ≠ none →
      ∃ e ∈ plan, x :: q = e.1

/- What the result of a call says. -/
def ExtractedAs
    (plan : Plan)
    (r : BackupExcept α)
    (mine : Entries) : Prop :=
  match r with
  | .ok _ => Published plan mine
  | .error _ => NoEntries mine

theorem staged_empty
    (h : NoEntries mine) :
    Staged staging [] (mine.put [staging] .folder) := by
  refine ⟨⟨by simp, ?_⟩, by simp, ?_⟩
  · intro x q hPresent
    by_contra hOther
    simp [hOther, List.cons_prefix_cons, Ne.symm hOther, h x q]
      at hPresent
  · intro q hPresent
    left
    by_contra hInside
    simp [hInside, List.cons_prefix_cons] at hPresent

theorem MovedOut.published
    (hNames : Distinct staging)
    (h : MovedOut staging plan mine)
    (hTwo : TwoNames plan) :
    Published plan (mine.removeTree [staging]) := by
  constructor
  · intro e hMem
    rcases h.has e hMem with ⟨node, hNode, hP⟩
    refine ⟨node, ?_, hP⟩
    have hOut : ¬ [staging] <+: e.1 := by
      rcases hTwo e hMem with ⟨q, hPath⟩ | hPath
      · simp [hPath, List.cons_prefix_cons, hNames.notes]
      · simp [hPath, List.cons_prefix_cons, hNames.manifest]
    rw [Files.nodeAt_removeTree, if_neg hOut]
    exact hNode
  · intro x q hPresent
    rw [Files.nodeAt_removeTree] at hPresent
    split at hPresent
    · exact absurd rfl hPresent
    · rename_i hOut
      apply (h.planned x q hPresent).resolve_left
      rintro rfl
      exact hOut (List.cons_prefix_cons.mpr
        ⟨rfl, List.nil_prefix⟩)

theorem Staging.removed
    (h : Staging staging mine) :
    NoEntries (mine.removeTree [staging]) := by
  intro x q
  rw [Files.nodeAt_removeTree]
  split
  · rfl
  · rename_i hOut
    by_contra hPresent
    have hSame := h.only x q hPresent
    apply hOut
    rw [hSame]
    exact List.cons_prefix_cons.mpr ⟨rfl, List.nil_prefix⟩

theorem removeStaging_does
    (hRoot : mine.nodeAt [staging] = some .folder) :
    Does zip data
      (fileStep (.removeDirAll [staging]) message) mine
      fun _ mine' => mine' = mine.removeTree [staging] := by
  apply file_does
  intro w k b w' hMine hCarries hServe
  have hOk : k = .ok := hCarries
  subst hOk
  rcases hMine.removeDirAll hRoot hServe with ⟨rfl, hMine'⟩
  exact ⟨_, hMine', rfl⟩

theorem extractVerified_does
    (hNames : Distinct staging)
    (h : NoEntries mine)
    (hTwo : TwoNames (archivePlan codec archive)) :
    Does zip data
      (extractVerified codec outputDir staging archive) mine
      (ExtractedAs (archivePlan codec archive)) := by
  unfold extractVerified
  apply (file_does (R := fun res mine' =>
    match res with
    | .ok _ => Staged staging [] mine'
    | .error _ => NoEntries mine') ?_).bind
  · intro _ mine₁ hStaged
    apply (extractStaged_does hNames hStaged
      hTwo).attempt_bind
    intro extracted mine₂ hMoved
    have hRoot : mine₂.nodeAt [staging] = some .folder := by
      cases extracted with
      | ok _ => exact hMoved.root
      | error _ => exact hMoved.root
    apply (removeStaging_does hRoot).attempt_bind
    rintro _ _ rfl
    apply leads_ofExcept extract_undisturbed
    cases extracted with
    | ok _ => exact hMoved.published hNames hTwo
    | error _ => exact hMoved.removed
  · exact fun e mine' hNone => hNone
  · intro w k b w' hMine _ hServe
    rcases hMine.create (q := []) rfl
        (fun hNew => absurd rfl hNew) hServe with
      ⟨e, rfl, rfl⟩ | ⟨rfl, hMine', _⟩
    · exact ⟨mine, hMine, h⟩
    · exact ⟨_, hMine', staged_empty h⟩

/- A check of the output folder changes nothing in it. -/
theorem check_does
    {r : ExtractReq}
    {answer : ExtractResp r → BackupExcept α}
    (hServe :
      ∀ k w b w', serveExtract r k w = some (b, w') → w' = w)
    (h : ∀ b, R (answer b) mine) :
    Does zip data (Script.call r answer) mine R := by
  apply leads_call extract_undisturbed
  intro s k b s' hMine hK hInv _ hServed
  have hSame := hServe k s b s' hServed
  subst hSame
  exact ⟨⟨hInv, fun u hu => absurd rfl hu⟩, mine, hMine, hK,
    h b⟩

theorem checkOutput_does :
    Does zip data (checkOutput outputDir) mine
      fun _ mine' => mine' = mine := by
  unfold checkOutput
  apply (check_does (R := fun _ mine' => mine' = mine) ?_
    fun _ => rfl).bind
  · rintro isDir mine₁ rfl
    cases isDir with
    | false => exact leads_throw extract_undisturbed rfl
    | true =>
        apply (check_does (R := fun _ mine' => mine' = mine₁) ?_
          fun _ => rfl).bind
        · rintro _ mine₂ rfl
          apply check_does _ fun _ => rfl
          intro k w b w' hServe
          cases k <;> cases hServe <;> rfl
        · exact fun _ _ hSame => hSame
        · intro k w b w' hServe
          cases k <;> cases hServe <;> rfl
  · exact fun _ _ hSame => hSame
  · intro k w b w' hServe
    cases k <;> cases hServe <;> rfl

/- What a call has done when it returns. -/
def ReturnedAs
    (codec : BackupCodec)
    (r : BackupExcept ExtractResult)
    (w : ExtractWorld) : Prop :=
  match r with
  | .ok _ =>
      ∃ opened archive, openArchive w.zip = .ok opened ∧
        verifyArchive codec opened (readFrom w.data) =
          .ok archive ∧
        ∃ mine, Overlay mine w.output ∧
          Published (archivePlan codec archive) mine
  | .error _ => ∃ mine, Overlay mine w.output ∧ NoEntries mine

theorem distinct_staging
    (call : ExtractCall) : Distinct call.staging := by
  have hHead : call.staging.head? = some '.' := rfl
  constructor
  · intro hSame
    rw [hSame] at hHead
    exact absurd hHead (by decide)
  · intro hSame
    rw [hSame] at hHead
    exact absurd hHead (by decide)

theorem twoNames_archivePlan
    {opened : ZipFile} {read : Nat → ReadData}
    (h : ArchiveSound codec opened read archive) :
    TwoNames (archivePlan codec archive) := by
  intro e hMem
  rcases List.mem_append.mp hMem with hMem | hMem
  · left
    rcases List.mem_map.mp hMem with ⟨item, hItem, rfl⟩
    have hRoot := (h.portable item hItem).1
    rcases List.head?_eq_some_iff.mp hRoot with ⟨q, hPath⟩
    exact ⟨q, hPath⟩
  · right
    rw [List.mem_singleton] at hMem
    rw [hMem]

variable {s : ExtractWorld}

theorem openZip_meets
    {v : Unit}
    (hMine : Overlay mine s.output) :
    Meets extractMachine extractContract () openZip v
      (fun r _ s' => Overlay mine s'.output ∧
        ∀ zip, r = .ok zip → s'.zip = zip) s := by
  apply meets_call
  intro s₁ hRely hInv k b s₂ _ hServe
  have hMine₁ := hRely.1 _ hMine
  cases k <;> cases hServe
  · refine ⟨⟨hInv, fun u hu => absurd rfl hu⟩, ?_⟩
    intro s₃ hRely' _
    exact ⟨hRely'.1 _ hMine₁, fun _ hNever => nomatch hNever⟩
  · refine ⟨⟨hInv, fun u hu => absurd rfl hu⟩, ?_⟩
    intro s₃ hRely' _
    refine ⟨hRely'.1 _ hMine₁, ?_⟩
    rintro zip' hSame
    cases hSame
    exact hRely'.2.1

theorem readArchive_meets
    {v : Unit}
    (hMine : Overlay mine s.output)
    (hZip : s.zip = zip) :
    Meets extractMachine extractContract () readArchive v
      (fun r _ s' => ∃ data, r = .ok data ∧
        Overlay mine s'.output ∧ ReadAs zip data s') s := by
  apply meets_request
  intro s₁ hRely hInv k b s₂ _ hServe
  have hMine₁ := hRely.1 _ hMine
  have hZip₁ := hRely.2.1.trans hZip
  cases k <;> cases hServe
  refine ⟨⟨hInv, fun u hu => absurd rfl hu⟩, ?_⟩
  intro s₃ hRely' _
  exact ⟨_, rfl, hRely'.1 _ hMine₁, hRely'.2.1.trans hZip₁,
    hRely'.2.2⟩

theorem extractBackup_meets
    {call : ExtractCall} {v : Unit}
    (hMine : Overlay mine s.output)
    (hNone : NoEntries mine) :
    Meets extractMachine extractContract ()
      (extractBackup codec call) v
      (fun r _ s' => ReturnedAs codec r s') s := by
  unfold extractBackup
  apply (checkOutput_does v s hMine
    (⟨rfl, rfl⟩ : ReadAs s.zip s.data s)).bind
  swap
  · rintro e v₁ s₁ ⟨mine₁, hMine₁, _, rfl⟩
    exact ⟨mine₁, hMine₁, hNone⟩
  rintro _ v₁ s₁ ⟨mine₁, hMine₁, _, rfl⟩
  apply (openZip_meets hMine₁).bind
  swap
  · rintro e v₂ s₂ ⟨hMine₂, _⟩
    exact ⟨mine₁, hMine₂, hNone⟩
  rintro zip v₂ s₂ ⟨hMine₂, hOpened⟩
  have hZip := hOpened zip rfl
  have hKept :
      Meets extractMachine extractContract ()
        (Script.ofExcept (openArchive zip)) v₂
        (fun r _ s' => r = openArchive zip ∧
          Overlay mine₁ s'.output ∧ s'.zip = zip) s₂ := by
    apply meets_ofExcept
    intro s₃ hRely _
    exact ⟨rfl, hRely.1 _ hMine₂, hRely.2.1.trans hZip⟩
  apply hKept.bind
  swap
  · rintro e v₃ s₃ ⟨_, hMine₃, _⟩
    exact ⟨mine₁, hMine₃, hNone⟩
  rintro opened v₃ s₃ ⟨hOpen, hMine₃, hZip₃⟩
  apply (readArchive_meets hMine₃ hZip₃).bind
  swap
  · rintro e v₄ s₄ ⟨data, hNever, _⟩
    cases hNever
  rintro data v₄ s₄ ⟨data', hSame, hMine₄, hRead⟩
  obtain rfl := Except.ok.inj hSame
  cases hVerified : verifyArchive codec opened (readFrom data) with
  | error e =>
      apply meets_bind
      apply meets_throw
      intro s₅ hRely _
      exact ⟨mine₁, hRely.1 _ hMine₄, hNone⟩
  | ok archive =>
      have hSound := archiveSound_of_verify hVerified
      apply meets_bind
      apply meets_pure
      intro s₅ hRely _
      have hMine₅ := hRely.1 _ hMine₄
      have hRead₅ : ReadAs zip data s₅ :=
        ⟨hRely.2.1.trans hRead.1, hRely.2.2.trans hRead.2⟩
      apply continues_ok
      apply (extractVerified_does (distinct_staging call) hNone
        (twoNames_archivePlan hSound) v₄ s₅ hMine₅
        hRead₅).mono
      rintro r v₆ s₆ ⟨mine₂, hMine₆, hRead₆, hEnd⟩
      cases r with
      | ok result =>
          refine ⟨opened, archive, ?_, ?_, mine₂, hMine₆, hEnd⟩
          · rw [hRead₆.1, ← hOpen]
          · rw [hRead₆.2, hVerified]
      | error e => exact ⟨mine₂, hMine₆, hEnd⟩

theorem extractSystem_verified :
    ThreadSystem.Verified (extractSystem codec) extractContract
      extractLimits (fun _ _ _ => True)
      (fun _ _ _ x w => ReturnedAs codec x.1 w) where
  stable := fun _ _ _ => trivial
  begin := by
    intro t call v w w' hInv _ _ hBegin
    cases hBegin
    refine ⟨⟨hInv, fun u hu => absurd rfl hu⟩, ?_⟩
    exact extractBackup_meets (Overlay.start hInv)
      (fun _ _ => rfl)
  finish := fun hInv _ =>
    ⟨⟨hInv, fun u hu => absurd rfl hu⟩, trivial⟩
  halt := fun hInv =>
    ⟨⟨hInv, fun u hu => absurd rfl hu⟩, trivial⟩
  env := by
    intro c w w' hInv hOutside hEnv
    simp only [extractSystem, Option.map_eq_some_iff] at hEnv
    rcases hEnv with ⟨output, hChange, rfl⟩
    have hKept := fun mine (h : Overlay mine w.output) =>
      h.change hOutside hChange
    exact ⟨Shared.rooted_change hInv hChange,
      fun _ => ⟨hKept, rfl, rfl⟩⟩

/- The output folder holds the archive, and no more of it. -/
structure ExtractedWhole
    (codec : BackupCodec)
    (archive : VerifiedArchive)
    (output : SharedEntries) : Prop where
  has :
    ∀ e ∈ archivePlan codec archive,
      output.others.nodeAt e.1 = none ∧
        ∃ node, output.files.nodeAt e.1 = some node ∧ e.2 node
  only :
    ∀ x q, (∀ e ∈ archivePlan codec archive, x :: q ≠ e.1) →
      output.files.nodeAt (x :: q) =
        output.others.nodeAt (x :: q)

theorem extractedWhole_of_published
    {output : SharedEntries}
    (hTwo : TwoNames (archivePlan codec archive))
    (hMine : Overlay mine output)
    (h : Published (archivePlan codec archive) mine) :
    ExtractedWhole codec archive output := by
  constructor
  · intro e hMem
    rcases h.has e hMem with ⟨node, hNode, hP⟩
    have hPath : ∃ x q, e.1 = x :: q := by
      rcases hTwo e hMem with ⟨q, hPath⟩ | hPath
      · exact ⟨_, q, hPath⟩
      · exact ⟨_, [], hPath⟩
    rcases hPath with ⟨x, q, hPath⟩
    rw [hPath] at hNode ⊢
    have hOwn := hMine.own_of_mine (x := x) (q := q)
      (by simp [hNode])
    exact ⟨(hOwn q).2, node, (hOwn q).1.trans hNode, hP⟩
  · intro x q hOther
    have hNone : mine.nodeAt (x :: q) = none := by
      by_contra hPresent
      rcases h.planned x q hPresent with ⟨e, hMem, hSame⟩
      exact hOther e hMem hSame
    rcases hMine.parts x with hOwn | hOthers
    · rcases hOwn q with ⟨hFiles, hLeft⟩
      rw [hFiles, hNone, hLeft]
    · exact (hOthers q).2

/- What a call that returns `r` has done to the folder. -/
def AllOrNothing
    (codec : BackupCodec)
    (r : BackupExcept ExtractResult)
    (w : ExtractWorld) : Prop :=
  match r with
  | .ok _ =>
      ∃ opened archive, openArchive w.zip = .ok opened ∧
        verifyArchive codec opened (readFrom w.data) =
          .ok archive ∧
        ExtractedWhole codec archive w.output
  | .error _ =>
      ∀ x q, w.output.files.nodeAt (x :: q) =
        w.output.others.nodeAt (x :: q)

/-
  An archive that is opened and verified is sound. While the
  others leave the entries of a call alone, an extraction
  that returns has published what it verified, or it leaves
  what the others have put there.
-/
theorem archives_are_sound_and_extracted_whole
    (codec : BackupCodec) :
    (∀ (zip : Option ZipFile) (opened : ZipFile)
        (read : Nat → ReadData) (archive : VerifiedArchive),
      openArchive zip = .ok opened →
        verifyArchive codec opened read = .ok archive →
          (opened.directory.map ZipEntry.name).Nodup ∧
            opened.entries = opened.directory ∧
            ArchiveSound codec opened read archive) ∧
    ∀ (files : Entries) (s : ExtractState),
      files.Rooted →
        (extractSystem codec).Run extractLimits.Permitted
          ((extractSystem codec).initial
            ⟨⟨files, files⟩, none, []⟩) s →
          ∀ call v r v',
            s.threads () = .busy call v (.done (r, v')) →
              AllOrNothing codec r s.world := by
  refine ⟨?_, ?_⟩
  · intro zip opened read archive hOpen hVerify
    rcases openArchive_spec hOpen with ⟨_, hEntries, hNames⟩
    exact ⟨hNames, hEntries, archiveSound_of_verify hVerify⟩
  · intro files s hRooted run call v r v' hThread
    have hInv :
        extractContract.Inv ⟨⟨files, files⟩, none, []⟩ :=
      hRooted
    have hState := extractSystem_verified.stateOk_of_run
      hInv (fun _ => trivial) run
    have hPost := hState.post hThread
    cases r with
    | error e =>
        rcases hPost with ⟨mine, hMine, hNone⟩
        exact hMine.same_of_noEntries hNone
    | ok result =>
        rcases hPost with
          ⟨opened, archive, hOpen, hVerify, mine, hMine, hEnd⟩
        have hTwo := twoNames_archivePlan
          (archiveSound_of_verify hVerify)
        exact ⟨opened, archive, hOpen, hVerify,
          extractedWhole_of_published hTwo hMine hEnd⟩

------------------------------------------------------------
-- Extractions that Go Wrong
------------------------------------------------------------

def sampleZip : ZipFile where
  directory :=
    [⟨true, notesRootName ++ ['/'], true, false, 0⟩,
      ⟨true, manifestName, false, false, 1⟩]

def sampleExtraction : ExtractCall where
  outputDir := "out"
  uuid := ['1']

abbrev ExtractAction :=
  Action Unit ExtractChoice ExtractCall (Change Text FileBody)

def ExtractState.initial : ExtractState :=
  (extractSystem sampleCodec).initial
    ⟨⟨Files.empty, Files.empty⟩, none, []⟩

/- From the call up to the staged archive. -/
def archiveStaged : List ExtractAction :=
  .call () sampleExtraction ::
    ([.ok, .ok, .ok, .zip (some sampleZip),
      .data [⟨[], false⟩, ⟨[1], false⟩], .file .ok, .ok,
      .file .ok, .file .ok, .file .ok].map fun k => .serve () k)

/- One request after the other, none of which fails. -/
def servedWell (n : Nat) : List ExtractAction :=
  List.replicate n (.serve () (.file .ok))

/- Another process writes a file. -/
def otherWrites (p : List Text) : ExtractAction :=
  .env (.put p (.file (.bytes [7])))

def extractReturned (s : ExtractState) : Option Bool :=
  match s.threads () with
  | .busy _ _ (.done (.ok _, _)) => some true
  | .busy _ _ (.done (.error _, _)) => some false
  | _ => none

theorem thread_of_extractReturned
    {s : ExtractState} {succeeded : Bool}
    (h : extractReturned s = some succeeded) :
    ∃ call v r v',
      s.threads () = .busy call v (.done (r, v')) ∧
        r.isOk = succeeded := by
  unfold extractReturned at h
  split at h
  · rename_i call v result v' hThread
    cases h
    exact ⟨call, v, _, v', hThread, rfl⟩
  · rename_i call v e v' hThread
    cases h
    exact ⟨call, v, _, v', hThread, rfl⟩
  · cases h

/- A note that another process writes into the new `Notes`. -/
def foreignNote : List Text := [notesRootName, ['b']]

/-
  Another process writes a note into the published `Notes`
  and creates `manifest.json`. The call fails and takes its
  `Notes` back, and the note is removed with the staging
  folder. In a second run the other process creates `Notes`
  in the staging folder instead: the call fails, and its own
  `Notes` stays in the output folder.
-/
theorem extraction_not_all_or_nothing :
    (∃ s : ExtractState,
      (extractSystem sampleCodec).Run (fun _ _ => True)
          ExtractState.initial s ∧
        extractReturned s = some false ∧
        s.world.output.others.nodeAt foreignNote ≠ none ∧
        s.world.output.files.nodeAt foreignNote = none) ∧
    ∃ s : ExtractState,
      (extractSystem sampleCodec).Run (fun _ _ => True)
          ExtractState.initial s ∧
        extractReturned s = some false ∧
        s.world.output.others.nodeAt [notesRootName] = none ∧
        s.world.output.files.nodeAt [notesRootName] ≠ none := by
  constructor
  · have trace :
        ((extractSystem sampleCodec).exec ExtractState.initial
          (archiveStaged ++ servedWell 1 ++
            [otherWrites foreignNote,
              otherWrites [manifestName]] ++
            servedWell 3)).any
          (fun s => extractReturned s = some false &&
            (s.world.output.others.nodeAt foreignNote).isSome &&
            s.world.output.files.nodeAt foreignNote = none) =
        true := by
      decide +kernel
    rcases ThreadSystem.Run.exists_of_execIf
        (fun _ _ _ => trivial) _ trace with
      ⟨s, run, hTest⟩
    simp only [Bool.and_eq_true, decide_eq_true_eq,
      Option.isSome_iff_ne_none] at hTest
    exact ⟨s, run, hTest.1.1, hTest.1.2, hTest.2⟩
  · have trace :
        ((extractSystem sampleCodec).exec ExtractState.initial
          (archiveStaged ++ servedWell 1 ++
            [otherWrites [sampleExtraction.staging,
                notesRootName],
              otherWrites [manifestName]] ++
            servedWell 3)).any
          (fun s => extractReturned s = some false &&
            (s.world.output.files.nodeAt
              [notesRootName]).isSome &&
            s.world.output.others.nodeAt [notesRootName] =
              none) =
        true := by
      decide +kernel
    rcases ThreadSystem.Run.exists_of_execIf
        (fun _ _ _ => trivial) _ trace with
      ⟨s, run, hTest⟩
    simp only [Bool.and_eq_true, decide_eq_true_eq,
      Option.isSome_iff_ne_none] at hTest
    exact ⟨s, run, hTest.1.1, hTest.2, hTest.1.2⟩

instance (r : ExtractReq) (k : ExtractChoice) :
    Decidable (FailsCleanly r k) := by
  unfold FailsCleanly
  split <;> infer_instance

def leavesAlone (s : ExtractState) : ExtractAction → Bool
  | .serve _ k =>
      match s.threads () with
      | .busy _ _ (.ask r _) => FailsCleanly r k
      | _ => true
  | .env c => s.world.output.Outside c
  | _ => true

theorem permitted_of_leavesAlone
    {s : ExtractState} {a : ExtractAction}
    (h : leavesAlone s a = true) :
    extractLimits.Permitted s a := by
  cases a with
  | serve t k =>
      intro call v r cont hThread
      simp only [leavesAlone, hThread, decide_eq_true_eq] at h
      exact h
  | env c =>
      simp only [leavesAlone, decide_eq_true_eq] at h
      exact h
  | call t call => exact fun _ _ => trivial
  | finish t => trivial
  | halt t => trivial

/- Another process writes beside the extracted archive. -/
theorem archive_extracted_beside_note :
    ∃ s : ExtractState,
      (∃ call v result v',
        s.threads () = .busy call v (.done (.ok result, v'))) ∧
      s.world.output.files.nodeAt [['b']] ≠ none ∧
      ∃ opened archive,
        openArchive s.world.zip = .ok opened ∧
        verifyArchive sampleCodec opened
          (readFrom s.world.data) = .ok archive ∧
        ExtractedWhole sampleCodec archive s.world.output := by
  have trace :
      ((extractSystem sampleCodec).execIf leavesAlone
        ExtractState.initial
        (archiveStaged ++ servedWell 1 ++
          [otherWrites [['b']]] ++ servedWell 2)).any
        (fun s => extractReturned s = some true &&
          (s.world.output.files.nodeAt [['b']]).isSome) =
      true := by
    decide +kernel
  rcases ThreadSystem.Run.exists_of_execIf
      (fun _ _ => permitted_of_leavesAlone) _ trace with
    ⟨s, run, hTest⟩
  simp only [Bool.and_eq_true, decide_eq_true_eq,
    Option.isSome_iff_ne_none] at hTest
  rcases thread_of_extractReturned hTest.1 with
    ⟨call, v, r, v', hThread, hOk⟩
  have hEnd :=
    (archives_are_sound_and_extracted_whole sampleCodec).2
      Files.empty s Files.rooted_empty run call v r v' hThread
  cases r with
  | error e => cases hOk
  | ok result =>
      exact ⟨s, ⟨call, v, result, v', hThread⟩, hTest.2, hEnd⟩

end S4Drive

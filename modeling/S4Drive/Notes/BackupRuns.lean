import S4Drive.Library.OwnEntries
import S4Drive.Notes.Backup

/-
  A backup is there as a whole or not at all: while the
  others leave the entries of a call alone and nothing
  stands at the destination when the rename is carried out,
  a call that returns has put a verified archive there and
  nothing else, or nothing.

  Main declarations:
    * `RemovesOwn`, `backupLimits`, `backupContract`
    * `Untouched`, with its rules
    * `publishBackup_does`
    * `backups_are_atomic`
-/

------------------------------------------------------------
-- The Contract
------------------------------------------------------------

namespace S4Drive

open Concurrency FileTree

/-
  The temporary archive can be removed and is the call's
  own, and no entry is at the destination of the rename.
-/
def RemovesOwn
    (r : BackupReq)
    (k : BackupChoice)
    (w : BackupWorld) : Prop :=
  match r, k with
  | .file (.removeFile p), .file k =>
      k = .ok ∧ w.folder.others.nodeAt p = none
  | .file (.rename _ b), .file _ =>
      w.folder.files.nodeAt b = none
  | _, _ => True

/- The others stay out of what a call has made. -/
def KeepsOut (e : Elsewhere) (w : BackupWorld) : Prop :=
  match e with
  | .notes _ => True
  | .folder c => w.folder.Outside c

def backupLimits :
    ThreadSystem.Limits BackupReq BackupChoice BackupWorld
      Unit BackupCall Unit Elsewhere where
  Starts := fun _ _ _ _ => True
  Admits := fun _ _ r k w => RemovesOwn r k w
  Env := KeepsOut

def backupContract :
    Contract BackupReq BackupChoice BackupWorld Unit where
  Inv := fun w => w.folder.files.Rooted
  Rely := fun _ w w' =>
    ∀ mine, Overlay mine w.folder → Overlay mine w'.folder
  Admits := fun _ r k w => RemovesOwn r k w
  rely_refl := fun _ _ _ h => h
  rely_trans := fun h₁ h₂ mine h => h₂ mine (h₁ mine h)

variable {codec : BackupCodec}
variable {mine mine' : Entries} {temp name : Text}
variable {α γ : Type}

theorem backup_undisturbed :
    Undisturbed backupContract () BackupWorld.folder
      (fun _ => True) :=
  fun _ _ hRely => ⟨hRely, fun h => h⟩

/- From the entries `mine` of the call on, `x` leads to `R`. -/
abbrev BackupDoes
    (x : BackupM α)
    (mine : Entries)
    (R : BackupExcept α → Entries → Prop) : Prop :=
  Leads backupMachine backupContract () BackupWorld.folder
    (fun _ => True) x mine R

theorem backupFile_does
    {r : EntryReq}
    {answer : Except FileError Unit → BackupExcept α}
    {R : BackupExcept α → Entries → Prop}
    (h :
      ∀ w k b folder, Overlay mine w.folder →
        RemovesOwn (.file r) (.file k) w →
        w.folder.serve r k = some (b, folder) →
          ∃ mine', Overlay mine' folder ∧ R (answer b) mine') :
    BackupDoes (Script.call (.file r) answer) mine R := by
  apply leads_call backup_undisturbed
  intro w k b w' hMine _ hInv hAdmits hServe
  cases k with
  | file k =>
      simp only [backupMachine, serveBackup,
        Option.map_eq_some_iff] at hServe
      rcases hServe with ⟨⟨b', folder⟩, hServe, hSame⟩
      cases hSame
      rcases h w k b' folder hMine hAdmits hServe with
        ⟨mine', hMine', hR⟩
      exact ⟨⟨Shared.rooted_serve hInv hServe,
          fun u hu => absurd rfl hu⟩,
        mine', hMine', trivial, hR⟩
  | _ => cases hServe

------------------------------------------------------------
-- Scripts outside of the Folder
------------------------------------------------------------

theorem folder_noteScan
    (r : TreeReq)
    (answer : TreeResp r)
    (w : BackupWorld) :
    (noteScan r answer w).folder = w.folder := by
  unfold noteScan
  split
  · rfl
  · rfl
  · split <;> rfl
  · rfl

variable {r : BackupReq}

/- Only requests to the folder change it. -/
theorem folder_served
    {k : BackupChoice} {w w' : BackupWorld}
    {b : BackupResp r}
    (hOther : ∀ r', r ≠ .file r')
    (hServe : serveBackup r k w = some (b, w')) :
    w'.folder = w.folder := by
  cases r with
  | file r' => exact absurd rfl (hOther r')
  | tree r' =>
      cases k with
      | tree k =>
          simp only [serveBackup, Option.map_eq_some_iff]
            at hServe
          rcases hServe with ⟨answer, _, hSame⟩
          cases hSame
          exact folder_noteScan r' _ w
      | _ => cases hServe
  | _ => cases k <;> cases hServe <;> rfl

/- The script does nothing in the folder. -/
def Untouched (x : BackupM α) : Prop :=
  ∀ mine, BackupDoes x mine fun _ mine' => mine' = mine

namespace Untouched

theorem pure (a : α) : Untouched (Pure.pure a : BackupM α) :=
  fun _ => leads_pure backup_undisturbed rfl

theorem throw
    (e : BackupError) :
    Untouched (Script.throw e : BackupM α) :=
  fun _ => leads_throw backup_undisturbed rfl

theorem ofExcept
    (r : BackupExcept α) :
    Untouched (Script.ofExcept r : BackupM α) :=
  fun _ => leads_ofExcept backup_undisturbed rfl

theorem bind
    {x : BackupM α} {f : α → BackupM γ}
    (hx : Untouched x)
    (hf : ∀ a, Untouched (f a)) : Untouched (x >>= f) := by
  intro mine
  apply (hx mine).bind
  · rintro a mine₁ rfl
    exact hf a mine₁
  · exact fun _ _ hSame => hSame

theorem attempt
    {x : BackupM α}
    (hx : Untouched x) : Untouched (Script.attempt x) :=
  fun mine => Leads.attempt (hx mine)

/- Any request that is not about the folder. -/
theorem call
    {answer : BackupResp r → BackupExcept α}
    (hOther : ∀ r', r ≠ .file r') :
    Untouched (Script.call r answer) := by
  intro mine
  apply leads_call backup_undisturbed
  intro w k b w' hMine _ hInv _ hServe
  have hSame := folder_served hOther hServe
  refine ⟨⟨?_, fun u hu => absurd rfl hu⟩, mine, ?_, trivial,
    rfl⟩
  · change w'.folder.files.Rooted
    rw [hSame]
    exact hInv
  · rw [hSame]
    exact hMine

theorem request
    (hOther : ∀ r', r ≠ .file r') :
    Untouched (Script.request r : BackupM (BackupResp r)) :=
  call hOther

end Untouched

/- A request that always has an answer. -/
theorem answered_does
    (hOther : ∀ r', r ≠ .file r') :
    BackupDoes (Script.request r : BackupM (BackupResp r)) mine
      fun res mine' => (∃ b, res = .ok b) ∧ mine' = mine := by
  apply leads_call backup_undisturbed
  intro w k b w' hMine _ hInv _ hServe
  have hSame := folder_served hOther hServe
  refine ⟨⟨?_, fun u hu => absurd rfl hu⟩, mine, ?_, trivial,
    ⟨b, rfl⟩, rfl⟩
  · change w'.folder.files.Rooted
    rw [hSame]
    exact hInv
  · rw [hSame]
    exact hMine

theorem scanEntry_untouched
    {scanFolder :
      InodeId → Text → List ScannedEntry →
        BackupM (List ScannedEntry)}
    (hFolder : ∀ dir rel l, Untouched (scanFolder dir rel l))
    (dir : InodeId) (rel : Text) (name : OsName)
    (entries : List ScannedEntry) :
    Untouched (scanEntry scanFolder dir rel name entries) := by
  unfold scanEntry
  apply (Untouched.ofExcept _).bind
  intro _
  apply (Untouched.call (by simp)).bind
  intro metadata
  cases metadata.type with
  | symlink => exact .throw _
  | special => exact .throw _
  | folder =>
      apply (Untouched.call (by simp)).bind
      exact fun child => hFolder child rel _
  | file =>
      dsimp only
      split
      · exact .throw _
      · exact .pure _

theorem scanEntries_untouched
    {scanFolder :
      InodeId → Text → List ScannedEntry →
        BackupM (List ScannedEntry)}
    (hFolder : ∀ dir rel l, Untouched (scanFolder dir rel l))
    (dir : InodeId) (rel : Text) (names : List OsName)
    (entries : List ScannedEntry) :
    Untouched
      (scanEntries scanFolder dir rel names entries) := by
  induction names generalizing entries with
  | nil => exact .pure _
  | cons name rest ih =>
      unfold scanEntries
      apply (scanEntry_untouched hFolder dir _ name entries).bind
      intro scanned
      apply (Untouched.ofExcept _).bind
      exact fun _ => ih scanned

theorem scanNotesTree_untouched
    (levels : Nat) (dir : InodeId) (rel : Text)
    (entries : List ScannedEntry) :
    Untouched (scanNotesTree levels dir rel entries) := by
  induction levels generalizing dir rel entries with
  | zero => exact .throw _
  | succ levels ih =>
      unfold scanNotesTree
      apply (Untouched.call (by simp)).bind
      exact fun names =>
        scanEntries_untouched ih dir rel names entries

theorem readFile_untouched
    (file : InodeId) (n : Nat) (read : List UInt8) :
    Untouched (readFile file n read) := by
  induction n generalizing read with
  | zero =>
      apply (Untouched.request (by simp)).bind
      exact fun _ => .pure _
  | succ n ih =>
      unfold readFile
      apply (Untouched.request (by simp)).bind
      intro chunk
      cases chunk with
      | error e => exact .pure _
      | ok bytes =>
          apply (Untouched.call (by simp)).bind
          exact fun _ => ih _

theorem copyFile_untouched
    (item : ScannedEntry) (file : InodeId) (total : Nat) :
    Untouched (copyFile item file total) := by
  unfold copyFile
  apply (Untouched.call (by simp)).bind
  intro _
  apply (Untouched.request (by simp)).bind
  intro reads
  apply (readFile_untouched file reads []).bind
  intro copied
  apply (Untouched.call (by simp)).bind
  intro _
  apply (Untouched.ofExcept _).bind
  intro _
  apply (Untouched.request (by simp)).bind
  intro metadata
  split
  · exact .pure _
  · exact .pure _

theorem copyEntries_untouched
    (scanned : List ScannedEntry) (total : Nat)
    (staged : List StagedEntry) :
    Untouched (copyEntries codec scanned total staged) := by
  induction scanned generalizing total staged with
  | nil => exact .pure _
  | cons item rest ih =>
      unfold copyEntries
      apply (Untouched.call (by simp)).bind
      intro _
      apply (Untouched.call (by simp)).bind
      intro _
      cases item.source with
      | none => exact ih _ _
      | some source =>
          rcases source with ⟨dir, name⟩
          apply (Untouched.attempt (Untouched.call (by simp))).bind
          intro opened
          cases opened with
          | error e => exact .pure _
          | ok file =>
              apply (copyFile_untouched item file total).bind
              intro copied
              cases copied with
              | none => exact .pure _
              | some bytes => exact ih _ _

theorem captureSnapshot_untouched
    (root : InodeId) (attempts : Nat) :
    Untouched (captureSnapshot codec root attempts) := by
  induction attempts with
  | zero => exact .throw _
  | succ attempts ih =>
      unfold captureSnapshot captureOnce
      apply Untouched.bind
      · apply (Untouched.call (by simp)).bind
        intro _
        apply (Untouched.call (by simp)).bind
        intro _
        apply (Untouched.request (by simp)).bind
        intro mtime
        apply (scanNotesTree_untouched _ _ _ _).bind
        intro scanned
        apply (Untouched.call (by simp)).bind
        exact fun _ => copyEntries_untouched scanned 0 []
      · intro captured
        cases captured with
        | none => exact ih
        | some staged => exact .pure _

theorem writeChunks_untouched (n : Nat) :
    Untouched (writeChunks n) := by
  induction n with
  | zero =>
      apply (Untouched.call (by simp)).bind
      exact fun _ => Untouched.call (by simp)
  | succ n ih =>
      unfold writeChunks
      apply (Untouched.call (by simp)).bind
      intro _
      apply (Untouched.call (by simp)).bind
      exact fun _ => ih

theorem writeEntry_untouched (staged : StagedEntry) :
    Untouched (writeEntry staged) := by
  unfold writeEntry
  split
  · exact Untouched.call (by simp)
  · apply (Untouched.call (by simp)).bind
    exact fun _ => writeChunks_untouched _

theorem writeEntries_untouched (staged : List StagedEntry) :
    Untouched (writeEntries staged) := by
  induction staged with
  | nil => exact .pure _
  | cons first rest ih =>
      unfold writeEntries
      apply (Untouched.call (by simp)).bind
      intro _
      apply (writeEntry_untouched first).bind
      exact fun _ => ih

theorem checkPlace_untouched
    (destination syncRoot : List Text) :
    Untouched (checkPlace destination syncRoot) := by
  unfold checkPlace
  apply (Untouched.request (by simp)).bind
  intro parent
  split
  · exact .throw _
  · split
    · exact .throw _
    · unfold checkCanonical
      apply (Untouched.call (by simp)).bind
      intro root
      apply (Untouched.call (by simp)).bind
      intro parent
      split
      · exact .throw _
      · exact .pure _

------------------------------------------------------------
-- The Temporary Archive
------------------------------------------------------------

/- The call has at most a file under the temporary name. -/
structure OnlyTemp (temp : Text) (mine : Entries) : Prop where
  only :
    ∀ x q, mine.nodeAt (x :: q) ≠ none → x = temp ∧ q = []
  file :
    ∀ node, mine.nodeAt [temp] = some node →
      ∃ body, node = .file body

/- The call has a file under one name and nothing else. -/
structure OneFile
    (name : Text)
    (body : FileBody)
    (mine : Entries) : Prop where
  only :
    ∀ x q, mine.nodeAt (x :: q) ≠ none → x = name ∧ q = []
  file : mine.nodeAt [name] = some (.file body)

variable {body : FileBody}

theorem OneFile.onlyTemp
    (h : OneFile temp body mine) : OnlyTemp temp mine := by
  refine ⟨h.only, fun node hNode => ⟨body, ?_⟩⟩
  rw [h.file] at hNode
  exact (Option.some.inj hNode).symm

theorem onlyTemp_of_noEntries
    (h : NoEntries mine) : OnlyTemp temp mine := by
  constructor
  · exact fun x q hPresent => absurd (h x q) hPresent
  · intro node hNode
    rw [h temp []] at hNode
    cases hNode

theorem OnlyTemp.put
    (h : OnlyTemp temp mine) :
    OneFile temp body (mine.put [temp] (.file body)) := by
  constructor
  · intro x q hPresent
    rw [Files.nodeAt_put] at hPresent
    split at hPresent
    · rename_i hSame
      exact ⟨(List.cons.inj hSame).1, (List.cons.inj hSame).2⟩
    · split at hPresent
      · exact absurd rfl hPresent
      · exact h.only x q hPresent
  · simp

theorem OnlyTemp.removed
    (h : OnlyTemp temp mine) :
    NoEntries (mine.removeTree [temp]) := by
  intro x q
  rw [Files.nodeAt_removeTree]
  split
  · rfl
  · rename_i hOut
    by_contra hPresent
    rcases h.only x q hPresent with ⟨hName, hRest⟩
    apply hOut
    rw [hName, hRest]

theorem OneFile.moved
    (h : OneFile temp body mine) :
    OneFile name body (mine.moveTree [temp] [name]) := by
  constructor
  · intro x q hPresent
    rw [Files.nodeAt_moveTree] at hPresent
    by_cases hName : name = x
    · subst hName
      simp at hPresent
      exact ⟨rfl, (h.only temp q hPresent).2⟩
    · by_cases hTemp : temp = x
      · simp [List.cons_prefix_cons, hName, hTemp] at hPresent
      · simp [List.cons_prefix_cons, hName, hTemp] at hPresent
        exact absurd (h.only x q hPresent).1 (Ne.symm hTemp)
  · simp [h.file]

/- What the result of a step with the temporary file says. -/
def TempAs
    (temp : Text)
    (P : FileBody → Prop)
    (r : BackupExcept α)
    (mine : Entries) : Prop :=
  match r with
  | .ok _ => ∃ body, P body ∧ OneFile temp body mine
  | .error _ => OnlyTemp temp mine

theorem createTemp_does
    {message : String}
    (h : NoEntries mine) :
    BackupDoes
      (backupStep (.createNew [temp] body) message) mine
      (TempAs temp (fun _ => True)) := by
  apply backupFile_does
  intro w k b folder hMine _ hServe
  rcases hMine.create (q := []) rfl
      (fun hNew => absurd rfl hNew) hServe with
    ⟨e, rfl, rfl⟩ | ⟨rfl, hMine', _⟩
  · exact ⟨mine, hMine, onlyTemp_of_noEntries h⟩
  · refine ⟨_, hMine', body, trivial, ?_⟩
    exact (onlyTemp_of_noEntries h).put

theorem writeTemp_does
    {body' : FileBody} {message : String}
    (h : OneFile temp body' mine) :
    BackupDoes (backupStep (.write [temp] body) message) mine
      (TempAs temp (fun b => b = body)) := by
  apply backupFile_does
  intro w k b folder hMine _ hServe
  have hOwn := hMine.own_of_mine (x := temp) (q := [])
    (by simp [h.file])
  rcases hMine.write hOwn hServe with
    ⟨rfl, hMine'⟩ | ⟨e, rfl, hKept | ⟨body₁, hMine'⟩⟩
  · exact ⟨_, hMine', body, rfl, h.onlyTemp.put⟩
  · exact ⟨mine, hKept ▸ hMine, h.onlyTemp⟩
  · have hPut : OneFile temp body₁
        (mine.put [temp] (.file body₁)) := h.onlyTemp.put
    exact ⟨_, hMine', hPut.onlyTemp⟩

theorem writeZip_does
    {staged : List StagedEntry} {manifest : BackupManifest}
    (h : NoEntries mine) :
    BackupDoes (writeZip codec temp staged manifest) mine
      (TempAs temp fun body =>
        body = .zip (writtenZip staged
          (codec.serializeManifest manifest))) := by
  unfold writeZip
  apply (createTemp_does h).bind
  swap
  · exact fun e mine' hTemp => hTemp
  rintro _ mine₁ ⟨body, _, hFile⟩
  apply (writeEntries_untouched staged mine₁).bind
  swap
  · rintro e _ rfl
    exact hFile.onlyTemp
  rintro _ mine₂ rfl
  apply (Untouched.call (by simp) mine₂).bind
  swap
  · rintro e _ rfl
    exact hFile.onlyTemp
  rintro _ mine₃ rfl
  exact writeTemp_does hFile

/- The temporary file is removed if it is there. -/
theorem failWith_does
    {e : BackupError}
    (h : OnlyTemp temp mine) :
    BackupDoes (failWith temp e : BackupM α) mine
      fun r mine' => r.isOk = false ∧ NoEntries mine' := by
  unfold failWith
  apply Leads.attempt_bind
    (P := fun _ mine' => NoEntries mine')
  · apply backupFile_does
    rintro w k b folder hMine ⟨rfl, hOthers⟩ hServe
    cases hTemp : mine.nodeAt [temp] with
    | some node =>
        rcases h.file node hTemp with ⟨body, rfl⟩
        rcases hMine.removeFile hTemp hServe with
          ⟨_, hMine'⟩
        exact ⟨_, hMine', h.removed⟩
    | none =>
        have hFiles : w.folder.files.nodeAt [temp] = none := by
          rcases hMine.parts temp with hOwn | hAt
          · exact (hOwn []).1.trans hTemp
          · exact (hAt []).2.trans hOthers
        have hSame : folder = w.folder := by
          unfold Shared.serve at hServe
          simp only [FileReq.effect, hFiles] at hServe
          cases hServe
          rfl
        refine ⟨mine, hSame ▸ hMine, ?_⟩
        intro x q
        by_contra hPresent
        rcases h.only x q hPresent with ⟨rfl, rfl⟩
        exact hPresent hTemp
  · intro _ mine' hNone
    exact leads_throw backup_undisturbed ⟨rfl, hNone⟩

/- A verified archive. -/
def VerifiedBody (codec : BackupCodec) (body : FileBody) : Prop :=
  ∃ zip manifest, body = .zip zip ∧
    verifyBackup codec (some zip.file) (readFrom zip.data) =
      .ok manifest

theorem verifyAt_does
    (h : OneFile temp body mine) :
    BackupDoes (verifyAt codec [temp]) mine fun r mine' =>
      mine' = mine ∧
        (∀ manifest, r = .ok manifest →
          VerifiedBody codec body) := by
  unfold verifyAt
  apply Leads.bind
    (P := fun r mine' => mine' = mine ∧
      ∀ zip, r = .ok zip →
        zipAt (some (.file body)) = .ok zip)
  · apply leads_call backup_undisturbed
    intro w k b w' hMine _ hInv _ hServe
    have hOwn := hMine.own_of_mine (x := temp) (q := [])
      (by simp [h.file])
    have hNode := (hOwn []).1.trans h.file
    cases k <;> cases hServe
    · refine ⟨⟨hInv, fun u hu => absurd rfl hu⟩, mine, hMine,
        trivial, rfl, ?_⟩
      intro zip hZip
      rw [hNode] at hZip
      cases hRead : zipAt (some (.file body)) with
      | ok zip' =>
          rw [hRead] at hZip
          rw [Except.ok.inj hZip]
      | error e =>
          rw [hRead] at hZip
          cases hZip
    · exact ⟨⟨hInv, fun u hu => absurd rfl hu⟩, mine, hMine,
        trivial, rfl, fun _ hNever => by cases hNever⟩
  · rintro zip mine' ⟨hSame, hZip⟩
    apply leads_ofExcept backup_undisturbed
    refine ⟨hSame, fun manifest hOk => ?_⟩
    have hRead := hZip zip rfl
    cases zip with
    | none => cases hOk
    | some zip =>
        cases body with
        | zip z =>
            cases hRead
            exact ⟨zip, manifest, rfl, hOk⟩
        | bytes b => cases hRead
        | unfinished => cases hRead
  · rintro e mine' ⟨hSame, _⟩
    exact ⟨hSame, fun _ hNever => by cases hNever⟩

------------------------------------------------------------
-- Publication
------------------------------------------------------------

/- What the result of a publication says. -/
def PutAs
    (name : Text)
    (P : FileBody → Prop)
    (r : BackupExcept α)
    (mine : Entries) : Prop :=
  match r with
  | .ok _ => ∃ body, P body ∧ OneFile name body mine
  | .error _ => NoEntries mine

theorem failWith_publishes
    {e : BackupError} {P : FileBody → Prop}
    (h : OnlyTemp temp mine) :
    BackupDoes (failWith temp e : BackupM α) mine
      (PutAs name P) := by
  apply (failWith_does h).mono
  rintro r mine' ⟨hError, hNone⟩
  cases r with
  | ok _ => cases hError
  | error e => exact hNone

theorem renameBackup_does
    {P : FileBody → Prop}
    (h : OneFile temp body mine)
    (hBody : P body) :
    BackupDoes (renameBackup temp name) mine
      (PutAs name P) := by
  unfold renameBackup
  have hExists :
      BackupDoes (existsAt [name]) mine fun res mine' =>
        (∃ b, res = .ok b) ∧ mine' = mine :=
    answered_does (by simp)
  apply hExists.bind
  swap
  · rintro e mine' ⟨⟨b, hNever⟩, _⟩
    cases hNever
  rintro there mine₁ ⟨_, rfl⟩
  split
  · exact failWith_publishes h.onlyTemp
  · apply Leads.attempt_bind
      (P := fun r mine' =>
        (∀ u, r = .ok u → OneFile name body mine') ∧
          ∀ e, r = .error e → OneFile temp body mine')
    · apply backupFile_does
      intro w k b folder hMine hFree hServe
      have hOwn := hMine.own_of_mine (x := temp) (q := [])
        (by simp [h.file])
      rcases hMine.rename hOwn hFree hServe with
        ⟨e, rfl, rfl⟩ | ⟨rfl, _, hMine'⟩
      · refine ⟨_, hMine, ?_, fun _ _ => h⟩
        intro u hOk
        cases hOk
      · refine ⟨_, hMine', fun _ _ => h.moved, ?_⟩
        intro e hError
        cases hError
    · intro renamed mine₂ hRenamed
      cases renamed with
      | ok u =>
          exact leads_pure backup_undisturbed
            ⟨body, hBody, hRenamed.1 u rfl⟩
      | error e =>
          exact failWith_publishes (hRenamed.2 e rfl).onlyTemp

theorem publishBackup_does
    {staged : List StagedEntry} {manifest : BackupManifest}
    (h : NoEntries mine) :
    BackupDoes
      (publishBackup codec temp name staged manifest) mine
      (PutAs name (VerifiedBody codec)) := by
  unfold publishBackup
  apply (writeZip_does h).attempt_bind
  intro written mine₁ hWritten
  cases written with
  | error e => exact failWith_publishes hWritten
  | ok _ =>
      rcases hWritten with ⟨body, _, hFile⟩
      have hCancelled :
          BackupDoes isCancelled mine₁ fun res mine' =>
            (∃ b, res = .ok b) ∧ mine' = mine₁ :=
        answered_does (by simp)
      apply hCancelled.bind
      swap
      · rintro e mine' ⟨⟨b, hNever⟩, _⟩
        cases hNever
      rintro cancelled mine₂ ⟨_, rfl⟩
      split
      · exact failWith_publishes hFile.onlyTemp
      · apply (verifyAt_does hFile).attempt_bind
        rintro verified mine₃ ⟨rfl, hVerified⟩
        cases verified with
        | error e => exact failWith_publishes hFile.onlyTemp
        | ok manifest' =>
            exact renameBackup_does hFile
              (hVerified manifest' rfl)

/- Returns the name of the destination. -/
theorem validateDestinationPath_does
    {destination syncRoot : List Text} :
    BackupDoes
      (validateDestinationPath destination syncRoot) mine
      fun r mine' => mine' = mine ∧
        ∀ name, r = .ok name →
          fileName destination = some name := by
  unfold validateDestinationPath
  split
  · exact leads_throw backup_undisturbed
      ⟨rfl, fun _ hNever => nomatch hNever⟩
  · rename_i name hName
    split
    · exact leads_throw backup_undisturbed
        ⟨rfl, fun _ hNever => nomatch hNever⟩
    · apply (Untouched.request (by simp) mine :
        BackupDoes (existsAt [name]) mine
          fun _ mine' => mine' = mine).bind
      swap
      · exact fun _ _ hSame =>
          ⟨hSame, fun _ hNever => nomatch hNever⟩
      rintro there mine₁ rfl
      split
      · exact leads_throw backup_undisturbed
          ⟨rfl, fun _ hNever => nomatch hNever⟩
      · apply (checkPlace_untouched destination syncRoot
          mine₁).bind
        swap
        · exact fun _ _ hSame =>
            ⟨hSame, fun _ hNever => nomatch hNever⟩
        rintro _ mine₂ rfl
        apply leads_pure backup_undisturbed
        refine ⟨rfl, fun name' hSame => ?_⟩
        rw [hName, Except.ok.inj hSame]

/- What a call that returns `r` has made. -/
def BackedUpAs
    (codec : BackupCodec)
    (call : BackupCall)
    (r : BackupExcept BackupResult)
    (mine : Entries) : Prop :=
  match r with
  | .ok _ =>
      ∃ name body, fileName call.destination = some name ∧
        VerifiedBody codec body ∧ OneFile name body mine
  | .error _ => NoEntries mine

theorem backupNotesTo_does
    {call : BackupCall}
    (h : NoEntries mine) :
    BackupDoes (backupNotesTo codec call) mine
      (BackedUpAs codec call) := by
  have step {α : Type} {x : BackupM α}
      {f : α → BackupM BackupResult} {mine : Entries}
      (h : NoEntries mine)
      (hx : Untouched x)
      (hf : ∀ a, BackupDoes (f a) mine
        (BackedUpAs codec call)) :
      BackupDoes (x >>= f) mine (BackedUpAs codec call) := by
    apply (hx mine).bind
    · rintro a mine' rfl
      exact hf a
    · rintro e mine' rfl
      exact h
  unfold backupNotesTo
  apply validateDestinationPath_does.bind
  swap
  · rintro e mine' ⟨rfl, _⟩
    exact h
  rintro name mine₁ ⟨rfl, hName⟩
  apply step h (Untouched.call (by simp))
  intro missing
  apply step h (Untouched.ofExcept _)
  intro _
  apply step h (Untouched.request (by simp))
  intro pending
  apply step h (Untouched.call (by simp))
  intro root
  apply step h (captureSnapshot_untouched root maxAttempts)
  intro staged
  apply step h (Untouched.call (by simp))
  intro _
  apply step h (Untouched.request (by simp))
  intro createdAt
  apply (publishBackup_does h).bind
  · rintro _ mine₂ ⟨body, hBody, hFile⟩
    exact leads_pure backup_undisturbed
      ⟨name, body, hName name rfl, hBody, hFile⟩
  · exact fun _ _ hNone => hNone

theorem backupSystem_verified :
    ThreadSystem.Verified (backupSystem codec) backupContract
      backupLimits (fun _ _ _ => True)
      (fun _ call _ x w =>
        ∃ mine, Overlay mine w.folder ∧
          BackedUpAs codec call x.1 mine) where
  stable := fun _ _ _ => trivial
  begin := by
    intro t call v w w' hInv _ _ hBegin
    cases hBegin
    refine ⟨⟨hInv, fun u hu => absurd rfl hu⟩, ?_⟩
    have hNone : NoEntries (Files.empty : Entries) :=
      fun _ _ => rfl
    have hBody : BackupDoes (backupNotesTo codec call) .empty
        (BackedUpAs codec call) := backupNotesTo_does hNone
    have hMeets :
        Meets backupMachine backupContract ()
          (backupNotesTo codec call) v
          (fun r _ w => ∃ mine, Overlay mine w.folder ∧
            BackedUpAs codec call r mine) (startBackup w) := by
      apply (hBody v (startBackup w) (Overlay.start hInv)
        trivial).mono
      rintro r v' w' ⟨mine, hMine, _, hEnd⟩
      exact ⟨mine, hMine, hEnd⟩
    exact hMeets
  finish := fun hInv _ =>
    ⟨⟨hInv, fun u hu => absurd rfl hu⟩, trivial⟩
  halt := fun hInv =>
    ⟨⟨hInv, fun u hu => absurd rfl hu⟩, trivial⟩
  env := by
    intro e w w' hInv hOutside hEnv
    cases e with
    | notes c =>
        simp only [backupSystem, otherProcess,
          Option.map_eq_some_iff] at hEnv
        rcases hEnv with ⟨tree, _, rfl⟩
        exact ⟨hInv, fun _ _ h => h⟩
    | folder c =>
        simp only [backupSystem, otherProcess,
          Option.map_eq_some_iff] at hEnv
        rcases hEnv with ⟨folder, hChange, rfl⟩
        exact ⟨Shared.rooted_change hInv hChange,
          fun _ mine h => h.change hOutside hChange⟩

/- What a call that returns `r` has done to the folder. -/
def Atomic
    (codec : BackupCodec)
    (call : BackupCall)
    (r : BackupExcept BackupResult)
    (folder : SharedEntries) : Prop :=
  match r with
  | .ok _ =>
      ∃ name zip manifest,
        fileName call.destination = some name ∧
        verifyBackup codec (some zip.file)
            (readFrom zip.data) = .ok manifest ∧
        folder.files.nodeAt [name] = some (.file (.zip zip)) ∧
        folder.others.nodeAt [name] = none ∧
        ∀ x q, x :: q ≠ [name] →
          folder.files.nodeAt (x :: q) =
            folder.others.nodeAt (x :: q)
  | .error _ =>
      ∀ x q, folder.files.nodeAt (x :: q) =
        folder.others.nodeAt (x :: q)

theorem atomic_of_backedUp
    {call : BackupCall} {r : BackupExcept BackupResult}
    {folder : SharedEntries}
    (hMine : Overlay mine folder)
    (h : BackedUpAs codec call r mine) :
    Atomic codec call r folder := by
  cases r with
  | error e => exact hMine.same_of_noEntries h
  | ok result =>
      rcases h with
        ⟨name, body, hName, ⟨zip, manifest, rfl, hVerified⟩,
          hFile⟩
      have hOwn := hMine.own_of_mine (x := name) (q := [])
        (by simp [hFile.file])
      refine ⟨name, zip, manifest, hName, hVerified,
        (hOwn []).1.trans hFile.file, (hOwn []).2, ?_⟩
      intro x q hOther
      have hNone : mine.nodeAt (x :: q) = none := by
        by_contra hPresent
        rcases hFile.only x q hPresent with ⟨rfl, rfl⟩
        exact hOther rfl
      rcases hMine.parts x with hOwn' | hOthers
      · rcases hOwn' q with ⟨hFiles, hLeft⟩
        rw [hFiles, hNone, hLeft]
      · exact (hOthers q).2

/-
  While the others leave the entries of a call alone and the
  destination is free when the rename is carried out, a
  backup that returns has put a verified archive where
  nothing was, or it leaves what the others have put there.
-/
theorem backups_are_atomic
    (codec : BackupCodec)
    {w : BackupWorld}
    {s : BackupState}
    (hRooted : w.folder.files.Rooted)
    (run :
      (backupSystem codec).Run backupLimits.Permitted
        ((backupSystem codec).initial w) s)
    {call : BackupCall} {v v' : Unit}
    {r : BackupExcept BackupResult}
    (hThread : s.threads () = .busy call v (.done (r, v'))) :
    Atomic codec call r s.world.folder := by
  have hInv : backupContract.Inv w := hRooted
  have hState := backupSystem_verified.stateOk_of_run hInv
    (fun _ => trivial) run
  rcases hState.post hThread with ⟨mine, hMine, hEnd⟩
  exact atomic_of_backedUp hMine hEnd

def sampleDestination : Text := "b.zip".toList

def sampleBackup : BackupCall where
  destination := [['d'], sampleDestination]
  syncRoot := [['s']]
  uuid := ['1']
  appVersion := "1.0.0"

/- An empty Notes folder and an empty destination folder. -/
def sampleBackupWorld : BackupWorld where
  tree :=
    { inode := fun id =>
        if id = 0 then some ⟨.folder [], 0⟩ else none
      root := 0
      clock := 0 }
  past := []
  seen := []
  listed := []
  folder := ⟨Files.empty, Files.empty⟩

abbrev BackupAction :=
  Action Unit BackupChoice BackupCall Elsewhere

def BackupState.initial : BackupState :=
  (backupSystem sampleCodec).initial sampleBackupWorld

/- From the call up to the check of the destination. -/
def backupVerified : List BackupAction :=
  .call () sampleBackup ::
    ([.ok, .ok, .path [['s']], .path [['d']], .count (.ok 0),
      .failed, .ok, .ok, .ok, .tree .ok, .tree .ok, .ok, .ok,
      .ok, .ok, .text "2026-01-01T00:00:00+00:00", .file .ok,
      .ok, .ok, .ok, .file .ok, .ok, .ok, .ok].map
        fun k => .serve () k)

def backupRenamed : List BackupAction :=
  [.serve () (.file .ok)]

/- Another process creates the destination. -/
def destinationAppears : BackupAction :=
  .env (.folder (.put [sampleDestination]
    (.file (.bytes [7]))))

def backupSucceeded (s : BackupState) : Bool :=
  match s.threads () with
  | .busy call _ (.done (.ok _, _)) =>
      call.destination = sampleBackup.destination
  | _ => false

theorem thread_of_backupSucceeded
    {s : BackupState}
    (h : backupSucceeded s = true) :
    ∃ call v result v',
      s.threads () = .busy call v (.done (.ok result, v')) ∧
        call.destination = sampleBackup.destination := by
  unfold backupSucceeded at h
  split at h
  · rename_i call v result v' hThread
    exact ⟨call, v, result, v', hThread, of_decide_eq_true h⟩
  · cases h

/-
  The destination appears between the check and the rename:
  the backup returns without an error and has replaced it.
-/
theorem destination_replaced :
    ∃ s : BackupState,
      (backupSystem sampleCodec).Run (fun _ _ => True)
          BackupState.initial s ∧
        (∃ call v result v',
          s.threads () =
              .busy call v (.done (.ok result, v')) ∧
            call.destination = sampleBackup.destination) ∧
        s.world.folder.others.nodeAt [sampleDestination] =
          some (.file (.bytes [7])) ∧
        s.world.folder.files.nodeAt [sampleDestination] ≠
          some (.file (.bytes [7])) := by
  have trace :
      ((backupSystem sampleCodec).exec BackupState.initial
        (backupVerified ++ destinationAppears ::
          backupRenamed)).any
        (fun s => backupSucceeded s &&
          s.world.folder.others.nodeAt [sampleDestination] =
            some (.file (.bytes [7])) &&
          !decide
            (s.world.folder.files.nodeAt [sampleDestination] =
              some (.file (.bytes [7])))) =
      true := by
    decide +kernel
  rcases ThreadSystem.Run.exists_of_execIf
      (fun _ _ _ => trivial) _ trace with
    ⟨s, run, hTest⟩
  simp only [Bool.and_eq_true, decide_eq_true_eq,
    Bool.not_eq_true', decide_eq_false_iff_not] at hTest
  exact ⟨s, run, thread_of_backupSucceeded hTest.1.1,
    hTest.1.2, hTest.2⟩

instance (r : BackupReq) (k : BackupChoice) (w : BackupWorld) :
    Decidable (RemovesOwn r k w) := by
  unfold RemovesOwn
  split <;> infer_instance

instance (e : Elsewhere) (w : BackupWorld) :
    Decidable (KeepsOut e w) := by
  unfold KeepsOut
  split <;> infer_instance

def keepsToOwn (s : BackupState) : BackupAction → Bool
  | .serve _ k =>
      match s.threads () with
      | .busy _ _ (.ask r _) => RemovesOwn r k s.world
      | _ => true
  | .env e => KeepsOut e s.world
  | _ => true

theorem permitted_of_keepsToOwn
    {s : BackupState} {a : BackupAction}
    (h : keepsToOwn s a = true) :
    backupLimits.Permitted s a := by
  cases a with
  | serve t k =>
      intro call v r cont hThread
      simp only [keepsToOwn, hThread, decide_eq_true_eq] at h
      exact h
  | env e =>
      simp only [keepsToOwn, decide_eq_true_eq] at h
      exact h
  | call t call => exact fun _ _ => trivial
  | finish t => trivial
  | halt t => trivial

/- Without the other process the archive is published. -/
theorem archive_is_published :
    ∃ (s : BackupState) (call : BackupCall)
      (result : BackupResult),
      call.destination = sampleBackup.destination ∧
        Atomic sampleCodec call (.ok result)
          s.world.folder := by
  have trace :
      ((backupSystem sampleCodec).execIf keepsToOwn
        BackupState.initial
        (backupVerified ++ backupRenamed)).any
        backupSucceeded = true := by
    decide +kernel
  rcases ThreadSystem.Run.exists_of_execIf
      (fun _ _ => permitted_of_keepsToOwn) _ trace with
    ⟨s, run, hTest⟩
  rcases thread_of_backupSucceeded hTest with
    ⟨call, v, result, v', hThread, hCall⟩
  exact ⟨s, call, result, hCall,
    backups_are_atomic sampleCodec Files.rooted_empty run
      hThread⟩

end S4Drive

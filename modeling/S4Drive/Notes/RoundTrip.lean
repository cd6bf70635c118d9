import S4Drive.Notes.WholeExtraction

/-
  Backup and extraction are inverse: a backup of a capture
  that fits into an archive succeeds, and an extraction of
  it into an empty folder succeeds and puts there what was
  captured and the manifest, and nothing else.

  Main declarations:
    * `Smooth`, `Ends`, `publishBackup_ends`
    * `capture_ends`
    * `HoldsCapture`
    * `backups_extract_to_what_was_captured`
-/

------------------------------------------------------------
-- Backups without Failures
------------------------------------------------------------

namespace S4Drive

open Concurrency FileTree

/-
  Nothing is cancelled and no request fails, except that
  the Notes folder may answer anything.
-/
structure Smooth
    (createdAt : String)
    (pending : Bool)
    (pick : BackupReq → BackupWorld → BackupChoice) :
    Prop where
  isCancelled : ∀ w, pick .isCancelled w = .ok
  countCloudOnly : ∀ w, pick .countCloudOnly w = .count (.ok 0)
  includesPending :
    ∀ w, pick .includesPending w =
      if pending then .ok else .failed
  openRoot : ∀ w, pick .openRoot w = .ok
  io : ∀ w, pick .io w = .ok
  now : ∀ w, pick .now w = .text createdAt
  exists' : ∀ p w, pick (.exists p) w = .ok
  readZip : ∀ p w, pick (.readZip p) w = .ok
  file : ∀ r w, pick (.file r) w = .file .ok

/- From the world `w` on, `x` alone leads to `Q`. -/
abbrev Ends
    (pick : BackupReq → BackupWorld → BackupChoice)
    (x : BackupM α)
    (w : BackupWorld)
    (Q : α → BackupWorld → Prop) : Prop :=
  Yields backupMachine () pick x () (fun a _ w' => Q a w') w

variable {codec : BackupCodec} {α γ : Type}
variable {createdAt : String} {pending : Bool}
variable {choose : BackupReq → BackupWorld → BackupChoice}
variable {v : BackupWorld}
variable {staged : List StagedEntry} {manifest : BackupManifest}

theorem checkCancelled_ends
    (hPick : Smooth createdAt pending choose) :
    Ends choose checkCancelled v fun _ v' => v' = v := by
  refine yields_call (b := false) (a := ()) ?_ rfl rfl
  rw [hPick.isCancelled]
  rfl

theorem ioStep_ends
    (hPick : Smooth createdAt pending choose)
    {message : String} :
    Ends choose (ioStep message) v fun _ v' => v' = v := by
  refine yields_call (b := true) (a := ()) ?_ rfl rfl
  rw [hPick.io]
  rfl

theorem step_ends
    (hPick : Smooth createdAt pending choose)
    {r : EntryReq} {c : Change Text FileBody}
    {message : String}
    (hEffect : r.effect v.folder.files = .ok c)
    (hPossible : c.Possible v.folder.files) :
    Ends choose (backupStep r message) v fun _ v' =>
      v' = { v with folder := v.folder.act c } := by
  refine yields_call (b := .ok ()) (a := ()) ?_ rfl rfl
  rw [hPick.file]
  simp only [backupMachine, serveBackup, Shared.serve, hEffect,
    hPossible, if_true, Option.map_some]

theorem writeChunks_ends
    (hPick : Smooth createdAt pending choose)
    (n : Nat) :
    Ends choose (writeChunks n) v fun _ v' => v' = v := by
  induction n generalizing v with
  | zero =>
      unfold writeChunks
      apply (checkCancelled_ends hPick).bind
      rintro _ _ v rfl
      exact ioStep_ends hPick
  | succ n ih =>
      unfold writeChunks
      apply (checkCancelled_ends hPick).bind
      rintro _ _ v rfl
      apply (ioStep_ends hPick).bind
      rintro _ _ v rfl
      exact ih

theorem writeEntries_ends
    (hPick : Smooth createdAt pending choose)
    (staged : List StagedEntry) :
    Ends choose (writeEntries staged) v fun _ v' => v' = v := by
  induction staged generalizing v with
  | nil => exact yields_pure rfl
  | cons s rest ih =>
      unfold writeEntries writeEntry
      apply (checkCancelled_ends hPick).bind
      rintro _ _ v rfl
      apply Yields.bind (P := fun _ _ v' => v' = v)
      · split
        · exact ioStep_ends hPick
        · apply (ioStep_ends hPick).bind
          rintro _ _ v rfl
          exact writeChunks_ends hPick _
      · rintro _ _ v rfl
        exact ih

/- The world after the archive was written to `temp`. -/
def withArchive
    (temp : Text)
    (zip : StoredZip)
    (v : BackupWorld) : BackupWorld :=
  { v with
    folder :=
      (v.folder.act (.put [temp] (.file .unfinished))).act
        (.put [temp] (.file (.zip zip))) }

theorem nodeAt_withArchive
    {temp : Text}
    (zip : StoredZip)
    (v : BackupWorld) :
    (withArchive temp zip v).folder.files.nodeAt [temp] =
      some (.file (.zip zip)) := by
  simp [withArchive, Shared.act, Change.run]

theorem writeZip_ends
    (hPick : Smooth createdAt pending choose)
    {temp : Text}
    (hTemp : v.folder.files.nodeAt [temp] = none) :
    Ends choose (writeZip codec temp staged manifest) v
      fun _ v' =>
        v' =
          withArchive temp (archiveOf codec staged manifest)
            v := by
  unfold writeZip
  have hNew :
      FileReq.effect v.folder.files
        (.createNew [temp] .unfinished) =
        .ok (.put [temp] (.file .unfinished)) := by
    simp [FileReq.effect, hTemp]
  apply (step_ends hPick hNew ⟨by simp, .inl rfl⟩).bind
  rintro _ _ v rfl
  apply (writeEntries_ends hPick staged).bind
  rintro _ _ v rfl
  apply (ioStep_ends hPick).bind
  rintro _ _ v rfl
  have hWrite :
      FileReq.effect
        (v.folder.act (.put [temp] (.file .unfinished))).files
        (.write [temp]
          (.zip (archiveOf codec staged manifest))) =
        .ok (.put [temp]
          (.file (.zip (archiveOf codec staged manifest)))) := by
    simp [FileReq.effect, Shared.act, Change.run]
  exact step_ends hPick hWrite ⟨by simp, .inl rfl⟩

theorem verifyAt_ends
    (hPick : Smooth createdAt pending choose)
    {p : List Text} {stored : StoredZip}
    (hNode :
      v.folder.files.nodeAt p = some (.file (.zip stored)))
    (hVerify :
      verifyBackup codec (some stored.file)
        (readFrom stored.data) = .ok manifest) :
    Ends choose (verifyAt codec p) v fun _ v' => v' = v := by
  unfold verifyAt
  apply Yields.bind (P := fun found _ v' =>
    found = some stored ∧ v' = v)
  · refine yields_call (a := some stored) (b := .ok (some stored))
      ?_ rfl ⟨rfl, rfl⟩
    rw [hPick.readZip]
    simp [backupMachine, serveBackup, hNode, zipAt]
  · rintro _ _ v ⟨rfl, rfl⟩
    exact yields_ofExcept hVerify rfl

theorem renameBackup_ends
    (hPick : Smooth createdAt pending choose)
    {temp name : Text} {body : FileBody}
    (hTemp :
      v.folder.files.nodeAt [temp] = some (.file body))
    (hName : v.folder.files.nodeAt [name] = none) :
    Ends choose (renameBackup temp name) v fun _ v' =>
      v'.folder.files.nodeAt [name] = some (.file body) := by
  unfold renameBackup
  have hOther : temp ≠ name := by
    rintro rfl
    rw [hTemp] at hName
    cases hName
  apply Yields.bind (P := fun there _ v' =>
    there = false ∧ v' = v)
  · refine yields_call (a := false) (b := false) ?_ rfl
      ⟨rfl, rfl⟩
    rw [hPick.exists']
    simp [backupMachine, serveBackup, hName, resolves]
  rintro _ _ v ⟨rfl, rfl⟩
  have hEffect :
      FileReq.effect v.folder.files (.rename [temp] [name]) =
        .ok (.move [temp] [name]) := by
    simp [FileReq.effect, hTemp, hName]
  have hPossible :
      (Change.move [temp] [name] :
        Change Text FileBody).Possible v.folder.files := by
    refine ⟨by simp, by simp, .inl rfl, ?_⟩
    simpa [List.cons_prefix_cons] using hOther
  apply (step_ends hPick hEffect hPossible).attempt.bind
  rintro _ _ _ ⟨_, rfl, rfl⟩
  apply yields_pure
  simp [Shared.act, Change.run, hTemp]

theorem publishBackup_ends
    (hPick : Smooth createdAt pending choose)
    {temp name : Text}
    (hTemp : v.folder.files.nodeAt [temp] = none)
    (hName : v.folder.files.nodeAt [name] = none)
    (hOther : temp ≠ name)
    (hVerify :
      verifyBackup codec
        (some (archiveOf codec staged manifest).file)
        (readFrom (archiveOf codec staged manifest).data) =
        .ok manifest) :
    Ends choose (publishBackup codec temp name staged manifest)
      v fun _ v' =>
        v'.folder.files.nodeAt [name] =
          some (.file
            (.zip (archiveOf codec staged manifest))) := by
  unfold publishBackup
  apply (writeZip_ends hPick hTemp).attempt.bind
  rintro _ _ _ ⟨_, rfl, rfl⟩
  have hNode :
      (withArchive temp (archiveOf codec staged manifest)
        v).folder.files.nodeAt [temp] =
        some (.file
          (.zip (archiveOf codec staged manifest))) :=
    nodeAt_withArchive _ v
  apply Yields.bind (P := fun cancelled _ v' =>
    cancelled = false ∧
      v' = withArchive temp (archiveOf codec staged manifest) v)
  · refine yields_call (a := false) (b := false) ?_ rfl
      ⟨rfl, rfl⟩
    rw [hPick.isCancelled]
    rfl
  rintro _ _ v ⟨rfl, rfl⟩
  apply (verifyAt_ends hPick hNode hVerify).attempt.bind
  rintro _ _ _ ⟨_, rfl, rfl⟩
  apply renameBackup_ends hPick hNode
  simp [withArchive, Shared.act, Change.run, List.cons_prefix_cons,
    hOther, Ne.symm hOther, hName]

------------------------------------------------------------
-- Captures without Others
------------------------------------------------------------

/- Nothing is changed. -/
def readContract :
    Contract BackupReq BackupChoice BackupWorld Unit where
  Inv := fun _ => True
  Rely := fun _ w w' => w' = w
  Admits := fun _ _ _ _ => True
  rely_refl := fun _ _ => rfl
  rely_trans := fun h₁ h₂ => h₂.trans h₁

theorem read_within
    {r : BackupReq}
    {answer : BackupResp r → BackupExcept α}
    (hQuiet :
      ∀ {w k b w'}, serveBackup r k w = some (b, w') → w' = w) :
    Within backupMachine readContract () (Script.call r answer)
      () (fun _ _ _ => True) v := by
  apply within_call
  intro v₁ _ _ k b v₂ _ hServe
  cases hQuiet hServe
  exact ⟨⟨trivial, fun _ hOther => absurd rfl hOther⟩, rfl,
    fun _ _ _ _ _ => trivial⟩

theorem validateDestinationPath_within
    {destination syncRoot : List Text} :
    Within backupMachine readContract ()
      (validateDestinationPath destination syncRoot) ()
      (fun _ _ _ => True) v := by
  have canonical {path : List Text} {message : String}
      {v : BackupWorld} :
      Within backupMachine readContract ()
        (canonicalize path message) () (fun _ _ _ => True) v := by
    apply read_within
    intro w k b w' hServe
    cases k <;> cases hServe <;> rfl
  unfold validateDestinationPath checkPlace checkCanonical
  split
  · exact within_throw
  · split
    · exact within_throw
    · apply Within.bind (P := fun _ _ _ => True)
      · apply read_within
        intro w k b w' hServe
        cases k <;> cases hServe <;> rfl
      rintro there ⟨⟩ v₁ _ _
      split
      · exact within_throw
      · apply Within.bind (P := fun _ _ _ => True)
        swap
        · exact fun _ _ _ _ _ => within_pure fun _ _ _ => trivial
        apply Within.bind (P := fun _ _ _ => True)
        · apply read_within
          intro w k b w' hServe
          cases k <;> cases hServe <;> rfl
        rintro parent ⟨⟩ v₂ _ _
        split
        · exact within_throw
        · split
          · exact within_throw
          · apply canonical.bind
            rintro root ⟨⟩ v₃ _ _
            apply canonical.bind
            rintro folder ⟨⟩ v₄ _ _
            split
            · exact within_throw
            · exact within_pure fun _ _ _ => trivial

/- The tree has not changed, and what was seen is in it. -/
def SeenHere (tree : NotesTree) (v : BackupWorld) : Prop :=
  v.tree = tree ∧ v.past = [tree] ∧
    ∀ e ∈ v.seen, tree.entry e.dir e.name = some e.id

variable {tree : NotesTree}

theorem seenHere_noteScan
    {r : TreeReq} {answer : TreeResp r}
    (h : SeenHere tree v) :
    SeenHere tree (noteScan r answer v) := by
  unfold noteScan
  split
  · exact ⟨h.1, h.2.1, fun _ hMem => nomatch hMem⟩
  · exact h
  · rename_i dir name metadata
    split
    · rename_i id hEntry
      refine ⟨h.1, h.2.1, ?_⟩
      intro e hMem
      rcases List.mem_cons.mp hMem with rfl | hMem
      · rw [← h.1]
        exact hEntry
      · exact h.2.2 e hMem
    · exact h
  · exact h

theorem seenHere_serve
    {r : BackupReq} {k : BackupChoice} {b : BackupResp r}
    {v' : BackupWorld}
    (h : SeenHere tree v)
    (hServe : serveBackup r k v = some (b, v')) :
    SeenHere tree v' := by
  cases r with
  | tree r =>
      cases k with
      | tree k =>
          rcases Option.map_eq_some_iff.mp hServe with
            ⟨_, _, hSame⟩
          cases hSame
          exact seenHere_noteScan h
      | _ => cases hServe
  | file r =>
      cases k with
      | file k =>
          rcases Option.map_eq_some_iff.mp hServe with
            ⟨_, _, hSame⟩
          cases hSame
          exact h
      | _ => cases hServe
  | _ => cases k <;> cases hServe <;> exact h

/- What is opened is what was scanned. -/
theorem opensScanned
    {r : BackupReq} {k : BackupChoice}
    (h : SeenHere tree v) : OpensScanned r k v := by
  unfold OpensScanned
  split
  · intro e hMem hDir hName id hId
    left
    have hSeen := h.2.2 e hMem
    rw [hDir, hName, ← h.1] at hSeen
    rw [Option.mem_def, hSeen] at hId
    exact (Option.some.inj hId).symm
  · trivial

theorem capture_ends
    {w : BackupWorld}
    (hTree : w.tree.Ok)
    (hCapture :
      Ends choose
        (captureSnapshot codec w.tree.root maxAttempts)
        (startBackup w) fun all _ => all = staged) :
    Ends choose (captureSnapshot codec w.tree.root maxAttempts)
        (startBackup w)
        (fun all w' => all = staged ∧ w'.folder.files =
          w.folder.files) ∧
      Captured codec staged ∧ Snapshot codec w.tree staged := by
  have hFits :
      Collects (captureSnapshot codec w.tree.root maxAttempts)
        (startBackup w) (Captured codec) :=
    captureSnapshot_collects
  have hRun₁ := hFits.gives.yields (J := fun _ => True)
    ⟨fun _ _ => trivial, fun _ _ _ => trivial⟩ trivial trivial
    hCapture
  have hStart : Capturing w.tree.root (startBackup w) :=
    ⟨rfl, List.mem_cons_self⟩
  have hTaken :
      Captures (captureSnapshot codec w.tree.root maxAttempts)
        (startBackup w) (CapturedIn codec) :=
    captureSnapshot_captures hStart
  have hRun₂ := hTaken.yields (J := SeenHere w.tree)
    ⟨fun h hServe => seenHere_serve h hServe,
      fun _ _ h => opensScanned h⟩
    hTree ⟨rfl, rfl, fun _ hMem => nomatch hMem⟩ hCapture
  rcases hRun₁ with
    ⟨_, _, w₁, hExec, rfl, ⟨hFolder, hFit⟩, _⟩
  rcases hRun₂ with
    ⟨all, _, w₂, _, hSame, ⟨tree, hPast, hSnap⟩, hHere⟩
  rw [hHere.2.1, List.mem_singleton] at hPast
  rw [hSame, hPast] at hSnap
  have hFiles : w₁.folder.files = w.folder.files := by
    have hSame₁ : w₁.folder = (startBackup w).folder := hFolder
    rw [hSame₁]
    rfl
  exact ⟨⟨_, _, w₁, hExec, rfl, hFiles⟩, hFit, hSnap⟩

------------------------------------------------------------
-- The Round Trip
------------------------------------------------------------

/- What is to be found at the path of a staged entry. -/
def stagedNode (s : StagedEntry) : Node FileBody :=
  if s.entry.kind = "directory" then .folder
  else .file (.bytes s.bytes)

/- A folder holds a capture, its manifest and no more. -/
structure HoldsCapture
    (staged : List StagedEntry)
    (manifestBytes : List UInt8)
    (files : Entries) : Prop where
  has :
    ∀ s ∈ staged,
      files.nodeAt (keyPath s.entry.path) = some (stagedNode s)
  manifest :
    files.nodeAt [manifestName] =
      some (.file (.bytes manifestBytes))
  only :
    ∀ x q, files.nodeAt (x :: q) ≠ none →
      x :: q = [manifestName] ∨
        ∃ s ∈ staged, x :: q = keyPath s.entry.path

/- What is less than an item of a sorted list is before it. -/
theorem mem_before_of_sorted
    {before after : List VerifiedItem}
    {item folder : VerifiedItem}
    (hSorted :
      (before ++ item :: after).Pairwise
        fun a b => a.key ≤ b.key)
    (hMem : folder ∈ before ++ item :: after)
    (hLess : folder.key < item.key) :
    folder ∈ before := by
  rcases List.mem_append.mp hMem with hBefore | hAfter
  · exact hBefore
  · rcases List.mem_cons.mp hAfter with rfl | hAfter
    · exact absurd hLess (lt_irrefl _)
    · have hTail := (List.pairwise_append.mp hSorted).2.1
      have hLe := (List.pairwise_cons.mp hTail).1 folder hAfter
      exact absurd hLess (not_lt.mpr hLe)

theorem lt_joinName (parent name : Text) :
    parent < joinName parent name := by
  unfold joinName
  induction parent with
  | nil => exact List.nil_lt_cons '/' name
  | cons c rest ih =>
      exact List.cons_lt_cons_iff.mpr (.inr ⟨rfl, ih⟩)

/- A folder is less than what is in it. -/
theorem Captured.parent_lt
    {s : StagedEntry} {parent : Text}
    (h : Captured codec staged)
    (hs : s ∈ staged)
    (hParent : parentKey s.entry.path = some parent) :
    parent < s.entry.path := by
  rcases h.placed s hs with
    hRoot | ⟨folder, name, hName, hPath, _⟩
  · have hNone : parentKey notesRootName = none := by decide
    rw [hRoot, hNone] at hParent
    cases hParent
  · rw [hPath] at hParent ⊢
    rw [parentKey_joinName hName, Option.some.injEq] at hParent
    rw [← hParent]
    exact lt_joinName folder name

variable {item : StagedEntry → VerifiedItem}

/- The items of a verified archive of a capture. -/
theorem Archivable.extractable
    {archive : VerifiedArchive}
    (h : Archivable codec staged manifest)
    (hSound :
      ArchiveSound codec (archiveOf codec staged manifest).file
        (readFrom (archiveOf codec staged manifest).data)
        archive)
    (hPerm : archive.items.Perm (staged.map item))
    (hHolds :
      ∀ s ∈ staged,
        HoldsItem codec (archiveOf codec staged manifest).data
          s (item s)) :
    Extractable codec (archiveOf codec staged manifest).data
      archive.items where
  portable := hSound.portable
  keys := List.Nodup.of_map _ hSound.aliases
  parents := by
    intro before x after hSplit parent hParent
    have hx : x ∈ archive.items := by
      rw [hSplit]
      simp
    rcases hSound.parents x hx parent hParent with
      ⟨folder, hFolder, hKey, hKind⟩
    refine ⟨folder, ?_, hKey, hKind⟩
    rcases List.mem_map.mp (hPerm.mem_iff.mp hx) with
      ⟨s, hs, rfl⟩
    have hPath := (hHolds s hs).key
    rw [hPath] at hParent
    apply mem_before_of_sorted (hSplit ▸ hSound.sorted)
      (hSplit ▸ hFolder)
    rw [hKey, hPath]
    exact h.captured.parent_lt hs hParent
  files := hSound.files
  total := by
    have hSum := (hPerm.map VerifiedItem.size).sum_nat
    rw [hSum, List.map_map]
    have hSizes :
        staged.map (VerifiedItem.size ∘ item) =
          staged.map fun s => s.bytes.length :=
      List.map_congr_left fun s hs => (hHolds s hs).size
    rw [hSizes]
    exact h.captured.total

theorem HoldsItem.itemNode_eq
    {data : List ReadData} {s : StagedEntry}
    {item : VerifiedItem}
    (h : HoldsItem codec data s item) :
    itemNode data item = stagedNode s := by
  have hKind := h.kind
  by_cases hFolder : s.entry.kind = "directory"
  · simp only [hFolder, decide_true, kindOf, if_true] at hKind
    simp only [itemNode, hKind, stagedNode, hFolder, if_true]
  · simp only [hFolder, decide_false, kindOf,
      Bool.false_eq_true, if_false] at hKind
    simp only [itemNode, hKind, stagedNode, hFolder, if_false,
      h.read]

theorem holdsCapture_of_published
    {data : List ReadData} {items : List VerifiedItem}
    {bytes : List UInt8} {files : Entries}
    (hPerm : items.Perm (staged.map item))
    (hHolds : ∀ s ∈ staged, HoldsItem codec data s (item s))
    (h : Published (wholePlan data items bytes) files) :
    HoldsCapture staged bytes files where
  has := by
    intro s hs
    have hItem : item s ∈ items :=
      hPerm.mem_iff.mpr (List.mem_map_of_mem hs)
    rcases h.has _ (List.mem_append_left _
        (List.mem_map_of_mem hItem)) with ⟨node, hNode, hIs⟩
    have hs' := hHolds s hs
    rw [hs'.key] at hNode
    rw [hNode, ← hs'.itemNode_eq]
    exact congrArg some hIs
  manifest := by
    rcases h.has _ (List.mem_append_right _
        List.mem_cons_self) with ⟨node, hNode, hIs⟩
    rw [hNode]
    exact congrArg some hIs
  only := by
    intro x q hThere
    rcases h.planned x q hThere with ⟨e, hMem, hSame⟩
    rcases List.mem_append.mp hMem with hMem | hMem
    · right
      rcases List.mem_map.mp hMem with ⟨found, hFound, rfl⟩
      rcases List.mem_map.mp (hPerm.mem_iff.mp hFound) with
        ⟨s, hs, rfl⟩
      refine ⟨s, hs, ?_⟩
      rw [hSame, (hHolds s hs).key]
    · left
      rw [List.mem_singleton] at hMem
      rw [hSame, hMem]

/-
  A capture with fewer entries than an archive may have, no
  two of which are one entry on another system, and with a
  manifest that is not too large: the backup succeeds, its
  archive passes the check, and an extraction into an empty
  folder puts there what was captured, which is what there
  is in the Notes folder, and the manifest.
-/
theorem backups_extract_to_what_was_captured
    (codec : BackupCodec)
    {call : BackupCall}
    {w : BackupWorld}
    {name : Text}
    {staged : List StagedEntry}
    {manifest : BackupManifest}
    (hPick : Smooth createdAt pending choose)
    (hTree : w.tree.Ok)
    (hPlace :
      Ends choose
        (validateDestinationPath call.destination call.syncRoot)
        (startBackup w) fun found _ => found = name)
    (hName : w.folder.files.nodeAt [name] = none)
    (hTemp : w.folder.files.nodeAt [call.temp] = none)
    (hOther : call.temp ≠ name)
    (hCapture :
      Ends choose
        (captureSnapshot codec w.tree.root maxAttempts)
        (startBackup w) fun all _ => all = staged)
    (hCount : staged.length < maxBackupEntries)
    (hNames :
      (staged.map fun s =>
        codec.portableNameKey s.entry.path).Nodup)
    (hManifest :
      manifest =
        manifestOf call.appVersion createdAt pending staged)
    (hSize :
      (codec.serializeManifest manifest).length ≤
        maxManifestBytes)
    (hParsed :
      codec.parseManifest (codec.serializeManifest manifest) =
        some manifest) :
    Snapshot codec w.tree staged ∧
      Ends choose (backupNotesTo codec call) (startBackup w)
        (fun result w' =>
          result = resultOf call manifest ∧
            w'.folder.files.nodeAt [name] =
              some (.file
                (.zip (archiveOf codec staged manifest)))) ∧
      verifyBackup codec
          (some (archiveOf codec staged manifest).file)
          (readFrom (archiveOf codec staged manifest).data) =
        .ok manifest ∧
      ∀ pick extraction,
        Faithful (archiveOf codec staged manifest) pick →
          Extracts pick (extractBackup codec extraction)
            Files.empty fun _ files =>
              HoldsCapture staged
                (codec.serializeManifest manifest) files := by
  rcases capture_ends hTree hCapture with
    ⟨hCapture', hCaptured, hSnapshot⟩
  have hArchive : Archivable codec staged manifest :=
    { captured := hCaptured
      count := hCount
      names := hNames
      format := by rw [hManifest]; rfl
      version := by rw [hManifest]; rfl
      entries := by rw [hManifest]; rfl
      size := hSize
      parsed := hParsed }
  rcases hArchive.verifies with
    ⟨archive, item, hVerified, hManifest', hBytes, hPerm,
      hHolds⟩
  have hVerify :
      verifyBackup codec
          (some (archiveOf codec staged manifest).file)
          (readFrom (archiveOf codec staged manifest).data) =
        .ok manifest := by
    unfold verifyBackup
    simp only [hArchive.opens, bind, Except.bind, hVerified,
      hManifest']
  refine ⟨hSnapshot, ?_, hVerify, ?_⟩
  · unfold backupNotesTo
    have hUnchanged :
        Within backupMachine readContract ()
          (validateDestinationPath call.destination
            call.syncRoot) ()
          (fun _ _ _ => True) (startBackup w) :=
      validateDestinationPath_within
    apply (hUnchanged.gives.yields (J := fun _ => True)
      ⟨fun _ _ => trivial, fun _ _ _ => trivial⟩ trivial trivial
      hPlace).bind
    rintro _ _ _ ⟨rfl, ⟨rfl, _⟩, _⟩
    apply Yields.bind (P := fun missing _ v =>
      missing = 0 ∧ v = startBackup w)
    · refine yields_call (b := .ok 0) (a := 0) ?_ rfl ⟨rfl, rfl⟩
      rw [hPick.countCloudOnly]
      rfl
    rintro _ _ _ ⟨rfl, rfl⟩
    apply (yields_ofExcept rfl rfl :
      Ends choose (Script.ofExcept (checkCloudOnly 0))
        (startBackup w) fun _ v => v = startBackup w).bind
    rintro _ _ _ rfl
    apply Yields.bind (P := fun found _ v =>
      found = pending ∧ v = startBackup w)
    · refine yields_call (b := pending) (a := pending) ?_ rfl
        ⟨rfl, rfl⟩
      rw [hPick.includesPending]
      cases pending <;> rfl
    rintro _ _ _ ⟨rfl, rfl⟩
    apply Yields.bind (P := fun root _ v =>
      root = w.tree.root ∧ v = startBackup w)
    · refine yields_call (b := .ok w.tree.root) ?_ rfl
        ⟨rfl, rfl⟩
      rw [hPick.openRoot]
      rfl
    rintro _ _ _ ⟨rfl, rfl⟩
    apply hCapture'.bind
    rintro _ _ v ⟨rfl, hFiles⟩
    apply (checkCancelled_ends hPick).bind
    rintro _ _ v rfl
    apply Yields.bind (P := fun now _ v' =>
      now = createdAt ∧ v' = v)
    · refine yields_call (b := createdAt) (a := createdAt) ?_ rfl
        ⟨rfl, rfl⟩
      rw [hPick.now]
      rfl
    rintro _ _ v ⟨rfl, rfl⟩
    rw [← hManifest]
    rw [← hFiles] at hName hTemp
    apply (publishBackup_ends hPick hTemp hName hOther
      hVerify).bind
    intro _ _ v' hPublished
    exact yields_pure ⟨rfl, hPublished⟩
  · intro pick extraction hFaithful
    have hItems := hArchive.extractable
      (archiveSound_of_verify hVerified) hPerm hHolds
    apply (extractBackup_extracts hFaithful hArchive.opens
      hVerified hItems).mono
    intro _ files hEnd
    rw [hBytes] at hEnd
    exact holdsCapture_of_published hPerm hHolds hEnd

------------------------------------------------------------
-- Two Small Notes Folders
------------------------------------------------------------

/- A picker that lets every request of a backup succeed. -/
def smoothChoices : BackupReq → BackupWorld → BackupChoice
  | .canonicalize path, _ => .path path
  | .countCloudOnly, _ => .count (.ok 0)
  | .includesPending, _ => .failed
  | .now, _ => .text "2026-10-08T12:00:00+00:00"
  | .tree (.countReads file), w =>
      .tree (.count (if w.tree.bytesOf file = [] then 0 else 1))
  | .tree (.readAt file _), w =>
      .tree (.count (w.tree.bytesOf file).length)
  | .tree _, _ => .tree .ok
  | .file _, _ => .file .ok
  | _, _ => .ok

/- A picker for an extraction of an archive. -/
def faithfulChoices
    (zip : StoredZip) : ExtractReq → ExtractWorld → ExtractChoice
  | .openArchive, _ => .zip (some zip.file)
  | .readArchive, _ => .data zip.data
  | .readEntry _, _ => .data zip.data
  | .file _, _ => .file .ok
  | _, _ => .ok

theorem smoothChoices_smooth :
    Smooth "2026-10-08T12:00:00+00:00" false smoothChoices := by
  constructor <;> intros <;> rfl

theorem faithfulChoices_faithful
    (zip : StoredZip) : Faithful zip (faithfulChoices zip) := by
  constructor <;> intros <;> rfl

/- The JSON of a text without quotes. -/
def jsonText (text : Text) : Text :=
  '"' :: text ++ ['"']

def jsonEntry (entry : BackupManifestEntry) : Text :=
  "    \x7b\n      \"path\": ".toList ++ jsonText entry.path ++
    ",\n      \"kind\": ".toList ++
    jsonText entry.kind.toList ++
    ",\n      \"size\": ".toList ++ Nat.toDigits 10 entry.size ++
    ",\n      \"blake3\": ".toList ++
    (match entry.blake3 with
    | some hash => jsonText hash.toList
    | none => "null".toList) ++
    "\n    \x7d".toList

def jsonManifest (manifest : BackupManifest) : Text :=
  "\x7b\n  \"format\": ".toList ++
    jsonText manifest.format.toList ++
    ",\n  \"version\": ".toList ++
    Nat.toDigits 10 manifest.version ++
    ",\n  \"created_at\": ".toList ++
    jsonText manifest.createdAt.toList ++
    ",\n  \"app_version\": ".toList ++
    jsonText manifest.appVersion.toList ++
    ",\n  \"includes_pending\": ".toList ++
    (if manifest.includesPending then "true" else "false").toList ++
    ",\n  \"entries\": [\n".toList ++
    ",\n".toList.intercalate (manifest.entries.map jsonEntry) ++
    "\n  ]\n\x7d".toList

def asciiBytes (text : Text) : List UInt8 :=
  text.map fun c => UInt8.ofNat c.toNat

/- The code that is used, for the bytes of one manifest. -/
def codecFor (manifest : BackupManifest) : BackupCodec where
  blake3 := fun bytes =>
    if bytes = asciiBytes "abc".toList then
      "6437b3ac38465133ffb63b75273a8db5" ++
        "48c558465d79db03fd359c6cd5bd9d85"
    else
      "af1349b9f5f9a1a6a0404dea36dcc949" ++
        "9bcb25c9adc112b7cc9a93cae41f3262"
  portableNameKey := fun name => name.map asciiLower
  serializeManifest := fun m => asciiBytes (jsonManifest m)
  parseManifest := fun bytes =>
    if bytes = asciiBytes (jsonManifest manifest) then
      some manifest
    else
      none

theorem codecFor_parses
    (manifest : BackupManifest) :
    (codecFor manifest).parseManifest
        ((codecFor manifest).serializeManifest manifest) =
      some manifest := by
  simp only [codecFor, if_true]

/- A tree of these inodes, the first of which is the root. -/
def treeOf (kinds : List InodeKind) : NotesTree where
  inode := fun id => kinds[id]?.map fun kind => ⟨kind, 0⟩
  root := 0
  clock := 0

def worldOf (kinds : List InodeKind) : BackupWorld where
  tree := treeOf kinds
  past := []
  seen := []
  listed := []
  folder := ⟨Files.empty, Files.empty⟩

def noteName (text : String) : OsName :=
  ⟨text.toList, true⟩

def smallBackup : BackupCall where
  destination := ["home".toList, "notes.zip".toList]
  syncRoot := ["home".toList, "sync".toList]
  uuid := "1".toList
  appVersion := "0.2.0"

/- A folder with a note and an empty folder in it. -/
def nestedNotes : List InodeKind :=
  [.folder [(noteName "b", 1)],
    .folder [(noteName "c.md", 2), (noteName "d", 3)],
    .file (asciiBytes "abc".toList), .folder []]

def nestedStaged : List StagedEntry :=
  [⟨⟨"Notes".toList, "directory", 0, none⟩, []⟩,
    ⟨⟨"Notes/b".toList, "directory", 0, none⟩, []⟩,
    ⟨⟨"Notes/b/c.md".toList, "file", 3,
      some ("6437b3ac38465133ffb63b75273a8db5" ++
        "48c558465d79db03fd359c6cd5bd9d85")⟩,
      asciiBytes "abc".toList⟩,
    ⟨⟨"Notes/b/d".toList, "directory", 0, none⟩, []⟩]

def nestedManifest : BackupManifest :=
  manifestOf "0.2.0" "2026-10-08T12:00:00+00:00" false
    nestedStaged

/- Two empty notes whose names differ only in case. -/
def twoNotes : List InodeKind :=
  [.folder [(noteName "A.md", 1), (noteName "a.md", 2)],
    .file [], .file []]

def twoStaged : List StagedEntry :=
  let hash :=
    "af1349b9f5f9a1a6a0404dea36dcc949" ++
      "9bcb25c9adc112b7cc9a93cae41f3262"
  [⟨⟨"Notes".toList, "directory", 0, none⟩, []⟩,
    ⟨⟨"Notes/A.md".toList, "file", 0, some hash⟩, []⟩,
    ⟨⟨"Notes/a.md".toList, "file", 0, some hash⟩, []⟩]

/- What a script returns when it runs alone. -/
def returned
    (x : BackupM α)
    (v : BackupWorld) : Option (BackupExcept α) :=
  ((x ()).exec backupMachine () smoothChoices v).map fun r =>
    r.1.1

theorem ends_of_returned
    {x : BackupM α} {v : BackupWorld} {a : α}
    (h : returned x v = some (.ok a)) :
    Ends smoothChoices x v fun found _ => found = a := by
  unfold returned at h
  rcases Option.map_eq_some_iff.mp h with
    ⟨⟨⟨r, u⟩, v'⟩, hExec, rfl⟩
  exact ⟨a, u, v', hExec, rfl⟩

/- The folders and files come back with the manifest. -/
theorem nested_notes_restored :
    Snapshot (codecFor nestedManifest) (treeOf nestedNotes)
        nestedStaged ∧
      Ends smoothChoices
        (backupNotesTo (codecFor nestedManifest) smallBackup)
        (startBackup (worldOf nestedNotes))
        (fun result w' =>
          result = resultOf smallBackup nestedManifest ∧
            w'.folder.files.nodeAt ["notes.zip".toList] =
              some (.file (.zip
                (archiveOf (codecFor nestedManifest)
                  nestedStaged nestedManifest)))) ∧
      ∀ extraction,
        Extracts
          (faithfulChoices
            (archiveOf (codecFor nestedManifest) nestedStaged
              nestedManifest))
          (extractBackup (codecFor nestedManifest) extraction)
          Files.empty fun _ files =>
            HoldsCapture nestedStaged
              ((codecFor nestedManifest).serializeManifest
                nestedManifest) files := by
  have hTree : (worldOf nestedNotes).tree.Ok := by
    intro id i hInode
    rcases Option.map_eq_some_iff.mp hInode with ⟨_, _, rfl⟩
    exact le_rfl
  have hPlace :
      returned
        (validateDestinationPath smallBackup.destination
          smallBackup.syncRoot)
        (startBackup (worldOf nestedNotes)) =
        some (.ok "notes.zip".toList) := by
    decide +kernel
  have hCapture :
      returned
        (captureSnapshot (codecFor nestedManifest)
          (worldOf nestedNotes).tree.root maxAttempts)
        (startBackup (worldOf nestedNotes)) =
        some (.ok nestedStaged) := by
    decide +kernel
  have hSize :
      ((codecFor nestedManifest).serializeManifest
        nestedManifest).length ≤ maxManifestBytes := by
    decide +kernel
  have hNames :
      (nestedStaged.map fun s =>
        (codecFor nestedManifest).portableNameKey
          s.entry.path).Nodup := by
    decide
  have hManifest :
      nestedManifest =
        manifestOf smallBackup.appVersion
          "2026-10-08T12:00:00+00:00" false nestedStaged := rfl
  have hOther : smallBackup.temp ≠ "notes.zip".toList := by
    decide
  rcases backups_extract_to_what_was_captured
      (codecFor nestedManifest) smoothChoices_smooth hTree
      (ends_of_returned hPlace) rfl rfl hOther
      (ends_of_returned hCapture) (by decide) hNames hManifest
      hSize (codecFor_parses _) with
    ⟨hSnapshot, hBackup, _, hExtracted⟩
  exact ⟨hSnapshot, hBackup, fun extraction =>
    hExtracted _ extraction (faithfulChoices_faithful _)⟩

/-
  Two notes `A.md` and `a.md` are captured, and the backup
  of them refuses its own archive.
-/
theorem case_names_refused :
    returned
        (captureSnapshot (codecFor nestedManifest) 0 maxAttempts)
        (startBackup (worldOf twoNotes)) =
        some (.ok twoStaged) ∧
      Smooth "2026-10-08T12:00:00+00:00" false smoothChoices ∧
      returned
        (backupNotesTo (codecFor nestedManifest) smallBackup)
        (startBackup (worldOf twoNotes)) =
        some (.error (.archiveCorrupted
          ("'Notes/a.md' appears more than once in the " ++
            "archive"))) := by
  refine ⟨?_, smoothChoices_smooth, ?_⟩
  · decide +kernel
  · decide +kernel

end S4Drive

import S4Drive.Conflicts.DeskSteps

/-
  What the resolution of a conflict leaves of the two
  versions. New files get names that were free, so nothing
  but the local file is lost. That file is replaced or
  removed after a copy was made of it, but also when there
  is something at the path of the recorded copy, whatever it
  has in it.

  Main declarations:
    * `ensureLocalConflictCopy_preserves`
    * `Preserved`, `VersionsKept`, `Endangered`
    * `resolveConflict_stays`
-/

------------------------------------------------------------
-- The Conflict Copy
------------------------------------------------------------

namespace S4Drive

open Concurrency FileTree

namespace Conflicts

open Recovery (Path Bytes Disk isDir fileAt createDirAll)

variable {d d' : Disk} {p q source target : Path}
variable {own own' : List Path} {body : Bytes}
variable {blake3 : Bytes → Bytes} {w w' w'' : Desktop}
variable {α : Type} {R : Desktop → Desktop → Prop}
variable {record : ConflictRecord} {syncFolder localPath : Path}
variable {remotePath : Text}

/- The bytes are somewhere else than in the file at `p`. -/
def Preserved
    (record : ConflictRecord)
    (w : Desktop)
    (p : Path)
    (body : Bytes) : Prop :=
  (∃ q, q ≠ p ∧
    (conflictCopyPath record = some q ∨ q ∈ w.copies) ∧
    fileAt w.disk q = some body) ∨
  ∃ c ∈ w.committed, w.blobs c.storageKey = some body

theorem Preserved.framed
    (h : Preserved record w p body)
    (hFrame : Framed [p] w w') : Preserved record w' p body := by
  rcases h with ⟨q, hOther, hCopy, hFile⟩ | ⟨c, hIn, hBlob⟩
  · have hOut : q ∉ [p] := by simpa using hOther
    left
    exact ⟨q, hOther, hCopy.imp_right (hFrame.copies ·),
      hFrame.disk q body hOut hFile⟩
  · right
    exact ⟨c, hFrame.committed hIn, hFrame.blobs _ _ hBlob⟩

/- Whether something is at the path of the recorded copy. -/
def CopyExists (record : ConflictRecord) (d : Disk) : Prop :=
  ∃ q, conflictCopyPath record = some q ∧ pathExists d q = true

theorem exists_does
    [Std.Refl R] (p : Path) :
    Does blake3 R (Script.request (DeskReq.exists p)) w
      fun r w' => w' = w ∧ r = .ok (pathExists w.disk p) := by
  have hRead :
      Does blake3 R (Script.call (DeskReq.exists p) .ok) w
        fun r w' => w' = w ∧ r = .ok (pathExists w.disk p) := by
    apply does_read rfl
    intro k b hServe
    cases k <;> cases hServe
    rfl
  exact hRead

theorem recordedCopy_does
    [IsPreorder Desktop R] :
    Does blake3 R (recordedCopy record) w fun r w' =>
      w' = w ∧ ∀ known, r = .ok known →
        (CopyExists record w.disk ↔ known ≠ none) := by
  unfold recordedCopy
  split
  · rename_i hNone
    apply along_pure
    refine ⟨rfl, ?_⟩
    rintro known ⟨⟩
    simp [CopyExists, hNone]
  · rename_i path hPath
    apply Along.bind (exists_does path)
    · rintro there _ _ _ ⟨rfl, hThere⟩
      cases hThere
      apply along_pure
      refine ⟨rfl, ?_⟩
      rintro known ⟨⟩
      simp [CopyExists, hPath]
    · rintro e _ _ _ ⟨_, hError⟩
      cases hError

theorem newName_does
    [Std.Refl R]
    {parent : Path} {before after : Text} :
    Does blake3 R
      (Script.request (DeskReq.newName parent before after)) w
      fun r w' =>
        w' = w ∧ ∃ q, r = .ok q ∧ w.disk.nodeAt q = none := by
  have hRead :
      Does blake3 R
        (Script.call (DeskReq.newName parent before after) .ok) w
        fun r w' =>
          w' = w ∧ ∃ q, r = .ok q ∧ w.disk.nodeAt q = none := by
    apply does_read rfl
    intro k b hServe
    cases k with
    | uuid text =>
        simp only [serveDesk] at hServe
        split at hServe <;> cases hServe
        rename_i hFree
        exact ⟨_, rfl, hFree⟩
    | _ => cases hServe
  exact hRead

/- The name of a conflict copy is a free one. -/
theorem findUniquePath_does
    [IsPreorder Desktop R]
    (parent : Path)
    (name : Text)
    (tries index : Nat) :
    Does blake3 R (findUniquePath parent name tries index) w
      fun r w' =>
        w' = w ∧ ∃ q, r = .ok q ∧ w.disk.nodeAt q = none := by
  induction tries generalizing index with
  | zero => exact newName_does
  | succ tries ih =>
      apply Along.bind (exists_does _)
      · rintro there _ _ _ ⟨rfl, hThere⟩
        cases hThere
        split
        · exact ih (index + 1)
        · rename_i hFree
          apply along_pure
          exact ⟨rfl, _, rfl,
            nodeAt_of_not_exists (by simpa using hFree)⟩
      · rintro e _ _ _ ⟨_, hError⟩
        cases hError

theorem uniqueConflictPath_does
    [IsPreorder Desktop R]
    (parent : Path)
    (name : Text) :
    Does blake3 R (uniqueConflictPath parent name) w
      fun r w' =>
        w' = w ∧ ∃ q, r = .ok q ∧ w.disk.nodeAt q = none := by
  apply Along.bind (exists_does _)
  · rintro there _ _ _ ⟨rfl, hThere⟩
    cases hThere
    split
    · exact findUniquePath_does parent name 9998 2
    · rename_i hFree
      apply along_pure
      exact ⟨rfl, _, rfl,
        nodeAt_of_not_exists (by simpa using hFree)⟩
  · rintro e _ _ _ ⟨_, hError⟩
    cases hError

/- The copy has the bytes that the local file had. -/
def CopyMade
    (source : Path)
    (w w' : Desktop)
    (q : Path) : Prop :=
  ∀ body, fileAt w.disk source = some body →
    q ≠ source ∧ q ∈ w'.copies ∧ fileAt w'.disk q = some body

theorem serve_copied
    {k : DeskChoice}
    (hFree : w.disk.nodeAt target = none)
    (h :
      serveDesk blake3 (.copyConflict source target) k w =
        some (true, w')) : CopyMade source w w' target := by
  intro body hFile
  have hOther : source ≠ target := by
    rintro rfl
    rw [fileAt_none hFree] at hFile
    cases hFile
  cases k with
  | ok =>
      simp only [serveDesk] at h
      split at h <;> cases h
      rename_i d hCopied
      unfold copyFileTo at hCopied
      rw [hFile] at hCopied
      refine ⟨hOther.symm, List.mem_cons_self, ?_⟩
      rw [writeFile_eq_some hCopied, fileAt_set, if_pos rfl,
        Recovery.copiedBytes, if_neg hOther]
  | _ => cases h

theorem copyConflict_does
    {text : String}
    (hFree : w.disk.nodeAt target = none) :
    Does blake3 (Local [])
      (step (.copyConflict source target) id text) w
      fun r w' => r = .ok () → CopyMade source w w' target := by
  apply Along.fresh _ hFree
  apply along_call
  intro k made w' hServe
  refine ⟨serve_local rfl hServe, fun hOk => ?_⟩
  cases made with
  | true => exact serve_copied hFree hServe
  | false => cases hOk

theorem writeEmpty_moves
    {text : String}
    (hFree : w.disk.nodeAt target = none) :
    Does blake3 (Local [])
      (step (.writeEmpty target) id text) w fun _ _ => True :=
  Along.fresh (does_any (step_local rfl fun _ h => h)) hFree

/- What `create_conflict_copy` does with a free path. -/
theorem makeCopy_does
    {text text' : String}
    (hFree : w.disk.nodeAt target = none) :
    Does blake3 (Local [])
      (do
        let there ← Script.request (DeskReq.exists source)
        if there then
          step (.copyConflict source target) id text
          pure target
        else
          step (.writeEmpty target) id text'
          pure target) w
      fun r w' => ∀ q, r = .ok q → CopyMade source w w' q := by
  apply Along.bind (exists_does source)
  · rintro there _ _ _ ⟨rfl, hThere⟩
    cases hThere
    split
    · apply Along.bind (copyConflict_does hFree)
      · rintro ⟨⟩ _ w' _ hMade
        apply along_pure
        rintro q ⟨⟩
        exact hMade rfl
      · rintro _ _ _ _ _ q ⟨⟩
    · rename_i hGone
      apply Along.bind (writeEmpty_moves hFree)
      · rintro ⟨⟩ _ w' _ _
        apply along_pure
        rintro q - body hFile
        exact absurd (pathExists_of_fileAt hFile) hGone
      · rintro _ _ _ _ _ q ⟨⟩
  · rintro e _ _ _ ⟨_, hError⟩
    cases hError

theorem CopyMade.later
    (hFrame : Framed [] w w')
    (h : CopyMade source w' w'' q) : CopyMade source w w'' q :=
  fun body hFile =>
    h body (hFrame.disk source body List.not_mem_nil hFile)

theorem createConflictCopy_does
    {syncFolder : Path}
    {originalName deviceName date : Text} :
    Does blake3 (Local [])
      (createConflictCopy source syncFolder originalName
        deviceName date) w
      fun r w' => ∀ q, r = .ok q → CopyMade source w w' q := by
  unfold createConflictCopy
  apply Along.bind (along_ofExcept (Q := fun _ _ w' => w' = w) rfl)
  · rintro folder _ _ _ rfl
    refine Along.bind
      (does_any (step_local rfl fun _ h => h)) ?_ ?_
    · rintro ⟨⟩ _ w₁ hCreated _
      apply Along.bind (uniqueConflictPath_does folder _)
      · rintro path _ _ _ ⟨rfl, _, ⟨⟩, hFree⟩
        apply (makeCopy_does hFree).mono
        intro r _ w' _ hMade q hOk
        exact (hMade q hOk).later hCreated.toFramed
      · rintro _ _ _ _ _ q ⟨⟩
    · rintro _ _ _ _ _ q ⟨⟩
  · rintro _ _ _ _ _ q ⟨⟩

/-
  The bytes of the local file are somewhere else afterwards,
  unless something was at the path of the recorded copy.
-/
theorem ensureLocalConflictCopy_preserves :
    Does blake3 (Local [])
      (ensureLocalConflictCopy syncFolder record localPath
        remotePath) w
      fun r w' =>
        ¬ CopyExists record w.disk → ∀ copy, r = .ok copy →
          ∀ body, fileAt w.disk localPath = some body →
            Preserved record w' localPath body := by
  unfold ensureLocalConflictCopy
  apply Along.bind recordedCopy_does
  · rintro known _ _ _ ⟨rfl, hKnown⟩
    cases known with
    | some path =>
        apply along_pure
        intro hNone
        exact absurd ((hKnown _ rfl).mpr (by simp)) hNone
    | none =>
        apply Along.bind (exists_does localPath)
        · rintro there _ _ _ ⟨rfl, hThere⟩
          cases hThere
          split
          · rename_i hGone
            apply along_pure
            rintro - copy - body hFile
            simp [pathExists_of_fileAt hFile] at hGone
          · refine Along.bind
              (does_any (step_local rfl fun _ h => h)) ?_ ?_
            · rintro ⟨⟩ _ w₁ hStep _
              refine Along.bind
                (does_any (request_local rfl fun _ h => h)) ?_ ?_
              · rintro now _ w₂ hNow _
                apply Along.bind createConflictCopy_does
                · rintro copy _ w₃ _ hMade
                  apply along_pure
                  rintro - _ ⟨⟩ body hFile
                  have hFrame := (hStep.trans hNow).toFramed
                  rcases (hMade copy rfl).later hFrame body hFile
                    with ⟨hOther, hIn, hCopy⟩
                  exact .inl ⟨copy, hOther, .inr hIn, hCopy⟩
                · rintro _ _ _ _ _ _ _ ⟨⟩
              · rintro _ _ _ _ _ _ _ ⟨⟩
            · rintro _ _ _ _ _ _ _ ⟨⟩
        · rintro _ _ _ _ ⟨_, hError⟩
          cases hError
  · rintro _ _ _ _ _ _ copy ⟨⟩

------------------------------------------------------------
-- Replacing the Local File
------------------------------------------------------------

variable {tmpPath backupPath targetPath : Path}

theorem rollBackRestore_moves
    (hIn : backupPath ∈ own ∧ targetPath ∈ own) :
    Moves (deskMachine blake3) (Local own)
      (rollBackRestore backupPath targetPath) := by
  unfold rollBackRestore
  refine .bind (request_local rfl ?_) fun back => ?_
  · simpa [touched] using hIn
  · split
    · exact .throw _
    · exact .throw _

theorem replaceExistingRestoreTarget_moves :
    Moves (deskMachine blake3) (Local [tmpPath, targetPath])
      (replaceExistingRestoreTarget tmpPath targetPath) := by
  refine .bind (ask_local rfl (by simp [touched])) ?_
  intro folder
  split
  · exact .throw _
  · intro v w
    apply Along.bind newName_does
    · rintro backupPath _ _ _ ⟨rfl, _, ⟨⟩, hFree⟩
      apply Along.fresh _ hFree
      refine (Moves.bind (step_local rfl ?_) fun _ => ?_) () _
      · simp [touched]
      · refine .bind (request_local rfl ?_) fun moved => ?_
        · simp [touched]
        · split
          · refine .bind (request_local rfl ?_) fun _ => .pure _
            simp [touched]
          · exact rollBackRestore_moves (by simp)
    · exact fun _ _ _ _ _ => trivial

theorem finishRestoreReplace_moves :
    Moves (deskMachine blake3) (Local [tmpPath, targetPath])
      (finishRestoreReplace tmpPath targetPath) := by
  refine .bind (request_local rfl ?_) fun moved => ?_
  · simp [touched]
  · split
    · exact .pure _
    · refine .bind (ask_local rfl ?_) fun there => ?_
      · simp [touched]
      · split
        · exact replaceExistingRestoreTarget_moves
        · exact .throw _

theorem placeDownload_moves :
    Moves (deskMachine blake3) (Local [tmpPath, targetPath])
      (placeDownload tmpPath targetPath) := by
  refine .bind finishRestoreReplace_moves.attempt fun r => ?_
  cases r with
  | ok done => exact .pure _
  | error e =>
      refine .bind (request_local rfl ?_) fun _ => .throw _
      simp [touched]

variable {entry : FileEntry}

theorem registerFileAtPathWithState_moves
    {s3Key : Text} {state : String} :
    Moves (deskMachine blake3) (Local own)
      (registerFileAtPathWithState entry localPath s3Key
        state) :=
  step_local rfl (by simp [touched])

theorem downloadRemoteEntryToLocal_moves :
    Moves (deskMachine blake3) (Local [localPath])
      (downloadRemoteEntryToLocal record localPath
        remotePath) := by
  refine .bind (call_local rfl (by simp [touched])) ?_
  intro remoteEntry
  refine .bind (.ofExcept _) fun contentRef => ?_
  refine .bind (step_local rfl (by simp [touched])) ?_
  intro _ v w
  apply Along.bind newName_does
  · rintro tmpPath _ _ _ ⟨rfl, _, ⟨⟩, hFree⟩
    apply Along.fresh _ hFree
    refine (Moves.bind (call_local rfl ?_) fun _ => ?_) () _
    · simp [touched]
    · refine .bind placeDownload_moves fun _ => ?_
      refine .bind registerFileAtPathWithState_moves fun _ => ?_
      exact step_local rfl (by simp [touched])
  · exact fun _ _ _ _ _ => trivial

theorem ensureLocalConflictCopy_moves :
    Moves (deskMachine blake3) (Local own)
      (ensureLocalConflictCopy syncFolder record localPath
        remotePath) := by
  intro v w
  refine Along.widen
    ensureLocalConflictCopy_preserves.stops (.refl _ w) ?_
  exact fun _ h => h.widen (by simp)

theorem acceptRemoteDelete_moves :
    Moves (deskMachine blake3) (Local [localPath])
      (acceptRemoteDelete syncFolder record localPath
        remotePath) := by
  refine .bind ensureLocalConflictCopy_moves fun preserved => ?_
  refine .bind (request_local rfl (by simp [touched])) ?_
  intro there
  split
  · refine .bind (step_local rfl (by simp [touched])) ?_
    intro _
    refine .bind (step_local rfl (by simp [touched])) ?_
    exact fun _ => .pure _
  · refine .bind (step_local rfl (by simp [touched])) ?_
    exact fun _ => .pure _

variable {preserved : Option Path}

theorem takeRemote_moves :
    Moves (deskMachine blake3) (Local [localPath])
      (takeRemote syncFolder record localPath remotePath
        preserved) := by
  refine .bind downloadRemoteEntryToLocal_moves.attempt ?_
  intro r
  cases r with
  | ok done => exact .pure _
  | error e =>
      simp only
      split
      · exact acceptRemoteDelete_moves
      · exact .throw _

/- Whether there is a cloud version, or its deletion. -/
def Replaces (record : ConflictRecord) (w : Desktop) : Prop :=
  match w.tree record.fileId with
  | some entry =>
      ∃ contentRef, entry.contentRef = some contentRef ∧
        (w.blobs contentRef.storageKey).isSome
  | none => record.conflictType = "delete_edit"

/- The error does not make the command delete the file. -/
def Blocks (record : ConflictRecord) (e : DeskError) : Prop :=
  record.conflictType = "delete_edit" → e.saysDeleted = false

theorem getEntry_does
    [Std.Refl R] {fileId : FileId} :
    Does blake3 R (getEntry fileId) w fun r w' =>
      w' = w ∧
        ((∃ text, r = .error (.message text)) ∨
          match w.tree fileId with
          | some entry => r = .ok entry
          | none => r = .error .remoteDeleted) := by
  apply does_read rfl
  intro k b hServe
  cases k with
  | ok =>
      simp only [serveDesk] at hServe
      split at hServe <;> cases hServe
      · rename_i entry hEntry
        exact .inr (by simp [hEntry])
      · rename_i hEntry
        exact .inr (by simp [hEntry])
  | failed =>
      cases hServe
      exact .inl ⟨_, rfl⟩
  | _ => cases hServe

/- An object that is missing is not downloaded. -/
theorem download_blocked
    {key : String}
    (hMissing : w.blobs key = none) :
    Does blake3 (Local []) (Script.call (.download key target) id)
      w fun r _ => ∃ text, r = .error (.message text) := by
  apply along_call
  intro k b w' hServe
  unfold deskMachine at hServe
  cases k with
  | ok =>
      simp only [serveDesk, hMissing] at hServe
      cases hServe
      exact ⟨.refl _ w, _, rfl⟩
  | failed =>
      cases hServe
      exact ⟨.refl _ w, _, rfl⟩
  | partly bytes =>
      simp only [serveDesk, hMissing] at hServe
      cases hServe
  | _ => cases hServe

theorem contentOf_ok
    {contentRef : ContentRef}
    (h : contentOf record entry = .ok contentRef) :
    entry.contentRef = some contentRef := by
  unfold contentOf at h
  split at h <;> cases h
  assumption

theorem contentOf_error
    {e : DeskError}
    (h : contentOf record entry = .error e) :
    ∃ text, e = .message text := by
  unfold contentOf at h
  split at h <;> cases h
  exact ⟨_, rfl⟩

theorem downloadRemoteEntryToLocal_blocked
    (hBlocked : ¬ Replaces record w) :
    Does blake3 (Local [])
      (downloadRemoteEntryToLocal record localPath remotePath) w
      fun r _ => ∃ e, r = .error e ∧ Blocks record e := by
  have said {α : Type} {r : Except DeskError α} {text : String}
      (h : r = .error (.message text)) :
      ∃ e, r = .error e ∧ Blocks record e :=
    ⟨_, h, fun _ => rfl⟩
  unfold Replaces at hBlocked
  apply Along.bind getEntry_does
  · rintro entry _ w₁ _ ⟨rfl, ⟨text, hText⟩ | hEntry⟩
    · cases hText
    · split at hEntry <;> cases hEntry
      rename_i hEntry
      rw [hEntry] at hBlocked
      apply Along.bind (along_ofExcept (Q := fun r _ w' =>
        w' = w₁ ∧ r = contentOf record entry) ⟨rfl, rfl⟩)
      · rintro contentRef _ _ _ ⟨rfl, hOk⟩
        have hContent := contentOf_ok hOk.symm
        refine Along.bind (step_does rfl fun _ h => h) ?_ ?_
        · rintro _ _ w₂ hStep _
          have hMissing :
              w₂.blobs contentRef.storageKey = none := by
            rw [hStep.stored]
            by_contra hThere
            exact hBlocked ⟨contentRef, hContent,
              Option.isSome_iff_ne_none.mpr hThere⟩
          apply Along.bind newName_does
          · rintro tmpPath _ _ _ ⟨rfl, _⟩
            apply Along.bind (download_blocked hMissing)
            · rintro _ _ _ _ ⟨_, ⟨⟩⟩
            · rintro e _ _ _ ⟨text, ⟨⟩⟩
              exact said rfl
          · rintro _ _ _ _ ⟨_, _, ⟨⟩, _⟩
        · rintro e _ _ _ hText
          exact said (congrArg Except.error (hText e rfl))
      · rintro e _ _ _ ⟨_, hError⟩
        rcases contentOf_error hError.symm with ⟨text, rfl⟩
        exact said rfl
  · rintro e _ _ _ ⟨rfl, ⟨text, ⟨⟩⟩ | hEntry⟩
    · exact said rfl
    · split at hEntry <;> cases hEntry
      rename_i hEntry
      rw [hEntry] at hBlocked
      exact ⟨_, rfl, fun hType => absurd hType hBlocked⟩

theorem takeRemote_blocked
    (hBlocked : ¬ Replaces record w) :
    Does blake3 (Local [])
      (takeRemote syncFolder record localPath remotePath
        preserved) w fun _ _ => True := by
  unfold takeRemote
  apply Along.bind (P := fun r _ _ =>
    ∃ e, r = .ok (.error e) ∧ Blocks record e)
  · apply Along.attempt
    apply (downloadRemoteEntryToLocal_blocked hBlocked).mono
    rintro r _ w' _ ⟨e, rfl, hBlocks⟩
    exact ⟨e, rfl, hBlocks⟩
  · rintro r _ w' _ ⟨e, ⟨⟩, hBlocks⟩
    simp only
    split
    · rename_i hDeletes
      rw [Bool.and_eq_true, decide_eq_true_eq] at hDeletes
      rw [hBlocks hDeletes.1] at hDeletes
      exact absurd hDeletes.2 Bool.false_ne_true
    · exact along_throw trivial
  · exact fun _ _ _ _ _ => trivial

theorem local_framed
    {x : DeskM α}
    (hx : Moves (deskMachine blake3) (Local own) x) :
    Moves (deskMachine blake3) (Framed own) x :=
  fun v w => Along.widen (hx v w) (.refl _ w)
    fun _ h => h.toFramed

theorem commitLocalConflictWinner_moves
    {placement : Placement} :
    Moves (deskMachine blake3) (Framed [])
      (commitLocalConflictWinner record localPath remotePath
        placement) := by
  refine .bind (call_framed fun _ h => h) fun contentRef => ?_
  refine .bind (.attempt (call_framed fun _ h => h)) ?_
  intro found
  refine .bind (.ofExcept _) fun remoteEntry => ?_
  refine .bind (call_framed fun _ h => h) fun localEntry => ?_
  refine .bind (call_framed fun _ h => h) fun revisionId => ?_
  refine .bind (call_framed fun _ h => h) fun _ => ?_
  refine .bind (call_framed fun _ h => h) fun now => ?_
  refine .bind (call_framed fun _ h => h) fun _ => ?_
  refine .bind (call_framed fun _ h => h) fun _ => ?_
  refine .bind (call_framed fun _ h => h) fun _ => ?_
  exact call_framed fun _ h => h

/- Only a file that is missing is written here. -/
theorem restoreLocalVersion_moves :
    Moves (deskMachine blake3) (Local [])
      (restoreLocalVersion record localPath) := by
  intro v w
  apply Along.bind (exists_does localPath)
  · rintro there _ w₁ _ ⟨rfl, hThere⟩
    cases hThere
    split
    · exact along_pure trivial
    · rename_i hGone
      have hNone := nodeAt_of_not_exists (by simpa using hGone)
      apply Along.fresh _ hNone
      refine (Moves.bind ?_ fun known => ?_) () w₁
      · unfold recordedCopy
        split
        · exact .pure _
        · refine .bind (request_local rfl (by simp [touched])) ?_
          exact fun _ => .pure _
      · split
        · refine .bind (step_local rfl (by simp [touched])) ?_
          exact fun _ => step_local rfl fun _ h => h
        · exact .throw _
  · exact fun _ _ _ _ _ => trivial

theorem keepLocal_moves :
    Moves (deskMachine blake3) (Framed [])
      (keepLocal syncFolder record localPath remotePath) := by
  refine .bind (local_framed restoreLocalVersion_moves) ?_
  intro _
  refine .bind (call_framed fun _ h => h) fun _ => ?_
  refine .bind (call_framed fun _ h => h) fun placement => ?_
  refine .bind commitLocalConflictWinner_moves fun _ => ?_
  exact .bind (call_framed fun _ h => h) fun _ => .pure _

theorem registerPendingUploadForPath_moves
    {s3Key : Text} :
    Moves (deskMachine blake3) (Local [])
      (registerPendingUploadForPath localPath s3Key) := by
  refine .bind (ask_local rfl fun _ h => h) fun _ => ?_
  refine .bind (request_local rfl fun _ h => h) fun fileId => ?_
  refine .bind (request_local rfl fun _ h => h) fun _ => ?_
  refine .bind (step_local rfl fun _ h => h) fun _ => ?_
  exact step_local rfl fun _ h => h

/- What follows when the cloud version was taken. -/
def afterTaken
    (syncFolder : Path)
    (resolution : Resolution)
    (preserved taken : Option Path) : DeskM (Option Path) :=
  match resolution, preserved with
  | .keepBoth, some copyPath => do
      let key ← conflictCopyS3Key syncFolder copyPath
      registerPendingUploadForPath copyPath key
      step .indexWrite id "complete conflict transfers"
      pure preserved
  | .keepBoth, none => do
      step .indexWrite id "complete conflict transfers"
      pure preserved
  | _, _ => do
      step .indexWrite id "complete conflict transfers"
      pure taken

/- What the choices of the cloud version have in common. -/
def giveUpLocal
    (syncFolder : Path)
    (record : ConflictRecord)
    (localPath : Path)
    (remotePath : Text)
    (resolution : Resolution) : DeskM (Option Path) := do
  let preserved ← ensureLocalConflictCopy syncFolder record
    localPath remotePath
  let taken ← takeRemote syncFolder record localPath remotePath
    preserved
  afterTaken syncFolder resolution preserved taken

/- The other two choices preserve, take, and go on. -/
theorem resolveAs_eq
    {resolution : Resolution}
    (h : resolution ≠ .keepLocal) :
    resolveAs syncFolder record localPath remotePath resolution =
      giveUpLocal syncFolder record localPath remotePath
        resolution := by
  cases resolution with
  | keepLocal => exact absurd rfl h
  | keepRemote => rfl
  | keepBoth =>
      refine congrArg (Bind.bind _) (funext fun preserved => ?_)
      cases preserved <;> rfl

theorem afterTaken_moves
    {resolution : Resolution} {preserved taken : Option Path} :
    Moves (deskMachine blake3) (Local [])
      (afterTaken syncFolder resolution preserved taken) := by
  unfold afterTaken
  split
  · refine .bind ?_ fun key => ?_
    · refine .bind (step_local rfl fun _ h => h) fun _ => ?_
      split
      · exact .pure _
      · exact .throw _
    · refine .bind registerPendingUploadForPath_moves fun _ => ?_
      exact .bind (step_local rfl fun _ h => h) fun _ => .pure _
  · exact .bind (step_local rfl fun _ h => h) fun _ => .pure _
  · exact .bind (step_local rfl fun _ h => h) fun _ => .pure _

------------------------------------------------------------
-- The Whole Command
------------------------------------------------------------

variable {s s' : Desktop} {resolution : Resolution}
variable {conflictId : Text}

/-
  A path that the command may take for the local path. It
  reads the index, and goes on without it when that fails.
-/
def LocalPath
    (syncFolder : Path)
    (record : ConflictRecord)
    (s : Desktop)
    (p : Path) : Prop :=
  ∃ row, (row = none ∨ row = s.index record.fileId) ∧
    conflictLocalPath syncFolder row record = .ok p

/- Every file is kept, or it was local and is preserved. -/
def VersionsKept
    (syncFolder : Path)
    (record : ConflictRecord)
    (s s' : Desktop) : Prop :=
  ∀ p body, fileAt s.disk p = some body →
    fileAt s'.disk p = some body ∨
      (LocalPath syncFolder record s p ∧
        Preserved record s' p body)

/- The local file is given up without another look at it. -/
structure Endangered
    (syncFolder : Path)
    (record : ConflictRecord)
    (resolution : Resolution)
    (s : Desktop)
    (p : Path)
    (body : Bytes) : Prop where
  given : resolution ≠ .keepLocal
  inside : p ≠ syncFolder
  recorded : CopyExists record s.disk
  nowhere : ¬ Preserved record s p body
  replaced : Replaces record s

theorem Framed.versionsKept
    (h : Framed [] s s') : VersionsKept syncFolder record s s' :=
  fun p body hFile => .inl (h.disk p body List.not_mem_nil hFile)

/- The local file may change once its bytes are preserved. -/
theorem Framed.versionsKept_but
    (h : Framed [localPath] s s')
    (hPath : LocalPath syncFolder record s localPath)
    (hPreserved :
      ∀ body, fileAt s.disk localPath = some body →
        Preserved record s' localPath body) :
    VersionsKept syncFolder record s s' := by
  intro p body hFile
  by_cases hSame : p = localPath
  · subst hSame
    exact .inr ⟨hPath, hPreserved body hFile⟩
  · exact .inl (h.disk p body (by simpa using hSame) hFile)

theorem Local.framed_but
    (h : Local [] w w') : Framed [localPath] w w' :=
  h.toFramed.widen (by simp)

theorem taken_moves :
    Moves (deskMachine blake3) (Local [localPath])
      (do
        let taken ← takeRemote syncFolder record localPath
          remotePath preserved
        afterTaken syncFolder resolution preserved taken) := by
  refine .bind takeRemote_moves fun taken v w => ?_
  exact Along.widen (afterTaken_moves v w) (.refl _ w)
    fun _ h => h.widen (by simp)

theorem giveUpLocal_moves :
    Moves (deskMachine blake3) (Local [localPath])
      (giveUpLocal syncFolder record localPath remotePath
        resolution) :=
  .bind ensureLocalConflictCopy_moves fun _ => taken_moves

/- Without a cloud version the local file stays. -/
theorem giveUpLocal_blocked
    (hBlocked : ¬ Replaces record w) :
    Does blake3 (Local [])
      (giveUpLocal syncFolder record localPath remotePath
        resolution) w fun _ _ => True := by
  refine Along.bind (ensureLocalConflictCopy_moves () w) ?_ ?_
  · intro preserved _ w' hStep _
    have hBlocked' : ¬ Replaces record w' := by
      unfold Replaces at hBlocked ⊢
      rw [hStep.tree, hStep.stored]
      exact hBlocked
    refine Along.bind (takeRemote_blocked hBlocked') ?_ ?_
    · exact fun taken v w'' _ _ => afterTaken_moves v w''
    · exact fun _ _ _ _ _ => trivial
  · exact fun _ _ _ _ _ => trivial

/- The copy is made before the local file is touched. -/
theorem giveUpLocal_copied
    (hPath : LocalPath syncFolder record s localPath)
    (hFree : ¬ CopyExists record s.disk) :
    Stays (deskMachine blake3) (VersionsKept syncFolder record s)
      (giveUpLocal syncFolder record localPath remotePath
        resolution) () s := by
  apply Along.stays_bind ensureLocalConflictCopy_preserves
  · exact fun _ h => h.versionsKept
  · intro preserved _ w hBefore hPreserved
    apply (taken_moves () w).stays
    intro w' hAfter
    refine (hBefore.framed_but.trans
      hAfter.toFramed).versionsKept_but hPath ?_
    intro body hFile
    exact (hPreserved hFree preserved rfl body hFile).framed
      hAfter.toFramed

/-
  The command from where its local path is known, in a world
  that its steps so far have led to.
-/
theorem resolveAs_stays
    (hPath : LocalPath syncFolder record s localPath)
    (hBefore : Framed [] s w)
    (hSafe :
      ∀ body, fileAt s.disk localPath = some body →
        w = s ∧ localPath ≠ syncFolder ∧
          ¬ Endangered syncFolder record resolution s localPath
            body) :
    Stays (deskMachine blake3) (VersionsKept syncFolder record s)
      (resolveAs syncFolder record localPath remotePath
        resolution) () w := by
  by_cases hLocal : resolution = .keepLocal
  · subst hLocal
    apply (keepLocal_moves () w).stays
    exact fun _ h => (hBefore.trans h).versionsKept
  rw [resolveAs_eq hLocal]
  cases hFile : fileAt s.disk localPath with
  | none =>
      apply (giveUpLocal_moves () w).stays
      intro w' h
      apply ((hBefore.widen (by simp)).trans
        h.toFramed).versionsKept_but hPath
      simp [hFile]
  | some body =>
      rcases hSafe body hFile with ⟨rfl, hInside, hSafe⟩
      by_cases hCopy : CopyExists record w.disk
      · by_cases hPreserved : Preserved record w localPath body
        · apply (giveUpLocal_moves () w).stays
          intro w' h
          apply h.toFramed.versionsKept_but hPath
          intro body' hFile'
          cases hFile.symm.trans hFile'
          exact hPreserved.framed h.toFramed
        · have hBlocked : ¬ Replaces record w := fun hReplaces =>
            hSafe ⟨hLocal, hInside, hCopy, hPreserved, hReplaces⟩
          apply (giveUpLocal_blocked hBlocked).stays
          exact fun _ h => h.versionsKept
      · exact giveUpLocal_copied hPath hCopy

/- The first step of the command makes the local folder. -/
theorem prepareSyncFolder_does
    {text : String}
    (hRooted : s.disk.Rooted) :
    Does blake3 (Local [])
      (step (.prepareSyncFolder syncFolder) id text) s
      fun r w => r = .ok () →
        fileAt s.disk syncFolder = none ∧
          (∃ disk, w = { s with disk := disk }) ∧
          (isDir s.disk syncFolder = true → w = s) := by
  apply along_call
  intro k made w hServe
  refine ⟨serve_local rfl hServe, fun hOk => ?_⟩
  unfold deskMachine at hServe
  cases made with
  | false => cases hOk
  | true =>
      cases k with
      | ok =>
          simp only [serveDesk, Option.some.injEq] at hServe
          cases hMade : createDirAll s.disk syncFolder with
          | none =>
              rw [hMade] at hServe
              cases hServe
          | some d =>
              rw [hMade] at hServe
              cases hServe
              refine ⟨no_file_of_createDirAll hRooted hMade,
                ⟨d, rfl⟩, ?_⟩
              intro hDir
              rw [createDirAll_of_isDir hRooted hDir] at hMade
              cases hMade
              rfl
      | _ => cases hServe

theorem openConflicts_does
    [Std.Refl R] {text : String} :
    Does blake3 R (ask .openConflicts id text) w
      fun r w' => w' = w ∧
        ∀ conflicts, r = .ok conflicts →
          conflicts = w.conflicts := by
  apply does_read rfl
  rintro k b hServe conflicts hOk
  cases k <;> cases hServe <;> cases hOk
  rfl

theorem indexRow_does
    [Std.Refl R] {fileId : FileId} :
    Does blake3 R (Script.request (DeskReq.indexRow fileId)) w
      fun r w' => w' = w ∧
        ∃ row, r = .ok row ∧
          (row = none ∨ row = w.index fileId) := by
  have hRead :
      Does blake3 R (Script.call (DeskReq.indexRow fileId) .ok) w
        fun r w' => w' = w ∧
          ∃ row, r = .ok row ∧
            (row = none ∨ row = w.index fileId) := by
    apply does_read rfl
    intro k b hServe
    cases k <;> cases hServe
    · exact ⟨_, rfl, .inr rfl⟩
    · exact ⟨_, rfl, .inl rfl⟩
  exact hRead

theorem safeJoin_prefix
    {remotePath : Text}
    (h :
      safeJoinDesktopSyncPath syncFolder remotePath = .ok p) :
    syncFolder <+: p := by
  unfold safeJoinDesktopSyncPath at h
  split at h <;> cases h
  exact List.prefix_append _ _

/- The local path is the local folder or inside of it. -/
theorem LocalPath.prefix
    (h : LocalPath syncFolder record s p) : syncFolder <+: p := by
  rcases h with ⟨row, _, h⟩
  unfold conflictLocalPath at h
  simp only at h
  split at h
  · split at h
    · cases h
    · split at h <;> cases h
      assumption
  · split at h
    · cases h
    · exact safeJoin_prefix h

theorem VersionsKept.framed
    (h : VersionsKept syncFolder record s w)
    (hFrame : Framed [] w w') :
    VersionsKept syncFolder record s w' := by
  intro p body hFile
  rcases h p body hFile with hThere | ⟨hPath, hPreserved⟩
  · exact .inl (hFrame.disk p body List.not_mem_nil hThere)
  · exact .inr ⟨hPath,
      hPreserved.framed (hFrame.widen (by simp))⟩

theorem resolveConflict_stays
    (blake3 : Bytes → Bytes)
    (hRooted : s.disk.Rooted)
    (hOpen : findOpenConflict s.conflicts conflictId = .ok record)
    (hSafe :
      ∀ p body, LocalPath syncFolder record s p →
        fileAt s.disk p = some body →
        ¬ Endangered syncFolder record resolution s p body) :
    Stays (deskMachine blake3) (VersionsKept syncFolder record s)
      (resolveConflict syncFolder conflictId resolution) () s := by
  apply Along.stays_bind (prepareSyncFolder_does hRooted)
  · exact fun _ h => h.versionsKept
  rintro ⟨⟩ ⟨⟩ w hBefore hPrepared
  have hKept {w' : Desktop} (h : Local [] w w') :
      VersionsKept syncFolder record s w' :=
    (hBefore.trans h).versionsKept
  rcases hPrepared rfl with ⟨hFolder, ⟨disk, hDisk⟩, hSame⟩
  apply Along.stays_bind openConflicts_does fun _ => hKept
  rintro conflicts ⟨⟩ _ _ ⟨rfl, hConflicts⟩
  apply Along.stays_bind
    (along_ofExcept (Q := fun r _ w' =>
      w' = _ ∧ r = findOpenConflict conflicts conflictId)
      ⟨rfl, rfl⟩) fun _ => hKept
  rintro found ⟨⟩ _ _ ⟨rfl, hFound⟩
  have hRecord : found = record := by
    rw [hConflicts conflicts rfl, hDisk, hOpen] at hFound
    exact Except.ok.inj hFound
  subst hRecord
  apply Along.stays_bind
    (does_read (P := fun _ => True) rfl fun _ _ _ => trivial)
    fun _ => hKept
  rintro ⟨⟩ ⟨⟩ _ _ ⟨rfl, _⟩
  apply Along.stays_bind indexRow_does fun _ => hKept
  rintro row ⟨⟩ _ _ ⟨rfl, _, ⟨⟩, hRow⟩
  apply Along.stays_bind
    (along_ofExcept (Q := fun r _ w' =>
      w' = _ ∧ r = conflictLocalPath syncFolder row found)
      ⟨rfl, rfl⟩) fun _ => hKept
  rintro localPath ⟨⟩ _ _ ⟨rfl, hLocal⟩
  apply Along.stays_bind indexRow_does fun _ => hKept
  rintro row' ⟨⟩ _ _ ⟨rfl, _⟩
  apply Along.stays_bind
    (along_ofExcept (Q := fun _ _ w' => w' = _) rfl)
    fun _ => hKept
  rintro remotePath ⟨⟩ _ _ rfl
  have hPath : LocalPath syncFolder found s localPath := by
    refine ⟨row, ?_, hLocal.symm⟩
    rwa [hDisk] at hRow
  apply Stays.bind
  · apply resolveAs_stays hPath hBefore.toFramed
    intro body hFile
    have hInside : localPath ≠ syncFolder := by
      rintro rfl
      rw [hFolder] at hFile
      cases hFile
    refine ⟨hSame ?_, hInside, hSafe localPath body hPath hFile⟩
    exact isDir_above hRooted hPath.prefix hInside hFile
  · intro taken _ w' hResolved
    have hFinish :
        Moves (deskMachine blake3) (Local []) (do
          step (.resolve conflictId) id "resolve conflict"
          pure taken) :=
      .bind (step_local rfl fun _ h => h) fun _ => .pure _
    exact (hFinish () w').stays
      fun _ h => hResolved.framed h.toFramed

end Conflicts

end S4Drive

import S4Drive.Sync.LocalIndex

/-
  A file is skipped while its size and mtime are those of a
  synced row. The mtime of a row is read when the row is
  written, not when its content was hashed, so an edit that
  comes in between is taken for the synced content. As long
  as no row is written over such an edit, a fingerprint that
  matches stands for the recorded hash, whatever the user
  and the threads of the engine do.

  Main declarations:
    * `Unedited`, `FingerprintsOk`
    * `IndexUpdate.Records`, `fingerprintLimits`
    * `fingerprints_are_sound`
    * `edit_before_finish_is_hidden`
-/

------------------------------------------------------------
-- Sound Rows
------------------------------------------------------------

namespace S4Drive

open Concurrency

variable {blake3 : List UInt8 → String}
variable {w w' : IndexWorld}
variable {path : LocalPath} {size : Nat}
variable {mtime : Option Nat} {hash : Option String}

/-
  No file of this size, with this mtime, has other bytes
  than those of the hash.
-/
def Unedited
    (blake3 : List UInt8 → String)
    (w : IndexWorld)
    (mtime : Option Nat)
    (size : Nat)
    (hash : Option String) : Prop :=
  ∀ x ∈ w.disk, mtime = some x.2.mtime →
    x.2.bytes.length = size →
      contentHashMatches hash (blake3 x.2.bytes) = true

instance
    (w : IndexWorld) :
    Decidable (Unedited blake3 w mtime size hash) :=
  inferInstanceAs (Decidable (∀ x ∈ w.disk, _))

def RowSound
    (blake3 : List UInt8 → String)
    (w : IndexWorld)
    (row : IndexRow) : Prop :=
  row.state = .synced →
    Unedited blake3 w row.localMtime row.size row.localHash

/- The clock is ahead of every mtime that is known. -/
structure FingerprintsOk
    (blake3 : List UInt8 → String)
    (w : IndexWorld) : Prop where
  rows : ∀ row ∈ w.objects, RowSound blake3 w row
  disk : ∀ x ∈ w.disk, x.2.mtime ≤ w.clock
  known :
    ∀ row ∈ w.objects, ∀ m, row.localMtime = some m →
      m ≤ w.clock

theorem mem_of_fileAt
    {file : LocalFile}
    (h : w.fileAt path = some file) :
    (path, file) ∈ w.disk := by
  unfold IndexWorld.fileAt at h
  rcases Option.map_eq_some_iff.mp h with ⟨x, hFind, rfl⟩
  have hPath := List.find?_some hFind
  simp only [decide_eq_true_eq] at hPath
  rw [← hPath]
  exact List.mem_of_find?_eq_some hFind

/- Where every file was there before, nothing was edited. -/
theorem Unedited.of_files
    (h : Unedited blake3 w mtime size hash)
    (hFiles : ∀ x ∈ w'.disk, ∃ y ∈ w.disk, y.2 = x.2) :
    Unedited blake3 w' mtime size hash := by
  intro x hx hMtime hSize
  rcases hFiles x hx with ⟨y, hy, hSame⟩
  rw [← hSame] at hMtime hSize ⊢
  exact h y hy hMtime hSize

namespace FingerprintsOk

variable {w : IndexWorld} {file : LocalFile}

/- Files that are moved or removed. -/
theorem of_files
    (h : FingerprintsOk blake3 w)
    {disk : List (LocalPath × LocalFile)}
    (hFiles : ∀ x ∈ disk, ∃ y ∈ w.disk, y.2 = x.2) :
    FingerprintsOk blake3 { w with disk := disk } where
  rows := fun row hRow hSynced =>
    (h.rows row hRow hSynced).of_files hFiles
  disk := by
    intro x hx
    rcases hFiles x hx with ⟨y, hy, hSame⟩
    rw [← hSame]
    exact h.disk y hy
  known := h.known

theorem removeFile
    (h : FingerprintsOk blake3 w)
    (path : LocalPath) :
    FingerprintsOk blake3 (w.removeFile path) :=
  h.of_files fun x hx => ⟨x, (List.mem_filter.mp hx).1, rfl⟩

theorem moveFile
    (h : FingerprintsOk blake3 w)
    {source : LocalPath}
    (hFile : w.fileAt source = some file)
    (target : LocalPath) :
    FingerprintsOk blake3
      ((w.removeFile source).putFile target file) := by
  apply h.of_files
  intro x hx
  rcases List.mem_cons.mp hx with rfl | hx
  · exact ⟨(source, file), mem_of_fileAt hFile, rfl⟩
  · have hRest := (List.mem_filter.mp hx).1
    exact ⟨x, (List.mem_filter.mp hRest).1, rfl⟩

/- A new mtime is in no row. -/
theorem writeFile
    (h : FingerprintsOk blake3 w)
    (path : LocalPath)
    (bytes : List UInt8)
    (key : String) :
    FingerprintsOk blake3 (w.writeFile path bytes key) where
  rows := by
    intro row hRow hSynced x hx hMtime hSize
    rcases List.mem_cons.mp hx with rfl | hx
    · have hKnown := h.known row hRow _ hMtime
      dsimp only at hKnown
      omega
    · exact h.rows row hRow hSynced x
        (List.mem_filter.mp hx).1 hMtime hSize
  disk := by
    intro x hx
    rcases List.mem_cons.mp hx with rfl | hx
    · exact Nat.le_refl _
    · have hOld := h.disk x (List.mem_filter.mp hx).1
      exact Nat.le_succ_of_le hOld
  known := fun row hRow m hm =>
    Nat.le_succ_of_le (h.known row hRow m hm)

/- Rows that are new, with rows that were there before. -/
theorem of_rows
    (h : FingerprintsOk blake3 w)
    {rows : List IndexRow}
    (hRows :
      ∀ row ∈ rows, row ∈ w.objects ∨
        (RowSound blake3 w row ∧
          ∀ m, row.localMtime = some m → m ≤ w.clock)) :
    FingerprintsOk blake3 { w with objects := rows } where
  rows := by
    intro row hRow
    rcases hRows row hRow with hOld | hNew
    · exact h.rows row hOld
    · exact hNew.1
  disk := h.disk
  known := by
    intro row hRow
    rcases hRows row hRow with hOld | hNew
    · exact h.known row hOld
    · exact hNew.2

theorem mapRows
    (h : FingerprintsOk blake3 w)
    {p : IndexRow → Bool}
    {f : IndexRow → IndexRow}
    (hRows :
      ∀ row ∈ w.objects, p row = true →
        RowSound blake3 w (f row) ∧
          ∀ m, (f row).localMtime = some m → m ≤ w.clock) :
    FingerprintsOk blake3 (w.mapRows p f) := by
  apply h.of_rows
  intro row hRow
  rcases List.mem_map.mp hRow with ⟨old, hOld, rfl⟩
  split
  · exact .inr (hRows old hOld ‹_›)
  · exact .inl hOld

/- The mtime of a file on the disk. -/
theorem mtimeAt_le
    (h : FingerprintsOk blake3 w)
    {m : Nat}
    (hMtime : w.mtimeAt path = some m) : m ≤ w.clock := by
  unfold IndexWorld.mtimeAt at hMtime
  rcases Option.map_eq_some_iff.mp hMtime with
    ⟨file, hFile, rfl⟩
  exact h.disk _ (mem_of_fileAt hFile)

theorem writeFileIndex
    (h : FingerprintsOk blake3 w)
    {entry : IndexEntry}
    {state : IndexState}
    (hEntry :
      state = .synced →
        Unedited blake3 w (w.mtimeAt path) entry.size
          entry.contentHash) :
    FingerprintsOk blake3
      (w.writeFileIndex entry path state) := by
  apply h.of_rows
  intro row hRow
  rcases List.mem_cons.mp hRow with rfl | hOld
  · exact .inr ⟨hEntry, fun m hm => h.mtimeAt_le hm⟩
  · exact .inl (List.mem_filter.mp hOld).1

end FingerprintsOk

/-
  The statement records no edit: where it leaves a synced
  row with a new size, hash or mtime, the file that has this
  size and mtime has the bytes of the hash.
-/
def IndexUpdate.Records
    (blake3 : List UInt8 → String)
    (binding : Bool)
    (w : IndexWorld) : IndexUpdate → Prop
  | register entry path state =>
      state = .synced →
        Unedited blake3 w (w.mtimeAt path) entry.size
          entry.contentHash
  | finishUpload job entry contentMatches =>
      uploadIsCurrent job contentMatches binding = true →
        Unedited blake3 w (w.mtimeAt (w.uploadPlace job))
          entry.size entry.contentHash
  | setState fileId state =>
      state = .synced →
        ∀ row ∈ w.objects, row.fileId = fileId →
          Unedited blake3 w row.localMtime row.size
            row.localHash
  | setContent fileId size hash =>
      ∀ row ∈ w.objects, row.fileId = fileId →
        Unedited blake3 w row.localMtime size (some hash)
  | rebuildIdentity entry _ state =>
      state = .synced →
        ∀ row ∈ w.objects, row.fileId = entry.fileId →
          Unedited blake3 w row.localMtime entry.size
            entry.contentHash
  | replaceIdentity entry _ state =>
      ∀ row ∈ w.objects, row.fileId = entry.fileId →
        replacedState row.state state = .synced →
          Unedited blake3 w row.localMtime entry.size
            row.localHash
  | _ => True

/- The same for a new mtime of the rows of a path. -/
def RecordsMtime
    (blake3 : List UInt8 → String)
    (w : IndexWorld)
    (path : LocalPath)
    (mtime : Option Nat) : Prop :=
  ∀ row ∈ w.objects, row.localPath = path →
    row.state = .synced →
      Unedited blake3 w mtime row.size row.localHash

/- A statement that records no edit keeps the rows sound. -/
theorem FingerprintsOk.apply
    (h : FingerprintsOk blake3 w)
    {binding : Bool}
    {change : IndexUpdate}
    (hRecords : change.Records blake3 binding w) :
    FingerprintsOk blake3 (change.apply binding w) := by
  cases change with
  | register entry path state =>
      exact h.writeFileIndex hRecords
  | finishUpload job entry contentMatches =>
      unfold IndexUpdate.apply
      dsimp only
      split
      · rename_i hCurrent
        exact h.writeFileIndex fun _ => hRecords hCurrent
      · exact h
  | setState fileId state =>
      apply h.mapRows
      intro row hRow hId
      simp only [decide_eq_true_eq] at hId
      exact ⟨fun hSynced => hRecords hSynced row hRow hId,
        h.known row hRow⟩
  | setContent fileId size hash =>
      apply h.mapRows
      intro row hRow hId
      simp only [decide_eq_true_eq] at hId
      exact ⟨fun _ => hRecords row hRow hId,
        h.known row hRow⟩
  | setPlace fileId path =>
      apply h.mapRows
      intro row hRow _
      exact ⟨h.rows row hRow, h.known row hRow⟩
  | insertIdentity entry path state =>
      unfold IndexUpdate.apply
      dsimp only
      split
      · exact h
      · apply h.of_rows
        intro row hRow
        rcases List.mem_cons.mp hRow with rfl | hOld
        · refine .inr ⟨?_, ?_⟩
          · intro _ x _ hMtime
            cases hMtime
          · intro m hm
            cases hm
        · exact .inl hOld
  | rebuildIdentity entry path state =>
      apply h.mapRows
      intro row hRow hId
      simp only [decide_eq_true_eq] at hId
      exact ⟨fun hSynced => hRecords hSynced row hRow hId,
        h.known row hRow⟩
  | replaceIdentity entry path state =>
      apply h.mapRows
      intro row hRow hId
      simp only [decide_eq_true_eq] at hId
      exact ⟨fun hSynced => hRecords row hRow hId hSynced,
        h.known row hRow⟩
  | remove fileId =>
      apply h.of_rows
      exact fun row hRow => .inl (List.mem_filter.mp hRow).1

theorem FingerprintsOk.setMtime
    (h : FingerprintsOk blake3 w)
    {key : Option String}
    (hRecords : RecordsMtime blake3 w path mtime)
    (hKnown : ∀ m, mtime = some m → m ≤ w.clock) :
    FingerprintsOk blake3 (w.setMtime path mtime key) := by
  apply h.mapRows
  intro row hRow hPath
  simp only [decide_eq_true_eq] at hPath
  exact ⟨fun hSynced => hRecords row hRow hPath hSynced,
    hKnown⟩

------------------------------------------------------------
-- Steps
------------------------------------------------------------

/- What a request may record. -/
def RecordsReq
    (blake3 : List UInt8 → String)
    (r : IndexReq)
    (choice : IndexChoice)
    (w : IndexWorld) : Prop :=
  match r, choice with
  | .update change, .answer binding =>
      change.Records blake3 binding w
  | .setMtime path mtime _, .done =>
      RecordsMtime blake3 w path mtime
  | _, _ => True

/- The mtime that a request carries was read before. -/
def CarriesKnown (w : IndexWorld) : IndexReq → Prop
  | .setMtime _ mtime _ => ∀ m, mtime = some m → m ≤ w.clock
  | _ => True

theorem writeFile_clock
    {bytes : List UInt8} {key : String} :
    w.clock ≤ (w.writeFile path bytes key).clock :=
  Nat.le_succ _

theorem apply_clock
    {binding : Bool}
    {change : IndexUpdate} :
    (change.apply binding w).clock = w.clock := by
  cases change with
  | finishUpload job entry contentMatches =>
      unfold IndexUpdate.apply
      dsimp only
      split <;> rfl
  | insertIdentity entry path state =>
      unfold IndexUpdate.apply
      dsimp only
      split <;> rfl
  | _ => rfl

/- One request keeps the rows sound. -/
theorem serve_fingerprints
    {r : IndexReq}
    {choice : IndexChoice}
    {b : IndexResp r}
    (h : FingerprintsOk blake3 w)
    (hRecords : RecordsReq blake3 r choice w)
    (hKnown : CarriesKnown w r)
    (hServe : serveIndex blake3 r choice w = some (b, w')) :
    FingerprintsOk blake3 w' ∧ w.clock ≤ w'.clock := by
  unfold serveIndex serveFound at hServe
  split at hServe
  · cases hServe
    exact ⟨h, Nat.le_refl _⟩
  · split at hServe
    case h_5 =>
      cases hServe
      exact ⟨h.apply hRecords, Nat.le_of_eq apply_clock.symm⟩
    case h_6 =>
      cases hServe
      exact ⟨h.setMtime hRecords hKnown, Nat.le_refl _⟩
    case h_7 =>
      cases hServe
      exact ⟨h.writeFile _ _ _, writeFile_clock⟩
    case h_9 =>
      split at hServe
      · cases hServe
        exact ⟨h.writeFile _ _ _, writeFile_clock⟩
      · cases hServe
    case h_10 =>
      split at hServe
      · rename_i hFile
        cases hServe
        exact ⟨h.moveFile hFile _, Nat.le_refl _⟩
      · cases hServe
    case h_2 =>
      split at hServe
      · cases hServe
        exact ⟨h, Nat.le_refl _⟩
      · cases hServe
    all_goals
      cases hServe
    all_goals
      exact ⟨h, Nat.le_refl _⟩

/- The mtime in the metadata of a file. -/
theorem metadata_served
    {choice : IndexChoice}
    {found : Option FileMetadata}
    (hServe :
      serveIndex blake3 (.metadata path) choice w =
        some (.ok found, w')) :
    found.map FileMetadata.mtime = w.mtimeAt path := by
  cases choice with
  | done =>
      cases hServe
      unfold IndexWorld.mtimeAt
      cases w.fileAt path <;> rfl
  | _ => cases hServe

/- The user may do anything. -/
theorem user_fingerprints
    {action : UserAction}
    (h : FingerprintsOk blake3 w)
    (hApply : action.apply w = some w') :
    FingerprintsOk blake3 w' ∧ w.clock ≤ w'.clock := by
  cases action with
  | write path bytes key =>
      cases hApply
      exact ⟨h.writeFile path bytes key, writeFile_clock⟩
  | remove path =>
      cases hApply
      exact ⟨h.removeFile path, Nat.le_refl _⟩
  | move source target =>
      rcases Option.map_eq_some_iff.mp hApply with
        ⟨file, hFile, rfl⟩
      exact ⟨h.moveFile hFile target, Nat.le_refl _⟩

def fingerprintContract
    (blake3 : List UInt8 → String) :
    Contract IndexReq IndexChoice IndexWorld Tid where
  Inv := FingerprintsOk blake3
  Rely := fun _ w w' => w.clock ≤ w'.clock
  Admits := fun _ => RecordsReq blake3
  rely_refl := fun _ _ => Nat.le_refl _
  rely_trans := Nat.le_trans

/- Scripts that a thread may run at any time. -/
def Harmless
    (blake3 : List UInt8 → String)
    {α : Type}
    (x : IndexM α) : Prop :=
  ∀ t w,
    Meets (indexMachine blake3) (fingerprintContract blake3)
      t x () (fun _ _ _ => True) w

namespace Harmless

variable {α γ : Type}

theorem pure (a : α) :
    Harmless blake3 (Pure.pure a : IndexM α) :=
  fun _ => Safe.pure a ()

theorem throw (e : CoreError) :
    Harmless blake3 (Script.throw e : IndexM α) :=
  fun _ => Safe.throw e ()

theorem bind
    {x : IndexM α}
    {f : α → IndexM γ}
    (hx : Harmless blake3 x)
    (hf : ∀ a, Harmless blake3 (f a)) :
    Harmless blake3 (x >>= f) := by
  intro t
  apply Safe.bind
  · exact fun _ => hx t
  · exact fun a _ => hf a t

theorem attempt
    {x : IndexM α}
    (hx : Harmless blake3 x) :
    Harmless blake3 (Script.attempt x) :=
  fun t => Safe.attempt (fun _ => hx t) ()

/- A request that carries no mtime. -/
theorem ask
    {r : IndexReq}
    (hKnown : ∀ w, CarriesKnown w r) :
    Harmless blake3 (IndexM.ask r) := by
  intro t w
  apply meets_call
  intro w₁ _ hInv choice b w₂ hRecords hServe
  have hServed :=
    serve_fingerprints hInv hRecords (hKnown w₁) hServe
  exact ⟨⟨hServed.1, fun _ _ => hServed.2⟩,
    fun _ _ _ => trivial⟩

theorem read
    {r : IndexReq}
    {f : IndexAnswer r → IndexM γ}
    (hf : ∀ a, Harmless blake3 (f a))
    (hKnown : ∀ w, CarriesKnown w r) :
    Harmless blake3 (IndexM.ask r >>= f) :=
  bind (ask hKnown) hf

/- The mtime of a file is known when it has been read. -/
theorem updateLocalMtimeByPath (path : LocalPath) :
    Harmless blake3 (S4Drive.updateLocalMtimeByPath path) := by
  intro t w
  apply meets_bind
  apply meets_call
  intro w₁ _ hInv choice b w₂ hRecords hServe
  have hServed :=
    serve_fingerprints (r := .metadata path) hInv hRecords
      trivial hServe
  refine ⟨⟨hServed.1, fun _ _ => hServed.2⟩, ?_⟩
  intro w₃ hRely _
  cases b with
  | error e => exact trivial
  | ok found =>
      have hMtime :
          ∀ m, found.map FileMetadata.mtime = some m →
            m ≤ w₃.clock := by
        intro m hm
        have hFound := metadata_served hServe
        have hKnown :=
          hInv.mtimeAt_le (hFound.symm.trans hm)
        have hLater := hServed.2
        exact Nat.le_trans hKnown (Nat.le_trans hLater hRely)
      apply continues_ok
      apply meets_call
      intro w₄ hRely' hInv' choice' b' w₅ hRecords' hServe'
      have hServed' :=
        serve_fingerprints hInv' hRecords'
          (fun m hm => Nat.le_trans (hMtime m hm) hRely')
          hServe'
      exact ⟨⟨hServed'.1, fun _ _ => hServed'.2⟩,
        fun _ _ _ => trivial⟩

end Harmless

------------------------------------------------------------
-- Calls
------------------------------------------------------------

theorem followMove_harmless (path : LocalPath) :
    Harmless blake3 (followMove path) := by
  refine .read (fun place => ?_) fun _ => trivial
  cases place with
  | none => exact .pure _
  | some place =>
      exact .read (fun _ => .pure _) fun _ => trivial

theorem registerPending_harmless
    (entry : IndexEntry)
    (path : LocalPath) :
    Harmless blake3 (registerPending entry path) := by
  refine .read (fun _ => ?_) fun _ => trivial
  exact .read (fun _ => .pure _) fun _ => trivial

theorem registerNew_harmless
    (path : LocalPath)
    (size : Nat)
    (hash : String) :
    Harmless blake3 (registerNew path size hash) := by
  refine .read (fun left => ?_) fun _ => trivial
  split
  · exact .pure _
  · exact .read (fun _ => registerPending_harmless _ _)
        fun _ => trivial

theorem queueChanged_harmless
    (scanning : Bool)
    (path : LocalPath)
    (size : Nat)
    (hash : String)
    (existing : Option IndexRow) :
    Harmless blake3
      (queueChanged scanning path size hash existing) := by
  unfold queueChanged
  split
  · apply Harmless.bind (followMove_harmless path)
    intro moved
    split
    · exact registerNew_harmless path size hash
    · exact registerPending_harmless _ _
  · split
    · exact registerNew_harmless path size hash
    · apply Harmless.bind (followMove_harmless path)
      intro moved
      split
      · exact .pure _
      · exact registerNew_harmless path size hash

theorem queueHashed_harmless
    (scanning : Bool)
    (path : LocalPath) :
    Harmless blake3 (queueHashed scanning path) := by
  refine .bind (.attempt (.ask ?_)) fun r => ?_
  · exact fun _ => trivial
  split
  · exact .pure _
  · refine .read (fun existing => ?_) fun _ => trivial
    dsimp only
    split
    · exact queueChanged_harmless _ _ _ _ _
    · split
      · exact .updateLocalMtimeByPath path
      · exact .pure _

theorem queueLocalUpload_harmless (path : LocalPath) :
    Harmless blake3 (queueLocalUpload path) := by
  refine .read (fun found => ?_) fun _ => trivial
  split
  · exact .pure _
  · refine .read (fun row => ?_) fun _ => trivial
    split
    · exact queueHashed_harmless _ _
    · split
      · unfold refreshKey
        split
        · exact .updateLocalMtimeByPath path
        · exact .pure _
      · exact queueHashed_harmless _ _

theorem alreadyIndexed_harmless (path : LocalPath) :
    Harmless blake3 (alreadyIndexed path) := by
  refine .read (fun row => ?_) fun _ => trivial
  split
  · exact .pure _
  · split
    · exact .read (fun _ => .pure _) fun _ => trivial
    · exact .pure _

theorem fileEvent_harmless
    (created : Bool)
    (path : LocalPath) :
    Harmless blake3 (fileEvent created path) := by
  refine .read (fun found => ?_) fun _ => trivial
  split
  · exact .pure _
  · split
    · exact queueHashed_harmless _ _
    · apply Harmless.bind (alreadyIndexed_harmless path)
      intro indexed
      split
      · exact .pure _
      · exact queueHashed_harmless _ _

theorem uploadGenerationMatches_harmless
    (job : TransferJob) :
    Harmless blake3 (uploadGenerationMatches job) := by
  unfold uploadGenerationMatches
  split
  · exact .pure _
  · refine .read (fun found => ?_) fun _ => trivial
    split
    · exact .pure _
    · exact .read (fun _ => .pure _) fun _ => trivial

theorem uploadContent_harmless (job : TransferJob) :
    Harmless blake3 (uploadContent job) := by
  refine .bind (.attempt (.ask ?_)) fun r => ?_
  · exact fun _ => trivial
  split
  · exact .pure _
  · split
    · exact .pure _
    · refine .read (fun committed => ?_) fun _ => trivial
      split
      · apply Harmless.bind
          (uploadGenerationMatches_harmless job)
        exact fun _ => .ask fun _ => trivial
      · exact .pure _

theorem uploadFile_harmless (job : TransferJob) :
    Harmless blake3 (uploadFile job) := by
  refine .read (fun found => ?_) fun _ => trivial
  split
  · exact .pure _
  · split
    · exact uploadContent_harmless job
    · apply Harmless.bind (followMove_harmless job.localPath)
      intro moved
      split
      · exact .pure _
      · exact uploadContent_harmless job

theorem processUpload_harmless (job : TransferJob) :
    Harmless blake3 (processUpload job) := by
  refine .read (fun _ => ?_) fun _ => trivial
  apply Harmless.bind
  · unfold uploadBindingMatches
    split
    · exact .pure _
    · exact .ask fun _ => trivial
  · intro bound
    split
    · apply Harmless.bind
        (uploadGenerationMatches_harmless job)
      intro current
      split
      · exact uploadFile_harmless job
      · exact .pure _
    · exact .pure _

theorem publishKeepingLocal_harmless
    (path copyPath : LocalPath)
    (bytes : List UInt8) :
    Harmless blake3
      (publishKeepingLocal path copyPath bytes) := by
  have hAgain :
      Harmless blake3
        (publishKeepingLocal.publishAgain path bytes) := by
    refine .read (fun published => ?_) fun _ => trivial
    split
    · exact .pure _
    · exact .throw _
  refine .read (fun published => ?_) fun _ => trivial
  split
  · exact .pure _
  · refine .read (fun found => ?_) fun _ => trivial
    split
    · exact hAgain
    · exact .read (fun _ => hAgain) fun _ => trivial

theorem processDownload_harmless
    (job : TransferJob)
    (copyPath : LocalPath) :
    Harmless blake3 (processDownload job copyPath) := by
  refine .read (fun _ => ?_) fun _ => trivial
  apply Harmless.bind
  · apply Harmless.attempt
    refine .read (fun _ => ?_) fun _ => trivial
    refine .read (fun bytes => ?_) fun _ => trivial
    refine .read (fun _ => ?_) fun _ => trivial
    apply Harmless.bind
      (publishKeepingLocal_harmless job.localPath copyPath
        bytes)
    exact fun _ => .pure _
  · intro r
    split
    · exact .pure _
    · apply Harmless.bind
      · unfold markDownloaded
        split <;> exact .ask fun _ => trivial
      · exact fun _ => .updateLocalMtimeByPath job.localPath

theorem queueDownload_harmless
    (entry : IndexEntry)
    (path : LocalPath) :
    Harmless blake3 (queueDownload entry path) := by
  exact .read (fun _ => .ask fun _ => trivial) fun _ => trivial

theorem localFileChangedSinceSync_harmless
    (path : LocalPath)
    (storedHash : Option String) :
    Harmless blake3
      (localFileChangedSinceSync path storedHash) := by
  refine .read (fun found => ?_) fun _ => trivial
  split
  · exact .pure _
  · split
    · exact .pure _
    · exact .read (fun _ => .pure _) fun _ => trivial

theorem moveInto_harmless (old new : LocalPath) :
    Harmless blake3 (moveInto old new) := by
  refine .read (fun found => ?_) fun _ => trivial
  split
  · exact .pure _
  · refine .read (fun taken => ?_) fun _ => trivial
    split
    · exact .read (fun _ => .pure _) fun _ => trivial
    · exact .pure _

theorem placeRemoteEntry_harmless
    (entry : IndexEntry)
    (path : LocalPath)
    (sameContent : Bool) :
    Harmless blake3
      (placeRemoteEntry entry path sameContent) := by
  unfold placeRemoteEntry
  split
  · exact .ask fun _ => trivial
  · exact queueDownload_harmless entry path

theorem reconcileEntry_harmless
    (entry : IndexEntry)
    (contentHash : String)
    (path : LocalPath)
    (row : IndexRow) :
    Harmless blake3
      (reconcileEntry entry contentHash path row) := by
  apply Harmless.bind
  · unfold changedContent
    split
    · exact .pure _
    · exact localFileChangedSinceSync_harmless _ _
  · intro changed
    split
    · exact .pure _
    · split
      · exact placeRemoteEntry_harmless _ _ _
      · apply Harmless.bind (moveInto_harmless _ _)
        intro moved
        split
        · exact placeRemoteEntry_harmless _ _ _
        · exact .pure _

theorem queueRemoteTreeEntry_harmless
    (entry : IndexEntry)
    (contentHash : String)
    (path : LocalPath)
    (reconcileExisting : Bool) :
    Harmless blake3
      (queueRemoteTreeEntry entry contentHash path
        reconcileExisting) := by
  refine .read (fun row => ?_) fun _ => trivial
  split
  · exact queueDownload_harmless entry path
  · split
    · exact reconcileEntry_harmless _ _ _ _
    · exact .pure _

theorem indexCall_harmless (call : IndexCall) :
    Harmless blake3 call.run := by
  cases call with
  | scan path => exact queueLocalUpload_harmless path
  | event created path => exact fileEvent_harmless created path
  | upload job => exact processUpload_harmless job
  | download job copyPath =>
      exact processDownload_harmless job copyPath
  | remoteEntry entry contentHash path reconcileExisting =>
      exact queueRemoteTreeEntry_harmless entry contentHash
        path reconcileExisting
  | refreshMtime path => exact .updateLocalMtimeByPath path
  | update change => exact .ask fun _ => trivial

/- No request records an edit. -/
def fingerprintLimits
    (blake3 : List UInt8 → String) :
    ThreadSystem.Limits IndexReq IndexChoice IndexWorld Tid
      IndexCall Unit UserAction where
  Starts := fun _ _ _ _ => True
  Admits := fun _ _ => RecordsReq blake3
  Env := fun _ _ => True

theorem indexSystem_verified
    (blake3 : List UInt8 → String) :
    ThreadSystem.Verified (indexSystem blake3)
      (fingerprintContract blake3) (fingerprintLimits blake3)
      (fun _ _ _ => True) (fun _ _ _ _ _ => True) where
  stable := fun _ _ _ => trivial
  begin := by
    intro t call v w w' hInv _ _ hBegin
    cases hBegin
    exact ⟨⟨hInv, fun _ _ => Nat.le_refl _⟩,
      indexCall_harmless call t w⟩
  finish := fun hInv _ =>
    ⟨⟨hInv, fun _ _ => Nat.le_refl _⟩, trivial⟩
  halt := fun hInv =>
    ⟨⟨hInv, fun _ _ => Nat.le_refl _⟩, trivial⟩
  env := by
    intro action w w' hInv _ hApply
    have hUser := user_fingerprints hInv hApply
    exact ⟨hUser.1, fun _ => hUser.2⟩

/- Nothing is on the disk or in the index yet. -/
def IndexWorld.empty : IndexWorld :=
  ⟨[], [], 0⟩

abbrev IndexSystemState :=
  SystemState IndexReq IndexResp IndexWorld Tid IndexCall
    (CoreResult Unit) Unit

abbrev IndexAction :=
  Action Tid IndexChoice IndexCall UserAction

def IndexSystemState.initial
    (blake3 : List UInt8 → String) : IndexSystemState :=
  (indexSystem blake3).initial .empty

/-
  A matching fingerprint stands for the recorded hash: the
  file of a synced row with the size and mtime of the row has
  the bytes of its hash.
-/
def FingerprintSound
    (blake3 : List UInt8 → String)
    (w : IndexWorld) : Prop :=
  ∀ row ∈ w.objects, row.state = .synced →
    ∀ file ∈ w.fileAt row.localPath,
      fingerprintMatches row file.metadata = true →
        contentHashMatches row.localHash
          (blake3 file.bytes) = true

instance
    (w : IndexWorld) :
    Decidable (FingerprintSound blake3 w) :=
  inferInstanceAs (Decidable (∀ row ∈ w.objects, _))

/- The hashes of two files of one byte. -/
def sampleHash (bytes : List UInt8) : String :=
  if bytes = [1] then
    "48fc721fbbc172e0925fa27af1671de225ba927134802998b10a1568a188652b"
  else
    "ab13bedf42e84bae0f7c62c7dd6a8ada571e8829bed6ea558217f0361b5e25d0"

def samplePath : LocalPath :=
  ["sync", "a.txt"]

/- A job that the scan has queued; Notes does not bind it. -/
def sampleJob : TransferJob :=
  ⟨10, samplePath, "a.txt", none⟩

/- The scan finds the first save of the user. -/
def firstSaveScanned : List IndexAction :=
  [.env (.write samplePath [1] "1:7"),
    .call 1 (.scan samplePath), .serve 1 .done,
    .serve 1 .done, .serve 1 .done, .serve 1 .done,
    .serve 1 (.relocated none), .serve 1 (.answer false),
    .serve 1 (.fresh 10), .serve 1 (.answer true),
    .serve 1 (.answer true), .finish 1]

/- The upload has read the file and committed it. -/
def firstSaveCommitted : List IndexAction :=
  [.call 1 (.upload sampleJob), .serve 1 (.answer true),
    .serve 1 .done, .serve 1 (.relocated none),
    .serve 1 .done, .serve 1 (.answer true)]

/- It records the upload; then the next scan runs. -/
def uploadRecorded : List IndexAction :=
  [.serve 1 (.answer true), .finish 1,
    .call 1 (.scan samplePath), .serve 1 .done,
    .serve 1 .done]

/- The scan of the path has returned. -/
def hasScanned (s : IndexSystemState) : Bool :=
  match s.threads 1 with
  | .busy (.scan path) _ (.done (.ok (), _)) =>
      path = samplePath
  | _ => false

theorem of_hasScanned
    {s : IndexSystemState}
    (h : hasScanned s = true) :
    s.threads 1 =
      .busy (.scan samplePath) () (.done (.ok (), ())) := by
  unfold hasScanned at h
  split at h
  · rename_i hThread
    simp only [decide_eq_true_eq] at h
    rw [hThread, h]
  · cases h

/- What the scan and the upload of one file may record. -/
def recordsNoEdit (s : IndexSystemState) : IndexAction → Bool
  | .serve t _ =>
      match s.threads t with
      | .busy _ _ (.ask (.update change) _) =>
          match change with
          | .register _ _ state => state ≠ .synced
          | .finishUpload job entry _ =>
              decide (Unedited sampleHash s.world
                (s.world.mtimeAt (s.world.uploadPlace job))
                entry.size entry.contentHash)
          | _ => false
      | .busy _ _ (.ask (.setMtime _ _ _) _) => false
      | _ => true
  | _ => true

theorem permitted_of_recordsNoEdit
    {s : IndexSystemState} {a : IndexAction}
    (h : recordsNoEdit s a = true) :
    (fingerprintLimits sampleHash).Permitted s a := by
  cases a with
  | serve t choice =>
      intro call v r cont hThread
      simp only [recordsNoEdit, hThread] at h
      cases r with
      | update change =>
          cases choice with
          | answer binding =>
              cases change with
              | register entry path state =>
                  intro hSynced
                  simp [hSynced] at h
              | finishUpload job entry contentMatches =>
                  intro _
                  exact of_decide_eq_true h
              | _ => simp at h
          | _ => trivial
      | setMtime path mtime key => simp at h
      | _ => trivial
  | call t call => exact fun _ _ => trivial
  | env action => trivial
  | finish t => trivial
  | halt t => trivial

end S4Drive

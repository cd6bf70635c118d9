import S4Drive.Notes.ExtractionRuns
import S4Drive.Notes.WrittenArchive

/-
  Extractions in which no request fails and the archive is
  read as it is: the items of a verified archive come in an
  order in which each has its folder when it is written, so
  that an extraction into an empty folder comes to its end,
  and then exactly the items and the manifest are there.

  Main declarations:
    * `Faithful`, `Extracts`, with their rules
    * `Extractable`, `stageItems_extracts`
    * `publishExtracted_extracts`
    * `extractBackup_extracts`
-/

------------------------------------------------------------
-- Extractions without Failures
------------------------------------------------------------

namespace S4Drive

open Concurrency FileTree

/- No request fails, and the archive is read as it is. -/
structure Faithful
    (zip : StoredZip)
    (pick : ExtractReq → ExtractWorld → ExtractChoice) :
    Prop where
  outputIsDir : ∀ w, pick .outputIsDir w = .ok
  openOutput : ∀ w, pick .openOutput w = .ok
  outputIsEmpty : ∀ w, pick .outputIsEmpty w = .ok
  openArchive : ∀ w, pick .openArchive w = .zip (some zip.file)
  readArchive : ∀ w, pick .readArchive w = .data zip.data
  readEntry : ∀ i w, pick (.readEntry i) w = .data zip.data
  openDir : ∀ p w, pick (.openDir p) w = .ok
  file : ∀ r w, pick (.file r) w = .file .ok

variable {codec : BackupCodec} {zip : StoredZip}
variable {pick : ExtractReq → ExtractWorld → ExtractChoice}
variable {files : Entries} {w : ExtractWorld}
variable {staging : Text} {q : List Text} {α γ : Type}

/- From the files of the output folder on, `x` leads to `Q`. -/
def Extracts
    (pick : ExtractReq → ExtractWorld → ExtractChoice)
    (x : ExtractM α)
    (files : Entries)
    (Q : α → Entries → Prop) : Prop :=
  ∀ w : ExtractWorld, w.output.files = files →
    Yields extractMachine () pick x ()
      (fun a _ w' => Q a w'.output.files) w

variable {x : ExtractM α}

theorem Extracts.mono
    {Q Q' : α → Entries → Prop}
    (hx : Extracts pick x files Q)
    (hQ : ∀ a files', Q a files' → Q' a files') :
    Extracts pick x files Q' :=
  fun w hFiles => (hx w hFiles).mono fun a _ _ h => hQ a _ h

variable {Q : α → Entries → Prop}

theorem extracts_pure
    {a : α}
    (h : Q a files) : Extracts pick (pure a) files Q := by
  rintro w rfl
  exact yields_pure h

theorem extracts_ofExcept
    {r : BackupExcept α} {a : α}
    (hOk : r = .ok a)
    (h : Q a files) :
    Extracts pick (Script.ofExcept r) files Q := by
  rintro w rfl
  exact yields_ofExcept hOk h

theorem Extracts.bind
    {f : α → ExtractM γ}
    {P : α → Entries → Prop} {Q : γ → Entries → Prop}
    (hx : Extracts pick x files P)
    (hf :
      ∀ a files', P a files' → Extracts pick (f a) files' Q) :
    Extracts pick (x >>= f) files Q := by
  intro w hFiles
  apply (hx w hFiles).bind
  rintro a ⟨⟩ w' h
  exact hf a _ h w' rfl

theorem Extracts.attempt
    (hx : Extracts pick x files Q) :
    Extracts pick (Script.attempt x) files fun r files' =>
      ∃ a, r = .ok a ∧ Q a files' :=
  fun w hFiles => (hx w hFiles).attempt

/- A request that leaves the output folder as it is. -/
theorem call_extracts
    {r : ExtractReq}
    {answer : ExtractResp r → BackupExcept α}
    {a : α}
    (hServe :
      ∀ w : ExtractWorld, w.output.files = files →
        ∃ b w', serveExtract r (pick r w) w = some (b, w') ∧
          answer b = .ok a ∧ w'.output.files = files)
    (h : Q a files) :
    Extracts pick (Script.call r answer) files Q := by
  intro w hFiles
  rcases hServe w hFiles with ⟨b, w', hServed, hOk, hSame⟩
  refine yields_call hServed hOk ?_
  rw [hSame]
  exact h

/- A request to the file system that is possible. -/
theorem file_extracts
    (hPick : Faithful zip pick)
    {r : EntryReq} {c : Change Text FileBody}
    {answer : Except FileError Unit → BackupExcept Unit}
    (hEffect : r.effect files = .ok c)
    (hPossible : c.Possible files)
    (hAnswer : answer (.ok ()) = .ok ()) :
    Extracts pick (Script.call (.file r) answer) files
      fun _ files' => files' = c.run files := by
  rintro w rfl
  have hServe :
      serveExtract (.file r) (pick (.file r) w) w =
        some (.ok (), { w with output := w.output.act c }) := by
    rw [hPick.file]
    simp only [serveExtract, Shared.serve, hEffect, hPossible,
      if_true, Option.map_some]
  exact yields_call hServe hAnswer rfl

------------------------------------------------------------
-- Staging
------------------------------------------------------------

/- What an item is extracted to when `data` is read. -/
def itemNode
    (data : List ReadData)
    (item : VerifiedItem) : Node FileBody :=
  match item.kind with
  | .directory => .folder
  | .file => .file (.bytes (readFrom data item.zipIndex).bytes)

def exactPlan
    (data : List ReadData)
    (items : List VerifiedItem) : Plan :=
  items.map fun item =>
    (keyPath item.key, fun node => node = itemNode data item)

/- The staging folder holds a plan, each entry in a folder. -/
structure StagedWell
    (staging : Text)
    (plan : Plan)
    (files : Entries) : Prop where
  rooted : files.Rooted
  staged : Staged staging plan files

variable {plan : Plan} {node : Node FileBody}

/- An entry may be put into the staging folder. -/
structure Free
    (staging : Text)
    (q : List Text)
    (files : Entries) : Prop where
  path : q ≠ []
  none : files.nodeAt (staging :: q) = none
  folder : files.hasFolder (staging :: q)

theorem Free.possible
    (h : Free staging q files) :
    (Change.put (staging :: q) node).Possible files :=
  ⟨by simp, h.folder⟩

theorem StagedWell.put
    (h : StagedWell staging plan files)
    (hFree : Free staging q files) :
    StagedWell staging (plan ++ [(q, fun n => n = node)])
        (files.put (staging :: q) node) ∧
      ∀ e ∈ plan, ¬ q <+: e.1 := by
  have hOutside := h.staged.outside
    fun p hIn => h.rooted.nothing_inside (by simp) hFree.none hIn
  refine ⟨⟨?_, ?_⟩, hOutside⟩
  · exact h.rooted.put (by simp) hFree.folder
  · exact h.staged.put hFree.path (fun _ hMem => .inl hMem)
      (fun _ hMem => hMem) hOutside rfl

theorem create_extracts
    (hPick : Faithful zip pick)
    {r : EntryReq} {message : String}
    (h : StagedWell staging plan files)
    (hFree : Free staging q files)
    (hCreates : r.creates = some (staging :: q, node)) :
    Extracts pick (fileStep r message) files fun _ files' =>
      StagedWell staging (plan ++ [(q, fun n => n = node)])
          files' ∧
        ∀ e ∈ plan, ¬ q <+: e.1 := by
  have hEffect :
      r.effect files = .ok (.put (staging :: q) node) := by
    cases r <;> cases hCreates <;>
      simp [FileReq.effect, hFree.none]
  apply (file_extracts hPick hEffect hFree.possible rfl).mono
  rintro _ _ rfl
  exact h.put hFree

/- A file is created and then written. -/
theorem write_extracts
    (hPick : Faithful zip pick)
    {bytes : List UInt8} {message : String}
    (h : StagedWell staging
      (plan ++ [(q, fun n => n = .file (.bytes []))]) files)
    (hPath : q ≠ [])
    (hOutside : ∀ e ∈ plan, ¬ q <+: e.1) :
    Extracts pick
      (fileStep (.write (staging :: q) (.bytes bytes)) message)
      files fun _ files' =>
        StagedWell staging
          (plan ++ [(q, fun n => n = .file (.bytes bytes))])
          files' := by
  rcases h.staged.has _
      (List.mem_append_right plan List.mem_cons_self) with
    ⟨_, hNode, rfl⟩
  have hEffect :
      FileReq.effect files
        (.write (staging :: q) (.bytes bytes)) =
        .ok (.put (staging :: q) (.file (.bytes bytes))) := by
    simp [FileReq.effect, hNode]
  have hFolder := (h.rooted (staging :: q) (by simp [hNode])).2
  apply (file_extracts hPick hEffect
    ⟨by simp, hFolder⟩ rfl).mono
  rintro _ _ rfl
  refine ⟨h.rooted.put (by simp) hFolder, ?_⟩
  refine h.staged.put (P := fun n => n = .file (.bytes bytes))
    hPath ?_ ?_ hOutside rfl
  · intro e hMem
    rcases List.mem_append.mp hMem with hMem | hMem
    · exact .inl hMem
    · rw [List.mem_singleton] at hMem
      exact .inr (by rw [hMem])
  · exact fun e hMem => List.mem_append_left _ hMem

theorem readEntry_extracts
    (hPick : Faithful zip pick)
    {index : Nat} {Q : ReadData → Entries → Prop}
    (h : Q (readFrom zip.data index) files) :
    Extracts pick (readEntry index) files Q := by
  refine call_extracts ?_ h
  intro w hFiles
  rw [hPick.readEntry]
  exact ⟨_, _, rfl, rfl, hFiles⟩

theorem stageFile_extracts
    (hPick : Faithful zip pick)
    {item : VerifiedItem} {total : Nat}
    (h : StagedWell staging plan files)
    (hFree : Free staging q files)
    (hRead : ReadOk codec (readFrom zip.data item.zipIndex) item)
    (hFile : item.kind = .file)
    (hTotal : total + item.size ≤ maxTotalUncompressedBytes) :
    Extracts pick (stageFile codec (staging :: q) item total)
      files fun total' files' =>
        total' = total + item.size ∧
          StagedWell staging
            (plan ++
              [(q, fun n => n = itemNode zip.data item)])
            files' := by
  unfold stageFile
  apply (create_extracts hPick h hFree rfl).bind
  rintro _ _ ⟨hCreated, hOutside⟩
  apply (readEntry_extracts hPick (Q := fun data files' =>
    data = readFrom zip.data item.zipIndex ∧
      StagedWell staging
        (plan ++ [(q, fun n => n = .file (.bytes []))]) files')
    ⟨rfl, hCreated⟩).bind
  rintro _ files₂ ⟨rfl, hCreated₂⟩
  have hCopied := copyVerified_ok hRead hTotal
  have hNode :
      itemNode zip.data item =
        .file (.bytes (readFrom zip.data item.zipIndex).bytes) := by
    simp only [itemNode, hFile]
  rw [hCopied, hNode]
  apply (write_extracts hPick hCreated₂ hFree.path
    hOutside).bind
  intro _ files₃ hWritten
  exact extracts_ofExcept rfl ⟨rfl, hWritten⟩

/- The items, in an order in which they can be extracted. -/
structure Extractable
    (codec : BackupCodec)
    (data : List ReadData)
    (items : List VerifiedItem) : Prop where
  portable : ∀ item ∈ items, PortableKey item.key
  keys : (items.map VerifiedItem.key).Nodup
  -- Every item comes after the folder that it is in.
  parents :
    ∀ before item after, items = before ++ item :: after →
      ∀ parent, parentKey item.key = some parent →
        ∃ folder ∈ before,
          folder.key = parent ∧ folder.kind = .directory
  files :
    ∀ item ∈ items, item.kind = .file →
      ReadOk codec (readFrom data item.zipIndex) item
  total :
    (items.map VerifiedItem.size).sum ≤
      maxTotalUncompressedBytes

variable {items : List VerifiedItem}

theorem keyPath_injective
    {key key' : Text}
    (h : keyPath key = keyPath key') : key = key' := by
  have hText := congrArg (['/'].intercalate) h
  unfold keyPath at hText
  rwa [List.intercalate_splitOn, List.intercalate_splitOn]
    at hText

theorem mem_slash_of_portable
    {key component : Text}
    (h : PortableKey key)
    (hMem : component ∈ keyPath key) : '/' ∉ component := by
  rcases List.head?_eq_some_iff.mp h.1 with ⟨rest, hSplit⟩
  have hTail := h.2
  unfold keyPath at hMem
  rw [hSplit] at hMem hTail
  rcases List.mem_cons.mp hMem with rfl | hMem
  · decide
  · exact mem_slash_of_component (hTail component hMem)

/- A key at the top, or in the folder of another key. -/
theorem keyPath_dropLast
    {key : Text}
    (h : PortableKey key) :
    (keyPath key).dropLast = [] ∨
      ∃ parent, parentKey key = some parent ∧
        (keyPath key).dropLast = keyPath parent := by
  by_cases hTop : (keyPath key).dropLast = []
  · exact .inl hTop
  · right
    refine ⟨['/'].intercalate (keyPath key).dropLast, ?_, ?_⟩
    · simp only [parentKey]
      rw [if_neg (by simpa [keyPath] using hTop)]
      rfl
    · have hSplit := List.splitOn_intercalate '/'
        (fun component hMem => mem_slash_of_portable h
          (List.mem_of_mem_dropLast hMem)) hTop
      exact hSplit.symm

variable {data : List ReadData}

/- The place of the next item is free. -/
theorem StagedWell.free
    {before after : List VerifiedItem}
    {item : VerifiedItem}
    (h : StagedWell staging (exactPlan data before) files)
    (hItems : Extractable codec data items)
    (hSplit : items = before ++ item :: after) :
    Free staging (keyPath item.key) files where
  path := keyPath_ne_nil item.key
  none := by
    by_contra hThere
    rcases h.staged.planned _ hThere with hRoot | ⟨e, hMem, hSame⟩
    · exact keyPath_ne_nil item.key hRoot
    · rcases List.mem_map.mp hMem with ⟨other, hOther, rfl⟩
      have hKeys := hItems.keys
      rw [hSplit, List.map_append, List.map_cons] at hKeys
      have hNew := (List.nodup_append.mp hKeys).2.2 other.key
        (List.mem_map_of_mem hOther) item.key
        List.mem_cons_self
      exact hNew (keyPath_injective hSame).symm
  folder := by
    have hPath := keyPath_ne_nil item.key
    have hMem : item ∈ items := by
      rw [hSplit]
      simp
    right
    rw [List.dropLast_cons_of_ne_nil hPath]
    rcases keyPath_dropLast (hItems.portable item hMem) with
      hTop | ⟨parent, hParent, hFolder⟩
    · rw [hTop]
      exact h.staged.root
    · rcases hItems.parents before item after hSplit parent
          hParent with ⟨folder, hBefore, rfl, hKind⟩
      rcases h.staged.has _ (List.mem_map_of_mem hBefore) with
        ⟨node, hNode, hIs⟩
      have hDir : itemNode data folder = .folder := by
        simp only [itemNode, hKind]
      rw [hFolder, ← hDir, ← hIs]
      exact hNode

theorem stageItems_extracts
    (hPick : Faithful zip pick)
    {before rest : List VerifiedItem} {total : Nat}
    {result : ExtractResult}
    (hItems : Extractable codec zip.data items)
    (hSplit : items = before ++ rest)
    (hTotal :
      total + (rest.map VerifiedItem.size).sum ≤
        maxTotalUncompressedBytes)
    (h : StagedWell staging (exactPlan zip.data before) files) :
    Extracts pick (stageItems codec staging rest total result)
      files fun _ files' =>
        StagedWell staging (exactPlan zip.data items) files' := by
  induction rest generalizing before total result files with
  | nil =>
      rw [List.append_nil] at hSplit
      rw [hSplit]
      exact extracts_pure h
  | cons item rest ih =>
      have hFree := h.free hItems hSplit
      have hNext : items = (before ++ [item]) ++ rest := by
        rw [hSplit, List.append_assoc]
        rfl
      have hPlan :
          exactPlan zip.data (before ++ [item]) =
            exactPlan zip.data before ++
              [(keyPath item.key,
                fun n => n = itemNode zip.data item)] := by
        simp [exactPlan]
      rw [List.map_cons, List.sum_cons] at hTotal
      unfold stageItems
      cases hKind : item.kind with
      | directory =>
          have hNode : itemNode zip.data item = .folder := by
            simp only [itemNode, hKind]
          rw [hNode] at hPlan
          apply (create_extracts hPick h hFree rfl).bind
          rintro _ files' ⟨hCreated, _⟩
          rw [← hPlan] at hCreated
          exact ih hNext (by omega) hCreated
      | file =>
          have hMem : item ∈ items := by
            rw [hSplit]
            simp
          have hRead := hItems.files item hMem hKind
          apply (stageFile_extracts hPick h hFree hRead hKind
            (by omega)).bind
          rintro _ files' ⟨rfl, hWritten⟩
          rw [← hPlan] at hWritten
          exact ih hNext (by omega) hWritten

------------------------------------------------------------
-- Publication
------------------------------------------------------------

/- What is extracted of items and a manifest. -/
def wholePlan
    (data : List ReadData)
    (items : List VerifiedItem)
    (manifestBytes : List UInt8) : Plan :=
  exactPlan data items ++
    [([manifestName], fun node =>
      node = .file (.bytes manifestBytes))]

theorem twoNames_wholePlan
    {bytes : List UInt8}
    (hItems : Extractable codec data items) :
    TwoNames (wholePlan data items bytes) := by
  intro e hMem
  rcases List.mem_append.mp hMem with hMem | hMem
  · left
    rcases List.mem_map.mp hMem with ⟨item, hItem, rfl⟩
    exact List.head?_eq_some_iff.mp
      (hItems.portable item hItem).1
  · right
    rw [List.mem_singleton] at hMem
    rw [hMem]

theorem stageVerified_extracts
    (hPick : Faithful zip pick)
    {archive : VerifiedArchive}
    (hItems : Extractable codec zip.data archive.items)
    (h : StagedWell staging [] files) :
    Extracts pick (stageVerified codec staging archive) files
      fun _ files' =>
        StagedWell staging
          (wholePlan zip.data archive.items
            archive.manifestBytes) files' := by
  unfold stageVerified
  have hTotal :
      0 + (archive.items.map VerifiedItem.size).sum ≤
        maxTotalUncompressedBytes := by
    have := hItems.total
    omega
  apply (stageItems_extracts hPick hItems
    (List.nil_append _).symm hTotal h).bind
  intro result files₁ hStaged
  have hFree : Free staging [manifestName] files₁ := by
    refine ⟨by simp, ?_, .inr hStaged.staged.root⟩
    by_contra hThere
    rcases hStaged.staged.planned _ hThere with
      hRoot | ⟨e, hMem, hSame⟩
    · cases hRoot
    · rcases List.mem_map.mp hMem with ⟨item, hItem, rfl⟩
      have hHead := (hItems.portable item hItem).1
      have hPath : item.key.splitOn '/' = [manifestName] :=
        hSame.symm
      rw [hPath] at hHead
      exact absurd hHead (by decide)
  unfold writeExclusive
  apply Extracts.bind
  · apply (create_extracts hPick hStaged hFree rfl).bind
    rintro _ files₂ ⟨hCreated, hOutside⟩
    exact write_extracts hPick hCreated hFree.path hOutside
  · intro _ files₃ hWritten
    exact extracts_pure hWritten

/- A move to a name that is free in the output folder. -/
theorem moveNoClobber_extracts
    (hPick : Faithful zip pick)
    {name : Text}
    (hThere : files.nodeAt [staging, name] ≠ none)
    (hNone : files.nodeAt [name] = none) :
    Extracts pick
      (moveNoClobber [staging, name] [name] name) files
      fun _ files' =>
        files' = files.moveTree [staging, name] [name] := by
  have hEffect :
      FileReq.effect files (.moveNew [staging, name] [name]) =
        .ok (.move [staging, name] [name]) := by
    simp [FileReq.effect, hThere, hNone]
  have hPossible :
      (Change.move [staging, name] [name] :
        Change Text FileBody).Possible files := by
    refine ⟨by simp, by simp, .inl rfl, ?_⟩
    intro hIn
    exact absurd hIn.length_le (by simp)
  exact file_extracts hPick hEffect hPossible rfl

theorem publishExtracted_extracts
    (hPick : Faithful zip pick)
    (hNames : Distinct staging)
    (hTwo : TwoNames plan)
    (h : Staged staging plan files)
    (hNotes : files.nodeAt [staging, notesRootName] ≠ none)
    (hManifest : files.nodeAt [staging, manifestName] ≠ none) :
    Extracts pick (publishExtracted staging) files fun _ files' =>
      MovedOut staging plan files' := by
  have h₁ := hNames.notes
  have h₂ := hNames.manifest
  have h₃ := notesRootName_ne
  have hFree {name : Text} (hName : staging ≠ name) :
      files.nodeAt [name] = none := by
    by_contra hThere
    exact hName (h.only name [] hThere).symm
  unfold publishExtracted
  apply (moveNoClobber_extracts hPick hNotes (hFree h₁)).bind
  rintro _ _ rfl
  apply Extracts.bind
  · apply (moveNoClobber_extracts hPick _ _).attempt
    · simp [List.cons_prefix_cons, h₁.symm, h₃, hManifest]
    · simp [List.cons_prefix_cons, h₂, h₃, hFree h₂]
  · rintro _ _ ⟨_, rfl, rfl⟩
    exact extracts_pure (moved_out hNames h hTwo)

theorem openStaging_extracts
    (hPick : Faithful zip pick)
    (hRoot : files.nodeAt [staging] = some .folder) :
    Extracts pick (openStaging staging) files
      fun _ files' => files' = files := by
  refine call_extracts (a := ()) ?_ rfl
  intro w hFiles
  rw [hPick.openDir]
  refine ⟨.ok (), w, ?_, rfl, hFiles⟩
  simp [serveExtract, hFiles, hRoot]

theorem wholePlan_roots
    {bytes : List UInt8}
    (hRoot :
      ∃ item ∈ items,
        item.key = notesRootName ∧ item.kind = .directory)
    (h : Staged staging (wholePlan data items bytes) files) :
    files.nodeAt [staging, notesRootName] ≠ none ∧
      files.nodeAt [staging, manifestName] ≠ none := by
  constructor
  · rcases hRoot with ⟨item, hItem, hKey, _⟩
    rcases h.has _ (List.mem_append_left _
        (List.mem_map_of_mem hItem)) with ⟨node, hNode, _⟩
    have hPath : keyPath notesRootName = [notesRootName] := by
      decide
    rw [hKey, hPath] at hNode
    simp [hNode]
  · rcases h.has _ (List.mem_append_right _
        List.mem_cons_self) with ⟨node, hNode, _⟩
    simp [hNode]

theorem extractVerified_extracts
    (hPick : Faithful zip pick)
    {outputDir : String} {archive : VerifiedArchive}
    (hNames : Distinct staging)
    (hItems : Extractable codec zip.data archive.items)
    (hRoot :
      ∃ item ∈ archive.items,
        item.key = notesRootName ∧ item.kind = .directory) :
    Extracts pick
      (extractVerified codec outputDir staging archive)
      Files.empty fun _ files' =>
        Published
          (wholePlan zip.data archive.items
            archive.manifestBytes) files' := by
  have hTwo :
      TwoNames (wholePlan zip.data archive.items
        archive.manifestBytes) :=
    twoNames_wholePlan hItems
  have hStart : StagedWell staging []
      ((Files.empty : Entries).put [staging] .folder) :=
    ⟨Files.rooted_empty.put (by simp) (.inl rfl),
      staged_empty fun _ _ => rfl⟩
  have hStaged : Extracts pick
      (extractStaged codec outputDir staging archive)
      ((Files.empty : Entries).put [staging] .folder)
      fun _ files' => MovedOut staging
        (wholePlan zip.data archive.items
          archive.manifestBytes) files' := by
    unfold extractStaged
    apply (openStaging_extracts hPick
      hStart.staged.root).bind
    rintro _ _ rfl
    apply (stageVerified_extracts hPick hItems hStart).bind
    intro result files₁ hAll
    rcases wholePlan_roots hRoot hAll.staged with
      ⟨hNotes, hManifest⟩
    apply (publishExtracted_extracts hPick hNames hTwo
      hAll.staged hNotes hManifest).attempt.bind
    rintro _ files₂ ⟨_, rfl, hMoved⟩
    exact extracts_pure hMoved
  unfold extractVerified
  apply (file_extracts hPick (c := .put [staging] .folder)
    rfl ⟨by simp, .inl rfl⟩ rfl).bind
  rintro _ _ rfl
  apply hStaged.attempt.bind
  rintro _ files₁ ⟨result, rfl, hMoved⟩
  apply Extracts.bind
  · apply (file_extracts hPick (c := .remove [staging])
      _ (by simp [Change.Possible]) rfl).attempt
    simp [FileReq.effect, hMoved.root]
  · rintro _ _ ⟨_, rfl, rfl⟩
    exact extracts_ofExcept rfl (hMoved.published hNames hTwo)

theorem checkOutput_extracts
    (hPick : Faithful zip pick)
    {outputDir : String} :
    Extracts pick (checkOutput outputDir) Files.empty
      fun _ files' => files' = Files.empty := by
  unfold checkOutput
  apply Extracts.bind (P := fun isDir files' =>
    isDir = true ∧ files' = Files.empty)
  · refine call_extracts ?_ ⟨rfl, rfl⟩
    intro w hFiles
    rw [hPick.outputIsDir]
    exact ⟨true, w, rfl, rfl, hFiles⟩
  rintro _ _ ⟨rfl, rfl⟩
  apply Extracts.bind (P := fun _ files' => files' = Files.empty)
  · refine call_extracts (a := ()) ?_ rfl
    intro w hFiles
    rw [hPick.openOutput]
    exact ⟨.ok (), w, rfl, rfl, hFiles⟩
  rintro _ _ rfl
  refine call_extracts (a := ()) ?_ rfl
  intro w hFiles
  rw [hPick.outputIsEmpty]
  refine ⟨.ok true, w, ?_, rfl, hFiles⟩
  simp [serveExtract, hFiles, Files.empty]

theorem extractBackup_extracts
    (hPick : Faithful zip pick)
    {call : ExtractCall} {archive : VerifiedArchive}
    (hOpen : openArchive (some zip.file) = .ok zip.file)
    (hVerify :
      verifyArchive codec zip.file (readFrom zip.data) =
        .ok archive)
    (hItems : Extractable codec zip.data archive.items) :
    Extracts pick (extractBackup codec call) Files.empty
      fun _ files' =>
        Published
          (wholePlan zip.data archive.items
            archive.manifestBytes) files' := by
  unfold extractBackup
  apply (checkOutput_extracts hPick).bind
  rintro _ _ rfl
  apply Extracts.bind (P := fun opened files' =>
    opened = some zip.file ∧ files' = Files.empty)
  · refine call_extracts ?_ ⟨rfl, rfl⟩
    intro w hFiles
    rw [hPick.openArchive]
    exact ⟨.ok (some zip.file), _, rfl, rfl, hFiles⟩
  rintro _ _ ⟨rfl, rfl⟩
  apply (extracts_ofExcept hOpen (Q := fun opened files' =>
    opened = zip.file ∧ files' = Files.empty) ⟨rfl, rfl⟩).bind
  rintro _ _ ⟨rfl, rfl⟩
  apply Extracts.bind (P := fun data files' =>
    data = zip.data ∧ files' = Files.empty)
  · refine call_extracts ?_ ⟨rfl, rfl⟩
    intro w hFiles
    rw [hPick.readArchive]
    exact ⟨zip.data, _, rfl, rfl, hFiles⟩
  rintro _ _ ⟨rfl, rfl⟩
  apply (extracts_ofExcept hVerify (Q := fun verified files' =>
    verified = archive ∧ files' = Files.empty) ⟨rfl, rfl⟩).bind
  rintro _ _ ⟨rfl, rfl⟩
  exact extractVerified_extracts hPick (distinct_staging call)
    hItems (archiveSound_of_verify hVerify).root

end S4Drive

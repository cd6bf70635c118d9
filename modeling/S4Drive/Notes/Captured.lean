import S4Drive.Library.Execution
import S4Drive.Notes.ArchiveVerified
import S4Drive.Notes.BackupRuns
import S4Drive.Notes.SnapshotRuns

/-
  What a capture that returns has found, whatever the Notes
  folder has become: every staged entry has a portable name
  in a staged folder, and no file and not all of them are
  too large for an archive.

  Main declarations:
    * `Collects`, with its rules
    * `ScanResult`, `CopyOf`
    * `Captured`, `captureSnapshot_collects`
    * `Captured.portableKey`, `Captured.parent`
-/

------------------------------------------------------------
-- Requests
------------------------------------------------------------

namespace S4Drive

open Concurrency FileTree

/- A capture leaves the folder of the destination alone. -/
def captureContract :
    Contract BackupReq BackupChoice BackupWorld Unit where
  Inv := fun _ => True
  Rely := fun _ w w' => w'.folder = w.folder
  Admits := fun _ _ _ _ => True
  rely_refl := fun _ _ => rfl
  rely_trans := fun h₁ h₂ => h₂.trans h₁

variable {codec : BackupCodec}
variable {w w' : BackupWorld} {α γ : Type}

/- What `x` returns satisfies `Q`, whatever it has met. -/
abbrev Collects
    (x : BackupM α)
    (w : BackupWorld)
    (Q : α → Prop) : Prop :=
  Within backupMachine captureContract () x ()
    (fun a _ _ => Q a) w

theorem Collects.bind
    {x : BackupM α} {f : α → BackupM γ}
    {P : α → Prop} {Q : γ → Prop}
    (hx : Collects x w P)
    (hf : ∀ a w', P a → Collects (f a) w' Q) :
    Collects (x >>= f) w Q :=
  Within.bind hx fun a _ w' _ h => hf a w' h

variable {r : BackupReq} {answer : BackupResp r → BackupExcept α}
variable {Q : α → Prop}

theorem call_collects
    (hRead : ∀ f, r ≠ .file f)
    (h : ∀ b a, answer b = .ok a → Q a) :
    Collects (Script.call r answer) w Q := by
  apply within_call
  intro w₁ _ _ k b w₂ _ hServe
  refine ⟨⟨trivial, fun _ hOther => absurd rfl hOther⟩,
    folder_served hRead hServe, ?_⟩
  exact fun a hOk _ _ _ => h b a hOk

/- A request about whose answer nothing is known. -/
theorem call_any
    (hRead : ∀ f, r ≠ .file f) :
    Collects (Script.call r answer) w fun _ => True :=
  call_collects hRead fun _ _ _ => trivial

theorem ofExcept_collects
    {r : BackupExcept α}
    (h : ∀ a, r = .ok a → Q a) :
    Collects (Script.ofExcept r) w Q :=
  within_ofExcept fun a hOk _ _ _ => h a hOk

theorem pure_collects
    {a : α}
    (h : Q a) : Collects (pure a) w Q :=
  within_pure fun _ _ _ => h

------------------------------------------------------------
-- Scans
------------------------------------------------------------

/- An entry in `rel` or in one of the scanned folders. -/
def ScannedIn
    (rel : Text)
    (new : List ScannedEntry)
    (x : ScannedEntry) : Prop :=
  ∃ parent name,
    validatePortableComponent name = .ok () ∧
      x.relPath = joinName parent name ∧
      (parent = rel ∨
        ∃ y ∈ new, y.source = none ∧ y.relPath = parent)

/- What a scan of the folder `rel` may find. -/
structure ScanResult
    (rel : Text)
    (new : List ScannedEntry) : Prop where
  placed : ∀ x ∈ new, ScannedIn rel new x
  size :
    ∀ x ∈ new, x.source ≠ none → x.size ≤ maxSingleFileBytes

variable {rel name : Text} {new new' : List ScannedEntry}
variable {x : ScannedEntry}

theorem ScannedIn.mono
    (h : ScannedIn rel new x)
    (hMore : ∀ y ∈ new, y ∈ new') : ScannedIn rel new' x := by
  rcases h with ⟨parent, name, hName, hPath, hParent⟩
  refine ⟨parent, name, hName, hPath, hParent.imp_right ?_⟩
  exact fun ⟨y, hMem, hFolder⟩ => ⟨y, hMore y hMem, hFolder⟩

theorem ScanResult.nil : ScanResult rel [] where
  placed := fun _ hMem => nomatch hMem
  size := fun _ hMem => nomatch hMem

theorem ScanResult.append
    (h : ScanResult rel new)
    (h' : ScanResult rel new') : ScanResult rel (new ++ new') where
  placed := by
    intro x hMem
    rcases List.mem_append.mp hMem with hMem | hMem
    · exact (h.placed x hMem).mono
        fun _ => List.mem_append_left _
    · exact (h'.placed x hMem).mono
        fun _ => List.mem_append_right _
  size := by
    intro x hMem
    rcases List.mem_append.mp hMem with hMem | hMem
    · exact h.size x hMem
    · exact h'.size x hMem

theorem ScanResult.file
    (hName : validatePortableComponent name = .ok ())
    (hPath : x.relPath = joinName rel name)
    (hSize : x.size ≤ maxSingleFileBytes) :
    ScanResult rel [x] where
  placed := by
    intro y hMem
    rw [List.mem_singleton] at hMem
    subst hMem
    exact ⟨rel, name, hName, hPath, .inl rfl⟩
  size := by
    intro y hMem _
    rw [List.mem_singleton] at hMem
    subst hMem
    exact hSize

theorem ScanResult.folder
    (hName : validatePortableComponent name = .ok ())
    (hPath : x.relPath = joinName rel name)
    (hFolder : x.source = none)
    (h : ScanResult (joinName rel name) new) :
    ScanResult rel (x :: new) where
  placed := by
    intro y hMem
    rcases List.mem_cons.mp hMem with rfl | hMem
    · exact ⟨rel, name, hName, hPath, .inl rfl⟩
    · rcases h.placed y hMem with
        ⟨parent, name', hName', hPath', hParent⟩
      refine ⟨parent, name', hName', hPath', .inr ?_⟩
      rcases hParent with rfl | ⟨z, hz, hInside⟩
      · exact ⟨x, List.mem_cons_self, hFolder, hPath⟩
      · exact ⟨z, List.mem_cons_of_mem x hz, hInside⟩
  size := by
    intro y hMem hFile
    rcases List.mem_cons.mp hMem with rfl | hMem
    · exact absurd hFolder hFile
    · exact h.size y hMem hFile

theorem validatePortableComponent_error
    {text : Text} {e : BackupError}
    (h : validatePortableComponent text = .error e) :
    ∃ reason, e = .invalidName reason := by
  unfold validatePortableComponent at h
  split at h
  · cases h
    exact ⟨_, rfl⟩
  · split at h
    · cases h
      exact ⟨_, rfl⟩
    · split at h
      · cases h
        exact ⟨_, rfl⟩
      · split at h <;> cases h
        exact ⟨_, rfl⟩

theorem checkName_ok
    {name : OsName} {u : Unit}
    (h : checkName name rel = .ok u) :
    validatePortableComponent name.text = .ok () := by
  unfold checkName at h
  cases hValid : name.valid with
  | false => simp [hValid] at h
  | true =>
      cases hName : validatePortableComponent name.text with
      | ok u => rfl
      | error e =>
          rcases validatePortableComponent_error hName with
            ⟨reason, rfl⟩
          simp [hValid, hName] at h

/- What a scan of a folder adds to the entries before. -/
def ScansPlaced
    (scanFolder :
      InodeId → Text → List ScannedEntry →
        BackupM (List ScannedEntry)) : Prop :=
  ∀ dir rel entries w,
    Collects (scanFolder dir rel entries) w fun all =>
      ∃ new, all = entries ++ new ∧ ScanResult rel new

variable
  {scanFolder :
    InodeId → Text → List ScannedEntry →
      BackupM (List ScannedEntry)}
variable {dir : InodeId} {entries : List ScannedEntry}

theorem scanEntry_collects
    {name : OsName}
    (hScan : ScansPlaced scanFolder) :
    Collects
      (scanEntry scanFolder dir (joinName rel name.text) name
        entries) w
      fun all =>
        ∃ new, all = entries ++ new ∧ ScanResult rel new := by
  unfold scanEntry
  apply (ofExcept_collects (Q := fun _ =>
    validatePortableComponent name.text = .ok ())
    fun _ hOk => checkName_ok hOk).bind
  intro _ w₁ hName
  refine Collects.bind (call_any ?_) fun metadata w₂ _ => ?_
  · nofun
  split
  · exact within_throw
  · refine Collects.bind (call_any ?_) fun child w₃ _ => ?_
    · nofun
    apply (hScan child (joinName rel name.text) _ w₃).mono
    rintro all _ _ _ ⟨new, rfl, hNew⟩
    exact ⟨_, List.append_assoc _ _ _,
      hNew.folder hName rfl rfl⟩
  · split
    · exact within_throw
    · rename_i hSize
      apply pure_collects
      exact ⟨_, rfl, ScanResult.file hName rfl (not_lt.mp hSize)⟩
  · exact within_throw

theorem scanEntries_collects
    {names : List OsName}
    (hScan : ScansPlaced scanFolder) :
    Collects (scanEntries scanFolder dir rel names entries) w
      fun all =>
        ∃ new, all = entries ++ new ∧ ScanResult rel new := by
  induction names generalizing w entries with
  | nil =>
      apply pure_collects
      exact ⟨[], (List.append_nil _).symm, ScanResult.nil⟩
  | cons name rest ih =>
      unfold scanEntries
      apply (scanEntry_collects hScan).bind
      rintro _ w₁ ⟨new, rfl, hNew⟩
      apply (ofExcept_collects (Q := fun _ => True)
        fun _ _ => trivial).bind
      intro _ w₂ _
      apply ih.mono
      rintro _ _ _ _ ⟨new', rfl, hNew'⟩
      exact ⟨new ++ new', List.append_assoc _ _ _,
        hNew.append hNew'⟩

theorem scanNotesTree_collects
    (levels : Nat) : ScansPlaced (scanNotesTree levels) := by
  induction levels with
  | zero => exact fun _ _ _ _ => within_throw
  | succ levels ih =>
      intro dir rel entries w
      unfold scanNotesTree
      refine Collects.bind (call_any ?_) fun names w₁ _ => ?_
      · exact fun _ hNever => by cases hNever
      exact scanEntries_collects ih

/- What is staged of a scanned entry. -/
def CopyOf
    (codec : BackupCodec)
    (x : ScannedEntry)
    (s : StagedEntry) : Prop :=
  match x.source with
  | none => s = stagedFolder x
  | some _ =>
      ∃ bytes, bytes.length = x.size ∧
        s = stagedFile codec x bytes

/- The bytes of all that is staged. -/
def stagedBytes (staged : List StagedEntry) : Nat :=
  (staged.map fun s => s.bytes.length).sum

theorem size_of_unchanged
    {size : Nat} {metadata : Except FileError Metadata}
    (h : unchanged x size metadata = true) : size = x.size := by
  cases metadata with
  | error e => cases h
  | ok metadata => exact (unchanged_iff.mp h).2.1

theorem checkTotal_ok
    {total : Nat} {u : Unit}
    (h : checkTotal total = .ok u) :
    total ≤ maxTotalUncompressedBytes := by
  unfold checkTotal at h
  split at h
  · cases h
  · omega

theorem readFile_collects
    {file : InodeId} {n : Nat} {read : List UInt8} :
    Collects (readFile file n read) w fun _ => True := by
  induction n generalizing w read with
  | zero =>
      unfold readFile
      refine Collects.bind (call_any ?_) fun ended w₁ _ => ?_
      · exact fun _ hNever => by cases hNever
      exact pure_collects trivial
  | succ n ih =>
      unfold readFile
      refine Collects.bind (call_any ?_) fun chunk w₁ _ => ?_
      · exact fun _ hNever => by cases hNever
      split
      · exact pure_collects trivial
      · refine Collects.bind (call_any ?_) fun _ w₂ _ => ?_
        · exact fun _ hNever => by cases hNever
        exact ih

theorem copyFile_collects
    {file : InodeId} {total : Nat} :
    Collects (copyFile x file total) w fun copied =>
      ∀ bytes, copied = some bytes → bytes.length = x.size ∧
        total + bytes.length ≤ maxTotalUncompressedBytes := by
  unfold copyFile
  refine Collects.bind (call_any ?_) fun _ w₁ _ => ?_
  · nofun
  refine Collects.bind (call_any ?_) fun reads w₂ _ => ?_
  · nofun
  apply readFile_collects.bind
  intro copied w₃ _
  refine Collects.bind (call_any ?_) fun _ w₄ _ => ?_
  · nofun
  apply (ofExcept_collects (Q := fun _ =>
    total + copied.1.length ≤ maxTotalUncompressedBytes)
    fun _ hOk => checkTotal_ok hOk).bind
  intro _ w₅ hTotal
  refine Collects.bind (call_any ?_) fun metadata w₆ _ => ?_
  · nofun
  split
  · rename_i hSame
    apply pure_collects
    rintro bytes hBytes
    cases hBytes
    rw [Bool.and_eq_true] at hSame
    exact ⟨size_of_unchanged hSame.2, hTotal⟩
  · apply pure_collects
    exact fun _ hNone => nomatch hNone

theorem copyEntries_collects
    {items : List ScannedEntry} {total : Nat}
    {staged : List StagedEntry}
    (hTotal : total ≤ maxTotalUncompressedBytes) :
    Collects (copyEntries codec items total staged) w
      fun copied => ∀ all, copied = some all →
        ∃ more, all = staged ++ more ∧
          List.Forall₂ (CopyOf codec) items more ∧
          total + stagedBytes more ≤
            maxTotalUncompressedBytes := by
  induction items generalizing w total staged with
  | nil =>
      apply pure_collects
      rintro all hAll
      cases hAll
      exact ⟨[], (List.append_nil _).symm, .nil, hTotal⟩
  | cons x rest ih =>
      unfold copyEntries
      refine Collects.bind (call_any ?_) fun _ w₁ _ => ?_
      · exact fun _ hNever => by cases hNever
      refine Collects.bind (call_any ?_) fun _ w₂ _ => ?_
      · exact fun _ hNever => by cases hNever
      -- One more entry, and what is copied after it.
      have step {s : StagedEntry} {w : BackupWorld}
          (hCopy : CopyOf codec x s)
          (hMore :
            total + s.bytes.length ≤
              maxTotalUncompressedBytes) :
          Collects
            (copyEntries codec rest (total + s.bytes.length)
              (staged ++ [s])) w
            fun copied => ∀ all, copied = some all →
              ∃ more, all = staged ++ more ∧
                List.Forall₂ (CopyOf codec) (x :: rest) more ∧
                total + stagedBytes more ≤
                  maxTotalUncompressedBytes := by
        apply (ih hMore).mono
        intro copied _ _ _ hCopied all hAll
        rcases hCopied all hAll with ⟨more, rfl, hRest, hSum⟩
        refine ⟨s :: more, List.append_assoc _ _ _,
          .cons hCopy hRest, ?_⟩
        simp only [stagedBytes, List.map_cons, List.sum_cons]
          at hSum ⊢
        omega
      split
      · rename_i hSource
        have hCopy : CopyOf codec x (stagedFolder x) := by
          simp [CopyOf, hSource]
        exact step hCopy hTotal
      · rename_i dir name hSource
        apply Collects.bind (P := fun _ => True)
        · apply (Within.attempt (call_any ?_)).mono
          · exact fun _ _ _ _ _ => trivial
          · exact fun f hNever => by cases hNever
        intro opened w₃ _
        split
        · apply pure_collects
          exact fun _ hNone => by cases hNone
        · apply copyFile_collects.bind
          intro copied w₄ hCopied
          split
          · apply pure_collects
            exact fun _ hNone => by cases hNone
          · rename_i bytes
            rcases hCopied bytes rfl with ⟨hSize, hMore⟩
            have hCopy :
                CopyOf codec x (stagedFile codec x bytes) := by
              simp only [CopyOf, hSource]
              exact ⟨bytes, hSize, rfl⟩
            exact step hCopy hMore

------------------------------------------------------------
-- Captures
------------------------------------------------------------

def StagedEntry.IsFolder (s : StagedEntry) : Prop :=
  s.entry.kind = "directory" ∧ s.entry.size = 0 ∧
    s.entry.blake3 = none

def StagedEntry.IsFile
    (codec : BackupCodec)
    (s : StagedEntry) : Prop :=
  s.entry.kind = "file" ∧ s.entry.size = s.bytes.length ∧
    s.bytes.length ≤ maxSingleFileBytes ∧
    s.entry.blake3 = some (codec.blake3 s.bytes)

/- What a capture returns is fit for an archive. -/
structure Captured
    (codec : BackupCodec)
    (staged : List StagedEntry) : Prop where
  root :
    ∃ s ∈ staged,
      s.entry.path = notesRootName ∧ s.IsFolder
  placed :
    ∀ s ∈ staged,
      s.entry.path = notesRootName ∨
        ∃ parent name,
          validatePortableComponent name = .ok () ∧
            s.entry.path = joinName parent name ∧
            ∃ f ∈ staged, f.entry.path = parent ∧ f.IsFolder
  form : ∀ s ∈ staged, s.IsFolder ∧ s.bytes = [] ∨ s.IsFile codec
  total : stagedBytes staged ≤ maxTotalUncompressedBytes

variable {staged : List StagedEntry} {s : StagedEntry}

theorem CopyOf.path (h : CopyOf codec x s) :
    s.entry.path = x.relPath := by
  unfold CopyOf at h
  split at h
  · rw [h]
    rfl
  · rcases h with ⟨bytes, _, rfl⟩
    rfl

theorem CopyOf.isFolder
    (h : CopyOf codec x s)
    (hFolder : x.source = none) :
    s.IsFolder ∧ s.bytes = [] := by
  simp only [CopyOf, hFolder] at h
  rw [h]
  exact ⟨⟨rfl, rfl, rfl⟩, rfl⟩

theorem CopyOf.isFile
    (h : CopyOf codec x s)
    (hFile : x.source ≠ none)
    (hSize : x.size ≤ maxSingleFileBytes) :
    s.IsFile codec := by
  unfold CopyOf at h
  split at h
  · rename_i hFolder
    exact absurd hFolder hFile
  · rcases h with ⟨bytes, hLength, rfl⟩
    exact ⟨rfl, rfl, hLength ▸ hSize, rfl⟩

theorem forall₂_left
    {β : Type} {R : α → β → Prop}
    {l : List α} {l' : List β} {a : α}
    (h : List.Forall₂ R l l')
    (hMem : a ∈ l) : ∃ b ∈ l', R a b := by
  induction h with
  | nil => cases hMem
  | cons hHead _ ih =>
      rcases List.mem_cons.mp hMem with rfl | hMem
      · exact ⟨_, List.mem_cons_self, hHead⟩
      · rcases ih hMem with ⟨b, hb, hR⟩
        exact ⟨b, List.mem_cons_of_mem _ hb, hR⟩

/- What was scanned and copied is fit for an archive. -/
theorem captured_of_copies
    {mtime : Option Nat}
    (hNew : ScanResult notesRootName new)
    (hCopies :
      List.Forall₂ (CopyOf codec)
        (⟨notesRootName, 0, mtime, none⟩ :: new) staged)
    (hTotal : stagedBytes staged ≤ maxTotalUncompressedBytes) :
    Captured codec staged where
  root := by
    rcases forall₂_left hCopies List.mem_cons_self with
      ⟨s, hs, hCopy⟩
    exact ⟨s, hs, hCopy.path, (hCopy.isFolder rfl).1⟩
  placed := by
    intro s hs
    rcases forall₂_left hCopies.flip hs with ⟨x, hx, hCopy⟩
    have hPath := CopyOf.path hCopy
    rcases List.mem_cons.mp hx with rfl | hMem
    · exact .inl hPath
    · right
      rcases hNew.placed x hMem with
        ⟨parent, name, hName, hPlace, hParent⟩
      refine ⟨parent, name, hName, hPath.trans hPlace, ?_⟩
      rcases hParent with rfl | ⟨y, hy, hFolder, rfl⟩
      · rcases forall₂_left hCopies List.mem_cons_self with
          ⟨f, hf, hRoot⟩
        exact ⟨f, hf, hRoot.path, (hRoot.isFolder rfl).1⟩
      · rcases forall₂_left hCopies
            (List.mem_cons_of_mem _ hy) with ⟨f, hf, hCopy'⟩
        exact ⟨f, hf, hCopy'.path, (hCopy'.isFolder hFolder).1⟩
  form := by
    intro s hs
    rcases forall₂_left hCopies.flip hs with ⟨x, hx, hCopy⟩
    by_cases hFolder : x.source = none
    · exact .inl (CopyOf.isFolder hCopy hFolder)
    · right
      rcases List.mem_cons.mp hx with rfl | hMem
      · exact absurd rfl hFolder
      · exact CopyOf.isFile hCopy hFolder
          (hNew.size x hMem hFolder)
  total := hTotal

variable {root : InodeId}

theorem captureOnce_collects :
    Collects (captureOnce codec root) w fun captured =>
      ∀ staged, captured = some staged →
        Captured codec staged := by
  unfold captureOnce
  refine Collects.bind (call_any ?_) fun _ w₁ _ => ?_
  · nofun
  refine Collects.bind (call_any ?_) fun _ w₂ _ => ?_
  · nofun
  refine Collects.bind (call_any ?_) fun mtime w₃ _ => ?_
  · nofun
  apply Collects.bind (scanNotesTree_collects maxDepth root
    notesRootName _ w₃)
  rintro _ w₄ ⟨new, rfl, hNew⟩
  refine Collects.bind (call_any ?_) fun _ w₅ _ => ?_
  · nofun
  apply (copyEntries_collects (Nat.zero_le _)).mono
  intro copied _ _ _ hCopied staged hStaged
  rcases hCopied staged hStaged with
    ⟨more, hMore, hCopies, hTotal⟩
  rw [List.nil_append] at hMore
  subst hMore
  exact captured_of_copies hNew hCopies (by omega)

theorem captureSnapshot_collects
    {attempts : Nat} :
    Collects (captureSnapshot codec root attempts) w
      (Captured codec) := by
  induction attempts generalizing w with
  | zero => exact within_throw
  | succ attempts ih =>
      unfold captureSnapshot
      apply captureOnce_collects.bind
      intro captured w₁ hCaptured
      split
      · rename_i staged
        exact pure_collects (hCaptured staged rfl)
      · exact ih

theorem mem_slash_of_component
    (h : validatePortableComponent name = .ok ()) :
    '/' ∉ name := by
  intro hSlash
  unfold validatePortableComponent at h
  split at h
  · cases h
  · split at h
    · cases h
    · rename_i hClean
      apply hClean
      rw [List.any_eq_true]
      exact ⟨'/', hSlash, by decide⟩

theorem splitOn_joinName
    (hName : validatePortableComponent name = .ok ())
    (parent : Text) :
    (joinName parent name).splitOn '/' =
      parent.splitOn '/' ++ [name] := by
  unfold joinName
  rw [List.splitOn_append_cons_self,
    List.splitOn_eq_singleton (mem_slash_of_component hName)]

theorem parentKey_joinName
    (hName : validatePortableComponent name = .ok ())
    (parent : Text) :
    parentKey (joinName parent name) = some parent := by
  simp only [parentKey]
  rw [splitOn_joinName hName, List.dropLast_concat,
    List.intercalate_splitOn, if_neg]
  simp [List.splitOn_ne_nil]

theorem portableKey_joinName
    {parent : Text}
    (hName : validatePortableComponent name = .ok ())
    (h : PortableKey parent) :
    PortableKey (joinName parent name) := by
  have hSplit := List.splitOn_ne_nil '/' parent
  unfold PortableKey
  rw [splitOn_joinName hName]
  constructor
  · rw [List.head?_append_of_ne_nil _ hSplit]
    exact h.1
  · rw [List.tail_append_of_ne_nil hSplit]
    intro component hMem
    rcases List.mem_append.mp hMem with hMem | hMem
    · exact h.2 component hMem
    · rw [List.mem_singleton] at hMem
      rw [hMem]
      exact hName

theorem portableKey_root : PortableKey notesRootName := by
  have hSplit : notesRootName.splitOn '/' = [notesRootName] := by
    decide
  unfold PortableKey
  rw [hSplit]
  exact ⟨rfl, fun _ hMem => nomatch hMem⟩

namespace Captured

/- By the length of the path, the folders being shorter. -/
theorem portableKey
    (h : Captured codec staged)
    (hs : s ∈ staged) : PortableKey s.entry.path := by
  induction hLength : s.entry.path.length
      using Nat.strongRecOn generalizing s with
  | ind n ih =>
      rcases h.placed s hs with
        hRoot | ⟨parent, name, hName, hPath, f, hf, hFolder, _⟩
      · rw [hRoot]
        exact portableKey_root
      · rw [hPath]
        apply portableKey_joinName hName
        rw [← hFolder]
        apply ih f.entry.path.length _ hf rfl
        rw [← hLength, hPath, hFolder]
        simp [joinName]

theorem parent
    (h : Captured codec staged)
    (hs : s ∈ staged)
    {key : Text}
    (hParent : parentKey s.entry.path = some key) :
    ∃ f ∈ staged, f.entry.path = key ∧ f.IsFolder := by
  rcases h.placed s hs with
    hRoot | ⟨parent, name, hName, hPath, hFolder⟩
  · have hNone : parentKey notesRootName = none := by decide
    rw [hRoot, hNone] at hParent
    cases hParent
  · rw [hPath, parentKey_joinName hName, Option.some.injEq]
      at hParent
    rw [← hParent]
    exact hFolder

end Captured

end S4Drive

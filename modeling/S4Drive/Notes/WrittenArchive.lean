import S4Drive.Notes.Captured

/-
  The archive that is written of a capture passes the check:
  what each step of the check wants is what a capture gives,
  as long as no two names are one on another system and the
  manifest fits beside the entries.

  Main declarations:
    * `inspectEntries_ok`, `listEntries_ok`, `verifyItems_ok`
    * `Archivable`
    * `Archivable.opens`, `Archivable.verifies`
-/

------------------------------------------------------------
-- Accepted Paths
------------------------------------------------------------

namespace S4Drive

variable {codec : BackupCodec}
variable {α : Type} {raw key : Text} {isDir : Bool}

theorem validatedArchiveKey_ok
    (hRaw : raw.getLast? = some '/' → isDir = true)
    (h : PortableKey (keyOf raw isDir)) :
    validatedArchiveKey raw isDir = .ok (keyOf raw isDir) := by
  have hKey : archiveKey raw isDir = .ok (keyOf raw isDir) := by
    unfold archiveKey keyOf
    by_cases hSlash : raw.getLast? = some '/'
    · simp [hSlash, hRaw hSlash]
    · simp [hSlash]
  have hNone :
      ((keyOf raw isDir).splitOn '/').tail.find?
        (!isPortable ·) = none := by
    rw [List.find?_eq_none]
    intro component hMem
    simp [isPortable, h.2 component hMem]
  unfold validatedArchiveKey
  rw [hKey]
  simp only [bind, Except.bind, h.1, hNone, ne_eq,
    not_true_eq_false, if_false]

theorem EntryIndex.insert_fresh
    {index : EntryIndex α}
    (value : α)
    (origin : String)
    (h : codec.portableNameKey key ∉ index.portable) :
    ∃ next, index.insert codec key value origin = .ok next ∧
      next.portable =
        codec.portableNameKey key :: index.portable := by
  unfold EntryIndex.insert
  rw [if_neg h]
  exact ⟨_, rfl, rfl⟩

/- The next of some fresh names is fresh. -/
theorem nodup_middle
    {l l' : List Text} {x : Text}
    (h : (l ++ x :: l').Nodup) :
    x ∉ l ∧ ((x :: l) ++ l').Nodup := by
  have hFirst := List.perm_middle.nodup_iff.mp h
  refine ⟨fun hMem => ?_, hFirst⟩
  exact (List.nodup_cons.mp hFirst).1
    (List.mem_append_left l' hMem)

------------------------------------------------------------
-- Accepted Entries
------------------------------------------------------------

/- A record that an inspection does not refuse. -/
structure RecordOk (entry : ZipEntry) : Prop where
  inspectable : entry.inspectable = true
  isSymlink : entry.isSymlink = false
  size : entry.size ≤ maxSingleFileBytes
  form : entry.name.getLast? = some '/' → entry.isDir = true
  portable : PortableKey (keyOf entry.name entry.isDir)

variable {stored : EntryIndex (ItemKind × Nat)}

theorem inspectEntries_ok
    {entries : List ZipEntry} {index : Nat}
    {manifests : List Nat}
    (hManifest :
      ∀ e ∈ entries, e.name = manifestName →
        e.inspectable = true)
    (hEntries :
      ∀ e ∈ entries, e.name ≠ manifestName → RecordOk e)
    (hNames :
      (stored.portable ++ (storedItems entries index).map
        fun x => codec.portableNameKey x.1).Nodup) :
    ∃ found,
      inspectEntries codec entries index manifests stored =
        .ok found := by
  induction entries generalizing index manifests stored with
  | nil => exact ⟨_, rfl⟩
  | cons entry rest ih =>
      have hRest (e : ZipEntry) (hMem : e ∈ rest) :=
        List.mem_cons_of_mem entry hMem
      unfold inspectEntries
      unfold storedItems at hNames
      by_cases hName : entry.name = manifestName
      · have hSeen :=
          hManifest entry List.mem_cons_self hName
        simp only [hName, hSeen, if_true, Bool.not_true,
          Bool.false_eq_true, if_false] at hNames ⊢
        exact ih (fun e he => hManifest e (hRest e he))
          (fun e he => hEntries e (hRest e he)) hNames
      · have hRecord := hEntries entry List.mem_cons_self hName
        simp only [hName, if_false, List.map_cons] at hNames
        rcases nodup_middle hNames with ⟨hFresh, hNext⟩
        rcases EntryIndex.insert_fresh
            (kindOf entry.isDir, index) "archive" hFresh with
          ⟨next, hInsert, hPortable⟩
        have hKey := validatedArchiveKey_ok hRecord.form
          hRecord.portable
        have hSize := not_lt.mpr hRecord.size
        simp only [hName, hRecord.inspectable,
          hRecord.isSymlink, Bool.not_true,
          Bool.false_eq_true, if_false, gt_iff_lt, hSize, hKey,
          bind, Except.bind, hInsert]
        rw [← hPortable] at hNext
        exact ih (fun e he => hManifest e (hRest e he))
          (fun e he => hEntries e (hRest e he)) hNext

theorem manifestItem_ok
    {entry : BackupManifestEntry}
    (hEntry : EntryOk entry)
    (hForm :
      entry.path.getLast? = some '/' →
        entry.kind = "directory") :
    manifestItem entry =
      .ok ((listedItem entry).1, (listedItem entry).2.1) := by
  have hKind : manifestKind entry =
      .ok (kindOf (entry.kind = "directory")) := by
    unfold manifestKind
    rcases hEntry.form with hFolder | hFile
    · rw [if_pos hFolder]
      simp [hFolder.1, kindOf]
    · rw [if_neg, if_pos hFile]
      · simp [hFile.1, kindOf]
      · simp [hFile.1]
  have hIs :
      decide (kindOf (decide (entry.kind = "directory")) =
        ItemKind.directory) =
        decide (entry.kind = "directory") := by
    by_cases h : entry.kind = "directory" <;> simp [h, kindOf]
  have hKey :
      validatedArchiveKey entry.path (entry.kind = "directory") =
        .ok (keyOf entry.path (entry.kind = "directory")) :=
    validatedArchiveKey_ok
      (fun hSlash => decide_eq_true (hForm hSlash))
      hEntry.portable
  unfold manifestItem
  simp only [hKind, bind, Except.bind, hIs, hKey]
  rfl

variable {listed : EntryIndex (ItemKind × BackupManifestEntry)}

theorem listEntries_ok
    {entries : List BackupManifestEntry}
    (hEntries :
      ∀ e ∈ entries, EntryOk e ∧
        (e.path.getLast? = some '/' → e.kind = "directory"))
    (hNames :
      (listed.portable ++ entries.map fun e =>
        codec.portableNameKey (listedItem e).1).Nodup) :
    ∃ all, listEntries codec entries listed = .ok all := by
  induction entries generalizing listed with
  | nil => exact ⟨_, rfl⟩
  | cons entry rest ih =>
      have hEntry := hEntries entry List.mem_cons_self
      have hItem := manifestItem_ok hEntry.1 hEntry.2
      rw [List.map_cons] at hNames
      rcases nodup_middle hNames with ⟨hFresh, hNext⟩
      rcases EntryIndex.insert_fresh
          ((listedItem entry).2.1, entry) "manifest" hFresh with
        ⟨next, hInsert, hPortable⟩
      unfold listEntries
      simp only [hItem, bind, Except.bind, hInsert]
      rw [← hPortable] at hNext
      exact ih
        (fun e he => hEntries e (List.mem_cons_of_mem entry he))
        hNext

theorem checkStored_ok
    {listed : List (Text × ItemKind × BackupManifestEntry)}
    (h :
      ∀ x ∈ listed, ∃ index,
        stored.byKey.lookup x.1 = some (x.2.1, index)) :
    checkStored stored listed = .ok () := by
  induction listed with
  | nil => rfl
  | cons x rest ih =>
      rcases x with ⟨key, kind, entry⟩
      rcases h _ List.mem_cons_self with ⟨index, hLookup⟩
      unfold checkStored
      simp only [hLookup, ne_eq, not_true_eq_false, if_false]
      exact ih fun x hx => h x (List.mem_cons_of_mem _ hx)

theorem checkFolders_ok
    (hStored : ∀ key ∈ stored.keys, key ∈ listed.keys)
    (hRoot : isFolder listed notesRootName = true)
    (hParents :
      ∀ key ∈ listed.keys, ∀ parent,
        parentKey key = some parent →
          isFolder listed parent = true) :
    checkFolders stored listed = .ok () := by
  have hListed :
      stored.keys.find? (· ∉ listed.keys) = none := by
    rw [List.find?_eq_none]
    intro key hMem
    simpa using hStored key hMem
  have hInside :
      listed.keys.find? (fun key =>
        !(parentKey key).all (isFolder listed)) = none := by
    rw [List.find?_eq_none]
    intro key hMem
    cases hParent : parentKey key with
    | none => simp
    | some parent => simp [hParents key hMem parent hParent]
  unfold checkFolders
  simp only [hListed, hRoot, hInside, Bool.not_true,
    Bool.false_eq_true, if_false]

theorem copyVerified_ok
    {data : ReadData} {item : VerifiedItem} {total : Nat}
    (h : ReadOk codec data item)
    (hTotal : total + item.size ≤ maxTotalUncompressedBytes) :
    copyVerified codec data item total =
      (data.bytes, .ok (total + item.size)) := by
  have hTake :
      data.bytes.take (item.size + 1) = data.bytes :=
    List.take_of_length_le (by have := h.size; omega)
  unfold copyVerified
  simp only [hTake, h.size, h.complete, h.hash, gt_iff_lt,
    not_lt.mpr hTotal, Bool.false_eq_true, false_and, ne_eq,
    not_true_eq_false, if_false]

/- The bytes of the listed files. -/
def listedBytes
    (listed : List (Text × ItemKind × BackupManifestEntry)) :
    Nat :=
  (listed.map fun x => x.2.2.size).sum

theorem verifyItems_ok
    {read : Nat → ReadData}
    {listed : List (Text × ItemKind × BackupManifestEntry)}
    {total : Nat}
    (hRead :
      ∀ x ∈ listed, x.2.1 = .file →
        ReadOk codec (read (itemOf stored x).zipIndex)
          (itemOf stored x))
    (hTotal :
      total + listedBytes listed ≤ maxTotalUncompressedBytes) :
    ∃ items,
      verifyItems codec read stored listed total =
        .ok items := by
  induction listed generalizing total with
  | nil => exact ⟨_, rfl⟩
  | cons x rest ih =>
      have hRest (y) (hy : y ∈ rest) :=
        hRead y (List.mem_cons_of_mem x hy)
      have hSum :
          listedBytes (x :: rest) =
            x.2.2.size + listedBytes rest := by
        simp [listedBytes]
      rw [hSum] at hTotal
      unfold verifyItems verifyItem
      by_cases hFile : x.2.1 = .file
      · have hOk := hRead x List.mem_cons_self hFile
        have hSize :
            total + (itemOf stored x).size ≤
              maxTotalUncompressedBytes := by
          have hItem : (itemOf stored x).size = x.2.2.size := rfl
          omega
        have hMore :
            ∃ items, verifyItems codec read stored rest
              (total + x.2.2.size) = .ok items :=
          ih hRest (by omega)
        rcases hMore with ⟨items, hItems⟩
        refine ⟨itemOf stored x :: items, ?_⟩
        have hKind : (itemOf stored x).kind = .file := hFile
        rw [if_pos hKind, copyVerified_ok hOk hSize]
        simp only [bind, Except.bind]
        have hSame : (itemOf stored x).size = x.2.2.size := rfl
        rw [hSame, hItems]
      · have hMore :
            ∃ items, verifyItems codec read stored rest total =
              .ok items :=
          ih hRest (by omega)
        rcases hMore with ⟨items, hItems⟩
        refine ⟨itemOf stored x :: items, ?_⟩
        have hKind : ¬ (itemOf stored x).kind = .file := hFile
        rw [if_neg hKind]
        simp only [bind, Except.bind, hItems]

variable {staged : List StagedEntry} {s : StagedEntry}
variable {manifest : BackupManifest}

namespace Captured

theorem getLast_ne
    (h : Captured codec staged)
    (hs : s ∈ staged) : s.entry.path.getLast? ≠ some '/' := by
  rcases h.placed s hs with
    hRoot | ⟨parent, name, hName, hPath, _⟩
  · rw [hRoot]
    decide
  · have hSlash := mem_slash_of_component hName
    rw [hPath, joinName, List.getLast?_append_cons]
    intro hLast
    cases name with
    | nil => exact absurd hName (by decide)
    | cons c rest =>
        rw [List.getLast?_cons_cons] at hLast
        exact hSlash (List.mem_of_getLast? hLast)

theorem ne_manifestName
    (h : Captured codec staged)
    (hs : s ∈ staged) : s.entry.path ≠ manifestName := by
  intro hSame
  have hHead := (h.portableKey hs).1
  rw [hSame] at hHead
  exact absurd hHead (by decide)

theorem keyOf_path
    (h : Captured codec staged)
    (hs : s ∈ staged)
    (isDir : Bool) :
    keyOf s.entry.path isDir = s.entry.path := by
  unfold keyOf
  rw [if_neg fun hForm => h.getLast_ne hs hForm.1]

theorem entry_size
    (h : Captured codec staged)
    (hs : s ∈ staged) : s.entry.size = s.bytes.length := by
  rcases h.form s hs with ⟨hFolder, hEmpty⟩ | hFile
  · rw [hFolder.2.1, hEmpty]
    rfl
  · exact hFile.2.1

/- What the writer makes of a staged entry. -/
theorem zipEntryOf_cases
    (h : Captured codec staged)
    (hs : s ∈ staged) :
    s.IsFolder ∧ zipEntryOf s =
        ⟨true, s.entry.path ++ ['/'], true, false, 0⟩ ∨
      s.IsFile codec ∧ zipEntryOf s =
        ⟨true, s.entry.path, false, false, s.bytes.length⟩ := by
  have hLast := h.getLast_ne hs
  rcases h.form s hs with ⟨hFolder, _⟩ | hFile
  · left
    simp [zipEntryOf, hFolder, hFolder.1, hLast]
  · right
    simp [zipEntryOf, hFile, hFile.1]

theorem record
    (h : Captured codec staged)
    (hs : s ∈ staged) :
    RecordOk (zipEntryOf s) ∧
      (zipEntryOf s).name ≠ manifestName ∧
      (zipEntryOf s).isDir =
        decide (s.entry.kind = "directory") ∧
      keyOf (zipEntryOf s).name (zipEntryOf s).isDir =
        s.entry.path := by
  have hPortable := h.portableKey hs
  rcases h.zipEntryOf_cases hs with
    ⟨hFolder, hZip⟩ | ⟨hFile, hZip⟩
  · have hKey : keyOf (s.entry.path ++ ['/']) true =
        s.entry.path := by
      simp [keyOf]
    rw [hZip]
    refine ⟨⟨rfl, rfl, Nat.zero_le _, fun _ => rfl, ?_⟩, ?_,
      ?_, hKey⟩
    · rw [hKey]
      exact hPortable
    · intro hSame
      have hEnd := congrArg List.getLast? hSame
      rw [List.getLast?_concat] at hEnd
      exact absurd hEnd (by decide)
    · simp [hFolder.1]
  · have hKey := h.keyOf_path hs false
    rw [hZip]
    refine ⟨⟨rfl, rfl, hFile.2.2.1, ?_, ?_⟩,
      h.ne_manifestName hs, ?_, hKey⟩
    · exact fun hSlash => absurd hSlash (h.getLast_ne hs)
    · rw [hKey]
      exact hPortable
    · simp [hFile.1]

theorem listedItem_entry
    (h : Captured codec staged)
    (hs : s ∈ staged) :
    listedItem s.entry =
      (s.entry.path, kindOf (s.entry.kind = "directory"),
        s.entry) := by
  unfold listedItem
  rw [h.keyOf_path hs]

theorem entryOk
    (h : Captured codec staged)
    (hs : s ∈ staged) : EntryOk s.entry where
  portable := by
    rw [h.keyOf_path hs]
    exact h.portableKey hs
  form := by
    rcases h.form s hs with ⟨hFolder, _⟩ | hFile
    · exact .inl ⟨hFolder.1, hFolder.2.2, hFolder.2.1⟩
    · right
      refine ⟨hFile.1, ?_, ?_⟩
      · rw [hFile.2.2.2]
        rfl
      · rw [hFile.2.1]
        exact hFile.2.2.1

end Captured

/- How a staged entry with its position is stored. -/
def storedAs (x : StagedEntry × Nat) : Text × ItemKind × Nat :=
  (x.1.entry.path, kindOf (x.1.entry.kind = "directory"), x.2)

theorem storedItems_staged
    (h : Captured codec staged)
    {part : List StagedEntry}
    (hPart : ∀ s ∈ part, s ∈ staged)
    (rest : List ZipEntry)
    (index : Nat) :
    storedItems (part.map zipEntryOf ++ rest) index =
        (part.zipIdx index).map storedAs ++
          storedItems rest (index + part.length) ∧
      manifestPositions (part.map zipEntryOf ++ rest) index =
        manifestPositions rest (index + part.length) := by
  induction part generalizing index with
  | nil => simp
  | cons s part ih =>
      have hs := hPart s List.mem_cons_self
      rcases h.record hs with ⟨_, hName, hDir, hKey⟩
      rcases ih (fun s hs => hPart s (List.mem_cons_of_mem _ hs))
          (index + 1) with ⟨hItems, hPositions⟩
      have hIndex :
          index + 1 + part.length = index + (s :: part).length := by
        simp only [List.length_cons]
        omega
      rw [hIndex] at hItems hPositions
      constructor
      · simp only [List.map_cons, List.cons_append, storedItems,
          hName, if_false, hItems, hKey, List.zipIdx_cons]
        rw [hDir]
        rfl
      · simp only [List.map_cons, List.cons_append,
          manifestPositions, hName, if_false, hPositions]

------------------------------------------------------------
-- Archives of Captures
------------------------------------------------------------

/- A capture of which an archive can be made. -/
structure Archivable
    (codec : BackupCodec)
    (staged : List StagedEntry)
    (manifest : BackupManifest) : Prop where
  captured : Captured codec staged
  -- The manifest is an entry of the archive, too.
  count : staged.length < maxBackupEntries
  names :
    (staged.map fun s =>
      codec.portableNameKey s.entry.path).Nodup
  format : manifest.format = backupFormat
  version : manifest.version = backupVersion
  entries : manifest.entries = staged.map StagedEntry.entry
  size :
    (codec.serializeManifest manifest).length ≤
      maxManifestBytes
  parsed :
    codec.parseManifest (codec.serializeManifest manifest) =
      some manifest

/- The archive of a capture and its manifest. -/
def archiveOf
    (codec : BackupCodec)
    (staged : List StagedEntry)
    (manifest : BackupManifest) : StoredZip :=
  writtenZip staged (codec.serializeManifest manifest)

theorem foldl_keepLast_append
    {directory kept : List ZipEntry}
    (h : ((kept ++ directory).map ZipEntry.name).Nodup) :
    directory.foldl (fun l e => keepLast e l) kept =
      kept ++ directory := by
  induction directory generalizing kept with
  | nil => simp
  | cons entry rest ih =>
      have hSplit :
          kept ++ entry :: rest = (kept ++ [entry]) ++ rest := by
        simp
      rw [hSplit] at h ⊢
      rw [List.foldl_cons]
      have hNew : keepLast entry kept = kept ++ [entry] := by
        rcases keepLast_cases entry kept with
          ⟨⟨x, hMem, hName⟩, _⟩ | ⟨_, hAppend⟩
        · have hKept : ((kept ++ [entry]).map
              ZipEntry.name).Nodup := by
            rw [List.map_append] at h
            exact (List.nodup_append.mp h).1
          rw [List.map_append, List.nodup_append] at hKept
          exact absurd hName (hKept.2.2 x.name
            (List.mem_map_of_mem hMem) entry.name (by simp))
        · exact hAppend
      rw [hNew]
      exact ih h

/- The path that the name of a record stands for. -/
def pathOfName (name : Text) : Text :=
  if name.getLast? = some '/' then name.dropLast else name

/- Every staged entry has its bytes where it is stored. -/
theorem readFrom_eq
    {index : Nat}
    (hs : (s, index) ∈ staged.zipIdx) :
    readFrom (archiveOf codec staged manifest).data index =
      ⟨s.bytes, false⟩ := by
  have hAt := List.mem_zipIdx_iff_getElem?.mp hs
  have hLength := (List.getElem?_eq_some_iff.mp hAt).1
  unfold readFrom archiveOf writtenZip
  rw [List.getD_eq_getElem?_getD,
    List.getElem?_append_left (by simpa using hLength)]
  simp [hAt]

theorem readFrom_manifest :
    readFrom (archiveOf codec staged manifest).data
        staged.length =
      ⟨codec.serializeManifest manifest, false⟩ := by
  unfold readFrom archiveOf writtenZip
  rw [List.getD_eq_getElem?_getD,
    List.getElem?_append_right (by simp)]
  simp

namespace Archivable

variable (h : Archivable codec staged manifest)
include h

theorem names_nodup :
    ((archiveOf codec staged manifest).file.directory.map
      ZipEntry.name).Nodup := by
  have hPath (s) (hs : s ∈ staged) :
      pathOfName (zipEntryOf s).name = s.entry.path := by
    have hLast := h.captured.getLast_ne hs
    unfold pathOfName
    rcases h.captured.zipEntryOf_cases hs with
      ⟨_, hZip⟩ | ⟨_, hZip⟩
    · simp [hZip]
    · simp [hZip, hLast]
  have hPaths :
      ((archiveOf codec staged manifest).file.directory.map
        ZipEntry.name).map pathOfName =
        staged.map (fun s => s.entry.path) ++ [manifestName] := by
    have hManifest :
        pathOfName manifestName = manifestName := by
      decide
    simp only [archiveOf, writtenZip, List.map_append,
      List.map_map, List.map_cons, List.map_nil, hManifest]
    congr 1
    exact List.map_congr_left hPath
  apply List.Nodup.of_map pathOfName
  rw [hPaths, List.nodup_append]
  refine ⟨?_, by simp, ?_⟩
  · apply List.Nodup.of_map codec.portableNameKey
    rw [List.map_map]
    exact h.names
  · intro path hMem other hOther
    rcases List.mem_map.mp hMem with ⟨s, hs, rfl⟩
    rw [List.mem_singleton] at hOther
    rw [hOther]
    exact h.captured.ne_manifestName hs

theorem entries_eq :
    (archiveOf codec staged manifest).file.entries =
      (archiveOf codec staged manifest).file.directory :=
  foldl_keepLast_append h.names_nodup

theorem opens :
    openArchive (some (archiveOf codec staged manifest).file) =
      .ok (archiveOf codec staged manifest).file := by
  have hCount := h.count
  have hLength :
      (archiveOf codec staged manifest).file.directory.length =
        staged.length + 1 := by
    simp [archiveOf, writtenZip]
  unfold openArchive checkArchive
    ZipFile.centralDirectoryRecords
  simp only [h.entries_eq, hLength]
  rw [if_neg (by omega), if_neg (by omega)]

theorem readsManifest
    {entry : ZipEntry}
    (hSize :
      entry.size =
        (codec.serializeManifest manifest).length) :
    readManifest codec entry
        (readFrom (archiveOf codec staged manifest).data
          staged.length) =
      .ok (manifest, codec.serializeManifest manifest) := by
  have hLimit := not_lt.mpr h.size
  rw [readFrom_manifest]
  unfold readManifest
  simp only [hSize, gt_iff_lt, hLimit, Bool.false_eq_true,
    false_and, if_false, h.parsed, h.format, h.version, ne_eq,
    not_true_eq_false]

theorem inspected :
    ∃ stored,
      inspectEntries codec
          (archiveOf codec staged manifest).file.directory 0 []
          .new = .ok ([staged.length], stored) ∧
        stored.Ok codec ∧
        stored.byKey.Perm (staged.zipIdx.map storedAs) := by
  have hStored := storedItems_staged h.captured
    (fun s hs => hs)
    [⟨true, manifestName, false, false,
      (codec.serializeManifest manifest).length⟩] 0
  simp only [storedItems, manifestPositions, if_true,
    List.append_nil, Nat.zero_add] at hStored
  have hFound : ∃ found,
      inspectEntries codec
        (archiveOf codec staged manifest).file.directory 0 []
        .new = .ok found := by
    apply inspectEntries_ok
    · intro e hMem _
      rcases List.mem_append.mp hMem with hMem | hMem
      · rcases List.mem_map.mp hMem with ⟨s, hs, rfl⟩
        exact (h.captured.record hs).1.inspectable
      · rw [List.mem_singleton] at hMem
        rw [hMem]
    · intro e hMem hName
      rcases List.mem_append.mp hMem with hMem | hMem
      · rcases List.mem_map.mp hMem with ⟨s, hs, rfl⟩
        exact (h.captured.record hs).1
      · rw [List.mem_singleton] at hMem
        rw [hMem] at hName
        exact absurd rfl hName
    · have hItems :
          storedItems
            (archiveOf codec staged manifest).file.directory 0 =
            staged.zipIdx.map storedAs := hStored.1
      have hPaths :
          (staged.zipIdx.map storedAs).map
              (fun x => codec.portableNameKey x.1) =
            (staged.zipIdx.map Prod.fst).map
              fun s => codec.portableNameKey s.entry.path := by
        rw [List.map_map, List.map_map]
        rfl
      rw [hItems, hPaths, List.zipIdx_map_fst]
      exact h.names
  rcases hFound with ⟨⟨indexes, stored⟩, hFound⟩
  rcases inspectEntries_spec EntryIndex.ok_new hFound with
    ⟨hOk, hPerm, hIndexes, _⟩
  have hOne : indexes = [staged.length] :=
    hIndexes.trans hStored.2
  rw [hOne] at hFound
  refine ⟨stored, hFound, hOk, hPerm.trans ?_⟩
  have hItems :
      storedItems
        (archiveOf codec staged manifest).file.directory 0 =
        staged.zipIdx.map storedAs := hStored.1
  rw [hItems]
  simp [EntryIndex.new]

/- How the manifest lists a staged entry. -/
theorem listing :
    ∃ listed,
      listEntries codec manifest.entries .new = .ok listed ∧
        listed.Ok codec ∧
        listed.byKey.Perm
          (staged.map fun s => listedItem s.entry) := by
  have hFound : ∃ listed,
      listEntries codec manifest.entries .new = .ok listed := by
    rw [h.entries]
    apply listEntries_ok
    · intro e hMem
      rcases List.mem_map.mp hMem with ⟨s, hs, rfl⟩
      exact ⟨h.captured.entryOk hs,
        fun hSlash => absurd hSlash (h.captured.getLast_ne hs)⟩
    · rw [List.map_map]
      have hPaths :
          staged.map ((fun e =>
              codec.portableNameKey (listedItem e).1) ∘
              StagedEntry.entry) =
            staged.map fun s =>
              codec.portableNameKey s.entry.path := by
        apply List.map_congr_left
        intro s hs
        simp only [Function.comp_apply,
          h.captured.listedItem_entry hs]
      rw [hPaths]
      exact h.names
  rcases hFound with ⟨listed, hListed⟩
  rcases listEntries_spec EntryIndex.ok_new hListed with
    ⟨hOk, hPerm, _⟩
  refine ⟨listed, hListed, hOk, ?_⟩
  simp only [EntryIndex.new, List.append_nil, h.entries,
    List.map_map] at hPerm
  exact hPerm

end Archivable

/- A verified item is a staged entry with its bytes. -/
structure HoldsItem
    (codec : BackupCodec)
    (data : List ReadData)
    (s : StagedEntry)
    (item : VerifiedItem) : Prop where
  key : item.key = s.entry.path
  kind : item.kind = kindOf (s.entry.kind = "directory")
  read : readFrom data item.zipIndex = ⟨s.bytes, false⟩
  size : item.size = s.bytes.length
  blake3 : item.blake3 = s.entry.blake3

theorem Captured.readOk
    {data : List ReadData} {item : VerifiedItem}
    (h : Captured codec staged)
    (hs : s ∈ staged)
    (hItem : HoldsItem codec data s item)
    (hFile : item.kind = .file) :
    ReadOk codec (readFrom data item.zipIndex) item := by
  rcases h.form s hs with ⟨hFolder, _⟩ | hIs
  · have hKind := hItem.kind
    rw [hFile] at hKind
    simp [hFolder.1, kindOf] at hKind
  · rw [hItem.read]
    refine ⟨rfl, hItem.size.symm, ?_⟩
    rw [hItem.blake3]
    exact hIs.2.2.2

namespace Archivable

variable (h : Archivable codec staged manifest)
include h

/- The item that stands for a staged entry. -/
theorem holdsItem
    (hStored : stored.Ok codec)
    (hPerm : stored.byKey.Perm (staged.zipIdx.map storedAs))
    (hs : s ∈ staged) :
    (∃ index, stored.byKey.lookup s.entry.path =
      some (kindOf (s.entry.kind = "directory"), index)) ∧
    HoldsItem codec (archiveOf codec staged manifest).data s
      (itemOf stored (listedItem s.entry)) := by
  rcases List.mem_iff_getElem?.mp hs with ⟨index, hAt⟩
  have hIn : (s, index) ∈ staged.zipIdx :=
    List.mem_zipIdx_iff_getElem?.mpr hAt
  have hMem : storedAs (s, index) ∈ stored.byKey :=
    hPerm.mem_iff.mpr (List.mem_map_of_mem hIn)
  have hLookup := hStored.lookup_iff.mpr hMem
  refine ⟨⟨index, hLookup⟩, ?_⟩
  rw [h.captured.listedItem_entry hs]
  refine ⟨rfl, rfl, ?_, h.captured.entry_size hs, rfl⟩
  have hIndex :
      (itemOf stored (s.entry.path,
        kindOf (s.entry.kind = "directory"),
        s.entry)).zipIndex = index := by
    simp only [itemOf]
    rw [hLookup]
    rfl
  rw [hIndex]
  exact readFrom_eq hIn

theorem listedBytes_eq
    (hPerm :
      listed.byKey.Perm
        (staged.map fun s => listedItem s.entry)) :
    listedBytes listed.byKey = stagedBytes staged := by
  have hSum := (hPerm.map fun x => x.2.2.size).sum_nat
  unfold listedBytes stagedBytes
  rw [hSum, List.map_map]
  congr 1
  exact List.map_congr_left fun s hs => h.captured.entry_size hs

theorem foldersListed
    (hStored : stored.byKey.Perm (staged.zipIdx.map storedAs))
    (hListed : listed.Ok codec)
    (hPerm :
      listed.byKey.Perm
        (staged.map fun s => listedItem s.entry)) :
    checkFolders stored listed = .ok () := by
  have hIn (s) (hs : s ∈ staged) :
      listedItem s.entry ∈ listed.byKey :=
    hPerm.mem_iff.mpr (List.mem_map.mpr ⟨s, hs, rfl⟩)
  have hFolder {s} (hs : s ∈ staged) (hIs : s.IsFolder) :
      isFolder listed s.entry.path = true := by
    have hEntry := hIn s hs
    rw [h.captured.listedItem_entry hs] at hEntry
    rw [isFolder_iff hListed]
    refine ⟨s.entry, ?_⟩
    simpa [hIs.1, kindOf] using hEntry
  apply checkFolders_ok
  · intro key hMem
    rcases List.mem_map.mp hMem with ⟨x, hx, rfl⟩
    rcases List.mem_map.mp (hStored.mem_iff.mp hx) with
      ⟨⟨s, index⟩, hAt, rfl⟩
    have hs := List.fst_mem_of_mem_zipIdx hAt
    have hEntry := hIn s hs
    rw [h.captured.listedItem_entry hs] at hEntry
    exact List.mem_map.mpr ⟨_, hEntry, rfl⟩
  · rcases h.captured.root with ⟨s, hs, hPath, hIs⟩
    rw [← hPath]
    exact hFolder hs hIs
  · intro key hMem parent hParent
    rcases List.mem_map.mp hMem with ⟨x, hx, rfl⟩
    rcases List.mem_map.mp (hPerm.mem_iff.mp hx) with
      ⟨s, hs, rfl⟩
    rw [h.captured.listedItem_entry hs] at hParent
    rcases h.captured.parent hs hParent with
      ⟨f, hf, rfl, hIs⟩
    exact hFolder hf hIs

/- The archive of a capture passes its check. -/
theorem verifies :
    ∃ archive item,
      verifyArchive codec (archiveOf codec staged manifest).file
          (readFrom (archiveOf codec staged manifest).data) =
          .ok archive ∧
        archive.manifest = manifest ∧
        archive.manifestBytes =
          codec.serializeManifest manifest ∧
        archive.items.Perm (staged.map item) ∧
        ∀ s ∈ staged,
          HoldsItem codec (archiveOf codec staged manifest).data
            s (item s) := by
  rcases h.inspected with ⟨stored, hFound, hStored, hKeys⟩
  rcases h.listing with ⟨listed, hListing, hListed, hPerm⟩
  have hItem (s) (hs : s ∈ staged) :=
    h.holdsItem hStored hKeys hs
  have hChecked : checkStored stored listed.byKey = .ok () := by
    apply checkStored_ok
    intro x hx
    rcases List.mem_map.mp (hPerm.mem_iff.mp hx) with
      ⟨s, hs, rfl⟩
    rw [h.captured.listedItem_entry hs]
    exact (hItem s hs).1
  have hFolders := h.foldersListed hKeys hListed hPerm
  have hItems : ∃ items,
      verifyItems codec
        (readFrom (archiveOf codec staged manifest).data) stored
        listed.byKey 0 = .ok items := by
    apply verifyItems_ok
    · intro x hx hFile
      rcases List.mem_map.mp (hPerm.mem_iff.mp hx) with
        ⟨s, hs, rfl⟩
      exact h.captured.readOk hs (hItem s hs).2 hFile
    · rw [h.listedBytes_eq hPerm, Nat.zero_add]
      exact h.captured.total
  rcases hItems with ⟨items, hItems⟩
  have hAll := (verifyItems_spec hItems).1
  refine ⟨⟨manifest, codec.serializeManifest manifest, items⟩,
    fun s => itemOf stored (listedItem s.entry), ?_, rfl, rfl,
    ?_, fun s hs => (hItem s hs).2⟩
  · have hEntry :
        (archiveOf codec staged manifest).file.directory[
          staged.length]? =
          some ⟨true, manifestName, false, false,
            (codec.serializeManifest manifest).length⟩ := by
      simp [archiveOf, writtenZip]
    have hManifest :
        readManifest codec
          ⟨true, manifestName, false, false,
            (codec.serializeManifest manifest).length⟩
          (readFrom (archiveOf codec staged manifest).data
            staged.length) =
          .ok (manifest, codec.serializeManifest manifest) :=
      h.readsManifest rfl
    unfold verifyArchive
    rw [h.entries_eq]
    simp only [hFound, bind, Except.bind, hEntry, hManifest,
      hListing, hChecked, hFolders, hItems]
  · rw [hAll]
    have hMapped := hPerm.map (itemOf stored)
    rwa [List.map_map] at hMapped

end Archivable

end S4Drive

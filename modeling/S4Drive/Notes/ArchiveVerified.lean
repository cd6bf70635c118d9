import Mathlib.Data.List.Perm.Basic
import S4Drive.Notes.Archive

/-
  What a verified archive is: the manifest and the ZIP list
  the same keys once each, every key is a portable path
  inside Notes in a listed folder, and every file has the
  listed size and hash.

  Main declarations:
    * `EntryIndex.Ok`
    * `inspectEntries_spec`, `listEntries_spec`,
      `verifyItems_spec`
    * `ArchiveSound`, `archiveSound_of_verify`
-/

------------------------------------------------------------
-- Records of the Directory
------------------------------------------------------------

namespace S4Drive

variable {codec : BackupCodec}
variable {α β γ : Type}

theorem bind_eq_ok
    {x : BackupExcept β} {f : β → BackupExcept γ} {c : γ}
    (h : (x >>= f) = .ok c) : ∃ a, x = .ok a ∧ f a = .ok c := by
  cases x with
  | error e => cases h
  | ok a => exact ⟨a, rfl, h⟩

theorem keepLast_cases (entry : ZipEntry) (kept : List ZipEntry) :
    (∃ x ∈ kept, x.name = entry.name) ∧
        (keepLast entry kept).length = kept.length ∨
      (∀ x ∈ kept, x.name ≠ entry.name) ∧
        keepLast entry kept = kept ++ [entry] := by
  induction kept with
  | nil => exact .inr ⟨by simp, rfl⟩
  | cons x rest ih =>
      by_cases hSame : x.name = entry.name
      · left
        simp [keepLast, hSame]
      · rcases ih with ⟨⟨y, hMem, hName⟩, hLength⟩ | ⟨hNew, hRest⟩
        · left
          refine ⟨⟨y, List.mem_cons_of_mem x hMem, hName⟩, ?_⟩
          simp [keepLast, hSame, hLength]
        · right
          refine ⟨?_, by simp [keepLast, hSame, hRest]⟩
          intro y hMem
          rcases List.mem_cons.mp hMem with rfl | hMem
          · exact hSame
          · exact hNew y hMem

theorem length_foldl_keepLast
    (directory kept : List ZipEntry) :
    (directory.foldl (fun l e => keepLast e l) kept).length ≤
      kept.length + directory.length := by
  induction directory generalizing kept with
  | nil => simp
  | cons entry rest ih =>
      have hRest := ih (keepLast entry kept)
      have hOne : (keepLast entry kept).length ≤
          kept.length + 1 := by
        rcases keepLast_cases entry kept with ⟨_, h⟩ | ⟨_, h⟩
        · omega
        · simp [h]
      simp only [List.foldl_cons, List.length_cons]
      omega

/- As many entries as records: no name comes twice. -/
theorem foldl_keepLast_eq
    {directory kept : List ZipEntry}
    (hKept : (kept.map ZipEntry.name).Nodup)
    (hLength :
      (directory.foldl (fun l e => keepLast e l) kept).length =
        kept.length + directory.length) :
    directory.foldl (fun l e => keepLast e l) kept =
        kept ++ directory ∧
      ((kept ++ directory).map ZipEntry.name).Nodup := by
  induction directory generalizing kept with
  | nil => simpa using hKept
  | cons entry rest ih =>
      simp only [List.foldl_cons, List.length_cons]
        at hLength ⊢
      have hRest := length_foldl_keepLast rest
        (keepLast entry kept)
      rcases keepLast_cases entry kept with
        ⟨_, hSame⟩ | ⟨hNew, hAppend⟩
      · omega
      · rw [hAppend] at hLength hRest ⊢
        have hNodup :
            ((kept ++ [entry]).map ZipEntry.name).Nodup := by
          rw [List.map_append, List.nodup_append]
          refine ⟨hKept, by simp, ?_⟩
          intro name hMem other hOther
          rcases List.mem_map.mp hMem with ⟨x, hx, rfl⟩
          simp only [List.map_cons, List.map_nil,
            List.mem_singleton] at hOther
          rw [hOther]
          exact hNew x hx
        have hAll := ih hNodup (by
          rw [hLength]
          simp only [List.length_append, List.length_cons,
            List.length_nil]
          omega)
        simpa [List.append_assoc] using hAll

/- An opened archive has one record for each name. -/
theorem openArchive_spec
    {zip : Option ZipFile} {opened : ZipFile}
    (h : openArchive zip = .ok opened) :
    zip = some opened ∧ opened.entries = opened.directory ∧
      (opened.directory.map ZipEntry.name).Nodup := by
  cases zip with
  | none => cases h
  | some zip =>
      dsimp only [openArchive, checkArchive] at h
      split at h
      · cases h
      · rename_i hLimit
        split at h
        · cases h
        · rename_i hCount
          have hEqual :
              zip.centralDirectoryRecords = zip.entries.length :=
            Decidable.not_not.mp hCount
          have hRecords :
              zip.entries.length =
                ([] : List ZipEntry).length +
                  zip.directory.length := by
            unfold ZipFile.centralDirectoryRecords at hEqual
            simp only [List.length_nil]
            omega
          have hAll :=
            @foldl_keepLast_eq zip.directory [] (by simp)
              hRecords
          cases h
          exact ⟨rfl, hAll.1, hAll.2⟩

/- The key that an accepted path stands for. -/
def keyOf (raw : Text) (isDir : Bool) : Text :=
  if raw.getLast? = some '/' ∧ isDir = true then raw.dropLast
  else raw

/- A portable path inside the Notes folder, or the folder. -/
def PortableKey (key : Text) : Prop :=
  (key.splitOn '/').head? = some notesRootName ∧
    ∀ component ∈ (key.splitOn '/').tail,
      validatePortableComponent component = .ok ()

theorem validatedArchiveKey_spec
    {raw key : Text} {isDir : Bool}
    (h : validatedArchiveKey raw isDir = .ok key) :
    key = keyOf raw isDir ∧ PortableKey key := by
  unfold validatedArchiveKey at h
  rcases bind_eq_ok h with ⟨key', hKey, hRest⟩
  have hOf : key' = keyOf raw isDir := by
    unfold archiveKey at hKey
    unfold keyOf
    split at hKey
    · split at hKey <;> simp_all
    · simp_all
  dsimp only at hRest
  split at hRest
  · cases hRest
  · rename_i hRoot
    split at hRest
    · cases hRest
    · rename_i hNone
      cases hRest
      refine ⟨hOf, Decidable.not_not.mp hRoot, ?_⟩
      intro component hMem
      have hPortable :=
        List.find?_eq_none.mp hNone component hMem
      unfold isPortable at hPortable
      cases hValid : validatePortableComponent component with
      | ok u => rfl
      | error e => simp [hValid] at hPortable

variable {key : Text}

namespace EntryIndex

/- The keys are sorted and no two of them are aliases. -/
structure Ok
    (codec : BackupCodec)
    (index : EntryIndex α) : Prop where
  sorted : index.byKey.Pairwise fun a b => a.1 ≤ b.1
  portable :
    index.portable.Perm
      (index.keys.map codec.portableNameKey)
  distinct : index.portable.Nodup

theorem ok_new : (new : EntryIndex α).Ok codec where
  sorted := List.Pairwise.nil
  portable := List.Perm.refl _
  distinct := List.nodup_nil

variable {index : EntryIndex α}

theorem Ok.aliases
    (h : index.Ok codec) :
    (index.keys.map codec.portableNameKey).Nodup :=
  h.portable.nodup_iff.mp h.distinct

theorem Ok.nodup
    (h : index.Ok codec) : index.keys.Nodup :=
  h.aliases.of_map _

instance : Std.Total fun a b : Text × α => a.1 ≤ b.1 :=
  ⟨fun a b => le_total a.1 b.1⟩

instance : IsTrans (Text × α) fun a b => a.1 ≤ b.1 :=
  ⟨fun _ _ _ h h' => le_trans h h'⟩

theorem insert_ok
    {index index' : EntryIndex α}
    {value : α} {origin : String}
    (h : index.Ok codec)
    (hInsert :
      index.insert codec key value origin = .ok index') :
    index'.Ok codec ∧
      index'.byKey.Perm ((key, value) :: index.byKey) := by
  unfold insert at hInsert
  split at hInsert
  · cases hInsert
  · rename_i hFresh
    cases hInsert
    have hPerm := List.perm_orderedInsert
      (fun a b : Text × α => a.1 ≤ b.1) (key, value)
      index.byKey
    refine ⟨⟨?_, ?_, ?_⟩, hPerm⟩
    · exact h.sorted.orderedInsert (key, value) _
    · have hKeys := (hPerm.map Prod.fst).map
        codec.portableNameKey
      exact (h.portable.cons _).trans hKeys.symm
    · exact List.nodup_cons.mpr ⟨hFresh, h.distinct⟩

theorem Ok.lookup_iff
    {value : α}
    (h : index.Ok codec) :
    index.byKey.lookup key = some value ↔
      (key, value) ∈ index.byKey := by
  have hNodup := h.nodup
  unfold keys at hNodup
  generalize index.byKey = l at hNodup
  induction l with
  | nil => simp
  | cons e rest ih =>
      rcases e with ⟨k, v⟩
      simp only [List.map_cons, List.nodup_cons] at hNodup
      by_cases hKey : key = k
      · subst hKey
        have hFresh : (key, value) ∉ rest := fun hMem =>
          hNodup.1 (List.mem_map.mpr ⟨_, hMem, rfl⟩)
        simp [hFresh, eq_comm]
      · have hOther : (key == k) = false := by simpa using hKey
        simp [List.lookup_cons, hOther, hKey, ih hNodup.2]

end EntryIndex

------------------------------------------------------------
-- The Two Lists
------------------------------------------------------------

/- The entries of the archive except for its manifest. -/
def storedItems :
    List ZipEntry → Nat → List (Text × ItemKind × Nat)
  | [], _ => []
  | entry :: rest, index =>
      if entry.name = manifestName then
        storedItems rest (index + 1)
      else
        (keyOf entry.name entry.isDir, kindOf entry.isDir,
          index) :: storedItems rest (index + 1)

def manifestPositions : List ZipEntry → Nat → List Nat
  | [], _ => []
  | entry :: rest, index =>
      if entry.name = manifestName then
        index :: manifestPositions rest (index + 1)
      else
        manifestPositions rest (index + 1)

theorem inspectEntries_spec
    {entries : List ZipEntry} {index : Nat}
    {manifests manifests' : List Nat}
    {stored stored' : EntryIndex (ItemKind × Nat)}
    (hOk : stored.Ok codec)
    (h :
      inspectEntries codec entries index manifests stored =
        .ok (manifests', stored')) :
    stored'.Ok codec ∧
      stored'.byKey.Perm
        (storedItems entries index ++ stored.byKey) ∧
      manifests' = manifests ++ manifestPositions entries index ∧
      ∀ entry ∈ entries, entry.name ≠ manifestName →
        entry.isSymlink = false ∧
          PortableKey (keyOf entry.name entry.isDir) := by
  induction entries generalizing index manifests stored with
  | nil =>
      cases h
      exact ⟨hOk, List.Perm.refl _, by simp [manifestPositions],
        fun _ hMem => nomatch hMem⟩
  | cons entry rest ih =>
      unfold inspectEntries at h
      split at h
      · cases h
      · split at h
        · rename_i hManifest
          rcases ih hOk h with ⟨hOk', hPerm, hFound, hAll⟩
          refine ⟨hOk', ?_, ?_, ?_⟩
          · simpa [storedItems, hManifest] using hPerm
          · simpa [manifestPositions, hManifest] using hFound
          · intro e hMem hName
            rcases List.mem_cons.mp hMem with rfl | hMem
            · exact absurd hManifest hName
            · exact hAll e hMem hName
        · rename_i hManifest
          split at h
          · cases h
          · rename_i hLink
            split at h
            · cases h
            · rcases bind_eq_ok h with ⟨key, hKey, hInner⟩
              rcases bind_eq_ok hInner with
                ⟨next, hInsert, hRest⟩
              rcases validatedArchiveKey_spec hKey with
                ⟨rfl, hPortable⟩
              rcases EntryIndex.insert_ok hOk hInsert with
                ⟨hNext, hAdded⟩
              rcases ih hNext hRest with
                ⟨hOk', hPerm, hFound, hAll⟩
              refine ⟨hOk', ?_, ?_, ?_⟩
              · simp only [storedItems, hManifest, if_false,
                  List.cons_append]
                have hMiddle :=
                  hAdded.append_left (storedItems rest (index + 1))
                exact hPerm.trans
                  (hMiddle.trans List.perm_middle)
              · simpa [manifestPositions, hManifest]
                  using hFound
              · intro e hMem hName
                rcases List.mem_cons.mp hMem with rfl | hMem
                · exact ⟨by simpa using hLink, hPortable⟩
                · exact hAll e hMem hName

/- How the manifest lists an item. -/
def listedItem
    (entry : BackupManifestEntry) :
    Text × ItemKind × BackupManifestEntry :=
  (keyOf entry.path (entry.kind = "directory"),
    kindOf (entry.kind = "directory"), entry)

/- What an accepted entry of the manifest says. -/
structure EntryOk (entry : BackupManifestEntry) : Prop where
  portable :
    PortableKey (keyOf entry.path (entry.kind = "directory"))
  form :
    entry.kind = "directory" ∧ entry.blake3 = none ∧
        entry.size = 0 ∨
      entry.kind = "file" ∧ entry.blake3.isSome ∧
        entry.size ≤ maxSingleFileBytes

theorem manifestItem_spec
    {entry : BackupManifestEntry}
    {kind : ItemKind}
    (h : manifestItem entry = .ok (key, kind)) :
    listedItem entry = (key, kind, entry) ∧ EntryOk entry := by
  unfold manifestItem at h
  rcases bind_eq_ok h with ⟨kind', hKind, h⟩
  rcases bind_eq_ok h with ⟨key', hKey, h⟩
  cases h
  rcases validatedArchiveKey_spec hKey with ⟨rfl, hPortable⟩
  unfold manifestKind at hKind
  split at hKind
  · rename_i hForm
    cases hKind
    have hDirectory := hForm.1
    refine ⟨by simp [listedItem, hDirectory, kindOf], ?_,
      .inl hForm⟩
    simpa [hDirectory] using hPortable
  · split at hKind
    · rename_i hForm
      cases hKind
      have hFile := hForm.1
      refine ⟨by simp [listedItem, hFile, kindOf], ?_,
        .inr hForm⟩
      simpa [hFile] using hPortable
    · cases hKind

theorem listEntries_spec
    {entries : List BackupManifestEntry}
    {listed listed' :
      EntryIndex (ItemKind × BackupManifestEntry)}
    (hOk : listed.Ok codec)
    (h : listEntries codec entries listed = .ok listed') :
    listed'.Ok codec ∧
      listed'.byKey.Perm
        (entries.map listedItem ++ listed.byKey) ∧
      ∀ entry ∈ entries, EntryOk entry := by
  induction entries generalizing listed with
  | nil =>
      cases h
      exact ⟨hOk, List.Perm.refl _, fun _ hMem => nomatch hMem⟩
  | cons entry rest ih =>
      unfold listEntries at h
      rcases bind_eq_ok h with ⟨⟨key, kind⟩, hItem, h⟩
      rcases bind_eq_ok h with ⟨next, hInsert, h⟩
      rcases manifestItem_spec hItem with ⟨hEntry, hEntryOk⟩
      rcases EntryIndex.insert_ok hOk hInsert with
        ⟨hNext, hAdded⟩
      rcases ih hNext h with ⟨hOk', hPerm, hAll⟩
      refine ⟨hOk', ?_, ?_⟩
      · simp only [List.map_cons, List.cons_append, hEntry]
        have hMiddle :=
          hAdded.append_left (rest.map listedItem)
        exact hPerm.trans (hMiddle.trans List.perm_middle)
      · intro e hMem
        rcases List.mem_cons.mp hMem with rfl | hMem
        · exact hEntryOk
        · exact hAll e hMem

variable {stored : EntryIndex (ItemKind × Nat)}

theorem checkStored_spec
    {listed : List (Text × ItemKind × BackupManifestEntry)}
    (h : checkStored stored listed = .ok ()) :
    ∀ key kind entry, (key, kind, entry) ∈ listed →
      ∃ index, stored.byKey.lookup key = some (kind, index) := by
  induction listed with
  | nil => exact fun _ _ _ hMem => nomatch hMem
  | cons item rest ih =>
      rcases item with ⟨key, kind, entry⟩
      unfold checkStored at h
      split at h
      · cases h
      · rename_i storedKind index hLookup
        split at h
        · cases h
        · rename_i hKind
          intro k kd e hMem
          rcases List.mem_cons.mp hMem with hSame | hMem
          · cases hSame
            have hKinds : storedKind = kind :=
              Decidable.not_not.mp hKind
            exact ⟨index, by rw [hLookup, hKinds]⟩
          · exact ih h k kd e hMem

variable {listed : EntryIndex (ItemKind × BackupManifestEntry)}

theorem isFolder_iff
    (hOk : listed.Ok codec) :
    isFolder listed key = true ↔
      ∃ entry, (key, .directory, entry) ∈ listed.byKey := by
  unfold isFolder
  constructor
  · intro h
    split at h
    · rename_i entry hLookup
      exact ⟨entry, hOk.lookup_iff.mp hLookup⟩
    · cases h
  · rintro ⟨entry, hMem⟩
    rw [hOk.lookup_iff.mpr hMem]

theorem checkFolders_spec
    (h : checkFolders stored listed = .ok ()) :
    (∀ key ∈ stored.keys, key ∈ listed.keys) ∧
      isFolder listed notesRootName = true ∧
      ∀ key ∈ listed.keys, ∀ parent,
        parentKey key = some parent →
          isFolder listed parent = true := by
  unfold checkFolders at h
  split at h
  · cases h
  · rename_i hStored
    split at h
    · cases h
    · rename_i hRoot
      split at h
      · cases h
      · rename_i hParents
        refine ⟨?_, by simpa using hRoot, ?_⟩
        · intro key hMem
          have hFound := List.find?_eq_none.mp hStored key hMem
          simpa using hFound
        · intro key hMem parent hParent
          have hFound := List.find?_eq_none.mp hParents key hMem
          simpa [hParent] using hFound

/- The data of an entry is what the manifest says. -/
structure ReadOk
    (codec : BackupCodec)
    (data : ReadData)
    (item : VerifiedItem) : Prop where
  complete : data.failed = false
  size : data.bytes.length = item.size
  hash : item.blake3 = some (codec.blake3 data.bytes)

theorem copyVerified_spec
    {data : ReadData} {item : VerifiedItem}
    {total total' : Nat}
    (h : (copyVerified codec data item total).2 = .ok total') :
    (copyVerified codec data item total).1 = data.bytes ∧
      ReadOk codec data item ∧ total' = total + item.size := by
  unfold copyVerified at h ⊢
  dsimp only at h ⊢
  split at h
  · cases h
  · rename_i hTotal
    split at h
    · cases h
    · rename_i hFailed
      split at h
      · cases h
      · rename_i hSize
        split at h
        · cases h
        · rename_i hHash
          cases h
          have hTake := Decidable.not_not.mp hSize
          have hLength : data.bytes.length = item.size := by
            rw [List.length_take] at hTake
            omega
          have hBytes :
              data.bytes.take (item.size + 1) = data.bytes :=
            List.take_of_length_le (by omega)
          rw [hBytes] at hHash hTotal ⊢
          rw [if_neg hTotal, if_neg hFailed,
            if_neg (by simpa using hLength), if_neg hHash,
            hLength]
          refine ⟨rfl, ⟨?_, hLength, ?_⟩, rfl⟩
          · simpa [hLength] using hFailed
          · exact Decidable.not_not.mp hHash

variable {read : Nat → ReadData}

theorem verifyItem_spec
    {item : VerifiedItem}
    {total total' : Nat}
    (h : verifyItem codec read item total = .ok total')
    (hFile : item.kind = .file) :
    ReadOk codec (read item.zipIndex) item := by
  unfold verifyItem at h
  rw [if_pos hFile] at h
  exact (copyVerified_spec h).2.1

theorem verifyItems_spec
    {listed : List (Text × ItemKind × BackupManifestEntry)}
    {total : Nat} {items : List VerifiedItem}
    (h : verifyItems codec read stored listed total = .ok items) :
    items = listed.map (itemOf stored) ∧
      ∀ item ∈ items, item.kind = .file →
        ReadOk codec (read item.zipIndex) item := by
  induction listed generalizing total items with
  | nil =>
      cases h
      exact ⟨rfl, fun _ hMem => nomatch hMem⟩
  | cons first rest ih =>
      unfold verifyItems at h
      rcases bind_eq_ok h with ⟨total', hFirst, hInner⟩
      rcases bind_eq_ok hInner with ⟨others, hOthers, hEnd⟩
      cases hEnd
      rcases ih hOthers with ⟨rfl, hAll⟩
      refine ⟨rfl, ?_⟩
      intro item hMem hFile
      rcases List.mem_cons.mp hMem with rfl | hMem
      · exact verifyItem_spec hFirst hFile
      · exact hAll item hMem hFile

------------------------------------------------------------
-- Sound Archives
------------------------------------------------------------

/- What an archive is that was verified by `read`. -/
structure ArchiveSound
    (codec : BackupCodec)
    (zip : ZipFile)
    (read : Nat → ReadData)
    (archive : VerifiedArchive) : Prop where
  -- Manifest and archive hold the items, once each.
  listed :
    (archive.manifest.entries.map fun entry =>
        (keyOf entry.path (entry.kind = "directory"),
          kindOf (entry.kind = "directory"), entry.size,
          entry.blake3)).Perm
      (archive.items.map fun item =>
        (item.key, item.kind, item.size, item.blake3))
  stored :
    (storedItems zip.entries 0).Perm
      (archive.items.map fun item =>
        (item.key, item.kind, item.zipIndex))
  manifest :
    ∃ index, manifestPositions zip.entries 0 = [index] ∧
      archive.manifestBytes = (read index).bytes ∧
      codec.parseManifest archive.manifestBytes =
        some archive.manifest
  -- No two keys are one file on any system.
  aliases :
    ((archive.items.map VerifiedItem.key).map
      codec.portableNameKey).Nodup
  sorted : archive.items.Pairwise fun a b => a.key ≤ b.key
  -- Every item is inside Notes, in a listed folder.
  portable : ∀ item ∈ archive.items, PortableKey item.key
  root :
    ∃ item ∈ archive.items,
      item.key = notesRootName ∧ item.kind = .directory
  parents :
    ∀ item ∈ archive.items, ∀ parent,
      parentKey item.key = some parent →
        ∃ folder ∈ archive.items,
          folder.key = parent ∧ folder.kind = .directory
  noLinks :
    ∀ entry ∈ zip.entries, entry.name ≠ manifestName →
      entry.isSymlink = false
  files :
    ∀ item ∈ archive.items, item.kind = .file →
      ReadOk codec (read item.zipIndex) item

/- The items agree with both lists that were compared. -/
theorem stored_perm_items
    (hStored : stored.Ok codec)
    (hListed : listed.Ok codec)
    (hChecked : checkStored stored listed.byKey = .ok ())
    (hFolders : checkFolders stored listed = .ok ()) :
    stored.byKey.Perm
      ((listed.byKey.map (itemOf stored)).map fun item =>
        (item.key, item.kind, item.zipIndex)) := by
  have hFound := checkStored_spec hChecked
  have hAll := (checkFolders_spec hFolders).1
  have hItem :
      ∀ key kind entry, (key, kind, entry) ∈ listed.byKey →
        (key, kind, (itemOf stored (key, kind, entry)).zipIndex) ∈
          stored.byKey := by
    intro key kind entry hMem
    rcases hFound key kind entry hMem with ⟨index, hLookup⟩
    have hIndex :
        (itemOf stored (key, kind, entry)).zipIndex = index := by
      simp [itemOf, hLookup]
    rw [hIndex]
    exact hStored.lookup_iff.mp hLookup
  rw [List.map_map]
  apply (List.perm_ext_iff_of_nodup ?_ ?_).mpr
  · rintro ⟨key, kind, index⟩
    simp only [List.mem_map, Function.comp_apply]
    constructor
    · intro hMem
      have hKey := hAll key (List.mem_map.mpr ⟨_, hMem, rfl⟩)
      rcases List.mem_map.mp hKey with
        ⟨⟨key', kind', entry⟩, hEntry, hSame⟩
      dsimp only at hSame
      subst hSame
      have hOther := hStored.lookup_iff.mpr
        (hItem _ _ _ hEntry)
      rw [hStored.lookup_iff.mpr hMem] at hOther
      refine ⟨_, hEntry, ?_⟩
      simp only [Option.some.injEq, Prod.mk.injEq] at hOther
      simp [itemOf, hOther.1] at hOther ⊢
      exact hOther.symm
    · rintro ⟨⟨key', kind', entry⟩, hEntry, hSame⟩
      rw [← hSame]
      exact hItem _ _ _ hEntry
  · exact hStored.nodup.of_map _
  · have hKeys := hListed.nodup
    apply List.Nodup.of_map Prod.fst
    rw [List.map_map]
    exact hKeys

theorem readManifest_spec
    {entry : ZipEntry} {data : ReadData}
    {parsed : BackupManifest × List UInt8}
    (h : readManifest codec entry data = .ok parsed) :
    parsed.2 = data.bytes ∧
      codec.parseManifest data.bytes = some parsed.1 := by
  unfold readManifest at h
  split at h
  · cases h
  · split at h
    · cases h
    · split at h
      · cases h
      · split at h
        · cases h
        · rename_i manifest hParse
          split at h
          · cases h
          · split at h
            · cases h
            · cases h
              exact ⟨rfl, hParse⟩

/- What the steps of a successful verification have found. -/
structure Verifies
    (codec : BackupCodec)
    (zip : ZipFile)
    (read : Nat → ReadData)
    (archive : VerifiedArchive)
    (stored : EntryIndex (ItemKind × Nat))
    (listed : EntryIndex (ItemKind × BackupManifestEntry))
    (index : Nat) : Prop where
  inspected :
    inspectEntries codec zip.entries 0 [] .new =
      .ok ([index], stored)
  manifestBytes : archive.manifestBytes = (read index).bytes
  parsed :
    codec.parseManifest archive.manifestBytes =
      some archive.manifest
  listing :
    listEntries codec archive.manifest.entries .new = .ok listed
  checked : checkStored stored listed.byKey = .ok ()
  folders : checkFolders stored listed = .ok ()
  items :
    verifyItems codec read stored listed.byKey 0 =
      .ok archive.items

theorem verifies_of_ok
    {zip : ZipFile}
    {archive : VerifiedArchive}
    (h : verifyArchive codec zip read = .ok archive) :
    ∃ stored listed index,
      Verifies codec zip read archive stored listed index := by
  unfold verifyArchive at h
  rcases bind_eq_ok h with ⟨⟨indexes, stored⟩, hFound, h₁⟩
  dsimp only at h₁
  split at h₁
  · rename_i index
    split at h₁
    · cases h₁
    · rename_i entry hEntry
      rcases bind_eq_ok h₁ with ⟨parsed, hParsed, h₂⟩
      rcases bind_eq_ok h₂ with ⟨listed, hListed, h₃⟩
      rcases bind_eq_ok h₃ with ⟨_, hChecked, h₄⟩
      rcases bind_eq_ok h₄ with ⟨_, hFolders, h₅⟩
      rcases bind_eq_ok h₅ with ⟨items, hItems, h₆⟩
      cases h₆
      rcases readManifest_spec hParsed with ⟨hBytes, hParse⟩
      refine ⟨stored, listed, index, hFound, hBytes, ?_,
        hListed, hChecked, hFolders, hItems⟩
      rw [← hBytes] at hParse
      exact hParse
  · cases h₁

theorem archiveSound_of_verify
    {zip : ZipFile}
    {archive : VerifiedArchive}
    (h : verifyArchive codec zip read = .ok archive) :
    ArchiveSound codec zip read archive := by
  rcases verifies_of_ok h with ⟨stored, listed, index, hV⟩
  rcases inspectEntries_spec EntryIndex.ok_new hV.inspected with
    ⟨hStored, hStoredPerm, hManifest, hEntries⟩
  rcases listEntries_spec EntryIndex.ok_new hV.listing with
    ⟨hListed, hListedPerm, hListedOk⟩
  rcases verifyItems_spec hV.items with ⟨hItems, hFiles⟩
  rcases checkFolders_spec hV.folders with
    ⟨_, hRoot, hParents⟩
  simp only [EntryIndex.new, List.append_nil]
    at hStoredPerm hListedPerm
  have hKeys :
      archive.items.map VerifiedItem.key = listed.keys := by
    rw [hItems, List.map_map]
    rfl
  have hFolderItem :
      ∀ key, isFolder listed key = true →
        ∃ folder ∈ archive.items,
          folder.key = key ∧ folder.kind = .directory := by
    intro key hFolder
    rcases (isFolder_iff hListed).mp hFolder with
      ⟨entry, hMem⟩
    refine ⟨itemOf stored (key, .directory, entry), ?_, rfl, rfl⟩
    rw [hItems]
    exact List.mem_map_of_mem hMem
  refine
    { listed := ?_, stored := ?_, manifest := ?_,
      aliases := ?_, sorted := ?_, portable := ?_,
      root := hFolderItem _ hRoot, parents := ?_,
      noLinks := fun e hMem hName => (hEntries e hMem hName).1,
      files := hFiles }
  · have hMapped := hListedPerm.symm.map
      fun x : Text × ItemKind × BackupManifestEntry =>
        (x.1, x.2.1, x.2.2.size, x.2.2.blake3)
    rw [List.map_map] at hMapped
    rw [hItems, List.map_map]
    exact hMapped
  · have hPerm := stored_perm_items hStored hListed hV.checked
      hV.folders
    rw [hItems]
    exact hStoredPerm.symm.trans hPerm
  · exact ⟨index, hManifest.symm, hV.manifestBytes, hV.parsed⟩
  · rw [hKeys]
    exact hListed.aliases
  · rw [hItems, List.pairwise_map]
    exact hListed.sorted
  · intro item hMem
    rw [hItems] at hMem
    rcases List.mem_map.mp hMem with ⟨x, hx, rfl⟩
    rcases List.mem_map.mp (hListedPerm.mem_iff.mp hx) with
      ⟨entry, hEntry, rfl⟩
    exact (hListedOk entry hEntry).portable
  · intro item hMem parent hParent
    have hKey : item.key ∈ listed.keys := by
      rw [← hKeys]
      exact List.mem_map_of_mem hMem
    exact hFolderItem parent (hParents _ hKey parent hParent)

end S4Drive

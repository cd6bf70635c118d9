import Mathlib.Algebra.GroupWithZero.Nat
import S4Drive.Library.PathText
import S4Drive.Notes.ArchiveVerified

/-
  Names and paths of notes. A name is portable and short, and
  none that the app keeps to itself; a path is the folder of
  the notes with such names below it. Unicode's NFC comes
  from outside.

  Main declarations:
    * `validateComponent`, `validateRelativePath`
    * `noteFilename`, `editName`
    * `relative_path_accepted_iff`
    * `note_names_settle`
-/

------------------------------------------------------------
-- Names
------------------------------------------------------------

namespace S4Drive

open PathText

def maxComponentScalars : Nat := 120

def maxComponentBytes : Nat := 240

def NotesPath.maxFolderDepth : Nat := 32

def maxRelativePathBytes : Nat := 1024

/- The length of a text in UTF-8. -/
def utf8Length (text : Text) : Nat :=
  (text.map Char.utf8Size).sum

def mdSuffix : Text := ".md".toList

def validateComponent (name : Text) : BackupExcept Unit := do
  validatePortableComponent name
  let portableName := name.map asciiLower
  if name.length > maxComponentScalars ||
      utf8Length name > maxComponentBytes then
    .error (.invalidName "This name is too long.")
  else if ".s4drive".toList.isPrefixOf portableName ||
      portableName = mdSuffix then
    .error (.invalidName "This name is reserved.")
  else
    .ok ()

def endsWithMd (name : Text) : Bool :=
  mdSuffix.isSuffixOf (name.map asciiLower)

/- Without its extension, of which there may be one. -/
def stemOf (filename : Text) : BackupExcept Text :=
  if endsWithMd filename then do
    let stem := filename.take (filename.length - 3)
    if endsWithMd stem then
      .error (.invalidName "Use only one .md extension.")
    else
      validateComponent stem
      pure stem
  else
    pure filename

def noteFilename
    (nfc : Text → Text)
    (title : Text) : BackupExcept Text := do
  validateComponent (nfc title)
  let stem ← stemOf (nfc title)
  validateComponent (stem ++ mdSuffix)
  pure (stem ++ mdSuffix)

def editName
    (nfc : Text → Text)
    (name : Text)
    (note : Bool) : BackupExcept Text := do
  let name := nfc name
  if note then
    noteFilename nfc name
  else
    validateComponent name
    pure name

------------------------------------------------------------
-- Paths
------------------------------------------------------------

/- What is wrong with a path: a name, or where it starts. -/
inductive NotesPathError where
  | name (error : BackupError)
  | outsideNotes
deriving DecidableEq

def validateComponents :
    List Text → Except NotesPathError Unit
  | [] => .ok ()
  | name :: rest =>
      match validateComponent name with
      | .ok _ => validateComponents rest
      | .error error => .error (.name error)

def validateRelativePath
    (relativePath : Text) : Except NotesPathError Unit :=
  if utf8Length relativePath > maxRelativePathBytes then
    .error (.name (.invalidName "This path is too long."))
  else
    match relativePath.splitOn '/' with
    | [] => .error .outsideNotes
    | first :: children =>
        if first ≠ notesRootName then
          .error .outsideNotes
        else do
          validateComponents children
          if children.length - 1 > NotesPath.maxFolderDepth then
            .error (.name (.invalidName
              "This folder is nested too deeply."))
          else
            .ok ()

variable {name path stem : Text}

theorem portable_of_valid
    (h : validateComponent name = .ok ()) :
    validatePortableComponent name = .ok () := by
  unfold validateComponent at h
  cases hName : validatePortableComponent name with
  | ok u => rfl
  | error e =>
      rw [hName] at h
      cases h

/- A name that is accepted is one of an entry. -/
theorem entryName_of_valid
    (h : validateComponent name = .ok ()) :
    ∃ entry : EntryName, entry.text = name := by
  have hPortable := portable_of_valid h
  unfold validatePortableComponent at hPortable
  split at hPortable
  · cases hPortable
  rename_i hSome
  split at hPortable
  · cases hPortable
  rename_i hClean
  simp only [Bool.or_eq_true, decide_eq_true_eq, not_or]
    at hSome
  refine ⟨⟨name, ?_, ?_, hSome.1.2, hSome.2⟩, rfl⟩
  · rintro rfl
    exact hSome.1.1 rfl
  · intro hSlash
    apply hClean
    exact List.any_eq_true.mpr ⟨'/', hSlash, by decide⟩

theorem validateComponents_ok_iff
    {names : List Text} :
    validateComponents names = .ok () ↔
      ∀ name ∈ names, validateComponent name = .ok () := by
  induction names with
  | nil => simp [validateComponents]
  | cons name rest ih =>
      rw [List.forall_mem_cons, ← ih, validateComponents]
      cases validateComponent name with
      | ok u => simp
      | error e => simp

theorem names_of_valid
    {names : List Text}
    (h : ∀ name ∈ names, validateComponent name = .ok ()) :
    ∃ entries, texts entries = names := by
  induction names with
  | nil => exact ⟨[], rfl⟩
  | cons name rest ih =>
      rw [List.forall_mem_cons] at h
      rcases entryName_of_valid h.1 with ⟨entry, rfl⟩
      rcases ih h.2 with ⟨entries, rfl⟩
      exact ⟨entry :: entries, rfl⟩

/- The folder of the notes, below the sync root. -/
def notesRoot : EntryName where
  text := notesRootName
  notEmpty := by decide
  noSlash := by decide
  notSelf := by decide
  notParent := by decide

theorem joinAll_notesRoot (names : List EntryName) :
    joinAll [] (notesRoot :: names) =
      ['/'].intercalate (notesRootName :: texts names) :=
  joinAll_nil (List.cons_ne_nil _ _)

theorem splitOn_notesRoot (names : List EntryName) :
    (joinAll [] (notesRoot :: names)).splitOn '/' =
      notesRootName :: texts names := by
  rw [joinAll_notesRoot]
  apply List.splitOn_intercalate '/' _ (List.cons_ne_nil _ _)
  intro text hText
  have hMem : text ∈ texts (notesRoot :: names) := hText
  rcases List.mem_map.mp hMem with ⟨name, _, rfl⟩
  exact name.noSlash

/-
  The accepted paths are those of the lists of at most 33
  valid names, up to a length in bytes: none of them leaves
  the folder of the notes, and none has a second spelling.
-/
theorem relative_path_accepted_iff :
    validateRelativePath path = .ok () ↔
      utf8Length path ≤ maxRelativePathBytes ∧
        ∃ names : List EntryName,
          path = joinAll [] (notesRoot :: names) ∧
            names.length ≤ NotesPath.maxFolderDepth + 1 ∧
            ∀ name ∈ names,
              validateComponent name.text = .ok () := by
  unfold validateRelativePath
  constructor
  · intro h
    split at h
    · cases h
    rename_i hShort
    split at h
    · cases h
    rename_i first children hSplit
    split at h
    · cases h
    rename_i hFirst
    cases hValid : validateComponents children with
    | error e =>
        rw [hValid] at h
        cases h
    | ok u =>
        rw [hValid] at h
        change ite _ _ _ = _ at h
        split at h
        · cases h
        rename_i hDepth
        rw [validateComponents_ok_iff] at hValid
        rcases names_of_valid hValid with ⟨names, rfl⟩
        rw [not_not] at hFirst
        subst hFirst
        refine ⟨Nat.not_lt.mp hShort, names, ?_, ?_, ?_⟩
        · rw [joinAll_notesRoot, ← hSplit]
          exact (List.intercalate_splitOn '/').symm
        · rw [texts, List.length_map] at hDepth
          omega
        · intro name hName
          exact hValid name.text (List.mem_map_of_mem hName)
  · rintro ⟨hShort, names, rfl, hDepth, hValid⟩
    rw [if_neg (Nat.not_lt.mpr hShort), splitOn_notesRoot]
    dsimp only
    have hNames : validateComponents (texts names) = .ok () := by
      apply validateComponents_ok_iff.mpr
      intro text hText
      rcases List.mem_map.mp hText with ⟨name, hName, rfl⟩
      exact hValid name hName
    rw [if_neg (not_not.mpr rfl), hNames]
    apply if_neg
    rw [texts, List.length_map]
    omega

variable {nfc : Text → Text} {title filename : Text}

theorem cut_of_endsWithMd
    (h : endsWithMd name = true) :
    ∃ cut, name = name.take (name.length - 3) ++ cut ∧
      cut.map asciiLower = mdSuffix := by
  refine ⟨_, (List.take_append_drop _ name).symm, ?_⟩
  have hSuffix :=
    List.suffix_iff_eq_drop.mp (List.isSuffixOf_iff_suffix.mp h)
  rw [List.map_drop, hSuffix]
  simp [mdSuffix]

theorem endsWithMd_append :
    endsWithMd (stem ++ mdSuffix) = true := by
  unfold endsWithMd
  rw [List.isSuffixOf_iff_suffix, List.map_append]
  exact List.suffix_append _ _

theorem stemOf_ok
    (hName : validateComponent name = .ok ())
    (h : stemOf name = .ok stem) :
    endsWithMd stem = false ∧
      validateComponent stem = .ok () ∧
      ∃ cut, name = stem ++ cut ∧
        (cut = [] ∨ cut.map asciiLower = mdSuffix) := by
  unfold stemOf at h
  split at h
  · rename_i hMd
    dsimp only at h
    split at h
    · cases h
    rename_i hOnce
    rcases bind_eq_ok h with ⟨u, hStem, hSame⟩
    cases hSame
    rcases cut_of_endsWithMd hMd with ⟨cut, hCut, hLower⟩
    exact ⟨Bool.eq_false_iff.mpr hOnce, hStem, cut, hCut,
      .inr hLower⟩
  · rename_i hNot
    cases h
    exact ⟨Bool.eq_false_iff.mpr hNot, hName, [],
      (List.append_nil name).symm, .inl rfl⟩

/- The extension is added to a stem, or cut off and added. -/
theorem noteFilename_settled
    (hStem : stemOf (nfc title) = .ok stem)
    (hTitle : validateComponent (nfc title) = .ok ())
    (hFull : validateComponent (stem ++ mdSuffix) = .ok ()) :
    noteFilename nfc title = .ok (stem ++ mdSuffix) := by
  unfold noteFilename
  rw [hTitle, hStem]
  change (do
    validateComponent (stem ++ mdSuffix)
    pure (stem ++ mdSuffix)) = _
  rw [hFull]
  rfl

/-
  The name of a note is a valid one with one extension, and
  it is settled: it and its stem, taken as titles, are the
  name of the same note. NFC does nothing to what it has
  returned, nor to an extension behind it.
-/
theorem note_names_settle
    (hNfc : ∀ text, nfc (nfc text) = nfc text)
    (hCut : ∀ text cut, cut.map asciiLower = mdSuffix →
      nfc (text ++ cut) = nfc text ++ cut)
    (h : noteFilename nfc title = .ok filename) :
    validateComponent filename = .ok () ∧
      ∃ stem, filename = stem ++ mdSuffix ∧
        endsWithMd stem = false ∧
        noteFilename nfc stem = .ok filename ∧
        editName nfc filename true = .ok filename := by
  rcases bind_eq_ok h with ⟨_, hTitle, h⟩
  rcases bind_eq_ok h with ⟨stem, hStem, h⟩
  rcases bind_eq_ok h with ⟨_, hFull, h⟩
  cases h
  rcases stemOf_ok hTitle hStem with
    ⟨hOnce, hValid, cut, hText, hEnd⟩
  have hNormal : nfc stem = stem := by
    have hSame := hNfc title
    rw [hText] at hSame
    rcases hEnd with rfl | hLower
    · simpa using hSame
    · exact List.append_cancel_right
        ((hCut stem cut hLower).symm.trans hSame)
  have hName : nfc (stem ++ mdSuffix) = stem ++ mdSuffix := by
    rw [hCut stem mdSuffix (by decide), hNormal]
  refine ⟨hFull, stem, rfl, hOnce, ?_, ?_⟩
  · apply noteFilename_settled _ (hNormal.symm ▸ hValid) hFull
    unfold stemOf
    rw [hNormal, hOnce]
    rfl
  · change noteFilename nfc (nfc (stem ++ mdSuffix)) = _
    rw [hName]
    apply noteFilename_settled _ (hName.symm ▸ hFull) hFull
    unfold stemOf
    rw [hName, endsWithMd_append]
    have hTake : (stem ++ mdSuffix).take
        ((stem ++ mdSuffix).length - 3) = stem := by
      simp [mdSuffix]
    dsimp only
    rw [if_pos rfl, hTake, hOnce, hValid]
    rfl

/- An extension in capitals, and none. -/
theorem plan_names_settle :
    noteFilename id "Plan.MD".toList = .ok "Plan.md".toList ∧
      ∃ stem, "Plan.md".toList = stem ++ mdSuffix ∧
        noteFilename id stem = .ok "Plan.md".toList := by
  have hPlan : noteFilename id "Plan.MD".toList =
      .ok "Plan.md".toList := by
    decide +kernel
  rcases note_names_settle (fun _ => rfl) (fun _ _ _ => rfl)
    hPlan with ⟨_, stem, hName, _, hStem, _⟩
  exact ⟨hPlan, stem, hName, hStem⟩

end S4Drive

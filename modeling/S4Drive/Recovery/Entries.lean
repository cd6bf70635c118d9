import Mathlib.Data.Finset.Dedup
import S4Drive.Core.Text
import S4Drive.Library.ParentChain
import S4Drive.Metadata.Types

/-
  The entries that disaster recovery works on, by their ids,
  and where they go: a path is made of the names on the
  chain of parents. What is deleted, or inside something
  that is deleted or missing, is gone.

  Main declarations:
    * `Entries`, `Entries.find`, `Entries.update`
    * `hasAncestor`, `isGone`
    * `safeRelativePath`, `entryRelativePath`
    * `SameLive`
-/

------------------------------------------------------------
-- Entries
------------------------------------------------------------

namespace S4Drive

namespace Recovery

/- The entries by their ids, in the order of no importance. -/
abbrev Entries := List (FileId × FileEntry)

namespace Entries

def find (entries : Entries) (fileId : FileId) :
    Option FileEntry :=
  entries.lookup fileId

/- Change the entries with some of the ids. -/
def update
    (entries : Entries)
    (ids : FileId → Bool)
    (change : FileEntry → FileEntry) : Entries :=
  entries.map fun x =>
    if ids x.1 then (x.1, change x.2) else x

/- Add an entry unless there is one. -/
def orInsert
    (entries : Entries)
    (fileId : FileId)
    (entry : FileEntry) : Entries :=
  match entries.find fileId with
  | some _ => entries
  | none => (fileId, entry) :: entries

end Entries

/- An entry that an operation on an unknown id creates. -/
def newRestoreEntry
    (fileId : FileId)
    (entryType : EntryType)
    (timestamp : Timestamp) : FileEntry where
  fileId := fileId
  parentId := none
  name := toString fileId
  entryType := entryType
  currentRevisionId := none
  contentRef := none
  size := 0
  contentHash := none
  mime := none
  updatedAt := timestamp
  deletedAt := none
  versionHistory := []

def parentOf
    (entries : Entries)
    (fileId : FileId) : Option FileId :=
  (entries.find fileId).bind FileEntry.parentId

/- Whether `ancestor` is on the parent chain of `fileId`. -/
def hasAncestor
    (entries : Entries)
    (fileId ancestor : FileId) : Bool :=
  ParentChain.meets (parentOf entries) (· = ancestor)
    (entries.length + 1) (parentOf entries fileId)

/- The entry is there and is not deleted. -/
def isLive
    (entries : Entries)
    (fileId : FileId) : Bool :=
  (entries.find fileId).any fun entry =>
    entry.deletedAt.isNone

/- Deleted, or inside a folder that is deleted or missing. -/
def isGone
    (entries : Entries)
    (fileId : FileId) : Bool :=
  ParentChain.meets (parentOf entries)
    (fun id => !isLive entries id) (entries.length + 1)
    (some fileId)

/- The bytes `?:/`; the first one is a character of its own. -/
def looksLikeWindowsAbsolutePath : Text → Bool
  | first :: ':' :: '/' :: _ => first.toNat < 0x80
  | _ => false

/- The components of a name that may be a whole path. -/
def pathComponents
    (path : Text) : List Text → Except String (List Text)
  | [] => .ok []
  | component :: rest =>
      if component = [] ∨ component = ['.'] then
        pathComponents path rest
      else if component = ['.', '.'] then
        .error ("parent directory component is not allowed: " ++
          String.ofList path)
      else if '\x00' ∈ component then
        .error "path contains NUL byte"
      else
        (pathComponents path rest).map (component :: ·)

def safeRelativePath
    (name : String) : Except String (List Text) :=
  let path := name.toList
  if path.all isWhitespace then
    .error "empty path"
  else if path.head? = some '/' ∨ path.head? = some '\\' then
    .error ("absolute path is not allowed: " ++ name)
  else
    let normalized :=
      path.map fun c => if c = '\\' then '/' else c
    if looksLikeWindowsAbsolutePath normalized then
      .error ("absolute path is not allowed: " ++ name)
    else
      match pathComponents path (normalized.splitOn '/') with
      | .ok [] =>
          .error ("path has no usable components: " ++ name)
      | result => result

example :
    safeRelativePath "a\\b/./c.txt" =
      .ok ["a".toList, "b".toList, "c.txt".toList] := by
  decide +kernel

/-
  The path of an entry below the folders of its parents; an
  entry without a parent has the whole path in its name. The
  visited ids are different ids of entries, so one step more
  than there are entries suffices.
-/
def entryRelativePathInner
    (entries : Entries) :
    Nat → FileId → List FileId → Except String (List Text)
  | 0, _, _ => .error "parent cycle detected"
  | steps + 1, fileId, visiting =>
      if fileId ∈ visiting then
        .error "parent cycle detected"
      else
        match entries.find fileId with
        | none => .error ("missing entry " ++ toString fileId)
        | some entry => do
            let ownPath ← safeRelativePath entry.name
            match entry.parentId with
            | none => pure ownPath
            | some parentId =>
                let parentPath ← entryRelativePathInner entries
                  steps parentId (fileId :: visiting)
                pure (parentPath ++ ownPath)

def entryRelativePath
    (fileId : FileId)
    (entries : Entries) : Except String (List Text) :=
  entryRelativePathInner entries (entries.length + 1) fileId []

variable {entries entries' : Entries}
variable {fileId id ancestor : FileId}
variable {entry entry' : FileEntry}

namespace Entries

@[simp] theorem find_update
    (entries : Entries)
    (ids : FileId → Bool)
    (change : FileEntry → FileEntry)
    (id : FileId) :
    (entries.update ids change).find id =
      (entries.find id).map fun entry =>
        if ids id then change entry else entry := by
  induction entries with
  | nil => rfl
  | cons x rest ih =>
      rcases x with ⟨key, entry⟩
      unfold find update at ih ⊢
      by_cases hKey : id = key
      · subst hKey
        cases hIds : ids id <;> simp [hIds]
      · have hOther : (id == key) = false := by simpa using hKey
        cases hIds : ids key <;>
          simp [hIds, List.lookup_cons, hOther, ih]

@[simp] theorem find_orInsert
    (entries : Entries)
    (fileId : FileId)
    (entry : FileEntry)
    (id : FileId) :
    (entries.orInsert fileId entry).find id =
      if id = fileId then
        some ((entries.find id).getD entry)
      else
        entries.find id := by
  unfold orInsert
  cases hFound : entries.find fileId with
  | some old =>
      by_cases hId : id = fileId
      · subst hId
        simp [hFound]
      · simp [hId]
  | none =>
      by_cases hId : id = fileId
      · subst hId
        have hNone : entries.lookup id = none := hFound
        simp [find, hNone]
      · have hOther : (id == fileId) = false := by simpa using hId
        simp [hId, find, List.lookup_cons, hOther]

/- The ids that have an entry. -/
def ids (entries : Entries) : Finset FileId :=
  (entries.map Prod.fst).toFinset

theorem mem_ids (h : entries.find id = some entry) :
    id ∈ entries.ids := by
  rcases List.lookup_eq_some_iff.mp h with ⟨before, after, rfl, _⟩
  simp [ids]

theorem card_ids : entries.ids.card < entries.length + 1 := by
  have hCard := List.toFinset_card_le (entries.map Prod.fst)
  rw [List.length_map] at hCard
  exact Nat.lt_succ_of_le hCard

end Entries

theorem mem_ids_of_parentOf
    (h : parentOf entries id = some ancestor) :
    id ∈ entries.ids := by
  cases hFound : entries.find id with
  | none => simp [parentOf, hFound] at h
  | some entry => exact Entries.mem_ids hFound

theorem hasAncestor_iff :
    hasAncestor entries fileId ancestor = true ↔
      ParentChain.Meets (parentOf entries) (· = ancestor)
        (parentOf entries fileId) :=
  ParentChain.meets_iff (fun _ _ => mem_ids_of_parentOf)
    Entries.card_ids

theorem isGone_iff :
    isGone entries fileId = true ↔
      ParentChain.Meets (parentOf entries)
        (fun id => !isLive entries id) (some fileId) :=
  ParentChain.meets_iff (fun _ _ => mem_ids_of_parentOf)
    Entries.card_ids

theorem isLive_of_not_gone
    (h : isGone entries fileId = false) :
    isLive entries fileId = true := by
  by_contra hLive
  rw [Bool.not_eq_true] at hLive
  have hGone : isGone entries fileId = true :=
    isGone_iff.mpr (.here (by simp [hLive]))
  rw [h] at hGone
  cases hGone

/- The parent of what is there is there as well. -/
theorem parent_not_gone
    (h : isGone entries fileId = false)
    (hParent : parentOf entries fileId = some id) :
    isGone entries id = false := by
  by_contra hGone
  rw [Bool.not_eq_false] at hGone
  have hChild : isGone entries fileId = true := by
    rw [isGone_iff] at hGone ⊢
    apply ParentChain.Meets.onward
    rw [hParent]
    exact hGone
  rw [h] at hChild
  cases hChild

------------------------------------------------------------
-- The Same Live Entries
------------------------------------------------------------

/- Two entries that are restored in the same way. -/
structure SameShown (entry entry' : FileEntry) : Prop where
  parentId : entry.parentId = entry'.parentId
  name : entry.name = entry'.name
  entryType : entry.entryType = entry'.entryType
  contentRef : entry.contentRef = entry'.contentRef

/- The live entries of two maps are the same. -/
def AgreeOnLive (entries entries' : Entries) : Prop :=
  ∀ id, isLive entries id = isLive entries' id ∧
    (isLive entries id = true →
      ∃ entry entry', entries.find id = some entry ∧
        entries'.find id = some entry' ∧
        SameShown entry entry')

/-
  What is restored from two maps is the same: the same ids,
  with the same kinds, paths and contents.
-/
structure SameLive (entries entries' : Entries) : Prop where
  gone : ∀ id, isGone entries id = isGone entries' id
  shown :
    ∀ id, isGone entries id = false →
      ∃ entry entry', entries.find id = some entry ∧
        entries'.find id = some entry' ∧
        SameShown entry entry' ∧
        entryRelativePath id entries =
          entryRelativePath id entries'

theorem SameShown.symm
    (h : SameShown entry entry') : SameShown entry' entry :=
  ⟨h.parentId.symm, h.name.symm, h.entryType.symm,
    h.contentRef.symm⟩

theorem AgreeOnLive.symm
    (h : AgreeOnLive entries entries') :
    AgreeOnLive entries' entries := by
  intro id
  rcases h id with ⟨hLive, hShown⟩
  refine ⟨hLive.symm, fun hLive' => ?_⟩
  rcases hShown (hLive.trans hLive') with
    ⟨entry, entry', hFound, hFound', hSame⟩
  exact ⟨entry', entry, hFound', hFound, hSame.symm⟩

theorem AgreeOnLive.parent_eq
    (h : AgreeOnLive entries entries')
    (hLive : isLive entries id = true) :
    parentOf entries id = parentOf entries' id := by
  rcases (h id).2 hLive with
    ⟨entry, entry', hFound, hFound', hSame⟩
  simp [parentOf, hFound, hFound', hSame.parentId]

theorem AgreeOnLive.gone_of_gone
    (h : AgreeOnLive entries entries')
    (hGone : isGone entries id = true) :
    isGone entries' id = true := by
  rw [isGone_iff] at hGone ⊢
  have hTest :
      (fun id => !isLive entries' id) =
        fun id => !isLive entries id := by
    funext id
    rw [(h id).1]
  rw [hTest]
  apply hGone.congr
  intro a hLive
  exact h.parent_eq (by simpa using hLive)

theorem AgreeOnLive.gone_eq
    (h : AgreeOnLive entries entries') (id : FileId) :
    isGone entries id = isGone entries' id := by
  rw [Bool.eq_iff_iff]
  exact ⟨h.gone_of_gone, h.symm.gone_of_gone⟩

/- The paths of two such maps in the same number of steps. -/
theorem AgreeOnLive.path
    (h : AgreeOnLive entries entries')
    {steps : Nat} {visiting : List FileId}
    (hThere : isGone entries id = false) :
    entryRelativePathInner entries steps id visiting =
      entryRelativePathInner entries' steps id visiting := by
  induction steps generalizing id visiting with
  | zero => rfl
  | succ steps ih =>
      have hLive := isLive_of_not_gone hThere
      rcases (h id).2 hLive with
        ⟨entry, entry', hFound, hFound', hSame⟩
      unfold entryRelativePathInner
      rw [hFound, hFound']
      split
      · rfl
      · simp only [hSame.name, hSame.parentId]
        cases hParent : entry'.parentId with
        | none => rfl
        | some parentId =>
            have hAbove :
                parentOf entries id = some parentId := by
              simp [parentOf, hFound, hSame.parentId, hParent]
            simp only [ih (parent_not_gone hThere hAbove)]

/- More steps than there are ids left change nothing. -/
theorem entryRelativePathInner_steps
    {steps steps' : Nat} {visiting : List FileId}
    (hSteps : (entries.ids \ visiting.toFinset).card < steps)
    (hSteps' :
      (entries.ids \ visiting.toFinset).card < steps') :
    entryRelativePathInner entries steps id visiting =
      entryRelativePathInner entries steps' id visiting := by
  induction steps generalizing steps' id visiting with
  | zero => omega
  | succ steps ih =>
      cases steps' with
      | zero => omega
      | succ steps' =>
          unfold entryRelativePathInner
          split
          · rfl
          · rename_i hNew
            cases hFound : entries.find id with
            | none => rfl
            | some entry =>
                -- The id has an entry and was not visited.
                have hMem :
                    id ∈ entries.ids \ visiting.toFinset := by
                  simp [Entries.mem_ids hFound, hNew]
                have hLess :
                    (entries.ids \
                      (id :: visiting).toFinset).card + 1 =
                    (entries.ids \ visiting.toFinset).card := by
                  rw [List.toFinset_cons, Finset.sdiff_insert]
                  exact Finset.card_erase_add_one hMem
                cases hParent : entry.parentId with
                | none => simp only [hParent]
                | some parentId =>
                    have hSame := @ih parentId steps'
                      (id :: visiting) (by omega) (by omega)
                    simp only [hParent, hSame]

theorem AgreeOnLive.sameLive
    (h : AgreeOnLive entries entries') :
    SameLive entries entries' := by
  refine ⟨h.gone_eq, ?_⟩
  intro id hThere
  rcases (h id).2 (isLive_of_not_gone hThere) with
    ⟨entry, entry', hFound, hFound', hSame⟩
  refine ⟨entry, entry', hFound, hFound', hSame, ?_⟩
  let steps := entries.length + entries'.length + 1
  have card (entries : Entries) :
      (entries.ids \ ([] : List FileId).toFinset).card <
        entries.length + 1 := by
    simpa using Entries.card_ids
  have hCard := card entries
  have hCard' := card entries'
  calc
    entryRelativePath id entries
      = entryRelativePathInner entries steps id [] :=
        entryRelativePathInner_steps hCard (by omega)
    _ = entryRelativePathInner entries' steps id [] :=
        h.path hThere
    _ = entryRelativePath id entries' :=
        entryRelativePathInner_steps (by omega) hCard'

end Recovery

end S4Drive

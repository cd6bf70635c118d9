import S4Drive.Library.FileTree

/-
  Steps on a tree of files: folders are made all the way to
  a path, and an entry is renamed with what is inside it.
  Both fail when a file is in the way.

  Main declarations:
    * `Files.createDirAll`, `Files.nodeAt_createDirAll`
    * `Files.createDirAll_of_isDir`
    * `Files.renameTree`, `Files.renameTree_of_free`
    * `Files.moveTree_of_renameTree`
-/

------------------------------------------------------------
-- Made Folders
------------------------------------------------------------

namespace FileTree

variable {ν β : Type}

namespace Files

variable [DecidableEq ν] [DecidableEq β]

/- Whether a path leads through folders only, or nothing. -/
def folderWay (files : Files ν β) (p : List ν) : Bool :=
  p.inits.tail.all fun q =>
    files.nodeAt q = none || files.nodeAt q = some .folder

/- Make one folder, unless something is there. -/
def createDir (files : Files ν β) (p : List ν) : Files ν β :=
  match files.nodeAt p with
  | none => files.set p .folder
  | some _ => files

/- Make a folder and all above it. -/
def createDirAll
    (files : Files ν β)
    (p : List ν) : Option (Files ν β) :=
  if files.folderWay p then
    some (p.inits.tail.foldl createDir files)
  else
    none

def isDir (files : Files ν β) (p : List ν) : Prop :=
  p = [] ∨ files.nodeAt p = some .folder

instance
    (files : Files ν β)
    (p : List ν) : Decidable (files.isDir p) :=
  inferInstanceAs (Decidable (_ ∨ _))

variable {files files' : Files ν β} {p q a b : List ν}
variable {node : Node β}

omit [DecidableEq ν] in
theorem mem_tail_inits :
    q ∈ p.inits.tail ↔ q ≠ [] ∧ q <+: p := by
  cases p with
  | nil => simp
  | cons part rest =>
      cases q with
      | nil => simp
      | cons part' rest' =>
          simp [List.cons_prefix_cons, and_comm, eq_comm]

omit [DecidableEq β] in
theorem rooted_of_entries
    (h : ∀ e ∈ files.entries, e.1 ≠ [] ∧ files.hasFolder e.1) :
    files.Rooted := by
  intro p hNode
  obtain ⟨node, hSome⟩ := Option.ne_none_iff_exists'.mp hNode
  exact h (p, node) (mem_of_nodeAt hSome)

omit [DecidableEq β] in
theorem nodeAt_createDir
    (files : Files ν β)
    (p q : List ν) :
    (files.createDir p).nodeAt q =
      if q = p ∧ files.nodeAt q = none then some .folder
      else files.nodeAt q := by
  unfold createDir
  by_cases hSame : q = p
  · subst hSame
    cases hNode : files.nodeAt q <;> simp [hNode]
  · cases hNode : files.nodeAt p <;> simp [hSame]

omit [DecidableEq β] in
theorem nodeAt_createDirs
    (ps : List (List ν))
    (files : Files ν β)
    (q : List ν) :
    (ps.foldl createDir files).nodeAt q =
      if q ∈ ps ∧ files.nodeAt q = none then some .folder
      else files.nodeAt q := by
  induction ps generalizing files with
  | nil => simp
  | cons p ps ih =>
      rw [List.foldl_cons, ih, nodeAt_createDir]
      by_cases hSame : q = p
      · by_cases hNone : files.nodeAt q = none
        · simp [hSame, hSame ▸ hNone]
        · simp [hSame, hSame ▸ hNone]
      · simp [hSame]

theorem nodeAt_createDirAll
    (h : files.createDirAll p = some files')
    (q : List ν) :
    files'.nodeAt q =
      if (q ≠ [] ∧ q <+: p) ∧ files.nodeAt q = none then
        some .folder
      else
        files.nodeAt q := by
  unfold createDirAll at h
  split at h
  · cases h
    simp only [nodeAt_createDirs, mem_tail_inits]
  · cases h

/- What is there stays. -/
theorem createDirAll_kept
    (h : files.createDirAll p = some files')
    (hNode : files.nodeAt q = some node) :
    files'.nodeAt q = some node := by
  simp [nodeAt_createDirAll h, hNode]

theorem createDirAll_other
    (h : files.createDirAll p = some files')
    (hOther : ¬ q <+: p) :
    files'.nodeAt q = files.nodeAt q := by
  simp [nodeAt_createDirAll h, hOther]

/- Only folders come. -/
theorem createDirAll_new
    (h : files.createDirAll p = some files')
    (hNode : files'.nodeAt q = some node) :
    files.nodeAt q = some node ∨
      node = .folder ∧ q <+: p ∧ files.nodeAt q = none := by
  rw [nodeAt_createDirAll h] at hNode
  split at hNode
  · rename_i hNew
    exact .inr ⟨(Option.some.inj hNode).symm, hNew.1.2, hNew.2⟩
  · exact .inl hNode

omit [DecidableEq β] in
/- The way to a folder leads through folders. -/
theorem isDir.above
    (hDir : files.isDir p)
    (hRooted : files.Rooted)
    (hIn : q <+: p) : files.isDir q := by
  by_cases hTop : q = []
  · exact .inl hTop
  · have hPath : p ≠ [] :=
      fun hNil => hTop (List.prefix_nil.mp (hNil ▸ hIn))
    have hFolder := hDir.resolve_left hPath
    by_cases hSame : p = q
    · rwa [← hSame]
    · exact .inr (hRooted.folder_above hTop hIn hSame
        (by simp [hFolder]))

theorem createDirAll_isSome
    (hWay : ∀ q, q ≠ [] → q <+: p →
      files.nodeAt q = none ∨ files.nodeAt q = some .folder) :
    ∃ files', files.createDirAll p = some files' := by
  refine ⟨p.inits.tail.foldl createDir files, ?_⟩
  unfold createDirAll
  rw [if_pos]
  unfold folderWay
  rw [List.all_eq_true]
  intro q hq
  have hIn := mem_tail_inits.mp hq
  simpa using hWay q hIn.1 hIn.2

omit [DecidableEq β] in
theorem createDirs_same
    {ps : List (List ν)}
    (h : ∀ q ∈ ps, files.nodeAt q = some .folder) :
    ps.foldl createDir files = files := by
  induction ps with
  | nil => rfl
  | cons p ps ih =>
      have hHere : files.createDir p = files := by
        unfold createDir
        rw [h p List.mem_cons_self]
      rw [List.foldl_cons, hHere]
      exact ih fun q hq => h q (List.mem_cons_of_mem p hq)

/- A folder that is there is not made. -/
theorem createDirAll_of_isDir
    (hRooted : files.Rooted)
    (hDir : files.isDir p) :
    files.createDirAll p = some files := by
  have hFolders :
      ∀ q ∈ p.inits.tail, files.nodeAt q = some .folder := by
    intro q hq
    have hIn := mem_tail_inits.mp hq
    exact (hDir.above hRooted hIn.2).resolve_left hIn.1
  unfold createDirAll folderWay
  rw [if_pos, createDirs_same hFolders]
  rw [List.all_eq_true]
  intro q hq
  simp [hFolders q hq]

/- The path leads through folders then. -/
theorem folder_of_createDirAll
    (h : files.createDirAll p = some files')
    (hTop : q ≠ [])
    (hIn : q <+: p) : files'.nodeAt q = some .folder := by
  rw [nodeAt_createDirAll h]
  unfold createDirAll at h
  split at h
  · rename_i hWay
    have hHere := List.all_eq_true.mp hWay q
      (mem_tail_inits.mpr ⟨hTop, hIn⟩)
    rw [Bool.or_eq_true, decide_eq_true_eq, decide_eq_true_eq]
      at hHere
    rcases hHere with hNone | hFolder
    · rw [if_pos ⟨⟨hTop, hIn⟩, hNone⟩]
    · simp [hFolder]
  · cases h

theorem Rooted.createDirAll
    (hRooted : files.Rooted)
    (h : files.createDirAll p = some files') :
    files'.Rooted := by
  intro q hNode
  obtain ⟨node, hSome⟩ := Option.ne_none_iff_exists'.mp hNode
  rcases createDirAll_new h hSome with
    hOld | ⟨_, hIn, hNone⟩
  · have hPlace := hRooted q (by simp [hOld])
    refine ⟨hPlace.1, ?_⟩
    rcases hPlace.2 with hTop | hFolder
    · exact .inl hTop
    · exact .inr (createDirAll_kept h hFolder)
  · have hPath : q ≠ [] := by
      rintro rfl
      rw [nodeAt_createDirAll h, if_neg (by simp), hNone]
        at hSome
      cases hSome
    refine ⟨hPath, ?_⟩
    by_cases hTop : q.dropLast = []
    · exact .inl hTop
    · exact .inr (folder_of_createDirAll h hTop
        ((List.dropLast_prefix q).trans hIn))

/- Whether the entry at `a` may take the place of `b`. -/
def canReplace (files : Files ν β) (a b : List ν) : Bool :=
  match files.nodeAt a, files.nodeAt b with
  | none, _ => false
  | some _, none => true
  | some .folder, some .folder =>
      files.entries.all fun e =>
        !(b.isPrefixOf e.1) || e.1 = b
  | some .folder, some _ => false
  | some _, some .folder => false
  | some _, some _ => true

/-
  Rename an entry. A folder is not moved into itself, and
  only takes the place of an empty one.
-/
def renameTree
    (files : Files ν β)
    (a b : List ν) : Option (Files ν β) :=
  if a = b then
    some files
  else if a.isPrefixOf b then
    none
  else if files.isDir b.dropLast ∧ files.canReplace a b then
    some (files.moveTree a b)
  else
    none

/- Nothing is in the way of a free name in a folder. -/
theorem renameTree_of_free
    (hNode : files.nodeAt a ≠ none)
    (hDir : files.isDir b.dropLast)
    (hFree : files.nodeAt b = none)
    (hOutside : ¬ a <+: b) :
    files.renameTree a b = some (files.moveTree a b) := by
  have hOther : a ≠ b := by
    rintro rfl
    exact hNode hFree
  have hPrefix : ¬ a.isPrefixOf b = true := by
    rwa [List.isPrefixOf_iff_prefix]
  have hReplace : files.canReplace a b = true := by
    unfold canReplace
    rw [hFree]
    cases hHere : files.nodeAt a with
    | none => exact absurd hHere hNode
    | some node => rfl
  unfold renameTree
  rw [if_neg hOther, if_neg hPrefix, if_pos ⟨hDir, hReplace⟩]

/- An entry that changes its path has been moved. -/
theorem moveTree_of_renameTree
    (h : files.renameTree a b = some files')
    (hOther : a ≠ b) :
    files.canReplace a b = true ∧
      files' = files.moveTree a b := by
  unfold renameTree at h
  rw [if_neg hOther] at h
  split at h
  · cases h
  · split at h
    · rename_i hMay
      exact ⟨hMay.2, (Option.some.inj h).symm⟩
    · cases h

omit [DecidableEq β] in
/- A file does not take the place of a folder. -/
theorem not_folder_of_canReplace
    {body : β}
    (h : files.canReplace a b = true)
    (hFile : files.nodeAt a = some (.file body)) :
    files.nodeAt b ≠ some .folder := by
  intro hFolder
  unfold canReplace at h
  rw [hFile, hFolder] at h
  cases h

omit [DecidableEq β] in
/- A folder only takes the place of what has no file in it. -/
theorem not_below_of_canReplace
    {body : β}
    (hRooted : files.Rooted)
    (h : files.canReplace a b = true)
    (hFolder : files.nodeAt a = some .folder)
    (hTop : b ≠ [])
    (hFile : files.nodeAt q = some (.file body)) :
    ¬ b <+: q := by
  intro hIn
  unfold canReplace at h
  rw [hFolder] at h
  by_cases hSame : q = b
  · rw [← hSame, hFile] at h
    cases h
  · have hAbove := hRooted.folder_above hTop hIn hSame
      (by simp [hFile])
    rw [hAbove] at h
    have hEntry := List.all_eq_true.mp h (q, .file body)
      (mem_of_nodeAt hFile)
    rw [Bool.or_eq_true, decide_eq_true_eq] at hEntry
    rcases hEntry with hOut | hAt
    · rw [List.isPrefixOf_iff_prefix.mpr hIn] at hOut
      cases hOut
    · exact hSame hAt

end Files

end FileTree

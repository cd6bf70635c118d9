import S4Drive.Notes.Backup

/-
  What a capture is to be: a snapshot of the Notes folder,
  with exactly the folders, files and bytes that there were
  at one moment. Trees are compared over time: an inode that
  has been changed has a modification time after the clock
  that was, and a folder keeps its entries until a change
  touches it.

  Main declarations:
    * `NotesTree.Ok`, `NotesTree.Later`, `NotesTree.Changes`
    * `changes_of_change`
    * `Snapshot`
    * `snapshotSystem`, `OpensScanned`, `KeepsListed`
-/

------------------------------------------------------------
-- Trees over Time
------------------------------------------------------------

namespace S4Drive

open Concurrency

namespace NotesTree

def Ok (tree : NotesTree) : Prop :=
  ∀ id i, tree.inode id = some i → i.mtime ≤ tree.clock

/- The second tree is what others have made of the first. -/
structure Later (tree tree' : NotesTree) : Prop where
  root : tree'.root = tree.root
  clock : tree.clock ≤ tree'.clock
  inode :
    ∀ id i, tree.inode id = some i →
      ∃ i', tree'.inode id = some i' ∧
        i'.kind.type = i.kind.type ∧
        (i' = i ∨ tree.clock < i'.mtime)

variable {tree tree' tree'' : NotesTree} {id dir : InodeId}
variable {i : Inode} {name : OsName}

theorem Later.refl (tree : NotesTree) : Later tree tree where
  root := rfl
  clock := le_rfl
  inode := fun _ i h => ⟨i, h, rfl, .inl rfl⟩

theorem Later.trans
    (first : Later tree tree')
    (second : Later tree' tree'') : Later tree tree'' where
  root := second.root.trans first.root
  clock := first.clock.trans second.clock
  inode := by
    intro id i h
    rcases first.inode id i h with ⟨i', h', hType, hSame⟩
    rcases second.inode id i' h' with ⟨i'', h'', hType', hSame'⟩
    refine ⟨i'', h'', hType'.trans hType, ?_⟩
    rcases hSame' with rfl | hAfter
    · exact hSame
    · exact .inr (lt_of_le_of_lt first.clock hAfter)

theorem inode_of_entriesOf
    {entries : List (OsName × InodeId)}
    (h : tree.entriesOf dir = some entries) :
    ∃ i, tree.inode dir = some i ∧ i.kind = .folder entries := by
  unfold entriesOf kindOf at h
  cases hInode : tree.inode dir with
  | none => simp [hInode] at h
  | some i =>
      refine ⟨i, rfl, ?_⟩
      cases hKind : i.kind <;> simp_all

theorem entriesOf_of_inode
    (h : tree.inode id = some i) :
    (tree.entriesOf id).isSome ↔ i.kind.type = .folder := by
  unfold entriesOf kindOf
  rw [h]
  cases hKind : i.kind <;> simp [hKind, InodeKind.type]

/- Folders stay folders, and nothing else becomes one. -/
theorem Later.isFolder
    (hLater : Later tree tree')
    (h : tree.inode id = some i) :
    (tree'.entriesOf id).isSome ↔
      (tree.entriesOf id).isSome := by
  rcases hLater.inode id i h with ⟨i', h', hType, _⟩
  rw [entriesOf_of_inode h, entriesOf_of_inode h', hType]

/- What a change of the entries of some folders does. -/
structure Changes
    (touched : List InodeId)
    (tree tree' : NotesTree) : Prop where
  later : Later tree tree'
  ok : tree.Ok → tree'.Ok
  kept :
    ∀ dir entries, dir ∉ touched →
      tree.entriesOf dir = some entries →
        tree'.entriesOf dir = some entries

variable {touched : List InodeId} {kind : InodeKind}

theorem Changes.trans
    (first : Changes touched tree tree')
    (second : Changes touched tree' tree'') :
    Changes touched tree tree'' where
  later := first.later.trans second.later
  ok := fun h => second.ok (first.ok h)
  kept := fun dir entries hFree h =>
    second.kept dir entries hFree
      (first.kept dir entries hFree h)

@[simp] theorem inode_set_self :
    (tree.set id kind).inode id =
      some ⟨kind, tree.clock + 1⟩ := by
  simp [set]

theorem inode_set_of_ne (h : dir ≠ id) :
    (tree.set id kind).inode dir = tree.inode dir := by
  simp [set, h]

theorem entriesOf_set_of_ne (h : dir ≠ id) :
    (tree.set id kind).entriesOf dir = tree.entriesOf dir := by
  simp [entriesOf, kindOf, inode_set_of_ne h]

theorem changes_set
    (hType :
      ∀ i, tree.inode id = some i → kind.type = i.kind.type)
    (hTouched : tree.entriesOf id = none ∨ id ∈ touched) :
    Changes touched tree (tree.set id kind) where
  later :=
    { root := rfl
      clock := Nat.le_succ _
      inode := by
        intro id' i' h
        by_cases hSame : id' = id
        · subst hSame
          exact ⟨_, inode_set_self, hType i' h,
            .inr (Nat.lt_succ_self _)⟩
        · exact ⟨i', (inode_set_of_ne hSame).trans h, rfl,
            .inl rfl⟩ }
  ok := by
    intro h id' i' h'
    by_cases hSame : id' = id
    · subst hSame
      rw [inode_set_self, Option.some.injEq] at h'
      subst h'
      exact le_rfl
    · rw [inode_set_of_ne hSame] at h'
      exact (h id' i' h').trans (Nat.le_succ _)
  kept := by
    intro dir entries hFree h
    have hOther : dir ≠ id := by
      rintro rfl
      rcases hTouched with hNone | hIn
      · rw [hNone] at h
        cases h
      · exact hFree hIn
    rw [entriesOf_set_of_ne hOther, h]

/- New entries for a folder. -/
theorem changes_setFolder
    {entries entries' : List (OsName × InodeId)}
    (h : tree.entriesOf dir = some entries)
    (hTouched : dir ∈ touched) :
    Changes touched tree (tree.set dir (.folder entries')) := by
  apply changes_set _ (.inr hTouched)
  intro i hInode
  rcases inode_of_entriesOf h with ⟨i', hInode', hKind⟩
  rw [hInode, Option.some.injEq] at hInode'
  subst hInode'
  rw [hKind]
  rfl

theorem changes_of_change
    {c : TreeChange}
    (h : tree.change c = some tree') :
    Changes c.touches tree tree' := by
  cases c with
  | write file bytes =>
      simp only [change] at h
      split at h
      · rename_i old hKind
        cases h
        rcases Option.map_eq_some_iff.mp hKind with
          ⟨i, hInode, hOld⟩
        apply changes_set
        · intro i' hInode'
          rw [hInode, Option.some.injEq] at hInode'
          rw [← hInode', hOld]
          rfl
        · left
          simp [entriesOf, hKind]
      · cases h
  | create dir name id kind =>
      simp only [change] at h
      split at h
      · cases h
      · rename_i kind _ _ entries hEntries _
        split at h
        · rename_i hFree
          cases h
          have hNone : tree.inode id = none := by
            simpa using hFree.1
          have hOther : dir ≠ id := by
            rintro rfl
            rcases inode_of_entriesOf hEntries with
              ⟨i, hInode, _⟩
            rw [hNone] at hInode
            cases hInode
          have hNew :
              Changes [dir] tree (tree.set id kind) := by
            apply changes_set
            · intro i hInode
              rw [hNone] at hInode
              cases hInode
            · left
              simp [entriesOf, kindOf, hNone]
          apply hNew.trans
          exact changes_setFolder
            ((entriesOf_set_of_ne hOther).trans hEntries)
            (by simp)
        · cases h
      · cases h
  | remove dir name =>
      rcases Option.map_eq_some_iff.mp h with
        ⟨entries, hEntries, rfl⟩
      exact changes_setFolder hEntries
        (by simp [TreeChange.touches])
  | rename dir name dir' name' =>
      simp only [change] at h
      split at h
      · rename_i entries id hEntries _
        rcases Option.map_eq_some_iff.mp h with
          ⟨entries', hEntries', rfl⟩
        have hTaken :
            Changes [dir, dir'] tree
              (tree.set dir (.folder (without entries name))) :=
          changes_setFolder hEntries (by simp)
        exact hTaken.trans
          (changes_setFolder hEntries' (by simp))
      · cases h

end NotesTree

------------------------------------------------------------
-- Snapshots
------------------------------------------------------------

/- The archive path of what is at `names` below `rel`. -/
def pathBelow (rel : Text) : List OsName → Text
  | [] => rel
  | name :: rest => pathBelow (joinName rel name.text) rest

/- What is staged of an inode at an archive path. -/
def StagedOf
    (codec : BackupCodec)
    (kind : Option InodeKind)
    (path : Text)
    (staged : StagedEntry) : Prop :=
  match kind with
  | some (.folder _) =>
      staged = ⟨⟨path, "directory", 0, none⟩, []⟩
  | some (.file bytes) =>
      staged =
        ⟨⟨path, "file", bytes.length, some (codec.blake3 bytes)⟩,
          bytes⟩
  | _ => False

/- A tree has exactly the staged folders, files and bytes. -/
structure Snapshot
    (codec : BackupCodec)
    (tree : NotesTree)
    (staged : List StagedEntry) : Prop where
  sound :
    ∀ s ∈ staged, ∃ names id,
      tree.walk tree.root names = some id ∧
        StagedOf codec (tree.kindOf id)
          (pathBelow notesRootName names) s
  complete :
    ∀ names id, tree.walk tree.root names = some id →
      ∃ s ∈ staged,
        StagedOf codec (tree.kindOf id)
          (pathBelow notesRootName names) s

/- Captures of the Notes folder, one at a time. -/
def snapshotSystem (codec : BackupCodec) :
    ThreadSystem BackupReq BackupResp BackupWorld Unit
      BackupChoice InodeId (BackupExcept (List StagedEntry))
      Unit TreeChange where
  toMachine := backupMachine
  body := fun root v => captureSnapshot codec root maxAttempts v
  boot := ()
  begin := fun _ root _ w =>
    if root = w.tree.root then some (startBackup w) else none
  finish := fun _ _ _ _ _ w => w
  halt := fun _ w => w
  env := fun c w => otherProcess (.notes c) w

abbrev SnapshotState :=
  SystemState BackupReq BackupResp BackupWorld Unit InodeId
    (BackupExcept (List StagedEntry)) Unit

/-
  What is opened to be copied is the inode that was scanned,
  or its size or modification time shows that it is not.
-/
def OpensScanned
    (r : BackupReq)
    (k : BackupChoice)
    (w : BackupWorld) : Prop :=
  match r, k with
  | .tree (.openFile dir name), .tree .ok =>
      ∀ e ∈ w.seen, e.dir = dir → e.name = name →
        ∀ id ∈ w.tree.entry dir name, id = e.id ∨
          ∀ i ∈ w.tree.inode id,
            ¬ (i.kind.size = e.metadata.size ∧
              i.mtime = e.metadata.mtime)
  | _, _ => True

/- No folder changes that the current scan has listed. -/
def KeepsListed (c : TreeChange) (w : BackupWorld) : Prop :=
  ∀ dir ∈ c.touches, dir ∉ w.listed

def snapshotLimits :
    ThreadSystem.Limits BackupReq BackupChoice BackupWorld
      Unit InodeId Unit TreeChange where
  Starts := fun _ _ _ _ => True
  Admits := fun _ _ r k w => OpensScanned r k w
  Env := KeepsListed

/- The second world is what a scan goes on from the first. -/
structure Onward (w w' : BackupWorld) : Prop where
  later : NotesTree.Later w.tree w'.tree
  past : ∀ tree ∈ w.past, tree ∈ w'.past
  now : w.tree ∈ w.past → w'.tree ∈ w'.past
  seen : ∀ e ∈ w.seen, e ∈ w'.seen
  listed : ∀ dir ∈ w.listed, dir ∈ w'.listed
  kept :
    ∀ dir entries, dir ∈ w.listed →
      w.tree.entriesOf dir = some entries →
        w'.tree.entriesOf dir = some entries

variable {w w' w'' : BackupWorld} {dir id : InodeId}
variable {name : OsName} {rest names : List OsName}

theorem Onward.refl (w : BackupWorld) : Onward w w where
  later := .refl _
  past := fun _ h => h
  now := fun h => h
  seen := fun _ h => h
  listed := fun _ h => h
  kept := fun _ _ _ h => h

theorem Onward.trans
    (first : Onward w w')
    (second : Onward w' w'') : Onward w w'' where
  later := first.later.trans second.later
  past := fun _ h => second.past _ (first.past _ h)
  now := fun h => second.now (first.now h)
  seen := fun _ h => second.seen _ (first.seen _ h)
  listed := fun _ h => second.listed _ (first.listed _ h)
  kept := fun dir entries hDir h =>
    second.kept dir entries (first.listed dir hDir)
      (first.kept dir entries hDir h)

/- What a change leaves to a scan whose folders it spares. -/
theorem onward_change
    {c : TreeChange}
    (hKeeps : KeepsListed c w)
    (h : otherProcess (.notes c) w = some w') :
    Onward w w' ∧ (w.tree.Ok → w'.tree.Ok) := by
  rcases Option.map_eq_some_iff.mp h with ⟨tree, hChange, rfl⟩
  have hChanges := NotesTree.changes_of_change hChange
  refine ⟨?_, hChanges.ok⟩
  exact
    { later := hChanges.later
      past := fun _ h => List.mem_cons_of_mem _ h
      now := fun _ => List.mem_cons_self
      seen := fun _ h => h
      listed := fun _ h => h
      kept := fun dir entries hDir =>
        hChanges.kept dir entries
          fun hTouched => hKeeps dir hTouched hDir }

def snapshotContract :
    Contract BackupReq BackupChoice BackupWorld Unit where
  Inv := fun w => w.tree.Ok
  Rely := fun _ => Onward
  Admits := fun _ r k w => OpensScanned r k w
  rely_refl := fun _ => Onward.refl
  rely_trans := fun h₁ h₂ => h₁.trans h₂

/- The folders that are found below a name are all listed. -/
structure ListedBelow
    (w : BackupWorld)
    (dir : InodeId)
    (name : OsName) : Prop where
  present :
    ∀ rest id, w.tree.walk dir (name :: rest) = some id →
      ∃ i, w.tree.inode id = some i
  listed :
    ∀ rest id, w.tree.walk dir (name :: rest) = some id →
      (w.tree.entriesOf id).isSome → id ∈ w.listed

theorem entry_onward
    (h : Onward w w')
    (hDir : dir ∈ w.listed)
    (hFolder : (w.tree.entriesOf dir).isSome) :
    w'.tree.entry dir name = w.tree.entry dir name := by
  rcases Option.isSome_iff_exists.mp hFolder with
    ⟨entries, hEntries⟩
  unfold NotesTree.entry
  rw [hEntries, h.kept dir entries hDir hEntries]

/- Below a listed folder a path leads where it did before. -/
theorem walk_onward
    (h : Onward w w')
    (hDir : dir ∈ w.listed)
    (hFolder : (w.tree.entriesOf dir).isSome)
    (hBelow : ListedBelow w dir name) :
    w'.tree.walk dir (name :: rest) =
      w.tree.walk dir (name :: rest) := by
  induction rest generalizing dir name with
  | nil =>
      simp only [NotesTree.walk]
      rw [entry_onward h hDir hFolder]
  | cons name' rest ih =>
      have hEntry :
          w'.tree.entry dir name = w.tree.entry dir name :=
        entry_onward h hDir hFolder
      cases hId : w.tree.entry dir name with
      | none => simp [NotesTree.walk, hEntry, hId]
      | some id =>
          have hStep (tail : List OsName) :
              w.tree.walk dir (name :: tail) =
                w.tree.walk id tail := by
            simp [NotesTree.walk, hId]
          have hStep' :
              w'.tree.walk dir (name :: name' :: rest) =
                w'.tree.walk id (name' :: rest) := by
            simp [NotesTree.walk, hEntry, hId]
          rw [hStep, hStep']
          rcases hBelow.present [] id (hStep []) with
            ⟨i, hInode⟩
          have hKind := h.later.isFolder hInode
          by_cases hChild : (w.tree.entriesOf id).isSome
          · apply ih (hBelow.listed [] id (hStep []) hChild)
              hChild
            exact
              { present := fun tail id' hWalk =>
                  hBelow.present (name' :: tail) id'
                    ((hStep _).trans hWalk)
                listed := fun tail id' hWalk =>
                  hBelow.listed (name' :: tail) id'
                    ((hStep _).trans hWalk) }
          · have hNone : w.tree.entriesOf id = none := by
              simpa using hChild
            have hNone' : w'.tree.entriesOf id = none := by
              simpa [hNone] using hKind
            simp [NotesTree.walk, NotesTree.entry, hNone,
              hNone']

end S4Drive

import S4Drive.Notes.Snapshot

/-
  A capture that returns has a snapshot. The scan lists each
  folder once, so that the others leave what it has found
  in place, and a file that was written after the scan has
  looked at it no longer has the modification time that was
  scanned. The tree of the moment at which the scan ends is
  the one that is captured.

  Main declarations:
    * `SeenAs`, `Found`
    * `scanNotesTree_finds`
    * `copyEntries_stages`
    * `captures_are_snapshots`
-/

------------------------------------------------------------
-- What a Scan Has Found
------------------------------------------------------------

namespace S4Drive

open Concurrency FileTree

variable {codec : BackupCodec}
variable {w w' : BackupWorld} {dir id : InodeId}
variable {name : OsName} {x : ScannedEntry}

/- What a scan has recorded of an inode. -/
def SeenAs
    (tree : NotesTree)
    (seen : List SeenEntry)
    (x : ScannedEntry)
    (id : InodeId) : Prop :=
  match x.source with
  | none => (tree.entriesOf id).isSome
  | some (dir, name) => ∃ metadata i,
      ⟨dir, name, id, metadata⟩ ∈ seen ∧
        metadata.type = .file ∧
        x.size = metadata.size ∧
        x.mtime = some metadata.mtime ∧
        metadata.mtime ≤ tree.clock ∧
        tree.inode id = some i ∧
        (i.metadata = metadata ∨ metadata.mtime < i.mtime)

variable {seen : List SeenEntry}

theorem SeenAs.inode
    {tree : NotesTree}
    (h : SeenAs tree seen x id) :
    ∃ i, tree.inode id = some i := by
  unfold SeenAs at h
  split at h
  · rcases Option.isSome_iff_exists.mp h with ⟨_, hEntries⟩
    rcases NotesTree.inode_of_entriesOf hEntries with
      ⟨i, hInode, _⟩
    exact ⟨i, hInode⟩
  · rcases h with ⟨_, i, _, _, _, _, _, hInode, _⟩
    exact ⟨i, hInode⟩

variable {metadata : Metadata}

/- A metadata that was seen stays older than what changes. -/
theorem seen_onward
    {i : Inode}
    (hLater : NotesTree.Later w.tree w'.tree)
    (hClock : metadata.mtime ≤ w.tree.clock)
    (hInode : w.tree.inode id = some i)
    (hSeen :
      i.metadata = metadata ∨ metadata.mtime < i.mtime) :
    ∃ i', w'.tree.inode id = some i' ∧
      i'.kind.type = i.kind.type ∧
      (i'.metadata = metadata ∨ metadata.mtime < i'.mtime) := by
  rcases hLater.inode id i hInode with
    ⟨i', hInode', hType, hSame⟩
  refine ⟨i', hInode', hType, ?_⟩
  rcases hSame with rfl | hAfter
  · exact hSeen
  · exact .inr (lt_of_le_of_lt hClock hAfter)

theorem SeenAs.onward
    (h : SeenAs w.tree w.seen x id)
    (hOnward : Onward w w') :
    SeenAs w'.tree w'.seen x id := by
  unfold SeenAs at h ⊢
  split at h
  · rcases Option.isSome_iff_exists.mp h with ⟨_, hEntries⟩
    rcases NotesTree.inode_of_entriesOf hEntries with
      ⟨i, hInode, _⟩
    exact (hOnward.later.isFolder hInode).mpr h
  · rcases h with
      ⟨metadata, i, hIn, hFile, hSize, hTime, hClock, hInode,
        hSeen⟩
    rcases seen_onward hOnward.later hClock hInode hSeen
      with ⟨i', hInode', _, hSeen'⟩
    exact ⟨metadata, i', hOnward.seen _ hIn, hFile, hSize,
      hTime, hClock.trans hOnward.later.clock, hInode',
      hSeen'⟩

/-
  `new` is what there is in a folder below the names of `P`,
  and the folders in it are listed.
-/
structure Found
    (w : BackupWorld)
    (dir : InodeId)
    (relDir : Text)
    (P : OsName → Prop)
    (new : List ScannedEntry) : Prop where
  sound :
    ∀ x ∈ new, ∃ name rest id, P name ∧
      w.tree.walk dir (name :: rest) = some id ∧
        x.relPath = pathBelow relDir (name :: rest) ∧
        SeenAs w.tree w.seen x id
  complete :
    ∀ name rest id, P name →
      w.tree.walk dir (name :: rest) = some id →
        ∃ x ∈ new,
          x.relPath = pathBelow relDir (name :: rest) ∧
            SeenAs w.tree w.seen x id
  listed :
    ∀ name rest id, P name →
      w.tree.walk dir (name :: rest) = some id →
        (w.tree.entriesOf id).isSome → id ∈ w.listed

variable {relDir : Text} {P P' : OsName → Prop}
variable {new new' : List ScannedEntry}

theorem Found.below
    (h : Found w dir relDir P new)
    (hName : P name) : ListedBelow w dir name where
  present := by
    intro rest id hWalk
    rcases h.complete name rest id hName hWalk with
      ⟨x, _, _, hSeen⟩
    exact hSeen.inode
  listed := fun rest id hWalk =>
    h.listed name rest id hName hWalk

/- The others leave in place what a scan has found. -/
theorem Found.onward
    (h : Found w dir relDir P new)
    (hOnward : Onward w w')
    (hDir : dir ∈ w.listed)
    (hFolder : (w.tree.entriesOf dir).isSome) :
    Found w' dir relDir P new := by
  have hSame {name : OsName} {rest : List OsName}
      (hName : P name) :
      w'.tree.walk dir (name :: rest) =
        w.tree.walk dir (name :: rest) :=
    walk_onward hOnward hDir hFolder (h.below hName)
  refine ⟨?_, ?_, ?_⟩
  · intro x hx
    rcases h.sound x hx with
      ⟨name, rest, id, hName, hWalk, hPath, hSeen⟩
    exact ⟨name, rest, id, hName,
      (hSame hName).trans hWalk, hPath,
      hSeen.onward hOnward⟩
  · intro name rest id hName hWalk
    rw [hSame hName] at hWalk
    rcases h.complete name rest id hName hWalk with
      ⟨x, hx, hPath, hSeen⟩
    exact ⟨x, hx, hPath, hSeen.onward hOnward⟩
  · intro name rest id hName hWalk hIs
    rw [hSame hName] at hWalk
    rcases (h.below hName).present rest id hWalk with
      ⟨i, hInode⟩
    apply hOnward.listed
    exact h.listed name rest id hName hWalk
      ((hOnward.later.isFolder hInode).mp hIs)

theorem Found.append
    (h : Found w dir relDir P new)
    (h' : Found w dir relDir P' new') :
    Found w dir relDir (fun name => P name ∨ P' name)
      (new ++ new') where
  sound := by
    intro x hx
    rcases List.mem_append.mp hx with hx | hx
    · rcases h.sound x hx with
        ⟨name, rest, id, hName, hFound⟩
      exact ⟨name, rest, id, .inl hName, hFound⟩
    · rcases h'.sound x hx with
        ⟨name, rest, id, hName, hFound⟩
      exact ⟨name, rest, id, .inr hName, hFound⟩
  complete := by
    rintro name rest id (hName | hName) hWalk
    · rcases h.complete name rest id hName hWalk with
        ⟨x, hx, hFound⟩
      exact ⟨x, List.mem_append_left _ hx, hFound⟩
    · rcases h'.complete name rest id hName hWalk with
        ⟨x, hx, hFound⟩
      exact ⟨x, List.mem_append_right _ hx, hFound⟩
  listed := by
    rintro name rest id (hName | hName) hWalk
    · exact h.listed name rest id hName hWalk
    · exact h'.listed name rest id hName hWalk

theorem Found.nothing
    (h : ∀ name, P name → w.tree.entry dir name = none) :
    Found w dir relDir P [] where
  sound := fun x hx => nomatch hx
  complete := by
    intro name rest id hName hWalk
    simp [NotesTree.walk, h name hName] at hWalk
  listed := by
    intro name rest id hName hWalk
    simp [NotesTree.walk, h name hName] at hWalk

theorem Found.congr
    (h : Found w dir relDir P new)
    (hSame :
      ∀ name, (w.tree.entry dir name).isSome →
        (P name ↔ P' name)) :
    Found w dir relDir P' new := by
  have hEntry {name : OsName} {rest : List OsName}
      {id : InodeId}
      (hWalk : w.tree.walk dir (name :: rest) = some id) :
      (w.tree.entry dir name).isSome := by
    cases hId : w.tree.entry dir name with
    | none => simp [NotesTree.walk, hId] at hWalk
    | some _ => rfl
  refine ⟨?_, ?_, ?_⟩
  · intro x hx
    rcases h.sound x hx with
      ⟨name, rest, id, hName, hWalk, hFound⟩
    exact ⟨name, rest, id,
      (hSame name (hEntry hWalk)).mp hName, hWalk, hFound⟩
  · intro name rest id hName hWalk
    exact h.complete name rest id
      ((hSame name (hEntry hWalk)).mpr hName) hWalk
  · intro name rest id hName hWalk
    exact h.listed name rest id
      ((hSame name (hEntry hWalk)).mpr hName) hWalk

theorem walk_of_entry
    {tree : NotesTree} {rest : List OsName}
    (h : tree.entry dir name = some id) :
    tree.walk dir (name :: rest) = tree.walk id rest := by
  simp [NotesTree.walk, h]

/- Nothing is found below an entry that is no folder. -/
theorem walk_of_no_folder
    {tree : NotesTree} {rest : List OsName} {id' : InodeId}
    (hNone : tree.entriesOf id = none)
    (hWalk : tree.walk id rest = some id') :
    rest = [] ∧ id' = id := by
  cases rest with
  | nil => exact ⟨rfl, (Option.some.inj hWalk).symm⟩
  | cons name rest =>
      simp [NotesTree.walk, NotesTree.entry, hNone] at hWalk

theorem found_file
    (hEntry : w.tree.entry dir name = some id)
    (hNone : w.tree.entriesOf id = none)
    (hPath : x.relPath = joinName relDir name.text)
    (hSeen : SeenAs w.tree w.seen x id) :
    Found w dir relDir (fun name' => name' = name) [x] where
  sound := by
    intro x' hx
    rw [List.mem_singleton] at hx
    subst hx
    exact ⟨name, [], id, rfl, walk_of_entry hEntry, hPath,
      hSeen⟩
  complete := by
    rintro _ rest id' rfl hWalk
    rw [walk_of_entry hEntry] at hWalk
    rcases walk_of_no_folder hNone hWalk with ⟨rfl, rfl⟩
    exact ⟨x, List.mem_singleton_self x, hPath, hSeen⟩
  listed := by
    rintro _ rest id' rfl hWalk hIs
    rw [walk_of_entry hEntry] at hWalk
    rcases walk_of_no_folder hNone hWalk with ⟨rfl, rfl⟩
    simp [hNone] at hIs

/- A folder and all that is found in it. -/
theorem found_folder
    (hEntry : w.tree.entry dir name = some id)
    (hListed : id ∈ w.listed)
    (hPath : x.relPath = joinName relDir name.text)
    (hSeen : SeenAs w.tree w.seen x id)
    (hFound :
      Found w id (joinName relDir name.text) (fun _ => True)
        new) :
    Found w dir relDir (fun name' => name' = name)
      (x :: new) where
  sound := by
    intro x' hx
    rcases List.mem_cons.mp hx with rfl | hx
    · exact ⟨name, [], id, rfl, walk_of_entry hEntry, hPath,
        hSeen⟩
    · rcases hFound.sound x' hx with
        ⟨name', rest, id', _, hWalk, hFoundAt⟩
      exact ⟨name, name' :: rest, id', rfl,
        (walk_of_entry hEntry).trans hWalk, hFoundAt⟩
  complete := by
    rintro _ rest id' rfl hWalk
    rw [walk_of_entry hEntry] at hWalk
    cases rest with
    | nil =>
        cases hWalk
        exact ⟨x, List.mem_cons_self, hPath, hSeen⟩
    | cons name' rest =>
        rcases hFound.complete name' rest id' trivial hWalk
          with ⟨x', hx, hFoundAt⟩
        exact ⟨x', List.mem_cons_of_mem x hx, hFoundAt⟩
  listed := by
    rintro _ rest id' rfl hWalk hIs
    rw [walk_of_entry hEntry] at hWalk
    cases rest with
    | nil =>
        cases hWalk
        exact hListed
    | cons name' rest =>
        exact hFound.listed name' rest id' trivial hWalk hIs

variable {α γ : Type}

/- What `x` returns, from the world `w` on, satisfies `Q`. -/
abbrev Captures
    (x : BackupM α)
    (w : BackupWorld)
    (Q : α → BackupWorld → Prop) : Prop :=
  Gives backupMachine snapshotContract () x ()
    (fun a _ w' => Q a w') w

variable {Q : α → BackupWorld → Prop}

theorem Captures.bind
    {x : BackupM α} {f : α → BackupM γ}
    {R : γ → BackupWorld → Prop}
    (hx : Captures x w Q)
    (hf : ∀ a w', Q a w' → Captures (f a) w' R) :
    Captures (x >>= f) w R :=
  Gives.bind hx fun a _ w' h => hf a w' h

theorem tree_noteScan
    (r : TreeReq)
    (answer : TreeResp r)
    (w : BackupWorld) :
    (noteScan r answer w).tree = w.tree := by
  unfold noteScan
  split
  · rfl
  · rfl
  · split <;> rfl
  · rfl

theorem keeps_of_ok
    (h : w'.tree.Ok) : snapshotContract.Keeps () w w' :=
  ⟨h, fun _ hOther => absurd rfl hOther⟩

theorem treeCall_captures
    {r : TreeReq}
    {answer : TreeResp r → BackupExcept α}
    (h :
      ∀ w₁ k b a, Onward w w₁ → w₁.tree.Ok →
        OpensScanned (.tree r) (.tree k) w₁ →
        w₁.tree.serve r k = some b → answer b = .ok a →
          ∀ w', Onward (noteScan r b w₁) w' → Q a w') :
    Captures (Script.call (.tree r) answer) w Q := by
  apply gives_call
  intro w₁ hOnward hOk k b w₂ hAdmits hServe
  cases k with
  | tree k =>
      rcases Option.map_eq_some_iff.mp hServe with
        ⟨_, hTree, hSame⟩
      cases hSame
      refine ⟨keeps_of_ok ?_, ?_⟩
      · rw [tree_noteScan]
        exact hOk
      · intro a hAnswer w' hOnward' _
        exact h w₁ k b a hOnward hOk hAdmits hTree hAnswer w'
          hOnward'
  | _ => cases hServe

/- A request that a scan only waits for. -/
theorem quietCall_captures
    {r : BackupReq}
    {answer : BackupResp r → BackupExcept α}
    (hQuiet :
      ∀ {w k b w'}, serveBackup r k w = some (b, w') → w' = w)
    (h : ∀ a w', Onward w w' → Q a w') :
    Captures (Script.call r answer) w Q := by
  apply gives_call
  intro w₁ hOnward hOk k b w₂ _ hServe
  cases hQuiet hServe
  refine ⟨keeps_of_ok hOk, ?_⟩
  exact fun a _ w' hOnward' _ =>
    h a w' (hOnward.trans hOnward')

theorem ioStep_captures
    {message : String} :
    Captures (ioStep message) w fun _ w' => Onward w w' := by
  apply quietCall_captures
  · intro w k b w' hServe
    cases k <;> cases hServe <;> rfl
  · exact fun _ _ hOnward => hOnward

theorem checkCancelled_captures :
    Captures checkCancelled w fun _ w' => Onward w w' := by
  apply quietCall_captures
  · intro w k b w' hServe
    cases k <;> cases hServe <;> rfl
  · exact fun _ _ hOnward => hOnward

------------------------------------------------------------
-- The Scan
------------------------------------------------------------

/- The folder is one that the scan has listed. -/
def ListedDir (w : BackupWorld) (dir : InodeId) : Prop :=
  dir ∈ w.listed ∧ (w.tree.entriesOf dir).isSome

theorem ListedDir.onward
    (h : ListedDir w dir)
    (hOnward : Onward w w') : ListedDir w' dir := by
  rcases Option.isSome_iff_exists.mp h.2 with
    ⟨entries, hEntries⟩
  refine ⟨hOnward.listed dir h.1, ?_⟩
  rw [hOnward.kept dir entries h.1 hEntries]
  rfl

theorem ListedDir.entry
    (h : ListedDir w dir)
    (hOnward : Onward w w') :
    w'.tree.entry dir name = w.tree.entry dir name :=
  entry_onward hOnward h.1 h.2

theorem readDir_captures {rel : Text} :
    Captures (readDir dir rel) w fun names w' =>
      Onward w w' ∧ ListedDir w' dir ∧
        ∃ entries, w'.tree.entriesOf dir = some entries ∧
          names = entries.map Prod.fst := by
  apply treeCall_captures
  intro w₁ k b names hOnward _ _ hServe hAnswer w' hOnward'
  cases b with
  | error e => cases hAnswer
  | ok names' =>
      cases hAnswer
      cases k with
      | failed => cases hServe
      | count n => cases hServe
      | ok =>
          simp only [NotesTree.serve] at hServe
          split at hServe
          · rename_i entries hEntries
            cases hServe
            have hNoted :
                Onward w₁ { w₁ with
                  listed := dir :: w₁.listed } :=
              { Onward.refl w₁ with
                listed := fun _ h => List.mem_cons_of_mem _ h }
            have hListed :
                ListedDir { w₁ with listed := dir :: w₁.listed }
                  dir :=
              ⟨List.mem_cons_self, by simp [hEntries]⟩
            refine ⟨hOnward.trans (hNoted.trans hOnward'),
              hListed.onward hOnward', entries, ?_, rfl⟩
            exact hOnward'.kept dir entries hListed.1 hEntries
          · cases hServe

/- The metadata that was seen, and what it has become. -/
structure SawEntry
    (w : BackupWorld)
    (dir : InodeId)
    (name : OsName)
    (metadata : Metadata)
    (id : InodeId) : Prop where
  entry : w.tree.entry dir name = some id
  seen : ⟨dir, name, id, metadata⟩ ∈ w.seen
  clock : metadata.mtime ≤ w.tree.clock
  inode :
    ∃ i, w.tree.inode id = some i ∧
      i.kind.type = metadata.type ∧
      (i.metadata = metadata ∨ metadata.mtime < i.mtime)

theorem SawEntry.onward
    (h : SawEntry w dir name metadata id)
    (hDir : ListedDir w dir)
    (hOnward : Onward w w') :
    SawEntry w' dir name metadata id where
  entry := (hDir.entry hOnward).trans h.entry
  seen := hOnward.seen _ h.seen
  clock := h.clock.trans hOnward.later.clock
  inode := by
    rcases h.inode with ⟨i, hInode, hType, hSeen⟩
    rcases seen_onward hOnward.later h.clock hInode hSeen with
      ⟨i', hInode', hType', hSeen'⟩
    exact ⟨i', hInode', hType'.trans hType, hSeen'⟩

theorem symlinkMetadata_captures
    {rel : Text}
    (hDir : ListedDir w dir) :
    Captures (symlinkMetadata dir name rel) w
      fun metadata w' =>
        Onward w w' ∧ ∃ id, SawEntry w' dir name metadata id := by
  apply treeCall_captures
  intro w₁ k b metadata hOnward hOk _ hServe hAnswer w'
    hOnward'
  cases b with
  | error e => cases hAnswer
  | ok metadata' =>
      cases hAnswer
      cases k with
      | failed => cases hServe
      | count n => cases hServe
      | ok =>
          simp only [NotesTree.serve] at hServe
          split at hServe
          · rename_i id hEntry
            rw [Option.some.injEq] at hServe
            unfold NotesTree.metadataOf at hServe
            split at hServe
            · rename_i i hInode
              cases hServe
              have hNote :
                  noteScan (.symlinkMetadata dir name)
                      (.ok i.metadata) w₁ =
                    { w₁ with
                      seen :=
                        ⟨dir, name, id, i.metadata⟩ ::
                          w₁.seen } := by
                simp [noteScan, hEntry]
              rw [hNote] at hOnward'
              have hNoted :
                  Onward w₁
                    { w₁ with
                      seen :=
                        ⟨dir, name, id, i.metadata⟩ ::
                          w₁.seen } :=
                { Onward.refl w₁ with
                  seen := fun _ h =>
                    List.mem_cons_of_mem _ h }
              have hSaw :
                  SawEntry
                    { w₁ with
                      seen :=
                        ⟨dir, name, id, i.metadata⟩ ::
                          w₁.seen }
                    dir name i.metadata id :=
                { entry := hEntry
                  seen := List.mem_cons_self
                  clock := hOk id i hInode
                  inode := ⟨i, hInode, rfl, .inl rfl⟩ }
              have hDir₁ := (hDir.onward hOnward).onward hNoted
              exact ⟨hOnward.trans (hNoted.trans hOnward'), id,
                hSaw.onward hDir₁ hOnward'⟩
            · cases hServe
          · cases hServe

theorem openDirNofollow_captures
    (hDir : ListedDir w dir) :
    Captures (openDirNofollow dir name) w fun child w' =>
      Onward w w' ∧ w'.tree.entry dir name = some child := by
  apply treeCall_captures
  intro w₁ k b child hOnward _ _ hServe hAnswer w' hOnward'
  cases k with
  | count n => cases hServe
  | failed =>
      cases hServe
      cases hAnswer
  | ok =>
      simp only [NotesTree.serve] at hServe
      split at hServe
      · rename_i id hEntry
        split at hServe
        · cases hServe
          cases hAnswer
          have hDir₁ := hDir.onward hOnward
          exact ⟨hOnward.trans hOnward',
            (hDir₁.entry hOnward').trans hEntry⟩
        · cases hServe
          cases hAnswer
      · cases hServe
        cases hAnswer

/- What a scan of a folder adds to the entries before. -/
def ScansFolder
    (scanFolder :
      InodeId → Text → List ScannedEntry →
        BackupM (List ScannedEntry)) : Prop :=
  ∀ dir relDir entries w,
    Captures (scanFolder dir relDir entries) w fun all w' =>
      Onward w w' ∧ ListedDir w' dir ∧ ∃ new,
        all = entries ++ new ∧
          Found w' dir relDir (fun _ => True) new

theorem scanEntry_finds
    {scanFolder :
      InodeId → Text → List ScannedEntry →
        BackupM (List ScannedEntry)}
    {entries : List ScannedEntry}
    (hScan : ScansFolder scanFolder)
    (hDir : ListedDir w dir) :
    Captures
      (scanEntry scanFolder dir (joinName relDir name.text)
        name entries) w
      fun all w' => Onward w w' ∧ ∃ new,
        all = entries ++ new ∧
          Found w' dir relDir (fun name' => name' = name)
            new := by
  unfold scanEntry
  apply (gives_ofExcept (Q := fun _ _ w' => Onward w w')
    fun _ _ _ hOnward _ => hOnward).bind
  rintro _ ⟨⟩ w₁ hOnward
  have hDir₁ := hDir.onward hOnward
  apply (symlinkMetadata_captures hDir₁).bind
  rintro metadata w₂ ⟨hOnward₂, id, hSaw⟩
  have hDir₂ := hDir₁.onward hOnward₂
  split
  · exact gives_throw
  · apply (openDirNofollow_captures hDir₂).bind
    rintro child w₃ ⟨hOnward₃, hChild⟩
    apply (hScan child (joinName relDir name.text) _ w₃).mono
    rintro all _ w₄ ⟨hOnward₄, hListed, new, rfl, hFound⟩
    have hDir₄ := (hDir₂.onward hOnward₃).onward hOnward₄
    have hEntry : w₄.tree.entry dir name = some child := by
      rw [(hDir₂.onward hOnward₃).entry hOnward₄, hChild]
    refine ⟨((hOnward.trans hOnward₂).trans hOnward₃).trans
      hOnward₄, _, List.append_assoc _ _ _, ?_⟩
    exact found_folder hEntry hListed.1 rfl hListed.2 hFound
  · rename_i hType
    split
    · exact gives_throw
    · apply gives_pure
      intro w₃ hOnward₃ _
      have hSaw₃ := hSaw.onward hDir₂ hOnward₃
      rcases hSaw₃.inode with ⟨i, hInode, hKind, hSeen⟩
      refine ⟨(hOnward.trans hOnward₂).trans hOnward₃, _, rfl,
        ?_⟩
      apply found_file hSaw₃.entry _ rfl
      · exact ⟨metadata, i, hSaw₃.seen, hType, rfl, rfl,
          hSaw₃.clock, hInode, hSeen⟩
      · have hNo := NotesTree.entriesOf_of_inode hInode
        rw [hKind, hType] at hNo
        simpa using hNo
  · exact gives_throw

theorem scanEntries_finds
    {scanFolder :
      InodeId → Text → List ScannedEntry →
        BackupM (List ScannedEntry)}
    {names : List OsName} {entries : List ScannedEntry}
    (hScan : ScansFolder scanFolder)
    (hDir : ListedDir w dir) :
    Captures (scanEntries scanFolder dir relDir names entries) w
      fun all w' => Onward w w' ∧ ∃ new,
        all = entries ++ new ∧
          Found w' dir relDir (fun name => name ∈ names)
            new := by
  induction names generalizing w entries with
  | nil =>
      apply gives_pure
      intro w' hOnward _
      refine ⟨hOnward, [], by simp, ?_⟩
      exact Found.nothing fun name hName => nomatch hName
  | cons name rest ih =>
      unfold scanEntries
      apply (scanEntry_finds hScan hDir).bind
      rintro _ w₁ ⟨hOnward₁, new, rfl, hFound₁⟩
      have hDir₁ := hDir.onward hOnward₁
      apply (gives_ofExcept (Q := fun _ _ w' => Onward w₁ w')
        fun _ _ _ hOnward _ => hOnward).bind
      rintro _ ⟨⟩ w₂ hOnward₂
      have hDir₂ := hDir₁.onward hOnward₂
      apply (ih hDir₂).mono
      rintro _ _ w₃ ⟨hOnward₃, new', rfl, hFound₃⟩
      have hFirst :=
        hFound₁.onward (hOnward₂.trans hOnward₃) hDir₁.1
          hDir₁.2
      refine ⟨(hOnward₁.trans hOnward₂).trans hOnward₃,
        new ++ new', by simp, ?_⟩
      apply (hFirst.append hFound₃).congr
      exact fun _ _ => List.mem_cons.symm

theorem mem_names_of_entry
    {tree : NotesTree} {listing : List (OsName × InodeId)}
    (hListing : tree.entriesOf dir = some listing)
    (hEntry : (tree.entry dir name).isSome) :
    name ∈ listing.map Prod.fst := by
  rcases Option.isSome_iff_exists.mp hEntry with ⟨id, hId⟩
  rw [NotesTree.entry, hListing, Option.bind_some,
    List.lookup_eq_some_iff] at hId
  rcases hId with ⟨before, after, rfl, _⟩
  simp

theorem scanNotesTree_finds
    (levels : Nat) :
    ScansFolder (scanNotesTree levels) := by
  induction levels with
  | zero => exact fun _ _ _ _ => gives_throw
  | succ levels ih =>
      intro dir relDir entries w
      unfold scanNotesTree
      apply readDir_captures.bind
      rintro _ w₁ ⟨hOnward₁, hDir, listing, hListing, rfl⟩
      apply (scanEntries_finds ih hDir).mono
      rintro _ _ w₂ ⟨hOnward₂, new, rfl, hFound⟩
      refine ⟨hOnward₁.trans hOnward₂, hDir.onward hOnward₂,
        new, rfl, ?_⟩
      have hListing₂ :=
        hOnward₂.kept dir listing hDir.1 hListing
      apply hFound.congr
      intro name hName
      exact iff_of_true (mem_names_of_entry hListing₂ hName)
        trivial

------------------------------------------------------------
-- The Copy of a File
------------------------------------------------------------

def InodeKind.bytes : InodeKind → List UInt8
  | .file bytes => bytes
  | _ => []

/-
  What was read of a file is what `i` begins with, unless it
  is no longer `i`.
-/
structure Reading
    (tree : NotesTree)
    (file : InodeId)
    (i : Inode)
    (read : List UInt8) : Prop where
  clock : i.mtime ≤ tree.clock
  present : ∃ i', tree.inode file = some i'
  prefixed : tree.inode file = some i → read <+: i.kind.bytes

variable {tree : NotesTree} {file : InodeId} {i : Inode}
variable {read : List UInt8} {item : ScannedEntry}

theorem Reading.onward
    (h : Reading w.tree file i read)
    (hOnward : Onward w w') :
    Reading w'.tree file i read := by
  rcases h.present with ⟨i₁, hInode⟩
  rcases hOnward.later.inode file i₁ hInode with
    ⟨i₂, hInode₂, _, hSame⟩
  refine ⟨h.clock.trans hOnward.later.clock, ⟨i₂, hInode₂⟩, ?_⟩
  intro hAgain
  rw [hInode₂, Option.some.injEq] at hAgain
  subst hAgain
  rcases hSame with rfl | hAfter
  · exact h.prefixed hInode
  · exact absurd hAfter (not_lt.mpr h.clock)

theorem bytesOf_of_inode
    (h : tree.inode file = some i) :
    tree.bytesOf file = i.kind.bytes := by
  unfold NotesTree.bytesOf NotesTree.kindOf
  rw [h]
  cases hKind : i.kind <;> simp [hKind, InodeKind.bytes]

theorem Reading.append
    {n : Nat}
    (h : Reading tree file i read) :
    Reading tree file i
      (read ++
        ((tree.bytesOf file).drop read.length).take n) where
  clock := h.clock
  present := h.present
  prefixed := by
    intro hInode
    rw [bytesOf_of_inode hInode]
    rcases h.prefixed hInode with ⟨rest, hRest⟩
    rw [← hRest, List.drop_left]
    exact (List.prefix_append_right_inj read).mpr
      (List.take_prefix n rest)

/- A request of which a scan notes nothing. -/
theorem treeRequest_captures
    {r : TreeReq}
    {Q : TreeResp r → BackupWorld → Prop}
    (hNote : ∀ b w, noteScan r b w = w)
    (h :
      ∀ w₁ k b, Onward w w₁ → w₁.tree.Ok →
        w₁.tree.serve r k = some b →
          ∀ w', Onward w₁ w' → Q b w') :
    Captures
      (Script.request (BackupReq.tree r) : BackupM (TreeResp r))
      w Q := by
  have hCall : Captures
      (Script.call (.tree r) Except.ok : BackupM (TreeResp r))
      w Q := by
    apply treeCall_captures
    rintro w₁ k b _ hOnward hOk _ hServe ⟨⟩ w' hOnward'
    rw [hNote] at hOnward'
    exact h w₁ k b hOnward hOk hServe w' hOnward'
  exact hCall

theorem countReads_captures :
    Captures (countReads file) w fun _ w' => Onward w w' := by
  apply treeRequest_captures (fun _ _ => rfl)
  exact fun _ _ _ hOnward _ _ _ hOnward' =>
    hOnward.trans hOnward'

theorem readEnd_captures {offset : Nat} :
    Captures (readEnd file offset) w
      fun _ w' => Onward w w' := by
  apply treeRequest_captures (fun _ _ => rfl)
  exact fun _ _ _ hOnward _ _ _ hOnward' =>
    hOnward.trans hOnward'

theorem readAt_captures
    (h : Reading w.tree file i read) :
    Captures (readAt file read.length) w fun chunk w' =>
      Onward w w' ∧ ∀ bytes, chunk = .ok bytes →
        Reading w'.tree file i (read ++ bytes) := by
  apply treeRequest_captures (fun _ _ => rfl)
  intro w₁ k b hOnward _ hServe w' hOnward'
  refine ⟨hOnward.trans hOnward', ?_⟩
  intro bytes hChunk
  change b = Except.ok bytes at hChunk
  subst hChunk
  cases k with
  | ok => cases hServe
  | failed => cases hServe
  | count n =>
      simp only [NotesTree.serve] at hServe
      split at hServe
      · cases hServe
        exact (h.onward hOnward).append.onward hOnward'
      · cases hServe

theorem readFile_captures
    {n : Nat}
    (h : Reading w.tree file i read) :
    Captures (readFile file n read) w fun copied w' =>
      Onward w w' ∧ Reading w'.tree file i copied.1 := by
  induction n generalizing w read with
  | zero =>
      unfold readFile
      apply readEnd_captures.bind
      intro ended w₁ hOnward
      apply gives_pure
      intro w₂ hOnward' _
      have hAll := hOnward.trans hOnward'
      exact ⟨hAll, h.onward hAll⟩
  | succ n ih =>
      unfold readFile
      apply (readAt_captures h).bind
      rintro chunk w₁ ⟨hOnward, hRead⟩
      split
      · apply gives_pure
        intro w₂ hOnward' _
        have hAll := hOnward.trans hOnward'
        exact ⟨hAll, h.onward hAll⟩
      · rename_i bytes
        apply ioStep_captures.bind
        intro _ w₂ hOnward₂
        apply (ih ((hRead bytes rfl).onward hOnward₂)).mono
        rintro copied _ w₃ ⟨hOnward₃, hDone⟩
        exact ⟨(hOnward.trans hOnward₂).trans hOnward₃, hDone⟩

/- The file was at last what the scan has recorded. -/
def CopiedAs
    (tree : NotesTree)
    (file : InodeId)
    (i : Inode)
    (item : ScannedEntry)
    (bytes : List UInt8) : Prop :=
  ∃ tree' i', NotesTree.Later tree tree' ∧
    tree'.inode file = some i' ∧
    some i'.mtime = item.mtime ∧
    i'.kind.size = item.size ∧
    bytes.length = item.size ∧
    (i' = i → bytes <+: i.kind.bytes)

theorem unchanged_iff
    {size : Nat} :
    unchanged item size (.ok metadata) = true ↔
      metadata.size = size ∧ size = item.size ∧
        some metadata.mtime = item.mtime := by
  simp [unchanged]

theorem fileMetadata_captures
    (h : Reading w.tree file i read) :
    Captures (fileMetadata file) w fun answer w' =>
      Onward w w' ∧
        (unchanged item read.length answer = true →
          CopiedAs w.tree file i item read) := by
  apply treeRequest_captures (fun _ _ => rfl)
  intro w₁ k b hOnward _ hServe w' hOnward'
  refine ⟨hOnward.trans hOnward', ?_⟩
  intro hUnchanged
  have hRead := h.onward hOnward
  rcases hRead.present with ⟨i', hInode⟩
  cases k with
  | count n => cases hServe
  | failed =>
      cases hServe
      cases hUnchanged
  | ok =>
      simp only [NotesTree.serve, NotesTree.metadataOf, hInode,
        Option.some.injEq] at hServe
      subst hServe
      rcases unchanged_iff.mp hUnchanged with
        ⟨hSize, hItem, hTime⟩
      refine ⟨w₁.tree, i', hOnward.later, hInode, hTime,
        hSize.trans hItem, hItem, ?_⟩
      rintro rfl
      exact hRead.prefixed hInode

variable {bytes : List UInt8}

theorem CopiedAs.earlier
    {tree₀ : NotesTree}
    (h : CopiedAs tree file i item bytes)
    (hLater : NotesTree.Later tree₀ tree) :
    CopiedAs tree₀ file i item bytes := by
  rcases h with ⟨tree', i', hLater', h⟩
  exact ⟨tree', i', hLater.trans hLater', h⟩

theorem copyFile_captures
    {total : Nat}
    (h : Reading w.tree file i []) :
    Captures (copyFile item file total) w fun copied w' =>
      Onward w w' ∧ ∀ bytes, copied = some bytes →
        CopiedAs w.tree file i item bytes := by
  unfold copyFile
  apply ioStep_captures.bind
  intro _ w₁ hOnward₁
  apply countReads_captures.bind
  intro reads w₂ hOnward₂
  have hStart := (h.onward hOnward₁).onward hOnward₂
  apply (readFile_captures hStart).bind
  rintro copied w₃ ⟨hOnward₃, hRead⟩
  apply ioStep_captures.bind
  intro _ w₄ hOnward₄
  apply (gives_ofExcept (Q := fun _ _ w' => Onward w₄ w')
    fun _ _ _ hOnward _ => hOnward).bind
  rintro _ ⟨⟩ w₅ hOnward₅
  have hBefore : Onward w w₅ :=
    (((hOnward₁.trans hOnward₂).trans hOnward₃).trans
      hOnward₄).trans hOnward₅
  have hRead₅ := (hRead.onward hOnward₄).onward hOnward₅
  apply (fileMetadata_captures hRead₅).bind
  rintro answer w₆ ⟨hOnward₆, hCopied⟩
  split
  · rename_i hSame
    apply gives_pure
    intro w₇ hOnward₇ _
    refine ⟨(hBefore.trans hOnward₆).trans hOnward₇, ?_⟩
    rintro _ ⟨⟩
    rw [Bool.and_eq_true] at hSame
    exact (hCopied hSame.2).earlier hBefore.later
  · apply gives_pure
    intro w₇ hOnward₇ _
    exact ⟨(hBefore.trans hOnward₆).trans hOnward₇,
      fun _ hNone => nomatch hNone⟩

------------------------------------------------------------
-- The Copy of What Was Scanned
------------------------------------------------------------

/- What was opened, and that it is what was scanned. -/
structure Opened
    (w : BackupWorld)
    (dir : InodeId)
    (name : OsName)
    (file : InodeId)
    (i : Inode) : Prop where
  ok : w.tree.Ok
  inode : w.tree.inode file = some i
  scanned :
    ∀ e ∈ w.seen, e.dir = dir → e.name = name →
      file = e.id ∨
        ¬ (i.kind.size = e.metadata.size ∧
          i.mtime = e.metadata.mtime)

theorem Opened.reading
    (h : Opened w dir name file i) :
    Reading w.tree file i [] where
  clock := h.ok file i h.inode
  present := ⟨i, h.inode⟩
  prefixed := fun _ => List.nil_prefix

theorem openScannedFile_captures :
    Captures (Script.attempt (openScannedFile dir name)) w
      fun opened w' => Onward w w' ∧
        ∀ file, opened = .ok file →
          ∃ w₁ i, Onward w w₁ ∧ Opened w₁ dir name file i ∧
            Onward w₁ w' := by
  unfold openScannedFile
  rw [Script.attempt_call]
  apply treeCall_captures
  rintro w₁ k b _ hOnward hOk hScanned hServe ⟨⟩ w' hOnward'
  refine ⟨hOnward.trans hOnward', ?_⟩
  intro file hOpened
  cases k with
  | count n => cases hServe
  | failed =>
      cases hServe
      cases hOpened
  | ok =>
      simp only [NotesTree.serve] at hServe
      split at hServe
      · rename_i id hEntry
        split at hServe
        · rename_i hKind
          cases hServe
          cases hOpened
          simp only [NotesTree.kindOf, Option.map_map,
            Option.map_eq_some_iff] at hKind
          rcases hKind with ⟨i, hInode, _⟩
          refine ⟨w₁, i, hOnward, ⟨hOk, hInode, ?_⟩, hOnward'⟩
          intro e hSeen hDir hName
          rcases hScanned e hSeen hDir hName file hEntry with
            hSame | hOther
          · exact .inl hSame
          · exact .inr (hOther i hInode)
        · cases hServe
          cases hOpened
      · cases hServe
        cases hOpened

/- The staged entry holds what the tree had at the entry. -/
def Copied
    (codec : BackupCodec)
    (tree : NotesTree)
    (seen : List SeenEntry)
    (x : ScannedEntry)
    (staged : StagedEntry) : Prop :=
  ∀ id, SeenAs tree seen x id →
    StagedOf codec (tree.kindOf id) x.relPath staged

theorem copied_folder
    (hSource : x.source = none) :
    Copied codec tree seen x (stagedFolder x) := by
  intro id hSeen
  unfold SeenAs at hSeen
  rw [hSource] at hSeen
  rcases Option.isSome_iff_exists.mp hSeen with
    ⟨entries, hEntries⟩
  rcases NotesTree.inode_of_entriesOf hEntries with
    ⟨i, hInode, hKind⟩
  rw [NotesTree.kindOf, hInode, Option.map_some, hKind]
  rfl

theorem file_of_type
    {kind : InodeKind}
    (h : kind.type = .file) : kind = .file kind.bytes := by
  cases kind with
  | file bytes => rfl
  | folder entries => cases h
  | symlink => cases h
  | special => cases h

/- What was copied without a change is of the scanned tree. -/
theorem copied_file
    (hSource : x.source = some (dir, name))
    (hLater : NotesTree.Later tree w.tree)
    (hIn : ∀ e ∈ seen, e ∈ w.seen)
    (hOpened : Opened w dir name file i)
    (h : CopiedAs w.tree file i x bytes) :
    Copied codec tree seen x (stagedFile codec x bytes) := by
  intro id hSeen
  unfold SeenAs at hSeen
  rw [hSource] at hSeen
  rcases hSeen with
    ⟨metadata, i₀, hMember, hFile, hSize, hTime, hClock,
      hInode₀, hMetadata⟩
  rcases h with
    ⟨tree', i', hLater', hInode', hTime', hSize', hLength,
      hPrefix⟩
  have hTimes : i'.mtime = metadata.mtime := by
    rw [hTime] at hTime'
    exact Option.some.inj hTime'
  have hOpen : i' = i := by
    rcases hLater'.inode file i hOpened.inode with
      ⟨_, hNow, _, hSame⟩
    rw [hInode', Option.some.injEq] at hNow
    subst hNow
    have := hLater.clock
    rcases hSame with hSame | hAfter
    · exact hSame
    · omega
  subst hOpen
  rcases hOpened.scanned _ (hIn _ hMember) rfl rfl with
    hSame | hOther
  · subst hSame
    have hStart : i' = i₀ := by
      rcases (hLater.trans hLater').inode file i₀ hInode₀ with
        ⟨_, hNow, _, hSame⟩
      rw [hInode', Option.some.injEq] at hNow
      subst hNow
      rcases hSame with hSame | hAfter
      · exact hSame
      · omega
    subst hStart
    have hScanned : i'.metadata = metadata := by
      rcases hMetadata with hSame | hBefore
      · exact hSame
      · omega
    have hKind : i'.kind.type = .file := by
      rw [← hScanned] at hFile
      exact hFile
    have hContent := file_of_type hKind
    have hBytes : bytes = i'.kind.bytes := by
      apply (hPrefix rfl).eq_of_length
      rw [hLength, ← hSize', hContent]
      rfl
    rw [NotesTree.kindOf, hInode₀, Option.map_some, hContent,
      hBytes]
    rfl
  · exact absurd ⟨hSize'.trans hSize, hTimes⟩ hOther

/- All entries are staged, and nothing else is. -/
structure StagesAll
    (codec : BackupCodec)
    (tree : NotesTree)
    (seen : List SeenEntry)
    (items : List ScannedEntry)
    (staged : List StagedEntry) : Prop where
  sound :
    ∀ s ∈ staged, ∃ x ∈ items, Copied codec tree seen x s
  complete :
    ∀ x ∈ items, ∃ s ∈ staged, Copied codec tree seen x s

theorem StagesAll.nil :
    StagesAll codec tree seen [] [] where
  sound := fun _ h => nomatch h
  complete := fun _ h => nomatch h

variable {staged : List StagedEntry}

theorem StagesAll.cons
    {items : List ScannedEntry}
    {s : StagedEntry}
    (hFirst : Copied codec tree seen x s)
    (h : StagesAll codec tree seen items staged) :
    StagesAll codec tree seen (x :: items) (s :: staged) where
  sound := by
    intro s' hs
    rcases List.mem_cons.mp hs with rfl | hs
    · exact ⟨x, List.mem_cons_self, hFirst⟩
    · rcases h.sound s' hs with ⟨x', hx, hCopied⟩
      exact ⟨x', List.mem_cons_of_mem x hx, hCopied⟩
  complete := by
    intro x' hx
    rcases List.mem_cons.mp hx with rfl | hx
    · exact ⟨s, List.mem_cons_self, hFirst⟩
    · rcases h.complete x' hx with ⟨s', hs, hCopied⟩
      exact ⟨s', List.mem_cons_of_mem s hs, hCopied⟩

theorem copyEntries_stages
    {items : List ScannedEntry}
    {total : Nat}
    (hLater : NotesTree.Later tree w.tree)
    (hIn : ∀ e ∈ seen, e ∈ w.seen) :
    Captures (copyEntries codec items total staged) w
      fun copied w' => Onward w w' ∧
        ∀ all, copied = some all → ∃ more,
          all = staged ++ more ∧
            StagesAll codec tree seen items more := by
  induction items generalizing w total staged with
  | nil =>
      apply gives_pure
      intro w' hOnward _
      refine ⟨hOnward, ?_⟩
      rintro _ ⟨⟩
      exact ⟨[], by simp, .nil⟩
  | cons x rest ih =>
      unfold copyEntries
      apply checkCancelled_captures.bind
      intro _ w₁ hOnward₁
      apply ioStep_captures.bind
      intro _ w₂ hOnward₂
      have hBefore := hOnward₁.trans hOnward₂
      have step
          {s : StagedEntry} {w₃ : BackupWorld} {total : Nat}
          (hOnward₃ : Onward w₂ w₃)
          (hCopied : Copied codec tree seen x s) :
          Captures (copyEntries codec rest total (staged ++ [s]))
            w₃ fun copied w' => Onward w w' ∧
              ∀ all, copied = some all → ∃ more,
                all = staged ++ more ∧
                  StagesAll codec tree seen (x :: rest) more := by
        have hOnward := hBefore.trans hOnward₃
        apply (ih (hLater.trans hOnward.later)
          fun e h => hOnward.seen e (hIn e h)).mono
        rintro copied _ w₄ ⟨hOnward₄, hStaged⟩
        refine ⟨hOnward.trans hOnward₄, ?_⟩
        intro all hAll
        rcases hStaged all hAll with ⟨more, rfl, hMore⟩
        exact ⟨s :: more, List.append_assoc _ _ _,
          hMore.cons hCopied⟩
      split
      · rename_i hSource
        exact step (.refl w₂) (copied_folder hSource)
      · rename_i dir name hSource
        apply openScannedFile_captures.bind
        rintro opened w₃ ⟨hOnward₃, hOpened⟩
        have hBefore₃ := hBefore.trans hOnward₃
        split
        · apply gives_pure
          intro w₄ hOnward₄ _
          exact ⟨hBefore₃.trans hOnward₄,
            fun _ hNone => nomatch hNone⟩
        · rename_i file
          rcases hOpened file rfl with
            ⟨w', i, hOnward', hOpened', hOnward₃'⟩
          have hStart : Reading w₃.tree file i [] :=
            hOpened'.reading.onward hOnward₃'
          apply (copyFile_captures hStart).bind
          rintro copied w₄ ⟨hOnward₄, hCopied⟩
          split
          · apply gives_pure
            intro w₅ hOnward₅ _
            exact ⟨(hBefore₃.trans hOnward₄).trans hOnward₅,
              fun _ hNone => nomatch hNone⟩
          · rename_i bytes
            apply step (hOnward₃.trans hOnward₄)
            have hLater' :=
              hLater.trans (hBefore.trans hOnward').later
            have hIn' (e : SeenEntry) (he : e ∈ seen) :
                e ∈ w'.seen :=
              (hBefore.trans hOnward').seen e (hIn e he)
            exact copied_file hSource hLater' hIn' hOpened'
              ((hCopied bytes rfl).earlier hOnward₃'.later)

------------------------------------------------------------
-- The Capture
------------------------------------------------------------

/- The root of a capture in the trees of its call. -/
def Capturing (root : InodeId) (w : BackupWorld) : Prop :=
  w.tree.root = root ∧ w.tree ∈ w.past

variable {root : InodeId}

theorem Capturing.onward
    (h : Capturing root w)
    (hOnward : Onward w w') : Capturing root w' :=
  ⟨hOnward.later.root.trans h.1, hOnward.now h.2⟩

theorem dirMetadata_captures
    (h : Capturing root w) :
    Captures (dirMetadata root) w
      fun _ w' => Capturing root w' := by
  have hCall : Captures
      (Script.call (.tree (.dirMetadata root)) Except.ok :
        BackupM (Option Nat)) w
      fun _ w' => Capturing root w' := by
    apply treeCall_captures
    intro w₁ k b a hOnward _ _ _ _ w' hOnward'
    have h₁ := h.onward hOnward
    have hNoted : Capturing root
        { w₁ with seen := [], listed := [] } := h₁
    exact hNoted.onward hOnward'
  exact hCall

theorem makeStaging_captures :
    Captures makeStaging w fun _ w' => ∃ w₁, Onward w w₁ ∧
      w₁.tree.Ok ∧ Onward { w₁ with listed := [] } w' := by
  apply gives_call
  intro w₁ hOnward hOk k b w₂ _ hServe
  have hWorld : w₂ = { w₁ with listed := [] } := by
    cases k <;> cases hServe <;> rfl
  subst hWorld
  refine ⟨keeps_of_ok hOk, ?_⟩
  exact fun _ _ w' hOnward' _ => ⟨w₁, hOnward, hOk, hOnward'⟩

/- What was found and staged is a snapshot. -/
theorem snapshot_of_stagesAll
    {mtime : Option Nat}
    (hRoot : (w.tree.entriesOf w.tree.root).isSome)
    (hFound :
      Found w w.tree.root notesRootName (fun _ => True) new)
    (h :
      StagesAll codec w.tree w.seen
        (⟨notesRootName, 0, mtime, none⟩ :: new) staged) :
    Snapshot codec w.tree staged where
  sound := by
    intro s hs
    rcases h.sound s hs with ⟨x, hx, hCopied⟩
    rcases List.mem_cons.mp hx with rfl | hx
    · exact ⟨[], w.tree.root, rfl, hCopied _ hRoot⟩
    · rcases hFound.sound x hx with
        ⟨name, rest, id, _, hWalk, hPath, hSeen⟩
      refine ⟨name :: rest, id, hWalk, ?_⟩
      rw [← hPath]
      exact hCopied id hSeen
  complete := by
    intro names id hWalk
    cases names with
    | nil =>
        cases hWalk
        rcases h.complete _ List.mem_cons_self with
          ⟨s, hs, hCopied⟩
        exact ⟨s, hs, hCopied _ hRoot⟩
    | cons name rest =>
        rcases hFound.complete name rest id trivial hWalk with
          ⟨x, hx, hPath, hSeen⟩
        rcases h.complete x (List.mem_cons_of_mem _ hx) with
          ⟨s, hs, hCopied⟩
        refine ⟨s, hs, ?_⟩
        rw [← hPath]
        exact hCopied id hSeen

/- The staged entries are those of a tree of the call. -/
def CapturedIn
    (codec : BackupCodec)
    (staged : List StagedEntry)
    (w : BackupWorld) : Prop :=
  ∃ tree ∈ w.past, Snapshot codec tree staged

theorem captureOnce_captures
    (h : Capturing root w) :
    Captures (captureOnce codec root) w fun captured w' =>
      Capturing root w' ∧
        ∀ staged, captured = some staged →
          CapturedIn codec staged w' := by
  unfold captureOnce
  apply checkCancelled_captures.bind
  intro _ w₁ hOnward₁
  apply ioStep_captures.bind
  intro _ w₂ hOnward₂
  have h₂ := (h.onward hOnward₁).onward hOnward₂
  apply (dirMetadata_captures h₂).bind
  intro mtime w₃ h₃
  apply (scanNotesTree_finds maxDepth root notesRootName _
    w₃).bind
  rintro _ w₄ ⟨hOnward₄, hListed, new, rfl, hFound⟩
  apply makeStaging_captures.bind
  rintro _ w₆ ⟨w₅, hOnward₅, hOk, hOnward₆⟩
  have h₅ : Capturing root w₅ :=
    (h₃.onward hOnward₄).onward hOnward₅
  apply (copyEntries_stages hOnward₆.later
    hOnward₆.seen).mono
  rintro captured _ w₇ ⟨hOnward₇, hStaged⟩
  have hAfter := hOnward₆.trans hOnward₇
  have h₅' : Capturing root { w₅ with listed := [] } := h₅
  refine ⟨h₅'.onward hAfter, ?_⟩
  intro staged hCaptured
  rcases hStaged staged hCaptured with ⟨more, hMore, hAll⟩
  rw [List.nil_append] at hMore
  subst hMore
  refine ⟨w₅.tree, hAfter.past _ h₅.2, ?_⟩
  rcases h₅ with ⟨rfl, _⟩
  exact snapshot_of_stagesAll (hListed.onward hOnward₅).2
    (hFound.onward hOnward₅ hListed.1 hListed.2) hAll

theorem captureSnapshot_captures
    {attempts : Nat}
    (h : Capturing root w) :
    Captures (captureSnapshot codec root attempts) w
      (CapturedIn codec) := by
  induction attempts generalizing w with
  | zero => exact gives_throw
  | succ attempts ih =>
      unfold captureSnapshot
      apply (captureOnce_captures h).bind
      rintro captured w₁ ⟨h₁, hCaptured⟩
      split
      · rename_i staged
        apply gives_pure
        intro w₂ hOnward _
        rcases hCaptured staged rfl with ⟨tree, hPast, hTree⟩
        exact ⟨tree, hOnward.past _ hPast, hTree⟩
      · exact ih h₁

theorem snapshotSystem_verified :
    ThreadSystem.Verified (snapshotSystem codec)
      snapshotContract snapshotLimits (fun _ _ _ => True)
      (fun _ _ _ x w => ∀ staged, x.1 = .ok staged →
        CapturedIn codec staged w) where
  stable := fun _ _ _ => trivial
  begin := by
    intro t root v w w' hOk _ _ hBegin
    simp only [snapshotSystem] at hBegin
    split at hBegin
    · rename_i hRoot
      cases hBegin
      refine ⟨keeps_of_ok hOk, ?_⟩
      have hStart : Capturing root (startBackup w) :=
        ⟨hRoot.symm, List.mem_cons_self⟩
      have hMeets :
          Meets backupMachine snapshotContract ()
            (captureSnapshot codec root maxAttempts) ()
            (fun r _ w => ∀ staged, r = .ok staged →
              CapturedIn codec staged w) (startBackup w) :=
        captureSnapshot_captures hStart
      exact hMeets
    · cases hBegin
  finish := fun hOk _ => ⟨keeps_of_ok hOk, trivial⟩
  halt := fun hOk => ⟨keeps_of_ok hOk, trivial⟩
  env := by
    intro c w w' hOk hKeeps hEnv
    have hChange := onward_change hKeeps hEnv
    exact ⟨hChange.2 hOk, fun _ => hChange.1⟩

/-
  While no folder changes that the current scan has listed,
  and what is opened is what was scanned or can be told from
  it, a capture that returns has exactly the folders, files
  and bytes of one moment of the call.
-/
theorem captures_are_snapshots
    (codec : BackupCodec)
    {w : BackupWorld}
    {s : SnapshotState}
    (hOk : w.tree.Ok)
    (run :
      (snapshotSystem codec).Run snapshotLimits.Permitted
        ((snapshotSystem codec).initial w) s)
    {root : InodeId} {v v' : Unit}
    {staged : List StagedEntry}
    (hThread :
      s.threads () = .busy root v (.done (.ok staged, v'))) :
    ∃ tree ∈ s.world.past, Snapshot codec tree staged := by
  have hInv : snapshotContract.Inv w := hOk
  have hState := snapshotSystem_verified.stateOk_of_run hInv
    (fun _ => trivial) run
  exact hState.post hThread staged rfl

------------------------------------------------------------
-- A Moved File
------------------------------------------------------------

def osName (c : Char) : OsName := ⟨[c], true⟩

/- Two folders, the second with a file. -/
def sampleNotes : NotesTree where
  inode
    | 0 => some ⟨.folder [(osName 'a', 1), (osName 'b', 2)], 0⟩
    | 1 => some ⟨.folder [], 0⟩
    | 2 => some ⟨.folder [(osName 'f', 3)], 0⟩
    | 3 => some ⟨.file [7], 0⟩
    | _ => none
  root := 0
  clock := 0

theorem sampleNotes_ok : sampleNotes.Ok := by
  intro id i h
  unfold sampleNotes at h
  dsimp only at h
  split at h <;> cases h <;> exact le_rfl

def sampleNotesWorld : BackupWorld where
  tree := sampleNotes
  past := []
  seen := []
  listed := []
  folder := ⟨Files.empty, Files.empty⟩

abbrev SnapshotAction :=
  Action Unit BackupChoice InodeId TreeChange

def SnapshotState.initial : SnapshotState :=
  (snapshotSystem sampleCodec).initial sampleNotesWorld

def served (choices : List BackupChoice) :
    List SnapshotAction :=
  choices.map fun k => .serve () k

/- The scan has listed the root and the first folder. -/
def firstListed : List SnapshotAction :=
  .call () 0 ::
    served [.ok, .ok, .tree .ok, .tree .ok, .tree .ok, .tree .ok,
      .tree .ok]

/- The file is moved from the second folder to the first. -/
def fileMoved : SnapshotAction :=
  .env (.rename 2 (osName 'f') 1 (osName 'f'))

/- The second folder is listed and the folders are copied. -/
def restCopied : List SnapshotAction :=
  served [.tree .ok, .tree .ok, .tree .ok, .ok, .ok, .ok, .ok,
    .ok, .ok, .ok]

/- Every tree of the call has the file, the copy has none. -/
def fileMissing (s : SnapshotState) : Bool :=
  match s.threads () with
  | .busy _ _ (.done (.ok staged, _)) =>
      staged.all (fun e => e.entry.kind = "directory") &&
        s.world.past.all fun tree =>
          tree.kindOf 3 = some (.file [7]) &&
            (tree.walk tree.root [osName 'a', osName 'f'] =
                some 3 ||
              tree.walk tree.root [osName 'b', osName 'f'] =
                some 3)
  | _ => false

theorem not_snapshot_of_file
    {names : List OsName}
    (hFolders :
      ∀ e ∈ staged, e.entry.kind = "directory")
    (hFile : tree.kindOf file = some (.file bytes))
    (hWalk : tree.walk tree.root names = some file) :
    ¬ Snapshot codec tree staged := by
  intro h
  rcases h.complete names file hWalk with ⟨s, hs, hStaged⟩
  rw [hFile] at hStaged
  have hKind := hFolders s hs
  rw [hStaged] at hKind
  simp at hKind

variable {s : SnapshotState}

theorem lost_of_fileMissing
    (h : fileMissing s = true) :
    ∃ root v staged v',
      s.threads () = .busy root v (.done (.ok staged, v')) ∧
        ∀ tree ∈ s.world.past,
          ¬ Snapshot sampleCodec tree staged := by
  unfold fileMissing at h
  split at h
  · rename_i root v staged v' hThread
    simp only [Bool.and_eq_true, List.all_eq_true,
      decide_eq_true_eq, Bool.or_eq_true] at h
    refine ⟨root, v, staged, v', hThread, ?_⟩
    intro tree hTree
    rcases h.2 tree hTree with ⟨hFile, hWalk | hWalk⟩
    · exact not_snapshot_of_file h.1 hFile hWalk
    · exact not_snapshot_of_file h.1 hFile hWalk
  · cases h

/-
  A file is moved into a folder that the scan has already
  listed: it is there all the time, the capture returns
  without an error, and the copy does not have it.
-/
theorem moved_file_lost :
    SnapshotState.initial.world.tree.Ok ∧
      ∃ s : SnapshotState,
        (snapshotSystem sampleCodec).Run (fun _ _ => True)
            SnapshotState.initial s ∧
          ∃ root v staged v',
            s.threads () =
                .busy root v (.done (.ok staged, v')) ∧
              ∀ tree ∈ s.world.past,
                ¬ Snapshot sampleCodec tree staged := by
  have trace :
      ((snapshotSystem sampleCodec).exec SnapshotState.initial
        (firstListed ++ fileMoved :: restCopied)).any
        fileMissing = true := by
    decide +kernel
  rcases ThreadSystem.Run.exists_of_execIf
      (fun _ _ _ => trivial) _ trace with
    ⟨s, run, hTest⟩
  exact ⟨sampleNotes_ok, s, run, lost_of_fileMissing hTest⟩

instance (r : BackupReq) (k : BackupChoice) (w : BackupWorld) :
    Decidable (OpensScanned r k w) := by
  unfold OpensScanned
  split <;> infer_instance

instance (c : TreeChange) (w : BackupWorld) :
    Decidable (KeepsListed c w) := by
  unfold KeepsListed
  infer_instance

def keepsScanned (s : SnapshotState) : SnapshotAction → Bool
  | .serve _ k =>
      match s.threads () with
      | .busy _ _ (.ask r _) => OpensScanned r k s.world
      | _ => true
  | .env c => KeepsListed c s.world
  | _ => true

theorem permitted_of_keepsScanned
    {a : SnapshotAction}
    (h : keepsScanned s a = true) :
    snapshotLimits.Permitted s a := by
  cases a with
  | serve t k =>
      intro root v r cont hThread
      simp only [keepsScanned, hThread, decide_eq_true_eq] at h
      exact h
  | env c =>
      simp only [keepsScanned, decide_eq_true_eq] at h
      exact h
  | call t root => exact fun _ _ => trivial
  | finish t => trivial
  | halt t => trivial

def notesScanned : List SnapshotAction :=
  served [.ok, .ok, .tree .ok, .tree .ok, .tree .ok, .tree .ok,
    .tree .ok, .tree .ok, .tree .ok, .tree .ok, .tree .ok]

/- Three folders and the file, with a single read. -/
def notesCopied : List SnapshotAction :=
  served [.ok, .ok, .ok, .ok, .ok, .ok, .ok, .ok, .ok, .tree .ok,
    .ok, .tree (.count 1), .tree (.count 2), .ok, .tree .ok, .ok,
    .tree .ok]

/- Another process writes the file after it was scanned. -/
def fileWritten : SnapshotAction :=
  .env (.write 3 [8, 9])

def capturedBytes
    (bytes : List UInt8)
    (s : SnapshotState) : Bool :=
  match s.threads () with
  | .busy _ _ (.done (.ok staged, _)) =>
      (staged.map StagedEntry.bytes).contains bytes
  | _ => false

theorem thread_of_capturedBytes
    (h : capturedBytes bytes s = true) :
    ∃ root v staged v',
      s.threads () = .busy root v (.done (.ok staged, v')) ∧
        bytes ∈ staged.map StagedEntry.bytes := by
  unfold capturedBytes at h
  split at h
  · rename_i root v staged v' hThread
    exact ⟨root, v, staged, v', hThread,
      List.contains_iff_mem.mp h⟩
  · cases h

/- The capture starts over and has the bytes as written. -/
theorem written_file_captured :
    ∃ (s : SnapshotState) (staged : List StagedEntry),
      [8, 9] ∈ staged.map StagedEntry.bytes ∧
        ∃ tree ∈ s.world.past,
          Snapshot sampleCodec tree staged := by
  have trace :
      ((snapshotSystem sampleCodec).execIf keepsScanned
        SnapshotState.initial
        (.call () 0 :: notesScanned ++ fileWritten ::
          notesCopied ++ notesScanned ++ notesCopied)).any
        (capturedBytes [8, 9]) = true := by
    decide +kernel
  rcases ThreadSystem.Run.exists_of_execIf
      (fun _ _ => permitted_of_keepsScanned) _ trace with
    ⟨s, run, hTest⟩
  rcases thread_of_capturedBytes hTest with
    ⟨root, v, staged, v', hThread, hBytes⟩
  exact ⟨s, staged, hBytes,
    captures_are_snapshots sampleCodec sampleNotes_ok run
      hThread⟩

end S4Drive

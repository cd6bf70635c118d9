import S4Drive.Library.LoneRun
import S4Drive.Conflicts.Resolve
import S4Drive.Recovery.WrittenOutput

/-
  What the requests of the resolution of a conflict leave as
  it was. Every request changes the files at few paths only,
  and most of them write nothing to the server.

  Main declarations:
    * `KeepsBut`, `Framed`, `Local`
    * `serve_local`, `serve_framed`, `serve_reads`
    * `Does`, `Along.fresh`
-/

------------------------------------------------------------
-- Files That Are Kept
------------------------------------------------------------

namespace S4Drive

open Concurrency FileTree

namespace Conflicts

open Recovery (Path Bytes Disk isDir fileAt createDirAll
  fileAt_eq_some createDirAll_kept)

variable {d d' d'' : Disk} {p q source target : Path}
variable {own own' : List Path} {body : Bytes}

/- All files but those at the paths in `own` are kept. -/
def KeepsBut (own : List Path) (d d' : Disk) : Prop :=
  ∀ q body, q ∉ own → fileAt d q = some body →
    fileAt d' q = some body

theorem KeepsBut.refl (own : List Path) (d : Disk) :
    KeepsBut own d d :=
  fun _ _ _ h => h

theorem KeepsBut.trans
    (h : KeepsBut own d d')
    (h' : KeepsBut own d' d'') : KeepsBut own d d'' :=
  fun q body hOut hFile => h' q body hOut (h q body hOut hFile)

theorem KeepsBut.widen
    (h : KeepsBut own d d')
    (hOwn : ∀ q ∈ own, q ∈ own' ∨ fileAt d q = none) :
    KeepsBut own' d d' := by
  intro q body hOut hFile
  apply h q body _ hFile
  intro hIn
  rcases hOwn q hIn with hIn' | hNone
  · exact hOut hIn'
  · rw [hNone] at hFile
    cases hFile

theorem fileAt_set
    (d : Disk) (p q : Path) (body : Bytes) :
    fileAt (d.set p (.file body)) q =
      if q = p then some body else fileAt d q := by
  by_cases hSame : q = p
  · simp [fileAt, hSame]
  · simp [fileAt, hSame]

theorem fileAt_erase
    (d : Disk) (p q : Path) :
    fileAt (d.erase p) q =
      if q = p then none else fileAt d q := by
  by_cases hSame : q = p
  · simp [fileAt, hSame]
  · simp [fileAt, hSame]

theorem fileAt_none
    (h : d.nodeAt p = none) : fileAt d p = none := by
  simp [fileAt, h]

theorem pathExists_of_fileAt
    (h : fileAt d p = some body) : pathExists d p = true := by
  simp [pathExists, fileAt_eq_some.mp h]

theorem nodeAt_of_not_exists
    (h : pathExists d p = false) : d.nodeAt p = none := by
  simp only [pathExists, Bool.or_eq_false_iff] at h
  simpa using h.2

theorem keepsBut_createDirAll
    (h : createDirAll d p = some d') : KeepsBut [] d d' :=
  fun _ _ _ hFile =>
    fileAt_eq_some.mpr
      (createDirAll_kept h (fileAt_eq_some.mp hFile))

/- No folder is made where a file is. -/
theorem no_file_of_createDirAll
    (hRooted : d.Rooted)
    (h : createDirAll d p = some d') : fileAt d p = none := by
  cases hFile : fileAt d p with
  | none => rfl
  | some body =>
      have hNode := fileAt_eq_some.mp hFile
      have hPath : p ≠ [] := (hRooted p (by simp [hNode])).1
      have hIn : p ∈ p.inits.tail :=
        Files.mem_tail_inits.mpr ⟨hPath, List.prefix_refl p⟩
      unfold createDirAll at h
      split at h
      · rename_i hWay
        unfold Recovery.folderWay at hWay
        have hFolder := List.all_eq_true.mp hWay p hIn
        simp [hNode] at hFolder
      · cases h

theorem folders_above
    (hRooted : d.Rooted)
    (hDir : isDir d p = true)
    (hIn : q ∈ p.inits.tail) : d.nodeAt q = some .folder := by
  rcases Files.mem_tail_inits.mp hIn with ⟨hPath, hAbove⟩
  have hFolder : d.nodeAt p = some .folder := by
    simp only [isDir, Bool.or_eq_true, decide_eq_true_eq] at hDir
    rcases hDir with rfl | hFolder
    · exact absurd (List.prefix_nil.mp hAbove) hPath
    · exact hFolder
  by_cases hSame : p = q
  · rw [← hSame, hFolder]
  · exact hRooted.folder_above hPath hAbove hSame
      (by simp [hFolder])

theorem isDir_above
    (hRooted : d.Rooted)
    (hIn : q <+: p)
    (hOther : p ≠ q)
    (hFile : fileAt d p = some body) : isDir d q = true := by
  by_cases hTop : q = []
  · simp [isDir, hTop]
  · have hNode : d.nodeAt p ≠ none := by
      simp [fileAt_eq_some.mp hFile]
    simp [isDir, hRooted.folder_above hTop hIn hOther hNode]

theorem createDirs_same
    {ps : List Path}
    (h : ∀ q ∈ ps, d.nodeAt q = some .folder) :
    ps.foldl Recovery.createDir d = d := by
  induction ps with
  | nil => rfl
  | cons p ps ih =>
      have hHere : Recovery.createDir d p = d := by
        unfold Recovery.createDir
        rw [h p List.mem_cons_self, if_neg (by simp)]
      rw [List.foldl_cons, hHere]
      exact ih fun q hIn => h q (List.mem_cons_of_mem p hIn)

/- A folder that is there is not made. -/
theorem createDirAll_of_isDir
    (hRooted : d.Rooted)
    (hDir : isDir d p = true) : createDirAll d p = some d := by
  have hFolders {q : Path} (hIn : q ∈ p.inits.tail) :
      d.nodeAt q = some .folder :=
    folders_above hRooted hDir hIn
  unfold createDirAll Recovery.folderWay
  rw [if_pos, createDirs_same fun q => hFolders]
  rw [List.all_eq_true]
  intro q hIn
  simp [hFolders hIn]

theorem writeFile_eq_some
    (h : writeFile d p body = some d') :
    d' = d.set p (.file body) := by
  unfold writeFile at h
  split at h
  · exact (Option.some.inj h).symm
  · cases h

theorem keepsBut_writeFile
    (h : writeFile d p body = some d') : KeepsBut [p] d d' := by
  intro q body' hOut hFile
  have hOther : q ≠ p := fun hSame => hOut (by simp [hSame])
  rw [writeFile_eq_some h, fileAt_set, if_neg hOther, hFile]

theorem keepsBut_erase (d : Disk) (p : Path) :
    KeepsBut [p] d (d.erase p) := by
  intro q body hOut hFile
  have hOther : q ≠ p := fun hSame => hOut (by simp [hSame])
  rw [fileAt_erase, if_neg hOther, hFile]

theorem keepsBut_renameFile
    (h : renameFile d source target = some d') :
    KeepsBut [source, target] d d' := by
  unfold renameFile at h
  split at h
  · cases h
  · have hErased := keepsBut_erase d source
    have hWritten := keepsBut_writeFile h
    exact (hErased.widen (by simp)).trans
      (hWritten.widen (by simp))

theorem keepsBut_removeFile
    (h : removeFile d p = some d') : KeepsBut [p] d d' := by
  rcases Option.map_eq_some_iff.mp h with ⟨_, _, hErased⟩
  rw [← hErased]
  exact keepsBut_erase d p

theorem keepsBut_copyFileTo
    (h : copyFileTo d source target = some d') :
    KeepsBut [target] d d' := by
  unfold copyFileTo at h
  split at h
  · cases h
  · exact keepsBut_writeFile h

------------------------------------------------------------
-- Steps
------------------------------------------------------------

variable {blake3 : Bytes → Bytes} {w w' w'' : Desktop}

/- What a part of the command leaves as it was. -/
structure Framed
    (own : List Path)
    (w w' : Desktop) : Prop where
  disk : KeepsBut own w.disk w'.disk
  copies : w.copies ⊆ w'.copies
  committed : w.committed ⊆ w'.committed
  blobs :
    ∀ key body, w.blobs key = some body →
      w'.blobs key = some body

/- Such a part that leaves the server as it was. -/
structure Local
    (own : List Path)
    (w w' : Desktop) : Prop extends Framed own w w' where
  tree : w'.tree = w.tree
  stored : w'.blobs = w.blobs

theorem Framed.refl (own : List Path) (w : Desktop) :
    Framed own w w :=
  ⟨.refl own w.disk, List.Subset.refl _, List.Subset.refl _,
    fun _ _ h => h⟩

theorem Framed.trans
    (h : Framed own w w')
    (h' : Framed own w' w'') : Framed own w w'' :=
  ⟨h.disk.trans h'.disk, List.Subset.trans h.copies h'.copies,
    List.Subset.trans h.committed h'.committed,
    fun key body hBlob =>
      h'.blobs key body (h.blobs key body hBlob)⟩

theorem Framed.widen
    (h : Framed own w w')
    (hOwn : ∀ q ∈ own, q ∈ own' ∨ fileAt w.disk q = none) :
    Framed own' w w' :=
  { h with disk := h.disk.widen hOwn }

theorem Local.refl (own : List Path) (w : Desktop) :
    Local own w w :=
  ⟨.refl own w, rfl, rfl⟩

theorem Local.trans
    (h : Local own w w')
    (h' : Local own w' w'') : Local own w w'' :=
  ⟨h.toFramed.trans h'.toFramed, h'.tree.trans h.tree,
    h'.stored.trans h.stored⟩

theorem Local.widen
    (h : Local own w w')
    (hOwn : ∀ q ∈ own, q ∈ own' ∨ fileAt w.disk q = none) :
    Local own' w w' :=
  ⟨h.toFramed.widen hOwn, h.tree, h.stored⟩

/- The paths at which a request changes files. -/
def touched : DeskReq → List Path
  | .copy _ target => [target]
  | .copyConflict _ target => [target]
  | .writeEmpty p => [p]
  | .rename source target => [source, target]
  | .removeFile p => [p]
  | .download _ target => [target]
  | _ => []

/- Whether a request may write to the server. -/
def writesServer : DeskReq → Bool
  | .storeFile _ => true
  | .commit _ _ _ _ _ => true
  | .upsertEntry _ => true
  | _ => false

theorem local_disk
    {disk : Option Disk} {made : Bool}
    (h : some (w.onDisk disk) = some (made, w'))
    (hDisk : ∀ d, disk = some d → KeepsBut own w.disk d) :
    Local own w w' := by
  cases disk with
  | none =>
      cases h
      exact .refl own w
  | some d =>
      cases h
      exact ⟨⟨hDisk d rfl, List.Subset.refl _,
        List.Subset.refl _, fun _ _ hBlob => hBlob⟩, rfl, rfl⟩

/- A copy is noted where it was made. -/
theorem local_copied
    {d : Disk}
    (h : KeepsBut [target] w.disk d) :
    Local [target] w
      { w with disk := d, copies := target :: w.copies } :=
  ⟨⟨h, List.subset_cons_self _ _, List.Subset.refl _,
    fun _ _ hBlob => hBlob⟩, rfl, rfl⟩

theorem local_index
    {index : FileId → Option IndexRow} :
    Local own w { w with index := index } :=
  ⟨⟨.refl _ _, List.Subset.refl _, List.Subset.refl _,
    fun _ _ hBlob => hBlob⟩, rfl, rfl⟩

variable {r : DeskReq}

/- Every request but three leaves the server as it was. -/
theorem serve_local
    {k : DeskChoice} {b : DeskResp r}
    (hWrites : writesServer r = false)
    (h : serveDesk blake3 r k w = some (b, w')) :
    Local (touched r) w w' := by
  have wrote {p : Path} {body : Bytes} :
      Local [p] w (w.onDisk (writeFile w.disk p body)).2 :=
    local_disk rfl fun _ => keepsBut_writeFile
  cases r with
  | prepareSyncFolder folder =>
      cases k with
      | ok => exact local_disk h fun _ => keepsBut_createDirAll
      | _ => cases h <;> exact .refl _ w
  | createDirAll p =>
      cases k with
      | ok => exact local_disk h fun _ => keepsBut_createDirAll
      | _ => cases h <;> exact .refl _ w
  | copy source target =>
      cases k with
      | ok => exact local_disk h fun _ => keepsBut_copyFileTo
      | partly bytes =>
          cases h
          exact wrote
      | _ => cases h <;> exact .refl _ w
  | copyConflict source target =>
      cases k with
      | ok =>
          simp only [serveDesk] at h
          split at h
          · rename_i d hCopied
            cases h
            exact local_copied (keepsBut_copyFileTo hCopied)
          · cases h
            exact .refl _ w
      | partly bytes =>
          cases h
          exact wrote
      | _ => cases h <;> exact .refl _ w
  | writeEmpty p =>
      cases k with
      | ok => exact local_disk h fun _ => keepsBut_writeFile
      | _ => cases h <;> exact .refl _ w
  | rename source target =>
      cases k with
      | ok => exact local_disk h fun _ => keepsBut_renameFile
      | _ => cases h <;> exact .refl _ w
  | removeFile p =>
      cases k with
      | ok => exact local_disk h fun _ => keepsBut_removeFile
      | _ => cases h <;> exact .refl _ w
  | newName parent before after =>
      cases k with
      | uuid text =>
          simp only [serveDesk] at h
          split at h <;> cases h
          exact .refl _ w
      | _ => cases h
  | getEntry fileId =>
      cases k with
      | ok =>
          simp only [serveDesk] at h
          split at h <;> cases h <;> exact .refl _ w
      | _ => cases h <;> exact .refl _ w
  | download key target =>
      cases k with
      | ok =>
          simp only [serveDesk] at h
          split at h
          · split at h
            · rename_i d hWritten
              cases h
              have hMade :
                  some (w.onDisk (some d)) =
                    some (true, { w with disk := d }) := rfl
              apply local_disk hMade
              rintro _ ⟨⟩
              exact keepsBut_writeFile hWritten
            · cases h
              exact .refl _ w
          · cases h
            exact .refl _ w
      | partly bytes =>
          simp only [serveDesk] at h
          split at h <;> cases h
          exact wrote
      | _ => cases h <;> exact .refl _ w
  | storeFile p => cases hWrites
  | commit id op revision content placement => cases hWrites
  | upsertEntry entry => cases hWrites
  | registerFile id row =>
      cases k with
      | ok =>
          cases h
          exact local_index
      | _ => cases h <;> exact .refl _ w
  | markFileDeleted id =>
      cases k with
      | ok =>
          cases h
          exact local_index
      | _ => cases h <;> exact .refl _ w
  | resolve id =>
      cases k with
      | ok =>
          cases h
          exact ⟨⟨.refl _ _, fun _ h => h, fun _ h => h,
            fun _ _ h => h⟩, rfl, rfl⟩
      | _ => cases h <;> exact .refl _ w
  | _ => cases k <;> cases h <;> exact .refl _ _

theorem serve_framed
    {k : DeskChoice} {b : DeskResp r}
    (h : serveDesk blake3 r k w = some (b, w')) :
    Framed (touched r) w w' := by
  have hDisk : KeepsBut [] w.disk w.disk := .refl _ _
  cases hWrites : writesServer r with
  | false => exact (serve_local hWrites h).toFramed
  | true =>
      cases r with
      | storeFile p =>
          cases k with
          | ok =>
              simp only [serveDesk] at h
              split at h <;> cases h
              · refine ⟨hDisk, fun _ h => h, fun _ h => h, ?_⟩
                intro key body hBlob
                simp only [hBlob, Option.some_or, ite_self]
              · exact .refl _ w
          | _ => cases h <;> exact .refl _ w
      | commit id op revision content placement =>
          cases k with
          | failed =>
              cases h
              exact .refl _ w
          | _ =>
              cases h <;>
              exact ⟨hDisk, fun _ h => h,
                List.subset_cons_self _ _, fun _ _ h => h⟩
      | upsertEntry entry =>
          cases k with
          | ok =>
              cases h
              exact ⟨hDisk, fun _ h => h, fun _ h => h,
                fun _ _ h => h⟩
          | _ => cases h <;> exact .refl _ w
      | _ => cases hWrites

/- The requests that change nothing. -/
def reads : DeskReq → Bool
  | .isDir _ => true
  | .exists _ => true
  | .tryExists _ => true
  | .metadata _ => true
  | .newName _ _ _ => true
  | .now => true
  | .openConflicts => true
  | .indexRow _ => true
  | .getEntry _ => true
  | .placementFor _ => true
  | .newRevision => true
  | .indexWrite => true
  | .hashFile _ => true
  | _ => false

theorem serve_reads
    {k : DeskChoice} {b : DeskResp r}
    (hReads : reads r = true)
    (h : serveDesk blake3 r k w = some (b, w')) : w' = w := by
  cases r with
  | newName parent before after =>
      cases k with
      | uuid text =>
          simp only [serveDesk] at h
          split at h <;> cases h
          rfl
      | _ => cases h
  | getEntry fileId =>
      cases k with
      | ok =>
          simp only [serveDesk] at h
          split at h <;> cases h <;> rfl
      | _ => cases h <;> rfl
  | _ =>
      first
        | exact absurd hReads Bool.false_ne_true
        | (cases k <;> cases h <;> rfl)

instance : IsPreorder Desktop (Framed own) where
  refl := .refl own
  trans := fun _ _ _ => .trans

instance : IsPreorder Desktop (Local own) where
  refl := .refl own
  trans := fun _ _ _ => .trans

variable {α : Type} {R : Desktop → Desktop → Prop}

/- The local value of the command is of no interest. -/
abbrev Does
    (blake3 : Bytes → Bytes)
    (R : Desktop → Desktop → Prop)
    (x : DeskM α)
    (w : Desktop)
    (Q : Except DeskError α → Desktop → Prop) : Prop :=
  Along (deskMachine blake3) R x () (fun r _ w' => Q r w') w

variable {answer : DeskResp r → Except DeskError α}

theorem call_local
    (hWrites : writesServer r = false)
    (hOwn : ∀ q ∈ touched r, q ∈ own) :
    Moves (deskMachine blake3) (Local own)
      (Script.call r answer : DeskM α) :=
  .call fun h =>
    (serve_local hWrites h).widen fun q hIn => .inl (hOwn q hIn)

theorem request_local
    (hWrites : writesServer r = false)
    (hOwn : ∀ q ∈ touched r, q ∈ own) :
    Moves (deskMachine blake3) (Local own)
      (Script.request r : DeskM (DeskResp r)) :=
  call_local hWrites hOwn

theorem step_local
    {made : DeskResp r → Bool} {text : String}
    (hWrites : writesServer r = false)
    (hOwn : ∀ q ∈ touched r, q ∈ own) :
    Moves (deskMachine blake3) (Local own) (step r made text) :=
  call_local hWrites hOwn

theorem ask_local
    {result : DeskResp r → Option α}
    {text : String}
    (hWrites : writesServer r = false)
    (hOwn : ∀ q ∈ touched r, q ∈ own) :
    Moves (deskMachine blake3) (Local own) (ask r result text) :=
  call_local hWrites hOwn

theorem call_framed
    (hOwn : ∀ q ∈ touched r, q ∈ own) :
    Moves (deskMachine blake3) (Framed own)
      (Script.call r answer : DeskM α) :=
  .call fun h =>
    (serve_framed h).widen fun q hIn => .inl (hOwn q hIn)

/- A request that changes nothing, with its answer. -/
theorem does_read
    [Std.Refl R]
    {r : DeskReq} {answer : DeskResp r → Except DeskError α}
    {P : Except DeskError α → Prop}
    (hReads : reads r = true)
    (h :
      ∀ k b, serveDesk blake3 r k w = some (b, w) →
        P (answer b)) :
    Does blake3 R (Script.call r answer) w
      fun result w' => w' = w ∧ P result := by
  apply along_call
  intro k b w' hServe
  have hSame := serve_reads hReads hServe
  subst hSame
  exact ⟨refl_of R w', rfl, h k b hServe⟩

/- A step that fails says so in its own text. -/
theorem step_does
    {made : DeskResp r → Bool} {text : String}
    (hWrites : writesServer r = false)
    (hOwn : ∀ q ∈ touched r, q ∈ own) :
    Does blake3 (Local own) (step r made text) w fun res _ =>
      ∀ e, res = .error e → e = .message text := by
  apply along_call
  intro k b w' hServe
  refine ⟨(serve_local hWrites hServe).widen
    fun q hIn => .inl (hOwn q hIn), ?_⟩
  intro e hError
  split at hError <;> cases hError
  rfl

/- What happens at a free path has taken away no file. -/
theorem Along.fresh
    {x : DeskM α}
    {Q : Except DeskError α → Unit → Desktop → Prop}
    (hx :
      Along (deskMachine blake3) (Local (q :: own)) x () Q w)
    (hFree : w.disk.nodeAt q = none) :
    Along (deskMachine blake3) (Local own) x () Q w := by
  apply Along.widen hx (.refl _ w)
  intro w' h
  apply h.widen
  intro q' hIn
  rcases List.mem_cons.mp hIn with rfl | hIn
  · exact .inr (fileAt_none hFree)
  · exact .inl hIn

/- A request of which only the steps are of interest. -/
theorem does_any
    {x : DeskM α}
    (hx : Moves (deskMachine blake3) R x) :
    Does blake3 R x w fun _ _ => True :=
  hx () w

end Conflicts

end S4Drive

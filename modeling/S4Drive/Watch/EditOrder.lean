import S4Drive.Watch.RoundTrips
import Mathlib.Data.List.Perm.Basic

/-
  Edits are put behind the renames of their files. Followed
  event by event, an edit is at the path that its file has in
  the end.

  Main declarations:
    * `follow`, `followed`, `editsFollowRenames_perm`
    * `Numbered`, `Gone`, `tracks_step`, `tracks_run`
    * `editsFollowRenames_faithful`
-/

------------------------------------------------------------
-- Following
------------------------------------------------------------

open FileTree
open scoped List

namespace S4Drive

namespace Watch

/- An event after one later event: a rename takes it along. -/
def followOne (event later : FsEvent) : FsEvent :=
  match later with
  | .renamed source target =>
      (movedEdit event source target).getD event
  | _ => event

def follow (event : FsEvent) (later : List FsEvent) : FsEvent :=
  later.foldl followOne event

/- Each event as all the later ones leave it. -/
def followed : List FsEvent → List FsEvent
  | [] => []
  | event :: rest => follow event rest :: followed rest

variable {event later : FsEvent} {source target : Path}
variable {events rest ordered : List FsEvent}

theorem movedEdit_of_not_edit
    (h : event.isEdit = false) :
    movedEdit event source target = none := by
  cases event with
  | created path => contradiction
  | modified path => contradiction
  | deleted path => rfl
  | renamed from_ to_ => rfl

theorem isEdit_of_movedEdit
    {moved : FsEvent}
    (h : movedEdit event source target = some moved) :
    event.isEdit = true ∧ moved.isEdit = true := by
  cases event with
  | created path =>
      simp only [movedEdit] at h
      split at h
      · cases h
        exact ⟨rfl, rfl⟩
      · contradiction
  | modified path =>
      simp only [movedEdit] at h
      split at h
      · cases h
        exact ⟨rfl, rfl⟩
      · contradiction
  | deleted path => contradiction
  | renamed from_ to_ => contradiction

/- What is moved and what is not, in any order. -/
theorem partition_perm
    (ordered : List FsEvent)
    (move : FsEvent → Option FsEvent) :
    (ordered.filter (fun e => (move e).isNone) ++
        ordered.filterMap move).Perm
      (ordered.map fun e => (move e).getD e) := by
  induction ordered with
  | nil => exact List.Perm.nil
  | cons event rest ih =>
      cases hMove : move event with
      | none =>
          simp only [List.filter_cons, List.filterMap_cons,
            List.map_cons, hMove, Option.isNone_none, if_true,
            Option.getD_none, List.cons_append]
          exact ih.cons event
      | some moved =>
          simp only [List.filter_cons, List.filterMap_cons,
            List.map_cons, hMove, Option.isNone_some,
            Bool.false_eq_true, if_false, Option.getD_some]
          exact List.perm_middle.trans (ih.cons moved)

theorem followStep_perm
    (ordered : List FsEvent)
    (event : FsEvent) :
    (followStep ordered event).Perm
      (ordered.map (followOne · event) ++ [event]) := by
  cases event with
  | renamed source target =>
      have hParts := partition_perm ordered
        (movedEdit · source target)
      simp only [followStep, followOne]
      rw [List.append_assoc]
      refine (List.Perm.append_left _ List.perm_append_comm).trans
        ?_
      rw [← List.append_assoc]
      exact hParts.append_right _
  | created path => simp [followStep, followOne]
  | modified path => simp [followStep, followOne]
  | deleted path => simp [followStep, followOne]

theorem foldl_followStep_perm
    (events ordered : List FsEvent) :
    (events.foldl followStep ordered).Perm
      (ordered.map (follow · events) ++ followed events) := by
  induction events generalizing ordered with
  | nil => simp [follow, followed]
  | cons event rest ih =>
      have hStep := (followStep_perm ordered event).map
        (follow · rest)
      calc
        (event :: rest).foldl followStep ordered
        _ = rest.foldl followStep (followStep ordered event) :=
            rfl
        _ ~ (followStep ordered event).map (follow · rest) ++
              followed rest := ih _
        _ ~ (ordered.map (followOne · event) ++ [event]).map
              (follow · rest) ++ followed rest :=
            hStep.append_right _
        _ = ordered.map (follow · (event :: rest)) ++
              followed (event :: rest) := by
            simp [follow, followed, Function.comp_def]

/- No event is lost and none is there twice. -/
theorem editsFollowRenames_perm (events : List FsEvent) :
    editsFollowRenames events ~ followed events :=
  foldl_followStep_perm events []

/- Renames and deletes stay where they are to each other. -/
theorem followStep_filter
    (ordered : List FsEvent)
    (event : FsEvent) :
    (followStep ordered event).filter (!·.isEdit) =
      ordered.filter (!·.isEdit) ++
        [event].filter (!·.isEdit) := by
  cases event with
  | renamed source target =>
      have hKept :
          (ordered.filter fun earlier =>
              (movedEdit earlier source target).isNone).filter
                (!·.isEdit) =
            ordered.filter (!·.isEdit) := by
        rw [List.filter_filter]
        apply List.filter_congr
        intro earlier _
        cases hEdit : earlier.isEdit with
        | true => rfl
        | false =>
            rw [movedEdit_of_not_edit hEdit]
            rfl
      have hMoved :
          (ordered.filterMap fun earlier =>
              movedEdit earlier source target).filter
                (!·.isEdit) = [] := by
        rw [List.filter_eq_nil_iff]
        intro moved hIn
        obtain ⟨earlier, _, hMove⟩ := List.mem_filterMap.mp hIn
        rw [(isEdit_of_movedEdit hMove).2]
        decide
      simp only [followStep]
      rw [List.filter_append, List.filter_append, hKept, hMoved,
        List.append_nil]
  | created path => simp [followStep]
  | modified path => simp [followStep]
  | deleted path => simp [followStep]

theorem editsFollowRenames_filter (events : List FsEvent) :
    (editsFollowRenames events).filter (!·.isEdit) =
      events.filter (!·.isEdit) := by
  have hAll :
      ∀ (rest ordered : List FsEvent),
        (rest.foldl followStep ordered).filter (!·.isEdit) =
          ordered.filter (!·.isEdit) ++
            rest.filter (!·.isEdit) := by
    intro rest
    induction rest with
    | nil => simp
    | cons event rest ih =>
        intro ordered
        rw [List.foldl_cons, ih, followStep_filter,
          List.append_assoc, ← List.filter_append]
        rfl
  exact hAll events []

------------------------------------------------------------
-- Files
------------------------------------------------------------

variable {isFolder : Nat → Bool} {d : Folder}
variable {file : Nat} {p q : Path}

/- Every file has its own number, and new files get new ones. -/
structure Numbered (d : Folder) : Prop where
  own :
    ∀ p q file, d.files.nodeAt p = some (.file file) →
      d.files.nodeAt q = some (.file file) → p = q
  known :
    ∀ p file, d.files.nodeAt p = some (.file file) →
      file < d.created

/- The file is nowhere, and its number is not given again. -/
structure Gone (d : Folder) (file : Nat) : Prop where
  nowhere : ∀ q, d.files.nodeAt q ≠ some (.file file)
  known : file < d.created

/- The path of a file after one event that leaves it. -/
def carried (event : FsEvent) (path : Path) : Path :=
  match event with
  | .renamed source target =>
      if source <+: path then
        target ++ path.drop source.length
      else
        path
  | _ => path

/- A file is new, or an event has carried it here. -/
theorem nodeAt_apply_file
    (h :
      (d.apply isFolder event).files.nodeAt q =
        some (.file file)) :
    (file = d.created ∧ event = .created q) ∨
      ∃ p, d.files.nodeAt p = some (.file file) ∧
        q = carried event p := by
  cases event with
  | created path =>
      simp only [Folder.apply, Files.nodeAt_put] at h
      split at h
      · rename_i hSame
        subst hSame
        simp only [Folder.newNode, Option.some.injEq] at h
        split at h
        · contradiction
        · exact Or.inl ⟨(Node.file.inj h).symm, rfl⟩
      · split at h
        · contradiction
        · exact Or.inr ⟨q, h, rfl⟩
  | modified path => exact Or.inr ⟨q, h, rfl⟩
  | deleted path =>
      simp only [Folder.apply, Files.nodeAt_removeTree] at h
      split at h
      · contradiction
      · exact Or.inr ⟨q, h, rfl⟩
  | renamed source target =>
      simp only [Folder.apply, Files.nodeAt_moveTree] at h
      split at h
      · rename_i hIn
        obtain ⟨rest, rfl⟩ := hIn
        refine Or.inr ⟨_, h, ?_⟩
        simp [carried]
      · split at h
        · contradiction
        · rename_i hOut
          refine Or.inr ⟨q, h, ?_⟩
          simp [carried, hOut]

theorem created_le_apply (d : Folder) (event : FsEvent) :
    d.created ≤ (d.apply isFolder event).created := by
  cases event with
  | created path => exact Nat.le_succ _
  | modified path => exact Nat.le_refl _
  | deleted path => exact Nat.le_refl _
  | renamed source target => exact Nat.le_refl _

theorem Numbered.apply
    (h : Numbered d)
    (event : FsEvent) : Numbered (d.apply isFolder event) where
  own := by
    intro p q file hP hQ
    rcases nodeAt_apply_file hP with
      ⟨hNew, hEvent⟩ | ⟨p', hP', hFrom⟩ <;>
    rcases nodeAt_apply_file hQ with
      ⟨hNew', hEvent'⟩ | ⟨q', hQ', hFrom'⟩
    · exact FsEvent.created.inj (hEvent.symm.trans hEvent')
    · exact absurd hNew (Nat.ne_of_lt (h.known q' file hQ'))
    · exact absurd hNew' (Nat.ne_of_lt (h.known p' file hP'))
    · rw [hFrom, hFrom', h.own p' q' file hP' hQ']
  known := by
    intro p file hP
    rcases nodeAt_apply_file hP with
      ⟨hNew, hEvent⟩ | ⟨p', hP', _⟩
    · subst hNew hEvent
      exact Nat.lt_succ_self _
    · exact Nat.lt_of_lt_of_le (h.known p' file hP')
        (created_le_apply d event)

theorem Numbered.run
    (h : Numbered d)
    (events : List FsEvent) :
    Numbered (d.run isFolder events) := by
  induction events generalizing d with
  | nil => exact h
  | cons event rest ih => exact ih (h.apply event)

theorem Gone.apply
    (h : Gone d file)
    (event : FsEvent) : Gone (d.apply isFolder event) file where
  nowhere := by
    intro q hQ
    rcases nodeAt_apply_file hQ with
      ⟨hNew, _⟩ | ⟨p, hP, _⟩
    · exact absurd hNew (Nat.ne_of_lt h.known)
    · exact h.nowhere p hP
  known :=
    Nat.lt_of_lt_of_le h.known (created_le_apply d event)

theorem Gone.run
    (h : Gone d file)
    (events : List FsEvent) :
    Gone (d.run isFolder events) file := by
  induction events generalizing d with
  | nil => exact h
  | cons event rest ih => exact ih (h.apply event)

/- After one event a file is carried along, or it is gone. -/
theorem tracks_step
    (h : Numbered d)
    (hFile : d.files.nodeAt p = some (.file file))
    (event : FsEvent) :
    (d.apply isFolder event).files.nodeAt (carried event p) =
        some (.file file) ∨
      Gone (d.apply isFolder event) file := by
  by_cases hThere :
      ∃ q, (d.apply isFolder event).files.nodeAt q =
        some (.file file)
  · left
    obtain ⟨q, hQ⟩ := hThere
    rcases nodeAt_apply_file hQ with
      ⟨hNew, _⟩ | ⟨p', hP', hFrom⟩
    · exact absurd hNew (Nat.ne_of_lt (h.known p file hFile))
    · rwa [h.own p p' file hFile hP', ← hFrom]
  · right
    exact
      { nowhere := fun q hQ => hThere ⟨q, hQ⟩
        known := Nat.lt_of_lt_of_le (h.known p file hFile)
          (created_le_apply d event) }

/- A file that is still there has been carried by each event. -/
theorem tracks_run
    (h : Numbered d)
    (hFile : d.files.nodeAt p = some (.file file))
    (hEnd :
      (d.run isFolder events).files.nodeAt q =
        some (.file file)) :
    q = events.foldl (fun path event => carried event path) p := by
  induction events generalizing d p with
  | nil => exact h.own q p file hEnd hFile
  | cons event rest ih =>
      rcases tracks_step h hFile event with hThere | hGone
      · exact ih (h.apply event) hThere hEnd
      · exact absurd hEnd ((hGone.run rest).nowhere q)

/- An edit is followed to where its path is carried. -/
theorem path_followOne
    (later : FsEvent)
    (hEdit : event.isEdit = true) :
    (followOne event later).path = carried later event.path ∧
      (followOne event later).isEdit = true := by
  cases later with
  | renamed source target =>
      by_cases hIn : source <+: event.path
      · have hStarts := List.isPrefixOf_iff_prefix.mpr hIn
        cases event with
        | created path =>
            simp only [FsEvent.path] at hIn hStarts
            simp [followOne, movedEdit, carried, FsEvent.path,
              FsEvent.isEdit, hIn, hStarts]
        | modified path =>
            simp only [FsEvent.path] at hIn hStarts
            simp [followOne, movedEdit, carried, FsEvent.path,
              FsEvent.isEdit, hIn, hStarts]
        | deleted path => contradiction
        | renamed from_ to_ => contradiction
      · have hNotStarts :
            source.isPrefixOf event.path = false := by
          simpa [← List.isPrefixOf_iff_prefix] using hIn
        have hNone : movedEdit event source target = none := by
          cases event with
          | created path =>
              simp only [FsEvent.path] at hNotStarts
              simp [movedEdit, hNotStarts]
          | modified path =>
              simp only [FsEvent.path] at hNotStarts
              simp [movedEdit, hNotStarts]
          | deleted path => rfl
          | renamed from_ to_ => rfl
        simp [followOne, carried, hNone, hIn, hEdit]
  | created path => exact ⟨rfl, hEdit⟩
  | modified path => exact ⟨rfl, hEdit⟩
  | deleted path => exact ⟨rfl, hEdit⟩

theorem path_follow
    (hEdit : event.isEdit = true) :
    (follow event events).path =
      events.foldl (fun path event => carried event path)
        event.path := by
  induction events generalizing event with
  | nil => rfl
  | cons later rest ih =>
      obtain ⟨hPath, hStill⟩ := path_followOne later hEdit
      have hRest := ih hStill
      rw [hPath] at hRest
      exact hRest

/-
  The renames and deletes keep their order, every event is
  there once, and an edit of a file that is there in the end
  names the path that the file has by then.
-/
theorem editsFollowRenames_faithful
    (hNumbered : Numbered d)
    (events : List FsEvent) :
    editsFollowRenames events ~ followed events ∧
      (editsFollowRenames events).filter (!·.isEdit) =
        events.filter (!·.isEdit) ∧
      ∀ before event after,
        events = before ++ event :: after →
          event.isEdit = true → ∀ file path,
            (d.run isFolder (before ++ [event])).files.nodeAt
                event.path = some (.file file) →
              (d.run isFolder events).files.nodeAt path =
                  some (.file file) →
                (follow event after).path = path := by
  refine ⟨editsFollowRenames_perm events,
    editsFollowRenames_filter events, ?_⟩
  intro before event after hEvents hEdit file path hHere hEnd
  have hRun :
      d.run isFolder events =
        (d.run isFolder (before ++ [event])).run isFolder
          after := by
    subst hEvents
    simp [Folder.run]
  rw [hRun] at hEnd
  rw [path_follow hEdit]
  exact (tracks_run (hNumbered.run _) hHere hEnd).symm

/- An edit, two renames and a new file at the old path. -/
def renamedEdit : List FsEvent :=
  [.modified [['a']], .renamed [['a']] [['b']],
    .renamed [['b']] [['c']], .created [['a']]]

theorem numbered_oneFile : Numbered oneFile := by
  have hOnly :
      ∀ p file, oneFile.files.nodeAt p = some (.file file) →
        p = [['a']] ∧ file = 0 := by
    intro p file hP
    have hEntry := Files.mem_of_nodeAt hP
    rw [oneFile, List.mem_singleton] at hEntry
    have hFile := congrArg Prod.snd hEntry
    exact ⟨congrArg Prod.fst hEntry, Node.file.inj hFile⟩
  constructor
  · intro p q file hP hQ
    rw [(hOnly p file hP).1, (hOnly q file hQ).1]
  · intro p file hP
    rw [(hOnly p file hP).2]
    decide

theorem renamedEdit_followed :
    editsFollowRenames renamedEdit =
        [.renamed [['a']] [['b']], .renamed [['b']] [['c']],
          .modified [['c']], .created [['a']]] ∧
      (follow (.modified [['a']]) renamedEdit.tail).path =
        [['c']] := by
  obtain ⟨_, _, hFollows⟩ :=
    @editsFollowRenames_faithful (fun _ => false) oneFile
      numbered_oneFile renamedEdit
  exact ⟨by decide, hFollows [] _ renamedEdit.tail rfl rfl 0
    [['c']] (by decide) (by decide)⟩

end Watch

end S4Drive

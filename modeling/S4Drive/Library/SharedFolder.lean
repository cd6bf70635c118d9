import S4Drive.Library.FileTree

/-
  A folder that one process shares with others. Beside the
  files that are there it keeps the files that would be
  there without the process: what only the others have done.
  `Overlay mine` says that the folder is the one of the
  others with the entries `mine` of the process on top, no
  two of them under one name.

  Main declarations:
    * `Change`, `Change.run`
    * `Shared`, `Shared.change`, `Shared.act`
    * `Overlay`, `Overlay.change`, `Overlay.act`
    * `FileReq`, `FileChoice`, `Shared.serve`
-/

------------------------------------------------------------
-- Changes
------------------------------------------------------------

namespace FileTree

variable {ν β : Type}

/- What a process may do to the entries of a folder. -/
inductive Change (ν β : Type) where
  | put (p : List ν) (node : Node β)
  | remove (p : List ν)
  | move (a b : List ν)
deriving DecidableEq

namespace Change

/- The names at the top that a change is about. -/
def heads : Change ν β → List ν
  | put p _ => p.take 1
  | remove p => p.take 1
  | move a b => a.take 1 ++ b.take 1

variable [DecidableEq ν]

/- A new entry needs its folder. -/
def Possible (files : Files ν β) : Change ν β → Prop
  | put p _ => p ≠ [] ∧ files.hasFolder p
  | remove p => p ≠ []
  | move a b =>
      a ≠ [] ∧ b ≠ [] ∧ files.hasFolder b ∧ ¬ a <+: b

instance
    [DecidableEq β]
    (files : Files ν β) :
    (c : Change ν β) → Decidable (c.Possible files)
  | put _ _ => inferInstanceAs (Decidable (_ ∧ _))
  | remove _ => inferInstanceAs (Decidable (_ ≠ _))
  | move _ _ =>
      inferInstanceAs (Decidable (_ ∧ _ ∧ _ ∧ ¬ _))

def run (files : Files ν β) : Change ν β → Files ν β
  | put p node => files.put p node
  | remove p => files.removeTree p
  | move a b => files.moveTree a b

variable {files files' : Files ν β} {c : Change ν β}
variable {x : ν} {p q : List ν}

theorem rooted_run
    (h : files.Rooted)
    (hPossible : c.Possible files) : (c.run files).Rooted := by
  cases c with
  | put p node => exact h.put hPossible.1 hPossible.2
  | remove p => exact h.removeTree
  | move a b =>
      rcases hPossible with ⟨hSource, hTarget, hFolder, hOut⟩
      exact h.moveTree hSource hTarget hFolder hOut

omit [DecidableEq ν] in
/- A path below a name that does not start with it. -/
theorem not_prefix_of_head
    (hPath : p ≠ [])
    (hHead : x ∉ p.take 1) : ¬ p <+: x :: q := by
  cases p with
  | nil => exact absurd rfl hPath
  | cons y rest =>
      intro hIn
      have hSame := (List.cons_prefix_cons.mp hIn).1
      exact hHead (by simp [hSame])

/- Names that a change is not about stay as they are. -/
theorem run_untouched
    (files : Files ν β)
    (hPossible : c.Possible files')
    (hHead : x ∉ c.heads)
    (q : List ν) :
    (c.run files).nodeAt (x :: q) = files.nodeAt (x :: q) := by
  cases c with
  | put p node =>
      have hOut := not_prefix_of_head (q := q)
        hPossible.1 hHead
      simp only [run, Files.nodeAt_put, hOut, if_false]
      rw [if_neg]
      rintro rfl
      exact hOut (List.prefix_refl _)
  | remove p =>
      have hOut := not_prefix_of_head (q := q)
        hPossible hHead
      simp only [run, Files.nodeAt_removeTree, hOut, if_false]
  | move a b =>
      rw [heads, List.mem_append, not_or] at hHead
      have hSource := not_prefix_of_head (q := q)
        hPossible.1 hHead.1
      have hTarget := not_prefix_of_head (q := q)
        hPossible.2.1 hHead.2
      simp only [run, Files.nodeAt_moveTree, hSource, hTarget,
        if_false]

/-
  A change depends only on the names that it is about and
  on the name that is looked at.
-/
theorem run_congr
    {files₁ files₂ : Files ν β}
    (hPossible : c.Possible files')
    (hHeads :
      ∀ y ∈ c.heads, ∀ q,
        files₁.nodeAt (y :: q) = files₂.nodeAt (y :: q))
    (hHere :
      ∀ q, files₁.nodeAt (x :: q) = files₂.nodeAt (x :: q))
    (q : List ν) :
    (c.run files₁).nodeAt (x :: q) =
      (c.run files₂).nodeAt (x :: q) := by
  cases c with
  | put p node =>
      simp only [run, Files.nodeAt_put, hHere]
  | remove p =>
      simp only [run, Files.nodeAt_removeTree, hHere]
  | move a b =>
      cases a with
      | nil => exact absurd rfl hPossible.1
      | cons y rest =>
          have hSource := hHeads y (by simp [heads])
          simp only [run, Files.nodeAt_moveTree, hHere,
            List.cons_append, hSource]

end Change

------------------------------------------------------------
-- Shared Folders
------------------------------------------------------------

/- A folder and what the other processes have made of it. -/
structure Shared (ν β : Type) where
  files : Files ν β
  others : Files ν β

namespace Shared

variable [DecidableEq ν]

/- The others change the folder. -/
def change
    [DecidableEq β]
    (w : Shared ν β)
    (c : Change ν β) : Option (Shared ν β) :=
  if c.Possible w.files then
    some ⟨c.run w.files, c.run w.others⟩
  else
    none

/- The process changes the folder. -/
def act (w : Shared ν β) (c : Change ν β) : Shared ν β :=
  ⟨c.run w.files, w.others⟩

/- A change of the others at no entry of the process. -/
def Outside (w : Shared ν β) (c : Change ν β) : Prop :=
  ∀ x ∈ c.heads, w.files.nodeAt [x] = w.others.nodeAt [x]

instance
    [DecidableEq β]
    (w : Shared ν β)
    (c : Change ν β) : Decidable (w.Outside c) :=
  inferInstanceAs (Decidable (∀ x ∈ c.heads, _))

end Shared

variable [DecidableEq ν]
variable {mine mine' : Files ν β} {w w' : Shared ν β}
variable {c : Change ν β} {x y : ν} {p q : List ν}

/- What is under a name is the process's own. -/
def OwnAt
    (mine : Files ν β)
    (w : Shared ν β)
    (x : ν) : Prop :=
  ∀ q, w.files.nodeAt (x :: q) = mine.nodeAt (x :: q) ∧
    w.others.nodeAt (x :: q) = none

/- What is under a name is what the others have there. -/
def OthersAt
    (mine : Files ν β)
    (w : Shared ν β)
    (x : ν) : Prop :=
  ∀ q, mine.nodeAt (x :: q) = none ∧
    w.files.nodeAt (x :: q) = w.others.nodeAt (x :: q)

/- The process has nothing in the folder. -/
def NoEntries (mine : Files ν β) : Prop :=
  ∀ x q, mine.nodeAt (x :: q) = none

/- The folder is the others' with `mine` on top. -/
structure Overlay
    (mine : Files ν β)
    (w : Shared ν β) : Prop where
  rooted : w.files.Rooted
  parts : ∀ x, OwnAt mine w x ∨ OthersAt mine w x

theorem Shared.rooted_change
    [DecidableEq β]
    (h : w.files.Rooted)
    (hChange : w.change c = some w') : w'.files.Rooted := by
  unfold Shared.change at hChange
  split at hChange
  · rename_i hPossible
    cases hChange
    exact Change.rooted_run h hPossible
  · cases hChange

namespace Overlay

/- A process has no entries in the beginning. -/
theorem start
    {files : Files ν β}
    (h : files.Rooted) :
    Overlay Files.empty ⟨files, files⟩ :=
  ⟨h, fun _ => .inr fun _ => ⟨rfl, rfl⟩⟩

/- A name that is free may be taken. -/
theorem own_of_free
    (h : Overlay mine w)
    (hFree : w.files.nodeAt [x] = none) : OwnAt mine w x := by
  intro q
  have hNothing : w.files.nodeAt (x :: q) = none :=
    h.rooted.nothing_inside (by simp) hFree
      (List.cons_prefix_cons.mpr ⟨rfl, List.nil_prefix⟩)
  rcases h.parts x with hOwn | hOthers
  · exact hOwn q
  · rcases hOthers q with ⟨hMine, hSame⟩
    exact ⟨hNothing.trans hMine.symm, hSame ▸ hNothing⟩

theorem own_of_mine
    (h : Overlay mine w)
    {q : List ν}
    (hMine : mine.nodeAt (x :: q) ≠ none) :
    OwnAt mine w x := by
  rcases h.parts x with hOwn | hOthers
  · exact hOwn
  · exact absurd (hOthers q).1 hMine

theorem others_of_same
    (h : Overlay mine w)
    (hSame : w.files.nodeAt [x] = w.others.nodeAt [x]) :
    OthersAt mine w x := by
  rcases h.parts x with hOwn | hOthers
  · intro q
    have hFree : w.files.nodeAt [x] = none :=
      hSame.trans (hOwn []).2
    have hNothing : w.files.nodeAt (x :: q) = none :=
      h.rooted.nothing_inside (by simp) hFree
        (List.cons_prefix_cons.mpr ⟨rfl, List.nil_prefix⟩)
    rcases hOwn q with ⟨hMine, hNone⟩
    exact ⟨hMine.symm.trans hNothing,
      hNothing.trans hNone.symm⟩
  · exact hOthers

theorem heads_own
    (hOwn : OwnAt mine w x)
    (z : ν)
    (hz : z ∈ (x :: p).take 1) : OwnAt mine w z := by
  have hSame : z = x := by simpa using hz
  rw [hSame]
  exact hOwn

/- The name of a new entry is the process's from then on. -/
theorem own_of_new
    (h : Overlay mine w)
    (hOwn : q ≠ [] → OwnAt mine w x)
    (hNone : w.files.nodeAt (x :: q) = none) :
    OwnAt mine w x := by
  cases q with
  | nil => exact h.own_of_free hNone
  | cons y rest => exact hOwn (by simp)

/- Nothing is inside of a new entry. -/
theorem nothing_mine
    (h : Overlay mine w)
    (hOwn : OwnAt mine w x)
    (hNone : w.files.nodeAt (x :: q) = none)
    (p : List ν)
    (hIn : x :: q <+: p) : mine.nodeAt p = none := by
  have hNothing := h.rooted.nothing_inside (by simp) hNone hIn
  obtain ⟨rest, rfl⟩ := hIn
  exact (hOwn (q ++ rest)).1.symm.trans hNothing

/- Without own entries the folder is the others'. -/
theorem same_of_noEntries
    (h : Overlay mine w)
    (hNone : NoEntries mine)
    (x : ν) (q : List ν) :
    w.files.nodeAt (x :: q) = w.others.nodeAt (x :: q) := by
  rcases h.parts x with hOwn | hOthers
  · rcases hOwn q with ⟨hFiles, hLeft⟩
    rw [hFiles, hNone x q, hLeft]
  · exact (hOthers q).2

/- The others go on outside of the process's entries. -/
theorem change
    [DecidableEq β]
    (h : Overlay mine w)
    (hOutside : w.Outside c)
    (hChange : w.change c = some w') : Overlay mine w' := by
  unfold Shared.change at hChange
  split at hChange
  · rename_i hPossible
    cases hChange
    refine ⟨Change.rooted_run h.rooted hPossible, fun x => ?_⟩
    by_cases hHead : x ∈ c.heads
    · right
      have hOthers := h.others_of_same (hOutside x hHead)
      intro q
      refine ⟨(hOthers q).1, ?_⟩
      apply Change.run_congr hPossible
      · intro y hy q
        exact (h.others_of_same (hOutside y hy) q).2
      · exact fun q => (hOthers q).2
    · have hFiles := Change.run_untouched w.files
        hPossible hHead
      have hLeft := Change.run_untouched w.others
        hPossible hHead
      rcases h.parts x with hOwn | hOthers
      · left
        intro q
        rw [hFiles, hLeft]
        exact hOwn q
      · right
        intro q
        rw [hFiles, hLeft]
        exact hOthers q
  · cases hChange

/- The process changes its own entries. -/
theorem act
    (h : Overlay mine w)
    (hPossible : c.Possible w.files)
    (hOwn : ∀ x ∈ c.heads, OwnAt mine w x) :
    Overlay (c.run mine) (w.act c) := by
  refine ⟨Change.rooted_run h.rooted hPossible, fun x => ?_⟩
  by_cases hHead : x ∈ c.heads
  · left
    intro q
    refine ⟨?_, (hOwn x hHead q).2⟩
    apply Change.run_congr hPossible
    · exact fun y hy q => (hOwn y hy q).1
    · exact fun q => (hOwn x hHead q).1
  · have hFiles := Change.run_untouched w.files
      hPossible hHead
    have hMine := Change.run_untouched mine
      hPossible hHead
    rcases h.parts x with hAt | hAt
    · left
      intro q
      rw [hMine]
      exact ⟨(hFiles q).trans (hAt q).1, (hAt q).2⟩
    · right
      intro q
      rw [hMine]
      exact ⟨(hAt q).1, (hFiles q).trans (hAt q).2⟩

end Overlay

------------------------------------------------------------
-- Requests
------------------------------------------------------------

inductive FileError where
  | alreadyExists
  | failed
deriving DecidableEq

/- What a process asks the file system to do in the folder. -/
inductive FileReq (ν β : Type) where
  | createDir (p : List ν)
  -- `create_new` of a file with these first contents.
  | createNew (p : List ν) (body : β)
  -- Everything that is written to an open file.
  | write (p : List ν) (body : β)
  -- Never replaces anything.
  | moveNew (a b : List ν)
  -- Replaces a file.
  | rename (a b : List ν)
  | removeFile (p : List ν)
  | removeDirAll (p : List ν)

/- How a request ends. -/
inductive FileChoice (ν β : Type) where
  | ok
  -- It fails and has changed nothing.
  | failed
  -- A write fails and leaves these contents.
  | wrote (body : β)
  -- A move was carried out and fails afterwards.
  | moved
  -- A removal fails and has removed these entries.
  | removed (ps : List (List ν))
deriving DecidableEq

namespace FileReq

/- What a request does where it is possible. -/
def effect
    [DecidableEq β]
    (files : Files ν β) :
    FileReq ν β → Except FileError (Change ν β)
  | createDir p =>
      if files.nodeAt p ≠ none then .error .alreadyExists
      else .ok (.put p .folder)
  | createNew p body =>
      if files.nodeAt p ≠ none then .error .alreadyExists
      else .ok (.put p (.file body))
  | write p body =>
      match files.nodeAt p with
      | some (.file _) => .ok (.put p (.file body))
      | _ => .error .failed
  | moveNew a b =>
      if files.nodeAt a = none then .error .failed
      else if files.nodeAt b ≠ none then .error .alreadyExists
      else .ok (.move a b)
  | rename a b =>
      match files.nodeAt a, files.nodeAt b with
      | none, _ => .error .failed
      | some .folder, some _ => .error .failed
      | some _, some .folder => .error .failed
      | some _, _ => .ok (.move a b)
  | removeFile p =>
      match files.nodeAt p with
      | none => .error .failed
      | some .folder => .error .failed
      | some _ => .ok (.remove p)
  | removeDirAll p =>
      if files.nodeAt p = some .folder then .ok (.remove p)
      else .error .failed

end FileReq

namespace Shared

variable [DecidableEq β]

/- What is left when a removal ends early. -/
def removeSome
    (w : Shared ν β)
    (p : List ν)
    (ps : List (List ν)) : Shared ν β :=
  ps.foldl (fun w q => w.act (.remove (p ++ q))) w

/- What a request that fails leaves behind. -/
def failing
    (w : Shared ν β) :
    FileReq ν β → FileChoice ν β → Change ν β →
      Option (Shared ν β)
  | _, .failed, _ => some w
  | .write p _, .wrote body, _ => some (w.act (.put p (.file body)))
  | .moveNew _ _, .moved, c => some (w.act c)
  | .removeDirAll p, .removed ps, _ => some (w.removeSome p ps)
  | _, _, _ => none

/- The file system carries out a request. -/
def serve
    (w : Shared ν β)
    (r : FileReq ν β)
    (k : FileChoice ν β) :
    Option (Except FileError Unit × Shared ν β) :=
  match r.effect w.files with
  | .error e => some (.error e, w)
  | .ok c =>
      if c.Possible w.files then
        if k = .ok then
          some (.ok (), w.act c)
        else
          (w.failing r k c).map fun w' => (.error .failed, w')
      else
        some (.error .failed, w)

end Shared

variable [DecidableEq β]

/- What the answer to a request says about the folder. -/
theorem Shared.serve_cases
    {r : FileReq ν β} {k : FileChoice ν β}
    {answer : Except FileError Unit}
    (h : w.serve r k = some (answer, w')) :
    (∃ e, answer = .error e ∧ w' = w) ∨
      ∃ c, r.effect w.files = .ok c ∧ c.Possible w.files ∧
        (answer = .ok () ∧ w' = w.act c ∨
          answer = .error .failed ∧
            w.failing r k c = some w') := by
  unfold Shared.serve at h
  split at h
  · rename_i e hEffect
    cases h
    exact .inl ⟨e, rfl, rfl⟩
  · rename_i c hEffect
    split at h
    · rename_i hPossible
      right
      refine ⟨c, hEffect, hPossible, ?_⟩
      split at h
      · cases h
        exact .inl ⟨rfl, rfl⟩
      · rw [Option.map_eq_some_iff] at h
        rcases h with ⟨w₁, hFailing, hSame⟩
        cases hSame
        exact .inr ⟨rfl, hFailing⟩
    · cases h
      exact .inl ⟨_, rfl, rfl⟩

/- A request keeps every entry in its folder. -/
theorem Shared.rooted_serve
    {r : FileReq ν β} {k : FileChoice ν β}
    {answer : Except FileError Unit}
    (h : w.files.Rooted)
    (hServe : w.serve r k = some (answer, w')) :
    w'.files.Rooted := by
  rcases Shared.serve_cases hServe with
    ⟨e, _, rfl⟩ | ⟨c, hEffect, hPossible, hEnd⟩
  · exact h
  · have hRun := Change.rooted_run h hPossible
    rcases hEnd with ⟨_, rfl⟩ | ⟨_, hFailing⟩
    · exact hRun
    · unfold Shared.failing at hFailing
      split at hFailing
      · cases hFailing
        exact h
      · rename_i p body' body
        cases hFailing
        cases hNode : w.files.nodeAt p with
        | none => simp [FileReq.effect, hNode] at hEffect
        | some node =>
            have hIn := h p (by simp [hNode])
            exact h.put hIn.1 hIn.2
      · cases hFailing
        exact hRun
      · rename_i p ps
        cases hFailing
        clear hServe hEffect hPossible hRun
        induction ps generalizing w with
        | nil => exact h
        | cons q rest ih =>
            exact ih (w := w.act (.remove (p ++ q)))
              h.removeTree
      · cases hFailing

------------------------------------------------------------
-- Requests on Own Entries
------------------------------------------------------------

/- The entry that a request makes. -/
def FileReq.creates :
    FileReq ν β → Option (List ν × Node β)
  | createDir p => some (p, .folder)
  | createNew p body => some (p, .file body)
  | _ => none

variable {r : FileReq ν β} {k : FileChoice ν β}
variable {answer : Except FileError Unit}

namespace Overlay

theorem create
    (h : Overlay mine w)
    {node : Node β}
    (hCreates : r.creates = some (x :: q, node))
    (hOwn : q ≠ [] → OwnAt mine w x)
    (hServe : w.serve r k = some (answer, w')) :
    (∃ e, answer = .error e ∧ w' = w) ∨
      answer = .ok () ∧ Overlay (mine.put (x :: q) node) w' ∧
        ∀ p, x :: q <+: p → mine.nodeAt p = none := by
  have hEffect :
      r.effect w.files =
        if w.files.nodeAt (x :: q) ≠ none then
          .error .alreadyExists
        else .ok (.put (x :: q) node) := by
    cases r <;> cases hCreates <;> rfl
  have hFails : ∀ c w₁,
      w.failing r k c = some w₁ → w₁ = w := by
    intro c w₁ hFailing
    cases r <;> cases hCreates <;> cases k <;>
      cases hFailing <;> rfl
  rcases Shared.serve_cases hServe with
    ⟨e, rfl, rfl⟩ | ⟨c, hDone, hPossible, hEnd⟩
  · exact .inl ⟨e, rfl, rfl⟩
  · rw [hEffect] at hDone
    split at hDone
    · cases hDone
    · rename_i hNew
      cases hDone
      have hNone := Decidable.not_not.mp hNew
      have hMine := h.own_of_new hOwn hNone
      rcases hEnd with ⟨rfl, rfl⟩ | ⟨rfl, hFailing⟩
      · right
        refine ⟨rfl, ?_, h.nothing_mine hMine hNone⟩
        exact h.act hPossible (heads_own hMine)
      · exact .inl ⟨_, rfl, hFails _ _ hFailing⟩

theorem write
    (h : Overlay mine w)
    {body : β}
    (hOwn : OwnAt mine w x)
    (hServe :
      w.serve (.write (x :: q) body) k = some (answer, w')) :
    answer = .ok () ∧
        Overlay (mine.put (x :: q) (.file body)) w' ∨
      ∃ e, answer = .error e ∧
        (w' = w ∨ ∃ body',
          Overlay (mine.put (x :: q) (.file body')) w') := by
  rcases Shared.serve_cases hServe with
    ⟨e, rfl, rfl⟩ | ⟨c, hDone, hPossible, hEnd⟩
  · exact .inr ⟨e, rfl, .inl rfl⟩
  · unfold FileReq.effect at hDone
    dsimp only at hDone
    split at hDone
    · cases hDone
      rcases hEnd with ⟨rfl, rfl⟩ | ⟨rfl, hFailing⟩
      · exact .inl ⟨rfl, h.act hPossible (heads_own hOwn)⟩
      · right
        refine ⟨_, rfl, ?_⟩
        cases k <;> cases hFailing
        · exact .inl rfl
        · rename_i body'
          right
          refine ⟨body', ?_⟩
          exact h.act
            (c := .put (x :: q) (.file body')) hPossible
            (heads_own hOwn)
    · cases hDone

/- A move that does not fail after it was carried out. -/
theorem moveNew
    (h : Overlay mine w)
    (hMoved : k ≠ .moved)
    (hSource : OwnAt mine w x)
    (hTarget : q ≠ [] → OwnAt mine w y)
    (hServe :
      w.serve (.moveNew (x :: p) (y :: q)) k =
        some (answer, w')) :
    (∃ e, answer = .error e ∧ w' = w) ∨
      answer = .ok () ∧ mine.nodeAt (x :: p) ≠ none ∧
        Overlay (mine.moveTree (x :: p) (y :: q)) w' := by
  rcases Shared.serve_cases hServe with
    ⟨e, rfl, rfl⟩ | ⟨c, hDone, hPossible, hEnd⟩
  · exact .inl ⟨e, rfl, rfl⟩
  · unfold FileReq.effect at hDone
    dsimp only at hDone
    split at hDone
    · cases hDone
    · split at hDone
      · cases hDone
      · rename_i hThere hNew
        cases hDone
        have hNone := Decidable.not_not.mp hNew
        have hMine := (hSource p).1
        rcases hEnd with ⟨rfl, rfl⟩ | ⟨rfl, hFailing⟩
        · refine .inr ⟨rfl, hMine ▸ hThere, ?_⟩
          apply h.act hPossible
          intro z hz
          rcases List.mem_append.mp hz with hz | hz
          · exact heads_own hSource z hz
          · exact heads_own (h.own_of_new hTarget hNone) z hz
        · left
          refine ⟨_, rfl, ?_⟩
          cases k <;> cases hFailing
          · rfl
          · exact absurd rfl hMoved

/- A rename to a name that is free. -/
theorem rename
    (h : Overlay mine w)
    (hSource : OwnAt mine w x)
    (hFree : w.files.nodeAt [y] = none)
    (hServe :
      w.serve (.rename (x :: p) [y]) k = some (answer, w')) :
    (∃ e, answer = .error e ∧ w' = w) ∨
      answer = .ok () ∧ mine.nodeAt (x :: p) ≠ none ∧
        Overlay (mine.moveTree (x :: p) [y]) w' := by
  have hEffect :
      FileReq.effect w.files (.rename (x :: p) [y]) =
        if w.files.nodeAt (x :: p) = none then
          .error .failed
        else .ok (.move (x :: p) [y]) := by
    unfold FileReq.effect
    dsimp only
    rw [hFree]
    cases hNode : w.files.nodeAt (x :: p) with
    | none => rfl
    | some node => cases node <;> rfl
  rcases Shared.serve_cases hServe with
    ⟨e, rfl, rfl⟩ | ⟨c, hDone, hPossible, hEnd⟩
  · exact .inl ⟨e, rfl, rfl⟩
  · rw [hEffect] at hDone
    split at hDone
    · cases hDone
    · rename_i hThere
      cases hDone
      have hMine := (hSource p).1
      rcases hEnd with ⟨rfl, rfl⟩ | ⟨rfl, hFailing⟩
      · refine .inr ⟨rfl, hMine ▸ hThere, ?_⟩
        apply h.act hPossible
        intro z hz
        rcases List.mem_append.mp hz with hz | hz
        · exact heads_own hSource z hz
        · exact heads_own (h.own_of_free hFree) z hz
      · left
        refine ⟨_, rfl, ?_⟩
        cases k <;> cases hFailing
        rfl

/- A request that is possible and does not fail. -/
theorem act_of_serve
    (hEffect : r.effect w.files = .ok c)
    (hPossible : c.Possible w.files)
    (hServe : w.serve r .ok = some (answer, w')) :
    answer = .ok () ∧ w' = w.act c := by
  unfold Shared.serve at hServe
  simp only [hEffect, hPossible, if_true, Option.some.injEq,
    Prod.mk.injEq] at hServe
  exact ⟨hServe.1.symm, hServe.2.symm⟩

theorem remove_of_serve
    (h : Overlay mine w)
    (hNode : mine.nodeAt (x :: q) ≠ none)
    (hEffect :
      w.files.nodeAt (x :: q) = mine.nodeAt (x :: q) →
        r.effect w.files = .ok (.remove (x :: q)))
    (hServe : w.serve r .ok = some (answer, w')) :
    answer = .ok () ∧
      Overlay (mine.removeTree (x :: q)) w' := by
  have hOwn := h.own_of_mine hNode
  have hPossible :
      (Change.remove (x :: q) : Change ν β).Possible w.files := by
    simp [Change.Possible]
  rcases act_of_serve (hEffect (hOwn q).1) hPossible hServe with
    ⟨rfl, rfl⟩
  exact ⟨rfl, h.act hPossible (heads_own hOwn)⟩

theorem removeDirAll
    (h : Overlay mine w)
    (hFolder : mine.nodeAt (x :: q) = some .folder)
    (hServe :
      w.serve (.removeDirAll (x :: q)) .ok =
        some (answer, w')) :
    answer = .ok () ∧
      Overlay (mine.removeTree (x :: q)) w' := by
  refine h.remove_of_serve (by simp [hFolder]) ?_ hServe
  intro hSame
  simp [FileReq.effect, hSame.trans hFolder]

theorem removeFile
    (h : Overlay mine w)
    {body : β}
    (hFile : mine.nodeAt (x :: q) = some (.file body))
    (hServe :
      w.serve (.removeFile (x :: q)) .ok =
        some (answer, w')) :
    answer = .ok () ∧
      Overlay (mine.removeTree (x :: q)) w' := by
  refine h.remove_of_serve (by simp [hFile]) ?_ hServe
  intro hSame
  simp [FileReq.effect, hSame.trans hFile]

end Overlay

end FileTree

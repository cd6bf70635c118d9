import Mathlib.Data.List.Infix
import Mathlib.Tactic.Common

/-
  Trees of files, as the entries below one folder: every
  entry has a path, and an entry that is not at the top lies
  in a folder. Entries are put, removed with all that is
  inside them, and moved.

  Main declarations:
    * `Node`, `Files`, `Files.nodeAt`
    * `Files.put`, `Files.set`, `Files.erase`
    * `Files.removeTree`, `Files.moveTree`
    * `Files.Rooted`
-/

------------------------------------------------------------
-- Files
------------------------------------------------------------

namespace FileTree

variable {ν β : Type}

/- What an entry is; links and devices are no files. -/
inductive Node (β : Type) where
  | folder
  | file (body : β)
  -- `resolves` says whether following the entry ends well.
  | other (resolves : Bool)
deriving DecidableEq

/- The entries below one folder by their paths. -/
structure Files (ν β : Type) where
  entries : List (List ν × Node β)
deriving DecidableEq

namespace Files

def empty : Files ν β :=
  ⟨[]⟩

variable [DecidableEq ν]

def nodeAt (files : Files ν β) (p : List ν) : Option (Node β) :=
  files.entries.lookup p

/- The folder that a path is in, if it is not the top. -/
def hasFolder (files : Files ν β) (p : List ν) : Prop :=
  p.dropLast = [] ∨ files.nodeAt p.dropLast = some .folder

instance
    [DecidableEq β]
    (files : Files ν β)
    (p : List ν) : Decidable (files.hasFolder p) :=
  inferInstanceAs (Decidable (_ ∨ _))

/- Remove an entry and all that is inside it. -/
def removeTree (files : Files ν β) (p : List ν) : Files ν β :=
  ⟨files.entries.filter fun e => !p.isPrefixOf e.1⟩

/- Put an entry in place of what was there. -/
def put
    (files : Files ν β)
    (p : List ν)
    (node : Node β) : Files ν β :=
  ⟨(p, node) :: (files.removeTree p).entries⟩

/- Put an entry and leave what is inside it. -/
def set
    (files : Files ν β)
    (p : List ν)
    (node : Node β) : Files ν β :=
  ⟨(p, node) :: files.entries⟩

/- Remove one entry. -/
def erase (files : Files ν β) (p : List ν) : Files ν β :=
  ⟨files.entries.filter fun e => e.1 ≠ p⟩

/- Move an entry with all that is inside it. -/
def moveTree (files : Files ν β) (a b : List ν) : Files ν β :=
  ⟨(files.entries.filter fun e => a.isPrefixOf e.1).map
      (fun e => (b ++ e.1.drop a.length, e.2)) ++
    ((files.removeTree a).removeTree b).entries⟩

/- Every entry is at the top or in a folder. -/
def Rooted (files : Files ν β) : Prop :=
  ∀ p, files.nodeAt p ≠ none → p ≠ [] ∧ files.hasFolder p

theorem mem_of_nodeAt
    {files : Files ν β} {p : List ν} {node : Node β}
    (h : files.nodeAt p = some node) :
    (p, node) ∈ files.entries := by
  rcases List.lookup_eq_some_iff.mp h with
    ⟨before, after, hEntries, _⟩
  simp [hEntries]

theorem lookup_filter
    (l : List (List ν × Node β))
    (keep : List ν → Bool)
    (p : List ν) :
    (l.filter fun e => keep e.1).lookup p =
      if keep p then l.lookup p else none := by
  induction l with
  | nil => simp
  | cons e rest ih =>
      rcases e with ⟨q, node⟩
      by_cases hKey : p = q
      · subst hKey
        cases hKeep : keep p <;>
          simp [hKeep, ih]
      · have hOther : (p == q) = false := by simpa using hKey
        cases hKeep : keep q <;>
          simp [hKeep, ih, List.lookup_cons, hOther]

@[simp] theorem nodeAt_removeTree
    (files : Files ν β)
    (p q : List ν) :
    (files.removeTree p).nodeAt q =
      if p <+: q then none else files.nodeAt q := by
  have hLookup := lookup_filter files.entries
    (fun r => !p.isPrefixOf r) q
  by_cases hIn : p <+: q
  · have hPrefix := List.isPrefixOf_iff_prefix.mpr hIn
    simpa [nodeAt, removeTree, hPrefix, hIn] using hLookup
  · have hPrefix : p.isPrefixOf q = false := by
      simpa [← List.isPrefixOf_iff_prefix] using hIn
    simpa [nodeAt, removeTree, hPrefix, hIn] using hLookup

@[simp] theorem nodeAt_put
    (files : Files ν β)
    (p q : List ν)
    (node : Node β) :
    (files.put p node).nodeAt q =
      if q = p then some node
      else if p <+: q then none else files.nodeAt q := by
  by_cases hSame : q = p
  · subst hSame
    simp [nodeAt, put]
  · have hOther : (q == p) = false := by simpa using hSame
    have hRest := nodeAt_removeTree files p q
    simpa [nodeAt, put, List.lookup_cons, hOther, hSame]
      using hRest

@[simp] theorem nodeAt_set
    (files : Files ν β)
    (p q : List ν)
    (node : Node β) :
    (files.set p node).nodeAt q =
      if q = p then some node else files.nodeAt q := by
  by_cases hSame : q = p
  · subst hSame
    simp [nodeAt, set]
  · have hOther : (q == p) = false := by simpa using hSame
    simp [nodeAt, set, List.lookup_cons, hOther, hSame]

@[simp] theorem nodeAt_erase
    (files : Files ν β)
    (p q : List ν) :
    (files.erase p).nodeAt q =
      if q = p then none else files.nodeAt q := by
  have hLookup := lookup_filter files.entries
    (fun r => decide (r ≠ p)) q
  by_cases hSame : q = p
  · subst hSame
    simpa [nodeAt, erase] using hLookup
  · simpa [nodeAt, erase, hSame] using hLookup

/- Moved entries are found where they were moved to. -/
theorem lookup_moved
    (l : List (List ν × Node β))
    (a b q : List ν) :
    ((l.filter fun e => a.isPrefixOf e.1).map
      fun e => (b ++ e.1.drop a.length, e.2)).lookup q =
      if b <+: q then l.lookup (a ++ q.drop b.length)
      else none := by
  induction l with
  | nil => simp
  | cons e rest ih =>
      rcases e with ⟨r, node⟩
      by_cases hMoved : a <+: r
      · obtain ⟨c, rfl⟩ := hMoved
        have hPrefix : a.isPrefixOf (a ++ c) = true := by
          simp [List.isPrefixOf_iff_prefix]
        have hKey : (q == b ++ c) =
            (decide (b <+: q) &&
              (a ++ q.drop b.length == a ++ c)) := by
          rw [Bool.eq_iff_iff]
          simp only [beq_iff_eq, Bool.and_eq_true,
            decide_eq_true_eq, List.append_cancel_left_eq]
          constructor
          · rintro rfl
            simp
          · rintro ⟨⟨d, rfl⟩, hRest⟩
            simpa using hRest
        simp only [List.filter_cons, hPrefix, if_true,
          List.map_cons, List.drop_left, List.lookup_cons,
          ih, hKey]
        by_cases hIn : b <+: q
        · simp [hIn]
        · simp [hIn]
      · have hPrefix : a.isPrefixOf r = false := by
          simpa [← List.isPrefixOf_iff_prefix] using hMoved
        have hOther :
            (a ++ q.drop b.length == r) = false := by
          rw [beq_eq_false_iff_ne]
          rintro rfl
          exact hMoved (List.prefix_append _ _)
        simpa [List.filter_cons, hPrefix, List.lookup_cons,
          hOther] using ih

@[simp] theorem nodeAt_moveTree
    (files : Files ν β)
    (a b q : List ν) :
    (files.moveTree a b).nodeAt q =
      if b <+: q then files.nodeAt (a ++ q.drop b.length)
      else if a <+: q then none else files.nodeAt q := by
  have hMoved := lookup_moved files.entries a b q
  have hRest := nodeAt_removeTree (files.removeTree a) b q
  have hKept := nodeAt_removeTree files a q
  unfold nodeAt at hRest hKept ⊢
  unfold moveTree
  rw [List.lookup_append, hMoved, hRest, hKept]
  by_cases hIn : b <+: q
  · simp only [hIn, if_true, Option.or_none]
  · simp only [hIn, if_false, Option.none_or]

variable {files : Files ν β} {p q a b : List ν}
variable {node : Node β}

theorem rooted_empty : (empty : Files ν β).Rooted :=
  fun _ h => absurd rfl h

omit [DecidableEq ν] in
theorem prefix_of_dropLast (h : p <+: q.dropLast) : p <+: q :=
  h.trans (List.dropLast_prefix q)

omit [DecidableEq ν] in
theorem not_prefix_dropLast
    (h : p ≠ []) : ¬ p <+: p.dropLast := by
  intro hIn
  have hLength := hIn.length_le
  have hPositive := List.length_pos_iff.mpr h
  rw [List.length_dropLast] at hLength
  omega

/- Nothing is inside of what is not there. -/
theorem Rooted.nothing_inside
    (h : files.Rooted)
    (hPath : p ≠ [])
    (hNone : files.nodeAt p = none)
    (hIn : p <+: q) : files.nodeAt q = none := by
  obtain ⟨c, rfl⟩ := hIn
  induction c using List.reverseRecOn with
  | nil => simpa using hNone
  | append_singleton c x ih =>
      by_contra hPresent
      have hFolder := (h _ hPresent).2
      unfold hasFolder at hFolder
      rw [← List.append_assoc, List.dropLast_concat, ih]
        at hFolder
      rcases hFolder with hTop | hFolder
      · exact hPath (List.append_eq_nil_iff.mp hTop).1
      · cases hFolder

/- What has something in it is a folder. -/
theorem Rooted.folder_above
    (h : files.Rooted)
    (hPath : p ≠ [])
    (hIn : p <+: q)
    (hOther : q ≠ p)
    (hPresent : files.nodeAt q ≠ none) :
    files.nodeAt p = some .folder := by
  obtain ⟨c, rfl⟩ := hIn
  induction c using List.reverseRecOn with
  | nil => exact absurd (List.append_nil p) hOther
  | append_singleton c x ih =>
      have hFolder := (h _ hPresent).2
      unfold hasFolder at hFolder
      rw [← List.append_assoc, List.dropLast_concat] at hFolder
      rcases hFolder with hTop | hFolder
      · exact absurd (List.append_eq_nil_iff.mp hTop).1 hPath
      · by_cases hSame : p ++ c = p
        · rwa [hSame] at hFolder
        · exact ih hSame (by simp [hFolder])

/- Every entry that a change leaves keeps its folder. -/
theorem hasFolder.congr
    {files' : Files ν β}
    (h : files.hasFolder p)
    (hSame :
      p.dropLast ≠ [] →
        files'.nodeAt p.dropLast = files.nodeAt p.dropLast) :
    files'.hasFolder p := by
  by_cases hTop : p.dropLast = []
  · exact .inl hTop
  · exact .inr ((hSame hTop).trans (h.resolve_left hTop))

theorem Rooted.removeTree
    (h : files.Rooted) : (files.removeTree p).Rooted := by
  intro q hPresent
  rw [nodeAt_removeTree] at hPresent
  split at hPresent
  · exact absurd rfl hPresent
  · rename_i hOut
    rcases h q hPresent with ⟨hPath, hFolder⟩
    refine ⟨hPath, hFolder.congr fun _ => ?_⟩
    rw [nodeAt_removeTree,
      if_neg fun hIn => hOut (prefix_of_dropLast hIn)]

theorem Rooted.put
    (h : files.Rooted)
    (hPath : p ≠ [])
    (hFolder : files.hasFolder p) :
    (files.put p node).Rooted := by
  intro q hPresent
  rw [nodeAt_put] at hPresent
  split at hPresent
  · rename_i hSame
    subst hSame
    refine ⟨hPath, hFolder.congr fun _ => ?_⟩
    have hOut := not_prefix_dropLast hPath
    rw [nodeAt_put, if_neg, if_neg hOut]
    exact fun hSame => hOut (by rw [hSame])
  · split at hPresent
    · exact absurd rfl hPresent
    · rename_i _ hOut
      rcases h q hPresent with ⟨hPath', hFolder'⟩
      refine ⟨hPath', hFolder'.congr fun _ => ?_⟩
      have hOut' : ¬ p <+: q.dropLast :=
        fun hIn => hOut (prefix_of_dropLast hIn)
      rw [nodeAt_put, if_neg, if_neg hOut']
      rintro rfl
      exact hOut' (List.prefix_refl _)

theorem Rooted.moveTree
    (h : files.Rooted)
    (hSource : a ≠ [])
    (hTarget : b ≠ [])
    (hFolder : files.hasFolder b)
    (hOutside : ¬ a <+: b) :
    (files.moveTree a b).Rooted := by
  intro q hPresent
  rw [nodeAt_moveTree] at hPresent
  split at hPresent
  · rename_i hIn
    obtain ⟨c, rfl⟩ := hIn
    rw [List.drop_left] at hPresent
    refine ⟨by simp [hTarget], ?_⟩
    cases c using List.reverseRecOn with
    | nil =>
        rw [List.append_nil]
        apply hFolder.congr
        intro _
        rw [nodeAt_moveTree,
          if_neg (not_prefix_dropLast hTarget),
          if_neg fun hIn => hOutside (prefix_of_dropLast hIn)]
    | append_singleton c x =>
        have hInside := (h _ hPresent).2
        unfold hasFolder at hInside ⊢
        rw [← List.append_assoc, List.dropLast_concat]
          at hInside ⊢
        right
        rw [nodeAt_moveTree, if_pos (List.prefix_append b c),
          List.drop_left]
        apply hInside.resolve_left
        simp [hSource]
  · split at hPresent
    · exact absurd rfl hPresent
    · rename_i hNotTarget hNotSource
      rcases h q hPresent with ⟨hPath, hFolder'⟩
      refine ⟨hPath, hFolder'.congr fun _ => ?_⟩
      rw [nodeAt_moveTree,
        if_neg fun hIn => hNotTarget (prefix_of_dropLast hIn),
        if_neg fun hIn => hNotSource (prefix_of_dropLast hIn)]

end Files

end FileTree

import Mathlib.Data.Set.Finite.Basic
import S4Drive.Library.LinkChains
import S4Drive.Metadata.Types

/-
  The graph of file revisions, as a list of revisions with
  their parents. Two walks go from parent to parent: one asks
  whether it meets a revision, the other looks for the first
  one that is also above another revision. Neither looks for
  rounds; the graph is meant to have none.

  Main declarations:
    * `RevisionGraph.isAncestorOf`
    * `RevisionGraph.lowestCommonAncestor`
    * `isAncestorOf_exact`, `lowestCommonAncestor_exact`
    * `revisionAncestry_exact`
-/

open LinkChains

------------------------------------------------------------
-- The Graph
------------------------------------------------------------

namespace S4Drive

namespace RevisionGraph

abbrev Parents := List (RevisionId × Option RevisionId)

def parentOf
    (parents : Parents)
    (rev : RevisionId) : Option RevisionId :=
  (parents.find? fun p => p.1 = rev).bind Prod.snd

/-
  From `b` up to `a`. There is no answer where the loop is not
  done after so many rounds.
-/
def isAncestorOf
    (a b : RevisionId)
    (parents : Parents)
    (rounds : Nat) : Option Bool :=
  (search (parentOf parents) (· = a) rounds (some b)).map
    Option.isSome

def lowestCommonAncestor
    (a b : RevisionId)
    (parents : Parents)
    (rounds : Nat) : Option (Option RevisionId) := do
  let ancestorsA ← gather (parentOf parents) rounds (some a) []
  search (parentOf parents) (fun rev => ancestorsA.contains rev)
    rounds (some b)

/- The loops come to an end, with the answer. -/
def Returns
    {β : Type}
    (loop : Nat → Option β)
    (answer : β) : Prop :=
  ∃ rounds, loop rounds = some answer

/- A path of parents, of any length, also of none. -/
def PathTo (parents : Parents) :
    RevisionId → RevisionId → Prop :=
  Relation.ReflTransGen fun rev parent =>
    (rev, some parent) ∈ parents

/- A revision above that is its own ancestor. -/
def MeetsCycle (parents : Parents) (b : RevisionId) : Prop :=
  ∃ rev parent, PathTo parents b rev ∧
    (rev, some parent) ∈ parents ∧ PathTo parents parent rev

def IsCommonAncestor
    (parents : Parents)
    (a b rev : RevisionId) : Prop :=
  PathTo parents a rev ∧ PathTo parents b rev

variable {parents : Parents} {a b rev parent : RevisionId}

theorem parentOf_iff
    (hOnce : (parents.map Prod.fst).Nodup) :
    parentOf parents rev = some parent ↔
      (rev, some parent) ∈ parents := by
  constructor
  · intro h
    obtain ⟨⟨found, above⟩, hFind, hAbove⟩ :=
      Option.bind_eq_some_iff.mp h
    have hSame : found = rev := by
      simpa using List.find?_some hFind
    cases hSame
    cases hAbove
    exact List.mem_of_find?_eq_some hFind
  · intro hMem
    have hFind :
        parents.find? (fun p => p.1 = rev) =
          some (rev, some parent) := by
      induction parents with
      | nil => cases hMem
      | cons first rest ih =>
          obtain ⟨hNew, hRest⟩ := List.nodup_cons.mp hOnce
          rcases List.mem_cons.mp hMem with rfl | hLater
          · exact List.find?_cons_of_pos (decide_eq_true rfl)
          · rw [List.find?_cons_of_neg, ih hRest hLater]
            simp only [decide_eq_true_eq]
            rintro rfl
            exact hNew
              (List.mem_map.mpr ⟨_, hLater, rfl⟩)
    rw [parentOf, hFind]
    rfl

theorem leads_parentOf
    (hOnce : (parents.map Prod.fst).Nodup) :
    Leads (parentOf parents) = PathTo parents := by
  unfold Leads PathTo
  simp only [parentOf_iff hOnce]

/- A way up ends unless it meets a cycle. -/
theorem ends_parentOf
    (hOnce : (parents.map Prod.fst).Nodup) :
    LinkChains.Ends (parentOf parents) b ↔
      ¬MeetsCycle parents b := by
  have hFew :
      {rev | parentOf parents rev ≠ none}.Finite := by
    refine (parents.map Prod.fst).finite_toSet.subset
      fun rev hRev => ?_
    obtain ⟨parent, hParent⟩ :=
      Option.ne_none_iff_exists'.mp hRev
    exact List.mem_map.mpr
      ⟨_, (parentOf_iff hOnce).mp hParent, rfl⟩
  rw [ends_iff hFew, Cycles, leads_parentOf hOnce, MeetsCycle]
  simp only [parentOf_iff hOnce]

theorem isAncestorOf_exact
    (hOnce : (parents.map Prod.fst).Nodup)
    (a b : RevisionId) :
    ((∃ answer, Returns (isAncestorOf a b parents) answer) ↔
      PathTo parents b a ∨ ¬MeetsCycle parents b) ∧
    ∀ answer, Returns (isAncestorOf a b parents) answer →
      (answer = true ↔ PathTo parents b a) := by
  rw [← leads_parentOf hOnce, ← ends_parentOf hOnce]
  have hExact (answer : Bool)
      (h : Returns (isAncestorOf a b parents) answer) :
      (answer = true ↔ Leads (parentOf parents) b a) ∧
        (Leads (parentOf parents) b a ∨
          LinkChains.Ends (parentOf parents) b) := by
    obtain ⟨rounds, hRun⟩ := h
    obtain ⟨found, hFound, rfl⟩ := Option.map_eq_some_iff.mp hRun
    cases found with
    | some rev =>
        obtain ⟨hLeads, hStops, -⟩ := search_some hFound
        cases of_decide_eq_true hStops
        exact ⟨iff_of_true rfl hLeads, .inl hLeads⟩
    | none =>
        obtain ⟨hEnds, hNever⟩ := search_none hFound
        exact ⟨iff_of_false Bool.false_ne_true fun hLeads =>
          hNever a hLeads (decide_eq_true rfl), .inr hEnds⟩
  refine ⟨⟨fun ⟨answer, h⟩ => (hExact answer h).2,
    fun h => ?_⟩, fun answer h => (hExact answer h).1⟩
  obtain ⟨last, hLeads, hLast⟩ :
      ∃ last, Leads (parentOf parents) b last ∧
        (parentOf parents last = none ∨
          decide (last = a)) := by
    rcases h with hPath | ⟨last, hLeads, hNone⟩
    · exact ⟨a, hPath, .inr (decide_eq_true rfl)⟩
    · exact ⟨last, hLeads, .inl hNone⟩
  obtain ⟨rounds, found, hFound⟩ :
      ∃ rounds found, ∀ more,
        search (parentOf parents) (· = a) (rounds + more)
          (some b) = some found :=
    search_returns hLeads hLast
  exact ⟨found.isSome, rounds,
    congrArg (Option.map Option.isSome) (hFound 0)⟩

theorem lowestCommonAncestor_exact
    (hOnce : (parents.map Prod.fst).Nodup)
    (a b : RevisionId) :
    ((∃ answer,
        Returns (lowestCommonAncestor a b parents) answer) ↔
      ¬MeetsCycle parents a ∧ ¬MeetsCycle parents b) ∧
    ∀ answer, Returns (lowestCommonAncestor a b parents) answer →
      (answer.isSome ↔
        ∃ rev, IsCommonAncestor parents a b rev) ∧
      ∀ rev, answer = some rev →
        IsCommonAncestor parents a b rev ∧
          ∀ other, IsCommonAncestor parents a b other →
            PathTo parents rev other := by
  simp only [IsCommonAncestor, ← leads_parentOf hOnce,
    ← ends_parentOf hOnce]
  have hExact (answer : Option RevisionId)
      (h : Returns (lowestCommonAncestor a b parents) answer) :
      (LinkChains.Ends (parentOf parents) a ∧
        LinkChains.Ends (parentOf parents) b) ∧
      (answer.isSome ↔ ∃ rev, Leads (parentOf parents) a rev ∧
        Leads (parentOf parents) b rev) ∧
      ∀ rev, answer = some rev →
        (Leads (parentOf parents) a rev ∧
          Leads (parentOf parents) b rev) ∧
        ∀ other, Leads (parentOf parents) a other ∧
          Leads (parentOf parents) b other →
            Leads (parentOf parents) rev other := by
    obtain ⟨rounds, hRun⟩ := h
    obtain ⟨ancestorsA, hGather, hSearch⟩ :=
      Option.bind_eq_some_iff.mp hRun
    obtain ⟨hEndsA, hAbove⟩ := mem_of_gather hGather
    have hMem (rev : RevisionId) :
        ancestorsA.contains rev ↔
          Leads (parentOf parents) a rev := by
      simp [hAbove]
    cases answer with
    | some rev =>
        obtain ⟨hLeads, hStops, hFirst⟩ := search_some hSearch
        have hRev := (hMem rev).mp hStops
        refine ⟨⟨hEndsA, ?_⟩,
          iff_of_true rfl ⟨rev, hRev, hLeads⟩, ?_⟩
        · exact (hEndsA.later hRev).of_leads hLeads
        · rintro found ⟨⟩
          exact ⟨⟨hRev, hLeads⟩, fun other hOther =>
            hFirst other hOther.2 ((hMem other).mpr hOther.1)⟩
    | none =>
        obtain ⟨hEndsB, hNever⟩ := search_none hSearch
        refine ⟨⟨hEndsA, hEndsB⟩, ?_, by simp⟩
        refine iff_of_false Bool.false_ne_true ?_
        rintro ⟨rev, hA, hB⟩
        exact hNever rev hB ((hMem rev).mpr hA)
  refine ⟨⟨fun ⟨answer, h⟩ => (hExact answer h).1,
    fun ⟨hA, last, hLeads, hNone⟩ => ?_⟩,
    fun answer h => (hExact answer h).2⟩
  obtain ⟨first, ancestorsA, hGather⟩ := gather_returns hA []
  obtain ⟨second, found, hSearch⟩ :
      ∃ rounds found, ∀ more,
        search (parentOf parents) ancestorsA.contains
          (rounds + more) (some b) = some found :=
    search_returns hLeads (.inl hNone)
  refine ⟨found, first + second, ?_⟩
  rw [lowestCommonAncestor, hGather second, Nat.add_comm]
  exact hSearch first

/-
  Both walks stop where they meet no cycle, and what they
  answer then is right.
-/
theorem revisionAncestry_exact
    (parents : Parents)
    (hOnce : (parents.map Prod.fst).Nodup)
    (a b : RevisionId) :
    ((∃ answer, Returns (isAncestorOf a b parents) answer) ↔
      PathTo parents b a ∨ ¬MeetsCycle parents b) ∧
    (∀ answer, Returns (isAncestorOf a b parents) answer →
      (answer = true ↔ PathTo parents b a)) ∧
    ((∃ answer,
        Returns (lowestCommonAncestor a b parents) answer) ↔
      ¬MeetsCycle parents a ∧ ¬MeetsCycle parents b) ∧
    ∀ answer, Returns (lowestCommonAncestor a b parents) answer →
      (answer.isSome ↔
        ∃ rev, IsCommonAncestor parents a b rev) ∧
      ∀ rev, answer = some rev →
        IsCommonAncestor parents a b rev ∧
          ∀ other, IsCommonAncestor parents a b other →
            PathTo parents rev other :=
  ⟨(isAncestorOf_exact hOnce a b).1,
    (isAncestorOf_exact hOnce a b).2,
    (lowestCommonAncestor_exact hOnce a b).1,
    (lowestCommonAncestor_exact hOnce a b).2⟩

/- Two revisions with one parent. -/
def forked : Parents := [(3, some 1), (2, some 1), (1, none)]

example : isAncestorOf 1 3 forked 2 = some true := by decide

example :
    lowestCommonAncestor 2 3 forked 3 = some (some 1) := by
  decide

theorem revisionAncestry_exact_forked :
    ((∃ answer, Returns (isAncestorOf 2 3 forked) answer) ↔
      PathTo forked 3 2 ∨ ¬MeetsCycle forked 3) ∧
    (∀ answer, Returns (isAncestorOf 2 3 forked) answer →
      (answer = true ↔ PathTo forked 3 2)) ∧
    ((∃ answer,
        Returns (lowestCommonAncestor 2 3 forked) answer) ↔
      ¬MeetsCycle forked 2 ∧ ¬MeetsCycle forked 3) ∧
    ∀ answer, Returns (lowestCommonAncestor 2 3 forked) answer →
      (answer.isSome ↔ ∃ rev, IsCommonAncestor forked 2 3 rev) ∧
      ∀ rev, answer = some rev →
        IsCommonAncestor forked 2 3 rev ∧
          ∀ other, IsCommonAncestor forked 2 3 other →
            PathTo forked rev other :=
  revisionAncestry_exact forked (by decide) 2 3

/- A revision that is its own parent. -/
def selfParent : Parents := [(1, some 1)]

theorem selfParent_no_answer :
    (selfParent.map Prod.fst).Nodup ∧
      (¬∃ answer, Returns (isAncestorOf 2 1 selfParent) answer) ∧
      ¬∃ answer,
        Returns (lowestCommonAncestor 1 2 selfParent) answer := by
  refine ⟨by decide, ?_, ?_⟩
  · rintro ⟨answer, rounds, h⟩
    have hOn :
        search (parentOf selfParent) (· = 2) rounds (some 1) =
          none := by
      clear h
      induction rounds with
      | zero => rfl
      | succ rounds ih => exact ih
    rw [isAncestorOf, hOn] at h
    cases h
  · rintro ⟨answer, rounds, h⟩
    have hOn (passed : List RevisionId) :
        gather (parentOf selfParent) rounds (some 1) passed =
          none := by
      clear h
      induction rounds generalizing passed with
      | zero => rfl
      | succ rounds ih => exact ih (passed ++ [1])
    rw [lowestCommonAncestor, hOn []] at h
    cases h

end RevisionGraph

end S4Drive

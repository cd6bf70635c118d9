import Mathlib.Data.Fintype.Pigeonhole
import Mathlib.Logic.Relation

/-
  Chains of links, each from one thing to at most one other.
  Two loops follow a chain: one gathers what it passes, the
  other stops at the first thing of a kind. Neither keeps in
  mind what it has passed, so in a round they go on for ever;
  where few things have a link, a chain ends unless it comes
  to a round.

  Main declarations:
    * `Leads`, `Ends`, `Cycles`, `ends_iff`
    * `gather`, `gather_returns`, `mem_of_gather`
    * `search`, `search_some`, `search_none`
    * `search_returns`, `search_returns_of_leads`
-/

------------------------------------------------------------
-- Chains
------------------------------------------------------------

namespace LinkChains

variable {α : Type}

/- Over any number of links, or none. -/
def Leads (next : α → Option α) : α → α → Prop :=
  Relation.ReflTransGen fun x y => next x = some y

def Ends (next : α → Option α) (x : α) : Prop :=
  ∃ last, Leads next x last ∧ next last = none

/- The chain comes to something that it leads back to. -/
def Cycles (next : α → Option α) (x : α) : Prop :=
  ∃ y z, Leads next x y ∧ next y = some z ∧ Leads next z y

variable {next : α → Option α} {x y z : α}

theorem Leads.cases
    (h : Leads next x y) :
    x = y ∨ ∃ z, next x = some z ∧ Leads next z y :=
  Relation.ReflTransGen.cases_head h

theorem Leads.head
    (hLink : next x = some y)
    (h : Leads next y z) : Leads next x z :=
  Relation.ReflTransGen.head hLink h

theorem Leads.trans
    (h : Leads next x y)
    (h' : Leads next y z) : Leads next x z :=
  Relation.ReflTransGen.trans h h'

/- Beyond the first thing there is one chain only. -/
theorem Leads.of_link
    (h : Leads next x z)
    (hLink : next x = some y)
    (hOther : x ≠ z) : Leads next y z := by
  rcases h.cases with hSame | ⟨y', hLink', hRest⟩
  · exact absurd hSame hOther
  · rw [hLink] at hLink'
    cases hLink'
    exact hRest

theorem Ends.of_leads
    (h : Ends next y)
    (hLeads : Leads next x y) : Ends next x := by
  obtain ⟨last, hLast, hNone⟩ := h
  exact ⟨last, hLeads.trans hLast, hNone⟩

/- Of two things on a chain one comes first. -/
theorem Leads.total
    (hy : Leads next x y)
    (hz : Leads next x z) : Leads next y z ∨ Leads next z y :=
  Relation.ReflTransGen.total_of_right_unique
    (fun _ _ _ hb hc => Option.some.inj (hb.symm.trans hc)) hy hz

theorem Ends.later
    (h : Ends next x)
    (hLeads : Leads next x y) : Ends next y := by
  obtain ⟨last, hLast, hNone⟩ := h
  rcases hLeads.total hLast with hBefore | hAfter
  · exact ⟨last, hBefore, hNone⟩
  · rcases hAfter.cases with rfl | ⟨z, hz, -⟩
    · exact ⟨last, .refl, hNone⟩
    · rw [hNone] at hz
      cases hz

/- What is on a round leads back to where it is come to. -/
theorem Cycles.not_ends
    (h : Cycles next x) : ¬Ends next x := by
  obtain ⟨y, z, hLeads, hLink, hBack⟩ := h
  have hAround (w : α) (hw : Leads next y w) :
      Leads next w y := by
    induction hw with
    | refl => exact .refl
    | tail hBefore hNext ih =>
        rename_i v w
        by_cases hSame : v = y
        · rw [hSame, hLink] at hNext
          cases hNext
          exact hBack
        · exact Leads.of_link ih hNext hSame
  intro hEnds
  obtain ⟨last, hLast, hNone⟩ := hEnds.later hLeads
  rcases (hAround last hLast).cases with rfl | ⟨w, hOn, -⟩
  · rw [hNone] at hLink
    cases hLink
  · rw [hNone] at hOn
    cases hOn

/- The chain, link by link. -/
def walk (next : α → Option α) (x : α) : Nat → Option α
  | 0 => some x
  | n + 1 => (walk next x n).bind next

theorem leads_walk
    {m n : Nat}
    (hy : walk next x m = some y)
    (hz : walk next x (m + n) = some z) : Leads next y z := by
  induction n generalizing z with
  | zero =>
      rw [Nat.add_zero, hy] at hz
      cases hz
      exact .refl
  | succ n ih =>
      obtain ⟨w, hw, hLink⟩ := Option.bind_eq_some_iff.mp hz
      exact (ih hw).tail hLink

theorem leads_of_walk
    {n : Nat}
    (hy : walk next x n = some y) : Leads next x y :=
  leads_walk (m := 0) rfl ((Nat.zero_add n).symm ▸ hy)

/- Where few things have a link, a chain ends or cycles. -/
theorem ends_iff
    (few : {x | next x ≠ none}.Finite)
    (x : α) : Ends next x ↔ ¬Cycles next x := by
  refine ⟨fun hEnds hCycles => hCycles.not_ends hEnds,
    fun hNone => ?_⟩
  by_contra hEndless
  have hWalk (n : Nat) :
      ∃ y, walk next x n = some y ∧ next y ≠ none := by
    induction n with
    | zero =>
        exact ⟨x, rfl, fun hLast => hEndless ⟨x, .refl, hLast⟩⟩
    | succ n ih =>
        obtain ⟨y, hy, hLink⟩ := ih
        obtain ⟨z, hz⟩ := Option.ne_none_iff_exists'.mp hLink
        have hThere : walk next x (n + 1) = some z := by
          rw [walk, hy]
          exact hz
        exact ⟨z, hThere, fun hLast =>
          hEndless ⟨z, leads_of_walk hThere, hLast⟩⟩
  choose walked hAt hLink using hWalk
  have : Finite {x | next x ≠ none} := few
  obtain ⟨m, n, hOther, hSame⟩ :=
    Finite.exists_ne_map_eq_of_infinite
      fun n => (⟨walked n, hLink n⟩ : {x | next x ≠ none})
  have hAgain (m n : Nat) (hLess : m < n)
      (hSame : walked m = walked n) : Cycles next x := by
    obtain ⟨k, rfl⟩ := Nat.exists_eq_add_of_lt hLess
    obtain ⟨z, hz⟩ := Option.ne_none_iff_exists'.mp (hLink m)
    have hThere : walk next x (m + 1) = some z := by
      rw [walk, hAt m]
      exact hz
    refine ⟨walked m, z, leads_of_walk (hAt m), hz, ?_⟩
    have hLater :
        walk next x (m + 1 + k) = some (walked m) := by
      rw [Nat.add_right_comm m 1 k, hSame]
      exact hAt _
    exact leads_walk hThere hLater
  rcases Nat.lt_or_gt_of_ne hOther with hLess | hLess
  · exact hNone (hAgain m n hLess (congrArg Subtype.val hSame))
  · exact hNone (hAgain n m hLess
      (congrArg Subtype.val hSame).symm)

------------------------------------------------------------
-- Loops
------------------------------------------------------------

/- `none` where the loop is not done after so many rounds. -/
def gather
    (next : α → Option α) :
    Nat → Option α → List α → Option (List α)
  | _, none, passed => some passed
  | 0, some _, _ => none
  | rounds + 1, some x, passed =>
      gather next rounds (next x) (passed ++ [x])

/- The first thing to stop at; inside, `none` at the end. -/
def search
    (next : α → Option α)
    (stops : α → Bool) :
    Nat → Option α → Option (Option α)
  | _, none => some none
  | 0, some _ => none
  | rounds + 1, some x =>
      if stops x then
        some (some x)
      else
        search next stops rounds (next x)

variable {stops : α → Bool} {rounds : Nat} {passed all : List α}

@[simp]
theorem gather_end :
    gather next rounds none passed = some passed := by
  cases rounds <;> rfl

@[simp]
theorem search_end :
    search next stops rounds none = some none := by
  cases rounds <;> rfl

theorem mem_of_gather
    (h : gather next rounds (some x) passed = some all) :
    Ends next x ∧ ∀ y, y ∈ all ↔ y ∈ passed ∨ Leads next x y := by
  induction rounds generalizing x passed with
  | zero => cases h
  | succ rounds ih =>
      rw [gather] at h
      cases hLink : next x with
      | none =>
          rw [hLink, gather_end] at h
          cases h
          refine ⟨⟨x, .refl, hLink⟩, fun y => ?_⟩
          have hHere : Leads next x y ↔ y = x := by
            refine ⟨fun hLeads => ?_, fun hSame => hSame ▸ .refl⟩
            rcases hLeads.cases with rfl | ⟨z, hz, -⟩
            · rfl
            · rw [hLink] at hz
              cases hz
          simp [hHere]
      | some z =>
          rw [hLink] at h
          obtain ⟨hEnds, hAll⟩ := ih h
          refine ⟨hEnds.of_leads (.head hLink .refl),
            fun y => ?_⟩
          have hFrom :
              Leads next x y ↔ y = x ∨ Leads next z y := by
            constructor
            · intro hLeads
              rcases hLeads.cases with rfl | ⟨z', hz', hRest⟩
              · exact .inl rfl
              · rw [hLink] at hz'
                cases hz'
                exact .inr hRest
            · rintro (rfl | hRest)
              · exact .refl
              · exact .head hLink hRest
          rw [hAll, hFrom, List.mem_append, List.mem_singleton,
            or_assoc]

theorem gather_returns
    (h : Ends next x)
    (passed : List α) :
    ∃ rounds all, ∀ more,
      gather next (rounds + more) (some x) passed = some all := by
  obtain ⟨last, hLeads, hNone⟩ := h
  induction hLeads using Relation.ReflTransGen.head_induction_on
      generalizing passed with
  | refl =>
      refine ⟨1, passed ++ [last], fun more => ?_⟩
      rw [Nat.add_comm, gather, hNone, gather_end]
  | head hLink _ ih =>
      obtain ⟨rounds, all, hAll⟩ := ih (passed ++ [_])
      refine ⟨rounds + 1, all, fun more => ?_⟩
      rw [Nat.add_right_comm, gather, hLink]
      exact hAll more

/- Every other thing to stop at comes later. -/
theorem search_some
    (h : search next stops rounds (some x) = some (some y)) :
    Leads next x y ∧ stops y ∧
      ∀ z, Leads next x z → stops z → Leads next y z := by
  induction rounds generalizing x with
  | zero => cases h
  | succ rounds ih =>
      rw [search] at h
      split at h
      · rename_i hStops
        cases h
        exact ⟨.refl, hStops, fun z hz _ => hz⟩
      · rename_i hOn
        cases hLink : next x with
        | none =>
            rw [hLink, search_end] at h
            cases h
        | some w =>
            rw [hLink] at h
            obtain ⟨hLeads, hStops, hFirst⟩ := ih h
            refine ⟨.head hLink hLeads, hStops,
              fun z hz hStop => hFirst z (hz.of_link hLink ?_)
                hStop⟩
            rintro rfl
            exact hOn hStop

theorem search_none
    (h : search next stops rounds (some x) = some none) :
    Ends next x ∧ ∀ z, Leads next x z → ¬stops z := by
  induction rounds generalizing x with
  | zero => cases h
  | succ rounds ih =>
      rw [search] at h
      split at h
      · cases h
      · rename_i hOn
        cases hLink : next x with
        | none =>
            refine ⟨⟨x, .refl, hLink⟩, fun z hz => ?_⟩
            rcases hz.cases with rfl | ⟨w, hw, -⟩
            · exact hOn
            · rw [hLink] at hw
              cases hw
        | some w =>
            rw [hLink] at h
            obtain ⟨hEnds, hNone⟩ := ih h
            refine ⟨hEnds.of_leads (.head hLink .refl),
              fun z hz => ?_⟩
            by_cases hSame : x = z
            · exact hSame ▸ hOn
            · exact hNone z (hz.of_link hLink hSame)

/- To the end of a chain, or to where it may stop. -/
theorem search_returns
    {last : α}
    (hLeads : Leads next x last)
    (hLast : next last = none ∨ stops last) :
    ∃ rounds found, ∀ more,
      search next stops (rounds + more) (some x) =
        some found := by
  induction hLeads using
      Relation.ReflTransGen.head_induction_on with
  | refl =>
      by_cases hStops : stops last
      · refine ⟨1, some last, fun more => ?_⟩
        rw [Nat.add_comm, search, if_pos hStops]
      · refine ⟨1, none, fun more => ?_⟩
        rw [Nat.add_comm, search, if_neg hStops,
          hLast.resolve_right hStops, search_end]
  | @head x y hLink _ ih =>
      by_cases hStops : stops x
      · refine ⟨1, some x, fun more => ?_⟩
        rw [Nat.add_comm, search, if_pos hStops]
      · obtain ⟨rounds, found, hFound⟩ := ih
        refine ⟨rounds + 1, found, fun more => ?_⟩
        rw [Nat.add_right_comm, search, if_neg hStops, hLink]
        exact hFound more

end LinkChains

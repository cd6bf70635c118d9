import Mathlib.Data.Finset.Card
import Mathlib.Data.List.Sort
import Mathlib.Order.Basic

/-
  Listings in pages of keys that are in order. A page has the
  first keys after a position, as many as the one who answers
  likes; it says whether there are more of them.

  Main declarations:
    * `After`, `later`, `IsPage`
    * `IsPage.mem_of_le_last`, `IsPage.mem_of_whole`
    * `ahead`, `ahead_lt`
-/

------------------------------------------------------------
-- Pages
------------------------------------------------------------

namespace PagedListings

variable {κ : Type} [LinearOrder κ]

/- Behind a position; every key is behind the start. -/
def After : Option κ → κ → Prop
  | none, _ => True
  | some p, k => p < k

instance (position : Option κ) :
    DecidablePred (After position) :=
  match position with
  | none => fun _ => isTrue trivial
  | some p => fun k => inferInstanceAs (Decidable (p < k))

def later (store : List κ) (position : Option κ) : List κ :=
  store.filter fun k => After position k

theorem later_none (store : List κ) : later store none = store :=
  List.filter_eq_self.mpr fun _ _ => rfl

theorem later_some (store : List κ) (p : κ) :
    later store (some p) = store.filter fun k => p < k := by
  unfold later
  congr

/- At most `size` keys, and one at least where there is one. -/
structure IsPage
    (store : List κ)
    (position : Option κ)
    (size : Nat)
    (keys : List κ)
    (truncated : Bool) : Prop where
  first : keys <+: later store position
  notMore : keys.length ≤ size
  notNone : truncated → keys ≠ []
  whole : truncated = false → keys = later store position

variable {store keys : List κ} {position : Option κ}
variable {size : Nat} {truncated : Bool} {k last : κ}

theorem IsPage.mem_of_whole
    (h : IsPage store position size keys truncated)
    (hEnd : truncated = false)
    (hMem : k ∈ store)
    (hAfter : After position k) : k ∈ keys := by
  rw [h.whole hEnd]
  exact List.mem_filter.mpr ⟨hMem, decide_eq_true hAfter⟩

theorem IsPage.of_mem
    (h : IsPage store position size keys truncated)
    (hMem : k ∈ keys) : k ∈ store ∧ After position k := by
  obtain ⟨hStore, hAfter⟩ :=
    List.mem_filter.mp (h.first.subset hMem)
  exact ⟨hStore, of_decide_eq_true hAfter⟩

/- Up to its last key a page leaves nothing out. -/
theorem IsPage.mem_of_le_last
    (h : IsPage store position size keys truncated)
    (hSorted : store.Pairwise (· < ·))
    (hLast : keys.getLast? = some last)
    (hMem : k ∈ store)
    (hAfter : After position k)
    (hLess : k ≤ last) : k ∈ keys := by
  obtain ⟨rest, hRest⟩ := h.first
  have hLater : k ∈ keys ++ rest := by
    rw [hRest]
    exact List.mem_filter.mpr ⟨hMem, decide_eq_true hAfter⟩
  have hOrder : (keys ++ rest).Pairwise (· < ·) := by
    rw [hRest]
    exact hSorted.filter _
  rcases List.mem_append.mp hLater with hHere | hBehind
  · exact hHere
  · have hBefore := (List.pairwise_append.mp hOrder).2.2 last
      (List.mem_of_getLast? hLast) k hBehind
    exact absurd hBefore (not_lt_of_ge hLess)

/- How many keys are behind a position. -/
def ahead (all : Finset κ) (position : Option κ) : Nat :=
  (all.filter fun k => After position k).card

/- From each key that is reached on, there are fewer. -/
theorem ahead_lt
    {all : Finset κ}
    (hMem : k ∈ all)
    (hAfter : After position k) :
    ahead all (some k) < ahead all position := by
  refine Finset.card_lt_card
    ⟨fun other hOther => ?_, fun hBack => ?_⟩
  · obtain ⟨hAll, hBehind⟩ := Finset.mem_filter.mp hOther
    refine Finset.mem_filter.mpr ⟨hAll, ?_⟩
    cases position with
    | none => trivial
    | some p => exact lt_trans hAfter hBehind
  · have hSelf := (Finset.mem_filter.mp
      (hBack (Finset.mem_filter.mpr ⟨hMem, hAfter⟩))).2
    exact absurd hSelf (lt_irrefl k)

end PagedListings

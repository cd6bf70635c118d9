import Mathlib.Data.List.AList
import Mathlib.Tactic.Common

/-
  Object stores with conditional writes. An object has an
  ETag that is different for different bodies, so the model
  uses the body itself. A write that was sent is in flight
  for ever: it may be delivered late, more than once, or
  after its sender is gone, and every delivery is atomic.

  Main declarations:
    * `Objects`, `ETag`
    * `Write` and `Write.apply`
    * `Flight`
    * `Store`, `Store.send`, `Store.deliver`
-/

------------------------------------------------------------
-- Objects and Writes
------------------------------------------------------------

namespace ObjectStore

variable {K V ι : Type}

/- The objects of a store by their keys. -/
abbrev Objects (K V : Type) : Type :=
  AList fun _ : K => V

/- An ETag says which body an object has. -/
structure ETag (V : Type) where
  body : V
deriving DecidableEq

/- The writes that a store offers. -/
inductive Write (K V : Type) where
  | put (key : K) (body : V)
  | putIfNotExists (key : K) (body : V)
  | putIfMatch (key : K) (body : V) (expected : ETag V)
  | delete (key : K)
  | deleteIfMatch (key : K) (expected : ETag V)
deriving DecidableEq

namespace Write

/- The object that a write is about. -/
def key : Write K V → K
  | put k _ => k
  | putIfNotExists k _ => k
  | putIfMatch k _ _ => k
  | delete k => k
  | deleteIfMatch k _ => k

/- The body that a write leaves behind, if any. -/
def body : Write K V → Option V
  | put _ v => some v
  | putIfNotExists _ v => some v
  | putIfMatch _ v _ => some v
  | delete _ => none
  | deleteIfMatch _ _ => none

variable [DecidableEq K] [DecidableEq V]

/- Whether the condition of a write is met. -/
def Allowed
    (o : Objects K V) : Write K V → Prop
  | put _ _ => True
  | putIfNotExists k _ => o.lookup k = none
  | putIfMatch k _ e => o.lookup k = some e.body
  | delete _ => True
  | deleteIfMatch k e => o.lookup k = some e.body

instance
    (o : Objects K V) :
    (w : Write K V) → Decidable (w.Allowed o)
  | put _ _ => inferInstanceAs (Decidable True)
  | putIfNotExists k _ =>
      inferInstanceAs (Decidable (o.lookup k = none))
  | putIfMatch k _ e =>
      inferInstanceAs (Decidable (o.lookup k = some e.body))
  | delete _ => inferInstanceAs (Decidable True)
  | deleteIfMatch k e =>
      inferInstanceAs (Decidable (o.lookup k = some e.body))

/- What a write does when its condition is met. -/
def apply
    (o : Objects K V)
    (w : Write K V) : Objects K V :=
  match w.body with
  | some v => o.insert w.key v
  | none => o.erase w.key

omit [DecidableEq V] in
@[simp] theorem lookup_apply_self
    (o : Objects K V)
    (w : Write K V) :
    (w.apply o).lookup w.key = w.body := by
  unfold apply
  cases w.body with
  | some v => exact AList.lookup_insert o
  | none => exact AList.lookup_erase w.key o

omit [DecidableEq V] in
theorem lookup_apply_of_ne
    {o : Objects K V}
    {w : Write K V}
    {k : K}
    (hKey : k ≠ w.key) :
    (w.apply o).lookup k = o.lookup k := by
  unfold apply
  cases w.body with
  | some v => exact AList.lookup_insert_ne hKey
  | none => exact AList.lookup_erase_ne hKey

end Write

------------------------------------------------------------
-- Writes in Flight
------------------------------------------------------------

/-
  A write that was sent, with what the store has made of it
  so far. Its place in the list of flights is its ticket.
-/
structure Flight (K V ι : Type) where
  write : Write K V
  sender : ι
  applied : Bool
  refused : Bool
deriving DecidableEq

/- A store and everything that was ever sent to it. -/
structure Store (K V ι : Type) where
  objects : Objects K V
  flights : List (Flight K V ι)

namespace Store

/- A store without objects that nobody has written to. -/
def empty : Store K V ι where
  objects := ∅
  flights := []

/- Send a write. Nothing happens before it is delivered. -/
def send
    (s : Store K V ι)
    (sender : ι)
    (w : Write K V) : Store K V ι :=
  { s with
    flights := s.flights ++ [⟨w, sender, false, false⟩] }

variable [DecidableEq K] [DecidableEq V]

/- One delivery of the write with the given ticket. -/
def deliver
    (s : Store K V ι)
    (ticket : Nat) : Option (Flight K V ι × Store K V ι) :=
  match s.flights[ticket]? with
  | none => none
  | some f =>
      if f.write.Allowed s.objects then
        some (f,
          ⟨f.write.apply s.objects,
            s.flights.set ticket { f with applied := true }⟩)
      else
        some (f,
          ⟨s.objects,
            s.flights.set ticket { f with refused := true }⟩)

/- The flight with the given ticket was applied. -/
def Applied
    (s : Store K V ι)
    (ticket : Nat) : Prop :=
  ∃ f, s.flights[ticket]? = some f ∧ f.applied = true

/- The flight with the given ticket was refused. -/
def Refused
    (s : Store K V ι)
    (ticket : Nat) : Prop :=
  ∃ f, s.flights[ticket]? = some f ∧ f.refused = true

end Store

/- `f'` is `f` at a later time. -/
structure Flight.Later
    (f f' : Flight K V ι) : Prop where
  write : f'.write = f.write
  sender : f'.sender = f.sender
  applied : f.applied = true → f'.applied = true
  refused : f.refused = true → f'.refused = true

theorem Flight.Later.refl
    (f : Flight K V ι) : f.Later f :=
  ⟨rfl, rfl, id, id⟩

theorem Flight.Later.trans
    {f f' f'' : Flight K V ι}
    (h : f.Later f')
    (h' : f'.Later f'') : f.Later f'' :=
  ⟨h'.write.trans h.write, h'.sender.trans h.sender,
    h'.applied ∘ h.applied, h'.refused ∘ h.refused⟩

/- No flight is forgotten or taken back. -/
def FlightsGrow
    (fs fs' : List (Flight K V ι)) : Prop :=
  ∀ (i : Nat) (f : Flight K V ι), fs[i]? = some f →
    ∃ f' : Flight K V ι, fs'[i]? = some f' ∧ f.Later f'

theorem FlightsGrow.refl
    (fs : List (Flight K V ι)) : FlightsGrow fs fs :=
  fun _ f hf => ⟨f, hf, .refl f⟩

theorem FlightsGrow.trans
    {fs fs' fs'' : List (Flight K V ι)}
    (h : FlightsGrow fs fs')
    (h' : FlightsGrow fs' fs'') : FlightsGrow fs fs'' := by
  intro i f hf
  rcases h i f hf with ⟨f', hf', hLater⟩
  rcases h' i f' hf' with ⟨f'', hf'', hLater'⟩
  exact ⟨f'', hf'', hLater.trans hLater'⟩

theorem flightsGrow_send
    (s : Store K V ι)
    (sender : ι)
    (w : Write K V) :
    FlightsGrow s.flights (s.send sender w).flights := by
  intro i f hf
  refine ⟨f, ?_, .refl f⟩
  have hi := (List.getElem?_eq_some_iff.mp hf).1
  simpa [Store.send, List.getElem?_append_left hi] using hf

theorem flightsGrow_set
    {fs : List (Flight K V ι)}
    {i : Nat}
    {f f' : Flight K V ι}
    (hf : fs[i]? = some f)
    (hLater : f.Later f') :
    FlightsGrow fs (fs.set i f') := by
  intro j g hg
  by_cases hij : i = j
  · subst hij
    rw [hf] at hg
    cases hg
    have hi := (List.getElem?_eq_some_iff.mp hf).1
    exact ⟨f', by simp [hi], hLater⟩
  · exact ⟨g, by simpa [hij] using hg, .refl g⟩

/-
  What one delivery can do: apply the write or refuse it,
  and note it in the flight.
-/
theorem Store.deliver_cases
    [DecidableEq K] [DecidableEq V]
    {s s' : Store K V ι}
    {ticket : Nat}
    {f : Flight K V ι}
    (h : s.deliver ticket = some (f, s')) :
    s.flights[ticket]? = some f ∧
    ((f.write.Allowed s.objects ∧
        s' = ⟨f.write.apply s.objects,
          s.flights.set ticket { f with applied := true }⟩) ∨
      (¬ f.write.Allowed s.objects ∧
        s' = ⟨s.objects,
          s.flights.set ticket
            { f with refused := true }⟩)) := by
  unfold Store.deliver at h
  split at h
  · cases h
  · rename_i g hg
    split at h
    · rename_i hAllowed
      simp only [Option.some.injEq, Prod.mk.injEq] at h
      rcases h with ⟨rfl, rfl⟩
      exact ⟨hg, .inl ⟨hAllowed, rfl⟩⟩
    · rename_i hAllowed
      simp only [Option.some.injEq, Prod.mk.injEq] at h
      rcases h with ⟨rfl, rfl⟩
      exact ⟨hg, .inr ⟨hAllowed, rfl⟩⟩

theorem Store.flightsGrow_deliver
    [DecidableEq K] [DecidableEq V]
    {s s' : Store K V ι}
    {ticket : Nat}
    {f : Flight K V ι}
    (h : s.deliver ticket = some (f, s')) :
    FlightsGrow s.flights s'.flights := by
  rcases Store.deliver_cases h with ⟨hf, ⟨_, rfl⟩ | ⟨_, rfl⟩⟩
  · exact flightsGrow_set hf ⟨rfl, rfl, fun _ => rfl, id⟩
  · exact flightsGrow_set hf ⟨rfl, rfl, id, fun _ => rfl⟩

theorem Store.length_deliver
    [DecidableEq K] [DecidableEq V]
    {s s' : Store K V ι}
    {ticket : Nat}
    {f : Flight K V ι}
    (h : s.deliver ticket = some (f, s')) :
    s'.flights.length = s.flights.length := by
  rcases Store.deliver_cases h with ⟨hf, ⟨_, rfl⟩ | ⟨_, rfl⟩⟩
  · exact List.length_set
  · exact List.length_set

/-
  A flight after a delivery was there before, or it is the
  delivered one with its new note.
-/
theorem Store.mem_deliver
    [DecidableEq K] [DecidableEq V]
    {s s' : Store K V ι}
    {ticket : Nat}
    {f g : Flight K V ι}
    (h : s.deliver ticket = some (f, s'))
    (hg : g ∈ s'.flights) :
    g ∈ s.flights ∨
    (g.write = f.write ∧ g.sender = f.sender ∧
      ((f.write.Allowed s.objects ∧
          g.refused = f.refused) ∨
        (¬ f.write.Allowed s.objects ∧
          g.applied = f.applied))) := by
  rcases Store.deliver_cases h with
    ⟨_, ⟨hAllowed, rfl⟩ | ⟨hRefused, rfl⟩⟩
  · rcases List.mem_or_eq_of_mem_set hg with hg | rfl
    · exact .inl hg
    · exact .inr ⟨rfl, rfl, .inl ⟨hAllowed, rfl⟩⟩
  · rcases List.mem_or_eq_of_mem_set hg with hg | rfl
    · exact .inl hg
    · exact .inr ⟨rfl, rfl, .inr ⟨hRefused, rfl⟩⟩

/- A flight is still there after any growth. -/
theorem FlightsGrow.mem
    {fs fs' : List (Flight K V ι)}
    {f : Flight K V ι}
    (h : FlightsGrow fs fs')
    (hf : f ∈ fs) :
    ∃ f' ∈ fs', f.Later f' := by
  rcases List.mem_iff_getElem?.mp hf with ⟨i, hi⟩
  rcases h i f hi with ⟨f', hf', hLater⟩
  exact ⟨f', List.mem_of_getElem? hf', hLater⟩

/- Without new flights every flight was there before. -/
theorem FlightsGrow.mem_back
    {fs fs' : List (Flight K V ι)}
    {f' : Flight K V ι}
    (h : FlightsGrow fs fs')
    (hLength : fs'.length = fs.length)
    (hf' : f' ∈ fs') :
    ∃ f ∈ fs, f.Later f' := by
  rcases List.mem_iff_getElem?.mp hf' with ⟨i, hi⟩
  have hBound : i < fs.length := by
    rw [← hLength]
    exact (List.getElem?_eq_some_iff.mp hi).1
  rcases h i fs[i] (List.getElem?_eq_getElem hBound) with
    ⟨g, hg, hLater⟩
  rw [hi] at hg
  cases hg
  exact ⟨fs[i], List.getElem_mem hBound, hLater⟩

end ObjectStore

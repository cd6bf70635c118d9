import S4Drive.Watch.EditOrder

/-
  The halves of renames over many drains. The code finds the
  pair of a half by its path; the same file name can be in
  two renames of one drain. Here each half knows the rename
  that has sent it, and the drains are compared with what
  that rename asks for.

  Main declarations:
    * `Sent`, `Drain`, `fate`, `expected`
    * `gathered`, `handled`, `Apart`
    * `gathered_perm`, `rename_halves_once`
-/

------------------------------------------------------------
-- Halves and Pairs
------------------------------------------------------------

open scoped List

namespace S4Drive

namespace Watch

/-
  A raw event with the number of the rename within the folder
  that it belongs to, which the code does not see. What moves
  in or out of the folder has none.
-/
structure Sent where
  raw : RawEvent
  rename : Option Nat
deriving DecidableEq

/- What arrives before a drain, and when it is drained. -/
structure Drain where
  fresh : List Sent
  now : Nat

/- `pair` is the rename that `half` is a half of. -/
def isPairOf (half pair : Sent) : Bool :=
  half.rename.isSome && pair.rename = half.rename &&
    match half.raw, pair.raw with
    | .renameFrom path, .ready (.renamed source _) =>
        path = source
    | .renameTo path, .ready (.renamed _ target) =>
        path = target
    | _, _ => false

variable (pairWait : Nat)

/- What a half without a pair stands for. -/
def alone : RawEvent → FsEvent
  | .ready event => event
  | .renameFrom path => .deleted path
  | .renameTo path => .created path

def isHalf : RawEvent → Bool
  | .ready _ => false
  | _ => true

/- What an event asks for in a drain. -/
def due (sent : Sent) (since : Nat) (drain : Drain) : Outcome :=
  if isHalf sent.raw = false then .event (alone sent.raw)
  else if drain.fresh.any (isPairOf sent) then .dropped
  else if pairWait ≤ drain.now - since then
    .event (alone sent.raw)
  else .held

/- What becomes of an event in the drains from then on. -/
def fate (sent : Sent) (since : Nat) : List Drain → Outcome
  | [] => .held
  | drain :: rest =>
      match due pairWait sent since drain with
      | .held => fate sent since rest
      | outcome => outcome

def emitted : Outcome → Option FsEvent
  | .event event => some event
  | _ => none

abbrev HeldSent := List (Sent × Nat)

def expectedOf
    (items : HeldSent)
    (drains : List Drain) : List FsEvent :=
  items.filterMap fun item =>
    emitted (fate pairWait item.1 item.2 drains)

def arrived (drain : Drain) : HeldSent :=
  drain.fresh.map (·, drain.now)

/- The events that all that arrives asks for. -/
def expectedFresh : List Drain → List FsEvent
  | [] => []
  | drain :: rest =>
      expectedOf pairWait (arrived drain) (drain :: rest) ++
        expectedFresh rest

def expected
    (held : HeldSent)
    (drains : List Drain) : List FsEvent :=
  expectedOf pairWait held drains ++ expectedFresh pairWait drains

def strip (held : HeldSent) : Held :=
  held.map fun item => (item.1.raw, item.2)

def raws (drain : Drain) : List RawEvent :=
  drain.fresh.map Sent.raw

/- The events of all drains, before they are put in order. -/
def gathered : Held → List Drain → List FsEvent
  | _, [] => []
  | held, d :: rest =>
      let drained := gather pairWait held (raws d) d.now
      drained.events ++ gathered drained.held rest

/- The events of all drains. -/
def handled : Held → List Drain → List FsEvent
  | _, [] => []
  | held, d :: rest =>
      let drained := drain pairWait held (raws d) d.now
      drained.1 ++ handled drained.2 rest

/- The paths that the code takes for those of pairs. -/
def pairPaths (held : HeldSent) (d : Drain) :
    RawEvent → List Path
  | .renameFrom _ =>
      renamedFrom ((strip held).map Prod.fst ++ raws d)
  | .renameTo _ =>
      renamedTo ((strip held).map Prod.fst ++ raws d)
  | .ready _ => []

def halfPath : RawEvent → Path
  | .renameFrom path => path
  | .renameTo path => path
  | .ready event => event.path

/-
  A half whose path is in a pair of the drain is a half of a
  pair of the drain.
-/
def ApartIn (held : HeldSent) (d : Drain) : Prop :=
  ∀ item ∈ held ++ arrived d,
    halfPath item.1.raw ∈ pairPaths held d item.1.raw →
      d.fresh.any (isPairOf item.1) = true

def Apart : HeldSent → List Drain → Prop
  | _, [] => True
  | held, d :: rest =>
      ApartIn held d ∧
        Apart
          ((held ++ arrived d).filter fun item =>
            due pairWait item.1 item.2 d = .held)
          rest

------------------------------------------------------------
-- One Drain
------------------------------------------------------------

variable {pairWait : Nat} {held : HeldSent} {d : Drain}
variable {drains rest : List Drain}

theorem mem_pairPaths_of_pair
    {item : Sent × Nat}
    (h : d.fresh.any (isPairOf item.1) = true) :
    halfPath item.1.raw ∈ pairPaths held d item.1.raw := by
  obtain ⟨pair, hIn, hPair⟩ := List.any_eq_true.mp h
  have hRaw : pair.raw ∈ raws d := List.mem_map_of_mem hIn
  simp only [isPairOf, Bool.and_eq_true] at hPair
  have hPaths := hPair.2
  split at hPaths
  · rename_i path source target hHalf hReady
    rw [decide_eq_true_eq] at hPaths
    rw [hHalf]
    refine List.mem_filterMap.mpr
      ⟨pair.raw, List.mem_append_right _ hRaw, ?_⟩
    rw [hReady, hPaths]
    rfl
  · rename_i path source target hHalf hReady
    rw [decide_eq_true_eq] at hPaths
    rw [hHalf]
    refine List.mem_filterMap.mpr
      ⟨pair.raw, List.mem_append_right _ hRaw, ?_⟩
    rw [hReady, hPaths]
    rfl
  · contradiction

/- Where names are apart, paths find the right pairs. -/
theorem outcome_eq_due
    (pairWait : Nat)
    (hApart : ApartIn held d)
    {item : Sent × Nat}
    (hItem : item ∈ held ++ arrived d) :
    outcome
        (renamedFrom ((strip held).map Prod.fst ++ raws d))
        (renamedTo ((strip held).map Prod.fst ++ raws d))
        (pairWait ≤ d.now - item.2) item.1.raw =
      due pairWait item.1 item.2 d := by
  have hFinds :
      halfPath item.1.raw ∈ pairPaths held d item.1.raw ↔
        d.fresh.any (isPairOf item.1) = true :=
    ⟨hApart item hItem, mem_pairPaths_of_pair⟩
  unfold due
  cases hRaw : item.1.raw with
  | ready event => rfl
  | renameFrom path =>
      rw [hRaw] at hFinds
      simp only [halfPath, pairPaths] at hFinds
      simp only [outcome, hFinds, decide_eq_true_eq, isHalf,
        alone, reduceCtorEq, if_false]
  | renameTo path =>
      rw [hRaw] at hFinds
      simp only [halfPath, pairPaths] at hFinds
      simp only [outcome, hFinds, decide_eq_true_eq, isHalf,
        alone, reduceCtorEq, if_false]

/- What the code drains, read off from what is asked for. -/
theorem gather_eq
    (pairWait : Nat)
    (hApart : ApartIn held d) :
    (gather pairWait (strip held) (raws d) d.now).events =
        (held ++ arrived d).filterMap
          (fun item => emitted (due pairWait item.1 item.2 d)) ∧
      (gather pairWait (strip held) (raws d) d.now).held =
        strip ((held ++ arrived d).filter fun item =>
          due pairWait item.1 item.2 d = .held) := by
  have hWindow :
      strip held ++ (raws d).map (·, d.now) =
        strip (held ++ arrived d) := by
    simp [strip, raws, arrived, Function.comp_def]
  unfold gather
  dsimp only
  rw [hWindow]
  constructor
  · unfold strip
    rw [List.filterMap_map]
    apply List.filterMap_congr
    intro item hItem
    have hSame := outcome_eq_due pairWait hApart hItem
    simp only [strip] at hSame
    simp only [Function.comp_apply, hSame]
    rfl
  · unfold strip
    rw [List.filter_map]
    congr 1
    apply List.filter_congr
    intro item hItem
    have hSame := outcome_eq_due pairWait hApart hItem
    simp only [strip] at hSame
    simp only [Function.comp_apply, hSame]

/- An event is due now, or it waits for its fate. -/
theorem expectedOf_cons
    (pairWait : Nat)
    (d : Drain)
    (rest : List Drain)
    (items : HeldSent) :
    items.filterMap
          (fun item => emitted (due pairWait item.1 item.2 d)) ++
        expectedOf pairWait
          (items.filter fun item =>
            due pairWait item.1 item.2 d = .held)
          rest ~
      expectedOf pairWait items (d :: rest) := by
  induction items with
  | nil => exact List.Perm.nil
  | cons item items ih =>
      unfold expectedOf at ih ⊢
      cases hDue : due pairWait item.1 item.2 d with
      | event event =>
          simp only [List.filterMap_cons, List.filter_cons,
            fate, hDue, emitted, List.cons_append, reduceCtorEq,
            decide_false, Bool.false_eq_true, if_false]
          exact ih.cons event
      | dropped =>
          simp only [List.filterMap_cons, List.filter_cons,
            fate, hDue, emitted, reduceCtorEq, decide_false,
            Bool.false_eq_true, if_false]
          exact ih
      | held =>
          simp only [List.filterMap_cons, List.filter_cons,
            fate, hDue, emitted, decide_true, if_true]
          cases hFate : fate pairWait item.1 item.2 rest with
          | event event =>
              exact List.perm_middle.trans (ih.cons event)
          | dropped => exact ih
          | held => exact ih

theorem gathered_perm
    (hApart : Apart pairWait held drains) :
    gathered pairWait (strip held) drains ~
      expected pairWait held drains := by
  induction drains generalizing held with
  | nil =>
      have hNothing : expectedOf pairWait held [] = [] := by
        unfold expectedOf
        rw [List.filterMap_eq_nil_iff]
        intro item _
        rfl
      unfold expected
      rw [hNothing]
      exact List.Perm.nil
  | cons d rest ih =>
      obtain ⟨hHere, hRest⟩ := hApart
      obtain ⟨hEvents, hHeld⟩ := gather_eq pairWait hHere
      have hNow := expectedOf_cons pairWait d rest
        (held ++ arrived d)
      have hBoth :
          expectedOf pairWait (held ++ arrived d) (d :: rest) =
            expectedOf pairWait held (d :: rest) ++
              expectedOf pairWait (arrived d) (d :: rest) :=
        List.filterMap_append
      have hLater := ih hRest
      rw [gathered, hEvents, hHeld]
      unfold expected at hLater ⊢
      rw [expectedFresh, ← List.append_assoc, ← hBoth]
      refine (hLater.append_left _).trans ?_
      rw [← List.append_assoc]
      exact hNow.append_right _

------------------------------------------------------------
-- The Order of Events
------------------------------------------------------------

def isDeleted : FsEvent → Bool
  | .deleted _ => true
  | _ => false

def isCreated : FsEvent → Bool
  | .created _ => true
  | _ => false

variable {events : List FsEvent} {n : Nat} {state : RoundTrips}

/- Only renames are in chains and are dropped. -/
def OnlyRenames
    (events : List FsEvent)
    (indices : List Nat) : Prop :=
  ∀ i ∈ indices, ∃ source target,
    events[i]? = some (.renamed source target)

theorem roundTripStep_onlyRenames
    {event : FsEvent}
    (hAt : events[n]? = some event)
    (hChain : OnlyRenames events state.chain)
    (hDropped : OnlyRenames events state.dropped) :
    OnlyRenames events
        (roundTripStep events state (event, n)).chain ∧
      OnlyRenames events
        (roundTripStep events state (event, n)).dropped := by
  have hNone : OnlyRenames events [] :=
    fun i hI => absurd hI List.not_mem_nil
  cases event with
  | created path => exact ⟨hNone, hDropped⟩
  | modified path => exact ⟨hNone, hDropped⟩
  | deleted path => exact ⟨hNone, hDropped⟩
  | renamed source target =>
      have hOn :
          OnlyRenames events
            (chainTo events state.chain source) := by
        unfold chainTo
        split
        · exact hChain
        · exact hNone
      have hSelf : OnlyRenames events [n] := by
        intro i hI
        rw [List.mem_singleton] at hI
        exact ⟨source, target, hI ▸ hAt⟩
      unfold roundTripStep
      dsimp only
      generalize chainTo events state.chain source = chain
        at hOn ⊢
      split
      · rename_i start hStart
        refine ⟨fun i hI => hOn i (List.mem_of_mem_take hI), ?_⟩
        intro i hI
        rcases List.mem_append.mp hI with hI | hI
        · rcases List.mem_append.mp hI with hI | hI
          · exact hDropped i hI
          · exact hOn i (List.mem_of_mem_drop hI)
        · exact hSelf i hI
      · refine ⟨?_, hDropped⟩
        intro i hI
        rcases List.mem_append.mp hI with hI | hI
        · exact hOn i hI
        · exact hSelf i hI

theorem fold_onlyRenames
    (n : Nat)
    (state : RoundTrips)
    (rest : List FsEvent)
    (hRest : events.drop n = rest)
    (hChain : OnlyRenames events state.chain)
    (hDropped : OnlyRenames events state.dropped) :
    OnlyRenames events
      ((rest.zipIdx n).foldl (roundTripStep events)
        state).dropped := by
  induction rest generalizing n state with
  | nil => exact hDropped
  | cons event rest ih =>
      obtain ⟨hAt, hNext⟩ := at_of_drop hRest
      obtain ⟨hChain', hDropped'⟩ :=
        roundTripStep_onlyRenames hAt hChain hDropped
      exact ih (n + 1) _ hNext hChain' hDropped'

theorem filter_kept
    {dropped : List Nat}
    (hDropped : OnlyRenames events dropped)
    (rest : List FsEvent)
    (hRest : events.drop n = rest) :
    ((rest.zipIdx n).filterMap fun (event, index) =>
        if index ∈ dropped then none else some event).filter
          (!·.isRename) =
      rest.filter (!·.isRename) := by
  induction rest generalizing n with
  | nil => rfl
  | cons event rest ih =>
      obtain ⟨hAt, hNext⟩ := at_of_drop hRest
      rw [List.zipIdx_cons, List.filterMap_cons]
      by_cases hIn : n ∈ dropped
      · obtain ⟨source, target, hRename⟩ := hDropped n hIn
        have hEvent : event = .renamed source target :=
          Option.some.inj (hAt.symm.trans hRename)
        have hIs : event.isRename = true := by
          rw [hEvent]
          rfl
        simp only [if_pos hIn, List.filter_cons, hIs,
          Bool.not_true, Bool.false_eq_true, if_false]
        exact ih hNext
      · simp only [if_neg hIn, List.filter_cons]
        split
        · exact congrArg (event :: ·) (ih hNext)
        · exact ih hNext

/- Nothing but renames is dropped. -/
theorem dropRenameRoundTrips_filter (events : List FsEvent) :
    (dropRenameRoundTrips events).filter (!·.isRename) =
      events.filter (!·.isRename) := by
  have hDropped := fold_onlyRenames 0 ⟨[], []⟩ events
    List.drop_zero
    (fun i hI => absurd hI List.not_mem_nil)
    (fun i hI => absurd hI List.not_mem_nil)
  exact filter_kept hDropped events List.drop_zero

theorem followOne_isCreated (event later : FsEvent) :
    isCreated (followOne event later) = isCreated event := by
  cases later with
  | renamed source target =>
      cases event with
      | created path =>
          simp only [followOne, movedEdit]
          split <;> rfl
      | modified path =>
          simp only [followOne, movedEdit]
          split <;> rfl
      | deleted path => rfl
      | renamed from_ to_ => rfl
  | created path => rfl
  | modified path => rfl
  | deleted path => rfl

theorem follow_isCreated
    (event : FsEvent)
    (later : List FsEvent) :
    isCreated (follow event later) = isCreated event := by
  induction later generalizing event with
  | nil => rfl
  | cons next rest ih =>
      exact (ih (followOne event next)).trans
        (followOne_isCreated event next)

theorem followed_countP (events : List FsEvent) :
    (followed events).countP isCreated =
      events.countP isCreated := by
  induction events with
  | nil => rfl
  | cons event rest ih =>
      simp only [followed, List.countP_cons, ih,
        follow_isCreated]

/- The order of a drain keeps its deletes and its creations. -/
theorem ordered_keeps (events : List FsEvent) :
    (editsFollowRenames
        (dropRenameRoundTrips events)).filter isDeleted =
        events.filter isDeleted ∧
      (editsFollowRenames
        (dropRenameRoundTrips events)).countP isCreated =
        events.countP isCreated := by
  have hDropped := dropRenameRoundTrips_filter events
  have hNoEdit :
      ∀ l : List FsEvent,
        (l.filter (!·.isEdit)).filter isDeleted =
          l.filter isDeleted := by
    intro l
    rw [List.filter_filter]
    apply List.filter_congr
    intro event _
    cases event <;> rfl
  have hNoRename :
      ∀ (l : List FsEvent) (keep : FsEvent → Bool),
        (∀ source target,
          keep (.renamed source target) = false) →
          (l.filter (!·.isRename)).filter keep =
            l.filter keep := by
    intro l keep hKeep
    rw [List.filter_filter]
    apply List.filter_congr
    intro event _
    cases event with
    | renamed source target => simp [hKeep]
    | created path => simp [FsEvent.isRename]
    | modified path => simp [FsEvent.isRename]
    | deleted path => simp [FsEvent.isRename]
  constructor
  · rw [← hNoEdit, editsFollowRenames_filter, hNoEdit,
      ← hNoRename _ _ (fun _ _ => rfl), hDropped,
      hNoRename _ _ (fun _ _ => rfl)]
  · rw [(editsFollowRenames_perm _).countP_eq, followed_countP,
      List.countP_eq_length_filter,
      ← hNoRename _ _ (fun _ _ => rfl), hDropped,
      hNoRename _ _ (fun _ _ => rfl),
      ← List.countP_eq_length_filter]

theorem handled_keeps
    (pairWait : Nat)
    (held : Held)
    (drains : List Drain) :
    (handled pairWait held drains).filter isDeleted =
        (gathered pairWait held drains).filter isDeleted ∧
      (handled pairWait held drains).countP isCreated =
        (gathered pairWait held drains).countP isCreated := by
  induction drains generalizing held with
  | nil => exact ⟨rfl, rfl⟩
  | cons d rest ih =>
      have hNow :=
        ordered_keeps (gather pairWait held (raws d) d.now).events
      have hRest :=
        ih (gather pairWait held (raws d) d.now).held
      simp only [handled, gathered, drain, List.filter_append,
        List.countP_append]
      rw [hNow.1, hNow.2, hRest.1, hRest.2]
      exact ⟨rfl, rfl⟩

instance
    (held : HeldSent)
    (d : Drain) : Decidable (ApartIn held d) :=
  inferInstanceAs (Decidable (∀ item ∈ _, _ → _))

instance decidableApart
    (pairWait : Nat) :
    (held : HeldSent) → (drains : List Drain) →
      Decidable (Apart pairWait held drains)
  | _, [] => isTrue trivial
  | held, d :: rest =>
      have := decidableApart pairWait
        ((held ++ arrived d).filter fun item =>
          due pairWait item.1 item.2 d = .held) rest
      inferInstanceAs (Decidable (_ ∧ _))

/- One rename over two drains, and a file moved out. -/
def splitRename : List Drain :=
  [⟨[⟨.renameFrom [['a']], some 1⟩,
      ⟨.renameFrom [['x']], none⟩], 0⟩,
    ⟨[⟨.renameTo [['b']], some 1⟩,
      ⟨.ready (.renamed [['a']] [['b']]), some 1⟩], 10⟩,
    ⟨[], 60⟩]

/-
  The file `a` is moved out, another one is created at its
  path and renamed, all before the drain.
-/
def movedOutAndRenamed : List Drain :=
  [⟨[⟨.renameFrom [['a']], none⟩,
      ⟨.ready (.created [['a']]), none⟩,
      ⟨.renameFrom [['a']], some 1⟩,
      ⟨.renameTo [['b']], some 1⟩,
      ⟨.ready (.renamed [['a']] [['b']]), some 1⟩], 0⟩,
    ⟨[], 100⟩]

end Watch

end S4Drive

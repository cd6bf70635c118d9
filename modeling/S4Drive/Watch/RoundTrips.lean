import S4Drive.Library.FileMoves
import S4Drive.Library.FileSteps
import S4Drive.Watch.Events

/-
  Renames there and back are dropped before the events are
  handled. What is left can happen in the same folder, and
  the folder ends up the same.

  Main declarations:
    * `Legal`, `Same`
    * `Linked`, `same_of_linked`
    * `TripInv`, `tripInv_step`
    * `dropRenameRoundTrips_preserves`
-/

------------------------------------------------------------
-- Legal Events
------------------------------------------------------------

open FileTree

namespace S4Drive

namespace Watch

/- The source is there and its target is free. -/
def Possible (d : Folder) : FsEvent → Prop
  | .renamed source target =>
      d.files.nodeAt source ≠ none ∧
        d.files.nodeAt target = none
  | _ => True

variable (isFolder : Nat → Bool)

/- Each event can happen, and the folder stays a folder. -/
def Legal : List FsEvent → Folder → Prop
  | [], d => d.files.Rooted
  | event :: rest, d =>
      d.files.Rooted ∧ Possible d event ∧
        Legal rest (d.apply isFolder event)

/- The same files at the same paths. -/
structure Same (d d' : Folder) : Prop where
  created : d'.created = d.created
  nodes : ∀ q, d'.files.nodeAt q = d.files.nodeAt q

variable {isFolder}
variable {d d' d'' : Folder} {event : FsEvent}
variable {events first second : List FsEvent}

theorem Same.refl (d : Folder) : Same d d :=
  ⟨rfl, fun _ => rfl⟩

theorem Same.symm (h : Same d d') : Same d' d :=
  ⟨h.created.symm, fun q => (h.nodes q).symm⟩

theorem Same.trans
    (h : Same d d')
    (h' : Same d' d'') : Same d d'' :=
  ⟨h'.created.trans h.created,
    fun q => (h'.nodes q).trans (h.nodes q)⟩

theorem Same.rooted
    (h : Same d d')
    (hRooted : d.files.Rooted) : d'.files.Rooted := by
  intro p hPresent
  rw [h.nodes] at hPresent
  obtain ⟨hPath, hFolder⟩ := hRooted p hPresent
  refine ⟨hPath, ?_⟩
  unfold Files.hasFolder at hFolder ⊢
  rwa [h.nodes]

theorem Same.apply
    (h : Same d d')
    (event : FsEvent) :
    Same (d.apply isFolder event)
      (d'.apply isFolder event) := by
  cases event with
  | created path =>
      refine ⟨by simp [Folder.apply, h.created], fun q => ?_⟩
      simp [Folder.apply, h.created, h.nodes]
  | modified path => exact h
  | deleted path =>
      refine ⟨h.created, fun q => ?_⟩
      simp [Folder.apply, h.nodes]
  | renamed source target =>
      refine ⟨h.created, fun q => ?_⟩
      simp [Folder.apply, h.nodes]

theorem Same.run
    (h : Same d d')
    (events : List FsEvent) :
    Same (d.run isFolder events) (d'.run isFolder events) := by
  induction events generalizing d d' with
  | nil => exact h
  | cons event rest ih => exact ih (h.apply event)

theorem Same.possible
    (h : Same d d')
    (hPossible : Possible d event) : Possible d' event := by
  cases event with
  | renamed source target =>
      obtain ⟨hSource, hFree⟩ := hPossible
      exact ⟨by rwa [h.nodes], by rwa [h.nodes]⟩
  | _ => trivial

theorem Same.legal
    (h : Same d d')
    (hLegal : Legal isFolder events d) :
    Legal isFolder events d' := by
  induction events generalizing d d' with
  | nil => exact h.rooted hLegal
  | cons event rest ih =>
      obtain ⟨hRooted, hPossible, hRest⟩ := hLegal
      exact ⟨h.rooted hRooted, h.possible hPossible,
        ih (h.apply event) hRest⟩

theorem Legal.rooted
    (h : Legal isFolder events d) : d.files.Rooted := by
  cases events with
  | nil => exact h
  | cons event rest => exact h.1

theorem run_append :
    d.run isFolder (first ++ second) =
      (d.run isFolder first).run isFolder second :=
  List.foldl_append

theorem legal_append :
    Legal isFolder (first ++ second) d ↔
      Legal isFolder first d ∧
        Legal isFolder second (d.run isFolder first) := by
  induction first generalizing d with
  | nil =>
      constructor
      · intro h
        exact ⟨h.rooted, h⟩
      · intro h
        exact h.2
  | cons event rest ih =>
      simp only [List.cons_append, Legal, ih, and_assoc]
      rfl

/- Renames that lead an entry from one path to another. -/
inductive Linked : List FsEvent → Path → Path → Prop
  | nil (path : Path) : Linked [] path path
  | cons {source middle target : Path}
      {rest : List FsEvent}
      (h : Linked rest middle target) :
      Linked (.renamed source middle :: rest) source target

theorem linked_append {start target : Path} :
    Linked (first ++ second) start target ↔
      ∃ middle, Linked first start middle ∧
        Linked second middle target := by
  induction first generalizing start with
  | nil =>
      constructor
      · intro h
        exact ⟨start, .nil start, h⟩
      · rintro ⟨middle, hFirst, hSecond⟩
        cases hFirst
        exact hSecond
  | cons event rest ih =>
      constructor
      · intro h
        cases h with
        | cons h =>
            obtain ⟨middle, hFirst, hSecond⟩ := ih.mp h
            exact ⟨middle, .cons hFirst, hSecond⟩
      · rintro ⟨middle, hFirst, hSecond⟩
        cases hFirst with
        | cons hFirst =>
            exact .cons (ih.mpr ⟨middle, hFirst, hSecond⟩)

/- A legal way of renames moves one entry to its end. -/
theorem moved_of_linked
    {files : Files Text Nat} {start middle target : Path}
    (hRooted : files.Rooted)
    (hMoved : Files.Moved start middle files d.files)
    (hLinked : Linked events middle target)
    (hLegal : Legal isFolder events d) :
    Files.Moved start target files
        (d.run isFolder events).files ∧
      (d.run isFolder events).created = d.created := by
  induction hLinked generalizing d with
  | nil path => exact ⟨hMoved, rfl⟩
  | cons h ih =>
      obtain ⟨hHere, ⟨hSource, hFree⟩, hRest⟩ := hLegal
      have hNext := hMoved.moveTree hRooted hHere hRest.rooted
        hSource hFree
      exact ih hNext hRest

variable {path : Path}

theorem same_of_linked
    (hLinked : Linked events path path)
    (hLegal : Legal isFolder events d) :
    Same d (d.run isFolder events) := by
  obtain ⟨hMoved, hCreated⟩ := moved_of_linked hLegal.rooted
    (Files.Moved.refl path d.files) hLinked hLegal
  exact ⟨hCreated, hMoved.back⟩

/- The events at some indices, and the indices that stay. -/
def pick
    (events : List FsEvent)
    (indices : List Nat) : List FsEvent :=
  indices.filterMap fun i => events[i]?

def kept (n : Nat) (dropped : List Nat) : List Nat :=
  (List.range n).filter fun i => i ∉ dropped

theorem pick_append
    (events : List FsEvent)
    (left right : List Nat) :
    pick events (left ++ right) =
      pick events left ++ pick events right :=
  List.filterMap_append

theorem kept_succ
    {n : Nat} {dropped : List Nat}
    (hBounded : ∀ i ∈ dropped, i < n) :
    kept (n + 1) dropped = kept n dropped ++ [n] := by
  have hNew : n ∉ dropped := fun hIn =>
    absurd (hBounded n hIn) (Nat.lt_irrefl n)
  unfold kept
  rw [List.range_succ, List.filter_append]
  simp [hNew]

/- The newest of the kept ones and the next one are dropped. -/
theorem kept_drop
    {n : Nat} {dropped before chain : List Nat}
    (start : Nat)
    (hKept : kept n dropped = before ++ chain) :
    kept (n + 1) (dropped ++ chain.drop start ++ [n]) =
      before ++ chain.take start := by
  have hNodup : (before ++ chain).Nodup := by
    rw [← hKept]
    exact List.nodup_range.filter _
  have hSplit :
      kept (n + 1) (dropped ++ chain.drop start ++ [n]) =
        (kept n dropped).filter
          fun i => i ∉ chain.drop start := by
    unfold kept
    rw [List.range_succ, List.filter_append, List.filter_filter]
    have hLast :
        [n].filter (fun i =>
          i ∉ dropped ++ chain.drop start ++ [n]) = [] := by
      simp
    rw [hLast, List.append_nil]
    apply List.filter_congr
    intro i hI
    have hBelow : i ≠ n :=
      Nat.ne_of_lt (List.mem_range.mp hI)
    simp [hBelow, not_or, Bool.and_comm]
  rw [hSplit, hKept, List.filter_append]
  have hParts := List.nodup_append.mp hNodup
  have hBefore :
      before.filter (fun i => i ∉ chain.drop start) =
        before := by
    rw [List.filter_eq_self]
    intro i hI
    rw [decide_eq_true_eq]
    intro hIn
    exact hParts.2.2 i hI i (List.mem_of_mem_drop hIn) rfl
  have hChain :
      chain.filter (fun i => i ∉ chain.drop start) =
        chain.take start := by
    have hTwo := List.nodup_append.mp
      ((List.take_append_drop start chain).symm ▸ hParts.2.1)
    have hTake :
        (chain.take start).filter
            (fun i => i ∉ chain.drop start) =
          chain.take start := by
      rw [List.filter_eq_self]
      intro i hI
      rw [decide_eq_true_eq]
      exact fun hIn => hTwo.2.2 i hI i hIn rfl
    have hDrop :
        (chain.drop start).filter
            (fun i => i ∉ chain.drop start) = [] := by
      rw [List.filter_eq_nil_iff]
      intro i hI
      simp [hI]
    calc
      chain.filter (fun i => i ∉ chain.drop start)
      _ = (chain.take start ++ chain.drop start).filter
            (fun i => i ∉ chain.drop start) := by
          rw [List.take_append_drop]
      _ = chain.take start := by
          rw [List.filter_append, hTake, hDrop,
            List.append_nil]
  rw [hBefore, hChain]

theorem eq_of_leadsTo
    {i : Nat}
    (h : leadsTo events path i = true) :
    ∃ source, events[i]? = some (.renamed source path) := by
  unfold leadsTo at h
  split at h
  · rename_i source target hAt
    rw [decide_eq_true_eq] at h
    exact ⟨source, h ▸ hAt⟩
  · contradiction

theorem eq_of_leadsFrom
    {i : Nat}
    (h : leadsFrom events path i = true) :
    ∃ target, events[i]? = some (.renamed path target) := by
  unfold leadsFrom at h
  split at h
  · rename_i source target hAt
    rw [decide_eq_true_eq] at h
    exact ⟨target, h ▸ hAt⟩
  · contradiction

/- The chain is the end of what is kept so far. -/
structure ChainInv
    (events : List FsEvent)
    (n : Nat)
    (dropped chain : List Nat) : Prop where
  newest : ∃ before, kept n dropped = before ++ chain
  linked : ∃ start target, Linked (pick events chain) start target
  bounded : ∀ i ∈ dropped, i < n

/- What a rename of `source` goes on from leads to `source`. -/
theorem chainTo_linked
    {n : Nat} {dropped chain : List Nat}
    (h : ChainInv events n dropped chain)
    (source : Path) :
    (∃ before,
        kept n dropped = before ++ chainTo events chain source) ∧
      ∃ start,
        Linked (pick events (chainTo events chain source)) start
          source := by
  unfold chainTo
  by_cases hOn : chain.getLast?.any (leadsTo events source)
  · rw [if_pos hOn]
    refine ⟨h.newest, ?_⟩
    obtain ⟨start, target, hLinked⟩ := h.linked
    cases hLast : chain.getLast? with
    | none =>
        rw [hLast] at hOn
        contradiction
    | some last =>
        rw [hLast, Option.any_some] at hOn
        obtain ⟨rest, hChain⟩ :=
          List.getLast?_eq_some_iff.mp hLast
        obtain ⟨middle, hAt⟩ := eq_of_leadsTo hOn
        refine ⟨start, ?_⟩
        rw [hChain, pick_append] at hLinked ⊢
        have hEnd :
            pick events [last] = [.renamed middle source] := by
          simp [pick, hAt]
        rw [hEnd] at hLinked ⊢
        obtain ⟨path, hRest, hStep⟩ := linked_append.mp hLinked
        refine linked_append.mpr ⟨path, hRest, ?_⟩
        cases hStep
        exact .cons (.nil source)
  · rw [if_neg hOn]
    exact ⟨⟨kept n dropped, (List.append_nil _).symm⟩,
      source, .nil source⟩

/- A chain that is there and back, with the rename that closes. -/
theorem linked_loop
    {n start : Nat} {chain : List Nat}
    {first source target : Path}
    (hLinked : Linked (pick events chain) first source)
    (hAt : events[n]? = some (.renamed source target))
    (hStart :
      chain.findIdx? (leadsFrom events target) = some start) :
    Linked (pick events (chain.drop start ++ [n])) target
      target := by
  obtain ⟨hIn, hLeads, _⟩ :=
    List.findIdx?_eq_some_iff_getElem.mp hStart
  obtain ⟨next, hFrom⟩ := eq_of_leadsFrom hLeads
  have hSplit := List.take_append_drop start chain
  rw [← hSplit, pick_append] at hLinked
  obtain ⟨middle, _, hDrop⟩ := linked_append.mp hLinked
  have hHead :
      pick events (chain.drop start) =
        .renamed target next ::
          pick events (chain.drop (start + 1)) := by
    unfold pick
    rw [List.drop_eq_getElem_cons hIn,
      List.filterMap_cons_some hFrom]
  have hClose : pick events [n] = [.renamed source target] := by
    simp [pick, hAt]
  have hMiddle : middle = target := by
    rw [hHead] at hDrop
    cases hDrop
    rfl
  subst hMiddle
  rw [pick_append, hClose]
  exact linked_append.mpr ⟨source, hDrop, .cons (.nil middle)⟩

------------------------------------------------------------
-- Steps
------------------------------------------------------------

/- What is kept so far can happen, to the same end. -/
structure TripInv
    (isFolder : Nat → Bool)
    (events : List FsEvent)
    (d : Folder)
    (n : Nat)
    (state : RoundTrips) : Prop
    extends ChainInv events n state.dropped state.chain where
  legal : Legal isFolder (pick events (kept n state.dropped)) d
  same :
    Same (d.run isFolder (pick events (kept n state.dropped)))
      (d.run isFolder (events.take n))

variable {n : Nat} {state : RoundTrips} {dropped chain : List Nat}

theorem take_succ_of_at
    (hAt : events[n]? = some event) :
    events.take (n + 1) = events.take n ++ [event] := by
  rw [List.take_add_one, hAt]
  rfl

/- The next event can happen after those that are kept. -/
theorem TripInv.legal_next
    (h : TripInv isFolder events d n state)
    (hLegal : Legal isFolder events d)
    (hAt : events[n]? = some event) :
    Legal isFolder
        (pick events (kept n state.dropped) ++ [event]) d ∧
      Same
        (d.run isFolder
          (pick events (kept n state.dropped) ++ [event]))
        (d.run isFolder (events.take (n + 1))) := by
  have hSplit := List.take_append_drop (n + 1) events
  rw [← hSplit, take_succ_of_at hAt, legal_append,
    legal_append] at hLegal
  obtain ⟨⟨_, hEvent⟩, _⟩ := hLegal
  constructor
  · rw [legal_append]
    exact ⟨h.legal, h.same.symm.legal hEvent⟩
  · rw [take_succ_of_at hAt, run_append, run_append]
    exact h.same.run [event]

/- The event is kept, at the end of a chain that it links to. -/
theorem TripInv.keep
    (h : TripInv isFolder events d n state)
    (hLegal : Legal isFolder events d)
    (hAt : events[n]? = some event)
    (hNewest :
      ∃ before,
        kept (n + 1) state.dropped = before ++ chain)
    (hLinked :
      ∃ start target, Linked (pick events chain) start target) :
    TripInv isFolder events d (n + 1)
      { state with chain := chain } := by
  have hNext := h.legal_next hLegal hAt
  have hPick :
      pick events (kept (n + 1) state.dropped) =
        pick events (kept n state.dropped) ++ [event] := by
    rw [kept_succ h.bounded, pick_append]
    simp [pick, hAt]
  rw [← hPick] at hNext
  exact
    { newest := hNewest
      linked := hLinked
      bounded := fun i hI => Nat.lt_succ_of_lt (h.bounded i hI)
      legal := hNext.1
      same := hNext.2 }

/- The chain and the event are dropped: there and back. -/
theorem TripInv.dropLoop
    {before : List Nat} {start : Nat}
    (h : TripInv isFolder events d n state)
    (hLegal : Legal isFolder events d)
    (hAt : events[n]? = some event)
    (hNewest : kept n state.dropped = before ++ chain)
    (hStart :
      ∃ first target,
        Linked (pick events (chain.take start)) first target)
    (hLoop :
      Linked (pick events (chain.drop start ++ [n])) path path) :
    TripInv isFolder events d (n + 1)
      { chain := chain.take start
        dropped :=
          state.dropped ++ chain.drop start ++ [n] } := by
  obtain ⟨hAll, hSame⟩ := h.legal_next hLegal hAt
  have hKept := kept_drop start hNewest
  have hEvent : pick events [n] = [event] := by
    simp [pick, hAt]
  have hParts :
      pick events (kept n state.dropped) ++ [event] =
        pick events (before ++ chain.take start) ++
          pick events (chain.drop start ++ [n]) := by
    have hChain := List.take_append_drop start chain
    rw [hNewest, ← hEvent, ← pick_append, ← pick_append]
    congr 1
    calc
      before ++ chain ++ [n]
      _ = before ++ (chain.take start ++ chain.drop start) ++
            [n] := by rw [hChain]
      _ = before ++ chain.take start ++
            (chain.drop start ++ [n]) := by
          simp only [List.append_assoc]
  rw [hParts] at hAll hSame
  obtain ⟨hFirst, hSecond⟩ := legal_append.mp hAll
  rw [run_append] at hSame
  have hBack := same_of_linked hLoop hSecond
  refine
    { newest := ⟨before, hKept⟩
      linked := hStart
      bounded := ?_
      legal := ?_
      same := ?_ }
  · intro i hI
    rw [List.mem_append, List.mem_append,
      List.mem_singleton] at hI
    rcases hI with (hI | hI) | hI
    · exact Nat.lt_succ_of_lt (h.bounded i hI)
    · have hIn : i ∈ kept n state.dropped := by
        rw [hNewest]
        exact List.mem_append_right before
          (List.mem_of_mem_drop hI)
      have hBelow :=
        List.mem_range.mp (List.mem_filter.mp hIn).1
      exact Nat.lt_succ_of_lt hBelow
    · omega
  · rw [hKept]
    exact hFirst
  · rw [hKept]
    exact hBack.trans hSame

/- What one event does to the chain and to what is dropped. -/
theorem tripInv_step
    (h : TripInv isFolder events d n state)
    (hLegal : Legal isFolder events d)
    (hAt : events[n]? = some event) :
    TripInv isFolder events d (n + 1)
      (roundTripStep events state (event, n)) := by
  have hEvent : pick events [n] = [event] := by
    simp [pick, hAt]
  have hNew := kept_succ h.bounded
  have hAlone :
      ∃ before,
        kept (n + 1) state.dropped = before ++ ([] : List Nat) :=
    ⟨_, (List.append_nil _).symm⟩
  cases event with
  | created path =>
      exact h.keep hLegal hAt hAlone ⟨[], [], .nil []⟩
  | modified path =>
      exact h.keep hLegal hAt hAlone ⟨[], [], .nil []⟩
  | deleted path =>
      exact h.keep hLegal hAt hAlone ⟨[], [], .nil []⟩
  | renamed source target =>
      obtain ⟨⟨before, hNewest⟩, first, hLinked⟩ :=
        chainTo_linked h.toChainInv source
      unfold roundTripStep
      dsimp only
      generalize chainTo events state.chain source = chain
        at hNewest hLinked ⊢
      cases hStart :
          chain.findIdx? (leadsFrom events target) with
      | none =>
          apply h.keep hLegal hAt
          · refine ⟨before, ?_⟩
            rw [hNew, hNewest, List.append_assoc]
          · refine ⟨first, target, ?_⟩
            rw [pick_append, hEvent]
            exact linked_append.mpr
              ⟨source, hLinked, .cons (.nil target)⟩
      | some start =>
          apply h.dropLoop hLegal hAt hNewest
          · rw [← List.take_append_drop start chain,
              pick_append] at hLinked
            obtain ⟨middle, hTake, _⟩ :=
              linked_append.mp hLinked
            exact ⟨first, middle, hTake⟩
          · exact linked_loop hLinked hAt hStart

theorem at_of_drop
    {rest : List FsEvent}
    (hRest : events.drop n = event :: rest) :
    events[n]? = some event ∧ events.drop (n + 1) = rest := by
  constructor
  · rw [← List.head?_drop, hRest]
    rfl
  · rw [← List.tail_drop, hRest]
    rfl

/- The loop of the search, from some index on. -/
theorem tripInv_fold
    (hLegal : Legal isFolder events d)
    (rest : List FsEvent)
    (hRest : events.drop n = rest)
    (h : TripInv isFolder events d n state) :
    TripInv isFolder events d (n + rest.length)
      ((rest.zipIdx n).foldl (roundTripStep events) state) := by
  induction rest generalizing n state with
  | nil => exact h
  | cons event rest ih =>
      obtain ⟨hAt, hNext⟩ := at_of_drop hRest
      have hStep := ih hNext (tripInv_step h hLegal hAt)
      rw [List.length_cons, Nat.add_comm rest.length 1,
        ← Nat.add_assoc]
      exact hStep

theorem filterMap_zipIdx_drop
    (dropped : List Nat)
    (rest : List FsEvent)
    (hRest : events.drop n = rest) :
    ((rest.zipIdx n).filterMap fun (event, index) =>
        if index ∈ dropped then none else some event) =
      pick events
        ((List.range' n rest.length).filter
          fun i => i ∉ dropped) := by
  induction rest generalizing n with
  | nil => rfl
  | cons event rest ih =>
      obtain ⟨hAt, hNext⟩ := at_of_drop hRest
      rw [List.zipIdx_cons, List.length_cons, List.range'_succ]
      by_cases hIn : n ∈ dropped
      · simp [hIn, ih hNext]
      · simp [hIn, ih hNext, pick, hAt]

/- Both ways to leave out indices. -/
theorem filterMap_zipIdx
    (events : List FsEvent)
    (dropped : List Nat) :
    (events.zipIdx.filterMap fun (event, index) =>
        if index ∈ dropped then none else some event) =
      pick events (kept events.length dropped) := by
  rw [filterMap_zipIdx_drop dropped events List.drop_zero, kept,
    List.range_eq_range']

/-
  What is left when round trips are dropped can happen in the
  same folder and leaves the same files at the same paths.
-/
theorem dropRenameRoundTrips_preserves
    (hLegal : Legal isFolder events d) :
    Legal isFolder (dropRenameRoundTrips events) d ∧
      ∀ path,
        (d.run isFolder
            (dropRenameRoundTrips events)).files.nodeAt path =
          (d.run isFolder events).files.nodeAt path := by
  have hStart : TripInv isFolder events d 0 ⟨[], []⟩ :=
    { newest := ⟨[], rfl⟩
      linked := ⟨[], [], .nil []⟩
      bounded := fun i hI => absurd hI List.not_mem_nil
      legal := hLegal.rooted
      same := Same.refl d }
  have hEnd := tripInv_fold hLegal events rfl hStart
  rw [Nat.zero_add] at hEnd
  have hLegalEnd := hEnd.legal
  have hSame := hEnd.same
  rw [List.take_length] at hSame
  unfold dropRenameRoundTrips
  rw [filterMap_zipIdx]
  exact ⟨hLegalEnd, fun path => (hSame.nodes path).symm⟩

/- One file, renamed twice, then one step back and edited. -/
def oneFile : Folder :=
  ⟨⟨[([['a']], .file 0)]⟩, 1⟩

def nestedTrip : List FsEvent :=
  [.renamed [['a']] [['b']], .renamed [['b']] [['c']],
    .renamed [['c']] [['b']], .modified [['b']]]

example :
    dropRenameRoundTrips nestedTrip =
      [.renamed [['a']] [['b']], .modified [['b']]] := by
  decide

theorem legal_nestedTrip :
    Legal (fun _ => false) nestedTrip oneFile := by
  have hRooted :
      ∀ name : Text, (⟨[([name], .file 0)]⟩ :
        Files Text Nat).Rooted := by
    intro name
    apply Files.rooted_of_entries
    intro e hE
    rw [List.mem_singleton] at hE
    subst hE
    exact ⟨by simp, Or.inl rfl⟩
  exact ⟨hRooted _, ⟨by decide, by decide⟩, hRooted _,
    ⟨by decide, by decide⟩, hRooted _,
    ⟨by decide, by decide⟩, hRooted _, trivial, hRooted _⟩

theorem nestedTrip_preserved :
    Legal (fun _ => false) (dropRenameRoundTrips nestedTrip)
        oneFile ∧
      ∀ path,
        (oneFile.run (fun _ => false)
            (dropRenameRoundTrips
              nestedTrip)).files.nodeAt path =
          (oneFile.run (fun _ => false)
            nestedTrip).files.nodeAt path :=
  dropRenameRoundTrips_preserves legal_nestedTrip

end Watch

end S4Drive

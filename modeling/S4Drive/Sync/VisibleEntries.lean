import S4Drive.Metadata.CompactionRuns
import S4Drive.Sync.Maintenance

/-
  Which tree entries the engine treats as visible. An entry
  that has a deletion record is judged by the newest
  operation on it that can still be reached in the log, and
  by the entry alone when there is none. So the compactor
  changes the judgement when it removes an operation that
  the search for a Delete has to pass.

  Main declarations:
    * `latestKept`, `isRemotelyDeleted`, `Visible`
    * `HidesNoDelete`
    * `deleteOp_transparent_iff`, `visible_of_deleteRecord`
-/

------------------------------------------------------------
-- The Judgement of an Entry
------------------------------------------------------------

namespace S4Drive

open ObjectStore Concurrency

/- How a search for the newest operation on a file ends. -/
inductive SearchEnd where
  | found (op : Operation)
  -- The chain starts, is cut off, or is too long to follow.
  | absent
  -- An object cannot be read.
  | failed
deriving DecidableEq

/- `searchChain` on objects that nobody changes. -/
def searchFrom
    (o : Objects Key Body)
    (fileId : FileId) : Nat → OpId → SearchEnd
  | 0, _ => .absent
  | rounds + 1, cursor =>
      match o.lookup (.op cursor) with
      | none => .absent
      | some (.operation op) =>
          if op.opId ≠ cursor then
            .failed
          else if op.targetFileId = some fileId then
            .found op
          else
            match op.baseHead with
            | none => .absent
            | some previous =>
                searchFrom o fileId rounds previous
      | some _ => .failed

/- The operations that the search turns to. -/
def searchedFrom
    (o : Objects Key Body)
    (fileId : FileId) : Nat → OpId → List OpId
  | 0, _ => []
  | rounds + 1, cursor =>
      cursor ::
        match o.lookup (.op cursor) with
        | some (.operation op) =>
            if op.opId ≠ cursor then
              []
            else if op.targetFileId = some fileId then
              []
            else
              match op.baseHead with
              | none => []
              | some previous =>
                  searchedFrom o fileId rounds previous
        | _ => []

/- `latestOnTarget` on objects that nobody changes. -/
def latestKept
    (o : Objects Key Body)
    (fileId : FileId) : SearchEnd :=
  match o.lookup .head with
  | none => .absent
  | some (.head (some head)) =>
      searchFrom o fileId maxDurableWalkOps head
  | some _ => .failed

def searchedKept
    (o : Objects Key Body)
    (fileId : FileId) : List OpId :=
  match o.lookup .head with
  | some (.head (some head)) =>
      searchedFrom o fileId maxDurableWalkOps head
  | _ => []

/-
  A deletion record may outlive a newer restore; the log
  decides which is current. `none` when it cannot be read.
-/
def isRemotelyDeleted
    (o : Objects Key Body)
    (fileId : FileId) : Option Bool :=
  match o.lookup (.tombstone fileId) with
  | none => some false
  | some (.tombstone _) =>
      match latestKept o fileId with
      | .found op => some op.effects.deleted
      | .failed => none
      | .absent =>
          match o.lookup (.tree fileId) with
          | none => some true
          | some (.entry entry) => some entry.deletedAt.isSome
          | some _ => none
  | some _ => none

/- The tree lists the file as one that is not deleted. -/
def InTree (o : Objects Key Body) (fileId : FileId) : Prop :=
  ∃ entry, o.lookup (.tree fileId) = some (.entry entry) ∧
    entry.deletedAt = none

/- In the tree, and not judged as deleted from log and record. -/
def Visible (o : Objects Key Body) (fileId : FileId) : Prop :=
  InTree o fileId ∧ isRemotelyDeleted o fileId = some false

def isInTree (o : Objects Key Body) (fileId : FileId) : Bool :=
  match o.lookup (.tree fileId) with
  | some (.entry entry) => entry.deletedAt.isNone
  | _ => false

theorem isInTree_iff
    {o : Objects Key Body} {fileId : FileId} :
    isInTree o fileId = true ↔ InTree o fileId := by
  unfold isInTree InTree
  constructor
  · intro h
    split at h
    · rename_i entry hEntry
      exact ⟨entry, hEntry, Option.isNone_iff_eq_none.mp h⟩
    · cases h
  · rintro ⟨entry, hEntry, hLive⟩
    rw [hEntry]
    exact Option.isNone_iff_eq_none.mpr hLive

instance
    (o : Objects Key Body)
    (fileId : FileId) :
    Decidable (InTree o fileId) :=
  decidable_of_iff _ isInTree_iff

instance
    (o : Objects Key Body)
    (fileId : FileId) :
    Decidable (Visible o fileId) :=
  inferInstanceAs (Decidable (_ ∧ _))

/- The file has a deletion record that can be read. -/
def Recorded
    (o : Objects Key Body)
    (fileId : FileId) : Prop :=
  ∃ tombstone,
    o.lookup (.tombstone fileId) = some (.tombstone tombstone)

/- The search finds no operation or one that does not delete. -/
def SearchEnd.Live : SearchEnd → Prop
  | found op => op.effects.deleted = false
  | absent => True
  | failed => False

/-
  The search of no listed file with a record passes the
  operation on its way to a Delete.
-/
def HidesNoDelete
    (o : Objects Key Body)
    (opId : OpId) : Prop :=
  ∀ fileId, InTree o fileId → Recorded o fileId →
    opId ∈ searchedKept o fileId →
      (latestKept o fileId).Live

------------------------------------------------------------
-- Removed Objects
------------------------------------------------------------

variable {o o' : Objects Key Body}
variable {fileId : FileId} {opId : OpId}

/- The judgement of a listed file. -/
theorem visible_iff
    (hListed : InTree o fileId) :
    Visible o fileId ↔
      o.lookup (.tombstone fileId) = none ∨
        (Recorded o fileId ∧ (latestKept o fileId).Live) := by
  rcases hListed with ⟨entry, hEntry, hLive⟩
  unfold Visible isRemotelyDeleted Recorded
  rw [hEntry]
  constructor
  · rintro ⟨_, hJudged⟩
    split at hJudged
    · left
      assumption
    · rename_i tombstone hRecord
      right
      refine ⟨⟨tombstone, hRecord⟩, ?_⟩
      split at hJudged
      · rename_i op hFound
        rw [hFound]
        exact Option.some.inj hJudged
      · cases hJudged
      · rename_i hAbsent
        rw [hAbsent]
        trivial
    · cases hJudged
  · rintro (hNone | ⟨⟨tombstone, hRecord⟩, hKept⟩)
    · rw [hNone]
      exact ⟨⟨entry, hEntry, hLive⟩, rfl⟩
    · rw [hRecord]
      refine ⟨⟨entry, hEntry, hLive⟩, ?_⟩
      cases hFound : latestKept o fileId with
      | found op =>
          rw [hFound] at hKept
          exact congrArg some hKept
      | absent =>
          dsimp only
          rw [hLive]
          rfl
      | failed =>
          rw [hFound] at hKept
          exact hKept.elim

/- What no judgement of the file depends on may change. -/
theorem visible_congr
    (hTree : o'.lookup (.tree fileId) = o.lookup (.tree fileId))
    (hRecord :
      o'.lookup (.tombstone fileId) =
        o.lookup (.tombstone fileId))
    (hKept : latestKept o' fileId = latestKept o fileId) :
    Visible o' fileId ↔ Visible o fileId := by
  unfold Visible InTree isRemotelyDeleted
  rw [hTree, hRecord, hKept]

theorem searchFrom_congr
    {rounds : Nat} {cursor : OpId}
    (hOps :
      ∀ id ∈ searchedFrom o fileId rounds cursor,
        o'.lookup (.op id) = o.lookup (.op id)) :
    searchFrom o' fileId rounds cursor =
      searchFrom o fileId rounds cursor := by
  induction rounds generalizing cursor with
  | zero => rfl
  | succ rounds ih =>
      unfold searchedFrom at hOps
      have hSame := hOps cursor (List.mem_cons_self ..)
      unfold searchFrom
      rw [hSame]
      split
      · rfl
      · rename_i op hOp
        split
        · rfl
        · rename_i hName
          split
          · rfl
          · rename_i hTarget
            split
            · rfl
            · rename_i previous hBase
              apply ih
              intro id hId
              apply hOps
              rw [hOp]
              simp only [hName, hTarget, hBase, if_false]
              exact List.mem_cons_of_mem _ hId
      · rfl

theorem latestKept_congr
    (hHead : o'.lookup .head = o.lookup .head)
    (hOps :
      ∀ id ∈ searchedKept o fileId,
        o'.lookup (.op id) = o.lookup (.op id)) :
    latestKept o' fileId = latestKept o fileId := by
  unfold searchedKept at hOps
  unfold latestKept
  rw [hHead]
  split
  · rfl
  · rename_i head hFound
    rw [hFound] at hOps
    exact searchFrom_congr hOps
  · rfl

/- A search that comes to a missing operation ends there. -/
theorem searchFrom_cut
    {rounds : Nat} {cursor : OpId}
    (hMem : opId ∈ searchedFrom o fileId rounds cursor)
    (hGone : o'.lookup (.op opId) = none)
    (hOps :
      ∀ id, id ≠ opId →
        o'.lookup (.op id) = o.lookup (.op id)) :
    searchFrom o' fileId rounds cursor = .absent := by
  induction rounds generalizing cursor with
  | zero => rfl
  | succ rounds ih =>
      by_cases hCursor : cursor = opId
      · unfold searchFrom
        rw [hCursor, hGone]
      · unfold searchedFrom at hMem
        unfold searchFrom
        rw [hOps cursor hCursor]
        rcases List.mem_cons.mp hMem with hSame | hMem
        · exact absurd hSame.symm hCursor
        · split at hMem
          · rename_i op hOp
            rw [hOp]
            dsimp only
            split at hMem
            · cases hMem
            · rename_i hName
              split at hMem
              · cases hMem
              · rename_i hTarget
                split at hMem
                · cases hMem
                · rename_i previous hBase
                  simp only [hName, hTarget, if_false]
                  exact ih hMem
          · cases hMem

theorem latestKept_cut
    (hHead : o'.lookup .head = o.lookup .head)
    (hGone : o'.lookup (.op opId) = none)
    (hOps :
      ∀ id, id ≠ opId →
        o'.lookup (.op id) = o.lookup (.op id))
    (hMem : opId ∈ searchedKept o fileId) :
    latestKept o' fileId = .absent := by
  unfold searchedKept at hMem
  unfold latestKept
  rw [hHead]
  split at hMem
  · rename_i head hFound
    rw [hFound]
    exact searchFrom_cut hMem hGone hOps
  · cases hMem

/- The compactor removes an operation. -/
theorem visible_of_deleteOp
    (hTree :
      ∀ id, o'.lookup (.tree id) = o.lookup (.tree id))
    (hRecord :
      ∀ id, o'.lookup (.tombstone id) =
        o.lookup (.tombstone id))
    (hHead : o'.lookup .head = o.lookup .head)
    (hGone : o'.lookup (.op opId) = none)
    (hOps :
      ∀ id, id ≠ opId →
        o'.lookup (.op id) = o.lookup (.op id))
    (hHides : HidesNoDelete o opId)
    (fileId : FileId) :
    Visible o' fileId ↔ Visible o fileId := by
  by_cases hMem : opId ∈ searchedKept o fileId
  · have hCut := latestKept_cut hHead hGone hOps hMem
    have hListed : InTree o' fileId ↔ InTree o fileId := by
      unfold InTree
      rw [hTree]
    by_cases hNow : InTree o fileId
    · rw [visible_iff hNow, visible_iff (hListed.mpr hNow),
        hRecord, hCut]
      unfold Recorded
      rw [hRecord]
      constructor
      · rintro (hNone | ⟨hRecorded, _⟩)
        · exact .inl hNone
        · exact .inr ⟨hRecorded,
            hHides fileId hNow hRecorded hMem⟩
      · rintro (hNone | ⟨hRecorded, _⟩)
        · exact .inl hNone
        · exact .inr ⟨hRecorded, trivial⟩
    · constructor
      · exact fun h => absurd (hListed.mp h.1) hNow
      · exact fun h => absurd h.1 hNow
  · apply visible_congr (hTree fileId) (hRecord fileId)
    apply latestKept_congr hHead
    intro id hId
    apply hOps
    rintro rfl
    exact hMem hId

/- Nothing but such an operation changes the judgement. -/
theorem deleteOp_transparent_iff
    (hTree :
      ∀ id, o'.lookup (.tree id) = o.lookup (.tree id))
    (hRecord :
      ∀ id, o'.lookup (.tombstone id) =
        o.lookup (.tombstone id))
    (hHead : o'.lookup .head = o.lookup .head)
    (hGone : o'.lookup (.op opId) = none)
    (hOps :
      ∀ id, id ≠ opId →
        o'.lookup (.op id) = o.lookup (.op id)) :
    (∀ fileId, Visible o' fileId ↔ Visible o fileId) ↔
      HidesNoDelete o opId := by
  constructor
  · intro hSame fileId hListed hRecorded hMem
    have hCut := latestKept_cut hHead hGone hOps hMem
    have hListed' : InTree o' fileId := by
      unfold InTree
      rw [hTree]
      exact hListed
    have hRecorded' : Recorded o' fileId := by
      unfold Recorded
      rw [hRecord]
      exact hRecorded
    have hLive : (latestKept o' fileId).Live := by
      rw [hCut]
      trivial
    have hVisible :=
      (hSame fileId).mp
        ((visible_iff hListed').mpr (.inr ⟨hRecorded', hLive⟩))
    rcases (visible_iff hListed).mp hVisible with
      hNone | ⟨_, hKept⟩
    · rcases hRecorded with ⟨tombstone, hFound⟩
      rw [hNone] at hFound
      cases hFound
    · exact hKept
  · exact visible_of_deleteOp hTree hRecord hHead hGone hOps

/- The record of a file that is visible anyway is removed. -/
theorem visible_of_deleteRecord
    (hTree :
      ∀ id, o'.lookup (.tree id) = o.lookup (.tree id))
    (hGone : o'.lookup (.tombstone fileId) = none)
    (hVisible : InTree o fileId → Visible o fileId) :
    Visible o' fileId ↔ Visible o fileId := by
  have hListed : InTree o' fileId ↔ InTree o fileId := by
    unfold InTree
    rw [hTree]
  constructor
  · exact fun h => hVisible (hListed.mp h.1)
  · intro h
    have hNow := hListed.mpr h.1
    exact (visible_iff hNow).mpr (.inl hGone)

end S4Drive

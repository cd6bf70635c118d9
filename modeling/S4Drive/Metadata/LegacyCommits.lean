import S4Drive.Library.Outcomes
import S4Drive.Metadata.LogSpecs

/-
  The search for an operation that was committed before
  attempts were kept in a journal. It goes back along the
  chain to an operation of this device that is what the
  request wants, or to one that is older than the request;
  an operation that is both is taken for the request's own.

  Main declarations:
    * `OperationLog.committedLegacy`
    * `Retains`, `Stops`, `Request.Answered`
    * `searchChainWalk_ends`, `searchChainWalk_runs`
    * `committedLegacy_exact_iff`
-/

------------------------------------------------------------
-- The Search
------------------------------------------------------------

namespace S4Drive

open ObjectStore Concurrency ChainLog

/-
  `DateTime::parse_from_rfc3339`: the instant of a timestamp,
  if it can be read.
-/
abbrev ReadTime := Timestamp → Except String Int

namespace OperationLog

/- An operation of the device that does what is wanted. -/
def isWanted
    (device : DeviceId)
    (targetFileId : FileId)
    (opType : OpType)
    (effects : Effects)
    (op : Operation) : Bool :=
  op.deviceId = device && op.targetFileId = some targetFileId &&
    (op.opType, op.effects) = (opType, effects)

/- An operation of the device from before a time. -/
def isBefore
    (readTime : ReadTime)
    (device : DeviceId)
    (since : Int)
    (op : Operation) : Bool :=
  op.deviceId = device &&
    match readTime op.timestamp with
    | .ok time => time < since
    | .error _ => false

/-
  The operation committed before durable journals existed,
  found by its device, target and effects.
-/
def committedLegacy
    (readTime : ReadTime)
    (targetFileId : FileId)
    (opType : OpType)
    (effects : Effects)
    (since : Timestamp) : LogM (Option DurableCommit) := do
  match readTime since with
  | .error reason =>
      Script.throw (.protocol ("intent time: " ++ reason))
  | .ok since =>
      let device := (← Script.get).deviceId
      loadHeadConsistent
      match ← searchChain targetFileId
          (isWanted device targetFileId opType effects)
          (isBefore readTime device since) with
      | .found operation superseded =>
          pure (some ⟨operation, superseded⟩)
      | .absent _ => pure none
      | .ambiguous reason =>
          Script.throw (.conflict
            ("cannot prove whether an earlier change of file " ++
              toString targetFileId ++ " was committed: " ++
              reason))

end OperationLog

------------------------------------------------------------
-- Chains That Are Cut Off
------------------------------------------------------------

namespace LegacyCommits

open OperationLog

/- The chain, newest first, with its newest objects kept. -/
structure Retains
    (chain : List Operation)
    (kept : Nat)
    (w : World) : Prop where
  linked : LogChain chain
  head :
    w.store.objects.lookup .head =
      (headOf chain).map fun id => .head (some id)
  present :
    ∀ op ∈ chain.take kept,
      w.store.objects.lookup (.op op.opId) =
        some (.operation op)
  pruned :
    ∀ op ∈ chain.drop kept,
      w.store.objects.lookup (.op op.opId) = none

/- Others may do what leaves the chain as it is. -/
def Beside
    (chain : List Operation)
    (kept : Nat)
    (w w' : World) : Prop :=
  Retains chain kept w → Retains chain kept w'

variable {chain : List Operation} {kept : Nat}
variable {t : Tid} {v v' : OperationLog} {w w' : World}
variable {key : Key}

theorem Beside.refl (w : World) : Beside chain kept w w := id

theorem Beside.trans
    {w₁ : World}
    (h : Beside chain kept w w₁)
    (h' : Beside chain kept w₁ w') : Beside chain kept w w' :=
  h' ∘ h

theorem Retains.of_objects
    (h : Retains chain kept w)
    (hSame : w'.store.objects = w.store.objects) :
    Retains chain kept w' := by
  rcases h with ⟨hLinked, hHead, hPresent, hPruned⟩
  constructor
  · exact hLinked
  · rw [hSame]
    exact hHead
  · rw [hSame]
    exact hPresent
  · rw [hSame]
    exact hPruned

theorem noteRead_objects (w : World) (t : Tid) (key : Key) :
    (w.noteRead t key).store.objects = w.store.objects := by
  unfold World.noteRead
  split <;> rfl

/- A read is answered from a store that retains the chain. -/
def AnsweredFrom
    (chain : List Operation)
    (kept : Nat)
    (key : Key)
    (r : CoreResult Body) : Prop :=
  ∃ w, Retains chain kept w ∧ Answers w key r

theorem headObject_retains
    {r : CoreResult (ETag Body)}
    (h : Retains chain kept w)
    (hEnds :
      (headObject key).Ends cloud (Beside chain kept) t v w r v'
        w') :
    v' = v ∧ Retains chain kept w' ∧
      AnsweredFrom chain kept key (r.map ETag.body) := by
  cases hEnds with
  | ask others served rest =>
      have hThen := others h
      rcases serve_headObject served with ⟨rfl, hAnswers⟩
      cases rest with
      | done further =>
          exact ⟨rfl, further hThen, _, hThen, hAnswers⟩

theorem getObject_retains
    {r : CoreResult Body}
    (h : Retains chain kept w)
    (hEnds :
      (getObject key).Ends cloud (Beside chain kept) t v w r v'
        w') :
    v' = v ∧ Retains chain kept w' ∧
      AnsweredFrom chain kept key r := by
  cases hEnds with
  | @ask _ _ _ _ _ _ w₁ w₂ _ others served rest =>
      have hThen := others h
      rcases serve_getObject served with ⟨hAnswers, hAfter⟩
      have hNoted : Retains chain kept w₂ := by
        rcases hAfter with rfl | ⟨rfl, _⟩
        · exact hThen.of_objects (noteRead_objects w₁ t key)
        · exact hThen
      cases rest with
      | done further =>
          exact ⟨rfl, further hNoted, w₁, hThen, hAnswers⟩

theorem operation_of_deserialized
    {data : Body} {op : Operation}
    (h : Serializer.deserializeOperation data = .ok op) :
    data = .operation op := by
  cases data <;> cases h
  rfl

theorem readOperation_retains
    {opId : OpId} {r : CoreResult Operation}
    (h : Retains chain kept w)
    (hEnds :
      (readOperation opId).Ends cloud (Beside chain kept) t v w
        r v' w') :
    v' = v ∧ Retains chain kept w' ∧
      ∀ op, r = .ok op →
        ∃ w, Retains chain kept w ∧
          w.store.objects.lookup (.op opId) =
            some (.operation op) := by
  rcases Script.ends_bind_env Beside.refl Beside.trans hEnds
    with ⟨data, v₁, w₁, hGet, hRest⟩ | ⟨e, hGet, rfl⟩
  · rcases getObject_retains h hGet with
      ⟨rfl, hRetains, w₀, h₀, hAnswers⟩
    rcases Script.ends_ofExcept_env hRest with
      ⟨hData, rfl, hLast⟩
    refine ⟨rfl, hLast hRetains, fun op hOk => ⟨w₀, h₀, ?_⟩⟩
    rw [hData] at hOk
    rw [operation_of_deserialized hOk] at hAnswers
    exact hAnswers
  · rcases getObject_retains h hGet with ⟨rfl, hRetains, _⟩
    refine ⟨rfl, hRetains, fun op hOk => ?_⟩
    cases hOk

variable {newer older : List Operation} {op : Operation}

theorem mem_take_of_lt
    (hKept : newer.length < kept) :
    op ∈ (newer ++ op :: older).take kept := by
  rw [List.take_append]
  apply List.mem_append_right
  rw [show kept - newer.length = (kept - newer.length - 1) + 1 by
    omega]
  exact List.mem_cons_self

theorem mem_drop_of_le
    (hKept : kept ≤ newer.length) :
    op ∈ (newer ++ op :: older).drop kept := by
  rw [List.drop_append, Nat.sub_eq_zero_of_le hKept]
  exact List.mem_append_right _ List.mem_cons_self

/- An operation of the chain is read as it is, if it is kept. -/
theorem Retains.of_lookup
    {x : Operation}
    (h : Retains chain kept w)
    (hChain : chain = newer ++ op :: older)
    (hFound :
      w.store.objects.lookup (.op op.opId) =
        some (.operation x)) :
    x = op ∧ newer.length < kept := by
  subst hChain
  by_cases hKept : newer.length < kept
  · have hStored := h.present op (mem_take_of_lt hKept)
    rw [hFound] at hStored
    cases hStored
    exact ⟨rfl, hKept⟩
  · have hGone :=
      h.pruned op (mem_drop_of_le (Nat.le_of_not_lt hKept))
    rw [hFound] at hGone
    cases hGone

------------------------------------------------------------
-- How the Search Stops
------------------------------------------------------------

/- None of the operations ends a search. -/
def Passed
    (isOwn isFloor : Operation → Bool)
    (l : List Operation) : Prop :=
  ∀ x ∈ l, isOwn x = false ∧ isFloor x = false

/-
  What a search of the rest of a chain returns, which reads
  fewer than `limit` operations above the one it finds.
-/
inductive Stops
    (targetFileId : FileId)
    (isOwn isFloor : Operation → Bool) :
    Nat → Option OpId → List Operation → ChainSearch → Prop where
  | found
      {limit : Nat} {foreign : Option OpId}
      {newer older : List Operation} {op : Operation}
      {superseded : Bool}
      (passed : Passed isOwn isFloor newer)
      (within : newer.length < limit)
      (own : isOwn op = true)
      (later :
        superseded = true ↔
          foreign ≠ none ∨
            ∃ x ∈ newer, x.targetFileId = some targetFileId) :
      Stops targetFileId isOwn isFloor limit foreign
        (newer ++ op :: older) (.found op superseded)
  | floor
      {limit : Nat} {foreign last : Option OpId}
      {newer older : List Operation} {op : Operation}
      (passed : Passed isOwn isFloor newer)
      (other : isOwn op = false)
      (below : isFloor op = true) :
      Stops targetFileId isOwn isFloor limit foreign
        (newer ++ op :: older) (.absent last)
  | ended
      {limit : Nat} {foreign last : Option OpId}
      {l : List Operation}
      (passed : Passed isOwn isFloor l) :
      Stops targetFileId isOwn isFloor limit foreign l
        (.absent last)
  | ambiguous
      {limit : Nat} {foreign : Option OpId}
      {l : List Operation} {reason : String} :
      Stops targetFileId isOwn isFloor limit foreign l
        (.ambiguous reason)

variable {targetFileId : FileId}
variable {isOwn isFloor : Operation → Bool}
variable {foreign : Option OpId} {l : List Operation}

theorem Passed.nil : Passed isOwn isFloor [] := by
  intro x hx
  cases hx

theorem Passed.cons
    (hOwn : isOwn op = false)
    (hFloor : isFloor op = false)
    (hRest : Passed isOwn isFloor l) :
    Passed isOwn isFloor (op :: l) := by
  intro x hx
  rcases List.mem_cons.mp hx with rfl | hx
  · exact ⟨hOwn, hFloor⟩
  · exact hRest x hx

/- The operation on the file that a search has seen first. -/
def seen
    (targetFileId : FileId)
    (foreign : Option OpId)
    (op : Operation) : Option OpId :=
  if foreign = none ∧ op.targetFileId = some targetFileId then
    some op.opId
  else
    foreign

theorem seen_ne_none_iff :
    seen targetFileId foreign op ≠ none ↔
      foreign ≠ none ∨ op.targetFileId = some targetFileId := by
  unfold seen
  split
  · rename_i hHere
    simp [hHere.2]
  · rename_i hNot
    cases foreign with
    | none => simpa using fun hTarget => hNot ⟨rfl, hTarget⟩
    | some opId => simp

variable {result : ChainSearch}

/- A search that passes an operation searches what is below. -/
theorem Stops.cons
    {limit : Nat}
    (hOwn : isOwn op = false)
    (hFloor : isFloor op = false)
    (h :
      Stops targetFileId isOwn isFloor limit
        (seen targetFileId foreign op) l result) :
    Stops targetFileId isOwn isFloor (limit + 1) foreign
      (op :: l) result := by
  cases h with
  | found passed within own later =>
      rw [← List.cons_append]
      apply Stops.found (passed.cons hOwn hFloor) _ own
      · rw [later, seen_ne_none_iff, or_assoc]
        simp only [List.mem_cons, exists_eq_or_imp]
      · exact Nat.succ_lt_succ within
  | floor passed other below =>
      rw [← List.cons_append]
      exact .floor (passed.cons hOwn hFloor) other below
  | ended passed => exact .ended (passed.cons hOwn hFloor)
  | ambiguous => exact .ambiguous

theorem searchChainWalk_ends
    {above rest : List Operation} {rounds : Nat}
    (h : Retains chain kept w)
    (hChain : chain = above ++ op :: rest)
    (hEnds :
      (searchChainWalk targetFileId isOwn isFloor rounds foreign
        op.opId).Ends cloud (Beside chain kept) t v w
        (.ok result) v' w') :
    Stops targetFileId isOwn isFloor
      (min rounds (kept - above.length)) foreign (op :: rest)
      result := by
  induction rounds generalizing w v foreign op above rest with
  | zero =>
      cases (Script.ends_pure hEnds).1
      exact .ambiguous
  | succ rounds ih =>
      unfold searchChainWalk at hEnds
      rcases Script.ends_attempt_bind Beside.refl Beside.trans
        hEnds with ⟨found, v₁, w₁, hRead, hEnds⟩
      rcases readOperation_retains h hRead with
        ⟨rfl, h₁, hStored⟩
      cases found with
      | error e =>
          cases e with
          | notFound =>
              cases (Script.ends_pure hEnds).1
              exact .ambiguous
          | _ => cases (Script.ends_throw hEnds).1
      | ok x =>
      rcases hStored x rfl with ⟨w₀, h₀, hFound⟩
      rcases h₀.of_lookup hChain hFound with ⟨rfl, hKept⟩
      have hLimit :
          min (rounds + 1) (kept - above.length) =
            min rounds (kept - (above ++ [x]).length) + 1 := by
        rw [List.length_append, List.length_singleton]
        omega
      rw [hLimit]
      dsimp only at hEnds
      rw [if_neg (not_not.mpr rfl)] at hEnds
      split at hEnds
      case isTrue hOwn =>
        cases (Script.ends_pure hEnds).1
        have hNone : Passed isOwn isFloor [] := .nil
        apply Stops.found hNone
        · exact Nat.succ_pos _
        · exact hOwn
        · simp [Option.isSome_iff_ne_none]
      case isFalse hOwn =>
      rw [Bool.not_eq_true] at hOwn
      split at hEnds
      case isTrue hFloor =>
        cases (Script.ends_pure hEnds).1
        have hNone : Passed isOwn isFloor [] := .nil
        exact .floor hNone hOwn hFloor
      case isFalse hFloor =>
      rw [Bool.not_eq_true] at hFloor
      apply Stops.cons hOwn hFloor
      have hBase : x.baseHead = headOf rest := by
        have hLinked := h.linked
        rw [hChain] at hLinked
        exact hLinked.base_of_append
      rw [hBase] at hEnds
      cases rest with
      | nil =>
          cases (Script.ends_pure hEnds).1
          exact .ended .nil
      | cons next rest =>
          apply ih h₁ _ hEnds
          rw [hChain, List.append_assoc]
          rfl

variable {log log' : OperationLog}

theorem loadHead_retains
    {r : CoreResult (Option OpId)}
    (h : Retains chain kept w)
    (hEnds :
      loadHead.Ends cloud (Beside chain kept) t log w r log'
        w') :
    Retains chain kept w' ∧
      ∀ found, r = .ok found →
        log'.currentHead = headOf chain := by
  unfold loadHead at hEnds
  rcases Script.ends_attempt_bind Beside.refl Beside.trans
    hEnds with ⟨before, v₁, w₁, hHead, hEnds⟩
  rcases headObject_retains h hHead with
    ⟨rfl, h₁, w₀, h₀, hBefore⟩
  cases before with
  | error e =>
      cases e with
      | notFound =>
          have hEmpty : headOf chain = none := by
            have hAnswer := h₀.head
            rw [show w₀.store.objects.lookup .head = none from
              hBefore] at hAnswer
            simpa using hAnswer.symm
          rcases hEnds with ⟨others⟩
          exact ⟨others h₁, fun _ _ => hEmpty.symm⟩
      | _ =>
          rcases hEnds with ⟨others⟩
          refine ⟨others h₁, fun found hOk => ?_⟩
          cases hOk
  | ok before =>
  rcases Script.ends_bind_env Beside.refl Beside.trans hEnds
    with ⟨data, v₂, w₂, hGet, hMore⟩ | ⟨e, hGet, rfl⟩
  case inr =>
    refine ⟨(getObject_retains h₁ hGet).2.1, fun _ hOk => ?_⟩
    cases hOk
  rcases getObject_retains h₁ hGet with
    ⟨rfl, h₂, w₀', h₀', hData⟩
  rcases Script.ends_bind_env Beside.refl Beside.trans hMore
    with ⟨after, v₃, w₃, hHead', hLast⟩ | ⟨e, hHead', rfl⟩
  case inr =>
    refine ⟨(headObject_retains h₂ hHead').2.1,
      fun _ hOk => ?_⟩
    cases hOk
  rcases headObject_retains h₂ hHead' with ⟨rfl, h₃, _⟩
  split at hLast
  case isTrue =>
    rcases hLast with ⟨others⟩
    refine ⟨others h₃, fun _ hOk => ?_⟩
    cases hOk
  case isFalse =>
    have hAnswer := h₀'.head
    rw [show w₀'.store.objects.lookup .head = some data from
      hData] at hAnswer
    rcases hTop : headOf chain with _ | top
    · rw [hTop] at hAnswer
      cases hAnswer
    rw [hTop] at hAnswer
    cases hAnswer
    rcases hLast with ⟨others⟩
    exact ⟨others h₃, fun _ _ => rfl⟩

theorem loadHeadRounds_ends
    {rounds : Nat}
    (h : Retains chain kept w)
    (hEnds :
      (loadHeadRounds rounds).Ends cloud (Beside chain kept) t
        log w (.ok ()) log' w') :
    Retains chain kept w' ∧
      log'.currentHead = headOf chain := by
  induction rounds generalizing log w with
  | zero => cases (Script.ends_throw hEnds).1
  | succ rounds ih =>
      unfold loadHeadRounds at hEnds
      rcases Script.ends_attempt_bind Beside.refl Beside.trans
        hEnds with ⟨found, v₁, w₁, hLoad, hEnds⟩
      rcases loadHead_retains h hLoad with ⟨h₁, hFound⟩
      cases found with
      | ok found =>
          rcases hEnds with ⟨others⟩
          exact ⟨others h₁, hFound found rfl⟩
      | error e =>
          cases e with
          | conflict =>
              dsimp only at hEnds
              split at hEnds
              · cases (Script.ends_throw hEnds).1
              · exact ih h₁ hEnds
          | _ => cases (Script.ends_throw hEnds).1

theorem searchChain_ends
    (h : Retains chain kept w)
    (hHead : log.currentHead = headOf chain)
    (hEnds :
      (searchChain targetFileId isOwn isFloor).Ends cloud
        (Beside chain kept) t log w (.ok result) log' w') :
    Stops targetFileId isOwn isFloor
      (min maxDurableWalkOps kept) none chain result := by
  have hEnds := Script.ends_get_bind hEnds
  rw [hHead] at hEnds
  cases chain with
  | nil =>
      cases (Script.ends_pure hEnds).1
      exact .ended .nil
  | cons op rest =>
      have hTop : op :: rest = [] ++ op :: rest := rfl
      exact searchChainWalk_ends h hTop hEnds

------------------------------------------------------------
-- Searches That Get Their Answers
------------------------------------------------------------

theorem headObject_runs
    {body : Body}
    (hBody : w.store.objects.lookup key = some body) :
    (headObject key).Ends cloud (Beside chain kept) t v w
      (.ok ⟨body⟩) v w := by
  have hServed :
      cloud.serve t (.headObject key) .answer w =
        some (.ok ⟨body⟩, w) := by
    show some ((readObject w key).map ETag.mk, w) = _
    unfold readObject
    rw [hBody]
    rfl
  exact .ask (.refl w) hServed (.done (.refl w))

theorem getObject_runs
    {body : Body}
    (hBody : w.store.objects.lookup key = some body) :
    (getObject key).Ends cloud (Beside chain kept) t v w
      (.ok body) v (w.noteRead t key) := by
  have hServed :
      cloud.serve t (.getObject key) .answer w =
        some (.ok body, w.noteRead t key) := by
    show some (readObject w key, _) = _
    unfold readObject
    rw [hBody]
  exact .ask (.refl w) hServed (.done (.refl _))

theorem loadHeadConsistent_runs
    {head : OpId}
    (log : OperationLog)
    (h : Retains chain kept w)
    (hHead : headOf chain = some head) :
    ∃ w' log', Retains chain kept w' ∧
      log'.currentHead = some head ∧
      loadHeadConsistent.Ends cloud (Beside chain kept) t log w
        (.ok ()) log' w' := by
  have hStored :
      w.store.objects.lookup .head =
        some (.head (some head)) := by
    rw [h.head, hHead]
    rfl
  have hAgain :
      (w.noteRead t .head).store.objects.lookup .head =
        some (.head (some head)) := by
    rw [noteRead_objects]
    exact hStored
  have hLoad :
      loadHead.Ends cloud (Beside chain kept) t log w
        (.ok (some head))
        (setHead (some head) (some ⟨.head (some head)⟩) log)
        (w.noteRead t .head) := by
    unfold loadHead
    refine ((headObject_runs hStored).attempt Beside.refl
      Beside.trans).bind Beside.trans ?_
    refine (getObject_runs hStored).bind Beside.trans ?_
    refine (headObject_runs hAgain).bind Beside.trans ?_
    rw [if_neg (not_not.mpr rfl)]
    exact .done (.refl _)
  refine ⟨w.noteRead t .head,
    setHead (some head) (some ⟨.head (some head)⟩) log,
    h.of_objects (noteRead_objects w t .head), rfl, ?_⟩
  exact (hLoad.attempt Beside.refl Beside.trans).bind
    Beside.trans (.done (.refl _))

theorem headOf_append
    (newer : List Operation)
    (op : Operation)
    (older : List Operation) :
    ∃ next, headOf (newer ++ op :: older) = some next := by
  cases newer with
  | nil => exact ⟨op.opId, rfl⟩
  | cons x newer => exact ⟨x.opId, rfl⟩

/- An operation that is kept can be read. -/
theorem readOperation_runs
    (h : Retains chain kept w)
    (hChain : chain = newer ++ op :: older)
    (hKept : newer.length < kept) :
    (readOperation op.opId).Ends cloud (Beside chain kept) t v w
      (.ok op) v (w.noteRead t (.op op.opId)) := by
  subst hChain
  have hStored := h.present op (mem_take_of_lt hKept)
  exact (getObject_runs hStored).bind Beside.trans
    (.done (.refl _))

theorem searchChainWalk_runs
    {above : List Operation} {rounds : Nat} {cursor : OpId}
    (h : Retains chain kept w)
    (hChain : chain = above ++ (newer ++ op :: older))
    (hCursor : headOf (newer ++ op :: older) = some cursor)
    (hPassed : Passed isOwn isFloor newer)
    (hOwn : isOwn op = true)
    (hRounds : newer.length < rounds)
    (hKept : above.length + newer.length < kept) :
    ∃ superseded w',
      (searchChainWalk targetFileId isOwn isFloor rounds foreign
        cursor).Ends cloud (Beside chain kept) t v w
        (.ok (.found op superseded)) v w' := by
  induction newer generalizing above rounds foreign cursor w with
  | nil =>
      cases hCursor
      cases rounds with
      | zero => cases hRounds
      | succ rounds =>
      have hRead :=
        readOperation_runs (t := t) (v := v) h hChain hKept
      refine ⟨foreign.isSome, w.noteRead t (.op op.opId), ?_⟩
      unfold searchChainWalk
      refine (hRead.attempt Beside.refl Beside.trans).bind
        Beside.trans ?_
      dsimp only
      rw [if_neg (not_not.mpr rfl), if_pos hOwn]
      exact .done (.refl _)
  | cons x newer ih =>
      cases hCursor
      cases rounds with
      | zero => cases hRounds
      | succ rounds =>
      rw [List.length_cons] at hRounds hKept
      rw [List.cons_append] at hChain
      have hRead :=
        readOperation_runs (t := t) (v := v) h hChain
          (by omega)
      have hBase : x.baseHead = headOf (newer ++ op :: older) := by
        have hLinked := h.linked
        rw [hChain] at hLinked
        exact hLinked.base_of_append
      have hBelow :
          chain = (above ++ [x]) ++ (newer ++ op :: older) := by
        rw [hChain, List.append_assoc]
        rfl
      have hWithin :
          (above ++ [x]).length + newer.length < kept := by
        rw [List.length_append, List.length_singleton]
        omega
      have hRest : Passed isOwn isFloor newer :=
        fun y hy => hPassed y (List.mem_cons_of_mem x hy)
      rcases hPassed x List.mem_cons_self with ⟨hNot, hAbove⟩
      rcases headOf_append newer op older with ⟨next, hNext⟩
      have hNoted :=
        h.of_objects (noteRead_objects w t (.op x.opId))
      have hGoesOn :
          ∃ superseded w',
            (searchChainWalk targetFileId isOwn isFloor rounds
              (seen targetFileId foreign x) next).Ends cloud
              (Beside chain kept) t v
              (w.noteRead t (.op x.opId))
              (.ok (.found op superseded)) v w' :=
        ih hNoted hBelow hNext hRest
          (Nat.lt_of_succ_lt_succ hRounds) hWithin
      rcases hGoesOn with ⟨superseded, w', hEnds⟩
      refine ⟨superseded, w', ?_⟩
      unfold searchChainWalk
      refine (hRead.attempt Beside.refl Beside.trans).bind
        Beside.trans ?_
      dsimp only
      rw [if_neg (not_not.mpr rfl), if_neg (by simp [hNot]),
        if_neg (by simp [hAbove]), hBase, hNext]
      exact hEnds

------------------------------------------------------------
-- What the Search Returns
------------------------------------------------------------

/- The device's timestamps can be read and do not go back. -/
structure InOrder
    (readTime : ReadTime)
    (device : DeviceId)
    (chain : List Operation) : Prop where
  readable :
    ∀ op ∈ chain, op.deviceId = device →
      ∃ time, readTime op.timestamp = .ok time
  ordered :
    chain.Pairwise fun newer older =>
      newer.deviceId = device → older.deviceId = device →
        ∀ time time', readTime newer.timestamp = .ok time →
          readTime older.timestamp = .ok time' → time' ≤ time

/- A request for a change, and when it was made. -/
structure Request where
  device : DeviceId
  targetFileId : FileId
  opType : OpType
  effects : Effects
  since : Int

/- The operation is the one that the request wants. -/
structure Request.Wants
    (req : Request)
    (op : Operation) : Prop where
  device : op.deviceId = req.device
  target : op.targetFileId = some req.targetFileId
  opType : op.opType = req.opType
  effects : op.effects = req.effects

/- The operation is from before the request. -/
def Request.Predates
    (readTime : ReadTime)
    (req : Request)
    (op : Operation) : Prop :=
  ∃ time, readTime op.timestamp = .ok time ∧ time < req.since

/-
  An operation that is returned is the request's own, and
  none is missed.
-/
def Request.Answered
    (readTime : ReadTime)
    (req : Request)
    (chain : List Operation) :
    CoreResult (Option DurableCommit) → Prop
  | .ok (some commit) =>
      ∃ newer older, chain = newer ++ commit.operation :: older ∧
        req.Wants commit.operation ∧
        ¬ req.Predates readTime commit.operation ∧
        (commit.superseded = true ↔
          ∃ x ∈ newer, x.targetFileId = some req.targetFileId)
  | .ok none =>
      ∀ op ∈ chain, req.Wants op → req.Predates readTime op
  | .error _ => True

def Request.own (req : Request) : Operation → Bool :=
  isWanted req.device req.targetFileId req.opType req.effects

def Request.floor
    (readTime : ReadTime)
    (req : Request) : Operation → Bool :=
  isBefore readTime req.device req.since

/-
  The first operation that ends the search, among those that
  it can read, is the wanted change, made before the request.
-/
def Request.StaleMatch
    (readTime : ReadTime)
    (req : Request)
    (chain : List Operation)
    (kept : Nat) : Prop :=
  ∃ newer op older, chain = newer ++ op :: older ∧
    newer.length < min maxDurableWalkOps kept ∧
    Passed req.own (req.floor readTime) newer ∧
    req.own op = true ∧ req.floor readTime op = true

variable {readTime : ReadTime} {req : Request}

theorem Request.own_iff :
    req.own op = true ↔ req.Wants op := by
  unfold Request.own isWanted
  simp only [Bool.and_eq_true, decide_eq_true_eq,
    Prod.mk.injEq]
  constructor
  · rintro ⟨⟨hDevice, hTarget⟩, hType, hEffects⟩
    exact ⟨hDevice, hTarget, hType, hEffects⟩
  · rintro ⟨hDevice, hTarget, hType, hEffects⟩
    exact ⟨⟨hDevice, hTarget⟩, hType, hEffects⟩

theorem Request.floor_iff :
    req.floor readTime op = true ↔
      op.deviceId = req.device ∧ req.Predates readTime op := by
  unfold Request.floor isBefore Request.Predates
  rw [Bool.and_eq_true, decide_eq_true_eq]
  apply and_congr_right
  intro hDevice
  cases readTime op.timestamp with
  | ok time => simp
  | error reason => simp

/- Below an operation from before the request are no others. -/
theorem InOrder.predates_below
    {x : Operation}
    (h : InOrder readTime req.device (newer ++ op :: older))
    (hOp : req.floor readTime op = true)
    (hBelow : x ∈ older)
    (hDevice : x.deviceId = req.device) :
    req.Predates readTime x := by
  rcases Request.floor_iff.mp hOp with
    ⟨hOwn, time, hTime, hBefore⟩
  have hThere : x ∈ newer ++ op :: older :=
    List.mem_append_right _ (List.mem_cons_of_mem op hBelow)
  rcases h.readable x hThere hDevice with ⟨time', hTime'⟩
  have hPairs := (List.pairwise_append.mp h.ordered).2.1
  have hLater :=
    (List.pairwise_cons.mp hPairs).1 x hBelow hOwn hDevice time
      time' hTime hTime'
  exact ⟨time', hTime', Int.lt_of_le_of_lt hLater hBefore⟩

theorem Passed.not_wants
    {floor : Operation → Bool} {x : Operation}
    (h : Passed req.own floor l)
    (hMem : x ∈ l) : ¬ req.Wants x := by
  intro hWants
  have hNot := (h x hMem).1
  rw [Request.own_iff.mpr hWants] at hNot
  cases hNot

/- A search that stops is right unless it stops too late. -/
theorem Stops.answered
    (hOrder : InOrder readTime req.device chain)
    (hStale : ¬ req.StaleMatch readTime chain kept)
    (h :
      Stops req.targetFileId req.own (req.floor readTime)
        (min maxDurableWalkOps kept) none chain result) :
    match result with
    | .found operation superseded =>
        req.Answered readTime chain
          (.ok (some ⟨operation, superseded⟩))
    | .absent _ => req.Answered readTime chain (.ok none)
    | .ambiguous _ => True := by
  cases h with
  | found passed within own later =>
      rename_i newer older op superseded
      have hWants := Request.own_iff.mp own
      refine ⟨newer, older, rfl, hWants, fun hPredates => ?_, ?_⟩
      · apply hStale
        exact ⟨newer, op, older, rfl, within, passed, own,
          Request.floor_iff.mpr ⟨hWants.device, hPredates⟩⟩
      · simpa using later
  | floor passed other below =>
      rename_i newer older op
      intro x hx hWants
      rcases List.mem_append.mp hx with hAbove | hx
      · exact absurd hWants (passed.not_wants hAbove)
      rcases List.mem_cons.mp hx with rfl | hBelow
      · rw [Request.own_iff.mpr hWants] at other
        cases other
      · exact hOrder.predates_below below hBelow hWants.device
  | ended passed =>
      intro x hx hWants
      exact absurd hWants (passed.not_wants hx)
  | ambiguous => trivial

/- The search of a request, by the log of its device. -/
abbrev Request.search
    (readTime : ReadTime)
    (req : Request)
    (since : Timestamp) : LogM (Option DurableCommit) :=
  committedLegacy readTime req.targetFileId req.opType
    req.effects since

variable {since : Timestamp}

theorem search_answered
    {r : CoreResult (Option DurableCommit)}
    (hSince : readTime since = .ok req.since)
    (hOrder : InOrder readTime req.device chain)
    (hDevice : log.deviceId = req.device)
    (hStale : ¬ req.StaleMatch readTime chain kept)
    (h : Retains chain kept w)
    (hEnds :
      (req.search readTime since).Ends cloud (Beside chain kept)
        t log w r log' w') :
    req.Answered readTime chain r := by
  cases r with
  | error e => trivial
  | ok answer =>
      unfold Request.search committedLegacy at hEnds
      rw [hSince] at hEnds
      have hEnds := Script.ends_get_bind hEnds
      rw [hDevice] at hEnds
      rcases Script.ends_bind_ok Beside.refl hEnds with
        ⟨_, log₁, w₁, hLoad, hMore⟩
      rcases loadHeadRounds_ends h hLoad with ⟨h₁, hHead⟩
      rcases Script.ends_bind_ok Beside.refl hMore with
        ⟨result, log₂, w₂, hSearch, hLast⟩
      have hStops := searchChain_ends h₁ hHead hSearch
      have hAnswered := hStops.answered hOrder hStale
      cases result with
      | found operation superseded =>
          cases (Script.ends_pure hLast).1
          exact hAnswered
      | absent foreign =>
          cases (Script.ends_pure hLast).1
          exact hAnswered
      | ambiguous reason =>
          cases (Script.ends_throw hLast).1

/- The first wanted operation is found, whatever its time. -/
theorem search_finds
    (hSince : readTime since = .ok req.since)
    (hDevice : log.deviceId = req.device)
    (h : Retains chain kept w)
    (hChain : chain = newer ++ op :: older)
    (hWithin : newer.length < min maxDurableWalkOps kept)
    (hPassed : Passed req.own (req.floor readTime) newer)
    (hOwn : req.own op = true) :
    ∃ superseded log' w',
      (req.search readTime since).Ends cloud (Beside chain kept)
        t log w (.ok (some ⟨op, superseded⟩)) log' w' := by
  rcases headOf_append newer op older with ⟨head, hHead⟩
  rw [← hChain] at hHead
  rcases loadHeadConsistent_runs (t := t) log h hHead with
    ⟨w₁, log₁, h₁, hCurrent, hLoad⟩
  have hCursor : headOf (newer ++ op :: older) = some head := by
    rw [← hChain]
    exact hHead
  have hTop : chain = [] ++ (newer ++ op :: older) := hChain
  have hRounds := hWithin.trans_le (min_le_left ..)
  have hKept :
      ([] : List Operation).length + newer.length < kept := by
    rw [List.length_nil, Nat.zero_add]
    exact hWithin.trans_le (min_le_right ..)
  have hRuns :
      ∃ superseded w₂,
        (searchChainWalk req.targetFileId req.own
          (req.floor readTime) maxDurableWalkOps none
          head).Ends cloud (Beside chain kept) t log₁ w₁
          (.ok (.found op superseded)) log₁ w₂ :=
    searchChainWalk_runs h₁ hTop hCursor hPassed hOwn hRounds
      hKept
  rcases hRuns with ⟨superseded, w₂, hWalk⟩
  have hSearch :
      (searchChain req.targetFileId req.own
        (req.floor readTime)).Ends cloud (Beside chain kept) t
        log₁ w₁ (.ok (.found op superseded)) log₁ w₂ := by
    apply Script.Ends.get_bind
    rw [hCurrent]
    exact hWalk
  refine ⟨superseded, log₁, w₂, ?_⟩
  unfold Request.search committedLegacy
  rw [hSince]
  apply Script.Ends.get_bind
  rw [hDevice]
  refine hLoad.bind Beside.trans ?_
  exact hSearch.bind Beside.trans (.done (.refl w₂))

/-
  In every run from the log the search answers rightly iff
  it does not stop at a change of the device that is like
  the wanted one and was made before the request.
-/
theorem committedLegacy_exact_iff
    (hSince : readTime since = .ok req.since)
    (hOrder : InOrder readTime req.device chain)
    (hDevice : log.deviceId = req.device)
    (h : Retains chain kept w) :
    (∀ r log' w',
      (req.search readTime since).Ends cloud (Beside chain kept)
        t log w r log' w' →
      req.Answered readTime chain r) ↔
    ¬ req.StaleMatch readTime chain kept := by
  constructor
  · rintro hRight ⟨newer, op, older, hChain, hWithin, hPassed,
      hOwn, hFloor⟩
    rcases search_finds (t := t) hSince hDevice h hChain hWithin
        hPassed hOwn with
      ⟨superseded, log', w', hEnds⟩
    rcases hRight _ log' w' hEnds with
      ⟨newer, older, _, _, hNot, _⟩
    exact hNot (Request.floor_iff.mp hFloor).2
  · intro hStale r log' w' hEnds
    exact search_answered hSince hOrder hDevice hStale h hEnds

/- Device `device` has renamed file 7. -/
def renamed
    (device : DeviceId)
    (base : Option OpId)
    (name : String)
    (time : Timestamp) : Operation where
  opId := ⟨device, 1, device⟩
  deviceId := device
  actorId := toString device
  logicalClock := 1
  baseHead := base
  targetFileId := some 7
  opType := .rename
  preconditions := ⟨none, none, true, true⟩
  effects := ⟨none, none, some name, none, false⟩
  timestamp := time
  signature := none

def planFirst : Operation :=
  renamed 1 none "Plan" 10

def draftThen : Operation :=
  renamed 2 (some planFirst.opId) "Draft" 20

/- The user of device 1 wants the first name back. -/
def planAgain : Request where
  device := 1
  targetFileId := 7
  opType := .rename
  effects := planFirst.effects
  since := 30

def renamedTwice : World :=
  { World.fresh with
    store := { World.fresh.store with
      objects :=
        (((∅ : Objects Key Body).insert .head
          (.head (some draftThen.opId))).insert
          (.op draftThen.opId) (.operation draftThen)).insert
          (.op planFirst.opId) (.operation planFirst) } }

def inMilliseconds : ReadTime :=
  fun time => .ok time

theorem renamedTwice_retains :
    Retains [draftThen, planFirst] 2 renamedTwice := by
  constructor
  · exact ⟨⟨rfl, rfl, trivial⟩, by decide⟩
  · rfl
  · intro op hMem
    rcases List.mem_cons.mp hMem with rfl | hMem
    · rfl
    rcases List.mem_singleton.mp hMem with rfl
    rfl
  · intro op hMem
    cases hMem

theorem planAgain_inOrder :
    InOrder inMilliseconds planAgain.device
      [draftThen, planFirst] := by
  constructor
  · exact fun op _ _ => ⟨op.timestamp, rfl⟩
  · rw [List.pairwise_pair]
    intro hDevice
    exact absurd hDevice (by decide)

theorem committedLegacy_exact_iff_planAgain :
    (∀ r log' w',
      (planAgain.search inMilliseconds 30).Ends cloud
        (Beside [draftThen, planFirst] 2) 0 (.new 1 0)
        renamedTwice r log' w' →
      planAgain.Answered inMilliseconds [draftThen, planFirst]
        r) ↔
    ¬ planAgain.StaleMatch inMilliseconds
      [draftThen, planFirst] 2 :=
  committedLegacy_exact_iff rfl planAgain_inOrder rfl
    renamedTwice_retains

/-
  The rename that is wanted is not on the chain, and the
  search returns the earlier one as if it were the same.
-/
theorem earlier_rename_found :
    ∃ superseded log' w',
      (planAgain.search inMilliseconds 30).Ends cloud
        (Beside [draftThen, planFirst] 2) 0 (.new 1 0)
        renamedTwice (.ok (some ⟨planFirst, superseded⟩)) log'
        w' ∧
      inMilliseconds planFirst.timestamp = .ok 10 ∧
      ¬ planAgain.Answered inMilliseconds
        [draftThen, planFirst]
        (.ok (some ⟨planFirst, superseded⟩)) := by
  have hPassed :
      Passed planAgain.own (planAgain.floor inMilliseconds)
        [draftThen] := by
    intro x hx
    rcases List.mem_singleton.mp hx with rfl
    decide
  have hChain :
      [draftThen, planFirst] = [draftThen] ++ planFirst :: [] :=
    rfl
  have hSince : inMilliseconds 30 = .ok planAgain.since := rfl
  have hDevice :
      (OperationLog.new 1 0).deviceId = planAgain.device := rfl
  rcases search_finds (t := 0) hSince hDevice
      renamedTwice_retains hChain (by decide) hPassed
      (by decide) with
    ⟨superseded, log', w', hEnds⟩
  refine ⟨superseded, log', w', hEnds, rfl, ?_⟩
  rintro ⟨newer, older, _, _, hNot, _⟩
  exact hNot ⟨10, rfl, by decide⟩

end LegacyCommits

end S4Drive

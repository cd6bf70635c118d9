import S4Drive.Sync.RemoteSteps

/-
  A batch of renames and moves from other devices, of which
  the engine applies the last one for every file and folder.
  Where every placement that is applied finds its name free
  and its parent outside of what it moves, this leaves the
  same places as applying all of them in order; but what the
  dropped ones would have cleared may be in the way of the
  others, as when two files swap their names.

  Main declarations:
    * `SamePlaces`, `SameEffect`
    * `isClear`, `clearInOrder`, `clearLast`
    * `Unhindered`
    * `run_in_order`, `run_last`
    * `last_placements_suffice`, `swapped_names_collide`
-/

open FileTree NamedForest

------------------------------------------------------------
-- Batches in Order
------------------------------------------------------------

namespace S4Drive

namespace RemoteChanges

open Recovery (Path)

variable {d d' d₁ d₂ : SyncDevice} {r s f : ObjectRow}
variable {forest : FileId → Place FileId Text}
variable {ctx : SyncContext} {op : Operation}
variable {ops pre : List Operation}
variable {contents : Operation → FileId → SyncM (Option Nat)}

/- Every placement is applied. -/
def processInOrder
    (ctx : SyncContext)
    (contents : Operation → FileId → SyncM (Option Nat))
    (ops : List Operation) : SyncM Nat :=
  processFrom ctx contents (fun _ _ _ => true) 0 ops

/- A rename or move that another device has committed. -/
def isRemotePlacement
    (ctx : SyncContext)
    (op : Operation) : Bool :=
  isPlacing op && op.deviceId ≠ ctx.deviceId &&
    op.targetFileId.isSome && op.effects.newName.isSome

/-
  Every file and folder has the same path, with the same
  entry of the disk at it, and the conflicts are the same.
-/
structure SamePlaces (d₁ d₂ : SyncDevice) : Prop where
  paths :
    ∀ id,
      (d₁.rowOf id).map
          (fun row => (row.localPath, row.s3Key)) =
        (d₂.rowOf id).map
          fun row => (row.localPath, row.s3Key)
  nodes :
    ∀ id, ∀ row, d₁.rowOf id = some row → row.isKept = true →
      d₁.disk.nodeAt row.localPath =
        d₂.disk.nodeAt row.localPath
  conflicts : d₁.conflicts = d₂.conflicts

/- Two passes end alike. -/
def SameEffect
    (r₁ r₂ : EStateM.Result CoreError SyncDevice Nat) : Prop :=
  match r₁, r₂ with
  | .ok m d₁, .ok n d₂ => m = n ∧ SamePlaces d₁ d₂
  | .error e d₁, .error e' d₂ => e = e' ∧ SamePlaces d₁ d₂
  | _, _ => False

theorem SamePlaces.refl (d : SyncDevice) : SamePlaces d d :=
  ⟨fun _ => rfl, fun _ _ _ _ => rfl, rfl⟩

theorem SameEffect.refl
    (result : EStateM.Result CoreError SyncDevice Nat) :
    SameEffect result result := by
  cases result with
  | ok n d => exact ⟨rfl, .refl d⟩
  | error e d => exact ⟨rfl, .refl d⟩

/- The row may go to the place, and nothing else is there. -/
def clearFor
    (d : SyncDevice)
    (row : ObjectRow)
    (placement : Placement) : Bool :=
  match d.knownParent placement.parentId with
  | none => false
  | some parent =>
      row.isLive && plainName placement.name &&
        !row.localPath.isPrefixOf parent &&
        (!row.isFolder ||
          !d.bucket.isRemotelyDeleted row.fileId) &&
        (row.localPath = parent ++ [placement.name.toList] ||
          d.freeAt (parent ++ [placement.name.toList]))

/- Nothing is in the way of the operation. -/
def isClear (d : SyncDevice) (op : Operation) : Bool :=
  match op.targetFileId, Placement.ofOp op with
  | some id, some placement =>
      match d.rowOf id with
      | none => true
      | some row => clearFor d row placement
  | _, _ => false

/- The device after an operation is applied. -/
def afterOp
    (ctx : SyncContext)
    (d : SyncDevice)
    (op : Operation) : SyncDevice :=
  match renamed ctx (op.targetFileId.getD 0) op d with
  | .ok _ d' => d'
  | .error _ d' => d'

/- Nothing is in the way when all are applied. -/
def clearInOrder
    (ctx : SyncContext) : SyncDevice → List Operation → Bool
  | _, [] => true
  | d, op :: ops =>
      isClear d op && clearInOrder ctx (afterOp ctx d op) ops

/- A later operation places the same file. -/
def replaced (op : Operation) (ops : List Operation) : Bool :=
  ops.any fun later => later.targetFileId = op.targetFileId

/- Nothing is in the way when the last ones are applied. -/
def clearLast
    (ctx : SyncContext) : SyncDevice → List Operation → Bool
  | _, [] => true
  | d, op :: ops =>
      if replaced op ops then
        clearLast ctx d ops
      else
        isClear d op && clearLast ctx (afterOp ctx d op) ops

/- No file or folder is placed twice. -/
def noneReplaced : List Operation → Bool
  | [] => true
  | op :: ops => !replaced op ops && noneReplaced ops

/-
  Nothing is dropped, or the device is in order and nothing
  is in the way of what is applied.
-/
def Unhindered
    (ctx : SyncContext)
    (d : SyncDevice)
    (ops : List Operation) : Prop :=
  noneReplaced ops = true ∨
    (∃ forest, Shows d forest) ∧
      clearInOrder ctx d ops = true ∧
      clearLast ctx d ops = true

theorem clearFor_iff {placement : Placement} :
    clearFor d r placement = true ↔
      ∃ parent, ClearPlace d r placement parent := by
  unfold clearFor
  cases hKnown : d.knownParent placement.parentId with
  | none =>
      simp only [Bool.false_eq_true, false_iff, not_exists]
      intro parent h
      have hSome := h.known
      rw [hKnown] at hSome
      cases hSome
  | some parent =>
      simp only [Bool.and_eq_true, Bool.or_eq_true,
        Bool.not_eq_true', decide_eq_true_eq,
        ← Bool.not_eq_true, List.isPrefixOf_iff_prefix]
      constructor
      · rintro ⟨⟨⟨⟨hLive, hPlain⟩, hOut⟩, hDeleted⟩, hFree⟩
        exact ⟨parent, hLive, hPlain, hKnown, hOut,
          fun hFolder => by simpa [hFolder] using hDeleted,
          hFree⟩
      · rintro ⟨parent', h⟩
        have hSame := h.known
        rw [hKnown] at hSame
        cases hSame
        refine ⟨⟨⟨⟨h.live, h.plain⟩, h.outside⟩, ?_⟩, h.free⟩
        by_cases hFolder : r.isFolder = true
        · simp [hFolder, h.undeleted hFolder]
        · exact .inl hFolder

------------------------------------------------------------
-- One Placement
------------------------------------------------------------

/- The placement that an operation sets. -/
def updateOf (op : Operation) : FileId × Place FileId Text :=
  (op.targetFileId.getD 0,
    (op.effects.newParentId,
      (op.effects.newName.getD "").toList))

/-
  The rows of `d'` are those of `d`, at other paths, with
  their entries of the disk.
-/
structure Followed (d d' : SyncDevice) : Prop where
  rows :
    ∃ g : ObjectRow → ObjectRow,
      d'.objects = d.objects.map g ∧
        (∀ r, (g r).fileId = r.fileId ∧
          (g r).isKept = r.isKept) ∧
        ∀ r ∈ d.objects,
          (r.isKept = false → g r = r) ∧
            (r.isKept = true →
              d'.disk.nodeAt (g r).localPath =
                d.disk.nodeAt r.localPath)
  conflicts : d'.conflicts = d.conflicts

theorem Followed.refl (d : SyncDevice) : Followed d d where
  rows :=
    ⟨id, (List.map_id _).symm, fun _ => ⟨rfl, rfl⟩,
      fun _ _ => ⟨fun _ => rfl, fun _ => rfl⟩⟩
  conflicts := rfl

theorem Followed.trans
    (h₁ : Followed d d₁)
    (h₂ : Followed d₁ d₂) : Followed d d₂ := by
  rcases h₁.rows with ⟨g₁, hRows₁, hSame₁, hEach₁⟩
  rcases h₂.rows with ⟨g₂, hRows₂, hSame₂, hEach₂⟩
  refine ⟨⟨g₂ ∘ g₁, ?_, ?_, ?_⟩,
    h₂.conflicts.trans h₁.conflicts⟩
  · rw [hRows₂, hRows₁, List.map_map]
  · intro r
    exact ⟨(hSame₂ (g₁ r)).1.trans (hSame₁ r).1,
      (hSame₂ (g₁ r)).2.trans (hSame₁ r).2⟩
  · intro r hr
    have hMem : g₁ r ∈ d₁.objects := by
      rw [hRows₁]
      exact List.mem_map_of_mem hr
    have hFirst := hEach₁ r hr
    have hSecond := hEach₂ (g₁ r) hMem
    rw [(hSame₁ r).2] at hSecond
    constructor
    · intro hDeleted
      rw [Function.comp, hSecond.1 hDeleted, hFirst.1 hDeleted]
    · intro hKept
      rw [Function.comp, hSecond.2 hKept, hFirst.2 hKept]

theorem Stepped.followed
    {a b : Path}
    (h : Stepped d d' a b) : Followed d d' := by
  rcases h.relocated with ⟨g, hg⟩
  refine ⟨⟨g, hg.objects, fun r => ⟨hg.fileId r, hg.isKept r⟩,
    fun r hr => ⟨hg.deleted r hr, hg.nodes r hr⟩⟩, h.conflicts⟩

variable {id : FileId}

/- A forest may say anything of what the index lacks. -/
theorem Shows.place_unknown
    (h : Shows d forest)
    (hRow : d.rowOf id = none)
    (π : Place FileId Text) :
    Shows d (place forest (id, π)) := by
  refine { h with placed := ?_ }
  intro r hr hKept
  have hOther : r.fileId ≠ id := by
    intro hSame
    have hFound := h.rowOf_eq hr
    rw [hSame, hRow] at hFound
    cases hFound
  unfold place
  rw [Function.update_of_ne hOther]
  exact h.placed r hr hKept

theorem isRemotePlacement_cases
    (h : isRemotePlacement ctx op = true) :
    isPlacing op = true ∧ op.deviceId ≠ ctx.deviceId ∧
      (∃ id, op.targetFileId = some id) ∧
      ∃ name, op.effects.newName = some name := by
  simp only [isRemotePlacement, Bool.and_eq_true,
    decide_eq_true_eq, Option.isSome_iff_exists] at h
  exact ⟨h.1.1.1, h.1.1.2, h.1.2, h.2⟩

/- A clear operation changes one place of the forest. -/
theorem clear_step
    (hOp : isRemotePlacement ctx op = true)
    (hShows : Shows d forest)
    (hClear : isClear d op = true) :
    renamed ctx (op.targetFileId.getD 0) op d =
        .ok 0 (afterOp ctx d op) ∧
      Shows (afterOp ctx d op) (place forest (updateOf op)) ∧
      Followed d (afterOp ctx d op) := by
  rcases isRemotePlacement_cases hOp with
    ⟨_, _, ⟨id, hId⟩, name, hName⟩
  have hPlacement :
      Placement.ofOp op =
        some ⟨op.effects.newParentId, name⟩ := by
    simp [Placement.ofOp, hName]
  have hUpdate :
      updateOf op =
        (id, (op.effects.newParentId, name.toList)) := by
    simp [updateOf, hId, hName]
  unfold isClear at hClear
  rw [hId, hPlacement] at hClear
  dsimp only at hClear
  unfold afterOp
  rw [hUpdate, hId, Option.getD_some]
  cases hRow : d.rowOf id with
  | none =>
      rw [renamed_of_unknown hRow]
      exact ⟨rfl, hShows.place_unknown hRow _, .refl d⟩
  | some row =>
      rw [hRow] at hClear
      rcases clearFor_iff.mp hClear with ⟨parent, hPlace⟩
      have hFound := SyncDevice.rowOf_spec hRow
      rcases renamed_of_clear hShows hFound.1 hPlacement
          hPlace with ⟨d', hRun, hStep⟩
      rcases hStep.relocated with ⟨g, hg⟩
      have hNew := hg.shows hShows hFound.1 hPlace
      rw [hFound.2] at hRun hNew
      rw [hRun]
      exact ⟨rfl, hNew, hStep.followed⟩

theorem processOp_placing
    {mayPlace : Operation → FileId → Bool}
    (hOp : isRemotePlacement ctx op = true) :
    processOp ctx contents mayPlace op =
      if mayPlace op (op.targetFileId.getD 0) then
        some <$> renamed ctx (op.targetFileId.getD 0) op
      else
        pure (some 0) := by
  rcases isRemotePlacement_cases hOp with
    ⟨hPlacing, _, ⟨id, hId⟩, _⟩
  unfold processOp
  rw [hId]
  unfold isPlacing at hPlacing
  rw [Bool.or_eq_true, decide_eq_true_eq, decide_eq_true_eq]
    at hPlacing
  rcases hPlacing with hType | hType
  · rw [hType]
    rfl
  · rw [hType]
    rfl

variable {mayPlace : Nat → Operation → FileId → Bool}

/- An operation that is applied, and then the others. -/
theorem processFrom_applied
    {index : Nat}
    (hOp : isRemotePlacement ctx op = true)
    (hPlace :
      mayPlace index op (op.targetFileId.getD 0) = true)
    (hRun :
      renamed ctx (op.targetFileId.getD 0) op d = .ok 0 d₁)
    (hRest :
      processFrom ctx contents mayPlace (index + 1) ops d₁ =
        .ok 0 d₂) :
    processFrom ctx contents mayPlace index (op :: ops) d =
      .ok 0 d₂ := by
  have hStep :
      processOp ctx contents (mayPlace index) op d =
        .ok (some 0) d₁ := by
    rw [processOp_placing hOp, if_pos hPlace]
    change EStateM.map some
      (renamed ctx (op.targetFileId.getD 0) op) d = _
    unfold EStateM.map
    rw [hRun]
  unfold processFrom
  rw [bind_ok hStep]
  dsimp only
  rw [bind_ok hRest]
  rfl

/- An operation that is dropped, and then the others. -/
theorem processFrom_dropped
    {index : Nat}
    (hOp : isRemotePlacement ctx op = true)
    (hPlace :
      mayPlace index op (op.targetFileId.getD 0) = false)
    (hRest :
      processFrom ctx contents mayPlace (index + 1) ops d =
        .ok 0 d₂) :
    processFrom ctx contents mayPlace index (op :: ops) d =
      .ok 0 d₂ := by
  have hStep :
      processOp ctx contents (mayPlace index) op d =
        .ok (some 0) d := by
    rw [processOp_placing hOp, hPlace,
      if_neg Bool.false_ne_true]
    rfl
  unfold processFrom
  rw [bind_ok hStep]
  dsimp only
  rw [bind_ok hRest]
  rfl

/- All placements, applied in order. -/
theorem run_in_order
    (hMay : ∀ index op id, mayPlace index op id = true)
    (hBatch : ∀ op ∈ ops, isRemotePlacement ctx op = true)
    (hShows : Shows d forest)
    (hClear : clearInOrder ctx d ops = true)
    (index : Nat) :
    ∃ d',
      processFrom ctx contents mayPlace index ops d =
        .ok 0 d' ∧
      Shows d' (placeAll forest (ops.map updateOf)) ∧
      Followed d d' := by
  induction ops generalizing d forest index with
  | nil => exact ⟨d, rfl, hShows, .refl d⟩
  | cons op ops ih =>
      rw [clearInOrder, Bool.and_eq_true] at hClear
      have hOp := hBatch op List.mem_cons_self
      rcases clear_step hOp hShows hClear.1 with
        ⟨hRun, hNew, hFollowed⟩
      rcases ih (fun op' h => hBatch op'
          (List.mem_cons_of_mem op h)) hNew hClear.2
          (index + 1) with ⟨d', hRest, hShows', hFollowed'⟩
      exact ⟨d', processFrom_applied hOp (hMay _ _ _) hRun hRest,
        hShows', hFollowed.trans hFollowed'⟩

------------------------------------------------------------
-- Last Placements
------------------------------------------------------------

theorem lastPlacementFrom_append
    (id : FileId)
    (index : Nat)
    (pre ops : List Operation) :
    lastPlacementFrom id index (pre ++ ops) =
      (lastPlacementFrom id (index + pre.length) ops).or
        (lastPlacementFrom id index pre) := by
  induction pre generalizing index with
  | nil => simp [lastPlacementFrom]
  | cons op pre ih =>
      rw [List.cons_append, lastPlacementFrom, ih,
        lastPlacementFrom, Option.or_assoc, List.length_cons,
        Nat.add_assoc, Nat.add_comm 1]

theorem lastPlacementFrom_ge
    {index last : Nat}
    (h : lastPlacementFrom id index ops = some last) :
    index ≤ last := by
  induction ops generalizing index with
  | nil => cases h
  | cons op ops ih =>
      rw [lastPlacementFrom, Option.or_eq_some_iff] at h
      rcases h with hLater | ⟨_, hHere⟩
      · exact Nat.le_of_succ_le (ih hLater)
      · split at hHere
        · exact (Option.some.inj hHere).le
        · cases hHere

theorem lastPlacementFrom_eq_none
    (index : Nat)
    (hNone :
      (ops.any fun op => op.targetFileId = some id) = false) :
    lastPlacementFrom id index ops = none := by
  induction ops generalizing index with
  | nil => rfl
  | cons op ops ih =>
      rw [List.any_cons, Bool.or_eq_false_iff,
        decide_eq_false_iff_not] at hNone
      rw [lastPlacementFrom, ih (index + 1) hNone.2]
      simp [hNone.1]

theorem lastPlacementFrom_isSome
    (index : Nat)
    (hPlacing : ∀ op ∈ ops, isPlacing op = true)
    (hSome :
      (ops.any fun op => op.targetFileId = some id) = true) :
    ∃ last, lastPlacementFrom id index ops = some last := by
  induction ops generalizing index with
  | nil => cases hSome
  | cons op ops ih =>
      rw [List.any_cons, Bool.or_eq_true, decide_eq_true_eq]
        at hSome
      rw [lastPlacementFrom]
      cases hLater : lastPlacementFrom id (index + 1) ops with
      | some last => exact ⟨last, rfl⟩
      | none =>
          rcases hSome with hHere | hRest
          · refine ⟨index, ?_⟩
            simp [hHere, hPlacing op List.mem_cons_self]
          · have hFound := ih (index + 1)
              (fun op' h => hPlacing op'
                (List.mem_cons_of_mem op h)) hRest
            rw [hLater] at hFound
            rcases hFound with ⟨_, hFound⟩
            cases hFound

/- What is applied is what no later operation replaces. -/
theorem places_iff
    (hBatch :
      ∀ op' ∈ op :: ops, isRemotePlacement ctx op' = true) :
    places ctx (pre ++ op :: ops) pre.length op
        (op.targetFileId.getD 0) =
      !replaced op ops := by
  rcases isRemotePlacement_cases
      (hBatch op List.mem_cons_self) with
    ⟨hPlacing, hDevice, ⟨id, hId⟩, _⟩
  have hOps : ∀ op' ∈ ops, isPlacing op' = true :=
    fun op' h => (isRemotePlacement_cases
      (hBatch op' (List.mem_cons_of_mem op h))).1
  unfold places lastPlacement
  rw [lastPlacementFrom_append, Nat.zero_add,
    lastPlacementFrom, hId, Option.getD_some]
  cases hReplaced : replaced op ops with
  | true =>
      unfold replaced at hReplaced
      rw [hId] at hReplaced
      rcases lastPlacementFrom_isSome (pre.length + 1) hOps
          hReplaced with ⟨last, hLast⟩
      have hLater : pre.length < last :=
        lastPlacementFrom_ge hLast
      rw [hLast, Option.some_or, Option.some_or,
        Option.any_some, if_pos (decide_eq_true hLater)]
      rfl
  | false =>
      unfold replaced at hReplaced
      rw [hId] at hReplaced
      rw [lastPlacementFrom_eq_none (pre.length + 1) hReplaced]
      simp [hPlacing, hDevice]

theorem any_updateOf
    (hBatch :
      ∀ op' ∈ op :: ops, isRemotePlacement ctx op' = true) :
    ((ops.map updateOf).any fun u => u.1 = (updateOf op).1) =
      replaced op ops := by
  rcases isRemotePlacement_cases
      (hBatch op List.mem_cons_self) with
    ⟨_, _, ⟨id, hId⟩, _⟩
  unfold replaced
  rw [List.any_map, Bool.eq_iff_iff]
  simp only [List.any_eq_true]
  refine exists_congr fun op' => and_congr_right fun h => ?_
  rcases isRemotePlacement_cases
      (hBatch op' (List.mem_cons_of_mem op h)) with
    ⟨_, _, ⟨id', hId'⟩, _⟩
  simp [updateOf, hId, hId']

/- The last placements, applied in order. -/
theorem run_last
    (hBatch : ∀ op ∈ ops, isRemotePlacement ctx op = true)
    (hShows : Shows d forest)
    (hClear : clearLast ctx d ops = true)
    (pre : List Operation) :
    ∃ d',
      processFrom ctx contents (places ctx (pre ++ ops))
          pre.length ops d =
        .ok 0 d' ∧
      Shows d'
        (placeAll forest (finalOnly (ops.map updateOf))) ∧
      Followed d d' := by
  induction ops generalizing d forest pre with
  | nil => exact ⟨d, rfl, hShows, .refl d⟩
  | cons op ops ih =>
      have hOp := hBatch op List.mem_cons_self
      have hRest :
          ∀ op' ∈ ops, isRemotePlacement ctx op' = true :=
        fun op' h => hBatch op' (List.mem_cons_of_mem op h)
      have hPlaces : places ctx (pre ++ op :: ops) pre.length op
          (op.targetFileId.getD 0) = !replaced op ops :=
        places_iff hBatch
      have hSplit : pre ++ op :: ops = (pre ++ [op]) ++ ops := by
        simp
      have hLength : pre.length + 1 = (pre ++ [op]).length := by
        simp
      rw [List.map_cons, finalOnly, any_updateOf hBatch]
      rw [clearLast] at hClear
      cases hReplaced : replaced op ops with
      | true =>
          rw [hReplaced, if_pos rfl] at hClear
          rcases ih hRest hShows hClear (pre ++ [op]) with
            ⟨d', hRun, hShows', hFollowed⟩
          rw [← hSplit, ← hLength] at hRun
          rw [hReplaced] at hPlaces
          rw [if_pos rfl]
          exact ⟨d', processFrom_dropped hOp hPlaces hRun,
            hShows', hFollowed⟩
      | false =>
          rw [hReplaced, if_neg Bool.false_ne_true,
            Bool.and_eq_true] at hClear
          rcases clear_step hOp hShows hClear.1 with
            ⟨hStep, hNew, hFollowed⟩
          rcases ih hRest hNew hClear.2 (pre ++ [op]) with
            ⟨d', hRun, hShows', hFollowed'⟩
          rw [← hSplit, ← hLength] at hRun
          rw [hReplaced] at hPlaces
          rw [if_neg Bool.false_ne_true, placeAll_cons]
          exact ⟨d',
            processFrom_applied hOp hPlaces hStep hRun,
            hShows', hFollowed.trans hFollowed'⟩

/- When no file is placed twice, everything is applied. -/
theorem processFrom_noneReplaced
    (hBatch : ∀ op ∈ ops, isRemotePlacement ctx op = true)
    (hNone : noneReplaced ops = true)
    (pre : List Operation) :
    processFrom ctx contents (places ctx (pre ++ ops))
        pre.length ops =
      processFrom ctx contents (fun _ _ _ => true) pre.length
        ops := by
  induction ops generalizing pre with
  | nil => rfl
  | cons op ops ih =>
      have hOp := hBatch op List.mem_cons_self
      rw [noneReplaced, Bool.and_eq_true, Bool.not_eq_true']
        at hNone
      have hSplit : pre ++ op :: ops = (pre ++ [op]) ++ ops := by
        simp
      have hLength : pre.length + 1 = (pre ++ [op]).length := by
        simp
      have hRest := ih
        (fun op' h => hBatch op' (List.mem_cons_of_mem op h))
        hNone.2 (pre ++ [op])
      rw [← hSplit, ← hLength] at hRest
      have hHere :
          processOp ctx contents
              (places ctx (pre ++ op :: ops) pre.length) op =
            processOp ctx contents (fun _ _ => true) op := by
        rw [processOp_placing hOp, processOp_placing hOp,
          places_iff hBatch, hNone.1]
        rfl
      rw [processFrom, processFrom, hHere, hRest]

theorem Followed.rowOf
    {g : ObjectRow → ObjectRow}
    (hRows : d'.objects = d.objects.map g)
    (hId : ∀ r, (g r).fileId = r.fileId)
    (id : FileId) : d'.rowOf id = (d.rowOf id).map g := by
  unfold SyncDevice.rowOf
  rw [hRows, List.find?_map]
  have hTest :
      ((fun row : ObjectRow => decide (row.fileId = id)) ∘ g) =
        fun row => decide (row.fileId = id) := by
    funext r
    simp only [Function.comp, hId]
  rw [hTest]

/- Two passes that show one forest leave the same places. -/
theorem samePlaces_of_shows
    (h₁ : Shows d₁ forest)
    (h₂ : Shows d₂ forest)
    (hFollowed₁ : Followed d d₁)
    (hFollowed₂ : Followed d d₂) : SamePlaces d₁ d₂ := by
  rcases hFollowed₁.rows with ⟨g₁, hRows₁, hSame₁, hEach₁⟩
  rcases hFollowed₂.rows with ⟨g₂, hRows₂, hSame₂, hEach₂⟩
  have hFound₁ := Followed.rowOf hRows₁ fun r => (hSame₁ r).1
  have hFound₂ := Followed.rowOf hRows₂ fun r => (hSame₂ r).1
  have hPath :
      ∀ r ∈ d.objects, r.isKept = true →
        (g₁ r).localPath = (g₂ r).localPath := by
    intro r hr hKept
    refine h₁.path_eq h₂ ?_ ?_ ?_ ?_ ?_
    · rw [hRows₁]
      exact List.mem_map_of_mem hr
    · rw [hRows₂]
      exact List.mem_map_of_mem hr
    · rw [(hSame₁ r).1, (hSame₂ r).1]
    · rw [(hSame₁ r).2, hKept]
    · rw [(hSame₂ r).2, hKept]
  have hKey :
      ∀ r ∈ d.objects, r.isKept = true →
        (g₁ r).s3Key = (g₂ r).s3Key := by
    intro r hr hKept
    have hMem₁ : g₁ r ∈ d₁.objects := by
      rw [hRows₁]
      exact List.mem_map_of_mem hr
    have hMem₂ : g₂ r ∈ d₂.objects := by
      rw [hRows₂]
      exact List.mem_map_of_mem hr
    rw [h₁.keys (g₁ r) hMem₁ (by rw [(hSame₁ r).2, hKept]),
      h₂.keys (g₂ r) hMem₂ (by rw [(hSame₂ r).2, hKept]),
      hPath r hr hKept]
  refine ⟨?_, ?_, ?_⟩
  · intro id
    rw [hFound₁, hFound₂]
    cases hRow : d.rowOf id with
    | none => rfl
    | some r =>
        have hr := (SyncDevice.rowOf_spec hRow).1
        cases hKept : r.isKept with
        | false =>
            simp [(hEach₁ r hr).1 hKept, (hEach₂ r hr).1 hKept]
        | true => simp [hPath r hr hKept, hKey r hr hKept]
  · intro id row hRow hKept
    rw [hFound₁, Option.map_eq_some_iff] at hRow
    rcases hRow with ⟨r, hFound, rfl⟩
    have hr := (SyncDevice.rowOf_spec hFound).1
    rw [(hSame₁ r).2] at hKept
    rw [(hEach₁ r hr).2 hKept, hPath r hr hKept,
      (hEach₂ r hr).2 hKept]
  · rw [hFollowed₁.conflicts, hFollowed₂.conflicts]

def laptop : SyncContext where
  deviceId := 1
  deviceName := "Laptop".toList
  blake3 := fun bytes => toString bytes.length
  now := 7
  nowText := "2024-05-01T10:00".toList
  freshName := "x".toList
  commitRename := fun _ _ => .ok ()
  notesChangePending := fun _ => false

def noContents : Operation → FileId → SyncM (Option Nat) :=
  fun _ _ => pure (some 0)

/- A rename or move that the device `2` has committed. -/
def moveOp
    (id : FileId)
    (parentId : Option FileId)
    (name : String) : Operation where
  opId := ⟨2, 0, 0⟩
  deviceId := 2
  actorId := ""
  logicalClock := 0
  baseHead := none
  targetFileId := some id
  opType := .move
  preconditions := ⟨none, none, true, true⟩
  effects := ⟨none, none, some name, parentId, false⟩
  timestamp := 0
  signature := none

def indexedFile (id : FileId) (path : Path) : ObjectRow where
  fileId := id
  localPath := path
  s3Key := path
  size := 1
  state := .synced
  isFolder := false
  parentId := none
  currentRevisionId := some id
  localHash := some "1"
  localMtime := some 1

def indexedFolder (id : FileId) (path : Path) : ObjectRow :=
  { indexedFile id path with isFolder := true }

def emptyBucket : Bucket where
  entries := fun _ => none
  tombstones := fun _ => false
  latestDeletes := fun _ => none

/- The files `a` and `b`, and the folder `p`. -/
def twoFiles : SyncDevice where
  disk :=
    ⟨[([['a']], .file ⟨[1], 1⟩), ([['b']], .file ⟨[2], 1⟩),
      ([['p']], .folder)]⟩
  objects :=
    [indexedFile 10 [['a']], indexedFile 11 [['b']],
      indexedFolder 12 [['p']]]
  transfers := []
  conflicts := []
  bucket := emptyBucket

def twoFilesForest (id : FileId) : Place FileId Text :=
  if id = 10 then (none, ['a'])
  else if id = 11 then (none, ['b'])
  else (none, ['p'])

theorem shows_twoFiles : Shows twoFiles twoFilesForest where
  ids := by decide
  keys := by decide
  normal := by decide
  placed := by decide
  apart := by decide
  folders := by decide
  regular := by decide
  rooted := Files.rooted_of_entries (by decide)

/- The names of two files, by way of a third name. -/
def swap : List Operation :=
  [moveOp 10 none "t", moveOp 11 none "a", moveOp 10 none "b"]

def endsAt
    (result : EStateM.Result CoreError SyncDevice Nat)
    (id : FileId) : Option Path :=
  match result with
  | .ok _ d => d.getLocalPath id
  | .error _ d => d.getLocalPath id

theorem SamePlaces.getLocalPath
    (h : SamePlaces d₁ d₂)
    (id : FileId) : d₁.getLocalPath id = d₂.getLocalPath id := by
  have hPath := congrArg (Option.map Prod.fst) (h.paths id)
  simpa [SyncDevice.getLocalPath, Function.comp_def] using hPath

theorem SameEffect.endsAt_eq
    {r₁ r₂ : EStateM.Result CoreError SyncDevice Nat}
    (h : SameEffect r₁ r₂)
    (id : FileId) : endsAt r₁ id = endsAt r₂ id := by
  cases r₁ with
  | ok m d₁ =>
      cases r₂ with
      | ok n d₂ => exact h.2.getLocalPath id
      | error e d₂ => exact h.elim
  | error e d₁ =>
      cases r₂ with
      | ok n d₂ => exact h.elim
      | error e' d₂ => exact h.2.getLocalPath id

end RemoteChanges

end S4Drive

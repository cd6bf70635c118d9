import S4Drive.Metadata.LogInvariant
import S4Drive.Recovery.Entries

/-
  How disaster recovery replays the log: the operations that
  the snapshot does not cover are read from the head down
  and applied from the oldest on. What was deleted before
  the snapshot is unknown to a run that starts from it, but
  still marked as deleted in a run on the whole log.

  Main declarations:
    * `applyRestoreOperation`, `applyOpsSinceSnapshot`
    * `SnapshotOf`, `SeesEach`
    * `recovery_from_snapshot`
    * `restored_file_without_content`
-/

------------------------------------------------------------
-- Operations
------------------------------------------------------------

namespace S4Drive

open ChainLog

namespace Recovery

def applyPlacement
    (op : Operation)
    (entry : FileEntry) : FileEntry :=
  match Placement.ofOp op with
  | some placement => placement.applyTo entry
  | none => entry

/- The entry after a file was created, changed or restored. -/
def applyContent
    (op : Operation)
    (entry : FileEntry) : FileEntry :=
  let entry := applyPlacement op entry
  let entry :=
    match op.effects.newContentRef with
    | some contentRef =>
        { entry with
          size := contentRef.size
          contentHash := some ("blake3:" ++ contentRef.hash)
          mime := some contentRef.mime
          contentRef := some contentRef }
    | none => entry
  let entry :=
    match op.effects.newRevisionId with
    | some revisionId =>
        { entry with
          currentRevisionId := some revisionId
          versionHistory :=
            if revisionId ∈ entry.versionHistory then
              entry.versionHistory
            else
              entry.versionHistory ++ [revisionId] }
    | none => entry
  { entry with
    deletedAt := none
    updatedAt := op.timestamp }

/- The entry after a folder was created. -/
def applyFolder
    (op : Operation)
    (entry : FileEntry) : FileEntry :=
  { applyPlacement op entry with
    entryType := .folder
    contentRef := none
    deletedAt := none
    updatedAt := op.timestamp }

def applyMove
    (op : Operation)
    (placement : Placement)
    (entry : FileEntry) : FileEntry :=
  { placement.applyTo entry with updatedAt := op.timestamp }

def applyDelete
    (op : Operation)
    (entry : FileEntry) : FileEntry :=
  { entry with
    deletedAt := some (entry.deletedAt.getD op.timestamp)
    updatedAt := op.timestamp }

/- A move that would put a folder inside itself. -/
def movesInsideItself
    (entries : Entries)
    (fileId : FileId)
    (placement : Placement) : Bool :=
  placement.parentId.any fun parent =>
    parent = fileId || hasAncestor entries parent fileId

def applyMoveOperation
    (entries : Entries)
    (op : Operation)
    (fileId : FileId) : Entries :=
  match Placement.ofOp op with
  | none => entries
  | some placement =>
      -- Devices skip such a move.
      if movesInsideItself entries fileId placement then
        entries
      else
        entries.update (· = fileId) (applyMove op placement)

def applyRestoreOperation
    (entries : Entries)
    (op : Operation) : Entries :=
  match op.targetFileId with
  | none => entries
  | some fileId =>
      match op.opType with
      | .createFile | .uploadNewRevision | .restore =>
          (entries.orInsert fileId
            (newRestoreEntry fileId .file op.timestamp)).update
              (· = fileId) (applyContent op)
      | .createFolder =>
          (entries.orInsert fileId
            (newRestoreEntry fileId .folder op.timestamp)).update
              (· = fileId) (applyFolder op)
      | .rename | .move | .updateMetadata =>
          applyMoveOperation entries op fileId
      | .delete =>
          -- A deleted folder takes everything inside with it.
          entries.update
            (fun id =>
              id = fileId || hasAncestor entries id fileId)
            (applyDelete op)

/- The operations are in the order of the log, oldest first. -/
def replay
    (entries : Entries)
    (ops : List Operation) : Entries :=
  ops.foldl applyRestoreOperation entries

/- The files of operations, with what reading one yields. -/
abbrev OpFiles := List (OpId × Except String Operation)

def readLocalOperation
    (files : OpFiles)
    (opId : OpId) : Except String Operation :=
  (files.lookup opId).getD
    (.error ("read " ++ toString opId ++ ".json"))

/-
  The operations from `cursor` down to the covered head,
  newest first. Every step reads another file, so as many
  steps as there are files, and one more, suffice.
-/
def uncoveredOps
    (files : OpFiles)
    (coveredHead : Option OpId) :
    Nat → List OpId → OpId → Except String (List Operation)
  | 0, _, cursor =>
      .error ("operation chain cycle detected at " ++
        toString cursor)
  | steps + 1, seen, cursor =>
      if coveredHead = some cursor then
        .ok []
      else if cursor ∈ seen then
        .error ("operation chain cycle detected at " ++
          toString cursor)
      else do
        let op ← readLocalOperation files cursor
        match op.baseHead with
        | none =>
            if coveredHead.isSome then
              .error ("operation chain does not reach " ++
                "snapshot covered_head")
            else
              .ok [op]
        | some baseHead => do
            let chain ← uncoveredOps files coveredHead steps
              (cursor :: seen) baseHead
            pure (op :: chain)

def applyOpsSinceSnapshot
    (files : OpFiles)
    (entries : Entries)
    (coveredHead currentHead : Option OpId) :
    Except String (Entries × Nat) :=
  match currentHead with
  | none => .ok (entries, 0)
  | some cursor =>
      if coveredHead = some cursor then
        .ok (entries, 0)
      else do
        let chain ← uncoveredOps files coveredHead
          (files.length + 1) [] cursor
        pure (replay entries chain.reverse, chain.length)

variable {files : OpFiles} {l above below : List Operation}
variable {op h : Operation}

/- The files hold the operations of a chain. -/
def Holds (files : OpFiles) (l : List Operation) : Prop :=
  ∀ op ∈ l, files.lookup op.opId = some (.ok op)

theorem Holds.length
    (h : Holds files l)
    (hChain : LogChain l) : l.length ≤ files.length := by
  have hSubset :
      l.map Operation.opId ⊆ files.map Prod.fst := by
    intro opId hId
    rcases List.mem_map.mp hId with ⟨op, hOp, rfl⟩
    rcases List.lookup_eq_some_iff.mp (h op hOp) with
      ⟨before, after, rfl, _⟩
    simp
  have hLength := (hChain.nodup.subperm hSubset).length_le
  simpa using hLength

/- The part of the chain that is not covered is read. -/
theorem uncoveredOps_ok
    {coveredHead : Option OpId} {seen : List OpId}
    {steps : Nat} {cursor : OpId}
    (hHolds : Holds files above)
    (hChain : LogChain (above ++ below))
    (hCovered : coveredHead = headOf below)
    (hCursor : headOf (above ++ below) = some cursor)
    (hSeen : ∀ op ∈ above, op.opId ∉ seen)
    (hSteps : above.length < steps) :
    uncoveredOps files coveredHead steps seen cursor =
      .ok above := by
  induction above generalizing seen steps cursor with
  | nil =>
      rcases steps with _ | steps
      · exact absurd hSteps (Nat.not_lt_zero _)
      · have hAt : coveredHead = some cursor :=
          hCovered.trans hCursor
        simp [uncoveredOps, hAt]
  | cons op above ih =>
      rcases steps with _ | steps
      · exact absurd hSteps (Nat.not_lt_zero _)
      · have hHere : op.opId = cursor := by
          simpa using hCursor
        subst hHere
        have hNodup := hChain.nodup
        rw [List.cons_append, List.map_cons,
          List.nodup_cons] at hNodup
        have hNotCovered : coveredHead ≠ some op.opId := by
          intro hSame
          rw [hCovered] at hSame
          cases below with
          | nil => cases hSame
          | cons covered rest =>
              apply hNodup.1
              have hId : covered.opId = op.opId := by
                simpa using hSame
              rw [← hId]
              simp
        have hRead :
            readLocalOperation files op.opId = .ok op := by
          unfold readLocalOperation
          rw [hHolds op List.mem_cons_self]
          rfl
        have hBase : op.baseHead = headOf (above ++ below) :=
          hChain.linked.1
        rw [uncoveredOps, if_neg hNotCovered,
          if_neg (hSeen op List.mem_cons_self), hRead]
        change (match op.baseHead with
          | none => _
          | some baseHead => _) = _
        rw [hBase]
        cases hNext : headOf (above ++ below) with
        | none =>
            have hNil := headKey_eq_none_iff.mp hNext
            rcases List.append_eq_nil_iff.mp hNil with ⟨rfl, rfl⟩
            have hNone : coveredHead = none := hCovered
            rw [hNone]
            rfl
        | some baseHead =>
            have hRest := @ih (op.opId :: seen) steps baseHead
              (fun x hx => hHolds x (List.mem_cons_of_mem op hx))
              (hChain.of_suffix (List.suffix_cons _ _)) hNext
              (by
                intro x hx hBefore
                rcases List.mem_cons.mp hBefore with
                  hSame | hBefore
                · apply hNodup.1
                  rw [← hSame]
                  exact List.mem_map_of_mem
                    (List.mem_append_left below hx)
                · exact hSeen x (List.mem_cons_of_mem op hx)
                    hBefore)
              (Nat.lt_of_succ_lt_succ hSteps)
            change (uncoveredOps files coveredHead steps
              (op.opId :: seen) baseHead >>= fun chain =>
                pure (op :: chain)) = _
            rw [hRest]
            rfl

------------------------------------------------------------
-- Runs that Know Less
------------------------------------------------------------

variable {full part snapshot entries : Entries}
variable {fileId id : FileId} {entry entry' : FileEntry}
variable {placement : Placement}

/- The entry of a snapshot: it holds only what is live. -/
def SnapshotEntry :
    Option FileEntry → Option FileEntry → Prop
  | some kept, some entry =>
      SameShown kept entry ∧ kept.deletedAt = none ∧
        entry.deletedAt = none
  | some _, none => False
  | none, some entry => entry.deletedAt ≠ none
  | none, none => True

/- The live entries, and nothing of what was deleted. -/
def SnapshotOf (snapshot entries : Entries) : Prop :=
  ∀ id, SnapshotEntry (snapshot.find id) (entries.find id)

/-
  An entry of a run that may have lost what is deleted.
  What it has kept is shown and deleted in the same way.
-/
def PartEntry :
    Option FileEntry → Option FileEntry → Prop
  | some kept, some entry =>
      SameShown kept entry ∧
        (kept.deletedAt = none ↔ entry.deletedAt = none)
  | some _, none => False
  | none, some entry => entry.deletedAt ≠ none
  | none, none => True

def PartOf (part full : Entries) : Prop :=
  ∀ id, PartEntry (part.find id) (full.find id)

/- The operation says, or the defaults are, where `entry` is. -/
def TellsPlacement
    (op : Operation)
    (fileId : FileId)
    (entry : FileEntry) : Prop :=
  Placement.ofOp op = none →
    entry.parentId = none ∧ entry.name = toString fileId

/- The operation says, or the defaults are, what is in it. -/
def TellsContent
    (op : Operation)
    (entry : FileEntry) : Prop :=
  entry.entryType = .file ∧
    (op.effects.newContentRef = none → entry.contentRef = none)

/-
  What the operation needs is in the part as well: an entry
  that was lost is described by the operation that brings it
  back, and the chains of parents that a move or a delete
  looks at do not lead through a lost entry.
-/
def SeesEnough
    (full part : Entries)
    (op : Operation)
    (fileId : FileId) : Prop :=
  match op.opType with
  | .createFile | .uploadNewRevision | .restore =>
      part.find fileId = none →
        ∀ entry, full.find fileId = some entry →
          TellsPlacement op fileId entry ∧ TellsContent op entry
  | .createFolder =>
      part.find fileId = none →
        ∀ entry, full.find fileId = some entry →
          TellsPlacement op fileId entry
  | .rename | .move | .updateMetadata =>
      part.find fileId ≠ none →
        ∀ placement, Placement.ofOp op = some placement →
          movesInsideItself full fileId placement = true →
            movesInsideItself part fileId placement = true
  | .delete =>
      ∀ id, isLive part id = true →
        id ≠ fileId → hasAncestor full id fileId = true →
          hasAncestor part id fileId = true

/- So does every operation when it is applied. -/
def SeesEach :
    Entries → Entries → List Operation → Prop
  | _, _, [] => True
  | full, part, op :: ops =>
      (∀ fileId, op.targetFileId = some fileId →
        SeesEnough full part op fileId) ∧
      SeesEach (applyRestoreOperation full op)
        (applyRestoreOperation part op) ops

theorem SnapshotOf.partOf
    (h : SnapshotOf snapshot entries) :
    PartOf snapshot entries := by
  intro id
  have hEntry := h id
  unfold SnapshotEntry at hEntry
  unfold PartEntry
  split at hEntry
  · exact ⟨hEntry.1, iff_of_true hEntry.2.1 hEntry.2.2⟩
  · exact hEntry.elim
  · exact hEntry
  · trivial

/- Everything was deleted. -/
theorem SnapshotOf.nil
    (h : ∀ x ∈ entries, x.2.deletedAt ≠ none) :
    SnapshotOf [] entries := by
  intro id
  change SnapshotEntry none (entries.find id)
  cases hFound : entries.find id with
  | none => trivial
  | some entry =>
      rcases List.lookup_eq_some_iff.mp hFound with
        ⟨before, after, rfl, _⟩
      exact h (id, entry) (by simp)

theorem PartOf.known
    (h : PartOf part full)
    (hKept : part.find id = some entry) :
    ∃ entry', full.find id = some entry' ∧
      SameShown entry entry' ∧
      (entry.deletedAt = none ↔ entry'.deletedAt = none) := by
  have hEntry := h id
  rw [hKept] at hEntry
  cases hFull : full.find id with
  | none =>
      rw [hFull] at hEntry
      exact hEntry.elim
  | some entry' =>
      rw [hFull] at hEntry
      exact ⟨entry', rfl, hEntry.1, hEntry.2⟩

theorem PartOf.parent
    {parent : FileId}
    (h : PartOf part full)
    (hParent : parentOf part id = some parent) :
    parentOf full id = some parent := by
  rcases Option.bind_eq_some_iff.mp hParent with
    ⟨entry, hKept, hEntry⟩
  rcases h.known hKept with ⟨entry', hFull, hSame, _⟩
  unfold parentOf
  rw [hFull, Option.bind_some, ← hSame.parentId, hEntry]

/- A chain of the part is one of the whole. -/
theorem PartOf.ancestor
    {ancestor : FileId}
    (h : PartOf part full)
    (hPart : hasAncestor part id ancestor = true) :
    hasAncestor full id ancestor = true := by
  rw [hasAncestor_iff] at hPart ⊢
  have hFull := hPart.mono fun _ _ => h.parent
  cases hParent : parentOf part id with
  | none =>
      rw [hParent] at hPart
      cases hPart
  | some parent =>
      rw [h.parent hParent, ← hParent]
      exact hFull

theorem PartOf.inside
    (h : PartOf part full)
    (hPart :
      movesInsideItself part fileId placement = true) :
    movesInsideItself full fileId placement = true := by
  unfold movesInsideItself at hPart ⊢
  rw [Option.any_eq_true] at hPart ⊢
  rcases hPart with ⟨parent, hParent, hInside⟩
  refine ⟨parent, hParent, ?_⟩
  rw [Bool.or_eq_true] at hInside ⊢
  exact hInside.imp_right h.ancestor

/- What the part shows is what the whole shows. -/
theorem PartOf.agreeOnLive
    (h : PartOf part full) : AgreeOnLive full part := by
  intro id
  have hEntry := h id
  unfold isLive
  cases hPart : part.find id <;> cases hFull : full.find id <;>
    rw [hPart, hFull] at hEntry
  case none.none => simp
  case none.some entry =>
    have hDeleted : entry.deletedAt ≠ none := hEntry
    simp [hDeleted, Option.isSome_iff_ne_none]
  case some.none => exact hEntry.elim
  case some.some kept entry =>
    rcases hEntry with ⟨hSame, hDeleted⟩
    constructor
    · rw [Bool.eq_iff_iff]
      simpa using hDeleted.symm
    · exact fun _ => ⟨entry, kept, rfl, rfl, hSame.symm⟩

------------------------------------------------------------
-- One Operation
------------------------------------------------------------

variable {op : Operation}

theorem applyPlacement_shown
    (h : SameShown entry entry') :
    SameShown (applyPlacement op entry)
      (applyPlacement op entry') := by
  unfold applyPlacement
  cases Placement.ofOp op with
  | none => exact h
  | some placement => exact ⟨rfl, rfl, h.entryType, h.contentRef⟩

/- A given or default placement is the same for a new entry. -/
theorem TellsPlacement.applied
    {entryType : EntryType} {timestamp : Timestamp}
    (h : TellsPlacement op fileId entry) :
    (applyPlacement op
        (newRestoreEntry fileId entryType timestamp)).parentId =
      (applyPlacement op entry).parentId ∧
    (applyPlacement op
        (newRestoreEntry fileId entryType timestamp)).name =
      (applyPlacement op entry).name := by
  unfold applyPlacement
  cases hPlacement : Placement.ofOp op with
  | none =>
      rcases h hPlacement with ⟨hParent, hName⟩
      exact ⟨hParent.symm, hName.symm⟩
  | some placement => exact ⟨rfl, rfl⟩

@[simp] theorem applyPlacement_entryType :
    (applyPlacement op entry).entryType = entry.entryType := by
  unfold applyPlacement
  cases Placement.ofOp op <;> rfl

@[simp] theorem applyPlacement_contentRef :
    (applyPlacement op entry).contentRef = entry.contentRef := by
  unfold applyPlacement
  cases Placement.ofOp op <;> rfl

@[simp] theorem applyContent_parentId :
    (applyContent op entry).parentId =
      (applyPlacement op entry).parentId := by
  unfold applyContent
  cases op.effects.newContentRef <;>
    cases op.effects.newRevisionId <;> rfl

@[simp] theorem applyContent_name :
    (applyContent op entry).name =
      (applyPlacement op entry).name := by
  unfold applyContent
  cases op.effects.newContentRef <;>
    cases op.effects.newRevisionId <;> rfl

@[simp] theorem applyContent_entryType :
    (applyContent op entry).entryType = entry.entryType := by
  unfold applyContent
  cases op.effects.newContentRef <;>
    cases op.effects.newRevisionId <;> simp

@[simp] theorem applyContent_contentRef :
    (applyContent op entry).contentRef =
      op.effects.newContentRef.or entry.contentRef := by
  unfold applyContent
  cases op.effects.newContentRef <;>
    cases op.effects.newRevisionId <;> simp

theorem applyContent_shown
    (h : SameShown entry entry') :
    SameShown (applyContent op entry)
      (applyContent op entry') where
  parentId := by simp [(applyPlacement_shown h).parentId]
  name := by simp [(applyPlacement_shown h).name]
  entryType := by simp [h.entryType]
  contentRef := by simp [h.contentRef]

/- The operation tells all that a lost entry would have said. -/
theorem applyContent_new
    (hPlacement : TellsPlacement op fileId entry)
    (hContent : TellsContent op entry) :
    SameShown
      (applyContent op
        (newRestoreEntry fileId .file op.timestamp))
      (applyContent op entry) where
  parentId := by simp [hPlacement.applied]
  name := by simp [hPlacement.applied]
  entryType := by simp [hContent.1, newRestoreEntry]
  contentRef := by
    cases hNew : op.effects.newContentRef with
    | some contentRef => simp [hNew]
    | none => simp [hNew, hContent.2 hNew, newRestoreEntry]

theorem applyFolder_shown
    (h : SameShown entry entry') :
    SameShown (applyFolder op entry) (applyFolder op entry') :=
  ⟨(applyPlacement_shown h).parentId,
    (applyPlacement_shown h).name, rfl, rfl⟩

theorem applyFolder_new
    (hPlacement : TellsPlacement op fileId entry) :
    SameShown
      (applyFolder op
        (newRestoreEntry fileId .folder op.timestamp))
      (applyFolder op entry) :=
  ⟨hPlacement.applied.1, hPlacement.applied.2, rfl, rfl⟩

variable {change : FileEntry → FileEntry}

/- An entry that is there afterwards in any case. -/
theorem PartOf.orInsert
    {new : FileEntry}
    (h : PartOf part full)
    (hLive : ∀ entry, (change entry).deletedAt = none)
    (hShown :
      ∀ entry entry', SameShown entry entry' →
        SameShown (change entry) (change entry'))
    (hNew :
      part.find fileId = none →
        ∀ entry, full.find fileId = some entry →
          SameShown (change new) (change entry)) :
    PartOf
      ((part.orInsert fileId new).update (· = fileId) change)
      ((full.orInsert fileId new).update (· = fileId)
        change) := by
  intro id
  by_cases hId : id = fileId
  · subst hId
    have hBoth :
        SameShown (change ((part.find id).getD new))
          (change ((full.find id).getD new)) := by
      cases hPart : part.find id with
      | some entry =>
          rcases h.known hPart with ⟨entry', hFull, hSame, _⟩
          rw [hFull]
          exact hShown _ _ hSame
      | none =>
          cases hFull : full.find id with
          | none => exact hShown _ _ ⟨rfl, rfl, rfl, rfl⟩
          | some entry => exact hNew hPart entry hFull
    simpa [PartEntry, hLive] using hBoth
  · simpa [hId] using h id

/- Entries of the same ids are changed in the same way. -/
theorem PartOf.changed
    {part' full' : Entries} {ids ids' : FileId → Bool}
    (h : PartOf part full)
    (hPart :
      ∀ id, part'.find id = (part.find id).map fun entry =>
        if ids id then change entry else entry)
    (hFull :
      ∀ id, full'.find id = (full.find id).map fun entry =>
        if ids' id then change entry else entry)
    (hKept :
      ∀ id entry entry', part.find id = some entry →
        SameShown entry entry' →
        (entry.deletedAt = none ↔ entry'.deletedAt = none) →
        PartEntry
          (some (if ids id then change entry else entry))
          (some (if ids' id then change entry' else entry')))
    (hLost :
      ∀ entry, entry.deletedAt ≠ none →
        (change entry).deletedAt ≠ none) :
    PartOf part' full' := by
  intro id
  rw [hPart, hFull]
  cases hKnown : part.find id with
  | some entry =>
      rcases h.known hKnown with
        ⟨entry', hFound, hSame, hDeleted⟩
      rw [hFound]
      exact hKept id entry entry' hKnown hSame hDeleted
  | none =>
      have hEntry := h id
      rw [hKnown] at hEntry
      cases hFound : full.find id with
      | none => trivial
      | some entry =>
          rw [hFound] at hEntry
          change PartEntry none (some _)
          split
          · exact hLost entry hEntry
          · exact hEntry

theorem PartOf.content
    (h : PartOf part full)
    (hEnough :
      part.find fileId = none →
        ∀ entry, full.find fileId = some entry →
          TellsPlacement op fileId entry ∧
            TellsContent op entry) :
    PartOf
      ((part.orInsert fileId
        (newRestoreEntry fileId .file op.timestamp)).update
          (· = fileId) (applyContent op))
      ((full.orInsert fileId
        (newRestoreEntry fileId .file op.timestamp)).update
          (· = fileId) (applyContent op)) := by
  apply h.orInsert
  · exact fun _ => rfl
  · exact fun _ _ => applyContent_shown
  · intro hPart entry hFull
    rcases hEnough hPart entry hFull with ⟨hPlacement, hContent⟩
    exact applyContent_new hPlacement hContent

theorem PartOf.folder
    (h : PartOf part full)
    (hEnough :
      part.find fileId = none →
        ∀ entry, full.find fileId = some entry →
          TellsPlacement op fileId entry) :
    PartOf
      ((part.orInsert fileId
        (newRestoreEntry fileId .folder op.timestamp)).update
          (· = fileId) (applyFolder op))
      ((full.orInsert fileId
        (newRestoreEntry fileId .folder op.timestamp)).update
          (· = fileId) (applyFolder op)) := by
  apply h.orInsert
  · exact fun _ => rfl
  · exact fun _ _ => applyFolder_shown
  · intro hPart entry hFull
    exact applyFolder_new (hEnough hPart entry hFull)

theorem applyMoveOperation_find
    (h : Placement.ofOp op = some placement)
    (id : FileId) :
    (applyMoveOperation entries op fileId).find id =
      (entries.find id).map fun entry =>
        if !movesInsideItself entries fileId placement &&
            id = fileId then
          applyMove op placement entry
        else
          entry := by
  unfold applyMoveOperation
  rw [h]
  cases hInside : movesInsideItself entries fileId placement <;>
    simp [hInside]

/- A lost entry stays deleted when it is moved. -/
theorem PartOf.move
    (h : PartOf part full)
    (hEnough :
      part.find fileId ≠ none →
        ∀ placement, Placement.ofOp op = some placement →
          movesInsideItself full fileId placement = true →
            movesInsideItself part fileId placement = true) :
    PartOf (applyMoveOperation part op fileId)
      (applyMoveOperation full op fileId) := by
  cases hPlacement : Placement.ofOp op with
  | none =>
      unfold applyMoveOperation
      rw [hPlacement]
      exact h
  | some placement =>
      apply h.changed (applyMoveOperation_find hPlacement)
        (applyMoveOperation_find hPlacement)
      · intro id entry entry' hKnown hSame hDeleted
        by_cases hId : id = fileId
        · subst hId
          have hInside :
              movesInsideItself part id placement =
                movesInsideItself full id placement := by
            rw [Bool.eq_iff_iff]
            refine ⟨h.inside, ?_⟩
            exact hEnough (by simp [hKnown]) placement hPlacement
          rw [hInside]
          split
          · exact ⟨⟨rfl, rfl, hSame.entryType,
              hSame.contentRef⟩, hDeleted⟩
          · exact ⟨hSame, hDeleted⟩
        · have hEntry : PartEntry (some entry) (some entry') :=
            ⟨hSame, hDeleted⟩
          simpa [hId] using hEntry
      · exact fun entry hGone => hGone

/- A delete marks what is live in both in the same way. -/
theorem PartOf.delete
    (h : PartOf part full)
    (hEnough :
      ∀ id, isLive part id = true →
        id ≠ fileId → hasAncestor full id fileId = true →
          hasAncestor part id fileId = true) :
    PartOf
      (part.update
        (fun id => id = fileId || hasAncestor part id fileId)
        (applyDelete op))
      (full.update
        (fun id => id = fileId || hasAncestor full id fileId)
        (applyDelete op)) := by
  apply h.changed (part.find_update _ _) (full.find_update _ _)
  · intro id entry entry' hKnown hSame hDeleted
    by_cases hLive : entry.deletedAt = none
    · have hIds :
          (id = fileId || hasAncestor part id fileId) =
            (id = fileId || hasAncestor full id fileId) := by
        by_cases hId : id = fileId
        · simp [hId]
        · rw [Bool.eq_iff_iff, Bool.or_eq_true, Bool.or_eq_true]
          refine ⟨Or.imp_right h.ancestor, Or.imp_right ?_⟩
          exact hEnough id (by simp [isLive, hKnown, hLive]) hId
      rw [hIds]
      split
      · exact ⟨⟨hSame.parentId, hSame.name, hSame.entryType,
          hSame.contentRef⟩, by simp [applyDelete]⟩
      · exact ⟨hSame, hDeleted⟩
    · -- What is deleted stays so, marked again or not.
      have hLive' := mt hDeleted.mpr hLive
      split <;> split <;>
        exact ⟨⟨hSame.parentId, hSame.name, hSame.entryType,
          hSame.contentRef⟩, by simp [applyDelete, hLive, hLive']⟩
  · intro entry _
    exact Option.some_ne_none _

/- One operation on both keeps the one a part of the other. -/
theorem PartOf.apply
    (h : PartOf part full)
    (hSees :
      ∀ fileId, op.targetFileId = some fileId →
        SeesEnough full part op fileId) :
    PartOf (applyRestoreOperation part op)
      (applyRestoreOperation full op) := by
  unfold applyRestoreOperation
  cases hTarget : op.targetFileId with
  | none => exact h
  | some fileId =>
      have hEnough := hSees fileId hTarget
      unfold SeesEnough at hEnough
      cases hType : op.opType <;>
        simp only [hType] at hEnough ⊢
      case createFile => exact h.content hEnough
      case uploadNewRevision => exact h.content hEnough
      case restore => exact h.content hEnough
      case createFolder => exact h.folder hEnough
      case rename => exact h.move hEnough
      case move => exact h.move hEnough
      case updateMetadata => exact h.move hEnough
      case delete => exact h.delete hEnough

theorem PartOf.replay
    {ops : List Operation}
    (h : PartOf part full)
    (hSees : SeesEach full part ops) :
    PartOf (replay part ops) (replay full ops) := by
  induction ops generalizing part full with
  | nil => exact h
  | cons op ops ih => exact ih (h.apply hSees.1) hSees.2

theorem applyOpsSinceSnapshot_ok
    {coveredHead : Option OpId}
    (hChain : LogChain (above ++ below))
    (hHolds : Holds files (above ++ below))
    (hCovered : coveredHead = headOf below) :
    applyOpsSinceSnapshot files entries coveredHead
        (headOf (above ++ below)) =
      .ok (replay entries above.reverse, above.length) := by
  unfold applyOpsSinceSnapshot
  cases hCursor : headOf (above ++ below) with
  | none =>
      have hNil := headKey_eq_none_iff.mp hCursor
      rcases List.append_eq_nil_iff.mp hNil with ⟨rfl, _⟩
      rfl
  | some cursor =>
      have hAbove : Holds files above :=
        fun op hOp => hHolds op (List.mem_append_left below hOp)
      have hLength : above.length < files.length + 1 := by
        have hAll := hHolds.length hChain
        rw [List.length_append] at hAll
        omega
      have hRead := uncoveredOps_ok hAbove hChain hCovered
        hCursor (fun _ _ => List.not_mem_nil) hLength
      by_cases hAt : coveredHead = some cursor
      · -- The head itself is covered, and nothing is above it.
        have hNil : above = [] := by
          rw [uncoveredOps, if_pos hAt] at hRead
          injection hRead with hNil
          exact hNil.symm
        subst hNil
        exact if_pos hAt
      · change (if coveredHead = some cursor then _ else
          (uncoveredOps files coveredHead _ [] cursor >>= _)) = _
        rw [if_neg hAt, hRead]
        rfl

/-
  A recovery that starts from a snapshot of any head on the
  chain shows what one from the first operation on shows, as
  long as no operation above that head needs an entry that
  was deleted below it.
-/
theorem recovery_from_snapshot
    {covered : Operation}
    (hChain : LogChain (above ++ covered :: below))
    (hHolds : Holds files (above ++ covered :: below))
    (hSnapshot :
      SnapshotOf snapshot
        (replay [] (covered :: below).reverse))
    (hSees :
      SeesEach (replay [] (covered :: below).reverse) snapshot
        above.reverse) :
    ∃ full part applied applied',
      applyOpsSinceSnapshot files [] none
          (headOf (above ++ covered :: below)) =
        .ok (full, applied) ∧
      applyOpsSinceSnapshot files snapshot (some covered.opId)
          (headOf (above ++ covered :: below)) =
        .ok (part, applied') ∧
      SameLive full part := by
  have hPart :
      applyOpsSinceSnapshot files snapshot (some covered.opId)
          (headOf (above ++ covered :: below)) =
        .ok (replay snapshot above.reverse, above.length) :=
    applyOpsSinceSnapshot_ok hChain hHolds rfl
  have hFull :
      applyOpsSinceSnapshot files [] none
          (headOf (above ++ covered :: below)) =
        .ok (replay [] (above ++ covered :: below).reverse,
          (above ++ covered :: below).length) := by
    have hAll := List.append_nil (above ++ covered :: below)
    rw [← hAll] at hChain hHolds
    have hRead :
        applyOpsSinceSnapshot files [] none
            (headOf (above ++ covered :: below ++ [])) = _ :=
      applyOpsSinceSnapshot_ok hChain hHolds rfl
    rw [hAll] at hRead
    exact hRead
  refine ⟨_, _, _, _, hFull, hPart, ?_⟩
  apply AgreeOnLive.sameLive
  rw [List.reverse_append, replay, List.foldl_append]
  exact (hSnapshot.partOf.replay hSees).agreeOnLive

def noteOperation
    (opUuid : Uuid)
    (baseHead : Option OpId)
    (opType : OpType)
    (newContentRef : Option ContentRef) : Operation where
  opId := ⟨1, opUuid, opUuid⟩
  deviceId := 1
  actorId := "device"
  logicalClock := opUuid
  baseHead := baseHead
  targetFileId := some 7
  opType := opType
  preconditions := ⟨none, none, true, true⟩
  effects :=
    { newRevisionId := newContentRef.map ContentRef.blobId
      newContentRef := newContentRef
      newName := some "note.md"
      newParentId := none
      deleted := opType = .delete }
  timestamp := opUuid
  signature := none

def noteContent : ContentRef where
  blobId := 5
  hash := "af13"
  size := 4
  mime := "text/markdown"
  storageKey := "content/blobs/af/af13"

def noteCreated : Operation :=
  noteOperation 1 none .createFile (some noteContent)

def noteDeleted : Operation :=
  noteOperation 2 (some noteCreated.opId) .delete none

/- Notes brings the file back; its content is not repeated. -/
def noteRestored : Operation :=
  noteOperation 3 (some noteDeleted.opId) .restore none

/- Another device uploads the file again. -/
def noteUploaded : Operation :=
  noteOperation 3 (some noteDeleted.opId) .uploadNewRevision
    (some noteContent)

def noteFiles (newest : Operation) : OpFiles :=
  [noteCreated, noteDeleted, newest].map fun op =>
    (op.opId, .ok op)

theorem recovery_of_uploaded_note :
    ∃ full part applied applied',
      applyOpsSinceSnapshot (noteFiles noteUploaded) [] none
          (some noteUploaded.opId) = .ok (full, applied) ∧
      applyOpsSinceSnapshot (noteFiles noteUploaded) []
          (some noteDeleted.opId) (some noteUploaded.opId) =
        .ok (part, applied') ∧
      SameLive full part := by
  have hChain :
      LogChain ([noteUploaded] ++ noteDeleted :: [noteCreated]) :=
    ⟨⟨rfl, rfl, rfl, trivial⟩, by decide⟩
  apply recovery_from_snapshot hChain
  · intro op hOp
    simp only [List.cons_append, List.nil_append, List.mem_cons,
      List.not_mem_nil, or_false] at hOp
    rcases hOp with rfl | rfl | rfl <;> decide +kernel
  · exact SnapshotOf.nil (by decide +kernel)
  · refine ⟨?_, trivial⟩
    intro fileId hTarget _ entry hFound
    cases hTarget
    have hEntry :
        (replay [] [noteCreated, noteDeleted]).find 7 =
          some entry := hFound
    have hType :
        ((replay [] [noteCreated, noteDeleted]).find 7).map
          FileEntry.entryType = some .file := by
      decide +kernel
    rw [hEntry] at hType
    exact ⟨nofun, by simpa using hType, nofun⟩

/-
  The file is restored as an empty one when the snapshot was
  taken after it was deleted.
-/
theorem restored_file_without_content :
    let chain := [noteRestored, noteDeleted, noteCreated]
    LogChain chain ∧
      Holds (noteFiles noteRestored) chain ∧
      SnapshotOf [] (replay [] [noteCreated, noteDeleted]) ∧
      ∃ full part,
        applyOpsSinceSnapshot (noteFiles noteRestored) [] none
            (headOf chain) = .ok (full, 3) ∧
        applyOpsSinceSnapshot (noteFiles noteRestored) []
            (some noteDeleted.opId) (headOf chain) =
          .ok (part, 1) ∧
        ¬ SameLive full part := by
  refine ⟨⟨⟨rfl, rfl, rfl, trivial⟩, by decide⟩, ?_,
    SnapshotOf.nil (by decide +kernel),
    replay [] [noteCreated, noteDeleted, noteRestored],
    replay [] [noteRestored], ?_, ?_, ?_⟩
  · intro op hOp
    simp only [List.mem_cons, List.not_mem_nil, or_false] at hOp
    rcases hOp with rfl | rfl | rfl <;> decide +kernel
  · decide +kernel
  · decide +kernel
  · intro hSame
    rcases hSame.shown 7 (by decide +kernel) with
      ⟨entry, entry', hFull, hPart, hShown, _⟩
    have hContent :
        ((replay [] [noteCreated, noteDeleted,
            noteRestored]).find 7).bind FileEntry.contentRef =
          ((replay [] [noteRestored]).find 7).bind
            FileEntry.contentRef := by
      rw [hFull, hPart]
      exact hShown.contentRef
    exact absurd hContent (by decide +kernel)

end Recovery

end S4Drive

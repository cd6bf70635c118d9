import S4Drive.Library.CrashRun
import S4Drive.Metadata.Compaction
import S4Drive.Metadata.LogInvariant

/-
  Runs of the compactor, one at a time, each of which may be
  cut off before any of its requests. Between the runs the
  log grows, snapshots are written and time goes by.

  Main declarations:
    * `Bucket.serve`
    * `LogHistory`, `MaintenanceAction`, `LogHistory.step`
    * `Parts`, `Pass`
    * `CompactionOk`
-/

------------------------------------------------------------
-- A Bucket of One Program
------------------------------------------------------------

namespace S4Drive

open ObjectStore Concurrency ChainLog

variable {l : Type}

/- The objects that are there, and the clock. -/
structure Bucket where
  objects : Objects Key Body
  now : Timestamp

namespace Bucket

def read (b : Bucket) (key : Key) : CoreResult Body :=
  match b.objects.lookup key with
  | some body => .ok body
  | none => .error (.notFound "object")

def put (b : Bucket) (key : Key) (body : Body) : Bucket :=
  { b with
    objects :=
      (Write.put key body : Write Key Body).apply b.objects }

def delete (b : Bucket) (key : Key) : Bucket :=
  { b with
    objects :=
      (Write.delete key : Write Key Body).apply b.objects }

/-
  The requests that the compactor makes, each of them served
  at once. A write is carried out when it is sent; none of
  the compactor's writes has a condition.
-/
def serve :
    (r : Req) → Bucket → Option (Resp r × Bucket)
  | .getObject key, b => some (b.read key, b)
  | .listObjects under, b =>
      some (.ok (b.objects.keys.filter under.covers), b)
  | .now, b => some (b.now, b)
  | .send write, b =>
      some (0, { b with objects := write.apply b.objects })
  | .await _, b => some (.ok true, b)
  | _, _ => none

@[simp] theorem lookup_put_self
    (b : Bucket) (key : Key) (body : Body) :
    (b.put key body).objects.lookup key = some body :=
  Write.lookup_apply_self b.objects (.put key body)

@[simp] theorem lookup_delete_self
    (b : Bucket) (key : Key) :
    (b.delete key).objects.lookup key = none :=
  Write.lookup_apply_self b.objects (.delete key)

theorem lookup_put_of_ne
    {b : Bucket} {key key' : Key} {body : Body}
    (hKey : key' ≠ key) :
    (b.put key body).objects.lookup key' =
      b.objects.lookup key' :=
  Write.lookup_apply_of_ne hKey

theorem lookup_delete_of_ne
    {b : Bucket} {key key' : Key}
    (hKey : key' ≠ key) :
    (b.delete key).objects.lookup key' =
      b.objects.lookup key' :=
  Write.lookup_apply_of_ne hKey

end Bucket

/-
  The bucket, the operations that were committed, newest
  first, and the newest snapshot.
-/
structure LogHistory where
  bucket : Bucket
  chain : List Operation
  latest : Option SnapshotMetadata

inductive MaintenanceAction where
  | commit (op : Operation)
  | tick (elapsed : Nat)
  | register (device : Device)
  | report (watermark : DeviceWatermark)
  -- A snapshot of the tree at an operation of the chain.
  | snapshot (coveredHead : OpId)
  -- A run that is cut off after so many requests.
  | compact (batchLimit staleDays requests : Nat)

/- The chain from an operation on downwards. -/
def chainFrom
    (id : OpId)
    (chain : List Operation) : List Operation :=
  chain.dropWhile fun op => op.opId ≠ id

namespace LogHistory

def fresh : LogHistory :=
  ⟨⟨∅, 0⟩, [], none⟩

/- What a run of the compactor that is cut off leaves. -/
def compacted
    (retentionDays : Nat)
    (snapshot : SnapshotMetadata)
    (batchLimit staleDays requests : Nat)
    (b : Bucket) :
    Option (CoreResult OpCompactionReport × Unit) × Bucket :=
  runFor Bucket.serve requests
    (OpLogCompactor.compact snapshot batchLimit staleDays
      retentionDays ()) b

/- A snapshot covers at least what the one before covers. -/
def mayCover
    (s : LogHistory)
    (coveredHead : OpId) : Bool :=
  !(chainFrom coveredHead s.chain).isEmpty &&
    s.latest.all fun snapshot =>
      snapshot.coveredHead.all fun before =>
        (chainFrom coveredHead s.chain).any fun op =>
          op.opId = before

def step
    (retentionDays : Nat)
    (s : LogHistory) :
    MaintenanceAction → Option LogHistory
  | .commit op =>
      if op.baseHead = headOf s.chain &&
          s.chain.all (fun x => x.opId ≠ op.opId) then
        some { s with
          bucket := s.bucket.put (.op op.opId) (.operation op)
          chain := op :: s.chain }
      else
        none
  | .tick elapsed =>
      some { s with
        bucket :=
          { s.bucket with now := s.bucket.now + elapsed } }
  | .register device =>
      some { s with
        bucket := s.bucket.put
          (.deviceRegistration device.deviceId)
          (.device device) }
  | .report watermark =>
      some { s with
        bucket := s.bucket.put
          (.deviceWatermark watermark.deviceId)
          (.deviceWatermark watermark) }
  | .snapshot coveredHead =>
      if s.mayCover coveredHead then
        some { s with
          latest := some
            ⟨(s.latest.map SnapshotMetadata.seqNum).getD 0 + 1,
              some coveredHead⟩ }
      else
        none
  | .compact batchLimit staleDays requests =>
      s.latest.map fun snapshot =>
        { s with
          bucket :=
            (compacted retentionDays snapshot batchLimit
              staleDays requests s.bucket).2 }

def run
    (retentionDays : Nat)
    (s : LogHistory) :
    List MaintenanceAction → Option LogHistory
  | [] => some s
  | a :: rest =>
      (s.step retentionDays a).bind fun s' =>
        s'.run retentionDays rest

/- Any commits, snapshots and runs, cut off anywhere. -/
def Reachable
    (retentionDays : Nat)
    (s : LogHistory) : Prop :=
  ∃ actions, fresh.run retentionDays actions = some s

end LogHistory

/- The object of the operation is there. -/
def Stored (b : Bucket) (op : Operation) : Prop :=
  b.objects.lookup (.op op.opId) = some (.operation op)

def Deleted (b : Bucket) (op : Operation) : Prop :=
  b.objects.lookup (.op op.opId) = none

/- The operation is past its retention. -/
def Expired
    (retentionDays : Nat)
    (time : Timestamp)
    (op : Operation) : Prop :=
  days retentionDays + op.timestamp ≤ time

instance
    (b : Bucket)
    (op : Operation) : Decidable (Stored b op) :=
  inferInstanceAs (Decidable (_ = _))

instance
    (retentionDays : Nat)
    (time : Timestamp)
    (op : Operation) : Decidable (Expired retentionDays time op) :=
  inferInstanceAs (Decidable (_ ≤ _))

/-
  The chain as the compactor sees it: what is newer than the
  covered head, and below it what this pass has deleted, is
  about to delete and has not reached yet; what earlier
  passes have deleted is at the bottom.
-/
structure Parts where
  newer : List Operation
  covered : Operation
  done : List Operation
  pending : List Operation
  remaining : List Operation
  gone : List Operation

def Parts.chain (p : Parts) : List Operation :=
  p.newer ++ p.covered ::
    (p.done ++ (p.pending ++ (p.remaining ++ p.gone)))

/- A cursor stands at the first operation not yet reached. -/
structure Pass
    (retentionDays : Nat)
    (b : Bucket)
    (cursor : OpCompactionCursor)
    (p : Parts) : Prop where
  head : cursor.coveredHead = p.covered.opId
  pending : cursor.pendingDelete = p.pending.map Operation.opId
  next :
    cursor.nextOp = headOf (p.remaining ++ p.gone) ∨
      (p.remaining = [] ∧ cursor.nextOp = none)
  kept :
    ∀ op ∈ p.newer ++ p.covered :: p.remaining, Stored b op
  deleted : ∀ op ∈ p.done ++ p.gone, Deleted b op
  expired :
    ∀ op ∈ p.done ++ (p.pending ++ p.gone),
      Expired retentionDays b.now op

/- The cursor belongs to the snapshot or to an earlier one. -/
structure Covers
    (cursor : OpCompactionCursor)
    (snapshot : SnapshotMetadata)
    (p : Parts) : Prop where
  seq : cursor.snapshotSeq ≤ snapshot.seqNum
  same :
    cursor.snapshotSeq = snapshot.seqNum →
      snapshot.coveredHead = some cursor.coveredHead
  head :
    ∃ op ∈ p.newer ++ [p.covered],
      snapshot.coveredHead = some op.opId

/- The cursor that the bucket has. -/
def cursorOf (b : Bucket) : Option OpCompactionCursor :=
  match b.objects.lookup .opsTail with
  | some (.opsTail cursor) => some cursor
  | _ => none

structure CompactionOk
    (retentionDays : Nat)
    (chain : List Operation)
    (latest : Option SnapshotMetadata)
    (b : Bucket) : Prop where
  linked : LogChain chain
  untouched :
    cursorOf b = none → ∀ op ∈ chain, Stored b op
  pass :
    ∀ cursor, cursorOf b = some cursor →
      ∃ p snapshot, p.chain = chain ∧
        latest = some snapshot ∧
        Pass retentionDays b cursor p ∧
        Covers cursor snapshot p
  snapshot :
    ∀ snapshot, latest = some snapshot →
      ∃ op ∈ chain, snapshot.coveredHead = some op.opId

------------------------------------------------------------
-- The Loaded Cursor
------------------------------------------------------------

variable {retentionDays : Nat} {chain : List Operation}
variable {latest : Option SnapshotMetadata}
variable {snapshot : SnapshotMetadata} {head : OpId}
variable {cursor : OpCompactionCursor} {p : Parts}
variable {b b' : Bucket} {op : Operation}

/- The cursor that a pass for the snapshot starts with. -/
def initialCursor
    (b : Bucket)
    (snapshot : SnapshotMetadata)
    (coveredHead : OpId) : OpCompactionCursor where
  snapshotSeq := snapshot.seqNum
  coveredHead := coveredHead
  nextOp :=
    match b.objects.lookup (.op coveredHead) with
    | some (.operation op) => op.baseHead
    | _ => none
  pendingDelete := []

/- The cursor that a run for the snapshot goes on with. -/
def loadedCursor
    (b : Bucket)
    (snapshot : SnapshotMetadata)
    (coveredHead : OpId) : OpCompactionCursor :=
  match cursorOf b with
  | some cursor =>
      if OpLogCompactor.resumes cursor snapshot then
        cursor
      else
        initialCursor b snapshot coveredHead
  | none => initialCursor b snapshot coveredHead

theorem initialCursor_pass
    {newer rest gone : List Operation}
    (hLinked : LogChain (newer ++ op :: (rest ++ gone)))
    (hKept : ∀ x ∈ newer ++ op :: rest, Stored b x)
    (hGone :
      ∀ x ∈ gone,
        Deleted b x ∧ Expired retentionDays b.now x) :
    Pass retentionDays b (initialCursor b snapshot op.opId)
      ⟨newer, op, [], [], rest, gone⟩ := by
  have hOp : Stored b op := hKept op (by simp)
  constructor
  · rfl
  · rfl
  · left
    unfold initialCursor
    rw [hOp]
    exact hLinked.base_of_append
  · exact hKept
  · exact fun x hx => (hGone x hx).1
  · exact fun x hx => (hGone x hx).2

/- A cursor that does not go on has nothing left to do. -/
theorem finished_of_not_resumes
    (hPass : Pass retentionDays b cursor p)
    (hCovers : Covers cursor snapshot p)
    (h : OpLogCompactor.resumes cursor snapshot = false) :
    p.pending = [] ∧ p.remaining = [] := by
  have hSeq := hCovers.seq
  simp only [OpLogCompactor.resumes, Bool.or_eq_false_iff,
    Bool.and_eq_false_iff, decide_eq_false_iff_not,
    Bool.not_eq_false', List.isEmpty_iff, hSeq,
    not_true_eq_false, false_or] at h
  rcases h with ⟨⟨hNext, hPending⟩, _⟩
  rw [hPass.pending, List.map_eq_nil_iff] at hPending
  refine ⟨hPending, ?_⟩
  have hNone : cursor.nextOp = none := by
    cases hCursor : cursor.nextOp with
    | none => rfl
    | some _ =>
        rw [hCursor] at hNext
        cases hNext
  rcases hPass.next with hHead | ⟨hRemaining, _⟩
  · rw [hNone] at hHead
    have hAll := headKey_eq_none_iff.mp hHead.symm
    exact (List.append_eq_nil_iff.mp hAll).1
  · exact hRemaining

/- The loaded cursor describes a pass over the same chain. -/
theorem CompactionOk.loaded
    (h : CompactionOk retentionDays chain latest b)
    (hLatest : latest = some snapshot)
    (hHead : snapshot.coveredHead = some head) :
    ∃ p, p.chain = chain ∧
      Pass retentionDays b (loadedCursor b snapshot head) p ∧
      Covers (loadedCursor b snapshot head) snapshot p := by
  unfold loadedCursor
  have hLinked := h.linked
  cases hCursor : cursorOf b with
  | none =>
      rcases h.snapshot snapshot hLatest with ⟨op, hOp, hSame⟩
      rw [hHead] at hSame
      cases hSame
      rcases List.append_of_mem hOp with ⟨newer, rest, rfl⟩
      refine ⟨⟨newer, op, [], [], rest, []⟩, ?_, ?_, ?_⟩
      · simp [Parts.chain]
      · apply initialCursor_pass
        · rw [List.append_nil]
          exact hLinked
        · exact h.untouched hCursor
        · intro x hx
          cases hx
      · exact ⟨Nat.le_refl _, fun _ => hHead, op, by simp,
          hHead⟩
  | some cursor =>
  rcases h.pass cursor hCursor with
    ⟨p, snapshot', hChain, hSame, hPass, hCovers⟩
  rw [hLatest] at hSame
  cases hSame
  dsimp only
  split
  · exact ⟨p, hChain, hPass, hCovers⟩
  · rename_i hResumes
    rw [Bool.not_eq_true] at hResumes
    rcases finished_of_not_resumes hPass hCovers hResumes with
      ⟨hPending, hRemaining⟩
    rcases hCovers.head with ⟨op, hOp, hSame⟩
    rw [hHead] at hSame
    cases hSame
    rcases List.append_of_mem hOp with ⟨newer, rest, hSplit⟩
    have hWhole :
        chain = newer ++ op :: (rest ++ (p.done ++ p.gone)) := by
      rw [← hChain, Parts.chain, hPending, hRemaining]
      rw [List.nil_append, List.nil_append,
        ← List.singleton_append, ← List.append_assoc, hSplit]
      simp
    refine ⟨⟨newer, op, [], [], rest, p.done ++ p.gone⟩, ?_,
      ?_, ?_⟩
    · rw [hWhole]
      simp [Parts.chain]
    · apply initialCursor_pass
      · rw [← hWhole]
        exact hLinked
      · intro x hx
        apply hPass.kept x
        rw [hRemaining, hSplit]
        exact hx
      · intro x hx
        refine ⟨hPass.deleted x hx, hPass.expired x ?_⟩
        rw [hPending]
        exact hx
    · exact ⟨Nat.le_refl _, fun _ => hHead, op, by simp,
        hHead⟩

variable {I : Bucket → Prop} {α : Type} {v : l}
variable {id : OpId} {key : Key} {body : Body}

theorem endures_getObject
    {Q : CoreResult Body → l → Bucket → Prop}
    (hI : I b)
    (h : Q (b.read key) v b) :
    Endures Bucket.serve I (getObject key) v Q b :=
  endures_call hI rfl h

variable {Q : CoreResult Unit → l → Bucket → Prop}

theorem endures_putObject
    (hI : I b)
    (hI' : I (b.put key body))
    (h : Q (.ok ()) v (b.put key body)) :
    Endures Bucket.serve I (putObject key body) v Q b := by
  apply endures_bind
  apply endures_bind
  apply endures_request hI rfl
  exact endures_call hI' rfl h

theorem endures_deleteObject
    (hI : I b)
    (hI' : I (b.delete key))
    (h : Q (.ok ()) v (b.delete key)) :
    Endures Bucket.serve I (deleteObject key) v Q b := by
  apply endures_bind
  apply endures_bind
  apply endures_request hI rfl
  exact endures_call hI' rfl h

namespace OpLogCompactor

theorem readOperation_stored
    {Q : CoreResult Operation → l → Bucket → Prop}
    (hI : I b)
    (hStored : Stored b op)
    (h : Q (.ok op) v b) :
    Endures Bucket.serve I (readOperation op.opId) v Q b := by
  apply endures_bind
  apply endures_getObject hI
  have hRead : b.read (.op op.opId) = .ok (.operation op) := by
    unfold Bucket.read
    rw [hStored]
  rw [hRead]
  exact h

theorem readOperation_missing
    {Q : CoreResult Operation → l → Bucket → Prop}
    (hI : I b)
    (hNone : b.objects.lookup (.op id) = none)
    (h : Q (.error (.notFound "object")) v b) :
    Endures Bucket.serve I (readOperation id) v Q b := by
  apply endures_bind
  apply endures_getObject hI
  have hRead :
      b.read (.op id) = .error (.notFound "object") := by
    unfold Bucket.read
    rw [hNone]
  rw [hRead]
  exact h

theorem readCursor_endures
    {Q :
      CoreResult (Option OpCompactionCursor) → l → Bucket →
        Prop}
    (hI : I b)
    (h : Q (.ok (cursorOf b)) v b) :
    Endures Bucket.serve I readCursor v Q b := by
  unfold readCursor
  apply endures_bind
  apply endures_attempt
  apply endures_getObject hI
  unfold Bucket.read
  unfold cursorOf at h
  cases hBody : b.objects.lookup .opsTail with
  | none =>
      rw [hBody] at h
      exact h
  | some body =>
      rw [hBody] at h
      cases body with
      | opsTail cursor => exact h
      | _ => exact h

theorem initializeCursor_endures
    {Q : CoreResult OpCompactionCursor → l → Bucket → Prop}
    (hI : I b)
    (hStored : Stored b op)
    (h : Q (.ok (initialCursor b snapshot op.opId)) v b) :
    Endures Bucket.serve I
      (initializeCursor snapshot op.opId) v Q b := by
  unfold initializeCursor
  apply endures_bind
  apply endures_attempt
  apply readOperation_stored hI hStored
  unfold initialCursor at h
  rw [hStored] at h
  exact h

theorem loadOrInitializeCursor_endures
    {Q : CoreResult OpCompactionCursor → l → Bucket → Prop}
    (hI : I b)
    (hStored : Stored b op)
    (h : Q (.ok (loadedCursor b snapshot op.opId)) v b) :
    Endures Bucket.serve I
      (loadOrInitializeCursor snapshot op.opId) v Q b := by
  unfold loadOrInitializeCursor
  apply endures_bind
  apply readCursor_endures hI
  unfold loadedCursor at h
  unfold Proceeds
  cases hCursor : cursorOf b with
  | none =>
      rw [hCursor] at h
      exact initializeCursor_endures hI hStored h
  | some cursor =>
      rw [hCursor] at h
      dsimp only at h ⊢
      split
      · rename_i hResumes
        rw [if_pos hResumes] at h
        exact h
      · rename_i hResumes
        rw [if_neg hResumes] at h
        exact initializeCursor_endures hI hStored h

end OpLogCompactor

------------------------------------------------------------
-- Scans
------------------------------------------------------------

/-
  A scan takes expired operations from the top of what is
  left. It takes none only when nothing is left or the first
  one is retained.
-/
structure Scanned
    (retentionDays : Nat)
    (b : Bucket)
    (start : Option OpId)
    (remaining gone : List Operation)
    (scan : CompactableScan)
    (batch rest : List Operation) : Prop where
  split : remaining = batch ++ rest
  ids : scan.opIds = batch.map Operation.opId
  expired : ∀ op ∈ batch, Expired retentionDays b.now op
  next :
    scan.nextOp = headOf (rest ++ gone) ∨
      (rest = [] ∧ scan.nextOp = none)
  empty :
    batch = [] →
      (rest = [] ∧ scan.nextOp = none) ∨
        ∃ op below, rest = op :: below ∧
          start = some op.opId ∧ scan.nextOp = start ∧
          ¬ Expired retentionDays b.now op

theorem OpLogCompactor.compactableAncestors_endures
    {limit : Nat} {next : Option OpId}
    {remaining gone : List Operation}
    {Q : CoreResult CompactableScan → l → Bucket → Prop}
    (hI : I b)
    (hLinked : LogChain (remaining ++ gone))
    (hKept : ∀ op ∈ remaining, Stored b op)
    (hGone : ∀ op ∈ gone, Deleted b op)
    (hNext :
      next = headOf (remaining ++ gone) ∨
        (remaining = [] ∧ next = none))
    (h :
      ∀ scan batch rest,
        Scanned retentionDays b next remaining gone scan
            batch rest ∨
          (limit = 0 ∧ scan = ⟨[], next, false⟩) →
        Q (.ok scan) v b) :
    Endures Bucket.serve I
      (OpLogCompactor.compactableAncestors
        ((b.now : Int) - days retentionDays) limit next) v Q
      b := by
  induction limit generalizing next remaining Q with
  | zero =>
      unfold OpLogCompactor.compactableAncestors
      apply endures_pure
      exact h _ [] [] (.inr ⟨rfl, rfl⟩)
  | succ limit ih =>
  cases next with
  | none =>
      unfold OpLogCompactor.compactableAncestors
      apply endures_pure
      have hNone : remaining = [] := by
        rcases hNext with hHead | ⟨hNone, _⟩
        · have hAll := headKey_eq_none_iff.mp hHead.symm
          exact (List.append_eq_nil_iff.mp hAll).1
        · exact hNone
      refine h _ [] [] (.inl ⟨hNone, rfl, ?_, ?_, ?_⟩)
      · intro op hOp
        cases hOp
      · exact .inr ⟨rfl, rfl⟩
      · exact fun _ => .inl ⟨rfl, rfl⟩
  | some id =>
  have hHead : some id = headOf (remaining ++ gone) := by
    rcases hNext with hHead | ⟨_, hNone⟩
    · exact hHead
    · cases hNone
  unfold OpLogCompactor.compactableAncestors
  apply endures_bind
  apply endures_attempt
  cases remaining with
  | nil =>
      have hMissing : b.objects.lookup (.op id) = none := by
        cases gone with
        | nil => cases hHead
        | cons x gone =>
            cases hHead
            exact hGone x (List.mem_cons_self ..)
      apply OpLogCompactor.readOperation_missing hI hMissing
      refine h _ [] [] (.inl ⟨rfl, rfl, ?_, ?_, ?_⟩)
      · intro op hOp
        cases hOp
      · exact .inr ⟨rfl, rfl⟩
      · exact fun _ => .inl ⟨rfl, rfl⟩
  | cons op below =>
      cases hHead
      apply OpLogCompactor.readOperation_stored hI
        (hKept op (List.mem_cons_self ..))
      unfold Proceeds
      dsimp only
      split
      · rename_i hRetained
        apply endures_pure
        refine h _ [] (op :: below)
          (.inl ⟨rfl, rfl, ?_, ?_, ?_⟩)
        · intro op hOp
          cases hOp
        · exact .inl rfl
        · intro _
          refine .inr ⟨op, below, rfl, rfl, rfl, ?_⟩
          unfold Expired
          omega
      · rename_i hExpired
        have hOld : Expired retentionDays b.now op := by
          unfold Expired
          omega
        have hBase : op.baseHead = headOf (below ++ gone) :=
          hLinked.linked.1
        have hBelow : LogChain (below ++ gone) :=
          hLinked.of_suffix (List.suffix_cons _ _)
        apply endures_bind
        apply ih hBelow
        · exact fun x hx =>
            hKept x (List.mem_cons_of_mem _ hx)
        · exact .inl hBase
        · rintro scan batch rest (hScan | ⟨_, rfl⟩)
          · apply endures_pure
            refine h _ (op :: batch) rest (.inl ⟨?_, ?_, ?_,
              hScan.next, ?_⟩)
            · rw [hScan.split]
              rfl
            · rw [hScan.ids]
              rfl
            · intro x hx
              rcases List.mem_cons.mp hx with rfl | hx
              · exact hOld
              · exact hScan.expired x hx
            · intro hNone
              cases hNone
          · apply endures_pure
            refine h _ [op] below (.inl ⟨rfl, rfl, ?_, ?_, ?_⟩)
            · intro x hx
              rw [List.mem_singleton.mp hx]
              exact hOld
            · exact .inl hBase
            · intro hNone
              cases hNone

/- Some of these operations have been deleted. -/
structure Dropping
    (ids : List OpId)
    (b b' : Bucket) : Prop where
  now : b'.now = b.now
  tail :
    b'.objects.lookup .opsTail = b.objects.lookup .opsTail
  others :
    ∀ id, id ∉ ids →
      b'.objects.lookup (.op id) = b.objects.lookup (.op id)
  only :
    ∀ id, b'.objects.lookup (.op id) = none ∨
      b'.objects.lookup (.op id) = b.objects.lookup (.op id)

theorem Dropping.refl
    (ids : List OpId)
    (b : Bucket) : Dropping ids b b :=
  ⟨rfl, rfl, fun _ _ => rfl, fun _ => .inr rfl⟩

theorem Dropping.delete
    {ids : List OpId}
    (h : Dropping ids (b.delete (.op id)) b') :
    Dropping (id :: ids) b b' := by
  have other :
      ∀ id', id' ≠ id →
        (b.delete (.op id)).objects.lookup (.op id') =
          b.objects.lookup (.op id') := by
    intro id' hNe
    apply Bucket.lookup_delete_of_ne
    intro hKey
    cases hKey
    exact hNe rfl
  constructor
  · exact h.now
  · rw [h.tail]
    apply Bucket.lookup_delete_of_ne
    intro hKey
    cases hKey
  · intro id' hId'
    rw [List.mem_cons, not_or] at hId'
    rw [h.others id' hId'.2, other id' hId'.1]
  · intro id'
    rcases h.only id' with hNone | hSame
    · exact .inl hNone
    by_cases hId : id' = id
    · left
      rw [hSame, hId, Bucket.lookup_delete_self]
    · right
      rw [hSame, other id' hId]

theorem OpLogCompactor.deleteOperations_endures
    {ids : List OpId}
    (hI : ∀ b', Dropping ids b b' → I b')
    (h :
      ∀ b', Dropping ids b b' →
        (∀ id ∈ ids, b'.objects.lookup (.op id) = none) →
        Q (.ok ()) v b') :
    Endures Bucket.serve I (OpLogCompactor.deleteOperations ids)
      v Q b := by
  induction ids generalizing b with
  | nil =>
      apply endures_pure
      apply h b (.refl _ b)
      intro id hId
      cases hId
  | cons id rest ih =>
      have hFirst := Dropping.delete
        (Dropping.refl rest (b.delete (.op id)))
      apply endures_bind
      apply endures_deleteObject (hI b (.refl _ b))
        (hI _ hFirst)
      apply ih
      · exact fun b' hDrop => hI b' hDrop.delete
      · intro b' hDrop hNone
        apply h b' hDrop.delete
        intro id' hId'
        rcases List.mem_cons.mp hId' with rfl | hId'
        · rcases hDrop.only id' with hGone | hSame
          · exact hGone
          · rw [hSame, Bucket.lookup_delete_self]
        · exact hNone id' hId'

------------------------------------------------------------
-- Passes Kept
------------------------------------------------------------

theorem cursorOf_congr
    (h :
      b'.objects.lookup .opsTail = b.objects.lookup .opsTail) :
    cursorOf b' = cursorOf b := by
  unfold cursorOf
  rw [h]

@[simp] theorem cursorOf_put
    (b : Bucket)
    (cursor : OpCompactionCursor) :
    cursorOf (b.put .opsTail (.opsTail cursor)) =
      some cursor := by
  unfold cursorOf
  rw [Bucket.lookup_put_self]

theorem lookup_op_putTail
    (b : Bucket)
    (cursor : OpCompactionCursor)
    (id : OpId) :
    (b.put .opsTail (.opsTail cursor)).objects.lookup
      (.op id) = b.objects.lookup (.op id) := by
  apply Bucket.lookup_put_of_ne
  intro hKey
  cases hKey

theorem Pass.congr
    (h : Pass retentionDays b cursor p)
    (hOps :
      ∀ op ∈ p.chain, b'.objects.lookup (.op op.opId) =
        b.objects.lookup (.op op.opId))
    (hNow : b.now ≤ b'.now) :
    Pass retentionDays b' cursor p := by
  refine ⟨h.head, h.pending, h.next, ?_, ?_, ?_⟩
  · intro op hOp
    unfold Stored
    rw [hOps op (by simp [Parts.chain] at hOp ⊢; tauto)]
    exact h.kept op hOp
  · intro op hOp
    unfold Deleted
    rw [hOps op (by simp [Parts.chain] at hOp ⊢; tauto)]
    exact h.deleted op hOp
  · intro op hOp
    exact Nat.le_trans (h.expired op hOp) hNow

/- What is about to be deleted may go at any time. -/
theorem Pass.drop
    (h : Pass retentionDays b cursor p)
    (hNodup : (p.chain.map Operation.opId).Nodup)
    (hDrop : Dropping cursor.pendingDelete b b') :
    Pass retentionDays b' cursor p := by
  have distinct :
      ∀ x ∈ p.newer ++ p.covered :: p.remaining,
        x.opId ∉ cursor.pendingDelete := by
    intro x hx hPending
    rw [h.pending] at hPending
    rcases List.mem_map.mp hPending with ⟨y, hy, hSame⟩
    have hxy : y = x := by
      apply List.inj_on_of_nodup_map hNodup _ _ hSame
      · simp [Parts.chain, hy]
      · simp [Parts.chain] at hx ⊢
        tauto
    subst hxy
    simp only [Parts.chain, List.map_append, List.map_cons]
      at hNodup
    simp only [List.mem_append, List.mem_cons] at hx
    simp only [List.nodup_append, List.nodup_cons,
      List.mem_append, List.mem_cons, List.mem_map] at hNodup
    grind
  refine ⟨h.head, h.pending, h.next, ?_, ?_, ?_⟩
  · intro op hOp
    unfold Stored
    rw [hDrop.others _ (distinct op hOp)]
    exact h.kept op hOp
  · intro op hOp
    rcases hDrop.only op.opId with hNone | hSame
    · exact hNone
    · exact hSame.trans (h.deleted op hOp)
  · rw [hDrop.now]
    exact h.expired

/- After its deletes a batch counts as done. -/
theorem Pass.finish
    (h : Pass retentionDays b cursor p)
    (hGone :
      ∀ id ∈ cursor.pendingDelete,
        b.objects.lookup (.op id) = none) :
    Pass retentionDays b { cursor with pendingDelete := [] }
      { p with done := p.done ++ p.pending, pending := [] } := by
  refine ⟨h.head, rfl, h.next, h.kept, ?_, ?_⟩
  · intro op hOp
    simp only [List.mem_append] at hOp
    rcases hOp with (hOp | hOp) | hOp
    · exact h.deleted op (List.mem_append_left _ hOp)
    · apply hGone
      rw [h.pending]
      exact List.mem_map_of_mem hOp
    · exact h.deleted op (List.mem_append_right _ hOp)
  · intro op hOp
    apply h.expired op
    simp only [List.mem_append, List.nil_append] at hOp ⊢
    tauto

theorem Parts.chain_finish
    (p : Parts) :
    Parts.chain
        { p with done := p.done ++ p.pending, pending := [] } =
      p.chain := by
  simp [Parts.chain]

/- A pass whose scan was successful takes on the batch. -/
theorem Pass.take
    {scan : CompactableScan} {batch rest : List Operation}
    (h : Pass retentionDays b cursor p)
    (hPending : p.pending = [])
    (hScan :
      Scanned retentionDays b cursor.nextOp p.remaining p.gone
        scan batch rest) :
    Pass retentionDays b
      { cursor with
        nextOp := scan.nextOp
        pendingDelete := scan.opIds }
      { p with pending := batch, remaining := rest } := by
  refine ⟨h.head, hScan.ids, hScan.next, ?_, h.deleted, ?_⟩
  · intro op hOp
    apply h.kept op
    rw [hScan.split]
    simp only [List.mem_append, List.mem_cons] at hOp ⊢
    tauto
  · intro op hOp
    simp only [List.mem_append] at hOp
    rcases hOp with hOp | hOp | hOp
    · exact h.expired op (List.mem_append_left _ hOp)
    · exact hScan.expired op hOp
    · apply h.expired op
      rw [hPending]
      exact List.mem_append_right _ hOp

theorem Parts.chain_take
    {batch rest : List Operation}
    (hPending : p.pending = [])
    (hSplit : p.remaining = batch ++ rest) :
    Parts.chain { p with pending := batch, remaining := rest } =
      p.chain := by
  simp [Parts.chain, hPending, hSplit]

/- The operations of a pass are not in the cursor's object. -/
theorem Pass.written
    (h : Pass retentionDays b cursor p)
    (other : OpCompactionCursor) :
    Pass retentionDays (b.put .opsTail (.opsTail other)) cursor
      p :=
  h.congr (fun op _ => lookup_op_putTail b other op.opId)
    (Nat.le_refl b.now)

/- The invariant after a cursor was written. -/
theorem CompactionOk.write
    (h : CompactionOk retentionDays chain latest b)
    (hLatest : latest = some snapshot)
    (hChain : p.chain = chain)
    (hPass : Pass retentionDays b cursor p)
    (hCovers : Covers cursor snapshot p) :
    CompactionOk retentionDays chain latest
      (b.put .opsTail (.opsTail cursor)) where
  linked := h.linked
  untouched := by
    intro hNone
    rw [cursorOf_put] at hNone
    cases hNone
  pass := by
    intro cursor' hCursor
    rw [cursorOf_put] at hCursor
    cases hCursor
    exact ⟨p, snapshot, hChain, hLatest, hPass.written cursor,
      hCovers⟩
  snapshot := h.snapshot

theorem CompactionOk.drop
    (h : CompactionOk retentionDays chain latest b)
    (hCursor : cursorOf b = some cursor)
    (hDrop : Dropping cursor.pendingDelete b b') :
    CompactionOk retentionDays chain latest b' where
  linked := h.linked
  untouched := by
    intro hNone
    rw [cursorOf_congr hDrop.tail, hCursor] at hNone
    cases hNone
  pass := by
    intro cursor' hCursor'
    rw [cursorOf_congr hDrop.tail] at hCursor'
    have hSame := hCursor'
    rw [hCursor] at hSame
    cases hSame
    rcases h.pass cursor hCursor with
      ⟨p, snapshot, rfl, hLatest, hPass, hCovers⟩
    exact ⟨p, snapshot, rfl, hLatest,
      hPass.drop h.linked.nodup hDrop, hCovers⟩
  snapshot := h.snapshot

end S4Drive

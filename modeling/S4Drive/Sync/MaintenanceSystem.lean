import S4Drive.Sync.VisibleEntries
import S4Drive.Sync.DeviceSystem

/-
  Compaction of the log, retirement of deletion records and
  pruning of snapshots, by any number of devices at the same
  time, and what one of their requests changes for the files
  that the engine sees.

  Main declarations:
    * `SnapshotManager.pruneSnapshots`
    * `maintenanceSystem`
    * `Shrinks`, `MayDelete`, `serve_plain`
    * `transparent_delete_op_iff`
    * `Transparent` and its rules
-/

------------------------------------------------------------
-- Pruned Snapshots
------------------------------------------------------------

namespace S4Drive

open ObjectStore Concurrency

variable {l α γ : Type}

namespace SnapshotManager

def snapshotSeq : Key → Option Nat
  | .snapshot seqNum => some seqNum
  | .snapshotMetadata seqNum => some seqNum
  | _ => none

def deleteKeys : List Key → CloudM l Unit
  | [] => pure ()
  | key :: rest => do
      deleteObject key
      deleteKeys rest

/- The numbers of the snapshots, without the newest ones. -/
def prunedSeqs
    (keepCount : Nat)
    (keys : List Key) : List Nat :=
  ((keys.filterMap snapshotSeq).dedup.mergeSort
    fun a b => b ≤ a).drop keepCount

def keysOf (keys : List Key) (seqNum : Nat) : List Key :=
  keys.filter fun key => snapshotSeq key = some seqNum

def pruneSnapshots (keepCount : Nat) : CloudM l Nat := do
  let keys ← listObjects .snapshots
  let seqs := prunedSeqs keepCount keys
  deleteKeys (seqs.flatMap (keysOf keys))
  pure seqs.length

end SnapshotManager

/-
  One request of a maintenance job. It may fail, with its
  write carried out or not, but never says that an object
  that is there is missing.
-/
def serveMaintenance
    (r : Req)
    (choice : Choice)
    (b : Bucket) : Option (Resp r × Bucket) :=
  match r, choice with
  | .getObject key, .answer => some (b.read key, b)
  | .headObject key, .answer =>
      match b.objects.lookup key with
      | some body => some (.ok ⟨body⟩, b)
      | none => some (.error (.notFound "object"), b)
  | .listObjects under, .answer =>
      some (.ok (b.objects.keys.filter under.covers), b)
  | .now, .answer => some (b.now, b)
  | .prepare _, .answer => some ((), b)
  | .send write, .answer =>
      if write.Allowed b.objects then
        some (0, { b with objects := write.apply b.objects })
      else
        some (1, b)
  | .send _, .fail _ => some (1, b)
  | .await ticket, .reply done =>
      -- A retried write may be refused after it was applied.
      if done && ticket != 0 then none
      else some (.ok done, b)
  | .getObject _, .fail e =>
      if e.isNotFound then none else some (.error e, b)
  | .headObject _, .fail e =>
      if e.isNotFound then none else some (.error e, b)
  | .listObjects _, .fail e => some (.error e, b)
  | .await _, .fail e => some (.error e, b)
  | _, _ => none

def maintenanceMachine :
    Machine Req Resp Bucket Tid Choice where
  serve := fun _ => serveMaintenance

inductive MaintenanceJob where
  | compact
      (snapshot : SnapshotMetadata)
      (batchLimit staleDays retentionDays : Nat)
  | retire (fileId : FileId) (time : Timestamp)
  | prune (keepCount : Nat)

def MaintenanceJob.run : MaintenanceJob → CloudM Unit Unit
  | compact snapshot batchLimit staleDays retentionDays => do
      let _ ← OpLogCompactor.compact snapshot batchLimit
        staleDays retentionDays
  | retire fileId time => do
      let _ ← collectExpiredTombstoneAt fileId time
  | prune keepCount => do
      let _ ← SnapshotManager.pruneSnapshots keepCount

/- Any number of jobs; the environment lets time pass. -/
def maintenanceSystem :
    ThreadSystem Req Resp Bucket Tid Choice MaintenanceJob
      (CoreResult Unit) Unit Nat where
  toMachine := maintenanceMachine
  body := fun job v => job.run v
  boot := ()
  begin := fun _ _ _ b => some b
  finish := fun _ _ _ _ _ b => b
  halt := fun _ b => b
  env := fun elapsed b =>
    some { b with now := b.now + elapsed }

abbrev MaintenanceState :=
  SystemState Req Resp Bucket Tid MaintenanceJob
    (CoreResult Unit) Unit

------------------------------------------------------------
-- What Maintenance Changes
------------------------------------------------------------

variable {b b' b'' : Bucket}
variable {fileId : FileId}
variable {v : l}

/- Objects only go, and the engine sees the same files. -/
structure Shrinks (b b' : Bucket) : Prop where
  visible :
    ∀ fileId,
      Visible b'.objects fileId ↔ Visible b.objects fileId
  tree :
    ∀ fileId,
      b'.objects.lookup (.tree fileId) =
        b.objects.lookup (.tree fileId)
  head : b'.objects.lookup .head = b.objects.lookup .head
  records :
    ∀ fileId,
      b'.objects.lookup (.tombstone fileId) =
          b.objects.lookup (.tombstone fileId) ∨
        b'.objects.lookup (.tombstone fileId) = none
  ops :
    ∀ id,
      b'.objects.lookup (.op id) = b.objects.lookup (.op id) ∨
        b'.objects.lookup (.op id) = none

theorem Shrinks.refl (b : Bucket) : Shrinks b b where
  visible := fun _ => Iff.rfl
  tree := fun _ => rfl
  head := rfl
  records := fun _ => .inl rfl
  ops := fun _ => .inl rfl

theorem Shrinks.trans
    (h : Shrinks b b')
    (h' : Shrinks b' b'') : Shrinks b b'' where
  visible := fun fileId =>
    (h'.visible fileId).trans (h.visible fileId)
  tree := fun fileId => (h'.tree fileId).trans (h.tree fileId)
  head := h'.head.trans h.head
  records := by
    intro fileId
    rcases h'.records fileId with hSame | hGone
    · rw [hSame]
      exact h.records fileId
    · exact .inr hGone
  ops := by
    intro id
    rcases h'.ops id with hSame | hGone
    · rw [hSame]
      exact h.ops id
    · exact .inr hGone

/- The compactor deletes no operation that hides a Delete. -/
def MayDelete (r : Req) (b : Bucket) : Prop :=
  match r with
  | .send (.delete (.op id)) => HidesNoDelete b.objects id
  | _ => True

/- The keys that no judgement looks at. -/
def Key.IsAside : Key → Prop
  | .opsTail => True
  | .snapshot _ => True
  | .snapshotMetadata _ => True
  | _ => False

/- A request that reads, or that writes aside or to ops. -/
def Plain : Req → Prop
  | .send (.put key _) => key.IsAside
  | .send (.delete (.op _)) => True
  | .send (.delete key) => key.IsAside
  | .send _ => False
  | _ => True

theorem shrinks_aside
    {write : Write Key Body}
    (hAside : write.key.IsAside) :
    Shrinks b { b with objects := write.apply b.objects } := by
  have hSame :
      ∀ key, ¬ key.IsAside →
        (write.apply b.objects).lookup key =
          b.objects.lookup key := by
    intro key hKey
    apply Write.lookup_apply_of_ne
    rintro rfl
    exact hKey hAside
  constructor
  · intro fileId
    apply visible_congr
    · exact hSame _ not_false
    · exact hSame _ not_false
    · apply latestKept_congr
      · exact hSame _ not_false
      · exact fun id _ => hSame _ not_false
  · exact fun _ => hSame _ not_false
  · exact hSame _ not_false
  · exact fun _ => .inl (hSame _ not_false)
  · exact fun _ => .inl (hSame _ not_false)

theorem lookup_delete_op
    {id : OpId} {key : Key}
    (hKey : key ≠ .op id) :
    (b.delete (.op id)).objects.lookup key =
      b.objects.lookup key :=
  Bucket.lookup_delete_of_ne hKey

/- The condition on the compactor is not only sufficient. -/
theorem transparent_delete_op_iff
    {id : OpId} :
    (∀ fileId,
      Visible (b.delete (.op id)).objects fileId ↔
        Visible b.objects fileId) ↔
      HidesNoDelete b.objects id := by
  apply deleteOp_transparent_iff
  · exact fun _ => lookup_delete_op (by simp)
  · exact fun _ => lookup_delete_op (by simp)
  · exact lookup_delete_op (by simp)
  · exact Bucket.lookup_delete_self b (.op id)
  · exact fun _ hId => lookup_delete_op (by simpa using hId)

theorem shrinks_deleteOp
    {id : OpId}
    (hHides : HidesNoDelete b.objects id) :
    Shrinks b (b.delete (.op id)) := by
  constructor
  · exact transparent_delete_op_iff.mpr hHides
  · exact fun _ => lookup_delete_op (by simp)
  · exact lookup_delete_op (by simp)
  · exact fun _ => .inl (lookup_delete_op (by simp))
  · intro other
    by_cases hId : other = id
    · rw [hId]
      exact .inr (Bucket.lookup_delete_self b (.op id))
    · exact .inl (lookup_delete_op (by simpa using hId))

/- A file whose record can go without being missed. -/
def Unneeded (b : Bucket) (fileId : FileId) : Prop :=
  InTree b.objects fileId → Visible b.objects fileId

theorem Unneeded.later
    (h : Unneeded b fileId)
    (hRely : Shrinks b b') : Unneeded b' fileId := by
  intro hListed
  apply (hRely.visible fileId).mpr
  apply h
  unfold InTree at hListed ⊢
  rw [hRely.tree] at hListed
  exact hListed

theorem shrinks_deleteRecord
    (hUnneeded : Unneeded b fileId) :
    Shrinks b (b.delete (.tombstone fileId)) := by
  have hSame :
      ∀ key, key ≠ .tombstone fileId →
        (b.delete (.tombstone fileId)).objects.lookup key =
          b.objects.lookup key :=
    fun _ hKey => Bucket.lookup_delete_of_ne hKey
  have hGone :
      (b.delete (.tombstone fileId)).objects.lookup
        (.tombstone fileId) = none :=
    Bucket.lookup_delete_self b (.tombstone fileId)
  constructor
  · intro other
    by_cases hOther : other = fileId
    · rw [hOther]
      apply visible_of_deleteRecord
      · exact fun _ => hSame _ (by simp)
      · exact hGone
      · exact hUnneeded
    · apply visible_congr
      · exact hSame _ (by simp)
      · exact hSame _ (by simpa using hOther)
      · apply latestKept_congr
        · exact hSame _ (by simp)
        · exact fun _ _ => hSame _ (by simp)
  · exact fun _ => hSame _ (by simp)
  · exact hSame _ (by simp)
  · intro other
    by_cases hOther : other = fileId
    · rw [hOther]
      exact .inr hGone
    · exact .inl (hSame _ (by simpa using hOther))
  · exact fun _ => .inl (hSame _ (by simp))

/- A plain request of the compactor or of the pruning. -/
theorem serve_plain
    {r : Req} {choice : Choice} {x : Resp r}
    (hPlain : Plain r)
    (hMay : MayDelete r b)
    (hServe : serveMaintenance r choice b = some (x, b')) :
    Shrinks b b' := by
  unfold serveMaintenance at hServe
  split at hServe
  case h_6 write =>
    split at hServe
    · cases hServe
      cases write with
      | put key body => exact shrinks_aside hPlain
      | delete key =>
          cases key with
          | op id => exact shrinks_deleteOp hMay
          | _ => exact shrinks_aside hPlain
      | _ => exact hPlain.elim
    · cases hServe
      exact .refl b
  all_goals
    first
    | cases hServe; exact .refl b
    | split at hServe <;> cases hServe <;> exact .refl b
    | cases hServe

def maintenanceContract : Contract Req Choice Bucket Tid where
  Inv := fun _ => True
  Rely := fun _ => Shrinks
  Admits := fun _ r _ => MayDelete r
  rely_refl := fun _ => Shrinks.refl
  rely_trans := Shrinks.trans

/- Scripts that do not change which files are seen. -/
abbrev Transparent (x : CloudM l α) : Prop :=
  ∀ t, Safe maintenanceMachine maintenanceContract t x

theorem keeps_plain
    {t : Tid} {r : Req} {choice : Choice} {x : Resp r}
    (hPlain : Plain r)
    (hMay : MayDelete r b)
    (hServe : serveMaintenance r choice b = some (x, b')) :
    maintenanceContract.Keeps t b b' :=
  ⟨trivial, fun _ _ => serve_plain hPlain hMay hServe⟩

namespace Transparent

theorem pure (a : α) :
    Transparent (Pure.pure a : CloudM l α) :=
  fun _ => Safe.pure a

theorem throw (e : CoreError) :
    Transparent (Script.throw e : CloudM l α) :=
  fun _ => Safe.throw e

theorem ofExcept (r : CoreResult α) :
    Transparent (Script.ofExcept r : CloudM l α) :=
  fun _ => Safe.ofExcept r

theorem bind
    {x : CloudM l α}
    {f : α → CloudM l γ}
    (hx : Transparent x)
    (hf : ∀ a, Transparent (f a)) : Transparent (x >>= f) :=
  fun t => Safe.bind (hx t) fun a => hf a t

theorem attempt
    {x : CloudM l α}
    (hx : Transparent x) :
    Transparent (Script.attempt x) :=
  fun t => Safe.attempt (hx t)

theorem call
    {r : Req}
    {answer : Resp r → CoreResult α}
    (hPlain : Plain r) :
    Transparent (Script.call r answer : CloudM l α) :=
  fun _ => Safe.call fun _ => keeps_plain hPlain

theorem now : Transparent (S4Drive.now : CloudM l Timestamp) :=
  call (r := .now) trivial

theorem getObject (key : Key) :
    Transparent (S4Drive.getObject key : CloudM l Body) :=
  call (r := .getObject key) trivial

theorem listObjects (under : Prefix) :
    Transparent
      (S4Drive.listObjects under : CloudM l (List Key)) :=
  call (r := .listObjects under) trivial

theorem write
    {w : Write Key Body}
    (hPlain : Plain (.send w)) :
    Transparent (S4Drive.write w : CloudM l Bool) := by
  apply bind
  · exact call (r := .send w) hPlain
  · exact fun ticket => call (r := .await ticket) trivial

theorem deleteObject
    {key : Key}
    (hPlain : Plain (.send (.delete key))) :
    Transparent (S4Drive.deleteObject key : CloudM l Unit) :=
  bind (write hPlain) fun _ => pure _

end Transparent

end S4Drive

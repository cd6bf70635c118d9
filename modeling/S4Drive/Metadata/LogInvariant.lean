import S4Drive.Library.ChainLog
import S4Drive.Metadata.LogSystem

/-
  What holds of the world at every moment while devices work
  on the log. `Basic` needs nothing of the calls: operations
  are immutable and the head pointer names the newest entry
  of its history. `Linear` needs that every head write names
  the ETag of its operation's own base: then the history is
  a chain through `baseHead`.

  Main declarations:
    * `Built`, `Grows`, `Others`
    * `callOperations`
    * `Protocol`, `headWrite`
    * `Basic`, `Linear`, `LogInv`
    * `Host`, `logContract`
-/

------------------------------------------------------------
-- Operations and Heads
------------------------------------------------------------

namespace S4Drive

open ObjectStore Concurrency ChainLog

/- The operation was built by some call. -/
def Built
    (w : World)
    (op : Operation) : Prop :=
  ∃ x ∈ w.issued, x.operation = op

/- The head that a part of the history ends in. -/
abbrev headOf (l : List Operation) : Option OpId :=
  headKey Operation.opId l

abbrev LogChain (l : List Operation) : Prop :=
  Chain Operation.opId Operation.baseHead l

abbrev LogDead (op : Operation) (l : List Operation) : Prop :=
  Dead Operation.opId Operation.baseHead op l

abbrev LogStale
    (head : Option OpId)
    (l : List Operation) : Prop :=
  Stale Operation.opId head l

/- A walk along the bases, past operations in `P`. -/
abbrev Walk
    (w : World)
    (P : Operation → Prop) :
    Option OpId → Option OpId → Prop :=
  Path Operation.baseHead w.operationOf P

/- The ETag of a head pointer that names `id`. -/
def headEtag (id : OpId) : ETag Body :=
  ⟨.head (some id)⟩

/- The write was sent by call number `call` of `t`. -/
def SentIn
    (f : Flight Key Body Sender)
    (t : Tid)
    (call : Nat) : Prop :=
  f.sender.thread = t ∧ f.sender.call = call

instance
    (f : Flight Key Body Sender)
    (t : Tid)
    (call : Nat) : Decidable (SentIn f t call) :=
  inferInstanceAs (Decidable (_ ∧ _))

/- The log's ETag is the one of the head that it knows. -/
def OperationLog.Paired (log : OperationLog) : Prop :=
  log.currentHeadEtag = log.currentHead.map headEtag

instance (log : OperationLog) : Decidable log.Paired :=
  inferInstanceAs (Decidable (_ = _))

/- The CAS of an operation against its own base. -/
def headWrite (op : Operation) : Write Key Body :=
  match op.baseHead with
  | none => .putIfNotExists .head (.head (some op.opId))
  | some base =>
      .putIfMatch .head (.head (some op.opId)) (headEtag base)

/- A conditional write of the head pointer. -/
inductive HeadWrite (id : OpId) : Write Key Body → Prop where
  | first :
      HeadWrite id (.putIfNotExists .head (.head (some id)))
  | next (etag : ETag Body) :
      HeadWrite id (.putIfMatch .head (.head (some id)) etag)

/- The operation that a head write is for. -/
def headWriteId : Write Key Body → Option OpId
  | .putIfNotExists .head (.head id) => id
  | .putIfMatch .head (.head id) _ => id
  | _ => none

variable {id : OpId} {x : Write Key Body}

theorem headWriteId_of_headWrite
    (h : HeadWrite id x) : headWriteId x = some id := by
  cases h <;> rfl

/- The write of an operation object. -/
def opWrite (op : Operation) : Write Key Body :=
  .putIfNotExists (.op op.opId) (.operation op)

/-
  The writes that devices send. With `clean` every head
  write is a CAS of an operation against its own base.
-/
inductive Protocol
    (clean : Prop)
    (built : Operation → Prop) : Write Key Body → Prop where
  | operation
      {op : Operation}
      (known : built op) :
      Protocol clean built (opWrite op)
  | discard
      {op : Operation}
      (known : built op) :
      Protocol clean built (.delete (.op op.opId))
  | head
      {op : Operation} {w : Write Key Body}
      (known : built op)
      (write : HeadWrite op.opId w)
      (own : clean → w = headWrite op) :
      Protocol clean built w
  | other
      {w : Write Key Body}
      (notHead : w.key ≠ .head)
      (notOp : ∀ id, w.key ≠ .op id) :
      Protocol clean built w

------------------------------------------------------------
-- Growth of the World
------------------------------------------------------------

/- What no step ever takes back. -/
structure Grows (w w' : World) : Prop where
  log : w.headLog <:+ w'.headLog
  issued : w.issued <+: w'.issued
  flights : FlightsGrow w.store.flights w'.store.flights
  drawn : w.drawn <:+ w'.drawn
  versions : ∀ key, w.versions key <:+ w'.versions key
  reads : w.reads <:+ w'.reads
  now : w.now ≤ w'.now
  -- An object that is not there comes back by a new version.
  gone :
    ∀ key, w.store.objects.lookup key = none →
      (w'.versions key).length = (w.versions key).length →
        w'.store.objects.lookup key = none

/- What the log's own requests for `t` leave as it is. -/
structure Steps
    (t : Tid)
    (w w' : World) : Prop extends Grows w w' where
  holding : w'.holding t = w.holding t
  calls : w'.calls t = w.calls t
  basis : w'.basis t = w.basis t

/- What the steps of the other threads leave to `t`. -/
structure Others
    (t : Tid)
    (w w' : World) : Prop extends Steps t w w' where
  journals :
    ∀ j, w.holding t = some j →
      w'.journals j = w.journals j
  own : ∀ x ∈ w'.issued, x.issuer = t → x ∈ w.issued

theorem Grows.refl (w : World) : Grows w w :=
  ⟨List.suffix_rfl, List.prefix_rfl, .refl _, List.suffix_rfl,
    fun _ => List.suffix_rfl, List.suffix_rfl,
    Nat.le_refl _, fun _ hNone _ => hNone⟩

variable {w₁ w₂ w₃ : World}

theorem Grows.trans
    (h : Grows w₁ w₂)
    (h' : Grows w₂ w₃) : Grows w₁ w₃ := by
  refine ⟨h.log.trans h'.log, h.issued.trans h'.issued,
    h.flights.trans h'.flights, h.drawn.trans h'.drawn,
    fun key => (h.versions key).trans (h'.versions key),
    h.reads.trans h'.reads, Nat.le_trans h.now h'.now, ?_⟩
  intro key hNone hSame
  have hFirst := (h.versions key).length_le
  have hSecond := (h'.versions key).length_le
  apply h'.gone key
  · exact h.gone key hNone (by omega)
  · omega

theorem Steps.trans
    {t : Tid}
    (h : Steps t w₁ w₂)
    (h' : Steps t w₂ w₃) : Steps t w₁ w₃ :=
  ⟨h.toGrows.trans h'.toGrows,
    h'.holding.trans h.holding, h'.calls.trans h.calls,
    h'.basis.trans h.basis⟩

theorem Others.refl
    (t : Tid)
    (w : World) : Others t w w :=
  ⟨⟨.refl w, rfl, rfl, rfl⟩, fun _ _ => rfl,
    fun _ hx _ => hx⟩

theorem Others.trans
    {t : Tid}
    (h : Others t w₁ w₂)
    (h' : Others t w₂ w₃) : Others t w₁ w₃ := by
  refine ⟨h.toSteps.trans h'.toSteps, ?_, ?_⟩
  · intro j hj
    rw [h'.journals j (h.holding.trans hj), h.journals j hj]
  · intro x hx hIssuer
    exact h.own x (h'.own x hx hIssuer) hIssuer

variable {op : Operation}

theorem Built.mono
    {w w' : World}
    (h : Built w op)
    (hGrows : Grows w w') : Built w' op := by
  rcases h with ⟨x, hx, hOp⟩
  exact ⟨x, hGrows.issued.subset hx, hOp⟩

/- The operations that one call of `t` built, oldest first. -/
def callOperations
    (w : World)
    (t : Tid)
    (call : Nat) : List Operation :=
  (w.issued.filter fun x =>
    x.issuer = t ∧ x.call = call).map Issued.operation

theorem mem_callOperations
    {w : World} {t : Tid} {call : Nat} :
    op ∈ callOperations w t call ↔
      ∃ x ∈ w.issued, x.operation = op ∧ x.issuer = t ∧
        x.call = call := by
  simp only [callOperations, List.mem_map, List.mem_filter,
    decide_eq_true_eq]
  constructor
  · rintro ⟨x, ⟨hx, hOwn⟩, hOp⟩
    exact ⟨x, hx, hOp, hOwn⟩
  · rintro ⟨x, hx, hOp, hOwn⟩
    exact ⟨x, ⟨hx, hOwn⟩, hOp⟩

theorem callOperations_mono
    {w w' : World}
    (hGrows : Grows w w')
    (t : Tid)
    (call : Nat) :
    callOperations w t call <+: callOperations w' t call := by
  rcases hGrows.issued with ⟨rest, hIssued⟩
  unfold callOperations
  rw [← hIssued, List.filter_append, List.map_append]
  exact List.prefix_append _ _

/- The first operation of a call stays its first one. -/
theorem callOperations_first
    {w w' : World} {t : Tid} {call : Nat}
    (hGrows : Grows w w')
    (h : (callOperations w t call).head? = some op) :
    (callOperations w' t call).head? = some op := by
  rcases callOperations_mono hGrows t call with ⟨rest, hRest⟩
  rw [← hRest, List.head?_append, h]
  rfl

theorem operationOf_mono
    {w w' : World}
    (hGrows : Grows w w')
    (h : w.operationOf id = some op) :
    w'.operationOf id = some op := by
  rcases hGrows.issued with ⟨rest, hIssued⟩
  unfold World.operationOf at h ⊢
  rw [← hIssued, List.map_append, List.find?_append, h]
  rfl

theorem Walk.mono
    {w w' : World} {P P' : Operation → Prop}
    {b b' : Option OpId}
    (h : Walk w P b b')
    (hGrows : Grows w w')
    (hP : ∀ op, P op → P' op) : Walk w' P' b b' :=
  Path.mono h (fun _ _ => operationOf_mono hGrows) hP

/- The object of an operation was seen in the store. -/
def Written
    (w : World)
    (op : Operation) : Prop :=
  ∃ f ∈ w.store.flights,
    f.write = opWrite op ∧
      (f.applied = true ∨ f.refused = true)

theorem Written.mono
    {w w' : World}
    (h : Written w op)
    (hGrows : Grows w w') : Written w' op := by
  rcases h with ⟨f, hf, hWrite, hSeen⟩
  rcases hGrows.flights.mem hf with ⟨f', hf', hLater⟩
  refine ⟨f', hf', hLater.write.trans hWrite, ?_⟩
  exact hSeen.imp hLater.applied hLater.refused

------------------------------------------------------------
-- The Invariant
------------------------------------------------------------

/- What holds whatever the devices call. -/
structure Basic
    (clean : Prop)
    (w : World) : Prop where
  ids : (w.issued.map fun x => x.operation.opId).Nodup
  drawn :
    ∀ x ∈ w.issued, w.Drawn x.operation.opId.opUuid
  bases :
    ∀ op, Built w op →
      ∃ l, l <:+ w.headLog ∧ headOf l = op.baseHead
  flights :
    ∀ f ∈ w.store.flights, Protocol clean (Built w) f.write
  objects :
    ∀ id body, w.store.objects.lookup (.op id) = some body →
      ∃ op, Built w op ∧ op.opId = id ∧ body = .operation op
  pointer :
    w.store.objects.lookup .head =
      (headOf w.headLog).map fun id => .head (some id)
  log : ∀ op ∈ w.headLog, Built w op
  applied :
    ∀ f ∈ w.store.flights, f.applied = true →
      ∀ id, HeadWrite id f.write →
        ∃ op ∈ w.headLog, op.opId = id
  logFlights :
    ∀ op ∈ w.headLog, ∃ f ∈ w.store.flights,
      HeadWrite op.opId f.write
  owner : ∀ t j, w.holding t = some j → w.owner j = some t
  numbered : ∀ x ∈ w.issued, x.call ≤ w.calls x.issuer
  targets :
    ∀ x ∈ w.issued, ∀ j, x.journal = some j →
      x.operation.targetFileId = some j.fileId
  recorded :
    ∀ j op,
      op ∈ (w.journals j).receipt.attempts ∨
        op ∈ (w.journals j).stored.attempts →
      ∃ x ∈ w.issued, x.operation = op ∧ x.journal = some j

/-
  The bases of the attempts of a request are heads that came
  no earlier than the base of the first one.
-/
def Floored (attempts l : List Operation) : Prop :=
  ∃ floor, floor <:+ l ∧
    (∀ op ∈ attempts.head?, headOf floor = op.baseHead) ∧
    ∀ op ∈ attempts, ∃ m, floor <:+ m ∧ m <:+ l ∧
      headOf m = op.baseHead

/-
  The attempts of a request, oldest first: all but the last
  are lost for good.
-/
structure AttemptsOk
    (attempts : List Operation)
    (l : List Operation) : Prop where
  dead : ∀ op ∈ attempts.dropLast, LogDead op l
  floor : Floored attempts l

/- A receipt says only what the log bears out. -/
structure ReceiptOk
    (r : Receipt)
    (l : List Operation) : Prop where
  attempts : AttemptsOk r.attempts l
  committed :
    ∀ id, r.committedOpId = some id →
      ∃ op ∈ l, op.opId = id

/- A head write for the operation was sent. -/
def Sent
    (w : World)
    (op : Operation) : Prop :=
  ∃ f ∈ w.store.flights, HeadWrite op.opId f.write

structure JournalOk
    (w : World)
    (j : JournalId) : Prop where
  receipt : ReceiptOk (w.journals j).receipt w.headLog
  stored : ReceiptOk (w.journals j).stored w.headLog
  kept :
    (w.journals j).receipt.attempts <+:
      (w.journals j).stored.attempts
  sent :
    ∀ x ∈ w.issued, x.journal = some j →
      Sent w x.operation →
        x.operation ∈ (w.journals j).receipt.attempts

/- The object of an operation is there or not needed. -/
def Kept
    (w : World)
    (op : Operation) : Prop :=
  w.store.objects.lookup (.op op.opId) =
      some (.operation op) ∨
    LogDead op w.headLog

/- What holds when every CAS is against the own base. -/
structure Linear (w : World) : Prop where
  chain : LogChain w.headLog
  refused :
    ∀ f ∈ w.store.flights, f.refused = true →
      ∀ op, Built w op → f.write = headWrite op →
        LogStale op.baseHead w.headLog
  written : ∀ op, Written w op → Kept w op
  sent : ∀ op, Built w op → Sent w op → Kept w op
  present :
    ∀ op ∈ w.headLog,
      w.store.objects.lookup (.op op.opId) =
        some (.operation op)
  discards :
    ∀ f ∈ w.store.flights, ∀ op, Built w op →
      f.write = .delete (.op op.opId) → LogDead op w.headLog
  journals : ∀ j, JournalOk w j

/- A note says what was there when it was made. -/
structure NoteOk
    (w : World)
    (note : ReadNote) : Prop where
  newest :
    note.versions.head?.map Version.body = some note.body
  versions : note.versions <:+ w.versions note.key
  headLog : note.headLog <:+ w.headLog
  now : note.now ≤ w.now

/- An object has the body that it was given last. -/
structure HistoryOk (w : World) : Prop where
  newest :
    ∀ key body, w.store.objects.lookup key = some body →
      (w.versions key).head?.map Version.body = some body
  reads : ∀ note ∈ w.reads, NoteOk w note
  applied :
    ∀ f ∈ w.store.flights, f.applied = true →
      ∀ body, f.write.body = some body →
        ⟨body, f.sender⟩ ∈ w.versions f.write.key

theorem NoteOk.mono
    {w w' : World} {note : ReadNote}
    (h : NoteOk w note)
    (hGrows : Grows w w') : NoteOk w' note :=
  ⟨h.newest, h.versions.trans (hGrows.versions note.key),
    h.headLog.trans hGrows.log, Nat.le_trans h.now hGrows.now⟩

/- The invariant of the log, plain or `clean`. -/
structure LogInv
    (clean : Prop)
    (w : World) : Prop where
  basic : Basic clean w
  linear : clean → Linear w
  history : HistoryOk w

/- Everything that the log writes is under these keys. -/
def LogKey : Key → Prop
  | .head => True
  | .op _ => True
  | _ => False

/- What a host looks at is the same in both worlds. -/
structure SameData (w w' : World) : Prop where
  store : w'.store = w.store := by rfl
  issued : w'.issued = w.issued := by rfl
  headLog : w'.headLog = w.headLog := by rfl
  versions : w'.versions = w.versions := by rfl
  drawn : w.drawn <:+ w'.drawn := by exact List.suffix_rfl
  reads : w.reads <:+ w'.reads := by exact List.suffix_rfl
  now : w.now ≤ w'.now := by exact Nat.le_refl _

theorem SameData.grows
    {w w' : World}
    (h : SameData w w') : Grows w w' := by
  rcases h with
    ⟨hStore, hIssued, hLog, hVersions, hDrawn, hReads, hNow⟩
  refine ⟨?_, ?_, ?_, hDrawn, ?_, hReads, hNow, ?_⟩
  · rw [hLog]
  · rw [hIssued]
  · rw [hStore]
    exact .refl _
  · intro key
    rw [hVersions]
  · intro key hNone _
    rw [hStore]
    exact hNone

/-
  What the programs around the log add to its contract:
  which requests a run may contain, and an invariant that no
  step of the log itself can break.
-/
structure Host (clean : Prop) where
  admits : Tid → Req → Choice → World → Prop
  extra : World → Prop
  -- The operations that a thread may build.
  stamps : Tid → Operation → World → Prop
  sent :
    ∀ {w t write},
      LogInv clean w → extra w → LogKey write.key →
        extra (w.sent t write)
  stamped :
    ∀ {w t op},
      LogInv clean w → extra w → stamps t op w →
        ¬ w.Drawn op.opId.opUuid → extra (w.stamped t op)
  -- It is about the store, the operations and their history.
  same : ∀ {w w'}, extra w → SameData w w' → extra w'

/- A host that only limits the requests. -/
def Host.plain
    (clean : Prop)
    (admits : Tid → Req → Choice → World → Prop) :
    Host clean where
  admits := admits
  extra := fun _ => True
  stamps := fun _ _ _ => True
  sent := fun _ _ _ => trivial
  stamped := fun _ _ _ _ => trivial
  same := fun _ _ => trivial

/- The same host for other requests. -/
def Host.limit
    {clean : Prop}
    (host : Host clean)
    (admits : Tid → Req → Choice → World → Prop) :
    Host clean :=
  { host with admits := admits }

/- The invariant of the log and of the programs around it. -/
abbrev HostInv
    {clean : Prop}
    (host : Host clean)
    (w : World) : Prop :=
  LogInv clean w ∧ host.extra w

theorem HostInv.log
    {clean : Prop} {host : Host clean} {w : World}
    (h : HostInv host w) : LogInv clean w := h.1

theorem HostInv.extra
    {clean : Prop} {host : Host clean} {w : World}
    (h : HostInv host w) : host.extra w := h.2

/- The contract of all programs that work on the log. -/
def logContract
    {clean : Prop}
    (host : Host clean) : Contract Req Choice World Tid where
  Inv := HostInv host
  Rely := Others
  Admits := host.admits
  rely_refl := Others.refl
  rely_trans := Others.trans

/- Nothing new was read or stored. -/
theorem HistoryOk.same
    {w w' : World}
    (h : HistoryOk w)
    (hSame : SameData w w')
    (hReads : w'.reads = w.reads) : HistoryOk w' := by
  constructor
  · rw [hSame.store, hSame.versions]
    exact h.newest
  · intro note hNote
    rw [hReads] at hNote
    exact (h.reads note hNote).mono hSame.grows
  · rw [hSame.store, hSame.versions]
    exact h.applied

------------------------------------------------------------
-- Consequences
------------------------------------------------------------

variable {clean : Prop} {w : World}

/- Operations with one id are one operation. -/
theorem Basic.built_unique
    (h : Basic clean w)
    {op op' : Operation}
    (hOp : Built w op)
    (hOp' : Built w op')
    (hId : op.opId = op'.opId) : op = op' := by
  rcases hOp with ⟨x, hx, rfl⟩
  rcases hOp' with ⟨y, hy, rfl⟩
  have hxy : x = y := List.inj_on_of_nodup_map h.ids hx hy hId
  rw [hxy]

theorem built_of_operationOf
    (h : w.operationOf id = some op) :
    Built w op ∧ op.opId = id := by
  unfold World.operationOf at h
  have hId := List.find?_some h
  have hMem := List.mem_of_find?_eq_some h
  rcases List.mem_map.mp hMem with ⟨x, hx, hOp⟩
  exact ⟨⟨x, hx, hOp⟩, by simpa using hId⟩

theorem Basic.operationOf_of_built
    (h : Basic clean w)
    {op : Operation}
    (hOp : Built w op) :
    w.operationOf op.opId = some op := by
  cases hFind : w.operationOf op.opId with
  | none =>
      rcases hOp with ⟨x, hx, rfl⟩
      unfold World.operationOf at hFind
      rw [List.find?_eq_none] at hFind
      have hNe := hFind _ (List.mem_map_of_mem hx)
      simp at hNe
  | some op' =>
      rcases built_of_operationOf hFind with ⟨hBuilt, hId⟩
      rw [h.built_unique hBuilt hOp hId]

/- What was built is in the log as soon as its id is. -/
theorem Basic.mem_of_id
    (h : Basic clean w)
    {op : Operation}
    (hOp : Built w op)
    (hId : ∃ x ∈ w.headLog, x.opId = op.opId) :
    op ∈ w.headLog := by
  rcases hId with ⟨x, hx, hId⟩
  rw [← h.built_unique (h.log x hx) hOp hId]
  exact hx

/- A walk from head splits a chain where it ends. -/
theorem Basic.split
    (h : Basic clean w)
    (hChain : LogChain w.headLog)
    {P : Operation → Prop}
    {l : List Operation} {b : Option OpId}
    (hSuffix : l <:+ w.headLog)
    (hWalk : Walk w P (headOf l) b) :
    ∃ p q, l = p ++ q ∧ headOf q = b ∧ ∀ op ∈ p, P op := by
  apply Path.split hWalk (hChain.of_suffix hSuffix)
  intro op hOp
  exact h.operationOf_of_built
    (h.log op (hSuffix.subset hOp))

theorem logDead_mono
    {l : List Operation}
    (h : Basic clean w)
    (hChain : LogChain w.headLog)
    (hOp : Built w op)
    (hDead : LogDead op l)
    (hSuffix : l <:+ w.headLog) :
    LogDead op w.headLog := by
  apply hDead.mono hChain hSuffix
  intro x hx hId
  exact h.built_unique (h.log x hx) hOp hId

/- A dead operation is not in the log. -/
theorem LogDead.not_mem
    {l : List Operation}
    (h : LogDead op l) : op ∉ l :=
  fun hMem => h.absent op hMem rfl

theorem Floored.mono
    {attempts l l' : List Operation}
    (h : Floored attempts l)
    (hSuffix : l <:+ l') : Floored attempts l' := by
  rcases h with ⟨floor, hFloor, hFirst, hAll⟩
  refine ⟨floor, hFloor.trans hSuffix, hFirst, ?_⟩
  intro op hOp
  rcases hAll op hOp with ⟨m, hBelow, hm, hHead⟩
  exact ⟨m, hBelow, hm.trans hSuffix, hHead⟩

/- The next attempt is based on a head of later date. -/
theorem Floored.append
    {attempts m l : List Operation}
    (h : Floored attempts m)
    (hSuffix : m <:+ l)
    (hHead : headOf m = op.baseHead) :
    Floored (attempts ++ [op]) l := by
  cases attempts with
  | nil =>
      refine ⟨m, hSuffix, ?_, ?_⟩
      · intro x hx
        cases hx
        exact hHead
      · intro x hx
        cases List.mem_singleton.mp hx
        exact ⟨m, List.suffix_rfl, hSuffix, hHead⟩
  | cons first rest =>
      rcases h with ⟨floor, hFloor, hFirst, hAll⟩
      refine ⟨floor, hFloor.trans hSuffix, hFirst, ?_⟩
      intro x hx
      rcases List.mem_append.mp hx with hx | hx
      · rcases hAll x hx with ⟨m', hBelow, hm', hHead'⟩
        exact ⟨m', hBelow, hm'.trans hSuffix, hHead'⟩
      · cases List.mem_singleton.mp hx
        exact ⟨m, hFloor, hSuffix, hHead⟩

/- Of the attempts of a journal only the last is in the log. -/
theorem Linear.last_of_mem
    (hLinear : Linear w)
    (hBasic : Basic clean w)
    {j : JournalId} {x : Issued}
    (hx : x ∈ w.issued)
    (hJournal : x.journal = some j)
    (hMem : x.operation ∈ w.headLog) :
    (w.journals j).receipt.attempts.getLast? =
      some x.operation := by
  have hSent : Sent w x.operation :=
    hBasic.logFlights x.operation hMem
  have hAttempt :=
    (hLinear.journals j).sent x hx hJournal hSent
  have hNe := List.ne_nil_of_mem hAttempt
  rw [← List.dropLast_append_getLast hNe] at hAttempt
  rcases List.mem_append.mp hAttempt with hLost | hLast
  · have hDead :=
      (hLinear.journals j).receipt.attempts.dead _ hLost
    exact absurd hMem hDead.not_mem
  · rw [List.mem_singleton.mp hLast]
    exact List.getLast?_eq_some_getLast hNe

theorem headWrite_isHeadWrite
    (op : Operation) : HeadWrite op.opId (headWrite op) := by
  unfold headWrite
  cases op.baseHead with
  | none => exact .first
  | some base => exact .next _

theorem HeadWrite.key
    (h : HeadWrite id x) : x.key = .head := by
  cases h <;> rfl

theorem HeadWrite.body
    (h : HeadWrite id x) : x.body = some (.head (some id)) := by
  cases h <;> rfl

theorem HeadWrite.unique
    {id id' : OpId}
    (h : HeadWrite id x)
    (h' : HeadWrite id' x) : id = id' := by
  have hBody := h.body.symm.trans h'.body
  simpa using hBody

variable {built : Operation → Prop}

/- A head write in flight belongs to one operation. -/
theorem Protocol.head_inv
    (h : Protocol clean built x)
    (hHead : HeadWrite id x) :
    ∃ op, built op ∧ op.opId = id ∧
      (clean → x = headWrite op) := by
  cases h with
  | operation => cases hHead
  | discard => cases hHead
  | head known write own =>
      exact ⟨_, known, write.unique hHead, own⟩
  | other notHead => exact absurd hHead.key notHead

/- An object write in flight belongs to one operation. -/
theorem Protocol.operation_inv
    (h : Protocol clean built (opWrite op)) :
    built op := by
  generalize hWrite : opWrite op = x at h
  cases h with
  | @operation op' known =>
      have hOp : op = op' := by
        simpa [opWrite, Write.body]
          using congrArg Write.body hWrite
      rw [hOp]
      exact known
  | discard => cases hWrite
  | head _ write =>
      rw [← hWrite] at write
      cases write
  | other _ notOp =>
      rw [← hWrite] at notOp
      exact absurd rfl (notOp op.opId)

theorem Protocol.discard_inv
    (h : Protocol clean built (.delete (.op id))) :
    ∃ op, built op ∧ op.opId = id := by
  generalize hWrite :
    (.delete (.op id) : Write Key Body) = x at h
  cases h with
  | operation => cases hWrite
  | discard known =>
      cases hWrite
      exact ⟨_, known, rfl⟩
  | head _ write =>
      rw [← hWrite] at write
      cases write
  | other _ notOp =>
      rw [← hWrite] at notOp
      exact absurd rfl (notOp id)

theorem Protocol.mono
    {built built' : Operation → Prop}
    (h : Protocol clean built x)
    (hBuilt : ∀ op, built op → built' op) :
    Protocol clean built' x := by
  cases h with
  | operation known => exact .operation (hBuilt _ known)
  | discard known => exact .discard (hBuilt _ known)
  | head known write own =>
      exact .head (hBuilt _ known) write own
  | other notHead notOp => exact .other notHead notOp

end S4Drive

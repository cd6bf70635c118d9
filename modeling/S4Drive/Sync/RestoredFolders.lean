import S4Drive.Sync.PublishSystem

/-
  What a restored folder brings back. The entries inside are
  put one by one after the Restore has been committed, each
  only if there is none and nothing newer is on the folder;
  newer operations on an entry itself are not looked for. So
  the restore is right in every run in which an operation on
  an entry does not come between the Restore and the write
  of that entry.

  Main declarations:
    * `BringsBack`, `NewerOn`
    * `DescendantsUnchanged`
    * `newer_changes_stay`
    * `newer_delete_brought_back`
-/

------------------------------------------------------------
-- Writes of a Restore
------------------------------------------------------------

namespace S4Drive

open ObjectStore Concurrency ChainLog OperationLog

/-
  The write puts the entry of a descendant for a Restore in
  the log, which is on another id.
-/
structure BringsBack
    (l : List Operation)
    (write : Write Key Body)
    (sender : Sender)
    (fileId : FileId)
    (restore : Operation) : Prop where
  committed : restore ∈ l
  opType : restore.opType = .restore
  inside : restore.targetFileId ≠ some fileId
  entry : write.key = .tree fileId ∧ write.body ≠ none
  projects : sender.projects = some restore.opId

instance
    (l : List Operation)
    (write : Write Key Body)
    (sender : Sender)
    (fileId : FileId)
    (restore : Operation) :
    Decidable (BringsBack l write sender fileId restore) :=
  decidable_of_iff
    (restore ∈ l ∧ restore.opType = .restore ∧
      restore.targetFileId ≠ some fileId ∧
      (write.key = .tree fileId ∧ write.body ≠ none) ∧
      sender.projects = some restore.opId)
    ⟨fun ⟨h₁, h₂, h₃, h₄, h₅⟩ => ⟨h₁, h₂, h₃, h₄, h₅⟩,
      fun ⟨h₁, h₂, h₃, h₄, h₅⟩ => ⟨h₁, h₂, h₃, h₄, h₅⟩⟩

/- The operations above one of them, newest first. -/
def aboveOp
    (op : Operation)
    (l : List Operation) : List Operation :=
  l.takeWhile fun x => x.opId ≠ op.opId

/- An operation on the file is above another operation. -/
def NewerOn
    (fileId : FileId)
    (op : Operation)
    (l : List Operation) : Prop :=
  ∃ x ∈ aboveOp op l, x.targetFileId = some fileId

instance
    (fileId : FileId)
    (op : Operation)
    (l : List Operation) : Decidable (NewerOn fileId op l) :=
  inferInstanceAs (Decidable (∃ x ∈ aboveOp op l, _))

/- The write has reached the store, with either outcome. -/
def Arrived (f : Flight Key Body Sender) : Prop :=
  f.applied = true ∨ f.refused = true

instance (f : Flight Key Body Sender) : Decidable (Arrived f) :=
  inferInstanceAs (Decidable (_ ∨ _))

variable {fileId : FileId} {restore op new : Operation}
variable {l : List Operation} {w w' : World} {t : Tid}
variable {f : Flight Key Body Sender}
variable {write : Write Key Body} {sender : Sender}

theorem newerOn_cons_cases
    (h : NewerOn fileId op (new :: l)) :
    NewerOn fileId op l ∨
      (new.opId ≠ op.opId ∧ new.targetFileId = some fileId) := by
  rcases h with ⟨x, hx, hTarget⟩
  unfold aboveOp at hx
  by_cases hSame : new.opId = op.opId
  · simp [hSame] at hx
  · rw [List.takeWhile_cons, if_pos (by simpa using hSame)] at hx
    rcases List.mem_cons.mp hx with rfl | hx
    · exact .inr ⟨hSame, hTarget⟩
    · exact .inl ⟨x, hx, hTarget⟩

/- Nothing is above the newest operation. -/
theorem not_newerOn_self :
    ¬ NewerOn fileId new (new :: l) := by
  rintro ⟨x, hx, _⟩
  simp [aboveOp] at hx

theorem aboveOp_split
    {above below : List Operation}
    (hChain : LogChain (above ++ op :: below)) :
    aboveOp op (above ++ op :: below) = above := by
  have hNodup := hChain.nodup
  have hOut : ∀ x ∈ above, x.opId ≠ op.opId := by
    intro x hx hSame
    rw [List.map_append, List.map_cons,
      List.nodup_append] at hNodup
    exact hNodup.2.2 x.opId (List.mem_map_of_mem hx) op.opId
      List.mem_cons_self hSame
  unfold aboveOp
  rw [List.takeWhile_append_of_pos (by simpa using hOut)]
  simp

/-
  A restore sends the entry of a descendant only while
  nothing newer is on it.
-/
def sendsUnchanged
    (r : Req)
    (t : Tid)
    (w : World) : Prop :=
  ∀ write, r = .send write → ∀ fileId restore,
    BringsBack w.headLog write (w.sender t) fileId restore →
      ¬ NewerOn fileId restore w.headLog

/-
  No operation on a descendant is committed while the write
  of its entry is under way, and the write is not carried
  out again after it has arrived.
-/
structure ArrivesUnchanged
    (w : World)
    (f : Flight Key Body Sender) : Prop where
  commit :
    ∀ op, Built w op → HeadWrite op.opId f.write →
      ∀ g ∈ w.store.flights, ¬ Arrived g →
        ∀ fileId restore,
          BringsBack w.headLog g.write g.sender fileId
              restore →
            op.targetFileId ≠ some fileId
  once :
    ∀ fileId restore,
      BringsBack w.headLog f.write f.sender fileId restore →
        ¬ Arrived f

/-
  The steps in which nothing on a descendant comes between
  the Restore of its folder and the write of its entry.
-/
def DescendantsUnchanged
    (s : PublishState)
    (a : PublishAction) : Prop :=
  (∀ t k c v r cont, a = .serve t k →
    s.threads t = .busy c v (.ask r cont) →
      sendsUnchanged r t s.world) ∧
  ∀ ticket f, a = .env (.deliver ticket) →
    s.world.store.flights[ticket]? = some f →
      f.write.Allowed s.world.store.objects →
        ArrivesUnchanged s.world f

/- Nothing newer is on what a restore still brings back. -/
def RestoresUnchanged (w : World) : Prop :=
  ∀ f ∈ w.store.flights, ¬ Arrived f →
    ∀ fileId restore,
      BringsBack w.headLog f.write f.sender fileId restore →
        ¬ NewerOn fileId restore w.headLog

theorem RestoresUnchanged.congr
    (h : RestoresUnchanged w)
    (hStore : w'.store = w.store)
    (hLog : w'.headLog = w.headLog) :
    RestoresUnchanged w' := by
  unfold RestoresUnchanged
  rw [hStore, hLog]
  exact h

theorem RestoresUnchanged.send
    (h : RestoresUnchanged w)
    (hSends : sendsUnchanged (.send write) t w) :
    RestoresUnchanged (w.sent t write) := by
  intro f hf hPending fileId restore hBrings
  rcases mem_sent hf with hf | rfl
  · exact h f hf hPending fileId restore hBrings
  · exact hSends write rfl fileId restore hBrings

/- A request that is answered sends one write or none. -/
theorem serve_store
    {r : Req} {k : Choice} {b : Resp r}
    (h : serve t r k w = some (b, w')) :
    (∃ write, r = .send write ∧ w' = w.sent t write) ∨
      (w'.store = w.store ∧ w'.headLog = w.headLog) := by
  cases r with
  | getObject key =>
      right
      rcases (serve_getObject h).2 with rfl | ⟨rfl, _⟩
      · unfold World.noteRead
        split <;> exact ⟨rfl, rfl⟩
      · exact ⟨rfl, rfl⟩
  | headObject key =>
      right
      rcases serve_headObject h with ⟨rfl, _⟩
      exact ⟨rfl, rfl⟩
  | send write => exact .inl ⟨write, rfl, (serve_send h).2⟩
  | await ticket =>
      right
      cases k with
      | reply done =>
          cases hFlight : w.store.flights[ticket]? with
          | none => simp [serve, hFlight] at h
          | some g =>
              rcases serve_await hFlight h with ⟨rfl, _⟩
              exact ⟨rfl, rfl⟩
      | fail e =>
          cases h
          exact ⟨rfl, rfl⟩
      | _ => cases h
  | stamp build =>
      right
      rcases serve_stamp h with ⟨id, _, _, rfl⟩
      exact ⟨rfl, rfl⟩
  | draw =>
      right
      rcases serve_draw h with ⟨_, rfl⟩
      exact ⟨rfl, rfl⟩
  | prepare change =>
      right
      cases serve_prepare h
      exact ⟨rfl, rfl⟩
  | readReceipt j =>
      right
      rcases serve_readReceipt h with ⟨rfl, _⟩
      exact ⟨rfl, rfl⟩
  | updateReceipt j change =>
      right
      rcases serve_updateReceipt h with
        ⟨_, rfl⟩ | ⟨_, _, rfl | rfl⟩ <;> exact ⟨rfl, rfl⟩
  | listObjects under =>
      right
      cases k with
      | answer =>
          cases h
          exact ⟨rfl, rfl⟩
      | fail e =>
          cases h
          exact ⟨rfl, rfl⟩
      | _ => cases h
  | now =>
      right
      cases k with
      | answer =>
          cases h
          exact ⟨rfl, rfl⟩
      | _ => cases h

/- What is still under way after a delivery was so before. -/
theorem pending_of_delivery
    {g : Flight Key Body Sender}
    (hDelivery : Delivery f w w')
    (hg : g ∈ w'.store.flights)
    (hPending : ¬ Arrived g) :
    ∃ g₀ ∈ w.store.flights, ¬ Arrived g₀ ∧
      g₀.write = g.write ∧ g₀.sender = g.sender := by
  rcases hDelivery.old hg with ⟨g₀, hg₀, hLater⟩
  refine ⟨g₀, hg₀, ?_, hLater.write.symm, hLater.sender.symm⟩
  intro hArrived
  apply hPending
  rcases hArrived with hApplied | hRefused
  · exact .inl (hLater.applied hApplied)
  · exact .inr (hLater.refused hRefused)

theorem RestoresUnchanged.deliver
    {ticket : Nat}
    (h : RestoresUnchanged w)
    (hInv : LogInv True w)
    (hDeliver : w.deliver ticket = some w')
    (hArrives :
      ∀ f, w.store.flights[ticket]? = some f →
        f.write.Allowed w.store.objects →
          ArrivesUnchanged w f) :
    RestoresUnchanged w' := by
  rcases deliver_at hDeliver with ⟨f, hFlight, hDelivery⟩
  intro g hg hPending fileId restore hBrings
  rcases pending_of_delivery hDelivery hg hPending with
    ⟨g₀, hg₀, hPending₀, hWrite, hSender⟩
  rw [← hWrite, ← hSender] at hBrings
  rcases hDelivery.headLog_cases hInv.basic with
    ⟨hSame, _⟩ | ⟨new, hBuilt, hHead, _, hAllowed, hNew, _⟩
  · rw [hSame] at hBrings ⊢
    exact h g₀ hg₀ hPending₀ fileId restore hBrings
  · rw [hNew] at hBrings ⊢
    rcases List.mem_cons.mp hBrings.committed with rfl | hOld
    · exact not_newerOn_self
    · have hBefore :
          BringsBack w.headLog g₀.write g₀.sender fileId
            restore :=
        { hBrings with committed := hOld }
      intro hNewer
      rcases newerOn_cons_cases hNewer with
        hNewer | ⟨_, hTarget⟩
      · exact h g₀ hg₀ hPending₀ fileId restore hBefore hNewer
      · exact (hArrives f hFlight hAllowed).commit new hBuilt
          hHead g₀ hg₀ hPending₀ fileId restore hBefore hTarget

variable {s s' : PublishState}

/- A host that asks for nothing. -/
def anyHost : Host True where
  admits := fun _ _ _ _ => True
  extra := fun _ => True
  stamps := fun _ _ _ => True
  sent := fun _ _ _ => trivial
  stamped := fun _ _ _ _ => trivial
  same := fun _ _ => trivial

def anyLimits : PublishLimits where
  Starts := fun _ _ _ _ => True
  Admits := fun _ _ _ _ _ => True
  Env := fun _ _ => True

theorem any_publishes
    (t : Tid)
    (c : PublishCall) :
    Publishes (anyHost.limit (anyLimits.Admits c)) t c where
  entries := fun _ _ _ _ _ _ _ _ => trivial
  records := fun _ _ _ _ _ _ _ _ _ _ _ _ => trivial
  removes := fun _ _ _ _ _ _ _ _ _ => trivial
  retires := fun _ _ _ _ _ _ _ _ _ => trivial
  keeps := fun _ _ _ => trivial
  deletes := fun _ _ _ _ _ _ _ _ _ _ _ _ _ _ _ _ _ _ _ =>
    trivial
  publishes := fun _ _ _ _ _ _ _ _ _ _ _ _ _ _ _ _ _ =>
    trivial

/- The log is in order in every run, whatever is published. -/
theorem log_of_run
    {permits : PublishState → PublishAction → Prop}
    (run : PublishRun permits .initial s) :
    LogInv True s.world := by
  have hState :
      PublishStateOk anyHost anyLimits (fun _ _ _ _ => True)
        s := by
    apply publishState_of_run _ _ _ _ run
    · trivial
    · exact fun t c w hStarting =>
        publish_meets hStarting.holding (any_publishes t c)
    · exact fun _ _ _ _ _ _ => trivial
    · intro s a _
      cases a with
      | call t c => exact fun _ _ => trivial
      | serve t k => exact fun _ _ _ _ _ => trivial
      | _ => trivial
  exact hState.inv.log

/- A step of a thread that is not a delivery. -/
theorem RestoresUnchanged.step
    {a : PublishAction}
    (h : RestoresUnchanged s.world)
    (hLog : LogInv True s.world)
    (hPermits : DescendantsUnchanged s a)
    (hStep : publishSystem.step s a = some s') :
    RestoresUnchanged s'.world := by
  cases a with
  | call t c =>
      cases hThread : s.threads t with
      | busy c' v p => simp [ThreadSystem.step, hThread] at hStep
      | idle v =>
          simp only [ThreadSystem.step, hThread,
            Option.map_eq_some_iff] at hStep
          rcases hStep with ⟨w, hBegin, rfl⟩
          have hSame := sameData_beginCall hBegin
          exact h.congr hSame.store hSame.headLog
  | serve t k =>
      cases hThread : s.threads t with
      | idle v => simp [ThreadSystem.step, hThread] at hStep
      | busy c v p =>
          cases p with
          | done x => simp [ThreadSystem.step, hThread] at hStep
          | ask r cont =>
              simp only [ThreadSystem.step, hThread,
                Option.map_eq_some_iff] at hStep
              rcases hStep with ⟨⟨b, w⟩, hServe, rfl⟩
              have hSends := hPermits.1 t k c v r cont rfl hThread
              rcases serve_store hServe with
                ⟨write, rfl, rfl⟩ | ⟨hStore, hHead⟩
              · exact h.send hSends
              · exact h.congr hStore hHead
  | finish t =>
      cases hThread : s.threads t with
      | idle v => simp [ThreadSystem.step, hThread] at hStep
      | busy c v p =>
          cases p with
          | ask r cont =>
              simp [ThreadSystem.step, hThread] at hStep
          | done x =>
              simp only [ThreadSystem.step, hThread,
                Option.some.injEq] at hStep
              subst hStep
              have hSame := sameData_release s.world t
              exact h.congr hSame.store hSame.headLog
  | halt t =>
      simp only [ThreadSystem.step, Option.some.injEq] at hStep
      subst hStep
      have hSame := sameData_halt s.world t
      exact h.congr hSame.store hSame.headLog
  | env e =>
      simp only [ThreadSystem.step, Option.map_eq_some_iff]
        at hStep
      rcases hStep with ⟨w, hEnv, rfl⟩
      by_cases hDelivery : ∃ ticket, e = .deliver ticket
      · rcases hDelivery with ⟨ticket, rfl⟩
        exact h.deliver hLog hEnv
          fun f hFlight => hPermits.2 ticket f rfl hFlight
      · have hSame := sameData_environment hEnv
          fun ticket hTicket => hDelivery ⟨ticket, hTicket⟩
        exact h.congr hSame.store hSame.headLog

theorem restoresUnchanged_of_run
    (run : PublishRun DescendantsUnchanged .initial s) :
    RestoresUnchanged s.world := by
  induction run with
  | refl =>
      intro f hf
      cases hf
  | step a before hPermits hNext ih =>
      exact ih.step (log_of_run before) hPermits hNext

/- Whether a write passes for all that it brings back. -/
def bringsBackOnly
    (l : List Operation)
    (write : Write Key Body)
    (sender : Sender)
    (passes : FileId → Operation → Bool) : Bool :=
  match write.key with
  | .tree fileId => l.all fun restore =>
      !decide (BringsBack l write sender fileId restore) ||
        passes fileId restore
  | _ => true

theorem of_bringsBackOnly
    {passes : FileId → Operation → Bool}
    (h : bringsBackOnly l write sender passes = true)
    (hBrings : BringsBack l write sender fileId restore) :
    passes fileId restore = true := by
  unfold bringsBackOnly at h
  rw [hBrings.entry.1] at h
  have hPasses :=
    List.all_eq_true.mp h restore hBrings.committed
  simpa [hBrings] using hPasses

/- Whether nothing comes in between at this action. -/
def descendantsUnchanged
    (s : PublishState) : PublishAction → Bool
  | .serve t _ =>
      match s.threads t with
      | .busy _ _ (.ask (.send write) _) =>
          bringsBackOnly s.world.headLog write
            (s.world.sender t) fun fileId restore =>
              !decide (NewerOn fileId restore s.world.headLog)
      | _ => true
  | .env (.deliver ticket) =>
      match s.world.store.flights[ticket]? with
      | some f =>
          bringsBackOnly s.world.headLog f.write f.sender
              (fun _ _ => !decide (Arrived f)) &&
            (f.write.key ≠ .head ||
              s.world.store.flights.all fun g =>
                decide (Arrived g) ||
                  bringsBackOnly s.world.headLog g.write
                    g.sender fun _ _ => false)
      | none => true
  | _ => true

theorem descendantsUnchanged_of_check
    {a : PublishAction}
    (h : descendantsUnchanged s a = true) :
    DescendantsUnchanged s a := by
  constructor
  · rintro t k c v r cont rfl hThread write rfl fileId restore
      hBrings
    simp only [descendantsUnchanged, hThread] at h
    simpa using of_bringsBackOnly h hBrings
  · rintro ticket f rfl hFlight _
    simp only [descendantsUnchanged, hFlight,
      Bool.and_eq_true, Bool.or_eq_true, decide_eq_true_eq,
      List.all_eq_true] at h
    rcases h with ⟨hOnce, hCommit⟩
    constructor
    · intro op _ hHead g hg hPending fileId restore hBrings
      exfalso
      rcases hCommit with hKey | hAll
      · exact hKey hHead.key
      · rcases hAll g hg with hArrived | hNone
        · exact hPending hArrived
        · cases of_bringsBackOnly hNone hBrings
    · intro fileId restore hBrings
      simpa using of_bringsBackOnly hOnce hBrings

/- The row of an entry of which only the place matters. -/
def rowAt
    (fileId : FileId)
    (parentId : Option FileId)
    (name : String)
    (entryType : EntryType) : FileEntry where
  fileId := fileId
  parentId := parentId
  name := name
  entryType := entryType
  currentRevisionId := none
  contentRef := none
  size := 0
  contentHash := none
  mime := none
  updatedAt := 0
  deletedAt := none
  versionHistory := []

/- The restore of folder 10 with file 11 inside. -/
def folderRestore : PublishCall :=
  .restore 1 true
    { requestId := 8
      fileId := 10
      createdAt := 0
      fromRelative := none
      toRelative := "F"
      changes :=
        [rowAt 10 none "F" .folder,
          rowAt 11 (some 10) "a" .file] }

/- Device 1 has committed the Restore. -/
def restoreCommitted : List PublishAction :=
  [.call 1 folderRestore] ++ answered 1 9 ++
  [.serve 1 (.fresh 1)] ++ answered 1 2 ++ written 1 0 ++
  written 1 1 ++ answered 1 3

/- Device 2 renames file 12. -/
def otherRenamed : List PublishAction :=
  [.call 2 (.commit 2 (some 12) .rename
    ⟨none, none, some "b", none, false⟩ true true
    (by decide))] ++
  answered 2 4 ++ [.serve 2 (.fresh 5)] ++ written 2 2 ++
  written 2 3 ++ answered 2 1 ++ [.finish 2]

/-
  Whether the write with this number brings back file 11,
  with one operation above the Restore.
-/
def bringsBackBelow
    (ticket : Nat)
    (test :
      Operation → Flight Key Body Sender → Bool)
    (s : PublishState) : Bool :=
  match s.world.store.flights[ticket]?, s.world.headLog with
  | some f, [newer, restore] =>
      decide (f.write.Allowed s.world.store.objects) &&
        decide (BringsBack s.world.headLog f.write f.sender 11
          restore) && test newer f
  | _, _ => false

theorem of_bringsBackBelow
    {ticket : Nat}
    {test : Operation → Flight Key Body Sender → Bool}
    (h : bringsBackBelow ticket test s = true) :
    ∃ f newer restore,
      s.world.store.flights[ticket]? = some f ∧
      s.world.headLog = [newer] ++ restore :: [] ∧
      f.write.Allowed s.world.store.objects ∧
      BringsBack s.world.headLog f.write f.sender 11 restore ∧
      test newer f = true := by
  unfold bringsBackBelow at h
  split at h
  · rename_i f newer restore hFlight hLog
    simp only [Bool.and_eq_true, decide_eq_true_eq] at h
    exact ⟨f, newer, restore, hFlight, hLog, h.1.1, h.1.2, h.2⟩
  · cases h

/- Whether the write puts an entry that is not deleted. -/
def putsLive (f : Flight Key Body Sender) : Bool :=
  match f.write.body with
  | some (.entry entry) => entry.deletedAt = none
  | _ => false

end S4Drive

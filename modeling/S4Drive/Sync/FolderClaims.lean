import S4Drive.Sync.FolderNodes
import S4Drive.Sync.OtherDevices

/-
  Devices that give the same folders their nodes while other
  devices move, rename and delete them. A claim looks at the
  tree and the deletion records before the log's head is
  read for its commit, and writes the tree entry without a
  condition after it; so both can be late.

  Main declarations:
    * `FolderCall`, `folderSystem`
    * `Displaced`, `PathStep`, `nodesAt`
    * `ClaimsInTime`
    * `claimHost`, `ClaimsOk.deliver`
    * `createRemote_meets`, `tryClaim_meets`
-/

------------------------------------------------------------
-- The System
------------------------------------------------------------

namespace S4Drive

open ObjectStore Concurrency ChainLog OperationLog

/- A device ensures a folder or does anything but create. -/
inductive FolderCall where
  | ensure
      (deviceId : DeviceId)
      (folderAt : String → Option FolderRow)
      (names : List String)
  | other
      (step : DeviceStep)
      (kept : step.commits ≠ some .createFolder)

namespace FolderCall

def run
    (folderNodeId : FolderNodes.NodeId) :
    FolderCall → CloudM Unit (Option FileId)
  | ensure deviceId folderAt names =>
      FolderNodes.ensureFolder folderNodeId deviceId folderAt
        names
  | other step _ => do
      step.run
      return none

end FolderCall

/- Any number of devices; what an index says may be old. -/
def folderSystem
    (folderNodeId : FolderNodes.NodeId) :
    ThreadSystem Req Resp World Tid Choice FolderCall
      (CoreResult (Option FileId)) Unit EnvAction :=
  deviceSystem (FolderCall.run folderNodeId) () fun _ => none

abbrev FolderState :=
  SystemState Req Resp World Tid FolderCall
    (CoreResult (Option FileId)) Unit

abbrev FolderAction :=
  Action Tid Choice FolderCall EnvAction

def FolderState.initial
    (folderNodeId : FolderNodes.NodeId) : FolderState :=
  (folderSystem folderNodeId).initial World.fresh

/- The operation takes an entry away from its place. -/
def Operation.displaces (op : Operation) : Bool :=
  op.opType = .rename || op.opType = .move ||
    op.opType = .delete

/- The log has moved, renamed or deleted the folder. -/
def Displaced
    (folderId : FileId)
    (l : List Operation) : Prop :=
  ∃ op ∈ l, op.targetFileId = some folderId ∧
    op.displaces = true

instance
    (folderId : FileId)
    (l : List Operation) : Decidable (Displaced folderId l) :=
  inferInstanceAs (Decidable (∃ op ∈ l, _))

theorem not_displaced_append
    {folderId : FileId} {above below : List Operation}
    (hAbove : ∀ op ∈ above, NotOn folderId op)
    (hBelow : ¬ Displaced folderId below) :
    ¬ Displaced folderId (above ++ below) := by
  rintro ⟨op, hOp, hTarget, hDisplaces⟩
  rcases List.mem_append.mp hOp with hOp | hOp
  · exact hAbove op hOp hTarget
  · exact hBelow ⟨op, hOp, hTarget, hDisplaces⟩

/- One folder of a path and the generation of its id. -/
structure PathStep where
  name : String
  generation : Nat
  bound : generation < FolderNodes.folderIdGenerations

/- A folder of a path with the id that is claimed for it. -/
structure FolderNode where
  path : String
  folderId : FileId
  placement : Placement
  generation : Nat

/- The nodes of a path inside the folder `parentId`. -/
def nodesAt
    (folderNodeId : FolderNodes.NodeId) :
    Option FileId → String → List PathStep → List FolderNode
  | _, _, [] => []
  | parentId, path, step :: rest =>
      let folderId :=
        folderNodeId parentId step.name step.generation
      let path := joinPath path step.name
      ⟨path, folderId, ⟨parentId, step.name⟩,
          step.generation⟩ ::
        nodesAt folderNodeId (some folderId) path rest

/- The id that the whole path is claimed with. -/
def lastNodeId
    (folderNodeId : FolderNodes.NodeId) :
    Option FileId → List PathStep → Option FileId
  | parentId, [] => parentId
  | parentId, step :: rest =>
      lastNodeId folderNodeId
        (some (folderNodeId parentId step.name
          step.generation)) rest

/- A body that is the entry of a folder at the placement. -/
def isFolderBody
    (placement : Placement) : Body → Bool
  | .entry entry => isFolderAt entry placement
  | _ => false

def isLiveFolder
    (placement : Placement) : Body → Bool
  | .entry entry =>
      isFolderAt entry placement && entry.deletedAt.isNone
  | _ => false

/- The call ensures this path. -/
def OnPath
    (path : List PathStep) : FolderCall → Prop
  | .ensure _ _ names => names = path.map PathStep.name
  | .other _ _ => False

/-
  No operation takes the folder away, no deletion of it is
  recorded, and once its entry was written it stays there.
-/
structure NodeKept
    (node : FolderNode)
    (w : World) : Prop where
  tree :
    ∀ body,
      w.store.objects.lookup (.tree node.folderId) =
        some body →
      isLiveFolder node.placement body = true
  listed :
    w.versions (.tree node.folderId) ≠ [] →
      w.store.objects.lookup (.tree node.folderId) ≠ none
  record :
    w.store.objects.lookup (.tombstone node.folderId) = none
  placed : ¬ Displaced node.folderId w.headLog

variable {w w' w₁ w₂ : World} {t : Tid} {c : FolderCall}
variable {folderNodeId : FolderNodes.NodeId}
variable {path : List PathStep} {folderId : FileId}
variable {op : Operation}

/- What a read of a call that ensures the path may find. -/
structure PathRead
    (folderNodeId : FolderNodes.NodeId)
    (t : Tid)
    (r : Req)
    (w : World)
    (node : FolderNode) : Prop where
  -- After a conflict the entry of the other create is there.
  claimed :
    r = .getObject (.tree node.folderId) →
      Prepared t (.claimOf node.folderId) w →
      w.store.objects.lookup (.tree node.folderId) ≠ none
  -- The generations before the claimed one are taken.
  passed :
    ∀ generation < node.generation, ∀ id,
      id = folderNodeId node.placement.parentId
        node.placement.name generation →
      (r = .getObject (.tree id) → ∀ body,
        w.store.objects.lookup (.tree id) = some body →
          isFolderBody node.placement body = false) ∧
      (r = .getObject (.tombstone id) →
        w.store.objects.lookup (.tombstone id) ≠ none)

/-
  A claim reads the head for its commit only while the log
  has neither moved, renamed nor deleted its folder.
-/
structure ReadsInTime
    (folderNodeId : FolderNodes.NodeId)
    (path : List PathStep)
    (c : FolderCall)
    (t : Tid)
    (r : Req)
    (w : World) : Prop where
  head :
    r = .getObject .head → ∀ id, Prepared t (.claimOf id) w →
      ¬ Displaced id w.headLog
  nodes :
    OnPath path c → ∀ node ∈ nodesAt folderNodeId none "" path,
      PathRead folderNodeId t r w node

/- The write leaves the folder of a path alone. -/
structure LeavesNode
    (w : World)
    (write : Write Key Body)
    (node : FolderNode) : Prop where
  tree :
    write.key = .tree node.folderId →
      ∃ body, write.body = some body ∧
        isLiveFolder node.placement body = true
  record : write.key ≠ .tombstone node.folderId
  log :
    ∀ op, Built w op → HeadWrite op.opId write →
      op.targetFileId = some node.folderId →
        op.displaces = false

/-
  The tree entry of a claim is written while its create is
  the newest operation on the folder.
-/
structure DeliversInTime
    (folderNodeId : FolderNodes.NodeId)
    (path : List PathStep)
    (w : World)
    (f : Flight Key Body Sender) : Prop where
  projection :
    ∀ id, f.sender.projects.isSome = true →
      f.write.key = .tree id →
      (newestOn id w.headLog).map Operation.opType =
        some .createFolder
  nodes :
    ∀ node ∈ nodesAt folderNodeId none "" path,
      LeavesNode w f.write node

/- An index that knows a folder of the path has its id. -/
def StartsInTime
    (folderNodeId : FolderNodes.NodeId)
    (path : List PathStep)
    (c : FolderCall)
    (w : World) : Prop :=
  match c with
  | .ensure _ folderAt names =>
      names = path.map PathStep.name →
        ∀ node ∈ nodesAt folderNodeId none "" path,
        ∀ row, folderAt node.path = some row →
          row.fileId = node.folderId ∧
            (row.pendingUpload = false →
              w.versions (.tree node.folderId) ≠ [])
  | .other _ _ => True

def ClaimsInTime
    (folderNodeId : FolderNodes.NodeId)
    (path : List PathStep)
    (s : FolderState)
    (a : FolderAction) : Prop :=
  (∀ t c, a = .call t c →
    StartsInTime folderNodeId path c s.world) ∧
  (∀ t k c v r cont, a = .serve t k →
    s.threads t = .busy c v (.ask r cont) →
      ReadsInTime folderNodeId path c t r s.world) ∧
  ∀ ticket f, a = .env (.deliver ticket) →
    CarriesOut s.world ticket f →
      DeliversInTime folderNodeId path s.world f

abbrev FolderRun
    (folderNodeId : FolderNodes.NodeId)
    (permits : FolderState → FolderAction → Prop)
    (s : FolderState) : Prop :=
  (folderSystem folderNodeId).Run permits
    (FolderState.initial folderNodeId) s

def claimLimits
    (folderNodeId : FolderNodes.NodeId)
    (path : List PathStep) :
    ThreadSystem.Limits Req Choice World Tid FolderCall Unit
      EnvAction where
  Starts := fun _ c _ w => StartsInTime folderNodeId path c w
  Admits := fun c t r _ w =>
    ReadsInTime folderNodeId path c t r w
  Env := fun e w => ∀ ticket f, e = .deliver ticket →
    CarriesOut w ticket f →
      DeliversInTime folderNodeId path w f

------------------------------------------------------------
-- Creates That Are in Time
------------------------------------------------------------

/-
  A create was put on a part of the chain that has neither
  moved, renamed nor deleted the folder.
-/
def CreateSeen
    (w : World)
    (op : Operation) : Prop :=
  op.opType = .createFolder →
    ∀ id, op.targetFileId = some id →
      ∃ l, l <:+ w.headLog ∧ headOf l = op.baseHead ∧
        ¬ Displaced id l

theorem CreateSeen.mono
    (h : CreateSeen w op)
    (hSuffix : w.headLog <:+ w'.headLog) :
    CreateSeen w' op := by
  intro hCreate id hTarget
  rcases h hCreate id hTarget with ⟨l, hl, hHead, hKept⟩
  exact ⟨l, hl.trans hSuffix, hHead, hKept⟩

structure ClaimsOk
    (folderNodeId : FolderNodes.NodeId)
    (path : List PathStep)
    (w : World) : Prop where
  creates : ∀ x ∈ w.issued, CreateSeen w x.operation
  puts :
    ∀ f ∈ w.store.flights, f.refused = true →
      ∀ key body, f.write ≠ .put key body
  nodes :
    ∀ node ∈ nodesAt folderNodeId none "" path, NodeKept node w

theorem ClaimsOk.send
    {write : Write Key Body}
    (h : ClaimsOk folderNodeId path w) :
    ClaimsOk folderNodeId path (w.sent t write) := by
  refine ⟨h.creates, ?_, ?_⟩
  · intro f hf hRefused
    rcases mem_sent hf with hf | rfl
    · exact h.puts f hf hRefused
    · cases hRefused
  · intro node hNode
    have hKept := h.nodes node hNode
    exact ⟨hKept.tree, hKept.listed, hKept.record,
      hKept.placed⟩

def claimHost
    (folderNodeId : FolderNodes.NodeId)
    (path : List PathStep) : Host True where
  admits := fun _ _ _ _ => True
  extra := ClaimsOk folderNodeId path
  stamps := fun _ op w => CreateSeen w op
  sent := fun _ h _ => h.send
  stamped := by
    intro w t op _ h hStamp _
    refine ⟨?_, h.puts, ?_⟩
    · intro x hx
      rcases List.mem_append.mp hx with hx | hx
      · exact h.creates x hx
      · cases List.mem_singleton.mp hx
        exact hStamp
    · intro node hNode
      have hKept := h.nodes node hNode
      exact ⟨hKept.tree, hKept.listed, hKept.record,
        hKept.placed⟩
  same := by
    intro w w' h hSame
    refine ⟨?_, ?_, ?_⟩
    · rw [hSame.issued]
      intro x hx
      apply (h.creates x hx).mono
      rw [hSame.headLog]
    · rw [hSame.store]
      exact h.puts
    · intro node hNode
      have hKept := h.nodes node hNode
      constructor
      · rw [hSame.store]
        exact hKept.tree
      · rw [hSame.store, hSame.versions]
        exact hKept.listed
      · rw [hSame.store]
        exact hKept.record
      · rw [hSame.headLog]
        exact hKept.placed

/- A delivery that leaves a folder alone keeps it. -/
theorem NodeKept.deliver
    {node : FolderNode} {f : Flight Key Body Sender}
    (h : NodeKept node w)
    (hBasic : Basic True w)
    (hDelivery : Delivery f w w')
    (hLeaves :
      f.write.Allowed w.store.objects →
        LeavesNode w f.write node) :
    NodeKept node w' := by
  constructor
  · intro body hBody
    rcases hDelivery.lookup_cases (.tree node.folderId) with
      hSame | ⟨hKey, hAllowed, hWritten⟩
    · rw [hSame] at hBody
      exact h.tree body hBody
    · rcases (hLeaves hAllowed).tree hKey with
        ⟨body', hBody', hLive⟩
      rw [hWritten, hBody'] at hBody
      cases hBody
      exact hLive
  · intro hVersions
    rcases List.exists_mem_of_ne_nil _ hVersions with ⟨v, hv⟩
    rcases hDelivery.lookup_cases (.tree node.folderId) with
      hSame | ⟨hKey, hAllowed, hWritten⟩
    · rw [hSame]
      rcases hDelivery.mem_versions hv with
        hOld | ⟨hKey, hAllowed, hBody, _⟩
      · exact h.listed (List.ne_nil_of_mem hOld)
      · have hNow := hDelivery.lookup_of_allowed hAllowed
        rw [hKey, hBody, hSame] at hNow
        simp [hNow]
    · rcases (hLeaves hAllowed).tree hKey with ⟨body, hBody, _⟩
      rw [hWritten, hBody]
      simp
  · rcases hDelivery.lookup_cases (.tombstone node.folderId)
      with hSame | ⟨hKey, hAllowed, _⟩
    · rw [hSame]
      exact h.record
    · exact absurd hKey (hLeaves hAllowed).record
  · rcases hDelivery.headLog_cases hBasic with
      ⟨hLog, _⟩ | ⟨op, hBuilt, hWrite, _, hAllowed, hLog, _⟩
    · rw [hLog]
      exact h.placed
    · rw [hLog]
      rintro ⟨op', hOp, hTarget, hDisplaces⟩
      rcases List.mem_cons.mp hOp with rfl | hOld
      · have hKept := (hLeaves hAllowed).log op' hBuilt hWrite
          hTarget
        rw [hKept] at hDisplaces
        cases hDisplaces
      · exact h.placed ⟨op', hOld, hTarget, hDisplaces⟩

theorem ClaimsOk.deliver
    {ticket : Nat}
    (h : ClaimsOk folderNodeId path w)
    (hInv : LogInv True w)
    (hDeliver : w.deliver ticket = some w')
    (hLimit :
      ∀ f, CarriesOut w ticket f →
        DeliversInTime folderNodeId path w f) :
    ClaimsOk folderNodeId path w' := by
  rcases deliver_at hDeliver with ⟨f, hFlight, hDelivery⟩
  refine ⟨?_, ?_, ?_⟩
  · rw [hDelivery.issued]
    intro x hx
    exact (h.creates x hx).mono (hDelivery.suffix hInv.basic)
  · intro g hg hRefused
    rcases hDelivery.flights g hg with hOld | ⟨hWrite, _, hNew⟩
    · exact h.puts g hOld hRefused
    rw [hWrite]
    rcases hNew with ⟨_, hSame⟩ | ⟨hNot, _⟩
    · rw [hSame] at hRefused
      exact h.puts f hDelivery.flight hRefused
    · -- A write without a condition is never refused.
      intro key body hPut
      rw [hPut] at hNot
      exact hNot trivial
  · intro node hNode
    apply (h.nodes node hNode).deliver hInv.basic hDelivery
    intro hAllowed
    exact (hLimit f ⟨hFlight, hAllowed⟩).nodes node hNode

------------------------------------------------------------
-- Commits of Claims
------------------------------------------------------------

/- The host of a call `c`. -/
abbrev claimedBy
    (folderNodeId : FolderNodes.NodeId)
    (path : List PathStep)
    (c : FolderCall) : Host True :=
  (claimHost folderNodeId path).limit
    ((claimLimits folderNodeId path).Admits c)

theorem claim_sendable
    (write : Write Key Body) :
    Sendable (claimedBy folderNodeId path c) t w write :=
  fun _ _ hInv => hInv.extra.send

/- The head that a claim goes on from has not displaced it. -/
theorem claim_stampable
    {effects : Effects}
    (hPrepared : Prepared t (.claimOf folderId) w) :
    Stampable (claimedBy folderNodeId path c) t w
      (some folderId) .createFolder effects := by
  intro v v' w₁ w₂ w₃ start op preconditions hRead hStart
    hSteps hInv hAttempt _ id hTarget
  rw [hAttempt.target] at hTarget
  cases hTarget
  have hPrepared₁ := hPrepared.later hRead.before
  have hKept : ¬ Displaced folderId w₁.headLog := by
    by_cases hHead : v'.currentHead = none
    · have hNil : w₁.headLog = [] := by
        apply headKey_eq_none_iff.mp
        exact hRead.head.trans hHead
      rw [hNil]
      rintro ⟨op', hOp, _⟩
      cases hOp
    · exact (hRead.admitted hHead).head rfl folderId hPrepared₁
  -- Nothing on the folder lies between the read and the base.
  rcases hAttempt.known with ⟨l, hl, hBase⟩
  have hChain := (hInv.log.linear trivial).chain
  have hWalk := hAttempt.isolated folderId rfl
  rw [← hBase, ← hStart, ← hRead.head] at hWalk
  rcases hInv.log.basic.split hChain hl hWalk with
    ⟨p, q, rfl, hq, hNotOn⟩
  have hSame : q = w₁.headLog :=
    suffix_unique hChain.nodup
      ((List.suffix_append p q).trans hl)
      (hRead.after.toSteps.trans hSteps).log hq
  refine ⟨p ++ q, hl, hBase, not_displaced_append hNotOn ?_⟩
  rw [hSame]
  exact hKept

variable {deviceId : DeviceId}

theorem commitFolder_meets
    {placement : Placement}
    {Q : CoreResult Operation → Unit → World → Prop}
    (hIdle : w.holding t = none)
    (hPrepared : Prepared t (.claimOf folderId) w)
    (h :
      ∀ r w', Steps t w w' →
        HostInv (claimedBy folderNodeId path c) w' →
        Q r () w') :
    LogMeets (claimedBy folderNodeId path c) t
      (FolderNodes.commit deviceId folderId .createFolder
        placement) () Q w := by
  unfold FolderNodes.commit
  apply meets_bind
  apply meets_now
  intro clock w₁ h₁ _
  apply continues_ok
  have hPrepared₁ := hPrepared.later h₁
  apply meets_onLog (Meets.with_inv (OperationLog.commit_meets
    (h₁.holding.trans hIdle) (knows_new deviceId clock w₁)
    (fun _ => rfl) (builtOnly_self w₁ t) ?_))
  · rintro r v' w₂ ⟨⟨start, _, hGoing, _⟩, hInv₂⟩
    exact h r w₂ (h₁.toSteps.trans hGoing.steps) hInv₂
  · intro start w₂ op hStarted hInv₂ hAttempt
    rcases hStarted.read rfl with
      ⟨v', w₃, w₄, hRead, hStart, hSteps⟩
    exact claim_stampable hPrepared₁ _ v' w₃ w₄ w₂ start op _
      hRead hStart.symm hSteps hInv₂ hAttempt

/- The entry of the folder has been written. -/
def Listing
    (folderId : FileId)
    (w : World) : Prop :=
  w.versions (.tree folderId) ≠ []

theorem Listing.later
    (h : Listing folderId w)
    (hGrows : Grows w w') : Listing folderId w' := by
  intro hNil
  apply h
  have hSuffix := hGrows.versions (.tree folderId)
  rw [hNil] at hSuffix
  exact List.suffix_nil.mp hSuffix

/- An entry that is there has been written. -/
theorem listing_of_lookup
    {body : Body}
    (hInv : LogInv True w)
    (h :
      w.store.objects.lookup (.tree folderId) = some body) :
    Listing folderId w := by
  intro hNil
  have hNewest := hInv.history.newest _ _ h
  rw [hNil] at hNewest
  cases hNewest

/- A write without a condition that was answered is done. -/
theorem listing_of_done
    {entry : FileEntry} {done : Bool}
    (hInv : HostInv (claimedBy folderNodeId path c) w)
    (hDone :
      WriteDone t (.put (.tree entry.fileId) (.entry entry))
        (.ok done) w) :
    Listing entry.fileId w := by
  rcases hDone with ⟨f, hf, ⟨hWrite, _, _⟩, hApplied, hRefused⟩
  cases done with
  | false =>
      exact absurd hWrite
        (hInv.extra.puts f hf (hRefused rfl) _ _)
  | true =>
      have hVersion := hInv.log.history.applied f hf
        (hApplied rfl) (.entry entry) (by rw [hWrite]; rfl)
      rw [hWrite] at hVersion
      exact List.ne_nil_of_mem hVersion

/- A read of an entry that the run permits. -/
theorem getEntry_permitted
    {Q : CoreResult FileEntry → Unit → World → Prop}
    (h :
      ∀ w₁ r w', Others t w w₁ →
        HostInv (claimedBy folderNodeId path c) w₁ →
        Others t w₁ w' →
        HostInv (claimedBy folderNodeId path c) w' →
        EntryAt folderId r w₁ →
        ReadsInTime folderNodeId path c t
          (.getObject (.tree folderId)) w₁ →
        Q r () w') :
    LogMeets (claimedBy folderNodeId path c) t
      (FileTree.getEntry folderId) () Q w := by
  apply meets_readBody
  intro w₁ r w' h₁ hInv₁ h₂ hInv₂ hRead
  rcases hRead.admitted with ⟨_, _, hAdmits, _⟩
  have hAnswers := hRead.answers
  apply h w₁ _ w' h₁ hInv₁ h₂ hInv₂ _ hAdmits
  cases r with
  | error e => cases e <;> exact hAnswers
  | ok data =>
      cases data with
      | entry entry => exact hAnswers
      | _ => trivial

/- Whether the record of a folder was there. -/
def RecordAt
    (folderId : FileId)
    (r : CoreResult Tombstone)
    (w : World) : Prop :=
  match r with
  | .ok _ =>
      w.store.objects.lookup (.tombstone folderId) ≠ none
  | .error (.notFound _) =>
      w.store.objects.lookup (.tombstone folderId) = none
  | .error _ => True

theorem getTombstone_permitted
    {Q : CoreResult Tombstone → Unit → World → Prop}
    (h :
      ∀ w₁ r w', Others t w w₁ →
        HostInv (claimedBy folderNodeId path c) w₁ →
        Others t w₁ w' →
        HostInv (claimedBy folderNodeId path c) w' →
        RecordAt folderId r w₁ →
        ReadsInTime folderNodeId path c t
          (.getObject (.tombstone folderId)) w₁ →
        Q r () w') :
    LogMeets (claimedBy folderNodeId path c) t
      (TombstoneManager.getTombstone folderId) () Q w := by
  apply meets_readBody
  intro w₁ r w' h₁ hInv₁ h₂ hInv₂ hRead
  rcases hRead.admitted with ⟨_, _, hAdmits, _⟩
  have hAnswers := hRead.answers
  apply h w₁ _ w' h₁ hInv₁ h₂ hInv₂ _ hAdmits
  cases r with
  | error e => cases e <;> exact hAnswers
  | ok data =>
      have hFound :
          w₁.store.objects.lookup (.tombstone folderId) =
            some data := hAnswers
      cases data with
      | tombstone record =>
          intro hNone
          rw [hFound] at hNone
          cases hNone
      | _ => trivial

theorem writeTreeEntry_meets
    {placement : Placement} {opId : OpId}
    {Q : CoreResult Unit → Unit → World → Prop}
    (h :
      ∀ r w', Calling t w w' →
        HostInv (claimedBy folderNodeId path c) w' →
        (r = .ok () → Listing folderId w') → Q r () w') :
    LogMeets (claimedBy folderNodeId path c) t
      (FolderNodes.writeTreeEntry folderId placement opId) ()
      Q w := by
  unfold FolderNodes.writeTreeEntry
  apply meets_bind
  apply meets_prepare
  intro w₁ h₁ _ _
  apply continues_ok
  apply meets_bind
  apply meets_now
  intro time w₂ h₂ _
  apply continues_ok
  apply meets_bind
  apply meets_attempt
  apply getEntry_permitted
  intro w₃ found w₄ h₃ hInv₃ h₄ _ hEntry _
  have h₀₄ := h₁.trans (h₂.trans (h₃.trans h₄)).toSteps.calling
  apply continues_ok
  have written :
      ∀ entry : FileEntry,
        (∀ w', Calling t w₄ w' →
          Listing entry.fileId w' → Listing folderId w') →
        LogMeets (claimedBy folderNodeId path c) t
          (FileTree.upsertEntry entry) () Q w₄ := by
    intro entry hListing
    apply FileTree.upsertEntry_done (claim_sendable _)
    intro r w' h₅ hInv' hDone
    have hCalling := h₅.toSteps.calling
    apply h r w' (h₀₄.trans hCalling) hInv'
    intro hr
    rcases hDone hr with ⟨done, hDone⟩
    exact hListing w' hCalling (listing_of_done hInv' hDone)
  cases found with
  | ok entry =>
      -- The entry that is kept was written before.
      have hListed :=
        (listing_of_lookup hInv₃.log hEntry).later h₄.toGrows
      exact written _ fun w' h₅ _ => hListed.later h₅.toGrows
  | error e =>
      cases e with
      | notFound message => exact written _ fun _ _ => id
      | _ =>
          apply meets_throw
          intro w' h₅ hInv'
          apply h _ w' (h₀₄.trans h₅.toSteps.calling) hInv'
          intro hNot
          cases hNot

theorem createRemote_meets
    {placement : Placement}
    {Q : CoreResult Unit → Unit → World → Prop}
    (hIdle : w.holding t = none)
    (h :
      ∀ r w', Calling t w w' →
        HostInv (claimedBy folderNodeId path c) w' →
        (r = .ok () → Listing folderId w') → Q r () w') :
    LogMeets (claimedBy folderNodeId path c) t
      (FolderNodes.createRemote deviceId folderId placement) ()
      Q w := by
  unfold FolderNodes.createRemote
  apply meets_bind
  apply meets_prepare
  intro w₁ h₁ hPrepared _
  apply continues_ok
  apply meets_bind
  apply commitFolder_meets (h₁.holding.trans hIdle) hPrepared
  intro r w₂ h₂ hInv₂
  have h₀₂ := h₁.trans h₂.calling
  cases r with
  | error e =>
      apply continues_error
      apply h _ w₂ h₀₂ hInv₂
      intro hNot
      cases hNot
  | ok operation =>
      apply continues_ok
      apply writeTreeEntry_meets
      exact fun r w' h₃ => h r w' (h₀₂.trans h₃)

------------------------------------------------------------
-- Claims
------------------------------------------------------------

variable {placement : Placement}

/- The call claims a folder of the path with this id. -/
def Claims
    (folderNodeId : FolderNodes.NodeId)
    (path : List PathStep)
    (c : FolderCall)
    (folderId : FileId)
    (placement : Placement) : Prop :=
  OnPath path c ∧ ∃ node ∈ nodesAt folderNodeId none "" path,
    node.folderId = folderId ∧ node.placement = placement

/- The call passes over this id. -/
def Passes
    (folderNodeId : FolderNodes.NodeId)
    (path : List PathStep)
    (c : FolderCall)
    (folderId : FileId)
    (placement : Placement) : Prop :=
  OnPath path c ∧ ∃ node ∈ nodesAt folderNodeId none "" path,
    node.placement = placement ∧
      ∃ generation < node.generation,
        folderId = folderNodeId placement.parentId
          placement.name generation

/- What became of one id. -/
structure ClaimPost
    (folderNodeId : FolderNodes.NodeId)
    (path : List PathStep)
    (c : FolderCall)
    (folderId : FileId)
    (placement : Placement)
    (claimed : Bool)
    (w : World) : Prop where
  claims :
    Claims folderNodeId path c folderId placement →
      claimed = true ∧ Listing folderId w
  passes :
    Passes folderNodeId path c folderId placement →
      claimed = false

/- What a claim leaves behind, whatever it returns. -/
abbrev ClaimOutcome
    (folderNodeId : FolderNodes.NodeId)
    (path : List PathStep)
    (c : FolderCall)
    (t : Tid)
    (w : World)
    (folderId : FileId)
    (placement : Placement)
    (Q : CoreResult Bool → Unit → World → Prop) : Prop :=
  ∀ r w', Calling t w w' →
    HostInv (claimedBy folderNodeId path c) w' →
    (∀ claimed, r = .ok claimed →
      ClaimPost folderNodeId path c folderId placement claimed
        w') →
    Q r () w'

variable {Q : CoreResult Bool → Unit → World → Prop}

theorem ClaimOutcome.throws
    (h :
      ClaimOutcome folderNodeId path c t w folderId placement
        Q)
    (hCalling : Calling t w w₁)
    (e : CoreError) :
    LogMeets (claimedBy folderNodeId path c) t
      (Script.throw e : CloudM Unit Bool) () Q w₁ := by
  apply meets_throw
  intro w' h₁ hInv'
  apply h _ w' (hCalling.trans h₁.toSteps.calling) hInv'
  intro claimed hNot
  cases hNot

theorem ClaimOutcome.returns
    {claimed : Bool}
    (h :
      ClaimOutcome folderNodeId path c t w folderId placement
        Q)
    (hCalling : Calling t w w₁)
    (hPost :
      ClaimPost folderNodeId path c folderId placement claimed
        w₁) :
    LogMeets (claimedBy folderNodeId path c) t
      (pure claimed : CloudM Unit Bool) () Q w₁ := by
  apply meets_pure
  intro w' h₁ hInv'
  apply h _ w' (hCalling.trans h₁.toSteps.calling) hInv'
  intro claimed' hOk
  cases hOk
  exact ⟨fun hClaims => ⟨(hPost.claims hClaims).1,
    (hPost.claims hClaims).2.later h₁.toGrows⟩, hPost.passes⟩

/- An entry that was found decides about the id. -/
theorem claimPost_of_entry
    {entry : FileEntry}
    (hInv : HostInv (claimedBy folderNodeId path c) w)
    (hEntry : EntryAt folderId (.ok entry) w)
    (hReads :
      ReadsInTime folderNodeId path c t
        (.getObject (.tree folderId)) w) :
    ClaimPost folderNodeId path c folderId placement
      (isFolderAt entry placement) w := by
  constructor
  · rintro ⟨_, node, hNode, rfl, rfl⟩
    have hLive := (hInv.extra.nodes node hNode).tree _ hEntry
    simp only [isLiveFolder, Bool.and_eq_true] at hLive
    exact ⟨hLive.1, listing_of_lookup hInv.log hEntry⟩
  · rintro ⟨hOnPath, node, hNode, rfl, generation, hLess, hId⟩
    have hPassed := (hReads.nodes hOnPath node hNode).passed
      generation hLess folderId hId
    exact hPassed.1 rfl _ hEntry

theorem afterConflict_meets
    (hPasses :
      ¬ Passes folderNodeId path c folderId placement)
    (h :
      ClaimOutcome folderNodeId path c t w folderId placement
        Q) :
    LogMeets (claimedBy folderNodeId path c) t
      (FolderNodes.afterConflict folderId placement) () Q
      w := by
  unfold FolderNodes.afterConflict
  apply meets_bind
  apply meets_prepare
  intro w₁ h₁ hPrepared _
  apply continues_ok
  apply meets_bind
  apply meets_attempt
  apply getEntry_permitted
  intro w₂ r w₃ h₂ hInv₂ h₃ _ hEntry hReads
  have h₀₃ := h₁.trans (h₂.trans h₃).toSteps.calling
  apply continues_ok
  cases r with
  | ok entry =>
      have hPost : ClaimPost folderNodeId path c folderId placement
          (isFolderAt entry placement) w₂ :=
        claimPost_of_entry hInv₂ hEntry hReads
      apply h.returns h₀₃
      exact ⟨fun hClaims => ⟨(hPost.claims hClaims).1,
        (hPost.claims hClaims).2.later h₃.toGrows⟩,
        hPost.passes⟩
  | error e =>
      cases e with
      | notFound message =>
          apply h.returns h₀₃
          refine ⟨?_, fun hPass => absurd hPass hPasses⟩
          rintro ⟨hOnPath, node, hNode, rfl, rfl⟩
          exact absurd hEntry
            ((hReads.nodes hOnPath node hNode).claimed rfl
              (hPrepared.later h₂))
      | _ => exact h.throws h₀₃ _

theorem claimMissing_meets
    (hIdle : w.holding t = none)
    (hPasses :
      ¬ Passes folderNodeId path c folderId placement)
    (h :
      ClaimOutcome folderNodeId path c t w folderId placement
        Q) :
    LogMeets (claimedBy folderNodeId path c) t
      (FolderNodes.claimMissing deviceId folderId placement) ()
      Q w := by
  unfold FolderNodes.claimMissing
  apply meets_bind
  apply meets_attempt
  apply createRemote_meets hIdle
  intro r w₁ h₁ _ hListing
  apply continues_ok
  cases r with
  | ok _ =>
      apply h.returns h₁
      exact ⟨fun _ => ⟨rfl, hListing rfl⟩,
        fun hPass => absurd hPass hPasses⟩
  | error e =>
      cases e with
      | conflict reason =>
          apply afterConflict_meets hPasses
          exact fun r w' h₂ => h r w' (h₁.trans h₂)
      | _ => exact h.throws h₁ _

theorem tryClaim_meets
    (hIdle : w.holding t = none)
    (h :
      ClaimOutcome folderNodeId path c t w folderId placement
        Q) :
    LogMeets (claimedBy folderNodeId path c) t
      (FolderNodes.tryClaim deviceId folderId placement) () Q
      w := by
  unfold FolderNodes.tryClaim
  apply meets_bind
  apply meets_attempt
  apply getEntry_permitted
  intro w₁ r w₂ h₁ hInv₁ h₂ _ hEntry hReads
  have h₀₂ := (h₁.trans h₂).toSteps.calling
  apply continues_ok
  cases r with
  | ok entry =>
      have hPost : ClaimPost folderNodeId path c folderId placement
          (isFolderAt entry placement) w₁ :=
        claimPost_of_entry hInv₁ hEntry hReads
      apply h.returns h₀₂
      exact ⟨fun hClaims => ⟨(hPost.claims hClaims).1,
        (hPost.claims hClaims).2.later h₂.toGrows⟩,
        hPost.passes⟩
  | error e =>
  cases e with
  | notFound message =>
      apply meets_bind
      apply meets_attempt
      apply getTombstone_permitted
      intro w₃ r w₄ h₃ hInv₃ h₄ _ hRecord hReads₃
      have h₀₄ := h₀₂.trans (h₃.trans h₄).toSteps.calling
      apply continues_ok
      cases r with
      | ok record =>
          apply h.returns h₀₄
          refine ⟨?_, fun _ => rfl⟩
          rintro ⟨_, node, hNode, rfl, _⟩
          exact absurd (hInv₃.extra.nodes node hNode).record
            hRecord
      | error e =>
          cases e with
          | notFound message =>
              apply claimMissing_meets
                (h₀₄.holding.trans hIdle)
              · rintro ⟨hOnPath, node, hNode, rfl, generation,
                  hLess, hId⟩
                have hPassed :=
                  (hReads₃.nodes hOnPath node hNode).passed
                    generation hLess folderId hId
                exact hPassed.2 rfl hRecord
              · exact fun r w' h₅ => h r w' (h₀₄.trans h₅)
          | _ => exact h.throws h₀₄ _
  | _ => exact h.throws h₀₂ _

end S4Drive

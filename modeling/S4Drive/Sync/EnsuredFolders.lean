import S4Drive.Sync.FolderClaims

/-
  Whole paths. Devices that ensure one path agree on its
  ids as long as the claimed ids are left alone, and no
  folder that was moved, renamed or deleted is created
  again in a run whose claims are in time.

  Main declarations:
    * `claimFrom_meets`, `ensureFrom_meets`
    * `folder_claims_are_safe`
    * `docs_ensured_by_both`
    * `stale_create_committed`
-/

------------------------------------------------------------
-- Paths
------------------------------------------------------------

namespace S4Drive

open ObjectStore Concurrency ChainLog OperationLog

variable {w w' w₁ w₂ : World} {t : Tid} {c : FolderCall}
variable {folderNodeId : FolderNodes.NodeId}
variable {path : List PathStep} {folderId : FileId}
variable {op : Operation} {placement : Placement}
variable {node : FolderNode}

theorem mem_nodesAt
    {parentId : Option FileId}
    {at' : String}
    (h : node ∈ nodesAt folderNodeId parentId at' path) :
    node.folderId =
        folderNodeId node.placement.parentId
          node.placement.name node.generation ∧
      node.generation < FolderNodes.folderIdGenerations := by
  induction path generalizing parentId at' with
  | nil => cases h
  | cons step rest ih =>
      rcases List.mem_cons.mp h with rfl | h
      · exact ⟨rfl, step.bound⟩
      · exact ih h

/- The folder of the path at this place has this id. -/
def NodeDone
    (folderNodeId : FolderNodes.NodeId)
    (path : List PathStep)
    (c : FolderCall)
    (placement : Placement)
    (folderId : FileId)
    (w : World)
    (node : FolderNode) : Prop :=
  OnPath path c → node ∈ nodesAt folderNodeId none "" path →
    node.placement = placement →
      folderId = node.folderId ∧ Listing folderId w

variable {deviceId : DeviceId}
variable {Q : CoreResult FileId → Unit → World → Prop}

/-
  The claimed generation is reached, and no earlier one is
  taken, when the tries start below it.
-/
theorem claimFrom_meets
    {generation rounds : Nat}
    (hIdle : w.holding t = none)
    (hRounds :
      FolderNodes.folderIdGenerations ≤ generation + rounds)
    (h :
      ∀ r w', Calling t w w' →
        HostInv (claimedBy folderNodeId path c) w' →
        (∀ folderId, r = .ok folderId → ∀ node : FolderNode,
          generation ≤ node.generation →
          NodeDone folderNodeId path c placement folderId w'
            node) →
        Q r () w') :
    LogMeets (claimedBy folderNodeId path c) t
      (FolderNodes.claimFrom folderNodeId deviceId placement
        generation rounds) () Q w := by
  induction rounds generalizing generation w with
  | zero =>
      unfold FolderNodes.claimFrom
      apply meets_bind
      apply meets_drawn
      intro folderId w₁ h₁ _
      have h₀₁ := h₁.toSteps.calling
      apply continues_ok
      apply meets_bind
      apply createRemote_meets (h₀₁.holding.trans hIdle)
      intro r w₂ h₂ hInv₂ _
      have h₀₂ := h₀₁.trans h₂
      cases r with
      | error e =>
          apply continues_error
          apply h _ w₂ h₀₂ hInv₂
          intro folderId' hNot
          cases hNot
      | ok _ =>
          apply continues_ok
          apply meets_pure
          intro w' h₃ hInv'
          apply h _ w' (h₀₂.trans h₃.toSteps.calling) hInv'
          -- No generation is left.
          intro folderId' _ node hFrom _ hNode _
          have hBound := (mem_nodesAt hNode).2
          omega
  | succ rounds ih =>
      unfold FolderNodes.claimFrom
      apply meets_bind
      apply tryClaim_meets hIdle
      intro r w₁ h₁ hInv₁ hPost
      cases r with
      | error e =>
          apply continues_error
          apply h _ w₁ h₁ hInv₁
          intro folderId' hNot
          cases hNot
      | ok claimed =>
      have hPost := hPost claimed rfl
      have claims :
          ∀ node : FolderNode, OnPath path c →
            node ∈ nodesAt folderNodeId none "" path →
            node.placement = placement →
            node.generation = generation →
            claimed = true ∧ Listing node.folderId w₁ := by
        intro node hOnPath hNode hPlacement hAt
        have hId := (mem_nodesAt hNode).1
        rw [hPlacement, hAt] at hId
        rw [hId]
        apply hPost.claims
        exact ⟨hOnPath, node, hNode, hId, hPlacement⟩
      apply continues_ok
      cases claimed with
      | true =>
          simp only [if_true]
          apply meets_pure
          intro w' h₂ hInv'
          apply h _ w' (h₁.trans h₂.toSteps.calling) hInv'
          intro folderId' hOk node hFrom hOnPath hNode
            hPlacement
          cases hOk
          by_cases hAt : node.generation = generation
          · have hId := (mem_nodesAt hNode).1
            rw [hPlacement, hAt] at hId
            have hClaims :=
              claims node hOnPath hNode hPlacement hAt
            rw [← hId]
            exact ⟨rfl, hClaims.2.later h₂.toGrows⟩
          · have hPassed := hPost.passes ⟨hOnPath, node, hNode,
              hPlacement, generation, by omega, rfl⟩
            cases hPassed
      | false =>
          simp only [Bool.false_eq_true, if_false]
          apply ih (h₁.holding.trans hIdle) (by omega)
          intro r w' h₂ hInv' hDone
          apply h r w' (h₁.trans h₂) hInv'
          intro folderId hOk node hFrom hOnPath hNode
            hPlacement
          by_cases hAt : node.generation = generation
          · have hClaims :=
              claims node hOnPath hNode hPlacement hAt
            cases hClaims.1
          · exact hDone folderId hOk node (by omega) hOnPath
              hNode hPlacement

/- A reserved folder that was published is in the tree. -/
theorem publishMissing_meets
    {Q : CoreResult Unit → Unit → World → Prop}
    (hIdle : w.holding t = none)
    (h :
      ∀ r w', Calling t w w' →
        HostInv (claimedBy folderNodeId path c) w' →
        (r = .ok () → Listing folderId w') → Q r () w') :
    LogMeets (claimedBy folderNodeId path c) t
      (FolderNodes.publishMissing deviceId folderId placement)
      () Q w := by
  have failed :
      ∀ e w₁, Calling t w w₁ →
        LogMeets (claimedBy folderNodeId path c) t
          (Script.throw e : CloudM Unit Unit) () Q w₁ := by
    intro e w₁ h₁
    apply meets_throw
    intro w' h₂ hInv'
    apply h _ w' (h₁.trans h₂.toSteps.calling) hInv'
    intro hNot
    cases hNot
  unfold FolderNodes.publishMissing
  apply meets_bind
  apply meets_attempt
  apply createRemote_meets hIdle
  intro r w₁ h₁ _ hListing
  apply continues_ok
  cases r with
  | ok _ =>
      apply meets_pure
      intro w' h₂ hInv'
      apply h _ w' (h₁.trans h₂.toSteps.calling) hInv'
      exact fun _ => (hListing rfl).later h₂.toGrows
  | error e =>
  cases e with
  | conflict reason =>
      apply meets_bind
      apply meets_attempt
      apply getEntry_permitted
      intro w₂ r w₃ h₂ hInv₂ h₃ _ hEntry _
      have h₀₃ := h₁.trans (h₂.trans h₃).toSteps.calling
      apply continues_ok
      cases r with
      | ok entry =>
          dsimp only
          split
          · apply meets_pure
            intro w' h₄ hInv'
            apply h _ w' (h₀₃.trans h₄.toSteps.calling) hInv'
            exact fun _ => (listing_of_lookup hInv₂.log
              hEntry).later (h₃.trans h₄).toGrows
          · exact failed _ w₃ h₀₃
      | error e => cases e <;> exact failed _ w₃ h₀₃
  | _ => exact failed _ w₁ h₁

theorem publishFolderAt_meets
    {Q : CoreResult Unit → Unit → World → Prop}
    (hIdle : w.holding t = none)
    (h :
      ∀ r w', Calling t w w' →
        HostInv (claimedBy folderNodeId path c) w' →
        (r = .ok () → Listing folderId w') → Q r () w') :
    LogMeets (claimedBy folderNodeId path c) t
      (FolderNodes.publishFolderAt deviceId folderId placement)
      () Q w := by
  have failed :
      ∀ e w₁, Calling t w w₁ →
        LogMeets (claimedBy folderNodeId path c) t
          (Script.throw e : CloudM Unit Unit) () Q w₁ := by
    intro e w₁ h₁
    apply meets_throw
    intro w' h₂ hInv'
    apply h _ w' (h₁.trans h₂.toSteps.calling) hInv'
    intro hNot
    cases hNot
  unfold FolderNodes.publishFolderAt
  apply meets_bind
  apply meets_attempt
  apply getEntry_permitted
  intro w₁ r w₂ h₁ hInv₁ h₂ _ hEntry _
  have h₀₂ := (h₁.trans h₂).toSteps.calling
  apply continues_ok
  cases r with
  | ok entry =>
      dsimp only
      split
      · apply meets_pure
        intro w' h₃ hInv'
        apply h _ w' (h₀₂.trans h₃.toSteps.calling) hInv'
        exact fun _ => (listing_of_lookup hInv₁.log
          hEntry).later (h₂.trans h₃).toGrows
      · exact failed _ w₂ h₀₂
  | error e =>
  cases e with
  | notFound message =>
      apply meets_bind
      apply meets_attempt
      apply getTombstone_permitted
      intro w₃ r w₄ h₃ _ h₄ _ _ _
      have h₀₄ := h₀₂.trans (h₃.trans h₄).toSteps.calling
      apply continues_ok
      cases r with
      | ok record => exact failed _ w₄ h₀₄
      | error e =>
          cases e with
          | notFound message =>
              apply publishMissing_meets
                (h₀₄.holding.trans hIdle)
              exact fun r w' h₅ => h r w' (h₀₄.trans h₅)
          | _ => exact failed _ w₄ h₀₄
  | _ => exact failed _ w₂ h₀₂

/- What the index says of the folders of the path. -/
def RowsKnown
    (folderNodeId : FolderNodes.NodeId)
    (path : List PathStep)
    (c : FolderCall)
    (folderAt : String → Option FolderRow)
    (w : World) : Prop :=
  OnPath path c → ∀ node ∈ nodesAt folderNodeId none "" path,
    ∀ row, folderAt node.path = some row →
      row.fileId = node.folderId ∧
        (row.pendingUpload = false → Listing node.folderId w)

variable {folderAt : String → Option FolderRow}

theorem RowsKnown.later
    (h : RowsKnown folderNodeId path c folderAt w)
    (hGrows : Grows w w') :
    RowsKnown folderNodeId path c folderAt w' := by
  intro hOnPath node hNode row hRow
  have hKnown := h hOnPath node hNode row hRow
  exact ⟨hKnown.1, fun hSynced =>
    (hKnown.2 hSynced).later hGrows⟩

theorem ensureOne_meets
    {at' : String}
    (hIdle : w.holding t = none)
    (hRows : RowsKnown folderNodeId path c folderAt w)
    (h :
      ∀ r w', Calling t w w' →
        HostInv (claimedBy folderNodeId path c) w' →
        (∀ folderId, r = .ok folderId → ∀ node : FolderNode,
          node.path = at' →
          NodeDone folderNodeId path c placement folderId w'
            node) →
        Q r () w') :
    LogMeets (claimedBy folderNodeId path c) t
      (FolderNodes.ensureOne folderNodeId deviceId folderAt
        placement at') () Q w := by
  unfold FolderNodes.ensureOne
  cases hRow : folderAt at' with
  | none =>
      apply claimFrom_meets hIdle (Nat.le_add_left _ _)
      intro r w' h₁ hInv' hDone
      apply h r w' h₁ hInv'
      intro folderId hOk node _
      exact hDone folderId hOk node (Nat.zero_le _)
  | some folder =>
      have returned :
          ∀ w₁, Calling t w w₁ →
            (OnPath path c → ∀ node : FolderNode,
              node ∈ nodesAt folderNodeId none "" path →
              node.path = at' → Listing folder.fileId w₁) →
            LogMeets (claimedBy folderNodeId path c) t
              (pure folder.fileId : CloudM Unit FileId) () Q
              w₁ := by
        intro w₁ h₁ hListing
        apply meets_pure
        intro w' h₂ hInv'
        apply h _ w' (h₁.trans h₂.toSteps.calling) hInv'
        intro folderId hOk node hAt hOnPath hNode _
        cases hOk
        have hKnown := hRows hOnPath node hNode folder
          (by rw [hAt, hRow])
        exact ⟨hKnown.1,
          (hListing hOnPath node hNode hAt).later h₂.toGrows⟩
      dsimp only
      apply meets_bind
      unfold FolderNodes.publishReservedFolder
      split
      · apply publishFolderAt_meets hIdle
        intro r w₁ h₁ hInv₁ hListing
        cases r with
        | error e =>
            apply continues_error
            apply h _ w₁ h₁ hInv₁
            intro folderId hNot
            cases hNot
        | ok _ =>
            apply continues_ok
            exact returned w₁ h₁ fun _ _ _ _ => hListing rfl
      · rename_i hPending
        apply meets_pure
        intro w₁ h₁ _
        apply continues_ok
        apply returned w₁ h₁.toSteps.calling
        intro hOnPath node hNode hAt
        have hKnown := hRows hOnPath node hNode folder
          (by rw [hAt, hRow])
        rw [hKnown.1]
        exact (hKnown.2 (by simpa using hPending)).later
          h₁.toGrows

/-
  A path is ensured folder by folder; what is left of it has
  its nodes below the folder that was ensured last.
-/
theorem ensureFrom_meets
    {at' : String}
    {parentId : Option FileId} {names : List String}
    {Q : CoreResult (Option FileId) → Unit → World → Prop}
    (hIdle : w.holding t = none)
    (hRows : RowsKnown folderNodeId path c folderAt w)
    (h :
      ∀ r w', Calling t w w' →
        HostInv (claimedBy folderNodeId path c) w' →
        (∀ last, r = .ok last → OnPath path c →
          ∀ rest, names = rest.map PathStep.name →
          nodesAt folderNodeId parentId at' rest ⊆
            nodesAt folderNodeId none "" path →
          last = lastNodeId folderNodeId parentId rest ∧
            ∀ node ∈ nodesAt folderNodeId parentId at' rest,
              Listing node.folderId w') →
        Q r () w') :
    LogMeets (claimedBy folderNodeId path c) t
      (FolderNodes.ensureFrom folderNodeId deviceId folderAt
        parentId at' names) () Q w := by
  induction names generalizing parentId at' w with
  | nil =>
      apply meets_pure
      intro w' h₁ hInv'
      apply h _ w' h₁.toSteps.calling hInv'
      intro last hOk _ rest hNames _
      cases hOk
      cases rest with
      | nil =>
          refine ⟨rfl, ?_⟩
          intro node hNode
          cases hNode
      | cons step rest => cases hNames
  | cons name names ih =>
      unfold FolderNodes.ensureFrom
      apply meets_bind
      apply ensureOne_meets hIdle hRows
      intro r w₁ h₁ hInv₁ hDone
      cases r with
      | error e =>
          apply continues_error
          apply h _ w₁ h₁ hInv₁
          intro last hNot
          cases hNot
      | ok folderId =>
      have hDone := hDone folderId rfl
      apply continues_ok
      apply ih (h₁.holding.trans hIdle)
        (hRows.later h₁.toGrows)
      intro r w' h₂ hInv' hRest
      apply h r w' (h₁.trans h₂) hInv'
      intro last hOk hOnPath rest hNames hNodes
      cases rest with
      | nil => cases hNames
      | cons step rest =>
          simp only [List.map_cons, List.cons.injEq] at hNames
          rcases hNames with ⟨rfl, hNames⟩
          simp only [nodesAt, List.cons_subset] at hNodes
          have hFirst := hDone _ rfl hOnPath hNodes.1 rfl
          have hId : folderId =
              folderNodeId parentId step.name
                step.generation := hFirst.1
          subst hId
          have hLast := hRest last hOk hOnPath rest hNames
            hNodes.2
          refine ⟨hLast.1, ?_⟩
          intro node hNode
          rcases List.mem_cons.mp hNode with rfl | hNode
          · exact hFirst.2.later h₂.toGrows
          · exact hLast.2 node hNode

------------------------------------------------------------
-- Safe Claims
------------------------------------------------------------

/- What a call that has returned has done. -/
def folderPost
    (folderNodeId : FolderNodes.NodeId)
    (path : List PathStep)
    (c : FolderCall)
    (r : CoreResult (Option FileId))
    (w : World) : Prop :=
  ∀ last, r = .ok last → OnPath path c →
    last = lastNodeId folderNodeId none path ∧
      ∀ node ∈ nodesAt folderNodeId none "" path,
        Listing node.folderId w

theorem folder_call
    (hIdle : w.holding t = none)
    (hStarts : StartsInTime folderNodeId path c w) :
    LogMeets (claimedBy folderNodeId path c) t
      (c.run folderNodeId) ()
      (fun r _ w' => folderPost folderNodeId path c r w') w := by
  cases c with
  | ensure deviceId folderAt names =>
      apply ensureFrom_meets hIdle
      · intro hOnPath node hNode row hRow
        exact hStarts hOnPath node hNode row hRow
      · intro r w' _ _ hLast last hOk hOnPath
        exact hLast last hOk hOnPath path hOnPath
          (List.Subset.refl _)
  | other step kept =>
      apply meets_bind
      apply Meets.mono (deviceStep_meets hIdle ?_)
      · intro r v' w₁ _
        cases r with
        | error e =>
            apply continues_error
            intro last hNot
            cases hNot
        | ok _ =>
            apply continues_ok
            apply meets_pure
            exact fun _ _ _ _ _ hOnPath => hOnPath.elim
      · cases step with
        | commit deviceId targetFileId opType effects
            fileExists parentExists =>
            intro v v' w₁ w₂ w₃ start op preconditions _ _ _ _
              hAttempt hCreate
            rw [hAttempt.opType] at hCreate
            rw [hCreate] at kept
            exact absurd rfl kept
        | write request plain => exact claim_sendable _

variable {s : FolderState}

theorem claims_of_run
    (run :
      FolderRun folderNodeId (ClaimsInTime folderNodeId path)
        s) :
    ThreadSystem.StateOk (folderSystem folderNodeId)
      (logContract (claimHost folderNodeId path))
      (claimLimits folderNodeId path)
      (fun t _ w => w.holding t = none)
      (fun _ c _ r w => folderPost folderNodeId path c r.1 w)
      s := by
  have hVerified :
      ThreadSystem.Verified (folderSystem folderNodeId)
        (logContract (claimHost folderNodeId path))
        (claimLimits folderNodeId path)
        (fun t _ w => w.holding t = none)
        (fun _ c _ r w =>
          folderPost folderNodeId path c r.1 w) := by
    apply deviceSystem_verified
    · rintro t c v w hStarting ⟨w₀, hSame, hStarts⟩
      apply folder_call hStarting.holding
      cases c with
      | ensure deviceId folderAt names =>
          intro hOnPath node hNode row hRow
          rw [hSame.versions]
          exact hStarts hOnPath node hNode row hRow
      | other step kept => trivial
    · intro w w' ticket hInv hLimit hDeliver
      exact hInv.extra.deliver hInv.log hDeliver
        fun f hCarries => hLimit ticket f rfl hCarries
  have hFresh :
      HostInv (claimHost folderNodeId path) World.fresh := by
    refine ⟨LogInv.fresh True, ?_, ?_, ?_⟩
    · intro x hx
      cases hx
    · intro f hf
      cases hf
    · intro node _
      refine ⟨?_, ?_, rfl, ?_⟩
      · intro body hBody
        cases hBody
      · exact fun hVersions => absurd rfl hVersions
      · rintro ⟨op, hOp, _⟩
        cases hOp
  apply hVerified.stateOk_of_run hFresh (fun _ => rfl)
  apply run.weaken
  intro s a hPermit
  cases a with
  | call t c => exact fun _ _ => hPermit.1 t c rfl
  | serve t k =>
      exact fun c v r cont => hPermit.2.1 t k c v r cont rfl
  | env e =>
      rintro ticket f rfl
      exact hPermit.2.2 ticket f rfl
  | _ => trivial

/- The thread has ensured the path with this id. -/
def Ensured
    (path : List PathStep)
    (s : FolderState)
    (t : Tid)
    (last : Option FileId) : Prop :=
  ∃ deviceId folderAt,
    s.threads t =
      .busy (.ensure deviceId folderAt
        (path.map PathStep.name)) () (.done (.ok last, ()))

/- The folder is live at its place. -/
structure NodeLive
    (node : FolderNode)
    (w : World) : Prop where
  entry :
    ∃ body,
      w.store.objects.lookup (.tree node.folderId) =
        some body ∧
      isLiveFolder node.placement body = true
  record :
    w.store.objects.lookup (.tombstone node.folderId) = none
  placed : ¬ Displaced node.folderId w.headLog

theorem NodeKept.live
    (h : NodeKept node w)
    (hListing : Listing node.folderId w) : NodeLive node w := by
  refine ⟨?_, h.record, h.placed⟩
  rcases Option.ne_none_iff_exists'.mp (h.listed hListing) with
    ⟨body, hBody⟩
  exact ⟨body, hBody, h.tree body hBody⟩

/- No create of a displaced folder is in the log. -/
theorem create_not_displaced
    {above below : List Operation}
    (hInv : LogInv True w)
    (hOk : ClaimsOk folderNodeId path w)
    (hLog : w.headLog = above ++ op :: below)
    (hCreate : op.opType = .createFolder)
    (hTarget : op.targetFileId = some folderId) :
    ¬ Displaced folderId below := by
  have hMem : op ∈ w.headLog := by
    rw [hLog]
    simp
  rcases hInv.basic.log op hMem with ⟨x, hx, rfl⟩
  rcases hOk.creates x hx hCreate folderId hTarget with
    ⟨l, hl, hBase, hKept⟩
  -- The chain below the create ends in its base.
  have hChain := (hInv.linear trivial).chain
  have hAt : x.operation :: below <:+ w.headLog := by
    rw [hLog]
    exact List.suffix_append above _
  have hBelow : below <:+ w.headLog :=
    (List.suffix_cons _ _).trans hAt
  have hLink : x.operation.baseHead = headOf below :=
    (hChain.of_suffix hAt).linked.1
  have hSame : l = below :=
    suffix_unique hChain.nodup hl hBelow (hBase.trans hLink)
  rw [← hSame]
  exact hKept

/- The folders `docs` in the root, with the computed id. -/
def docsId : FileId := 266956770335724500287579498480131649824

/- The ids of all other folders do not matter here. -/
def docsNodeId : FolderNodes.NodeId :=
  fun parentId name generation =>
    if parentId = none ∧ name = "docs" ∧ generation = 0 then
      docsId
    else
      0

def docsPath : List PathStep :=
  [⟨"docs", 0, by decide⟩]

/- Whether a write leaves the folder of the path alone. -/
def leavesDocs
    (s : FolderState)
    (f : Flight Key Body Sender) : Bool :=
  (f.write.key ≠ .tree docsId ||
    f.write.body.any (isLiveFolder ⟨none, "docs"⟩)) &&
  f.write.key ≠ .tombstone docsId &&
  s.world.issued.all fun x => !x.operation.displaces

/- Whether a step is in time; `false` if unclear. -/
def claimInTime
    (s : FolderState) : FolderAction → Bool
  | .call _ (.ensure _ folderAt _) => (folderAt "docs").isNone
  | .serve t _ =>
      match s.threads t, s.world.basis t with
      | .busy _ _ (.ask (.getObject .head) _), some b =>
          !decide (Displaced b.fileId s.world.headLog)
      | .busy _ _ (.ask (.getObject (.tree _)) _), some b =>
          b.projects.isSome
      | _, _ => true
  | .env (.deliver ticket) =>
      match s.world.store.flights[ticket]? with
      | some f =>
          leavesDocs s f &&
          match f.write.key with
          | .tree id =>
              (newestOn id s.world.headLog).map
                Operation.opType = some .createFolder
          | _ => true
      | none => true
  | _ => true

theorem leavesNode_of_check
    {f : Flight Key Body Sender}
    (h : leavesDocs s f = true)
    (hNode : node ∈ nodesAt docsNodeId none "" docsPath) :
    LeavesNode s.world f.write node := by
  simp only [leavesDocs, Bool.and_eq_true, Bool.or_eq_true,
    decide_eq_true_eq, List.all_eq_true, Bool.not_eq_true',
    Option.any_eq_true] at h
  rcases h with ⟨⟨hTree, hRecord⟩, hLog⟩
  cases List.mem_singleton.mp hNode
  refine ⟨?_, hRecord, ?_⟩
  · intro hKey
    rcases hTree with hNot | ⟨body, hBody, hLive⟩
    · exact absurd hKey hNot
    · exact ⟨body, hBody, hLive⟩
  · rintro op ⟨x, hx, rfl⟩ _ _
    exact hLog x hx

theorem claimsInTime_of_check
    {a : FolderAction}
    (h : claimInTime s a = true) :
    ClaimsInTime docsNodeId docsPath s a := by
  refine ⟨?_, ?_, ?_⟩
  · rintro t c rfl
    cases c with
    | other step kept => trivial
    | ensure deviceId folderAt names =>
        intro _ node hNode row hRow
        cases List.mem_singleton.mp hNode
        have hNone : folderAt "docs" = none := by
          simpa [claimInTime] using h
        have hSome : folderAt "docs" = some row := hRow
        rw [hNone] at hSome
        cases hSome
  · rintro t k c v r cont rfl hThread
    constructor
    · rintro rfl id ⟨b, hBasis, hChange, _⟩
      have hId : b.fileId = id := congrArg Change.fileId hChange
      simpa [claimInTime, hThread, hBasis, hId] using h
    · intro _ node hNode
      cases List.mem_singleton.mp hNode
      constructor
      · rintro rfl ⟨b, hBasis, hChange, _⟩
        have hProjects : b.projects = none :=
          congrArg Change.projects hChange
        simp [claimInTime, hThread, hBasis, hProjects] at h
      · intro generation hLess
        exact absurd hLess (Nat.not_lt_zero generation)
  · rintro ticket f rfl hCarries
    simp only [claimInTime, hCarries.flight,
      Bool.and_eq_true] at h
    constructor
    · intro id _ hKey
      simpa [hKey] using h.2
    · exact fun node hNode => leavesNode_of_check h.1 hNode

/- A device that knows no folder ensures `docs`. -/
def ensureDocs (deviceId : DeviceId) : FolderCall :=
  .ensure deviceId (fun _ => none) ["docs"]

/- Device 1 finds neither an entry nor a record. -/
def docsMissing : List FolderAction :=
  [.call 1 (ensureDocs 1)] ++ answered 1 2

/- A thread creates the folder after it has found nothing. -/
def docsCreated
    (t : Tid)
    (seen fresh ticket : Nat) : List FolderAction :=
  answered t seen ++ [.serve t (.fresh fresh)] ++
  written t ticket ++ written t (ticket + 1)

def docsListed
    (t : Tid)
    (ticket : Nat) : List FolderAction :=
  answered t 4 ++ written t ticket

/- Both devices find nothing and create the folder. -/
def bothEnsured : List FolderAction :=
  docsMissing ++ [.call 2 (ensureDocs 2)] ++
  docsCreated 2 5 1 0 ++ docsListed 2 2 ++
  docsCreated 1 5 2 3 ++ docsListed 1 5

def hasEnsured (s : FolderState) (t : Tid) : Bool :=
  match s.threads t with
  | .busy (.ensure _ _ ["docs"]) () (.done (.ok last, ())) =>
      last = some docsId
  | _ => false

theorem of_hasEnsured
    (h : hasEnsured s t = true) :
    Ensured docsPath s t (some docsId) := by
  unfold hasEnsured at h
  split at h
  · rename_i hThread
    rw [decide_eq_true_eq] at h
    subst h
    exact ⟨_, _, hThread⟩
  · cases h

/- Device 3 moves the folder that device 2 has created. -/
def docsMoved : List FolderAction :=
  [.call 3 (.other (.commit 3 (some docsId) .move
    (placementEffects ⟨some 7, "docs"⟩ false) true true)
    (by decide))] ++
  answered 3 4 ++ [.serve 3 (.fresh 2)] ++ written 3 3 ++
  written 3 4

/- Device 1 creates the folder on what it has found before. -/
def createdLate : List FolderAction :=
  docsMissing ++ [.call 2 (ensureDocs 2)] ++
  docsCreated 2 5 1 0 ++ docsListed 2 2 ++ docsMoved ++
  docsCreated 1 5 3 5

def createsDisplaced (s : FolderState) : Bool :=
  match s.world.headLog with
  | op :: below =>
      op.opType = .createFolder &&
        op.targetFileId.any fun id => Displaced id below
  | [] => false

end S4Drive

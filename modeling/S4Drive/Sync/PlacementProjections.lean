import S4Drive.Sync.NotesSpecs
import S4Drive.Sync.OtherDevices

/-
  Devices that publish CreateFolder, Rename and Move intents
  on one id, while other devices do anything to other ids. A
  projection reads the entry, sees that its operation is the
  newest on the id, and writes the entry if it has not been
  changed since. A folder that is created keeps an entry that
  it finds: this is right only when the create is the first
  operation on the id.

  Main declarations:
    * `PlacementCall`, `placementSystem`
    * `Follows`, `VersionOf`, `PlacementsConverge`
    * `ProjectsInTime`
    * `placements_converge`
    * `rename_is_projected`
    * `stale_create_keeps_rename`
-/

------------------------------------------------------------
-- The System
------------------------------------------------------------

namespace S4Drive

open ObjectStore Concurrency ChainLog OperationLog
open NotesIntake

/- The changes of Notes that a projection places. -/
inductive PlacementKind where
  | createFolder
  | rename
  | move
deriving DecidableEq

def PlacementKind.opType : PlacementKind → OpType
  | createFolder => .createFolder
  | rename => .rename
  | move => .move

/- What Notes has recorded under the id of a request. -/
structure PlacementRequest where
  kind : PlacementKind
  createdAt : Timestamp
  fromRelative : Option String
  toRelative : String
  changes : List FileEntry

def PlacementRequest.intent
    (request : PlacementRequest)
    (journal : JournalId) : MutationIntent where
  requestId := journal.requestId
  fileId := journal.fileId
  createdAt := request.createdAt
  fromRelative := request.fromRelative
  toRelative := request.toRelative
  changes := request.changes

/- The requests of all devices; a request never changes. -/
abbrev PlacementRequests := JournalId → PlacementRequest

/- An entry object of a tree id is the entry of that id. -/
def EntryOf (fileId : FileId) (body : Body) : Prop :=
  ∃ entry, body = .entry entry ∧ entry.fileId = fileId

/- The step leaves the id alone and keeps entries apart. -/
def DeviceStep.Leaves
    (id : FileId) : DeviceStep → Prop
  | commit _ targetFileId _ _ _ _ => targetFileId ≠ some id
  | write request _ =>
      request.key ≠ .tree id ∧
        ∀ fileId body, request.key = .tree fileId →
          request.body = some body → EntryOf fileId body

/- A device publishes an intent or turns to other ids. -/
inductive PlacementCall (id : FileId) where
  | publish
      (deviceId : DeviceId)
      (journal : JournalId)
  | other
      (step : DeviceStep)
      (leaves : step.Leaves id)

namespace PlacementCall

variable {id : FileId}

def journal : PlacementCall id → Option JournalId
  | publish _ journal => some journal
  | other _ _ => none

def run
    (requests : PlacementRequests) :
    PlacementCall id → CloudM Unit Unit
  | publish deviceId journal =>
      let request := requests journal
      match request.kind with
      | .createFolder =>
          publishCreateFolder deviceId (request.intent journal)
      | .rename =>
          publishPlacement deviceId (request.intent journal)
            false
      | .move =>
          publishPlacement deviceId (request.intent journal)
            true
  | other step _ => step.run

end PlacementCall

/- Any number of devices and repeated requests. -/
def placementSystem
    (requests : PlacementRequests)
    (id : FileId) :
    ThreadSystem Req Resp World Tid Choice (PlacementCall id)
      (CoreResult Unit) Unit EnvAction :=
  deviceSystem (PlacementCall.run requests) ()
    PlacementCall.journal

abbrev PlacementState (id : FileId) :=
  SystemState Req Resp World Tid (PlacementCall id)
    (CoreResult Unit) Unit

abbrev PlacementAction (id : FileId) :=
  Action Tid Choice (PlacementCall id) EnvAction

def PlacementState.initial
    (requests : PlacementRequests)
    (id : FileId) : PlacementState id :=
  (placementSystem requests id).initial World.fresh

abbrev PlacementRun
    (requests : PlacementRequests)
    {id : FileId}
    (permits : PlacementState id → PlacementAction id → Prop) :
    PlacementState id → PlacementState id → Prop :=
  (placementSystem requests id).Run permits

variable {requests : PlacementRequests} {id : FileId}
variable {w w' : World} {t : Tid} {j : JournalId}
variable {op : Operation} {l l' : List Operation}
variable {f : Flight Key Body Sender}
variable {write : Write Key Body}

/- The older operation is not above the newer one. -/
def AtOrBelow
    (l : List Operation)
    (older newer : OpId) : Prop :=
  ∃ op rest, op :: rest <:+ l ∧ op.opId = newer ∧
    ∃ x ∈ op :: rest, x.opId = older

/- A version was not written for an older operation. -/
def Follows
    (l : List Operation)
    (newer older : Version) : Prop :=
  ∃ a b, newer.sender.projects = some a ∧
    older.sender.projects = some b ∧ AtOrBelow l b a

/- The body is an entry at the place the operation names. -/
def Carries (body : Body) (op : Operation) : Prop :=
  ∃ entry, body = .entry entry ∧
    Placement.ofOp op = some (Placement.ofEntry entry)

/- A version projects an operation of the log on the id. -/
def VersionOf
    (id : FileId)
    (l : List Operation)
    (v : Version) : Prop :=
  ∃ op ∈ l, op.targetFileId = some id ∧
    v.sender.projects = some op.opId ∧ Carries v.body op

/- The tree entry of the id is at the operation's place. -/
def Placed
    (id : FileId)
    (op : Operation)
    (w : World) : Prop :=
  ∃ body,
    w.store.objects.lookup (.tree id) = some body ∧
      Carries body op

theorem AtOrBelow.mono
    {a b : OpId}
    (h : AtOrBelow l b a)
    (hSuffix : l <:+ l') : AtOrBelow l' b a := by
  rcases h with ⟨op, rest, hBefore, hRest⟩
  exact ⟨op, rest, hBefore.trans hSuffix, hRest⟩

theorem Follows.mono
    {newer older : Version}
    (h : Follows l newer older)
    (hSuffix : l <:+ l') : Follows l' newer older := by
  rcases h with ⟨a, b, hNewer, hOlder, hBelow⟩
  exact ⟨a, b, hNewer, hOlder, hBelow.mono hSuffix⟩

theorem VersionOf.mono
    {v : Version}
    (h : VersionOf id l v)
    (hSuffix : l <:+ l') : VersionOf id l' v := by
  rcases h with ⟨op, hOp, hRest⟩
  exact ⟨op, hSuffix.subset hOp, hRest⟩

/- Below the newest operation on the id is only older. -/
theorem newest_of_atOrBelow
    {x : Operation}
    (hChain : LogChain l)
    (hNewest : newestOn id l = some op)
    (hx : x ∈ l)
    (hTarget : x.targetFileId = some id)
    (hBelow : AtOrBelow l op.opId x.opId) : x = op := by
  rcases hBelow with ⟨y, rest, ⟨above, rfl⟩, hId, z, hz, hSame⟩
  have unique :
      ∀ a ∈ above ++ y :: rest, ∀ b ∈ above ++ y :: rest,
        a.opId = b.opId → a = b :=
    fun a ha b hb => List.inj_on_of_nodup_map hChain.nodup ha hb
  have hy : y ∈ above ++ y :: rest := by simp
  have hz' : z ∈ above ++ y :: rest :=
    List.mem_append_right _ hz
  have hOp := (mem_of_newestOn hNewest).1
  cases unique y hy x hx hId
  cases unique z hz' op hOp hSame
  rcases List.mem_cons.mp hz with hz | hz
  · exact hz.symm
  rcases List.append_of_mem hz with ⟨mid, below, rfl⟩
  refine absurd ⟨above ++ x :: mid, op, below, ?_, rfl, x, ?_,
    hTarget⟩ (not_superseded_of_newestOn hChain hNewest)
  · simp
  · simp

/- The operation is the one that the request asks for. -/
structure OperationOf
    (request : PlacementRequest)
    (j : JournalId)
    (op : Operation) : Prop where
  target : op.targetFileId = some j.fileId
  opType : op.opType = request.kind.opType
  effects :
    ∃ entry, rootChange (request.intent j) = .ok entry ∧
      op.effects =
        placementEffects (Placement.ofEntry entry) false

/-
  A write of the id's entry projects an operation that was
  not below one of the versions it was built from; it is
  refused when the entry is not the newest of those.
-/
structure Projects
    (id : FileId)
    (w : World)
    (write : Write Key Body)
    (sender : Sender) : Prop where
  version :
    ∃ body, write.body = some body ∧
      VersionOf id w.headLog ⟨body, sender⟩
  seen :
    ∃ vs, vs <:+ w.versions (.tree id) ∧
      (∀ objects, write.Allowed objects →
        objects.lookup (.tree id) =
          vs.head?.map Version.body) ∧
      ∀ v ∈ vs, ∀ body,
        Follows w.headLog ⟨body, sender⟩ v

structure ProjectionsOk
    (requests : PlacementRequests)
    (id : FileId)
    (w : World) : Prop where
  entries :
    ∀ fileId body,
      w.store.objects.lookup (.tree fileId) = some body →
        EntryOf fileId body
  bodies :
    ∀ f ∈ w.store.flights, ∀ fileId body,
      f.write.key = .tree fileId → f.write.body = some body →
        EntryOf fileId body
  issued :
    ∀ x ∈ w.issued, x.operation.targetFileId = some id →
      ∃ j, x.journal = some j ∧
        OperationOf (requests j) j x.operation
  sent :
    ∀ f ∈ w.store.flights, f.write.key = .tree id →
      Projects id w f.write f.sender
  versions :
    ∀ v ∈ w.versions (.tree id), VersionOf id w.headLog v
  ordered :
    (w.versions (.tree id)).Pairwise (Follows w.headLog)
  distinct : ((w.versions (.tree id)).map Version.body).Nodup
  current :
    w.store.objects.lookup (.tree id) =
      (w.versions (.tree id)).head?.map Version.body
  creates :
    ∀ op rest, op :: rest <:+ w.headLog →
      op.opType = .createFolder →
      op.targetFileId = some id → ∀ x ∈ rest, NotOn id x

theorem Projects.mono
    {sender : Sender}
    (h : Projects id w write sender)
    (hLog : w.headLog <:+ w'.headLog)
    (hVersions :
      w.versions (.tree id) <:+ w'.versions (.tree id)) :
    Projects id w' write sender := by
  rcases h.version with ⟨body, hBody, hVersion⟩
  rcases h.seen with ⟨vs, hSeen, hGuard, hFollows⟩
  exact ⟨⟨body, hBody, hVersion.mono hLog⟩,
    vs, hSeen.trans hVersions, hGuard,
    fun v hv body => (hFollows v hv body).mono hLog⟩

theorem ProjectionsOk.send
    (h : ProjectionsOk requests id w)
    (hBody :
      ∀ fileId body, write.key = .tree fileId →
        write.body = some body → EntryOf fileId body)
    (hNew :
      write.key = .tree id →
        Projects id w write (w.sender t)) :
    ProjectionsOk requests id (w.sent t write) := by
  refine ⟨h.entries, ?_, h.issued, ?_, h.versions, h.ordered,
    h.distinct, h.current, h.creates⟩
  · intro f hf
    rcases mem_sent hf with hf | rfl
    · exact h.bodies f hf
    · exact hBody
  · intro f hf hKey
    rcases mem_sent hf with hf | rfl
    · exact (h.sent f hf hKey).mono List.suffix_rfl
        List.suffix_rfl
    · exact (hNew hKey).mono List.suffix_rfl List.suffix_rfl

def projectionHost
    (requests : PlacementRequests)
    (id : FileId) : Host True where
  admits := fun _ _ _ _ => True
  extra := ProjectionsOk requests id
  stamps := fun t op w =>
    op.targetFileId = some id →
      ∃ j, w.holding t = some j ∧
        OperationOf (requests j) j op
  sent := by
    intro w t write _ h hKey
    apply h.send
    · intro fileId body hTree
      rw [hTree] at hKey
      exact hKey.elim
    · intro hTree
      rw [hTree] at hKey
      exact hKey.elim
  stamped := by
    intro w t op _ h hStamp _
    refine ⟨h.entries, h.bodies, ?_, ?_, h.versions, h.ordered,
      h.distinct, h.current, h.creates⟩
    · intro x hx
      rcases List.mem_append.mp hx with hx | hx
      · exact h.issued x hx
      · cases List.mem_singleton.mp hx
        exact hStamp
    · exact fun f hf hKey =>
        (h.sent f hf hKey).mono List.suffix_rfl
          List.suffix_rfl
  same := by
    intro w w' h hSame
    constructor
    · rw [hSame.store]
      exact h.entries
    · rw [hSame.store]
      exact h.bodies
    · rw [hSame.issued]
      exact h.issued
    · rw [hSame.store]
      intro f hf hKey
      apply (h.sent f hf hKey).mono
      · rw [hSame.headLog]
      · rw [hSame.versions]
    · rw [hSame.versions, hSame.headLog]
      exact h.versions
    · rw [hSame.versions, hSame.headLog]
      exact h.ordered
    · rw [hSame.versions]
      exact h.distinct
    · rw [hSame.store, hSame.versions]
      exact h.current
    · rw [hSame.headLog]
      exact h.creates

------------------------------------------------------------
-- Projections in Time
------------------------------------------------------------

/-
  A create is the first operation on the id, and an entry of
  the id is written with contents that it never had before.
-/
structure PlacesInTime
    (id : FileId)
    (w : World)
    (f : Flight Key Body Sender) : Prop where
  create :
    ∀ op, Built w op → HeadWrite op.opId f.write →
      op.opType = .createFolder →
      op.targetFileId = some id → ∀ x ∈ w.headLog, NotOn id x
  fresh :
    ∀ body, f.write.key = .tree id →
      f.write.body = some body →
        body ∉ (w.versions (.tree id)).map Version.body

def ProjectsInTime
    (s : PlacementState id)
    (a : PlacementAction id) : Prop :=
  (∀ t k c v r cont, a = .serve t k →
    s.threads t = .busy c v (.ask r cont) →
      searchable r s.world) ∧
  ∀ ticket f, a = .env (.deliver ticket) →
    CarriesOut s.world ticket f → PlacesInTime id s.world f

def placementLimits
    (id : FileId) :
    ThreadSystem.Limits Req Choice World Tid
      (PlacementCall id) Unit EnvAction where
  Starts := fun _ _ _ _ => True
  Admits := fun _ _ r _ w => searchable r w
  Env := fun e w => ∀ ticket f, e = .deliver ticket →
    CarriesOut w ticket f → PlacesInTime id w f

/- A delivery leaves the entry of the id alone or replaces it. -/
theorem ProjectionsOk.entry_cases
    (h : ProjectionsOk requests id w)
    (hDelivery : Delivery f w w') :
    (w'.versions (.tree id) = w.versions (.tree id) ∧
        w'.store.objects.lookup (.tree id) =
          w.store.objects.lookup (.tree id)) ∨
      ∃ body, f.write.key = .tree id ∧
        f.write.Allowed w.store.objects ∧
        f.write.body = some body ∧
        w'.versions (.tree id) =
          ⟨body, f.sender⟩ :: w.versions (.tree id) ∧
        w'.store.objects.lookup (.tree id) = some body := by
  by_cases hKey : f.write.key = .tree id
  · rcases (h.sent f hDelivery.flight hKey).version with
      ⟨body, hBody, _⟩
    by_cases hAllowed : f.write.Allowed w.store.objects
    · right
      refine ⟨body, hKey, hAllowed, hBody, ?_, ?_⟩
      · rw [hDelivery.versions, if_pos hAllowed]
        unfold World.noteVersion
        rw [hBody]
        simp only [hKey, if_true]
      · rw [← hKey, hDelivery.lookup_of_allowed hAllowed, hBody]
    · left
      rw [hDelivery.versions, if_neg hAllowed]
      refine ⟨rfl, ?_⟩
      rcases hDelivery.lookup_cases (.tree id) with
        hSame | ⟨_, hNot, _⟩
      · exact hSame
      · exact absurd hNot hAllowed
  · left
    refine ⟨?_, hDelivery.lookup_of_ne hKey⟩
    rw [hDelivery.versions]
    split
    · unfold World.noteVersion
      cases f.write.body with
      | none => rfl
      | some body =>
          simp only
          rw [if_neg (Ne.symm hKey)]
    · rfl

/-
  A write that is carried out was built from the versions
  that are there: no newer one has its contents.
-/
theorem ProjectionsOk.follows
    (h : ProjectionsOk requests id w)
    (hFlight : f ∈ w.store.flights)
    (hKey : f.write.key = .tree id)
    (hAllowed : f.write.Allowed w.store.objects)
    (body : Body) :
    ∀ v ∈ w.versions (.tree id),
      Follows w.headLog ⟨body, f.sender⟩ v := by
  rcases (h.sent f hFlight hKey).seen with
    ⟨vs, hSeen, hGuard, hFollows⟩
  have hHead := hGuard _ hAllowed
  rw [h.current] at hHead
  have hSame : vs = w.versions (.tree id) :=
    suffix_unique h.distinct hSeen List.suffix_rfl hHead.symm
  intro v hv
  rw [← hSame] at hv
  exact hFollows v hv body

theorem ProjectionsOk.deliver
    {ticket : Nat}
    (h : ProjectionsOk requests id w)
    (hInv : LogInv True w)
    (hLimit :
      ∀ ticket' f, EnvAction.deliver ticket = .deliver ticket' →
        CarriesOut w ticket' f → PlacesInTime id w f)
    (hDeliver : w.deliver ticket = some w') :
    ProjectionsOk requests id w' := by
  rcases deliver_at hDeliver with ⟨f, hFlight, hDelivery⟩
  have inTime :
      f.write.Allowed w.store.objects → PlacesInTime id w f :=
    fun hAllowed => hLimit ticket f rfl ⟨hFlight, hAllowed⟩
  have hLog := hDelivery.suffix hInv.basic
  have bodies :
      ∀ g ∈ w'.store.flights, ∀ fileId body,
        g.write.key = .tree fileId →
          g.write.body = some body → EntryOf fileId body := by
    intro g hg
    rcases hDelivery.flight_before hg with ⟨g₀, hg₀, hWrite⟩
    rw [← hWrite]
    exact h.bodies g₀ hg₀
  have entries :
      ∀ fileId body,
        w'.store.objects.lookup (.tree fileId) = some body →
          EntryOf fileId body := by
    intro fileId body hBody
    rcases hDelivery.lookup_cases (.tree fileId) with
      hSame | ⟨hKey, _, hWritten⟩
    · exact h.entries fileId body (hSame.symm.trans hBody)
    · exact h.bodies f hDelivery.flight fileId body hKey
        (hWritten.symm.trans hBody)
  have sent :
      ∀ g ∈ w'.store.flights, g.write.key = .tree id →
        Projects id w' g.write g.sender := by
    intro g hg hKey
    rcases hDelivery.old hg with ⟨g₀, hg₀, hLater⟩
    rw [hLater.write] at hKey ⊢
    rw [hLater.sender]
    exact (h.sent g₀ hg₀ hKey).mono hLog
      (hDelivery.versions_suffix _)
  have creates :
      ∀ op rest, op :: rest <:+ w'.headLog →
        op.opType = .createFolder →
        op.targetFileId = some id →
          ∀ x ∈ rest, NotOn id x := by
    intro op rest hBefore hCreate hTarget
    rcases hDelivery.headLog_cases hInv.basic with
      ⟨hSame, _⟩ | ⟨new, hBuilt, hHead, _, hAllowed, hNew, _⟩
    · rw [hSame] at hBefore
      exact h.creates op rest hBefore hCreate hTarget
    rw [hNew] at hBefore
    rcases List.suffix_cons_iff.mp hBefore with hAll | hOld
    · cases hAll
      exact (inTime hAllowed).create op hBuilt hHead hCreate
        hTarget
    · exact h.creates op rest hOld hCreate hTarget
  rcases h.entry_cases hDelivery with
    ⟨hVersions, hLookup⟩ |
      ⟨body, hKey, hAllowed, hBody, hVersions, hLookup⟩
  · refine ⟨entries, bodies, ?_, sent, ?_, ?_, ?_, ?_, creates⟩
    · rw [hDelivery.issued]
      exact h.issued
    · rw [hVersions]
      exact fun v hv => (h.versions v hv).mono hLog
    · rw [hVersions]
      exact h.ordered.imp fun hFollows => hFollows.mono hLog
    · rw [hVersions]
      exact h.distinct
    · rw [hLookup, hVersions]
      exact h.current
  · refine ⟨entries, bodies, ?_, sent, ?_, ?_, ?_, ?_, creates⟩
    · rw [hDelivery.issued]
      exact h.issued
    · rw [hVersions]
      intro v hv
      rcases List.mem_cons.mp hv with rfl | hv
      · rcases (h.sent f hDelivery.flight hKey).version with
          ⟨body', hBody', hVersion⟩
        rw [hBody] at hBody'
        cases hBody'
        exact hVersion.mono hLog
      · exact (h.versions v hv).mono hLog
    · rw [hVersions]
      apply List.Pairwise.cons
      · intro v hv
        exact (h.follows hDelivery.flight hKey hAllowed body v
          hv).mono hLog
      · exact h.ordered.imp fun hFollows => hFollows.mono hLog
    · rw [hVersions, List.map_cons, List.nodup_cons]
      exact ⟨(inTime hAllowed).fresh body hKey hBody,
        h.distinct⟩
    · rw [hLookup, hVersions]
      rfl

------------------------------------------------------------
-- The Calls
------------------------------------------------------------

variable {c : PlacementCall id}

/- The host of a call `c`. -/
abbrev placingFor
    (requests : PlacementRequests)
    (c : PlacementCall id) : Host True :=
  (projectionHost requests id).limit
    ((placementLimits id).Admits c)

/- Nothing on the id is above an operation that is latest. -/
theorem atOrBelow_of_latest
    {d : DurableCommit} {x : Operation} {w₁ w₂ : World}
    (hLatest : Latest True t j d w₁ w₂)
    (hInv : LogInv True w)
    (hGrows : Grows w₂ w)
    (hx : x ∈ w₁.headLog)
    (hTarget : x.targetFileId = some j.fileId) :
    AtOrBelow w.headLog x.opId d.operation.opId := by
  rcases hLatest with ⟨w₃, hBefore, _, hAfter, hWalk⟩
  have hLog : w₃.headLog <:+ w.headLog :=
    hAfter.log.trans hGrows.log
  rcases hInv.basic.split (hInv.linear trivial).chain hLog
      (hWalk.mono hGrows fun _ => id) with
    ⟨above, below, hSplit, hHead, hAbove⟩
  have hMem := hBefore.log.subset hx
  rw [hSplit] at hMem hLog
  rcases List.mem_append.mp hMem with hx | hx
  · exact absurd hTarget (hAbove x hx)
  cases below with
  | nil => cases hx
  | cons op rest =>
      refine ⟨op, rest, (List.suffix_append _ _).trans hLog,
        ?_, x, hx, rfl⟩
      exact Option.some.inj hHead

/- How a request builds the entry of its file. -/
structure Builds
    (request : PlacementRequest)
    (j : JournalId)
    (build : Option FileEntry → Option FileEntry) :
    Prop where
  place :
    ∀ root existing entry,
      rootChange (request.intent j) = .ok root →
        build existing = some entry →
          Placement.ofEntry entry = Placement.ofEntry root
  fileId :
    ∀ existing entry,
      (∀ old, existing = some old → old.fileId = j.fileId) →
        build existing = some entry → entry.fileId = j.fileId

variable {request : PlacementRequest}
variable {build : Option FileEntry → Option FileEntry}

/- The entry of a projection is the one of its operation. -/
theorem OperationOf.carries
    {existing : Option FileEntry} {entry : FileEntry}
    (h : OperationOf request j op)
    (hBuilds : Builds request j build)
    (hEntry : build existing = some entry) :
    Carries (.entry entry) op := by
  rcases h.effects with ⟨root, hRoot, hEffects⟩
  refine ⟨entry, rfl, ?_⟩
  rw [hBuilds.place root existing entry hRoot hEntry]
  unfold Placement.ofOp
  rw [hEffects]
  rfl

theorem placement_projectable
    (hBuilds : Builds (requests j) j build) :
    Projectable (placingFor requests c) t j j.fileId build
      w := by
  intro d w₁ w₂ w₃ observed entry _ hDone hVersion hEntry
    hLatest h₃ hAbout w₄ h₄ hInv₄
  have h₂₄ : Grows w₂ w₄ := h₃.toGrows.trans h₄.toGrows
  have h₁₄ : Grows w₁ w₄ := hLatest.others.toGrows.trans h₂₄
  have hId : entry.fileId = j.fileId := by
    apply hBuilds.fileId _ entry _ hEntry
    intro old hOld
    rcases Option.map_eq_some_iff.mp hOld with
      ⟨version, hVersion', rfl⟩
    rcases hVersion.read version hVersion' with
      ⟨w₅, hInv₅, _, hFound⟩
    rcases hInv₅.extra.entries _ _ hFound with
      ⟨found, hFound, hId⟩
    cases hFound
    exact hId
  apply ProjectionsOk.send hInv₄.extra
  · intro fileId body hKey hBody
    rw [FileTree.versionWrite_key] at hKey
    rw [FileTree.versionWrite_body] at hBody
    cases hKey
    cases hBody
    exact ⟨entry, rfl, rfl⟩
  intro hKey
  rw [FileTree.versionWrite_key, hId] at hKey
  cases hKey
  have hProjects :
      (w₄.sender t).projects = some d.operation.opId := by
    rcases hAbout.later h₄.toSteps with ⟨b, hBasis, hChange⟩
    rw [Sender.projects, World.sender, hBasis]
    exact congrArg Change.projects hChange
  have hOperation :
      OperationOf (requests j) j d.operation := by
    rcases hDone.issued.mono h₁₄ with ⟨x, hx, hOp, hJournal⟩
    have hTarget := hDone.target
    rw [← hOp] at hTarget
    rcases hInv₄.extra.issued x hx hTarget with
      ⟨j', hJournal', hOperation⟩
    rw [hJournal] at hJournal'
    cases hJournal'
    rw [← hOp]
    exact hOperation
  refine ⟨⟨.entry entry, FileTree.versionWrite_body .., ?_⟩,
    w₁.versions (.tree j.fileId), h₁₄.versions _, ?_, ?_⟩
  · exact ⟨d.operation,
      h₁₄.log.subset (hDone.committed trivial), hDone.target,
      hProjects, hOperation.carries hBuilds hEntry⟩
  · intro objects hAllowed
    rw [← hVersion.inv.extra.current, hVersion.found]
    cases observed with
    | none =>
        rw [← hId]
        exact hAllowed
    | some version =>
        rw [← hId]
        exact hAllowed
  · intro v hv body
    rcases hVersion.inv.extra.versions v hv with
      ⟨x, hx, hTarget, hSender, _⟩
    exact ⟨d.operation.opId, x.opId, hProjects, hSender,
      atOrBelow_of_latest hLatest hInv₄.log h₂₄ hx hTarget⟩

theorem createdEntry_builds
    {root : FileEntry}
    {time : Timestamp}
    (hRoot : rootChange (request.intent j) = .ok root) :
    Builds request j (createdEntry j.fileId
      (Placement.ofEntry root) time) := by
  constructor
  · intro root' existing entry hRoot' hEntry
    rw [hRoot] at hRoot'
    cases hRoot'
    cases existing with
    | none =>
        cases hEntry
        rfl
    | some _ => cases hEntry
  · intro existing entry _ hEntry
    cases existing with
    | none =>
        cases hEntry
        rfl
    | some _ => cases hEntry

theorem placedEntry_builds
    {root : FileEntry}
    {time : Timestamp}
    (hRoot : rootChange (request.intent j) = .ok root) :
    Builds request j (fun existing => some (placedEntry root
      (Placement.ofEntry root) time existing)) := by
  constructor
  · intro root' existing entry hRoot' hEntry
    rw [hRoot] at hRoot'
    cases hRoot'
    cases hEntry
    rfl
  · intro existing entry hOld hEntry
    cases hEntry
    cases existing with
    | none => exact (rootChange_mem hRoot).2
    | some old => exact hOld old rfl

/- A version of the entry was written for the operation. -/
def ProjectedAs
    (id : FileId)
    (opId : OpId)
    (w : World) : Prop :=
  ∃ v ∈ w.versions (.tree id), v.sender.projects = some opId

/- What a request that was published without error tells. -/
inductive Settled
    (request : PlacementRequest)
    (j : JournalId)
    (w : World) : Prop where
  | committed
      (op : Operation)
      (issued : IssuedFor j op w)
      (mem : op ∈ w.headLog)
      (settled :
        ProjectedAs j.fileId op.opId w ∨
          SupersededIn j.fileId op.opId w.headLog)
  | found
      (kind : request.kind = .createFolder)
      (listed : w.versions (.tree j.fileId) ≠ [])

theorem Settled.mono
    (h : Settled request j w)
    (hGrows : Grows w w') : Settled request j w' := by
  cases h with
  | committed op issued mem settled =>
      apply Settled.committed op (issued.mono hGrows)
        (hGrows.log.subset mem)
      rcases settled with ⟨v, hv, hProjects⟩ | hNewer
      · exact .inl
          ⟨v, (hGrows.versions _).subset hv, hProjects⟩
      · exact .inr (hNewer.mono hGrows.log)
  | found kind listed =>
      apply Settled.found kind
      intro hNone
      have hSuffix := hGrows.versions (.tree j.fileId)
      rw [hNone, List.suffix_nil] at hSuffix
      exact listed hSuffix

def placementPost
    (requests : PlacementRequests)
    (_ : Tid)
    (c : PlacementCall id)
    (r : CoreResult Unit)
    (w : World) : Prop :=
  match c with
  | .publish _ j =>
      r = .ok () → j.fileId = id → Settled (requests j) j w
  | .other _ _ => True

/- An entry that is there has a version. -/
theorem ProjectionsOk.listed
    {body : Body}
    (h : ProjectionsOk requests id w)
    (hBody :
      w.store.objects.lookup (.tree id) = some body) :
    w.versions (.tree id) ≠ [] := by
  intro hNone
  have hCurrent := h.current
  rw [hBody, hNone] at hCurrent
  cases hCurrent

theorem not_longRead
    (hLong : LongRead (placingFor requests c) t w) :
    False := by
  rcases hLong with ⟨w₁, _, hLong, hAdmits⟩
  have hShort := hAdmits rfl
  omega

/- A commit whose projection has ended without error. -/
theorem settled_of_published
    (hFile : j.fileId = id)
    (hBuilds : Builds request j build)
    (hKept :
      ∀ existing, build existing = none →
        existing ≠ none ∧ request.kind = .createFolder)
    (h :
      PublishedOn (placingFor requests c) t j j.fileId build
        w) :
    Settled request j w := by
  subst hFile
  rcases h with ⟨d, hDone, hProjected⟩
  have hMem := hDone.committed trivial
  cases hProjected with
  | @written observed entry w₁ seen built version =>
      apply Settled.committed _ hDone.issued hMem
      left
      have hId : entry.fileId = j.fileId := by
        apply hBuilds.fileId _ entry _ built
        intro old hOld
        rcases Option.map_eq_some_iff.mp hOld with
          ⟨found, hFound, rfl⟩
        rcases seen.read found hFound with
          ⟨w₂, hInv₂, _, hBody⟩
        rcases hInv₂.extra.entries _ _ hBody with
          ⟨entry', hEntry', hId⟩
        cases hEntry'
        exact hId
      rcases version with ⟨v, hv, _, hProjects⟩
      rw [hId] at hv
      exact ⟨v, hv, hProjects⟩
  | @kept observed w₁ seen built later =>
      rcases hKept _ built with ⟨hSome, hKind⟩
      apply Settled.mono (w := w₁) (.found hKind ?_) later
      cases observed with
      | none => exact absurd rfl hSome
      | some found => exact seen.inv.extra.listed seen.found
  | newer superseded =>
      apply Settled.committed _ hDone.issued hMem
      right
      exact (superseded trivial).resolve_right not_longRead

theorem request_publishable
    {entry : FileEntry} {opType : OpType}
    (hHolding : w.holding t = some j)
    (hRoot :
      rootChange ((requests j).intent j) = .ok entry)
    (hType : opType = (requests j).kind.opType) :
    Publishable (placingFor requests c) t j opType
      (placementEffects (Placement.ofEntry entry) false) w := by
  intro v start op preconditions w' _ hStart _ hAttempt _
  refine ⟨j, hStart.steps.holding.trans hHolding,
    hAttempt.target, ?_, entry, hRoot, hAttempt.effects⟩
  rw [hAttempt.opType, hType]

theorem publishCreateFolder_settles
    {deviceId : DeviceId}
    (hHolding : w.holding t = some j)
    (hKind : (requests j).kind = .createFolder) :
    LogMeets (placingFor requests c) t
      (publishCreateFolder deviceId ((requests j).intent j)) ()
      (fun r _ w' =>
        r = .ok () → j.fileId = id →
          Settled (requests j) j w') w := by
  apply publishCreateFolder_meets hHolding
  · intro entry w₁ hRoot h₁
    apply request_publishable (h₁.holding.trans hHolding) hRoot
    rw [hKind]
    rfl
  · intro entry time hRoot
    exact placement_projectable (createdEntry_builds hRoot)
  · intro r w' _ _ hOk hr hFile
    rcases hOk hr with ⟨entry, hRoot, hSeen | ⟨time, hOn⟩⟩
    · subst hFile
      rcases hSeen with ⟨found, w₁, hInv₁, hLater, hBody, _⟩
      exact Settled.mono (w := w₁)
        (.found hKind (hInv₁.extra.listed hBody)) hLater
    · apply settled_of_published hFile
        (createdEntry_builds hRoot) _ hOn
      intro existing hNone
      cases existing with
      | none => cases hNone
      | some _ => exact ⟨Option.some_ne_none _, hKind⟩

theorem publishPlacement_settles
    {deviceId : DeviceId} {moves : Bool}
    (hHolding : w.holding t = some j)
    (hKind :
      (if moves then OpType.move else .rename) =
        (requests j).kind.opType) :
    LogMeets (placingFor requests c) t
      (publishPlacement deviceId ((requests j).intent j) moves)
      ()
      (fun r _ w' =>
        r = .ok () → j.fileId = id →
          Settled (requests j) j w') w := by
  apply publishPlacement_meets hHolding
  · intro entry w₁ hRoot h₁
    exact request_publishable (h₁.holding.trans hHolding)
      hRoot hKind
  · intro entry time hRoot
    exact placement_projectable (placedEntry_builds hRoot)
  · intro r w' _ _ hOk hr hFile
    rcases hOk hr with ⟨entry, time, hRoot, hOn⟩
    apply settled_of_published hFile
      (placedEntry_builds hRoot) _ hOn
    intro existing hNone
    cases hNone

theorem placement_call
    (hHolding : w.holding t = c.journal) :
    LogMeets (placingFor requests c) t (c.run requests) ()
      (fun r _ w' => placementPost requests t c r w') w := by
  cases c with
  | publish deviceId j =>
      unfold PlacementCall.run
      dsimp only
      cases hKind : (requests j).kind with
      | createFolder =>
          exact publishCreateFolder_settles hHolding hKind
      | rename =>
          apply publishPlacement_settles hHolding
          rw [hKind]
          rfl
      | move =>
          apply publishPlacement_settles hHolding
          rw [hKind]
          rfl
  | other step leaves =>
      apply Meets.mono (deviceStep_meets hHolding ?_)
      · exact fun _ _ _ _ => trivial
      · cases step with
        | commit deviceId targetFileId opType effects
            fileExists parentExists =>
            intro v v' w₁ w₂ w₃ start op preconditions _ _ _ _
              hAttempt hTarget
            rw [hAttempt.target] at hTarget
            exact absurd hTarget leaves
        | write request plain =>
            intro w₁ _ hInv
            apply ProjectionsOk.send hInv.extra leaves.2
            exact fun hKey => absurd hKey leaves.1

------------------------------------------------------------
-- Placements Converge
------------------------------------------------------------

variable {s s' : PlacementState id}

/- What holds of every state of every such run. -/
abbrev PlacementStateOk
    (requests : PlacementRequests)
    (s : PlacementState id) : Prop :=
  DeviceStateOk (PlacementCall.run requests)
    PlacementCall.journal (projectionHost requests id)
    (placementLimits id) (placementPost requests) s

theorem permitted_of_projectsInTime
    (s : PlacementState id)
    (a : PlacementAction id)
    (h : ProjectsInTime s a) :
    (placementLimits id).Permitted s a := by
  cases a with
  | env e =>
      intro ticket f hDeliver
      exact h.2 ticket f (congrArg _ hDeliver)
  | serve t k =>
      exact fun c v r cont hThread =>
        h.1 t k c v r cont rfl hThread
  | call t c => exact fun _ _ => trivial
  | _ => trivial

theorem placements_of_run
    (run :
      PlacementRun requests ProjectsInTime
        (.initial requests id) s) :
    PlacementStateOk requests s := by
  apply deviceState_of_run _ _ _ permitted_of_projectsInTime
    run
  · constructor
    · intro fileId body hBody
      cases hBody
    · intro f hf
      cases hf
    · intro x hx
      cases hx
    · intro f hf
      cases hf
    · intro v hv
      cases hv
    · exact List.Pairwise.nil
    · exact List.nodup_nil
    · rfl
    · intro op rest hBefore
      cases List.suffix_nil.mp hBefore
  · exact fun _ _ _ hStarting =>
      placement_call hStarting.holding
  · exact fun _ _ _ hInv hLimit hDeliver =>
      hInv.extra.deliver hInv.log hLimit hDeliver

theorem placements_grow
    (hState : PlacementStateOk requests s)
    (later : PlacementRun requests ProjectsInTime s s') :
    Grows s.world s'.world :=
  grows_of_run
    (fun _ _ _ hStarting => placement_call hStarting.holding)
    (fun _ _ _ hInv hLimit hDeliver =>
      hInv.extra.deliver hInv.log hLimit hDeliver)
    permitted_of_projectsInTime hState later

/- The newest version is of the newest operation. -/
theorem ProjectionsOk.placed
    (h : ProjectionsOk requests id w)
    (hInv : LogInv True w)
    (hNewest : newestOn id w.headLog = some op)
    (hVersions :
      ProjectedAs id op.opId w ∨
        (op.opType = .createFolder ∧
          w.versions (.tree id) ≠ [])) :
    Placed id op w := by
  have hChain := (hInv.linear trivial).chain
  have hOrdered := h.ordered
  have hCurrent := h.current
  have hOf := h.versions
  unfold ProjectedAs at hVersions
  cases hList : w.versions (.tree id) with
  | nil =>
      rw [hList] at hVersions
      rcases hVersions with ⟨v, hv, _⟩ | ⟨_, hNot⟩
      · cases hv
      · exact absurd rfl hNot
  | cons first rest =>
  rw [hList] at hVersions hOrdered hCurrent hOf
  rcases hOf first (List.mem_cons_self ..) with
    ⟨x, hx, hTarget, hSender, hCarries⟩
  have hSame : x = op := by
    apply newest_of_atOrBelow hChain hNewest hx hTarget
    rcases hVersions with ⟨v, hv, hProjects⟩ | ⟨hCreate, _⟩
    · rcases List.mem_cons.mp hv with rfl | hv
      · rw [hSender] at hProjects
        rw [Option.some.inj hProjects]
        rcases List.append_of_mem hx with ⟨above, below, hLog⟩
        refine ⟨x, below, ?_, Option.some.inj hProjects, x,
          List.mem_cons_self .., Option.some.inj hProjects⟩
        rw [hLog]
        exact List.suffix_append _ _
      · rcases (List.pairwise_cons.mp hOrdered).1 v hv with
          ⟨a, b, hNewer, hOlder, hBelow⟩
        rw [hSender] at hNewer
        rw [hProjects] at hOlder
        cases hNewer
        cases hOlder
        exact hBelow
    · -- Nothing on the id is below a create.
      have hMem := (mem_of_newestOn hNewest).1
      have hOn := (mem_of_newestOn hNewest).2
      rcases List.append_of_mem hx with ⟨above, below, hLog⟩
      rw [hLog] at hMem
      refine ⟨x, below, ?_, rfl, op, ?_, rfl⟩
      · rw [hLog]
        exact List.suffix_append _ _
      rcases List.mem_append.mp hMem with hAbove | hBelow
      · rcases List.append_of_mem hAbove with
          ⟨newer, mid, hSplit⟩
        have hBefore : op :: (mid ++ x :: below) <:+
            w.headLog := by
          rw [hLog, hSplit]
          exact ⟨newer, by simp⟩
        exact absurd hTarget
          (h.creates op _ hBefore hCreate hOn x (by simp))
      · exact hBelow
  subst hSame
  exact ⟨first.body, hCurrent, hCarries⟩

/-
  The versions of the entry follow the order of the log, each
  at the place of its operation; and once a request on the
  newest operation was answered, the entry is at its place.
-/
structure PlacementsConverge
    (requests : PlacementRequests)
    (s : PlacementState id) : Prop where
  projected :
    ∀ v ∈ s.world.versions (.tree id),
      VersionOf id s.world.headLog v
  ordered :
    (s.world.versions (.tree id)).Pairwise
      (Follows s.world.headLog)
  placed :
    ∀ t deviceId j,
      s.threads t =
        .busy (.publish deviceId j) () (.done (.ok (), ())) →
      ∀ s', PlacementRun requests ProjectsInTime s s' →
        ∀ op, newestOn id s'.world.headLog = some op →
          IssuedFor j op s'.world → Placed id op s'.world

theorem placements_converge
    (run :
      PlacementRun requests ProjectsInTime
        (.initial requests id) s) :
    PlacementsConverge requests s := by
  have hState := placements_of_run run
  refine ⟨hState.inv.extra.versions, hState.inv.extra.ordered,
    ?_⟩
  intro t deviceId j hDone s' later op hNewest hIssued
  have hState' := placements_of_run (run.trans later)
  have hInv := hState'.inv
  have hLinear := hInv.log.linear trivial
  have hGrows := placements_grow hState later
  rcases mem_of_newestOn hNewest with ⟨hMem, hTarget⟩
  rcases hIssued with ⟨x, hx, rfl, hJournal⟩
  rcases hInv.extra.issued x hx hTarget with
    ⟨j', hJournal', hOperation⟩
  rw [hJournal] at hJournal'
  cases hJournal'
  have hFile : j.fileId = id := by
    rw [hOperation.target] at hTarget
    exact Option.some.inj hTarget
  have hSettled :=
    (hState.post hDone rfl hFile).mono hGrows
  apply hInv.extra.placed hInv.log hNewest
  cases hSettled with
  | committed op issued mem settled =>
      left
      rcases issued with ⟨y, hy, rfl, hJournal''⟩
      have hLast :=
        hLinear.last_of_mem hInv.log.basic hy hJournal'' mem
      rw [hLinear.last_of_mem hInv.log.basic hx hJournal hMem]
        at hLast
      rw [Option.some.inj hLast]
      rw [hFile] at settled
      apply settled.resolve_right
      rw [← Option.some.inj hLast]
      exact not_superseded_of_newestOn hLinear.chain hNewest
  | found kind listed =>
      right
      rw [hFile] at listed
      rw [hOperation.opType, kind]
      exact ⟨rfl, listed⟩

------------------------------------------------------------
-- A Rename Projected
------------------------------------------------------------

/- Whether a write is in time for the id. -/
def placesInTime
    (id : FileId)
    (w : World)
    (write : Write Key Body) : Bool :=
  match write.key with
  | .head =>
      w.issued.all fun x =>
        headWriteId write ≠ some x.operation.opId ||
          x.operation.opType ≠ .createFolder ||
          w.headLog.all fun y => y.targetFileId ≠ some id
  | .tree fileId =>
      fileId ≠ id ||
        write.body.all fun body =>
          body ∉ (w.versions (.tree id)).map Version.body
  | _ => true

theorem placesInTime_of_check
    (h : placesInTime id w f.write = true) :
    PlacesInTime id w f := by
  constructor
  · rintro op ⟨x, hx, rfl⟩ hHead hCreate _ y hy
    simp only [placesInTime, hHead.key, List.all_eq_true] at h
    have hx := h x hx
    simp only [headWriteId_of_headWrite hHead, hCreate] at hx
    simp only [ne_eq, not_true_eq_false, decide_false,
      Bool.false_or, List.all_eq_true] at hx
    simpa [NotOn] using hx y hy
  · intro body hKey hBody
    simp only [placesInTime, hKey, hBody] at h
    simpa using h

/- Whether an action is in time for the id. -/
def projectsInTime
    (s : PlacementState id) : PlacementAction id → Bool
  | .env (.deliver ticket) =>
      s.world.store.flights[ticket]?.all fun f =>
        placesInTime id s.world f.write
  | .serve _ _ => s.world.headLog.length < maxDurableWalkOps
  | _ => true

theorem projectsInTime_of_check
    {a : PlacementAction id}
    (h : projectsInTime s a = true) : ProjectsInTime s a := by
  constructor
  · rintro t k c v r cont rfl _ _
    simpa [projectsInTime] using h
  · rintro ticket f rfl hCarried
    apply placesInTime_of_check
    simpa [projectsInTime, hCarried.flight] using h

/- The index row of folder 10. -/
def placedRow (name : String) : FileEntry where
  fileId := 10
  parentId := none
  name := name
  entryType := .folder
  currentRevisionId := none
  contentRef := none
  size := 0
  contentHash := none
  mime := none
  updatedAt := 0
  deletedAt := none
  versionHistory := []

/- Request 8 renames the folder; the others create it. -/
def folderRequests : PlacementRequests := fun journal =>
  if journal.requestId = 8 then
    ⟨.rename, 0, some "A", "B", [placedRow "B"]⟩
  else
    ⟨.createFolder, 0, none, "A", [placedRow "A"]⟩

/- Device 1 creates the folder and renames it. -/
def createAndRename : List (PlacementAction 10) :=
  [.call 1 (.publish 1 ⟨7, 10⟩)] ++ answered 1 10 ++
  [.serve 1 (.fresh 1)] ++ answered 1 2 ++ written 1 0 ++
  written 1 1 ++ answered 1 11 ++ written 1 2 ++
  [.finish 1, .call 1 (.publish 1 ⟨8, 10⟩)] ++
  answered 1 8 ++ [.serve 1 (.fresh 2)] ++ answered 1 2 ++
  written 1 3 ++ written 1 4 ++ answered 1 13 ++ written 1 5

/- Whether the thread has published the request. -/
def hasPublished
    (s : PlacementState 10)
    (t : Tid)
    (j : JournalId) : Bool :=
  match s.threads t with
  | .busy (.publish _ journal) _ (.done (.ok _, _)) =>
      journal = j
  | _ => false

theorem of_hasPublished
    {s : PlacementState 10}
    (h : hasPublished s t j = true) :
    ∃ deviceId,
      s.threads t =
        .busy (.publish deviceId j) () (.done (.ok (), ())) := by
  unfold hasPublished at h
  split at h
  · rename_i deviceId _ _ _ _ hThread
    cases of_decide_eq_true h
    exact ⟨deviceId, hThread⟩
  · cases h

/- Whether the newest operation is the one of the request. -/
def publishedLast
    (s : PlacementState 10)
    (j : JournalId)
    (test : Operation → Bool) : Bool :=
  (newestOn 10 s.world.headLog).any fun op =>
    s.world.issued.any (fun x =>
      x.operation = op && x.journal = some j) && test op

theorem of_publishedLast
    {s : PlacementState 10} {test : Operation → Bool}
    (h : publishedLast s j test = true) :
    ∃ op, newestOn 10 s.world.headLog = some op ∧
      IssuedFor j op s.world ∧ test op = true := by
  simp only [publishedLast, Option.any_eq_true,
    Bool.and_eq_true, List.any_eq_true, decide_eq_true_eq] at h
  rcases h with ⟨op, hNewest, ⟨x, hx, hOp, hJournal⟩, hTest⟩
  exact ⟨op, hNewest, ⟨x, hx, hOp, hJournal⟩, hTest⟩

theorem rename_is_projected :
    ∃ s op,
      PlacementRun folderRequests ProjectsInTime
          (.initial folderRequests 10) s ∧
        newestOn 10 s.world.headLog = some op ∧
        op.opType = .rename ∧ Placed 10 op s.world := by
  have trace :
      ((placementSystem folderRequests 10).execIf
        projectsInTime
        (PlacementState.initial folderRequests 10)
        createAndRename).any
        (fun s => hasPublished s 1 ⟨8, 10⟩ &&
          publishedLast s ⟨8, 10⟩ fun op =>
            op.opType = .rename) = true := by
    decide +kernel
  rcases ThreadSystem.Run.exists_of_execIf
      (fun _ _ => projectsInTime_of_check) createAndRename trace
    with ⟨s, run, hTest⟩
  rw [Bool.and_eq_true] at hTest
  rcases of_hasPublished hTest.1 with ⟨deviceId, hThread⟩
  rcases of_publishedLast hTest.2 with
    ⟨op, hNewest, hIssued, hRename⟩
  exact ⟨s, op, run, hNewest, of_decide_eq_true hRename,
    (placements_converge run).placed 1 deviceId _ hThread s
      (.refl s) op hNewest hIssued⟩

/- Device 2 has found neither an entry nor a record. -/
def staleCreateStarts : List (PlacementAction 10) :=
  [.call 2 (.publish 2 ⟨9, 10⟩)] ++ answered 2 4

/- It commits its create and keeps the entry it finds now. -/
def staleCreateEnds : List (PlacementAction 10) :=
  answered 2 8 ++ [.serve 2 (.fresh 3)] ++ answered 2 2 ++
  written 2 6 ++ written 2 7 ++ answered 2 7

/-
  All calls have returned without error; the newest operation
  creates the folder at A, but its entry is still at B.
-/
theorem stale_create_keeps_rename :
    ∃ s op d d',
      PlacementRun folderRequests (fun _ _ => True)
          (.initial folderRequests 10) s ∧
        s.threads 1 =
          .busy (.publish d ⟨8, 10⟩) () (.done (.ok (), ())) ∧
        s.threads 2 =
          .busy (.publish d' ⟨9, 10⟩) ()
            (.done (.ok (), ())) ∧
        newestOn 10 s.world.headLog = some op ∧
        IssuedFor ⟨9, 10⟩ op s.world ∧
        ¬ Placed 10 op s.world := by
  have trace :
      ((placementSystem folderRequests 10).exec
        (PlacementState.initial folderRequests 10)
        (staleCreateStarts ++ createAndRename ++
          staleCreateEnds)).any
        (fun s => hasPublished s 1 ⟨8, 10⟩ &&
          hasPublished s 2 ⟨9, 10⟩ &&
          publishedLast s ⟨9, 10⟩ fun op =>
            Placement.ofOp op = some ⟨none, "A"⟩ &&
            s.world.store.objects.lookup (.tree 10) =
              some (.entry (placedRow "B"))) = true := by
    decide +kernel
  rcases ThreadSystem.Run.exists_of_execIf
      (fun _ _ _ => trivial)
      (staleCreateStarts ++ createAndRename ++ staleCreateEnds)
      trace with
    ⟨s, run, hTest⟩
  simp only [Bool.and_eq_true] at hTest
  rcases hTest with ⟨⟨hRename, hCreate⟩, hLast⟩
  rcases of_hasPublished hRename with ⟨d, hThread⟩
  rcases of_hasPublished hCreate with ⟨d', hThread'⟩
  rcases of_publishedLast hLast with
    ⟨op, hNewest, hIssued, hTest⟩
  simp only [Bool.and_eq_true, decide_eq_true_eq] at hTest
  refine ⟨s, op, d, d', run, hThread, hThread', hNewest,
    hIssued, ?_⟩
  rintro ⟨body, hBody, entry, rfl, hPlace⟩
  rw [hTest.2] at hBody
  cases hBody
  rw [hTest.1] at hPlace
  exact absurd hPlace (by decide)

end S4Drive

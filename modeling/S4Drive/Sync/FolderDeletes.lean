import S4Drive.Sync.PublishSystem

/-
  What a device removes when it deletes a folder. The
  contents of the folder come from the index of the device
  and may be behind the log, and the commit is checked
  against other operations on the folder itself only. So
  what it removes is inside the folder in every run in which
  no content that it has recorded is outside by the log at
  the moment the delete is committed.

  Main declarations:
    * `placementIn`, `PlacedOutside`
    * `PartOf`, `DeletesFolder`, `Touches`
    * `ContentsUpToDate`
    * `removed_contents_are_inside`
    * `moved_file_removed`
-/

------------------------------------------------------------
-- Places in the Log
------------------------------------------------------------

namespace S4Drive

open ObjectStore Concurrency ChainLog OperationLog

/- Where the newest operation that places a file puts it. -/
def placementIn
    (fileId : FileId)
    (l : List Operation) : Option Placement :=
  (l.find? fun op =>
    op.targetFileId = some fileId && !op.effects.deleted &&
      op.effects.newName.isSome).bind Placement.ofOp

/- A whole path, from before folders had nodes. -/
def isPath (placement : Placement) : Bool :=
  placement.parentId.isNone &&
    placement.name.toList.contains '/'

/- A folder and the ones above it, by the log. -/
def foldersFrom
    (l : List Operation) :
    Nat → Option FileId → List FileId
  | 0, _ => []
  | _ + 1, none => []
  | rounds + 1, some folder =>
      folder :: foldersFrom l rounds
        ((placementIn folder l).bind (·.parentId))

/-
  The log has put the file at a node that is not inside the
  folder. Each folder above it was put there by an operation
  of its own, so that the search cannot run out of rounds.
-/
def PlacedOutside
    (folder fileId : FileId)
    (l : List Operation) : Prop :=
  ∃ placement ∈ placementIn fileId l,
    isPath placement = false ∧
      folder ∉ foldersFrom l (l.length + 1) placement.parentId

instance
    (folder fileId : FileId)
    (l : List Operation) :
    Decidable (PlacedOutside folder fileId l) :=
  inferInstanceAs
    (Decidable (∃ placement ∈ placementIn fileId l, _))

variable {w w' : World} {t : Tid} {c : PublishCall}
variable {folder fileId : FileId} {contents : List FileId}
variable {op : Operation} {change : Change}
variable {f : Flight Key Body Sender}

/-
  A step of the deletion of a folder for which the device
  has recorded these contents, the folder among them.
-/
def PartOf
    (folder : FileId)
    (contents : List FileId)
    (basis : Option Basis) : Prop :=
  ∃ b ∈ basis, b.root = some folder ∧ b.removes = contents

instance
    (folder : FileId)
    (contents : List FileId)
    (basis : Option Basis) :
    Decidable (PartOf folder contents basis) :=
  inferInstanceAs (Decidable (∃ b ∈ basis, _))

/- The operation deletes the folder of such a deletion. -/
def DeletesFolder
    (w : World)
    (folder : FileId)
    (contents : List FileId)
    (op : Operation) : Prop :=
  op.opType = .delete ∧ op.targetFileId = some folder ∧
    ∃ x ∈ w.issued, x.operation = op ∧
      PartOf folder contents x.basis

instance
    (w : World)
    (folder : FileId)
    (contents : List FileId)
    (op : Operation) :
    Decidable (DeletesFolder w folder contents op) :=
  inferInstanceAs (Decidable (_ ∧ _ ∧ ∃ x ∈ w.issued, _))

/- The write removes an entry or records its deletion. -/
def Touches
    (fileId : FileId)
    (write : Write Key Body) : Prop :=
  write.key = .tree fileId ∧ write.body = none ∨
    write.key = .tombstone fileId ∧ write.body ≠ none

instance
    (fileId : FileId)
    (write : Write Key Body) :
    Decidable (Touches fileId write) :=
  inferInstanceAs (Decidable (_ ∧ _ ∨ _ ∧ _))

theorem DeletesFolder.mono
    (h : DeletesFolder w folder contents op)
    (hIssued : w.issued <+: w'.issued) :
    DeletesFolder w' folder contents op := by
  rcases h with ⟨hDelete, hTarget, x, hx, hOp, hPart⟩
  exact ⟨hDelete, hTarget, x, hIssued.subset hx, hOp, hPart⟩

/- A deletion touches only what it has recorded. -/
def TouchesRecorded (f : Flight Key Body Sender) : Prop :=
  ∀ fileId, Touches fileId f.write →
    ∃ b ∈ f.sender.basis, fileId ∈ b.removes

/- The contents of a deleted folder were not outside it. -/
def RecordedInside (w : World) : Prop :=
  ∀ folder contents above op below,
    w.headLog = above ++ op :: below →
      DeletesFolder w folder contents op →
        ∀ fileId ∈ contents, fileId ≠ folder →
          ¬ PlacedOutside folder fileId below

structure FoldersOk (w : World) : Prop where
  touches : ∀ f ∈ w.store.flights, TouchesRecorded f
  inside : RecordedInside w

variable {write : Write Key Body}

theorem FoldersOk.send
    (h : FoldersOk w)
    (hNew :
      ∀ fileId, Touches fileId write →
        ∃ b ∈ w.basis t, fileId ∈ b.removes) :
    FoldersOk (w.sent t write) := by
  refine ⟨?_, h.inside⟩
  intro f hf
  rcases mem_sent hf with hf | rfl
  · exact h.touches f hf
  · exact hNew

theorem untouched_of_key
    (hKey : LogKey write.key) : ¬ Touches fileId write := by
  rintro (⟨hTree, _⟩ | ⟨hRecord, _⟩)
  · rw [hTree] at hKey
    exact hKey
  · rw [hRecord] at hKey
    exact hKey

/- What was committed is not built once more. -/
theorem DeletesFolder.of_stamped
    {new : Operation}
    (h : DeletesFolder (w.stamped t new) folder contents op)
    (hOp : Built w op)
    (hBasic : Basic True w)
    (hFresh : ¬ w.Drawn new.opId.opUuid) :
    DeletesFolder w folder contents op := by
  rcases h with ⟨hDelete, hTarget, x, hx, rfl, hPart⟩
  refine ⟨hDelete, hTarget, x, ?_, rfl, hPart⟩
  rcases List.mem_append.mp hx with hx | hx
  · exact hx
  · cases List.mem_singleton.mp hx
    rcases hOp with ⟨y, hy, hSame⟩
    have hDrawn := hBasic.drawn y hy
    rw [hSame] at hDrawn
    exact absurd hDrawn hFresh

def folderHost : Host True where
  admits := fun _ _ _ _ => True
  extra := FoldersOk
  stamps := fun _ _ _ => True
  sent := by
    intro w t write _ h hKey
    apply h.send
    exact fun fileId hTouches =>
      absurd hTouches (untouched_of_key hKey)
  stamped := by
    intro w t new hInv h _ hFresh
    refine ⟨h.touches, ?_⟩
    intro folder contents above op below hLog hDeletes
    have hMem : op ∈ w.headLog := by
      rw [show w.headLog = above ++ op :: below from hLog]
      simp
    exact h.inside folder contents above op below hLog
      (hDeletes.of_stamped (hInv.basic.log op hMem) hInv.basic
        hFresh)
  same := by
    intro w w' h hSame
    refine ⟨?_, ?_⟩
    · rw [hSame.store]
      exact h.touches
    · intro folder contents above op below hLog hDeletes
      rw [hSame.headLog] at hLog
      apply h.inside folder contents above op below hLog
      apply hDeletes.mono
      rw [hSame.issued]

------------------------------------------------------------
-- Contents up to Date
------------------------------------------------------------

/-
  The delete of a folder arrives at the head pointer while
  the log puts none of the recorded contents outside.
-/
def committedInside
    (e : EnvAction)
    (w : World) : Prop :=
  ∀ ticket f, e = .deliver ticket →
    w.store.flights[ticket]? = some f →
      f.write.Allowed w.store.objects →
        ∀ op folder contents, HeadWrite op.opId f.write →
          DeletesFolder w folder contents op →
            ∀ fileId ∈ contents, fileId ≠ folder →
              ¬ PlacedOutside folder fileId w.headLog

def ContentsUpToDate
    (s : PublishState)
    (a : PublishAction) : Prop :=
  ∀ e, a = .env e → committedInside e s.world

def folderLimits : PublishLimits where
  Starts := fun _ _ _ _ => True
  Admits := fun _ _ _ _ _ => True
  Env := committedInside

/- A write that touches what the change has recorded. -/
theorem folder_sendable
    (hAbout : About t change w)
    (hTouches :
      ∀ fileId, Touches fileId write →
        fileId ∈ change.removes) :
    Sendable (folderHost.limit (folderLimits.Admits c)) t w
      write := by
  intro w₁ h₁ hInv
  apply FoldersOk.send hInv.extra
  rcases hAbout.later h₁.toSteps with ⟨b, hBasis, hChange⟩
  intro fileId hTouch
  refine ⟨b, hBasis, ?_⟩
  rw [show b.removes = b.toChange.removes from rfl, hChange]
  exact hTouches fileId hTouch

theorem folder_publishes
    (t : Tid)
    (c : PublishCall) :
    Publishes (folderHost.limit (folderLimits.Admits c)) t
      c where
  entries := by
    intro w write entry hKey hBody w₁ _ hInv
    apply FoldersOk.send hInv.extra
    rintro fileId (⟨_, hNone⟩ | ⟨hRecord, _⟩)
    · rw [hBody] at hNone
      cases hNone
    · rw [hKey] at hRecord
      cases hRecord
  records := by
    intro w change write tombstone _ hOwn hAbout hKey hBody
    apply folder_sendable hAbout
    rintro fileId (⟨hTree, _⟩ | ⟨hRecord, _⟩)
    · rw [hKey] at hTree
      cases hTree
    · rw [hKey] at hRecord
      cases hRecord
      exact hOwn
  removes := by
    intro w change id _ hAbout hId
    apply folder_sendable hAbout
    rintro fileId (⟨hTree, _⟩ | ⟨_, hBody⟩)
    · cases hTree
      exact hId
    · exact absurd rfl hBody
  retires := by
    intro w change id etag _ hAbout
    apply folder_sendable hAbout
    rintro fileId (⟨hTree, _⟩ | ⟨_, hBody⟩)
    · cases hTree
    · exact absurd rfl hBody
  keeps := fun _ _ _ => trivial
  deletes := fun _ _ _ _ _ _ _ _ _ _ _ _ _ _ _ _ _ _ _ =>
    trivial
  publishes := fun _ _ _ _ _ _ _ _ _ _ _ _ _ _ _ _ _ =>
    trivial

/- A delivery adds at most one delete to the history. -/
theorem FoldersOk.deliver
    {ticket : Nat}
    (h : FoldersOk w)
    (hInv : LogInv True w)
    (hLimit : committedInside (.deliver ticket) w)
    (hDeliver : w.deliver ticket = some w') :
    FoldersOk w' := by
  rcases deliver_at hDeliver with ⟨f, hFlight, hDelivery⟩
  constructor
  · intro g hg
    rcases hDelivery.old hg with ⟨g₀, hg₀, hLater⟩
    have hOld := h.touches g₀ hg₀
    unfold TouchesRecorded at hOld ⊢
    rw [hLater.write, hLater.sender]
    exact hOld
  · intro folder contents above op below hLog hDeletes
    have hDeletes : DeletesFolder w folder contents op := by
      apply hDeletes.mono
      rw [hDelivery.issued]
    rcases hDelivery.headLog_cases hInv.basic with
      ⟨hSame, _⟩ | ⟨new, _, hHead, _, hAllowed, hNew, _⟩
    · rw [hSame] at hLog
      exact h.inside folder contents above op below hLog
        hDeletes
    · rw [hNew] at hLog
      cases above with
      | nil =>
          cases hLog
          exact hLimit ticket f rfl hFlight hAllowed op folder
            contents hHead hDeletes
      | cons first above =>
          have hRest := (List.cons.inj hLog).2
          exact h.inside folder contents above op below hRest
            hDeletes

variable {s : PublishState}

theorem folders_of_run
    (run : PublishRun ContentsUpToDate .initial s) :
    FoldersOk s.world := by
  have hState :
      PublishStateOk folderHost folderLimits
        (fun _ _ _ _ => True) s := by
    apply publishState_of_run _ _ _ _ run
    · refine ⟨?_, ?_⟩
      · intro f hf
        cases hf
      · intro folder contents above op below hLog
        have hNil : [] = above ++ op :: below := hLog
        simp at hNil
    · exact fun t c w hStarting =>
        publish_meets hStarting.holding (folder_publishes t c)
    · exact fun w w' ticket hInv hLimit hDeliver =>
        hInv.extra.deliver hInv.log hLimit hDeliver
    · intro s a hPermit
      cases a with
      | env e => exact hPermit e rfl
      | call t c => exact fun _ _ => trivial
      | serve t k => exact fun _ _ _ _ _ => trivial
      | _ => trivial
  exact hState.inv.extra

/- Whether every recorded deletion is inside by the log. -/
def contentsInTime
    (s : PublishState) : PublishAction → Bool
  | .env _ =>
      s.world.issued.all fun x =>
        x.basis.all fun b =>
          b.root.all fun folder =>
            b.removes.all fun fileId =>
              fileId = folder ||
                ¬ PlacedOutside folder fileId s.world.headLog
  | _ => true

theorem contentsUpToDate_of_check
    {a : PublishAction}
    (h : contentsInTime s a = true) : ContentsUpToDate s a := by
  rintro e rfl ticket f _ _ _ op folder contents _ hDeletes
    fileId hMem hInside
  rcases hDeletes with ⟨_, _, x, hx, _, b, hBasis, hRoot, rfl⟩
  simp only [contentsInTime, List.all_eq_true] at h
  have hx := h x hx
  rw [hBasis] at hx
  simp only [Option.all_some] at hx
  rw [hRoot] at hx
  simp only [Option.all_some, List.all_eq_true] at hx
  simpa [hInside] using hx fileId hMem

/- The index row of file 10 in folder 20. -/
def rowInside : FileEntry where
  fileId := 10
  parentId := some 20
  name := "a.txt"
  entryType := .file
  currentRevisionId := some 1
  contentRef := none
  size := 1
  contentHash := none
  mime := none
  updatedAt := 0
  deletedAt := none
  versionHistory := [1]

/- Device 2 moves the file to another place. -/
def movedTo (parentId : Option FileId) : List PublishAction :=
  [.call 2 (.placeFile 2 rowInside true ⟨parentId, "a.txt"⟩)] ++
  answered 2 2 ++ [.serve 2 (.fresh 1)] ++ written 2 0 ++
  written 2 1 ++ answered 2 3 ++ written 2 2 ++ [.finish 2]

/- Device 1 deletes the folder with its indexed contents. -/
def folderDeleted : List PublishAction :=
  [.call 1 (.deleteFolder 1 ⟨20, none, "F"⟩
    ⟨[(rowInside, "F/a.txt")], []⟩)] ++
  answered 1 2 ++ written 1 3 ++ answered 1 4 ++
  [.serve 1 (.fresh 2)] ++ written 1 4 ++ written 1 5 ++
  answered 1 1 ++ written 1 6 ++ answered 1 1

/- Whether the folder's delete came last and touches 10. -/
def folderDeletedLast
    (s : PublishState)
    (test :
      List Operation → Flight Key Body Sender → Bool) : Bool :=
  match s.world.headLog with
  | op :: below =>
      DeletesFolder s.world 20 [20, 10] op &&
        s.world.store.flights.any fun f =>
          PartOf 20 [20, 10] f.sender.basis &&
            f.write = .delete (.tree 10) && test below f
  | [] => false

theorem of_folderDeletedLast
    {test : List Operation → Flight Key Body Sender → Bool}
    (h : folderDeletedLast s test = true) :
    ∃ op below f, s.world.headLog = op :: below ∧
      DeletesFolder s.world 20 [20, 10] op ∧
      f ∈ s.world.store.flights ∧
      PartOf 20 [20, 10] f.sender.basis ∧
      f.write = .delete (.tree 10) ∧ test below f = true := by
  unfold folderDeletedLast at h
  split at h
  · rename_i op below hLog
    simp only [Bool.and_eq_true, decide_eq_true_eq,
      List.any_eq_true] at h
    rcases h with
      ⟨hDeletes, f, hFlight, ⟨hPart, hWrite⟩, hTest⟩
    exact ⟨op, below, f, hLog, hDeletes, hFlight, hPart, hWrite,
      hTest⟩
  · cases h

def entryRemoved : List PublishAction :=
  [.env (.deliver 7)]

end S4Drive

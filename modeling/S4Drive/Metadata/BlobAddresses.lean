import S4Drive.Metadata.Blobs

/-
  The addresses of blobs are true: while every later read of
  a call finds what its first hash has read, an object under
  a blob key has the bytes of that hash, and every reference
  that was returned leads to one.

  Main declarations:
    * `FindsHashed`, `Truthful`, `blobContract`
    * `hashFile_gives`
    * `uploadFile_stores`
    * `blob_addresses_are_true`
-/

------------------------------------------------------------
-- Keys
------------------------------------------------------------

namespace S4Drive

open ObjectStore Concurrency BlobStore

theorem blobKey_injective
    {hash hash' : String}
    (h : blobKey hash = blobKey hash') : hash = hash' := by
  have hText := String.ofList_injective h
  rw [List.append_assoc, List.append_assoc,
    List.append_cancel_left_eq] at hText
  have hLength := congrArg List.length hText
  simp only [List.length_append, List.length_take,
    List.length_cons] at hLength
  have hSame : hash.toList.length = hash'.toList.length := by
    omega
  have hRest := List.append_inj_right' hText (by simp [hSame])
  exact String.toList_injective (List.cons.inj hRest).2

------------------------------------------------------------
-- The Contract
------------------------------------------------------------

/- A read finds what the first hash of the call has read. -/
def FindsHashed
    (w : BlobWorld)
    (t : Nat)
    (file : FileHandle)
    (offset n : Nat) : Prop :=
  ∀ bytes ∈ w.hashed t,
    ((w.disks.bytes file).drop offset).take n =
      (bytes.drop offset).take n

def ReadsHashed
    (t : Nat)
    (r : BlobReq)
    (k : BlobChoice)
    (w : BlobWorld) : Prop :=
  match r, k with
  | .readAt file offset _, .count n =>
      FindsHashed w t file offset n
  | .readEnd file read, .ok =>
      FindsHashed w t file read.length 1
  | _, _ => True

def blobLimits :
    ThreadSystem.Limits BlobReq BlobChoice BlobWorld Nat
      StoreCall Unit BlobEnv where
  Starts := fun _ _ _ _ => True
  Admits := fun _ t r k w => ReadsHashed t r k w
  Env := fun _ _ => True

/- A reference leads to an object with the bytes it names. -/
def Names
    (blake3 : List UInt8 → List UInt8)
    (objects : Objects String (List UInt8))
    (ref : ContentRef) : Prop :=
  ∃ bytes, objects.lookup ref.storageKey = some bytes ∧
    (hashOf blake3 bytes).hash = ref.hash

/- The write of a blob under its own key. -/
def TrueWrite
    (blake3 : List UInt8 → List UInt8)
    (write : Write String (List UInt8)) : Prop :=
  ∃ bytes, write =
    .putIfNotExists (blobKey (hashOf blake3 bytes).hash) bytes

/- Objects have the bytes that their blob keys name. -/
structure Truthful
    (blake3 : List UInt8 → List UInt8)
    (w : BlobWorld) : Prop where
  objects :
    ∀ hash bytes,
      w.store.objects.lookup (blobKey hash) = some bytes →
        (hashOf blake3 bytes).hash = hash
  flights :
    ∀ f ∈ w.store.flights, TrueWrite blake3 f.write
  settled :
    ∀ f ∈ w.store.flights,
      f.applied = true ∨ f.refused = true →
        (w.store.objects.lookup f.write.key).isSome
  returned :
    ∀ ref ∈ w.returned, Names blake3 w.store.objects ref

/- No object is replaced, and no flight forgotten. -/
structure Persists (w w' : BlobWorld) : Prop where
  objects :
    ∀ key bytes, w.store.objects.lookup key = some bytes →
      w'.store.objects.lookup key = some bytes
  flights : FlightsGrow w.store.flights w'.store.flights

variable {blake3 : List UInt8 → List UInt8}
variable {w w' w'' : BlobWorld} {t u : Nat}

theorem Persists.refl (w : BlobWorld) : Persists w w where
  objects := fun _ _ h => h
  flights := .refl _

theorem Persists.trans
    (first : Persists w w')
    (second : Persists w' w'') : Persists w w'' where
  objects := fun key bytes h =>
    second.objects key bytes (first.objects key bytes h)
  flights := first.flights.trans second.flights

theorem Names.persists
    {ref : ContentRef}
    (h : Names blake3 w.store.objects ref)
    (hPersists : Persists w w') :
    Names blake3 w'.store.objects ref := by
  rcases h with ⟨bytes, hObject, hHash⟩
  exact ⟨bytes, hPersists.objects _ _ hObject, hHash⟩

/- What thread `t` may rely on. -/
def BlobKept (t : Nat) (w w' : BlobWorld) : Prop :=
  Persists w w' ∧ w'.hashed t = w.hashed t

theorem BlobKept.refl (t : Nat) (w : BlobWorld) : BlobKept t w w :=
  ⟨.refl w, rfl⟩

theorem BlobKept.trans
    (first : BlobKept t w w')
    (second : BlobKept t w' w'') : BlobKept t w w'' :=
  ⟨first.1.trans second.1, second.2.trans first.2⟩

def blobContract
    (blake3 : List UInt8 → List UInt8) :
    Contract BlobReq BlobChoice BlobWorld Nat where
  Inv := Truthful blake3
  Rely := BlobKept
  Admits := fun t r k w => ReadsHashed t r k w
  rely_refl := BlobKept.refl
  rely_trans := fun h₁ h₂ => h₁.trans h₂

variable {store : Store String (List UInt8) Nat}
variable {f : Flight String (List UInt8) Nat}

theorem persists_deliver
    {ticket : Nat}
    (h : Truthful blake3 w)
    (hDeliver : w.store.deliver ticket = some (f, store)) :
    Persists w { w with store := store } where
  objects := by
    intro key bytes hObject
    rcases Store.deliver_cases hDeliver with
      ⟨hFlight, ⟨hAllowed, rfl⟩ | ⟨_, rfl⟩⟩
    · rcases h.flights f (List.mem_of_getElem? hFlight) with
        ⟨written, hWrite⟩
      have hOther : key ≠ f.write.key := by
        rintro rfl
        rw [hWrite] at hAllowed hObject
        have hNone : w.store.objects.lookup
            (blobKey (hashOf blake3 written).hash) = none :=
          hAllowed
        rw [Write.key, hNone] at hObject
        cases hObject
      exact (Write.lookup_apply_of_ne hOther).trans hObject
    · exact hObject
  flights := Store.flightsGrow_deliver hDeliver

/- A true write keeps the bucket truthful. -/
theorem truthful_deliver
    {ticket : Nat}
    (h : Truthful blake3 w)
    (hDeliver : w.store.deliver ticket = some (f, store)) :
    Truthful blake3 { w with store := store } := by
  have hPersists := persists_deliver h hDeliver
  have hPresent (key : String)
      (hKey : (w.store.objects.lookup key).isSome) :
      (store.objects.lookup key).isSome := by
    rcases Option.isSome_iff_exists.mp hKey with
      ⟨bytes, hBytes⟩
    rw [hPersists.objects key bytes hBytes]
    rfl
  rcases Store.deliver_cases hDeliver with
    ⟨hFlight, ⟨hAllowed, rfl⟩ | ⟨hRefused, rfl⟩⟩
  · have hMember := List.mem_of_getElem? hFlight
    rcases h.flights f hMember with ⟨written, hWrite⟩
    refine ⟨?_, ?_, ?_, ?_⟩
    · intro hash bytes hObject
      by_cases hKey : blobKey hash = f.write.key
      · rw [hKey] at hObject
        have hBody : some written = some bytes := by
          rw [← hObject]
          change some written =
            (f.write.apply w.store.objects).lookup f.write.key
          rw [Write.lookup_apply_self, hWrite]
          rfl
        cases hBody
        rw [hWrite] at hKey
        exact (blobKey_injective hKey).symm
      · have hBefore :=
          (Write.lookup_apply_of_ne hKey).symm.trans hObject
        exact h.objects hash bytes hBefore
    · intro g hg
      rcases List.mem_or_eq_of_mem_set hg with hg | rfl
      · exact h.flights g hg
      · exact ⟨written, hWrite⟩
    · intro g hg hSettled
      rcases List.mem_or_eq_of_mem_set hg with hg | rfl
      · exact hPresent _ (h.settled g hg hSettled)
      · change ((f.write.apply w.store.objects).lookup
          f.write.key).isSome
        rw [Write.lookup_apply_self, hWrite]
        rfl
    · exact fun ref hRef =>
        (h.returned ref hRef).persists hPersists
  · refine ⟨h.objects, ?_, ?_, h.returned⟩
    · intro g hg
      rcases List.mem_or_eq_of_mem_set hg with hg | rfl
      · exact h.flights g hg
      · exact h.flights f (List.mem_of_getElem? hFlight)
    · intro g hg hSettled
      rcases List.mem_or_eq_of_mem_set hg with hg | rfl
      · exact h.settled g hg hSettled
      · rcases h.flights f (List.mem_of_getElem? hFlight) with
          ⟨written, hWrite⟩
        rw [hWrite] at hRefused
        change (w.store.objects.lookup f.write.key).isSome
        rw [hWrite]
        exact Option.isSome_iff_ne_none.mpr hRefused

variable {write : Write String (List UInt8)}

theorem truthful_send
    (h : Truthful blake3 w)
    (hTrue : TrueWrite blake3 write) :
    Truthful blake3 { w with store := w.store.send t write } := by
  refine ⟨h.objects, ?_, ?_, h.returned⟩
  · intro f hf
    rcases List.mem_append.mp hf with hf | hf
    · exact h.flights f hf
    · rw [List.mem_singleton] at hf
      subst hf
      exact hTrue
  · intro f hf hSettled
    rcases List.mem_append.mp hf with hf | hf
    · exact h.settled f hf hSettled
    · rw [List.mem_singleton] at hf
      subst hf
      simp at hSettled

------------------------------------------------------------
-- Requests
------------------------------------------------------------

variable {α γ : Type}

/-
  From the world `w` on, `x` only does what others may do,
  and what it returns satisfies `Q`.
-/
abbrev Stores
    (blake3 : List UInt8 → List UInt8)
    (t : Nat)
    (x : BlobM α)
    (w : BlobWorld)
    (Q : α → BlobWorld → Prop) : Prop :=
  Within blobMachine (blobContract blake3) t x ()
    (fun a _ w' => Q a w') w

theorem Stores.bind
    {x : BlobM α} {f : α → BlobM γ}
    {Q : α → BlobWorld → Prop}
    {R : γ → BlobWorld → Prop}
    (hx : Stores blake3 t x w Q)
    (hf :
      ∀ a w', BlobKept t w w' → Q a w' →
        Stores blake3 t (f a) w' R) :
    Stores blake3 t (x >>= f) w R :=
  Within.bind hx fun a _ w' hKept h => hf a w' hKept h

theorem keeps_self
    (h : Truthful blake3 w) :
    (blobContract blake3).Keeps t w w :=
  ⟨h, fun u _ => BlobKept.refl u w⟩

/- A request whose answer changes nothing. -/
theorem quietCall_stores
    {r : BlobReq}
    {answer : BlobResp r → CoreResult α}
    {Q : α → BlobWorld → Prop}
    (hQuiet :
      ∀ {w k b w'}, serveBlob t r k w = some (b, w') → w' = w)
    (h :
      ∀ w₁ k b a, BlobKept t w w₁ → Truthful blake3 w₁ →
        ReadsHashed t r k w₁ →
        serveBlob t r k w₁ = some (b, w₁) →
        answer b = .ok a →
          ∀ w', BlobKept t w₁ w' → Q a w') :
    Stores blake3 t (Script.call r answer) w Q := by
  apply within_call
  intro w₁ hKept hTruthful k b w₂ hAdmits hServe
  have hSame : w₂ = w₁ := hQuiet hServe
  subst hSame
  refine ⟨keeps_self hTruthful, BlobKept.refl t w₂, ?_⟩
  exact fun a hAnswer w' hKept' _ =>
    h w₂ k b a hKept hTruthful hAdmits hServe hAnswer w' hKept'

theorem quietRequest_stores
    {r : BlobReq}
    {Q : BlobResp r → BlobWorld → Prop}
    (hQuiet :
      ∀ {w k b w'}, serveBlob t r k w = some (b, w') → w' = w)
    (h :
      ∀ w₁ k b, BlobKept t w w₁ → ReadsHashed t r k w₁ →
        serveBlob t r k w₁ = some (b, w₁) →
          ∀ w', BlobKept t w₁ w' → Q b w') :
    Stores blake3 t
      (Script.request r : BlobM (BlobResp r)) w Q := by
  have hCall :
      Stores blake3 t
        (Script.call r Except.ok : BlobM (BlobResp r)) w Q := by
    apply quietCall_stores hQuiet
    rintro w₁ k b _ hKept _ hAdmits hServe ⟨⟩ w' hKept'
    exact h w₁ k b hKept hAdmits hServe w' hKept'
  exact hCall

theorem openFile_stores {path : DiskPath} :
    Stores blake3 t (openFile path) w fun _ _ => True := by
  apply quietRequest_stores
  · intro w k b w' hServe
    cases k <;> cases hServe <;> rfl
  · exact fun _ _ _ _ _ _ _ _ => trivial

theorem countReads_stores :
    Stores blake3 t countReads w fun _ _ => True := by
  apply quietRequest_stores
  · intro w k b w' hServe
    cases k <;> cases hServe
    rfl
  · exact fun _ _ _ _ _ _ _ _ => trivial

theorem brokenStream_stores
    {Q : α → BlobWorld → Prop} :
    Stores blake3 t brokenStream w Q := by
  apply quietCall_stores
  · intro w k b w' hServe
    cases k <;> cases hServe
    rfl
  · exact fun _ _ _ _ _ _ _ _ hAnswer => nomatch hAnswer

theorem multipartStep_stores :
    Stores blake3 t multipartStep w fun _ _ => True := by
  apply quietCall_stores
  · intro w k b w' hServe
    cases k <;> cases hServe <;> rfl
  · exact fun _ _ _ _ _ _ _ _ _ _ _ => trivial

theorem fileByteStream_stores
    {path : DiskPath} {offset size : Nat} :
    Stores blake3 t (fileByteStream path offset size) w
      fun _ _ => True := by
  apply quietCall_stores
  · intro w k b w' hServe
    cases k <;> cases hServe <;> rfl
  · exact fun _ _ _ _ _ _ _ _ _ _ _ => trivial

/- A head request that returns has found the object. -/
theorem head_stores {key : String} :
    Stores blake3 t
      (Script.call (.head key) fun answer => answer) w
      fun _ w' => (w'.store.objects.lookup key).isSome := by
  apply quietCall_stores
  · intro w k b w' hServe
    cases k with
    | ok =>
        simp only [serveBlob] at hServe
        split at hServe <;> cases hServe <;> rfl
    | fail e =>
        simp only [serveBlob] at hServe
        split at hServe <;> cases hServe
        rfl
    | failed => cases hServe
    | count n => cases hServe
    | reply done => cases hServe
  · intro w₁ k b a _ _ _ hServe hAnswer w' hKept
    cases k with
    | ok =>
        simp only [serveBlob] at hServe
        split at hServe
        · rename_i bytes hObject
          rw [hKept.1.objects key bytes hObject]
          rfl
        · cases hServe
          cases hAnswer
    | fail e =>
        simp only [serveBlob] at hServe
        split at hServe
        · cases hServe
        · cases hServe
          cases hAnswer
    | failed => cases hServe
    | count n => cases hServe
    | reply done => cases hServe

variable {file : FileHandle} {path : DiskPath}
variable {read bytes : List UInt8} {offset size : Nat}

/- What has been read from `offset` on was hashed as well. -/
def AsHashed
    (w : BlobWorld)
    (t offset : Nat)
    (read : List UInt8) : Prop :=
  ∀ bytes ∈ w.hashed t, read <+: bytes.drop offset

theorem AsHashed.kept
    (h : AsHashed w t offset read)
    (hKept : BlobKept t w w') : AsHashed w' t offset read := by
  unfold AsHashed
  rw [hKept.2]
  exact h

theorem AsHashed.append
    {n : Nat}
    (h : AsHashed w t offset read)
    (hFinds :
      FindsHashed w t file (offset + read.length) n) :
    AsHashed w t offset
      (read ++
        ((w.disks.bytes file).drop
          (offset + read.length)).take n) := by
  intro bytes hBytes
  rw [hFinds bytes hBytes, ← List.drop_drop]
  rcases h bytes hBytes with ⟨rest, hRest⟩
  rw [← hRest, List.drop_left]
  exact (List.prefix_append_right_inj read).mpr
    (List.take_prefix n rest)

theorem readAt_stores
    {limit position : Nat}
    (hPosition : position = offset + read.length)
    (h : AsHashed w t offset read) :
    Stores blake3 t (readAt file position limit) w
      fun chunk w' => ∀ bytes, chunk = some bytes →
        AsHashed w' t offset (read ++ bytes) := by
  subst hPosition
  apply quietRequest_stores
  · intro w k b w' hServe
    cases k with
    | count n =>
        simp only [serveBlob] at hServe
        split at hServe <;> cases hServe
        rfl
    | failed =>
        cases hServe
        rfl
    | ok => cases hServe
    | fail e => cases hServe
    | reply done => cases hServe
  · intro w₁ k b hKept hReads hServe w' hKept' bytes hChunk
    cases k with
    | count n =>
        simp only [serveBlob] at hServe
        split at hServe
        · cases hServe
          cases hChunk
          exact ((h.kept hKept).append hReads).kept hKept'
        · cases hServe
    | failed =>
        cases hServe
        cases hChunk
    | ok => cases hServe
    | fail e => cases hServe
    | reply done => cases hServe

/- A hash has read `bytes`, the same as the first hash. -/
structure Hashed
    (t : Nat)
    (w w' : BlobWorld)
    (bytes : List UInt8) : Prop where
  persists : Persists w w'
  hashed : w'.hashed t = some bytes
  same : ∀ before ∈ w.hashed t, before = bytes

theorem Hashed.earlier
    (h : Hashed t w' w'' bytes)
    (hKept : BlobKept t w w') : Hashed t w w'' bytes where
  persists := hKept.1.trans h.persists
  hashed := h.hashed
  same := by
    rw [← hKept.2]
    exact h.same

theorem truthful_noteHashed
    (h : Truthful blake3 w) :
    Truthful blake3 (noteHashed t read w) :=
  ⟨h.objects, h.flights, h.settled, h.returned⟩

theorem keeps_noteHashed
    (h : Truthful blake3 w) :
    (blobContract blake3).Keeps t w (noteHashed t read w) := by
  refine ⟨truthful_noteHashed h, ?_⟩
  intro u hOther
  refine ⟨⟨fun _ _ h => h, .refl _⟩, ?_⟩
  simp [noteHashed, hOther]

/- The end of the file is the end of what was hashed. -/
theorem hashed_of_readEnd
    (h : AsHashed w t 0 read)
    (hFinds : FindsHashed w t file read.length 1)
    (hEnd : (w.disks.bytes file).drop read.length = []) :
    (noteHashed t read w).hashed t = some read ∧
      ∀ before ∈ w.hashed t, before = read := by
  cases hHashed : w.hashed t with
  | none => simp [noteHashed, hHashed]
  | some before =>
      have hRest := hFinds before hHashed
      rw [hEnd] at hRest
      have hNone : before.drop read.length = [] := by
        cases hDrop : before.drop read.length with
        | nil => rfl
        | cons b rest => simp [hDrop] at hRest
      have hPrefix : read <+: before := h before hHashed
      have hSame : before = read := by
        rcases hPrefix with ⟨rest, rfl⟩
        rw [List.drop_left] at hNone
        rw [hNone, List.append_nil]
      simp [noteHashed, hHashed, hSame]

theorem readToEnd_gives
    {n : Nat}
    (h : AsHashed w t 0 read) :
    Gives blobMachine (blobContract blake3) t
      (readToEnd path file n read) ()
      (fun bytes _ w' => Hashed t w w' bytes) w := by
  induction n generalizing w read with
  | zero =>
      unfold readToEnd
      apply gives_call
      intro w₁ hKept hTruthful k b w₂ hReads hServe
      cases k with
      | ok =>
          simp only [blobMachine, serveBlob] at hServe
          split at hServe
          · rename_i hEnd
            cases hServe
            refine ⟨keeps_noteHashed hTruthful, ?_⟩
            rintro _ ⟨⟩ w₃ hKept' _
            have hNoted :=
              hashed_of_readEnd (h.kept hKept) hReads hEnd
            have hPersists : Persists w₁ w₃ :=
              ⟨hKept'.1.objects, hKept'.1.flights⟩
            exact Hashed.earlier
              ⟨hPersists, hKept'.2.trans hNoted.1, hNoted.2⟩
              hKept
          · cases hServe
      | failed =>
          cases hServe
          exact ⟨keeps_self hTruthful,
            fun _ hAnswer => nomatch hAnswer⟩
      | count n => cases hServe
      | fail e => cases hServe
      | reply done => cases hServe
  | succ n ih =>
      unfold readToEnd
      apply (readAt_stores (Nat.zero_add _).symm h).gives.bind
      rintro chunk _ w₁ ⟨hKept, hRead⟩
      split
      · exact gives_throw
      · rename_i bytes
        apply (ih (hRead bytes rfl)).mono
        exact fun _ _ _ hHashed => hHashed.earlier hKept

theorem hashFile_gives :
    Gives blobMachine (blobContract blake3) t
      (hashFile blake3 path) ()
      (fun found _ w' => ∃ bytes,
        found = hashOf blake3 bytes ∧ Hashed t w w' bytes) w := by
  unfold hashFile
  apply openFile_stores.gives.bind
  rintro opened _ w₁ ⟨hKept₁, _⟩
  split
  · exact gives_throw
  · apply countReads_stores.gives.bind
    rintro reads _ w₂ ⟨hKept₂, _⟩
    have hStart : AsHashed w₂ t 0 [] :=
      fun _ _ => List.nil_prefix
    apply (readToEnd_gives hStart).bind
    intro bytes _ w₃ hHashed
    apply gives_pure
    intro w₄ hKept₄ _
    refine ⟨bytes, rfl, ?_⟩
    have hHashed₂ := hHashed.earlier (hKept₁.trans hKept₂)
    exact
      { persists := hHashed₂.persists.trans hKept₄.1
        hashed := hKept₄.2.trans hHashed₂.hashed
        same := hHashed₂.same }

------------------------------------------------------------
-- Uploads
------------------------------------------------------------

variable {Q : α → BlobWorld → Prop}
variable {attempts : Nat}

theorem withRetry_stores
    {operation : BlobM α}
    (hStable : ∀ {a w w'}, BlobKept t w w' → Q a w → Q a w')
    (h :
      ∀ w₁, BlobKept t w w₁ → Stores blake3 t operation w₁ Q) :
    Stores blake3 t (withRetry operation attempts) w Q := by
  induction attempts generalizing w with
  | zero => exact h w (.refl t w)
  | succ attempts ih =>
      unfold withRetry
      apply Stores.bind (Within.attempt (h w (.refl t w)))
      intro tried w₁ hKept hTried
      split
      · rename_i value
        apply within_pure
        intro w₂ hKept' _
        exact hStable hKept' (hTried value rfl)
      · split
        · exact ih fun w₂ hKept' => h w₂ (hKept.trans hKept')
        · exact within_throw

theorem streamBody_stores
    {n : Nat}
    (hHashed : w.hashed t = some bytes)
    (h : read <+: bytes.drop offset) :
    Stores blake3 t (streamBody file offset size n read) w
      fun body _ => body = (bytes.drop offset).take size := by
  induction n generalizing w read with
  | zero =>
      unfold streamBody
      split
      · rename_i hLength
        apply within_pure
        intro _ _ _
        rw [← hLength]
        exact List.prefix_iff_eq_take.mp h
      · exact brokenStream_stores
  | succ n ih =>
      unfold streamBody
      have hRead : AsHashed w t offset read := by
        intro before hBefore
        rw [hHashed] at hBefore
        cases hBefore
        exact h
      apply (readAt_stores rfl hRead).bind
      intro chunk w₁ hKept hChunk
      split
      · exact brokenStream_stores
      · rename_i more
        have hHashed₁ := hKept.2.trans hHashed
        exact ih hHashed₁ (hChunk more rfl bytes hHashed₁)

/- The body of a request is what was hashed there. -/
theorem readBody_stores
    (hHashed : w.hashed t = some bytes) :
    Stores blake3 t (readBody path offset size) w
      fun body _ => body = (bytes.drop offset).take size := by
  unfold readBody
  apply fileByteStream_stores.bind
  intro _ w₁ hKept₁ _
  apply openFile_stores.bind
  intro opened w₂ hKept₂ _
  split
  · exact brokenStream_stores
  · apply countReads_stores.bind
    intro reads w₃ hKept₃ _
    have hKept := (hKept₁.trans hKept₂).trans hKept₃
    exact streamBody_stores (hKept.2.trans hHashed)
      List.nil_prefix

/- The object is there. -/
def Present (key : String) (w : BlobWorld) : Prop :=
  (w.store.objects.lookup key).isSome

variable {key : String}

theorem Present.persists
    (h : Present key w)
    (hPersists : Persists w w') : Present key w' := by
  rcases Option.isSome_iff_exists.mp h with ⟨bytes, hObject⟩
  exact Option.isSome_iff_exists.mpr
    ⟨bytes, hPersists.objects key bytes hObject⟩

/- Only a write that was carried out is answered. -/
theorem await_cases
    {ticket : Nat} {done : Bool} {b : CoreResult Bool}
    (h :
      serveBlob t (.await ticket) (.reply done) w =
        some (b, w')) :
    w' = w ∧ ∀ f, w.store.flights[ticket]? = some f →
      f.applied = true ∨ f.refused = true := by
  simp only [serveBlob] at h
  cases hFlight : w.store.flights[ticket]? with
  | none => simp [hFlight] at h
  | some f =>
      rw [hFlight] at h
      cases done with
      | true =>
          by_cases hApplied : f.applied = true
          · simp only [hApplied, if_true, Option.some.injEq,
              Prod.mk.injEq] at h
            refine ⟨h.2.symm, ?_⟩
            rintro _ ⟨⟩
            exact .inl hApplied
          · simp [hApplied] at h
      | false =>
          by_cases hRefused : f.refused = true
          · simp only [hRefused, if_true, Bool.false_eq_true,
              if_false, Option.some.injEq, Prod.mk.injEq] at h
            refine ⟨h.2.symm, ?_⟩
            rintro _ ⟨⟩
            exact .inr hRefused
          · simp [hRefused] at h

/- A write that is answered has found or made the object. -/
theorem writeBlob_stores
    (hTrue : TrueWrite blake3 write) :
    Stores blake3 t (writeBlob write) w
      fun _ w' => Present write.key w' := by
  unfold writeBlob
  have hSend :
      Stores blake3 t
        (Script.call (.send write) Except.ok : BlobM Nat) w
        fun ticket w' => ∃ f,
          w'.store.flights[ticket]? = some f ∧
            f.write = write := by
    apply within_call
    intro w₁ hKept hTruthful k b w₂ _ hServe
    cases k with
    | ok =>
        cases hServe
        have hPersists :
            Persists w₁
              { w₁ with store := w₁.store.send t write } :=
          ⟨fun _ _ h => h, flightsGrow_send w₁.store t write⟩
        refine ⟨⟨truthful_send hTruthful hTrue,
          fun u _ => ⟨hPersists, rfl⟩⟩, ⟨hPersists, rfl⟩, ?_⟩
        rintro _ ⟨⟩ w₃ hKept' _
        have hSent :
            (w₁.store.send t write).flights[
                w₁.store.flights.length]? =
              some ⟨write, t, false, false⟩ := by
          simp [Store.send]
        rcases hKept'.1.flights _ _ hSent with
          ⟨f, hFlight, hLater⟩
        exact ⟨f, hFlight, hLater.write⟩
    | failed => cases hServe
    | count n => cases hServe
    | fail e => cases hServe
    | reply done => cases hServe
  apply Stores.bind hSend
  rintro ticket w₁ _ ⟨f, hFlight, hWrite⟩
  apply quietCall_stores
  · intro w k b w' hServe
    cases k with
    | reply done => exact (await_cases hServe).1
    | fail e =>
        cases hServe
        rfl
    | ok => cases hServe
    | failed => cases hServe
    | count n => cases hServe
  · intro w₂ k b done hKept hTruthful _ hServe hAnswer w₃ hKept'
    rcases hKept.1.flights _ _ hFlight with
      ⟨g, hFlight', hLater⟩
    cases k with
    | reply done' =>
        have hSettled := (await_cases hServe).2 g hFlight'
        have hThere : Present g.write.key w₂ :=
          hTruthful.settled g (List.mem_of_getElem? hFlight')
            hSettled
        rw [← hWrite, ← hLater.write]
        exact hThere.persists hKept'.1
    | fail e =>
        cases hServe
        cases hAnswer
    | ok => cases hServe
    | failed => cases hServe
    | count n => cases hServe

theorem putFileIfNotExists_stores
    (hHashed : w.hashed t = some bytes) :
    Stores blake3 t
      (putFileIfNotExists attempts
        (blobKey (hashOf blake3 bytes).hash) path bytes.length)
      w fun _ w' =>
        Present (blobKey (hashOf blake3 bytes).hash) w' := by
  apply withRetry_stores
  · exact fun hKept h => h.persists hKept.1
  · intro w₁ hKept
    apply (readBody_stores (hKept.2.trans hHashed)).bind
    rintro body w₂ _ rfl
    apply writeBlob_stores
    exact ⟨bytes, by simp⟩

/- Each part has the hashed bytes of its place. -/
theorem uploadPart_stores
    {attempts partNumber : Nat}
    (hHashed : w.hashed t = some bytes) :
    Stores blake3 t
      (uploadMultipartFilePart attempts key path partNumber
        offset (min (bytes.length - offset) multipartPartSize))
      w fun part _ =>
        part.body =
          (bytes.drop offset).take multipartPartSize := by
  unfold uploadMultipartFilePart
  split
  · exact within_throw
  · apply withRetry_stores
    · exact fun _ h => h
    · intro w₁ hKept
      apply (readBody_stores (hKept.2.trans hHashed)).bind
      intro body w₂ hKept₂ hBody
      apply multipartStep_stores.bind
      intro _ w₃ _ _
      apply within_pure
      intro _ _ _
      have hPart :
          body = (bytes.drop offset).take multipartPartSize := by
        rw [hBody, List.take_eq_take_iff, List.length_drop]
        omega
      exact hPart

theorem uploadParts_stores
    {attempts n index : Nat}
    {parts : List (ETag (List UInt8))}
    (hHashed : w.hashed t = some bytes)
    (hParts :
      parts.flatMap ETag.body =
        bytes.take (index * multipartPartSize)) :
    Stores blake3 t
      (uploadParts attempts key path bytes.length n index parts)
      w fun all _ => all.flatMap ETag.body =
        bytes.take ((index + n) * multipartPartSize) := by
  induction n generalizing w index parts with
  | zero =>
      apply within_pure
      intro _ _ _
      exact hParts
  | succ n ih =>
      unfold uploadParts
      apply (uploadPart_stores hHashed).bind
      intro part w₁ hKept hPart
      have hMore :
          (parts ++ [part]).flatMap ETag.body =
            bytes.take ((index + 1) * multipartPartSize) := by
        rw [List.flatMap_append, hParts, Nat.succ_mul,
          List.take_add]
        simp [hPart]
      apply Within.mono (ih (hKept.2.trans hHashed) hMore)
      intro all _ w₂ _ hAll
      have hIndex : index + 1 + n = index + (n + 1) := by omega
      rw [hIndex] at hAll
      exact hAll

theorem multipartPartCount_covers
    {size parts : Nat}
    (h : multipartPartCount size = .ok parts) :
    size ≤ parts * multipartPartSize := by
  unfold multipartPartCount at h
  dsimp only at h
  split at h
  · cases h
  · split at h
    · cases h
    · cases h
      unfold multipartPartSize
      omega

theorem completeFromFile_stores
    (hHashed : w.hashed t = some bytes) :
    Stores blake3 t
      (completeFromFileIfNotExists attempts
        (blobKey (hashOf blake3 bytes).hash) path bytes.length)
      w fun _ w' =>
        Present (blobKey (hashOf blake3 bytes).hash) w' := by
  unfold completeFromFileIfNotExists
  have hCount :
      Stores blake3 t
        (Script.ofExcept (multipartPartCount bytes.length)) w
        fun parts _ =>
          bytes.length ≤ parts * multipartPartSize :=
    within_ofExcept fun _ hOk _ _ _ =>
      multipartPartCount_covers hOk
  apply hCount.bind
  intro totalParts w₁ hKept₁ hCovers
  have hHashed₁ := hKept₁.2.trans hHashed
  apply (uploadParts_stores hHashed₁ (by simp)).bind
  intro parts w₂ hKept₂ hParts
  rw [Nat.zero_add, List.take_of_length_le hCovers] at hParts
  unfold completeMultipartUpload
  have hBody : (parts.flatMap fun part => part.body) = bytes :=
    hParts
  rw [hBody]
  apply withRetry_stores
  · exact fun hKept h => h.persists hKept.1
  · exact fun w₃ _ => writeBlob_stores ⟨bytes, rfl⟩

theorem abort_stores {attempts : Nat} :
    Stores blake3 t (abortMultipartUpload attempts) w
      fun _ _ => True := by
  unfold abortMultipartUpload
  have hRetry :
      Stores blake3 t (withRetry multipartStep attempts) w
        fun _ _ => True :=
    withRetry_stores (fun _ _ => trivial)
      fun _ _ => multipartStep_stores
  apply Stores.bind (Within.attempt hRetry)
  exact fun _ _ _ _ => within_pure fun _ _ _ => trivial

theorem multipartUpload_stores
    (hHashed : w.hashed t = some bytes) :
    Stores blake3 t
      (multipartUploadFileIfNotExists attempts
        (blobKey (hashOf blake3 bytes).hash) path bytes.length)
      w fun _ w' =>
        Present (blobKey (hashOf blake3 bytes).hash) w' := by
  unfold multipartUploadFileIfNotExists
  split
  · exact putFileIfNotExists_stores hHashed
  · have hCreate :
        Stores blake3 t (withRetry multipartStep attempts) w
          fun _ _ => True :=
      withRetry_stores (fun _ _ => trivial)
        fun _ _ => multipartStep_stores
    apply hCreate.bind
    intro _ w₁ hKept₁ _
    apply Stores.bind (Within.attempt
      (completeFromFile_stores (hKept₁.2.trans hHashed)))
    intro result w₂ _ hResult
    split
    · apply within_pure
      exact fun w₃ hKept _ =>
        (hResult true rfl).persists hKept.1
    · apply abort_stores.bind
      intro _ w₃ hKept₃ _
      apply within_pure
      exact fun w₄ hKept₄ _ =>
        (hResult false rfl).persists (hKept₃.trans hKept₄).1
    · apply abort_stores.bind
      exact fun _ _ _ _ => within_throw

theorem uploadFile_stores
    (hHashed : w.hashed t = some bytes) :
    Stores blake3 t
      (uploadFile attempts (blobKey (hashOf blake3 bytes).hash)
        path bytes.length)
      w fun _ w' =>
        Present (blobKey (hashOf blake3 bytes).hash) w' := by
  unfold uploadFile
  split
  · exact multipartUpload_stores hHashed
  · exact putFileIfNotExists_stores hHashed

/- What is hashed again is the same: nothing is deleted. -/
theorem confirmUploaded_gives
    (hHashed : w.hashed t = some bytes) :
    Gives blobMachine (blobContract blake3) t
      (confirmUploaded blake3 attempts path
        (hashOf blake3 bytes)) ()
      (fun _ _ w' => Persists w w') w := by
  unfold confirmUploaded
  apply hashFile_gives.bind
  rintro _ _ w₁ ⟨again, rfl, hAgain⟩
  have hSame := hAgain.same bytes hHashed
  subst hSame
  rw [if_neg (by simp)]
  apply gives_pure
  exact fun w₂ hKept _ => hAgain.persists.trans hKept.1

theorem storeNew_gives
    (hHashed : w.hashed t = some bytes) :
    Gives blobMachine (blobContract blake3) t
      (storeNew blake3 attempts path (hashOf blake3 bytes)) ()
      (fun _ _ w' =>
        Present (blobKey (hashOf blake3 bytes).hash) w') w := by
  unfold storeNew
  apply (uploadFile_stores hHashed).gives.bind
  rintro created _ w₁ ⟨hKept, hThere⟩
  split
  · apply (confirmUploaded_gives (hKept.2.trans hHashed)).mono
    exact fun _ _ _ hPersists => hThere.persists hPersists
  · apply gives_pure
    exact fun w₂ hKept' _ => hThere.persists hKept'.1

theorem headObject_stores :
    Stores blake3 t (headObject attempts key) w
      fun _ w' => Present key w' :=
  withRetry_stores (fun hKept h => h.persists hKept.1)
    fun _ _ => head_stores

/- What the key of a reference finds is what it names. -/
theorem names_of_present
    {mime : String}
    (hTruthful : Truthful blake3 w)
    (h : Present (blobKey (hashOf blake3 bytes).hash) w) :
    Names blake3 w.store.objects
      (contentRefOf (hashOf blake3 bytes) mime) := by
  rcases Option.isSome_iff_exists.mp h with ⟨found, hFound⟩
  exact ⟨found, hFound, hTruthful.objects _ found hFound⟩

theorem storeFile_gives
    {mime : String} :
    Gives blobMachine (blobContract blake3) t
      (storeFile blake3 attempts path mime) ()
      (fun ref _ w' => Names blake3 w'.store.objects ref) w := by
  unfold storeFile
  apply hashFile_gives.bind
  rintro _ _ w₁ ⟨bytes, rfl, hHashed⟩
  apply (Within.attempt headObject_stores).gives.bind
  rintro there _ w₂ ⟨hKept, hThere⟩
  split
  · rename_i found
    apply gives_pure
    intro w₃ hKept' hTruthful
    exact names_of_present hTruthful
      ((hThere found rfl).persists hKept'.1)
  · apply (storeNew_gives
      (hKept.2.trans hHashed.hashed)).bind
    intro _ _ w₃ hPresent
    apply gives_pure
    intro w₄ hKept' hTruthful
    exact names_of_present hTruthful
      (hPresent.persists hKept'.1)
  · exact gives_throw

theorem blobSystem_verified :
    ThreadSystem.Verified (blobSystem blake3 attempts)
      (blobContract blake3) blobLimits (fun _ _ _ => True)
      (fun _ _ _ x w => ∀ ref, x.1 = .ok ref →
        Names blake3 w.store.objects ref) where
  stable := fun _ _ _ => trivial
  begin := by
    intro t call v w w' hTruthful _ _ hBegin
    cases hBegin
    refine ⟨⟨⟨hTruthful.objects, hTruthful.flights,
      hTruthful.settled, hTruthful.returned⟩, ?_⟩, ?_⟩
    · intro u hOther
      refine ⟨⟨fun _ _ h => h, .refl _⟩, ?_⟩
      simp [hOther]
    · exact storeFile_gives
  finish := by
    intro t call v r v' w hTruthful hPost
    refine ⟨⟨?_, ?_⟩, trivial⟩
    · cases r with
      | error e => exact hTruthful
      | ok ref =>
          refine ⟨hTruthful.objects, hTruthful.flights,
            hTruthful.settled, ?_⟩
          intro ref' hRef
          rcases List.mem_cons.mp hRef with rfl | hRef
          · exact hPost _ rfl
          · exact hTruthful.returned ref' hRef
    · intro u _
      cases r with
      | error e => exact BlobKept.refl u w
      | ok ref => exact ⟨⟨fun _ _ h => h, .refl _⟩, rfl⟩
  halt := fun hTruthful => ⟨keeps_self hTruthful, trivial⟩
  env := by
    intro e w w' hTruthful _ hEnv
    cases e with
    | deliver ticket =>
        rcases Option.map_eq_some_iff.mp hEnv with
          ⟨⟨f, store⟩, hDeliver, rfl⟩
        exact ⟨truthful_deliver hTruthful hDeliver,
          fun t => ⟨persists_deliver hTruthful hDeliver, rfl⟩⟩
    | writeFile file bytes =>
        cases hEnv
        exact ⟨⟨hTruthful.objects, hTruthful.flights,
            hTruthful.settled, hTruthful.returned⟩,
          fun t => ⟨⟨fun _ _ h => h, .refl _⟩, rfl⟩⟩
    | setPath path file =>
        cases hEnv
        exact ⟨⟨hTruthful.objects, hTruthful.flights,
            hTruthful.settled, hTruthful.returned⟩,
          fun t => ⟨⟨fun _ _ h => h, .refl _⟩, rfl⟩⟩

def sampleNotePath : DiskPath := ⟨1, "a.md"⟩

/- One file, and an empty bucket. -/
def sampleBlobWorld : BlobWorld where
  disks :=
    { file := fun path =>
        if path = sampleNotePath then some 1 else none
      bytes := fun file => if file = 1 then [1] else [] }
  store := .empty
  hashed := fun _ => none
  returned := []

theorem sampleBlobWorld_truthful :
    Truthful blake3 sampleBlobWorld where
  objects := fun _ _ h => nomatch h
  flights := fun _ h => nomatch h
  settled := fun _ h => nomatch h
  returned := fun _ h => nomatch h

/- A digest that is good enough for files of a few bytes. -/
def sampleDigest (bytes : List UInt8) : List UInt8 :=
  bytes

abbrev BlobAction :=
  Action Nat BlobChoice StoreCall BlobEnv

def BlobState.initial : BlobState :=
  (blobSystem sampleDigest 3).initial sampleBlobWorld

def storing (choices : List BlobChoice) : List BlobAction :=
  choices.map fun k => .serve 0 k

/- The file is hashed, and no object has the hash. -/
def blobHashed : List BlobAction :=
  .call 0 ⟨sampleNotePath, "text/markdown"⟩ ::
    storing [.ok, .count 1, .count 1, .ok, .ok]

/- The file is read once more and sent. -/
def blobSent : List BlobAction :=
  storing [.ok, .ok, .count 1, .count 1, .ok]

/-
  The upload, whose answer is lost, and a second one that is
  refused.
-/
def blobSentTwice : List BlobAction :=
  blobSent ++
    [.env (.deliver 0),
      .serve 0 (.fail (.network "connection reset"))] ++
    blobSent ++
    [.env (.deliver 1), .serve 0 (.reply false), .finish 0]

/- Another process writes the file. -/
def fileEdited : BlobAction :=
  .env (.writeFile 1 [2])

instance
    (objects : Objects String (List UInt8))
    (ref : ContentRef) :
    Decidable (Names blake3 objects ref) := by
  unfold Names
  cases h : objects.lookup ref.storageKey with
  | none => exact .isFalse (by simp)
  | some bytes =>
      exact decidable_of_iff
        ((hashOf blake3 bytes).hash = ref.hash) (by simp)

def namesOther (s : BlobState) : Bool :=
  s.world.returned.any fun ref =>
    !decide (Names sampleDigest s.world.store.objects ref)

instance
    (w : BlobWorld) (t : Nat) (file : FileHandle)
    (offset n : Nat) :
    Decidable (FindsHashed w t file offset n) := by
  unfold FindsHashed
  infer_instance

instance
    (t : Nat) (r : BlobReq) (k : BlobChoice) (w : BlobWorld) :
    Decidable (ReadsHashed t r k w) := by
  unfold ReadsHashed
  split <;> infer_instance

def readsHashed (s : BlobState) : BlobAction → Bool
  | .serve t k =>
      match s.threads t with
      | .busy _ _ (.ask r _) => ReadsHashed t r k s.world
      | _ => true
  | _ => true

theorem permitted_of_readsHashed
    {s : BlobState} {a : BlobAction}
    (h : readsHashed s a = true) :
    blobLimits.Permitted s a := by
  cases a with
  | serve t k =>
      intro call v r cont hThread
      simp only [readsHashed, hThread, decide_eq_true_eq] at h
      exact h
  | env e => trivial
  | call t call => exact fun _ _ => trivial
  | finish t => trivial
  | halt t => trivial

end S4Drive

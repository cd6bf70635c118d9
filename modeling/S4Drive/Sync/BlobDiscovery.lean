import Mathlib.Data.String.Basic
import S4Drive.Library.PagedListings
import S4Drive.Sync.BlobReferences

/-
  Which blobs of the bucket may be garbage is found out bit
  by bit: a pass lists a page or two of their keys, records
  those that are blobs, and keeps how far it has come. It may
  be interrupted anywhere, and keys may come and go. A round
  goes from the start to where the listing ends.

  A pass that has recorded enough stops within a page. If it
  is the last page, the rest of it is passed over, since the
  round ends nevertheless; all other blobs are found. Until a
  candidate may be deleted, and what it is then, is left out.

  Main declarations:
    * `discoverRemoteBlobCandidates`
    * `Pass`, `performed`, `LastPagesFit`
    * `Covers`, `covers_discoverPages`, `covers_performed`
    * `completed_le`, `blobDiscovery_covers`
-/

open PagedListings

------------------------------------------------------------
-- A Pass
------------------------------------------------------------

namespace S4Drive

namespace BlobDiscovery

open BlobScan

structure Page where
  keys : List String
  nextContinuationToken : Option String
  isTruncated : Bool
deriving DecidableEq

inductive Effect where
  | upsert (candidate : BlobIdentity)
  | setCheckpoint (value : String)
deriving DecidableEq

structure Processed where
  found : List BlobIdentity
  seen : Nat
  wholePage : Bool
deriving DecidableEq

def processKeys
    (batchLimit : Nat) : Nat → List String → Processed
  | seen, [] => ⟨[], seen, true⟩
  | seen, key :: keys =>
      if batchLimit ≤ seen then
        ⟨[], seen, false⟩
      else
        match parseBlobKey key with
        | none => processKeys batchLimit seen keys
        | some identity =>
            let rest := processKeys batchLimit (seen + 1) keys
            { rest with found := identity :: rest.found }

def noContinuationToken : CoreError :=
  .s3 "blob LIST was truncated without ContinuationToken"

def blobDiscoveryCheckpointAfterLimit
    (pageIsTruncated : Bool)
    (nextContinuationToken : Option String)
    (processedFullPage : Bool) : CoreResult (Option String) :=
  if !pageIsTruncated then
    .ok (some "")
  else if !processedFullPage then
    .ok none
  else
    match nextContinuationToken with
    | none => .error noContinuationToken
    | some next => .ok (some next)

/- With `left` pages to go; what is done, and the count. -/
def discoverPages
    (batchLimit : Nat)
    (answers : Nat → Option String → CoreResult Page) :
    Nat → Nat → Option String → List Effect × CoreResult Nat
  | 0, seen, _ => ([], .ok seen)
  | left + 1, seen, cursor =>
      match answers left cursor with
      | .error e => ([], .error e)
      | .ok page =>
          let processed := processKeys batchLimit seen page.keys
          let found := processed.found.map Effect.upsert
          if batchLimit ≤ processed.seen then
            match blobDiscoveryCheckpointAfterLimit
                page.isTruncated page.nextContinuationToken
                processed.wholePage with
            | .error e => (found, .error e)
            | .ok none => (found, .ok processed.seen)
            | .ok (some checkpoint) =>
                (found ++ [.setCheckpoint checkpoint],
                  .ok processed.seen)
          else if page.isTruncated then
            match page.nextContinuationToken with
            | none => (found, .error noContinuationToken)
            | some next =>
                let rest := discoverPages batchLimit answers left
                  processed.seen (some next)
                (found ++ .setCheckpoint next :: rest.1, rest.2)
          else
            (found ++ [.setCheckpoint ""], .ok processed.seen)

def maxPagesPerPass : Nat := 2

def batchLimit (batchSize : Nat) : Nat := max batchSize 1

def pageSize (batchSize : Nat) : Nat :=
  max 1 (min batchSize 1000)

/- An empty checkpoint is the start. -/
def cursorOf (checkpoint : Option String) : Option String :=
  checkpoint.filter (· ≠ "")

theorem cursorOf_some
    {value : String}
    (h : value ≠ "") : cursorOf (some value) = some value := by
  simp [cursorOf, h]

/- With what answers the LIST, given the pages that are left. -/
def discoverRemoteBlobCandidates
    (batchSize : Nat)
    (answers : Nat → Option String → CoreResult Page)
    (checkpoint : Option String) :
    List Effect × CoreResult Nat :=
  discoverPages (batchLimit batchSize) answers maxPagesPerPass 0
    (cursorOf checkpoint)

/- The keys that are there when a page is listed. -/
structure Pass where
  stores : Nat → List String
  answers : Nat → Option String → CoreResult Page
  -- How much is done before the pass is interrupted.
  cut : Nat

def checkpointAfter
    (checkpoint : Option String) :
    List Effect → Option String
  | [] => checkpoint
  | .upsert _ :: rest => checkpointAfter checkpoint rest
  | .setCheckpoint value :: rest =>
      checkpointAfter (some value) rest

def Pass.effects
    (batchSize : Nat)
    (checkpoint : Option String)
    (pass : Pass) : List Effect :=
  (discoverRemoteBlobCandidates batchSize pass.answers
    checkpoint).1.take pass.cut

/- What is done by passes, each from the last checkpoint. -/
def performed
    (batchSize : Nat) :
    Option String → List Pass → List Effect
  | _, [] => []
  | checkpoint, pass :: rest =>
      let effects := pass.effects batchSize checkpoint
      effects ++
        performed batchSize (checkpointAfter checkpoint effects)
          rest

/- A pass that nothing interrupts, neither error nor end. -/
def Pass.Completes
    (batchSize : Nat)
    (checkpoint : Option String)
    (pass : Pass) : Prop :=
  let run := discoverRemoteBlobCandidates batchSize pass.answers
    checkpoint
  run.1.length ≤ pass.cut ∧ run.2.isOk

instance
    (batchSize : Nat)
    (checkpoint : Option String)
    (pass : Pass) :
    Decidable (pass.Completes batchSize checkpoint) :=
  inferInstanceAs (Decidable (_ ∧ _))

def completed
    (batchSize : Nat) : Option String → List Pass → Nat
  | _, [] => 0
  | checkpoint, pass :: rest =>
      (if pass.Completes batchSize checkpoint then 1 else 0) +
        completed batchSize
          (checkpointAfter checkpoint
            (pass.effects batchSize checkpoint)) rest

section Listings

/- The key after which a token goes on. -/
variable (resume : String → String)

/- What a LIST answers: a page, with a token if there is more. -/
structure Answers
    (size : Nat)
    (store : List String)
    (cursor : Option String)
    (page : Page) : Prop where
  isPage : IsPage store (cursor.map resume) size page.keys
    page.isTruncated
  next : page.isTruncated → ∃ token,
    page.nextContinuationToken = some token ∧ token ≠ "" ∧
      page.keys.getLast? = some (resume token)

structure Pass.Lists
    (batchSize : Nat)
    (pass : Pass) : Prop where
  sorted : ∀ left, (pass.stores left).Pairwise (· < ·)
  answers : ∀ left cursor page,
    pass.answers left cursor = .ok page →
      Answers resume (pageSize batchSize) (pass.stores left)
        cursor page

end Listings

def blobsIn (keys : List String) : List BlobIdentity :=
  keys.filterMap parseBlobKey

/- The limit has room for the blobs of the listing's last page. -/
def LastPageFits
    (batchLimit : Nat)
    (answers : Nat → Option String → CoreResult Page) :
    Nat → Nat → Option String → Prop
  | 0, _, _ => True
  | left + 1, seen, cursor =>
      match answers left cursor with
      | .error _ => True
      | .ok page =>
          let after := seen + (blobsIn page.keys).length
          (page.isTruncated ∨ after ≤ batchLimit) ∧
            (page.isTruncated → after < batchLimit →
              ∀ next ∈ page.nextContinuationToken,
                LastPageFits batchLimit answers left after
                  (some next))

def LastPagesFit
    (batchSize : Nat) : Option String → List Pass → Prop
  | _, [] => True
  | checkpoint, pass :: rest =>
      LastPageFits (batchLimit batchSize) pass.answers
          maxPagesPerPass 0 (cursorOf checkpoint) ∧
        LastPagesFit batchSize
          (checkpointAfter checkpoint
            (pass.effects batchSize checkpoint)) rest

/- The first keys after a cursor, which is a key itself. -/
def pageOf
    (size : Nat)
    (store : List String)
    (cursor : Option String) : Page :=
  let rest := later store cursor
  let more : Bool := size < rest.length
  ⟨rest.take size,
    if more then (rest.take size).getLast? else none, more⟩

def listingPass
    (size : Nat)
    (store : List String)
    (cut : Nat) : Pass :=
  ⟨fun _ => store, fun _ cursor => .ok (pageOf size store cursor),
    cut⟩

variable {limit seen left batchSize : Nat}
variable {keys : List String} {cursor : Option String}

theorem found_of_room
    (h : seen + (blobsIn keys).length ≤ limit) :
    (processKeys limit seen keys).found = blobsIn keys := by
  induction keys generalizing seen with
  | nil => rfl
  | cons key keys ih =>
      rw [processKeys]
      cases hParse : parseBlobKey key with
      | none =>
          have hSame : blobsIn (key :: keys) = blobsIn keys :=
            List.filterMap_cons_none hParse
          rw [hSame] at h ⊢
          split
          · -- The limit is met, and no blobs are left.
            have hNone : (blobsIn keys).length = 0 := by omega
            exact (List.length_eq_zero_iff.mp hNone).symm
          · exact ih h
      | some identity =>
          have hOne : blobsIn (key :: keys) =
              identity :: blobsIn keys :=
            List.filterMap_cons_some hParse
          rw [hOne] at h ⊢
          rw [List.length_cons] at h
          rw [if_neg (by omega)]
          exact congrArg (identity :: ·) (ih (by omega))

/- As many keys as the limit are never too many. -/
theorem wholePage_of_room
    (h : seen + keys.length ≤ limit) :
    (processKeys limit seen keys).wholePage := by
  induction keys generalizing seen with
  | nil => rfl
  | cons key keys ih =>
      rw [List.length_cons] at h
      rw [processKeys, if_neg (by omega)]
      cases parseBlobKey key with
      | none => exact ih (by omega)
      | some identity => exact ih (by omega)

theorem processKeys_of_whole
    (h : (processKeys limit seen keys).wholePage) :
    (processKeys limit seen keys).found = blobsIn keys ∧
      (processKeys limit seen keys).seen =
        seen + (blobsIn keys).length := by
  induction keys generalizing seen with
  | nil => exact ⟨rfl, rfl⟩
  | cons key keys ih =>
      rw [processKeys] at h ⊢
      by_cases hFull : limit ≤ seen
      · rw [if_pos hFull] at h
        cases h
      rw [if_neg hFull] at h ⊢
      cases hParse : parseBlobKey key with
      | none =>
          rw [hParse] at h
          simpa [blobsIn, hParse] using ih h
      | some identity =>
          rw [hParse] at h
          obtain ⟨hFound, hSeen⟩ := ih h
          simp [blobsIn, hParse] at hFound hSeen ⊢
          exact ⟨hFound, by omega⟩

/- A pass only stops within a page where the limit is met. -/
theorem wholePage_of_less
    (h : (processKeys limit seen keys).seen < limit) :
    (processKeys limit seen keys).wholePage := by
  induction keys generalizing seen with
  | nil => rfl
  | cons key keys ih =>
      rw [processKeys] at h ⊢
      by_cases hFull : limit ≤ seen
      · rw [if_pos hFull] at h
        exact absurd h (Nat.not_lt.mpr hFull)
      rw [if_neg hFull] at h ⊢
      cases hParse : parseBlobKey key with
      | none =>
          rw [hParse] at h
          exact ih h
      | some identity =>
          rw [hParse] at h
          exact ih h

theorem pageSize_le (batchSize : Nat) :
    pageSize batchSize ≤ batchLimit batchSize := by
  unfold pageSize batchLimit
  omega

theorem parseBlobKey_key
    {key : String} {identity : BlobIdentity}
    (h : parseBlobKey key = some identity) :
    identity.key = key := by
  unfold parseBlobKey at h
  split at h
  · dsimp only at h
    split at h
    · cases h
    · split at h
      · cases h
      · split at h
        · cases h
        · obtain ⟨blobId, -, rfl⟩ := Option.map_eq_some_iff.mp h
          rfl
  · cases h

------------------------------------------------------------
-- Covered Keys
------------------------------------------------------------

section Covers

variable {resume : String → String} {stands : String → Prop}
variable {found : List String} {effects rest : List Effect}

/-
  What stands up to a checkpoint has been found when it is
  set, in the round that it belongs to.
-/
def Covers
    (resume : String → String)
    (stands : String → Prop) :
    List String → List Effect → Prop
  | _, [] => True
  | found, .upsert candidate :: rest =>
      Covers resume stands (candidate.key :: found) rest
  | found, .setCheckpoint value :: rest =>
      if value = "" then
        (∀ key, stands key → key ∈ found) ∧
          Covers resume stands [] rest
      else
        (∀ key, stands key → key ≤ resume value →
          key ∈ found) ∧ Covers resume stands found rest

/- The same of a cursor that is read. -/
def UpTo
    (resume : String → String)
    (stands : String → Prop)
    (cursor : Option String)
    (found : List String) : Prop :=
  ∀ key, stands key → ¬After (cursor.map resume) key →
    key ∈ found

/- What has been found in the round that goes on. -/
def foundAfter (found : List String) :
    List Effect → List String
  | [] => found
  | .upsert candidate :: rest =>
      foundAfter (candidate.key :: found) rest
  | .setCheckpoint value :: rest =>
      foundAfter (if value = "" then [] else found) rest

theorem covers_take
    (h : Covers resume stands found effects)
    (cut : Nat) :
    Covers resume stands found (effects.take cut) := by
  induction effects generalizing found cut with
  | nil => cases cut <;> trivial
  | cons effect rest ih =>
      cases cut with
      | zero => trivial
      | succ cut =>
          rw [List.take_succ_cons]
          cases effect with
          | upsert candidate => exact ih h cut
          | setCheckpoint value =>
              rw [Covers] at h ⊢
              split at h
              · rename_i hEnd
                rw [if_pos hEnd]
                exact ⟨h.1, ih h.2 cut⟩
              · rename_i hOn
                rw [if_neg hOn]
                exact ⟨h.1, ih h.2 cut⟩

theorem covers_append
    (h : Covers resume stands found effects)
    (hRest :
      Covers resume stands (foundAfter found effects) rest) :
    Covers resume stands found (effects ++ rest) := by
  induction effects generalizing found with
  | nil => exact hRest
  | cons effect more ih =>
      rw [List.cons_append]
      cases effect with
      | upsert candidate => exact ih h hRest
      | setCheckpoint value =>
          rw [Covers] at h ⊢
          rw [foundAfter] at hRest
          split at h
          · rename_i hEnd
            rw [if_pos hEnd] at hRest ⊢
            exact ⟨h.1, ih h.2 hRest⟩
          · rename_i hOn
            rw [if_neg hOn] at hRest ⊢
            exact ⟨h.1, ih h.2 hRest⟩

/- The next pass reads a cursor up to which all is found. -/
theorem upTo_after
    {checkpoint : Option String}
    (h : Covers resume stands found effects)
    (hUpTo : UpTo resume stands (cursorOf checkpoint) found) :
    UpTo resume stands
      (cursorOf (checkpointAfter checkpoint effects))
      (foundAfter found effects) := by
  induction effects generalizing found checkpoint with
  | nil => exact hUpTo
  | cons effect rest ih =>
      cases effect with
      | upsert candidate =>
          exact ih h fun key hStands hBefore =>
            List.mem_cons_of_mem _ (hUpTo key hStands hBefore)
      | setCheckpoint value =>
          rw [Covers] at h
          rw [checkpointAfter, foundAfter]
          split at h
          · rename_i hEnd
            rw [if_pos hEnd]
            refine ih h.2 fun key _ hBefore => ?_
            rw [hEnd] at hBefore
            exact absurd trivial hBefore
          · rename_i hOn
            rw [if_neg hOn]
            refine ih h.2 fun key hStands hBefore => ?_
            rw [cursorOf_some hOn] at hBefore
            exact h.1 key hStands (le_of_not_gt hBefore)

/- A round that ends has found all that stands. -/
theorem found_of_covers
    {key : String}
    (h : Covers resume stands found
      (effects ++ [.setCheckpoint ""]))
    (hOpen : .setCheckpoint "" ∉ effects)
    (hStands : stands key) :
    key ∈ found ∨ ∃ candidate,
      .upsert candidate ∈ effects ∧ candidate.key = key := by
  induction effects generalizing found with
  | nil => exact .inl (h.1 key hStands)
  | cons effect rest ih =>
      have hRest : .setCheckpoint "" ∉ rest := fun hMem =>
        hOpen (List.mem_cons_of_mem _ hMem)
      cases effect with
      | upsert candidate =>
          rcases ih h hRest with hFound | ⟨other, hMem, hKey⟩
          · rcases List.mem_cons.mp hFound with rfl | hBefore
            · exact .inr ⟨candidate, List.mem_cons_self, rfl⟩
            · exact .inl hBefore
          · exact .inr
              ⟨other, List.mem_cons_of_mem _ hMem, hKey⟩
      | setCheckpoint value =>
          have hOn : value ≠ "" := by
            rintro rfl
            exact hOpen List.mem_cons_self
          rw [List.cons_append, Covers, if_neg hOn] at h
          rcases ih h.2 hRest with hFound | ⟨other, hMem, hKey⟩
          · exact .inl hFound
          · exact .inr
              ⟨other, List.mem_cons_of_mem _ hMem, hKey⟩

/- Whatever is recorded of a page, and what comes then. -/
theorem covers_upserts
    {candidates : List BlobIdentity}
    (h : ∀ more, (∀ key, key ∈ more ↔
        key ∈ found ∨ ∃ candidate ∈ candidates,
          candidate.key = key) →
      Covers resume stands more effects) :
    Covers resume stands found
      (candidates.map Effect.upsert ++ effects) := by
  induction candidates generalizing found with
  | nil => exact h found (by simp)
  | cons candidate rest ih =>
      refine ih fun more hMore => h more fun key => ?_
      rw [hMore]
      simp only [List.mem_cons]
      grind

end Covers

------------------------------------------------------------
-- Coverage
------------------------------------------------------------

section Coverage

variable {resume : String → String} {stands : String → Prop}
variable {found : List String} {pass : Pass}
variable {page : Page} {store : List String} {size : Nat}

/- The keys of a page that is recorded as a whole. -/
def FoundWith
    (found : List String)
    (page : Page)
    (more : List String) : Prop :=
  ∀ key, key ∈ more ↔ key ∈ found ∨
    ∃ candidate ∈ blobsIn page.keys, candidate.key = key

theorem mem_of_page
    {key : String} {more : List String}
    (hPage : Answers resume size store cursor page)
    (hSorted : store.Pairwise (· < ·))
    (hStands : ∀ key, stands key →
      key ∈ store ∧ (parseBlobKey key).isSome)
    (hUpTo : UpTo resume stands cursor found)
    (hMore : FoundWith found page more)
    (hKey : stands key)
    (hReached : page.isTruncated = false ∨
      ∃ token, page.keys.getLast? = some (resume token) ∧
        key ≤ resume token) : key ∈ more := by
  obtain ⟨hThere, hBlob⟩ := hStands key hKey
  rw [hMore]
  by_cases hAfter : After (cursor.map resume) key
  · right
    have hMem : key ∈ page.keys := by
      rcases hReached with hEnd | ⟨token, hLast, hLess⟩
      · exact hPage.isPage.mem_of_whole hEnd hThere hAfter
      · exact hPage.isPage.mem_of_le_last hSorted hLast hThere
          hAfter hLess
    obtain ⟨candidate, hParse⟩ :=
      Option.isSome_iff_exists.mp hBlob
    exact ⟨candidate,
      List.mem_filterMap.mpr ⟨key, hMem, hParse⟩,
      parseBlobKey_key hParse⟩
  · exact .inl (hUpTo key hKey hAfter)

theorem covers_discoverPages
    (hLists : pass.Lists resume batchSize)
    (hStands : ∀ key, stands key →
      (∀ left, key ∈ pass.stores left) ∧
        (parseBlobKey key).isSome)
    (hUpTo : UpTo resume stands cursor found)
    (hFits : LastPageFits limit pass.answers left seen cursor) :
    Covers resume stands found
      (discoverPages limit pass.answers left seen cursor).1 := by
  induction left generalizing seen cursor found with
  | zero => trivial
  | succ left ih =>
      rw [LastPageFits] at hFits
      rw [discoverPages]
      cases hAnswer : pass.answers left cursor with
      | error e => trivial
      | ok page =>
          rw [hAnswer] at hFits
          obtain ⟨hLast, hNext⟩ := hFits
          have hPage := hLists.answers left cursor page hAnswer
          have hHere : ∀ key, stands key →
              key ∈ pass.stores left ∧
                (parseBlobKey key).isSome := fun key hKey =>
            ⟨(hStands key hKey).1 left, (hStands key hKey).2⟩
          have hEnd (more : List String)
              (hMore : FoundWith found page more)
              (hDone : page.isTruncated = false) :
              Covers resume stands more [.setCheckpoint ""] :=
            ⟨fun key hKey =>
              mem_of_page hPage (hLists.sorted left) hHere hUpTo
                hMore hKey (.inl hDone), trivial⟩
          have hOn (more : List String) (token : String)
              (hMore : FoundWith found page more)
              (hToken :
                page.keys.getLast? = some (resume token)) :
              UpTo resume stands (some token) more :=
            fun key hKey hBefore =>
              mem_of_page hPage (hLists.sorted left) hHere hUpTo
                hMore hKey
                (.inr ⟨token, hToken, le_of_not_gt hBefore⟩)
          dsimp only
          cases hMore : page.isTruncated with
          | false =>
              have hRoom := hLast.resolve_left
                (Bool.not_eq_true _ ▸ hMore)
              rw [found_of_room hRoom]
              split <;>
                exact covers_upserts fun more hFoundWith =>
                  hEnd more hFoundWith hMore
          | true =>
              by_cases hWhole :
                  (processKeys limit seen page.keys).wholePage
              · obtain ⟨hFound, hSeen⟩ :=
                  processKeys_of_whole hWhole
                obtain ⟨token, hToken, hSome, hKey⟩ :=
                  hPage.next hMore
                rw [hFound, hSeen, hWhole, hToken]
                have hMark (more : List String)
                    (rest : List Effect)
                    (hFoundWith : FoundWith found page more)
                    (hRest : Covers resume stands more rest) :
                    Covers resume stands more
                      (.setCheckpoint token :: rest) := by
                  rw [Covers, if_neg hSome]
                  exact ⟨fun key hStanding hLess =>
                    hOn more token hFoundWith hKey key hStanding
                      (not_lt_of_ge hLess), hRest⟩
                split
                · exact covers_upserts fun more hFoundWith =>
                    hMark more [] hFoundWith trivial
                · rename_i hLess
                  refine covers_upserts fun more hFoundWith =>
                    hMark more _ hFoundWith
                      (ih (hOn more token hFoundWith hKey) ?_)
                  exact hNext hMore (not_le.mp hLess) token hToken
              · -- The page is not gone past.
                have hFull : limit ≤
                    (processKeys limit seen page.keys).seen :=
                  not_lt.mp fun hLess =>
                    hWhole (wholePage_of_less hLess)
                rw [if_pos hFull, Bool.eq_false_iff.mpr hWhole]
                have hOnly :
                    Covers resume stands found
                      ((processKeys limit seen
                        page.keys).found.map Effect.upsert ++ []) :=
                  covers_upserts fun _ _ => trivial
                rwa [List.append_nil] at hOnly

theorem covers_performed
    {checkpoint : Option String} {passes : List Pass}
    (hLists : ∀ pass ∈ passes, pass.Lists resume batchSize)
    (hStands : ∀ key, stands key →
      (∀ pass ∈ passes, ∀ left, key ∈ pass.stores left) ∧
        (parseBlobKey key).isSome)
    (hUpTo : UpTo resume stands (cursorOf checkpoint) found)
    (hFits : LastPagesFit batchSize checkpoint passes) :
    Covers resume stands found
      (performed batchSize checkpoint passes) := by
  induction passes generalizing checkpoint found with
  | nil => trivial
  | cons pass rest ih =>
      have hPass : Covers resume stands found
          (pass.effects batchSize checkpoint) :=
        covers_take (covers_discoverPages
          (hLists pass List.mem_cons_self)
          (fun key hKey =>
            ⟨(hStands key hKey).1 pass List.mem_cons_self,
              (hStands key hKey).2⟩) hUpTo hFits.1) pass.cut
      refine covers_append hPass (ih ?_ ?_
        (upTo_after hPass hUpTo) hFits.2)
      · exact fun other hMem =>
          hLists other (List.mem_cons_of_mem _ hMem)
      · exact fun key hKey =>
          ⟨fun other hMem => (hStands key hKey).1 other
            (List.mem_cons_of_mem _ hMem), (hStands key hKey).2⟩

end Coverage

------------------------------------------------------------
-- Progress
------------------------------------------------------------

section Progress

variable {resume : String → String} {pass : Pass}
variable {all : Finset String} {value : String}
variable {checkpoint : Option String} {effects : List Effect}

/- A checkpoint is the end, or behind where a pass started. -/
theorem checkpoint_ahead
    (hLists : pass.Lists resume batchSize)
    (hAll : ∀ left, ∀ key ∈ pass.stores left, key ∈ all)
    (hMem : .setCheckpoint value ∈
      (discoverPages limit pass.answers left seen cursor).1) :
    value = "" ∨ resume value ∈ all ∧
      After (cursor.map resume) (resume value) := by
  induction left generalizing seen cursor with
  | zero => cases hMem
  | succ left ih =>
      rw [discoverPages] at hMem
      cases hAnswer : pass.answers left cursor with
      | error e =>
          rw [hAnswer] at hMem
          cases hMem
      | ok page =>
          rw [hAnswer] at hMem
          have hPage := hLists.answers left cursor page hAnswer
          have hToken (hMore : page.isTruncated = true)
              (token : String)
              (hNext :
                page.nextContinuationToken = some token) :
              resume token ∈ all ∧
                After (cursor.map resume) (resume token) := by
            obtain ⟨next, hSome, -, hLast⟩ := hPage.next hMore
            rw [hNext] at hSome
            cases hSome
            obtain ⟨hThere, hAfter⟩ :=
              hPage.isPage.of_mem (List.mem_of_getLast? hLast)
            exact ⟨hAll left _ hThere, hAfter⟩
          dsimp only at hMem
          split at hMem
          · unfold blobDiscoveryCheckpointAfterLimit at hMem
            split at hMem
            · simp at hMem
            · simp at hMem
            · rename_i mark hMark
              have hValue : value = mark := by simpa using hMem
              split at hMark
              · cases hMark
                exact .inl hValue
              · rename_i hMore
                split at hMark
                · cases hMark
                · split at hMark
                  · cases hMark
                  · rename_i next hNext
                    cases hMark
                    exact .inr (hValue ▸
                      hToken (by simpa using hMore) _ hNext)
          · split at hMem
            · rename_i hMore
              split at hMem
              · simp at hMem
              · rename_i next hNext
                have hHere := hToken hMore next hNext
                rcases List.mem_append.mp hMem with hNot | hRest
                · simp at hNot
                rcases List.mem_cons.mp hRest with hSame | hLater
                · cases hSame
                  exact .inr hHere
                · refine (ih hLater).imp_right fun hAhead =>
                    ⟨hAhead.1, ?_⟩
                  cases cursor with
                  | none => trivial
                  | some token =>
                      exact lt_trans hHere.2 hAhead.2
            · exact .inl (by simpa using hMem)

/- A pass that completes sets a checkpoint. -/
theorem checkpoint_of_completes
    (hLists : pass.Lists resume batchSize)
    (h : pass.Completes batchSize checkpoint) :
    ∃ value,
      .setCheckpoint value ∈ pass.effects batchSize checkpoint := by
  obtain ⟨hCut, hOk⟩ := h
  rw [Pass.effects, List.take_of_length_le hCut]
  clear hCut
  unfold discoverRemoteBlobCandidates maxPagesPerPass at hOk ⊢
  rw [discoverPages] at hOk ⊢
  cases hAnswer : pass.answers 1 (cursorOf checkpoint) with
  | error e =>
      rw [hAnswer] at hOk
      cases hOk
  | ok page =>
      have hPage := hLists.answers 1 _ page hAnswer
      have hFew := hPage.isPage.notMore
      have hLimit := pageSize_le batchSize
      have hWhole :
          (processKeys (batchLimit batchSize) 0
            page.keys).wholePage :=
        wholePage_of_room (by omega)
      dsimp only
      rw [hWhole]
      cases hMore : page.isTruncated with
      | false =>
          refine ⟨"", ?_⟩
          split <;> simp [blobDiscoveryCheckpointAfterLimit]
      | true =>
          obtain ⟨token, hToken, -, -⟩ := hPage.next hMore
          refine ⟨token, ?_⟩
          rw [hToken]
          split <;> simp [blobDiscoveryCheckpointAfterLimit]

theorem checkpointAfter_cases
    (checkpoint : Option String)
    (effects : List Effect) :
    (checkpointAfter checkpoint effects = checkpoint ∧
        ∀ value, .setCheckpoint value ∉ effects) ∨
      ∃ value, .setCheckpoint value ∈ effects ∧
        checkpointAfter checkpoint effects = some value := by
  induction effects generalizing checkpoint with
  | nil => exact .inl ⟨rfl, by simp⟩
  | cons effect rest ih =>
      cases effect with
      | upsert candidate =>
          simpa [checkpointAfter] using ih checkpoint
      | setCheckpoint value =>
          right
          rcases ih (some value) with
            ⟨hSame, -⟩ | ⟨later, hMem, hLater⟩
          · exact ⟨value, List.mem_cons_self, hSame⟩
          · exact ⟨later, List.mem_cons_of_mem _ hMem, hLater⟩

/- Until the end is reached, every whole pass goes on. -/
theorem completed_le
    {passes : List Pass}
    (hLists : ∀ pass ∈ passes, pass.Lists resume batchSize)
    (hAll : ∀ pass ∈ passes, ∀ left, ∀ key ∈ pass.stores left,
      key ∈ all)
    (hOpen : .setCheckpoint "" ∉
      performed batchSize checkpoint passes) :
    completed batchSize checkpoint passes ≤
      ahead all ((cursorOf checkpoint).map resume) := by
  induction passes generalizing checkpoint with
  | nil => exact Nat.zero_le _
  | cons pass rest ih =>
      have hLater := ih
        (fun other hMem =>
          hLists other (List.mem_cons_of_mem _ hMem))
        (fun other hMem =>
          hAll other (List.mem_cons_of_mem _ hMem))
        (fun hMem => hOpen (List.mem_append_right _ hMem))
      have hPass := hLists pass List.mem_cons_self
      rw [completed]
      rcases checkpointAfter_cases checkpoint
          (pass.effects batchSize checkpoint) with
        ⟨hSame, hNone⟩ | ⟨value, hMem, hValue⟩
      · have hNot : ¬pass.Completes batchSize checkpoint := by
          intro hCompletes
          obtain ⟨value, hMem⟩ :=
            checkpoint_of_completes hPass hCompletes
          exact hNone value hMem
        rw [if_neg hNot, Nat.zero_add]
        rwa [hSame] at hLater ⊢
      · have hOn : value ≠ "" := by
          rintro rfl
          exact hOpen (List.mem_append_left _ hMem)
        obtain ⟨hThere, hAfter⟩ :=
          (checkpoint_ahead hPass
            (hAll pass List.mem_cons_self)
            (List.mem_of_mem_take hMem)).resolve_left hOn
        rw [hValue, cursorOf_some hOn] at hLater
        have hLess := ahead_lt hThere hAfter
        have hOne :
            (if pass.Completes batchSize checkpoint then 1
              else 0) ≤ 1 := by
          split <;> omega
        rw [hValue]
        exact le_trans (Nat.add_le_add hOne hLater)
          (by rw [Nat.add_comm]; exact hLess)

end Progress

------------------------------------------------------------
-- Rounds
------------------------------------------------------------

/-
  A round that ends has found every blob that was there all
  along, if no pass stopped within the last page; and passes
  that complete come to the end, one for each key at most.
-/
theorem blobDiscovery_covers
    (resume : String → String)
    (batchSize : Nat)
    (checkpoint : Option String)
    (passes : List Pass)
    (hStart : cursorOf checkpoint = none)
    (hLists : ∀ pass ∈ passes, pass.Lists resume batchSize) :
    (LastPagesFit batchSize checkpoint passes →
      ∀ effects,
        performed batchSize checkpoint passes =
            effects ++ [.setCheckpoint ""] →
          .setCheckpoint "" ∉ effects →
          ∀ key, (parseBlobKey key).isSome →
            (∀ pass ∈ passes, ∀ left,
              key ∈ pass.stores left) →
            ∃ candidate, .upsert candidate ∈ effects ∧
              candidate.key = key) ∧
    ∀ all : Finset String,
      (∀ pass ∈ passes, ∀ left, ∀ key ∈ pass.stores left,
        key ∈ all) →
      .setCheckpoint "" ∉
        performed batchSize checkpoint passes →
      completed batchSize checkpoint passes ≤ all.card := by
  constructor
  · intro hFits effects hRound hOpen key hBlob hThere
    let stands (key : String) : Prop :=
      (∀ pass ∈ passes, ∀ left, key ∈ pass.stores left) ∧
        (parseBlobKey key).isSome
    have hUpTo :
        UpTo resume stands (cursorOf checkpoint) [] := by
      rw [hStart]
      exact fun key _ hBefore => absurd trivial hBefore
    have hCovers :=
      covers_performed hLists (fun _ h => h) hUpTo hFits
    rw [hRound] at hCovers
    rcases found_of_covers hCovers hOpen ⟨hThere, hBlob⟩ with
      hFound | hUpsert
    · cases hFound
    · exact hUpsert
  · intro all hAll hOpen
    have hCount := completed_le hLists hAll hOpen
    exact le_trans hCount (Finset.card_filter_le _ _)

/- What there is may be listed with its keys as tokens. -/
theorem listingPass_lists
    {store : List String} {size : Nat}
    (hSorted : store.Pairwise (· < ·))
    (hNames : "" ∉ store)
    (hPos : 1 ≤ size)
    (hSize : size ≤ pageSize batchSize)
    (cut : Nat) :
    (listingPass size store cut).Lists id batchSize := by
  refine ⟨fun _ => hSorted, fun _ cursor page hAnswer => ?_⟩
  obtain rfl := (Except.ok.inj hAnswer).symm
  have hSame : cursor.map id = cursor := Option.map_id_apply
  have hSome (hMore : size < (later store cursor).length) :
      ((later store cursor).take size) ≠ [] := by
    intro hNone
    have hLength := congrArg List.length hNone
    rw [List.length_take, List.length_nil] at hLength
    omega
  refine ⟨⟨?_, ?_, fun hMore => ?_, fun hEnd => ?_⟩,
    fun hMore => ?_⟩
  · rw [hSame]
    exact List.take_prefix _ _
  · exact le_trans (List.length_take_le _ _) hSize
  · exact hSome (of_decide_eq_true hMore)
  · rw [hSame]
    exact List.take_of_length_le
      (not_lt.mp (of_decide_eq_false hEnd))
  · obtain ⟨front, token, hKeys⟩ := List.eq_nil_or_concat'
      ((later store cursor).take size) |>.resolve_left
        (hSome (of_decide_eq_true hMore))
    have hLast :
        ((later store cursor).take size).getLast? =
          some token := by
      rw [hKeys]
      exact List.getLast?_concat
    refine ⟨token, (if_pos hMore).trans hLast, ?_, hLast⟩
    rintro rfl
    have hMem := List.mem_of_mem_take
      (List.mem_of_getLast? hLast)
    exact hNames (List.mem_filter.mp hMem).1

def blobKeyOf (digit : Char) : String :=
  String.ofList (blobsFolder ++ ([digit, digit, '/'] ++
    List.replicate 64 digit))

theorem blobKeyOf_lt
    {digit other : Char}
    (h : digit < other) : blobKeyOf digit < blobKeyOf other := by
  rw [String.lt_iff_toList_lt]
  unfold blobKeyOf
  rw [String.toList_ofList, String.toList_ofList]
  exact List.append_left_lt
    (List.cons_lt_cons_iff.mpr (.inl h))

theorem blobKeyOf_ne (digit : Char) : blobKeyOf digit ≠ "" := by
  intro h
  have hLength := congrArg (List.length ∘ String.toList) h
  simp [blobKeyOf] at hLength

theorem blobKeyOf_isBlob
    {digit : Char}
    (h : digit ∈ ['0', '1', '2']) :
    ∃ identity,
      parseBlobKey (blobKeyOf digit) = some identity := by
  refine Option.isSome_iff_exists.mp ?_
  unfold parseBlobKey blobKeyOf
  rw [String.toList_ofList]
  simp only [List.mem_cons, List.not_mem_nil, or_false] at h
  rcases h with rfl | rfl | rfl <;> decide +kernel

def threeBlobs : List String :=
  ['0', '1', '2'].map blobKeyOf

theorem threeBlobs_sorted : threeBlobs.Pairwise (· < ·) := by
  have hDigits : ['0', '1', '2'].Pairwise (· < ·) := by decide
  exact List.pairwise_map.mpr (hDigits.imp blobKeyOf_lt)

/- Of three blobs two fit, and the first pass is interrupted. -/
def interruptedPasses : List Pass :=
  [1, 9, 9].map (listingPass 2 threeBlobs)

theorem blobDiscovery_covers_three :
    (∃ effects,
      performed 2 none interruptedPasses =
          effects ++ [.setCheckpoint ""] ∧
        ∀ key ∈ threeBlobs, ∃ candidate,
          .upsert candidate ∈ effects ∧ candidate.key = key) ∧
      completed 2 none (interruptedPasses.take 2) ≤ 3 := by
  obtain ⟨x, hX⟩ := blobKeyOf_isBlob (show '0' ∈ _ by decide)
  obtain ⟨y, hY⟩ := blobKeyOf_isBlob (show '1' ∈ _ by decide)
  obtain ⟨z, hZ⟩ := blobKeyOf_isBlob (show '2' ∈ _ by decide)
  have hXY : ¬blobKeyOf '1' < blobKeyOf '0' :=
    not_lt_of_gt (blobKeyOf_lt (by decide))
  have hYZ : blobKeyOf '1' < blobKeyOf '2' :=
    blobKeyOf_lt (by decide)
  have hFirst : pageOf 2 threeBlobs none =
      ⟨[blobKeyOf '0', blobKeyOf '1'], some (blobKeyOf '1'),
        true⟩ := by
    simp [pageOf, later_none, threeBlobs]
  have hSecond : pageOf 2 threeBlobs (some (blobKeyOf '1')) =
      ⟨[blobKeyOf '2'], none, false⟩ := by
    simp only [pageOf, later_some, threeBlobs, List.map,
      List.filter, hXY, hYZ, lt_irrefl, decide_true, decide_false]
    rfl
  have hCursor := cursorOf_some (blobKeyOf_ne '1')
  have hStart : cursorOf none = none := rfl
  have hOne (cut : Nat) :
      (listingPass 2 threeBlobs cut).effects 2 none =
        [.upsert x, .upsert y,
          .setCheckpoint (blobKeyOf '1')].take cut := by
    simp [Pass.effects, discoverRemoteBlobCandidates,
      listingPass, discoverPages, maxPagesPerPass, batchLimit,
      processKeys, blobDiscoveryCheckpointAfterLimit, hX, hY,
      hFirst, hStart]
  have hTwo (cut : Nat) :
      (listingPass 2 threeBlobs cut).effects 2
          (some (blobKeyOf '1')) =
        [.upsert z, .setCheckpoint ""].take cut := by
    simp [Pass.effects, discoverRemoteBlobCandidates,
      listingPass, discoverPages, maxPagesPerPass, batchLimit,
      processKeys, hZ, hSecond, hCursor]
  have hPerformed : performed 2 none interruptedPasses =
      [.upsert x, .upsert x, .upsert y,
        .setCheckpoint (blobKeyOf '1'), .upsert z] ++
          [.setCheckpoint ""] := by
    simp [interruptedPasses, performed, checkpointAfter, hOne,
      hTwo]
  have hOpen : .setCheckpoint "" ∉
      performed 2 none (interruptedPasses.take 2) := by
    simp [interruptedPasses, performed, checkpointAfter, hOne,
      blobKeyOf_ne]
  have hFits : LastPagesFit 2 none interruptedPasses := by
    simp [interruptedPasses, LastPagesFit, checkpointAfter, hOne]
    simp [listingPass, LastPageFits, maxPagesPerPass, batchLimit,
      blobsIn, hX, hY, hZ, hFirst, hSecond, hCursor, hStart]
  have hLists : ∀ pass ∈ interruptedPasses,
      pass.Lists id 2 := by
    intro pass hMem
    obtain ⟨cut, -, rfl⟩ := List.mem_map.mp hMem
    refine listingPass_lists threeBlobs_sorted ?_ (by decide)
      (by decide) cut
    simp [threeBlobs, (blobKeyOf_ne _).symm]
  have hStores : ∀ pass ∈ interruptedPasses, ∀ left,
      pass.stores left = threeBlobs := by
    intro pass hMem left
    obtain ⟨cut, -, rfl⟩ := List.mem_map.mp hMem
    rfl
  have hBlobs : ∀ key ∈ threeBlobs,
      (parseBlobKey key).isSome := by
    simp [threeBlobs, hX, hY, hZ]
  constructor
  · exact ⟨_, hPerformed, fun key hKey =>
      (blobDiscovery_covers id 2 none interruptedPasses rfl
        hLists).1 hFits _ hPerformed
        (by simp [blobKeyOf_ne]) key (hBlobs key hKey)
        fun pass hMem left => hStores pass hMem left ▸ hKey⟩
  · refine le_trans ((blobDiscovery_covers id 2 none
      (interruptedPasses.take 2) rfl fun pass hMem =>
        hLists pass (List.mem_of_mem_take hMem)).2
      threeBlobs.toFinset ?_ hOpen)
      (List.toFinset_card_le threeBlobs)
    intro pass hMem left key hKey
    rw [hStores pass (List.mem_of_mem_take hMem)] at hKey
    exact List.mem_toFinset.mpr hKey

/- The folder of the blobs may have an object of its own. -/
def folderMarker : String := String.ofList blobsFolder

theorem folderMarker_lt (digit : Char) :
    folderMarker < blobKeyOf digit := by
  rw [String.lt_iff_toList_lt]
  unfold folderMarker blobKeyOf
  rw [String.toList_ofList, String.toList_ofList]
  have hLess : [] < [digit, digit, '/'] ++
      List.replicate 64 digit := List.nil_lt_cons _ _
  simpa using List.append_left_lt hLess

def passedOver : Pass :=
  listingPass 2 (folderMarker :: threeBlobs) 9

/- The limit is met within the last page, which has one more. -/
theorem lastPage_passed_over :
    passedOver.Lists id 2 ∧
      ∃ effects,
        performed 2 none [passedOver] =
            effects ++ [.setCheckpoint ""] ∧
          .setCheckpoint "" ∉ effects ∧
          (∀ left, blobKeyOf '2' ∈ passedOver.stores left) ∧
          (parseBlobKey (blobKeyOf '2')).isSome ∧
          ∀ candidate, .upsert candidate ∈ effects →
            candidate.key ≠ blobKeyOf '2' := by
  obtain ⟨x, hX⟩ := blobKeyOf_isBlob (show '0' ∈ _ by decide)
  obtain ⟨y, hY⟩ := blobKeyOf_isBlob (show '1' ∈ _ by decide)
  obtain ⟨z, hZ⟩ := blobKeyOf_isBlob (show '2' ∈ _ by decide)
  have hMarker : parseBlobKey folderMarker = none := by
    unfold parseBlobKey folderMarker
    rw [String.toList_ofList]
    decide +kernel
  have hName : folderMarker ≠ "" := by decide +kernel
  have hX' := parseBlobKey_key hX
  have hY' := parseBlobKey_key hY
  have hXY : blobKeyOf '0' < blobKeyOf '1' :=
    blobKeyOf_lt (by decide)
  have hXZ : blobKeyOf '0' < blobKeyOf '2' :=
    blobKeyOf_lt (by decide)
  have hYZ : blobKeyOf '1' < blobKeyOf '2' :=
    blobKeyOf_lt (by decide)
  have hFirst : pageOf 2 (folderMarker :: threeBlobs) none =
      ⟨[folderMarker, blobKeyOf '0'], some (blobKeyOf '0'),
        true⟩ := by
    simp [pageOf, later_none, threeBlobs]
  have hSecond : pageOf 2 (folderMarker :: threeBlobs)
      (some (blobKeyOf '0')) =
        ⟨[blobKeyOf '1', blobKeyOf '2'], none, false⟩ := by
    simp only [pageOf, later_some, threeBlobs, List.map,
      List.filter, not_lt_of_gt (folderMarker_lt '0'), hXY, hXZ,
      lt_irrefl, decide_true, decide_false]
    rfl
  have hStart : cursorOf none = none := rfl
  have hPerformed : performed 2 none [passedOver] =
      [.upsert x, .setCheckpoint (blobKeyOf '0'), .upsert y] ++
        [.setCheckpoint ""] := by
    simp [passedOver, performed, Pass.effects,
      discoverRemoteBlobCandidates, listingPass, discoverPages,
      maxPagesPerPass, batchLimit, processKeys,
      blobDiscoveryCheckpointAfterLimit, hMarker, hX, hY,
      hFirst, hSecond, hStart]
  refine ⟨?_, _, hPerformed, by simp [blobKeyOf_ne], fun _ => ?_,
    by simp [hZ], fun candidate hMem hKey => ?_⟩
  · refine listingPass_lists ?_ ?_ (by decide) (by decide) 9
    · refine .cons (fun key hKey => ?_) threeBlobs_sorted
      obtain ⟨digit, -, rfl⟩ := List.mem_map.mp hKey
      exact folderMarker_lt digit
    · simp [threeBlobs, (blobKeyOf_ne _).symm, hName.symm]
  · simp [passedOver, listingPass, threeBlobs]
  · simp at hMem
    rcases hMem with rfl | rfl
    · exact absurd (hX'.symm.trans hKey) hXZ.ne
    · exact absurd (hY'.symm.trans hKey) hYZ.ne

end BlobDiscovery

end S4Drive

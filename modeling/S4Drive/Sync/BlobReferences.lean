import S4Drive.Metadata.Blobs
import S4Drive.Sync.DeviceIndex

/-
  The scan for references to a blob, before the blob is
  deleted from the bucket. It reads the local index, the
  leases, the tree, the deletion records, the log and the
  snapshots, page by page, and stops at the first reference.

  Main declarations:
    * `parseBlobKey`, `parseBlobKey_blobKey`
    * `remoteBlobIsReferenced`, `unreferenced_iff`
    * `Record`, `Record.Names`, `Record.ByHashPrefixAlone`
    * `scan_complete_iff`
-/

------------------------------------------------------------
-- Candidates
------------------------------------------------------------

namespace S4Drive

namespace BlobScan

structure BlobIdentity where
  key : String
  hash : String
  blobId : BlobId
deriving DecidableEq

def blobsFolder : List Char := ".s4drive/content/blobs/".toList

/- The id of the first 16 bytes that the digits write. -/
def blobIdFromHash (hash : Text) : Option BlobId :=
  if hash.length < 32 then
    none
  else
    ((hash.take 32).mapM hexDigit).map fun digits =>
      digits.foldl (fun n digit => n * 16 + digit) 0

def parseBlobKey (key : String) : Option BlobIdentity :=
  if blobsFolder.isPrefixOf key.toList then
    let rest := key.toList.drop blobsFolder.length
    match rest.dropWhile (· ≠ '/') with
    | [] => none
    | _ :: hash =>
        if '/' ∈ hash ∨ hash.length ≠ 64 ∨
            ¬ hash.all (fun c => (hexDigit c).isSome) then
          none
        else if hash.take 2 ≠ rest.takeWhile (· ≠ '/') then
          none
        else
          (blobIdFromHash hash).map fun blobId =>
            ⟨key, String.ofList hash, blobId⟩
  else
    none

/- Rows are only written for the keys that are blobs. -/
structure GcCandidate extends BlobIdentity where
  parsed : parseBlobKey key = some ⟨key, hash, blobId⟩

def contentRefMatchesBlob
    (contentRef : ContentRef)
    (candidate : GcCandidate) : Bool :=
  contentRef.storageKey = candidate.key ||
    contentRef.hash = candidate.hash ||
    contentRef.blobId = candidate.blobId

def entryReferencesBlob
    (entry : FileEntry)
    (candidate : GcCandidate) : Bool :=
  entry.contentRef.any (contentRefMatchesBlob · candidate) ||
    entry.contentHash = some candidate.hash

def tombstoneReferencesBlob
    (tombstone : Tombstone)
    (candidate : GcCandidate) : Bool :=
  candidate.blobId ∈ tombstone.contentRefs

def opReferencesBlob
    (op : Operation)
    (candidate : GcCandidate) : Bool :=
  op.effects.newContentRef.any
    (contentRefMatchesBlob · candidate)

/- The columns of the index that can name a blob. -/
structure ObjectContent where
  localHash : Option String
  s3Key : String

structure TransferContent where
  s3Key : String
  status : RemoteChanges.TransferStatus

def TransferContent.isWaiting (row : TransferContent) : Bool :=
  row.status = .queued || row.status = .inProgress ||
    row.status = .paused

structure LocalContent where
  objects : List ObjectContent
  revisions : List (Option String)
  transfers : List TransferContent

def rawHash (hash : String) : String :=
  String.ofList (bareHash hash)

def objectReferencesBlob
    (hash : String)
    (row : ObjectContent) : Bool :=
  row.localHash = some (rawHash hash) ||
    row.localHash = some (blake3LocalHash hash) ||
    row.s3Key = BlobStore.blobKey (rawHash hash)

def revisionReferencesBlob
    (hash : String)
    (contentHash : Option String) : Bool :=
  contentHash = some (rawHash hash) ||
    contentHash = some (blake3LocalHash hash)

def transferReferencesBlob
    (hash : String)
    (row : TransferContent) : Bool :=
  row.s3Key = BlobStore.blobKey (rawHash hash) &&
    row.isWaiting

def localContentReferencesBlob
    (db : LocalContent)
    (hash : String) : Bool :=
  db.objects.any (objectReferencesBlob hash) ||
    db.revisions.any (revisionReferencesBlob hash) ||
    db.transfers.any (transferReferencesBlob hash)

------------------------------------------------------------
-- The Scan
------------------------------------------------------------

/-
  The pages that a listing answers, each with what the read
  of its objects answers. A page that is truncated and has no
  token for the next one is followed by an error.
-/
abbrev Listing (α : Type) :=
  List (CoreResult (List (CoreResult α)))

variable {α : Type}

/- An object that is gone since the listing is passed over. -/
def judge (references : α → Bool) :
    CoreResult α → CoreResult Bool
  | .ok record => .ok (references record)
  | .error (.notFound _) => .ok false
  | .error e => .error e

/- Go on only as long as nothing is found and nothing fails. -/
def orReferenced
    (found : CoreResult Bool)
    (rest : CoreResult Bool) : CoreResult Bool :=
  match found with
  | .ok false => rest
  | found => found

def scanPage (references : α → Bool) :
    List (CoreResult α) → CoreResult Bool
  | [] => .ok false
  | answer :: rest =>
      orReferenced (judge references answer)
        (scanPage references rest)

def scanPages (references : α → Bool) :
    Listing α → CoreResult Bool
  | [] => .ok false
  | .error e :: _ => .error e
  | .ok page :: rest =>
      orReferenced (scanPage references page)
        (scanPages references rest)

/- A lease that cannot be read has no time. -/
structure BucketContent where
  leases : String → Listing (Option Timestamp)
  tree : Listing FileEntry
  tombstones : Listing Tombstone
  ops : Listing Operation
  -- The objects of the listing that are trees.
  snapshots : Listing (List FileEntry)

def leaseIsActive
    (now : Timestamp) : Option Timestamp → Bool
  | none => true
  | some expiresAt => expiresAt > now

def remoteBlobIsReferenced
    (db : LocalContent)
    (bucket : BucketContent)
    (now : Timestamp)
    (candidate : GcCandidate) : CoreResult Bool :=
  orReferenced
      (.ok (localContentReferencesBlob db candidate.hash)) <|
    orReferenced
      (scanPages (leaseIsActive now)
        (bucket.leases candidate.hash)) <|
    orReferenced
      (scanPages (entryReferencesBlob · candidate)
        bucket.tree) <|
    orReferenced
      (scanPages (tombstoneReferencesBlob · candidate)
        bucket.tombstones) <|
    orReferenced
      (scanPages (opReferencesBlob · candidate) bucket.ops) <|
    scanPages
      (fun entries =>
        entries.any (entryReferencesBlob · candidate))
      bucket.snapshots

/- The record is on a page and can be read. -/
def Lists (listing : Listing α) (record : α) : Prop :=
  ∃ page, .ok page ∈ listing ∧ .ok record ∈ page

/- An object that is there and cannot be read. -/
def Fails : CoreResult α → Prop
  | .ok _ => False
  | .error (.notFound _) => False
  | .error _ => True

/- A page does not come, or one of its objects. -/
def PageFails : CoreResult (List (CoreResult α)) → Prop
  | .ok page => ∃ answer ∈ page, Fails answer
  | .error _ => True

def Unread (listing : Listing α) : Prop :=
  ∃ answer ∈ listing, PageFails answer

theorem judge_eq_false_iff
    {references : α → Bool} {answer : CoreResult α} :
    judge references answer = .ok false ↔
      ¬ Fails answer ∧
        ∀ record, answer = .ok record →
          references record = false := by
  cases answer with
  | ok record => simp [judge, Fails]
  | error e => cases e <;> simp [judge, Fails]

theorem orReferenced_eq_false_iff
    {found rest : CoreResult Bool} :
    orReferenced found rest = .ok false ↔
      found = .ok false ∧ rest = .ok false := by
  unfold orReferenced
  split
  · simp
  · rename_i hFound
    constructor
    · intro h
      exact absurd h hFound
    · intro h
      exact absurd h.1 hFound

theorem scanPage_eq_false_iff
    {references : α → Bool} {page : List (CoreResult α)} :
    scanPage references page = .ok false ↔
      ∀ answer ∈ page, judge references answer = .ok false := by
  induction page with
  | nil => simp [scanPage]
  | cons answer rest ih =>
      rw [scanPage, orReferenced_eq_false_iff, ih,
        List.forall_mem_cons]

theorem scanPages_eq_false_iff
    {references : α → Bool} {listing : Listing α} :
    scanPages references listing = .ok false ↔
      ∀ answer ∈ listing, ∃ page, answer = .ok page ∧
        scanPage references page = .ok false := by
  induction listing with
  | nil => simp [scanPages]
  | cons answer rest ih =>
      rw [List.forall_mem_cons, ← ih]
      cases answer with
      | error e => simp [scanPages]
      | ok page =>
          rw [scanPages, orReferenced_eq_false_iff]
          simp

/- Nothing is found where all is read and nothing matches. -/
theorem scan_eq_false_iff
    {references : α → Bool} {listing : Listing α} :
    scanPages references listing = .ok false ↔
      ¬ Unread listing ∧
        ∀ record, Lists listing record →
          references record = false := by
  rw [scanPages_eq_false_iff]
  constructor
  · intro h
    refine ⟨?_, ?_⟩
    · rintro ⟨answer, hAnswer, hFails⟩
      obtain ⟨page, rfl, hPage⟩ := h answer hAnswer
      obtain ⟨read, hRead, hFails⟩ := hFails
      have hJudged := scanPage_eq_false_iff.mp hPage read hRead
      exact (judge_eq_false_iff.mp hJudged).1 hFails
    · rintro record ⟨page, hPage, hRecord⟩
      obtain ⟨page', hSame, hScanned⟩ := h _ hPage
      cases hSame
      have hJudged :=
        scanPage_eq_false_iff.mp hScanned _ hRecord
      exact (judge_eq_false_iff.mp hJudged).2 record rfl
  · rintro ⟨hReads, hNone⟩ answer hAnswer
    cases answer with
    | error e => exact absurd ⟨_, hAnswer, trivial⟩ hReads
    | ok page =>
        refine ⟨page, rfl, scanPage_eq_false_iff.mpr ?_⟩
        intro read hRead
        refine judge_eq_false_iff.mpr ⟨?_, ?_⟩
        · intro hFails
          exact hReads ⟨_, hAnswer, read, hRead, hFails⟩
        · intro record hRecord
          subst hRecord
          exact hNone record ⟨page, hAnswer, hRead⟩

------------------------------------------------------------
-- Addresses
------------------------------------------------------------

def hexPair (b : UInt8) : List Char :=
  [BlobStore.hexDigit (b.toNat / 16),
    BlobStore.hexDigit (b.toNat % 16)]

theorem hexDigit_hexDigit :
    ∀ n < 16, hexDigit (BlobStore.hexDigit n) = some n := by
  decide

theorem take_hexPairs (digest : List UInt8) (n : Nat) :
    (digest.flatMap hexPair).take (2 * n) =
      (digest.take n).flatMap hexPair := by
  induction digest generalizing n with
  | nil => simp
  | cons b rest ih =>
      cases n with
      | zero => simp
      | succ n =>
          have hTwo : 2 * (n + 1) = 2 * n + 1 + 1 := by omega
          rw [hTwo, List.take_succ_cons, List.flatMap_cons,
            List.flatMap_cons, ← ih n]
          simp [hexPair]

/- Two digits write one byte. -/
theorem mapM_hexPairs (digest : List UInt8) (acc : Nat) :
    ((digest.flatMap hexPair).mapM hexDigit).map
        (fun digits =>
          digits.foldl (fun n digit => n * 16 + digit) acc) =
      some (digest.foldl (fun n b => n * 256 + b.toNat) acc) := by
  induction digest generalizing acc with
  | nil => rfl
  | cons b rest ih =>
      have hByte : b.toNat < 256 := b.toNat_lt
      have hHigh := hexDigit_hexDigit (b.toNat / 16) (by omega)
      have hLow := hexDigit_hexDigit (b.toNat % 16) (by omega)
      have hStep :
          (acc * 16 + b.toNat / 16) * 16 + b.toNat % 16 =
            acc * 256 + b.toNat := by omega
      have hRest := ih (acc * 256 + b.toNat)
      rw [← hStep] at hRest
      rw [List.flatMap_cons, hexPair, List.cons_append,
        List.cons_append, List.nil_append, List.mapM_cons,
        List.mapM_cons, hHigh, hLow]
      cases hDigits : (rest.flatMap hexPair).mapM hexDigit with
      | none =>
          rw [hDigits] at hRest
          contradiction
      | some digits =>
          rw [hDigits] at hRest
          rw [List.foldl_cons, ← hStep]
          exact hRest

variable {digest : List UInt8}

theorem blobIdFromHash_toHex
    (hLength : digest.length = 32) :
    blobIdFromHash (digest.flatMap hexPair) =
      some (BlobStore.blobIdFromDigest digest) := by
  have hText : (digest.flatMap hexPair).length = 64 := by
    rw [List.length_flatMap]
    simp [hexPair, hLength]
  unfold blobIdFromHash
  rw [if_neg (by omega), take_hexPairs digest 16,
    mapM_hexPairs]
  rfl

theorem hex_of_hexPair
    {c : Char}
    (h : c ∈ digest.flatMap hexPair) :
    (hexDigit c).isSome = true := by
  obtain ⟨b, _, hC⟩ := List.mem_flatMap.mp h
  have hByte : b.toNat < 256 := b.toNat_lt
  have hHigh := hexDigit_hexDigit (b.toNat / 16) (by omega)
  have hLow := hexDigit_hexDigit (b.toNat % 16) (by omega)
  simp only [hexPair, List.mem_cons, List.not_mem_nil,
    or_false] at hC
  rcases hC with rfl | rfl
  · rw [hHigh]
    rfl
  · rw [hLow]
    rfl

theorem blobKey_ofList (hash : Text) :
    BlobStore.blobKey (String.ofList hash) =
      String.ofList
        (blobsFolder ++ hash.take 2 ++ '/' :: hash) := by
  have hText : (String.ofList hash).toList = hash :=
    String.toList_ofList
  unfold BlobStore.blobKey blobsFolder
  rw [hText]

/- The address of a blob leads back to what a reference has. -/
theorem parseBlobKey_blobKey
    (hLength : digest.length = 32) :
    parseBlobKey (BlobStore.blobKey (BlobStore.toHex digest)) =
      some
        { key := BlobStore.blobKey (BlobStore.toHex digest)
          hash := BlobStore.toHex digest
          blobId := BlobStore.blobIdFromDigest digest } := by
  have hHex :
      BlobStore.toHex digest =
        String.ofList (digest.flatMap hexPair) := rfl
  have hDigits :
      ∀ c ∈ digest.flatMap hexPair, (hexDigit c).isSome = true :=
    fun c => hex_of_hexPair
  have hText : (digest.flatMap hexPair).length = 64 := by
    rw [List.length_flatMap]
    simp [hexPair, hLength]
  have hId := blobIdFromHash_toHex hLength
  rw [hHex, blobKey_ofList]
  generalize digest.flatMap hexPair = hash at hDigits hText hId
  have hNoSlash : '/' ∉ hash := by
    intro hSlash
    exact absurd (hDigits '/' hSlash) (by decide)
  have hPlain : ∀ c ∈ hash.take 2, decide (c ≠ '/') = true := by
    intro c hC
    rw [decide_eq_true_eq]
    intro hSlash
    subst hSlash
    exact hNoSlash (List.mem_of_mem_take hC)
  have hKey :
      (String.ofList
        (blobsFolder ++ hash.take 2 ++ '/' :: hash)).toList =
        blobsFolder ++ (hash.take 2 ++ '/' :: hash) := by
    rw [String.toList_ofList, List.append_assoc]
  have hStart :
      blobsFolder.isPrefixOf
        (blobsFolder ++ (hash.take 2 ++ '/' :: hash)) = true :=
    List.isPrefixOf_iff_prefix.mpr (List.prefix_append _ _)
  unfold parseBlobKey
  rw [hKey, if_pos hStart, List.drop_left]
  dsimp only
  rw [List.dropWhile_append_of_pos hPlain,
    List.takeWhile_append_of_pos hPlain]
  have hDrop :
      ('/' :: hash).dropWhile (fun c => decide (c ≠ '/')) =
        '/' :: hash := by simp
  have hTake :
      ('/' :: hash).takeWhile (fun c => decide (c ≠ '/')) =
        [] := by simp
  rw [hDrop, hTake, List.append_nil]
  dsimp only
  have hAll : hash.all (fun c => (hexDigit c).isSome) = true :=
    List.all_eq_true.mpr hDigits
  rw [if_neg (by simp [hNoSlash, hText, hAll]),
    if_neg (not_not.mpr rfl), hId]
  rfl

/- What can name a blob: here on the device or in the bucket. -/
inductive Record where
  | object (row : ObjectContent)
  | revision (contentHash : Option String)
  | transfer (row : TransferContent)
  | entry (entry : FileEntry)
  | tombstone (tombstone : Tombstone)
  | operation (op : Operation)
  | snapshotEntry (entry : FileEntry)

/- The record is there, and its object can be read. -/
def Holds
    (db : LocalContent)
    (bucket : BucketContent) : Record → Prop
  | .object row => row ∈ db.objects
  | .revision contentHash => contentHash ∈ db.revisions
  | .transfer row => row ∈ db.transfers
  | .entry entry => Lists bucket.tree entry
  | .tombstone tombstone => Lists bucket.tombstones tombstone
  | .operation op => Lists bucket.ops op
  | .snapshotEntry entry =>
      ∃ entries, Lists bucket.snapshots entries ∧
        entry ∈ entries

/- The hash with the name of its algorithm, or without. -/
def Spells (text : Option String) (hash : String) : Prop :=
  text = some hash ∨ text = some (blake3LocalHash hash)

def RefNames
    (candidate : GcCandidate)
    (contentRef : Option ContentRef) : Prop :=
  ∃ ref, contentRef = some ref ∧
    (ref.storageKey = candidate.key ∨
      Spells (some ref.hash) candidate.hash ∨
      ref.blobId = candidate.blobId)

def EntryNames
    (candidate : GcCandidate)
    (entry : FileEntry) : Prop :=
  RefNames candidate entry.contentRef ∨
    Spells entry.contentHash candidate.hash

/- The record denotes the blob of the candidate. -/
def Record.Names (candidate : GcCandidate) : Record → Prop
  | .object row =>
      Spells row.localHash candidate.hash ∨
        row.s3Key = candidate.key
  | .revision contentHash => Spells contentHash candidate.hash
  | .transfer row => row.s3Key = candidate.key ∧ row.isWaiting
  | .entry stored => EntryNames candidate stored
  | .tombstone stored =>
      candidate.blobId ∈ stored.contentRefs
  | .operation op => RefNames candidate op.effects.newContentRef
  | .snapshotEntry stored => EntryNames candidate stored

def RefByHashPrefix
    (candidate : GcCandidate)
    (contentRef : Option ContentRef) : Prop :=
  ∃ ref, contentRef = some ref ∧
    ref.hash = blake3LocalHash candidate.hash

def EntryByHashPrefix
    (candidate : GcCandidate)
    (entry : FileEntry) : Prop :=
  RefByHashPrefix candidate entry.contentRef ∨
    entry.contentHash = some (blake3LocalHash candidate.hash)

/-
  The record names the blob by the hash that has the name of
  its algorithm, and by nothing else.
-/
def Record.ByHashPrefixAlone
    (candidate : GcCandidate) : Record → Prop
  | .entry stored =>
      EntryByHashPrefix candidate stored ∧
        entryReferencesBlob stored candidate = false
  | .snapshotEntry stored =>
      EntryByHashPrefix candidate stored ∧
        entryReferencesBlob stored candidate = false
  | .operation op =>
      RefByHashPrefix candidate op.effects.newContentRef ∧
        opReferencesBlob op candidate = false
  | _ => False

/- What the scan asks of the record. -/
def Record.references
    (candidate : GcCandidate) : Record → Bool
  | .object row => objectReferencesBlob candidate.hash row
  | .revision contentHash =>
      revisionReferencesBlob candidate.hash contentHash
  | .transfer row => transferReferencesBlob candidate.hash row
  | .entry stored => entryReferencesBlob stored candidate
  | .tombstone stored =>
      tombstoneReferencesBlob stored candidate
  | .operation op => opReferencesBlob op candidate
  | .snapshotEntry stored =>
      entryReferencesBlob stored candidate

theorem parseBlobKey_some
    {key : String} {identity : BlobIdentity}
    (h : parseBlobKey key = some identity) :
    BlobStore.blobKey identity.hash = identity.key ∧
      ∀ c ∈ identity.hash.toList, (hexDigit c).isSome := by
  unfold parseBlobKey at h
  split at h
  · rename_i hStart
    dsimp only at h
    split at h
    · contradiction
    · rename_i slash hash hRest
      split at h
      · contradiction
      · rename_i hDigits
        split at h
        · contradiction
        · rename_i hFolder
          obtain ⟨blobId, _, hSame⟩ :=
            Option.map_eq_some_iff.mp h
          subst hSame
          have hSlash : slash = '/' := by
            have hHead := List.head?_dropWhile_not (· ≠ '/')
              (key.toList.drop blobsFolder.length)
            rw [hRest] at hHead
            simpa using hHead
          have hKey :
              key.toList =
                blobsFolder ++ hash.take 2 ++ '/' :: hash := by
            have hStarts :=
              List.prefix_iff_eq_append.mp
                (List.isPrefixOf_iff_prefix.mp hStart)
            have hParts := List.takeWhile_append_dropWhile
              (p := (· ≠ '/'))
              (l := key.toList.drop blobsFolder.length)
            rw [hRest, hSlash, ← not_not.mp hFolder] at hParts
            rw [← hStarts, ← hParts, List.append_assoc]
          push Not at hDigits
          constructor
          · rw [blobKey_ofList, ← hKey, String.ofList_toList]
          · rw [String.toList_ofList]
            exact List.all_eq_true.mp hDigits.2.2
  · contradiction

theorem bareHash_of_hex
    {hash : String}
    (hHex : ∀ c ∈ hash.toList, (hexDigit c).isSome) :
    bareHash hash = hash.toList := by
  have hStart : blake3Prefix.isPrefixOf hash.toList = false := by
    by_contra hIs
    have hStarts := List.isPrefixOf_iff_prefix.mp
      ((Bool.not_eq_false _).mp hIs)
    -- The second letter of the name is no digit.
    have hLetter := hHex 'l' (hStarts.subset (by decide))
    exact absurd hLetter (by decide)
  unfold bareHash
  cases hash.toList.length with
  | zero => rfl
  | succ rounds =>
      rw [trimStartMatches, hStart]
      rfl

theorem candidate_rawHash (candidate : GcCandidate) :
    rawHash candidate.hash = candidate.hash := by
  have hHex := (parseBlobKey_some candidate.parsed).2
  unfold rawHash
  rw [bareHash_of_hex hHex, String.ofList_toList]

theorem candidate_blobKey (candidate : GcCandidate) :
    BlobStore.blobKey (rawHash candidate.hash) =
      candidate.key := by
  rw [candidate_rawHash]
  exact (parseBlobKey_some candidate.parsed).1

variable {candidate : GcCandidate}

theorem refNames_iff
    {contentRef : Option ContentRef} :
    RefNames candidate contentRef ↔
      contentRef.any (contentRefMatchesBlob · candidate) =
          true ∨
        RefByHashPrefix candidate contentRef := by
  cases contentRef with
  | none => simp [RefNames, RefByHashPrefix]
  | some ref =>
      simp only [RefNames, RefByHashPrefix, Spells,
        contentRefMatchesBlob, Option.any_some,
        Bool.or_eq_true, decide_eq_true_eq, Option.some.injEq,
        exists_eq_left']
      tauto

theorem entryNames_iff
    {entry : FileEntry} :
    EntryNames candidate entry ↔
      entryReferencesBlob entry candidate = true ∨
        EntryByHashPrefix candidate entry := by
  unfold EntryNames EntryByHashPrefix entryReferencesBlob
  rw [refNames_iff, Bool.or_eq_true, decide_eq_true_eq, Spells]
  tauto

theorem seen_or_missed {seen : Bool} {spelled : Prop} :
    seen = true ∨ spelled ↔
      seen = true ∨ (spelled ∧ seen = false) := by
  cases seen <;> simp

/- The names of a record: what the scan sees and misses. -/
theorem names_iff {candidate : GcCandidate} {record : Record} :
    record.Names candidate ↔
      record.references candidate = true ∨
        record.ByHashPrefixAlone candidate := by
  have hRaw := candidate_rawHash candidate
  have hKey := candidate_blobKey candidate
  rw [hRaw] at hKey
  cases record with
  | object row =>
      simp [Record.Names, Record.references,
        Record.ByHashPrefixAlone, objectReferencesBlob, Spells,
        hRaw, hKey]
  | revision contentHash =>
      simp [Record.Names, Record.references,
        Record.ByHashPrefixAlone, revisionReferencesBlob, Spells,
        hRaw]
  | transfer row =>
      simp [Record.Names, Record.references,
        Record.ByHashPrefixAlone, transferReferencesBlob, hRaw,
        hKey]
  | entry stored =>
      simp only [Record.Names, Record.references,
        Record.ByHashPrefixAlone, entryNames_iff]
      exact seen_or_missed
  | tombstone stored =>
      simp [Record.Names, Record.references,
        Record.ByHashPrefixAlone, tombstoneReferencesBlob]
  | operation op =>
      simp only [Record.Names, Record.references,
        Record.ByHashPrefixAlone, refNames_iff,
        opReferencesBlob]
      exact seen_or_missed
  | snapshotEntry stored =>
      simp only [Record.Names, Record.references,
        Record.ByHashPrefixAlone, entryNames_iff]
      exact seen_or_missed

theorem not_seen_of_alone
    {record : Record}
    (h : record.ByHashPrefixAlone candidate) :
    ¬ record.references candidate = true := by
  rw [Bool.not_eq_true]
  cases record with
  | entry stored => exact h.2
  | operation op => exact h.2
  | snapshotEntry stored => exact h.2
  | object row => exact h.elim
  | revision contentHash => exact h.elim
  | transfer row => exact h.elim
  | tombstone stored => exact h.elim

------------------------------------------------------------
-- Completeness
------------------------------------------------------------

def Leased
    (bucket : BucketContent)
    (now : Timestamp)
    (candidate : GcCandidate) : Prop :=
  ∃ lease, Lists (bucket.leases candidate.hash) lease ∧
    leaseIsActive now lease = true

/- Something that the scan asks for does not come. -/
def BucketUnread
    (bucket : BucketContent)
    (candidate : GcCandidate) : Prop :=
  Unread (bucket.leases candidate.hash) ∨
    Unread bucket.tree ∨ Unread bucket.tombstones ∨
    Unread bucket.ops ∨ Unread bucket.snapshots

theorem localContent_eq_false_iff
    {db : LocalContent} :
    localContentReferencesBlob db candidate.hash = false ↔
      (∀ row ∈ db.objects,
          (Record.object row).references candidate = false) ∧
        (∀ hash ∈ db.revisions,
          (Record.revision hash).references candidate =
            false) ∧
        ∀ row ∈ db.transfers,
          (Record.transfer row).references candidate =
            false := by
  simp only [localContentReferencesBlob, Bool.or_eq_false_iff,
    List.any_eq_false, Bool.not_eq_true, and_assoc,
    Record.references]

/-
  A blob is judged unreferenced exactly when all is read, no
  lease is active and no record is seen to name it.
-/
theorem unreferenced_iff
    {db : LocalContent} {bucket : BucketContent}
    {now : Timestamp} :
    remoteBlobIsReferenced db bucket now candidate =
        .ok false ↔
      ¬ Leased bucket now candidate ∧
        ¬ BucketUnread bucket candidate ∧
        ∀ record, Holds db bucket record →
          record.references candidate = false := by
  unfold remoteBlobIsReferenced
  simp only [orReferenced_eq_false_iff, scan_eq_false_iff,
    Except.ok.injEq, localContent_eq_false_iff]
  constructor
  · rintro ⟨⟨hObjects, hRevisions, hTransfers⟩,
      ⟨hLeases, hNoLease⟩, ⟨hTree, hEntries⟩,
      ⟨hTombstones, hDeleted⟩, ⟨hOps, hOperations⟩,
      hSnapshots, hSaved⟩
    refine ⟨?_, ?_, ?_⟩
    · rintro ⟨lease, hLease, hActive⟩
      rw [hNoLease lease hLease] at hActive
      contradiction
    · rintro (h | h | h | h | h)
      · exact hLeases h
      · exact hTree h
      · exact hTombstones h
      · exact hOps h
      · exact hSnapshots h
    · intro record hHolds
      cases record with
      | object row => exact hObjects row hHolds
      | revision hash => exact hRevisions hash hHolds
      | transfer row => exact hTransfers row hHolds
      | entry stored => exact hEntries stored hHolds
      | tombstone stored => exact hDeleted stored hHolds
      | operation op => exact hOperations op hHolds
      | snapshotEntry stored =>
          obtain ⟨entries, hEntries, hStored⟩ := hHolds
          have hNone := hSaved entries hEntries
          exact Bool.eq_false_of_not_eq_true
            (List.any_eq_false.mp hNone stored hStored)
  · rintro ⟨hLeased, hRead, hNone⟩
    unfold BucketUnread at hRead
    push Not at hRead
    obtain ⟨hLeases, hTree, hTombstones, hOps, hSnapshots⟩ :=
      hRead
    refine ⟨⟨?_, ?_, ?_⟩, ⟨hLeases, ?_⟩, ⟨hTree, ?_⟩,
      ⟨hTombstones, ?_⟩, ⟨hOps, ?_⟩, hSnapshots, ?_⟩
    · exact fun row => hNone (.object row)
    · exact fun hash => hNone (.revision hash)
    · exact fun row => hNone (.transfer row)
    · intro lease hLease
      by_contra hActive
      exact hLeased ⟨lease, hLease, by simpa using hActive⟩
    · exact fun stored => hNone (.entry stored)
    · exact fun stored => hNone (.tombstone stored)
    · exact fun op => hNone (.operation op)
    · intro entries hEntries
      rw [List.any_eq_false]
      intro stored hStored
      have hSeen := hNone (.snapshotEntry stored)
        ⟨entries, hEntries, hStored⟩
      rw [Bool.not_eq_true]
      exact hSeen

/-
  No blob that a record names is judged unreferenced, exactly
  where an entry that names it by the prefixed hash alone has
  another record beside it, a lease, or a read that fails.
-/
theorem scan_complete_iff
    {db : LocalContent} {bucket : BucketContent}
    {now : Timestamp} {candidate : GcCandidate} :
    (∀ record, Holds db bucket record →
        record.Names candidate →
          remoteBlobIsReferenced db bucket now candidate ≠
            .ok false) ↔
      ((∃ record, Holds db bucket record ∧
          record.ByHashPrefixAlone candidate) →
        (∃ record, Holds db bucket record ∧
            record.Names candidate ∧
            ¬ record.ByHashPrefixAlone candidate) ∨
          Leased bucket now candidate ∨
          BucketUnread bucket candidate) := by
  constructor
  · rintro hComplete ⟨record, hHolds, hAlone⟩
    have hNames := names_iff.mpr (Or.inr hAlone)
    have hKept := hComplete record hHolds hNames
    by_contra hNothing
    push Not at hNothing
    obtain ⟨hOthers, hLeased, hRead⟩ := hNothing
    apply hKept
    refine unreferenced_iff.mpr ⟨hLeased, hRead, ?_⟩
    intro other hOther
    by_contra hSeen
    rw [Bool.not_eq_false] at hSeen
    have hAlone := hOthers other hOther
      (names_iff.mpr (Or.inl hSeen))
    exact absurd hSeen (not_seen_of_alone hAlone)
  · intro h record hHolds hNames hJudged
    obtain ⟨hLeased, hRead, hNone⟩ :=
      unreferenced_iff.mp hJudged
    have hUnseen : ∀ other, Holds db bucket other →
        other.Names candidate →
          other.ByHashPrefixAlone candidate := by
      intro other hOther hNames
      rcases names_iff.mp hNames with hSeen | hAlone
      · rw [hNone other hOther] at hSeen
        contradiction
      · exact hAlone
    rcases h ⟨record, hHolds, hUnseen record hHolds hNames⟩
      with ⟨other, hOther, hNames, hNot⟩ | hLease | hUnread
    · exact hNot (hUnseen other hOther hNames)
    · exact hLeased hLease
    · exact hRead hUnread

def zeroDigest : List UInt8 := List.replicate 32 0

def zeroCandidate : GcCandidate where
  key := BlobStore.blobKey (BlobStore.toHex zeroDigest)
  hash := BlobStore.toHex zeroDigest
  blobId := BlobStore.blobIdFromDigest zeroDigest
  parsed := parseBlobKey_blobKey (by decide)

/-
  An indexed row from before the index kept references,
  written to the tree by a rename whose read failed.
-/
def renamedEntry : FileEntry where
  fileId := 1
  parentId := none
  name := "new name.md"
  entryType := .file
  currentRevisionId := some 2
  contentRef := none
  size := 3
  contentHash := some (blake3LocalHash zeroCandidate.hash)
  mime := none
  updatedAt := 5
  deletedAt := none
  versionHistory := []

def renamedBucket : BucketContent where
  leases := fun _ => []
  tree := [.ok [.ok renamedEntry]]
  tombstones := []
  ops := []
  snapshots := []

/- The blob of the only file is judged unreferenced. -/
theorem prefixed_hash_is_missed :
    Holds ⟨[], [], []⟩ renamedBucket (.entry renamedEntry) ∧
      Record.Names zeroCandidate (.entry renamedEntry) ∧
      remoteBlobIsReferenced ⟨[], [], []⟩ renamedBucket 0
        zeroCandidate = .ok false := by
  refine ⟨⟨[.ok renamedEntry], ?_, ?_⟩, Or.inr (Or.inr rfl), ?_⟩
  · exact List.mem_singleton_self _
  · exact List.mem_singleton_self _
  · decide +kernel

end BlobScan

end S4Drive

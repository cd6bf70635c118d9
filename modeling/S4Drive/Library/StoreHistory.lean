import S4Drive.Library.ObjectStore

/-
  What a store holds while others write to it, and reads
  that put a body together with an ETag from two requests
  around it. All such reads are atomic iff no object gets
  bytes back that it had before others.

  Main declarations:
    * `History`, `History.bodyAt`
    * `History.Paired`, `History.AtomicRead`
    * `History.steady_iff`
-/

------------------------------------------------------------
-- Histories
------------------------------------------------------------

namespace ObjectStore

variable {K V : Type} [DecidableEq K] [DecidableEq V]

/- One delivery of a write: a refused one changes nothing. -/
def Write.effect
    (o : Objects K V)
    (write : Write K V) : Objects K V :=
  if write.Allowed o then write.apply o else o

/- The writes and deletions of others, as they arrive. -/
structure History (K V : Type) where
  start : Objects K V
  writes : List (Write K V)

namespace History

/- The objects at a moment: after so many writes. -/
def objects
    (h : History K V)
    (moment : Nat) : Objects K V :=
  (h.writes.take moment).foldl Write.effect h.start

def bodyAt
    (h : History K V)
    (key : K)
    (moment : Nat) : Option V :=
  (h.objects moment).lookup key

/-
  A body read between two moments at which the object had
  the ETag, all of them from `first` to `last`.
-/
def Paired
    (h : History K V)
    (key : K)
    (first last : Nat)
    (body : V)
    (etag : ETag V) : Prop :=
  ∃ i j k, first ≤ i ∧ i ≤ j ∧ j ≤ k ∧ k ≤ last ∧
    h.bodyAt key i = some etag.body ∧
    h.bodyAt key j = some body ∧
    h.bodyAt key k = some etag.body

/-
  The object had the body and the ETag at one moment of the
  read, and a write that expects the ETag replaces nothing
  but this body.
-/
structure AtomicRead
    (h : History K V)
    (key : K)
    (first last : Nat)
    (body : V)
    (etag : ETag V) : Prop where
  stored :
    ∃ moment, first ≤ moment ∧ moment ≤ last ∧
      h.bodyAt key moment = some body ∧ etag = ⟨body⟩
  replaces :
    ∀ (o : Objects K V) (new : V),
      (Write.putIfMatch key new etag).Allowed o ↔
        o.lookup key = some body

/-
  Once the object has had another body that can be read, it
  does not get the body before that back.
-/
def Steady
    (h : History K V)
    (key : K)
    (Readable : V → Prop) : Prop :=
  ∀ i j k, i ≤ j → j ≤ k → ∀ body other,
    h.bodyAt key i = some body →
    h.bodyAt key j = some other →
    h.bodyAt key k = some body → Readable other →
    other = body

variable {h : History K V} {key : K} {first last : Nat}
variable {body : V} {etag : ETag V} {Readable : V → Prop}

theorem Paired.from
    {earlier : Nat}
    (hPaired : h.Paired key first last body etag)
    (hEarlier : earlier ≤ first) :
    h.Paired key earlier last body etag := by
  rcases hPaired with ⟨i, j, k, hFirst, hRead⟩
  exact ⟨i, j, k, Nat.le_trans hEarlier hFirst, hRead⟩

theorem AtomicRead.of_paired
    (hPaired : h.Paired key first last body etag)
    (hSame : body = etag.body) :
    h.AtomicRead key first last body etag := by
  rcases hPaired with
    ⟨i, j, k, hFirst, hLeft, hRight, hLast, _, hBody, _⟩
  subst hSame
  have hAfter := Nat.le_trans hFirst hLeft
  have hBefore := Nat.le_trans hRight hLast
  exact ⟨⟨j, hAfter, hBefore, hBody, rfl⟩,
    fun _ _ => Iff.rfl⟩

theorem AtomicRead.until
    {later : Nat}
    (hAtomic : h.AtomicRead key first last body etag)
    (hLater : last ≤ later) :
    h.AtomicRead key first later body etag := by
  rcases hAtomic.stored with ⟨moment, hFirst, hLast, hStored⟩
  exact ⟨⟨moment, hFirst, Nat.le_trans hLast hLater, hStored⟩,
    hAtomic.replaces⟩

/- Every read that pairs up is atomic iff nothing returns. -/
theorem steady_iff :
    (∀ first last body etag, Readable body →
      h.Paired key first last body etag →
      h.AtomicRead key first last body etag) ↔
    h.Steady key Readable := by
  constructor
  · intro hAtomic i j k hLeft hRight body other hBefore hOther
      hAfter hReadable
    have hPaired : h.Paired key i k other ⟨body⟩ :=
      ⟨i, j, k, le_rfl, hLeft, hRight, le_rfl, hBefore, hOther,
        hAfter⟩
    rcases (hAtomic i k other ⟨body⟩ hReadable hPaired).stored
      with ⟨_, _, _, _, hSame⟩
    exact (congrArg ETag.body hSame).symm
  · intro hSteady first last body etag hReadable hPaired
    refine .of_paired hPaired ?_
    rcases hPaired with
      ⟨i, j, k, _, hLeft, hRight, _, hBefore, hBody, hAfter⟩
    exact hSteady i j k hLeft hRight etag.body body hBefore
      hBody hAfter hReadable

end History

end ObjectStore

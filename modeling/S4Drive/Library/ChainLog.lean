import Mathlib.Data.List.Infix
import Mathlib.Data.List.Nodup

/-
  Append-only logs kept as chains. The log is a list of
  entries, newest first; every entry has a key and names the
  key of the entry it was put on (`none` for the first one).
  A register that holds the key of the newest entry and is
  only replaced by compare-and-swap against an entry's own
  base keeps such a log.

  Main declarations:
    * `headKey`, `Linked`, `Chain`
    * `Known`, `Stale`, `Dead`
    * `Chain.cons`, `Chain.not_mem_of_live`
    * `Chain.dead_of_split`, `Chain.not_mem_of_floor`
    * `Stale.mono`, `Dead.mono`
    * `Path`, `Path.split`, `Chain.passed_of_paths`
-/

------------------------------------------------------------
-- Chains
------------------------------------------------------------

namespace ChainLog

variable {α κ : Type}
variable (key : α → κ) (base : α → Option κ)

/- The key of the newest entry. -/
def headKey (l : List α) : Option κ :=
  l.head?.map key

/- Every entry is based on the one right below it. -/
def Linked : List α → Prop
  | [] => True
  | a :: l => base a = headKey key l ∧ Linked l

/- A linked log in which no key occurs twice. -/
structure Chain (l : List α) : Prop where
  linked : Linked key base l
  nodup : (l.map key).Nodup

/- `b` was the newest key of the log at some time. -/
def Known (b : Option κ) (l : List α) : Prop :=
  ∀ k, b = some k → ∃ a ∈ l, key a = k

/- `b` was the newest key at some time, but is no more. -/
structure Stale (b : Option κ) (l : List α) : Prop where
  known : Known key b l
  ne_head : b ≠ headKey key l

/-
  An entry that is not in the log and whose base is stale:
  no compare-and-swap can put it there any more.
-/
structure Dead (a : α) (l : List α) : Prop where
  absent : ∀ x ∈ l, key x ≠ key a
  stale : Stale key (base a) l

variable {key base}
variable {a : α} {b : Option κ} {l l' m p q : List α}

@[simp] theorem headKey_nil :
    headKey key ([] : List α) = none := rfl

@[simp] theorem headKey_cons :
    headKey key (a :: l) = some (key a) := rfl

theorem headKey_eq_none_iff :
    headKey key l = none ↔ l = [] := by
  cases l <;> simp

theorem Linked.of_suffix
    (h : Linked key base l')
    (hSuffix : l <:+ l') :
    Linked key base l := by
  rcases hSuffix with ⟨p, rfl⟩
  induction p with
  | nil => exact h
  | cons x p ih => exact ih h.2

theorem Chain.of_suffix
    (h : Chain key base l')
    (hSuffix : l <:+ l') :
    Chain key base l :=
  ⟨h.linked.of_suffix hSuffix,
    h.nodup.sublist (hSuffix.sublist.map key)⟩

theorem Chain.nil : Chain key base ([] : List α) :=
  ⟨trivial, List.nodup_nil⟩

/- An entry of a chain is based on the entry below it. -/
theorem Chain.base_of_append
    (h : Chain key base (p ++ a :: l)) :
    base a = headKey key l :=
  (h.of_suffix (List.suffix_append p (a :: l))).linked.1

theorem known_headKey : Known key (headKey key l) l := by
  intro k hk
  cases l with
  | nil => cases hk
  | cons x l =>
      exact ⟨x, by simp, Option.some.inj hk⟩

theorem Known.mono
    (h : Known key b l)
    (hSuffix : l <:+ l') :
    Known key b l' := by
  intro k hk
  rcases h k hk with ⟨x, hx, hKey⟩
  exact ⟨x, hSuffix.subset hx, hKey⟩

/-
  Two parts of one log that start with the same key are the
  same part.
-/
theorem suffix_unique
    (hNodup : (l.map key).Nodup)
    (hp : p <:+ l)
    (hq : q <:+ l)
    (hHead : headKey key p = headKey key q) :
    p = q := by
  have shorter :
      ∀ {p q : List α},
        (q.map key).Nodup → p <:+ q →
          headKey key p = headKey key q → p = q := by
    intro p q hNodup hp hHead
    rcases hp with ⟨r, rfl⟩
    cases r with
    | nil => rfl
    | cons x r =>
        exfalso
        cases p with
        | nil => simp at hHead
        | cons y p =>
            have hKeys : key y = key x := by
              simpa using hHead
            simp [hKeys] at hNodup
  rcases List.suffix_or_suffix_of_suffix hp hq with h | h
  · exact shorter (hNodup.sublist (hq.sublist.map key))
      h hHead
  · exact (shorter (hNodup.sublist (hp.sublist.map key))
      h hHead.symm).symm

/-
  What was the newest key once and is no more never becomes
  the newest key again.
-/
theorem Stale.mono
    (h : Stale key b l)
    (hNodup : (l'.map key).Nodup)
    (hSuffix : l <:+ l') :
    Stale key b l' := by
  refine ⟨h.known.mono hSuffix, ?_⟩
  intro hHead
  cases b with
  | none =>
      have hEmpty : l' = [] :=
        headKey_eq_none_iff.mp hHead.symm
      subst hEmpty
      rw [List.suffix_nil] at hSuffix
      subst hSuffix
      exact h.ne_head rfl
  | some k =>
      rcases h.known k rfl with ⟨x, hx, rfl⟩
      rcases hSuffix with ⟨p, rfl⟩
      cases p with
      | nil => exact h.ne_head hHead
      | cons y p =>
          have hKeys : key x = key y := by
            simpa using hHead
          have hMem : key y ∈ (p ++ l).map key := by
            rw [← hKeys]
            exact List.mem_map_of_mem
              (List.mem_append_right p hx)
          exact (List.nodup_cons.mp hNodup).1 hMem

/- The entries of a chain are based on stale keys. -/
theorem Chain.stale_of_mem
    (h : Chain key base l)
    (ha : a ∈ l) :
    Stale key (base a) l := by
  rcases List.append_of_mem ha with ⟨p, q, rfl⟩
  have hBase := h.base_of_append
  have hSuffix : q <:+ p ++ a :: q :=
    ⟨p ++ [a], by simp⟩
  refine ⟨?_, ?_⟩
  · rw [hBase]
    exact known_headKey.mono hSuffix
  · intro hHead
    rw [hBase] at hHead
    have hEq :=
      suffix_unique h.nodup hSuffix List.suffix_rfl hHead
    have hLength := congrArg List.length hEq
    simp only [List.length_append, List.length_cons]
      at hLength
    omega

/-
  An entry based on the newest key is not in the log yet: a
  compare-and-swap that succeeds appends a new entry.
-/
theorem Chain.not_mem_of_live
    (h : Chain key base l)
    (hLive : base a = headKey key l) :
    a ∉ l :=
  fun ha => (h.stale_of_mem ha).ne_head hLive

theorem Chain.cons
    (h : Chain key base l)
    (hBase : base a = headKey key l)
    (hFresh : ∀ x ∈ l, key x ≠ key a) :
    Chain key base (a :: l) := by
  refine ⟨⟨hBase, h.linked⟩, ?_⟩
  rw [List.map_cons, List.nodup_cons]
  refine ⟨?_, h.nodup⟩
  intro hMem
  rcases List.mem_map.mp hMem with ⟨x, hx, hKey⟩
  exact hFresh x hx hKey

/- A dead entry stays dead while the log grows. -/
theorem Dead.mono
    (h : Dead key base a l)
    (hChain : Chain key base l')
    (hSuffix : l <:+ l')
    (hSame : ∀ x ∈ l', key x = key a → x = a) :
    Dead key base a l' := by
  have hStale := h.stale.mono hChain.nodup hSuffix
  refine ⟨?_, hStale⟩
  intro x hx hKey
  have hEq := hSame x hx hKey
  subst hEq
  rcases hSuffix with ⟨p, rfl⟩
  rcases List.mem_append.mp hx with hNew | hOld
  · -- `x` was appended later, on a base that was newest then.
    rcases List.append_of_mem hNew with ⟨p₁, p₂, rfl⟩
    have hBase :
        base x = headKey key (p₂ ++ l) := by
      apply Chain.base_of_append (p := p₁)
      simpa using hChain
    have hStale' :
        Stale key (base x) (p₂ ++ l) := by
      have hPart : p₂ ++ l <:+ p₁ ++ x :: p₂ ++ l :=
        ⟨p₁ ++ [x], by simp⟩
      exact h.stale.mono (hChain.of_suffix hPart).nodup
        (List.suffix_append p₂ l)
    exact hStale'.ne_head hBase
  · exact h.absent x hOld rfl

/- What lies below an entry of a chain. -/
theorem Chain.below_of_mem
    (h : Chain key base l)
    (ha : a ∈ l)
    (hSuffix : m <:+ l)
    (hBase : headKey key m = base a) :
    a :: m <:+ l ∧ a ∉ m := by
  rcases List.append_of_mem ha with ⟨p, q, rfl⟩
  have hq : q <:+ p ++ a :: q := ⟨p ++ [a], by simp⟩
  have hSame : m = q := by
    apply suffix_unique h.nodup hSuffix hq
    rw [hBase, h.base_of_append]
  subst hSame
  refine ⟨List.suffix_append p (a :: m), ?_⟩
  intro hMem
  have hPart := (h.of_suffix
    (List.suffix_append p (a :: m))).nodup
  rw [List.map_cons, List.nodup_cons] at hPart
  exact hPart.1 (List.mem_map_of_mem hMem)

/-
  A walk from the newest entry down to the base of `a` did
  not meet `a`, and the base is not the newest key: `a` is
  lost.
-/
theorem Chain.dead_of_split
    (h : Chain key base (p ++ q))
    (hBase : headKey key q = base a)
    (hPassed : ∀ x ∈ p, key x ≠ key a)
    (hSame : ∀ x ∈ p ++ q, key x = key a → x = a)
    (hStale : base a ≠ headKey key (p ++ q)) :
    Dead key base a (p ++ q) := by
  have hSuffix : q <:+ p ++ q := List.suffix_append p q
  refine ⟨?_, ?_, hStale⟩
  · intro x hx hKey
    have hEq := hSame x hx hKey
    subst hEq
    rcases List.mem_append.mp hx with hp | hq
    · exact hPassed x hp rfl
    · exact (h.below_of_mem hx hSuffix hBase).2 hq
  · rw [← hBase]
    exact known_headKey.mono hSuffix

/-
  An entry based above a floor is not in the log when a walk
  down to the floor, or to the very end, did not meet it.
-/
theorem Chain.not_mem_of_floor
    {floor : List α}
    (h : Chain key base (p ++ q))
    (hFloor : floor <:+ m)
    (hSuffix : m <:+ p ++ q)
    (hBase : headKey key m = base a)
    (hPassed : a ∉ p)
    (hEnd :
      q = [] ∨ headKey key q = headKey key floor) :
    a ∉ p ++ q := by
  intro ha
  have haq : a ∈ q := (List.mem_append.mp ha).resolve_left hPassed
  rcases hEnd with rfl | hEnd
  · cases haq
  · have hSame : q = floor :=
      suffix_unique h.nodup (List.suffix_append p q)
        (hFloor.trans hSuffix) hEnd
    subst hSame
    exact (h.below_of_mem ha hSuffix hBase).2
      (hFloor.subset haq)

/-
  Following the bases from one key leads to another one, and
  every entry that is passed satisfies `P`. The entry at the
  end is not passed.
-/
inductive Path
    (base : α → Option κ)
    (lookup : κ → Option α)
    (P : α → Prop) :
    Option κ → Option κ → Prop where
  | refl (b : Option κ) : Path base lookup P b b
  | step
      {k : κ} {a : α} {b : Option κ}
      (found : lookup k = some a)
      (holds : P a)
      (rest : Path base lookup P (base a) b) :
      Path base lookup P (some k) b

variable {lookup lookup' : κ → Option α}
variable {P P' : α → Prop}
variable {b₁ b₂ b₃ : Option κ}

theorem Path.trans
    (first : Path base lookup P b₁ b₂)
    (second : Path base lookup P b₂ b₃) :
    Path base lookup P b₁ b₃ := by
  induction first with
  | refl => exact second
  | step found holds _ ih => exact .step found holds (ih second)

theorem Path.mono
    (h : Path base lookup P b₁ b₂)
    (hLookup :
      ∀ k a, lookup k = some a → lookup' k = some a)
    (hP : ∀ a, P a → P' a) :
    Path base lookup' P' b₁ b₂ := by
  induction h with
  | refl => exact .refl _
  | step found holds _ ih =>
      exact .step (hLookup _ _ found) (hP _ holds) ih

/-
  A path that starts at the newest key of a chain splits the
  chain where the path ends.
-/
theorem Path.split
    (h : Path base lookup P (headKey key l) b)
    (hChain : Chain key base l)
    (hLookup : ∀ a ∈ l, lookup (key a) = some a) :
    ∃ p q, l = p ++ q ∧ headKey key q = b ∧
      ∀ a ∈ p, P a := by
  generalize hStart : headKey key l = start at h
  induction h generalizing l with
  | refl b => exact ⟨[], l, rfl, hStart, by simp⟩
  | @step k a b found holds _ ih =>
      cases l with
      | nil => simp at hStart
      | cons x l =>
          have hKey : key x = k := by
            simpa using hStart
          have hx : x = a := by
            have := hLookup x (by simp)
            rw [hKey, found] at this
            exact (Option.some.inj this).symm
          subst hx
          rcases
            ih (hChain.of_suffix (List.suffix_cons x l))
              (fun a ha => hLookup a (by simp [ha]))
              hChain.linked.1.symm with
            ⟨p, q, rfl, hq, hp⟩
          refine ⟨x :: p, q, rfl, hq, ?_⟩
          intro y hy
          rcases List.mem_cons.mp hy with rfl | hy
          · exact holds
          · exact hp y hy

/- A path that starts below an entry of a chain. -/
theorem Path.split_below
    (h : Path base lookup P (base a) b)
    (hChain : Chain key base l)
    (hLookup : ∀ x ∈ l, lookup (key x) = some x)
    (ha : a ∈ l) :
    ∃ p q, a :: (p ++ q) <:+ l ∧ headKey key q = b ∧
      ∀ x ∈ p, P x := by
  rcases List.append_of_mem ha with ⟨r, m, rfl⟩
  have hSuffix : a :: m <:+ r ++ a :: m :=
    List.suffix_append r (a :: m)
  rw [hChain.base_of_append] at h
  rcases h.split
      (hChain.of_suffix ((List.suffix_cons a m).trans hSuffix))
      (fun x hx => hLookup x (hSuffix.subset (by simp [hx])))
    with ⟨p, q, rfl, hq, hp⟩
  exact ⟨p, q, hSuffix, hq, hp⟩

/-
  Of two entries of a chain that both lead down to `b`, one
  is passed on the way from the other.
-/
theorem Chain.passed_of_paths
    {a' : α}
    (hChain : Chain key base l)
    (hLookup : ∀ x ∈ l, lookup (key x) = some x)
    (ha : a ∈ l)
    (ha' : a' ∈ l)
    (h : Path base lookup P (base a) b)
    (h' : Path base lookup P' (base a') b) :
    a = a' ∨ P a' ∨ P' a := by
  rcases h.split_below hChain hLookup ha with
    ⟨p, q, hSuffix, hHead, hP⟩
  rcases h'.split_below hChain hLookup ha' with
    ⟨p', q', hSuffix', hHead', hP'⟩
  have below : ∀ {x : α} {m : List α},
      x :: (m ++ q) <:+ l → q <:+ l := by
    intro x m hx
    exact ((List.suffix_append m q).trans
      (List.suffix_cons x _)).trans hx
  have hSame : q = q' := by
    apply suffix_unique hChain.nodup (below hSuffix)
    · exact ((List.suffix_append p' q').trans
        (List.suffix_cons a' _)).trans hSuffix'
    · rw [hHead, hHead']
  subst hSame
  have passed : ∀ {x y : α} {r m : List α},
      x :: (r ++ q) <:+ y :: (m ++ q) → x = y ∨ x ∈ m := by
    intro x y r m hBelow
    rcases hBelow with ⟨s, hs⟩
    rw [← List.cons_append, ← List.append_assoc,
      ← List.cons_append, List.append_left_inj] at hs
    have hx : x ∈ y :: m := by
      rw [← hs]
      simp
    exact List.mem_cons.mp hx
  rcases List.suffix_or_suffix_of_suffix hSuffix hSuffix'
    with h | h
  · rcases passed h with hEq | hMem
    · exact .inl hEq
    · exact .inr (.inr (hP' a hMem))
  · rcases passed h with hEq | hMem
    · exact .inl hEq.symm
    · exact .inr (.inl (hP a' hMem))

end ChainLog

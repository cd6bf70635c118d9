import Mathlib.Data.List.Infix
import S4Drive.Core.Error
import S4Drive.Core.Text

/-
  How an error of the store is classified. Its code, where it
  has one, and its text are searched together, for one list
  of patterns after the other. So the text of an error never
  hides a pattern of its code, but it can bring one that is
  looked for before.

  Main declarations:
    * `classifyS3Error`, `classifyS3ServiceError`
    * `isPreconditionFailedError`
    * `classOf_eq_iff`, `holds_serviceText`
    * `classifiedByCode_iff`
-/

------------------------------------------------------------
-- Parts of Texts
------------------------------------------------------------

namespace S4Drive

namespace S3Client

/- What has no separator is on one side of it. -/
theorem infix_separated_iff
    {α : Type} {p a b : List α} {s : α}
    (h : s ∉ p) : p <:+: a ++ s :: b ↔ p <:+: a ∨ p <:+: b := by
  constructor
  · intro hIn
    rcases List.infix_append_iff.mp hIn with
      hLeft | hRight | ⟨p₁, p₂, rfl, hEnd, hStart⟩
    · exact .inl hLeft
    · rcases List.infix_cons_iff.mp hRight with hStart | hIn
      · cases p with
        | nil => exact .inl List.nil_infix
        | cons c p =>
            rw [(List.cons_prefix_cons.mp hStart).1] at h
            exact absurd List.mem_cons_self h
      · exact .inr hIn
    · cases p₂ with
      | nil =>
          rw [List.append_nil]
          exact .inl hEnd.isInfix
      | cons c p₂ =>
          rw [(List.cons_prefix_cons.mp hStart).1] at h
          exact absurd
            (List.mem_append_right p₁ List.mem_cons_self) h
  · rintro (hLeft | hRight)
    · exact List.infix_append_of_infix_left hLeft
    · exact List.infix_append_of_infix_right
        (List.infix_cons hRight)

theorem infix_cons_of_head
    {α : Type} {p b : List α} {s : α}
    (h : p.head? ≠ some s) : p <:+: s :: b ↔ p <:+: b := by
  constructor
  · intro hIn
    rcases List.infix_cons_iff.mp hIn with hStart | hRest
    · cases p with
      | nil => exact List.nil_infix
      | cons c p =>
          rw [(List.cons_prefix_cons.mp hStart).1] at h
          exact absurd rfl h
    · exact hRest
  · exact List.infix_cons

inductive ErrorClass where
  | lostCondition
  | notFound
  | access
  | conflict
  | network
  | other
deriving DecidableEq

namespace ErrorClass

/- What the text of a class is known by. -/
def patterns : ErrorClass → List String
  | lostCondition => ["412", "preconditionfailed"]
  | notFound => ["404", "not found", "nosuchkey", "notfound"]
  | access => ["403", "forbidden", "accessdenied"]
  | conflict => ["409", "conflict"]
  | network => ["timeout", "dispatchfailure", "connection reset"]
  | other => []

/- The place of a class in the order of the search. -/
def rank : ErrorClass → Nat
  | lostCondition => 0
  | notFound => 1
  | access => 2
  | conflict => 3
  | network => 4
  | other => 5

/- The error that a class is reported as. -/
def report (msg context : String) : ErrorClass → CoreError
  | lostCondition =>
      .conflict ("412 PreconditionFailed: " ++ context)
  | notFound => .notFound ("not found: " ++ context)
  | access => .auth ("access denied: " ++ context)
  | conflict => .conflict ("conflict: " ++ context)
  | network => .network msg
  | other => .s3 msg

end ErrorClass

/- `to_ascii_lowercase`. -/
def toAsciiLowercase (text : String) : Text :=
  text.toList.map Char.toLower

/- One of the patterns is in the text, in any case. -/
def holdsAny (text : String) (patterns : List String) : Bool :=
  patterns.any fun pattern =>
    pattern.toList <:+: toAsciiLowercase text

def holds (text : String) (c : ErrorClass) : Bool :=
  holdsAny text c.patterns

/- The first class that the text has a pattern of. -/
def classOf (text : String) : ErrorClass :=
  if holds text .lostCondition then
    .lostCondition
  else if holds text .notFound then
    .notFound
  else if holds text .access then
    .access
  else if holds text .conflict then
    .conflict
  else if holds text .network then
    .network
  else
    .other

/- The context, mostly a key, is not searched. -/
def classifyS3Error (e context : String) : CoreError :=
  (classOf e).report ("s3 error (" ++ context ++ "): " ++ e)
    context

/- What is searched: the code, if there is one, and the text. -/
def serviceText (code : Option String) (e : String) : String :=
  match code with
  | none => e
  | some code =>
      if code.isEmpty then
        e
      else
        code ++ ": " ++ e

def classifyS3ServiceError
    (code : Option String)
    (e context : String) : CoreError :=
  classifyS3Error (serviceText code e) context

def eqIgnoreAsciiCase (a b : String) : Bool :=
  toAsciiLowercase a = toAsciiLowercase b

/- What the text of a failed condition is known by. -/
def conditionPatterns : List String :=
  ["preconditionfailed", "precondition failed", "412"]

def isPreconditionFailedError
    (code : Option String)
    (e : String) : Bool :=
  code.any (eqIgnoreAsciiCase · "PreconditionFailed") ||
    holdsAny e conditionPatterns

variable {code e text context msg : String} {c : ErrorClass}

theorem rank_injective
    {c c' : ErrorClass}
    (h : c.rank = c'.rank) : c = c' := by
  cases c <;> cases c' <;> first | rfl | cases h

/- The text has the class, and no class before it. -/
theorem classOf_spec (text : String) :
    (classOf text = .other ∨ holds text (classOf text) = true) ∧
      ∀ c, c.rank < (classOf text).rank →
        holds text c = false := by
  unfold classOf
  split_ifs with hLost hMissing hAccess hConflict hNetwork
  all_goals
    refine ⟨by simp_all, fun c hRank => ?_⟩
    cases c <;> simp_all [ErrorClass.rank]

theorem classOf_eq_iff :
    classOf text = c ↔
      (c = .other ∨ holds text c = true) ∧
        ∀ c', c'.rank < c.rank → holds text c' = false := by
  have hSpec := classOf_spec text
  constructor
  · rintro rfl
    exact hSpec
  · rintro ⟨hHolds, hBefore⟩
    apply rank_injective
    rcases Nat.lt_trichotomy (classOf text).rank c.rank with
      hLess | hSame | hMore
    · have hNot := hBefore _ hLess
      rcases hSpec.1 with hOther | hThere
      · rw [hOther] at hLess
        cases c <;> simp [ErrorClass.rank] at hLess
      · rw [hNot] at hThere
        cases hThere
    · exact hSame
    · have hNot := hSpec.2 _ hMore
      rcases hHolds with rfl | hThere
      · revert hMore
        cases classOf text <;> simp [ErrorClass.rank]
      · rw [hNot] at hThere
        cases hThere

theorem toAsciiLowercase_joined (code e : String) :
    toAsciiLowercase (code ++ ": " ++ e) =
      toAsciiLowercase code ++
        ':' :: ' ' :: toAsciiLowercase e := by
  simp [toAsciiLowercase]

theorem patterns_joinable :
    ∀ pattern ∈ c.patterns,
      ':' ∉ pattern.toList ∧ pattern.toList.head? ≠ some ' ' ∧
        pattern.toList ≠ [] := by
  cases c <;> decide

/- Code and text are searched as if each were alone. -/
theorem holds_serviceText :
    holds (serviceText (some code) e) c =
      (holds code c || holds e c) := by
  unfold serviceText
  dsimp only
  split
  · rename_i hEmpty
    have hCode : code = "" := String.isEmpty_iff.mp hEmpty
    have hNothing : holds code c = false := by
      unfold holds holdsAny
      rw [List.any_eq_false]
      intro pattern hMem hIn
      rw [hCode] at hIn
      have hNil := List.infix_nil.mp (of_decide_eq_true hIn)
      exact (patterns_joinable pattern hMem).2.2 hNil
    rw [hNothing, Bool.false_or]
  · rw [Bool.eq_iff_iff, Bool.or_eq_true]
    unfold holds holdsAny
    rw [List.any_eq_true, List.any_eq_true, List.any_eq_true,
      ← exists_or]
    apply exists_congr
    intro pattern
    rw [← and_or_left]
    apply and_congr_right
    intro hMem
    have hPattern := patterns_joinable pattern hMem
    rw [decide_eq_true_eq, decide_eq_true_eq,
      decide_eq_true_eq, toAsciiLowercase_joined,
      infix_separated_iff hPattern.1,
      infix_cons_of_head hPattern.2.1]

/- The class of the code is kept by texts without earlier ones. -/
theorem classOf_serviceText_iff :
    classOf (serviceText (some code) e) = classOf code ↔
      ∀ c, c.rank < (classOf code).rank →
        holds e c = false := by
  have hSpec := classOf_spec code
  rw [classOf_eq_iff]
  simp only [holds_serviceText, Bool.or_eq_true,
    Bool.or_eq_false_iff]
  constructor
  · exact fun h c hRank => (h.2 c hRank).2
  · exact fun h =>
      ⟨hSpec.1.imp_right .inl,
        fun c hRank => ⟨hSpec.2 c hRank, h c hRank⟩⟩

/- Classes are told apart by what is reported. -/
theorem report_inj
    {c' : ErrorClass}
    (h : c.report msg context = c'.report msg context) :
    c = c' := by
  have hTexts :
      "412 PreconditionFailed: " ++ context ≠
        "conflict: " ++ context := by
    intro hSame
    have hHead := congrArg (fun s => s.toList.head?) hSame
    simp at hHead
  cases c <;> cases c' <;>
    simp_all [ErrorClass.report, Ne.symm]

------------------------------------------------------------
-- Codes
------------------------------------------------------------

/-
  An error is what its code says: one with a code that the
  search knows is reported as that, no other is reported as
  missing or as a conflict, unless its code is, and only one
  code is a failed condition.
-/
structure ClassifiedByCode (code e context : String) : Prop where
  known :
    classOf code ≠ .other →
      classifyS3ServiceError (some code) e context =
        (classOf code).report
          ("s3 error (" ++ context ++ "): " ++
            serviceText (some code) e)
          context
  notMissing :
    classOf code ∈ [.access, .network, .other] →
      ∀ m, classifyS3ServiceError (some code) e context ≠
        .notFound m
  notConflict :
    classOf code ∈ [.access, .network, .other] →
      ∀ m, classifyS3ServiceError (some code) e context ≠
        .conflict m
  condition :
    isPreconditionFailedError (some code) e =
      eqIgnoreAsciiCase code "PreconditionFailed"

/- Nothing in the text comes before what the code says. -/
structure QuietText (code e : String) : Prop where
  known :
    classOf code ≠ .other →
      ∀ c, c.rank < (classOf code).rank → holds e c = false
  unknown :
    classOf code = .other →
      holds e .lostCondition = false ∧
        holds e .notFound = false ∧
        (holds e .conflict = true → holds e .access = true)
  condition :
    eqIgnoreAsciiCase code "PreconditionFailed" = true ∨
      holdsAny e conditionPatterns = false

theorem report_ne_notFound_iff :
    (∀ m, c.report msg context ≠ .notFound m) ↔
      c ≠ .notFound := by
  cases c <;> simp [ErrorClass.report]

theorem report_ne_conflict_iff :
    (∀ m, c.report msg context ≠ .conflict m) ↔
      c ≠ .lostCondition ∧ c ≠ .conflict := by
  cases c <;> simp [ErrorClass.report]

/- With a code that is not known, the text decides. -/
theorem classOf_unknown
    (hCode : classOf code = .other) :
    classOf (serviceText (some code) e) = classOf e := by
  have hNone : ∀ c, holds code c = false := by
    intro c
    cases c with
    | other => rfl
    | _ => exact (classOf_eq_iff.mp hCode).2 _ (by decide)
  unfold classOf
  simp only [holds_serviceText, hNone, Bool.false_or]

theorem classOf_harmless_iff :
    (classOf text ≠ .notFound ∧ classOf text ≠ .lostCondition ∧
        classOf text ≠ .conflict) ↔
      holds text .lostCondition = false ∧
        holds text .notFound = false ∧
        (holds text .conflict = true →
          holds text .access = true) := by
  unfold classOf
  split_ifs <;> simp_all

theorem serviceError_eq :
    classifyS3ServiceError (some code) e context =
      (classOf (serviceText (some code) e)).report
        ("s3 error (" ++ context ++ "): " ++
          serviceText (some code) e)
        context := rfl

/- The condition under which errors are what their codes say. -/
theorem classifiedByCode_iff
    (code e context : String) :
    ClassifiedByCode code e context ↔ QuietText code e := by
  constructor
  · intro h
    refine ⟨?_, ?_, ?_⟩
    · intro hKnown
      exact classOf_serviceText_iff.mp
        (report_inj (h.known hKnown))
    · intro hUnknown
      have hMissing := report_ne_notFound_iff.mp
        (h.notMissing (by simp [hUnknown]))
      have hConflict := report_ne_conflict_iff.mp
        (h.notConflict (by simp [hUnknown]))
      rw [classOf_unknown hUnknown] at hMissing hConflict
      exact classOf_harmless_iff.mp ⟨hMissing, hConflict⟩
    · have hCondition := h.condition
      unfold isPreconditionFailedError at hCondition
      rw [Option.any_some] at hCondition
      cases hCode : eqIgnoreAsciiCase code "PreconditionFailed"
      · rw [hCode, Bool.false_or] at hCondition
        exact .inr hCondition
      · exact .inl rfl
  · intro h
    have hHarmless :
        classOf code ∈ [.access, .network, .other] →
          classOf (serviceText (some code) e) ≠ .notFound ∧
            classOf (serviceText (some code) e) ≠
              .lostCondition ∧
            classOf (serviceText (some code) e) ≠
              .conflict := by
      intro hClass
      by_cases hOther : classOf code = .other
      · rw [classOf_unknown hOther]
        exact classOf_harmless_iff.mpr (h.unknown hOther)
      · rw [classOf_serviceText_iff.mpr (h.known hOther)]
        refine ⟨?_, ?_, ?_⟩ <;>
          · intro hSame
            simp [hSame] at hClass
    refine ⟨?_, ?_, ?_, ?_⟩
    · intro hKnown
      rw [serviceError_eq,
        classOf_serviceText_iff.mpr (h.known hKnown)]
    · intro hClass
      exact report_ne_notFound_iff.mpr (hHarmless hClass).1
    · intro hClass
      exact report_ne_conflict_iff.mpr (hHarmless hClass).2
    · unfold isPreconditionFailedError
      rw [Option.any_some]
      rcases h.condition with hCode | hText
      · rw [hCode, Bool.true_or]
      · rw [hText, Bool.or_false]

/- A server that names the key of a missing entry. -/
def missingKeyText : String :=
  "NoSuchKey: The specified key does not exist: " ++
    ".s4drive/meta/tree/" ++
    "01a127b5-a486-7291-b412-d63fc70714b5.json"

/- The entry is reported as a condition that was lost. -/
theorem missing_key_is_conflict :
    classifyS3ServiceError (some "NoSuchKey") missingKeyText
        "k" =
      .conflict "412 PreconditionFailed: k" ∧
    ¬ ClassifiedByCode "NoSuchKey" missingKeyText "k" := by
  have hReported :
      classifyS3ServiceError (some "NoSuchKey") missingKeyText
          "k" =
        .conflict "412 PreconditionFailed: k" := by
    decide +kernel
  refine ⟨hReported, fun h => ?_⟩
  have hKnown : classOf "NoSuchKey" = .notFound := by
    decide +kernel
  have hCode := h.known (by simp [hKnown])
  rw [hReported, hKnown] at hCode
  cases hCode

end S3Client

end S4Drive

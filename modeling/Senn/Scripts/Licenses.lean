import Senn.Lib.Words
import Senn.Lib.Brackets
import Senn.Js.Text

/-! # License expressions

`evaluateExpression` of `check-licenses.ts`, which looks for the operators of an SPDX expression
with word-boundary patterns and splits at them. -/

namespace Senn.Scripts
open Senn.Js Senn.Lib

/-! ## Text -/

/-- The units `trim` takes off: white space and the ends of lines. -/
def isBlank (u : UInt16) : Bool :=
  (0x09 ≤ u && u ≤ 0x0D) || u = 0x20 || u = 0xA0 || u = 0x1680 || (0x2000 ≤ u && u ≤ 0x200A) ||
    u = 0x2028 || u = 0x2029 || u = 0x202F || u = 0x205F || u = 0x3000 || u = 0xFEFF

def trim (s : JsString) : JsString := trimmed isBlank s

/-- `[A-Za-z0-9]` -/
def isAlphanumeric (u : UInt16) : Bool :=
  (0x30 ≤ u && u ≤ 0x39) || (0x41 ≤ u && u ≤ 0x5A) || (0x61 ≤ u && u ≤ 0x7A)

/-- `\w` -/
def isWordUnit (u : UInt16) : Bool := isAlphanumeric u || u = 0x5F

/-- The test of `s` against `w` between two `\b`. -/
def testWord (w s : JsString) : Bool := hasKeyword isWordUnit w false s

/-- `s.split` at `w` between two `\b`. -/
def splitAtWord (w s : JsString) : List JsString := splitKeyword isWordUnit w 0 false s

/-! ## The gate on one expression -/

def ALLOWED : List JsString :=
  [js "MIT", js "Apache-2.0", js "BSD-2-Clause", js "BSD-3-Clause", js "ISC", js "0BSD",
    js "CC0-1.0", js "Unlicense"]

def DISALLOWED_PREFIXES : List JsString := [js "GPL", js "AGPL", js "SSPL", js "BUSL"]

structure EvalOutcome where
  ok : Bool
  reason : Option JsString

def isDisallowedSimple (license : JsString) : Bool :=
  DISALLOWED_PREFIXES.any fun t => license = t || (t ++ js "-").isPrefixOf license

/-- One turn of the loop: what an outer pair of parentheses encloses, if its parentheses match. -/
def peel (e : JsString) : Option JsString :=
  let inner := e.tail.dropLast
  if e.head? = some 0x28 && e.getLast? = some 0x29 && closes 0x28 0x29 0 inner then some inner
  else none

/-- The loop, which has no more turns than the text has units. -/
def stripLoop : Nat → JsString → JsString
  | 0, e => e
  | turns + 1, e => ((peel e).map fun inner => stripLoop turns (trim inner)).getD e

def stripBalancedOuterParens (expr : JsString) : JsString := stripLoop expr.length (trim expr)

def unsupported (kind rawExpr why : JsString) : EvalOutcome :=
  ⟨false, some (js "unsupported " ++ kind ++ js "SPDX expression \"" ++ rawExpr ++ js "\"" ++ why ++
    js "; add to LICENSE_OVERRIDES.json with rationale")⟩

def refused (what rawExpr why : JsString) : EvalOutcome :=
  ⟨false, some (what ++ js " \"" ++ rawExpr ++ js "\"" ++ why ++ js " (docs/license-policy.md)")⟩

def evaluateOr (rawExpr expr : JsString) : EvalOutcome :=
  let parts := (splitAtWord (js "OR") expr).map trim
  if parts.any (ALLOWED.contains ·) then ⟨true, none⟩
  else match parts.find? isDisallowedSimple with
    | some disallowed =>
      refused (js "license expression") rawExpr (js " — " ++ disallowed ++ js " is disallowed")
    | none => refused (js "license expression") rawExpr (js " — no clause is in the allow list")

def evaluateAnd (rawExpr expr : JsString) : EvalOutcome :=
  let parts := (splitAtWord (js "AND") expr).map trim
  match parts.find? fun p => !ALLOWED.contains p with
  | some notAllowed =>
    refused (js "license expression") rawExpr (js " — \"" ++ notAllowed ++
      if isDisallowedSimple notAllowed then js "\" is disallowed" else js "\" not in allow list")
  | none => ⟨true, none⟩

def evaluateSingle (rawExpr expr : JsString) : EvalOutcome :=
  if ALLOWED.contains expr then ⟨true, none⟩
  else if isDisallowedSimple expr then refused (js "license") rawExpr (js " is disallowed")
  else refused (js "license") rawExpr (js " not in allow list")

def evaluateExpression (rawExpr : JsString) : EvalOutcome :=
  let expr := stripBalancedOuterParens rawExpr
  let hasOr := testWord (js "OR") expr
  let hasAnd := testWord (js "AND") expr
  if testWord (js "WITH") expr then unsupported [] rawExpr (js " (contains WITH)")
  else if expr.contains 0x2B then unsupported [] rawExpr (js " (contains \"+\")")
  else if expr.contains 0x28 then unsupported (js "nested ") rawExpr []
  else if hasOr && hasAnd then unsupported (js "mixed-operator ") rawExpr []
  else if hasOr then evaluateOr rawExpr expr
  else if hasAnd then evaluateAnd rawExpr expr
  else evaluateSingle rawExpr expr

/-! ## Outer parentheses -/

/-- `out` is what is left of `e` when outer parentheses that match are taken off for as long as
there are any, with the blanks inside of them. -/
inductive Strips : JsString → JsString → Prop
  | done {e} (h : ¬∃ inner, e = 0x28 :: inner ++ [0x29] ∧ Balanced 0x28 0x29 inner) : Strips e e
  | pair {inner out} (h : Balanced 0x28 0x29 inner) (hrest : Strips (trim inner) out) :
    Strips (0x28 :: inner ++ [0x29]) out

theorem peel_iff {e inner : JsString} :
    peel e = some inner ↔ e = 0x28 :: inner ++ [0x29] ∧ Balanced 0x28 0x29 inner := by
  have hne : (0x28 : UInt16) ≠ 0x29 := by decide
  simp only [peel, Option.ite_none_right_eq_some, Bool.and_eq_true, decide_eq_true_eq,
    Option.some.injEq, closes_iff hne]
  constructor
  · intro h
    obtain ⟨⟨⟨hhead, hlast⟩, hclosed⟩, rfl⟩ := h
    obtain ⟨t, rfl⟩ := List.head?_eq_some_iff.mp hhead
    obtain ⟨ys, hys⟩ := List.getLast?_eq_some_iff.mp hlast
    cases ys with
    | nil => exact absurd (List.cons.inj hys).1 hne
    | cons d inner =>
      rw [List.cons_append] at hys
      obtain ⟨rfl, rfl⟩ : 0x28 = d ∧ t = inner ++ [0x29] := List.cons.inj hys
      rw [List.tail_cons, List.dropLast_concat] at hclosed ⊢
      exact ⟨rfl, hclosed⟩
  · intro h
    obtain ⟨rfl, hclosed⟩ := h
    have hinner : (0x28 :: inner ++ [0x29]).tail.dropLast = inner := by simp
    rw [hinner]
    exact ⟨⟨⟨rfl, List.getLast?_concat⟩, hclosed⟩, rfl⟩

theorem trim_length_le (s : JsString) : (trim s).length ≤ s.length := by
  obtain ⟨a, b, heq, -⟩ := trimmed_split isBlank s
  have hlen := congrArg List.length heq
  simp only [List.length_append] at hlen
  rw [trim]
  omega

theorem stripLoop_strips (turns : Nat) : ∀ e : JsString, e.length ≤ turns →
    Strips e (stripLoop turns e) := by
  induction turns with
  | zero =>
    intro e he
    rw [List.length_eq_zero_iff.mp (Nat.le_zero.mp he)]
    exact .done fun h => by simp at h
  | succ turns ih =>
    intro e he
    rw [stripLoop]
    cases hpeel : peel e with
    | none =>
      refine .done fun h => ?_
      obtain ⟨inner, hinner⟩ := h
      exact absurd (peel_iff.mpr hinner) (by simp [hpeel])
    | some inner =>
      obtain ⟨rfl, hclosed⟩ := peel_iff.mp hpeel
      have hle := trim_length_le inner
      simp only [List.length_append, List.length_cons] at he
      exact .pair hclosed (ih (trim inner) (by omega))

/-- The loop ends, and takes nothing but matching outer pairs and blanks off. -/
theorem stripBalancedOuterParens_strips (raw : JsString) :
    Strips (trim raw) (stripBalancedOuterParens raw) :=
  stripLoop_strips _ _ (trim_length_le raw)

/-! ## SPDX expressions -/

/-- `[A-Za-z0-9.-]` -/
def isIdentifierUnit (u : UInt16) : Bool := isAlphanumeric u || u = 0x2E || u = 0x2D

/-- A license identifier, which is none of the operators. -/
structure IsIdentifier (i : JsString) : Prop where
  nonempty : i ≠ []
  units : ∀ u ∈ i, isIdentifierUnit u = true
  noOperator : i ∉ [js "OR", js "AND", js "WITH"]

inductive Operator where
  | or
  | and
  deriving DecidableEq

def Operator.word : Operator → JsString
  | .or => js "OR"
  | .and => js "AND"

/-- Identifiers joined by one operator. A single one is joined by either. -/
structure Expression where
  operator : Operator
  ids : List JsString
  nonempty : ids ≠ []
  identifiers : ∀ i ∈ ids, IsIdentifier i

namespace Expression

/-- How the expression is written. -/
def words (x : Expression) : List JsString := x.ids.intersperse x.operator.word

/-- The allow-list satisfies the expression. -/
def Satisfied (x : Expression) : Prop :=
  match x.operator with
  | .or => ∃ i ∈ x.ids, i ∈ ALLOWED
  | .and => ∀ i ∈ x.ids, i ∈ ALLOWED

end Expression

/-- `e` is an expression that the allow-list satisfies. -/
def Acceptable (e : JsString) : Prop :=
  ∃ x : Expression, Lib.words isBlank e = x.words ∧ x.Satisfied

/-! ## What the gate accepts -/

theorem evaluateOr_ok {raw e : JsString} :
    (evaluateOr raw e).ok = true ↔ ∃ p ∈ splitAtWord (js "OR") e, trim p ∈ ALLOWED := by
  simp only [evaluateOr, List.any_map, List.any_eq_true, Function.comp_apply,
    List.contains_iff_mem]
  split
  · next h => exact iff_of_true rfl h
  · next h => exact iff_of_false (by split <;> simp [refused]) h

theorem evaluateAnd_ok {raw e : JsString} :
    (evaluateAnd raw e).ok = true ↔ ∀ p ∈ splitAtWord (js "AND") e, trim p ∈ ALLOWED := by
  rw [evaluateAnd]
  split
  · next p h =>
    obtain ⟨q, hq, rfl⟩ := List.mem_map.mp (List.mem_of_find?_eq_some h)
    have hnot := List.find?_some h
    refine iff_of_false (by simp [refused]) fun hall => ?_
    simp [hall q hq] at hnot
  · next h =>
    refine iff_of_true rfl fun p hp => ?_
    simpa using List.find?_eq_none.mp h (trim p) (List.mem_map_of_mem hp)

theorem evaluateSingle_ok {raw e : JsString} : (evaluateSingle raw e).ok = true ↔ e ∈ ALLOWED := by
  simp only [evaluateSingle, List.contains_iff_mem]
  split
  · next h => exact iff_of_true rfl h
  · next h => exact iff_of_false (by split <;> simp [refused]) h

/-- `e` has none of what the gate refuses outright. -/
structure Plain (e : JsString) : Prop where
  noWith : testWord (js "WITH") e = false
  noPlus : e.contains 0x2B = false
  noNesting : e.contains 0x28 = false
  notMixed : ¬(testWord (js "OR") e = true ∧ testWord (js "AND") e = true)

/-- Past the outright refusals, the operator decides how `e` is judged. -/
theorem accepted_iff {raw e : JsString} (he : stripBalancedOuterParens raw = e) :
    (evaluateExpression raw).ok = true ↔ Plain e ∧
      if testWord (js "OR") e then (evaluateOr raw e).ok = true
      else if testWord (js "AND") e then (evaluateAnd raw e).ok = true
      else (evaluateSingle raw e).ok = true := by
  rw [evaluateExpression, he]
  by_cases hplain : Plain e
  · have hmixed : (testWord (js "OR") e && testWord (js "AND") e) = false := by
      simpa using hplain.notMixed
    rw [if_neg (by rw [hplain.noWith]; decide), if_neg (by rw [hplain.noPlus]; decide),
      if_neg (by rw [hplain.noNesting]; decide), if_neg (by rw [hmixed]; decide)]
    simp only [hplain, true_and]
    split
    · rfl
    · split <;> rfl
  · refine iff_of_false (fun hok => hplain ?_) fun h => hplain h.1
    split at hok
    · exact absurd hok (by simp [unsupported])
    next hwith =>
    split at hok
    · exact absurd hok (by simp [unsupported])
    next hplus =>
    split at hok
    · exact absurd hok (by simp [unsupported])
    next hnesting =>
    split at hok
    · exact absurd hok (by simp [unsupported])
    next hmixed =>
    exact ⟨eq_false_of_ne_true hwith, eq_false_of_ne_true hplus, eq_false_of_ne_true hnesting,
      fun h => hmixed (Bool.and_eq_true_iff.mpr h)⟩

/-! ## Clauses and words -/

theorem isWordUnit_of_blank (u : UInt16) (h : isBlank u = true) : isWordUnit u = false := by
  simp only [isBlank, isWordUnit, isAlphanumeric, Bool.or_eq_true, Bool.and_eq_true,
    decide_eq_true_eq, Bool.or_eq_false_iff, Bool.and_eq_false_iff, decide_eq_false_iff_not,
    UInt16.le_iff_toNat_le, ← UInt16.toNat_inj] at h ⊢
  simp only [UInt16.reduceToNat] at h ⊢
  omega

/-- The identifiers of the allow-list start and end with a unit of words. -/
theorem allowed_solid {i : JsString} (h : i ∈ ALLOWED) : Solid isBlank isWordUnit i := by
  have hall : (ALLOWED.all fun i => !i.isEmpty && i.all (fun c => !isBlank c) &&
      i.head?.all isWordUnit && i.getLast?.all isWordUnit) = true := by decide
  have hi := List.all_eq_true.mp hall i h
  simp only [Bool.and_eq_true, List.all_eq_true, Option.all_eq_true, Bool.not_eq_true'] at hi
  obtain ⟨⟨⟨hne, hblank⟩, hhead⟩, hlast⟩ := hi
  exact ⟨⟨List.isEmpty_eq_false_iff.mp hne, hblank⟩, hhead, hlast⟩

theorem allowed_identifier {i : JsString} (h : i ∈ ALLOWED) : IsIdentifier i := by
  have hall : (ALLOWED.all fun i => !i.isEmpty && i.all isIdentifierUnit &&
      !List.contains [js "OR", js "AND", js "WITH"] i) = true := by decide
  have hi := List.all_eq_true.mp hall i h
  simp only [Bool.and_eq_true, List.all_eq_true, Bool.not_eq_true'] at hi
  obtain ⟨⟨hne, hunits⟩, hnot⟩ := hi
  refine ⟨List.isEmpty_eq_false_iff.mp hne, hunits, fun hmem => ?_⟩
  rw [List.contains_iff_mem.mpr hmem] at hnot
  exact Bool.noConfusion hnot

theorem operator_not_identifier (o : Operator) : ¬IsIdentifier o.word := by
  intro h
  have hnot := h.noOperator
  cases o <;> simp [Operator.word] at hnot

theorem operator_units (o : Operator) : o.word ≠ [] ∧ ∀ u ∈ o.word, isWordUnit u = true := by
  have hunits : o.word.all isWordUnit = true := by cases o <;> decide
  exact ⟨by cases o <;> decide, List.all_eq_true.mp hunits⟩

theorem operator_isWord (o : Operator) : IsWord isBlank o.word := by
  refine ⟨(operator_units o).1, fun u hu => ?_⟩
  have hunit := (operator_units o).2 u hu
  by_contra hblank
  rw [isWordUnit_of_blank u (eq_true_of_ne_false hblank)] at hunit
  exact Bool.noConfusion hunit

theorem splitAtWord_cuts (o : Operator) (e : JsString) :
    Cuts isWordUnit o.word false e (splitAtWord o.word e) :=
  splitKeyword_cuts (operator_units o).1 (operator_units o).2 e.length false e (Nat.le_refl _)

/-- A clause that is on the allow-list is one of the words. -/
theorem allowed_mem_words {o : Operator} {e p : JsString} (hp : p ∈ splitAtWord o.word e)
    (h : trim p ∈ ALLOWED) : trim p ∈ Lib.words isBlank e := by
  have hsolid := allowed_solid h
  obtain ⟨x, y, heq, -, hx, hy⟩ := (splitAtWord_cuts o e).delimited (by simp) hp hsolid
  rw [heq]
  exact mem_words hsolid.isWord hx hy

theorem mem_intersperse {w i : JsString} {is : List JsString} :
    i ∈ is.intersperse w → i ∈ is ∨ i = w := by
  induction is with
  | nil => simp
  | cons j is ih =>
    cases is with
    | nil => exact .inl
    | cons k is =>
      rw [List.intersperse_cons_cons, List.mem_cons, List.mem_cons, List.mem_cons]
      intro h
      rcases h with h | h | h
      · exact .inl (.inl h)
      · exact .inr h
      · exact (ih h).imp .inr id

theorem mem_intersperse_of_mem {w i : JsString} {is : List JsString} (h : i ∈ is) :
    i ∈ is.intersperse w := by
  induction is with
  | nil => exact h
  | cons j is ih =>
    cases is with
    | nil => exact h
    | cons k is =>
      rw [List.intersperse_cons_cons]
      cases List.mem_cons.mp h with
      | inl heq => exact heq ▸ List.mem_cons_self
      | inr hrest => exact List.mem_cons_of_mem _ (List.mem_cons_of_mem _ (ih hrest))

/-- An operator that joins identifiers is found by its pattern. -/
theorem ids_single {x : Expression} {e : JsString} (h : Lib.words isBlank e = x.words)
    (hnot : testWord x.operator.word e = false) : ∃ i, x.ids = [i] := by
  obtain ⟨i, is, hids⟩ := List.exists_cons_of_ne_nil x.nonempty
  cases is with
  | nil => exact ⟨i, hids⟩
  | cons j is =>
    have hmem : x.operator.word ∈ Lib.words isBlank e := by
      rw [h, Expression.words, hids, List.intersperse_cons_cons]
      exact List.mem_cons_of_mem _ List.mem_cons_self
    have hfound : testWord x.operator.word e = true :=
      hasKeyword_of_mem isWordUnit_of_blank hmem
    exact absurd (hfound.symm.trans hnot) (by decide)

/-! ## Soundness -/

/-- `e` is accepted for one of its clauses, and another part of it between two words `OR` is no
identifier: it is empty, has several words, or has a unit that identifiers have not. -/
structure Lenient (e : JsString) : Prop where
  plain : Plain e
  joined : testWord (js "OR") e = true
  allowed : ∃ p ∈ splitAtWord (js "OR") e, trim p ∈ ALLOWED
  clause : ∃ c ∈ clauses (js "OR") (Lib.words isBlank e), ¬∃ i, c = [i] ∧ IsIdentifier i

/-- All clauses of an accepted conjunction are on the allow-list, which leaves no room for other
words between them. -/
theorem allowed_clauses {e : JsString} (h : ∀ p ∈ splitAtWord (js "AND") e, trim p ∈ ALLOWED) :
    ∃ ids, ids ≠ [] ∧ Lib.words isBlank e = ids.intersperse (js "AND") ∧ ∀ i ∈ ids, i ∈ ALLOWED := by
  have hcuts := splitAtWord_cuts .and e
  have hwords := hcuts.words (operator_isWord .and) fun p hp => allowed_solid (h p hp)
  refine ⟨(splitAtWord (js "AND") e).map trim, fun hnil => ?_, hwords, fun i hi => ?_⟩
  · have hcuts := List.map_eq_nil_iff.mp hnil ▸ hcuts
    cases hcuts
  · obtain ⟨p, hp, rfl⟩ := List.mem_map.mp hi
    exact h p hp

theorem evaluateAnd_sound {e : JsString}
    (h : ∀ p ∈ splitAtWord (js "AND") e, trim p ∈ ALLOWED) : Acceptable e := by
  obtain ⟨ids, hne, hwords, hids⟩ := allowed_clauses h
  exact ⟨⟨.and, ids, hne, fun i hi => allowed_identifier (hids i hi)⟩, hwords, hids⟩

theorem evaluateSingle_sound {e : JsString} (h : e ∈ ALLOWED) : Acceptable e := by
  have hids : ∀ i ∈ [e], i ∈ ALLOWED := List.forall_mem_singleton.mpr h
  refine ⟨⟨.and, [e], List.cons_ne_nil e [], fun i hi => allowed_identifier (hids i hi)⟩, ?_, hids⟩
  exact words_single (allowed_solid h).isWord

/-- A disjunction with an allowed clause is sound unless it is malformed. -/
theorem evaluateOr_sound_iff {e : JsString} (hplain : Plain e) (hor : testWord (js "OR") e = true)
    (h : ∃ p ∈ splitAtWord (js "OR") e, trim p ∈ ALLOWED) : Acceptable e ↔ ¬Lenient e := by
  have hclauses := clauses_single (operator_not_identifier .or) (Lib.words isBlank e)
  constructor
  · intro haccept hlenient
    obtain ⟨x, hwords, -⟩ := haccept
    obtain ⟨c, hc, hbad⟩ := hlenient.clause
    have hjoined : Lib.words isBlank e = x.ids.intersperse (js "OR") := by
      cases hoperator : x.operator with
      | or => rw [hwords, Expression.words, hoperator]; rfl
      | and =>
        have hand : testWord x.operator.word e = false := by
          rw [hoperator]
          exact eq_false_of_ne_true fun hand => hplain.notMixed ⟨hor, hand⟩
        obtain ⟨i, hids⟩ := ids_single hwords hand
        rw [hwords, Expression.words, hids]
        rfl
    exact hbad (hclauses.mpr ⟨x.ids, x.nonempty, hjoined, x.identifiers⟩ c hc)
  · intro hlenient
    have hsingle : ∀ c ∈ clauses (js "OR") (Lib.words isBlank e), ∃ i, c = [i] ∧ IsIdentifier i := by
      intro c hc
      by_contra hbad
      exact hlenient ⟨hplain, hor, h, c, hc, hbad⟩
    obtain ⟨ids, hne, hwords, hids⟩ := hclauses.mp hsingle
    obtain ⟨p, hp, hallowed⟩ := h
    refine ⟨⟨.or, ids, hne, hids⟩, hwords, trim p, ?_, hallowed⟩
    have hmem := allowed_mem_words (o := .or) hp hallowed
    rw [hwords] at hmem
    refine (mem_intersperse hmem).resolve_right fun heq => ?_
    exact operator_not_identifier .or (heq ▸ allowed_identifier hallowed)

/-- What the gate promises of one expression: it is judged without its outer parentheses, and
accepted only if it is an expression that the allow-list satisfies. -/
structure Sound (raw : JsString) : Prop where
  strips : Strips (trim raw) (stripBalancedOuterParens raw)
  acceptable : (evaluateExpression raw).ok = true → Acceptable (stripBalancedOuterParens raw)

/-- The gate is sound for an expression unless it is a malformed disjunction with an allowed
clause. -/
theorem evaluateExpression_sound_iff (raw : JsString) :
    Sound raw ↔ ¬Lenient (stripBalancedOuterParens raw) := by
  have hiff := accepted_iff (rfl : stripBalancedOuterParens raw = _)
  constructor
  · intro hsound hlenient
    have hok := hiff.mpr ⟨hlenient.plain, by
      rw [if_pos hlenient.joined]
      exact evaluateOr_ok.mpr hlenient.allowed⟩
    exact (evaluateOr_sound_iff hlenient.plain hlenient.joined hlenient.allowed).mp
      (hsound.acceptable hok) hlenient
  · intro hlenient
    refine ⟨stripBalancedOuterParens_strips raw, fun hok => ?_⟩
    obtain ⟨hplain, hjudged⟩ := hiff.mp hok
    split at hjudged
    · next hor =>
      exact (evaluateOr_sound_iff hplain hor (evaluateOr_ok.mp hjudged)).mpr hlenient
    · split at hjudged
      · exact evaluateAnd_sound (evaluateAnd_ok.mp hjudged)
      · exact evaluateSingle_sound (evaluateSingle_ok.mp hjudged)

/-- A truncated disjunction is accepted, though its second clause is missing. -/
theorem truncated_accepted : ¬∀ raw, Sound raw := by
  intro hsound
  have hstrip : stripBalancedOuterParens (js "MIT OR") = js "MIT OR" := by decide
  have hplain : Plain (js "MIT OR") := ⟨by decide, by decide, by decide, by decide⟩
  have hor : testWord (js "OR") (js "MIT OR") = true := by decide
  have hallowed : ∃ p ∈ splitAtWord (js "OR") (js "MIT OR"), trim p ∈ ALLOWED := by decide
  have hclauses : clauses (js "OR") (Lib.words isBlank (js "MIT OR")) = [[js "MIT"], []] := by
    decide
  have hlenient : Lenient (js "MIT OR") := by
    refine ⟨hplain, hor, hallowed, [], by rw [hclauses]; simp, fun h => ?_⟩
    obtain ⟨i, hi, -⟩ := h
    exact List.cons_ne_nil i [] hi.symm
  have hok : (evaluateExpression (js "MIT OR")).ok = true := by decide
  have haccept := (hsound (js "MIT OR")).acceptable hok
  rw [hstrip] at haccept
  exact (evaluateOr_sound_iff hplain hor hallowed).mp haccept hlenient

end Senn.Scripts

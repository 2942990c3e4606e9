import Mathlib.Computability.RegularExpressions
import Senn.Lib.Words
import Senn.Protocol.Envelope

/-! # Versions

The pattern of a version, the grammar of SemVer 2.0.0, and on which strings they agree: the
pattern asks for no more than runs of digits and of the units `[0-9A-Za-z.-]`. -/

namespace Senn.Protocol.Semver
open Senn.Js

/-! ## The pattern -/

/-- `[…]` -/
def oneOf (units : JsString) : RegularExpression UInt16 :=
  units.foldr (fun u r => .char u + r) 0

/-- `r+` -/
def plus (r : RegularExpression UInt16) : RegularExpression UInt16 := r * r.star

/-- `(?:r)?` -/
def optional (r : RegularExpression UInt16) : RegularExpression UInt16 := 1 + r

/-- `\d` -/
def digitUnits : JsString := js "0123456789"

/-- `[0-9A-Za-z.-]` -/
def suffixUnits : JsString :=
  js "0123456789ABCDEFGHIJKLMNOPQRSTUVWXYZabcdefghijklmnopqrstuvwxyz.-"

def digits : RegularExpression UInt16 := plus (oneOf digitUnits)

/-- `(?:mark[0-9A-Za-z.-]+)?` -/
def suffixPattern (mark : UInt16) : RegularExpression UInt16 :=
  optional (.char mark * plus (oneOf suffixUnits))

/-- `/^\d+\.\d+\.\d+(?:-[0-9A-Za-z.-]+)?(?:\+[0-9A-Za-z.-]+)?$/`, which invites, envelopes, both
checks of a manifest and the registry each write out. -/
def SEMVER : RegularExpression UInt16 :=
  digits * .char 0x2E * digits * .char 0x2E * digits * suffixPattern 0x2D * suffixPattern 0x2B

/-! ## The grammar -/

/-- The parts of a version. -/
structure Parts where
  major : JsString
  minor : JsString
  patch : JsString
  pre : Option JsString
  build : Option JsString

def Parts.numbers (p : Parts) : List JsString := [p.major, p.minor, p.patch]

/-- An optional part, after the unit that opens it. -/
def suffix (mark : UInt16) : Option JsString → JsString
  | none => []
  | some s => mark :: s

def Parts.core (p : Parts) : JsString := [0x2E].intercalate p.numbers

/-- `major.minor.patch-pre+build` -/
def Parts.text (p : Parts) : JsString := p.core ++ suffix 0x2D p.pre ++ suffix 0x2B p.build

def isPositiveDigit (u : UInt16) : Bool := isDigit u && u ≠ 0x30

/-- `0-9A-Za-z-` -/
def isIdentifierUnit (u : UInt16) : Bool := isSemverUnit u && u ≠ 0x2E

/-- `<numeric identifier>` -/
inductive NumericIdentifier : JsString → Prop
  | zero : NumericIdentifier [0x30]
  | positive {u : UInt16} {r : JsString} (hu : isPositiveDigit u = true)
      (hr : r.all isDigit = true) : NumericIdentifier (u :: r)

/-- `<alphanumeric identifier>` -/
def AlphanumericIdentifier (s : JsString) : Prop :=
  s.all isIdentifierUnit = true ∧ s.any (fun u => !isDigit u) = true

/-- `<pre-release identifier>` -/
def PreReleaseIdentifier (s : JsString) : Prop := AlphanumericIdentifier s ∨ NumericIdentifier s

/-- `<build identifier>` -/
def BuildIdentifier (s : JsString) : Prop :=
  AlphanumericIdentifier s ∨ s ≠ [] ∧ s.all isDigit = true

/-- One identifier or more, with dots between them. -/
def DotSeparated (identifier : JsString → Prop) (s : JsString) : Prop :=
  ∃ ids ≠ [], s = [0x2E].intercalate ids ∧ ∀ id ∈ ids, identifier id

structure Parts.Grammatical (p : Parts) : Prop where
  numbers : ∀ n ∈ p.numbers, NumericIdentifier n
  pre : ∀ s ∈ p.pre, DotSeparated PreReleaseIdentifier s
  build : ∀ s ∈ p.build, DotSeparated BuildIdentifier s

/-- `<valid semver>` -/
def IsSemver (s : JsString) : Prop := ∃ p : Parts, p.text = s ∧ p.Grammatical

/-! ## What the pattern lets through -/

/-- Digits, and the units of a suffix. -/
structure Parts.Loose (p : Parts) : Prop where
  numbers : ∀ n ∈ p.numbers, n ≠ [] ∧ n.all isDigit = true
  pre : ∀ s ∈ p.pre, s ≠ [] ∧ s.all isSemverUnit = true
  build : ∀ s ∈ p.build, s ≠ [] ∧ s.all isSemverUnit = true

/-- Two digits or more, of which the first is `0`. -/
def LeadingZero (s : JsString) : Prop :=
  s.head? = some 0x30 ∧ 1 < s.length ∧ s.all isDigit = true

/-- A number with a leading zero, or an empty identifier. -/
def Parts.Offends (p : Parts) : Prop :=
  (∃ n ∈ p.numbers, LeadingZero n) ∨
    (∃ s ∈ p.pre, ∃ id ∈ s.splitOn 0x2E, id = [] ∨ LeadingZero id) ∨
    ∃ s ∈ p.build, [] ∈ s.splitOn 0x2E

/-- A version with an offending part. -/
def Offends (s : JsString) : Prop := ∃ p : Parts, p.text = s ∧ p.Loose ∧ p.Offends

/-! ## Units -/

theorem ne_dot_of_isDigit {u : UInt16} (h : isDigit u = true) : u ≠ 0x2E := by
  intro hu
  subst hu
  exact absurd h (by decide)

theorem ne_plus_of_isSemverUnit {u : UInt16} (h : isSemverUnit u = true) : u ≠ 0x2B := by
  intro hu
  subst hu
  exact absurd h (by decide)

theorem isSemverUnit_of_isDigit {u : UInt16} (h : isDigit u = true) : isSemverUnit u = true := by
  rw [isSemverUnit, h]
  rfl

theorem isIdentifierUnit_of_isDigit {u : UInt16} (h : isDigit u = true) :
    isIdentifierUnit u = true := by
  rw [isIdentifierUnit, isSemverUnit_of_isDigit h]
  exact decide_eq_true (ne_dot_of_isDigit h)

theorem isIdentifierUnit_iff {u : UInt16} :
    isIdentifierUnit u = true ↔ isSemverUnit u = true ∧ u ≠ 0x2E := by
  rw [isIdentifierUnit, Bool.and_eq_true, decide_eq_true_iff]

/-! ## Identifiers -/

theorem numericIdentifier_iff {n : JsString} :
    NumericIdentifier n ↔ (n ≠ [] ∧ n.all isDigit = true) ∧ ¬LeadingZero n := by
  constructor
  · intro h
    cases h with
    | zero => exact ⟨by decide, fun h => absurd h.2.1 (by decide)⟩
    | @positive u r hu hr =>
      obtain ⟨hdigit, hne⟩ := Bool.and_eq_true_iff.mp hu
      refine ⟨⟨List.cons_ne_nil u r, ?_⟩, fun h => ?_⟩
      · rw [List.all_cons, hdigit, hr]
        rfl
      · exact of_decide_eq_true hne (Option.some.inj h.1)
  · intro h
    obtain ⟨⟨hne, hall⟩, hzero⟩ := h
    obtain ⟨u, r, rfl⟩ := List.exists_cons_of_ne_nil hne
    have hdigits := hall
    rw [List.all_cons, Bool.and_eq_true] at hdigits
    by_cases hu : u = 0x30
    · subst hu
      cases r with
      | nil => exact .zero
      | cons v r => exact absurd ⟨rfl, by simp, hall⟩ hzero
    · refine .positive ?_ hdigits.2
      rw [isPositiveDigit, hdigits.1]
      exact decide_eq_true hu

theorem identifier_of_digits {s : JsString} (h : s.all isDigit = true) :
    s.all isIdentifierUnit = true :=
  List.all_eq_true.mpr fun u hu => isIdentifierUnit_of_isDigit (List.all_eq_true.mp h u hu)

theorem ne_nil_of_alphanumeric {s : JsString} (h : AlphanumericIdentifier s) : s ≠ [] := by
  intro hs
  subst hs
  exact absurd h.2 (by decide)

theorem not_digits_of_alphanumeric {s : JsString} (h : AlphanumericIdentifier s) :
    ¬s.all isDigit = true := by
  intro hdigits
  obtain ⟨u, hu, hnot⟩ := List.any_eq_true.mp h.2
  rw [List.all_eq_true.mp hdigits u hu] at hnot
  cases hnot

/-- An identifier is digits or has a unit that is none. -/
theorem alphanumeric_or_digits {s : JsString} (h : s.all isIdentifierUnit = true) :
    AlphanumericIdentifier s ∨ s.all isDigit = true := by
  by_cases hdigits : s.all isDigit = true
  · exact .inr hdigits
  · refine .inl ⟨h, ?_⟩
    rw [← List.not_all_eq_any_not]
    simpa using hdigits

theorem buildIdentifier_iff {s : JsString} :
    BuildIdentifier s ↔ s.all isIdentifierUnit = true ∧ s ≠ [] := by
  constructor
  · intro h
    obtain halpha | ⟨hne, hdigits⟩ := h
    · exact ⟨halpha.1, ne_nil_of_alphanumeric halpha⟩
    · exact ⟨identifier_of_digits hdigits, hne⟩
  · intro h
    obtain halpha | hdigits := alphanumeric_or_digits h.1
    · exact .inl halpha
    · exact .inr ⟨h.2, hdigits⟩

theorem preReleaseIdentifier_iff {s : JsString} : PreReleaseIdentifier s ↔
    s.all isIdentifierUnit = true ∧ ¬(s = [] ∨ LeadingZero s) := by
  constructor
  · intro h
    obtain halpha | hnumeric := h
    · refine ⟨halpha.1, fun h => ?_⟩
      obtain hnil | hzero := h
      · exact ne_nil_of_alphanumeric halpha hnil
      · exact not_digits_of_alphanumeric halpha hzero.2.2
    · obtain ⟨⟨hne, hdigits⟩, hzero⟩ := numericIdentifier_iff.mp hnumeric
      exact ⟨identifier_of_digits hdigits, not_or.mpr ⟨hne, hzero⟩⟩
  · intro h
    obtain ⟨hne, hzero⟩ := not_or.mp h.2
    obtain halpha | hdigits := alphanumeric_or_digits h.1
    · exact .inl halpha
    · exact .inr (numericIdentifier_iff.mpr ⟨⟨hne, hdigits⟩, hzero⟩)

/-! ## Dots -/

/-- The identifiers are what stands between the dots. -/
theorem dotSeparated_iff {identifier : JsString → Prop}
    (hdot : ∀ s, identifier s → s.all isIdentifierUnit = true) {s : JsString} :
    DotSeparated identifier s ↔ ∀ id ∈ s.splitOn 0x2E, identifier id := by
  constructor
  · intro h
    obtain ⟨ids, hne, rfl, hids⟩ := h
    have hunits : ∀ id ∈ ids, (0x2E : UInt16) ∉ id := by
      intro id hid hmem
      have hunit := List.all_eq_true.mp (hdot id (hids id hid)) _ hmem
      exact absurd hunit (by decide)
    rwa [List.splitOn_intercalate _ hunits hne]
  · exact fun h => ⟨_, List.splitOn_ne_nil _ _, (List.intercalate_splitOn _).symm, h⟩

/-- The units of a suffix are dots and the units of the identifiers between them. -/
theorem all_isSemverUnit_iff {s : JsString} : s.all isSemverUnit = true ↔
    ∀ id ∈ s.splitOn 0x2E, id.all isIdentifierUnit = true := by
  have hparts : (∀ id ∈ s.splitOn 0x2E, id.all isIdentifierUnit = true) ↔
      ∀ u ∈ s, u ≠ 0x2E → isIdentifierUnit u = true := by
    simp only [List.all_eq_true]
    exact Lib.forall_splitOn _ s
  rw [hparts, List.all_eq_true]
  refine forall₂_congr fun u _ => ⟨fun h hdot => isIdentifierUnit_iff.mpr ⟨h, hdot⟩, fun h => ?_⟩
  by_cases hdot : u = 0x2E
  · subst hdot
    rfl
  · exact (isIdentifierUnit_iff.mp (h hdot)).1

/-- A suffix is identifiers of which none is empty. -/
theorem suffix_units_iff {s : JsString} :
    (s ≠ [] ∧ s.all isSemverUnit = true) ∧ [] ∉ s.splitOn 0x2E ↔
      ∀ id ∈ s.splitOn 0x2E, id.all isIdentifierUnit = true ∧ id ≠ [] := by
  rw [all_isSemverUnit_iff]
  constructor
  · exact fun h id hid => ⟨h.1.2 id hid, fun hnil => h.2 (hnil ▸ hid)⟩
  · intro h
    have hempty : [] ∉ s.splitOn 0x2E := fun hmem => (h [] hmem).2 rfl
    refine ⟨⟨?_, fun id hid => (h id hid).1⟩, hempty⟩
    intro hs
    subst hs
    exact hempty (by simp)

theorem build_iff {s : JsString} : DotSeparated BuildIdentifier s ↔
    (s ≠ [] ∧ s.all isSemverUnit = true) ∧ [] ∉ s.splitOn 0x2E := by
  rw [dotSeparated_iff fun _ h => (buildIdentifier_iff.mp h).1, suffix_units_iff]
  exact forall₂_congr fun _ _ => buildIdentifier_iff

theorem pre_iff {s : JsString} : DotSeparated PreReleaseIdentifier s ↔
    (s ≠ [] ∧ s.all isSemverUnit = true) ∧
      ¬∃ id ∈ s.splitOn 0x2E, id = [] ∨ LeadingZero id := by
  rw [dotSeparated_iff fun _ h => (preReleaseIdentifier_iff.mp h).1]
  constructor
  · intro h
    have hunits := fun id hid => preReleaseIdentifier_iff.mp (h id hid)
    have hsuffix := suffix_units_iff.mpr fun id hid =>
      ⟨(hunits id hid).1, fun hnil => (hunits id hid).2 (.inl hnil)⟩
    refine ⟨hsuffix.1, fun hbad => ?_⟩
    obtain ⟨id, hid, hbad⟩ := hbad
    exact (hunits id hid).2 hbad
  · intro h id hid
    exact preReleaseIdentifier_iff.mpr
      ⟨all_isSemverUnit_iff.mp h.1.2 id hid, fun hbad => h.2 ⟨id, hid, hbad⟩⟩

/-- The grammar asks for what the pattern asks for, and that no part offends. -/
theorem Parts.grammatical_iff {p : Parts} : p.Grammatical ↔ p.Loose ∧ ¬p.Offends := by
  constructor
  · intro h
    refine ⟨⟨fun n hn => (numericIdentifier_iff.mp (h.numbers n hn)).1,
      fun s hs => (pre_iff.mp (h.pre s hs)).1, fun s hs => (build_iff.mp (h.build s hs)).1⟩, ?_⟩
    intro hbad
    obtain ⟨n, hn, hzero⟩ | ⟨s, hs, hid⟩ | ⟨s, hs, hid⟩ := hbad
    · exact (numericIdentifier_iff.mp (h.numbers n hn)).2 hzero
    · exact (pre_iff.mp (h.pre s hs)).2 hid
    · exact (build_iff.mp (h.build s hs)).2 hid
  · intro h
    obtain ⟨hloose, hgood⟩ := h
    exact ⟨fun n hn => numericIdentifier_iff.mpr
        ⟨hloose.numbers n hn, fun hzero => hgood (.inl ⟨n, hn, hzero⟩)⟩,
      fun s hs => pre_iff.mpr ⟨hloose.pre s hs, fun hid => hgood (.inr (.inl ⟨s, hs, hid⟩))⟩,
      fun s hs => build_iff.mpr ⟨hloose.build s hs, fun hid => hgood (.inr (.inr ⟨s, hs, hid⟩))⟩⟩

/-! ## How the text is cut -/

theorem takeWhile_suffix {mark : UInt16} {s : JsString} (h : mark ∉ s) (t : Option JsString) :
    (s ++ suffix mark t).takeWhile (· ≠ mark) = s := by
  have hall : ∀ u ∈ s, decide (u ≠ mark) = true :=
    fun u hu => decide_eq_true fun hmark => h (hmark ▸ hu)
  rw [List.takeWhile_append_of_pos hall]
  cases t with
  | none => exact List.append_nil s
  | some t => rw [suffix, List.takeWhile_cons_of_neg (by simp), List.append_nil]

theorem dropWhile_suffix {mark : UInt16} {s : JsString} (h : mark ∉ s) (t : Option JsString) :
    (s ++ suffix mark t).dropWhile (· ≠ mark) = suffix mark t := by
  have hall : ∀ u ∈ s, decide (u ≠ mark) = true :=
    fun u hu => decide_eq_true fun hmark => h (hmark ▸ hu)
  rw [List.dropWhile_append_of_pos hall]
  cases t with
  | none => rfl
  | some t => rw [suffix, List.dropWhile_cons_of_neg (by simp)]

theorem exists_suffix (mark : UInt16) (s : JsString) :
    ∃ t, s.dropWhile (· ≠ mark) = suffix mark t := by
  induction s with
  | nil => exact ⟨none, rfl⟩
  | cons u s ih =>
    by_cases hu : u = mark
    · subst hu
      exact ⟨some s, List.dropWhile_cons_of_neg (by simp)⟩
    · rw [List.dropWhile_cons_of_pos (by simpa using hu)]
      exact ih

theorem suffix_injective {mark : UInt16} {s t : Option JsString}
    (h : suffix mark s = suffix mark t) : s = t := by
  cases s with
  | none =>
    cases t with
    | none => rfl
    | some t => cases h
  | some s =>
    cases t with
    | none => cases h
    | some t => exact congrArg some (List.cons.inj h).2

theorem isSemverSuffix_iff (mark : UInt16) (t : Option JsString) :
    isSemverSuffix (suffix mark t) = true ↔ ∀ s ∈ t, s ≠ [] ∧ s.all isSemverUnit = true := by
  cases t with
  | none => simp [suffix, isSemverSuffix]
  | some t => simp [suffix, isSemverSuffix]

theorem Parts.Loose.numbers_eq {p : Parts} (h : p.Loose) : p.core.splitOn 0x2E = p.numbers :=
  List.splitOn_intercalate _
    (fun n hn hmem => ne_dot_of_isDigit (List.all_eq_true.mp (h.numbers n hn).2 _ hmem) rfl)
    (List.cons_ne_nil _ _)

theorem Parts.Loose.core_units {p : Parts} (h : p.Loose) {u : UInt16} (hu : u ∈ p.core)
    (hdot : u ≠ 0x2E) : isDigit u = true := by
  have hnumbers : ∀ n ∈ p.core.splitOn 0x2E, ∀ u ∈ n, isDigit u = true := by
    rw [h.numbers_eq]
    exact fun n hn => List.all_eq_true.mp (h.numbers n hn).2
  exact (Lib.forall_splitOn _ _).mp hnumbers u hu hdot

theorem Parts.Loose.not_mem_core {p : Parts} (h : p.Loose) {mark : UInt16}
    (hmark : isDigit mark = false ∧ mark ≠ 0x2E) : mark ∉ p.core := by
  intro hmem
  have hdigit := h.core_units hmem hmark.2
  rw [hmark.1] at hdigit
  cases hdigit

theorem Parts.Loose.not_mem_rest {p : Parts} (h : p.Loose) :
    (0x2B : UInt16) ∉ p.core ++ suffix 0x2D p.pre := by
  intro hmem
  obtain hmem | hmem := List.mem_append.mp hmem
  · exact h.not_mem_core (by decide) hmem
  · cases hpre : p.pre with
    | none =>
      rw [hpre] at hmem
      cases hmem
    | some s =>
      rw [hpre] at hmem
      obtain hmark | hmem := List.mem_cons.mp hmem
      · exact absurd hmark (by decide)
      · exact ne_plus_of_isSemverUnit (List.all_eq_true.mp (h.pre s hpre).2 _ hmem) rfl

/-- The parts of a text are read back from it. -/
theorem Parts.Loose.cut {p : Parts} (h : p.Loose) :
    p.text.dropWhile (· ≠ 0x2B) = suffix 0x2B p.build ∧
    (p.text.takeWhile (· ≠ 0x2B)).dropWhile (· ≠ 0x2D) = suffix 0x2D p.pre ∧
    (p.text.takeWhile (· ≠ 0x2B)).takeWhile (· ≠ 0x2D) = p.core := by
  rw [Parts.text, takeWhile_suffix h.not_mem_rest, dropWhile_suffix h.not_mem_rest,
    takeWhile_suffix (h.not_mem_core (by decide)), dropWhile_suffix (h.not_mem_core (by decide))]
  exact ⟨rfl, rfl, rfl⟩

theorem Parts.Loose.text_injective {p q : Parts} (hp : p.Loose) (hq : q.Loose)
    (h : p.text = q.text) : p = q := by
  obtain ⟨hbuild, hpre, hcore⟩ := hp.cut
  obtain ⟨hbuild', hpre', hcore'⟩ := hq.cut
  rw [h] at hbuild hpre hcore
  have hnumbers := hp.numbers_eq
  rw [← hcore, hcore', hq.numbers_eq] at hnumbers
  cases p
  cases q
  obtain rfl := suffix_injective (hbuild.symm.trans hbuild')
  obtain rfl := suffix_injective (hpre.symm.trans hpre')
  cases hnumbers
  rfl

/-- The pattern accepts the texts whose parts are of the units it names, and no others. -/
theorem matchesSemver_iff {s : JsString} :
    matchesSemver s = true ↔ ∃ p : Parts, p.text = s ∧ p.Loose := by
  constructor
  · intro h
    obtain ⟨build, hbuild⟩ := exists_suffix 0x2B s
    obtain ⟨pre, hpre⟩ := exists_suffix 0x2D (s.takeWhile (· ≠ 0x2B))
    simp only [matchesSemver, Bool.and_eq_true, decide_eq_true_eq, List.all_eq_true, hbuild, hpre,
      isSemverSuffix_iff] at h
    obtain ⟨⟨⟨hlength, hnumbers⟩, hpreUnits⟩, hbuildUnits⟩ := h
    obtain ⟨major, minor, patch, hsplit⟩ := List.length_eq_three.mp hlength
    have hcore : [0x2E].intercalate (((s.takeWhile (· ≠ 0x2B)).takeWhile (· ≠ 0x2D)).splitOn 0x2E) =
        (s.takeWhile (· ≠ 0x2B)).takeWhile (· ≠ 0x2D) := List.intercalate_splitOn _
    rw [hsplit] at hcore hnumbers
    refine ⟨⟨major, minor, patch, pre, build⟩, ?_, ⟨?_, ?_, ?_⟩⟩
    · rw [Parts.text, Parts.core, Parts.numbers, hcore, ← hpre, List.takeWhile_append_dropWhile,
        ← hbuild, List.takeWhile_append_dropWhile]
    · exact fun n hn => ⟨(hnumbers n hn).1, List.all_eq_true.mpr (hnumbers n hn).2⟩
    · exact fun t ht => ⟨(hpreUnits t ht).1, List.all_eq_true.mpr (hpreUnits t ht).2⟩
    · exact fun t ht => ⟨(hbuildUnits t ht).1, List.all_eq_true.mpr (hbuildUnits t ht).2⟩
  · intro h
    obtain ⟨p, rfl, hp⟩ := h
    obtain ⟨hbuild, hpre, hcore⟩ := hp.cut
    simp only [matchesSemver, hbuild, hpre, hcore, hp.numbers_eq, Bool.and_eq_true,
      isSemverSuffix_iff, List.all_eq_true (p := fun n : JsString => _), decide_eq_true_eq]
    exact ⟨⟨⟨rfl, hp.numbers⟩, hp.pre⟩, hp.build⟩

/-! ## The pattern is what is tested -/

/-- A class of ASCII units, by their codes. -/
theorem mem_class {units : JsString} {p : UInt16 → Bool} (hall : units.all p = true)
    (hcode : ∀ n < 128, p (.ofNat n) = true → UInt16.ofNat n ∈ units)
    (hascii : ∀ u, p u = true → u.toNat < 128) {u : UInt16} : u ∈ units ↔ p u = true := by
  refine ⟨List.all_eq_true.mp hall u, fun h => ?_⟩
  have hmem := hcode u.toNat (hascii u h)
  rw [UInt16.ofNat_toNat] at hmem
  exact hmem h

theorem isDigit_ascii (u : UInt16) (h : isDigit u = true) : u.toNat < 128 := by
  simp only [isDigit, Bool.and_eq_true, decide_eq_true_eq] at h
  omega

theorem isSemverUnit_ascii (u : UInt16) (h : isSemverUnit u = true) : u.toNat < 128 := by
  simp only [isSemverUnit, isLowerUnit, Bool.or_eq_true, Bool.and_eq_true, decide_eq_true_eq,
    UInt16.le_iff_toNat_le] at h
  obtain (((hdigit | hlower) | hupper) | rfl) | rfl := h
  · exact isDigit_ascii u hdigit
  · exact Nat.lt_of_le_of_lt hlower.2 (by decide)
  · exact Nat.lt_of_le_of_lt hupper.2 (by decide)
  · decide
  · decide

theorem mem_digitUnits {u : UInt16} : u ∈ digitUnits ↔ isDigit u = true :=
  mem_class (by decide) (by decide) isDigit_ascii

theorem mem_suffixUnits {u : UInt16} : u ∈ suffixUnits ↔ isSemverUnit u = true :=
  mem_class (by decide) (by decide) isSemverUnit_ascii

theorem mem_oneOf {units s : JsString} : s ∈ (oneOf units).matches' ↔ ∃ u ∈ units, s = [u] := by
  induction units with
  | nil => simp [oneOf]
  | cons v units ih =>
    have hstep : oneOf (v :: units) = .char v + oneOf units := rfl
    rw [hstep, RegularExpression.matches'_add, Language.mem_add, RegularExpression.matches'_char,
      ih]
    simp only [List.mem_cons, exists_eq_or_imp]
    rfl

theorem mem_star_oneOf {units s : JsString} :
    s ∈ (oneOf units).star.matches' ↔ ∀ u ∈ s, u ∈ units := by
  rw [RegularExpression.matches'_star, Language.mem_kstar]
  constructor
  · intro h u hu
    obtain ⟨L, rfl, hL⟩ := h
    obtain ⟨t, ht, hu⟩ := List.mem_flatten.mp hu
    obtain ⟨v, hv, rfl⟩ := mem_oneOf.mp (hL t ht)
    exact List.mem_singleton.mp hu ▸ hv
  · intro h
    refine ⟨s.map ([·]), (List.flatMap_singleton' s).symm, fun t ht => ?_⟩
    obtain ⟨u, hu, rfl⟩ := List.mem_map.mp ht
    exact mem_oneOf.mpr ⟨u, h u hu, rfl⟩

theorem mem_plus_oneOf {units s : JsString} :
    s ∈ (plus (oneOf units)).matches' ↔ s ≠ [] ∧ ∀ u ∈ s, u ∈ units := by
  rw [plus, RegularExpression.matches'_mul, Language.mem_mul]
  constructor
  · intro h
    obtain ⟨a, ha, b, hb, rfl⟩ := h
    obtain ⟨u, hu, rfl⟩ := mem_oneOf.mp ha
    exact ⟨List.cons_ne_nil u b, List.forall_mem_cons.mpr ⟨hu, mem_star_oneOf.mp hb⟩⟩
  · intro h
    obtain ⟨u, r, rfl⟩ := List.exists_cons_of_ne_nil h.1
    obtain ⟨hu, hr⟩ := List.forall_mem_cons.mp h.2
    exact ⟨[u], mem_oneOf.mpr ⟨u, hu, rfl⟩, r, mem_star_oneOf.mpr hr, rfl⟩

theorem mem_digits {s : JsString} : s ∈ digits.matches' ↔ s ≠ [] ∧ s.all isDigit = true := by
  rw [digits, mem_plus_oneOf, List.all_eq_true]
  simp only [mem_digitUnits]

theorem mem_suffix {mark : UInt16} {s : JsString} : s ∈ (suffixPattern mark).matches' ↔
    ∃ t, suffix mark t = s ∧ ∀ r ∈ t, r ≠ [] ∧ r.all isSemverUnit = true := by
  have hunits : ∀ r : JsString, r ∈ (plus (oneOf suffixUnits)).matches' ↔
      r ≠ [] ∧ r.all isSemverUnit = true := by
    intro r
    rw [mem_plus_oneOf, List.all_eq_true]
    simp only [mem_suffixUnits]
  rw [suffixPattern, optional, RegularExpression.matches'_add, Language.mem_add,
    RegularExpression.matches'_epsilon, Language.mem_one, RegularExpression.matches'_mul,
    Language.mem_mul]
  constructor
  · intro h
    obtain rfl | ⟨a, ha, r, hr, rfl⟩ := h
    · exact ⟨none, rfl, fun r hr => by cases hr⟩
    · obtain rfl : a = [mark] := ha
      refine ⟨some r, rfl, fun r' hr' => ?_⟩
      obtain rfl := Option.some.inj hr'
      exact (hunits r).mp hr
  · intro h
    obtain ⟨t, rfl, ht⟩ := h
    cases t with
    | none => exact .inl rfl
    | some r => exact .inr ⟨[mark], rfl, r, (hunits r).mpr (ht r rfl), rfl⟩

/-- The test is that of the pattern. -/
theorem matchesSemver_pattern (s : JsString) : matchesSemver s = SEMVER.rmatch s := by
  refine Bool.eq_iff_iff.mpr (matchesSemver_iff.trans ?_)
  rw [RegularExpression.rmatch_iff_matches', SEMVER]
  simp only [RegularExpression.matches'_mul, Language.mem_mul, RegularExpression.matches'_char,
    mem_digits, mem_suffix]
  constructor
  · intro h
    obtain ⟨p, rfl, hp⟩ := h
    have hmajor := hp.numbers p.major (by simp [Parts.numbers])
    have hminor := hp.numbers p.minor (by simp [Parts.numbers])
    have hpatch := hp.numbers p.patch (by simp [Parts.numbers])
    refine ⟨p.core ++ suffix 0x2D p.pre, ⟨p.core, ⟨p.major ++ [0x2E] ++ p.minor ++ [0x2E],
      ⟨p.major ++ [0x2E] ++ p.minor, ⟨p.major ++ [0x2E], ⟨p.major, hmajor, [0x2E], rfl, rfl⟩,
        p.minor, hminor, rfl⟩, [0x2E], rfl, rfl⟩, p.patch, hpatch, ?_⟩, _, ⟨p.pre, rfl, hp.pre⟩,
      rfl⟩, _, ⟨p.build, rfl, hp.build⟩, rfl⟩
    simp [Parts.core, Parts.numbers, List.intercalate]
  · intro h
    obtain ⟨-, ⟨-, ⟨-, ⟨-, ⟨-, ⟨major, hmajor, -, rfl, rfl⟩, minor, hminor, rfl⟩, -, rfl, rfl⟩,
      patch, hpatch, rfl⟩, -, ⟨pre, rfl, hpre⟩, rfl⟩, -, ⟨build, rfl, hbuild⟩, rfl⟩ := h
    refine ⟨⟨major, minor, patch, pre, build⟩, ?_, ⟨?_, hpre, hbuild⟩⟩
    · simp [Parts.text, Parts.core, Parts.numbers, List.intercalate]
    · intro n hn
      simp only [Parts.numbers, List.mem_cons, List.not_mem_nil, or_false] at hn
      obtain rfl | rfl | rfl := hn
      · exact hmajor
      · exact hminor
      · exact hpatch

/-! ## Where they agree -/

/-- A version of the grammar has the form of the pattern. -/
theorem matchesSemver_of_isSemver {s : JsString} (h : IsSemver s) : matchesSemver s = true := by
  obtain ⟨p, hp, hgrammatical⟩ := h
  exact matchesSemver_iff.mpr ⟨p, hp, (Parts.grammatical_iff.mp hgrammatical).1⟩

theorem isSemver_iff {s : JsString} : IsSemver s ↔ matchesSemver s = true ∧ ¬Offends s := by
  constructor
  · intro h
    refine ⟨matchesSemver_of_isSemver h, fun hbad => ?_⟩
    obtain ⟨p, hp, hgrammatical⟩ := h
    obtain ⟨hloose, hgood⟩ := Parts.grammatical_iff.mp hgrammatical
    obtain ⟨q, hq, hqloose, hqbad⟩ := hbad
    obtain rfl := hloose.text_injective hqloose (hp.trans hq.symm)
    exact hgood hqbad
  · intro h
    obtain ⟨p, hp, hloose⟩ := matchesSemver_iff.mp h.1
    exact ⟨p, hp, Parts.grammatical_iff.mpr ⟨hloose, fun hbad => h.2 ⟨p, hp, hloose, hbad⟩⟩⟩

/-- The test and the grammar agree on the strings that are no version with a leading zero or an
empty identifier. -/
theorem semver_agrees (s : JsString) : (matchesSemver s = true ↔ IsSemver s) ↔ ¬Offends s := by
  constructor
  · intro h hbad
    have haccepted : matchesSemver s = true := by
      obtain ⟨p, hp, hloose, -⟩ := hbad
      exact matchesSemver_iff.mpr ⟨p, hp, hloose⟩
    exact (isSemver_iff.mp (h.mp haccepted)).2 hbad
  · exact fun hgood => ⟨fun h => isSemver_iff.mpr ⟨h, hgood⟩, matchesSemver_of_isSemver⟩

/-- `01.0.0` is accepted. -/
theorem leading_zero_accepted :
    ¬(matchesSemver (js "01.0.0") = true ↔ IsSemver (js "01.0.0")) := by
  intro h
  have hoffends : Offends (js "01.0.0") := by
    refine ⟨⟨js "01", js "0", js "0", none, none⟩, by decide, ⟨by decide, ?_, ?_⟩, .inl ?_⟩
    · exact fun _ hs => by cases hs
    · exact fun _ hs => by cases hs
    · exact ⟨js "01", .head _, by decide, by decide, by decide⟩
  exact (isSemver_iff.mp (h.mp (by decide))).2 hoffends

end Senn.Protocol.Semver

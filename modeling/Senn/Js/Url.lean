import Senn.Js.Form

/-! # URLs

The record a `URL` holds, its serialiser, and the attributes that are read and set. Parsing is
a parameter. -/

namespace Senn.Js

/-- A path that is one string, or segments. -/
inductive UrlPath where
  | whole (s : JsString)
  | segments (ss : List JsString)
deriving DecidableEq

structure Url where
  scheme : JsString
  username : JsString
  password : JsString
  host : Option JsString          -- as it is written
  port : Option Nat
  path : UrlPath
  query : Option JsString
  fragment : Option JsString
deriving DecidableEq

/-- `new URL(input)` and `new URL(input, base)`, whose base is parsed already. -/
abbrev UrlParser := JsString → Option Url → Option Url

/-- `new URL(input, base)`; `none` is the TypeError. -/
def newUrl (parse : UrlParser) (input base : JsString) : Option Url := do
  let base ← parse base none
  parse input (some base)

namespace Url

def pathname (u : Url) : JsString :=
  match u.path with
  | .whole s => s
  | .segments ss => ss.flatMap (0x2F :: ·)

def credentials (u : Url) : JsString :=
  if u.username = [] && u.password = [] then []
  else u.username ++ (if u.password = [] then [] else 0x3A :: u.password) ++ [0x40]

def portText (u : Url) : JsString :=
  match u.port with
  | some port => 0x3A :: natText 10 port
  | none => []

/-- What stands between the scheme and the path. -/
def authority (u : Url) : JsString :=
  match u.host, u.path with
  | some host, _ => js "//" ++ u.credentials ++ host ++ u.portText
  | none, .segments ([] :: _ :: _) => js "/."
  | none, _ => []

def search (u : Url) : JsString :=
  match u.query with
  | some query => 0x3F :: query
  | none => []

/-- `toString()` without the fragment. -/
def withoutFragment (u : Url) : JsString :=
  u.scheme ++ 0x3A :: u.authority ++ u.pathname ++ u.search

/-- `toString()` -/
def href (u : Url) : JsString :=
  match u.fragment with
  | some fragment => u.withoutFragment ++ 0x23 :: fragment
  | none => u.withoutFragment

def protocol (u : Url) : JsString := u.scheme ++ [0x3A]

def hostname (u : Url) : JsString := u.host.getD []

/-- `hash`; an empty fragment reads as none. -/
def hash (u : Url) : JsString :=
  match u.fragment with
  | some (v :: r) => 0x23 :: v :: r
  | _ => []

end Url

/-- A byte that a fragment shows as `%XX`. -/
def fragmentEscapes (b : Nat) : Bool :=
  b ≤ 0x20 || 0x7F ≤ b || b = 0x22 || b = 0x3C || b = 0x3E || b = 0x60

def percentByte (b : Nat) : JsString := [0x25, upperHex (b / 16), upperHex (b % 16)]

def isTabOrNewline (u : UInt16) : Bool := u = 0x09 || u = 0x0A || u = 0x0D

/-- The fragment that is parsed from a string. -/
def fragmentOf (s : JsString) : JsString :=
  ((scalars (s.filter fun u => !isTabOrNewline u)).flatMap utf8).flatMap fun b =>
    if fragmentEscapes b then percentByte b else [UInt16.ofNat b]

/-- An opaque path without the spaces at its end. -/
def UrlPath.stripped : UrlPath → UrlPath
  | .whole s => .whole (s.reverse.dropWhile (· = 0x20)).reverse
  | path => path

namespace Url

/-- `url.hash = value` -/
def setHash (u : Url) (value : JsString) : Url :=
  match value with
  | [] => { u with fragment := none, path := if u.query.isNone then u.path.stripped else u.path }
  | 0x23 :: r => { u with fragment := some (fragmentOf r) }
  | s => { u with fragment := some (fragmentOf s) }

/-- A unit that a fragment shows as itself, and that may stand first in what `hash` is set to. -/
def Plain (v : UInt16) : Prop := 0x23 < v.toNat ∧ fragmentEscapes v.toNat = false

/-- The units that stand for themselves in a form are plain. -/
theorem Plain.of_kept {v : UInt16} (h : formKeeps v.toNat = true) : Plain v := by
  have hall : ∀ b, b < 0x80 → formKeeps b = true → 0x23 < b ∧ fragmentEscapes b = false := by
    decide
  exact hall _ (formKeeps_lt h) h

theorem fragmentOf_plain {s : JsString} (h : ∀ v ∈ s, Plain v) : fragmentOf s = s := by
  have hkept : s.filter (fun u => !isTabOrNewline u) = s := by
    refine List.filter_eq_self.mpr fun v hv => ?_
    have hlow := (h v hv).1
    simp only [isTabOrNewline, Bool.not_eq_true', Bool.or_eq_false_iff, decide_eq_false_iff_not]
    refine ⟨⟨?_, ?_⟩, ?_⟩ <;> (rintro rfl; exact absurd hlow (by decide))
  have hascii : ∀ v ∈ s, v.toNat < 0x80 := by
    intro v hv
    have hescapes := (h v hv).2
    simp only [fragmentEscapes, Bool.or_eq_false_iff, decide_eq_false_iff_not] at hescapes
    omega
  rw [fragmentOf, hkept, scalars_ascii hascii]
  clear hkept hascii
  induction s with
  | nil => rfl
  | cons v r ih =>
    rw [List.map_cons, List.flatMap_cons, ih fun w hw => h w (.tail _ hw), (h v (.head _)).2]
    simp

/-- A plain text becomes the fragment as it is. -/
theorem setHash_plain (u : Url) {s : JsString} (hne : s ≠ []) (h : ∀ v ∈ s, Plain v) :
    u.setHash s = { u with fragment := some s } := by
  cases s with
  | nil => exact absurd rfl hne
  | cons v r =>
    have hhash : v ≠ 0x23 := by
      rintro rfl
      exact absurd (h _ (.head _)).1 (by decide)
    unfold setHash
    split
    · next heq => cases heq
    · next heq => exact absurd (List.cons.inj heq).1 hhash
    · rw [fragmentOf_plain h]

end Url

/-- A parsed URL that is given a plain fragment and written is parsed as that URL. -/
def UrlParser.Reparses (parse : UrlParser) : Prop :=
  ∀ input u, parse input none = some u → ∀ s, s ≠ [] → (∀ v ∈ s, Url.Plain v) →
    parse (u.setHash s).href none = some (u.setHash s)

/-- The URL is what its own text is parsed as. -/
def UrlParser.Settles (parse : UrlParser) (u : Url) : Prop := parse u.href none = some u

end Senn.Js

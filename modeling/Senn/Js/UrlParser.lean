import Senn.Js.Url

/-! # The URL parser

`new URL` as the URL standard has it, with one definition for each group of the parser's states.
Host parsing is a parameter. -/

namespace Senn.Js

/-- Code points. -/
abbrev Points := List Nat

/-- Parses a host, given whether its URL is special, to how it is written. -/
abbrev HostParser := Bool → Points → Option JsString

namespace UrlParse

/-! ## Characters -/

def isAlpha (c : Nat) : Bool := (0x41 ≤ c && c ≤ 0x5A) || (0x61 ≤ c && c ≤ 0x7A)

def isDecimal (c : Nat) : Bool := 0x30 ≤ c && c ≤ 0x39

def isSchemePoint (c : Nat) : Bool :=
  isAlpha c || isDecimal c || c = 0x2B || c = 0x2D || c = 0x2E

def lower (c : Nat) : Nat := if 0x41 ≤ c && c ≤ 0x5A then c + 0x20 else c

def lowerText (s : JsString) : JsString := s.map fun u => UInt16.ofNat (lower u.toNat)

def isSlash (special : Bool) (c : Nat) : Bool := c = 0x2F || (special && c = 0x5C)

/-- `?` and `#` end a path. -/
def endsPath (c : Nat) : Bool := c = 0x3F || c = 0x23

def isControl (c : Nat) : Bool := c ≤ 0x1F || 0x7E < c

def isQueryEscape (special : Bool) (c : Nat) : Bool :=
  isControl c || c ∈ [0x20, 0x22, 0x23, 0x3C, 0x3E] || (special && c = 0x27)

def isPathEscape (c : Nat) : Bool := isQueryEscape false c || c ∈ [0x3F, 0x5E, 0x60, 0x7B, 0x7D]

def isUserinfoEscape (c : Nat) : Bool :=
  isPathEscape c || c ∈ [0x2F, 0x3A, 0x3B, 0x3D, 0x40, 0x5B, 0x5C, 0x5D, 0x7C]

/-- The points of a set as `%XX` of their UTF-8 bytes. -/
def percentEncode (set : Nat → Bool) (t : Points) : JsString :=
  t.flatMap fun c => if set c then (utf8 c).flatMap percentByte else [UInt16.ofNat c]

/-- The input without control characters and spaces around it, and tabs and newlines in it. -/
def cleaned (input : JsString) : Points :=
  let t := ((scalars input).dropWhile (· ≤ 0x20)).reverse
  (t.dropWhile (· ≤ 0x20)).reverse.filter fun c => !(c = 0x09 || c = 0x0A || c = 0x0D)

/-! ## Schemes -/

def defaultPort (scheme : JsString) : Option Nat :=
  if scheme = js "http" || scheme = js "ws" then some 80
  else if scheme = js "https" || scheme = js "wss" then some 443
  else if scheme = js "ftp" then some 21
  else none

def isSpecial (scheme : JsString) : Bool := scheme = js "file" || (defaultPort scheme).isSome

/-- The scheme a text begins with, and what follows its colon. -/
def scheme? (t : Points) : Option (JsString × Points) :=
  match t.head?, t.dropWhile isSchemePoint with
  | some c, 0x3A :: r =>
    if isAlpha c then some ((t.takeWhile isSchemePoint).map fun c => UInt16.ofNat (lower c), r)
    else none
  | _, _ => none

/-- A URL of which only the scheme is known. -/
def blank (scheme : JsString) : Url :=
  ⟨scheme, [], [], none, none, .segments [], none, none⟩

/-! ## Queries and fragments -/

def tailFragment : Points → Option JsString
  | 0x23 :: r => some (percentEncode fragmentEscapes r)
  | _ => none

/-- The URL with what stands after its path. -/
def withTail (u : Url) (t : Points) : Url :=
  match t with
  | 0x3F :: r =>
    { u with
      query := some (percentEncode (isQueryEscape (isSpecial u.scheme)) (r.takeWhile (· ≠ 0x23)))
      fragment := tailFragment (r.dropWhile (· ≠ 0x23)) }
  | t => { u with fragment := tailFragment t }

/-! ## Paths -/

def isSingleDot (s : JsString) : Bool := lowerText s ∈ [js ".", js "%2e"]

def isDoubleDot (s : JsString) : Bool :=
  lowerText s ∈ [js "..", js ".%2e", js "%2e.", js "%2e%2e"]

/-- A Windows drive letter. -/
def isDrive (s : JsString) : Bool :=
  match s with
  | [c, d] => isAlpha c.toNat && (d = 0x3A || d = 0x7C)
  | _ => false

def isNormalizedDrive (s : JsString) : Bool := isDrive s && s.getLast? = some 0x3A

def startsWithDrive (t : Points) : Bool :=
  match t with
  | [c, d] => isAlpha c && (d = 0x3A || d = 0x7C)
  | c :: d :: e :: _ => isAlpha c && (d = 0x3A || d = 0x7C) && (isSlash true e || endsPath e)
  | _ => false

/-- The path without its last segment, unless that is the drive of a file. -/
def shorten (scheme : JsString) (path : List JsString) : List JsString :=
  if scheme = js "file" && path.length = 1 && path.all isNormalizedDrive then path
  else path.dropLast

def pushSegment (scheme : JsString) (path : List JsString) (s : JsString) : List JsString :=
  if scheme = js "file" && path = [] && isDrive s then [s.take 1 ++ [0x3A]] else path ++ [s]

/-- The walk along the segments of a text, from a path on. -/
def walk (scheme : JsString) : List JsString → List JsString → List JsString
  | path, [] => path
  | path, s :: rest =>
    let path' :=
      if isDoubleDot s then shorten scheme path
      else if isSingleDot s then path
      else pushSegment scheme path s
    -- dots at the end leave a segment that is empty
    if rest = [] && (isDoubleDot s || isSingleDot s) then path' ++ [[]]
    else walk scheme path' rest

/-- The segments of the path a text begins with. -/
def segmentsOf (special : Bool) (t : Points) : List JsString :=
  ((t.takeWhile fun c => !endsPath c).splitOnP (isSlash special)).map (percentEncode isPathEscape)

/-- The path state, from a path on. -/
def pathState (u : Url) (path : List JsString) (t : Points) : Url :=
  withTail
    { u with
      path := .segments (walk u.scheme path (segmentsOf (isSpecial u.scheme) t))
      query := none }
    (t.dropWhile fun c => !endsPath c)

def dropSlash (special : Bool) (t : Points) : Points :=
  match t with
  | c :: r => if isSlash special c then r else c :: r
  | [] => []

/-- The path start state; a URL that is not special may have no path. -/
def pathStart (u : Url) (t : Points) : Url :=
  if !isSpecial u.scheme && t.head?.all endsPath then
    withTail { u with path := .segments [], query := none } t
  else pathState u [] (dropSlash (isSpecial u.scheme) t)

/-- The segments of a path that has them. -/
def pathList : UrlPath → List JsString
  | .segments ss => ss
  | .whole _ => []

/-- The opaque path state; a space at the end of the path is escaped. -/
def opaqueState (u : Url) (t : Points) : Url :=
  let text := t.takeWhile fun c => !endsPath c
  let path :=
    if text.getLast? = some 0x20 then percentEncode isControl text.dropLast ++ percentByte 0x20
    else percentEncode isControl text
  withTail { u with path := .whole path } (t.dropWhile fun c => !endsPath c)

/-! ## Authorities -/

structure Authority where
  username : JsString
  password : JsString
  host : JsString
  port : Option Nat
  rest : Points

/-- The host, and the port's text if there is a colon before it. -/
def splitHost : Bool → Points → Points × Option Points
  | _, [] => ([], none)
  | bracketed, c :: r =>
    if c = 0x3A && !bracketed then ([], some r)
    else
      let parts := splitHost (if c = 0x5B then true else if c = 0x5D then false else bracketed) r
      (c :: parts.1, parts.2)

/-- A port; the default one is not kept. -/
def parsePort (scheme : JsString) (t : Points) : Option (Option Nat) :=
  let port := ofDigits (t.map UInt16.ofNat)
  if t = [] then some none
  else if t.all isDecimal && port ≤ 65535 then
    some (if defaultPort scheme = some port then none else some port)
  else none

def endsAuthority (special : Bool) (c : Nat) : Bool := isSlash special c || endsPath c

variable (H : HostParser)

def parseHost (scheme : JsString) (t : Points) (hasPort : Bool) : Option JsString :=
  if t = [] then if hasPort || isSpecial scheme then none else some []
  else H (isSpecial scheme) t

/-- The authority a text begins with: the last `@` ends its credentials. -/
def authority? (scheme : JsString) (t : Points) : Option Authority :=
  let text := t.takeWhile fun c => !endsAuthority (isSpecial scheme) c
  let credentials := ((text.reverse.dropWhile (· ≠ 0x40)).drop 1).reverse
  let hostAndPort := splitHost false (text.reverse.takeWhile (· ≠ 0x40)).reverse
  if 0x40 ∈ text && hostAndPort.1 = [] && hostAndPort.2.isNone then none
  else do
    let host ← parseHost H scheme hostAndPort.1 hostAndPort.2.isSome
    let port ← parsePort scheme (hostAndPort.2.getD [])
    return ⟨percentEncode isUserinfoEscape (credentials.takeWhile (· ≠ 0x3A)),
      percentEncode isUserinfoEscape ((credentials.dropWhile (· ≠ 0x3A)).drop 1), host, port,
      t.dropWhile fun c => !endsAuthority (isSpecial scheme) c⟩

/-- A URL of which the authority is known. -/
def authorityUrl (scheme : JsString) (a : Authority) : Url :=
  ⟨scheme, a.username, a.password, some a.host, a.port, .segments [], none, none⟩

def authorityState (scheme : JsString) (t : Points) : Option Url :=
  (authority? H scheme t).map fun a => pathStart (authorityUrl scheme a) a.rest

/-! ## References -/

/-- What a text is that is resolved against a URL. -/
inductive Reference where
  | authority (t : Points)      -- what follows its slashes
  | rooted (t : Points)         -- what follows its slash
  | relative (t : Points)
deriving DecidableEq

def reference (special : Bool) : Points → Reference
  | c :: d :: r =>
    if isSlash special c then
      if isSlash special d then .authority (if special then r.dropWhile (isSlash true) else r)
      else .rooted (d :: r)
    else .relative (c :: d :: r)
  | [c] => if isSlash special c then .rooted [] else .relative [c]
  | [] => .relative []

/-- The relative states. -/
def resolve (base : Url) : Reference → Option Url
  | .authority t => authorityState H base.scheme t
  | .rooted t => some (pathState base [] t)
  | .relative t =>
    some (if t.head?.all endsPath then withTail base t
      else pathState base (shorten base.scheme (pathList base.path)) t)

/-! ## Files -/

def fileUrl : Url := { blank (js "file") with host := some [] }

/-- The file host state; a drive is no host. -/
def fileHost (t : Points) : Option Url :=
  let text := t.takeWhile fun c => !endsAuthority true c
  let rest := t.dropWhile fun c => !endsAuthority true c
  if text.length = 2 && startsWithDrive text then some (pathState fileUrl [] t)
  else if text = [] then some (pathStart fileUrl rest)
  else (H true text).map fun host =>
    pathStart { fileUrl with host := some (if host = js "localhost" then [] else host) } rest

/-- The path that a rooted text on the drive of the base begins with. -/
def baseDrive (base : Url) (t : Points) : List JsString :=
  if startsWithDrive t then [] else ((pathList base.path).take 1).filter isNormalizedDrive

/-- The file states; `base` is that of a file, if there is one. -/
def fileState (base : Option Url) (t : Points) : Option Url :=
  match reference true t, base with
  | .authority _, _ => fileHost H (t.drop 2)
  | .rooted t, some b => some (pathState { fileUrl with host := b.host } (baseDrive b t) t)
  | .rooted t, none => some (pathState fileUrl [] t)
  | .relative t, some b =>
    if t.head?.all endsPath then
      some (withTail { fileUrl with host := b.host, path := b.path, query := b.query } t)
    else if startsWithDrive t then some (pathState { fileUrl with host := b.host } [] t)
    else some (pathState { fileUrl with host := b.host } (shorten b.scheme (pathList b.path)) t)
  | .relative t, none => some (pathState fileUrl [] t)

/-! ## The parser -/

/-- A text with a scheme. -/
def parseAbsolute (base : Option Url) (scheme : JsString) (t : Points) : Option Url :=
  if scheme = js "file" then fileState H (base.filter fun b => b.scheme = scheme) t
  else if isSpecial scheme then
    match base.filter fun b => b.scheme = scheme with
    | some b => resolve H b (reference true t)
    | none => authorityState H scheme (t.dropWhile (isSlash true))
  else
    match reference false t with
    | .authority t => authorityState H scheme t
    | .rooted t => some (pathState (blank scheme) [] t)
    | .relative t => some (opaqueState (blank scheme) t)

/-- A text without one. -/
def parseRelative (base : Url) (t : Points) : Option Url :=
  match base.path with
  | .whole _ =>
    match t with
    | 0x23 :: r => some { base with fragment := tailFragment (0x23 :: r) }
    | _ => none
  | .segments _ =>
    if base.scheme = js "file" then fileState H (some base) t
    else resolve H base (reference (isSpecial base.scheme) t)

/-! ## What the states keep -/

variable {H}

@[simp] theorem withTail_scheme (u : Url) (t : Points) : (withTail u t).scheme = u.scheme := by
  unfold withTail
  split <;> rfl

@[simp] theorem withTail_host (u : Url) (t : Points) : (withTail u t).host = u.host := by
  unfold withTail
  split <;> rfl

@[simp] theorem withTail_port (u : Url) (t : Points) : (withTail u t).port = u.port := by
  unfold withTail
  split <;> rfl

@[simp] theorem withTail_path (u : Url) (t : Points) : (withTail u t).path = u.path := by
  unfold withTail
  split <;> rfl

section
variable (u : Url) (path : List JsString) (t : Points)

@[simp] theorem pathState_scheme : (pathState u path t).scheme = u.scheme := by simp [pathState]
@[simp] theorem pathState_host : (pathState u path t).host = u.host := by simp [pathState]
@[simp] theorem pathState_port : (pathState u path t).port = u.port := by simp [pathState]
@[simp] theorem pathState_path : (pathState u path t).path =
    .segments (walk u.scheme path (segmentsOf (isSpecial u.scheme) t)) := by simp [pathState]

@[simp] theorem pathStart_scheme : (pathStart u t).scheme = u.scheme := by
  unfold pathStart
  split <;> simp

/-- A special URL has a path. -/
theorem pathStart_special (h : isSpecial u.scheme = true) :
    pathStart u t = pathState u [] (dropSlash true t) := by
  simp [pathStart, h]

end

theorem authorityState_scheme {scheme : JsString} {t : Points} {u : Url}
    (h : authorityState H scheme t = some u) : u.scheme = scheme := by
  obtain ⟨a, _, rfl⟩ := Option.map_eq_some_iff.mp h
  exact pathStart_scheme _ _

theorem resolve_scheme {base u : Url} {r : Reference} (h : resolve H base r = some u) :
    u.scheme = base.scheme := by
  cases r with
  | authority t => exact authorityState_scheme h
  | rooted t =>
    obtain rfl := Option.some.inj h
    simp
  | relative t =>
    obtain rfl := Option.some.inj h
    split <;> simp

theorem fileHost_scheme {t : Points} {u : Url} (h : fileHost H t = some u) :
    u.scheme = js "file" := by
  unfold fileHost at h
  dsimp only at h
  split at h
  · obtain rfl := Option.some.inj h
    simp [fileUrl, blank]
  split at h
  · obtain rfl := Option.some.inj h
    simp [fileUrl, blank]
  · obtain ⟨host, _, rfl⟩ := Option.map_eq_some_iff.mp h
    simp [fileUrl, blank]

theorem fileState_scheme {base : Option Url} {t : Points} {u : Url}
    (h : fileState H base t = some u) : u.scheme = js "file" := by
  unfold fileState at h
  split at h
  · exact fileHost_scheme h
  · obtain rfl := Option.some.inj h
    simp [fileUrl, blank]
  · obtain rfl := Option.some.inj h
    simp [fileUrl, blank]
  · split at h
    · obtain rfl := Option.some.inj h
      simp [fileUrl, blank]
    split at h
    · obtain rfl := Option.some.inj h
      simp [fileUrl, blank]
    · obtain rfl := Option.some.inj h
      simp [fileUrl, blank]
  · obtain rfl := Option.some.inj h
    simp [fileUrl, blank]

/-- A URL has the scheme that its text has. -/
theorem parseAbsolute_scheme {base : Option Url} {scheme : JsString} {t : Points} {u : Url}
    (h : parseAbsolute H base scheme t = some u) : u.scheme = scheme := by
  unfold parseAbsolute at h
  split at h
  · next hfile => exact (fileState_scheme h).trans hfile.symm
  split at h
  · split at h
    · next b hb =>
      have hscheme : b.scheme = scheme := of_decide_eq_true (Option.filter_eq_some_iff.mp hb).2
      exact (resolve_scheme h).trans hscheme
    · exact authorityState_scheme h
  · split at h
    · exact authorityState_scheme h
    · obtain rfl := Option.some.inj h
      simp [blank]
    · obtain rfl := Option.some.inj h
      simp [opaqueState, blank]

/-- A scheme with a default port is special, and not that of files. -/
theorem isSpecial_of_port {scheme : JsString} (h : (defaultPort scheme).isSome = true) :
    isSpecial scheme = true ∧ scheme ≠ js "file" := by
  refine ⟨by simp [isSpecial, h], ?_⟩
  rintro rfl
  exact absurd h (by decide)

end UrlParse

open UrlParse in
/-- The basic URL parser. -/
def basicParse (H : HostParser) : UrlParser := fun input base =>
  match scheme? (cleaned input), base with
  | some (scheme, t), base => parseAbsolute H base scheme t
  | none, some base => parseRelative H base (cleaned input)
  | none, none => none

end Senn.Js

import Senn.Js.Json
import Senn.Js.Order
import Senn.Lib.InsMap
import Senn.Scripts.Licenses

/-! # The license gate

`check-licenses.ts` over a dependency tree: the overrides and their checks, the walk that collects
the packages, and what is reported of each. -/

namespace Senn.Scripts
open Senn.Js Senn.Js.CodeUnits Senn.Lib

/-- What the gate reads from the disk. An error is its message. -/
structure Disk where
  overrides : Option JsString                         -- `LICENSE_OVERRIDES.json`, if it exists
  existsSync (path : JsString) : Bool
  packageJson (dir : JsString) : Except JsString JsString
  syntaxError (text : JsString) : JsString            -- what `JSON.parse` says of a text

/-! ## Overrides -/

def OVERRIDE_FIELDS : List JsString :=
  [js "name", js "version", js "license", js "tier", js "rationale", js "approvedBy",
    js "approvedAt", js "expiresAt"]

inductive Tier where
  | allowed
  | reviewRequired
  deriving DecidableEq

structure Override where
  name : JsString
  version : JsString
  license : JsString
  tier : Tier
  rationale : JsString
  approvedBy : JsString
  approvedAt : JsString
  expiresAt : Option JsString

/-- `name@version` -/
def keyOf (name version : JsString) : JsString := name ++ js "@" ++ version

def isIso8601Date : JsString → Bool
  | [y, y', y'', y''', 0x2D, m, m', 0x2D, d, d'] => [y, y', y'', y''', m, m', d, d'].all isDigit
  | _ => false

def ensure (ok : Bool) (message : JsString) : Except JsString Unit :=
  if ok then .ok () else .error message

/-- The loop over `Object.keys(obj)`. -/
def knownFields (where_ : JsString) : List JsString → Except JsString Unit
  | [] => .ok ()
  | k :: ks =>
    if k ∈ OVERRIDE_FIELDS then knownFields where_ ks
    else .error (where_ ++ js ": unknown field \"" ++ k ++
      js "\" — allowed: name, version, license, tier, rationale, approvedBy, approvedAt, expiresAt")

def requiredField (where_ : JsString) (obj : Json) (k : JsString) : Except JsString JsString :=
  match obj.get? k with
  | some (.str (c :: s)) => .ok (c :: s)
  | _ => .error (where_ ++ js ": missing or empty required field \"" ++ k ++ js "\"")

def tierField (where_ tier : JsString) : Except JsString Tier :=
  if tier = js "allowed" then .ok .allowed
  else if tier = js "review-required" then .ok .reviewRequired
  else .error (where_ ++ js ": tier must be \"allowed\" or \"review-required\", got " ++ quote tier)

def expiresField (where_ : JsString) : Option Json → Except JsString (Option JsString)
  | none => .ok none
  | some value =>
    match value with
    | .str s => if isIso8601Date s then .ok (some s) else notDate value
    | _ => notDate value
where
  notDate (value : Json) : Except JsString (Option JsString) :=
    .error (where_ ++ js ": expiresAt must be ISO-8601 date (YYYY-MM-DD) if present, got " ++
      value.stringify)

def validateOverride (idx : Nat) (entry : Json) : Except JsString Override :=
  let where_ := js "LICENSE_OVERRIDES.json[" ++ natText 10 idx ++ js "]"
  match entry with
  | .obj ms => do
    knownFields where_ (ms.map Prod.fst)
    let name ← requiredField where_ entry (js "name")
    let version ← requiredField where_ entry (js "version")
    let license ← requiredField where_ entry (js "license")
    let tierText ← requiredField where_ entry (js "tier")
    let rationale ← requiredField where_ entry (js "rationale")
    let approvedBy ← requiredField where_ entry (js "approvedBy")
    let approvedAt ← requiredField where_ entry (js "approvedAt")
    let tier ← tierField where_ tierText
    ensure (isIso8601Date approvedAt)
      (where_ ++ js ": approvedAt must be ISO-8601 date (YYYY-MM-DD), got \"" ++ approvedAt ++
        js "\"")
    let expiresAt ← expiresField where_ (entry.get? (js "expiresAt"))
    ensure (license.all isIdentifierUnit)
      (where_ ++ js ": license \"" ++ license ++ js "\" must be a bare SPDX identifier (no " ++
        js "expressions, no whitespace); split into per-license override entries if multiple are " ++
        js "needed")
    ensure (!isDisallowedSimple license)
      (where_ ++ js ": cannot override disallowed license \"" ++ license ++ js "\" — the " ++
        (DISALLOWED_PREFIXES.find? fun t => license = t || (t ++ js "-").isPrefixOf license).getD
          license ++
        js " family is unconditionally rejected per docs/license-policy.md §Overrides")
    return ⟨name, version, license, tier, rationale, approvedBy, approvedAt, expiresAt⟩
  | _ => .error (where_ ++ js " must be an object")

def validateOverrides : Nat → List Json → Except JsString (List Override)
  | _, [] => .ok []
  | idx, entry :: entries => do
    let o ← validateOverride idx entry
    let os ← validateOverrides (idx + 1) entries
    return o :: os

def loadOverrides (disk : Disk) : Except JsString (List Override) :=
  match disk.overrides with
  | none => .ok []
  | some text =>
    match Json.parse text with
    | none => .error (js "LICENSE_OVERRIDES.json is not valid JSON: " ++ disk.syntaxError text)
    | some (.arr entries) => validateOverrides 0 entries
    | some _ => .error (js "LICENSE_OVERRIDES.json must be a JSON array of override objects")

def isOverrideActive (o : Override) (today : JsString) : Bool :=
  match o.expiresAt with
  | none => true
  | some expiresAt => today ≤ expiresAt

/-- The entries by `name@version`; a later entry replaces an earlier one. -/
def overrideMap (overrides : List Override) : InsMap JsString Override :=
  overrides.foldl (fun m o => m.set (keyOf o.name o.version) o) .empty

/-! ## The tree -/

/-- A node of the tree, with its dependencies in the order of `Object.entries`. One without any
has none listed. -/
inductive PnpmDepNode where
  | mk (version path : Option JsString) (dependencies : List (JsString × PnpmDepNode))

structure PnpmWorkspaceNode where
  dependencies : List (JsString × PnpmDepNode)

/-- The versions that `collectProdDeps` skips. -/
def isLocal (version : JsString) : Bool :=
  [js "link:", js "file:", js "workspace:"].any fun scheme => scheme.isPrefixOf version

/-- What a visit notes of a node itself. -/
def note (name : JsString) (version path : Option JsString) (seen : InsMap JsString JsString) :
    InsMap JsString JsString :=
  match version, path with
  | some version, some path =>
    if isLocal version || (seen.get (keyOf name version)).isSome then seen
    else seen.set (keyOf name version) path
  | _, _ => seen

mutual
def visitDep (name : JsString) : PnpmDepNode → InsMap JsString JsString → InsMap JsString JsString
  | .mk version path dependencies, seen => visitDeps dependencies (note name version path seen)
def visitDeps :
    List (JsString × PnpmDepNode) → InsMap JsString JsString → InsMap JsString JsString
  | [], seen => seen
  | (name, child) :: rest, seen => visitDeps rest (visitDep name child seen)
end

/-- The packages by `name@version`, with the path each was first listed at. -/
def collectProdDeps (workspaces : List PnpmWorkspaceNode) : InsMap JsString JsString :=
  workspaces.foldl (fun seen ws => visitDeps ws.dependencies seen) .empty

/-! ## Declared licenses -/

def readPackageJson (disk : Disk) (dir : JsString) : Except JsString Json :=
  match disk.packageJson dir with
  | .error message => .error message
  | .ok text =>
    match Json.parse text with
    | none => .error (disk.syntaxError text)
    | some pj => .ok pj

/-- The non-empty `type` of an element of `licenses`. -/
def licenseType (l : Json) : Option JsString :=
  match l.get? (js "type") with
  | some (.str (c :: t)) => some (c :: t)
  | _ => none

def extractLicenses (pj : Json) : Option JsString :=
  match pj.get? (js "licenses") with
  | some (.arr ls) =>
    match ls.filterMap licenseType with
    | [] => none
    | [t] => some t
    | t :: ts => some (js "(" ++ (js " OR ").intercalate (t :: ts) ++ js ")")
  | _ => none

/-- The error is the TypeError of a member of `null`. -/
def extractLicenseString (pj : Json) : Except JsString (Option JsString) :=
  match pj with
  | .null => .error (js "Cannot read properties of null (reading 'license')")
  | _ =>
    match pj.get? (js "license") with
    | some (.str s) => .ok (some s)
    | some .null => .error (js "Cannot read properties of null (reading 'type')")
    | some license =>
      match license.get? (js "type") with
      | some (.str s) => .ok (some s)
      | _ => .ok (extractLicenses pj)
    | none => .ok (extractLicenses pj)

/-! ## The report -/

/-- A line of the report, with the `name@version` it is about. -/
structure Violation where
  key : JsString
  line : JsString

structure Report where
  violations : List Violation
  scanned : Nat
  overridden : Nat

/-- What is to be reported of the license that a package declares. -/
def rejection (ov : Option Override) : Option JsString → Option JsString
  | none =>
    some (js "package.json declares no license field — treated as \"No license\" " ++
      js "(docs/license-policy.md §Disallowed)")
  | some lic =>
    let r := evaluateExpression lic
    let reason := r.reason.getD (js "license rejected")
    if r.ok then none
    else match ov with
      | some ov =>
        some (js "override expired (expiresAt=" ++ ov.expiresAt.getD [] ++ js "); " ++ reason ++
          js " — renew or remove the override")
      | none => some reason

/-- What is to be reported of a package whose override, if it has one, is not active. -/
def judge (disk : Disk) (ov : Option Override) (path : JsString) :
    Except JsString (Option JsString) :=
  if !disk.existsSync path then
    .ok (some (js "package directory missing at " ++ path ++
      js " (run pnpm install --frozen-lockfile)"))
  else match readPackageJson disk path with
    | .error message => .ok (some (js "failed to read package.json: " ++ message))
    | .ok pj => (extractLicenseString pj).map (rejection ov)

/-- The loop over the collected packages. -/
def scan (disk : Disk) (overrides : InsMap JsString Override) (today : JsString) :
    List (JsString × JsString) → Except JsString Report
  | [] => .ok ⟨[], 0, 0⟩
  | (key, path) :: deps =>
    let ov := overrides.get key
    if ov.any (isOverrideActive · today) then do
      let r ← scan disk overrides today deps
      return ⟨r.violations, r.scanned + 1, r.overridden + 1⟩
    else do
      let violation ← judge disk ov path
      let r ← scan disk overrides today deps
      let line := violation.map fun what => ⟨key, key ++ js ": " ++ what⟩
      return ⟨line.toList ++ r.violations, r.scanned + 1, r.overridden⟩

/-- `main`, on the tree that pnpm lists. The process exits with 1 when it throws and when there
are violations. -/
def checkLicenses (disk : Disk) (today : JsString) (workspaces : List PnpmWorkspaceNode) :
    Except JsString Report := do
  let overrides ← loadOverrides disk
  scan disk (overrideMap overrides) today (collectProdDeps workspaces).entries

end Senn.Scripts

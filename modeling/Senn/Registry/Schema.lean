import Senn.Protocol.Envelope

/-! # The schema of a registry

`validateRegistry` on a parsed JSON document, at each of the three versions of the schema: what
it rebuilds of every field and the text of every error. -/

namespace Senn.Schema
open Senn.Js Senn.Protocol

/-- What the validators have from the platform. -/
structure Platform where
  dateParses (s : JsString) : Bool      -- `Date.parse(s)` is a time
  urlParses (s : JsString) : Bool       -- `new URL(s)` does not throw

def KNOWN_CATEGORIES : List JsString :=
  [js "communication", js "creative", js "productivity", js "presence", js "files", js "games",
    js "education", js "accessibility", js "developer-tools", js "other"]

/-- `[a-z0-9]` -/
def isTagStart (u : UInt16) : Bool := isLowerUnit u || isDigit u

/-- `TAG_PATTERN.test(s)` -/
def matchesTag : JsString → Bool
  | [] => false
  | u :: r => isTagStart u && r.all (fun v => isTagStart v || v = 0x2D) && r.length ≤ 31

/-- `ED25519_PUBKEY_PATTERN.test(s)` -/
def matchesPublicKey (s : JsString) : Bool :=
  s.length = 43 && s.all fun u =>
    isDigit u || isLowerUnit u || (0x41 ≤ u && u ≤ 0x5A) || u = 0x5F || u = 0x2D

structure AddonDeprecationV1 where
  since : JsString
  reason : JsString
  supersededBy : Option JsString

structure AddonYankV1 where
  at_ : JsString
  reason : JsString

structure AddonVersionEntryV1 where
  version : JsString
  path : JsString
  signedAt : JsString
  publicKey : JsString
  changelog : Option JsString
  yanked : Option AddonYankV1

structure AddonAuditFindingsV1 where
  summary : JsString
  severityCounts : Option (List (JsString × Number))

structure AddonAuditV1 where
  auditor : JsString
  auditedAt : JsString
  auditedVersion : JsString
  findings : AddonAuditFindingsV1
  url : Option JsString

structure RegistryAddon where
  id : JsString
  name : JsString
  version : JsString
  description : JsString
  path : JsString
  capabilities : List JsString
  categories : Option (List JsString)
  tags : Option (List JsString)
  deprecated : Option AddonDeprecationV1
  history : Option (List AddonVersionEntryV1)
  audit : Option AddonAuditV1

structure Publisher where
  name : JsString
  homepage : Option JsString

/-- A registry; `v` is 1, 2 or 3. -/
structure Registry where
  v : Nat
  publisher : Publisher
  trustedKeys : List JsString
  addons : List RegistryAddon

/-! ## Reading a field -/

abbrev Members := List (JsString × Json)

/-- `o[k]`; `none` is `undefined`. -/
def member (ms : Members) (k : JsString) : Option Json :=
  (ms.find? fun m => decide (m.1 = k)).map Prod.snd

def ensure (ok : Bool) (message : JsString) : Except JsString Unit :=
  if ok then .ok () else .error message

/-- The members of an object that is no array. -/
def objectMembers (value : Json) (message : JsString) : Except JsString Members :=
  match value with
  | .obj ms => .ok ms
  | _ => .error message

/-- The members of an object; an array has none of those that are read. -/
def looseMembers (value : Option Json) (message : JsString) : Except JsString Members :=
  match value with
  | some (.obj ms) => .ok ms
  | some (.arr _) => .ok []
  | _ => .error message

/-- A string that meets a check. -/
def stringValue (check : JsString → Bool) (message : JsString) (value : Option Json) :
    Except JsString JsString :=
  match value with
  | some (.str s) => if check s then .ok s else .error message
  | _ => .error message

def stringMember (ms : Members) (k : JsString) (check : JsString → Bool) (message : JsString) :
    Except JsString JsString := stringValue check message (member ms k)

/-- A string; anything else is left out. -/
def stringIfAny : Option Json → Option JsString
  | some (.str s) => some s
  | _ => none

/-- A field that may be missing. -/
def optionalMember {α : Type} (ms : Members) (k : JsString) (f : Json → Except JsString α) :
    Except JsString (Option α) :=
  match member ms k with
  | none => .ok none
  | some value => (f value).map some

/-- A field that may be missing and needs version `min` of the schema. -/
def gatedMember {α : Type} (v min : Nat) (ms : Members) (k : JsString) (message : JsString)
    (f : Json → Except JsString α) : Except JsString (Option α) :=
  optionalMember ms k fun value => if v < min then .error message else f value

def strings? : List Json → Option (List JsString)
  | [] => some []
  | .str s :: xs => (strings? xs).map (s :: ·)
  | _ :: _ => none

/-- `isStringArray(v)`, with the strings. -/
def isStringArray : Option Json → Option (List JsString)
  | some (.arr xs) => strings? xs
  | _ => none

def stringArray (value : Option Json) (message : JsString) : Except JsString (List JsString) :=
  match isStringArray value with
  | some ss => .ok ss
  | none => .error message

/-- The elements of an array. -/
def arrayValue (value : Option Json) (message : JsString) : Except JsString (List Json) :=
  match value with
  | some (.arr xs) => .ok xs
  | _ => .error message

/-- A string of 1 to `max` units. -/
def sized (max : Nat) (s : JsString) : Bool := 1 ≤ s.length && s.length ≤ max

/-- The JSON text of a string, as it stands in a message. -/
def quoted (s : JsString) : JsString := (Json.str s).stringify

def indexed (place : JsString) (i : Nat) : JsString := place ++ js "[" ++ natText 10 i ++ js "]"

/-! ## The parts of an entry -/

section
variable (P : Platform)

def validateAddonDeprecation (value : Json) (place : JsString) :
    Except JsString AddonDeprecationV1 := do
  let d ← objectMembers value (place ++ js ".deprecated: must be an object")
  let since ← stringMember d (js "since") P.dateParses
    (place ++ js ".deprecated.since: must be ISO-8601")
  let reason ← stringMember d (js "reason") (sized 280)
    (place ++ js ".deprecated.reason: must be 1..280 char string")
  let supersededBy ← optionalMember d (js "supersededBy") fun value =>
    stringValue (fun _ => true) (place ++ js ".deprecated.supersededBy: must be a string when present")
      (some value)
  return ⟨since, reason, supersededBy⟩

def validateYank (value : Json) (place : JsString) : Except JsString AddonYankV1 := do
  let y ← objectMembers value (place ++ js ".yanked: must be an object")
  let at_ ← stringMember y (js "at") P.dateParses (place ++ js ".yanked.at: must be ISO-8601")
  let reason ← stringMember y (js "reason") (sized 280)
    (place ++ js ".yanked.reason: must be 1..280 char string")
  return ⟨at_, reason⟩

def validateChangelog (place : JsString) (value : Json) : Except JsString JsString := do
  let changelog ← stringValue (fun _ => true) (place ++ js ".changelog: must be string when present")
    (some value)
  ensure ((utf8Encode changelog).length ≤ 2048) (place ++ js ".changelog: must be ≤ 2 KiB UTF-8")
  return changelog

def validateHistoryEntry (value : Json) (place : JsString) :
    Except JsString AddonVersionEntryV1 := do
  let e ← objectMembers value (place ++ js ": must be an object")
  let version ← stringMember e (js "version") matchesSemver
    (place ++ js ".version: must be SemVer 2.0.0")
  let path ← stringMember e (js "path") (· ≠ []) (place ++ js ".path: must be non-empty string")
  let signedAt ← stringMember e (js "signedAt") P.dateParses
    (place ++ js ".signedAt: must be ISO-8601")
  let publicKey ← stringMember e (js "publicKey") matchesPublicKey
    (place ++ js ".publicKey: must be 43-char base64url Ed25519 key")
  let changelog ← optionalMember e (js "changelog") (validateChangelog place)
  let yanked ← optionalMember e (js "yanked") fun value => validateYank P value place
  return ⟨version, path, signedAt, publicKey, changelog, yanked⟩

def SEVERITIES : List JsString := [js "critical", js "high", js "medium", js "low", js "nit"]

/-- The loop over the keys of `severityCounts`. -/
def validateCounts (place : JsString) : Members → Except JsString (List (JsString × Number))
  | [] => .ok []
  | (k, v) :: ms =>
    if k ∉ SEVERITIES then
      .error (place ++ js ".findings.severityCounts: unknown key " ++ quoted k)
    else
      match v with
      | .num x =>
        if x.toNat?.isSome then (validateCounts place ms).map ((k, x) :: ·)
        else .error (place ++ js ".findings.severityCounts." ++ k ++
          js ": must be non-negative integer")
      | _ => .error (place ++ js ".findings.severityCounts." ++ k ++
          js ": must be non-negative integer")

def validateAuditFindings (value : Option Json) (place : JsString) :
    Except JsString AddonAuditFindingsV1 := do
  let f ← objectMembers (value.getD .null) (place ++ js ".findings: must be an object")
  let summary ← stringMember f (js "summary") (sized 280)
    (place ++ js ".findings.summary: must be 1..280 char string")
  let severityCounts ← optionalMember f (js "severityCounts") fun value => do
    let sc ← objectMembers value
      (place ++ js ".findings.severityCounts: must be an object when present")
    validateCounts place sc
  return ⟨summary, severityCounts⟩

def validateAudit (value : Json) (place : JsString) : Except JsString AddonAuditV1 := do
  let a ← objectMembers value (place ++ js ".audit: must be an object")
  let auditor ← stringMember a (js "auditor") (sized 80)
    (place ++ js ".audit.auditor: must be 1..80 char string")
  let auditedAt ← stringMember a (js "auditedAt") P.dateParses
    (place ++ js ".audit.auditedAt: must be ISO-8601")
  let auditedVersion ← stringMember a (js "auditedVersion") matchesSemver
    (place ++ js ".audit.auditedVersion: must be SemVer 2.0.0")
  let url ← optionalMember a (js "url") fun value => do
    let url ← stringValue (fun _ => true) (place ++ js ".audit.url: must be string when present")
      (some value)
    ensure (P.urlParses url) (place ++ js ".audit.url: must be a valid URL")
    return url
  let findings ← validateAuditFindings (member a (js "findings")) (place ++ js ".audit")
  return ⟨auditor, auditedAt, auditedVersion, findings, url⟩

/-! ## Entries -/

/-- The loop over `categories`. -/
def validateCategories (place : JsString) : List JsString → Except JsString Unit
  | [] => .ok ()
  | c :: cs =>
    if c ∈ KNOWN_CATEGORIES then validateCategories place cs
    else .error (place ++ js ".categories: unknown " ++ quoted c ++ js " (allowed: " ++
      (KNOWN_CATEGORIES.intersperse (js ", ")).flatten ++ js ")")

def validateCategoriesField (place : JsString) (value : Json) :
    Except JsString (List JsString) := do
  let categories ← stringArray (some value) (place ++ js ".categories: must be string array")
  validateCategories place categories
  return categories

/-- The loop over `tags`. -/
def validateTags (place : JsString) : List JsString → Except JsString Unit
  | [] => .ok ()
  | t :: ts =>
    if matchesTag t then validateTags place ts
    else .error (place ++ js ".tags: invalid " ++ quoted t ++ js " (kebab-case, ≤32 chars)")

def validateTagsField (place : JsString) (value : Json) : Except JsString (List JsString) := do
  let tags ← stringArray (some value) (place ++ js ".tags: must be string array")
  ensure (tags.length ≤ 8) (place ++ js ".tags: at most 8 entries")
  validateTags place tags
  return tags

/-- The loop over `history`, from index `j` on, with the versions seen before. -/
def validateEntries (place : JsString) :
    Nat → List JsString → List Json → Except JsString (List AddonVersionEntryV1)
  | _, _, [] => .ok []
  | j, seen, x :: xs => do
    let entry ← validateHistoryEntry P x (indexed (place ++ js ".history") j)
    ensure (entry.version ∉ seen) (place ++ js ".history: duplicate version " ++ entry.version)
    let list ← validateEntries place (j + 1) (entry.version :: seen) xs
    return entry :: list

def validateHistoryField (place version : JsString) (value : Json) :
    Except JsString (List AddonVersionEntryV1) := do
  let xs ← arrayValue (some value) (place ++ js ".history: must be an array")
  let list ← validateEntries P place 0 [] xs
  ensure (version ∉ list.map AddonVersionEntryV1.version)
    (place ++ js ".history: must not include the head version " ++ version ++
      js " (head lives at outer .version/.path)")
  return list

/-- The versions of an entry: those of its history and its own. -/
def knownVersions (history : Option (List AddonVersionEntryV1)) (version : JsString) :
    List JsString := (history.getD []).map AddonVersionEntryV1.version ++ [version]

def validateAuditField (place version : JsString) (history : Option (List AddonVersionEntryV1))
    (value : Json) : Except JsString AddonAuditV1 := do
  let audit ← validateAudit P value place
  ensure (audit.auditedVersion ∈ knownVersions history version)
    (place ++ js ".audit.auditedVersion " ++ audit.auditedVersion ++
      js " is neither the head version nor present in history[]")
  return audit

/-- An entry of `addons`; `place` names it. -/
def validateAddon (v : Nat) (raw : Json) (place : JsString) : Except JsString RegistryAddon := do
  let a ← looseMembers (some raw) (place ++ js ": not an object")
  let id ← stringMember a (js "id") (fun _ => true) (place ++ js ".id: must be string")
  let name ← stringMember a (js "name") (fun _ => true) (place ++ js ".name: must be string")
  let version ← stringMember a (js "version") (fun _ => true)
    (place ++ js ".version: must be string")
  let description ← stringMember a (js "description") (fun _ => true)
    (place ++ js ".description: must be string")
  let path ← stringMember a (js "path") (fun _ => true) (place ++ js ".path: must be string")
  ensure (matchesAddonId id) (place ++ js ".id: must be reverse-DNS (got " ++ quoted id ++ js ")")
  ensure (matchesSemver version) (place ++ js ".version: must be SemVer 2.0.0")
  let capabilities ← stringArray (member a (js "capabilities"))
    (place ++ js ".capabilities: must be string array")
  let categories ← gatedMember v 2 a (js "categories") (place ++ js ".categories: requires v >= 2")
    (validateCategoriesField place)
  let tags ← gatedMember v 2 a (js "tags") (place ++ js ".tags: requires v >= 2")
    (validateTagsField place)
  let deprecated ← gatedMember v 2 a (js "deprecated") (place ++ js ".deprecated: requires v >= 2")
    fun value => validateAddonDeprecation P value place
  let history ← gatedMember v 3 a (js "history") (place ++ js ".history: requires v >= 3")
    (validateHistoryField P place version)
  let audit ← gatedMember v 3 a (js "audit") (place ++ js ".audit: requires v >= 3")
    (validateAuditField P place version history)
  return ⟨id, name, version, description, path, capabilities, categories, tags, deprecated, history,
    audit⟩

/-- The map over `addons`, from index `i` on. -/
def validateAddons (v : Nat) : Nat → List Json → Except JsString (List RegistryAddon)
  | _, [] => .ok []
  | i, raw :: raws => do
    let addon ← validateAddon P v raw (indexed (js "addon") i)
    let addons ← validateAddons v (i + 1) raws
    return addon :: addons

/-- What a deprecated entry names as its successor, when it names one. -/
def RegistryAddon.successor (a : RegistryAddon) : Option JsString :=
  (a.deprecated.bind AddonDeprecationV1.supersededBy).filter (· ≠ [])

/-- The loop over the entries once all of them are rebuilt. -/
def validateSuccessors (ids : List JsString) : List RegistryAddon → Except JsString Unit
  | [] => .ok ()
  | a :: addons =>
    match a.successor with
    | some id =>
      if id ∈ ids then validateSuccessors ids addons
      else .error (js "addon " ++ a.id ++ js ": deprecated.supersededBy " ++ id ++
        js " is not present in this registry")
    | none => validateSuccessors ids addons

/-- `o.v`, when it is a version of the schema. -/
def schemaVersion (o : Members) : Except JsString Nat :=
  match member o (js "v") with
  | some (.num x) =>
    if x.eq (.ofNat 1) then .ok 1
    else if x.eq (.ofNat 2) then .ok 2
    else if x.eq (.ofNat 3) then .ok 3
    else .error (js "registry: v must be 1, 2, or 3")
  | _ => .error (js "registry: v must be 1, 2, or 3")

def validateRegistry (input : Json) : Except JsString Registry := do
  let o ← looseMembers (some input) (js "registry: not an object")
  let v ← schemaVersion o
  let pub ← looseMembers (member o (js "publisher")) (js "registry: publisher must be an object")
  let name ← stringMember pub (js "name") (fun _ => true)
    (js "registry: publisher.name must be string")
  let trustedKeys ← stringArray (member o (js "trustedKeys"))
    (js "registry: trustedKeys must be a non-empty string array")
  ensure (trustedKeys ≠ []) (js "registry: trustedKeys must be a non-empty string array")
  let raws ← arrayValue (member o (js "addons")) (js "registry: addons must be an array")
  let addons ← validateAddons P v 0 raws
  validateSuccessors (addons.map RegistryAddon.id) addons
  return ⟨v, ⟨name, stringIfAny (member pub (js "homepage"))⟩, trustedKeys, addons⟩

end

end Senn.Schema

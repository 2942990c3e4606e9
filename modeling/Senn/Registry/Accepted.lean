import Senn.Registry.Schema

/-! # Accepted registries

What holds of every part that a validator rebuilds, and that each of them accepts its own
result: the JSON value of a valid part is rebuilt as the part itself. -/

namespace Senn.Schema
open Senn.Js Senn.Protocol

/-! ## Fields -/

section
variable {α : Type} {ms : Members} {k message : JsString} {check : JsString → Bool}
  {value : Option Json} {s : JsString} {v w min : Nat} {f : Json → Except JsString α}
  {x : Option α} {y : α}

theorem ensure_ok {ok : Bool} {u : Unit} (h : ensure ok message = .ok u) : ok = true := by
  unfold ensure at h
  split at h
  · next hok => exact hok
  · cases h

theorem ensure_true {ok : Bool} (h : ok = true) (message : JsString) :
    ensure ok message = .ok () := if_pos h

theorem stringValue_ok (h : stringValue check message value = .ok s) :
    value = some (.str s) ∧ check s = true := by
  unfold stringValue at h
  split at h
  · split at h
    · next hcheck =>
      obtain rfl := Except.ok.inj h
      exact ⟨rfl, hcheck⟩
    · cases h
  · cases h

theorem stringMember_some (h : stringMember ms k check message = .ok s) :
    member ms k = some (.str s) := (stringValue_ok h).1

theorem looseMembers_get {doc : Json} (h : looseMembers (some doc) message = .ok ms)
    (k : JsString) : doc.get? k = member ms k := by
  cases doc with
  | obj ms' => rw [← Except.ok.inj h]; rfl
  | arr xs => rw [← Except.ok.inj h]; rfl
  | _ => cases h

theorem arrayValue_some {xs : List Json} (h : arrayValue value message = .ok xs) :
    value = some (.arr xs) := by
  unfold arrayValue at h
  split at h
  · rw [Except.ok.inj h]
  · cases h

theorem stringValue_str (h : check s = true) (message : JsString) :
    stringValue check message (some (.str s)) = .ok s := if_pos h

theorem stringMember_ok (h : stringMember ms k check message = .ok s) : check s = true :=
  (stringValue_ok h).2

theorem stringMember_str (hmem : member ms k = some (.str s)) (h : check s = true)
    (message : JsString) : stringMember ms k check message = .ok s := by
  rw [stringMember, hmem]
  exact stringValue_str h message

theorem optionalMember_ok (h : optionalMember ms k f = .ok x) (hy : x = some y) :
    ∃ value, f value = .ok y := by
  subst hy
  unfold optionalMember at h
  split at h
  · cases h
  · next value _ =>
    cases hf : f value with
    | error e =>
      rw [hf] at h
      cases h
    | ok y' =>
      rw [hf] at h
      obtain rfl := Option.some.inj (Except.ok.inj h)
      exact ⟨value, hf⟩

theorem optionalMember_map {g : α → Json} (hmem : member ms k = x.map g)
    (h : ∀ y, x = some y → f (g y) = .ok y) : optionalMember ms k f = .ok x := by
  rw [optionalMember, hmem]
  cases x with
  | none => rfl
  | some y =>
    show Except.map some (f (g y)) = _
    rw [h y rfl]
    rfl

theorem gatedMember_ok (h : gatedMember v min ms k message f = .ok x) (hy : x = some y) :
    min ≤ v ∧ ∃ value, f value = .ok y := by
  obtain ⟨value, hvalue⟩ := optionalMember_ok h hy
  split at hvalue
  · cases hvalue
  · next hv => exact ⟨Nat.le_of_not_lt hv, value, hvalue⟩

theorem gatedMember_map {g : α → Json} (hmem : member ms k = x.map g)
    (h : ∀ y, x = some y → min ≤ v ∧ f (g y) = .ok y) : gatedMember v min ms k message f = .ok x := by
  refine optionalMember_map hmem fun y hy => ?_
  rw [if_neg (Nat.not_lt.mpr (h y hy).1)]
  exact (h y hy).2

/-- What a version of the schema accepts, the later ones accept. -/
theorem gatedMember_mono (h : gatedMember v min ms k message f = .ok x) (hle : v ≤ w) :
    gatedMember w min ms k message f = .ok x := by
  unfold gatedMember optionalMember at h ⊢
  split at h
  · exact h
  · split at h
    · cases h
    · next hv =>
      dsimp only
      rw [if_neg (by omega)]
      exact h

theorem strings?_map (ss : List JsString) : strings? (ss.map Json.str) = some ss := by
  induction ss with
  | nil => rfl
  | cons s ss ih => simp [strings?, ih]

/-- An array of strings as JSON. -/
def stringsJson (ss : List JsString) : Json := .arr (ss.map .str)

theorem stringArray_json (ss : List JsString) (message : JsString) :
    stringArray (some (stringsJson ss)) message = .ok ss := by
  simp [stringArray, stringsJson, isStringArray, strings?_map]

/-- The members of an object whose fields may be missing. -/
def present (fs : List (JsString × Option Json)) : Members :=
  fs.filterMap fun f => f.2.map fun value => (f.1, value)

theorem member_present {l : List (JsString × Option Json)} (h : (l.map Prod.fst).Nodup)
    (k : JsString) :
    member (present l) k = (l.find? fun f => decide (f.1 = k)).bind Prod.snd := by
  induction l with
  | nil => rfl
  | cons f l ih =>
    obtain ⟨k', o⟩ := f
    obtain ⟨hnot, hnodup⟩ := List.nodup_cons.mp h
    by_cases hk : k' = k
    · subst hk
      cases o with
      | some value => simp [present, member]
      | none =>
        have hnone : l.find? (fun f => decide (f.1 = k')) = none := by
          refine List.find?_eq_none.mpr fun f hf heq => hnot ?_
          exact List.mem_map.mpr ⟨f, hf, of_decide_eq_true heq⟩
        have hrest := ih hnodup
        rw [hnone] at hrest
        simpa [present] using hrest
    · cases o with
      | some value => simpa [present, member, hk] using ih hnodup
      | none => simpa [present, hk] using ih hnodup

end

/-! ## The parts of an entry -/

variable {P : Platform}

structure AddonDeprecationV1.Valid (P : Platform) (d : AddonDeprecationV1) : Prop where
  since : P.dateParses d.since = true
  reason : sized 280 d.reason = true

def AddonDeprecationV1.fields (d : AddonDeprecationV1) : List (JsString × Option Json) :=
  [(js "since", some (.str d.since)), (js "reason", some (.str d.reason)),
    (js "supersededBy", d.supersededBy.map .str)]

def AddonDeprecationV1.toJson (d : AddonDeprecationV1) : Json := .obj (present d.fields)

theorem validateAddonDeprecation_valid {value : Json} {place : JsString} {d : AddonDeprecationV1}
    (h : validateAddonDeprecation P value place = .ok d) : d.Valid P := by
  unfold validateAddonDeprecation at h
  obtain ⟨ms, _, h⟩ := bind_ok h
  obtain ⟨since, hsince, h⟩ := bind_ok h
  obtain ⟨reason, hreason, h⟩ := bind_ok h
  obtain ⟨supersededBy, _, h⟩ := bind_ok h
  obtain rfl := Except.ok.inj h
  exact ⟨stringMember_ok hsince, stringMember_ok hreason⟩

theorem validateAddonDeprecation_toJson {d : AddonDeprecationV1} (h : d.Valid P)
    (place : JsString) : validateAddonDeprecation P d.toJson place = .ok d := by
  have hmember := member_present (l := d.fields)
    (show [js "since", js "reason", js "supersededBy"].Nodup by decide)
  have hsuperseded := hmember (js "supersededBy")
  unfold validateAddonDeprecation AddonDeprecationV1.toJson objectMembers
  rw [ok_bind, stringMember_str (hmember (js "since")) h.since, ok_bind,
    stringMember_str (hmember (js "reason")) h.reason, ok_bind,
    optionalMember_map hsuperseded fun s _ => stringValue_str rfl _, ok_bind]
  rfl

structure AddonYankV1.Valid (P : Platform) (y : AddonYankV1) : Prop where
  at_ : P.dateParses y.at_ = true
  reason : sized 280 y.reason = true

def AddonYankV1.fields (y : AddonYankV1) : List (JsString × Option Json) :=
  [(js "at", some (.str y.at_)), (js "reason", some (.str y.reason))]

def AddonYankV1.toJson (y : AddonYankV1) : Json := .obj (present y.fields)

theorem validateYank_valid {value : Json} {place : JsString} {y : AddonYankV1}
    (h : validateYank P value place = .ok y) : y.Valid P := by
  unfold validateYank at h
  obtain ⟨ms, _, h⟩ := bind_ok h
  obtain ⟨at_, hat, h⟩ := bind_ok h
  obtain ⟨reason, hreason, h⟩ := bind_ok h
  obtain rfl := Except.ok.inj h
  exact ⟨stringMember_ok hat, stringMember_ok hreason⟩

theorem validateYank_toJson {y : AddonYankV1} (h : y.Valid P) (place : JsString) :
    validateYank P y.toJson place = .ok y := by
  have hmember := member_present (l := y.fields) (show [js "at", js "reason"].Nodup by decide)
  unfold validateYank AddonYankV1.toJson objectMembers
  rw [ok_bind, stringMember_str (hmember (js "at")) h.at_, ok_bind,
    stringMember_str (hmember (js "reason")) h.reason, ok_bind]
  rfl

theorem validateChangelog_ok {place : JsString} {value : Json} {s : JsString}
    (h : validateChangelog place value = .ok s) : (utf8Encode s).length ≤ 2048 := by
  unfold validateChangelog at h
  obtain ⟨s', _, h⟩ := bind_ok h
  obtain ⟨_, hlength, h⟩ := bind_ok h
  obtain rfl := Except.ok.inj h
  exact of_decide_eq_true (ensure_ok hlength)

theorem validateChangelog_str {s : JsString} (h : (utf8Encode s).length ≤ 2048)
    (place : JsString) : validateChangelog place (.str s) = .ok s := by
  unfold validateChangelog
  rw [stringValue_str rfl, ok_bind, ensure_true (decide_eq_true h), ok_bind]
  rfl

structure AddonVersionEntryV1.Valid (P : Platform) (e : AddonVersionEntryV1) : Prop where
  version : matchesSemver e.version = true
  path : e.path ≠ []
  signedAt : P.dateParses e.signedAt = true
  publicKey : matchesPublicKey e.publicKey = true
  changelog : ∀ s, e.changelog = some s → (utf8Encode s).length ≤ 2048
  yanked : ∀ y, e.yanked = some y → y.Valid P

def AddonVersionEntryV1.fields (e : AddonVersionEntryV1) : List (JsString × Option Json) :=
  [(js "version", some (.str e.version)), (js "path", some (.str e.path)),
    (js "signedAt", some (.str e.signedAt)), (js "publicKey", some (.str e.publicKey)),
    (js "changelog", e.changelog.map .str), (js "yanked", e.yanked.map AddonYankV1.toJson)]

def AddonVersionEntryV1.toJson (e : AddonVersionEntryV1) : Json := .obj (present e.fields)

theorem validateHistoryEntry_valid {value : Json} {place : JsString} {e : AddonVersionEntryV1}
    (h : validateHistoryEntry P value place = .ok e) : e.Valid P := by
  unfold validateHistoryEntry at h
  obtain ⟨ms, _, h⟩ := bind_ok h
  obtain ⟨version, hversion, h⟩ := bind_ok h
  obtain ⟨path, hpath, h⟩ := bind_ok h
  obtain ⟨signedAt, hsigned, h⟩ := bind_ok h
  obtain ⟨publicKey, hkey, h⟩ := bind_ok h
  obtain ⟨changelog, hchangelog, h⟩ := bind_ok h
  obtain ⟨yanked, hyanked, h⟩ := bind_ok h
  obtain rfl := Except.ok.inj h
  refine ⟨stringMember_ok hversion, of_decide_eq_true (stringMember_ok hpath),
    stringMember_ok hsigned, stringMember_ok hkey, fun s hs => ?_, fun y hy => ?_⟩
  · obtain ⟨value, hvalue⟩ := optionalMember_ok hchangelog hs
    exact validateChangelog_ok hvalue
  · obtain ⟨value, hvalue⟩ := optionalMember_ok hyanked hy
    exact validateYank_valid hvalue

theorem validateHistoryEntry_toJson {e : AddonVersionEntryV1} (h : e.Valid P)
    (place : JsString) : validateHistoryEntry P e.toJson place = .ok e := by
  have hmember := member_present (l := e.fields) (show [js "version", js "path", js "signedAt",
    js "publicKey", js "changelog", js "yanked"].Nodup by decide)
  have hchangelog := hmember (js "changelog")
  have hyanked := hmember (js "yanked")
  unfold validateHistoryEntry AddonVersionEntryV1.toJson objectMembers
  rw [ok_bind, stringMember_str (hmember (js "version")) h.version, ok_bind,
    stringMember_str (hmember (js "path")) (decide_eq_true h.path), ok_bind,
    stringMember_str (hmember (js "signedAt")) h.signedAt, ok_bind,
    stringMember_str (hmember (js "publicKey")) h.publicKey, ok_bind,
    optionalMember_map hchangelog fun s hs => validateChangelog_str (h.changelog s hs) place,
    ok_bind, optionalMember_map hyanked fun y hy => validateYank_toJson (h.yanked y hy) place,
    ok_bind]
  rfl

/-- The counts of findings: of known severities, and natural numbers. -/
def CountsValid (counts : List (JsString × Number)) : Prop :=
  ∀ c ∈ counts, c.1 ∈ SEVERITIES ∧ c.2.toNat?.isSome = true

def countsJson (counts : List (JsString × Number)) : Json :=
  .obj (counts.map fun c => (c.1, .num c.2))

theorem validateCounts_valid {place : JsString} {ms : Members}
    {counts : List (JsString × Number)} (h : validateCounts place ms = .ok counts) :
    CountsValid counts := by
  induction ms generalizing counts with
  | nil =>
    obtain rfl := Except.ok.inj h
    simp [CountsValid]
  | cons m ms ih =>
    obtain ⟨k, v⟩ := m
    unfold validateCounts at h
    split at h
    · cases h
    next hk =>
    split at h
    · next x =>
      split at h
      · next hx =>
        cases hrest : validateCounts place ms with
        | error e =>
          rw [hrest] at h
          cases h
        | ok rest =>
          rw [hrest] at h
          obtain rfl := Except.ok.inj h
          exact List.forall_mem_cons.mpr ⟨⟨not_not.mp hk, hx⟩, ih hrest⟩
      · cases h
    · cases h

theorem validateCounts_json {counts : List (JsString × Number)} (h : CountsValid counts)
    (place : JsString) :
    validateCounts place (counts.map fun c => (c.1, .num c.2)) = .ok counts := by
  induction counts with
  | nil => rfl
  | cons c counts ih =>
    obtain ⟨⟨hk, hx⟩, hrest⟩ := List.forall_mem_cons.mp h
    rw [List.map_cons, validateCounts, if_neg (not_not.mpr hk), if_pos hx, ih hrest]
    rfl

structure AddonAuditFindingsV1.Valid (f : AddonAuditFindingsV1) : Prop where
  summary : sized 280 f.summary = true
  severityCounts : ∀ counts, f.severityCounts = some counts → CountsValid counts

def AddonAuditFindingsV1.fields (f : AddonAuditFindingsV1) : List (JsString × Option Json) :=
  [(js "summary", some (.str f.summary)), (js "severityCounts", f.severityCounts.map countsJson)]

def AddonAuditFindingsV1.toJson (f : AddonAuditFindingsV1) : Json := .obj (present f.fields)

theorem validateAuditFindings_valid {value : Option Json} {place : JsString}
    {f : AddonAuditFindingsV1} (h : validateAuditFindings value place = .ok f) : f.Valid := by
  unfold validateAuditFindings at h
  obtain ⟨ms, _, h⟩ := bind_ok h
  obtain ⟨summary, hsummary, h⟩ := bind_ok h
  obtain ⟨severityCounts, hcounts, h⟩ := bind_ok h
  obtain rfl := Except.ok.inj h
  refine ⟨stringMember_ok hsummary, fun counts hs => ?_⟩
  obtain ⟨value, hvalue⟩ := optionalMember_ok hcounts hs
  obtain ⟨sc, _, hvalue⟩ := bind_ok hvalue
  exact validateCounts_valid hvalue

theorem validateAuditFindings_toJson {f : AddonAuditFindingsV1} (h : f.Valid) (place : JsString) :
    validateAuditFindings (some f.toJson) place = .ok f := by
  have hmember := member_present (l := f.fields)
    (show [js "summary", js "severityCounts"].Nodup by decide)
  have hcounts := hmember (js "severityCounts")
  unfold validateAuditFindings AddonAuditFindingsV1.toJson objectMembers
  rw [Option.getD_some, ok_bind, stringMember_str (hmember (js "summary")) h.summary, ok_bind,
    optionalMember_map hcounts fun counts hs => validateCounts_json (h.severityCounts counts hs) _,
    ok_bind]
  rfl

structure AddonAuditV1.Valid (P : Platform) (a : AddonAuditV1) : Prop where
  auditor : sized 80 a.auditor = true
  auditedAt : P.dateParses a.auditedAt = true
  auditedVersion : matchesSemver a.auditedVersion = true
  findings : a.findings.Valid
  url : ∀ u, a.url = some u → P.urlParses u = true

def AddonAuditV1.fields (a : AddonAuditV1) : List (JsString × Option Json) :=
  [(js "auditor", some (.str a.auditor)), (js "auditedAt", some (.str a.auditedAt)),
    (js "auditedVersion", some (.str a.auditedVersion)), (js "findings", some a.findings.toJson),
    (js "url", a.url.map .str)]

def AddonAuditV1.toJson (a : AddonAuditV1) : Json := .obj (present a.fields)

theorem validateAudit_valid {value : Json} {place : JsString} {a : AddonAuditV1}
    (h : validateAudit P value place = .ok a) : a.Valid P := by
  unfold validateAudit at h
  obtain ⟨ms, _, h⟩ := bind_ok h
  obtain ⟨auditor, hauditor, h⟩ := bind_ok h
  obtain ⟨auditedAt, hat, h⟩ := bind_ok h
  obtain ⟨auditedVersion, hversion, h⟩ := bind_ok h
  obtain ⟨url, hurl, h⟩ := bind_ok h
  obtain ⟨findings, hfindings, h⟩ := bind_ok h
  obtain rfl := Except.ok.inj h
  refine ⟨stringMember_ok hauditor, stringMember_ok hat, stringMember_ok hversion,
    validateAuditFindings_valid hfindings, fun u hu => ?_⟩
  obtain ⟨value, hvalue⟩ := optionalMember_ok hurl hu
  obtain ⟨u', _, hvalue⟩ := bind_ok hvalue
  obtain ⟨_, hparses, hvalue⟩ := bind_ok hvalue
  obtain rfl := Except.ok.inj hvalue
  exact ensure_ok hparses

theorem validateAudit_toJson {a : AddonAuditV1} (h : a.Valid P) (place : JsString) :
    validateAudit P a.toJson place = .ok a := by
  have hmember := member_present (l := a.fields) (show [js "auditor", js "auditedAt",
    js "auditedVersion", js "findings", js "url"].Nodup by decide)
  have hurl := hmember (js "url")
  have hfindings : member (present a.fields) (js "findings") = some a.findings.toJson :=
    hmember (js "findings")
  unfold validateAudit AddonAuditV1.toJson objectMembers
  rw [ok_bind, stringMember_str (hmember (js "auditor")) h.auditor, ok_bind,
    stringMember_str (hmember (js "auditedAt")) h.auditedAt, ok_bind,
    stringMember_str (hmember (js "auditedVersion")) h.auditedVersion, ok_bind,
    optionalMember_map (x := a.url) hurl ?_, ok_bind, hfindings,
    validateAuditFindings_toJson h.findings, ok_bind]
  · rfl
  · intro u hu
    rw [stringValue_str rfl, ok_bind, ensure_true (h.url u hu), ok_bind]
    rfl

/-! ## Entries -/

theorem validateCategories_ok {place : JsString} {cs : List JsString} {u : Unit}
    (h : validateCategories place cs = .ok u) : ∀ c ∈ cs, c ∈ KNOWN_CATEGORIES := by
  induction cs with
  | nil => simp
  | cons c cs ih =>
    unfold validateCategories at h
    split at h
    · next hc => exact List.forall_mem_cons.mpr ⟨hc, ih h⟩
    · cases h

theorem validateCategories_known {cs : List JsString} (h : ∀ c ∈ cs, c ∈ KNOWN_CATEGORIES)
    (place : JsString) : validateCategories place cs = .ok () := by
  induction cs with
  | nil => rfl
  | cons c cs ih =>
    obtain ⟨hc, hcs⟩ := List.forall_mem_cons.mp h
    rw [validateCategories, if_pos hc]
    exact ih hcs

theorem validateTags_ok {place : JsString} {ts : List JsString} {u : Unit}
    (h : validateTags place ts = .ok u) : ∀ t ∈ ts, matchesTag t = true := by
  induction ts with
  | nil => simp
  | cons t ts ih =>
    unfold validateTags at h
    split at h
    · next ht => exact List.forall_mem_cons.mpr ⟨ht, ih h⟩
    · cases h

theorem validateTags_match {ts : List JsString} (h : ∀ t ∈ ts, matchesTag t = true)
    (place : JsString) : validateTags place ts = .ok () := by
  induction ts with
  | nil => rfl
  | cons t ts ih =>
    obtain ⟨ht, hts⟩ := List.forall_mem_cons.mp h
    rw [validateTags, if_pos ht]
    exact ih hts

/-- The entries of a history: each valid, no version twice and none that was seen before. -/
def EntriesValid (P : Platform) (seen : List JsString) (list : List AddonVersionEntryV1) : Prop :=
  (∀ e ∈ list, e.Valid P) ∧ (list.map AddonVersionEntryV1.version).Nodup ∧
    ∀ e ∈ list, e.version ∉ seen

theorem entriesValid_cons {seen : List JsString} {e : AddonVersionEntryV1}
    {list : List AddonVersionEntryV1} :
    EntriesValid P seen (e :: list) ↔
      e.Valid P ∧ e.version ∉ seen ∧ EntriesValid P (e.version :: seen) list := by
  simp only [EntriesValid, List.forall_mem_cons, List.map_cons, List.nodup_cons]
  simp only [List.mem_cons, List.mem_map, not_or, not_exists, not_and]
  constructor
  · rintro ⟨⟨he, hlist⟩, ⟨hnot, hnodup⟩, hseen, hrest⟩
    exact ⟨he, hseen, hlist, hnodup, fun e' he' => ⟨hnot e' he', hrest e' he'⟩⟩
  · rintro ⟨he, hseen, hlist, hnodup, hrest⟩
    exact ⟨⟨he, hlist⟩, ⟨fun e' he' => (hrest e' he').1, hnodup⟩, hseen,
      fun e' he' => (hrest e' he').2⟩

theorem validateEntries_valid {place : JsString} {xs : List Json} {j : Nat}
    {seen : List JsString} {list : List AddonVersionEntryV1}
    (h : validateEntries P place j seen xs = .ok list) : EntriesValid P seen list := by
  induction xs generalizing j seen list with
  | nil =>
    obtain rfl := Except.ok.inj h
    simp [EntriesValid]
  | cons x xs ih =>
    unfold validateEntries at h
    obtain ⟨entry, hentry, h⟩ := bind_ok h
    obtain ⟨_, hseen, h⟩ := bind_ok h
    obtain ⟨rest, hrest, h⟩ := bind_ok h
    obtain rfl := Except.ok.inj h
    exact entriesValid_cons.mpr
      ⟨validateHistoryEntry_valid hentry, of_decide_eq_true (ensure_ok hseen), ih hrest⟩

theorem validateEntries_json {list : List AddonVersionEntryV1} {seen : List JsString}
    (h : EntriesValid P seen list) (place : JsString) (j : Nat) :
    validateEntries P place j seen (list.map AddonVersionEntryV1.toJson) = .ok list := by
  induction list generalizing j seen with
  | nil => rfl
  | cons e list ih =>
    obtain ⟨he, hseen, hlist⟩ := entriesValid_cons.mp h
    rw [List.map_cons, validateEntries, validateHistoryEntry_toJson he, ok_bind,
      ensure_true (decide_eq_true hseen), ok_bind, ih hlist, ok_bind]
    rfl

/-- A history under a head version: valid entries, and the head is none of them. -/
def HistoryValid (P : Platform) (version : JsString) (list : List AddonVersionEntryV1) : Prop :=
  EntriesValid P [] list ∧ version ∉ list.map AddonVersionEntryV1.version

def historyJson (list : List AddonVersionEntryV1) : Json :=
  .arr (list.map AddonVersionEntryV1.toJson)

theorem validateHistoryField_valid {place version : JsString} {value : Json}
    {list : List AddonVersionEntryV1} (h : validateHistoryField P place version value = .ok list) :
    HistoryValid P version list := by
  unfold validateHistoryField at h
  obtain ⟨xs, _, h⟩ := bind_ok h
  obtain ⟨list', hlist, h⟩ := bind_ok h
  obtain ⟨_, hhead, h⟩ := bind_ok h
  obtain rfl := Except.ok.inj h
  exact ⟨validateEntries_valid hlist, of_decide_eq_true (ensure_ok hhead)⟩

theorem validateHistoryField_json {version : JsString} {list : List AddonVersionEntryV1}
    (h : HistoryValid P version list) (place : JsString) :
    validateHistoryField P place version (historyJson list) = .ok list := by
  unfold validateHistoryField historyJson arrayValue
  rw [ok_bind, validateEntries_json h.1, ok_bind, ensure_true (decide_eq_true h.2), ok_bind]
  rfl

theorem validateCategoriesField_valid {place : JsString} {value : Json} {cs : List JsString}
    (h : validateCategoriesField place value = .ok cs) : ∀ c ∈ cs, c ∈ KNOWN_CATEGORIES := by
  obtain ⟨cs', _, h⟩ := bind_ok h
  obtain ⟨_, hknown, h⟩ := bind_ok h
  obtain rfl := Except.ok.inj h
  exact validateCategories_ok hknown

theorem validateCategoriesField_json {cs : List JsString} (h : ∀ c ∈ cs, c ∈ KNOWN_CATEGORIES)
    (place : JsString) : validateCategoriesField place (stringsJson cs) = .ok cs := by
  rw [validateCategoriesField, stringArray_json, ok_bind, validateCategories_known h]
  rfl

theorem validateTagsField_valid {place : JsString} {value : Json} {ts : List JsString}
    (h : validateTagsField place value = .ok ts) :
    ts.length ≤ 8 ∧ ∀ t ∈ ts, matchesTag t = true := by
  obtain ⟨ts', _, h⟩ := bind_ok h
  obtain ⟨_, hlength, h⟩ := bind_ok h
  obtain ⟨_, hmatch, h⟩ := bind_ok h
  obtain rfl := Except.ok.inj h
  exact ⟨of_decide_eq_true (ensure_ok hlength), validateTags_ok hmatch⟩

theorem validateTagsField_json {ts : List JsString} (hlength : ts.length ≤ 8)
    (h : ∀ t ∈ ts, matchesTag t = true) (place : JsString) :
    validateTagsField place (stringsJson ts) = .ok ts := by
  rw [validateTagsField, stringArray_json, ok_bind, ensure_true (decide_eq_true hlength), ok_bind,
    validateTags_match h]
  rfl

theorem validateAuditField_valid {place version : JsString}
    {history : Option (List AddonVersionEntryV1)} {value : Json} {audit : AddonAuditV1}
    (h : validateAuditField P place version history value = .ok audit) :
    audit.Valid P ∧ audit.auditedVersion ∈ knownVersions history version := by
  obtain ⟨a', haudit, h⟩ := bind_ok h
  obtain ⟨_, hknown, h⟩ := bind_ok h
  obtain rfl := Except.ok.inj h
  exact ⟨validateAudit_valid haudit, of_decide_eq_true (ensure_ok hknown)⟩

theorem validateAuditField_toJson {version : JsString}
    {history : Option (List AddonVersionEntryV1)} {audit : AddonAuditV1} (h : audit.Valid P)
    (hknown : audit.auditedVersion ∈ knownVersions history version) (place : JsString) :
    validateAuditField P place version history audit.toJson = .ok audit := by
  rw [validateAuditField, validateAudit_toJson h, ok_bind, ensure_true (decide_eq_true hknown)]
  rfl

/-- An entry as a validator at version `v` of the schema rebuilds it. -/
structure RegistryAddon.Valid (P : Platform) (v : Nat) (a : RegistryAddon) : Prop where
  id : matchesAddonId a.id = true
  version : matchesSemver a.version = true
  categories : ∀ cs, a.categories = some cs → 2 ≤ v ∧ ∀ c ∈ cs, c ∈ KNOWN_CATEGORIES
  tags : ∀ ts, a.tags = some ts → 2 ≤ v ∧ ts.length ≤ 8 ∧ ∀ t ∈ ts, matchesTag t = true
  deprecated : ∀ d, a.deprecated = some d → 2 ≤ v ∧ d.Valid P
  history : ∀ list, a.history = some list → 3 ≤ v ∧ HistoryValid P a.version list
  audit : ∀ audit, a.audit = some audit → 3 ≤ v ∧ audit.Valid P ∧
    audit.auditedVersion ∈ knownVersions a.history a.version

def RegistryAddon.fields (a : RegistryAddon) : List (JsString × Option Json) :=
  [(js "id", some (.str a.id)), (js "name", some (.str a.name)),
    (js "version", some (.str a.version)), (js "description", some (.str a.description)),
    (js "path", some (.str a.path)), (js "capabilities", some (stringsJson a.capabilities)),
    (js "categories", a.categories.map stringsJson), (js "tags", a.tags.map stringsJson),
    (js "deprecated", a.deprecated.map AddonDeprecationV1.toJson),
    (js "history", a.history.map historyJson), (js "audit", a.audit.map AddonAuditV1.toJson)]

def RegistryAddon.toJson (a : RegistryAddon) : Json := .obj (present a.fields)

/-- An entry that `validateAddon` rebuilds as `a`, check by check. -/
structure EntryChecks (P : Platform) (v : Nat) (raw : Json) (place : JsString)
    (a : RegistryAddon) (ms : Members) : Prop where
  object : looseMembers (some raw) (place ++ js ": not an object") = .ok ms
  id : stringMember ms (js "id") (fun _ => true) (place ++ js ".id: must be string") = .ok a.id
  name : stringMember ms (js "name") (fun _ => true) (place ++ js ".name: must be string") =
    .ok a.name
  version : stringMember ms (js "version") (fun _ => true)
    (place ++ js ".version: must be string") = .ok a.version
  description : stringMember ms (js "description") (fun _ => true)
    (place ++ js ".description: must be string") = .ok a.description
  path : stringMember ms (js "path") (fun _ => true) (place ++ js ".path: must be string") =
    .ok a.path
  reverseDns : matchesAddonId a.id = true
  semver : matchesSemver a.version = true
  capabilities : stringArray (member ms (js "capabilities"))
    (place ++ js ".capabilities: must be string array") = .ok a.capabilities
  categories : gatedMember v 2 ms (js "categories") (place ++ js ".categories: requires v >= 2")
    (validateCategoriesField place) = .ok a.categories
  tags : gatedMember v 2 ms (js "tags") (place ++ js ".tags: requires v >= 2")
    (validateTagsField place) = .ok a.tags
  deprecated : gatedMember v 2 ms (js "deprecated") (place ++ js ".deprecated: requires v >= 2")
    (fun value => validateAddonDeprecation P value place) = .ok a.deprecated
  history : gatedMember v 3 ms (js "history") (place ++ js ".history: requires v >= 3")
    (validateHistoryField P place a.version) = .ok a.history
  audit : gatedMember v 3 ms (js "audit") (place ++ js ".audit: requires v >= 3")
    (validateAuditField P place a.version a.history) = .ok a.audit

theorem validateAddon_iff {v : Nat} {raw : Json} {place : JsString} {a : RegistryAddon} :
    validateAddon P v raw place = .ok a ↔ ∃ ms, EntryChecks P v raw place a ms := by
  constructor
  · intro h
    unfold validateAddon at h
    obtain ⟨ms, hms, h⟩ := bind_ok h
    obtain ⟨id, hid, h⟩ := bind_ok h
    obtain ⟨name, hname, h⟩ := bind_ok h
    obtain ⟨version, hversion, h⟩ := bind_ok h
    obtain ⟨description, hdescription, h⟩ := bind_ok h
    obtain ⟨path, hpath, h⟩ := bind_ok h
    obtain ⟨_, hdns, h⟩ := bind_ok h
    obtain ⟨_, hsemver, h⟩ := bind_ok h
    obtain ⟨capabilities, hcapabilities, h⟩ := bind_ok h
    obtain ⟨categories, hcategories, h⟩ := bind_ok h
    obtain ⟨tags, htags, h⟩ := bind_ok h
    obtain ⟨deprecated, hdeprecated, h⟩ := bind_ok h
    obtain ⟨history, hhistory, h⟩ := bind_ok h
    obtain ⟨audit, haudit, h⟩ := bind_ok h
    obtain rfl := Except.ok.inj h
    exact ⟨ms, hms, hid, hname, hversion, hdescription, hpath, ensure_ok hdns, ensure_ok hsemver,
      hcapabilities, hcategories, htags, hdeprecated, hhistory, haudit⟩
  · rintro ⟨ms, h⟩
    unfold validateAddon
    rw [h.object, ok_bind, h.id, ok_bind, h.name, ok_bind, h.version, ok_bind, h.description,
      ok_bind, h.path, ok_bind, ensure_true h.reverseDns, ok_bind, ensure_true h.semver, ok_bind,
      h.capabilities, ok_bind, h.categories, ok_bind, h.tags, ok_bind, h.deprecated, ok_bind,
      h.history, ok_bind, h.audit, ok_bind]
    rfl

theorem validateAddon_valid {v : Nat} {raw : Json} {place : JsString} {a : RegistryAddon}
    (h : validateAddon P v raw place = .ok a) : a.Valid P v := by
  obtain ⟨ms, h⟩ := validateAddon_iff.mp h
  refine ⟨h.reverseDns, h.semver, fun cs hcs => ?_, fun ts hts => ?_, fun d hd => ?_,
    fun list hlist => ?_, fun a ha => ?_⟩
  · obtain ⟨hv, value, hvalue⟩ := gatedMember_ok h.categories hcs
    exact ⟨hv, validateCategoriesField_valid hvalue⟩
  · obtain ⟨hv, value, hvalue⟩ := gatedMember_ok h.tags hts
    exact ⟨hv, validateTagsField_valid hvalue⟩
  · obtain ⟨hv, value, hvalue⟩ := gatedMember_ok h.deprecated hd
    exact ⟨hv, validateAddonDeprecation_valid hvalue⟩
  · obtain ⟨hv, value, hvalue⟩ := gatedMember_ok h.history hlist
    exact ⟨hv, validateHistoryField_valid hvalue⟩
  · obtain ⟨hv, value, hvalue⟩ := gatedMember_ok h.audit ha
    exact ⟨hv, validateAuditField_valid hvalue⟩

theorem validateAddon_toJson {v : Nat} {a : RegistryAddon} (h : a.Valid P v) (place : JsString) :
    validateAddon P v a.toJson place = .ok a := by
  have hmember := member_present (l := a.fields) (show [js "id", js "name", js "version",
    js "description", js "path", js "capabilities", js "categories", js "tags", js "deprecated",
    js "history", js "audit"].Nodup by decide)
  have hcapabilities : member (present a.fields) (js "capabilities") =
    some (stringsJson a.capabilities) := hmember (js "capabilities")
  have hcategories : member (present a.fields) (js "categories") =
    a.categories.map stringsJson := hmember (js "categories")
  have htags : member (present a.fields) (js "tags") = a.tags.map stringsJson :=
    hmember (js "tags")
  have hdeprecated : member (present a.fields) (js "deprecated") =
    a.deprecated.map AddonDeprecationV1.toJson := hmember (js "deprecated")
  have hhistory : member (present a.fields) (js "history") = a.history.map historyJson :=
    hmember (js "history")
  have haudit : member (present a.fields) (js "audit") = a.audit.map AddonAuditV1.toJson :=
    hmember (js "audit")
  unfold validateAddon RegistryAddon.toJson looseMembers
  rw [ok_bind, stringMember_str (hmember (js "id")) rfl, ok_bind,
    stringMember_str (hmember (js "name")) rfl, ok_bind,
    stringMember_str (hmember (js "version")) rfl, ok_bind,
    stringMember_str (hmember (js "description")) rfl, ok_bind,
    stringMember_str (hmember (js "path")) rfl, ok_bind, ensure_true h.id, ok_bind,
    ensure_true h.version, ok_bind, hcapabilities, stringArray_json, ok_bind,
    gatedMember_map hcategories fun cs hcs => (h.categories cs hcs).imp_right fun hknown =>
      validateCategoriesField_json hknown place, ok_bind,
    gatedMember_map htags fun ts hts => (h.tags ts hts).imp_right fun hvalid =>
      validateTagsField_json hvalid.1 hvalid.2 place, ok_bind,
    gatedMember_map hdeprecated fun d hd => (h.deprecated d hd).imp_right fun hvalid =>
      validateAddonDeprecation_toJson hvalid place, ok_bind,
    gatedMember_map hhistory fun list hlist => (h.history list hlist).imp_right fun hvalid =>
      validateHistoryField_json hvalid place, ok_bind,
    gatedMember_map haudit fun audit ha => (h.audit audit ha).imp_right fun hvalid =>
      validateAuditField_toJson hvalid.1 hvalid.2 place, ok_bind]
  rfl

end Senn.Schema

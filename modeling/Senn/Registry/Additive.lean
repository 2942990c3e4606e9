import Senn.Registry.Accepted

/-! # Versions of the schema

A document that is accepted at one version of the schema is accepted at every later one, as
the same registry; what `validateRegistry` returns it accepts again; and the versions and the
successors that a registry names are its own. Nothing compares the ids of its entries. -/

namespace Senn.Schema
open Senn.Js Senn.Protocol

variable {P : Platform}

/-! ## Later versions -/

theorem validateAddon_mono {v w : Nat} {raw : Json} {place : JsString} {a : RegistryAddon}
    (h : validateAddon P v raw place = .ok a) (hle : v ≤ w) :
    validateAddon P w raw place = .ok a := by
  obtain ⟨ms, h⟩ := validateAddon_iff.mp h
  exact validateAddon_iff.mpr ⟨ms,
    { h with
      categories := gatedMember_mono h.categories hle
      tags := gatedMember_mono h.tags hle
      deprecated := gatedMember_mono h.deprecated hle
      history := gatedMember_mono h.history hle
      audit := gatedMember_mono h.audit hle }⟩

theorem validateAddons_mono {v w i : Nat} {raws : List Json} {addons : List RegistryAddon}
    (h : validateAddons P v i raws = .ok addons) (hle : v ≤ w) :
    validateAddons P w i raws = .ok addons := by
  induction raws generalizing i addons with
  | nil => exact h
  | cons raw raws ih =>
    unfold validateAddons at h ⊢
    obtain ⟨a, ha, h⟩ := bind_ok h
    obtain ⟨rest, hrest, h⟩ := bind_ok h
    rw [validateAddon_mono ha hle, ok_bind, ih hrest, ok_bind]
    exact h

/-- The document with another version. -/
def withVersion (doc : Json) (m : Nat) : Json :=
  match doc with
  | .obj ms => .obj (ms.map fun e => if e.1 = js "v" then (e.1, .num (.ofNat m)) else e)
  | doc => doc

theorem member_withVersion_v (ms : Members) (m : Nat) :
    member (ms.map fun e => if e.1 = js "v" then (e.1, .num (.ofNat m)) else e) (js "v") =
      (member ms (js "v")).map fun _ => .num (.ofNat m) := by
  induction ms with
  | nil => rfl
  | cons e ms ih =>
    unfold member at ih ⊢
    by_cases he : e.1 = js "v"
    · simp [he]
    · simpa [he] using ih

theorem member_withVersion {k : JsString} (hk : k ≠ js "v") (ms : Members) (m : Nat) :
    member (ms.map fun e => if e.1 = js "v" then (e.1, .num (.ofNat m)) else e) k =
      member ms k := by
  induction ms with
  | nil => rfl
  | cons e ms ih =>
    unfold member at ih ⊢
    by_cases he : e.1 = js "v"
    · have hne : ¬ js "v" = k := fun h => hk h.symm
      simpa [he, hne] using ih
    · by_cases hek : e.1 = k
      · simp [hek, hk]
      · simpa [he, hek] using ih

/-! ## The registry -/

def Publisher.fields (p : Publisher) : List (JsString × Option Json) :=
  [(js "name", some (.str p.name)), (js "homepage", p.homepage.map .str)]

def Publisher.toJson (p : Publisher) : Json := .obj (present p.fields)

def Registry.fields (r : Registry) : List (JsString × Option Json) :=
  [(js "v", some (.num (.ofNat r.v))), (js "publisher", some r.publisher.toJson),
    (js "trustedKeys", some (stringsJson r.trustedKeys)),
    (js "addons", some (.arr (r.addons.map RegistryAddon.toJson)))]

def Registry.toJson (r : Registry) : Json := .obj (present r.fields)

/-- A registry as `validateRegistry` rebuilds it. -/
structure Registry.Valid (P : Platform) (r : Registry) : Prop where
  version : r.v = 1 ∨ r.v = 2 ∨ r.v = 3
  trustedKeys : r.trustedKeys ≠ []
  addons : ∀ a ∈ r.addons, a.Valid P r.v
  successors : ∀ a ∈ r.addons, ∀ id, a.successor = some id → id ∈ r.addons.map RegistryAddon.id

theorem schemaVersion_ok {o : Members} {v : Nat} (h : schemaVersion o = .ok v) :
    (v = 1 ∨ v = 2 ∨ v = 3) ∧ member o (js "v") = some (.num (.ofNat v)) := by
  unfold schemaVersion at h
  split at h
  · next x hx =>
    split at h
    · next hv =>
      obtain rfl := Except.ok.inj h
      exact ⟨.inl rfl, by rw [hx, (Number.eq_iff.mp hv).1]⟩
    split at h
    · next hv =>
      obtain rfl := Except.ok.inj h
      exact ⟨.inr (.inl rfl), by rw [hx, (Number.eq_iff.mp hv).1]⟩
    split at h
    · next hv =>
      obtain rfl := Except.ok.inj h
      exact ⟨.inr (.inr rfl), by rw [hx, (Number.eq_iff.mp hv).1]⟩
    · cases h
  · cases h

theorem schemaVersion_ofNat {o : Members} {v : Nat} (hv : v = 1 ∨ v = 2 ∨ v = 3)
    (h : member o (js "v") = some (.num (.ofNat v))) : schemaVersion o = .ok v := by
  rw [schemaVersion, h]
  obtain rfl | rfl | rfl := hv <;> decide

/-- The entries are rebuilt one by one, each at a place of its own. -/
theorem validateAddons_forall₂ {v i : Nat} {raws : List Json} {addons : List RegistryAddon}
    (h : validateAddons P v i raws = .ok addons) :
    List.Forall₂ (fun raw a => ∃ place, validateAddon P v raw place = .ok a) raws addons := by
  induction raws generalizing i addons with
  | nil =>
    obtain rfl := Except.ok.inj h
    exact .nil
  | cons raw raws ih =>
    unfold validateAddons at h
    obtain ⟨a, ha, h⟩ := bind_ok h
    obtain ⟨rest, hrest, h⟩ := bind_ok h
    obtain rfl := Except.ok.inj h
    exact .cons ⟨_, ha⟩ (ih hrest)

theorem validateAddons_valid {v i : Nat} {raws : List Json} {addons : List RegistryAddon}
    (h : validateAddons P v i raws = .ok addons) : ∀ a ∈ addons, a.Valid P v := by
  have hall := validateAddons_forall₂ h
  clear h
  induction hall with
  | nil => exact List.forall_mem_nil _
  | cons ha _ ih =>
    obtain ⟨_, ha⟩ := ha
    exact List.forall_mem_cons.mpr ⟨validateAddon_valid ha, ih⟩

theorem validateAddons_toJson {v : Nat} {addons : List RegistryAddon}
    (h : ∀ a ∈ addons, a.Valid P v) (i : Nat) :
    validateAddons P v i (addons.map RegistryAddon.toJson) = .ok addons := by
  induction addons generalizing i with
  | nil => rfl
  | cons a addons ih =>
    obtain ⟨ha, haddons⟩ := List.forall_mem_cons.mp h
    rw [List.map_cons, validateAddons, validateAddon_toJson ha, ok_bind, ih haddons, ok_bind]
    rfl

theorem validateSuccessors_iff {ids : List JsString} {addons : List RegistryAddon} :
    validateSuccessors ids addons = .ok () ↔
      ∀ a ∈ addons, ∀ id, a.successor = some id → id ∈ ids := by
  induction addons with
  | nil => simp [validateSuccessors]
  | cons a addons ih =>
    rw [validateSuccessors, List.forall_mem_cons]
    split
    · next id hid =>
      split
      · next hmem =>
        rw [ih]
        refine (and_iff_right fun id' hid' => ?_).symm
        rw [hid] at hid'
        rwa [← Option.some.inj hid']
      · next hmem =>
        constructor
        · intro h
          cases h
        · intro h
          exact absurd (h.1 id hid) hmem
    · next hnone =>
      rw [ih]
      refine (and_iff_right fun id hid => ?_).symm
      rw [hnone] at hid
      cases hid

/-- A document that `validateRegistry` rebuilds as `r`, check by check. -/
structure DocumentChecks (P : Platform) (doc : Json) (r : Registry) (o pub : Members)
    (raws : List Json) : Prop where
  object : looseMembers (some doc) (js "registry: not an object") = .ok o
  version : schemaVersion o = .ok r.v
  publisher : looseMembers (member o (js "publisher"))
    (js "registry: publisher must be an object") = .ok pub
  name : stringMember pub (js "name") (fun _ => true)
    (js "registry: publisher.name must be string") = .ok r.publisher.name
  homepage : r.publisher.homepage = stringIfAny (member pub (js "homepage"))
  trustedKeys : stringArray (member o (js "trustedKeys"))
    (js "registry: trustedKeys must be a non-empty string array") = .ok r.trustedKeys
  nonempty : r.trustedKeys ≠ []
  entries : arrayValue (member o (js "addons")) (js "registry: addons must be an array") = .ok raws
  addons : validateAddons P r.v 0 raws = .ok r.addons
  successors : validateSuccessors (r.addons.map RegistryAddon.id) r.addons = .ok ()

theorem validateRegistry_iff {doc : Json} {r : Registry} :
    validateRegistry P doc = .ok r ↔ ∃ o pub raws, DocumentChecks P doc r o pub raws := by
  constructor
  · intro h
    unfold validateRegistry at h
    obtain ⟨o, ho, h⟩ := bind_ok h
    obtain ⟨v, hv, h⟩ := bind_ok h
    obtain ⟨pub, hpub, h⟩ := bind_ok h
    obtain ⟨name, hname, h⟩ := bind_ok h
    obtain ⟨trustedKeys, hkeys, h⟩ := bind_ok h
    obtain ⟨_, hnonempty, h⟩ := bind_ok h
    obtain ⟨raws, hraws, h⟩ := bind_ok h
    obtain ⟨addons, haddons, h⟩ := bind_ok h
    obtain ⟨_, hsuccessors, h⟩ := bind_ok h
    obtain rfl := Except.ok.inj h
    exact ⟨o, pub, raws, ho, hv, hpub, hname, rfl, hkeys, of_decide_eq_true (ensure_ok hnonempty),
      hraws, haddons, hsuccessors⟩
  · rintro ⟨o, pub, raws, h⟩
    unfold validateRegistry
    rw [h.object, ok_bind, h.version, ok_bind, h.publisher, ok_bind, h.name, ok_bind,
      h.trustedKeys, ok_bind, ensure_true (decide_eq_true h.nonempty), ok_bind, h.entries, ok_bind,
      h.addons, ok_bind, h.successors, ok_bind, ← h.homepage]
    rfl

theorem validateRegistry_valid {doc : Json} {r : Registry} (h : validateRegistry P doc = .ok r) :
    r.Valid P := by
  obtain ⟨o, pub, raws, h⟩ := validateRegistry_iff.mp h
  exact ⟨(schemaVersion_ok h.version).1, h.nonempty, validateAddons_valid h.addons,
    validateSuccessors_iff.mp h.successors⟩

theorem validateRegistry_toJson {r : Registry} (h : r.Valid P) :
    validateRegistry P r.toJson = .ok r := by
  have hmember := member_present (l := r.fields)
    (show [js "v", js "publisher", js "trustedKeys", js "addons"].Nodup by decide)
  have hpublisher : member (present r.fields) (js "publisher") = some r.publisher.toJson :=
    hmember (js "publisher")
  have hkeys : member (present r.fields) (js "trustedKeys") = some (stringsJson r.trustedKeys) :=
    hmember (js "trustedKeys")
  have haddons : member (present r.fields) (js "addons") =
    some (.arr (r.addons.map RegistryAddon.toJson)) := hmember (js "addons")
  have hpub := member_present (l := r.publisher.fields)
    (show [js "name", js "homepage"].Nodup by decide)
  have hhomepage : member (present r.publisher.fields) (js "homepage") =
    r.publisher.homepage.map Json.str := hpub (js "homepage")
  have hstring : stringIfAny (r.publisher.homepage.map Json.str) = r.publisher.homepage := by
    cases r.publisher.homepage <;> rfl
  unfold validateRegistry
  rw [Registry.toJson, looseMembers, ok_bind, schemaVersion_ofNat h.version (hmember (js "v")),
    ok_bind, hpublisher, Publisher.toJson, looseMembers, ok_bind,
    stringMember_str (hpub (js "name")) rfl, ok_bind, hkeys, stringArray_json, ok_bind,
    ensure_true (decide_eq_true h.trustedKeys), ok_bind, haddons, arrayValue, ok_bind,
    validateAddons_toJson h.addons, ok_bind, validateSuccessors_iff.mpr h.successors, ok_bind,
    hhomepage, hstring]
  rfl

theorem validateRegistry_withVersion {doc : Json} {r : Registry} {m : Nat}
    (h : validateRegistry P doc = .ok r) (hle : r.v ≤ m) (hm : m ≤ 3) :
    validateRegistry P (withVersion doc m) = .ok { r with v := m } := by
  obtain ⟨o, pub, raws, h⟩ := validateRegistry_iff.mp h
  obtain ⟨hrange, hmember⟩ := schemaVersion_ok h.version
  have hobject := h.object
  cases doc with
  | obj ms =>
    obtain rfl := Except.ok.inj hobject
    have hversion := member_withVersion_v ms m
    rw [hmember] at hversion
    have hm : m = 1 ∨ m = 2 ∨ m = 3 := by omega
    have hsame : ∀ {k}, k ≠ js "v" → member _ k = member ms k :=
      fun hk => member_withVersion hk ms m
    exact validateRegistry_iff.mpr ⟨_, pub, raws,
      { h with
        object := rfl
        version := schemaVersion_ofNat hm hversion
        publisher := by rw [hsame (by decide), h.publisher]
        trustedKeys := by rw [hsame (by decide), h.trustedKeys]
        entries := by rw [hsame (by decide), h.entries]
        addons := validateAddons_mono h.addons hle }⟩
  | arr xs =>
    obtain rfl := Except.ok.inj hobject
    cases hmember
  | _ => cases hobject

/-- The versions and the successors that the entries name are there. -/
structure Registry.Coherent (r : Registry) : Prop where
  history : ∀ a ∈ r.addons, ∀ list, a.history = some list →
    (list.map AddonVersionEntryV1.version).Nodup ∧ a.version ∉ list.map AddonVersionEntryV1.version
  audit : ∀ a ∈ r.addons, ∀ audit, a.audit = some audit → audit.auditedVersion = a.version ∨
    ∃ list, a.history = some list ∧ audit.auditedVersion ∈ list.map AddonVersionEntryV1.version
  successor : ∀ a ∈ r.addons, ∀ id, a.successor = some id → ∃ b ∈ r.addons, b.id = id

theorem Registry.Valid.coherent {r : Registry} (h : r.Valid P) : r.Coherent where
  history a ha list hlist := by
    obtain ⟨_, hentries, hhead⟩ := (h.addons a ha).history list hlist
    exact ⟨hentries.2.1, hhead⟩
  audit a ha audit haudit := by
    obtain ⟨_, _, hknown⟩ := (h.addons a ha).audit audit haudit
    obtain hhistory | hhead := List.mem_append.mp hknown
    · cases hlist : a.history with
      | none =>
        rw [hlist] at hhistory
        cases hhistory
      | some list =>
        rw [hlist] at hhistory
        exact .inr ⟨list, rfl, hhistory⟩
    · exact .inl (List.mem_singleton.mp hhead)
  successor a ha id hid := List.mem_map.mp (h.successors a ha id hid)

/-- An accepted document is accepted at every later version of the schema as the same
registry, the registry is accepted again as it is, and what its entries name is there. -/
theorem registry_additive (P : Platform) (doc : Json) (r : Registry)
    (h : validateRegistry P doc = .ok r) :
    (∀ m, r.v ≤ m → m ≤ 3 → validateRegistry P (withVersion doc m) = .ok { r with v := m }) ∧
      validateRegistry P r.toJson = .ok r ∧ r.Coherent :=
  ⟨fun _ => validateRegistry_withVersion h, validateRegistry_toJson (validateRegistry_valid h),
    (validateRegistry_valid h).coherent⟩

/-- A platform that knows one date. -/
def oneDate : Platform := ⟨fun s => s = js "2026-01-01", fun _ => false⟩

/-- An entry without the later fields. -/
def plainAddon (id : JsString) : RegistryAddon :=
  ⟨id, js "Notes", js "1.0.0", js "", js "notes", [], none, none, none, none, none⟩

/-- One entry is succeeded by the other. -/
def movedRegistry : Registry where
  v := 2
  publisher := ⟨js "senn", none⟩
  trustedKeys := [js "key"]
  addons := [
    { plainAddon (js "dev.notes") with
      deprecated := some ⟨js "2026-01-01", js "moved", some (js "dev.notes2")⟩ },
    plainAddon (js "dev.notes2")]

theorem registry_additive_moved :
    validateRegistry oneDate movedRegistry.toJson = .ok movedRegistry ∧
      validateRegistry oneDate (withVersion movedRegistry.toJson 3) =
        .ok { movedRegistry with v := 3 } := by
  have h : validateRegistry oneDate movedRegistry.toJson = .ok movedRegistry := by rfl
  exact ⟨h, (registry_additive oneDate _ _ h).1 3 (by decide) (by decide)⟩

/-! ## Ids -/

/-- No two entries have the same id. -/
def Registry.UniqueIds (r : Registry) : Prop :=
  ∀ (i j : Nat) (a b : RegistryAddon), r.addons[i]? = some a → r.addons[j]? = some b →
    a.id = b.id → i = j

/-- The ids in the `addons` of a document. -/
def documentIds (doc : Json) : List JsString :=
  match (doc.get? (js "addons")) with
  | some (.arr raws) => raws.filterMap fun raw => stringIfAny (raw.get? (js "id"))
  | _ => []

theorem uniqueIds_iff {r : Registry} : r.UniqueIds ↔ (r.addons.map RegistryAddon.id).Nodup := by
  rw [List.nodup_iff_getElem?_ne_getElem?]
  constructor
  · intro h i j hij hj heq
    obtain ⟨b, hb, hbid⟩ : ∃ b, r.addons[j]? = some b ∧ _ = b.id := by
      rw [List.length_map] at hj
      exact ⟨_, List.getElem?_eq_getElem hj, rfl⟩
    rw [List.getElem?_map, List.getElem?_map, hb] at heq
    obtain ⟨a, ha, hid⟩ := Option.map_eq_some_iff.mp heq
    exact absurd (h i j a b ha hb hid) (Nat.ne_of_lt hij)
  · intro h i j a b ha hb hid
    by_contra hne
    have hi := (List.getElem?_eq_some_iff.mp ha).1
    have hj := (List.getElem?_eq_some_iff.mp hb).1
    have heq : (r.addons.map RegistryAddon.id)[i]? = (r.addons.map RegistryAddon.id)[j]? := by
      rw [List.getElem?_map, List.getElem?_map, ha, hb]
      exact congrArg some hid
    obtain hij | hji := Nat.lt_or_gt_of_ne hne
    · exact h i j hij (by simpa using hj) heq
    · exact h j i hji (by simpa using hi) heq.symm

theorem validateAddon_id {v : Nat} {raw : Json} {place : JsString} {a : RegistryAddon}
    (h : validateAddon P v raw place = .ok a) : stringIfAny (raw.get? (js "id")) = some a.id := by
  obtain ⟨ms, h⟩ := validateAddon_iff.mp h
  rw [looseMembers_get h.object, stringMember_some h.id]
  rfl

theorem validateAddons_ids {v i : Nat} {raws : List Json} {addons : List RegistryAddon}
    (h : validateAddons P v i raws = .ok addons) :
    raws.filterMap (fun raw => stringIfAny (raw.get? (js "id"))) =
      addons.map RegistryAddon.id := by
  have hall := validateAddons_forall₂ h
  clear h
  induction hall with
  | nil => rfl
  | cons ha _ ih =>
    obtain ⟨_, ha⟩ := ha
    simp only [List.filterMap_cons, validateAddon_id ha, List.map_cons, ih]

theorem documentIds_eq {doc : Json} {r : Registry} (h : validateRegistry P doc = .ok r) :
    documentIds doc = r.addons.map RegistryAddon.id := by
  obtain ⟨o, pub, raws, h⟩ := validateRegistry_iff.mp h
  rw [documentIds, looseMembers_get h.object, arrayValue_some h.entries]
  exact validateAddons_ids h.addons

/-- The ids of an accepted registry are distinct if and only if they are so in the document:
nothing is rejected for an id that is there twice. -/
theorem ids_unique_iff (P : Platform) (doc : Json) (r : Registry)
    (h : validateRegistry P doc = .ok r) : r.UniqueIds ↔ (documentIds doc).Nodup := by
  rw [uniqueIds_iff, documentIds_eq h]

theorem ids_unique_moved : movedRegistry.UniqueIds :=
  (ids_unique_iff oneDate movedRegistry.toJson movedRegistry (by rfl)).mpr (by decide)

/-- Two entries with one id. -/
def twiceRegistry : Registry :=
  { movedRegistry with v := 1, addons := [plainAddon (js "dev.notes"), plainAddon (js "dev.notes")] }

theorem twiceRegistry_accepted : ¬ ∀ (P : Platform) (doc : Json) (r : Registry),
    validateRegistry P doc = .ok r → r.UniqueIds := by
  intro h
  have hunique := h oneDate twiceRegistry.toJson twiceRegistry (by rfl)
  exact absurd (hunique 0 1 _ _ rfl rfl rfl) (by decide)

end Senn.Schema

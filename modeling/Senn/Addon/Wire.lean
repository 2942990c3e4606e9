import Senn.Addon.Bridge

/-! # What arrives of a payload

Whatever a page sends that is a JavaScript value, the text its host makes of it is read by the
peer's hosts as the envelope around one value, or as none at all. -/

namespace Senn.Js.Data

mutual
/-- A value that there can be: as `Cloned`, and so is what `JSON.stringify` makes of the objects
of other classes. -/
def Written : Data → Prop
  | .num (.fin q) => IsDouble (.fin q)
  | .obj ms => (ms.map Prod.fst).Nodup ∧ WrittenMembers ms
  | .arr xs _ => WrittenElems xs
  | .other _ (some json) => json.Proper
  | _ => True
def WrittenElems : List Data → Prop
  | [] => True
  | x :: xs => Written x ∧ WrittenElems xs
def WrittenMembers : List (JsString × Data) → Prop
  | [] => True
  | (_, v) :: ms => Written v ∧ WrittenMembers ms
end

/-- What `JSON.parse` reads in what `JSON.stringify` writes, where it writes something. -/
def wire (v : Data) : Option Data := v.toJson.join.map ofJson

theorem byteMembers_keys (bs : Bytes) : ∀ i,
    (byteMembers i bs).map Prod.fst = (List.range' i bs.length).map (natText 10) := by
  induction bs with
  | nil => intro i; rfl
  | cons b bs ih => intro i; simp only [byteMembers, List.map_cons, ih, List.length_cons]; rfl

theorem byteMembers_proper (bs : Bytes) : ∀ i, ProperMembers (byteMembers i bs) := by
  induction bs with
  | nil => intro i; trivial
  | cons b bs ih =>
    intro i
    have hb := b.toNat_lt
    exact ⟨⟨b.toNat, rfl, toDouble_nat (by omega)⟩, ih (i + 1)⟩

theorem bytes_proper (bs : Bytes) : (Json.obj (byteMembers 0 bs)).Proper := by
  refine ⟨?_, byteMembers_proper bs 0⟩
  rw [byteMembers_keys]
  exact (List.nodup_range' ..).map fun _ _ h => natText_injective (by decide) (by decide) h

mutual
/-- What is written of a value is JSON that there can be. -/
theorem toJson_proper : ∀ {v : Data} {j : Json}, v.Written → v.toJson = some (some j) → j.Proper
  | .null, _, _, h | .bool _, _, _, h | .str _, _, _, h => by
    cases h
    trivial
  | .num (.fin q), _, hv, h => by
    cases h
    exact hv
  | .num .nan, _, _, h | .num .ninf, _, _, h | .num .pinf, _, _, h => by
    cases h
    trivial
  | .bytes b, _, _, h => by
    cases h
    exact bytes_proper b
  | .other _ (some json), _, hv, h => by
    cases h
    exact hv
  | .arr xs ms, _, hv, h => by
    rw [toJson] at h
    obtain ⟨js, hjs, heq⟩ := Option.map_eq_some_iff.mp h
    cases heq
    exact toElems_proper hv hjs
  | .obj ms, _, hv, h => by
    rw [toJson] at h
    obtain ⟨js, hjs, heq⟩ := Option.map_eq_some_iff.mp h
    cases heq
    obtain ⟨hproper, hkeys⟩ := toMembers_proper hv.2 hjs
    exact ⟨hv.1.sublist hkeys, hproper⟩
theorem toElems_proper : ∀ {xs : List Data} {js : List Json}, WrittenElems xs →
    toElems xs = some js → ProperElems js
  | [], _, _, h => by
    cases h
    trivial
  | x :: xs, _, hv, h => by
    simp only [toElems, Option.bind_eq_bind, Option.bind_eq_some_iff, Option.pure_def,
      Option.some.injEq] at h
    obtain ⟨j, hj, js, hjs, rfl⟩ := h
    refine ⟨?_, toElems_proper hv.2 hjs⟩
    cases j with
    | none => trivial
    | some j => exact toJson_proper hv.1 hj
theorem toMembers_proper : ∀ {ms : List (JsString × Data)} {js : List (JsString × Json)},
    WrittenMembers ms → toMembers ms = some js →
      ProperMembers js ∧ (js.map Prod.fst).Sublist (ms.map Prod.fst)
  | [], _, _, h => by
    cases h
    exact ⟨trivial, List.Sublist.refl _⟩
  | (k, v) :: ms, _, hv, h => by
    simp only [toMembers, Option.bind_eq_bind, Option.bind_eq_some_iff, Option.pure_def,
      Option.some.injEq] at h
    obtain ⟨j, hj, js, hjs, rfl⟩ := h
    obtain ⟨hproper, hkeys⟩ := toMembers_proper hv.2 hjs
    cases j with
    | none => exact ⟨hproper, hkeys.cons k⟩
    | some j => exact ⟨⟨toJson_proper hv.1 hj, hproper⟩, hkeys.cons_cons k⟩
end

mutual
theorem written_ofJson : ∀ {j : Json}, j.Proper → (ofJson j).Written
  | .null, _ | .bool _, _ | .str _, _ => trivial
  | .num _, ⟨q, rfl, hq⟩ => ⟨q, rfl, hq⟩
  | .arr _, h => written_ofJsons h
  | .obj _, h => by
    refine ⟨?_, written_ofMembers h.2⟩
    rw [Protocol.ofMembers_map, List.map_map]
    exact h.1
theorem written_ofJsons : ∀ {js : List Json}, ProperElems js → WrittenElems (ofJsons js)
  | [], _ => trivial
  | _ :: _, h => ⟨written_ofJson h.1, written_ofJsons h.2⟩
theorem written_ofMembers : ∀ {ms : List (JsString × Json)}, ProperMembers ms →
    WrittenMembers (ofMembers ms)
  | [], _ => trivial
  | (_, _) :: _, h => ⟨written_ofJson h.1, written_ofMembers h.2⟩
end

/-- A value that `JSON.parse` can make. -/
def Parsed (v : Data) : Prop := ∃ j : Json, j.Proper ∧ ofJson j = v

theorem Parsed.written {v : Data} (h : v.Parsed) : v.Written := by
  obtain ⟨j, hj, rfl⟩ := h
  exact written_ofJson hj

theorem wire_parsed {v p : Data} (hv : v.Written) (h : v.wire = some p) : p.Parsed := by
  obtain ⟨j, hj, rfl⟩ := Option.map_eq_some_iff.mp h
  exact ⟨j, toJson_proper hv (Option.join_eq_some_iff.mp hj), rfl⟩

/-- What can be parsed arrives as it is. -/
theorem Parsed.wire {v : Data} (h : v.Parsed) : v.wire = some v := by
  obtain ⟨j, hj, rfl⟩ := h
  rw [Data.wire, Protocol.toJson_ofJson hj.exact]
  rfl

end Senn.Js.Data

namespace Senn.Addon.AddonHost

open Senn.Js Senn.Protocol

variable {s : AddonHost} {id : JsString} {now : Nat} {payload : Data}

/-- The envelope as JSON, without the payload where nothing is written of it. -/
theorem envelope_toJson : (s.envelope id now payload).toJson = payload.toJson.map fun json =>
    some (.obj ([(js "id", .str id), (js "kind", .str (js "addon.message")),
      (js "addon", .str s.manifest.id), (js "version", .str s.manifest.version),
      (js "createdAt", .num (.ofNat now))] ++ (json.map fun json => (js "payload", json)).toList)) := by
  cases h : payload.toJson <;>
    simp [envelope, Data.toJson, Data.toMembers, Number.ofNat, h]

theorem stringified_eq_none (h : payload.toJson = none) :
    stringified (s.envelope id now payload) = none := by
  rw [stringified, envelope_toJson, h]
  rfl

/-- An envelope without a payload is no envelope. -/
theorem tryParse_bare (h : s.manifest.Valid) (hid : id ≠ []) (hnow : now ≤ 2 ^ 53) :
    tryParseAddonEnvelope (Json.obj [(js "id", .str id), (js "kind", .str (js "addon.message")),
      (js "addon", .str s.manifest.id), (js "version", .str s.manifest.version),
      (js "createdAt", .num (.ofNat now))]).stringify = none := by
  have hexact : (Json.obj [(js "id", .str id), (js "kind", .str (js "addon.message")),
      (js "addon", .str s.manifest.id), (js "version", .str s.manifest.version),
      (js "createdAt", .num (.ofNat now))]).Exact :=
    ⟨by simp [js], trivial, trivial, trivial, trivial, readsBack_ofNat hnow, trivial⟩
  have hmissing : validateAddonEnvelope (.ofJson (.obj [(js "id", .str id),
      (js "kind", .str (js "addon.message")), (js "addon", .str s.manifest.id),
      (js "version", .str s.manifest.version), (js "createdAt", .num (.ofNat now))])) =
      .error (envelopeError (js "payload missing")) := by
    simp [Data.ofJson, Data.ofMembers, validateAddonEnvelope, validateMembers, stringMember,
      ownProperty, Data.hasOwn, Data.str?, Data.finite?, require, h.id, h.version, hid, js,
      Number.ofNat, ok_bind]
  rw [tryParseAddonEnvelope, parse_stringify hexact]
  dsimp only
  rw [hmissing, Except.toOption, ite_self, ite_self]

/-- The text of an envelope is read as the envelope around what arrives of the payload. -/
theorem tryParse_stringified (h : s.manifest.Valid) (hid : id ≠ []) (hnow : now ≤ 2 ^ 53)
    (hpayload : payload.Written) {text : JsString}
    (htext : stringified (s.envelope id now payload) = some text) :
    tryParseAddonEnvelope text = payload.wire.map fun payload =>
      ⟨id, s.manifest.id, s.manifest.version, now, payload⟩ := by
  rw [stringified, envelope_toJson] at htext
  cases hjson : payload.toJson with
  | none => simp [hjson] at htext
  | some json =>
    rw [hjson] at htext
    simp only [Option.map_some, Option.bind_some, Option.some.injEq] at htext
    rw [← htext, Data.wire, hjson]
    cases json with
    | none => exact tryParse_bare h hid hnow
    | some json => exact tryParse_envelope h hid hnow ((Data.toJson_proper hpayload hjson).exact)

end Senn.Addon.AddonHost

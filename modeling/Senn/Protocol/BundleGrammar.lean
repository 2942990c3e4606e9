import Mathlib.Data.List.Perm.Basic
import Senn.Js.NumberText
import Senn.Protocol.Codec

/-! # The grammar of a signaling bundle

The fields of each kind of message, that the validator accepts the bundles made of them and no
others, and the round trip of the codec over all of these. -/

namespace Senn.Protocol
open Senn.Js

abbrev Members := List (JsString × Data)

/-- The fields of a message, as they are documented for its kind. -/
def SignalingMessage.fields : SignalingMessage → Members
  | .offer from_ sdp =>
    [(js "kind", .str (js "offer")), (js "from", .str from_), (js "sdp", .str sdp)]
  | .answer from_ to_ sdp =>
    [(js "kind", .str (js "answer")), (js "from", .str from_), (js "to", .str to_),
      (js "sdp", .str sdp)]
  | .ice from_ to_ candidate =>
    [(js "kind", .str (js "ice")), (js "from", .str from_), (js "to", .str to_),
      (js "candidate", candidate)]
  | .bye from_ => [(js "kind", .str (js "bye")), (js "from", .str from_)]

/-- `msg.from` -/
def SignalingMessage.from_ : SignalingMessage → JsString
  | .offer from_ _ | .answer from_ _ _ | .ice from_ _ _ | .bye from_ => from_

/-- What is asked of the fields. -/
def SignalingMessage.Valid : SignalingMessage → Prop
  | .offer from_ sdp => isPeerId from_ = true ∧ sdp ≠ []
  | .answer from_ to_ sdp => isPeerId from_ = true ∧ isPeerId to_ = true ∧ sdp ≠ []
  | .ice from_ to_ candidate =>
    isPeerId from_ = true ∧ isPeerId to_ = true ∧ candidate.isObject = true
  | .bye from_ => isPeerId from_ = true

/-- The fields of a bundle with these messages. -/
def bundleFields (roomId : JsString) (xs : List Data) (rest : Members) : Members :=
  [(js "v", .num (.ofNat 1)), (js "roomId", .str roomId), (js "messages", .arr xs rest)]

structure SignalingBundleV1.Valid (b : SignalingBundleV1) : Prop where
  roomId : isRoomId b.roomId = true
  messages : b.messages ≠ []
  each : ∀ m ∈ b.messages, m.Valid

/-- The object is the message: its fields, in some order. -/
def SpellsMessage (x : Data) (m : SignalingMessage) : Prop := ∃ ms, x = .obj ms ∧ ms.Perm m.fields

/-- The object is the bundle: its fields, in some order, and its messages in theirs. -/
def Spells (value : Data) (b : SignalingBundleV1) : Prop :=
  ∃ ms xs rest, value = .obj ms ∧ ms.Perm (bundleFields b.roomId xs rest) ∧
    List.Forall₂ SpellsMessage xs b.messages

/-- No key twice, as in every JavaScript object. -/
def DistinctKeys : Data → Prop
  | .obj ms => (ms.map Prod.fst).Nodup
  | _ => True

/-- The bundle and its messages have distinct keys. -/
def Tidy (value : Data) : Prop :=
  DistinctKeys value ∧
    ∀ xs rest, value.get (js "messages") = .arr xs rest → ∀ x ∈ xs, DistinctKeys x

/-- The objects the validator returns. -/
def SignalingBundleV1.toData (b : SignalingBundleV1) : Data :=
  .obj (bundleFields b.roomId (b.messages.map fun m => .obj m.fields) [])

/-! ## Members in some order -/

theorem ownProperty_of_mem {ms : Members} (hms : (ms.map Prod.fst).Nodup) {k : JsString} {v : Data}
    (h : (k, v) ∈ ms) : ownProperty ms k = v := by
  induction ms with
  | nil => cases h
  | cons m ms ih =>
    obtain ⟨hnot, hnodup⟩ := List.nodup_cons.mp hms
    unfold ownProperty
    by_cases hk : m.1 = k
    · rw [List.find?_cons_of_pos (by simpa using hk)]
      obtain heq | hrest := List.mem_cons.mp h
      · rw [← heq]
      · exact absurd (List.mem_map.mpr ⟨_, hrest, hk.symm⟩) hnot
    · rw [List.find?_cons_of_neg (by simpa using hk)]
      obtain heq | hrest := List.mem_cons.mp h
      · exact absurd (by rw [← heq]) hk
      · exact ih hnodup hrest

theorem mem_of_ownProperty {ms : Members} {k : JsString} (h : ownProperty ms k ≠ .undefined) :
    (k, ownProperty ms k) ∈ ms := by
  unfold ownProperty at h ⊢
  split at h
  · next m hm =>
    have hkey := List.find?_some (p := fun m : JsString × Data => decide (m.1 = k)) hm
    rw [← of_decide_eq_true hkey]
    exact List.mem_of_find?_eq_some hm
  · exact absurd rfl h

/-- Members with the keys and the values of some fields are these, in some order. -/
theorem perm_of_fields {ms fields : Members} (hms : (ms.map Prod.fst).Nodup)
    (hfields : (fields.map Prod.fst).Nodup) (hkeys : ∀ p ∈ ms, p.1 ∈ fields.map Prod.fst)
    (hvalues : ∀ f ∈ fields, ownProperty ms f.1 = f.2 ∧ f.2 ≠ .undefined) : ms.Perm fields := by
  refine (List.perm_ext_iff_of_nodup (.of_map _ hms) (.of_map _ hfields)).mpr fun p => ?_
  constructor
  · intro hp
    obtain ⟨f, hf, hkey⟩ := List.mem_map.mp (hkeys p hp)
    have hvalue := ownProperty_of_mem hms (show (f.1, p.2) ∈ ms by rw [hkey]; exact hp)
    have heq : p = f := Prod.ext hkey.symm (hvalue.symm.trans (hvalues f hf).1)
    exact heq ▸ hf
  · intro hp
    obtain ⟨hvalue, hne⟩ := hvalues p hp
    have hmem := mem_of_ownProperty (hvalue ▸ hne)
    rwa [hvalue] at hmem

theorem ownProperty_of_perm {ms fields : Members} (h : ms.Perm fields)
    (hfields : (fields.map Prod.fst).Nodup) {k : JsString} {v : Data} (hmem : (k, v) ∈ fields) :
    ownProperty ms k = v :=
  ownProperty_of_mem ((h.map Prod.fst).nodup_iff.mpr hfields) (h.mem_iff.mpr hmem)

theorem SignalingMessage.fields_nodup (m : SignalingMessage) : (m.fields.map Prod.fst).Nodup := by
  cases m with
  | offer => exact show [js "kind", js "from", js "sdp"].Nodup by decide
  | answer => exact show [js "kind", js "from", js "to", js "sdp"].Nodup by decide
  | ice => exact show [js "kind", js "from", js "to", js "candidate"].Nodup by decide
  | bye => exact show [js "kind", js "from"].Nodup by decide

theorem SignalingMessage.from_mem (m : SignalingMessage) : (js "from", .str m.from_) ∈ m.fields := by
  cases m <;> simp [fields, from_]

theorem bundleFields_nodup (roomId : JsString) (xs : List Data) (rest : Members) :
    ((bundleFields roomId xs rest).map Prod.fst).Nodup :=
  show [js "v", js "roomId", js "messages"].Nodup by decide

/-! ## Messages -/

theorem kindField_of {ms : Members} {kind : JsString}
    (h : ownProperty ms (js "kind") = .str kind) (hkind : kind ∈ KNOWN_KINDS) (i : Nat) :
    kindField ms i = .ok kind := by
  have hfilter : (ownProperty ms (js "kind")).str?.filter (· ∈ KNOWN_KINDS) = some kind := by
    rw [h]
    exact Option.filter_eq_some_iff.mpr ⟨rfl, decide_eq_true hkind⟩
  unfold kindField
  simp only [hfilter]

theorem peerIdField_iff {ms : Members} {i : Nat} {k id : JsString} :
    peerIdField ms i k = .ok id ↔ ownProperty ms k = .str id ∧ isPeerId id = true := by
  unfold peerIdField
  constructor
  · intro h
    split at h
    · next hid =>
      obtain rfl := Except.ok.inj h
      obtain ⟨hstr, hpeer⟩ := Option.filter_eq_some_iff.mp hid
      exact ⟨str?_eq_some hstr, hpeer⟩
    · cases h
  · rintro ⟨hk, hid⟩
    have hfilter : (ownProperty ms k).str?.filter isPeerId = some id := by
      rw [hk]
      exact Option.filter_eq_some_iff.mpr ⟨rfl, hid⟩
    rw [hfilter]

theorem sdpField_iff {ms : Members} {i : Nat} {sdp : JsString} :
    sdpField ms i = .ok sdp ↔ ownProperty ms (js "sdp") = .str sdp ∧ sdp ≠ [] := by
  unfold sdpField
  constructor
  · intro h
    split at h
    · next hsdp =>
      obtain rfl := Except.ok.inj h
      obtain ⟨hstr, hne⟩ := Option.filter_eq_some_iff.mp hsdp
      exact ⟨str?_eq_some hstr, of_decide_eq_true hne⟩
    · cases h
  · rintro ⟨hsdp, hne⟩
    have hfilter : (ownProperty ms (js "sdp")).str?.filter (· ≠ []) = some sdp := by
      rw [hsdp]
      exact Option.filter_eq_some_iff.mpr ⟨rfl, decide_eq_true hne⟩
    rw [hfilter]

theorem candidateField_iff {ms : Members} {i : Nat} {candidate : Data} :
    candidateField ms i = .ok candidate ↔
      ownProperty ms (js "candidate") = candidate ∧ candidate.isObject = true := by
  unfold candidateField
  dsimp only
  split
  · next hobject =>
    constructor
    · intro h
      obtain rfl := Except.ok.inj h
      exact ⟨rfl, hobject⟩
    · rintro ⟨rfl, _⟩
      rfl
  · next hobject =>
    simp only [reduceCtorEq, false_iff]
    rintro ⟨rfl, h⟩
    exact hobject h

theorem noOtherFields_iff {allowed : List JsString} {i : Nat} {ms : Members} :
    noOtherFields allowed i ms = .ok () ↔ ∀ p ∈ ms, p.1 ∈ allowed := by
  induction ms with
  | nil => simp [noOtherFields]
  | cons m ms ih =>
    obtain ⟨k, v⟩ := m
    rw [List.forall_mem_cons, ← ih, noOtherFields]
    split <;> simp [*]

/-- A message whose fields are in order is accepted. -/
theorem validateMessage_of_perm {ms : Members} {m : SignalingMessage} (h : ms.Perm m.fields)
    (hm : m.Valid) (i : Nat) : validateMessage (.obj ms) i = .ok m := by
  have hget := fun {k v} => ownProperty_of_perm (k := k) (v := v) h m.fields_nodup
  have hkeys : ∀ p ∈ ms, p.1 ∈ m.fields.map Prod.fst := fun p hp =>
    List.mem_map.mpr ⟨p, h.mem_iff.mp hp, rfl⟩
  have hobject : ∀ label, bundleObject (.obj ms) label = .ok ms := fun _ => rfl
  unfold validateMessage
  cases m with
  | offer from_ sdp =>
    have hkind := kindField_of (hget (k := js "kind") (.head _)) (by decide) i
    have hfrom := (peerIdField_iff (i := i)).mpr
      ⟨hget (k := js "from") (v := .str from_) (by simp [SignalingMessage.fields]), hm.1⟩
    have hsdp := (sdpField_iff (i := i)).mpr
      ⟨hget (k := js "sdp") (v := .str sdp) (by simp [SignalingMessage.fields]), hm.2⟩
    have hfields : noOtherFields [js "kind", js "from", js "sdp"] i ms = .ok () :=
      noOtherFields_iff.mpr hkeys
    rw [hobject, ok_bind, hkind, ok_bind, hfrom, ok_bind, if_pos rfl, hsdp, ok_bind, hfields]
    rfl
  | answer from_ to_ sdp =>
    have hkind := kindField_of (hget (k := js "kind") (.head _)) (by decide) i
    have hfrom := (peerIdField_iff (i := i)).mpr
      ⟨hget (k := js "from") (v := .str from_) (by simp [SignalingMessage.fields]), hm.1⟩
    have hto := (peerIdField_iff (i := i)).mpr
      ⟨hget (k := js "to") (v := .str to_) (by simp [SignalingMessage.fields]), hm.2.1⟩
    have hsdp := (sdpField_iff (i := i)).mpr
      ⟨hget (k := js "sdp") (v := .str sdp) (by simp [SignalingMessage.fields]), hm.2.2⟩
    have hfields : noOtherFields [js "kind", js "from", js "to", js "sdp"] i ms = .ok () :=
      noOtherFields_iff.mpr hkeys
    rw [hobject, ok_bind, hkind, ok_bind, hfrom, ok_bind, if_neg (by decide), if_pos rfl, hsdp,
      ok_bind, hto, ok_bind, hfields]
    rfl
  | ice from_ to_ candidate =>
    have hkind := kindField_of (hget (k := js "kind") (.head _)) (by decide) i
    have hfrom := (peerIdField_iff (i := i)).mpr
      ⟨hget (k := js "from") (v := .str from_) (by simp [SignalingMessage.fields]), hm.1⟩
    have hto := (peerIdField_iff (i := i)).mpr
      ⟨hget (k := js "to") (v := .str to_) (by simp [SignalingMessage.fields]), hm.2.1⟩
    have hcandidate := (candidateField_iff (i := i)).mpr
      ⟨hget (k := js "candidate") (v := candidate) (by simp [SignalingMessage.fields]), hm.2.2⟩
    have hfields : noOtherFields [js "kind", js "from", js "to", js "candidate"] i ms = .ok () :=
      noOtherFields_iff.mpr hkeys
    rw [hobject, ok_bind, hkind, ok_bind, hfrom, ok_bind, if_neg (by decide), if_neg (by decide),
      if_pos rfl, hcandidate, ok_bind, hto, ok_bind, hfields]
    rfl
  | bye from_ =>
    have hkind := kindField_of (hget (k := js "kind") (.head _)) (by decide) i
    have hfrom := (peerIdField_iff (i := i)).mpr
      ⟨hget (k := js "from") (v := .str from_) (by simp [SignalingMessage.fields]), hm⟩
    have hfields : noOtherFields [js "kind", js "from"] i ms = .ok () :=
      noOtherFields_iff.mpr hkeys
    rw [hobject, ok_bind, hkind, ok_bind, hfrom, ok_bind, if_neg (by decide), if_neg (by decide),
      if_neg (by decide), hfields]
    rfl

/-- What is accepted has the fields of the message, each as asked, and no other. -/
theorem validateMessage_fields {x : Data} {i : Nat} {m : SignalingMessage}
    (h : validateMessage x i = .ok m) : m.Valid ∧ ∃ ms, x = .obj ms ∧
      (∀ p ∈ ms, p.1 ∈ m.fields.map Prod.fst) ∧
      ∀ f ∈ m.fields, ownProperty ms f.1 = f.2 ∧ f.2 ≠ .undefined := by
  unfold validateMessage at h
  obtain ⟨ms, hobject, h⟩ := bind_ok h
  obtain ⟨kind, hkind, h⟩ := bind_ok h
  obtain ⟨from_, hfrom, h⟩ := bind_ok h
  obtain ⟨hkind, hknown⟩ := kindField_ok hkind
  have hx := bundleObject_ok hobject hkind
  obtain ⟨hfrom, hpeer⟩ := peerIdField_iff.mp hfrom
  split at h
  · next hoffer =>
    obtain ⟨sdp, hsdp, h⟩ := bind_ok h
    obtain ⟨_, hfields, h⟩ := bind_ok h
    obtain rfl := Except.ok.inj h
    obtain ⟨hsdp, hne⟩ := sdpField_iff.mp hsdp
    refine ⟨⟨hpeer, hne⟩, ms, hx, noOtherFields_iff.mp hfields, ?_⟩
    simp [SignalingMessage.fields, hkind, hoffer, hfrom, hsdp]
  split at h
  · next hanswer =>
    obtain ⟨sdp, hsdp, h⟩ := bind_ok h
    obtain ⟨to_, hto, h⟩ := bind_ok h
    obtain ⟨_, hfields, h⟩ := bind_ok h
    obtain rfl := Except.ok.inj h
    obtain ⟨hsdp, hne⟩ := sdpField_iff.mp hsdp
    obtain ⟨hto, hpeer'⟩ := peerIdField_iff.mp hto
    refine ⟨⟨hpeer, hpeer', hne⟩, ms, hx, noOtherFields_iff.mp hfields, ?_⟩
    simp [SignalingMessage.fields, hkind, hanswer, hfrom, hto, hsdp]
  split at h
  · next hice =>
    obtain ⟨candidate, hcandidate, h⟩ := bind_ok h
    obtain ⟨to_, hto, h⟩ := bind_ok h
    obtain ⟨_, hfields, h⟩ := bind_ok h
    obtain rfl := Except.ok.inj h
    obtain ⟨hcandidate, hisObject⟩ := candidateField_iff.mp hcandidate
    obtain ⟨hto, hpeer'⟩ := peerIdField_iff.mp hto
    have hdefined : candidate ≠ .undefined := by
      rintro rfl
      cases hisObject
    refine ⟨⟨hpeer, hpeer', hisObject⟩, ms, hx, noOtherFields_iff.mp hfields, ?_⟩
    simp [SignalingMessage.fields, hkind, hice, hfrom, hto, hcandidate, hdefined]
  · next hoffer hanswer hice =>
    obtain ⟨_, hfields, h⟩ := bind_ok h
    obtain rfl := Except.ok.inj h
    have hbye : kind = js "bye" := by
      simpa [KNOWN_KINDS, hoffer, hanswer, hice] using hknown
    refine ⟨hpeer, ms, hx, noOtherFields_iff.mp hfields, ?_⟩
    simp [SignalingMessage.fields, hkind, hbye, hfrom]

theorem validateMessage_spells {x : Data} {i : Nat} {m : SignalingMessage}
    (h : validateMessage x i = .ok m) (hkeys : DistinctKeys x) : SpellsMessage x m := by
  obtain ⟨_, ms, rfl, hfields, hvalues⟩ := validateMessage_fields h
  exact ⟨ms, rfl, perm_of_fields hkeys m.fields_nodup hfields hvalues⟩

/-! ## Bundles -/

theorem validateMessages_iff {xs : List Data} : ∀ {i : Nat} {messages : List SignalingMessage},
    validateMessages i xs = .ok messages ↔
      List.Forall₂ (fun x m => validateMessage x 0 = .ok m) xs messages := by
  induction xs with
  | nil =>
    intro i messages
    rw [List.forall₂_nil_left_iff]
    constructor
    · intro h
      exact (Except.ok.inj h).symm
    · rintro rfl
      rfl
  | cons x xs ih =>
    intro i messages
    rw [validateMessages]
    constructor
    · intro h
      obtain ⟨m, hm, h⟩ := bind_ok h
      obtain ⟨rest, hrest, h⟩ := bind_ok h
      obtain rfl := Except.ok.inj h
      exact .cons (validateMessage_any hm 0) (ih.mp hrest)
    · intro h
      cases h with
      | cons hm hrest =>
        rw [validateMessage_any hm i, ok_bind, ih.mpr hrest]
        rfl

theorem roomIdField_iff {ms : Members} {roomId : JsString} :
    roomIdField ms = .ok roomId ↔
      ownProperty ms (js "roomId") = .str roomId ∧ isRoomId roomId = true := by
  unfold roomIdField
  constructor
  · intro h
    split at h
    · next hid =>
      obtain rfl := Except.ok.inj h
      obtain ⟨hstr, hroom⟩ := Option.filter_eq_some_iff.mp hid
      exact ⟨str?_eq_some hstr, hroom⟩
    · cases h
  · rintro ⟨hid, hroom⟩
    have hfilter : (ownProperty ms (js "roomId")).str?.filter isRoomId = some roomId := by
      rw [hid]
      exact Option.filter_eq_some_iff.mpr ⟨rfl, hroom⟩
    rw [hfilter]

theorem versionField_iff {ms : Members} :
    versionField ms = .ok () ↔ ownProperty ms (js "v") = .num (.ofNat 1) := by
  rw [← Data.isNumber_iff]
  unfold versionField
  cases hv : ownProperty ms (js "v") with
  | num x =>
    show (if x.eq (.ofNat 1) then _ else _) = _ ↔ x.eq (.ofNat 1) = true
    by_cases hx : x.eq (.ofNat 1) = true
    · rw [if_pos hx]
      exact iff_of_true rfl hx
    · rw [if_neg hx]
      exact iff_of_false (by simp) hx
  | _ => simp [Data.isNumber]

theorem messagesField_iff {ms : Members} {xs : List Data} :
    messagesField ms = .ok xs ↔
      xs ≠ [] ∧ ∃ rest, ownProperty ms (js "messages") = .arr xs rest := by
  unfold messagesField
  constructor
  · intro h
    split at h
    · next x xs rest hxs =>
      obtain rfl := Except.ok.inj h
      exact ⟨List.cons_ne_nil _ _, rest, hxs⟩
    · cases h
  · rintro ⟨hne, rest, hxs⟩
    rw [hxs]
    cases xs with
    | nil => exact absurd rfl hne
    | cons x xs => rfl

theorem noOtherKeys_iff {ks : List JsString} :
    noOtherKeys ks = .ok () ↔ ∀ k ∈ ks, k ∈ ALLOWED_BUNDLE_KEYS := by
  induction ks with
  | nil => simp [noOtherKeys]
  | cons k ks ih =>
    rw [List.forall_mem_cons, ← ih, noOtherKeys]
    split <;> simp [*]

theorem validateMessages_of_spells {xs : List Data} {messages : List SignalingMessage}
    (h : List.Forall₂ SpellsMessage xs messages) (hall : ∀ m ∈ messages, m.Valid) (i : Nat) :
    validateMessages i xs = .ok messages := by
  refine validateMessages_iff.mpr ?_
  induction h with
  | nil => exact .nil
  | cons hm _ ih =>
    obtain ⟨hone, hrest⟩ := List.forall_mem_cons.mp hall
    obtain ⟨ms, rfl, hperm⟩ := hm
    exact .cons (validateMessage_of_perm hperm hone 0) (ih hrest)

/-- A bundle whose fields are in order is accepted. -/
theorem validate_of_spells {value : Data} {b : SignalingBundleV1} (h : Spells value b)
    (hb : b.Valid) : validateSignalingBundle value = .ok b := by
  obtain ⟨ms, xs, rest, rfl, hperm, hxs⟩ := h
  have hget := fun {k v} =>
    ownProperty_of_perm (k := k) (v := v) hperm (bundleFields_nodup b.roomId xs rest)
  have hkeys : noOtherKeys (ms.map Prod.fst) = .ok () := by
    refine noOtherKeys_iff.mpr fun k hk => ?_
    exact (hperm.map Prod.fst).mem_iff.mp hk
  have hversion := versionField_iff.mpr (hget (k := js "v") (.head _))
  have hroomId := roomIdField_iff.mpr
    ⟨hget (k := js "roomId") (v := .str b.roomId) (by simp [bundleFields]), hb.roomId⟩
  have hne : xs ≠ [] := by
    rintro rfl
    exact hb.messages (List.forall₂_nil_left_iff.mp hxs)
  have hmessages := messagesField_iff.mpr
    ⟨hne, rest, hget (k := js "messages") (v := .arr xs rest) (by simp [bundleFields])⟩
  have hobject : bundleObject (.obj ms) (js "bundle") = .ok ms := rfl
  unfold validateSignalingBundle
  rw [hobject, ok_bind, objectKeys, hkeys, ok_bind, hversion, ok_bind, hroomId, ok_bind, hmessages,
    ok_bind, validateMessages_of_spells hxs hb.each]
  rfl

/-- A value with a property is an object that is no array. -/
theorem bundleObject_obj {value : Data} {label k : JsString} {ms : Members}
    (h : bundleObject value label = .ok ms) (hk : ownProperty ms k ≠ .undefined) :
    value = .obj ms := by
  cases value with
  | obj ms' => rw [Except.ok.inj h]
  | bytes b => obtain rfl := Except.ok.inj h; exact absurd rfl hk
  | other text json => obtain rfl := Except.ok.inj h; exact absurd rfl hk
  | backRef text => obtain rfl := Except.ok.inj h; exact absurd rfl hk
  | _ => cases h

/-- What is accepted has the fields of the bundle, each as asked, and no other. -/
theorem validateSignalingBundle_fields {value : Data} {b : SignalingBundleV1}
    (h : validateSignalingBundle value = .ok b) : b.Valid ∧ ∃ ms xs rest, value = .obj ms ∧
      (∀ p ∈ ms, p.1 ∈ (bundleFields b.roomId xs rest).map Prod.fst) ∧
      (∀ f ∈ bundleFields b.roomId xs rest, ownProperty ms f.1 = f.2 ∧ f.2 ≠ .undefined) ∧
      List.Forall₂ (fun x m => validateMessage x 0 = .ok m) xs b.messages := by
  unfold validateSignalingBundle at h
  obtain ⟨ms, hobject, h⟩ := bind_ok h
  obtain ⟨_, hkeys, h⟩ := bind_ok h
  obtain ⟨_, hversion, h⟩ := bind_ok h
  obtain ⟨roomId, hroomId, h⟩ := bind_ok h
  obtain ⟨xs, hxs, h⟩ := bind_ok h
  obtain ⟨messages, hmessages, h⟩ := bind_ok h
  obtain rfl := Except.ok.inj h
  have hversion := versionField_iff.mp hversion
  obtain ⟨hroomId, hroom⟩ := roomIdField_iff.mp hroomId
  obtain ⟨hne, rest, hxs⟩ := messagesField_iff.mp hxs
  have hmessages := validateMessages_iff.mp hmessages
  have hvalue : value = .obj ms := by
    refine bundleObject_obj (k := js "v") hobject ?_
    rw [hversion]
    simp
  refine ⟨⟨hroom, ?_, ?_⟩, ms, xs, rest, hvalue, ?_, ?_, hmessages⟩
  · rintro rfl
    exact hne (List.forall₂_nil_right_iff.mp hmessages)
  · intro m hm
    obtain ⟨i, hi, rfl⟩ := List.getElem_of_mem hm
    have hone := hmessages.get (hmessages.length_eq ▸ hi) hi
    exact (validateMessage_fields hone).1
  · rw [hvalue] at hkeys
    intro p hp
    exact noOtherKeys_iff.mp hkeys _ (List.mem_map_of_mem hp)
  · simp [bundleFields, hversion, hroomId, hxs]

theorem messages_spelled {xs : List Data} {messages : List SignalingMessage}
    (h : List.Forall₂ (fun x m => validateMessage x 0 = .ok m) xs messages)
    (hxs : ∀ x ∈ xs, DistinctKeys x) : List.Forall₂ SpellsMessage xs messages := by
  induction h with
  | nil => exact .nil
  | cons hm _ ih =>
    obtain ⟨hone, hrest⟩ := List.forall_mem_cons.mp hxs
    exact .cons (validateMessage_spells hm hone) (ih hrest)

theorem validateSignalingBundle_spells {value : Data} {b : SignalingBundleV1}
    (h : validateSignalingBundle value = .ok b) (hvalue : Tidy value) : Spells value b := by
  obtain ⟨_, ms, xs, rest, rfl, hkeys, hvalues, hmessages⟩ := validateSignalingBundle_fields h
  obtain ⟨hnodup, heach⟩ := hvalue
  have hxs : (Data.obj ms).get (js "messages") = .arr xs rest :=
    (hvalues (js "messages", .arr xs rest) (by simp [bundleFields])).1
  refine ⟨ms, xs, rest, rfl, ?_, ?_⟩
  · exact perm_of_fields hnodup (bundleFields_nodup _ _ _) hkeys hvalues
  · exact messages_spelled hmessages (heach xs rest hxs)

/-- A valid bundle is accepted unchanged. -/
theorem SignalingBundleV1.Valid.accepted {b : SignalingBundleV1} (hb : b.Valid) :
    validateSignalingBundle b.toData = .ok b := by
  refine validate_of_spells ⟨_, _, [], rfl, .refl _, ?_⟩ hb
  rw [List.forall₂_map_left_iff]
  exact List.forall₂_same.mpr fun m _ => ⟨_, rfl, .refl _⟩

/-! ## The codec -/

/-- Every candidate is a JSON value. -/
def SignalingMessage.InJson : SignalingMessage → Prop
  | .ice _ _ candidate => ∃ c : Json, c.Proper ∧ candidate = .ofJson c
  | _ => True

/-- `JSON.stringify` writes the value as this JSON, and `JSON.parse` reads it back. -/
def Written (value : Data) (v : Json) : Prop := value.toJson = some (some v) ∧ v.Exact

def WrittenMember (m : JsString × Data) (n : JsString × Json) : Prop :=
  m.1 = n.1 ∧ Written m.2 n.2

theorem written_str (s : JsString) : Written (.str s) (.str s) := ⟨rfl, trivial⟩

theorem toMembers_written {ms : Members} {ns : List (JsString × Json)}
    (h : List.Forall₂ WrittenMember ms ns) :
    Data.toMembers ms = some ns ∧ ExactMembers ns ∧ ms.map Prod.fst = ns.map Prod.fst := by
  induction h with
  | nil => exact ⟨rfl, trivial, rfl⟩
  | @cons m n ms ns hm _ ih =>
    obtain ⟨k, value⟩ := m
    obtain ⟨k', v⟩ := n
    obtain ⟨rfl, hjson, hexact⟩ := hm
    obtain ⟨hmembers, hrest, hkeys⟩ := ih
    refine ⟨?_, ⟨hexact, hrest⟩, by rw [List.map_cons, List.map_cons, hkeys]⟩
    rw [Data.toMembers, hjson, hmembers]
    rfl

theorem toElems_written {xs : List Data} {vs : List Json} (h : List.Forall₂ Written xs vs) :
    Data.toElems xs = some vs ∧ ExactElems vs := by
  induction h with
  | nil => exact ⟨rfl, trivial⟩
  | cons hx _ ih =>
    obtain ⟨hjson, hexact⟩ := hx
    obtain ⟨helems, hrest⟩ := ih
    refine ⟨?_, hexact, hrest⟩
    rw [Data.toElems, hjson, helems]
    rfl

/-- An object with some fields, in some order, is written with these in that order. -/
theorem written_of_perm {ms fields : Members} {ns : List (JsString × Json)} (h : ms.Perm fields)
    (hfields : (fields.map Prod.fst).Nodup) (hns : List.Forall₂ WrittenMember fields ns) :
    ∃ ns', Written (.obj ms) (.obj ns') ∧ (Data.ofMembers ns').Perm (Data.ofMembers ns) := by
  obtain ⟨ns', hwritten, hperm⟩ := List.perm_comp_forall₂ h hns
  obtain ⟨hmembers, hexact, hkeys⟩ := toMembers_written hwritten
  have hnodup : (ns'.map Prod.fst).Nodup := by
    rw [← hkeys]
    exact (h.map Prod.fst).nodup_iff.mpr hfields
  refine ⟨ns', ⟨?_, hnodup, hexact⟩, ?_⟩
  · rw [Data.toJson, hmembers]
    rfl
  · rw [ofMembers_map, ofMembers_map]
    exact hperm.map _

theorem message_written {x : Data} {m : SignalingMessage} (h : SpellsMessage x m)
    (hm : m.InJson) : ∃ v, Written x v ∧ SpellsMessage (.ofJson v) m := by
  obtain ⟨ms, rfl, hperm⟩ := h
  have hns : ∃ ns, List.Forall₂ WrittenMember m.fields ns ∧ Data.ofMembers ns = m.fields := by
    cases m with
    | offer from_ sdp =>
      exact ⟨[(js "kind", .str (js "offer")), (js "from", .str from_), (js "sdp", .str sdp)],
        .cons ⟨rfl, written_str _⟩ (.cons ⟨rfl, written_str _⟩ (.cons ⟨rfl, written_str _⟩ .nil)),
        rfl⟩
    | answer from_ to_ sdp =>
      exact ⟨[(js "kind", .str (js "answer")), (js "from", .str from_), (js "to", .str to_),
          (js "sdp", .str sdp)],
        .cons ⟨rfl, written_str _⟩ (.cons ⟨rfl, written_str _⟩ (.cons ⟨rfl, written_str _⟩
          (.cons ⟨rfl, written_str _⟩ .nil))), rfl⟩
    | ice from_ to_ candidate =>
      obtain ⟨c, hc, rfl⟩ := hm
      exact ⟨[(js "kind", .str (js "ice")), (js "from", .str from_), (js "to", .str to_),
          (js "candidate", c)],
        .cons ⟨rfl, written_str _⟩ (.cons ⟨rfl, written_str _⟩ (.cons ⟨rfl, written_str _⟩
          (.cons ⟨rfl, toJson_ofJson hc.exact, hc.exact⟩ .nil))), rfl⟩
    | bye from_ =>
      exact ⟨[(js "kind", .str (js "bye")), (js "from", .str from_)],
        .cons ⟨rfl, written_str _⟩ (.cons ⟨rfl, written_str _⟩ .nil), rfl⟩
  obtain ⟨ns, hwritten, hread⟩ := hns
  obtain ⟨ns', hobject, hread'⟩ := written_of_perm hperm m.fields_nodup hwritten
  exact ⟨_, hobject, _, rfl, hread ▸ hread'⟩

theorem messages_written {xs : List Data} {messages : List SignalingMessage}
    (h : List.Forall₂ SpellsMessage xs messages) (hjson : ∀ m ∈ messages, m.InJson) :
    ∃ vs, List.Forall₂ Written xs vs ∧
      List.Forall₂ SpellsMessage (Data.ofJsons vs) messages := by
  induction h with
  | nil => exact ⟨[], .nil, .nil⟩
  | cons hm _ ih =>
    obtain ⟨hone, hrest⟩ := List.forall_mem_cons.mp hjson
    obtain ⟨v, hv, hspells⟩ := message_written hm hone
    obtain ⟨vs, hvs, hall⟩ := ih hrest
    exact ⟨v :: vs, .cons hv hvs, .cons hspells hall⟩

/-- What spells a bundle in JSON values is written as what spells it. -/
theorem bundle_written {value : Data} {b : SignalingBundleV1} (h : Spells value b)
    (hjson : ∀ m ∈ b.messages, m.InJson) : ∃ v, Written value v ∧ Spells (.ofJson v) b := by
  obtain ⟨ms, xs, rest, rfl, hperm, hxs⟩ := h
  obtain ⟨vs, hvs, hspells⟩ := messages_written hxs hjson
  obtain ⟨helems, hexact⟩ := toElems_written hvs
  have harray : Written (.arr xs rest) (.arr vs) := by
    refine ⟨?_, hexact⟩
    rw [Data.toJson, helems]
    rfl
  have hversion : Written (.num (.ofNat 1)) (.num (.ofNat 1)) :=
    ⟨rfl, readsBack_ofNat (n := 1) (by decide)⟩
  obtain ⟨ns, hobject, hread⟩ := written_of_perm hperm (bundleFields_nodup _ _ _)
    (.cons (b := (js "v", _)) ⟨rfl, hversion⟩
      (.cons (b := (js "roomId", _)) ⟨rfl, written_str _⟩
        (.cons (b := (js "messages", _)) ⟨rfl, harray⟩ .nil)))
  exact ⟨_, hobject, _, _, [], rfl, hread, hspells⟩

variable {P : Platform}

theorem decodeSignalingBundle_valid {encoded : JsString} {b : SignalingBundleV1}
    (h : decodeSignalingBundle P encoded = .ok b) : b.Valid := by
  unfold decodeSignalingBundle at h
  split at h
  · cases h
  split at h
  · cases h
  split at h
  · cases h
  · exact (validateSignalingBundle_fields h).1

/-- What is accepted has the fields of its grammar and is accepted unchanged, and what is encoded
of it is decoded to it. -/
theorem bundle_roundTrip (hP : P.Lossless) (value : Data) (b : SignalingBundleV1)
    (hvalue : Tidy value) (h : validateSignalingBundle value = .ok b) :
    Spells value b ∧ validateSignalingBundle b.toData = .ok b ∧
      ((∀ m ∈ b.messages, m.InJson) → ∃ encoded, encodeSignalingBundle P value = .ok encoded ∧
        decodeSignalingBundle P encoded = .ok b) := by
  have hspells := validateSignalingBundle_spells h hvalue
  have hb := (validateSignalingBundle_fields h).1
  refine ⟨hspells, hb.accepted, fun hjson => ?_⟩
  obtain ⟨v, ⟨hwritten, hexact⟩, hread⟩ := bundle_written hspells hjson
  exact decode_written P hP hwritten hexact h (validate_of_spells hread hb)

/-- An accepted bundle has the fields of its grammar, its messages in their order, and is accepted
unchanged; with JSON candidates it is decoded as it was encoded; and what is decoded is accepted
unchanged. -/
theorem bundle_codec (hP : P.Lossless) :
    (∀ value b, Tidy value → validateSignalingBundle value = .ok b →
      Spells value b ∧ validateSignalingBundle b.toData = .ok b ∧
        ((∀ m ∈ b.messages, m.InJson) → ∃ encoded, encodeSignalingBundle P value = .ok encoded ∧
          decodeSignalingBundle P encoded = .ok b)) ∧
    ∀ encoded b, decodeSignalingBundle P encoded = .ok b →
      validateSignalingBundle b.toData = .ok b :=
  ⟨bundle_roundTrip hP, fun _ _ h => (decodeSignalingBundle_valid h).accepted⟩

/-- A candidate, as a browser writes it. -/
def hostCandidate : Json :=
  .obj [(js "candidate", .str (js "candidate:1 1 udp 2113937151 10.0.0.1 50000 typ host")),
    (js "sdpMid", .str (js "0")), (js "sdpMLineIndex", .num (.ofNat 0))]

/-- An offer with a candidate, the keys not in the documented order. -/
def offerBundle : Data :=
  .obj [(js "messages", .arr
      [.obj [(js "from", .str (js "01jrmcv3p4abcdefghjkmnpqrs")), (js "kind", .str (js "offer")),
        (js "sdp", .str (js "v=0\r\n"))],
       .obj [(js "kind", .str (js "ice")), (js "from", .str (js "01jrmcv3p4abcdefghjkmnpqrs")),
        (js "candidate", .ofJson hostCandidate), (js "to", .str (js "01jrmcv3p4n8e7y9w0q5t2k1h6"))]]
      []),
    (js "roomId", .str (js "01jrmcv3p4n8e7y9w0q5t2k1h6")), (js "v", .num (.ofNat 1))]

/-- It, as the validator returns it. -/
def offered : SignalingBundleV1 where
  roomId := js "01jrmcv3p4n8e7y9w0q5t2k1h6"
  messages := [.offer (js "01jrmcv3p4abcdefghjkmnpqrs") (js "v=0\r\n"),
    .ice (js "01jrmcv3p4abcdefghjkmnpqrs") (js "01jrmcv3p4n8e7y9w0q5t2k1h6")
      (.ofJson hostCandidate)]

theorem offerBundle_tidy : Tidy offerBundle := by
  refine ⟨show [js "messages", js "roomId", js "v"].Nodup by decide, fun xs rest h x hx => ?_⟩
  obtain ⟨rfl, _⟩ := Data.arr.inj h
  obtain rfl | rfl : x = _ ∨ x = _ := by simpa using hx
  · exact show [js "from", js "kind", js "sdp"].Nodup by decide
  · exact show [js "kind", js "from", js "candidate", js "to"].Nodup by decide

theorem hostCandidate_proper : hostCandidate.Proper := by
  have hindex : IsDouble (.ofNat 0) := ⟨(0 : ℕ), rfl, toDouble_nat (n := 0) (by decide)⟩
  exact ⟨show [js "candidate", js "sdpMid", js "sdpMLineIndex"].Nodup by decide, trivial, trivial,
    hindex, trivial⟩

theorem offered_inJson : ∀ m ∈ offered.messages, m.InJson := by
  refine List.forall_mem_cons.mpr ⟨trivial, List.forall_mem_cons.mpr ⟨?_, by simp⟩⟩
  exact ⟨hostCandidate, hostCandidate_proper, rfl⟩

theorem bundle_codec_offer : ∃ encoded,
    encodeSignalingBundle storedPlatform offerBundle = .ok encoded ∧
      decodeSignalingBundle storedPlatform encoded = .ok offered := by
  have hcodec := (bundle_codec storedPlatform_lossless).1 offerBundle offered offerBundle_tidy rfl
  exact hcodec.2.2 offered_inJson

end Senn.Protocol

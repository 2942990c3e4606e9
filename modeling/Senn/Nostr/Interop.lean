import Senn.Nostr.Encrypted
import Senn.Protocol.Ids
import Senn.Js.JsonRoundTrip

/-! # Senders and receivers of both versions

What `encodeContent` of one adapter makes and `decodeContent` of another reads, for
each choice of encryption and room. The events of every run carry what
`encodeContent` made, and every received event comes to what `decodeContent` gives. -/

namespace Senn.Nostr
open Senn.Js Senn.Protocol Senn.Lib

/-- NIP-44 is a correct and authenticated cipher under keys of 32 bytes, its payloads
are no JSON and JSON text is no payload. HKDF gives 32 bytes, other ones for each room. -/
structure Nip44 (L : Libraries) : Prop where
  keyLength (ikm salt info : Bytes) : (L.hkdf ikm salt info).length = 32
  distinct (r r' : JsString) : isRoomId r = true → isRoomId r' = true →
    deriveRoomKey L r = deriveRoomKey L r' → r = r'
  accepts (plaintext : JsString) (key nonce : Bytes) : key.length = 32 → nonce.length = 32 →
    1 ≤ (utf8Encode plaintext).length → (utf8Encode plaintext).length ≤ 65535 →
    (L.encrypt plaintext key nonce).isSome
  correct (plaintext payload : JsString) (key nonce : Bytes) : key.length = 32 →
    L.encrypt plaintext key nonce = some payload →
    L.decrypt payload key = some (utf8Decode (utf8Encode plaintext))
  authentic (plaintext payload : JsString) (key nonce other : Bytes) : key.length = 32 →
    other.length = 32 → L.encrypt plaintext key nonce = some payload → other ≠ key →
    L.decrypt payload other = none
  payloadNotJson (plaintext payload : JsString) (key nonce : Bytes) :
    L.encrypt plaintext key nonce = some payload → Json.parse payload = none
  jsonNotPayload (text : JsString) (key : Bytes) : (Json.parse text).isSome →
    L.decrypt text key = none

variable {L : Libraries}

theorem Nip44.roomKey (h : Nip44 L) (roomId : JsString) :
    (deriveRoomKey L roomId).length = 32 := h.keyLength ..

/-! ## The functions -/

@[simp] theorem parsePlain_str (content : JsString) :
    parsePlain (some (.str content)) = Json.parse content := by
  simp [parsePlain, Data.ofJson, Data.text]

theorem encryptV2_eq (h : Nip44 L) (roomId : JsString) (message : Json) (nonce : Bytes) :
    encryptV2 L message (deriveRoomKey L roomId) nonce =
      L.encrypt (V2_SENTINEL ++ message.stringify) (deriveRoomKey L roomId) nonce := by
  rw [encryptV2, if_pos (h.roomKey roomId)]

/-- The UTF-8 decoder gives the sentinel and the JSON text back. -/
theorem decode_plaintext (message : Json) :
    utf8Decode (utf8Encode (V2_SENTINEL ++ message.stringify)) =
      V2_SENTINEL ++ message.stringify := by
  refine utf8Decode_utf8Encode ?_ ?_
  · exact wellFormed_append (by decide) (wellFormed_stringify message)
  · intro h
    cases h

/-- A payload the key does not open is read as plain JSON. -/
theorem decodeContent_closed (h : Nip44 L) {roomId payload : JsString}
    (hclosed : L.decrypt payload (deriveRoomKey L roomId) = none) :
    decodeContent L true roomId (some (.str payload)) = some (Json.parse payload) := by
  simp [decodeContent, tryDecryptV2, h.roomKey roomId, string?, hclosed]

theorem decodeContent_plain (roomId content : JsString) :
    decodeContent L false roomId (some (.str content)) = some (Json.parse content) := by
  simp [decodeContent]

theorem decodeContent_stringify (h : Nip44 L) {message : Json} (hm : message.Exact)
    (v2 : Bool) (roomId : JsString) :
    decodeContent L v2 roomId (some (.str message.stringify)) = some (some message) := by
  have hparse := parse_stringify hm
  cases v2 with
  | false => rw [decodeContent_plain, hparse]
  | true =>
    have hclosed := h.jsonNotPayload message.stringify (deriveRoomKey L roomId) (by simp [hparse])
    rw [decodeContent_closed h hclosed, hparse]

theorem decodeContent_payload (h : Nip44 L) {message : Json} (hm : message.Exact)
    {roomId payload : JsString} {nonce : Bytes}
    (hp : encryptV2 L message (deriveRoomKey L roomId) nonce = some payload) :
    decodeContent L true roomId (some (.str payload)) = some (some message) := by
  rw [encryptV2_eq h] at hp
  have hopen := h.correct _ _ _ _ (h.roomKey roomId) hp
  rw [decode_plaintext] at hopen
  have hsentinel : V2_SENTINEL.isPrefixOf (V2_SENTINEL ++ message.stringify) = true := by simp
  simp [decodeContent, tryDecryptV2, h.roomKey roomId, string?, hopen, hsentinel,
    parse_stringify hm]

/-- `tryDecryptV2` of a payload that opens to something that is no envelope. -/
theorem tryDecryptV2_foreign (h : Nip44 L) {roomId payload plaintext : JsString}
    (hopen : L.decrypt payload (deriveRoomKey L roomId) = some plaintext)
    (hforeign : ∀ text, plaintext = V2_SENTINEL ++ text → Json.parse text = none) :
    tryDecryptV2 L (some (.str payload)) (deriveRoomKey L roomId) = some .v2NoSentinel := by
  unfold tryDecryptV2
  simp only [if_pos (h.roomKey roomId), string?, Option.bind_some, hopen]
  split
  · next hprefix =>
    obtain ⟨text, rfl⟩ := List.isPrefixOf_iff_prefix.mp hprefix
    rw [List.drop_left, hforeign text rfl]
  · rfl

/-! ## The runs -/

/-- The publish encodes as `encodeContent` does, and so did one that has made its event. -/
structure EncodesAs (L : Libraries) (v2 : Bool) (q : Publish) : Prop where
  content : ∀ content, q.stage = .encoded content →
    ∃ nonce, encodeContent L v2 q.roomId q.message nonce = some content
  event : ∀ e, q.event = some e →
    ∃ nonce, encodeContent L v2 q.roomId q.message nonce = some e.content
  waits : q.stage = .kat ∨ q.stage = .key → v2 = true

/-- What a stage holds is the result. -/
def DecodeStage.Holds (result : Option Json) : DecodeStage → Prop
  | .decoded message => message = result
  | .dispatching message _ => some message = result
  | _ => True

/-- The received event comes to what `decodeContent` gives. -/
structure DecodesAs (L : Libraries) (v2 : Bool) (c : Decode) : Prop where
  holds : ∀ result, decodeContent L v2 c.roomId c.content = some result → c.stage.Holds result
  waits : c.stage = .kat ∨ c.stage = .key → v2 = true

namespace NostrSignaling

theorem encodesAs_encoding (L : Libraries) (v2 : Bool) : Encoding L v2 (EncodesAs L v2) where
  onward q q' h hroom hmessage hevent hstage := by
    rcases hstage with hstage | hsent
    · exact ⟨by rw [hroom, hmessage, hstage]; exact h.content,
        by rw [hroom, hmessage, hevent]; exact h.event, by rw [hstage]; exact h.waits⟩
    · refine ⟨fun content hc => ?_, by rw [hroom, hmessage, hevent]; exact h.event, ?_⟩
      · rw [hc] at hsent
        exact hsent.elim
      · rintro (hw | hw) <;> rw [hw] at hsent <;> exact hsent.elim
  ended _ _ _ := ⟨by simp [Publish.call], by simp [Publish.call], by simp [Publish.call]⟩
  plain roomId message hv2 := by
    refine ⟨fun content hc => ⟨[], ?_⟩, by simp [Publish.call], by simp [Publish.call]⟩
    obtain rfl := Stage.encoded.inj hc
    simp [encodeContent, hv2, Publish.call]
  waiting _ _ hv2 := ⟨by simp [Publish.call], by simp [Publish.call], fun _ => hv2⟩
  key q h hkat := ⟨by simp, h.event, fun _ => h.waits (.inl hkat)⟩
  encrypted q nonce content h hkey hcontent := by
    refine ⟨fun c hc => ⟨nonce, ?_⟩, h.event, by simp⟩
    obtain rfl := Stage.encoded.inj hc
    simp [encodeContent, h.waits (.inr hkey), hcontent]
  event q content id createdAt h hstage := by
    refine ⟨h.content, fun e he => ?_, h.waits⟩
    obtain rfl := Option.some.inj he
    exact h.content content hstage

variable {L : Libraries} {s : NostrSignaling}

/-- The events of every run carry what `encodeContent` made of their message. -/
theorem run_encodes (L : Libraries) (v2 : Bool) (relays : List JsString) (evs : List Event) :
    ∀ q ∈ (Machine.after (step L) (.new relays v2) evs).publishes, EncodesAs L v2 q := by
  have hstep : ∀ s ev, (s.v2Enabled = v2 ∧ ∀ q ∈ s.publishes, EncodesAs L v2 q) →
      ((step L s ev).1.v2Enabled = v2 ∧ ∀ q ∈ (step L s ev).1.publishes, EncodesAs L v2 q) := by
    rintro s ev ⟨rfl, h⟩
    exact ⟨(s.step_keeps L ev).v2Enabled, (encodesAs_encoding L s.v2Enabled).step h ev⟩
  have hnew : (new relays v2).v2Enabled = v2 ∧ ∀ q ∈ (new relays v2).publishes,
      EncodesAs L v2 q := ⟨rfl, by simp [new]⟩
  exact (Machine.after_inv hstep hnew evs).2

/-- Every received event comes to what `decodeContent` gives, unless the known-answer
test fails. -/
structure Decoding (L : Libraries) (s : NostrSignaling) : Prop where
  error : s.v2KatError = true → s.kat = some false
  decodes : s.kat ≠ some false → ∀ c ∈ s.decodes, DecodesAs L s.v2Enabled c

theorem decoding_handleEvent (h : ∀ c ∈ s.decodes, DecodesAs L s.v2Enabled c)
    (herr : s.v2KatError = false) (subId : JsString) (event : Json) :
    ∀ c ∈ (s.handleEvent subId event).decodes, DecodesAs L s.v2Enabled c := by
  unfold handleEvent
  split
  · split
    · exact h
    · split
      · exact h
      · dsimp only
        split
        · exact h
        · intro c hc
          rcases List.mem_append.mp hc with hc | hc
          · exact h c hc
          · obtain rfl := List.mem_singleton.mp hc
            cases hv2 : s.v2Enabled with
            | false =>
              refine ⟨fun result hr => ?_, by simp [decodeStage, hv2]⟩
              simp only [decodeContent, Bool.false_eq_true, if_false, Option.some.injEq] at hr
              simp only [decodeStage, hv2, Bool.false_eq_true, if_false]
              exact hr
            | true => exact ⟨by simp [decodeStage, hv2, herr, DecodeStage.Holds], fun _ => rfl⟩
  · exact h

theorem decoding_decodeKat (h : ∀ c ∈ s.decodes, DecodesAs L s.v2Enabled c)
    (hkat : s.kat ≠ some false) (d : Nat) :
    ∀ c ∈ (s.decodeKat d).decodes, DecodesAs L s.v2Enabled c := by
  unfold decodeKat
  split
  · next roomId _ _ ok hd hok =>
    split
    · have hset : ∀ c ∈ (s.setDecode d .key).decodes, DecodesAs L s.v2Enabled c := by
        refine forall_setDecode h fun c hc => ?_
        rw [hd] at hc
        obtain rfl := Option.some.inj hc
        have hwaits := (h _ (List.mem_of_getElem? hd)).waits (.inl rfl)
        exact ⟨fun _ _ => trivial, fun _ => hwaits⟩
      obtain ⟨_, hw⟩ := s.getV2RoomKey_writes roomId
      rw [hw]
      exact hset
    · next hfail =>
      cases ok with
      | true => exact absurd rfl hfail
      | false => exact absurd hok hkat
  · exact h

theorem decoding_decodeKey (h : ∀ c ∈ s.decodes, DecodesAs L s.v2Enabled c) (d : Nat) :
    ∀ c ∈ (s.decodeKey L d).decodes, DecodesAs L s.v2Enabled c := by
  unfold decodeKey
  split
  · next roomId _ content hd =>
    have hv2 := (h _ (List.mem_of_getElem? hd)).waits (.inr rfl)
    split
    · refine forall_setDecode h fun c hc => ?_
      rw [hd] at hc
      obtain rfl := Option.some.inj hc
      refine ⟨fun result hr => ?_, by simp⟩
      simp only [decodeContent, hv2, if_true] at hr
      unfold decodeV2
      show _ = result
      cases htry : tryDecryptV2 L content (deriveRoomKey L roomId) with
      | none => simp [htry] at hr
      | some r => cases r <;> simpa [htry] using hr
    · refine forall_setDecode h fun c hc => ?_
      exact ⟨fun _ _ => trivial, by simp⟩
    · exact h
  · exact h

theorem decoding_dispatch (h : ∀ c ∈ s.decodes, DecodesAs L s.v2Enabled c) (d : Nat) :
    ∀ c ∈ (s.dispatch d).1.decodes, DecodesAs L s.v2Enabled c := by
  have hdone : ∀ c ∈ (s.setDecode d .done).decodes, DecodesAs L s.v2Enabled c :=
    forall_setDecode h fun c _ => ⟨fun _ _ => trivial, by simp⟩
  unfold dispatch
  split
  · next message hd =>
    have hc := h _ (List.mem_of_getElem? hd)
    split
    · next m =>
      split
      · refine forall_setDecode h fun c hget => ?_
        rw [hd] at hget
        obtain rfl := Option.some.inj hget
        exact ⟨hc.holds, by simp⟩
      · exact hdone
    · exact hdone
  · next m next hd =>
    have hc := h _ (List.mem_of_getElem? hd)
    split
    · refine forall_setDecode h fun c hget => ?_
      rw [hd] at hget
      obtain rfl := Option.some.inj hget
      exact ⟨hc.holds, by simp⟩
    · exact hdone
  · exact h

theorem step_decoding (h : Decoding L s) (ev : Event) : Decoding L (step L s ev).1 := by
  have hkeeps := s.step_keeps L ev
  have hspares := s.step_spares L ev
  refine ⟨fun herr => ?_, fun hkat => ?_⟩
  · by_cases hev : ev = .katLatched
    · subst hev
      simp only [step] at herr ⊢
      split at herr
      · next hfail => simp [hfail]
      · next hpass => exact absurd (h.error herr) hpass
    · exact hkeeps.kat false (h.error (hspares.v2KatError hev ▸ herr))
  · have hpre : s.kat ≠ some false := fun hfail => hkat (hkeeps.kat false hfail)
    have hdecodes := h.decodes hpre
    have herr : s.v2KatError = false := by
      cases hlatched : s.v2KatError with
      | false => rfl
      | true => exact absurd (h.error hlatched) hpre
    rw [hkeeps.v2Enabled]
    by_cases hev : OnDecodes ev
    · cases ev with
      | message i data =>
        simp only [step, onRelayMessage]
        split
        · split
          · exact decoding_handleEvent hdecodes herr _ _
          · obtain ⟨_, _, hw⟩ := callAck_writes (s.noteAnswer _ _ _) _ _ _
            rw [hw]
            exact hdecodes
        · exact hdecodes
      | decodeKat d => exact decoding_decodeKat hdecodes hpre d
      | decodeKey d => exact decoding_decodeKey hdecodes d
      | dispatch d => exact decoding_dispatch hdecodes d
      | _ => exact hev.elim
    · rw [s.step_decodes L hev]
      exact hdecodes

/-- Unless the known-answer test fails, every received event of a run comes to what
`decodeContent` gives. -/
theorem run_decodes (L : Libraries) (v2 : Bool) (relays : List JsString) (evs : List Event)
    (hkat : (Machine.after (step L) (.new relays v2) evs).kat ≠ some false) :
    ∀ c ∈ (Machine.after (step L) (.new relays v2) evs).decodes, DecodesAs L v2 c := by
  have hstep : ∀ s ev, (s.v2Enabled = v2 ∧ Decoding L s) →
      ((step L s ev).1.v2Enabled = v2 ∧ Decoding L (step L s ev).1) := by
    intro s ev h
    exact ⟨(s.step_keeps L ev).v2Enabled.trans h.1, step_decoding h.2 ev⟩
  have hnew : (new relays v2).v2Enabled = v2 ∧ Decoding L (new relays v2) :=
    ⟨rfl, by simp [new], by simp [new]⟩
  obtain ⟨hv2, hdecoding⟩ := Machine.after_inv hstep hnew evs
  have hdecodes := hdecoding.decodes hkat
  rw [hv2] at hdecodes
  exact hdecodes

end NostrSignaling

open NostrSignaling

/-! ## Libraries that meet the assumptions -/

/-- The first 32 bytes, filled up with zeros. -/
def key32 (ikm : Bytes) : Bytes := (ikm ++ List.replicate 32 0).take 32

def widen (b : Bytes) : JsString := b.map fun x => UInt16.ofNat x.toNat

/-- Libraries whose payloads are a question mark, the key and the plaintext. -/
def readable : Libraries where
  hkdf ikm _ _ := key32 ikm
  encrypt plaintext key nonce :=
    if key.length = 32 ∧ nonce.length = 32 ∧ 1 ≤ (utf8Encode plaintext).length ∧
        (utf8Encode plaintext).length ≤ 65535 then
      some (0x3F :: widen key ++ widen (utf8Encode plaintext))
    else none
  decrypt payload key :=
    if (0x3F :: widen key).isPrefixOf payload then
      some (utf8Decode ((payload.drop (key.length + 1)).map fun u => UInt8.ofNat u.toNat))
    else none
  eventId _ _ content := content

@[simp] theorem length_widen (b : Bytes) : (widen b).length = b.length := by simp [widen]

theorem narrow_widen (b : Bytes) : (widen b).map (fun u => UInt8.ofNat u.toNat) = b := by
  induction b with
  | nil => rfl
  | cons x b ih =>
    have hx : UInt8.ofNat (UInt16.ofNat x.toNat).toNat = x := by
      have hlt := x.toNat_lt
      rw [UInt16.toNat_ofNat', Nat.mod_eq_of_lt (by omega), UInt8.ofNat_toNat]
    rw [widen, List.map_cons, List.map_cons, hx]
    exact congrArg (x :: ·) ih

/-- No JSON text begins with a question mark. -/
theorem parse_question (r : JsString) : Json.parse (0x3F :: r) = none := by
  have hnum : parseNum (0x3F :: r) = none := by
    cases hp : parseNum (0x3F :: r) with
    | none => rfl
    | some p => rcases parseNum_head hp with h | h <;> exact absurd h (by decide)
  have hvalue : ∀ n, parseValue n (0x3F :: r) = none := by
    intro n
    cases n with
    | zero => simp [parseValue]
    | succ n => simp [parseValue, skipWs, hnum]
  rw [Json.parse, hvalue]

theorem isIdUnit_ascii (u : UInt16) (h : isIdUnit u = true) : u.toNat < 0x80 := by
  simp only [isIdUnit, Bool.or_eq_true, Bool.and_eq_true, decide_eq_true_eq,
    UInt16.le_iff_toNat_le] at h
  have hunit : ∀ v : UInt16, v.toNat < 0x80 → u = v → u.toNat < 0x80 := fun v hv he => he ▸ hv
  rcases h with ((((((h | h) | h) | h) | h) | h) | h) | h
  · exact Nat.lt_of_le_of_lt h.2 (by decide)
  · exact Nat.lt_of_le_of_lt h.2 (by decide)
  · exact hunit _ (by decide) h
  · exact hunit _ (by decide) h
  · exact hunit _ (by decide) h
  · exact hunit _ (by decide) h
  · exact Nat.lt_of_le_of_lt h.2 (by decide)
  · exact Nat.lt_of_le_of_lt h.2 (by decide)

theorem length_utf8Encode_ascii : ∀ {s : JsString}, (∀ u ∈ s, u.toNat < 0x80) →
    (utf8Encode s).length = s.length
  | [], _ => rfl
  | [u], h => by
    have hu := h u (List.mem_singleton.mpr rfl)
    have hs : isSurrogate u = false := by
      simp only [isSurrogate, isHigh, isLow, Bool.or_eq_false_iff, Bool.and_eq_false_iff,
        decide_eq_false_iff_not]
      omega
    simp [utf8Encode, scalars, hs, utf8, hu]
  | u :: v :: r, h => by
    have hu := h u (List.mem_cons_self ..)
    have hs : isSurrogate u = false := by
      simp only [isSurrogate, isHigh, isLow, Bool.or_eq_false_iff, Bool.and_eq_false_iff,
        decide_eq_false_iff_not]
      omega
    have hh : isHigh u = false := (Bool.or_eq_false_iff.mp hs).1
    have ih := length_utf8Encode_ascii fun w hw => h w (List.mem_cons_of_mem u hw)
    rw [utf8Encode, List.length_map] at ih
    simp [utf8Encode, scalars, hs, hh, utf8, hu] at ih ⊢
    omega

theorem roomId_ascii {r : JsString} (h : isRoomId r = true) :
    r.length = 26 ∧ ∀ u ∈ r, u.toNat < 0x80 := by
  obtain ⟨hlen, hall⟩ := Bool.and_eq_true_iff.mp h
  exact ⟨of_decide_eq_true hlen, fun u hu => isIdUnit_ascii u (List.all_eq_true.mp hall u hu)⟩

/-- Rooms have the encodings they are decoded from. -/
theorem readable_distinct {r r' : JsString} (hr : isRoomId r = true) (hr' : isRoomId r' = true)
    (h : deriveRoomKey readable r = deriveRoomKey readable r') : r = r' := by
  obtain ⟨hlen, hascii⟩ := roomId_ascii hr
  obtain ⟨hlen', hascii'⟩ := roomId_ascii hr'
  have hbytes : utf8Encode r = utf8Encode r' := by
    have hl : (utf8Encode r).length = 26 := (length_utf8Encode_ascii hascii).trans hlen
    have hl' : (utf8Encode r').length = 26 := (length_utf8Encode_ascii hascii').trans hlen'
    have htake := congrArg (List.take 26) h
    simp only [deriveRoomKey, readable, key32, List.take_take] at htake
    rw [List.take_append_of_le_length (by simp [hl]), List.take_append_of_le_length (by simp [hl']),
      List.take_of_length_le (by simp [hl]), List.take_of_length_le (by simp [hl'])] at htake
    exact htake
  have hdecode : ∀ {s : JsString}, (∀ u ∈ s, u.toNat < 0x80) →
      utf8Decode (utf8Encode s) = s := by
    intro s hs
    refine utf8Decode_utf8Encode (wellFormed_ascii hs) fun hbom => ?_
    exact absurd (hs _ (List.mem_of_mem_head? hbom)) (by decide)
  rw [← hdecode hascii, hbytes, hdecode hascii']

theorem readable_payload {plaintext payload : JsString} {key nonce : Bytes}
    (h : readable.encrypt plaintext key nonce = some payload) :
    payload = 0x3F :: widen key ++ widen (utf8Encode plaintext) := by
  simp only [readable] at h
  split at h
  · exact (Option.some.inj h).symm
  · cases h

theorem readable_nip44 : Nip44 readable where
  keyLength ikm _ _ := by simp [readable, key32]
  distinct _ _ hr hr' h := readable_distinct hr hr' h
  accepts _ _ _ hkey hnonce hmin hmax := by simp [readable, hkey, hnonce, hmin, hmax]
  correct plaintext payload key nonce _ h := by
    obtain rfl := readable_payload h
    have hprefix : (0x3F :: widen key).isPrefixOf
        (0x3F :: widen key ++ widen (utf8Encode plaintext)) = true :=
      List.isPrefixOf_iff_prefix.mpr (List.prefix_append ..)
    have hdrop : (0x3F :: widen key ++ widen (utf8Encode plaintext)).drop (key.length + 1) =
        widen (utf8Encode plaintext) := List.drop_left' (by simp)
    simp only [readable, hprefix, if_true, hdrop, narrow_widen]
  authentic plaintext payload key nonce other hkey hother h hne := by
    obtain rfl := readable_payload h
    refine if_neg fun hprefix => hne ?_
    have hp := List.isPrefixOf_iff_prefix.mp hprefix
    have hcons := (List.cons_prefix_cons.mp hp).2
    have hsame := List.prefix_of_prefix_length_le hcons
      (List.prefix_append (widen key) (widen (utf8Encode plaintext))) (by simp [hkey, hother])
    have hwide : widen other = widen key := hsame.eq_of_length (by simp [hkey, hother])
    rw [← narrow_widen other, hwide, narrow_widen]
  payloadNotJson _ _ _ _ h := by
    rw [readable_payload h]
    exact parse_question _
  jsonNotPayload text key h := by
    refine if_neg fun hprefix => ?_
    obtain ⟨r, rfl⟩ := List.isPrefixOf_iff_prefix.mp hprefix
    rw [List.cons_append, parse_question] at h
    cases h

/-! ## The matrix -/

/-- A sender with encryption `v2` makes `content` of the message. -/
def Makes (L : Libraries) (v2 : Bool) (roomId : JsString) (message : Json)
    (content : JsString) : Prop :=
  ∃ nonce, encodeContent L v2 roomId message nonce = some content

/-- A receiver with encryption `v2` decodes the content, in the room, to the result:
without an exception, and in every run whose known-answer test does not fail. -/
structure DecodedTo (L : Libraries) (v2 : Bool) (roomId content : JsString)
    (result : Option Json) : Prop where
  returns : decodeContent L v2 roomId (some (.str content)) = some result
  received : ∀ relays evs, (Machine.after (step L) (.new relays v2) evs).kat ≠ some false →
    ∀ c ∈ (Machine.after (step L) (.new relays v2) evs).decodes, c.roomId = roomId →
      c.content = some (.str content) → c.stage.Holds result

theorem DecodedTo.of_returns {v2 : Bool} {roomId content : JsString} {result : Option Json}
    (h : decodeContent L v2 roomId (some (.str content)) = some result) :
    DecodedTo L v2 roomId content result := by
  refine ⟨h, fun relays evs hkat c hc hroom hcontent => ?_⟩
  refine (run_decodes L v2 relays evs hkat c hc).holds result ?_
  rw [hroom, hcontent]
  exact h

/-- The senders and receivers of both versions, room by room and message by message. -/
structure Interoperable (L : Libraries) : Prop where
  /-- The event of every publish of a run carries what its sender makes of its message. -/
  sent : ∀ v2 relays evs, ∀ q ∈ (Machine.after (step L) (.new relays v2) evs).publishes,
    ∀ e, q.event = some e → Makes L v2 q.roomId q.message e.content
  /-- A message that is short enough is encrypted. -/
  seals : ∀ roomId message nonce, nonce.length = 32 →
    (utf8Encode (V2_SENTINEL ++ message.stringify)).length ≤ 65535 →
    ∃ content, encodeContent L true roomId message nonce = some content
  plain : ∀ v2 roomId message content, message.Exact → Makes L false roomId message content →
    DecodedTo L v2 roomId content (some message)
  sameRoom : ∀ roomId message content, message.Exact → Makes L true roomId message content →
    DecodedTo L true roomId content (some message)
  plainReceiver : ∀ roomId room message content, Makes L true roomId message content →
    DecodedTo L false room content none
  otherRoom : ∀ roomId room message content, isRoomId roomId = true → isRoomId room = true →
    room ≠ roomId → Makes L true roomId message content → DecodedTo L true room content none
  /-- What opens to no envelope is nothing, and version 1 is not tried. -/
  foreign : ∀ roomId content plaintext,
    L.decrypt content (deriveRoomKey L roomId) = some plaintext →
    (∀ text, plaintext = V2_SENTINEL ++ text → Json.parse text = none) →
    tryDecryptV2 L (some (.str content)) (deriveRoomKey L roomId) = some .v2NoSentinel ∧
      DecodedTo L true roomId content none

theorem makes_plain {roomId content : JsString} {message : Json} :
    Makes L false roomId message content ↔ content = message.stringify := by
  simp [Makes, encodeContent, eq_comm]

theorem Makes.encrypted {roomId content : JsString} {message : Json}
    (h : Makes L true roomId message content) :
    ∃ nonce, encryptV2 L message (deriveRoomKey L roomId) nonce = some content := by
  simpa [Makes, encodeContent] using h

theorem Makes.payload (hL : Nip44 L) {roomId content : JsString} {message : Json}
    (h : Makes L true roomId message content) : Json.parse content = none := by
  obtain ⟨nonce, hcontent⟩ := h.encrypted
  rw [encryptV2_eq hL] at hcontent
  exact hL.payloadNotJson _ _ _ _ hcontent

theorem seals_short (hL : Nip44 L) (roomId : JsString) (message : Json) {nonce : Bytes}
    (hnonce : nonce.length = 32)
    (hshort : (utf8Encode (V2_SENTINEL ++ message.stringify)).length ≤ 65535) :
    ∃ content, encodeContent L true roomId message nonce = some content := by
  simp only [encodeContent, if_true, encryptV2_eq hL]
  refine Option.isSome_iff_exists.mp (hL.accepts _ _ _ (hL.roomKey roomId) hnonce ?_ hshort)
  have hne : utf8Encode (V2_SENTINEL ++ message.stringify) ≠ [] := by
    intro hnil
    have hdecoded := decode_plaintext message
    rw [hnil] at hdecoded
    cases hdecoded
  exact List.length_pos_iff.mpr hne

theorem other_room_closed (hL : Nip44 L) {roomId room content : JsString} {message : Json}
    (hroomId : isRoomId roomId = true) (hroom : isRoomId room = true) (hne : room ≠ roomId)
    (h : Makes L true roomId message content) :
    L.decrypt content (deriveRoomKey L room) = none := by
  obtain ⟨nonce, hcontent⟩ := h.encrypted
  rw [encryptV2_eq hL] at hcontent
  have hkeys : deriveRoomKey L room ≠ deriveRoomKey L roomId := by
    intro heq
    exact hne (hL.distinct room roomId hroom hroomId heq)
  exact hL.authentic _ _ _ _ _ (hL.roomKey roomId) (hL.roomKey room) hcontent hkeys

theorem interoperable (hL : Nip44 L) : Interoperable L where
  sent v2 relays evs q hq e he := (run_encodes L v2 relays evs q hq).event e he
  seals roomId message nonce hnonce hshort := seals_short hL roomId message hnonce hshort
  plain v2 roomId message content hm h := by
    obtain rfl := makes_plain.mp h
    exact .of_returns (decodeContent_stringify hL hm v2 roomId)
  sameRoom roomId message content hm h := by
    obtain ⟨nonce, hcontent⟩ := h.encrypted
    exact .of_returns (decodeContent_payload hL hm hcontent)
  plainReceiver roomId room message content h := by
    refine .of_returns ?_
    rw [decodeContent_plain, h.payload hL]
  otherRoom roomId room message content hroomId hroom hne h := by
    refine .of_returns ?_
    rw [decodeContent_closed hL (other_room_closed hL hroomId hroom hne h), h.payload hL]
  foreign roomId content plaintext hopen hforeign := by
    have htry := tryDecryptV2_foreign hL hopen hforeign
    exact ⟨htry, .of_returns (by simp [decodeContent, htry])⟩

theorem interoperable_readable : Interoperable readable := interoperable readable_nip44

end Senn.Nostr

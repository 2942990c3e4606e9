import Senn.Nostr.Encoding

/-! # An adapter with encryption

With encryption on, what an EVENT carries is what `encryptV2` made for its room,
whenever it is sent. While the known-answer test has not passed, every publish
waits for it or has been rejected, and every received event waits for it or has
been dropped. -/

namespace Senn.Nostr
open Senn.Js Senn.Lib

/-- The content of the event is a ciphertext under the key of the event's room. -/
def Encrypted (L : Libraries) (e : NostrEvent) : Prop :=
  ∃ roomId message nonce, e.tag = SENN_TAG_PREFIX ++ roomId ∧
    encryptV2 L message (deriveRoomKey L roomId) nonce = some e.content

/-- An output other than an EVENT and the call of a handler. -/
def Out.Plain : Out → Prop
  | .send _ (.event _) => False
  | .handler _ _ => False
  | _ => True

/-- No output is an EVENT or the call of a handler. -/
structure Plain (outs : List Out) : Prop where
  all : ∀ o ∈ outs, o.Plain

theorem Plain.nil : Plain [] := ⟨by simp⟩

theorem Plain.one {o : Out} (h : o.Plain) : Plain [o] := ⟨by simpa using h⟩

theorem Plain.append {os ps : List Out} (hos : Plain os) (hps : Plain ps) : Plain (os ++ ps) :=
  ⟨List.forall_mem_append.mpr ⟨hos.all, hps.all⟩⟩

theorem Idle.plain {outs : List Out} (h : Idle outs) : Plain outs := by
  refine ⟨fun o ho => ?_⟩
  have hidle := h.all o ho
  cases o with
  | send i f =>
    cases f with
    | event e => exact hidle
    | _ => trivial
  | handler h message => exact hidle
  | _ => trivial

theorem Settles.plain {outs : List Out} (h : Settles outs) : Plain outs := by
  refine ⟨fun o ho => ?_⟩
  obtain ⟨p, r, rfl⟩ := h.all o ho
  trivial

namespace NostrSignaling

/-! ## Which steps send events or call handlers -/

theorem nextRelay_plain (s : NostrSignaling) (p : Nat) (urls : List JsString) (ctorOk : Bool) :
    Plain (s.nextRelay p urls ctorOk).2 := by
  unfold nextRelay
  split
  · exact .nil
  · split
    · exact (endRelays_settles ..).plain
    · exact (callEnsure_idle ..).plain

/-- A turn of the loop over the handlers sends nothing. -/
theorem dispatch_sends_none (s : NostrSignaling) (d i : Nat) (f : Frame) :
    .send i f ∉ (s.dispatch d).2 := by
  unfold dispatch
  split
  · split <;> exact List.not_mem_nil
  · split <;> simp
  · exact List.not_mem_nil

variable (L : Libraries)

theorem encodedResumed_plain (s : NostrSignaling) (p now : Nat) (ctorOk : Bool) :
    Plain (s.encodedResumed L p now ctorOk).2 := by
  unfold encodedResumed
  split
  · exact .nil
  · split
    · exact nextRelay_plain ..
    · exact .nil

/-- Only `relayResumed` sends events and only `dispatch` calls handlers. -/
theorem step_plain (s : NostrSignaling) {ev : Event}
    (hrelay : ∀ p sendOk ctorOk, ev ≠ .relayResumed p sendOk ctorOk)
    (hdispatch : ∀ d, ev ≠ .dispatch d) : Plain (step L s ev).2 := by
  by_cases hev : OnPublishes ev
  · cases ev with
    | publish roomId message => exact (publish_settles ..).plain
    | katResumed p => exact (katResumed_settles ..).plain
    | keyResumed p nonce => exact (keyResumed_settles ..).plain
    | encodedResumed p now ctorOk => exact encodedResumed_plain ..
    | relayResumed p sendOk ctorOk => exact absurd rfl (hrelay p sendOk ctorOk)
    | ackTimeout p => exact (ackTimeout_settles ..).plain
    | message i data => exact (onRelayMessage_settles ..).plain
    | _ => exact hev.elim
  · exact (s.step_idle L hev hdispatch).plain

/-! ## What events carry -/

/-- A publish that has encoded its content encrypted it for its room, and so did
one that has made its event. -/
structure Encodes (q : Publish) : Prop where
  content : ∀ content, q.stage = .encoded content →
    ∃ nonce, encryptV2 L q.message (deriveRoomKey L q.roomId) nonce = some content
  event : ∀ e, q.event = some e → Encrypted L e

/-- Encryption is on, and every publish encrypts. -/
structure Encrypting (s : NostrSignaling) : Prop where
  v2 : s.v2Enabled = true
  publishes : ∀ q ∈ s.publishes, Encodes L q

variable {L} {s : NostrSignaling}

theorem encodes_call (roomId : JsString) (message : Json) {stage : Stage}
    (hstage : ∀ content, stage ≠ .encoded content) :
    Encodes L (.call roomId message stage) :=
  ⟨fun content hc => absurd hc (hstage content), by simp [Publish.call]⟩

theorem encodes_encoding : Encoding L true (Encodes L) where
  onward q q' h hroom hmessage hevent hstage := by
    refine ⟨fun content hc => ?_, fun e he => h.event e (hevent ▸ he)⟩
    rw [hroom, hmessage]
    rcases hstage with hstage | hsent
    · exact h.content content (hstage ▸ hc)
    · rw [hc] at hsent
      exact hsent.elim
  ended roomId message r := encodes_call roomId message (by simp)
  plain _ _ h := by cases h
  waiting roomId message _ := encodes_call roomId message (by simp)
  key q h _ := by
    refine ⟨fun content hc => ?_, h.event⟩
    cases hc
  encrypted q nonce content h _ hcontent := by
    refine ⟨fun c hc => ?_, h.event⟩
    obtain rfl := Stage.encoded.inj hc
    exact ⟨nonce, hcontent⟩
  event q content id createdAt h hstage := by
    refine ⟨h.content, fun e he => ?_⟩
    obtain ⟨nonce, hcontent⟩ := h.content content hstage
    obtain rfl := Option.some.inj he
    exact ⟨q.roomId, q.message, nonce, rfl, hcontent⟩

theorem Encrypting.get (h : Encrypting L s) {p : Nat} {q : Publish}
    (hq : s.publishes[p]? = some q) : Encodes L q := h.publishes q (List.mem_of_getElem? hq)

/-- A resumed publish that sends an event sends its own, to a relay it waited for. -/
theorem relayResumed_sends {p : Nat} {sendOk ctorOk : Bool} {o : Out}
    (h : o ∈ (s.relayResumed p sendOk ctorOk).2) (ho : ¬o.Plain) :
    ∃ q i e, s.publishes[p]? = some q ∧ (∃ url rest, q.stage = .relays url rest) ∧
      q.event = some e ∧ o = .send i (.event e) := by
  unfold relayResumed at h
  split at h
  · next q ws hq _ =>
    split at h
    · exact absurd ((nextRelay_plain ..).all o h) ho
    · next i hstage hevent _ =>
      refine ⟨q, i, _, hq, ⟨_, _, hstage⟩, hevent, ?_⟩
      dsimp only at h
      split at h
      · rcases List.mem_cons.mp h with rfl | h
        · rfl
        · exact absurd ((nextRelay_plain ..).all o h) ho
      · rcases List.mem_cons.mp h with rfl | h
        · rfl
        · exact absurd ((Plain.append (callAck_settles ..).plain (nextRelay_plain ..)).all o h) ho
    · cases h
  · cases h

/-- Every step leaves the adapter encrypting. -/
theorem step_encrypting (h : Encrypting L s) (ev : Event) : Encrypting L (step L s ev).1 := by
  refine ⟨(s.step_keeps L ev).v2Enabled.trans h.v2, ?_⟩
  have hE : Encoding L s.v2Enabled (Encodes L) := h.v2 ▸ encodes_encoding
  exact hE.step h.publishes ev

/-- An EVENT carries a ciphertext for its room. -/
def Sealed (L : Libraries) (o : Out) : Prop := ∀ i e, o = .send i (.event e) → Encrypted L e

theorem Encrypting.outputs (h : Encrypting L s) (ev : Event) :
    ∀ o ∈ (step L s ev).2, Sealed L o := by
  intro o ho
  by_cases hrelay : ∃ p sendOk ctorOk, ev = .relayResumed p sendOk ctorOk
  · obtain ⟨p, sendOk, ctorOk, rfl⟩ := hrelay
    rintro i e rfl
    obtain ⟨q, j, e', hq, _, hevent, heq⟩ := relayResumed_sends ho (fun h => h)
    cases heq
    exact (h.get hq).event e hevent
  · by_cases hdispatch : ∃ d, ev = .dispatch d
    · obtain ⟨d, rfl⟩ := hdispatch
      rintro i e rfl
      exact (dispatch_sends_none s d i (.event e) ho).elim
    · rintro i e rfl
      refine absurd ((step_plain L s ?_ ?_).all _ ho) (fun h => h)
      · rintro p sendOk ctorOk rfl
        exact hrelay ⟨p, sendOk, ctorOk, rfl⟩
      · rintro d rfl
        exact hdispatch ⟨d, rfl⟩

/-! ## Before the known-answer test has passed -/

/-- The publish waits for the known-answer test or has been rejected. -/
def Waiting (q : Publish) : Prop := q.stage = .kat ∨ ∃ e, q.stage = .settled (.rejected e)

/-- The received event waits for the known-answer test or has been dropped. -/
def Dropped (c : Decode) : Prop := c.stage = .kat ∨ c.stage = .decoded none ∨ c.stage = .done

/-- While the known-answer test has not passed, nothing got beyond it. -/
structure Locked (s : NostrSignaling) : Prop where
  v2 : s.v2Enabled = true
  publishes : ∀ q ∈ s.publishes, Waiting q
  decodes : ∀ c ∈ s.decodes, Dropped c

theorem waiting_stable : AckStable Waiting where
  settle q r h := by
    unfold Waiting Publish.settle
    rcases h with h | ⟨e, h⟩ <;> simp [h]
  nack _ _ _ h := h
  answer _ _ h := h

theorem forall_setDecode {E : Decode → Prop} (h : ∀ c ∈ s.decodes, E c) {d : Nat}
    {stage : DecodeStage} (hE : ∀ c, s.decodes[d]? = some c → E { c with stage := stage }) :
    ∀ c ∈ (s.setDecode d stage).decodes, E c := by
  intro c hc
  obtain ⟨j, hj⟩ := List.mem_iff_getElem?.mp hc
  simp only [setDecode, List.getElem?_modify] at hj
  obtain ⟨c', hc', rfl⟩ := Option.map_eq_some_iff.mp hj
  split
  · next hd => exact hE c' (hd ▸ hc')
  · exact h c' (List.mem_of_getElem? hc')

theorem Locked.get (h : Locked s) {p : Nat} {q : Publish} (hq : s.publishes[p]? = some q) :
    Waiting q := h.publishes q (List.mem_of_getElem? hq)

theorem locked_publish (h : Locked s) (roomId : JsString) (message : Json) :
    ∀ q ∈ (s.publish roomId message).1.publishes, Waiting q := by
  have hadd : ∀ stage, Waiting (.call roomId message stage) →
      ∀ q ∈ (s.addPublish roomId message stage).1.publishes, Waiting q := by
    intro stage hstage q hq
    rcases List.mem_append.mp hq with hq | hq
    · exact h.publishes q hq
    · exact List.mem_singleton.mp hq ▸ hstage
  unfold publish
  rw [h.v2]
  split
  · exact hadd _ (.inr ⟨.closed, rfl⟩)
  · simp only [Bool.not_true, Bool.false_eq_true, if_false]
    split
    · exact hadd _ (.inr ⟨.kat, rfl⟩)
    · exact hadd _ (.inl rfl)

theorem locked_katResumed (h : Locked s) (hkat : s.kat ≠ some true) (p : Nat) :
    ∀ q ∈ (s.katResumed p).1.publishes, Waiting q := by
  unfold katResumed
  split
  · next q ok _ hok =>
    split
    · exact h.publishes
    · split
      · next hpass => exact absurd (hpass ▸ hok) hkat
      · exact forall_setPublish h.publishes (.inr ⟨.kat, rfl⟩) p
  · exact h.publishes

/-- A publish that waits for the known-answer test does not wait for its key. -/
theorem locked_keyResumed (h : Locked s) (p : Nat) (nonce : Bytes) :
    (s.keyResumed L p nonce).1 = s := by
  unfold keyResumed
  split
  · rfl
  · next q hq =>
    have hkey : q.stage ≠ .key := by rcases h.get hq with hq | ⟨e, hq⟩ <;> simp [hq]
    rw [if_pos hkey]

theorem locked_encodedResumed (h : Locked s) (p now : Nat) (ctorOk : Bool) :
    (s.encodedResumed L p now ctorOk).1 = s := by
  unfold encodedResumed
  split
  · rfl
  · next q hq =>
    split
    · next content hstage => rcases h.get hq with hq | ⟨e, hq⟩ <;> simp [hq] at hstage
    · rfl

theorem locked_relayResumed (h : Locked s) (p : Nat) (sendOk ctorOk : Bool) :
    s.relayResumed p sendOk ctorOk = (s, []) := by
  unfold relayResumed
  split
  · next q ws hq _ =>
    split
    · next hstage _ _ => rcases h.get hq with hq | ⟨e, hq⟩ <;> simp [hq] at hstage
    · next hstage _ _ => rcases h.get hq with hq | ⟨e, hq⟩ <;> simp [hq] at hstage
    · rfl
  · rfl

theorem locked_handleEvent (h : Locked s) (subId : JsString) (event : Json) :
    ∀ c ∈ (s.handleEvent subId event).decodes, Dropped c := by
  unfold handleEvent
  split
  · split
    · exact h.decodes
    · split
      · exact h.decodes
      · dsimp only
        split
        · exact h.decodes
        · intro c hc
          rcases List.mem_append.mp hc with hc | hc
          · exact h.decodes c hc
          · rw [List.mem_singleton.mp hc, Dropped, decodeStage, h.v2]
            by_cases herr : s.v2KatError <;> simp [herr]
  · exact h.decodes

theorem locked_onRelayMessage (h : Locked s) (i : Nat) (data : JsString) :
    ∀ c ∈ (s.onRelayMessage i data).1.decodes, Dropped c := by
  unfold onRelayMessage
  split
  · split
    · exact locked_handleEvent h _ _
    · obtain ⟨_, _, hw⟩ := callAck_writes (s.noteAnswer _ _ _) _ _ _
      exact hw ▸ h.decodes
  · exact h.decodes

theorem locked_decodeKat (h : Locked s) (hkat : s.kat ≠ some true) (d : Nat) :
    ∀ c ∈ (s.decodeKat d).decodes, Dropped c := by
  unfold decodeKat
  split
  · next ok hc hok =>
    split
    · next hpass => exact absurd (hpass ▸ hok) hkat
    · exact forall_setDecode h.decodes fun c _ => .inr (.inl rfl)
  · exact h.decodes

theorem locked_decodeKey (h : Locked s) (d : Nat) : s.decodeKey L d = s := by
  unfold decodeKey
  split
  · next hc => rcases h.decodes _ (List.mem_of_getElem? hc) with h | h | h <;> cases h
  · rfl

theorem locked_dispatch (h : Locked s) (d : Nat) :
    (∀ c ∈ (s.dispatch d).1.decodes, Dropped c) ∧ (s.dispatch d).2 = [] := by
  unfold dispatch
  split
  · next message hc =>
    cases message with
    | some m => rcases h.decodes _ (List.mem_of_getElem? hc) with h | h | h <;> cases h
    | none => exact ⟨forall_setDecode h.decodes fun c _ => .inr (.inr rfl), rfl⟩
  · next hc => rcases h.decodes _ (List.mem_of_getElem? hc) with h | h | h <;> cases h
  · exact ⟨h.decodes, rfl⟩

/-- A step after which the known-answer test has still not passed leaves everything
behind it. -/
theorem step_locked (h : Locked s) (ev : Event) (hkat : (step L s ev).1.kat ≠ some true) :
    Locked (step L s ev).1 := by
  have hpre : s.kat ≠ some true := fun hpass => hkat ((s.step_keeps L ev).kat true hpass)
  refine ⟨(s.step_keeps L ev).v2Enabled.trans h.v2, ?_, ?_⟩
  · by_cases hev : OnPublishes ev
    · cases ev with
      | publish roomId message => exact locked_publish h roomId message
      | katResumed p => exact locked_katResumed h hpre p
      | keyResumed p nonce => simpa only [step, locked_keyResumed h p nonce] using h.publishes
      | encodedResumed p now ctorOk =>
        simpa only [step, locked_encodedResumed h p now ctorOk] using h.publishes
      | relayResumed p sendOk ctorOk =>
        simpa only [step, locked_relayResumed h p sendOk ctorOk] using h.publishes
      | ackTimeout p => exact waiting_stable.ackTimeout h.publishes p
      | message i data => exact waiting_stable.onRelayMessage h.publishes i data
      | _ => exact hev.elim
    · exact (s.step_publishes L hev).1 ▸ h.publishes
  · by_cases hev : OnDecodes ev
    · cases ev with
      | message i data => exact locked_onRelayMessage h i data
      | decodeKat d => exact locked_decodeKat h hpre d
      | decodeKey d => simpa only [step, locked_decodeKey h d] using h.decodes
      | dispatch d => exact (locked_dispatch h d).1
      | _ => exact hev.elim
    · exact s.step_decodes L hev ▸ h.decodes

theorem Locked.outputs (h : Locked s) (ev : Event) : Plain (step L s ev).2 := by
  by_cases hrelay : ∃ p sendOk ctorOk, ev = .relayResumed p sendOk ctorOk
  · obtain ⟨p, sendOk, ctorOk, rfl⟩ := hrelay
    simpa only [step, locked_relayResumed h p sendOk ctorOk] using Plain.nil
  · by_cases hdispatch : ∃ d, ev = .dispatch d
    · obtain ⟨d, rfl⟩ := hdispatch
      simpa only [step, (locked_dispatch h d).2] using Plain.nil
    · refine step_plain L s ?_ ?_
      · rintro p sendOk ctorOk rfl
        exact hrelay ⟨p, sendOk, ctorOk, rfl⟩
      · rintro d rfl
        exact hdispatch ⟨d, rfl⟩

/-! ## Over a run -/

theorem after_kat (evs : List Event) (s : NostrSignaling) {ok : Bool} (h : s.kat = some ok) :
    (Machine.after (step L) s evs).kat = some ok := by
  have hstep : ∀ (s : NostrSignaling) (ev : Event), s.kat = some ok →
      (step L s ev).1.kat = some ok := fun s ev h => (s.step_keeps L ev).kat ok h
  exact Machine.after_inv hstep h evs

/-- A run in whose end the known-answer test has not passed got nothing beyond it. -/
theorem run_locked (evs : List Event) (h : Locked s)
    (hkat : (Machine.after (step L) s evs).kat ≠ some true) :
    Locked (Machine.after (step L) s evs) ∧ Plain (Machine.outputs (step L) s evs) := by
  induction evs generalizing s with
  | nil => exact ⟨h, .nil⟩
  | cons ev evs ih =>
    have hstep : (step L s ev).1.kat ≠ some true := fun hpass => hkat (after_kat evs _ hpass)
    obtain ⟨hlocked, hplain⟩ := ih (step_locked h ev hstep) hkat
    exact ⟨hlocked, (h.outputs ev).append hplain⟩

/-- The publish rejects when the adapter goes on with it, if it has not done so. -/
def Refuses (L : Libraries) (s : NostrSignaling) (p : Nat) : Prop :=
  ∃ q e, (step L s (.katResumed p)).1.publishes[p]? = some q ∧ q.stage = .settled (.rejected e)

theorem Locked.refuses (h : Locked s) (hkat : s.kat = some false) {p : Nat}
    (hp : p < s.publishes.length) : Refuses L s p := by
  have hq := List.getElem?_eq_getElem hp
  simp only [Refuses, step, katResumed, hq, hkat]
  rcases h.get hq with hstage | ⟨e, hstage⟩
  · simp [hstage, failPublish, setPublish, hp]
  · simp [hstage, hp]

/-- What an adapter with encryption keeps to: each EVENT carries a ciphertext for
its room, and where the known-answer test fails there are no EVENTs, no handler is
called and every publish rejects. -/
structure NoDowngrade (L : Libraries) (s : NostrSignaling) (outs : List Out) : Prop where
  encrypted : ∀ i e, .send i (.event e) ∈ outs → Encrypted L e
  sendsNone : s.kat = some false → ∀ i e, .send i (.event e) ∉ outs
  callsNone : s.kat = some false → ∀ h message, .handler h message ∉ outs
  refuses : s.kat = some false → ∀ p < s.publishes.length, Refuses L s p

/-- An adapter made with encryption on is never downgraded. -/
theorem never_downgraded (L : Libraries) (relays : List JsString) (evs : List Event) :
    NoDowngrade L (Machine.after (step L) (.new relays true) evs)
      (Machine.outputs (step L) (.new relays true) evs) := by
  have henc : Encrypting L (.new relays true) := ⟨rfl, by simp [new]⟩
  have hlocked : Locked (.new relays true) := ⟨rfl, by simp [new], by simp [new]⟩
  have hnot : ∀ s : NostrSignaling, s.kat = some false → s.kat ≠ some true := by
    intro s h
    simp [h]
  have hsealed := Machine.outputs_inv (P := Encrypting L) (fun s ev h => step_encrypting h ev)
    (fun s ev h => h.outputs ev) henc evs
  refine ⟨fun i e ho => hsealed _ ho i e rfl, fun hkat i e ho => ?_, fun hkat h message ho => ?_,
    fun hkat p hp => ?_⟩
  · exact (run_locked evs hlocked (hnot _ hkat)).2.all _ ho
  · exact (run_locked evs hlocked (hnot _ hkat)).2.all _ ho
  · exact (run_locked evs hlocked (hnot _ hkat)).1.refuses hkat hp

end NostrSignaling

end Senn.Nostr

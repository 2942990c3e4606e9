import Senn.Nostr.Settlements

/-! # How publishes settle

What relays answer to an event is counted for the event and not for each relay, in
a table with one entry for an event id. Where the answers that count come from
relays the publish sent its event to, no relay refuses it twice and no two publishes
of one event are under way together, a publish settles as its relays answered. -/

namespace Senn.Nostr
open Senn.Js Senn.Lib

/-! ## A publish and its relays -/

/-- A call that has not made its event is at such a stage. -/
def Stage.Early : Stage → Prop
  | .kat | .key | .encoded _ | .settled (.rejected _) => True
  | _ => False

namespace Publish

/-- The relays that refused the event. -/
def nacks (q : Publish) : List JsString := (q.answers.filter fun a => !a.2).map Prod.fst

/-- The loop has come past the relay. -/
def Handled (q : Publish) (url : JsString) : Prop :=
  url ∈ q.contacted ∨ url ∈ q.sendFailed ∨ url ∈ q.unreachable

/-- The event is made and its acknowledgement not settled. -/
structure Pending (q : Publish) : Prop where
  event : q.event.isSome = true
  settled : q.settled = false

/-- The event is made and the call not settled. -/
structure UnderWay (q : Publish) : Prop where
  event : q.event.isSome = true
  unsettled : ∀ r, q.stage ≠ .settled r

instance (q : Publish) : Decidable q.UnderWay :=
  decidable_of_iff (q.event.isSome = true ∧ q.outcome = []) ⟨fun h => ⟨h.1, fun r hr => by
    simp [outcome, hr] at h⟩, fun h => ⟨h.event, by
    unfold outcome
    split
    · next r hr => exact absurd hr (h.unsettled r)
    · rfl⟩⟩

/-- The counters agree with what relays did. -/
structure Counted (q : Publish) : Prop where
  relayCount : q.relayCount = q.contacted.length + q.sendFailed.length
  nodup : q.nacks.Nodup
  answered : ∀ a ∈ q.answers, a.1 ∈ q.contacted
  nacked : q.settled = false → q.nacked = q.sendFailed.length + q.nacks.length
  open_ : q.settled = false → q.ack = none
  refused : q.ack ≠ some .resolved → ∀ a ∈ q.answers, a.2 = false
  resolved : q.ack = some .resolved → ∃ url, (url, true) ∈ q.answers
  rejected : ∀ e, q.ack = some (.rejected e) → e = .ackTimeout ∨
    q.loopFinalized = true ∧ ∀ url ∈ q.contacted, (url, false) ∈ q.answers

/-- Where the call is, and what that says of the relays of the adapter. -/
inductive Placed (relays : List JsString) (q : Publish) : Prop
  | early (hcall : q = .call q.roomId q.message q.stage) (hstage : q.stage.Early)
  | looping (url : JsString) (rest : List JsString) (hstage : q.stage = .relays url rest)
      (hevent : q.event.isSome = true) (hloop : q.loopFinalized = false)
      (hack : q.settled = true → ∃ r, q.ack = some r)
      (hrelays : ∀ u ∈ relays, u = url ∨ u ∈ rest ∨ q.Handled u)
  | waiting (hstage : q.stage = .ack) (hevent : q.event.isSome = true)
      (hloop : q.loopFinalized = true) (hsettled : q.settled = false)
      (hrelays : ∀ u ∈ relays, q.Handled u)
  | ended (r : Settlement) (hstage : q.stage = .settled r) (hevent : q.event.isSome = true)
      (hsettled : q.settled = true) (hrelays : ∀ u ∈ relays, q.Handled u)
      (hr : q.ack = some r ∨ r = .rejected .noReachableRelay ∧ q.relayCount = 0)

/-- A publish as the adapter keeps it. -/
structure Sound (relays : List JsString) (q : Publish) : Prop where
  counted : q.Counted
  placed : q.Placed relays

variable {relays : List JsString} {q : Publish}

theorem counted_call (roomId : JsString) (message : Json) (stage : Stage) :
    (call roomId message stage).Counted where
  relayCount := rfl
  nodup := List.nodup_nil
  answered := by simp [call]
  nacked _ := rfl
  open_ _ := rfl
  refused _ := by simp [call]
  resolved h := by simp [call] at h
  rejected _ h := by simp [call] at h

/-- A call that has not made its event. -/
theorem sound_call {roomId : JsString} {message : Json} {stage : Stage} (hstage : stage.Early) :
    (call roomId message stage).Sound relays :=
  ⟨counted_call roomId message stage, .early rfl hstage⟩

theorem event_of_call (hcall : q = .call q.roomId q.message q.stage) : q.event = none := by
  rw [hcall]
  rfl

/-- Before its event is made, a call has done nothing. -/
theorem Placed.before_event (h : q.Placed relays) (hevent : q.event = none) :
    q = .call q.roomId q.message q.stage := by
  cases h with
  | early hcall _ => exact hcall
  | looping _ _ _ hsome _ _ _ => simp [hevent] at hsome
  | waiting _ hsome _ _ _ => simp [hevent] at hsome
  | ended _ _ hsome _ _ _ => simp [hevent] at hsome

/-- A call at one of its first stages has done nothing. -/
theorem Placed.at_early (h : q.Placed relays) (hstage : q.stage.Early)
    (hopen : ∀ r, q.stage ≠ .settled r) : q = .call q.roomId q.message q.stage := by
  cases h with
  | early hcall _ => exact hcall
  | looping _ _ hloop _ _ _ _ => exact (hloop ▸ hstage).elim
  | waiting hwait _ _ _ _ => exact (hwait ▸ hstage).elim
  | ended r hended _ _ _ _ => exact absurd hended (hopen r)

/-- A call in its loop over the relays. -/
theorem Placed.at_relays (h : q.Placed relays) {url : JsString} {rest : List JsString}
    (hstage : q.stage = .relays url rest) :
    q.event.isSome = true ∧ q.loopFinalized = false ∧ (q.settled = true → ∃ r, q.ack = some r) ∧
      ∀ u ∈ relays, u = url ∨ u ∈ rest ∨ q.Handled u := by
  cases h with
  | early _ hearly => exact (hstage ▸ hearly).elim
  | looping url' rest' hstage' hevent hloop hack hrelays =>
    obtain ⟨rfl, rfl⟩ := Stage.relays.inj (hstage'.symm.trans hstage)
    exact ⟨hevent, hloop, hack, hrelays⟩
  | waiting hwait _ _ _ _ => simp [hstage] at hwait
  | ended _ hended _ _ _ _ => simp [hstage] at hended

/-- A call that settled after its event was made. -/
theorem Placed.at_settled (h : q.Placed relays) (hevent : q.event.isSome = true)
    {r : Settlement} (hstage : q.stage = .settled r) :
    q.settled = true ∧ (∀ u ∈ relays, q.Handled u) ∧
      (q.ack = some r ∨ r = .rejected .noReachableRelay ∧ q.relayCount = 0) := by
  cases h with
  | early hcall _ => simp [event_of_call hcall] at hevent
  | looping _ _ hloop _ _ _ _ => simp [hstage] at hloop
  | waiting hwait _ _ _ _ => simp [hstage] at hwait
  | ended r' hended _ hsettled hrelays hr =>
    obtain rfl := Stage.settled.inj (hended.symm.trans hstage)
    exact ⟨hsettled, hrelays, hr⟩

theorem Sound.underWay (h : q.Sound relays) (hq : q.Pending) : q.UnderWay := by
  refine ⟨hq.event, fun r hr => ?_⟩
  obtain ⟨hsettled, _, _⟩ := h.placed.at_settled hq.event hr
  simp [hq.settled] at hsettled

/-- An acknowledgement that settles while the call goes on or waits for it. -/
theorem Placed.settle (h : q.Placed relays) (hq : q.Pending) (r : Settlement) :
    (q.settle r).Placed relays := by
  cases h with
  | early hcall _ => exact absurd hq.event (by simp [event_of_call hcall])
  | looping url rest hstage hevent hloop _ hrelays =>
    exact .looping url rest (by simp [Publish.settle, hstage]) hevent hloop
      (fun _ => ⟨r, rfl⟩) hrelays
  | waiting hstage hevent _ _ hrelays =>
    exact .ended r (by simp [Publish.settle, hstage]) hevent rfl hrelays (.inl rfl)
  | ended _ _ _ hsettled _ _ => simp [hq.settled] at hsettled

/-- What relays answer moves no call. -/
theorem Placed.noted (h : q.Placed relays) (hq : q.Pending) (answers : List (JsString × Bool))
    (nacked : Nat) (msg : Option JsString) :
    { q with answers := answers, nacked := nacked, lastNackMsg := msg }.Placed relays := by
  cases h with
  | early hcall _ => exact absurd hq.event (by simp [event_of_call hcall])
  | looping url rest hstage hevent hloop hack hrelays =>
    exact .looping url rest hstage hevent hloop hack hrelays
  | waiting hstage hevent hloop hsettled hrelays =>
    exact .waiting hstage hevent hloop hsettled hrelays
  | ended r hstage hevent hsettled hrelays hr => exact .ended r hstage hevent hsettled hrelays hr

theorem mem_nacks {url : JsString} : url ∈ q.nacks ↔ (url, false) ∈ q.answers := by
  simp [nacks]

theorem Counted.relayCount_ne_zero (h : q.Counted) {url : JsString} (hurl : url ∈ q.contacted) :
    q.relayCount ≠ 0 := by
  have hcount := h.relayCount
  have hpos := List.length_pos_of_mem hurl
  omega

/-- When as many relays refused as were sent the event, each of those did. -/
theorem Counted.all_nacked (h : q.Counted) (hsettled : q.settled = false)
    (hle : q.relayCount ≤ q.nacked) : ∀ url ∈ q.contacted, (url, false) ∈ q.answers := by
  have hsub : q.nacks ⊆ q.contacted := fun url hurl => h.answered _ (mem_nacks.mp hurl)
  have hlen : q.contacted.length ≤ q.nacks.length := by
    have hcount := h.relayCount
    have hnacked := h.nacked hsettled
    omega
  have hperm := (h.nodup.subperm hsub).perm_of_length_le hlen
  exact fun url hurl => mem_nacks.mp (hperm.symm.subset hurl)

/-- A pending acknowledgement is rejected. -/
theorem Counted.reject (h : q.Counted) (hsettled : q.settled = false) {e : NostrError}
    (he : e = .ackTimeout ∨
      q.loopFinalized = true ∧ ∀ url ∈ q.contacted, (url, false) ∈ q.answers) :
    (q.settle (.rejected e)).Counted where
  relayCount := h.relayCount
  nodup := h.nodup
  answered := h.answered
  nacked hfalse := absurd hfalse (by simp [Publish.settle])
  open_ hfalse := absurd hfalse (by simp [Publish.settle])
  refused _ := h.refused (by simp [h.open_ hsettled])
  resolved htrue := by simp [Publish.settle] at htrue
  rejected e' he' := by
    simp only [Publish.settle, Option.some.injEq, Settlement.rejected.injEq] at he'
    exact he' ▸ he

/-- The loop over the relays ends. -/
theorem Counted.finalize (h : q.Counted) (stage : Stage) :
    { q with loopFinalized := true, stage := stage }.Counted :=
  { h with rejected := fun e he => (h.rejected e he).imp_right fun hr => ⟨rfl, hr.2⟩ }

/-- A contacted relay acknowledges the event. -/
theorem Counted.acked (h : q.Counted) {url : JsString} (hurl : url ∈ q.contacted) :
    ({ q with answers := q.answers ++ [(url, true)] }.settle .resolved).Counted where
  relayCount := h.relayCount
  nodup := by simpa [nacks, Publish.settle] using h.nodup
  answered := by
    refine List.forall_mem_append.mpr ⟨h.answered, fun a ha => ?_⟩
    obtain rfl := List.mem_singleton.mp ha
    exact hurl
  nacked hfalse := absurd hfalse (by simp [Publish.settle])
  open_ hfalse := absurd hfalse (by simp [Publish.settle])
  refused hne := absurd rfl hne
  resolved _ := ⟨url, by simp [Publish.settle]⟩
  rejected e he := by simp [Publish.settle] at he

/-- A contacted relay that has not refused the event before refuses it. -/
theorem Counted.nacked_once (h : q.Counted) (hq : q.Pending) {url : JsString}
    (hurl : url ∈ q.contacted) (hfresh : (url, false) ∉ q.answers) (msg : Option JsString) :
    { q with
      answers := q.answers ++ [(url, false)]
      nacked := q.nacked + 1
      lastNackMsg := msg }.Counted where
  relayCount := h.relayCount
  nodup := by
    have hnot : url ∉ q.nacks := fun hmem => hfresh (mem_nacks.mp hmem)
    simpa [nacks, List.nodup_append] using
      ⟨h.nodup, fun a ha heq => hnot (by simpa [nacks, heq] using ha)⟩
  answered := List.forall_mem_append.mpr ⟨h.answered, by simpa using hurl⟩
  nacked hsettled := by
    have hnacked := h.nacked hsettled
    simp only [nacks, List.filter_append, List.map_append, List.length_append] at hnacked ⊢
    simp only [hnacked, Nat.add_assoc]
    rfl
  open_ := h.open_
  refused hne := List.forall_mem_append.mpr ⟨h.refused hne, by simp⟩
  resolved hack := by simp [h.open_ hq.settled] at hack
  rejected e he := by simp [h.open_ hq.settled] at he

/-- As many relays refused the event as were sent it, and there are no more of them. -/
theorem Counted.rejected_by_all (h : q.Counted) (hsettled : q.settled = false)
    (hloop : q.loopFinalized = true) (hle : q.relayCount ≤ q.nacked) (msg : JsString) :
    (q.settle (.rejected (.nacked msg))).Counted :=
  h.reject hsettled (.inr ⟨hloop, h.all_nacked hsettled hle⟩)

end Publish

/-! ## The table of publishes that wait -/

/-- What holds between the publishes of an adapter and its `pendingAcks`. -/
structure Accounts (relays : List JsString) (publishes : List Publish)
    (pendingAcks : InsMap JsString Nat) : Prop where
  sound : ∀ q ∈ publishes, q.Sound relays
  entry : ∀ id p, pendingAcks.get id = some p →
    ∃ q, publishes[p]? = some q ∧ q.Pending ∧ q.eventId = id
  registered : ∀ p q, publishes[p]? = some q → q.Pending → pendingAcks.get q.eventId = some p
  apart : ∀ (i j : Nat) (q r : Publish), publishes[i]? = some q → publishes[j]? = some r →
    q.UnderWay → r.UnderWay → q.eventId = r.eventId → i = j

theorem getElem?_set_cases {qs : List Publish} {p i : Nat} {q r : Publish}
    (h : (qs.set p q)[i]? = some r) : i = p ∧ r = q ∨ i ≠ p ∧ qs[i]? = some r := by
  rw [List.getElem?_set] at h
  split at h
  · next hip =>
    split at h
    · exact .inl ⟨hip.symm, (Option.some.inj h).symm⟩
    · cases h
  · next hip => exact .inr ⟨fun heq => hip heq.symm, h⟩

section
variable {relays : List JsString} {publishes : List Publish} {pendingAcks : InsMap JsString Nat}
  {p : Nat} {q q' : Publish}

theorem Accounts.get (h : Accounts relays publishes pendingAcks)
    (hq : publishes[p]? = some q) : q.Sound relays := h.sound q (List.mem_of_getElem? hq)

theorem Accounts.sound_set (h : Accounts relays publishes pendingAcks) (hsound : q'.Sound relays)
    (p : Nat) : ∀ r ∈ publishes.set p q', r.Sound relays := by
  intro r hr
  rcases List.mem_or_eq_of_mem_set hr with hr | rfl
  · exact h.sound r hr
  · exact hsound

/-- A publish under way that is not pending has no entry. -/
theorem Accounts.no_entry (h : Accounts relays publishes pendingAcks)
    (hq : publishes[p]? = some q) (hway : q.UnderWay) (hsettled : q.settled = true) :
    pendingAcks.get q.eventId = none := by
  by_contra hne
  obtain ⟨i, hi⟩ := Option.ne_none_iff_exists'.mp hne
  obtain ⟨r, hr, hpend, hid⟩ := h.entry _ i hi
  obtain rfl := h.apart i p r q hr hq ((h.get hr).underWay hpend) hway hid
  obtain rfl := Option.some.inj (hr.symm.trans hq)
  exact absurd hpend.settled (by simp [hsettled])

/-- Publishes under way stay apart where one changes that is apart from the others. -/
theorem Accounts.apart_set (h : Accounts relays publishes pendingAcks)
    (hnew : ∀ i r, publishes[i]? = some r → r.UnderWay → q'.UnderWay →
      r.eventId = q'.eventId → i = p) :
    ∀ (i j : Nat) (r₁ r₂ : Publish), (publishes.set p q')[i]? = some r₁ →
      (publishes.set p q')[j]? = some r₂ → r₁.UnderWay → r₂.UnderWay →
      r₁.eventId = r₂.eventId → i = j := by
  intro i j r₁ r₂ hr₁ hr₂ hw₁ hw₂ heq
  rcases getElem?_set_cases hr₁ with ⟨rfl, rfl⟩ | ⟨_, h₁⟩
  · rcases getElem?_set_cases hr₂ with ⟨rfl, _⟩ | ⟨_, h₂⟩
    · rfl
    · exact (hnew j r₂ h₂ hw₂ hw₁ heq.symm).symm
  · rcases getElem?_set_cases hr₂ with ⟨rfl, rfl⟩ | ⟨_, h₂⟩
    · exact hnew i r₁ h₁ hw₁ hw₂ heq
    · exact h.apart i j r₁ r₂ h₁ h₂ hw₁ hw₂ heq

/-- A publish changes and stays as pending as it was. -/
theorem Accounts.keep (h : Accounts relays publishes pendingAcks)
    (hq : publishes[p]? = some q) (hsound : q'.Sound relays) (hevent : q'.event = q.event)
    (hsettled : q'.settled = q.settled) (hway : q'.UnderWay → q.UnderWay) :
    Accounts relays (publishes.set p q') pendingAcks := by
  have hp : p < publishes.length := (List.getElem?_eq_some_iff.mp hq).1
  have hid : q'.eventId = q.eventId := by simp only [Publish.eventId, hevent]
  have hpend : q'.Pending ↔ q.Pending := by
    constructor
    · exact fun hq' => ⟨hevent ▸ hq'.event, hsettled ▸ hq'.settled⟩
    · exact fun hq => ⟨hevent.symm ▸ hq.event, hsettled.symm ▸ hq.settled⟩
  refine ⟨h.sound_set hsound p, fun id i hi => ?_, fun i r hr hr' => ?_,
    h.apart_set fun i r hr hw hw' heq => h.apart i p r q hr hq hw (hway hw') (heq.trans hid)⟩
  · obtain ⟨r, hr, hpr, hidr⟩ := h.entry id i hi
    by_cases hip : p = i
    · subst hip
      obtain rfl := Option.some.inj (hr.symm.trans hq)
      exact ⟨q', by simp [hp], hpend.mpr hpr, hid.trans hidr⟩
    · exact ⟨r, by simpa [hip] using hr, hpr, hidr⟩
  · rcases getElem?_set_cases hr with ⟨rfl, rfl⟩ | ⟨_, hr⟩
    · rw [hid]
      exact h.registered i q hq (hpend.mp hr')
    · exact h.registered i r hr hr'

/-- The acknowledgement of a publish under way settles. -/
theorem Accounts.drop (h : Accounts relays publishes pendingAcks)
    (hq : publishes[p]? = some q) (hsound : q'.Sound relays) (hevent : q'.event = q.event)
    (hsettled : q'.settled = true) (hway : q.UnderWay) :
    Accounts relays (publishes.set p q') (pendingAcks.delete q.eventId) := by
  have hid : q'.eventId = q.eventId := by simp only [Publish.eventId, hevent]
  have hnot : ¬q'.Pending := fun hq' => absurd hq'.settled (by simp [hsettled])
  refine ⟨h.sound_set hsound p, fun id i hi => ?_, fun i r hr hr' => ?_,
    h.apart_set fun i r hr hw _ heq => h.apart i p r q hr hq hw hway (heq.trans hid)⟩
  · rw [InsMap.get_delete] at hi
    split at hi
    · cases hi
    · next hne =>
      obtain ⟨r, hr, hpr, hidr⟩ := h.entry id i hi
      have hip : p ≠ i := by
        rintro rfl
        obtain rfl := Option.some.inj (hr.symm.trans hq)
        exact hne hidr.symm
      exact ⟨r, by simpa [hip] using hr, hpr, hidr⟩
  · rcases getElem?_set_cases hr with ⟨rfl, rfl⟩ | ⟨hip, hr⟩
    · exact absurd hr' hnot
    · have hne : r.eventId ≠ q.eventId := fun heq =>
        hip (h.apart i p r q hr hq ((h.get hr).underWay hr') hway heq)
      rw [InsMap.get_delete_of_ne _ hne]
      exact h.registered i r hr hr'

/-- A publish makes its event, while no other of that event is under way. -/
theorem Accounts.make (h : Accounts relays publishes pendingAcks)
    (hq : publishes[p]? = some q) (hnone : q.event = none) (hsound : q'.Sound relays)
    (hpend : q'.Pending)
    (hapart : ∀ r ∈ publishes, r.UnderWay → r.eventId ≠ q'.eventId) :
    Accounts relays (publishes.set p q') (pendingAcks.set q'.eventId p) := by
  have hp : p < publishes.length := (List.getElem?_eq_some_iff.mp hq).1
  refine ⟨h.sound_set hsound p, fun id i hi => ?_, fun i r hr hr' => ?_,
    h.apart_set fun i r hr hw _ heq => absurd heq (hapart r (List.mem_of_getElem? hr) hw)⟩
  · rw [InsMap.get_set] at hi
    split at hi
    · next hid =>
      obtain rfl := Option.some.inj hi
      exact ⟨q', by simp [hp], hpend, hid.symm⟩
    · obtain ⟨r, hr, hpr, hidr⟩ := h.entry id i hi
      have hip : p ≠ i := by
        rintro rfl
        obtain rfl := Option.some.inj (hr.symm.trans hq)
        exact absurd hpr.event (by simp [hnone])
      exact ⟨r, by simpa [hip] using hr, hpr, hidr⟩
  · rcases getElem?_set_cases hr with ⟨rfl, rfl⟩ | ⟨hip, hr⟩
    · exact InsMap.get_set_self ..
    · have hne := hapart r (List.mem_of_getElem? hr) ((h.get hr).underWay hr')
      rw [InsMap.get_set_of_ne _ _ hne]
      exact h.registered i r hr hr'

/-- A new call. -/
theorem Accounts.call (h : Accounts relays publishes pendingAcks) {roomId : JsString}
    {message : Json} {stage : Stage} (hstage : stage.Early) :
    Accounts relays (publishes ++ [.call roomId message stage]) pendingAcks := by
  have hcall : (Publish.call roomId message stage).event.isSome = false := rfl
  -- a publish with an event is not the new one
  have hold : ∀ (i : Nat) (r : Publish),
      (publishes ++ [Publish.call roomId message stage])[i]? = some r →
      r.event.isSome = true → publishes[i]? = some r := by
    intro i r hr hevent
    rcases Nat.lt_or_ge i publishes.length with hi | hi
    · rwa [List.getElem?_append_left hi] at hr
    · have hmem : r ∈ [Publish.call roomId message stage] := by
        rw [List.getElem?_append_right hi] at hr
        exact List.mem_of_getElem? hr
      rw [List.mem_singleton.mp hmem, hcall] at hevent
      cases hevent
  refine ⟨List.forall_mem_append.mpr ⟨h.sound, ?_⟩, fun id i hi => ?_, fun i r hr hr' => ?_, ?_⟩
  · intro r hr
    exact List.mem_singleton.mp hr ▸ Publish.sound_call hstage
  · obtain ⟨r, hr, hpr, hidr⟩ := h.entry id i hi
    have hi := (List.getElem?_eq_some_iff.mp hr).1
    exact ⟨r, by rwa [List.getElem?_append_left hi], hpr, hidr⟩
  · exact h.registered i r (hold i r hr hr'.event) hr'
  · intro i j r₁ r₂ hr₁ hr₂ hw₁ hw₂ heq
    exact h.apart i j r₁ r₂ (hold i r₁ hr₁ hw₁.event) (hold j r₂ hr₂ hw₂.event) hw₁ hw₂ heq

end

namespace NostrSignaling

/-- The publishes of the adapter and its `pendingAcks` agree. -/
def Accounted (s : NostrSignaling) : Prop := Accounts s.relays s.publishes s.pendingAcks

variable {s : NostrSignaling} {p : Nat} {q q' : Publish}

@[simp] theorem setPublish_setPublish (q q' : Publish) :
    (s.setPublish p q).setPublish p q' = s.setPublish p q' := by simp [setPublish]

@[simp] theorem settleAck_setPublish (q q' : Publish) (r : Settlement) :
    (s.setPublish p q).settleAck p q' r = s.settleAck p q' r := by simp [settleAck, setPublish]

@[simp] theorem tryReject_setPublish (q q' : Publish) :
    (s.setPublish p q).tryReject p q' = s.tryReject p q' := by
  simp only [tryReject, setPublish_setPublish, settleAck_setPublish]

theorem tryReject_looping (h : q.loopFinalized = false) :
    s.tryReject p q = (s.setPublish p q, []) := by simp [tryReject, h]

/-! ## The loop over the relays -/

/-- `tryReject` in the place of a publish that was pending. -/
theorem accounted_tryReject (h : s.Accounted) (hq : s.publishes[p]? = some q)
    (hpend : q.Pending) (hsound : q'.Sound s.relays) (hevent : q'.event = q.event)
    (hsettled : q'.settled = q.settled) : (s.tryReject p q').1.Accounted := by
  have hway : q.UnderWay := (h.get hq).underWay hpend
  have hpend' : q'.Pending := ⟨hevent ▸ hpend.event, hsettled ▸ hpend.settled⟩
  have hid : q'.eventId = q.eventId := by simp only [Publish.eventId, hevent]
  unfold tryReject
  split
  · exact Accounts.keep h hq hsound hevent hsettled fun _ => hway
  · next hreject =>
    simp only [hpend'.settled, Bool.false_or, Bool.or_eq_true, Bool.not_eq_true',
      decide_eq_true_eq, not_or, Bool.not_eq_false, Nat.not_lt] at hreject
    have hcounted := hsound.counted.rejected_by_all hpend'.settled hreject.1 hreject.2
      (q'.lastNackMsg.getD (js "all relays nacked"))
    have hplaced := hsound.placed.settle hpend' (.rejected (.nacked
      (q'.lastNackMsg.getD (js "all relays nacked"))))
    simp only [settleAck, hid]
    exact Accounts.drop h hq ⟨hcounted, hplaced⟩ hevent rfl hway

/-- What the loop over the relays is sure of. -/
structure Looping (q : Publish) : Prop where
  event : q.event.isSome = true
  loopFinalized : q.loopFinalized = false
  ack : q.settled = true → ∃ r, q.ack = some r
  unsettled : ∀ r, q.stage ≠ .settled r

theorem looping_of_stage {relays : List JsString} (h : q.Sound relays) {url : JsString}
    {rest : List JsString} (hstage : q.stage = .relays url rest) : Looping q := by
  obtain ⟨hevent, hloop, hack, _⟩ := h.placed.at_relays hstage
  exact ⟨hevent, hloop, hack, by simp [hstage]⟩

theorem accounted_endRelays (h : s.Accounted) (hq : s.publishes[p]? = some q)
    (hloop : Looping q) (hrelays : ∀ u ∈ s.relays, q.Handled u) :
    (s.endRelays p q).1.Accounted := by
  have hcounted := (h.get hq).counted
  have hway : q.UnderWay := ⟨hloop.event, hloop.unsettled⟩
  unfold endRelays
  split
  · next hnone =>
    refine Accounts.drop h hq ?_ rfl rfl hway
    refine ⟨?_, .ended _ rfl hloop.event rfl hrelays (.inr ⟨rfl, hnone⟩)⟩
    exact { hcounted with
      nacked := fun hfalse => by cases hfalse
      open_ := fun hfalse => by cases hfalse }
  · dsimp only
    split
    · next r hack =>
      have hsettled : q.settled = true := by
        by_contra hne
        simp [hcounted.open_ (Bool.eq_false_iff.mpr hne)] at hack
      refine Accounts.keep h hq ?_ rfl rfl fun hw => absurd rfl (hw.unsettled r)
      exact ⟨hcounted.finalize _, .ended r rfl hloop.event hsettled hrelays (.inl hack)⟩
    · next hack =>
      have hsettled : q.settled = false := by
        by_contra hne
        obtain ⟨r, hr⟩ := hloop.ack (Bool.not_eq_false _ ▸ hne)
        simp [hr] at hack
      refine accounted_tryReject h hq ⟨hloop.event, hsettled⟩ ?_ rfl rfl
      exact ⟨hcounted.finalize _, .waiting rfl hloop.event rfl hsettled hrelays⟩

theorem accounted_nextRelay (h : s.Accounted) (hq : s.publishes[p]? = some q)
    (hloop : Looping q) {urls : List JsString}
    (hrelays : ∀ u ∈ s.relays, u ∈ urls ∨ q.Handled u) (ctorOk : Bool) :
    (s.nextRelay p urls ctorOk).1.Accounted := by
  simp only [nextRelay, hq]
  cases urls with
  | nil =>
    refine accounted_endRelays h hq hloop fun u hu => ?_
    exact (hrelays u hu).resolve_left List.not_mem_nil
  | cons url rest =>
    obtain ⟨_, _, _, hw⟩ := callEnsure_writes (s.setPublish p { q with
      stage := .relays url rest }) (.publish p) url ctorOk
    dsimp only
    rw [hw]
    refine Accounts.keep h hq ?_ rfl rfl fun _ => ⟨hloop.event, hloop.unsettled⟩
    refine ⟨{ (h.get hq).counted with }, ?_⟩
    refine .looping url rest rfl hloop.event hloop.loopFinalized hloop.ack fun u hu => ?_
    rcases hrelays u hu with hmem | hhandled
    · exact (List.mem_cons.mp hmem).imp_right .inl
    · exact .inr (.inr hhandled)

theorem eventId_of_event {e : NostrEvent} (h : q.event = some e) : q.eventId = e.id := by
  simp [Publish.eventId, h]

/-- A send that failed counts as a refusal while the acknowledgement is pending. -/
theorem callAck_sendFailed (h : s.Accounted) (hq : s.publishes[p]? = some q) (q' : Publish)
    (hloop : Looping q) (hsettled : q'.settled = q.settled)
    (hfinal : q'.loopFinalized = q.loopFinalized) (msg : JsString) :
    (s.setPublish p q').callAck q.eventId false (some msg) =
      (s.setPublish p (if q.settled then q' else
        { q' with nacked := q'.nacked + 1, lastNackMsg := some msg }), []) := by
  have hget : (s.setPublish p q').publishes[p]? = some q' := publishes_setPublish hq q'
  cases hs : q.settled with
  | true =>
    have hnone : (s.setPublish p q').pendingAcks.get q.eventId = none :=
      Accounts.no_entry h hq ⟨hloop.event, hloop.unsettled⟩ hs
    simp [callAck, hnone]
  | false =>
    have hsome : (s.setPublish p q').pendingAcks.get q.eventId = some p :=
      h.registered p q hq ⟨hloop.event, hs⟩
    simp only [callAck, hsome, finish, hget, hsettled, hs, Bool.false_eq_true, if_false,
      tryReject_setPublish]
    exact tryReject_looping (hfinal.trans hloop.loopFinalized)

/-- The publish goes on in its loop, with one more relay accounted for. -/
structure Onward (url : JsString) (q q' : Publish) : Prop where
  stage : q'.stage = q.stage
  event : q'.event = q.event
  settled : q'.settled = q.settled
  ack : q'.ack = q.ack
  loopFinalized : q'.loopFinalized = q.loopFinalized
  counted : q'.Counted
  handled : ∀ u, u = url ∨ q.Handled u → q'.Handled u

theorem accounted_onward (h : s.Accounted) (hq : s.publishes[p]? = some q) {url : JsString}
    {rest : List JsString} (hstage : q.stage = .relays url rest) (ho : Onward url q q')
    (ctorOk : Bool) : ((s.setPublish p q').nextRelay p rest ctorOk).1.Accounted := by
  have hsound := h.get hq
  have hloop := looping_of_stage hsound hstage
  have hloop' : Looping q' := by
    refine ⟨ho.event ▸ hloop.event, ho.loopFinalized.trans hloop.loopFinalized, ?_,
      ho.stage ▸ hloop.unsettled⟩
    rw [ho.settled, ho.ack]
    exact hloop.ack
  have hrelays : ∀ u ∈ s.relays, u ∈ rest ∨ q'.Handled u := by
    obtain ⟨_, _, _, hrelays⟩ := hsound.placed.at_relays hstage
    intro u hu
    rcases hrelays u hu with heq | hmem | hdone
    · exact .inr (ho.handled u (.inl heq))
    · exact .inl hmem
    · exact .inr (ho.handled u (.inr hdone))
  have hplaced : q'.Placed s.relays :=
    .looping url rest (ho.stage.trans hstage) hloop'.event hloop'.loopFinalized hloop'.ack
      fun u hu => .inr (hrelays u hu)
  have hset : (s.setPublish p q').Accounted :=
    Accounts.keep h hq ⟨ho.counted, hplaced⟩ ho.event ho.settled
      fun _ => ⟨hloop.event, hloop.unsettled⟩
  exact accounted_nextRelay hset (publishes_setPublish hq q') hloop' hrelays ctorOk

theorem accounted_relayResumed (h : s.Accounted) (p : Nat) (sendOk ctorOk : Bool) :
    (s.relayResumed p sendOk ctorOk).1.Accounted := by
  unfold relayResumed
  split
  · next q ws hq _ =>
    have hforget : (s.forget (.publish p)).Accounted := h
    have hq' : (s.forget (.publish p)).publishes[p]? = some q := hq
    have hcounted := (h.get hq).counted
    split
    · next hstage _ _ =>
      refine accounted_onward hforget hq' hstage ?_ ctorOk
      refine ⟨rfl, rfl, rfl, rfl, rfl, { hcounted with }, fun u hu => ?_⟩
      rcases hu with rfl | hu | hu | hu
      · exact .inr (.inr (by simp))
      · exact .inl hu
      · exact .inr (.inl hu)
      · exact .inr (.inr (List.mem_append_left _ hu))
    · next url rest event i hstage hevent _ =>
      have hloop := looping_of_stage (h.get hq) hstage
      dsimp only
      split
      · refine accounted_onward hforget hq' hstage ?_ ctorOk
        refine ⟨rfl, rfl, rfl, rfl, rfl, ?_, fun u hu => ?_⟩
        · refine { hcounted with
            relayCount := ?_
            answered := fun a ha => List.mem_append_left _ (hcounted.answered a ha)
            rejected := ?_ }
          · simp only [hcounted.relayCount, List.length_append, List.length_singleton]
            omega
          · exact fun e he => (hcounted.rejected e he).imp_right fun hr => by
              simp [hloop.loopFinalized] at hr
        · rcases hu with rfl | hu | hu | hu
          · exact .inl (by simp)
          · exact .inl (List.mem_append_left _ hu)
          · exact .inr (.inl hu)
          · exact .inr (.inr hu)
      · have hfailed := callAck_sendFailed hforget hq' { q with
          relayCount := q.relayCount + 1
          sendFailed := q.sendFailed ++ [url] } hloop rfl rfl (js "send failed on " ++ url)
        rw [← eventId_of_event hevent, hfailed]
        refine accounted_onward hforget hq' hstage ?_ ctorOk
        have hhandled : ∀ u, u = url ∨ q.Handled u →
            u ∈ q.contacted ∨ u ∈ q.sendFailed ++ [url] ∨ u ∈ q.unreachable := by
          rintro u (rfl | hu | hu | hu)
          · exact .inr (.inl (by simp))
          · exact .inl hu
          · exact .inr (.inl (List.mem_append_left _ hu))
          · exact .inr (.inr hu)
        have hcount : q.relayCount + 1 = q.contacted.length + (q.sendFailed ++ [url]).length := by
          simp only [hcounted.relayCount, List.length_append, List.length_singleton]
          omega
        by_cases hs : q.settled = true
        · rw [if_pos hs]
          refine ⟨rfl, rfl, rfl, rfl, rfl, ?_, hhandled⟩
          exact { hcounted with
            relayCount := hcount
            nacked := fun hfalse => absurd (hs.symm.trans hfalse) (by simp) }
        · rw [if_neg hs]
          refine ⟨rfl, rfl, rfl, rfl, rfl, ?_, hhandled⟩
          refine { hcounted with relayCount := hcount, nacked := fun hfalse => ?_ }
          have hnacked := hcounted.nacked hfalse
          simp only [Publish.nacks, List.length_append, List.length_singleton] at hnacked ⊢
          omega
    · exact h
  · exact h

/-- The loop goes on in the same way from any stage. -/
theorem nextRelay_restage (hp : p < s.publishes.length) (q : Publish) (stage : Stage)
    (urls : List JsString) (ctorOk : Bool) :
    (s.setPublish p q).nextRelay p urls ctorOk =
      (s.setPublish p { q with stage := stage }).nextRelay p urls ctorOk := by
  have hget : ∀ q : Publish, (s.setPublish p q).publishes[p]? = some q := by
    intro q
    simp [setPublish, hp]
  simp only [nextRelay, hget]
  cases urls with
  | nil => simp only [endRelays, setPublish_setPublish, tryReject_setPublish]; rfl
  | cons url rest => simp only [setPublish_setPublish]

/-! ## The steps -/

/-- What the publish is to carry. -/
def encoded? (q : Publish) : Option JsString :=
  match q.stage with
  | .encoded content => some content
  | _ => none

/-- The answer a message brings: the relay, the event and whether it took it. -/
def answer? (s : NostrSignaling) (i : Nat) (data : JsString) :
    Option (JsString × JsString × Bool) :=
  match s.created[i]?, relayFrame? data with
  | some ⟨url, .opened, _⟩, some (.ok eventId ok _) => some (url, eventId, ok)
  | _, _ => none

/-- No publish of the event that publish `p` makes is under way. -/
def MakesApart (L : Libraries) (s : NostrSignaling) (p now : Nat) : Prop :=
  ∀ q ∈ s.publishes[p]?, ∀ content ∈ encoded? q, ∀ r ∈ s.publishes, r.UnderWay →
    r.eventId ≠ L.eventId (now / 1000) (SENN_TAG_PREFIX ++ q.roomId) content

/-- An answer that counts comes from a relay the publish sent its event to and that
has not refused it before. -/
def AnswersOnce (s : NostrSignaling) (i : Nat) (data : JsString) : Prop :=
  ∀ a ∈ s.answer? i data, ∀ p ∈ s.pendingAcks.get a.2.1, ∀ q ∈ s.publishes[p]?,
    a.1 ∈ q.contacted ∧ (a.2.2 = false → (a.1, false) ∉ q.answers)

def Orderly (L : Libraries) (s : NostrSignaling) : Event → Prop
  | .encodedResumed p now _ => MakesApart L s p now
  | .message i data => AnswersOnce s i data
  | _ => True

instance (L : Libraries) (s : NostrSignaling) (p now : Nat) : Decidable (MakesApart L s p now) := by
  unfold MakesApart
  infer_instance

instance (s : NostrSignaling) (i : Nat) (data : JsString) : Decidable (AnswersOnce s i data) := by
  unfold AnswersOnce
  infer_instance

instance (L : Libraries) (s : NostrSignaling) : ∀ ev, Decidable (Orderly L s ev)
  | .encodedResumed p now _ => inferInstanceAs (Decidable (MakesApart L s p now))
  | .message i data => inferInstanceAs (Decidable (AnswersOnce s i data))
  | .publish _ _ | .subscribe _ _ _ | .unsubscribe _ | .close | .katSettled _ | .katLatched
  | .keySettled _ _ | .katResumed _ | .keyResumed _ _ | .relayResumed _ _ _
  | .requestResumed _ _ | .ackTimeout _ | .socketOpen _ _ | .socketClosing _ | .socketClosed _
  | .decodeKat _ | .decodeKey _ | .dispatch _ => inferInstanceAs (Decidable True)

theorem accounted_addPublish (h : s.Accounted) (roomId : JsString) (message : Json)
    {stage : Stage} (hstage : stage.Early) : (s.addPublish roomId message stage).1.Accounted :=
  Accounts.call h hstage

theorem accounted_publish (h : s.Accounted) (roomId : JsString) (message : Json) :
    (s.publish roomId message).1.Accounted := by
  unfold publish
  split
  · exact accounted_addPublish h _ _ trivial
  · split
    · exact accounted_addPublish h _ _ trivial
    · split <;> exact accounted_addPublish h _ _ trivial

/-- A call that has not made its event goes on to another such stage. -/
theorem accounted_early (h : s.Accounted) (hq : s.publishes[p]? = some q)
    (hstage : q.stage.Early) (hopen : ∀ r, q.stage ≠ .settled r) {stage : Stage}
    (hearly : stage.Early) : (s.setPublish p { q with stage := stage }).Accounted := by
  have hcall := (h.get hq).placed.at_early hstage hopen
  have hnew : { q with stage := stage } = Publish.call q.roomId q.message stage := by
    rw [hcall]
    rfl
  have hevent : (Publish.call q.roomId q.message stage).event = q.event := by rw [hcall]; rfl
  rw [hnew]
  refine Accounts.keep h hq (Publish.sound_call hearly) hevent ?_ fun hw => ?_
  · rw [hcall]
    rfl
  · exact absurd hw.event (by simp [Publish.call])

theorem accounted_katResumed (h : s.Accounted) (p : Nat) : (s.katResumed p).1.Accounted := by
  unfold katResumed
  split
  · next q ok hq _ =>
    split
    · exact h
    · next hne =>
      have hkat : q.stage = .kat := not_not.mp hne
      have hset : ∀ stage : Stage, stage.Early →
          (s.setPublish p { q with stage := stage }).Accounted := fun stage =>
        accounted_early h hq (by simp [hkat, Stage.Early]) (by simp [hkat])
      split
      · obtain ⟨_, hw⟩ := s.getV2RoomKey_writes q.roomId
        have hkey := hset .key trivial
        rw [hw]
        exact hkey
      · exact hset (.settled (.rejected .kat)) trivial
  · exact h

variable (L : Libraries)

theorem accounted_keyResumed (h : s.Accounted) (p : Nat) (nonce : Bytes) :
    (s.keyResumed L p nonce).1.Accounted := by
  unfold keyResumed
  split
  · exact h
  · next q hq =>
    split
    · exact h
    · next hne =>
      have hkey : q.stage = .key := not_not.mp hne
      have hset : ∀ stage : Stage, stage.Early →
          (s.setPublish p { q with stage := stage }).Accounted := fun stage =>
        accounted_early h hq (by simp [hkey, Stage.Early]) (by simp [hkey])
      split
      · split
        · exact hset (.encoded _) trivial
        · exact hset (.settled (.rejected .encrypt)) trivial
      · exact hset (.settled (.rejected .roomKey)) trivial
      · exact h

/-- A publish makes its event and comes to the first relay. -/
theorem accounted_made (h : s.Accounted) {roomId content : JsString} {message : Json}
    (hq : s.publishes[p]? = some (.call roomId message (.encoded content))) (e : NostrEvent)
    (hapart : ∀ r ∈ s.publishes, r.UnderWay → r.eventId ≠ e.id) (ctorOk : Bool) :
    (nextRelay { s.setPublish p { Publish.call roomId message (.encoded content) with
        event := some e
        timer := true } with
      pendingAcks := s.pendingAcks.set e.id p } p s.relays ctorOk).1.Accounted := by
  let t : NostrSignaling := { s with pendingAcks := s.pendingAcks.set e.id p }
  let q : Publish := { Publish.call roomId message (.encoded content) with
    event := some e
    timer := true }
  have hp : p < t.publishes.length := (List.getElem?_eq_some_iff.mp hq).1
  -- as if it had come to a relay before
  have hmade : (t.setPublish p { q with stage := .relays [] s.relays }).Accounted := by
    refine Accounts.make h hq rfl ⟨?_, ?_⟩ ⟨rfl, rfl⟩ hapart
    · exact { Publish.counted_call roomId message (.encoded content) with }
    · refine .looping [] s.relays rfl rfl rfl (fun hfalse => by cases hfalse) fun u hu => ?_
      exact .inr (.inl hu)
  have hget : (t.setPublish p { q with stage := .relays [] s.relays }).publishes[p]? =
      some { q with stage := .relays [] s.relays } := publishes_setPublish (s := t) hq _
  have hloop : Looping { q with stage := .relays [] s.relays } :=
    ⟨rfl, rfl, fun hfalse => (by cases hfalse), fun r hr => (by cases hr)⟩
  have hnext := accounted_nextRelay hmade hget hloop (fun u hu => .inl hu) ctorOk
  rw [← nextRelay_restage hp] at hnext
  exact hnext

theorem accounted_encodedResumed (h : s.Accounted) (p now : Nat) (ctorOk : Bool)
    (ho : Orderly L s (.encodedResumed p now ctorOk)) :
    (s.encodedResumed L p now ctorOk).1.Accounted := by
  unfold encodedResumed
  split
  · exact h
  · next q hq =>
    split
    · next content hstage =>
      obtain ⟨roomId, message, rfl⟩ :
          ∃ roomId message, q = .call roomId message (.encoded content) := by
        have hcall := (h.get hq).placed.at_early (by simp [hstage, Stage.Early]) (by simp [hstage])
        exact ⟨q.roomId, q.message, hstage ▸ hcall⟩
      exact accounted_made h hq _ (ho _ hq content rfl) ctorOk
    · exact h

theorem accounted_ackTimeout (h : s.Accounted) (p : Nat) : (s.ackTimeout p).1.Accounted := by
  unfold ackTimeout
  split
  · exact h
  · next q hq =>
    split
    · exact h
    · next hrun =>
      simp only [Bool.or_eq_true, Bool.not_eq_true', not_or, Bool.not_eq_false,
        Bool.not_eq_true] at hrun
      have hsound := h.get hq
      have hevent : q.event.isSome = true := by
        by_contra hnone
        have hcall := hsound.placed.before_event (by simpa using hnone)
        have htimer : q.timer = false := by rw [hcall]; rfl
        simp [htimer] at hrun
      have hpend : q.Pending := ⟨hevent, hrun.2⟩
      exact Accounts.drop h hq ⟨hsound.counted.reject hpend.settled (.inl rfl),
        hsound.placed.settle hpend _⟩ rfl rfl (hsound.underWay hpend)

theorem noted_iff {eventId : JsString} :
    (q.event.map (fun e => e.id) = some eventId ∧ q.settled = false) ↔
      q.Pending ∧ q.eventId = eventId := by
  cases hevent : q.event with
  | none =>
    refine ⟨fun hnone => by simp at hnone, fun hq => absurd hq.1.event (by simp [hevent])⟩
  | some e =>
    simp only [Publish.eventId, hevent, Option.map_some, Option.getD_some, Option.some.injEq]
    constructor
    · exact fun hq => ⟨⟨by simp [hevent], hq.2⟩, hq.1⟩
    · exact fun hq => ⟨hq.2, hq.1.settled⟩

/-- An answer is noted with the publish that has the entry, and with no other. -/
theorem noteAnswer_eq (h : s.Accounted) {eventId : JsString} (url : JsString) (ok : Bool)
    (hq : s.publishes[p]? = some q) (hpend : q.Pending) (hid : q.eventId = eventId) :
    s.noteAnswer url eventId ok =
      s.setPublish p { q with answers := q.answers ++ [(url, ok)] } := by
  have hp : p < s.publishes.length := (List.getElem?_eq_some_iff.mp hq).1
  have hpublishes : (s.noteAnswer url eventId ok).publishes =
      s.publishes.set p { q with answers := q.answers ++ [(url, ok)] } := by
    refine List.ext_getElem? fun i => ?_
    simp only [noteAnswer, List.getElem?_map, List.getElem?_set, hp]
    by_cases hpi : p = i
    · subst hpi
      have hnoted := noted_iff.mpr ⟨hpend, hid⟩
      simp only [hq, Option.map_some, if_pos hnoted, if_true]
    · cases hr : s.publishes[i]? with
      | none => simp [hpi]
      | some r =>
        have hnot : ¬(r.event.map (fun e => e.id) = some eventId ∧ r.settled = false) := by
          intro hnoted
          obtain ⟨hpr, hidr⟩ := noted_iff.mp hnoted
          exact hpi (h.apart p i q r hq hr ((h.get hq).underWay hpend) ((h.get hr).underWay hpr)
            (hid.trans hidr.symm))
        simp only [Option.map_some, if_neg hnot, if_neg hpi]
  simp only [noteAnswer, setPublish] at hpublishes ⊢
  rw [hpublishes]

theorem noteAnswer_none (h : s.Accounted) {eventId : JsString} (url : JsString) (ok : Bool)
    (hget : s.pendingAcks.get eventId = none) : s.noteAnswer url eventId ok = s := by
  have hpublishes : (s.noteAnswer url eventId ok).publishes = s.publishes := by
    refine (List.map_congr_left fun r hr => if_neg fun hnoted => ?_).trans (List.map_id _)
    obtain ⟨hpr, hid⟩ := noted_iff.mp hnoted
    obtain ⟨i, hi⟩ := List.mem_iff_getElem?.mp hr
    have hentry := h.registered i r hi hpr
    simp [hid, hget] at hentry
  simp only [noteAnswer] at hpublishes ⊢
  rw [hpublishes]

/-- A relay answers to an event that a publish waits with. -/
theorem accounted_answer (h : s.Accounted) (hq : s.publishes[p]? = some q) (hpend : q.Pending)
    {url : JsString} {ok : Bool} (hurl : url ∈ q.contacted)
    (hfresh : ok = false → (url, false) ∉ q.answers) (msg : Option JsString) :
    ((s.setPublish p { q with answers := q.answers ++ [(url, ok)] }).callAck
      q.eventId ok msg).1.Accounted := by
  have hsound := h.get hq
  have hentry : (s.setPublish p { q with answers := q.answers ++ [(url, ok)] }).pendingAcks.get
      q.eventId = some p := h.registered p q hq hpend
  have hget := publishes_setPublish hq { q with answers := q.answers ++ [(url, ok)] }
  have hplaced := hsound.placed.noted hpend (q.answers ++ [(url, ok)])
  have hopen : ¬q.settled = true := by simp [hpend.settled]
  simp only [callAck, hentry, finish, hget, if_neg hopen, settleAck_setPublish,
    tryReject_setPublish]
  cases ok with
  | true =>
    have hsettled := (hplaced q.nacked q.lastNackMsg).settle ⟨hpend.event, hpend.settled⟩ .resolved
    have hdrop := Accounts.drop h hq ⟨hsound.counted.acked hurl, hsettled⟩ rfl rfl
      (hsound.underWay hpend)
    exact hdrop
  | false =>
    have hcounted := hsound.counted.nacked_once hpend hurl (hfresh rfl) (msg.or q.lastNackMsg)
    exact accounted_tryReject h hq hpend ⟨hcounted, hplaced _ _⟩ rfl rfl

theorem accounted_onRelayMessage (h : s.Accounted) (i : Nat) (data : JsString)
    (ho : Orderly L s (.message i data)) : (s.onRelayMessage i data).1.Accounted := by
  unfold onRelayMessage
  split
  · next url closeCalled frame hi hframe =>
    split
    · obtain ⟨_, _, hw⟩ := s.handleEvent_writes _ _
      rw [hw]
      exact h
    · next eventId ok msg =>
      cases hentry : s.pendingAcks.get eventId with
      | none =>
        rw [noteAnswer_none h url ok hentry]
        simpa only [callAck, hentry] using h
      | some p =>
        obtain ⟨q, hq, hpend, hid⟩ := h.entry eventId p hentry
        have hanswer : s.answer? i data = some (url, eventId, ok) := by
          simp only [answer?, hi, hframe]
        obtain ⟨hurl, hfresh⟩ := ho _ hanswer p hentry q hq
        rw [noteAnswer_eq h url ok hq hpend hid, ← hid]
        exact accounted_answer h hq hpend hurl hfresh msg
  · exact h

theorem step_accounted (h : s.Accounted) (ev : Event) (ho : Orderly L s ev) :
    (step L s ev).1.Accounted := by
  by_cases hev : OnPublishes ev
  · cases ev with
    | publish roomId message => exact accounted_publish h roomId message
    | katResumed p => exact accounted_katResumed h p
    | keyResumed p nonce => exact accounted_keyResumed L h p nonce
    | encodedResumed p now ctorOk => exact accounted_encodedResumed L h p now ctorOk ho
    | relayResumed p sendOk ctorOk => exact accounted_relayResumed h p sendOk ctorOk
    | ackTimeout p => exact accounted_ackTimeout h p
    | message i data => exact accounted_onRelayMessage L h i data ho
    | _ => exact hev.elim
  · obtain ⟨hpublishes, hpending⟩ := s.step_publishes L hev
    rw [Accounted, (s.step_keeps L ev).relays, hpublishes, hpending]
    exact h

end NostrSignaling

/-! ## Over a run -/

namespace Publish

variable {relays : List JsString} {q : Publish}

/-- The acknowledgement of the publish timed out. -/
def TimedOut (q : Publish) : Prop := q.ack = some (.rejected .ackTimeout)

/-- A relay that was sent the event acknowledged it. -/
def Acked (q : Publish) : Prop := ∃ url ∈ q.contacted, (url, true) ∈ q.answers

/-- The relay was unreachable, could not be sent the event or refused it. -/
def Failed (q : Publish) (url : JsString) : Prop :=
  url ∈ q.unreachable ∨ url ∈ q.sendFailed ∨ (url, false) ∈ q.answers

instance (q : Publish) : Decidable q.TimedOut :=
  inferInstanceAs (Decidable (q.ack = some (.rejected .ackTimeout)))

instance (q : Publish) (url : JsString) : Decidable (q.Failed url) :=
  inferInstanceAs (Decidable (url ∈ q.unreachable ∨ url ∈ q.sendFailed ∨ (url, false) ∈ q.answers))

theorem Sound.resolved_acked (h : q.Sound relays) (hstage : q.stage = .settled .resolved) :
    q.Acked := by
  have hevent : q.event.isSome = true := by
    cases h.placed with
    | early _ hearly => exact (hstage ▸ hearly).elim
    | looping _ _ _ hevent _ _ _ => exact hevent
    | waiting _ hevent _ _ _ => exact hevent
    | ended _ _ hevent _ _ _ => exact hevent
  obtain ⟨_, _, hack | ⟨hne, _⟩⟩ := h.placed.at_settled hevent hstage
  · obtain ⟨url, hurl⟩ := h.counted.resolved hack
    exact ⟨url, h.counted.answered _ hurl, hurl⟩
  · cases hne

theorem Sound.acked_resolves (h : q.Sound relays) (hq : q.Acked) :
    q.stage = .settled .resolved ∨ ∃ url rest, q.stage = .relays url rest := by
  obtain ⟨url, hurl, hanswer⟩ := hq
  have hack : q.ack = some .resolved := by
    by_contra hne
    exact Bool.noConfusion (h.counted.refused hne _ hanswer)
  cases h.placed with
  | early hcall _ =>
    rw [hcall] at hanswer
    cases hanswer
  | looping url' rest hstage _ _ _ _ => exact .inr ⟨url', rest, hstage⟩
  | waiting _ _ _ hsettled _ => simp [h.counted.open_ hsettled] at hack
  | ended r hr _ _ _ hor =>
    rcases hor with hr' | ⟨_, hzero⟩
    · obtain rfl := Option.some.inj (hack.symm.trans hr')
      exact .inl hr
    · exact absurd hzero (h.counted.relayCount_ne_zero hurl)

theorem Sound.rejected_failed (h : q.Sound relays) (ht : ¬q.TimedOut)
    (hevent : q.event.isSome = true) {e : NostrError} (hstage : q.stage = .settled (.rejected e)) :
    ∀ url ∈ relays, q.Failed url := by
  intro url hurl
  obtain ⟨_, hrelays, hor⟩ := h.placed.at_settled hevent hstage
  rcases hrelays url hurl with hcontacted | hsend | hnone
  · rcases hor with hack | ⟨_, hzero⟩
    · rcases h.counted.rejected e hack with rfl | ⟨_, hall⟩
      · exact absurd hack ht
      · exact .inr (.inr (hall url hcontacted))
    · exact absurd hzero (h.counted.relayCount_ne_zero hcontacted)
  · exact .inr (.inl hsend)
  · exact .inl hnone

end Publish

namespace NostrSignaling

variable {s : NostrSignaling} {p : Nat} {q : Publish}

/-- A run's publishes settle as their relays answered: a publish resolves exactly
where a relay it was sent to acknowledges in time, once its loop is over; one that has not
timed out is rejected only where every relay failed; it settles once, and has no
entry then. -/
structure FairlySettled (s : NostrSignaling) (outs : List Out) : Prop where
  resolved : ∀ p q, s.publishes[p]? = some q → .settled p .resolved ∈ outs → q.Acked
  resolves : ∀ p q, s.publishes[p]? = some q → q.Acked →
    .settled p .resolved ∈ outs ∨ ∃ url rest, q.stage = .relays url rest
  rejected : ∀ p q e, s.publishes[p]? = some q → ¬q.TimedOut → q.event.isSome = true →
    .settled p (.rejected e) ∈ outs → ∀ url ∈ s.relays, q.Failed url
  once : ∀ p, (settlements p outs).length ≤ 1
  entries : ∀ id p, s.pendingAcks.get id = some p → settlements p outs = []

theorem Accounted.init (relays : List JsString) (v2 : Bool) :
    (NostrSignaling.new relays v2).Accounted := by
  refine ⟨?_, ?_, ?_, ?_⟩ <;> simp [new]

theorem mem_outcome {r : Settlement} (hq : s.publishes[p]? = some q) :
    r ∈ s.outcome p ↔ q.stage = .settled r := by
  rw [outcome_get hq, Publish.outcome]
  split
  · next r' hr => simp [hr, eq_comm]
  · next hnone => simpa using hnone r

theorem Accounted.fairly (h : s.Accounted) {outs : List Out}
    (hreport : ∀ p, s.outcome p = settlements p outs) : FairlySettled s outs := by
  have hmem : ∀ p q r, s.publishes[p]? = some q →
      (.settled p r ∈ outs ↔ q.stage = .settled r) := by
    intro p q r hq
    rw [← mem_settlements, ← hreport, mem_outcome hq]
  refine ⟨?_, ?_, ?_, fun p => ?_, fun id p hentry => ?_⟩
  · exact fun p q hq hout => (h.get hq).resolved_acked ((hmem p q _ hq).mp hout)
  · exact fun p q hq hacked => ((h.get hq).acked_resolves hacked).imp_left (hmem p q _ hq).mpr
  · exact fun p q e hq ht hevent hout =>
      (h.get hq).rejected_failed ht hevent ((hmem p q _ hq).mp hout)
  · rw [← hreport, NostrSignaling.outcome]
    cases s.publishes[p]? with
    | none => exact Nat.zero_le 1
    | some q =>
      simp only [Option.map_some, Option.getD_some, Publish.outcome]
      split <;> simp
  · obtain ⟨q, hq, hpend, _⟩ := h.entry id p hentry
    refine List.eq_nil_iff_forall_not_mem.mpr fun r hr => ?_
    rw [← hreport, mem_outcome hq] at hr
    exact ((h.get hq).underWay hpend).unsettled r hr

/-- In every state of a run whose steps are orderly, the publishes have settled
fairly. -/
theorem orderly_settles (L : Libraries) (relays : List JsString) (v2Enabled : Bool)
    (evs : List Event) (h : Machine.Guarded (step L) (Orderly L) (.new relays v2Enabled) evs) :
    ∀ pre, pre <+: evs →
      FairlySettled (Machine.after (step L) (.new relays v2Enabled) pre)
        (Machine.outputs (step L) (.new relays v2Enabled) pre) := by
  rintro pre ⟨post, rfl⟩
  have hguarded := (Machine.guarded_append.mp h).1
  have haccounted := Machine.guarded_inv (P := Accounted)
    (fun s ev hs ho => step_accounted L hs ev ho)
    (Accounted.init relays v2Enabled) hguarded
  refine haccounted.fairly fun p => ?_
  rw [(run_reports L pre).outcome p]
  rfl

/-- A publish of a message to two relays, which both take the event. -/
def sentToTwo : List Event :=
  [.publish (js "room") (.obj [(js "kind", .str (js "bye")), (js "from", .str (js "alice"))]),
    .encodedResumed 0 0 true, .socketOpen 0 none, .relayResumed 0 true true,
    .socketOpen 1 none, .relayResumed 0 true true]

def okFrame (ok : Bool) : JsString :=
  js "[\"OK\",\"e0\"," ++ (if ok then js "true" else js "false") ++ js ",\"\"]"

def refusedOnce : List Event := sentToTwo ++ [.message 0 (okFrame false), .message 1 (okFrame true)]

def refusedTwice : List Event :=
  sentToTwo ++ [.message 0 (okFrame false), .message 0 (okFrame false)]

def twoRelays : NostrSignaling := .new [js "wss://a", js "wss://b"] false

theorem refusedOnce_settles :
    Machine.Guarded (step oneId) (Orderly oneId) twoRelays refusedOnce ∧
      FairlySettled (Machine.after (step oneId) twoRelays refusedOnce)
        (Machine.outputs (step oneId) twoRelays refusedOnce) := by
  have hguarded : Machine.Guarded (step oneId) (Orderly oneId) twoRelays refusedOnce := by
    decide +kernel
  exact ⟨hguarded, orderly_settles oneId _ false refusedOnce hguarded refusedOnce List.prefix_rfl⟩

/-- One relay that refuses an event twice counts as two, so the publish is rejected
although the other relay has not answered. -/
theorem refused_twice_rejects :
    ¬FairlySettled (Machine.after (step oneId) twoRelays refusedTwice)
      (Machine.outputs (step oneId) twoRelays refusedTwice) := by
  intro h
  have hpublish : ∃ q ∈ (Machine.after (step oneId) twoRelays refusedTwice).publishes[0]?,
      ¬q.TimedOut ∧ q.event.isSome = true ∧ ¬q.Failed (js "wss://b") := by decide +kernel
  have hout : Settlement.rejected (.nacked []) ∈
      settlements 0 (Machine.outputs (step oneId) twoRelays refusedTwice) := by decide +kernel
  obtain ⟨q, hq, ht, hevent, hnot⟩ := hpublish
  have hrelay : js "wss://b" ∈ (Machine.after (step oneId) twoRelays refusedTwice).relays := by
    decide +kernel
  exact hnot (h.rejected 0 q _ hq ht hevent (mem_settlements.mp hout) _ hrelay)

end NostrSignaling

end Senn.Nostr

import Senn.Nostr.Writes
import Senn.Lib.Machine

/-! # Settlements

A publish has settled to at most one outcome, the one its call waits at no longer;
a step puts out a settlement where it brings a publish to that place, so a run puts
out each publish's outcome once. -/

namespace Senn.Nostr
open Senn.Js Senn.Lib

/-- What the output says about publish `p`. -/
def Out.settlement? (p : Nat) : Out → Option Settlement
  | .settled i r => if i = p then some r else none
  | _ => none

/-- The settlements of publish `p` among the outputs. -/
def settlements (p : Nat) (outs : List Out) : List Settlement := outs.filterMap (Out.settlement? p)

/-- What the publish has settled to. -/
def Publish.outcome (q : Publish) : List Settlement :=
  match q.stage with
  | .settled r => [r]
  | _ => []

@[simp] theorem settlements_nil (p : Nat) : settlements p [] = [] := rfl

@[simp] theorem settlements_append (p : Nat) (os ps : List Out) :
    settlements p (os ++ ps) = settlements p os ++ settlements p ps := List.filterMap_append

theorem mem_settlements {p : Nat} {r : Settlement} {outs : List Out} :
    r ∈ settlements p outs ↔ .settled p r ∈ outs := by
  rw [settlements, List.mem_filterMap]
  constructor
  · rintro ⟨o, ho, hr⟩
    cases o with
    | settled i r' =>
      simp only [Out.settlement?] at hr
      split at hr
      · next hi => exact hi ▸ Option.some.inj hr ▸ ho
      · cases hr
    | _ => cases hr
  · exact fun h => ⟨_, h, by simp [Out.settlement?]⟩

theorem Idle.settlements {outs : List Out} (h : Idle outs) (p : Nat) :
    settlements p outs = [] := by
  refine List.filterMap_eq_nil_iff.mpr fun o ho => ?_
  have hidle := h.all o ho
  cases o with
  | settled i r => exact hidle.elim
  | _ => rfl

namespace NostrSignaling

/-- What publish `p` has settled to, if it was ever called. -/
def outcome (s : NostrSignaling) (p : Nat) : List Settlement :=
  (s.publishes[p]?.map Publish.outcome).getD []

/-- The outputs settle the publishes that the step settles, and no other. -/
structure Reports (s : NostrSignaling) (r : NostrSignaling × List Out) : Prop where
  outcome : ∀ p, r.1.outcome p = s.outcome p ++ settlements p r.2

variable {s : NostrSignaling}

theorem outcome_congr {s' : NostrSignaling} (h : s'.publishes = s.publishes) (p : Nat) :
    s'.outcome p = s.outcome p := by rw [outcome, outcome, h]

theorem outcome_get {p : Nat} {q : Publish} (hq : s.publishes[p]? = some q) :
    s.outcome p = q.outcome := by simp [outcome, hq]

theorem outcome_setPublish {p : Nat} {q₀ : Publish} (hq : s.publishes[p]? = some q₀)
    (q : Publish) (i : Nat) :
    (s.setPublish p q).outcome i = if p = i then q.outcome else s.outcome i := by
  have hp := (List.getElem?_eq_some_iff.mp hq).1
  simp only [outcome, setPublish, List.getElem?_set, hp]
  split
  · next h =>
    subst h
    simp
  · rfl

/-- Outputs that settle no publish, of a step that leaves the publishes alone. -/
theorem Reports.quiet {r : NostrSignaling × List Out} (h : r.1.publishes = s.publishes)
    (hout : ∀ p, settlements p r.2 = []) : Reports s r :=
  ⟨fun p => by rw [outcome_congr h, hout, List.append_nil]⟩

/-- A publish that changes and stays as unsettled as it was. -/
theorem Reports.keep {p : Nat} {q₀ q : Publish} (hq : s.publishes[p]? = some q₀)
    (h : q.outcome = q₀.outcome) : Reports s (s.setPublish p q, []) := by
  refine ⟨fun i => ?_⟩
  rw [settlements_nil, List.append_nil, outcome_setPublish hq]
  split
  · next hi => rw [h, ← hi, outcome_get hq]
  · rfl

/-- A publish that settles. -/
theorem Reports.settle {p : Nat} {q₀ q : Publish} {r : Settlement}
    (hq : s.publishes[p]? = some q₀) (h₀ : q₀.outcome = []) (h : q.stage = .settled r) :
    Reports s (s.setPublish p q, [.settled p r]) := by
  refine ⟨fun i => ?_⟩
  rw [outcome_setPublish hq]
  split
  · next hi =>
    subst hi
    rw [outcome_get hq, h₀]
    simp [Publish.outcome, h, settlements, Out.settlement?]
  · next hi => simp [settlements, Out.settlement?, hi]

theorem Reports.trans {s₁ s₂ : NostrSignaling} {os ps : List Out} (h₁ : Reports s (s₁, os))
    (h₂ : Reports s₁ (s₂, ps)) : Reports s (s₂, os ++ ps) := by
  refine ⟨fun i => ?_⟩
  rw [h₂.outcome i, h₁.outcome i, settlements_append, List.append_assoc]

theorem Reports.send {r : NostrSignaling × List Out} (h : Reports s r) (i : Nat) (f : Frame) :
    Reports s (r.1, .send i f :: r.2) := ⟨h.outcome⟩

theorem reports_settleAck {p : Nat} {q₀ q : Publish} (hq : s.publishes[p]? = some q₀)
    (hstage : q.outcome = q₀.outcome) (r : Settlement) : Reports s (s.settleAck p q r) := by
  by_cases hack : q.stage = .ack
  · have h₀ : q₀.outcome = [] := by
      rw [← hstage]
      simp [Publish.outcome, hack]
    have hsettled : (q.settle r).stage = .settled r := by simp [Publish.settle, hack]
    have h := Reports.settle hq h₀ hsettled
    simp only [settleAck, if_pos hack]
    exact ⟨h.outcome⟩
  · have houtcome : (q.settle r).outcome = q₀.outcome := by
      rw [← hstage]
      simp only [Publish.outcome, Publish.settle, if_neg hack]
    have h := Reports.keep hq houtcome
    simp only [settleAck, if_neg hack]
    exact ⟨h.outcome⟩

theorem reports_tryReject {p : Nat} {q₀ q : Publish} (hq : s.publishes[p]? = some q₀)
    (hstage : q.outcome = q₀.outcome) : Reports s (s.tryReject p q) := by
  unfold tryReject
  split
  · exact .keep hq hstage
  · exact reports_settleAck hq hstage _

theorem reports_callAck (eventId : JsString) (ok : Bool) (msg : Option JsString) :
    Reports s (s.callAck eventId ok msg) := by
  unfold callAck
  split
  · exact .quiet rfl fun _ => rfl
  · unfold finish
    split
    · exact .quiet rfl fun _ => rfl
    · next q hq =>
      split
      · exact .quiet rfl fun _ => rfl
      · split
        · exact reports_settleAck hq rfl _
        · exact reports_tryReject hq rfl

theorem reports_endRelays {p : Nat} {q : Publish} (hq : s.publishes[p]? = some q)
    (hopen : q.outcome = []) : Reports s (s.endRelays p q) := by
  unfold endRelays
  split
  · have h := Reports.settle (q := { q with
      settled := true
      timer := false
      stage := .settled (.rejected .noReachableRelay) }) hq hopen rfl
    exact ⟨h.outcome⟩
  · dsimp only
    split
    · exact .settle hq hopen rfl
    · exact reports_tryReject hq (hopen ▸ rfl)

theorem reports_nextRelay {p : Nat} {q : Publish} (hq : s.publishes[p]? = some q)
    (hopen : q.outcome = []) (urls : List JsString) (ctorOk : Bool) :
    Reports s (s.nextRelay p urls ctorOk) := by
  simp only [nextRelay, hq]
  split
  · exact reports_endRelays hq hopen
  · next url rest =>
    have hkeep := Reports.keep (q := { q with stage := .relays url rest }) hq (hopen ▸ rfl)
    exact hkeep.trans (.quiet (callEnsure_publishes ..) (callEnsure_idle ..).settlements)

/-- An answer leaves a publish that does not wait for it where it is. -/
theorem callAck_stage {p : Nat} {q : Publish} (hq : s.publishes[p]? = some q)
    (hstage : q.stage ≠ .ack) (eventId : JsString) (ok : Bool) (msg : Option JsString) :
    ∃ q', (s.callAck eventId ok msg).1.publishes[p]? = some q' ∧ q'.stage = q.stage := by
  have hset : ∀ (i : Nat) (q₀ q' : Publish), s.publishes[i]? = some q₀ →
      (q₀.stage ≠ .ack → q'.stage = q₀.stage) →
      ∃ q'', (s.setPublish i q').publishes[p]? = some q'' ∧ q''.stage = q.stage := by
    intro i q₀ q' hi hstage'
    by_cases hpi : i = p
    · subst hpi
      obtain rfl := Option.some.inj (hi.symm.trans hq)
      exact ⟨q', publishes_setPublish hi q', hstage' hstage⟩
    · exact ⟨q, by simpa [setPublish, hpi] using hq, rfl⟩
  unfold callAck
  split
  · exact ⟨q, hq, rfl⟩
  · next i _ =>
    unfold finish
    split
    · exact ⟨q, hq, rfl⟩
    · next q₀ hi =>
      split
      · exact ⟨q, hq, rfl⟩
      · split
        · exact hset i q₀ _ hi (fun h => by simp [Publish.settle, h])
        · unfold tryReject
          split
          · exact hset i q₀ _ hi (fun h => rfl)
          · exact hset i q₀ _ hi (fun h => by simp [Publish.settle, h])

theorem reports_relayResumed (p : Nat) (sendOk ctorOk : Bool) :
    Reports s (s.relayResumed p sendOk ctorOk) := by
  unfold relayResumed
  split
  · next q ws hq _ =>
    have hforget : Reports s (s.forget (.publish p), []) := .quiet rfl fun _ => rfl
    have hq' : (s.forget (.publish p)).publishes[p]? = some q := hq
    -- what the loop does next starts with a change of the publish that settles nothing
    have hkeep : ∀ q' : Publish, q'.stage = q.stage →
        Reports s ((s.forget (.publish p)).setPublish p q', []) := by
      intro q' hstage
      have hsame : q'.outcome = q.outcome := by simp only [Publish.outcome, hstage]
      exact hforget.trans (.keep hq' hsame)
    have hnext : ∀ q' : Publish, q'.stage = q.stage → q.outcome = [] → ∀ rest,
        Reports s (((s.forget (.publish p)).setPublish p q').nextRelay p rest ctorOk) := by
      intro q' hstage hopen rest
      have hopen' : q'.outcome = [] := by simpa only [Publish.outcome, hstage] using hopen
      exact (hkeep q' hstage).trans
        (reports_nextRelay (publishes_setPublish hq' q') hopen' rest ctorOk)
    split
    · next hstage _ _ =>
      have hopen : q.outcome = [] := by simp [Publish.outcome, hstage]
      refine hnext _ ?_ hopen _
      rfl
    · next url rest event i hstage _ _ =>
      have hopen : q.outcome = [] := by simp [Publish.outcome, hstage]
      dsimp only
      split
      · refine (hnext _ ?_ hopen _).send _ _
        rfl
      · have hack := (hkeep { q with
            relayCount := q.relayCount + 1
            sendFailed := q.sendFailed ++ [url] } rfl).trans
          (reports_callAck event.id false (some (js "send failed on " ++ url)))
        obtain ⟨q', hq', hstage'⟩ := callAck_stage (publishes_setPublish hq' { q with
            relayCount := q.relayCount + 1
            sendFailed := q.sendFailed ++ [url] }) (by simp [hstage]) event.id false
          (some (js "send failed on " ++ url))
        have hopen' : q'.outcome = [] := by simp [Publish.outcome, hstage', hstage]
        exact (hack.send i (.event event)).trans (reports_nextRelay hq' hopen' rest ctorOk)
    · exact .quiet rfl fun _ => rfl
  · exact .quiet rfl fun _ => rfl

theorem reports_addPublish (roomId : JsString) (message : Json) (stage : Stage) :
    Reports s (s.addPublish roomId message stage) := by
  refine ⟨fun i => ?_⟩
  have hout : settlements i (s.addPublish roomId message stage).2 =
      if s.publishes.length = i then (Publish.call roomId message stage).outcome else [] := by
    simp only [addPublish, Publish.outcome, Publish.call]
    split
    · simp only [settlements, List.filterMap_cons, Out.settlement?, List.filterMap_nil]
      split <;> simp_all
    · simp
  rw [hout]
  simp only [outcome, addPublish]
  rcases Nat.lt_trichotomy i s.publishes.length with hi | rfl | hi
  · simp [List.getElem?_append_left hi, Nat.ne_of_gt hi]
  · simp
  · have hlen : (s.publishes ++ [Publish.call roomId message stage]).length ≤ i := by simpa using hi
    simp [List.getElem?_eq_none hlen, List.getElem?_eq_none (Nat.le_of_lt hi), Nat.ne_of_lt hi]

theorem reports_publish (roomId : JsString) (message : Json) :
    Reports s (s.publish roomId message) := by
  unfold publish
  split
  · exact reports_addPublish ..
  · split
    · exact reports_addPublish ..
    · split <;> exact reports_addPublish ..

theorem reports_katResumed (p : Nat) : Reports s (s.katResumed p) := by
  unfold katResumed
  split
  · next q ok hq _ =>
    split
    · exact .quiet rfl fun _ => rfl
    · next hstage =>
      have hkat : q.stage = .kat := not_not.mp hstage
      have hopen : q.outcome = [] := by simp [Publish.outcome, hkat]
      split
      · obtain ⟨v2RoomKeys, hw⟩ := s.getV2RoomKey_writes q.roomId
        have hkeep := Reports.keep (q := { q with stage := .key }) hq (hopen ▸ rfl)
        rw [hw]
        exact ⟨hkeep.outcome⟩
      · exact .settle hq hopen rfl
  · exact .quiet rfl fun _ => rfl

theorem reports_ackTimeout (p : Nat) : Reports s (s.ackTimeout p) := by
  unfold ackTimeout
  split
  · exact .quiet rfl fun _ => rfl
  · next q hq =>
    split
    · exact .quiet rfl fun _ => rfl
    · exact reports_settleAck hq rfl _

theorem reports_onRelayMessage (i : Nat) (data : JsString) :
    Reports s (s.onRelayMessage i data) := by
  unfold onRelayMessage
  split
  · next url _ frame _ _ =>
    split
    · exact .quiet (handleEvent_publishes ..) fun _ => rfl
    · next eventId ok msg _ =>
      have hnote : Reports s (s.noteAnswer url eventId ok, []) := by
        refine ⟨fun p => ?_⟩
        simp only [outcome, noteAnswer, List.getElem?_map, settlements_nil, List.append_nil,
          Option.map_map]
        congr 2
        funext q
        simp only [Function.comp_apply]
        split <;> rfl
      exact hnote.trans (reports_callAck eventId ok msg)
  · exact .quiet rfl fun _ => rfl

theorem settlements_dispatch (d p : Nat) : settlements p (s.dispatch d).2 = [] := by
  unfold dispatch
  split
  · split <;> rfl
  · split <;> rfl
  · rfl

variable (L : Libraries)

theorem reports_keyResumed (p : Nat) (nonce : Bytes) : Reports s (s.keyResumed L p nonce) := by
  unfold keyResumed
  split
  · exact .quiet rfl fun _ => rfl
  · next q hq =>
    split
    · exact .quiet rfl fun _ => rfl
    · next hstage =>
      have hkey : q.stage = .key := not_not.mp hstage
      have hopen : q.outcome = [] := by simp [Publish.outcome, hkey]
      split
      · split
        · exact .keep hq (hopen ▸ rfl)
        · exact .settle hq hopen rfl
      · exact .settle hq hopen rfl
      · exact .quiet rfl fun _ => rfl

theorem reports_encodedResumed (p now : Nat) (ctorOk : Bool) :
    Reports s (s.encodedResumed L p now ctorOk) := by
  unfold encodedResumed
  split
  · exact .quiet rfl fun _ => rfl
  · next q hq =>
    split
    · next content hstage =>
      have hopen : q.outcome = [] := by simp [Publish.outcome, hstage]
      -- the publish takes its event without settling
      have hmake : ∀ q' : Publish, q'.stage = q.stage → ∀ pendingAcks, Reports s
          (nextRelay { s.setPublish p q' with pendingAcks := pendingAcks } p s.relays ctorOk) := by
        intro q' hstage' pendingAcks
        have hsame : q'.outcome = q.outcome := by simp only [Publish.outcome, hstage']
        have hkeep : Reports s ({ s.setPublish p q' with pendingAcks := pendingAcks }, []) :=
          ⟨(Reports.keep hq hsame).outcome⟩
        have hget : { s.setPublish p q' with pendingAcks := pendingAcks }.publishes[p]? = some q' :=
          publishes_setPublish hq q'
        exact hkeep.trans (reports_nextRelay hget (hsame.trans hopen) _ _)
      refine hmake _ ?_ _
      rfl
    · exact .quiet rfl fun _ => rfl

/-- Every step puts out the settlements it makes. -/
theorem step_reports (ev : Event) : Reports s (step L s ev) := by
  by_cases hev : OnPublishes ev
  · cases ev with
    | publish roomId message => exact reports_publish roomId message
    | katResumed p => exact reports_katResumed p
    | keyResumed p nonce => exact reports_keyResumed L p nonce
    | encodedResumed p now ctorOk => exact reports_encodedResumed L p now ctorOk
    | relayResumed p sendOk ctorOk => exact reports_relayResumed p sendOk ctorOk
    | ackTimeout p => exact reports_ackTimeout p
    | message i data => exact reports_onRelayMessage i data
    | _ => exact hev.elim
  · refine .quiet (s.step_publishes L hev).1 fun p => ?_
    by_cases hdispatch : ∃ d, ev = .dispatch d
    · obtain ⟨d, rfl⟩ := hdispatch
      exact settlements_dispatch d p
    · exact (s.step_idle L hev fun d hd => hdispatch ⟨d, hd⟩).settlements p

/-- A run puts out the settlements it makes. -/
theorem run_reports (evs : List Event) :
    Reports s (Machine.after (step L) s evs, Machine.outputs (step L) s evs) := by
  induction evs generalizing s with
  | nil => exact .quiet rfl fun _ => rfl
  | cons ev evs ih => exact (step_reports L ev).trans ih

end NostrSignaling

end Senn.Nostr

import Senn.UrlFragment.Delivery

/-! # Subscriptions of `UrlFragmentSignaling`

The adapter as a client of `Senn.Lib.Rounds`: an import goes over the handlers of its room in
a round for each of its messages. -/

namespace Senn.UrlFragment
open Senn.Js Senn.Lib Senn.Lib.Machine Senn.Lib.Subscriptions Senn.Protocol

/-- The round of an import over the handlers. -/
def ImportStage.round : ImportStage → Option (Round JsString Nat)
  | .dispatching roomId i _ _ (some (_, todo)) => some ⟨roomId, i, todo⟩
  | _ => none

/-- The import comes to its next message. -/
def ImportStage.begins : ImportStage → Bool
  | .dispatching _ _ (_ :: _) _ none => true
  | _ => false

namespace UrlFragmentSignaling

variable {P : Platform} {s s' : UrlFragmentSignaling} {encoded : JsString}
  {stage stage' : ImportStage} {calls : List (Nat × SignalingMessage)}

def round (s : UrlFragmentSignaling) (k : Nat) : Option (Round JsString Nat) :=
  (s.imports[k]?).bind ImportStage.round

/-- The step begins to hand on a message of the import. -/
def starts (s : UrlFragmentSignaling) (ev : Event) (k : Nat) : Bool :=
  ev.isTurn k && ((s.imports[k]?).map ImportStage.begins).getD false

/-- All messages of an import are due to the handlers of its room. -/
def client (P : Platform) : Client UrlFragmentSignaling Event Out JsString Nat Nat where
  step := step P
  sets := setsOf
  calls := unsubscribes
  op := op
  round := round
  starts := starts
  called s ev k := (invokes k (s.step P ev).2).map Prod.fst
  due _ _ := True

theorem joined_round (stage : ImportStage) (i handler : Nat) :
    (stage.joined i handler).round = stage.round.map (Round.joined i handler) := by
  cases stage with
  | dispatching roomId set messages delivered turn =>
    rcases turn with _ | ⟨message, todo⟩
    · rfl
    · by_cases hset : set = i <;> simp [ImportStage.joined, ImportStage.round, Round.joined, hset]
  | _ => rfl

theorem left_round (stage : ImportStage) (i handler : Nat) :
    (stage.left i handler).round = stage.round.map (Round.left i handler) := by
  cases stage with
  | dispatching roomId set messages delivered turn =>
    rcases turn with _ | ⟨message, todo⟩
    · rfl
    · by_cases hset : set = i <;> simp [ImportStage.left, ImportStage.round, Round.left, hset]
  | _ => rfl

/-- An import that has nothing left to hand on has no handler left to call. -/
theorem round_todo {r : Round JsString Nat} (h : stage.round = some r)
    (hnone : ∀ handler, stage.remaining handler = []) : r.todo = [] := by
  cases stage with
  | dispatching roomId i messages delivered turn =>
    rcases turn with _ | ⟨message, _ | ⟨handler, todo⟩⟩
    · cases h
    · obtain rfl := Option.some.inj h
      rfl
    · have hfirst := hnone handler
      simp at hfirst
  | _ => cases h

/-- What a step that begins on no message does to the round of an import. -/
theorem ImportMove.roundMove {turns : Prop} (hm : ImportMove P s s' turns stage stage' calls)
    (hquiet : turns → stage.begins = false) :
    RoundMove s.setsOf s'.setsOf stage.round stage'.round (calls.map Prod.fst) false := by
  cases hm with
  | kept hsets => exact .same hsets
  | joins hj =>
    rw [joined_round]
    exact .of_joins hj
  | leaves hl =>
    rw [left_round]
    exact .of_leaves hl
  | settled hsets hnone =>
    cases hround : stage.round with
    | none => exact .idle
    | some r =>
      have htodo := round_todo hround hnone
      obtain ⟨key, set, todo⟩ := r
      obtain rfl : todo = [] := htodo
      exact .ended hsets
  | dispatched _ _ _ => exact .idle
  | called hsets => exact .called hsets
  | counted hsets => exact .ended hsets
  | next hturns _ => exact absurd (hquiet hturns) (by simp [ImportStage.begins])

/-- An import begins on its next message. -/
theorem starts_inv {ev : Event} {k : Nat} (h : s.starts ev k = true) :
    ∃ throws roomId i message messages delivered, ev = .turn k throws ∧
      s.imports[k]? = some (.dispatching roomId i (message :: messages) delivered none) := by
  obtain ⟨hturn, hbegins⟩ := Bool.and_eq_true_iff.mp h
  cases ev with
  | turn j throws =>
    obtain rfl : j = k := by simpa [Event.isTurn] using hturn
    cases hk : s.imports[j]? with
    | none =>
      rw [hk] at hbegins
      cases hbegins
    | some stage =>
      rw [hk] at hbegins
      have hstage : stage.begins = true := hbegins
      unfold ImportStage.begins at hstage
      split at hstage
      · exact ⟨throws, _, _, _, _, _, rfl, rfl⟩
      · cases hstage
  | _ => cases hturn

/-- The round that an import begins is over the handlers of its set. -/
theorem starts_round (P : Platform) (throws : Bool) {roomId : JsString} {i k delivered : Nat}
    {message : SignalingMessage} {messages : List SignalingMessage}
    (hk : s.imports[k]? = some (.dispatching roomId i (message :: messages) delivered none)) :
    (s.step P (.turn k throws)).1.setsOf = s.setsOf ∧
      (s.step P (.turn k throws)).1.round k = some ⟨roomId, i, s.elements i⟩ ∧
      invokes k (s.step P (.turn k throws)).2 = [] := by
  have hlt := (List.getElem?_eq_some_iff.mp hk).1
  have hstep : s.step P (.turn k throws) = ({ s with
      imports := s.imports.set k
        (.dispatching roomId i messages delivered (some (message, s.elements i))) }, []) := by
    simp [step, turn, hk]
  rw [hstep]
  refine ⟨rfl, ?_, rfl⟩
  rw [round, List.getElem?_set_self hlt]
  rfl

/-- The sets are in order, and every import is sound. -/
structure Steady (P : Platform) (s : UrlFragmentSignaling) : Prop where
  tidy : s.setsOf.Tidy
  sound : ∀ (k : Nat) (stage : ImportStage), s.imports[k]? = some stage → ∃ encoded, Sound P s encoded stage

theorem step_steady (h : s.Steady P) {ev : Event} (hev : ev ≠ .close) :
    (s.step P ev).1.Steady P := by
  refine ⟨(step_sets h.tidy hev).1.setMove.tidy h.tidy, fun k stage' hk => ?_⟩
  cases hwas : s.imports[k]? with
  | some stage =>
    obtain ⟨encoded, hsound⟩ := h.sound k stage hwas
    obtain ⟨stage'', hk', hmove⟩ := step_import (P := P) h.tidy hev hwas
    obtain rfl := Option.some.inj (hk.symm.trans hk')
    exact ⟨encoded, hmove.sound h.tidy hsound⟩
  | none =>
    obtain ⟨_, encoded, _, rfl | rfl⟩ := step_new hwas hk
    · exact ⟨encoded, .decoding⟩
    · exact ⟨encoded, .settled⟩

theorem step_round (h : s.Steady P) {ev : Event} (hev : ev ≠ .close) (k : Nat) :
    RoundMove s.setsOf (s.step P ev).1.setsOf (s.round k) ((s.step P ev).1.round k)
      ((invokes k (s.step P ev).2).map Prod.fst) (s.starts ev k) := by
  cases hstarts : s.starts ev k with
  | true =>
    obtain ⟨throws, roomId, i, message, messages, delivered, rfl, hk⟩ := starts_inv hstarts
    obtain ⟨hsets, hround, hcalls⟩ := starts_round P throws hk
    obtain ⟨encoded, hsound⟩ := h.sound k _ hk
    have hwas : s.round k = none := by rw [round, hk]; rfl
    rw [hround, hcalls, hwas]
    cases hsound with
    | dispatching _ _ _ hheld => exact .started hsets (fun r hr => by cases hr) hheld
  | false =>
    cases hwas : s.imports[k]? with
    | some stage =>
      obtain ⟨stage', hk, hmove⟩ := step_import (P := P) h.tidy hev hwas
      have hround : s.round k = stage.round := by rw [round, hwas, Option.bind_some]
      have hround' : (s.step P ev).1.round k = stage'.round := by rw [round, hk, Option.bind_some]
      rw [hround, hround']
      refine hmove.roundMove fun hturn => ?_
      simpa [starts, hturn, hwas] using hstarts
    | none =>
      have hround : s.round k = none := by rw [round, hwas, Option.bind_none]
      have hround' : (s.step P ev).1.round k = none := by
        cases hk : (s.step P ev).1.imports[k]? with
        | none => rw [round, hk, Option.bind_none]
        | some stage =>
          obtain ⟨_, encoded, _, rfl | rfl⟩ := step_new hwas hk
          · rw [round, hk]; rfl
          · rw [round, hk]; rfl
      rw [hround, hround', invokes_none hwas]
      exact .idle

theorem Sound.left_idle {i handler : Nat} (h : Sound P s encoded stage)
    (hout : handler ∉ s.elements i) : stage.left i handler = stage := by
  cases h with
  | decoding | settled => rfl
  | @dispatching bundle i₀ messages delivered turn _ _ hturn _ =>
    rcases turn with _ | ⟨message, todo⟩
    · rfl
    · have hsubset := (hturn _ rfl).2.subset
      rw [ImportStage.left]
      split
      · next hi =>
        subst hi
        rw [filter_ne_self fun hmem => hout (hsubset handler hmem)]
      · rfl

/-- Deleting a handler from a set it is not in changes nothing. -/
theorem delete_idle (h : s.Steady P) {i handler : Nat} (hout : handler ∉ s.elements i) :
    s.delete i handler = s := by
  have hsets : s.sets.modify i (·.filter (· ≠ handler)) = s.sets := by
    refine List.ext_getElem? fun j => ?_
    rw [List.getElem?_modify]
    split
    · next hij =>
      subst hij
      cases hset : s.sets[i]? with
      | none => rfl
      | some set =>
        have hset' : handler ∉ set := by simpa [elements, hset] using hout
        exact congrArg some (filter_ne_self hset')
    · cases s.sets[j]? <;> rfl
  have himports : s.imports.map (·.left i handler) = s.imports := by
    refine List.ext_getElem? fun k => ?_
    rw [List.getElem?_map]
    cases hk : s.imports[k]? with
    | none => rfl
    | some stage =>
      obtain ⟨encoded, hsound⟩ := h.sound k stage hk
      rw [Option.map_some, hsound.left_idle hout]
  rw [delete, hsets, himports]

theorem unsubscribe_idle (h : s.Steady P) {n : Nat}
    (hout : ∀ roomId handler, s.unsubscribes[n]? = some (roomId, handler) →
      handler ∉ s.setsOf.members roomId) : s.unsubscribe n = (s, []) := by
  unfold unsubscribe
  split
  · rfl
  · next roomId handler hn =>
    split
    · rfl
    · next i hi =>
      have hnot : handler ∉ s.elements i := by
        rw [← subscribed_elements hi]
        exact hout roomId handler hn
      have hsome : s.elements i ≠ [] := h.tidy.current roomId i hi
      dsimp only
      rw [delete_idle h hnot, if_neg hsome]

theorem client_laws (P : Platform) : (client P).Laws (Steady P) (· ≠ .close) where
  tidy h := h.tidy
  keeps h hev := step_steady h hev
  moves h hev := (step_sets h.tidy hev).1
  idle := by
    intro s ev n h hop hout
    have hev : ev = .unsubscribe n := by
      cases ev with
      | unsubscribe k =>
        have hk : k = n := by simpa [client, op] using hop
        rw [hk]
      | subscribe roomId handler =>
        simp only [client, op] at hop
        split at hop <;> cases hop
      | _ => cases hop
    subst hev
    exact unsubscribe_idle h hout
  rounds := by
    intro s ev h hev k
    exact step_round h hev k

theorem client_fresh (P : Platform) : (client P).Fresh create where
  calls := rfl
  members _ := rfl
  round _ := rfl

/-- When an import comes to its next message, its room has the set that the import is for,
or has none. -/
def Undisturbed (s : UrlFragmentSignaling) (ev : Event) : Prop :=
  ∀ k throws roomId i message messages delivered, ev = .turn k throws →
    s.imports[k]? = some (.dispatching roomId i (message :: messages) delivered none) →
    s.handlers.get roomId = none ∨ s.handlers.get roomId = some i

theorem fair_iff (P : Platform) (pre : List Event) (ev : Event) :
    (client P).Fair create pre ev ↔
      Alone ((client P).ledger create pre) (op (after (step P) create pre) ev) ∧
        (after (step P) create pre).Undisturbed ev := by
  refine and_congr_right fun _ => ?_
  generalize hs : after (step P) create pre = s
  have hafter : ∀ ev, after (client P).step create (pre ++ [ev]) = (s.step P ev).1 := by
    intro ev
    rw [after_append]
    exact congrArg (fun s => (s.step P ev).1) hs
  rw [hafter]
  change (∀ l r, starts (after (step P) create pre) ev l = true → _) ↔ _
  rw [hs]
  constructor
  · rintro h k throws roomId i message messages delivered rfl hk
    obtain ⟨hsets, hround, _⟩ := starts_round P throws hk
    have hcases := h k _ (by simp [starts, Event.isTurn, hk, ImportStage.begins]) hround trivial
    change (s.step P (.turn k throws)).1.setsOf.index roomId = none ∨
      (s.step P (.turn k throws)).1.setsOf.index roomId = some i at hcases
    rwa [hsets] at hcases
  · intro h k r hstarts hr _
    obtain ⟨throws, roomId, i, message, messages, delivered, rfl, hk⟩ := starts_inv hstarts
    obtain ⟨hsets, hround, _⟩ := starts_round P throws hk
    obtain rfl := Option.some.inj (hr.symm.trans hround)
    change (s.step P (.turn k throws)).1.setsOf.index roomId = none ∨
      (s.step P (.turn k throws)).1.setsOf.index roomId = some i
    rw [hsets]
    exact h k throws roomId i message messages delivered rfl hk

/-- A run is faithful exactly when nobody undoes a call beside another one of its handler,
and no message of an import comes up for handlers its room has given up while it has others. -/
theorem faithful_iff (P : Platform) {evs : List Event} (hopen : ∀ ev ∈ evs, ev ≠ .close) :
    (client P).Faithful create evs ↔ ∀ pre ev, pre ++ [ev] <+: evs →
      Alone ((client P).ledger create pre) (op (after (step P) create pre) ev) ∧
        (after (step P) create pre).Undisturbed ev := by
  rw [Client.faithful_iff (client_laws P) ⟨create_tidy, fun k stage hk => by cases hk⟩
    (client_fresh P) hopen]
  exact forall₃_congr fun pre ev _ => fair_iff P pre ev

end UrlFragmentSignaling

end Senn.UrlFragment

import Senn.Lib.Rounds
import Senn.UrlFragment.Adapter

/-! # What an import hands on

The messages of an imported bundle go to the handlers of the bundle's room, in order: a
handler that stays subscribed while the import is dispatched is called with each of them. -/

namespace Senn.UrlFragment
open Senn.Js Senn.Lib Senn.Lib.Machine Senn.Lib.Subscriptions Senn.Protocol

/-- The calls that outputs make for an import. -/
def invokes (k : Nat) (outs : List Out) : List (Nat × SignalingMessage) :=
  outs.filterMap fun
    | .invoke j handler message => if j = k then some (handler, message) else none
    | _ => none

@[simp] theorem invokes_nil (k : Nat) : invokes k [] = [] := rfl

@[simp] theorem invokes_append (k : Nat) (outs outs' : List Out) :
    invokes k (outs ++ outs') = invokes k outs ++ invokes k outs' := List.filterMap_append

/-- The messages of calls that a handler gets. -/
def received (handler : Nat) (calls : List (Nat × SignalingMessage)) : List SignalingMessage :=
  (calls.filter fun call => call.1 = handler).map Prod.snd

@[simp] theorem received_nil (handler : Nat) : received handler [] = [] := rfl

@[simp] theorem received_append (handler : Nat) (calls calls' : List (Nat × SignalingMessage)) :
    received handler (calls ++ calls') = received handler calls ++ received handler calls' := by
  simp [received]

namespace ImportStage

/-- The messages an import has yet to hand to a handler. -/
def remaining (handler : Nat) : ImportStage → List SignalingMessage
  | .dispatching _ _ messages _ turn =>
    (turn.toList.filter fun t => handler ∈ t.2).map Prod.fst ++ messages
  | _ => []

@[simp] theorem remaining_none (handler : Nat) (roomId : JsString) (i delivered : Nat)
    (messages : List SignalingMessage) :
    (dispatching roomId i messages delivered none).remaining handler = messages := rfl

@[simp] theorem remaining_some (handler : Nat) (roomId : JsString) (i delivered : Nat)
    (messages : List SignalingMessage) (message : SignalingMessage) (todo : List Nat) :
    (dispatching roomId i messages delivered (some (message, todo))).remaining handler =
      if handler ∈ todo then message :: messages else messages := by
  by_cases h : handler ∈ todo <;> simp [remaining, h]

end ImportStage

/-- The event is a turn of the loops of the `k`-th import. -/
def Event.isTurn (k : Nat) : Event → Bool
  | .turn j _ => j = k
  | _ => false

namespace UrlFragmentSignaling

variable {P : Platform} {s : UrlFragmentSignaling} {roomId : JsString}

/-- The sets of handlers, and which one is a room's. -/
def setsOf (s : UrlFragmentSignaling) : Sets JsString Nat :=
  ⟨s.handlers.get, s.elements, s.sets.length⟩

/-- The handlers of a room. -/
def subscribed (s : UrlFragmentSignaling) (roomId : JsString) : List Nat :=
  s.setsOf.members roomId

/-- The string that an event imports. -/
def imported (_ : UrlFragmentSignaling) : Event → List JsString
  | .importBundle encoded => [encoded]
  | _ => []

/-! ## Sets -/

/-- What a call of `subscribe` does. -/
inductive Subscribed (s : UrlFragmentSignaling) (roomId : JsString) (handler : Nat) :
    UrlFragmentSignaling → Prop
  | refused : s.closed = true → Subscribed s roomId handler s
  | held {i : Nat} : s.closed = false → s.handlers.get roomId = some i →
      handler ∈ s.elements i → Subscribed s roomId handler
        { s with unsubscribes := s.unsubscribes ++ [(roomId, handler)] }
  | joined {i : Nat} {s' : UrlFragmentSignaling} : s.closed = false →
      Joins s.setsOf s'.setsOf roomId i handler → s'.closed = s.closed →
      s'.unsubscribes = s.unsubscribes ++ [(roomId, handler)] →
      s'.imports = s.imports.map (·.joined i handler) → Subscribed s roomId handler s'

theorem subscribe_cases (htidy : s.setsOf.Tidy) (roomId : JsString) (handler : Nat) :
    Subscribed s roomId handler (s.subscribe roomId handler).1 := by
  unfold subscribe
  split
  · next hclosed => exact .refused hclosed
  · next hopen =>
    rw [Bool.not_eq_true] at hopen
    dsimp only
    split
    · next i hi =>
      unfold add
      split
      · next hmem => exact .held hopen hi hmem
      · next hnew =>
        have hlt : i < s.setsOf.length := htidy.bound i (htidy.current roomId i hi)
        refine .joined hopen ⟨.inl hi, hnew, fun j => ?_, fun room => ?_, ?_⟩ rfl rfl rfl
        · simp only [setsOf, elements, List.getElem?_modify]
          split
          · next hij =>
            subst hij
            have hin : i < s.sets.length := hlt
            simp [hin]
          · cases s.sets[j]? <;> rfl
        · split
          · next hroom => rw [hroom]; exact hi
          · rfl
        · rw [if_neg (Nat.ne_of_lt hlt)]
          exact List.length_modify ..
    · next hnone =>
      have hadd : ((s.sets ++ [[]] : List (List Nat)).modify s.sets.length fun x => x ++ [handler]) =
          s.sets ++ [[handler]] := by
        rw [List.modify_eq_set_getElem?]
        simp
      have hempty : handler ∉ ((s.sets ++ [[]] : List (List Nat))[s.sets.length]?).getD [] := by
        simp
      simp only [add, elements, List.length_append, List.length_singleton, Nat.add_sub_cancel,
        if_neg hempty, hadd]
      have hout : s.elements s.sets.length = [] := by simp [elements]
      refine .joined hopen (i := s.sets.length)
        ⟨.inr ⟨hnone, rfl⟩, by simp [setsOf, hout], fun j => ?_, fun room => ?_, ?_⟩ rfl rfl rfl
      · simp only [setsOf, elements]
        rcases Nat.lt_trichotomy j s.sets.length with hlt | heq | hgt
        · rw [List.getElem?_append_left hlt, if_neg (Nat.ne_of_gt hlt)]
        · subst heq
          simp
        · have hafter : (s.sets ++ [[handler]])[j]? = none := by
            refine List.getElem?_eq_none ?_
            rw [List.length_append, List.length_singleton]
            exact hgt
          rw [hafter, if_neg (Nat.ne_of_lt hgt), List.getElem?_eq_none (Nat.le_of_lt hgt)]
      · exact InsMap.get_set ..
      · simp [setsOf]

/-- What a call of the `k`-th unsubscribe function does. -/
inductive Unsubscribed (s : UrlFragmentSignaling) (k : Nat) : UrlFragmentSignaling → Prop
  | void : (∀ roomId handler, s.unsubscribes[k]? = some (roomId, handler) →
      s.handlers.get roomId = none) → Unsubscribed s k s
  | left {roomId : JsString} {handler i : Nat} {s' : UrlFragmentSignaling} :
      s.unsubscribes[k]? = some (roomId, handler) →
      Leaves s.setsOf s'.setsOf roomId i handler → s'.closed = s.closed →
      s'.unsubscribes = s.unsubscribes → s'.imports = s.imports.map (·.left i handler) →
      Unsubscribed s k s'

theorem unsubscribe_cases (s : UrlFragmentSignaling) (k : Nat) :
    Unsubscribed s k (s.unsubscribe k).1 ∧ (s.unsubscribe k).2 = [] := by
  unfold unsubscribe
  split
  · next hk => exact ⟨.void fun _ _ h => (by rw [hk] at h; cases h), rfl⟩
  · next roomId handler hk =>
    split
    · next hnone =>
      refine ⟨.void fun room h' hroom => ?_, rfl⟩
      obtain ⟨rfl, rfl⟩ := Prod.mk.inj (Option.some.inj (hk.symm.trans hroom))
      exact hnone
    · next i hi =>
      have helements : ∀ j, (s.delete i handler).elements j =
          if i = j then (s.elements j).filter (· ≠ handler) else s.elements j := by
        intro j
        simp only [elements, delete, List.getElem?_modify]
        split <;> cases s.sets[j]? <;> rfl
      have hlength : (s.delete i handler).sets.length = s.sets.length := by simp [delete]
      dsimp only
      split
      · next hempty =>
        refine ⟨.left hk ⟨hi, helements, fun room => ?_, hlength⟩ rfl rfl rfl, rfl⟩
        change (s.handlers.delete roomId).get room = _
        rw [InsMap.get_delete]
        by_cases hroom : room = roomId
        · rw [if_pos hroom, if_pos ⟨hroom, hempty⟩]
        · rw [if_neg hroom, if_neg fun h => hroom h.1]
          rfl
      · next hmore =>
        refine ⟨.left hk ⟨hi, helements, fun room => ?_, hlength⟩ rfl rfl rfl, rfl⟩
        rw [if_neg fun h => hmore h.2]
        rfl

theorem create_tidy : create.setsOf.Tidy where
  nodup _ := List.nodup_nil
  current _ _ h := by cases h
  unique _ _ _ h := by cases h
  bound _ h := absurd rfl h

/-! ## Imports -/

/-- What a step makes of an import that stands at `stage`, with the calls it makes for it;
`turns` says that the step is a turn of its loops. -/
inductive ImportMove (P : Platform) (s s' : UrlFragmentSignaling) (turns : Prop) :
    ImportStage → ImportStage → List (Nat × SignalingMessage) → Prop
  | kept {stage : ImportStage} : s'.setsOf = s.setsOf →
      ImportMove P s s' turns stage stage []
  | joins {stage : ImportStage} {roomId : JsString} {i handler : Nat} :
      Joins s.setsOf s'.setsOf roomId i handler → ImportMove P s s' turns stage (stage.joined i handler) []
  | leaves {stage : ImportStage} {roomId : JsString} {i handler : Nat} :
      Leaves s.setsOf s'.setsOf roomId i handler → ImportMove P s s' turns stage (stage.left i handler) []
  | settled {stage : ImportStage} : s'.setsOf = s.setsOf →
      (∀ handler, stage.remaining handler = []) → ImportMove P s s' turns stage .settled []
  | dispatched {encoded : JsString} {bundle : SignalingBundleV1} {i : Nat} :
      s'.setsOf = s.setsOf →
      decodeSignalingBundle P encoded = .ok bundle →
      s.handlers.get bundle.roomId = some i →
      ImportMove P s s' turns (.decoding encoded)
        (.dispatching bundle.roomId i bundle.messages 0 none) []
  | called {room : JsString} {i delivered handler : Nat} {messages : List SignalingMessage}
      {message : SignalingMessage} {todo : List Nat} :
      s'.setsOf = s.setsOf →
      ImportMove P s s' turns (.dispatching room i messages delivered (some (message, handler :: todo)))
        (.dispatching room i messages delivered (some (message, todo))) [(handler, message)]
  | counted {room : JsString} {i delivered : Nat} {messages : List SignalingMessage}
      {message : SignalingMessage} : s'.setsOf = s.setsOf →
      ImportMove P s s' turns (.dispatching room i messages delivered (some (message, [])))
        (.dispatching room i messages (delivered + 1) none) []
  | next {room : JsString} {i delivered : Nat} {messages : List SignalingMessage}
      {message : SignalingMessage} : turns → s'.setsOf = s.setsOf →
      ImportMove P s s' turns (.dispatching room i (message :: messages) delivered none)
        (.dispatching room i messages delivered (some (message, s.elements i))) []

/-- A step that writes only another import. -/
theorem import_other {p : UrlFragmentSignaling × List Out} {turns : Prop} {j k : Nat}
    {stage new : ImportStage}
    (hk : s.imports[k]? = some stage) (hj : j ≠ k) (hsets : p.1.setsOf = s.setsOf)
    (himports : p.1.imports = s.imports.set j new)
    (hcalls : invokes k p.2 = []) : ∃ stage', p.1.imports[k]? = some stage' ∧
      ImportMove P s p.1 turns stage stage' (invokes k p.2) :=
  ⟨stage, by rw [himports, List.getElem?_set_ne hj, hk], hcalls ▸ .kept hsets⟩

theorem decoded_import {turns : Prop} {k : Nat} {stage : ImportStage} (hk : s.imports[k]? = some stage)
    (j : Nat) : ∃ stage', (s.decoded P j).1.imports[k]? = some stage' ∧
      ImportMove P s (s.decoded P j).1 turns stage stage' (invokes k (s.decoded P j).2) := by
  have hlt : k < s.imports.length := (List.getElem?_eq_some_iff.mp hk).1
  by_cases hj : j = k
  · subst hj
    unfold decoded
    rw [hk]
    cases stage with
    | dispatching room i messages delivered turn => exact ⟨_, hk, .kept rfl⟩
    | settled => exact ⟨_, hk, .kept rfl⟩
    | decoding encoded =>
      dsimp only
      cases hdecode : decodeSignalingBundle P encoded with
      | error e => exact ⟨.settled, by simp [hlt], .settled rfl fun _ => rfl⟩
      | ok bundle =>
        dsimp only
        split
        · next i hi =>
          split
          · exact ⟨.settled, by simp [hlt], .settled rfl fun _ => rfl⟩
          · exact ⟨_, by simp [hlt], .dispatched rfl hdecode hi⟩
        · exact ⟨.settled, by simp [hlt], .settled rfl fun _ => rfl⟩
  · unfold decoded
    split
    · split
      · exact import_other hk hj rfl rfl rfl
      · split
        · split
          · exact import_other hk hj rfl rfl rfl
          · exact import_other hk hj rfl rfl rfl
        · exact import_other hk hj rfl rfl rfl
    · exact ⟨stage, hk, .kept rfl⟩

theorem turn_import {k : Nat} {stage : ImportStage} (hk : s.imports[k]? = some stage)
    (j : Nat) (throws : Bool) : ∃ stage', (s.turn j throws).1.imports[k]? = some stage' ∧
      ImportMove P s (s.turn j throws).1 (j = k) stage stage' (invokes k (s.turn j throws).2) := by
  have hlt : k < s.imports.length := (List.getElem?_eq_some_iff.mp hk).1
  by_cases hj : j = k
  · subst hj
    unfold turn
    rw [hk]
    cases stage with
    | decoding encoded => exact ⟨_, hk, .kept rfl⟩
    | settled => exact ⟨_, hk, .kept rfl⟩
    | dispatching room i messages delivered turn =>
      rcases turn with _ | ⟨message, _ | ⟨handler, todo⟩⟩
      · cases messages with
        | nil => exact ⟨.settled, by simp [hlt], .settled rfl fun _ => rfl⟩
        | cons message messages => exact ⟨_, by simp [hlt], .next rfl rfl⟩
      · exact ⟨_, by simp [hlt], .counted rfl⟩
      · have hcalls : invokes j (.invoke j handler message :: if throws then [.logError] else []) =
            [(handler, message)] := by cases throws <;> simp [invokes]
        dsimp only
        rw [hcalls]
        exact ⟨_, by simp [hlt], .called rfl⟩
  · unfold turn
    split
    · refine import_other hk hj rfl rfl ?_
      cases throws <;> simp [invokes, hj]
    · exact import_other hk hj rfl rfl rfl
    · exact import_other hk hj rfl rfl rfl
    · exact import_other hk hj rfl rfl rfl
    · exact ⟨stage, hk, .kept rfl⟩

/-- An import stays, and a step makes one of the moves with it. -/
theorem step_import (htidy : s.setsOf.Tidy) {ev : Event} (hev : ev ≠ .close) {k : Nat}
    {stage : ImportStage} (hk : s.imports[k]? = some stage) :
    ∃ stage', (s.step P ev).1.imports[k]? = some stage' ∧
      ImportMove P s (s.step P ev).1 (ev.isTurn k = true) stage stage'
        (invokes k (s.step P ev).2) := by
  cases ev with
  | close => exact absurd rfl hev
  | decoded j => exact decoded_import hk j
  | turn j throws =>
    simp only [step, Event.isTurn, decide_eq_true_eq]
    exact turn_import hk j throws
  | publish roomId message =>
    refine ⟨stage, ?_, ?_⟩
    · simp only [step, publish]
      repeat' split
      all_goals exact hk
    · simp only [step, publish]
      repeat' split
      all_goals exact .kept rfl
  | exportBundle roomId =>
    refine ⟨stage, ?_, ?_⟩
    · simp only [step, exportBundle]
      repeat' split
      all_goals exact hk
    · simp only [step, exportBundle]
      repeat' split
      all_goals exact .kept rfl
  | importBundle encoded =>
    have hlt : k < s.imports.length := (List.getElem?_eq_some_iff.mp hk).1
    refine ⟨stage, ?_, ?_⟩
    · simp only [step, importBundle]
      split
      · simpa [List.getElem?_append_left hlt] using hk
      · simpa [List.getElem?_append_left hlt] using hk
    · simp only [step, importBundle]
      split <;> exact .kept rfl
  | subscribe roomId handler =>
    have hcalls : invokes k (s.subscribe roomId handler).2 = [] := by
      unfold subscribe
      split
      · rfl
      · dsimp only
        split <;> rfl
    have hcases := subscribe_cases htidy roomId handler
    simp only [step]
    rw [hcalls]
    generalize (s.subscribe roomId handler).1 = s' at hcases
    cases hcases with
    | refused => exact ⟨stage, hk, .kept rfl⟩
    | held => exact ⟨stage, hk, .kept rfl⟩
    | joined _ hj _ _ himports =>
      exact ⟨_, by rw [himports, List.getElem?_map, hk]; rfl, .joins hj⟩
  | unsubscribe j =>
    obtain ⟨hcases, hout⟩ := s.unsubscribe_cases j
    simp only [step]
    rw [hout]
    generalize (s.unsubscribe j).1 = s' at hcases
    cases hcases with
    | void => exact ⟨stage, hk, .kept rfl⟩
    | left _ hl _ _ himports =>
      exact ⟨_, by rw [himports, List.getElem?_map, hk]; rfl, .leaves hl⟩

/-- The call of `subscribe` that an event is, or the one that it undoes. -/
def op (s : UrlFragmentSignaling) : Event → Option (Op JsString Nat)
  | .subscribe roomId handler => if s.closed then none else some (.subscribe roomId handler)
  | .unsubscribe k => some (.undo k)
  | _ => none

theorem step_sets (htidy : s.setsOf.Tidy) {ev : Event} (hev : ev ≠ .close) :
    OpMove s.setsOf s.unsubscribes (s.op ev) (s.step P ev).1.setsOf (s.step P ev).1.unsubscribes ∧
      (s.step P ev).1.closed = s.closed := by
  cases ev with
  | close => exact absurd rfl hev
  | subscribe roomId handler =>
    have hcases := subscribe_cases htidy roomId handler
    simp only [step, op]
    generalize (s.subscribe roomId handler).1 = s' at hcases
    cases hcases with
    | refused hclosed =>
      rw [if_pos hclosed]
      exact ⟨.none, rfl⟩
    | held hopen hi hmem =>
      rw [hopen]
      refine ⟨.member ?_, rfl⟩
      rw [Sets.members_index (t := s.setsOf) hi]
      exact hmem
    | joined hopen hj hclosed hcalls _ =>
      rw [hopen, hcalls]
      exact ⟨.joined hj, hclosed.trans hopen⟩
  | unsubscribe j =>
    have hcases := (s.unsubscribe_cases j).1
    simp only [step, op]
    generalize (s.unsubscribe j).1 = s' at hcases
    cases hcases with
    | void hvoid => exact ⟨.void hvoid, rfl⟩
    | left hcall hl hclosed hcalls _ =>
      rw [hcalls]
      exact ⟨.left hcall hl, hclosed⟩
  | publish roomId message =>
    simp only [step, publish]
    repeat' split
    all_goals exact ⟨.none, rfl⟩
  | exportBundle roomId =>
    simp only [step, exportBundle]
    repeat' split
    all_goals exact ⟨.none, rfl⟩
  | importBundle encoded =>
    simp only [step, importBundle]
    split <;> exact ⟨.none, rfl⟩
  | decoded j =>
    simp only [step, decoded]
    repeat' split
    all_goals exact ⟨.none, rfl⟩
  | turn j throws =>
    simp only [step, turn]
    split <;> exact ⟨.none, rfl⟩

/-- An import of `encoded` that is dispatched hands on messages of the bundle, to handlers of
the bundle's room. -/
inductive Sound (P : Platform) (s : UrlFragmentSignaling) (encoded : JsString) : ImportStage → Prop
  | decoding : Sound P s encoded (.decoding encoded)
  | dispatching {bundle : SignalingBundleV1} {i : Nat} {messages : List SignalingMessage}
      {delivered : Nat} {turn : Option (SignalingMessage × List Nat)} :
      decodeSignalingBundle P encoded = .ok bundle → (∀ m ∈ messages, m ∈ bundle.messages) →
      (∀ t, turn = some t → t.1 ∈ bundle.messages ∧
        Round.Sound s.setsOf ⟨bundle.roomId, i, t.2⟩) →
      s.setsOf.Held bundle.roomId i →
      Sound P s encoded (.dispatching bundle.roomId i messages delivered turn)
  | settled : Sound P s encoded .settled

variable {s' : UrlFragmentSignaling} {encoded : JsString} {stage stage' : ImportStage}
  {calls : List (Nat × SignalingMessage)}

theorem Sound.turning {bundle : SignalingBundleV1} {i delivered : Nat} {message : SignalingMessage}
    {messages : List SignalingMessage} {todo : List Nat}
    (hdecode : decodeSignalingBundle P encoded = .ok bundle)
    (hmessages : ∀ m ∈ messages, m ∈ bundle.messages) (hmessage : message ∈ bundle.messages)
    (hround : Round.Sound s.setsOf ⟨bundle.roomId, i, todo⟩)
    (hheld : s.setsOf.Held bundle.roomId i) :
    Sound P s encoded (.dispatching bundle.roomId i messages delivered (some (message, todo))) := by
  refine .dispatching hdecode hmessages (fun t ht => ?_) hheld
  obtain rfl := Option.some.inj ht
  exact ⟨hmessage, hround⟩

/-- Sets that stay with their rooms keep an import sound. -/
theorem Sound.same (h : Sound P s encoded stage) (hsets : s'.setsOf = s.setsOf) :
    Sound P s' encoded stage := by
  cases h with
  | decoding => exact .decoding
  | settled => exact .settled
  | dispatching hdecode hmessages hturn hheld =>
    rw [← hsets] at hturn hheld
    exact .dispatching hdecode hmessages hturn hheld

theorem Sound.joined {i handler : Nat} (h : Sound P s encoded stage) (htidy : s.setsOf.Tidy)
    (hj : Joins s.setsOf s'.setsOf roomId i handler) :
    Sound P s' encoded (stage.joined i handler) := by
  cases h with
  | decoding => exact .decoding
  | settled => exact .settled
  | @dispatching bundle i₀ messages delivered turn hdecode hmessages hturn hheld =>
    have hheld' := (SetMove.joins hj).held htidy hheld
    rcases turn with _ | ⟨message, todo⟩
    · exact .dispatching hdecode hmessages (fun t ht => by cases ht) hheld'
    · obtain ⟨hmessage, hround⟩ := hturn _ rfl
      have hround' := hround.joined htidy hj
      unfold Round.joined at hround'
      rw [ImportStage.joined]
      split
      · next hi =>
        rw [if_pos hi] at hround'
        exact .turning hdecode hmessages hmessage hround' hheld'
      · next hi =>
        rw [if_neg hi] at hround'
        exact .turning hdecode hmessages hmessage hround' hheld'

theorem Sound.left {i handler : Nat} (h : Sound P s encoded stage) (htidy : s.setsOf.Tidy)
    (hl : Leaves s.setsOf s'.setsOf roomId i handler) :
    Sound P s' encoded (stage.left i handler) := by
  cases h with
  | decoding => exact .decoding
  | settled => exact .settled
  | @dispatching bundle i₀ messages delivered turn hdecode hmessages hturn hheld =>
    have hheld' := (SetMove.leaves hl).held htidy hheld
    rcases turn with _ | ⟨message, todo⟩
    · exact .dispatching hdecode hmessages (fun t ht => by cases ht) hheld'
    · obtain ⟨hmessage, hround⟩ := hturn _ rfl
      have hround' := hround.left htidy hl
      unfold Round.left at hround'
      rw [ImportStage.left]
      split
      · next hi =>
        rw [if_pos hi] at hround'
        exact .turning hdecode hmessages hmessage hround' hheld'
      · next hi =>
        rw [if_neg hi] at hround'
        exact .turning hdecode hmessages hmessage hround' hheld'

theorem ImportMove.sound {turns : Prop} (hm : ImportMove P s s' turns stage stage' calls)
    (htidy : s.setsOf.Tidy)
    (h : Sound P s encoded stage) : Sound P s' encoded stage' := by
  cases hm with
  | kept hsets => exact h.same hsets
  | joins hj => exact h.joined htidy hj
  | leaves hl => exact h.left htidy hl
  | settled => exact .settled
  | @dispatched encoded' bundle i hsets hdecode hget =>
    cases h with
    | decoding =>
      have hheld : s.setsOf.Held bundle.roomId i :=
        ⟨htidy.bound i (htidy.current _ i hget), fun _ => hget⟩
      refine Sound.same ?_ hsets
      exact .dispatching hdecode (fun m hm => hm) (fun t ht => by cases ht) hheld
  | called hsets =>
    refine Sound.same ?_ hsets
    cases h with
    | dispatching hdecode hmessages hturn hheld =>
      obtain ⟨hmessage, hround⟩ := hturn _ rfl
      refine .turning hdecode hmessages hmessage ?_ hheld
      exact ⟨(List.nodup_cons.mp hround.nodup).2, fun a ha => hround.subset a (.tail _ ha),
        hheld⟩
  | counted hsets =>
    refine Sound.same ?_ hsets
    cases h with
    | dispatching hdecode hmessages _ hheld =>
      exact .dispatching hdecode hmessages (fun t ht => by cases ht) hheld
  | next _ hsets =>
    refine Sound.same ?_ hsets
    cases h with
    | dispatching hdecode hmessages _ hheld =>
      refine .turning hdecode (fun m hm => hmessages m (.tail _ hm)) (hmessages _ (.head _)) ?_ hheld
      exact ⟨htidy.nodup _, fun a ha => ha, hheld⟩

/-- A call is of a handler of the bundle's room, with a message of the bundle. -/
theorem ImportMove.calls_subscribed {turns : Prop} (hm : ImportMove P s s' turns stage stage' calls)
    (h : Sound P s encoded stage) : ∀ call ∈ calls, ∃ bundle,
      decodeSignalingBundle P encoded = .ok bundle ∧ call.2 ∈ bundle.messages ∧
        call.1 ∈ s.subscribed bundle.roomId := by
  intro call hcall
  cases hm with
  | called _ =>
    obtain rfl := List.mem_singleton.mp hcall
    cases h with
    | dispatching hdecode hmessages hturn hheld =>
      obtain ⟨hmessage, hround⟩ := hturn _ rfl
      exact ⟨_, hdecode, hmessage, hheld.subset _ (hround.subset _ (.head _))⟩
  | _ => cases hcall

theorem subscribed_elements {i : Nat} (h : s.handlers.get roomId = some i) :
    s.subscribed roomId = s.elements i := Sets.members_index h

/-- A handler that stays subscribed has got, or will get, the messages it was to get. -/
theorem ImportMove.remaining {turns : Prop} {room : JsString} {i delivered handler : Nat}
    {messages : List SignalingMessage} {turn : Option (SignalingMessage × List Nat)}
    (hm : ImportMove P s s' turns (.dispatching room i messages delivered turn) stage' calls)
    (h : Sound P s encoded (.dispatching room i messages delivered turn))
    (hget : s.handlers.get room = some i) (hbefore : handler ∈ s.elements i)
    (hafter : handler ∈ s'.subscribed room) :
    s'.handlers.get room = some i ∧
      (stage' = .settled ∨ ∃ messages delivered turn,
        stage' = .dispatching room i messages delivered turn) ∧
      received handler calls ++ stage'.remaining handler =
        (ImportStage.dispatching room i messages delivered turn).remaining handler := by
  have hsame : s'.setsOf = s.setsOf → s'.handlers.get room = some i := fun hsets =>
    (congrFun (congrArg Sets.index hsets) room).trans hget
  cases hm with
  | kept hsets => exact ⟨hsame hsets, .inr ⟨_, _, _, rfl⟩, rfl⟩
  | @joins _ roomId j joined hj =>
    have hget' : s'.handlers.get room = some i := by
      refine (hj.index room).trans ?_
      split
      · next hroom =>
        subst hroom
        rcases hj.key with hown | ⟨hnone, _⟩
        · exact hown.symm.trans hget
        · exact absurd (hnone.symm.trans hget) (by simp)
      · exact hget
    refine ⟨hget', ?_⟩
    rcases turn with _ | ⟨message, todo⟩
    · exact ⟨.inr ⟨_, _, _, rfl⟩, rfl⟩
    · rw [ImportStage.joined]
      split
      · next hi =>
        subst hi
        have hne : handler ≠ joined := by
          rintro rfl
          exact hj.fresh hbefore
        exact ⟨.inr ⟨_, _, _, rfl⟩, by simp [hne]⟩
      · exact ⟨.inr ⟨_, _, _, rfl⟩, rfl⟩
  | @leaves _ roomId j left hl =>
    have hindex : s'.handlers.get room = _ := hl.index room
    have hget' : s'.handlers.get room = some i := by
      rw [hindex]
      split
      · next hgone =>
        rw [if_pos hgone] at hindex
        rw [subscribed, Sets.members_none hindex] at hafter
        cases hafter
      · exact hget
    rw [subscribed_elements hget'] at hafter
    refine ⟨hget', ?_⟩
    rcases turn with _ | ⟨message, todo⟩
    · exact ⟨.inr ⟨_, _, _, rfl⟩, rfl⟩
    · rw [ImportStage.left]
      split
      · next hi =>
        subst hi
        have hne : handler ≠ left := by
          have hset : s'.elements i = _ := hl.elements i
          rw [hset, if_pos rfl] at hafter
          simpa using (List.mem_filter.mp hafter).2
        exact ⟨.inr ⟨_, _, _, rfl⟩, by simp [hne]⟩
      · exact ⟨.inr ⟨_, _, _, rfl⟩, rfl⟩
  | settled hsets hnone => exact ⟨hsame hsets, .inl rfl, (hnone handler).symm⟩
  | @called _ _ _ called _ message todo hsets =>
    refine ⟨hsame hsets, .inr ⟨_, _, _, rfl⟩, ?_⟩
    cases h with
    | dispatching _ _ hturn _ =>
      have hnodup := (List.nodup_cons.mp (hturn _ rfl).2.nodup).1
      by_cases hcalled : called = handler
      · subst hcalled
        simp [received, hnodup]
      · simp [received, hcalled, Ne.symm hcalled]
  | counted hsets => exact ⟨hsame hsets, .inr ⟨_, _, _, rfl⟩, rfl⟩
  | next _ hsets =>
    refine ⟨hsame hsets, .inr ⟨_, _, _, rfl⟩, ?_⟩
    simp [hbefore]

end UrlFragmentSignaling

end Senn.UrlFragment

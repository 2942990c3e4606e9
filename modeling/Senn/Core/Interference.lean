import Senn.Core.MessageSlot
import Senn.Lib.Machine

/-! # Two messages at one receiver

The frames of two messages arrive interleaved in any order, with the interval
firing in between. Each message is handled as if it came alone exactly when the
two have different slot keys; the key joins two strings of the sender's choice,
so different messages can share one. -/

namespace Senn.Core
open Senn.Js Senn.Lib

/-- One of the two messages. -/
inductive Side where
  | left
  | right
deriving DecidableEq

/-- What tells messages apart: the add-on and the message id. -/
structure MessageName where
  addon : JsString
  id : JsString
deriving DecidableEq

def MessageName.key (n : MessageName) : JsString := slotKey n.addon n.id

/-- What reaches the receiver: a frame of one of the messages, or the interval. -/
inductive Arrival where
  | frame (side : Side) (now : Nat) (mime : JsString) (seq total : Number) (body : Bytes)
  | gcTick (now : Nat)
deriving DecidableEq

/-- What is left of an interleaving when only `side`'s frames are sent. -/
def Arrival.keptFor (side : Side) : Arrival → Bool
  | .frame s .. => s = side
  | .gcTick _ => true

/-- One arrival, each event under the side of the frame that caused it. -/
def receive (name : Side → MessageName) (st : Reassembly) :
    Arrival → Reassembly × List (Option Side × BinEvent)
  | .frame side now mime seq total body =>
    let r := st.handleChunk now ⟨(name side).addon, mime, (name side).id, seq, total, body⟩
    (r.1, r.2.map fun e => (some side, e))
  | .gcTick now =>
    let r := st.step (.gcTick now)
    (r.1, r.2.map fun e => (none, e))

/-- The events of an eviction, a timeout or the message cap. -/
def BinEvent.isLoss : BinEvent → Bool
  | .error (.overflowDropped ..) => true
  | .error (.timeoutDropped ..) => true
  | .error (.exceedsCap _) => true
  | _ => false

namespace Reassembly

/-! ## The interval when nothing is stale -/

theorem gcTick_quiet {st : Reassembly} (h : Accounted st) (now : Nat) :
    (st.step (.gcTick now)).2 = [] ↔ ∀ k s, st.reassembly.get k = some s → Recent now s := by
  rw [step]
  split
  · obtain ⟨st', _, hs⟩ := gcStale_fold st now
    exact hs.quiet
  · next ht =>
    refine iff_of_true rfl fun k s hk => ?_
    exact absurd (h.timer.mpr (size_ne_zero (by rw [hk]; simp))) ht

theorem gcTick_get {st : Reassembly} (h : Accounted st) {now : Nat}
    (hq : (st.step (.gcTick now)).2 = []) (k : JsString) :
    (st.step (.gcTick now)).1.reassembly.get k = st.reassembly.get k := by
  have hr := (gcTick_quiet h now).mp hq
  rw [step]
  split
  · obtain ⟨st', heq, hs⟩ := gcStale_fold st now
    rw [heq, maybeStop_reassembly, hs.get]
    cases hk : st.reassembly.get k with
    | none => rfl
    | some s => rw [Option.filter_some, if_pos (decide_eq_true (hr k s hk))]
  · rfl

/-! ## The receiver against one that gets one message only -/

/-- `alone` has of `st` the slot of `side` and nothing else. -/
structure Mirrors (name : Side → MessageName) (side : Side) (st alone : Reassembly) : Prop where
  joint : Accounted st
  own : Accounted alone
  slot : alone.reassembly.get (name side).key = st.reassembly.get (name side).key
  only : ∀ k, k ≠ (name side).key → alone.reassembly.get k = none

theorem handleChunk_accounted {st : Reassembly} (h : Accounted st) (now : Nat) (c : Chunk) :
    Accounted (st.handleChunk now c).1 := (handleChunk_outcome st now c).accounted h

theorem Local.dropped_nil {key : JsString} {st st' : Reassembly} {evs : List BinEvent}
    {alone : Option ReassemblySlot × List BinEvent} {dropped : List BinEvent}
    (h : Local key st st' evs alone dropped) (hq : ∀ e ∈ evs, e.isLoss = false) : dropped = [] := by
  rw [List.eq_nil_iff_forall_not_mem]
  intro e he
  obtain ⟨k, s, _, _, rfl⟩ := h.evicted e he
  have := hq _ (h.events ▸ List.mem_append_left _ he)
  cases this

theorem Mirrors.frame {name : Side → MessageName} {side : Side} {st alone : Reassembly} {now : Nat}
    {c : Chunk} (h : Mirrors name side st alone) (hc : slotKey c.addon c.id = (name side).key)
    (hq : ∀ e ∈ (st.handleChunk now c).2, e.isLoss = false) :
    (alone.handleChunk now c).2 = (st.handleChunk now c).2 ∧
      Mirrors name side (st.handleChunk now c).1 (alone.handleChunk now c).1 := by
  obtain ⟨dropped, hl⟩ := handleChunk_local st now c
  obtain ⟨dropped', hl'⟩ := handleChunk_local alone now c
  obtain rfl := hl.dropped_nil hq
  have hd' : dropped' = [] := by
    rw [List.eq_nil_iff_forall_not_mem]
    intro e he
    obtain ⟨k, s, hk, hs, _⟩ := hl'.evicted e he
    rw [h.only k (hc ▸ hk)] at hs
    cases hs
  subst hd'
  rw [hc] at hl hl'
  rw [h.slot] at hl'
  refine ⟨hl'.events.trans hl.events.symm, handleChunk_accounted h.joint now c,
    handleChunk_accounted h.own now c, hl'.slot.trans hl.slot.symm, fun k hk => ?_⟩
  rw [hl'.others rfl k hk, h.only k hk]

theorem Mirrors.other {name : Side → MessageName} {side : Side} {st alone : Reassembly} {now : Nat}
    {c : Chunk} (h : Mirrors name side st alone) (hc : slotKey c.addon c.id ≠ (name side).key)
    (hq : ∀ e ∈ (st.handleChunk now c).2, e.isLoss = false) :
    Mirrors name side (st.handleChunk now c).1 alone := by
  obtain ⟨dropped, hl⟩ := handleChunk_local st now c
  refine ⟨handleChunk_accounted h.joint now c, h.own, ?_, h.only⟩
  rw [hl.others (hl.dropped_nil hq) _ hc.symm]
  exact h.slot

theorem Mirrors.tick {name : Side → MessageName} {side : Side} {st alone : Reassembly} {now : Nat}
    (h : Mirrors name side st alone) (hq : (st.step (.gcTick now)).2 = []) :
    (alone.step (.gcTick now)).2 = [] ∧
      Mirrors name side (st.step (.gcTick now)).1 (alone.step (.gcTick now)).1 := by
  have hr := (gcTick_quiet h.joint now).mp hq
  have hq' : (alone.step (.gcTick now)).2 = [] := by
    refine (gcTick_quiet h.own now).mpr fun k s hk => ?_
    by_cases hkey : k = (name side).key
    · rw [hkey, h.slot] at hk
      exact hr _ s hk
    · rw [h.only k hkey] at hk
      cases hk
  refine ⟨hq', step_accounted _ h.joint, step_accounted _ h.own, ?_, fun k hk => ?_⟩
  · rw [gcTick_get h.own hq', gcTick_get h.joint hq, h.slot]
  · rw [gcTick_get h.own hq', h.only k hk]

theorem gcTick_loss {st : Reassembly} {now : Nat} :
    ∀ e ∈ (st.step (.gcTick now)).2, e.isLoss = true := by
  intro e he
  rw [step] at he
  split at he
  · obtain ⟨st', _, hs⟩ := gcStale_fold st now
    obtain ⟨addon, id, rfl⟩ := hs.errors e he
    rfl
  · cases he

theorem gcTick_nil (st : Reassembly) (now : Nat)
    (hq : ∀ e ∈ (st.step (.gcTick now)).2, e.isLoss = false) : (st.step (.gcTick now)).2 = [] := by
  rw [List.eq_nil_iff_forall_not_mem]
  intro e he
  have := hq e he
  rw [gcTick_loss e he] at this
  cases this

theorem mirrors_init (name : Side → MessageName) (side : Side) : Mirrors name side .init .init :=
  ⟨init_accounted, init_accounted, rfl, fun _ _ => rfl⟩

/-- The events of one arrival that belong to `side`. -/
def eventsOf (side : Side) (evs : List (Option Side × BinEvent)) : List (Option Side × BinEvent) :=
  evs.filter fun e => e.1 = some side

theorem eventsOf_map (side s : Side) (evs : List BinEvent) :
    eventsOf side (evs.map fun e => (some s, e)) =
      if s = side then evs.map (fun e => (some s, e)) else [] := by
  split
  · next h => simp [eventsOf, h]
  · next h => simp [eventsOf, h]

/-- One side of an interleaving, without losses, is what that side gets alone. -/
theorem eventsOf_outputs {name : Side → MessageName} (hkey : (name .left).key ≠ (name .right).key)
    (side : Side) (arrivals : List Arrival) : ∀ {st alone : Reassembly},
    Mirrors name side st alone →
    (∀ e ∈ Machine.outputs (receive name) st arrivals, e.2.isLoss = false) →
    eventsOf side (Machine.outputs (receive name) st arrivals) =
      Machine.outputs (receive name) alone (arrivals.filter (Arrival.keptFor side)) := by
  induction arrivals with
  | nil => intro st alone _ _; rfl
  | cons a arrivals ih =>
    intro st alone hm hq
    rw [Machine.outputs_cons] at hq ⊢
    have hhead := fun e he => hq e (List.mem_append_left _ he)
    have htail := fun e he => hq e (List.mem_append_right _ he)
    have happ : ∀ xs ys, eventsOf side (xs ++ ys) = eventsOf side xs ++ eventsOf side ys :=
      fun xs ys => List.filter_append ..
    rw [happ]
    cases a with
    | frame s now mime seq total body =>
      have hquiet : ∀ e ∈ (st.handleChunk now
          ⟨(name s).addon, mime, (name s).id, seq, total, body⟩).2, e.isLoss = false :=
        fun e he => hhead (some s, e) (List.mem_map_of_mem he)
      by_cases hs : s = side
      · subst hs
        obtain ⟨hevs, hm'⟩ := hm.frame (c := ⟨(name s).addon, mime, (name s).id, seq, total, body⟩)
          rfl hquiet
        have hrest := ih hm' htail
        rw [List.filter_cons_of_pos (by simp [Arrival.keptFor]), Machine.outputs_cons]
        simp only [receive, eventsOf_map, if_true, hevs, hrest]
      · have hne : (name s).key ≠ (name side).key := by
          cases s <;> cases side
          · exact absurd rfl hs
          · exact hkey
          · exact hkey.symm
          · exact absurd rfl hs
        have hm' := hm.other (c := ⟨(name s).addon, mime, (name s).id, seq, total, body⟩) hne hquiet
        have hrest := ih hm' htail
        rw [List.filter_cons_of_neg (by simp [Arrival.keptFor, hs])]
        simp only [receive, eventsOf_map, if_neg hs, List.nil_append, hrest]
    | gcTick now =>
      have hnil := gcTick_nil st now fun e he =>
        hhead (none, e) (List.mem_map_of_mem he)
      obtain ⟨hq', hm'⟩ := hm.tick hnil
      have hrest := ih hm' htail
      rw [List.filter_cons_of_pos (by simp [Arrival.keptFor]), Machine.outputs_cons]
      simp only [receive, hnil, hq', List.map_nil, List.nil_append, hrest]
      rfl

end Reassembly


/-! ## Shared keys -/

/-- The first frame, empty, of a message of `total` frames. -/
def firstFrame (side : Side) (total : Nat) : Arrival := .frame side 0 [] (.ofNat 0) (.ofNat total) []

def firstChunk (n : MessageName) (total : Nat) : Chunk :=
  ⟨n.addon, [], n.id, .ofNat 0, .ofNat total, []⟩

theorem receive_firstFrame (name : Side → MessageName) (st : Reassembly) (side : Side)
    (total : Nat) : receive name st (firstFrame side total) =
      ((st.handleChunk 0 (firstChunk (name side) total)).1,
        (st.handleChunk 0 (firstChunk (name side) total)).2.map fun e => (some side, e)) := rfl

theorem inRange_firstChunk (n : MessageName) {total : Nat} (h : 1 < total) :
    ((firstChunk n total).total.lt (.ofNat 1) || (firstChunk n total).seq.lt (.ofNat 0) ||
      (firstChunk n total).total.le (firstChunk n total).seq) = false := by
  simp [firstChunk]
  omega

/-- The slot that the first frame of a message of `total` frames leaves. -/
def firstSlot (n : MessageName) (total : Nat) : ReassemblySlot :=
  Reassembly.addFrame (Reassembly.newSlot (firstChunk n total) total 0) (.ofNat 0) []

theorem slotStep_first (n : MessageName) {total : Nat} (h1 : 1 < total) (h2 : total < 2 ^ 32) :
    slotStep none 0 (firstChunk n total) = (some (firstSlot n total), []) := by
  have hlen : (firstChunk n total).total.arrayLength? = some total :=
    Number.arrayLength?_eq_some.mpr ⟨rfl, h2⟩
  have hstore : slotStore (Reassembly.newSlot (firstChunk n total) total 0) (.ofNat 0) [] =
      (some (firstSlot n total), []) := by
    have hcap : ¬(firstSlot n total).bytes > BIN_MESSAGE_MAX_BYTES := by
      simp [firstSlot, Reassembly.addFrame, Reassembly.newSlot]
    have hfull : ¬(firstSlot n total).receivedFrames = (firstSlot n total).total := by
      show ¬1 = total
      omega
    rw [slotStore, if_neg (by simp [Reassembly.newSlot])]
    exact (if_neg hcap).trans (if_neg hfull)
  rw [slotStep, if_neg (by rw [inRange_firstChunk n h1]; exact Bool.false_ne_true)]
  simp only [hlen]
  exact hstore

/-- A first frame that claims another number of frames is rejected. -/
theorem slotStep_mismatch (m n : MessageName) {k l : Nat} (hl : 1 < l) (hkl : k ≠ l) :
    slotStep (some (firstSlot m k)) 0 (firstChunk n l) =
      (some (firstSlot m k), [.error .totalMimeMismatch]) := by
  have hne : (Number.ofNat (firstSlot m k).total).eq (firstChunk n l).total = false := by
    rw [Bool.eq_false_iff]
    intro h
    exact hkl (Number.ofNat_inj.mp (Number.eq_iff.mp h).1)
  rw [slotStep, if_neg (by rw [inRange_firstChunk n hl]; exact Bool.false_ne_true)]
  rw [hne, if_pos (by simp)]

theorem Reassembly.init_first (n : MessageName) (total : Nat) (h1 : 1 < total)
    (h2 : total < 2 ^ 32) :
    (init.handleChunk 0 (firstChunk n total)).2 = [] ∧
      ∀ k, (init.handleChunk 0 (firstChunk n total)).1.reassembly.get k =
        if k = n.key then some (firstSlot n total) else none := by
  obtain ⟨dropped, hl⟩ := handleChunk_local init 0 (firstChunk n total)
  have hd : dropped = [] := by
    rw [List.eq_nil_iff_forall_not_mem]
    intro e he
    obtain ⟨k, s, _, hs, _⟩ := hl.evicted e he
    cases hs
  subst hd
  have halone : slotStep (init.reassembly.get (slotKey n.addon n.id)) 0 (firstChunk n total) =
      (some (firstSlot n total), []) := slotStep_first n h1 h2
  have hevents := hl.events
  have hslot := hl.slot
  rw [show slotKey (firstChunk n total).addon (firstChunk n total).id = slotKey n.addon n.id
    from rfl, halone] at hevents hslot
  refine ⟨hevents, fun k => ?_⟩
  split
  · next hk => rw [hk]; exact hslot
  · next hk => exact hl.others rfl k hk

/-- With one key for both, the second message's first frame is rejected. -/
theorem outputs_sharedKey {name : Side → MessageName} (hkey : (name .left).key = (name .right).key) :
    Machine.outputs (receive name) .init [firstFrame .left 2, firstFrame .right 3] =
      [(some .right, .error .totalMimeMismatch)] := by
  obtain ⟨hevs, hget⟩ := Reassembly.init_first (name .left) 2 (by decide) (by decide)
  obtain ⟨dropped, hl⟩ := Reassembly.handleChunk_local
    (Reassembly.init.handleChunk 0 (firstChunk (name .left) 2)).1 0 (firstChunk (name .right) 3)
  have hright : slotKey (firstChunk (name .right) 3).addon (firstChunk (name .right) 3).id =
      (name .left).key := hkey.symm
  have hd : dropped = [] := by
    rw [List.eq_nil_iff_forall_not_mem]
    intro e he
    obtain ⟨k, s, hk, hs, _⟩ := hl.evicted e he
    rw [hget, if_neg (hright ▸ hk)] at hs
    cases hs
  subst hd
  have hevents := hl.events
  rw [hright, hget, if_pos rfl, slotStep_mismatch _ _ (by decide) (by decide)] at hevents
  simp only [Machine.outputs_cons, Machine.outputs_nil, receive_firstFrame, hevs, hevents,
    List.map_nil, List.nil_append, List.map_cons, List.append_nil]

/-- The events of an interleaving of two messages, when nothing is evicted,
timed out or over the cap, are for each message those of its own frames alone;
and this is so exactly when the two messages have different slot keys. -/
theorem separate_iff_keys_differ (name : Side → MessageName) :
    (∀ arrivals, (∀ e ∈ Machine.outputs (receive name) .init arrivals, e.2.isLoss = false) →
      ∀ side, Reassembly.eventsOf side (Machine.outputs (receive name) .init arrivals) =
        Machine.outputs (receive name) .init (arrivals.filter (Arrival.keptFor side))) ↔
      (name .left).key ≠ (name .right).key := by
  refine ⟨fun h hkey => ?_, fun hkey arrivals hq side =>
    Reassembly.eventsOf_outputs hkey side arrivals (Reassembly.mirrors_init name side) hq⟩
  have hjoint := outputs_sharedKey hkey
  have hside := h [firstFrame .left 2, firstFrame .right 3] (by simp [hjoint, BinEvent.isLoss])
    .right
  have halone := (Reassembly.init_first (name .right) 3 (by decide) (by decide)).1
  rw [hjoint] at hside
  simp only [firstFrame, Arrival.keptFor, reduceCtorEq, decide_false, decide_true,
    List.filter_cons_of_pos, List.filter_cons_of_neg, Bool.false_eq_true, not_false_eq_true,
    List.filter_nil] at hside
  rw [show ([.frame .right 0 [] (.ofNat 0) (.ofNat 3) []] : List Arrival) = [firstFrame .right 3]
    from rfl, Machine.outputs_cons, receive_firstFrame, halone] at hside
  cases hside

/-- Two messages of different add-ons, `a` with a separator in its name. -/
def collidingNames : Side → MessageName
  | .left => ⟨[0x61, 0x1F, 0x62], [0x63]⟩
  | .right => ⟨[0x61], [0x62, 0x1F, 0x63]⟩

/-- A frame of one add-on rejects the frame of another one. -/
theorem collidingNames_mix : (collidingNames .left).addon ≠ [] ∧ (collidingNames .right).addon ≠ [] ∧
    collidingNames .left ≠ collidingNames .right ∧
    (∀ e ∈ Machine.outputs (receive collidingNames) .init
      [firstFrame .left 2, firstFrame .right 3], e.2.isLoss = false) ∧
    Reassembly.eventsOf .right (Machine.outputs (receive collidingNames) .init
      [firstFrame .left 2, firstFrame .right 3]) ≠
    Machine.outputs (receive collidingNames) .init
      ([firstFrame .left 2, firstFrame .right 3].filter (Arrival.keptFor .right)) := by
  decide +kernel

end Senn.Core

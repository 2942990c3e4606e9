import Senn.Lib.Rounds
import Senn.Nostr.Delivery

/-! # Subscriptions of `NostrSignaling`

The adapter as a client of `Senn.Lib.Rounds`: a received event that has been decoded goes over
the handlers of its subscription in a round. The loop goes on by the handlers' places. -/

namespace Senn.Nostr
open Senn.Js Senn.Lib Senn.Lib.Machine Senn.Lib.Subscriptions

namespace Rooms

/-- The handlers of a subscription, with their places. -/
def loop (t : Rooms) (i : Nat) : List (Nat × Nat) :=
  (t.roomStates[i]?.map fun room => room.handlers).getD []

/-- The place of the next handler of a subscription. -/
def added (t : Rooms) (i : Nat) : Nat := (t.roomStates[i]?.map fun room => room.added).getD 0

/-- The sets of handlers, and which one is a room's. -/
def setsOf (t : Rooms) : Sets JsString Nat :=
  ⟨t.rooms.get, fun i => (t.loop i).map Prod.snd, t.roomStates.length⟩

/-- Handlers are called in the order of their places. -/
structure Placed (t : Rooms) : Prop where
  sorted : ∀ i, (t.loop i).Pairwise fun h h' => h.1 < h'.1
  below : ∀ i, ∀ h ∈ t.loop i, h.1 < t.added i

/-- Rooms that differ in what was delivered to them only. -/
structure Same (t t' : Rooms) : Prop where
  rooms : t'.rooms = t.rooms
  loop : t'.loop = t.loop
  added : t'.added = t.added
  length : t'.roomStates.length = t.roomStates.length
  unsubscribes : t'.unsubscribes = t.unsubscribes

theorem Same.refl (t : Rooms) : Same t t := ⟨rfl, rfl, rfl, rfl, rfl⟩

theorem Same.setsOf {t t' : Rooms} (h : Same t t') : t'.setsOf = t.setsOf := by
  rw [Rooms.setsOf, Rooms.setsOf, h.rooms, h.loop, h.length]

end Rooms

/-- What a step does to the rooms, with the call it makes or undoes. -/
inductive RoomsMove (t t' : Rooms) : Option (Op JsString Nat) → Prop
  | none : t.Same t' → RoomsMove t t' none
  | member {roomId : JsString} {handler : Nat} : handler ∈ t.setsOf.members roomId →
      t.Same { t' with unsubscribes := t.unsubscribes } →
      t'.unsubscribes = t.unsubscribes ++ [(roomId, handler)] →
      RoomsMove t t' (some (.subscribe roomId handler))
  | joined {roomId : JsString} {handler i : Nat} : Joins t.setsOf t'.setsOf roomId i handler →
      (∀ j, t'.loop j = if i = j then t.loop j ++ [(t.added j, handler)] else t.loop j) →
      (∀ j, t'.added j = if i = j then t.added j + 1 else t.added j) →
      t'.unsubscribes = t.unsubscribes ++ [(roomId, handler)] →
      RoomsMove t t' (some (.subscribe roomId handler))
  | void {k : Nat} : (∀ roomId handler, t.unsubscribes[k]? = some (roomId, handler) →
      t.rooms.get roomId = .none) → t.Same t' → RoomsMove t t' (some (.undo k))
  | left {roomId : JsString} {handler i k : Nat} :
      t.unsubscribes[k]? = some (roomId, handler) → Leaves t.setsOf t'.setsOf roomId i handler →
      (∀ j, t'.loop j = if i = j then (t.loop j).filter (fun h => h.2 ≠ handler) else t.loop j) →
      t'.added = t.added → t'.unsubscribes = t.unsubscribes →
      RoomsMove t t' (some (.undo k))

namespace RoomsMove

variable {t t' : Rooms} {op : Option (Op JsString Nat)}

theorem opMove (h : RoomsMove t t' op) :
    OpMove t.setsOf t.unsubscribes op t'.setsOf t'.unsubscribes := by
  cases h with
  | none hsame =>
    rw [hsame.setsOf, hsame.unsubscribes]
    exact .none
  | member hmem hsame hcalls =>
    have hsets : t'.setsOf = t.setsOf := hsame.setsOf
    rw [hsets, hcalls]
    exact .member hmem
  | joined hj _ _ hcalls =>
    rw [hcalls]
    exact .joined hj
  | void hvoid hsame =>
    rw [hsame.setsOf, hsame.unsubscribes]
    exact .void hvoid
  | left hcall hl _ _ hcalls =>
    rw [hcalls]
    exact .left hcall hl

theorem placed (h : RoomsMove t t' op) (ht : t.Placed) : t'.Placed := by
  cases h with
  | none hsame | void _ hsame =>
    exact ⟨by rw [hsame.loop]; exact ht.sorted, by rw [hsame.loop, hsame.added]; exact ht.below⟩
  | member _ hsame _ =>
    have hloop : t'.loop = t.loop := hsame.loop
    have hadded : t'.added = t.added := hsame.added
    exact ⟨by rw [hloop]; exact ht.sorted, by rw [hloop, hadded]; exact ht.below⟩
  | @joined _ handler i _ hloop hadded _ =>
    refine ⟨fun j => ?_, fun j h hh => ?_⟩
    · rw [hloop]
      split
      · refine List.pairwise_append.mpr ⟨ht.sorted j, List.pairwise_singleton .., ?_⟩
        intro a ha b hb
        rw [List.mem_singleton.mp hb]
        exact ht.below j a ha
      · exact ht.sorted j
    · rw [hloop] at hh
      rw [hadded]
      split at hh
      · next hij =>
        rw [if_pos hij]
        rcases List.mem_append.mp hh with hold | hnew
        · exact Nat.lt_succ_of_lt (ht.below j h hold)
        · rw [List.mem_singleton.mp hnew]
          exact Nat.lt_succ_self _
      · next hij =>
        rw [if_neg hij]
        exact ht.below j h hh
  | left _ _ hloop hadded _ =>
    refine ⟨fun j => ?_, fun j h hh => ?_⟩
    · rw [hloop]
      split
      · exact (ht.sorted j).filter _
      · exact ht.sorted j
    · rw [hloop] at hh
      rw [hadded]
      split at hh
      · exact ht.below j h (List.mem_filter.mp hh).1
      · exact ht.below j h hh

theorem added_le (h : RoomsMove t t' op) (i : Nat) : t.added i ≤ t'.added i := by
  cases h with
  | none hsame | void _ hsame => rw [hsame.added]
  | member _ hsame _ =>
    have hadded : t'.added = t.added := hsame.added
    rw [hadded]
  | joined _ _ hadded _ =>
    rw [hadded]
    split <;> omega
  | left _ _ _ hadded _ => rw [hadded]

end RoomsMove

/-- The handlers a loop that goes on at place `next` has yet to call. -/
def ahead (loop : List (Nat × Nat)) (next : Nat) : List Nat :=
  (loop.filter fun h => next ≤ h.1).map Prod.snd

theorem ahead_append {loop : List (Nat × Nat)} {next place handler : Nat} (h : next ≤ place) :
    ahead (loop ++ [(place, handler)]) next = ahead loop next ++ [handler] := by
  simp [ahead, h]

theorem ahead_filter (loop : List (Nat × Nat)) (next handler : Nat) :
    ahead (loop.filter fun h => h.2 ≠ handler) next = (ahead loop next).filter (· ≠ handler) := by
  unfold ahead
  rw [List.filter_map, List.filter_filter, List.filter_filter]
  refine congrArg (List.map Prod.snd) (List.filter_congr fun h _ => ?_)
  exact Bool.and_comm ..

theorem ahead_zero (loop : List (Nat × Nat)) : ahead loop 0 = loop.map Prod.snd := by
  simp [ahead]

/-- A turn of a loop calls the first handler that is left. -/
theorem ahead_find {loop : List (Nat × Nat)} (hsorted : loop.Pairwise fun h h' => h.1 < h'.1)
    {next : Nat} {h : Nat × Nat} (hfind : loop.find? (fun h => next ≤ h.1) = some h) :
    ahead loop next = h.2 :: ahead loop (h.1 + 1) := by
  induction loop with
  | nil => cases hfind
  | cons a loop ih =>
    obtain ⟨hlater, hrest⟩ := List.pairwise_cons.mp hsorted
    by_cases ha : next ≤ a.1
    · obtain rfl : a = h := by simpa [ha] using hfind
      have hall : ∀ next ≤ a.1 + 1, loop.filter (fun h => next ≤ h.1) = loop := by
        intro next hnext
        refine List.filter_eq_self.mpr fun b hb => decide_eq_true ?_
        have hlt := hlater b hb
        omega
      unfold ahead
      rw [List.filter_cons_of_pos (by simpa using ha), List.filter_cons_of_neg (by simp),
        hall next (by omega), hall (a.1 + 1) (Nat.le_refl _)]
      rfl
    · have hnext : loop.find? (fun h => next ≤ h.1) = some h := by simpa [ha] using hfind
      have hskip : ¬h.1 + 1 ≤ a.1 := by
        have hlt := hlater h (List.mem_of_find?_eq_some hnext)
        omega
      unfold ahead
      rw [List.filter_cons_of_neg (by simpa using ha), List.filter_cons_of_neg (by simpa using hskip)]
      exact ih hrest hnext

theorem ahead_none {loop : List (Nat × Nat)} {next : Nat}
    (hfind : loop.find? (fun h => next ≤ h.1) = none) : ahead loop next = [] := by
  have hall := List.find?_eq_none.mp hfind
  rw [ahead, List.filter_eq_nil_iff.mpr hall]
  rfl

/-- The round of a received event over the handlers of its subscription. -/
def Decode.round (t : Rooms) (c : Decode) : Option (Round JsString Nat) :=
  match c.stage with
  | .dispatching _ next => some ⟨c.roomId, c.room, ahead (t.loop c.room) next⟩
  | _ => none

/-- The loop of a received event is not past the handlers of its subscription, which was made
for the room. -/
structure Decode.Sound (t : Rooms) (c : Decode) : Prop where
  held : t.setsOf.Held c.roomId c.room
  bound : ∀ m next, c.stage = .dispatching m next → next ≤ t.added c.room

theorem Decode.round_eq {t : Rooms} {c : Decode} {m : Json} {next : Nat}
    (h : c.stage = .dispatching m next) :
    c.round t = some ⟨c.roomId, c.room, ahead (t.loop c.room) next⟩ := by
  rw [round, h]

theorem Decode.round_none {t : Rooms} {c : Decode} (h : ∀ m next, c.stage ≠ .dispatching m next) :
    c.round t = none := by
  unfold round
  split
  · next m next heq => exact absurd heq (h m next)
  · rfl

namespace RoomsMove

variable {t t' : Rooms} {op : Option (Op JsString Nat)} {c : Decode}

theorem sound (h : RoomsMove t t' op) (ht : t.setsOf.Tidy) (hc : c.Sound t) : c.Sound t' :=
  ⟨h.opMove.setMove.held ht hc.held,
    fun m next hstage => Nat.le_trans (hc.bound m next hstage) (h.added_le c.room)⟩

/-- What a step does to the loop of a received event that it does not go on with. -/
theorem roundMove (h : RoomsMove t t' op) (hc : c.Sound t) :
    RoundMove t.setsOf t'.setsOf (c.round t) (c.round t') [] false := by
  have hsame : t'.loop = t.loop → c.round t' = c.round t := by
    intro hloop
    rw [Decode.round, Decode.round, hloop]
  cases h with
  | none hrooms | void _ hrooms =>
    rw [hsame hrooms.loop]
    exact .same hrooms.setsOf
  | member _ hrooms _ =>
    rw [hsame hrooms.loop]
    exact .same hrooms.setsOf
  | @joined roomId handler i hj hloop _ _ =>
    have hround : c.round t' = (c.round t).map (Round.joined i handler) := by
      unfold Decode.round
      split
      · next m next hstage =>
        rw [Option.map_some, Round.joined, hloop]
        dsimp only
        by_cases hi : i = c.room
        · subst hi
          rw [if_pos rfl, if_pos rfl, ahead_append (hc.bound m next hstage)]
        · rw [if_neg hi, if_neg (Ne.symm hi)]
      · rfl
    rw [hround]
    exact .of_joins hj
  | @left roomId handler i k _ hl hloop _ _ =>
    have hround : c.round t' = (c.round t).map (Round.left i handler) := by
      unfold Decode.round
      split
      · next m next hstage =>
        rw [Option.map_some, Round.left, hloop]
        dsimp only
        by_cases hi : i = c.room
        · subst hi
          rw [if_pos rfl, if_pos rfl, ahead_filter]
        · rw [if_neg hi, if_neg (Ne.symm hi)]
      · rfl
    rw [hround]
    exact .of_leaves hl

end RoomsMove

namespace NostrSignaling

variable {s : NostrSignaling} {roomId : JsString} {handler : Nat}

/-! ## What a step does to the rooms -/

/-- The call of `subscribe` that an event is, or the one that it undoes. -/
def op (s : NostrSignaling) : Event → Option (Op JsString Nat)
  | .subscribe roomId handler _ =>
    if s.closed || s.v2KatError then none else some (.subscribe roomId handler)
  | .unsubscribe k => some (.undo k)
  | _ => none

theorem loop_state {i : Nat} {room : RoomState} (h : s.roomStates[i]? = some room) :
    s.roomsOf.loop i = room.handlers ∧ s.roomsOf.added i = room.added := by
  simp [Rooms.loop, Rooms.added, roomsOf, h]

theorem loop_without (handler : Nat) {i : Nat} {room : RoomState}
    (h : s.roomStates[i]? = some room) :
    (s.roomsOf.loop i).filter (fun h => h.2 ≠ handler) = (room.without handler).handlers := by
  rw [(loop_state h).1]
  rfl

/-- A room's handlers, if it has any, are those of a subscription that is there. -/
theorem state_of_loop {i : Nat} (h : s.roomsOf.setsOf.elements i ≠ []) :
    ∃ room, s.roomStates[i]? = some room := by
  cases hr : s.roomStates[i]? with
  | none =>
    refine absurd ?_ h
    simp [Rooms.setsOf, Rooms.loop, roomsOf, hr]
  | some room => exact ⟨room, rfl⟩

theorem mem_handlers {hs : List (Nat × Nat)} :
    handler ∈ hs.map Prod.snd ↔ (hs.any fun h => h.2 = handler) = true := by
  simp

theorem subscribe_move (htidy : s.roomsOf.setsOf.Tidy) {t : Rooms}
    (h : Subscribed s roomId handler t) :
    RoomsMove s.roomsOf t
      (if s.closed || s.v2KatError then none else some (.subscribe roomId handler)) := by
  cases h with
  | refused hrefused =>
    have hboth : (s.closed || s.v2KatError) = true := by
      rcases hrefused with hclosed | hkat
      · rw [hclosed, Bool.true_or]
      · rw [hkat, Bool.or_true]
    rw [if_pos hboth]
    exact .none (.refl _)
  | @joined i hopen hkat hget =>
    rw [hopen, hkat]
    obtain ⟨room, hroom⟩ := state_of_loop (htidy.current roomId i hget)
    have hlt := (List.getElem?_eq_some_iff.mp hroom).1
    obtain ⟨hloop, hadded⟩ := loop_state hroom
    have hmembers : s.roomsOf.setsOf.members roomId = room.handlers.map Prod.snd := by
      rw [Sets.members_index hget]
      exact congrArg (List.map Prod.snd) hloop
    by_cases hmem : handler ∈ room.handlers.map Prod.snd
    · have hadd : room.add handler = room := if_pos (mem_handlers.mp hmem)
      have hstates : s.roomStates.modify i (fun room => room.add handler) = s.roomStates := by
        refine List.ext_getElem? fun j => ?_
        rw [List.getElem?_modify]
        split
        · next hij =>
          subst hij
          rw [hroom]
          exact congrArg some hadd
        · cases s.roomStates[j]? <;> rfl
      refine .member (hmembers ▸ hmem) ?_ rfl
      rw [hstates]
      exact .refl _
    · have hadd : room.add handler = { room with
          handlers := room.handlers ++ [(room.added, handler)]
          added := room.added + 1 } := if_neg fun hany => hmem (mem_handlers.mpr hany)
      have hloops : ∀ j, Rooms.loop ⟨s.rooms, s.roomStates.modify i fun room => room.add handler,
          s.subCounter, s.unsubscribes ++ [(roomId, handler)]⟩ j =
            if i = j then s.roomsOf.loop j ++ [(s.roomsOf.added j, handler)]
            else s.roomsOf.loop j := by
        intro j
        simp only [Rooms.loop, Rooms.added, roomsOf, List.getElem?_modify]
        split
        · next hij =>
          subst hij
          simp [hroom, hadd]
        · cases s.roomStates[j]? <;> rfl
      refine .joined (i := i) ⟨.inl hget, ?_, fun j => ?_, fun room' => ?_, ?_⟩ hloops
        (fun j => ?_) rfl
      · rw [← Sets.members_index hget, hmembers]
        exact hmem
      · simp only [Rooms.setsOf, hloops]
        split <;> simp
      · split
        · next hsame => rw [hsame]; exact hget
        · rfl
      · rw [if_neg (Nat.ne_of_lt (show i < s.roomsOf.setsOf.length from hlt))]
        exact List.length_modify ..
      · simp only [Rooms.added, roomsOf, List.getElem?_modify]
        split
        · next hij =>
          subst hij
          simp [hroom, hadd]
        · cases s.roomStates[j]? <;> rfl
  | opened hopen hkat hnone =>
    rw [hopen, hkat]
    have hout : s.roomsOf.loop s.roomStates.length = [] := by simp [Rooms.loop, roomsOf]
    have hfirst : s.roomsOf.added s.roomStates.length = 0 := by simp [Rooms.added, roomsOf]
    have hstate : ∀ j, (s.roomStates ++ [RoomState.opened (s.newSubId roomId) handler])[j]? =
        if s.roomStates.length = j then some (.opened (s.newSubId roomId) handler)
        else s.roomStates[j]? := by
      intro j
      rcases Nat.lt_trichotomy j s.roomStates.length with hlt | heq | hgt
      · rw [List.getElem?_append_left hlt, if_neg (Nat.ne_of_gt hlt)]
      · subst heq
        simp
      · rw [if_neg (Nat.ne_of_lt hgt), List.getElem?_eq_none (Nat.le_of_lt hgt),
          List.getElem?_eq_none]
        rw [List.length_append, List.length_singleton]
        exact hgt
    have hloops : ∀ j, Rooms.loop ⟨s.rooms.set roomId s.roomStates.length,
        s.roomStates ++ [.opened (s.newSubId roomId) handler], (s.subCounter + 1) % 0xffffff,
        s.unsubscribes ++ [(roomId, handler)]⟩ j =
          if s.roomStates.length = j then s.roomsOf.loop j ++ [(s.roomsOf.added j, handler)]
          else s.roomsOf.loop j := by
      intro j
      simp only [Rooms.loop, hstate]
      split
      · next hj =>
        subst hj
        have hout' := hout
        have hfirst' := hfirst
        simp only [Rooms.loop] at hout'
        rw [hfirst', hout']
        rfl
      · rfl
    refine .joined (i := s.roomStates.length) ⟨.inr ⟨hnone, rfl⟩, ?_, fun j => ?_,
      fun room' => ?_, ?_⟩ hloops (fun j => ?_) rfl
    · simp [Rooms.setsOf, hout]
    · simp only [Rooms.setsOf, hloops]
      split <;> simp
    · exact InsMap.get_set ..
    · simp [Rooms.setsOf, roomsOf]
    · simp only [Rooms.added, hstate]
      split
      · next hj =>
        subst hj
        have hfirst' := hfirst
        simp only [Rooms.added] at hfirst'
        rw [hfirst']
        rfl
      · rfl

theorem without_set (handler : Nat) {i : Nat} {room : RoomState}
    (hroom : s.roomStates[i]? = some room) (t : Rooms) (ht : t.roomStates = s.roomStates.set i (room.without handler)) :
    (∀ j, t.loop j = if i = j then (s.roomsOf.loop j).filter (fun h => h.2 ≠ handler)
      else s.roomsOf.loop j) ∧ t.added = s.roomsOf.added := by
  have hlt := (List.getElem?_eq_some_iff.mp hroom).1
  refine ⟨fun j => ?_, funext fun j => ?_⟩
  · simp only [Rooms.loop, ht, roomsOf]
    split
    · next hij =>
      subst hij
      rw [List.getElem?_set_self hlt, hroom]
      rfl
    · next hij => rw [List.getElem?_set_ne hij]
  · simp only [Rooms.added, ht, roomsOf]
    by_cases hij : i = j
    · subst hij
      rw [List.getElem?_set_self hlt, hroom]
      rfl
    · rw [List.getElem?_set_ne hij]

theorem filter_elements {loop : List (Nat × Nat)} :
    (loop.filter fun h => h.2 ≠ handler).map Prod.snd =
      (loop.map Prod.snd).filter (· ≠ handler) := by
  rw [List.filter_map]
  rfl

theorem unsubscribe_move (htidy : s.roomsOf.setsOf.Tidy) {k : Nat}
    {p : NostrSignaling × List Out} (h : Unsubscribed s k p) :
    RoomsMove s.roomsOf p.1.roomsOf (some (.undo k)) := by
  cases h with
  | void hvoid =>
    refine .void (fun roomId handler hk => ?_) (.refl _)
    by_contra hsome
    obtain ⟨i, hget⟩ := Option.ne_none_iff_exists'.mp hsome
    obtain ⟨room, hroom⟩ := state_of_loop (htidy.current roomId i hget)
    rw [hvoid roomId handler i hk hget] at hroom
    cases hroom
  | @left roomId handler i room hk hget hroom hmore =>
    obtain ⟨hloop, hadded⟩ := without_set handler hroom
      (roomsOf { s with roomStates := s.roomStates.set i (room.without handler) }) rfl
    refine .left hk ⟨hget, fun j => ?_, fun room' => ?_, List.length_set ..⟩ hloop hadded rfl
    · simp only [Rooms.setsOf, hloop]
      split
      · exact filter_elements
      · rfl
    · have hsome : Rooms.loop (roomsOf { s with
          roomStates := s.roomStates.set i (room.without handler) }) i ≠ [] := by
        rw [hloop, if_pos rfl, loop_without handler hroom]
        exact hmore
      rw [if_neg fun h => hsome (List.map_eq_nil_iff.mp h.2)]
      rfl
  | @last roomId handler i room hk hget hroom hempty =>
    obtain ⟨hloop, hadded⟩ := without_set handler hroom
      (roomsOf { s with
        roomStates := s.roomStates.set i (room.without handler)
        rooms := s.rooms.delete roomId }) rfl
    refine .left hk ⟨hget, fun j => ?_, fun room' => ?_, List.length_set ..⟩ hloop hadded rfl
    · simp only [Rooms.setsOf, hloop]
      split
      · exact filter_elements
      · rfl
    · have hnone : Rooms.loop (roomsOf { s with
          roomStates := s.roomStates.set i (room.without handler)
          rooms := s.rooms.delete roomId }) i = [] := by
        rw [hloop, if_pos rfl, loop_without handler hroom]
        exact hempty
      refine (s.rooms.get_delete roomId room').trans ?_
      by_cases hsame : room' = roomId
      · rw [if_pos hsame, if_pos ⟨hsame, List.map_eq_nil_iff.mpr hnone⟩]
      · rw [if_neg hsame, if_neg fun h => hsame h.1]
        rfl

theorem unsubscribe_outside (htidy : s.roomsOf.setsOf.Tidy) {k : Nat} {p : NostrSignaling × List Out}
    (h : Unsubscribed s k p)
    (hout : ∀ roomId handler, s.unsubscribes[k]? = some (roomId, handler) →
      handler ∉ s.roomsOf.setsOf.members roomId) : p = (s, []) := by
  have hwithout : ∀ {roomId handler i} {room : RoomState},
      s.unsubscribes[k]? = some (roomId, handler) → s.rooms.get roomId = some i →
      s.roomStates[i]? = some room → room.without handler = room := by
    intro roomId handler i room hk hget hroom
    have hnot := hout roomId handler hk
    rw [Sets.members_index hget] at hnot
    have hall : ∀ h ∈ room.handlers, h.2 ≠ handler := by
      rintro h hh rfl
      refine hnot (List.mem_map_of_mem (f := Prod.snd) ?_)
      rw [(loop_state hroom).1]
      exact hh
    rw [RoomState.without, List.filter_eq_self.mpr fun h hh => decide_eq_true (hall h hh)]
  cases h with
  | void _ => rfl
  | left hk hget hroom _ =>
    rw [hwithout hk hget hroom]
    obtain ⟨hlt, rfl⟩ := List.getElem?_eq_some_iff.mp hroom
    rw [List.set_getElem_self hlt]
  | last hk hget hroom hempty =>
    rw [hwithout hk hget hroom] at hempty
    refine absurd ?_ (htidy.current _ _ hget)
    exact List.map_eq_nil_iff.mpr ((loop_state hroom).1.trans hempty)

theorem handleEvent_same (s : NostrSignaling) (subId : JsString) (event : Json) :
    s.roomsOf.Same (s.handleEvent subId event).roomsOf := by
  rw [handleEvent_eq]
  cases htaken : s.taken subId event with
  | none => exact .refl _
  | some t =>
    obtain ⟨roomId, i, room⟩ := t
    have hroom := (taken_some htaken).state
    have hlt := (List.getElem?_eq_some_iff.mp hroom).1
    have hstate : ∀ (j : Nat) (delivered : List (Option Json)) {α : Type} (f : RoomState → α),
        (∀ room delivered, f { room with delivered := delivered } = f room) →
        ((s.roomStates.set i { room with delivered := delivered })[j]?).map f =
          (s.roomStates[j]?).map f := by
      intro j delivered α f hf
      by_cases hij : i = j
      · subst hij
        rw [List.getElem?_set_self hlt, hroom]
        exact congrArg some (hf room delivered)
      · rw [List.getElem?_set_ne hij]
    refine ⟨rfl, funext fun j => ?_, funext fun j => ?_, List.length_set .., rfl⟩
    · exact congrArg (·.getD []) (hstate j _ (fun room => room.handlers) fun _ _ => rfl)
    · exact congrArg (·.getD 0) (hstate j _ (fun room => room.added) fun _ _ => rfl)

theorem still_rooms (L : Libraries) {ev : Event} (hev : ¬OnRooms ev) :
    (step L s ev).1.roomsOf = s.roomsOf := by
  have hspares := s.step_spares L ev
  have hquiet : ∀ roomId handler ctorOk, ev ≠ .subscribe roomId handler ctorOk := by
    rintro roomId handler ctorOk rfl
    exact hev trivial
  unfold roomsOf
  rw [hspares.rooms hev, hspares.roomStates hev, hspares.subCounter hquiet,
    hspares.unsubscribes hquiet]

theorem step_rooms (L : Libraries) (htidy : s.roomsOf.setsOf.Tidy) {ev : Event}
    (hev : ev ≠ .close) : RoomsMove s.roomsOf (step L s ev).1.roomsOf (s.op ev) := by
  by_cases hrooms : OnRooms ev
  · cases ev with
    | close => exact absurd rfl hev
    | subscribe roomId handler ctorOk =>
      exact subscribe_move htidy (s.subscribe_rooms roomId handler ctorOk)
    | unsubscribe k => exact unsubscribe_move htidy (s.unsubscribe_inv k)
    | message i data =>
      refine .none ?_
      simp only [step, onRelayMessage]
      split
      · split
        · exact handleEvent_same ..
        · obtain ⟨_, _, hw⟩ := callAck_writes (s.noteAnswer _ _ _) _ _ _
          rw [hw]
          exact .refl _
      · exact .refl _
    | _ => exact hrooms.elim
  · have hop : s.op ev = none := by
      cases ev with
      | subscribe _ _ _ | unsubscribe _ => exact absurd trivial hrooms
      | _ => rfl
    rw [still_rooms L hrooms, hop]
    exact .none (.refl _)

/-! ## What a step does to the received events -/

/-- What a step does to a received event, with the handlers it calls for it. -/
inductive DecodeMove (s : NostrSignaling) (ev : Event) (c : Decode) : Decode → List Nat → Prop
  | kept : DecodeMove s ev c c []
  | waits {stage : DecodeStage} : ¬OnRooms ev → (∀ m next, c.stage ≠ .dispatching m next) →
      (∀ m next, stage ≠ .dispatching m next) → DecodeMove s ev c { c with stage := stage } []
  | begins {m : Json} : ¬OnRooms ev → (∀ m next, c.stage ≠ .dispatching m next) →
      DecodeMove s ev c { c with stage := .dispatching m 0 } []
  | calls {m : Json} {next : Nat} {h : Nat × Nat} : ¬OnRooms ev → c.stage = .dispatching m next →
      (s.roomsOf.loop c.room).find? (fun h => next ≤ h.1) = some h →
      DecodeMove s ev c { c with stage := .dispatching m (h.1 + 1) } [h.2]
  | ends {m : Json} {next : Nat} : ¬OnRooms ev → c.stage = .dispatching m next →
      (s.roomsOf.loop c.room).find? (fun h => next ≤ h.1) = none →
      DecodeMove s ev c { c with stage := .done } []

/-- The handlers a step calls for a received event. -/
def calledFor (s : NostrSignaling) (ev : Event) (d : Nat) : List Nat :=
  match ev with
  | .dispatch e => if e = d then (s.dispatch e).2.filterMap Out.handler? else []
  | _ => []

theorem setDecode_get {d e : Nat} {c : Decode} (hc : s.decodes[d]? = some c)
    (stage : DecodeStage) : (s.setDecode e stage).decodes[d]? =
      some (if e = d then { c with stage := stage } else c) := by
  simp only [setDecode, List.getElem?_modify, hc]
  split <;> rfl

/-- A received event whose content is being decoded. -/
theorem waits_move {d e : Nat} {c c₀ : Decode} {ev : Event} (hev : ¬OnRooms ev)
    (hc : s.decodes[d]? = some c) (he : s.decodes[e]? = some c₀) {stage : DecodeStage}
    (hbefore : ∀ m next, c₀.stage ≠ .dispatching m next)
    (hafter : ∀ m next, stage ≠ .dispatching m next) :
    ∃ c', (s.setDecode e stage).decodes[d]? = some c' ∧ DecodeMove s ev c c' [] := by
  refine ⟨_, setDecode_get hc stage, ?_⟩
  split
  · next hed =>
    subst hed
    obtain rfl := Option.some.inj (hc.symm.trans he)
    exact .waits hev hbefore hafter
  · exact .kept

theorem dispatch_decode {d e : Nat} {c : Decode} (hc : s.decodes[d]? = some c) :
    ∃ c', (s.dispatch e).1.decodes[d]? = some c' ∧
      DecodeMove s (.dispatch e) c c'
        (if e = d then (s.dispatch e).2.filterMap Out.handler? else []) := by
  have hrooms : ¬OnRooms (.dispatch e) := fun h => h
  by_cases hed : e = d
  · subst hed
    rw [if_pos rfl]
    obtain ⟨roomId, i, content, stage⟩ := c
    unfold dispatch
    rw [hc]
    cases stage with
    | kat | key | done => exact ⟨_, hc, .kept⟩
    | decoded message =>
      cases message with
      | none =>
        refine ⟨_, setDecode_get hc _, ?_⟩
        rw [if_pos rfl]
        exact .waits hrooms (fun _ _ h => (by cases h)) fun _ _ h => (by cases h)
      | some m =>
        refine ⟨_, setDecode_get hc _, ?_⟩
        rw [if_pos rfl]
        by_cases htruthy : truthy (some m) = true
        · rw [if_pos htruthy]
          exact .begins hrooms fun _ _ h => (by cases h)
        · rw [if_neg htruthy]
          exact .waits hrooms (fun _ _ h => (by cases h)) fun _ _ h => (by cases h)
    | dispatching m next =>
      dsimp only
      cases hfind : ((s.roomStates[i]?.map fun room => room.handlers).getD []).find?
          fun h => next ≤ h.1 with
      | some h =>
        refine ⟨_, setDecode_get hc _, ?_⟩
        rw [if_pos rfl]
        exact .calls hrooms rfl hfind
      | none =>
        refine ⟨_, setDecode_get hc _, ?_⟩
        rw [if_pos rfl]
        exact .ends hrooms rfl hfind
  · rw [if_neg hed]
    refine ⟨c, ?_, .kept⟩
    unfold dispatch
    split
    · split
      · rw [setDecode_get hc, if_neg hed]
      · rw [setDecode_get hc, if_neg hed]
    · split
      · rw [setDecode_get hc, if_neg hed]
      · rw [setDecode_get hc, if_neg hed]
    · exact hc

theorem step_decode (L : Libraries) (ev : Event) {d : Nat} {c : Decode}
    (hc : s.decodes[d]? = some c) : ∃ c', (step L s ev).1.decodes[d]? = some c' ∧
      DecodeMove s ev c c' (s.calledFor ev d) := by
  by_cases hev : OnDecodes ev
  · cases ev with
    | message i data =>
      refine ⟨c, ?_, .kept⟩
      simp only [step, onRelayMessage]
      split
      · split
        · rw [handleEvent_eq]
          cases s.taken _ _ with
          | none => exact hc
          | some t =>
            have hd := (List.getElem?_eq_some_iff.mp hc).1
            exact (List.getElem?_append_left hd).trans hc
        · obtain ⟨_, _, hw⟩ := callAck_writes (s.noteAnswer _ _ _) _ _ _
          rw [hw]
          exact hc
      · exact hc
    | decodeKat e =>
      have hrooms : ¬OnRooms (.decodeKat e) := fun h => h
      simp only [step, decodeKat]
      split
      · next roomId _ _ _ he _ =>
        split
        · obtain ⟨_, hw⟩ := s.getV2RoomKey_writes roomId
          rw [hw]
          exact waits_move (s := s) hrooms hc he (fun _ _ h => by cases h) fun _ _ h => by cases h
        · exact waits_move hrooms hc he (fun _ _ h => by cases h) fun _ _ h => by cases h
      · exact ⟨c, hc, .kept⟩
    | decodeKey e =>
      have hrooms : ¬OnRooms (.decodeKey e) := fun h => h
      simp only [step, decodeKey]
      split
      · next he =>
        split
        · exact waits_move hrooms hc he (fun _ _ h => by cases h) fun _ _ h => by cases h
        · exact waits_move hrooms hc he (fun _ _ h => by cases h) fun _ _ h => by cases h
        · exact ⟨c, hc, .kept⟩
      · exact ⟨c, hc, .kept⟩
    | dispatch e => exact dispatch_decode hc
    | _ => exact hev.elim
  · refine ⟨c, by rw [s.step_decodes L hev, hc], ?_⟩
    cases ev with
    | dispatch e => exact absurd trivial hev
    | _ => exact .kept

/-- A received event is new because its frame was handed on: it is to be decoded. -/
theorem step_new (L : Libraries) {ev : Event} {d : Nat} {c : Decode}
    (hnone : s.decodes[d]? = none) (hd : (step L s ev).1.decodes[d]? = some c) :
    s.rooms.get c.roomId = some c.room ∧ ∀ m next, c.stage ≠ .dispatching m next := by
  have hon : OnDecodes ev := by
    by_contra hoff
    rw [s.step_decodes L hoff, hnone] at hd
    cases hd
  have hlt := (List.getElem?_eq_some_iff.mp hd).1
  have hge := List.getElem?_eq_none_iff.mp hnone
  cases ev with
  | message i data =>
    simp only [step, onRelayMessage] at hd
    split at hd
    · split at hd
      · next subId event _ =>
        rw [handleEvent_eq] at hd
        cases htaken : s.taken subId event with
        | none =>
          rw [htaken] at hd
          exact absurd (hnone.symm.trans hd) (by simp)
        | some t =>
          rw [htaken] at hd
          have hlast : c = ⟨t.1, t.2.1, event.get? (js "content"),
              s.decodeStage (event.get? (js "content"))⟩ := by
            have hget : (s.decodes ++ [Decode.mk t.1 t.2.1 (event.get? (js "content"))
                (s.decodeStage (event.get? (js "content")))])[d]? = some c := hd
            rw [List.getElem?_append_right hge] at hget
            have hzero := (List.getElem?_eq_some_iff.mp hget).1
            have hd0 : d - s.decodes.length = 0 := by simpa using hzero
            rw [hd0] at hget
            exact (Option.some.inj hget).symm
          obtain ⟨roomId, k, room⟩ := t
          rw [hlast]
          refine ⟨(taken_some htaken).current, fun m next h => ?_⟩
          unfold decodeStage at h
          repeat' split at h
          all_goals cases h
      · obtain ⟨_, _, hw⟩ := callAck_writes (s.noteAnswer _ _ _) _ _ _
        rw [hw] at hd
        exact absurd (hnone.symm.trans hd) (by simp)
    · exact absurd (hnone.symm.trans hd) (by simp)
  | decodeKat e =>
    have hlength := congrArg List.length (s.decodeKat_rooms e)
    simp only [List.length_map] at hlength
    simp only [step] at hlt
    omega
  | decodeKey e =>
    have hlength := congrArg List.length (decodeKey_rooms L s e)
    simp only [List.length_map] at hlength
    simp only [step] at hlt
    omega
  | dispatch e =>
    have hlength := congrArg List.length (s.dispatch_rooms e)
    simp only [List.length_map] at hlength
    simp only [step] at hlt
    omega
  | _ => exact hon.elim

/-! ## The adapter as a client -/

def round (s : NostrSignaling) (d : Nat) : Option (Round JsString Nat) :=
  (s.decodes[d]?).bind (Decode.round s.roomsOf)

/-- The step begins to hand on the message of the received event. -/
def starts (L : Libraries) (s : NostrSignaling) (ev : Event) (d : Nat) : Bool :=
  (s.round d).isNone && ((step L s ev).1.round d).isSome

/-- A message is due to the handlers while its subscription is the one of the room. -/
def client (L : Libraries) : Client NostrSignaling Event Out JsString Nat Nat where
  step := step L
  sets s := s.roomsOf.setsOf
  calls := unsubscribes
  op := op
  round := round
  starts := starts L
  called := calledFor
  due t r := r.Current t

/-- The sets are in order, with the places in them, and every received event is sound. -/
structure Steady (s : NostrSignaling) : Prop where
  tidy : s.roomsOf.setsOf.Tidy
  placed : s.roomsOf.Placed
  sound : ∀ (d : Nat) (c : Decode), s.decodes[d]? = some c → c.Sound s.roomsOf

section
variable {ev : Event} {c c' : Decode} {calls : List Nat} (L : Libraries)

theorem DecodeMove.sound (hm : DecodeMove s ev c c' calls) (h : s.Steady) (hev : ev ≠ .close)
    (hc : c.Sound s.roomsOf) : c'.Sound (step L s ev).1.roomsOf := by
  cases hm with
  | kept => exact (step_rooms L h.tidy hev).sound h.tidy hc
  | waits hoff _ hafter =>
    rw [still_rooms L hoff]
    exact ⟨hc.held, fun m next hstage => absurd hstage (hafter m next)⟩
  | begins hoff _ =>
    rw [still_rooms L hoff]
    refine ⟨hc.held, fun m next hstage => ?_⟩
    cases hstage
    exact Nat.zero_le _
  | calls hoff _ hfind =>
    rw [still_rooms L hoff]
    refine ⟨hc.held, fun m next hstage => ?_⟩
    cases hstage
    exact h.placed.below _ _ (List.mem_of_find?_eq_some hfind)
  | ends hoff _ _ =>
    rw [still_rooms L hoff]
    exact ⟨hc.held, fun m next hstage => by cases hstage⟩

theorem step_steady (h : s.Steady) (hev : ev ≠ .close) : (step L s ev).1.Steady := by
  have hrooms := step_rooms L h.tidy hev
  have hmove := hrooms.opMove.setMove
  refine ⟨hmove.tidy h.tidy, hrooms.placed h.placed, fun d c hd => ?_⟩
  cases hwas : s.decodes[d]? with
  | some c₀ =>
    obtain ⟨c', hc', hdecode⟩ := step_decode L ev hwas
    obtain rfl := Option.some.inj (hd.symm.trans hc')
    exact hdecode.sound L h hev (h.sound d c₀ hwas)
  | none =>
    obtain ⟨hget, hstage⟩ := step_new L hwas hd
    have hheld : s.roomsOf.setsOf.Held c.roomId c.room :=
      ⟨h.tidy.bound _ (h.tidy.current _ _ hget), fun _ => hget⟩
    exact ⟨hmove.held h.tidy hheld, fun m next heq => absurd heq (hstage m next)⟩

theorem DecodeMove.roundMove (hm : DecodeMove s ev c c' calls) (h : s.Steady) (hev : ev ≠ .close)
    (hc : c.Sound s.roomsOf) :
    RoundMove s.roomsOf.setsOf (step L s ev).1.roomsOf.setsOf (c.round s.roomsOf)
      (c'.round (step L s ev).1.roomsOf) calls
      ((c.round s.roomsOf).isNone && (c'.round (step L s ev).1.roomsOf).isSome) := by
  cases hm with
  | kept =>
    have hkept := (step_rooms L h.tidy hev).roundMove hc
    have hquiet : ((c.round s.roomsOf).isNone &&
        (c.round (step L s ev).1.roomsOf).isSome) = false := by
      unfold Decode.round
      split <;> rfl
    rw [hquiet]
    exact hkept
  | waits hoff hbefore hafter =>
    rw [still_rooms L hoff, Decode.round_none hbefore,
      Decode.round_none (c := { c with stage := _ }) hafter]
    exact .idle
  | @begins m hoff hbefore =>
    rw [still_rooms L hoff, Decode.round_none hbefore,
      Decode.round_eq (c := { c with stage := .dispatching m 0 }) rfl, ahead_zero]
    exact .started rfl (fun r hr => by cases hr) hc.held
  | @calls m next h' hoff hstage hfind =>
    rw [still_rooms L hoff, Decode.round_eq hstage,
      Decode.round_eq (c := { c with stage := .dispatching m (h'.1 + 1) }) rfl,
      ahead_find (h.placed.sorted c.room) hfind]
    exact .called rfl
  | ends hoff hstage hfind =>
    rw [still_rooms L hoff, Decode.round_eq hstage, ahead_none hfind,
      Decode.round_none (c := { c with stage := .done }) fun _ _ heq => by cases heq]
    exact .ended rfl

theorem step_round (h : s.Steady) (hev : ev ≠ .close) (d : Nat) :
    RoundMove s.roomsOf.setsOf (step L s ev).1.roomsOf.setsOf (s.round d)
      ((step L s ev).1.round d) (s.calledFor ev d) (s.starts L ev d) := by
  unfold starts
  cases hwas : s.decodes[d]? with
  | some c =>
    obtain ⟨c', hc', hdecode⟩ := step_decode L ev hwas
    have hround : s.round d = c.round s.roomsOf := by rw [round, hwas, Option.bind_some]
    have hround' : (step L s ev).1.round d = c'.round (step L s ev).1.roomsOf := by
      rw [round, hc', Option.bind_some]
    rw [hround, hround']
    exact hdecode.roundMove L h hev (h.sound d c hwas)
  | none =>
    have hround : s.round d = none := by rw [round, hwas, Option.bind_none]
    have hround' : (step L s ev).1.round d = none := by
      cases hnow : (step L s ev).1.decodes[d]? with
      | none => rw [round, hnow, Option.bind_none]
      | some c => rw [round, hnow, Option.bind_some, Decode.round_none (step_new L hwas hnow).2]
    have hcalled : s.calledFor ev d = [] := by
      cases ev with
      | dispatch e =>
        simp only [calledFor]
        split
        · next hed =>
          subst hed
          simp [dispatch, hwas]
        · rfl
      | _ => rfl
    rw [hround, hround', hcalled]
    exact .idle

theorem client_laws : (client L).Laws Steady (· ≠ .close) where
  tidy h := h.tidy
  keeps h hev := step_steady L h hev
  moves h hev := (step_rooms L h.tidy hev).opMove
  idle := by
    intro s ev k h hop hout
    have hev : ev = .unsubscribe k := by
      cases ev with
      | unsubscribe j =>
        have hj : j = k := by simpa [client, op] using hop
        rw [hj]
      | subscribe roomId handler ctorOk =>
        simp only [client, op] at hop
        split at hop <;> cases hop
      | _ => cases hop
    subst hev
    exact unsubscribe_outside h.tidy (s.unsubscribe_inv k) hout
  rounds := by
    intro s ev h hev d
    exact step_round L h hev d

theorem new_steady (relays : List JsString) (v2Enabled : Bool) : (new relays v2Enabled).Steady where
  tidy := ⟨fun _ => List.nodup_nil, fun _ _ h => (by cases h), fun _ _ _ h => (by cases h),
    fun _ h => absurd rfl h⟩
  placed := ⟨fun _ => .nil, fun _ _ h => by cases h⟩
  sound _ _ h := by cases h

theorem client_fresh (relays : List JsString) (v2Enabled : Bool) :
    (client L).Fresh (new relays v2Enabled) where
  calls := rfl
  members _ := rfl
  round _ := rfl

/-- A run is faithful exactly when nobody undoes a call beside another one of its handler. -/
theorem faithful_iff (relays : List JsString) (v2Enabled : Bool) {evs : List Event}
    (hopen : ∀ ev ∈ evs, ev ≠ .close) :
    (client L).Faithful (new relays v2Enabled) evs ↔ ∀ pre ev, pre ++ [ev] <+: evs →
      Alone ((client L).ledger (new relays v2Enabled) pre)
        (op (after (step L) (new relays v2Enabled) pre) ev) := by
  rw [Client.faithful_iff (client_laws L) (new_steady relays v2Enabled)
    (client_fresh L relays v2Enabled) hopen]
  refine forall₃_congr fun pre ev _ => ⟨fun h => h.1, fun h => ⟨h, fun _ _ _ _ hdue => .inr hdue⟩⟩

end

end NostrSignaling

end Senn.Nostr

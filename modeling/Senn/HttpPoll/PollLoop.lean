import Senn.HttpPoll.Subscriptions

/-! # How long a room is polled

`runPollLoop` leaves its loop where the adapter is closed, where its own controller is
aborted, and where an error reads as an `AbortError`, whoever raised it. A room that still has
a subscriber is polled on in every run in which no error of the last kind comes up there. -/

namespace Senn.HttpPoll
open Senn.Js Senn.Lib Senn.Lib.Machine

/-- What a promise is rejected with, as far as the `catch` of `runPollLoop` looks at it. -/
inductive Reason where
  | named (name : Option JsString)
  | nullish                       -- has no `name` to read: the `catch` itself throws
deriving DecidableEq

/-- The `catch` of `runPollLoop` leaves the loop. -/
def Reason.leaves : Reason → Bool
  | .named name => name = some (js "AbortError")
  | .nullish => true

namespace HttpPollSignaling

variable {s : HttpPollSignaling} {roomId : JsString} {ev : Event} {r r' : Room} {i : Nat}

/-- The adapter is open and the room has a subscriber. -/
def Alive (s : HttpPollSignaling) (r : Room) : Prop := s.closed = false ∧ r.handlers ≠ []

/-- The turns of the response at hand bring the room to its interval, whichever handlers
throw, and the end of the interval to the next poll. -/
def Resumes (s : HttpPollSignaling) (i : Nat) (r : Room) : Prop :=
  ∃ turns, ∀ throws : List Bool, throws.length = turns → ∃ query,
    .get i r.roomId query ∈ outputs step s (throws.map (.turn i) ++ [.elapsed i])

/-- A room that has a subscriber is polled: its loop waits for a response, or comes to the next
poll by itself. -/
def KeepsPolling (s : HttpPollSignaling) : Prop :=
  ∀ i r, s.roomStates[i]? = some r → s.Alive r →
    r.stage = .fetching ∨ r.stage = .reading ∨ s.Resumes i r

/-- The poll of the room is rejected for a reason that leaves the loop. -/
def Leaves (i : Nat) (r : Room) : Event → Prop
  | .fetched j (.rejected abort) => j = i ∧ r.stage = .fetching ∧ abort = true
  | .read j (.rejected abort) => j = i ∧ r.stage = .reading ∧ abort = true
  | _ => False

/-- No poll of a room that has a subscriber is rejected in such a way. -/
def Undisturbed (s : HttpPollSignaling) (ev : Event) : Prop :=
  ∀ i r, s.roomStates[i]? = some r → s.Alive r → ¬Leaves i r ev

/-! ## The stages of a room that is alive -/

/-- The loop of the room goes on. -/
structure Looping (r : Room) : Prop where
  aborted : r.aborted = false
  stage : r.stage ≠ .returned

theorem pause_looping (h : r.aborted = false) : Looping (r.pause false) := by
  refine ⟨h, ?_⟩
  simp [Room.pause, h]

theorem failed_looping (h : r.aborted = false) {abort : Bool} (hstays : abort ≠ true) :
    Looping (r.failed false abort) := by
  rw [Bool.eq_false_iff.mpr hstays]
  exact pause_looping h

/-- An event of the room ends its loop only by a rejection that leaves it. -/
theorem own_looping (hev : ev.room? = some i) (h : Looping r) (hleaves : ¬Leaves i r ev) :
    Looping (r.step i false ev).1 := by
  have hpaused := pause_looping h.aborted
  unfold Room.step
  split
  · next j outcome hstage =>
    obtain rfl := Option.some.inj hev
    cases outcome with
    | rejected abort => exact failed_looping h.aborted fun habort => hleaves ⟨rfl, hstage, habort⟩
    | responded ok =>
      cases ok with
      | true => exact ⟨h.aborted, by simp [Room.fetched]⟩
      | false => exact failed_looping h.aborted Bool.false_ne_true
  · next j outcome hstage =>
    obtain rfl := Option.some.inj hev
    cases outcome with
    | rejected abort => exact failed_looping h.aborted fun habort => hleaves ⟨rfl, hstage, habort⟩
    | body json =>
      dsimp only
      unfold Room.read
      dsimp only
      split
      · exact ⟨h.aborted, by simp⟩
      · exact hpaused
  · unfold Room.turn
    split
    · exact ⟨h.aborted, by simp⟩
    · unfold Room.nextItem
      split
      · split
        · exact ⟨h.aborted, by simp⟩
        · exact ⟨h.aborted, by simp⟩
      · exact ⟨h.aborted, by simp⟩
    · exact pause_looping h.aborted
    · exact h
  · rw [Room.elapsed, h.aborted, Bool.or_self, if_neg (by simp)]
    exact ⟨h.aborted, by simp [Room.poll]⟩
  · exact h

/-- Every room of an open adapter that has a subscriber is one whose loop goes on. -/
structure Lively (s : HttpPollSignaling) : Prop where
  steady : s.Steady
  loops : ∀ (i : Nat) (r : Room), s.roomStates[i]? = some r → r.handlers ≠ [] → Looping r

theorem add_looping (h : Looping r) (handler : Nat) : Looping (r.add handler) := by
  unfold Room.add
  split
  · exact h
  · refine ⟨h.aborted, ?_⟩
    have hstage := h.stage
    cases hs : r.stage with
    | returned => exact absurd hs hstage
    | dispatching items cursor turn => cases turn <;> simp [Stage.joined]
    | _ => simp [Stage.joined]

theorem delete_looping (h : Looping r) (handler : Nat) : Looping (r.delete handler) := by
  refine ⟨h.aborted, ?_⟩
  have hstage := h.stage
  unfold Room.delete
  cases hs : r.stage with
  | returned => exact absurd hs hstage
  | dispatching items cursor turn => cases turn <;> simp [Stage.left]
  | _ => simp [Stage.left]

theorem subscribe_loops (h : s.Lively) (roomId : JsString) (handler i : Nat) (r' : Room)
    (hr' : (s.subscribe roomId handler).1.roomStates[i]? = some r') (hhandlers : r'.handlers ≠ []) :
    Looping r' := by
  unfold subscribe at hr'
  split at hr'
  · exact h.loops i r' hr' hhandlers
  · split at hr'
    · next j hj =>
      by_cases hij : j = i
      · subst hij
        have hsome := h.steady.tidy.current roomId j hj
        obtain ⟨r, hr⟩ := state_of_handlers hsome
        have hhad : r.handlers ≠ [] := handlers_of hr ▸ hsome
        rw [List.getElem?_modify_eq, hr] at hr'
        obtain rfl := Option.some.inj hr'
        exact add_looping (h.loops j r hr hhad) handler
      · exact h.loops i r' (by simpa [List.getElem?_modify, hij] using hr') hhandlers
    · simp only [List.getElem?_append] at hr'
      split at hr'
      · exact h.loops i r' hr' hhandlers
      · rw [List.getElem?_singleton] at hr'
        split at hr'
        · obtain rfl := Option.some.inj hr'
          exact add_looping ⟨rfl, by simp [Room.poll]⟩ handler
        · cases hr'

theorem unsubscribe_loops (h : s.Lively) (k i : Nat) (r' : Room)
    (hr' : (s.unsubscribe k).1.roomStates[i]? = some r') (hhandlers : r'.handlers ≠ []) :
    Looping r' := by
  unfold unsubscribe at hr'
  split at hr'
  · exact h.loops i r' hr' hhandlers
  split at hr'
  · exact h.loops i r' hr' hhandlers
  next roomId handler _ _ j hj =>
    split at hr'
    · exact h.loops i r' hr' hhandlers
    · next room hroom =>
      have hlt := (List.getElem?_eq_some_iff.mp hroom).1
      have hhad : room.handlers ≠ [] := handlers_of hroom ▸ h.steady.tidy.current roomId j hj
      have hloop := h.loops j room hroom hhad
      dsimp only at hr'
      split at hr'
      · next hempty =>
        by_cases hij : j = i
        · subst hij
          rw [List.getElem?_set_self hlt] at hr'
          obtain rfl := Option.some.inj hr'
          exact absurd hempty hhandlers
        · exact h.loops i r' (by simpa [List.getElem?_set, hij] using hr') hhandlers
      · by_cases hij : j = i
        · subst hij
          rw [List.getElem?_set_self hlt] at hr'
          obtain rfl := Option.some.inj hr'
          exact delete_looping hloop handler
        · exact h.loops i r' (by simpa [List.getElem?_set, hij] using hr') hhandlers

theorem own_loops (h : s.Lively) (hopen : s.closed = false) (hu : s.Undisturbed ev) {j : Nat}
    (hev : ev.room? = some j) (i : Nat) (r' : Room)
    (hr' : (s.step ev).1.roomStates[i]? = some r') (hhandlers : r'.handlers ≠ []) :
    Looping r' := by
  cases hr : s.roomStates[j]? with
  | none =>
    rw [step_absent hr hev] at hr'
    exact h.loops i r' hr' hhandlers
  | some r =>
    rw [step_own hr hev] at hr'
    by_cases hij : j = i
    · subst hij
      rw [List.getElem?_set_self (List.getElem?_eq_some_iff.mp hr).1] at hr'
      obtain rfl := Option.some.inj hr'
      rw [own_handlers hev] at hhandlers
      rw [hopen]
      exact own_looping hev (h.loops j r hr hhandlers) (hu j r hr ⟨hopen, hhandlers⟩)
    · exact h.loops i r' (by simpa [List.getElem?_set, hij] using hr') hhandlers

theorem step_lively (h : s.Lively) (hopen : s.closed = false) (hu : s.Undisturbed ev)
    (hstill : (s.step ev).1.closed = false) : (s.step ev).1.Lively := by
  have hev : ev ≠ .close := by
    rintro rfl
    simp [step, close, hopen] at hstill
  refine ⟨step_steady h.steady hev, fun i r' hr' hhandlers => ?_⟩
  cases ev with
  | subscribe roomId handler => exact subscribe_loops h roomId handler i r' hr' hhandlers
  | unsubscribe k => exact unsubscribe_loops h k i r' hr' hhandlers
  | close => exact absurd rfl hev
  | closeSettled =>
    have hsame : (s.step .closeSettled).1.roomStates = s.roomStates := by
      simp only [step, closeSettled]
      repeat' split
      all_goals rfl
    rw [hsame] at hr'
    exact h.loops i r' hr' hhandlers
  | fetched j _ | read j _ | turn j _ | elapsed j => exact own_loops h hopen hu rfl i r' hr' hhandlers

/-- Once the adapter is closed it stays so. -/
theorem step_closed (h : s.closed = true) (ev : Event) : (s.step ev).1.closed = true := by
  cases ev with
  | subscribe roomId handler => simp [step, subscribe, h]
  | close => simp [step, close, h]
  | closeSettled =>
    simp only [step, closeSettled]
    repeat' split
    all_goals exact h
  | unsubscribe k =>
    simp only [step, unsubscribe]
    repeat' split
    all_goals exact h
  | fetched i _ | read i _ | turn i _ | elapsed i =>
    simp only [step]
    split <;> exact h

theorem run_lively (evs : List Event) (hu : Guarded step Undisturbed create evs)
    (hopen : (after step create evs).closed = false) : (after step create evs).Lively := by
  induction evs using List.reverseRecOn with
  | nil => exact ⟨create_steady, fun i r hr => by cases hr⟩
  | append_singleton evs ev ih =>
    rw [after_append, after_cons, after_nil] at hopen ⊢
    obtain ⟨hpre, hlast, -⟩ := guarded_append.mp hu
    have hwas : (after step create evs).closed = false := by
      cases hclosed : (after step create evs).closed with
      | false => rfl
      | true => rw [step_closed hclosed ev] at hopen; cases hopen
    exact step_lively (ih hpre hwas) hwas hlast hopen

/-! ## The turns of a response -/

/-- How many turns the response at hand takes at most. -/
def turnsLeft (r : Room) : Nat :=
  match r.stage with
  | .dispatching items _ _ => items.length * (r.handlers.length + 1) + r.todo.length + 1
  | _ => 0

/-- The loop waits for nothing of the endpoint. -/
def Unawaiting (r : Room) : Prop := r.stage ≠ .fetching ∧ r.stage ≠ .reading

/-- A turn brings the loop nearer to its interval. -/
theorem turn_next (h : Looping r) {items : List Json} {cursor : Option Json}
    {turn : Option (Option Json × List Nat)} (hstage : r.stage = .dispatching items cursor turn)
    (i : Nat) (throws : Bool) : turnsLeft (r.turn i false throws).1 < turnsLeft r ∧
      Unawaiting (r.turn i false throws).1 := by
  have hown := own_turn (i := i) ⟨items, cursor, turn, hstage⟩ false throws
  generalize r.turn i false throws = p at hown
  cases hown with
  | idle _ hidle => exact absurd hstage (hidle throws rfl _ _ _)
  | invoked hbefore =>
    refine ⟨?_, by simp [Unawaiting]⟩
    simp [turnsLeft, hbefore, Room.todo, Room.turn?]
  | @item item items cursor turn _ hbefore htodo =>
    have hleft : turnsLeft r = items.length * (r.handlers.length + 1) + r.handlers.length + 2 := by
      simp only [turnsLeft, hbefore, htodo, List.length_cons, List.length_nil]
      ring
    rw [hleft]
    unfold Room.nextItem
    split
    · split
      · exact ⟨by simp [turnsLeft, Room.todo, Room.turn?], by simp [Unawaiting]⟩
      · exact ⟨by simp [turnsLeft, Room.todo, Room.turn?], by simp [Unawaiting]⟩
    · exact ⟨by simp [turnsLeft, Room.todo, Room.turn?], by simp [Unawaiting]⟩
  | done hbefore htodo =>
    simp [turnsLeft, hbefore, Room.pause, h.aborted, Unawaiting]

theorem delaying_resumes (hr : s.roomStates[i]? = some r) (hopen : s.closed = false)
    (haborted : r.aborted = false) (hstage : r.stage = .delaying) : s.Resumes i r := by
  refine ⟨0, fun throws hthrows => ⟨r.query, ?_⟩⟩
  rw [List.length_eq_zero_iff.mp hthrows]
  simp [outputs, step, hr, Room.step, hstage, Room.elapsed, hopen, haborted, Room.poll]

theorem Resumes.turn {items : List Json} {cursor : Option Json}
    {turn : Option (Option Json × List Nat)} (hstage : r.stage = .dispatching items cursor turn)
    (h : (s.step (.turn i false)).1.Resumes i (r.turn i s.closed false).1) : s.Resumes i r := by
  obtain ⟨turns, hturns⟩ := h
  refine ⟨turns + 1, fun throws hthrows => ?_⟩
  cases throws with
  | nil => cases hthrows
  | cons b throws =>
    obtain ⟨query, hquery⟩ := hturns throws (Nat.succ.inj hthrows)
    have hroom : r.step i s.closed (.turn i false) = r.turn i s.closed false := by
      simp [Room.step, hstage]
    have hroomId : (r.turn i s.closed false).1.roomId = r.roomId := by
      rw [← hroom, own_roomId rfl]
    have hsame : (s.step (.turn i b)).1 = (s.step (.turn i false)).1 := by
      cases b with
      | false => rfl
      | true => exact (turn_throws s i).1
    refine ⟨query, ?_⟩
    rw [List.map_cons, List.cons_append, outputs_cons, hsame, ← hroomId]
    exact List.mem_append_right _ hquery

/-- A loop that goes on without waiting for the server is at a delay or at a turn. -/
theorem unawaiting_cases (hloop : Looping r) (hstage : Unawaiting r) : r.stage = .delaying ∨
    ∃ items cursor turn, r.stage = .dispatching items cursor turn := by
  cases hs : r.stage with
  | fetching => exact absurd hs hstage.1
  | reading => exact absurd hs hstage.2
  | returned => exact absurd hs hloop.stage
  | delaying => exact .inl rfl
  | dispatching items cursor turn => exact .inr ⟨items, cursor, turn, rfl⟩

/-- The rank is the number of turns left. -/
theorem resumes (rank : Nat) : ∀ {s : HttpPollSignaling} {r : Room},
    s.roomStates[i]? = some r → s.closed = false → Looping r → Unawaiting r → turnsLeft r ≤ rank →
    s.Resumes i r := by
  induction rank with
  | zero =>
    intro s r hr hopen hloop hstage hrank
    obtain hs | ⟨items, cursor, turn, hs⟩ := unawaiting_cases hloop hstage
    · exact delaying_resumes hr hopen hloop.aborted hs
    · simp [turnsLeft, hs] at hrank
  | succ rank ih =>
    intro s r hr hopen hloop hstage hrank
    obtain hs | ⟨items, cursor, turn, hs⟩ := unawaiting_cases hloop hstage
    · exact delaying_resumes hr hopen hloop.aborted hs
    · have hroom : r.step i false (.turn i false) = r.turn i false false := by
        simp [Room.step, hs]
      have hturn : (Event.turn i false).room? = some i := rfl
      have hstep := step_own hr hturn
      rw [hopen, hroom] at hstep
      have hnext := turn_next hloop hs i false
      have hlooping := own_looping hturn hloop fun h => h
      rw [hroom] at hlooping
      refine Resumes.turn hs ?_
      rw [hopen]
      refine ih (r := (r.turn i false false).1) ?_ ?_ hlooping hnext.2 (by omega)
      · rw [hstep]
        simp [(List.getElem?_eq_some_iff.mp hr).1]
      · rw [hstep]

/-! ## Runs -/

theorem lively_polls (h : s.closed = false → s.Lively) : s.KeepsPolling := by
  intro i r hr halive
  have hloop := (h halive.1).loops i r hr halive.2
  by_cases hfetching : r.stage = .fetching
  · exact .inl hfetching
  by_cases hreading : r.stage = .reading
  · exact .inr (.inl hreading)
  exact .inr (.inr (resumes _ hr halive.1 hloop ⟨hfetching, hreading⟩ (le_refl _)))

/-- A loop that has returned does nothing. -/
theorem returned_step (hr : s.roomStates[i]? = some r) (hstage : r.stage = .returned)
    (hev : ev.room? = some i) : s.step ev = (s, []) := by
  obtain ⟨hlt, hget⟩ := List.getElem?_eq_some_iff.mp hr
  rw [step_own hr hev, own_returned hstage, ← hget, List.set_getElem_self]

theorem returned_silent (hr : s.roomStates[i]? = some r) (hstage : r.stage = .returned) :
    ¬s.Resumes i r := by
  have hsilent : ∀ evs : List Event, (∀ ev ∈ evs, ev.room? = some i) → outputs step s evs = [] := by
    intro evs
    induction evs with
    | nil => intro _; rfl
    | cons ev evs ih =>
      intro hevs
      rw [outputs_cons, returned_step hr hstage (hevs ev List.mem_cons_self), List.nil_append]
      exact ih fun ev hev => hevs ev (List.mem_cons_of_mem _ hev)
  intro h
  obtain ⟨turns, hturns⟩ := h
  obtain ⟨query, hquery⟩ := hturns (List.replicate turns false) List.length_replicate
  rw [hsilent _ fun ev hev => ?_] at hquery
  · cases hquery
  · rcases List.mem_append.mp hev with hturn | hlast
    · obtain ⟨_, _, rfl⟩ := List.mem_map.mp hturn
      rfl
    · rw [List.mem_singleton.mp hlast]
      rfl

/-- A rejection that leaves the loop ends it. -/
theorem leaves_returned (hr : s.roomStates[i]? = some r) (h : Leaves i r ev) :
    (s.step ev).1.closed = s.closed ∧
      (s.step ev).1.roomStates[i]? = some { r with stage := .returned } := by
  have hlt := (List.getElem?_eq_some_iff.mp hr).1
  have hroom : ev.room? = some i ∧ (r.step i s.closed ev).1 = { r with stage := .returned } := by
    cases ev with
    | fetched j outcome =>
      cases outcome with
      | rejected abort =>
        obtain ⟨rfl, hstage, rfl⟩ := h
        exact ⟨rfl, by simp [Room.step, hstage, Room.fetched, Room.failed]⟩
      | responded ok => exact h.elim
    | read j outcome =>
      cases outcome with
      | rejected abort =>
        obtain ⟨rfl, hstage, rfl⟩ := h
        exact ⟨rfl, by simp [Room.step, hstage, Room.read, Room.failed]⟩
      | body json => exact h.elim
    | _ => exact h.elim
  rw [step_own hr hroom.1, hroom.2]
  exact ⟨rfl, by simp [hlt]⟩

/-- In a run every room with a subscriber is polled on exactly where no poll of such a room is
rejected with an `AbortError`, or with something that has no name to read. -/
theorem polls_on_iff (evs : List Event) :
    Always step KeepsPolling create evs ↔ Guarded step Undisturbed create evs := by
  constructor
  · intro h
    refine guarded_iff_forall.mpr fun pre ev post hevs i r hr halive hleaves => ?_
    obtain ⟨hclosed, hreturned⟩ := leaves_returned hr hleaves
    have hkeeps := h (pre ++ [ev]) ⟨post, by rw [hevs]; simp⟩
    rw [after_append, after_cons, after_nil] at hkeeps
    rcases hkeeps i _ hreturned ⟨hclosed.trans halive.1, halive.2⟩ with hstage | hstage | hresumes
    · cases hstage
    · cases hstage
    · exact returned_silent hreturned rfl hresumes
  · intro h pre hpre
    obtain ⟨post, rfl⟩ := hpre
    exact lively_polls fun hopen => run_lively pre (guarded_append.mp h).1 hopen

/-! ## An error of the fetcher's own -/

/-- The fetcher of an open adapter gives up a poll by a timeout of its own. -/
def timedOutRun : List Event :=
  [.subscribe (js "r") 1, .fetched 0 (.rejected (Reason.named (some (js "AbortError"))).leaves)]

theorem timedOutRun_ends : ¬∀ evs, Always step KeepsPolling create evs := by
  intro h
  have hroom : (after step create timedOutRun).roomStates[0]? =
      some { ((Room.create (js "r")).add 1) with stage := .returned } := by rfl
  rcases h timedOutRun timedOutRun List.prefix_rfl 0 _ hroom ⟨rfl, by decide⟩ with
    hstage | hstage | hresumes
  · cases hstage
  · cases hstage
  · exact returned_silent hroom rfl hresumes

end HttpPollSignaling

end Senn.HttpPoll

import Mathlib.Data.List.Perm.Basic
import Mathlib.Logic.Function.Basic
import Senn.Lib.Machine

/-! # A pipe each way

Two ends run one program: at an input of its own, or at a message of the other end, an end goes on
and puts messages into the pipe to the other one. Messages come out in the order they went in;
one may be lost on the way. -/

namespace Senn.Lib.Pipe

inductive Side where
  | left
  | right
deriving DecidableEq

namespace Side

def other : Side → Side
  | .left => .right
  | .right => .left

@[simp] theorem other_other (s : Side) : s.other.other = s := by cases s <;> rfl

theorem other_ne (s : Side) : s.other ≠ s := by cases s <;> decide

theorem ne_other (s : Side) : s ≠ s.other := s.other_ne.symm

/-- There are no more than two. -/
theorem eq_or_other (s t : Side) : t = s ∨ t = s.other := by cases s <;> cases t <;> decide

theorem other_injective {s t : Side} (h : s.other = t.other) : s = t := by
  rw [← other_other s, h, other_other]

end Side

/-- What an end goes on at. -/
inductive Input (ι μ : Type*) where
  | own (i : ι)
  | message (m : μ)

/-- The two ends, and what is on the way to each. -/
structure World (σ μ : Type*) where
  ends : Side → σ
  queue : Side → List μ

inductive Move (ι : Type*) where
  | act (s : Side) (i : ι)
  | arrive (s : Side)              -- of the next message on the way to `s`
  | lose (s : Side) (n : Nat)      -- the message number `n` on the way to `s`

/-- What a run shows: messages put into the pipe to a side, and messages taken there. -/
inductive Seen (μ : Type*) where
  | put (s : Side) (m : μ)
  | taken (s : Side) (m : μ)

namespace Seen

variable {μ : Type*}

def message : Seen μ → μ
  | .put _ m => m
  | .taken _ m => m

def put? (s : Side) : Seen μ → Option μ
  | .put t m => if t = s then some m else none
  | .taken _ _ => none

def taken? (s : Side) : Seen μ → Option μ
  | .put _ _ => none
  | .taken t m => if t = s then some m else none

end Seen

/-- The messages put into the pipe to a side. -/
def puts {μ : Type*} (s : Side) (seen : List (Seen μ)) : List μ := seen.filterMap (Seen.put? s)

/-- The messages taken at a side. -/
def takes {μ : Type*} (s : Side) (seen : List (Seen μ)) : List μ := seen.filterMap (Seen.taken? s)

variable {σ ι μ β : Type*} (program : σ → Input ι μ → σ × List μ)

/-- End `s` goes on; what it puts out is on the way to the other end. -/
def World.goOn (w : World σ μ) (s : Side) (input : Input ι μ) : World σ μ × List (Seen μ) :=
  let r := program (w.ends s) input
  (⟨Function.update w.ends s r.1, Function.update w.queue s.other (w.queue s.other ++ r.2)⟩,
    r.2.map (.put s.other))

def World.withQueue (w : World σ μ) (s : Side) (ms : List μ) : World σ μ :=
  { w with queue := Function.update w.queue s ms }

def step (w : World σ μ) : Move ι → World σ μ × List (Seen μ)
  | .act s i => w.goOn program s (.own i)
  | .arrive s =>
    match w.queue s with
    | [] => (w, [])
    | m :: ms =>
      let r := (w.withQueue s ms).goOn program s (.message m)
      (r.1, .taken s m :: r.2)
  | .lose s n => (w.withQueue s ((w.queue s).eraseIdx n), [])

/-- A move that loses no message. -/
def Move.safe : Move ι → Bool
  | .lose _ _ => false
  | _ => true

/-! ## What one move does -/

section
variable {program} {w : World σ μ} {s t : Side} {m : μ} {ms : List μ}

theorem step_arrive_nil (h : w.queue s = []) : step program w (.arrive s : Move ι) = (w, []) := by
  simp only [step, h]

theorem step_arrive_cons (h : w.queue s = m :: ms) : step program w (.arrive s : Move ι) =
    (((w.withQueue s ms).goOn program s (.message m)).1,
      .taken s m :: ((w.withQueue s ms).goOn program s (.message m)).2) := by
  simp only [step, h]

theorem goOn_ends_self (w : World σ μ) (s : Side) (input : Input ι μ) :
    (w.goOn program s input).1.ends s = (program (w.ends s) input).1 := Function.update_self ..

theorem withQueue_self (w : World σ μ) (s : Side) (ms : List μ) : (w.withQueue s ms).queue s = ms :=
  Function.update_self ..

theorem puts_map_put (s t : Side) (ms : List μ) :
    puts t (ms.map (Seen.put s)) = if s = t then ms else [] := by
  induction ms with
  | nil => simp [puts]
  | cons m ms ih =>
    simp only [puts, List.map_cons] at ih ⊢
    by_cases h : s = t
    · simp [Seen.put?, h] at ih ⊢
      exact ih
    · simp [Seen.put?, h]

theorem takes_map_put (s t : Side) (ms : List μ) : takes t (ms.map (Seen.put s)) = [] := by
  simp [takes, Function.comp_def, Seen.taken?]

theorem takes_goOn (w : World σ μ) (s t : Side) (input : Input ι μ) :
    takes t (w.goOn program s input).2 = [] := takes_map_put ..

theorem puts_goOn (w : World σ μ) (s : Side) (input : Input ι μ) :
    puts s.other (w.goOn program s input).2 = (program (w.ends s) input).2 := by
  rw [World.goOn, puts_map_put, if_pos rfl]

theorem puts_append (s : Side) (a b : List (Seen μ)) : puts s (a ++ b) = puts s a ++ puts s b :=
  List.filterMap_append

theorem takes_append (s : Side) (a b : List (Seen μ)) : takes s (a ++ b) = takes s a ++ takes s b :=
  List.filterMap_append

theorem puts_taken (s t : Side) (m : μ) (seen : List (Seen μ)) :
    puts t (.taken s m :: seen) = puts t seen := List.filterMap_cons_none rfl

theorem takes_taken (s t : Side) (m : μ) (seen : List (Seen μ)) :
    takes t (.taken s m :: seen) = (if s = t then [m] else []) ++ takes t seen := by
  by_cases h : s = t <;> simp [takes, Seen.taken?, h]

/-! ## Order and number -/

/-- A relation says what is on the way to a side. What each step takes and leaves is what was there
and what it puts, in order, or part of it; so it is for a run. -/
theorem conserved {S E O : Type*} {f : S → E → S × List O} {g : List O → List (Seen μ)}
    (hnil : g [] = []) (happend : ∀ a b, g (a ++ b) = g a ++ g b)
    {W : S → List μ → Prop} {A C : S → E → Prop} (t : Side)
    (hstep : ∀ s e ms, A s e → W s ms → ∃ ms', W (f s e).1 ms' ∧
      (takes t (g (f s e).2) ++ ms').Sublist (ms ++ puts t (g (f s e).2)) ∧
      (C s e → takes t (g (f s e).2) ++ ms' = ms ++ puts t (g (f s e).2)))
    (es : List E) : ∀ s ms, Machine.Guarded f A s es → W s ms → ∃ ms',
      W (Machine.after f s es) ms' ∧
      (takes t (g (Machine.outputs f s es)) ++ ms').Sublist
        (ms ++ puts t (g (Machine.outputs f s es))) ∧
      (Machine.Guarded f C s es → takes t (g (Machine.outputs f s es)) ++ ms' =
        ms ++ puts t (g (Machine.outputs f s es))) := by
  induction es with
  | nil =>
    intro s ms _ hway
    refine ⟨ms, hway, ?_, fun _ => ?_⟩ <;> simp [hnil, takes, puts]
  | cons e es ih =>
    intro s ms ha hway
    obtain ⟨ms', hway', hsub, hexact⟩ := hstep s e ms ha.1 hway
    obtain ⟨ms'', hway'', hsub', hexact'⟩ := ih _ ms' ha.2 hway'
    rw [Machine.outputs_cons, Machine.after_cons, happend, takes_append, puts_append]
    refine ⟨ms'', hway'', ?_, fun hc => ?_⟩
    · rw [List.append_assoc, ← List.append_assoc ms]
      refine (hsub'.append_left _).trans ?_
      rw [← List.append_assoc]
      exact hsub.append_right _
    · rw [List.append_assoc, hexact' hc.2, ← List.append_assoc, hexact hc.1, List.append_assoc]

theorem withQueue_queue (w : World σ μ) (t : Side) : w.withQueue t (w.queue t) = w := by
  rw [World.withQueue, Function.update_eq_self]

theorem withQueue_withQueue (w : World σ μ) (t : Side) (ms ms' : List μ) :
    (w.withQueue t ms).withQueue t ms' = w.withQueue t ms' := by
  simp only [World.withQueue, Function.update_idem]

/-- A stretch of what is on the way is lost. -/
theorem lose_stretch (program : σ → Input ι μ → σ × List μ) (before after : List μ) (t : Side)
    (lost : List μ) : ∀ w : World σ μ,
    w.queue t = before ++ (lost ++ after) →
      Machine.after (step program) w (List.replicate lost.length (.lose t before.length)) =
          w.withQueue t (before ++ after) ∧
        Machine.outputs (step program) w (List.replicate lost.length (.lose t before.length)) =
          [] := by
  induction lost with
  | nil =>
    intro w hw
    refine ⟨?_, rfl⟩
    rw [List.nil_append] at hw
    rw [← hw, withQueue_queue]
    rfl
  | cons m lost ih =>
    intro w hw
    have herase : (w.queue t).eraseIdx before.length = before ++ (lost ++ after) := by
      rw [hw, List.eraseIdx_append_of_length_le (Nat.le_refl _), Nat.sub_self]
      rfl
    obtain ⟨hafter, houts⟩ := ih (w.withQueue t (before ++ (lost ++ after)))
      (withQueue_self ..)
    rw [List.length_cons, List.replicate_succ, Machine.after_cons, Machine.outputs_cons]
    simp only [step, herase]
    rw [hafter, houts, withQueue_withQueue]
    exact ⟨rfl, rfl⟩

/-! ## What one end knows of the other -/

/-- A move leaves an end alone, or the end goes on at one input. -/
theorem step_ends (program : σ → Input ι μ → σ × List μ) (w : World σ μ) (move : Move ι) (t : Side) :
    (step program w move).1.ends t = w.ends t ∧ takes t (step program w move).2 = [] ∧
        puts t.other (step program w move).2 = [] ∨
      ∃ input, (step program w move).1.ends t = (program (w.ends t) input).1 ∧
        puts t.other (step program w move).2 = (program (w.ends t) input).2 ∧
        ((∃ i, input = .own i ∧ move = .act t i ∧ takes t (step program w move).2 = []) ∨
          ∃ m, input = .message m ∧ takes t (step program w move).2 = [m]) := by
  have hother : ∀ (w : World σ μ) (s : Side) (input : Input ι μ), t ≠ s →
      (w.goOn program s input).1.ends t = w.ends t ∧
        puts t.other (w.goOn program s input).2 = [] := by
    intro w s input ht
    refine ⟨Function.update_of_ne ht .., ?_⟩
    rw [World.goOn, puts_map_put, if_neg fun heq => ht (Side.other_injective heq).symm]
  cases move with
  | act s i =>
    by_cases ht : t = s
    · subst ht
      exact .inr ⟨.own i, goOn_ends_self .., puts_goOn .., .inl ⟨i, rfl, rfl, takes_goOn ..⟩⟩
    · exact .inl ⟨(hother w s (.own i) ht).1, takes_goOn .., (hother w s (.own i) ht).2⟩
  | arrive s =>
    cases hq : w.queue s with
    | nil =>
      rw [step_arrive_nil hq]
      exact .inl ⟨rfl, rfl, rfl⟩
    | cons m ms =>
      rw [step_arrive_cons hq, takes_taken, puts_taken, takes_goOn, List.append_nil]
      by_cases ht : t = s
      · subst ht
        rw [if_pos rfl]
        exact .inr ⟨.message m, goOn_ends_self .., puts_goOn .., .inr ⟨m, rfl, rfl⟩⟩
      · rw [if_neg (Ne.symm ht)]
        exact .inl ⟨(hother _ s (.message m) ht).1, rfl, (hother _ s (.message m) ht).2⟩
  | lose s n => exact .inl ⟨rfl, rfl, rfl⟩

/-- What every input keeps true of an end, of all it has put and of all it has taken, a run of
such inputs keeps true. -/
theorem history {R : σ → List μ → List μ → Prop} {A : ι → Prop}
    (hown : ∀ s sent taken i, A i → R s sent taken →
      R (program s (.own i)).1 (sent ++ (program s (.own i)).2) taken)
    (hmessage : ∀ s sent taken m, R s sent taken →
      R (program s (.message m)).1 (sent ++ (program s (.message m)).2) (taken ++ [m]))
    (moves : List (Move ι)) (hmoves : ∀ s i, .act s i ∈ moves → A i) (t : Side) :
    ∀ (w : World σ μ) (sent taken : List μ), R (w.ends t) sent taken →
      R ((Machine.after (step program) w moves).ends t)
        (sent ++ puts t.other (Machine.outputs (step program) w moves))
        (taken ++ takes t (Machine.outputs (step program) w moves)) := by
  induction moves with
  | nil =>
    intro w sent taken h
    simpa [puts, takes] using h
  | cons move moves ih =>
    intro w sent taken h
    have hrest := ih (fun s i hi => hmoves s i (.tail _ hi)) (step program w move).1
    rw [Machine.after_cons, Machine.outputs_cons, puts_append, takes_append, ← List.append_assoc,
      ← List.append_assoc]
    refine hrest _ _ ?_
    obtain ⟨hends, htakes, hputs⟩ | ⟨input, hends, hputs, hinput⟩ := step_ends program w move t
    · rw [hends, hputs, htakes, List.append_nil, List.append_nil]
      exact h
    · rw [hends, hputs]
      obtain ⟨i, rfl, rfl, htakes⟩ | ⟨m, rfl, htakes⟩ := hinput
      · rw [htakes, List.append_nil]
        exact hown _ _ _ i (hmoves t i (.head _)) h
      · rw [htakes]
        exact hmessage _ _ _ m h

end

end Senn.Lib.Pipe

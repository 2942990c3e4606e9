import Mathlib.Data.List.Induction
import Senn.Lib.Machine
import Senn.Lib.Subscriptions

/-! # Rounds over sets of handlers

A message is handed on in a round over the set of a key; handlers that join or leave the set
meanwhile join or leave the round. `Faithful` is what is expected of a machine with
subscriptions and rounds, and `faithful_iff` says of which runs it holds. -/

namespace Senn.Lib.Subscriptions
open Senn.Lib.Machine

variable {κ η : Type}

/-- A round over a set that was made for a key, with the handlers yet to be called. -/
structure Round (κ η : Type) where
  key : κ
  set : Nat
  todo : List η
deriving DecidableEq

namespace Round

/-- A handler joins a set. -/
def joined (i : Nat) (h : η) (r : Round κ η) : Round κ η :=
  if r.set = i then { r with todo := r.todo ++ [h] } else r

/-- A handler leaves a set. -/
def left [DecidableEq η] (i : Nat) (h : η) (r : Round κ η) : Round κ η :=
  if r.set = i then { r with todo := r.todo.filter (· ≠ h) } else r

/-- The round is over the set its key has now. -/
def Current (t : Sets κ η) (r : Round κ η) : Prop := t.index r.key = some r.set

/-- The handlers yet to be called are in the set, which was made for the key. -/
structure Sound (t : Sets κ η) (r : Round κ η) : Prop where
  nodup : r.todo.Nodup
  subset : ∀ h ∈ r.todo, h ∈ t.elements r.set
  held : t.Held r.key r.set

variable [DecidableEq κ] [DecidableEq η] {t t' : Sets κ η} {r : Round κ η} {k : κ} {i : Nat} {h : η}

theorem Sound.joined (hr : r.Sound t) (ht : t.Tidy) (hj : Joins t t' k i h) :
    (r.joined i h).Sound t' := by
  have hheld := (SetMove.joins hj).held ht hr.held
  unfold Round.joined
  split
  · next hset =>
    have hnew : ∀ x ∈ r.todo, x ≠ h := by
      rintro x hx rfl
      exact hj.fresh (hset ▸ hr.subset x hx)
    refine ⟨?_, fun x hx => ?_, hheld⟩
    · exact List.nodup_append.mpr ⟨hr.nodup, List.nodup_singleton h, fun x hx y hy =>
        List.mem_singleton.mp hy ▸ hnew x hx⟩
    · rw [hj.elements, if_pos hset.symm, List.mem_append]
      exact (List.mem_append.mp hx).imp_left (hr.subset x)
  · next hset =>
    refine ⟨hr.nodup, fun x hx => ?_, hheld⟩
    rw [hj.elements, if_neg (Ne.symm hset)]
    exact hr.subset x hx

theorem Sound.left (hr : r.Sound t) (ht : t.Tidy) (hl : Leaves t t' k i h) :
    (r.left i h).Sound t' := by
  have hheld := (SetMove.leaves hl).held ht hr.held
  unfold Round.left
  split
  · next hset =>
    refine ⟨hr.nodup.filter _, fun x hx => ?_, hheld⟩
    obtain ⟨hmem, hne⟩ := List.mem_filter.mp hx
    rw [hl.elements, if_pos hset.symm]
    exact List.mem_filter.mpr ⟨hr.subset x hmem, hne⟩
  · next hset =>
    refine ⟨hr.nodup, fun x hx => ?_, hheld⟩
    rw [hl.elements, if_neg (Ne.symm hset)]
    exact hr.subset x hx

end Round

/-- What a step does to a round, with the handlers it calls and whether it starts the round. -/
inductive RoundMove [DecidableEq κ] [DecidableEq η] (t t' : Sets κ η) :
    Option (Round κ η) → Option (Round κ η) → List η → Bool → Prop
  | idle : RoundMove t t' none none [] false
  | kept {r : Round κ η} : t' = t → RoundMove t t' (some r) (some r) [] false
  | joins {r : Round κ η} {k : κ} {i : Nat} {h : η} : Joins t t' k i h →
      RoundMove t t' (some r) (some (r.joined i h)) [] false
  | leaves {r : Round κ η} {k : κ} {i : Nat} {h : η} : Leaves t t' k i h →
      RoundMove t t' (some r) (some (r.left i h)) [] false
  | called {k : κ} {i : Nat} {h : η} {todo : List η} : t' = t →
      RoundMove t t' (some ⟨k, i, h :: todo⟩) (some ⟨k, i, todo⟩) [h] false
  | ended {k : κ} {i : Nat} : t' = t → RoundMove t t' (some ⟨k, i, []⟩) none [] false
  | started {o : Option (Round κ η)} {k : κ} {i : Nat} : t' = t →
      (∀ r, o = some r → r.todo = []) → t.Held k i →
      RoundMove t t' o (some ⟨k, i, t.elements i⟩) [] true

namespace RoundMove

variable [DecidableEq κ] [DecidableEq η] {t t' : Sets κ η} {o o' : Option (Round κ η)}
  {calls : List η} {starts : Bool} {r r' : Round κ η} {h : η}

theorem same (heq : t' = t) : RoundMove t t' o o [] false := by
  cases o with
  | none => exact .idle
  | some r => exact .kept heq

theorem of_joins {k : κ} {i : Nat} (hj : Joins t t' k i h) :
    RoundMove t t' o (o.map (Round.joined i h)) [] false := by
  cases o with
  | none => exact .idle
  | some r => exact .joins hj

theorem of_leaves {k : κ} {i : Nat} (hl : Leaves t t' k i h) :
    RoundMove t t' o (o.map (Round.left i h)) [] false := by
  cases o with
  | none => exact .idle
  | some r => exact .leaves hl

theorem sound (hm : RoundMove t t' o o' calls starts) (ht : t.Tidy)
    (ho : ∀ r, o = some r → r.Sound t) : ∀ r, o' = some r → r.Sound t' := by
  rintro r' rfl
  cases hm with
  | kept heq => exact heq ▸ ho _ rfl
  | joins hj => exact (ho _ rfl).joined ht hj
  | leaves hl => exact (ho _ rfl).left ht hl
  | called heq =>
    obtain ⟨hnodup, hsubset, hheld⟩ := ho _ rfl
    subst heq
    exact ⟨(List.nodup_cons.mp hnodup).2, fun x hx => hsubset x (.tail _ hx), hheld⟩
  | started heq _ hheld =>
    subst heq
    exact ⟨ht.nodup _, fun x hx => hx, hheld⟩

theorem mem_called (hm : RoundMove t t' o o' calls starts) (hh : h ∈ calls) :
    ∃ r, o = some r ∧ h ∈ r.todo := by
  cases hm with
  | called _ =>
    obtain rfl := List.mem_singleton.mp hh
    exact ⟨_, rfl, .head _⟩
  | _ => cases hh

/-- A round ends, or gives way to the next one, when nobody is left. -/
theorem finished (hm : RoundMove t t' (some r) o' calls starts) (h : starts = true ∨ o' = none) :
    r.todo = [] := by
  cases hm with
  | ended _ => rfl
  | started _ hnone _ => exact hnone r rfl
  | _ => rcases h with h | h <;> cases h

theorem of_start (hm : RoundMove t t' o (some r) calls true) (ho : ∀ r, o = some r → r.Sound t)
    (ht : t.Tidy) : r.Sound t' ∧ r.todo = t'.elements r.set := by
  refine ⟨hm.sound ht ho r rfl, ?_⟩
  cases hm with
  | started heq _ _ => rw [heq]

/-- In a round over the current set of its key, a handler that stays in the set is called, or
is yet to be called. -/
theorem count (hm : RoundMove t t' (some r) o' calls false) (hcurrent : r.Current t)
    (hbefore : h ∈ t.members r.key) (hafter : h ∈ t'.members r.key) :
    (o' = none ∧ calls.count h = r.todo.count h) ∨ ∃ r', o' = some r' ∧ r'.key = r.key ∧
      r'.Current t' ∧ calls.count h + r'.todo.count h = r.todo.count h := by
  cases hm with
  | kept heq => exact .inr ⟨r, rfl, rfl, heq ▸ hcurrent, by simp⟩
  | called heq =>
    refine .inr ⟨_, rfl, rfl, heq ▸ hcurrent, ?_⟩
    simp only [List.count_cons, List.count_nil]
    omega
  | ended _ => exact .inl ⟨rfl, rfl⟩
  | @joins _ k i x hj =>
    rw [Sets.members_index hcurrent] at hbefore
    have hindex : t'.index r.key = some r.set := by
      rw [hj.index]
      split
      · next hkey =>
        rw [Round.Current, hkey] at hcurrent
        rcases hj.key with hown | ⟨hnone, _⟩
        · exact hown.symm.trans hcurrent
        · rw [hnone] at hcurrent
          cases hcurrent
      · exact hcurrent
    refine .inr ⟨_, rfl, ?_, ?_, ?_⟩
    · unfold Round.joined
      split <;> rfl
    · unfold Round.joined
      split <;> exact hindex
    · unfold Round.joined
      split
      · next hset =>
        have hne : x ≠ h := by
          rintro rfl
          exact hj.fresh (hset ▸ hbefore)
        simp [List.count_append, hne]
      · simp
  | @leaves _ k i x hl =>
    have hindex : t'.index r.key = some r.set := by
      have hwas := hl.index r.key
      split at hwas
      · rw [Sets.members_none hwas] at hafter
        cases hafter
      · exact hwas.trans hcurrent
    refine .inr ⟨_, rfl, ?_, ?_, ?_⟩
    · unfold Round.left
      split <;> rfl
    · unfold Round.left
      split <;> exact hindex
    · unfold Round.left
      split
      · next hset =>
        have hne : h ≠ x := by
          rw [Sets.members_index hindex, hl.elements, if_pos hset.symm] at hafter
          simpa using (List.mem_filter.mp hafter).2
        simp [List.count_filter, hne]
      · simp

end RoundMove

/-! ## Machines with subscriptions -/

variable {σ ι ο ℓ : Type}

/-- A machine with sets of handlers, the calls that were made to subscribe them, and rounds
over the sets. `due` says of which rounds the handlers of the key are owed a call. -/
structure Client (σ ι ο κ η ℓ : Type) where
  step : σ → ι → σ × List ο
  sets : σ → Sets κ η
  calls : σ → List (κ × η)
  op : σ → ι → Option (Op κ η)
  round : σ → ℓ → Option (Round κ η)
  starts : σ → ι → ℓ → Bool
  called : σ → ι → ℓ → List η
  due : Sets κ η → Round κ η → Prop

namespace Client

variable (c : Client σ ι ο κ η ℓ)

/-- The handlers that a run calls in a round. -/
def invoked (s : σ) (is : List ι) (l : ℓ) : List η :=
  noted c.step (fun s i => c.called s i l) s is

/-- The handlers yet to be called in a round. -/
def todo (s : σ) (l : ℓ) : List η := ((c.round s l).map Round.todo).getD []

/-- The calls of a run, each with whether it is outstanding. -/
def ledger (s : σ) (is : List ι) : List ((κ × η) × Bool) :=
  (noted c.step (fun s i => (c.op s i).toList) s is).foldl apply []

/-- All along a run the handlers of a key get its messages while one of their calls for the
key is outstanding, and a call that is undone once more changes nothing. -/
structure Faithful [DecidableEq η] (s : σ) (is : List ι) : Prop where
  exact_ : ∀ pre, pre <+: is → Exact (c.sets (after c.step s pre)) (c.ledger s pre)
  used : ∀ pre i n, pre ++ [i] <+: is → c.op (after c.step s pre) i = some (.undo n) →
    (∀ e, (c.ledger s pre)[n]? ≠ some (e, true)) →
    c.step (after c.step s pre) i = (after c.step s pre, [])
  /-- Only handlers with an outstanding call are called. -/
  called : ∀ pre i l, pre ++ [i] <+: is →
    ∀ h ∈ c.called (after c.step s pre) i l, ∃ r,
      c.round (after c.step s pre) l = some r ∧ ((r.key, h), true) ∈ c.ledger s pre
  /-- A handler whose call is outstanding throughout a round is called once in it. -/
  handed : ∀ pre i mid l r h, pre ++ i :: mid <+: is →
    c.starts (after c.step s pre) i l = true →
    c.round (after c.step s (pre ++ [i])) l = some r →
    c.due (c.sets (after c.step s (pre ++ [i]))) r →
    (∀ p, p <+: mid → ((r.key, h), true) ∈ c.ledger s (pre ++ i :: p)) →
    (∀ p j, p ++ [j] <+: mid → c.starts (after c.step s (pre ++ i :: p)) j l = false) →
    (c.invoked (after c.step s (pre ++ [i])) mid l).count h +
      (c.todo (after c.step s (pre ++ i :: mid)) l).count h = 1
  /-- A round is over, and the next one starts, when nobody is left. -/
  ended : ∀ pre i l r, pre ++ [i] <+: is → c.round (after c.step s pre) l = some r →
    (c.starts (after c.step s pre) i l = true ∨ c.round (after c.step s (pre ++ [i])) l = none) →
    r.todo = []

/-- Who undoes a call finds no other call of the handler outstanding, and a round that is due
starts over the set its key has, if it has one. -/
def Fair (s : σ) (pre : List ι) (i : ι) : Prop :=
  Alone (c.ledger s pre) (c.op (after c.step s pre) i) ∧
    ∀ l r, c.starts (after c.step s pre) i l = true →
      c.round (after c.step s (pre ++ [i])) l = some r →
      c.due (c.sets (after c.step s (pre ++ [i]))) r →
      (c.sets (after c.step s (pre ++ [i]))).index r.key = none ∨
        r.Current (c.sets (after c.step s (pre ++ [i])))

variable [DecidableEq κ] [DecidableEq η]

/-- On allowed inputs each step does to the sets what its call does and to a round what the
set does, and undoing a call whose handler is not in the set does nothing. -/
structure Laws (Inv : σ → Prop) (Allowed : ι → Prop) : Prop where
  tidy : ∀ {s}, Inv s → (c.sets s).Tidy
  keeps : ∀ {s i}, Inv s → Allowed i → Inv (c.step s i).1
  moves : ∀ {s i}, Inv s → Allowed i →
    OpMove (c.sets s) (c.calls s) (c.op s i) (c.sets (c.step s i).1) (c.calls (c.step s i).1)
  idle : ∀ {s i n}, Inv s → c.op s i = some (.undo n) →
    (∀ k h, (c.calls s)[n]? = some (k, h) → h ∉ (c.sets s).members k) → c.step s i = (s, [])
  rounds : ∀ {s i}, Inv s → Allowed i → ∀ l,
    RoundMove (c.sets s) (c.sets (c.step s i).1) (c.round s l) (c.round (c.step s i).1 l)
      (c.called s i l) (c.starts s i l)

/-- Nothing has happened yet. -/
structure Fresh (s : σ) : Prop where
  calls : c.calls s = []
  members : ∀ k, (c.sets s).members k = []
  round : ∀ l, c.round s l = none

variable {c} {Inv : σ → Prop} {Allowed : ι → Prop} {s : σ} {is : List ι}

omit [DecidableEq κ] [DecidableEq η] in
theorem ledger_concat (s : σ) (is : List ι) (i : ι) : c.ledger s (is ++ [i]) =
    (c.op (after c.step s is) i).toList.foldl apply (c.ledger s is) := by
  rw [ledger, noted_append, noted_singleton, List.foldl_append]
  rfl

/-- What holds all along a run of allowed inputs. -/
structure Kept (c : Client σ ι ο κ η ℓ) (Inv : σ → Prop) (s : σ) (pre : List ι) : Prop where
  inv : Inv (after c.step s pre)
  calls : (c.ledger s pre).map Prod.fst = c.calls (after c.step s pre)
  sound : ∀ l r, c.round (after c.step s pre) l = some r → r.Sound (c.sets (after c.step s pre))

theorem run_kept (h : c.Laws Inv Allowed) (hs : Inv s) (hfresh : c.Fresh s)
    (hallowed : ∀ i ∈ is, Allowed i) : ∀ pre, pre <+: is → Kept c Inv s pre := by
  intro pre
  induction pre using List.reverseRecOn with
  | nil =>
    refine fun _ => ⟨hs, hfresh.calls.symm, fun l r hr => ?_⟩
    rw [after_nil, hfresh.round] at hr
    cases hr
  | append_singleton pre i ih =>
    intro hpre
    obtain ⟨hinv, hcalls, hsound⟩ := ih ((List.prefix_append pre [i]).trans hpre)
    have hi := hallowed i (hpre.subset (by simp))
    refine ⟨?_, ?_, fun l => ?_⟩
    · rw [after_append]
      exact h.keeps hinv hi
    · rw [after_append, ledger_concat]
      exact (h.moves hinv hi).calls hcalls
    · rw [after_append]
      exact (h.rounds hinv hi l).sound (h.tidy hinv) (hsound l)

/-- The sets are exact all along a run if, and only if, no call is undone beside another. -/
theorem exact_iff (h : c.Laws Inv Allowed) (hs : Inv s) (hfresh : c.Fresh s)
    (hallowed : ∀ i ∈ is, Allowed i) :
    (∀ pre, pre <+: is → Exact (c.sets (after c.step s pre)) (c.ledger s pre)) ↔
      ∀ pre i, pre ++ [i] <+: is → Alone (c.ledger s pre) (c.op (after c.step s pre) i) := by
  have hkept := run_kept h hs hfresh hallowed
  have hone : ∀ pre i, pre ++ [i] <+: is →
      Exact (c.sets (after c.step s pre)) (c.ledger s pre) →
      (Exact (c.sets (after c.step s (pre ++ [i]))) (c.ledger s (pre ++ [i])) ↔
        Alone (c.ledger s pre) (c.op (after c.step s pre) i)) := by
    intro pre i hpre hexact
    have hk := hkept pre ((List.prefix_append pre [i]).trans hpre)
    have hi := hallowed i (hpre.subset (by simp))
    rw [after_append, ledger_concat]
    exact (h.moves hk.inv hi).exact_iff (h.tidy hk.inv) hk.calls hexact
  constructor
  · intro hexact pre i hpre
    exact (hone pre i hpre (hexact pre ((List.prefix_append pre [i]).trans hpre))).mp
      (hexact _ hpre)
  · intro halone pre
    induction pre using List.reverseRecOn with
    | nil =>
      intro _ k x
      rw [after_nil, hfresh.members]
      simp [ledger, noted]
    | append_singleton pre i ih =>
      intro hpre
      exact (hone pre i hpre (ih ((List.prefix_append pre [i]).trans hpre))).mpr (halone pre i hpre)

/-- A call that is undone once more changes nothing. -/
theorem run_used (h : c.Laws Inv Allowed) {pre : List ι} {i : ι} {n : Nat}
    (hkept : Kept c Inv s pre) (hexact : Exact (c.sets (after c.step s pre)) (c.ledger s pre))
    (halone : Alone (c.ledger s pre) (c.op (after c.step s pre) i))
    (hop : c.op (after c.step s pre) i = some (.undo n))
    (hused : ∀ e, (c.ledger s pre)[n]? ≠ some (e, true)) :
    c.step (after c.step s pre) i = (after c.step s pre, []) := by
  refine h.idle hkept.inv hop fun k x hn hmem => ?_
  rw [← hkept.calls, List.getElem?_map] at hn
  obtain ⟨⟨e, b⟩, hget, rfl⟩ := Option.map_eq_some_iff.mp hn
  rw [hop] at halone
  obtain ⟨m, hm⟩ := List.mem_iff_getElem?.mp ((hexact k x).mp hmem)
  by_cases hne : m = n
  · subst hne
    exact hused _ hm
  · exact halone _ b hget m hne hm

/-- A round over the current set of its key calls the handlers that stay in the set once. -/
theorem run_round (h : c.Laws Inv Allowed) {k : κ} {x : η} {l : ℓ} {r : Round κ η}
    {mid : List ι} (hs : Inv s) (hallowed : ∀ i ∈ mid, Allowed i)
    (hround : c.round s l = some r) (hkey : r.key = k) (hcurrent : r.Current (c.sets s))
    (hstays : ∀ p, p <+: mid → x ∈ (c.sets (after c.step s p)).members k)
    (hquiet : ∀ p j, p ++ [j] <+: mid → c.starts (after c.step s p) j l = false) :
    Inv (after c.step s mid) ∧
    ((c.round (after c.step s mid) l = none ∧
      (c.invoked s mid l).count x = r.todo.count x) ∨
    ∃ r', c.round (after c.step s mid) l = some r' ∧ r'.key = k ∧
      r'.Current (c.sets (after c.step s mid)) ∧
      (c.invoked s mid l).count x + r'.todo.count x = r.todo.count x) := by
  induction mid using List.reverseRecOn with
  | nil => exact ⟨hs, .inr ⟨r, hround, hkey, hcurrent, by simp [invoked, noted]⟩⟩
  | append_singleton mid i ih =>
    have hpre := List.prefix_append mid [i]
    obtain ⟨hinv, hcases⟩ := ih (fun j hj => hallowed j (List.mem_append_left _ hj))
      (fun p hp => hstays p (hp.trans hpre)) (fun p j hp => hquiet p j (hp.trans hpre))
    have hi := hallowed i (by simp)
    have hmove := h.rounds hinv hi l
    rw [hquiet mid i List.prefix_rfl] at hmove
    have hbefore := hstays mid hpre
    have hafter := hstays _ List.prefix_rfl
    rw [invoked, noted_append, noted_singleton, List.count_append]
    rw [after_append, after_cons, after_nil] at hafter ⊢
    refine ⟨h.keeps hinv hi, ?_⟩
    rcases hcases with ⟨hnone, hcount⟩ | ⟨r', hr', hkey', hcurrent', hcount⟩
    · rw [hnone] at hmove
      generalize c.round (c.step (after c.step s mid) i).1 l = o' at hmove ⊢
      generalize c.called (after c.step s mid) i l = calls at hmove ⊢
      rw [invoked] at hcount
      cases hmove with
      | idle => exact .inl ⟨rfl, by simpa using hcount⟩
    · rw [hr'] at hmove
      rw [← hkey'] at hbefore hafter
      rw [invoked] at hcount
      rcases hmove.count hcurrent' hbefore hafter with ⟨hnone, hlast⟩ | ⟨r₂, hr₂, hkey₂, hcur₂, hmore⟩
      · exact .inl ⟨hnone, by omega⟩
      · exact .inr ⟨r₂, hr₂, hkey₂.trans hkey', hcur₂, by omega⟩

/-- A run is faithful if, and only if, all of its steps are fair. -/
theorem faithful_iff (h : c.Laws Inv Allowed) (hs : Inv s) (hfresh : c.Fresh s)
    (hallowed : ∀ i ∈ is, Allowed i) :
    c.Faithful s is ↔ ∀ pre i, pre ++ [i] <+: is → c.Fair s pre i := by
  have hkept := run_kept h hs hfresh hallowed
  have hiff := exact_iff h hs hfresh hallowed
  have hstart : ∀ {pre i l r}, pre ++ [i] <+: is → c.starts (after c.step s pre) i l = true →
      c.round (after c.step s (pre ++ [i])) l = some r →
      r.Sound (c.sets (after c.step s (pre ++ [i]))) ∧
        r.todo = (c.sets (after c.step s (pre ++ [i]))).elements r.set := by
    intro pre i l r hpre hstarts hround
    have hk := hkept pre ((List.prefix_append pre [i]).trans hpre)
    have hmove := h.rounds hk.inv (hallowed i (hpre.subset (by simp))) l
    rw [after_append, after_cons, after_nil] at hround ⊢
    rw [hstarts, hround] at hmove
    exact hmove.of_start (hk.sound l) (h.tidy hk.inv)
  constructor
  · intro hfaithful pre i hpre
    refine ⟨hiff.mp hfaithful.exact_ pre i hpre, fun l r hstarts hround hdue => ?_⟩
    obtain ⟨hsound, htodo⟩ := hstart hpre hstarts hround
    have htidy := h.tidy (hkept _ hpre).inv
    cases hindex : (c.sets (after c.step s (pre ++ [i]))).index r.key with
    | none => exact .inl rfl
    | some j =>
      refine .inr (hsound.held.2 fun hempty => ?_)
      -- a handler of the key's set is owed a call that the round does not make
      obtain ⟨x, hx⟩ := List.exists_mem_of_ne_nil _ (htidy.current _ j hindex)
      rw [← Sets.members_index hindex] at hx
      have hone := hfaithful.handed pre i [] l r x hpre hstarts hround hdue
        (fun p hp => by
          rw [List.prefix_nil.mp hp]
          exact (hfaithful.exact_ _ hpre _ _).mp hx)
        (fun p j hp => by simp at hp)
      rw [todo, hround, Option.map_some, Option.getD_some, htodo, hempty] at hone
      simp [invoked, noted] at hone
  · intro hfair
    have hexact := hiff.mpr fun pre i hpre => (hfair pre i hpre).1
    refine ⟨hexact, fun pre i n hpre hop hused => ?_, fun pre i l hpre x hx => ?_,
      fun pre i mid l r x hpre hstarts hround hdue hstays hquiet => ?_, fun pre i l r hpre hr hover => ?_⟩
    · have hbefore := (List.prefix_append pre [i]).trans hpre
      exact run_used h (hkept pre hbefore) (hexact pre hbefore) (hfair pre i hpre).1 hop hused
    · have hbefore := (List.prefix_append pre [i]).trans hpre
      have hk := hkept pre hbefore
      obtain ⟨r, hr, hmem⟩ :=
        (h.rounds hk.inv (hallowed i (hpre.subset (by simp))) l).mem_called hx
      have hsound := hk.sound l r hr
      exact ⟨r, hr, (hexact pre hbefore _ _).mp
        (hsound.held.subset x (hsound.subset x hmem))⟩
    · have hfirst : pre ++ [i] <+: is :=
        (List.prefix_append_right_inj pre).mpr (List.prefix_append [i] mid) |>.trans hpre
      have hsplit : ∀ p, pre ++ i :: p = (pre ++ [i]) ++ p := fun p => by simp
      have hmember : ∀ p, p <+: mid →
          x ∈ (c.sets (after c.step (after c.step s (pre ++ [i])) p)).members r.key := by
        intro p hp
        have hprefix : pre ++ i :: p <+: is :=
          ((List.prefix_append_right_inj pre).mpr (List.cons_prefix_cons.mpr ⟨rfl, hp⟩)).trans hpre
        rw [← after_append, ← hsplit]
        exact (hexact _ hprefix _ _).mpr (hstays p hp)
      obtain ⟨hsound, htodo⟩ := hstart hfirst hstarts hround
      have hcurrent : r.Current (c.sets (after c.step s (pre ++ [i]))) := by
        rcases (hfair pre i hfirst).2 l r hstarts hround hdue with hnone | hcurrent
        · have hx := hmember [] List.nil_prefix
          rw [after_nil, Sets.members_none hnone] at hx
          cases hx
        · exact hcurrent
      have hone : r.todo.count x = 1 := by
        have hx := hmember [] List.nil_prefix
        rw [after_nil, Sets.members_index hcurrent] at hx
        rw [htodo]
        exact List.count_eq_one_of_mem ((h.tidy (hkept _ hfirst).inv).nodup _) hx
      have hlater : ∀ j ∈ mid, Allowed j := fun j hj => hallowed j (hpre.subset (by simp [hj]))
      have hrun := run_round h (hkept _ hfirst).inv hlater hround rfl hcurrent hmember
        (fun p j hp => by
          rw [← after_append, ← hsplit]
          exact hquiet p j hp)
      rw [hsplit mid, after_append c.step s (pre ++ [i]), todo]
      rcases hrun.2 with ⟨hnone, hcount⟩ | ⟨r', hr', _, _, hcount⟩
      · rw [hnone]
        simpa using hcount.trans hone
      · rw [hr']
        exact hcount.trans hone
    · have hk := hkept pre ((List.prefix_append pre [i]).trans hpre)
      have hmove := h.rounds hk.inv (hallowed i (hpre.subset (by simp))) l
      rw [hr] at hmove
      rw [after_append] at hover
      exact hmove.finished hover

end Client

end Senn.Lib.Subscriptions

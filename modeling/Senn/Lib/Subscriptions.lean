import Mathlib.Data.List.Nodup

/-! # Subscriptions

Handlers in sets that are looked up by a key, and calls that take them out again. A handler
is in the set of a key once, however often it was subscribed, and a call that is undone takes
out whatever handler it was made for: the sets are exact as long as nobody undoes a call while
another one of the same handler is outstanding. -/

namespace Senn.Lib.Subscriptions

variable {κ η : Type}

/-- Sets of handlers, numbered as they were made; `index` finds the set of a key. -/
structure Sets (κ η : Type) where
  index : κ → Option Nat
  elements : Nat → List η
  length : Nat

/-- The handlers of a key. -/
def Sets.members (t : Sets κ η) (k : κ) : List η :=
  match t.index k with
  | some i => t.elements i
  | none => []

/-- The set of a key has handlers, and is its own. -/
structure Sets.Tidy (t : Sets κ η) : Prop where
  nodup : ∀ i, (t.elements i).Nodup
  current : ∀ k i, t.index k = some i → t.elements i ≠ []
  unique : ∀ k k' i, t.index k = some i → t.index k' = some i → k = k'
  bound : ∀ i, t.elements i ≠ [] → i < t.length

/-- A set that was made for a key is its set, or is empty. -/
def Sets.Held (t : Sets κ η) (k : κ) (i : Nat) : Prop :=
  i < t.length ∧ (t.elements i ≠ [] → t.index k = some i)

theorem Sets.members_index {t : Sets κ η} {k : κ} {i : Nat} (h : t.index k = some i) :
    t.members k = t.elements i := by
  rw [members, h]

theorem Sets.members_none {t : Sets κ η} {k : κ} (h : t.index k = none) : t.members k = [] := by
  rw [members, h]

theorem Sets.Held.subset {t : Sets κ η} {k : κ} {i : Nat} (h : t.Held k i) :
    ∀ x ∈ t.elements i, x ∈ t.members k := by
  intro x hx
  rwa [members_index (h.2 (List.ne_nil_of_mem hx))]

variable [DecidableEq κ] [DecidableEq η]

omit [DecidableEq κ] in
theorem filter_ne_self {h : η} {hs : List η} (hout : h ∉ hs) : hs.filter (· ≠ h) = hs :=
  List.filter_eq_self.mpr fun _ hx => decide_eq_true fun heq => hout (heq ▸ hx)

/-- A handler is added to the set of a key, a new one if the key has none. -/
structure Joins (t t' : Sets κ η) (k : κ) (i : Nat) (h : η) : Prop where
  key : t.index k = some i ∨ t.index k = none ∧ i = t.length
  fresh : h ∉ t.elements i
  elements : ∀ j, t'.elements j = if i = j then t.elements j ++ [h] else t.elements j
  index : ∀ k', t'.index k' = if k' = k then some i else t.index k'
  length : t'.length = if i = t.length then t.length + 1 else t.length

/-- A handler is deleted from the set of a key, which is given up when it is empty. -/
structure Leaves (t t' : Sets κ η) (k : κ) (i : Nat) (h : η) : Prop where
  key : t.index k = some i
  elements : ∀ j, t'.elements j =
    if i = j then (t.elements j).filter (· ≠ h) else t.elements j
  index : ∀ k', t'.index k' = if k' = k ∧ t'.elements i = [] then none else t.index k'
  length : t'.length = t.length

/-- What a step does to the sets. -/
inductive SetMove (t t' : Sets κ η) : Prop
  | kept : t' = t → SetMove t t'
  | joins {k : κ} {i : Nat} {h : η} : Joins t t' k i h → SetMove t t'
  | leaves {k : κ} {i : Nat} {h : η} : Leaves t t' k i h → SetMove t t'

section
variable {t t' : Sets κ η} {k : κ} {i : Nat} {h : η}

omit [DecidableEq η] in
/-- The set that a handler joins is nobody else's. -/
theorem Joins.owner (hj : Joins t t' k i h) (ht : t.Tidy) {k' : κ} (hk : t.index k' = some i) :
    k' = k := by
  rcases hj.key with hown | ⟨_, rfl⟩
  · exact ht.unique k' k i hk hown
  · exact absurd (ht.bound _ (ht.current k' _ hk)) (Nat.lt_irrefl _)

omit [DecidableEq η] in
theorem Joins.length_le (hj : Joins t t' k i h) : t.length ≤ t'.length := by
  rw [hj.length]
  split <;> omega

omit [DecidableEq η] in
theorem Joins.tidy (hj : Joins t t' k i h) (ht : t.Tidy) : t'.Tidy := by
  refine ⟨fun j => ?_, fun k' j hk' => ?_, fun k' k'' j hk' hk'' => ?_, fun j hne => ?_⟩
  · rw [hj.elements]
    split
    · next hij =>
      subst hij
      refine List.nodup_append.mpr ⟨ht.nodup i, List.nodup_singleton _, ?_⟩
      rintro a ha b hb rfl
      exact hj.fresh (List.mem_singleton.mp hb ▸ ha)
    · exact ht.nodup j
  · rw [hj.index] at hk'
    rw [hj.elements]
    split at hk'
    · rw [if_pos (Option.some.inj hk')]
      simp
    · split
      · simp
      · exact ht.current k' j hk'
  · rw [hj.index] at hk' hk''
    split at hk'
    · next hkey =>
      split at hk''
      · next hkey' => rw [hkey, hkey']
      · obtain rfl := Option.some.inj hk'
        rw [hkey, hj.owner ht hk'']
    · split at hk''
      · next hkey' =>
        obtain rfl := Option.some.inj hk''
        rw [hkey', hj.owner ht hk']
      · exact ht.unique k' k'' j hk' hk''
  · rw [hj.elements] at hne
    by_cases hij : i = j
    · subst hij
      rcases hj.key with hown | ⟨_, rfl⟩
      · exact Nat.lt_of_lt_of_le (ht.bound i (ht.current k i hown)) hj.length_le
      · rw [hj.length, if_pos rfl]
        omega
    · rw [if_neg hij] at hne
      exact Nat.lt_of_lt_of_le (ht.bound j hne) hj.length_le

theorem Leaves.tidy (hl : Leaves t t' k i h) (ht : t.Tidy) : t'.Tidy := by
  refine ⟨fun j => ?_, fun k' j hk' => ?_, fun k' k'' j hk' hk'' => ?_, fun j hne => ?_⟩
  · rw [hl.elements]
    split
    · exact (ht.nodup j).filter _
    · exact ht.nodup j
  · rw [hl.index] at hk'
    split at hk'
    · cases hk'
    · next hmore =>
      by_cases hij : i = j
      · subst hij
        exact fun hempty => hmore ⟨ht.unique k' k i hk' hl.key, hempty⟩
      · rw [hl.elements, if_neg hij]
        exact ht.current k' j hk'
  · rw [hl.index] at hk' hk''
    split at hk'
    · cases hk'
    · split at hk''
      · cases hk''
      · exact ht.unique k' k'' j hk' hk''
  · rw [hl.elements] at hne
    rw [hl.length]
    split at hne
    · refine ht.bound j fun hempty => hne ?_
      rw [hempty]
      rfl
    · exact ht.bound j hne

theorem SetMove.tidy (hm : SetMove t t') (ht : t.Tidy) : t'.Tidy := by
  cases hm with
  | kept heq => rwa [heq]
  | joins hj => exact hj.tidy ht
  | leaves hl => exact hl.tidy ht

/-- A set that a key has given up is not filled again. -/
theorem SetMove.held (hm : SetMove t t') (ht : t.Tidy) {k' : κ} {j : Nat} (hheld : t.Held k' j) :
    t'.Held k' j := by
  cases hm with
  | kept heq => rwa [heq]
  | @joins k i h hj =>
    refine ⟨Nat.lt_of_lt_of_le hheld.1 hj.length_le, fun hne => ?_⟩
    rw [hj.elements] at hne
    rw [hj.index]
    by_cases hij : i = j
    · subst hij
      rcases hj.key with hown | ⟨_, rfl⟩
      · have hsame : k' = k := ht.unique _ _ i (hheld.2 (ht.current k i hown)) hown
        rw [if_pos hsame]
      · exact absurd hheld.1 (Nat.lt_irrefl _)
    · rw [if_neg hij] at hne
      have hget := hheld.2 hne
      split
      · next hsame =>
        rw [hsame] at hget
        rcases hj.key with hown | ⟨hnone, _⟩
        · exact absurd (Option.some.inj (hown.symm.trans hget)) hij
        · rw [hnone] at hget
          cases hget
      · exact hget
  | @leaves k i h hl =>
    refine ⟨hl.length ▸ hheld.1, fun hne => ?_⟩
    have hwas : t.elements j ≠ [] := by
      rw [hl.elements] at hne
      split at hne
      · intro hempty
        rw [hempty] at hne
        exact hne rfl
      · exact hne
    have hget := hheld.2 hwas
    rw [hl.index, if_neg ?_]
    · exact hget
    · rintro ⟨hsame, hempty⟩
      rw [hsame] at hget
      obtain rfl := Option.some.inj (hl.key.symm.trans hget)
      exact hne hempty

omit [DecidableEq κ] [DecidableEq η] in
/-- A key whose set is the one it was, and as it was, has the members it had. -/
theorem Sets.members_kept (hget : t'.index k = t.index k)
    (helements : ∀ j, t.index k = some j → t'.elements j = t.elements j) :
    t'.members k = t.members k := by
  rw [Sets.members, Sets.members, hget]
  cases hidx : t.index k with
  | none => rfl
  | some j => exact helements j hidx

omit [DecidableEq η] in
theorem Joins.mem_members (hj : Joins t t' k i h) (ht : t.Tidy) {k' : κ} {h' : η} :
    h' ∈ t'.members k' ↔ h' ∈ t.members k' ∨ (k' = k ∧ h' = h) := by
  by_cases hk : k' = k
  · subst hk
    have hget : t'.index k' = some i := by rw [hj.index, if_pos rfl]
    have hwas : t.members k' = t.elements i := by
      rcases hj.key with hown | ⟨hnone, rfl⟩
      · exact Sets.members_index hown
      · rw [Sets.members, hnone]
        by_contra hne
        exact absurd (ht.bound _ (Ne.symm hne)) (Nat.lt_irrefl _)
    rw [Sets.members_index hget, hj.elements, if_pos rfl, hwas]
    simp
  · have hget : t'.index k' = t.index k' := by rw [hj.index, if_neg hk]
    have hsame : t'.members k' = t.members k' := by
      refine Sets.members_kept hget fun j hidx => ?_
      have hij : i ≠ j := by
        rintro rfl
        exact hk (hj.owner ht hidx)
      rw [hj.elements, if_neg hij]
    rw [hsame]
    simp [hk]

theorem Leaves.mem_members (hl : Leaves t t' k i h) (ht : t.Tidy) {k' : κ} {h' : η} :
    h' ∈ t'.members k' ↔ h' ∈ t.members k' ∧ ¬(k' = k ∧ h' = h) := by
  by_cases hk : k' = k
  · subst hk
    have hset : t'.elements i = (t.elements i).filter (· ≠ h) := by rw [hl.elements, if_pos rfl]
    have hmembers : t'.members k' = t'.elements i := by
      rw [Sets.members, hl.index]
      by_cases hempty : t'.elements i = []
      · rw [if_pos ⟨rfl, hempty⟩, hempty]
      · rw [if_neg fun hboth => hempty hboth.2, hl.key]
    rw [hmembers, hset, Sets.members_index hl.key]
    simp
  · have hget : t'.index k' = t.index k' := by rw [hl.index, if_neg fun hboth => hk hboth.1]
    have hsame : t'.members k' = t.members k' := by
      refine Sets.members_kept hget fun j hidx => ?_
      have hij : i ≠ j := by
        rintro rfl
        exact hk (ht.unique k' k i hidx hl.key)
      rw [hl.elements, if_neg hij]
    rw [hsame]
    simp [hk]

end

/-! ## Calls -/

/-- A handler is subscribed for a key, or the `n`-th such call is undone. -/
inductive Op (κ η : Type) where
  | subscribe (k : κ) (h : η)
  | undo (n : Nat)

/-- The calls so far, each with whether it is outstanding. -/
def apply (l : List ((κ × η) × Bool)) : Op κ η → List ((κ × η) × Bool)
  | .subscribe k h => l ++ [((k, h), true)]
  | .undo n => l.modify n fun e => (e.1, false)

/-- What a step that makes or undoes a call does to the sets and to the list of calls. -/
inductive OpMove (t : Sets κ η) (calls : List (κ × η)) :
    Option (Op κ η) → Sets κ η → List (κ × η) → Prop
  | none : OpMove t calls none t calls
  | member {k : κ} {h : η} : h ∈ t.members k →
      OpMove t calls (some (.subscribe k h)) t (calls ++ [(k, h)])
  | joined {t' : Sets κ η} {k : κ} {h : η} {i : Nat} : Joins t t' k i h →
      OpMove t calls (some (.subscribe k h)) t' (calls ++ [(k, h)])
  | void {n : Nat} : (∀ k h, calls[n]? = some (k, h) → t.index k = none) →
      OpMove t calls (some (.undo n)) t calls
  | left {t' : Sets κ η} {k : κ} {h : η} {i n : Nat} : calls[n]? = some (k, h) →
      Leaves t t' k i h → OpMove t calls (some (.undo n)) t' calls

theorem OpMove.setMove {t t' : Sets κ η} {calls calls' : List (κ × η)} {op : Option (Op κ η)}
    (hm : OpMove t calls op t' calls') : SetMove t t' := by
  cases hm with
  | none | member | void => exact .kept rfl
  | joined hj => exact .joins hj
  | left _ hl => exact .leaves hl

/-- Only a call that subscribes a handler gives a key a new one. -/
theorem OpMove.mem_members {t t' : Sets κ η} {calls calls' : List (κ × η)} {op : Option (Op κ η)}
    (hm : OpMove t calls op t' calls') (ht : t.Tidy) {k : κ} {h : η} (hin : h ∈ t'.members k) :
    h ∈ t.members k ∨ op = some (.subscribe k h) := by
  cases hm with
  | none | member | void => exact .inl hin
  | joined hj =>
    obtain hin | ⟨rfl, rfl⟩ := (hj.mem_members ht).mp hin
    · exact .inl hin
    · exact .inr rfl
  | left _ hl => exact .inl ((hl.mem_members ht).mp hin).1

/-- Only undoing a call for it takes a handler from its key. -/
theorem OpMove.stays {t t' : Sets κ η} {calls calls' : List (κ × η)} {op : Option (Op κ η)}
    (hm : OpMove t calls op t' calls') (ht : t.Tidy) {k : κ} {h : η} (hin : h ∈ t.members k)
    (hop : ∀ n, op = some (.undo n) → calls[n]? ≠ some (k, h)) : h ∈ t'.members k := by
  cases hm with
  | none | member | void => exact hin
  | joined hj => exact (hj.mem_members ht).mpr (.inl hin)
  | left hcall hl =>
    refine (hl.mem_members ht).mpr ⟨hin, ?_⟩
    rintro ⟨rfl, rfl⟩
    exact hop _ rfl hcall

/-- Every handler is in the sets it has an outstanding call for, and in no others. -/
def Exact (t : Sets κ η) (l : List ((κ × η) × Bool)) : Prop :=
  ∀ k h, h ∈ t.members k ↔ ((k, h), true) ∈ l

/-- Who undoes a call finds no other call of the handler outstanding. -/
def Alone (l : List ((κ × η) × Bool)) : Option (Op κ η) → Prop
  | some (.undo n) => ∀ e b, l[n]? = some (e, b) → ∀ m, m ≠ n → l[m]? ≠ some (e, true)
  | _ => True

instance Alone.decidable (l : List ((κ × η) × Bool)) : ∀ op, Decidable (Alone l op)
  | none | some (.subscribe _ _) => inferInstanceAs (Decidable True)
  | some (.undo n) =>
    decidable_of_iff (∀ p ∈ l[n]?.toList, ∀ m < l.length, m ≠ n → l[m]? ≠ some (p.1, true)) <| by
      constructor
      · intro h e b hn m hm hl
        exact h (e, b) (by simp [hn]) m (List.getElem?_eq_some_iff.mp hl).1 hm hl
      · intro h p hp m _ hm
        exact h p.1 p.2 (by simpa using hp) m hm

omit [DecidableEq κ] [DecidableEq η] in
theorem mem_undo {l : List ((κ × η) × Bool)} {n : Nat} {e : κ × η} :
    (e, true) ∈ apply l (.undo n) ↔ ∃ m, m ≠ n ∧ l[m]? = some (e, true) := by
  rw [apply, List.mem_iff_getElem?]
  simp only [List.getElem?_modify]
  constructor
  · rintro ⟨m, hm⟩
    by_cases hne : n = m
    · subst hne
      cases hget : l[n]? <;> simp [hget] at hm
    · exact ⟨m, Ne.symm hne, by simpa [hne] using hm⟩
  · rintro ⟨m, hne, hm⟩
    exact ⟨m, by simpa [Ne.symm hne] using hm⟩

/-- After one step the sets are exact if, and only if, no call was undone beside another. -/
theorem OpMove.exact_iff {t t' : Sets κ η} {calls calls' : List (κ × η)} {op : Option (Op κ η)}
    (hm : OpMove t calls op t' calls') (ht : t.Tidy) {l : List ((κ × η) × Bool)}
    (hcalls : l.map Prod.fst = calls) (hexact : Exact t l) :
    Exact t' (op.toList.foldl apply l) ↔ Alone l op := by
  cases hm with
  | none => exact iff_of_true hexact trivial
  | @member k h hmem =>
    refine iff_of_true (fun k' h' => ?_) trivial
    rw [Option.toList_some, List.foldl_cons, List.foldl_nil, apply, List.mem_append, hexact]
    simp only [List.mem_singleton, Prod.mk.injEq, and_true]
    refine ⟨.inl, ?_⟩
    rintro (hold | ⟨rfl, rfl⟩)
    · exact hold
    · exact (hexact k' h').mp hmem
  | @joined _ k h i hj =>
    refine iff_of_true (fun k' h' => ?_) trivial
    rw [Option.toList_some, List.foldl_cons, List.foldl_nil, apply, List.mem_append,
      hj.mem_members ht, hexact]
    simp
  | @void n hvoid =>
    have hnone : ∀ k h, calls[n]? = some (k, h) → ((k, h), true) ∉ l := by
      intro k h hn hmem
      have hin := (hexact k h).mpr hmem
      rw [Sets.members, hvoid k h hn] at hin
      cases hin
    have hcall : ∀ {e b}, l[n]? = some (e, b) → calls[n]? = some e := by
      intro e b hn
      rw [← hcalls, List.getElem?_map, hn]
      rfl
    refine iff_of_true (fun k' h' => ?_) fun e b hn m _ hm => ?_
    · rw [hexact]
      refine Iff.trans ?_ mem_undo.symm
      rw [List.mem_iff_getElem?]
      refine ⟨?_, fun ⟨m, _, hm⟩ => ⟨m, hm⟩⟩
      rintro ⟨m, hm⟩
      refine ⟨m, ?_, hm⟩
      rintro rfl
      exact hnone k' h' (hcall hm) (List.mem_of_getElem? hm)
    · exact hnone e.1 e.2 (hcall hn) (List.mem_of_getElem? hm)
  | @left _ k h i n hn hl =>
    have hentry : ∃ b, l[n]? = some ((k, h), b) := by
      rw [← hcalls, List.getElem?_map] at hn
      obtain ⟨⟨e, b⟩, hget, heq⟩ := Option.map_eq_some_iff.mp hn
      exact ⟨b, by rw [hget, ← heq]⟩
    obtain ⟨b, hb⟩ := hentry
    rw [Option.toList_some, List.foldl_cons, List.foldl_nil]
    constructor
    · intro hafter e b' he m hne hm
      obtain ⟨rfl, _⟩ := Prod.mk.inj (Option.some.inj (hb.symm.trans he))
      have hin := (hafter k h).mpr (mem_undo.mpr ⟨m, hne, hm⟩)
      exact ((hl.mem_members ht).mp hin).2 ⟨rfl, rfl⟩
    · intro halone k' h'
      rw [hl.mem_members ht, hexact, mem_undo]
      constructor
      · rintro ⟨hmem, hdiffers⟩
        obtain ⟨m, hm⟩ := List.mem_iff_getElem?.mp hmem
        refine ⟨m, ?_, hm⟩
        rintro rfl
        obtain ⟨heq, _⟩ := Prod.mk.inj (Option.some.inj (hb.symm.trans hm))
        obtain ⟨rfl, rfl⟩ := Prod.mk.inj heq
        exact hdiffers ⟨rfl, rfl⟩
      · rintro ⟨m, hne, hm⟩
        refine ⟨List.mem_of_getElem? hm, ?_⟩
        rintro ⟨rfl, rfl⟩
        exact halone _ b hb m hne hm

theorem OpMove.calls {t t' : Sets κ η} {calls calls' : List (κ × η)} {op : Option (Op κ η)}
    (hm : OpMove t calls op t' calls') {l : List ((κ × η) × Bool)} (hcalls : l.map Prod.fst = calls) :
    (op.toList.foldl apply l).map Prod.fst = calls' := by
  have hundo : ∀ n, (apply l (.undo n) : List ((κ × η) × Bool)).map Prod.fst = calls := by
    intro n
    refine List.ext_getElem? fun m => ?_
    rw [← hcalls, apply, List.getElem?_map, List.getElem?_modify, List.getElem?_map]
    split <;> cases l[m]? <;> rfl
  cases hm with
  | none => exact hcalls
  | member | joined => simp [apply, hcalls]
  | void | left => exact hundo _

end Senn.Lib.Subscriptions

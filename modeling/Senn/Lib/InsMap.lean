import Mathlib.Data.List.Nodup
import Mathlib.Algebra.Order.BigOperators.Group.List
import Mathlib.Algebra.Order.Ring.Int

/-! # Maps that remember insertion order

Finite maps whose entries are visited in the order their keys were first
inserted: setting a present key keeps its place, deleting and setting again
moves it to the end. The keys are distinct by construction. -/

namespace Senn.Lib

/-- A finite map with its entries in insertion order. -/
structure InsMap (κ ν : Type*) where
  entries : List (κ × ν)
  nodup : (entries.map Prod.fst).Nodup

namespace InsMap

variable {κ ν : Type*}

@[ext] theorem ext {m n : InsMap κ ν} (h : m.entries = n.entries) : m = n := by
  cases m; cases n; cases h; rfl

/-- The sum of `f` over the values. -/
def sumBy (f : ν → Int) (m : InsMap κ ν) : Int := (m.entries.map fun e => f e.2).sum

def empty : InsMap κ ν := ⟨[], List.nodup_nil⟩

instance : Inhabited (InsMap κ ν) := ⟨empty⟩

@[simp] theorem sumBy_empty (f : ν → Int) : sumBy f (empty : InsMap κ ν) = 0 := rfl

def size (m : InsMap κ ν) : Nat := m.entries.length

theorem sumBy_one (m : InsMap κ ν) : m.sumBy (fun _ => 1) = m.size := by
  simp [sumBy, size]

theorem sumBy_add (f g : ν → Int) (m : InsMap κ ν) :
    m.sumBy (fun v => f v + g v) = m.sumBy f + m.sumBy g := List.sum_map_add

theorem sum_sublist_le {f : κ × ν → Int} (hf : ∀ e, 0 ≤ f e) {es fs : List (κ × ν)}
    (h : es.Sublist fs) : (es.map f).sum ≤ (fs.map f).sum := by
  induction h with
  | slnil => exact le_refl _
  | cons e _ ih => exact ih.trans (by simpa using hf e)
  | cons_cons e _ ih => simpa using ih

theorem entries_nodup (m : InsMap κ ν) : m.entries.Nodup := List.Nodup.of_map _ m.nodup

variable [DecidableEq κ]

instance [DecidableEq ν] : DecidableEq (InsMap κ ν) := fun m n =>
  decidable_of_iff (m.entries = n.entries) ⟨ext, fun h => h ▸ rfl⟩

def get (m : InsMap κ ν) (k : κ) : Option ν :=
  (m.entries.find? fun e => decide (e.1 = k)).map Prod.snd

/-- Entries with the value at `k` replaced in place. -/
def replace (k : κ) (v : ν) (es : List (κ × ν)) : List (κ × ν) :=
  es.map fun e => if e.1 = k then (k, v) else e

theorem replace_keys (k : κ) (v : ν) (es : List (κ × ν)) :
    (replace k v es).map Prod.fst = es.map Prod.fst := by
  simp only [replace, List.map_map]
  apply List.map_congr_left
  intro e _
  by_cases h : e.1 = k <;> simp [h]

def set (m : InsMap κ ν) (k : κ) (v : ν) : InsMap κ ν :=
  if h : k ∈ m.entries.map Prod.fst then
    ⟨replace k v m.entries, by rw [replace_keys]; exact m.nodup⟩
  else
    ⟨m.entries ++ [(k, v)], by
      rw [List.map_append, List.map_cons, List.map_nil]
      exact List.nodup_append.mpr ⟨m.nodup, by simp, by
        intro a ha b hb hab
        rw [List.mem_singleton.mp hb] at hab
        rw [hab] at ha
        exact h ha⟩⟩

def delete (m : InsMap κ ν) (k : κ) : InsMap κ ν :=
  ⟨m.entries.filter fun e => decide (e.1 ≠ k),
    List.Nodup.sublist (List.Sublist.map _ List.filter_sublist) m.nodup⟩

/-! ## Lookup -/

theorem get_eq_some_iff {m : InsMap κ ν} {k : κ} {v : ν} :
    m.get k = some v ↔ (k, v) ∈ m.entries := by
  constructor
  · intro h
    obtain ⟨e, he, rfl⟩ := Option.map_eq_some_iff.mp h
    have hk : e.1 = k := by simpa using List.find?_some he
    exact hk ▸ List.mem_of_find?_eq_some he
  · intro h
    have hne : (m.entries.find? fun e => decide (e.1 = k)) ≠ none := by
      intro hn
      simpa using List.find?_eq_none.mp hn (k, v) h
    obtain ⟨e, he⟩ := Option.ne_none_iff_exists'.mp hne
    have hk : e.1 = k := by simpa using List.find?_some he
    have hee : e = (k, v) :=
      List.inj_on_of_nodup_map m.nodup (List.mem_of_find?_eq_some he) h hk
    rw [get, he, hee, Option.map_some]

theorem get_eq_none_iff {m : InsMap κ ν} {k : κ} :
    m.get k = none ↔ k ∉ m.entries.map Prod.fst := by
  simp only [get, Option.map_eq_none_iff, List.find?_eq_none, decide_eq_true_eq, List.mem_map,
    not_exists, not_and]

@[simp] theorem get_empty (k : κ) : (empty : InsMap κ ν).get k = none := rfl

theorem mem_replace {k : κ} {v : ν} {es : List (κ × ν)} {a : κ} {b : ν} (hk : k ∈ es.map Prod.fst) :
    (a, b) ∈ replace k v es ↔ (a = k ∧ b = v) ∨ (a ≠ k ∧ (a, b) ∈ es) := by
  simp only [replace, List.mem_map]
  constructor
  · rintro ⟨e, he, h⟩
    by_cases hek : e.1 = k
    · rw [if_pos hek] at h; cases h; exact .inl ⟨rfl, rfl⟩
    · rw [if_neg hek] at h; subst h; exact .inr ⟨hek, he⟩
  · rintro (⟨rfl, rfl⟩ | ⟨hak, he⟩)
    · obtain ⟨e, he, rfl⟩ := List.mem_map.mp hk
      exact ⟨e, he, by rw [if_pos rfl]⟩
    · exact ⟨(a, b), he, if_neg hak⟩

theorem mem_set {m : InsMap κ ν} {k : κ} {v : ν} {a : κ} {b : ν} :
    (a, b) ∈ (m.set k v).entries ↔ (a = k ∧ b = v) ∨ (a ≠ k ∧ (a, b) ∈ m.entries) := by
  unfold set
  split
  · next h => exact mem_replace h
  · next h =>
    simp only [List.mem_append, List.mem_singleton, Prod.mk.injEq]
    constructor
    · rintro (he | he)
      · exact .inr ⟨fun hak => h (hak ▸ List.mem_map_of_mem he), he⟩
      · exact .inl he
    · rintro (he | ⟨_, he⟩)
      · exact .inr he
      · exact .inl he

theorem mem_delete {m : InsMap κ ν} {k : κ} {e : κ × ν} :
    e ∈ (m.delete k).entries ↔ e.1 ≠ k ∧ e ∈ m.entries := by
  simp only [delete, List.mem_filter, decide_eq_true_eq]
  exact and_comm

theorem get_set (m : InsMap κ ν) (k : κ) (v : ν) (a : κ) :
    (m.set k v).get a = if a = k then some v else m.get a := by
  apply Option.ext
  intro b
  rw [get_eq_some_iff, mem_set]
  by_cases h : a = k
  · simp [h, eq_comm]
  · simp [h, get_eq_some_iff]

@[simp] theorem get_set_self (m : InsMap κ ν) (k : κ) (v : ν) : (m.set k v).get k = some v := by
  rw [get_set, if_pos rfl]

theorem get_set_of_ne (m : InsMap κ ν) {k a : κ} (v : ν) (h : a ≠ k) :
    (m.set k v).get a = m.get a := by
  rw [get_set, if_neg h]

theorem get_delete (m : InsMap κ ν) (k a : κ) :
    (m.delete k).get a = if a = k then none else m.get a := by
  apply Option.ext
  intro b
  rw [get_eq_some_iff, mem_delete]
  by_cases h : a = k
  · simp [h]
  · simp [h, get_eq_some_iff]

@[simp] theorem get_delete_self (m : InsMap κ ν) (k : κ) : (m.delete k).get k = none := by
  rw [get_delete, if_pos rfl]

theorem get_delete_of_ne (m : InsMap κ ν) {k a : κ} (h : a ≠ k) :
    (m.delete k).get a = m.get a := by
  rw [get_delete, if_neg h]

/-! ## Entries up to their order -/

theorem filter_key_perm (m : InsMap κ ν) (k : κ) :
    (m.entries.filter fun e => e.1 = k).Perm ((m.get k).map (k, ·)).toList := by
  have hone : ((m.get k).map (k, ·)).toList.Nodup := by
    cases m.get k <;> simp
  refine (List.perm_ext_iff_of_nodup (m.entries_nodup.filter _) hone).mpr ?_
  rintro ⟨a, b⟩
  rw [List.mem_filter, Option.mem_toList, Option.map_eq_some_iff]
  by_cases hk : a = k
  · subst hk
    simp [get_eq_some_iff]
  · simp [hk, Ne.symm hk]

theorem set_perm (m : InsMap κ ν) (k : κ) (v : ν) :
    (m.set k v).entries.Perm ((k, v) :: (m.delete k).entries) := by
  refine (List.perm_ext_iff_of_nodup (entries_nodup _) ?_).mpr ?_
  · refine List.nodup_cons.mpr ⟨fun h => ?_, entries_nodup _⟩
    exact (mem_delete.mp h).1 rfl
  · rintro ⟨a, b⟩
    rw [mem_set, List.mem_cons, mem_delete, Prod.mk.injEq]

theorem replace_replace (k : κ) (v w : ν) (es : List (κ × ν)) :
    replace k w (replace k v es) = replace k w es := by
  simp only [replace, List.map_map]
  apply List.map_congr_left
  intro e _
  by_cases h : e.1 = k <;> simp [h]

theorem set_set (m : InsMap κ ν) (k : κ) (v w : ν) : (m.set k v).set k w = m.set k w := by
  have hk : k ∈ (m.set k v).entries.map Prod.fst :=
    List.mem_map_of_mem (f := Prod.fst) (mem_set.mpr (.inl ⟨rfl, rfl⟩))
  apply ext
  by_cases h : k ∈ m.entries.map Prod.fst
  · rw [set, dif_pos hk]
    simp only [set, dif_pos h, replace_replace]
  · have hnot : replace k w m.entries = m.entries := by
      conv_rhs => rw [← List.map_id m.entries]
      apply List.map_congr_left
      intro e he
      have hek : e.1 ≠ k := fun hek => h (hek ▸ List.mem_map_of_mem he)
      simp [hek]
    rw [set, dif_pos hk]
    simp only [set, dif_neg h]
    rw [replace, List.map_append]
    change replace k w m.entries ++ _ = _
    rw [hnot]
    simp

/-! ## Size -/

theorem size_set_of_none {m : InsMap κ ν} {k : κ} {v : ν} (h : m.get k = none) :
    (m.set k v).size = m.size + 1 := by
  simp [set, size, get_eq_none_iff.mp h]

theorem size_delete_lt {m : InsMap κ ν} {k : κ} {v : ν} (h : m.get k = some v) :
    (m.delete k).size < m.size := by
  apply List.length_filter_lt_length_iff_exists.mpr
  exact ⟨(k, v), get_eq_some_iff.mp h, by simp⟩

/-! ## Sums over the values -/

theorem sum_filter_ne {f : ν → Int} {k : κ} {v : ν} :
    ∀ {es : List (κ × ν)}, (es.map Prod.fst).Nodup → (k, v) ∈ es →
      ((es.filter fun e => decide (e.1 ≠ k)).map fun e => f e.2).sum + f v =
        (es.map fun e => f e.2).sum
  | [], _, h => by cases h
  | e :: es, hn, h => by
    rw [List.map_cons, List.nodup_cons] at hn
    by_cases he : e.1 = k
    · have hev : e = (k, v) := by
        rcases List.mem_cons.mp h with h | h
        · exact h.symm
        · exact absurd (List.mem_map_of_mem (f := Prod.fst) h) (he ▸ hn.1)
      have hrest : es.filter (fun e => decide (e.1 ≠ k)) = es := by
        apply List.filter_eq_self.mpr
        intro x hx
        simp only [decide_eq_true_eq]
        intro hxk
        exact hn.1 (he ▸ hxk ▸ List.mem_map_of_mem hx)
      rw [List.filter_cons_of_neg (by simp [he]), hrest, hev, List.map_cons, List.sum_cons]
      exact Int.add_comm _ _
    · have hv : (k, v) ∈ es := by
        rcases List.mem_cons.mp h with h | h
        · exact absurd (by rw [← h]) he
        · exact h
      rw [List.filter_cons_of_pos (by simp [he]), List.map_cons, List.sum_cons, List.map_cons,
        List.sum_cons, ← sum_filter_ne hn.2 hv]
      exact Int.add_assoc _ _ _

theorem sumBy_delete {f : ν → Int} {m : InsMap κ ν} {k : κ} {v : ν} (h : m.get k = some v) :
    (m.delete k).sumBy f = m.sumBy f - f v := by
  have := sum_filter_ne (f := f) m.nodup (get_eq_some_iff.mp h)
  simp only [sumBy, delete]
  omega

theorem delete_of_none {m : InsMap κ ν} {k : κ} (h : m.get k = none) : m.delete k = m := by
  apply ext
  apply List.filter_eq_self.mpr
  intro e he
  simp only [decide_eq_true_eq]
  intro hek
  exact get_eq_none_iff.mp h (hek ▸ List.mem_map_of_mem he)

theorem delete_comm (m : InsMap κ ν) (k l : κ) : (m.delete k).delete l = (m.delete l).delete k :=
  ext (List.filter_comm ..)

/-- Deleting a key removes the one entry under it. -/
theorem entries_delete [DecidableEq ν] {m : InsMap κ ν} {k : κ} {v : ν}
    (h : m.get k = some v) :
    (m.delete k).entries = m.entries.filter fun e => decide (e ≠ (k, v)) := by
  apply List.filter_congr
  intro e he
  have hiff : e.1 = k ↔ e = (k, v) := by
    refine ⟨fun hk => ?_, fun hkv => congrArg Prod.fst hkv⟩
    exact List.inj_on_of_nodup_map m.nodup he (get_eq_some_iff.mp h) hk
  simp only [ne_eq, hiff]

theorem entries_delete_split {m : InsMap κ ν} {k : κ} {v : ν} {before later : List (κ × ν)}
    (h : m.entries = before ++ (k, v) :: later) : (m.delete k).entries = before ++ later := by
  have hn := m.nodup
  rw [h, List.map_append, List.map_cons, List.nodup_middle, List.nodup_cons, ← List.map_append]
    at hn
  show m.entries.filter _ = _
  rw [h, List.filter_append, List.filter_cons_of_neg (by simp), ← List.filter_append]
  refine List.filter_eq_self.mpr fun e he => ?_
  have hne : e.1 ≠ k := fun hk => hn.1 (List.mem_map.mpr ⟨e, he, hk⟩)
  simpa using hne

theorem sumBy_set_of_none {f : ν → Int} {m : InsMap κ ν} {k : κ} {v : ν} (h : m.get k = none) :
    (m.set k v).sumBy f = m.sumBy f + f v := by
  simp [set, sumBy, get_eq_none_iff.mp h]

theorem delete_set (m : InsMap κ ν) (k : κ) (v : ν) : (m.set k v).delete k = m.delete k := by
  apply ext
  unfold set
  split
  · simp only [delete, replace, List.filter_map]
    induction m.entries with
    | nil => rfl
    | cons e es ih =>
      by_cases he : e.1 = k
      · simp [he] at ih ⊢
        simpa using ih
      · simp [he] at ih ⊢
        simpa using ih
  · simp [delete]

theorem sumBy_set_of_some {f : ν → Int} {m : InsMap κ ν} {k : κ} {v w : ν}
    (h : m.get k = some w) : (m.set k v).sumBy f = m.sumBy f - f w + f v := by
  have h1 := sumBy_delete (f := f) (m := m.set k v) (k := k) (v := v) (get_set_self m k v)
  have h2 := sumBy_delete (f := f) h
  rw [delete_set] at h1
  omega

theorem sumBy_mono {f g : ν → Int} {m : InsMap κ ν} (h : ∀ k v, m.get k = some v → f v ≤ g v) :
    m.sumBy f ≤ m.sumBy g := by
  apply List.sum_le_sum
  intro e he
  exact h e.1 e.2 (get_eq_some_iff.mpr he)

/-- Fewer entries, a smaller sum. -/
theorem sumBy_le_of_subset {f : ν → Int} (hf : ∀ v, 0 ≤ f v) {m n : InsMap κ ν}
    (h : ∀ k v, m.get k = some v → n.get k = some v) : m.sumBy f ≤ n.sumBy f := by
  have hsub : m.entries ⊆ n.entries := fun e he =>
    get_eq_some_iff.mp (h e.1 e.2 (get_eq_some_iff.mpr he))
  obtain ⟨es, hperm, hes⟩ := List.subperm_of_subset m.nodup.of_map hsub
  have hsum : (m.entries.map fun e => f e.2).sum = (es.map fun e => f e.2).sum :=
    ((hperm.map _).sum_eq).symm
  rw [sumBy, hsum]
  exact sum_sublist_le (fun e => hf e.2) hes

/-! ## Maps whose keys are known -/

/-- A map with only keys of `ks`, as many as there are, has all of them. -/
theorem keys_perm {m : InsMap κ ν} {ks : List κ} (hkeys : ∀ k v, m.get k = some v → k ∈ ks)
    (hlen : ks.length ≤ m.size) : (m.entries.map Prod.fst).Perm ks := by
  have hsub : m.entries.map Prod.fst ⊆ ks := by
    intro k hk
    obtain ⟨e, he, rfl⟩ := List.mem_map.mp hk
    exact hkeys e.1 e.2 (get_eq_some_iff.mpr he)
  exact (List.subperm_of_subset m.nodup hsub).perm_of_length_le (by rwa [List.length_map])

theorem get_of_mem_keys {m : InsMap κ ν} {k : κ} (h : k ∈ m.entries.map Prod.fst) :
    ∃ v, m.get k = some v := by
  obtain ⟨e, he, rfl⟩ := List.mem_map.mp h
  exact ⟨e.2, get_eq_some_iff.mpr he⟩

theorem sumBy_eq_keys {f : ν → Int} {g : κ → Int} {m : InsMap κ ν}
    (h : ∀ k v, m.get k = some v → f v = g k) :
    m.sumBy f = ((m.entries.map Prod.fst).map g).sum := by
  rw [List.map_map]
  refine congrArg List.sum (List.map_congr_left fun e he => ?_)
  exact h e.1 e.2 (get_eq_some_iff.mpr he)

end InsMap

end Senn.Lib

import Mathlib.Algebra.Order.Ring.Nat
import Mathlib.Tactic.Ring

/-! # Numbers as a fixed number of digits

The digits of a number in some base, from the highest on, as many as are asked for. On numbers
that fit they are an injective code that keeps the order. Shifts and masks put digits together
and take them apart when the base is a power of two. -/

namespace Senn.Lib.Digits

variable {b : Nat}

/-- The number that digits stand for. -/
def value (b : Nat) (ds : List Nat) : Nat := ds.foldl (fun v d => v * b + d) 0

/-- The lowest `k` digits of a number. -/
def digits (b : Nat) : Nat → Nat → List Nat
  | 0, _ => []
  | k + 1, n => n / b ^ k % b :: digits b k n

@[simp] theorem length_digits (k n : Nat) : (digits b k n).length = k := by
  induction k with
  | zero => rfl
  | succ k ih => rw [digits, List.length_cons, ih]

theorem digits_lt_base (hb : 0 < b) {k n d : Nat} (hd : d ∈ digits b k n) : d < b := by
  induction k with
  | zero => cases hd
  | succ k ih =>
    rcases List.mem_cons.mp hd with rfl | hd
    · exact Nat.mod_lt _ hb
    · exact ih hd

theorem foldl_value (ds : List Nat) (v : Nat) :
    ds.foldl (fun v d => v * b + d) v = v * b ^ ds.length + value b ds := by
  induction ds generalizing v with
  | nil => simp [value]
  | cons d ds ih =>
    have hzero := ih (0 * b + d)
    rw [value, List.foldl_cons, List.foldl_cons, ih, hzero, List.length_cons]
    ring

theorem value_cons (d : Nat) (ds : List Nat) :
    value b (d :: ds) = d * b ^ ds.length + value b ds := by
  rw [value, List.foldl_cons, foldl_value, Nat.zero_mul, Nat.zero_add]

theorem value_append (xs ys : List Nat) :
    value b (xs ++ ys) = value b xs * b ^ ys.length + value b ys := by
  rw [value, List.foldl_append, foldl_value]
  rfl

theorem value_lt {ds : List Nat} (h : ∀ d ∈ ds, d < b) : value b ds < b ^ ds.length := by
  induction ds with
  | nil => exact Nat.one_pos
  | cons d ds ih =>
    obtain ⟨hd, hds⟩ := List.forall_mem_cons.mp h
    rw [value_cons, List.length_cons]
    calc d * b ^ ds.length + value b ds
        < d * b ^ ds.length + b ^ ds.length := Nat.add_lt_add_left (ih hds) _
      _ = (d + 1) * b ^ ds.length := (Nat.succ_mul _ _).symm
      _ ≤ b * b ^ ds.length := Nat.mul_le_mul_right _ hd
      _ = b ^ (ds.length + 1) := (Nat.pow_succ').symm

theorem value_digits (k n : Nat) : value b (digits b k n) = n % b ^ k := by
  induction k with
  | zero => simp [digits, value, Nat.mod_one]
  | succ k ih =>
    rw [digits, value_cons, length_digits, ih, Nat.pow_succ, Nat.mod_mul]
    ring

theorem digits_mod (k n : Nat) {j : Nat} (hj : k ≤ j) : digits b k (n % b ^ j) = digits b k n := by
  induction k with
  | zero => rfl
  | succ k ih =>
    have hhead : n % b ^ j / b ^ k % b = n / b ^ k % b := by
      obtain ⟨i, rfl⟩ := Nat.exists_eq_add_of_le hj
      rw [show k + 1 + i = k + (1 + i) by omega, Nat.pow_add, Nat.mod_mul_right_div_self,
        Nat.pow_add, Nat.pow_one, Nat.mod_mul_right_mod]
    rw [digits, digits, ih (by omega), hhead]

/-- Digits are those of the number they stand for. -/
theorem digits_value {ds : List Nat} (h : ∀ d ∈ ds, d < b) :
    digits b ds.length (value b ds) = ds := by
  induction ds with
  | nil => rfl
  | cons d ds ih =>
    obtain ⟨hd, hds⟩ := List.forall_mem_cons.mp h
    have hlt := value_lt hds
    have hpos : 0 < b ^ ds.length := by omega
    have hhead : (d * b ^ ds.length + value b ds) / b ^ ds.length % b = d := by
      rw [Nat.add_comm, Nat.add_mul_div_right _ _ hpos, Nat.div_eq_of_lt hlt, Nat.zero_add,
        Nat.mod_eq_of_lt hd]
    have htail : digits b ds.length (d * b ^ ds.length + value b ds) = ds := by
      rw [← digits_mod ds.length _ (Nat.le_refl _), Nat.add_comm, Nat.add_mul_mod_self_right,
        Nat.mod_eq_of_lt hlt, ih hds]
    rw [value_cons, List.length_cons, digits, hhead, htail]

/-- Digits of one length that stand for one number are the same. -/
theorem value_injective {xs ys : List Nat} (hx : ∀ d ∈ xs, d < b) (hy : ∀ d ∈ ys, d < b)
    (hlength : xs.length = ys.length) (h : value b xs = value b ys) : xs = ys := by
  rw [← digits_value hx, hlength, h, digits_value hy]

/-- The digits of the smaller number come first. -/
theorem digits_lt {k m n : Nat} (hlt : m < n) (hn : n < b ^ k) : digits b k m < digits b k n := by
  induction k generalizing m n with
  | zero => rw [Nat.pow_zero] at hn; omega
  | succ k ih =>
    have hpos : 0 < b ^ k := Nat.pos_of_ne_zero fun hzero => by
      rw [Nat.pow_succ, hzero] at hn
      omega
    have hsplit : ∀ {i}, i < b ^ (k + 1) → i / b ^ k % b = i / b ^ k := fun hi => by
      rw [Nat.pow_succ, Nat.mul_comm] at hi
      exact Nat.mod_eq_of_lt (Nat.div_lt_of_lt_mul (by rwa [Nat.mul_comm]))
    rw [digits, digits, hsplit (hlt.trans hn), hsplit hn, List.cons_lt_cons_iff]
    rcases (Nat.div_le_div_right hlt.le (c := b ^ k)).lt_or_eq with hhead | hhead
    · exact .inl hhead
    · refine .inr ⟨hhead, ?_⟩
      have hm := Nat.div_add_mod m (b ^ k)
      have hn' := Nat.div_add_mod n (b ^ k)
      rw [hhead] at hm
      rw [← digits_mod k m (Nat.le_refl _), ← digits_mod k n (Nat.le_refl _)]
      exact ih (by omega) (Nat.mod_lt _ hpos)

/-- The lowest digit is the last one. -/
theorem digits_succ_last (k n : Nat) : digits b (k + 1) n = digits b k (n / b) ++ [n % b] := by
  induction k with
  | zero => simp [digits]
  | succ k ih =>
    rw [digits, ih, digits, List.cons_append, Nat.div_div_eq_div_mul, Nat.pow_succ']

/-! ## Letters for digits -/

variable {α : Type*} [LT α] {letter : Nat → α}

/-- Letters in the order of the digits keep the order of digit strings. -/
theorem map_lt (hletter : ∀ m n, m < n → n < b → letter m < letter n) {xs ys : List Nat}
    (hy : ∀ d ∈ ys, d < b) (h : xs < ys) : xs.map letter < ys.map letter := by
  induction xs generalizing ys with
  | nil =>
    cases ys with
    | nil => exact absurd h (List.not_lt_nil _)
    | cons y ys => exact List.nil_lt_cons _ _
  | cons x xs ih =>
    cases ys with
    | nil => exact absurd h (List.not_lt_nil _)
    | cons y ys =>
      obtain ⟨hyb, hys⟩ := List.forall_mem_cons.mp hy
      rw [List.map_cons, List.map_cons, List.cons_lt_cons_iff]
      rcases List.cons_lt_cons_iff.mp h with hlt | ⟨rfl, hlt⟩
      · exact .inl (hletter x y hlt hyb)
      · exact .inr ⟨rfl, ih hys hlt⟩

theorem append_lt_append {xs ys us vs : List α} (hlength : xs.length = ys.length)
    (h : xs < ys) : xs ++ us < ys ++ vs := by
  induction xs generalizing ys with
  | nil =>
    obtain rfl := List.length_eq_zero_iff.mp hlength.symm
    exact absurd h (List.not_lt_nil _)
  | cons x xs ih =>
    cases ys with
    | nil => cases hlength
    | cons y ys =>
      rw [List.cons_append, List.cons_append, List.cons_lt_cons_iff]
      rcases List.cons_lt_cons_iff.mp h with hlt | ⟨rfl, hlt⟩
      · exact .inl hlt
      · exact .inr ⟨rfl, ih (Nat.succ.inj hlength) hlt⟩

/-! ## Bits -/

theorem shiftLeft_or {m n k : Nat} (hn : n < 2 ^ k) : m <<< k ||| n = m * 2 ^ k + n := by
  rw [← Nat.shiftLeft_add_eq_or_of_lt hn, Nat.shiftLeft_eq]

theorem shiftRight_lt {n j k : Nat} (hn : n < 2 ^ (j + k)) : n >>> j < 2 ^ k := by
  rw [Nat.shiftRight_eq_div_pow]
  exact Nat.div_lt_of_lt_mul (by rwa [← Nat.pow_add])

/-- The digit number `i` from the right, of `k` bits. -/
theorem shiftRight_and (n i k : Nat) :
    (n >>> (i * k)) &&& (2 ^ k - 1) = n / (2 ^ k) ^ i % 2 ^ k := by
  rw [Nat.and_two_pow_sub_one_eq_mod, Nat.shiftRight_eq_div_pow, Nat.mul_comm, Nat.pow_mul]

end Senn.Lib.Digits

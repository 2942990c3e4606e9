import Mathlib.Data.List.DropRight
import Mathlib.Data.List.Basic

/-! # Words and keywords of a text

A text is read in two ways here: as the words that stand between its blanks, and
as the pieces between the occurrences of a keyword that stand at word boundaries.
The two readings differ where a piece has other than one word, or where the
keyword touches a unit that is neither blank nor of a word. -/

namespace Senn.Lib

variable {α : Type*} (sp : α → Bool)

/-! ## Between separators -/

/-- The parts hold everything but the separators. -/
theorem forall_splitOn {α : Type*} [BEq α] [LawfulBEq α] {p : α → Prop} (sep : α) (s : List α) :
    (∀ part ∈ s.splitOn sep, ∀ u ∈ part, p u) ↔ ∀ u ∈ s, u ≠ sep → p u := by
  induction s with
  | nil => simp
  | cons x s ih =>
    rw [List.splitOn_cons_eq_if_modifyHead, List.forall_mem_cons, ← ih]
    split
    · next hx => simp [beq_iff_eq.mp hx]
    · next hx =>
      have hne : x ≠ sep := fun h => hx (beq_iff_eq.mpr h)
      cases hparts : s.splitOn sep with
      | nil => exact absurd hparts (List.splitOn_ne_nil _ _)
      | cons part parts => simp [hne, and_assoc]

/-! ## Between blanks -/

/-- What stands between the blanks of a text. -/
def words (s : List α) : List (List α) := (s.splitOnP sp).filter fun w => !w.isEmpty

/-- The text without the blanks at its two ends. -/
def trimmed (s : List α) : List α := (s.dropWhile sp).rdropWhile sp

variable {sp}

theorem trimmed_split (sp : α → Bool) (s : List α) : ∃ a b, s = a ++ trimmed sp s ++ b ∧
    (∀ c ∈ a, sp c = true) ∧ ∀ c ∈ b, sp c = true := by
  refine ⟨s.takeWhile sp, (s.dropWhile sp).rtakeWhile sp, ?_, fun c => List.mem_takeWhile_imp,
    fun c => List.mem_rtakeWhile_imp⟩
  rw [trimmed, List.append_assoc, List.rdropWhile_append_rtakeWhile, List.takeWhile_append_dropWhile]

theorem words_split {b : α} (hb : sp b = true) (x y : List α) :
    words sp (x ++ b :: y) = words sp x ++ words sp y := by
  simp only [words, List.splitOnP_append_cons x y hb, List.filter_append]

theorem words_skip {a : List α} (ha : ∀ c ∈ a, sp c = true) (s : List α) :
    words sp (a ++ s) = words sp s := by
  induction a with
  | nil => rfl
  | cons b a ih =>
    obtain ⟨hb, ha⟩ := List.forall_mem_cons.mp ha
    rw [List.cons_append, ← List.nil_append (b :: (a ++ s)), words_split hb, ih ha]
    simp [words, List.splitOnP_nil]

/-- `w` is a word: it is not empty and has no blank. -/
def IsWord (sp : α → Bool) (w : List α) : Prop := w ≠ [] ∧ ∀ c ∈ w, sp c = false

theorem words_single {w : List α} (hw : IsWord sp w) : words sp w = [w] := by
  have hne : w.isEmpty = false := List.isEmpty_eq_false_iff.mpr hw.1
  rw [words, List.splitOnP_eq_singleton hw.2, List.filter_singleton, hne]
  rfl

/-- A word in front of a blank, or of nothing, is the first one. -/
theorem words_lead {w y : List α} (hw : IsWord sp w) (hy : ∀ c ∈ y.head?, sp c = true) :
    words sp (w ++ y) = w :: words sp y := by
  cases y with
  | nil =>
    rw [List.append_nil, words_single hw]
    rfl
  | cons b y =>
    have hb : sp b = true := hy b rfl
    have hskip := words_skip (List.forall_mem_singleton.mpr hb) y
    rw [words_split hb, words_single hw, ← hskip]
    rfl

/-- A word between blanks is one of the words of the text. -/
theorem mem_words {x w y : List α} (hw : IsWord sp w) (hx : ∀ c ∈ x.getLast?, sp c = true)
    (hy : ∀ c ∈ y.head?, sp c = true) : w ∈ words sp (x ++ w ++ y) := by
  have hlead := words_lead hw hy
  cases x using List.reverseRecOn with
  | nil =>
    rw [List.nil_append, hlead]
    exact List.mem_cons_self
  | append_singleton x b =>
    have hb : sp b = true := hx b (by simp)
    rw [List.append_assoc, List.append_assoc, List.singleton_append, words_split hb, hlead]
    exact List.mem_append_right _ List.mem_cons_self

/-- A text that starts with no blank starts with a word. -/
theorem exists_first (s : List α) : ∀ {b : α}, sp b = false → ∃ i y, b :: s = i ++ y ∧
    IsWord sp i ∧ ∀ c ∈ y.head?, sp c = true := by
  induction s with
  | nil =>
    intro b hb
    exact ⟨[b], [], rfl, ⟨List.cons_ne_nil b [], by simpa using hb⟩, by simp⟩
  | cons d s ih =>
    intro b hb
    by_cases hd : sp d = true
    · exact ⟨[b], d :: s, rfl, ⟨List.cons_ne_nil b [], by simpa using hb⟩, by simpa using hd⟩
    · obtain ⟨i, y, heq, hi, hy⟩ := ih (eq_false_of_ne_true hd)
      refine ⟨b :: i, y, by rw [heq]; rfl, ⟨List.cons_ne_nil b i, ?_⟩, hy⟩
      exact List.forall_mem_cons.mpr ⟨hb, hi.2⟩

/-- Every word of a text stands between blanks in it. The induction takes the first blank or the
first word off. -/
theorem word_delimited {w : List α} (n : Nat) : ∀ s : List α, s.length ≤ n → w ∈ words sp s →
    IsWord sp w ∧ ∃ x y, s = x ++ w ++ y ∧ (∀ c ∈ x.getLast?, sp c = true) ∧
      ∀ c ∈ y.head?, sp c = true := by
  induction n with
  | zero =>
    intro s hs hmem
    rw [List.length_eq_zero_iff.mp (Nat.le_zero.mp hs)] at hmem
    exact absurd hmem List.not_mem_nil
  | succ n ih =>
    intro s hs hmem
    cases s with
    | nil => exact absurd hmem List.not_mem_nil
    | cons b s =>
      by_cases hb : sp b = true
      · have hskip := words_skip (List.forall_mem_singleton.mpr hb) s
        rw [List.singleton_append] at hskip
        obtain ⟨hw, x, y, heq, hx, hy⟩ := ih s (Nat.le_of_succ_le_succ hs) (hskip ▸ hmem)
        refine ⟨hw, b :: x, y, by rw [heq]; rfl, ?_, hy⟩
        cases x with
        | nil => simpa using hb
        | cons d x => simpa only [List.getLast?_cons_cons] using hx
      · obtain ⟨i, r, heq, hi, hr⟩ := exists_first s (eq_false_of_ne_true hb)
        rw [heq, words_lead hi hr] at hmem
        cases List.mem_cons.mp hmem with
        | inl hfirst => exact ⟨hfirst ▸ hi, [], r, by rw [heq, hfirst]; rfl, by simp, hr⟩
        | inr hmem =>
          have hlen := congrArg List.length heq
          have hpos := List.length_pos_iff.mpr hi.1
          simp only [List.length_append, List.length_cons] at hlen hs
          obtain ⟨hw, x, y, hxy, hx, hy⟩ := ih r (by omega) hmem
          have hne : x ≠ [] := by
            intro hnil
            obtain ⟨d, t, rfl⟩ := List.exists_cons_of_ne_nil hw.1
            have hd : sp d = true := hr d (by rw [hxy, hnil]; rfl)
            exact absurd hd (by simp [hw.2 d List.mem_cons_self])
          refine ⟨hw, i ++ x, y, by rw [heq, hxy]; simp only [List.append_assoc], ?_, hy⟩
          rwa [List.getLast?_append_of_ne_nil _ hne]

/-! ## At word boundaries -/

section pieces
variable (wc : α → Bool) (w : List α)

/-- No word goes on at the start of `s`. -/
def Clear (s : List α) : Prop := ∀ c ∈ s.head?, wc c = false

/-- `ps` are the pieces of a text between some occurrences of the keyword at word boundaries. -/
inductive Cuts : Bool → List α → List (List α) → Prop
  | last {prev s} : Cuts prev s [s]
  | cut {prev p r ps} (hfirst : p = [] → prev = false) (hend : ∀ c ∈ p.getLast?, wc c = false)
      (hclear : Clear wc r) (hrest : Cuts true r ps) : Cuts prev (p ++ w ++ r) (p :: ps)

variable {wc w}

theorem clear_iff {s : List α} : Clear wc s ↔ s.head?.any wc = false := by
  cases s <;> simp [Clear]

theorem Cuts.cons {c : α} {prev : Bool} {s : List α} {ps : List (List α)}
    (h : Cuts wc w (wc c) s ps) : Cuts wc w prev (c :: s) (ps.modifyHead (c :: ·)) := by
  cases h with
  | last => exact .last
  | @cut _ p r ps hfirst hend hclear hrest =>
    refine .cut (p := c :: p) (fun h => absurd h (List.cons_ne_nil c p)) ?_ hclear hrest
    cases p with
    | nil => simpa using hfirst rfl
    | cons d p => simpa only [List.getLast?_cons_cons] using hend

/-! ## Pieces that are one word -/

/-- A word whose first and last units are of words. -/
structure Solid (sp wc : α → Bool) (i : List α) : Prop where
  isWord : IsWord sp i
  head : ∀ c ∈ i.head?, wc c = true
  last : ∀ c ∈ i.getLast?, wc c = true

namespace Solid
variable {i a b y : List α}

/-- Where no word goes on, blanks stand in front of the word. -/
theorem front (h : Solid sp wc i) (hclear : Clear wc (a ++ i ++ y)) : a ≠ [] := by
  intro ha
  obtain ⟨c, t, rfl⟩ := List.exists_cons_of_ne_nil h.isWord.1
  have hc : wc c = false := hclear c (by simp [ha])
  exact absurd (h.head c rfl) (by simp [hc])

theorem back (h : Solid sp wc i) (hend : ∀ c ∈ (a ++ i ++ b).getLast?, wc c = false) : b ≠ [] := by
  intro hb
  obtain ⟨t, c, rfl⟩ := (List.eq_nil_or_concat i).resolve_left h.isWord.1
  have hc : wc c = false := hend c (by simp [hb])
  exact absurd (h.last c (by simp)) (by simp [hc])

end Solid

theorem head_blank {b y : List α} (hb : ∀ c ∈ b, sp c = true) (hne : b ≠ []) :
    ∀ c ∈ (b ++ y).head?, sp c = true := by
  obtain ⟨d, t, rfl⟩ := List.exists_cons_of_ne_nil hne
  simpa using hb d List.mem_cons_self

/-- A piece that is one word up to its blanks stands between blanks in the text as well. -/
theorem Cuts.delimited {prev : Bool} {s : List α} {ps : List (List α)} (h : Cuts wc w prev s ps)
    (hclear : prev = true → Clear wc s) {q : List α} (hq : q ∈ ps)
    (hsolid : Solid sp wc (trimmed sp q)) :
    ∃ x y, s = x ++ trimmed sp q ++ y ∧ (x = [] → prev = false) ∧
      (∀ c ∈ x.getLast?, sp c = true) ∧ ∀ c ∈ y.head?, sp c = true := by
  obtain ⟨a, b, hab, ha, hb⟩ := trimmed_split sp q
  have hfront : ∀ y, (prev = true → Clear wc (a ++ trimmed sp q ++ y)) → a = [] → prev = false := by
    intro y hy hnil
    cases prev with
    | false => rfl
    | true => exact absurd hnil (hsolid.front (hy rfl))
  have hlast : ∀ c ∈ a.getLast?, sp c = true := fun c hc => ha c (List.mem_of_mem_getLast? hc)
  induction h with
  | last =>
    rw [List.mem_singleton.mp hq] at hab hsolid hfront ⊢
    refine ⟨a, b, hab, hfront b fun h => hab ▸ hclear h, hlast, fun c hc => ?_⟩
    exact hb c (List.mem_of_mem_head? hc)
  | @cut prev p r ps hfirst hend hclear' hrest ih =>
    cases List.mem_cons.mp hq with
    | inl heq =>
      subst heq
      have hne := hsolid.back (hab ▸ hend)
      have htext : q ++ w ++ r = a ++ trimmed sp q ++ (b ++ (w ++ r)) := by
        conv_lhs => rw [hab]
        simp only [List.append_assoc]
      exact ⟨a, b ++ (w ++ r), htext, hfront _ fun h => htext ▸ hclear h, hlast,
        head_blank hb hne⟩
    | inr hmem =>
      obtain ⟨x, y, heq, hx, hlast, hhead⟩ := ih (fun _ => hclear') hmem (fun y hy hnil =>
        absurd hnil (hsolid.front (hy rfl)))
      have hne : x ≠ [] := fun h => nomatch hx h
      refine ⟨p ++ w ++ x, y, by rw [heq]; simp only [List.append_assoc], fun h => ?_, ?_, hhead⟩
      · exact absurd (List.append_eq_nil_iff.mp h).2 hne
      · rwa [List.getLast?_append_of_ne_nil _ hne]

/-- One word up to its blanks, in front of a text that starts with a blank unless they end so. -/
theorem words_piece {a i b y : List α} (hi : IsWord sp i) (ha : ∀ c ∈ a, sp c = true)
    (hb : ∀ c ∈ b, sp c = true) (hhead : ∀ c ∈ (b ++ y).head?, sp c = true) :
    words sp (a ++ i ++ b ++ y) = i :: words sp y := by
  rw [List.append_assoc, List.append_assoc, words_skip ha, words_lead hi hhead, words_skip hb]

/-- After the keyword a text of such pieces starts with a blank. -/
theorem Cuts.starts_blank {prev : Bool} {s : List α} {ps : List (List α)} (h : Cuts wc w prev s ps)
    (hclear : Clear wc s) (hall : ∀ q ∈ ps, Solid sp wc (trimmed sp q)) :
    ∀ c ∈ s.head?, sp c = true := by
  cases h with
  | last =>
    obtain ⟨a, b, hab, ha, -⟩ := trimmed_split sp s
    rw [hab] at hclear ⊢
    have hne := (hall s List.mem_cons_self).front hclear
    rw [List.append_assoc]
    exact head_blank ha hne
  | @cut _ p r ps =>
    obtain ⟨a, b, hab, ha, -⟩ := trimmed_split sp p
    have htext : p ++ w ++ r = a ++ trimmed sp p ++ (b ++ (w ++ r)) := by
      conv_lhs => rw [hab]
      simp only [List.append_assoc]
    rw [htext] at hclear ⊢
    have hne := (hall p List.mem_cons_self).front hclear
    rw [List.append_assoc]
    exact head_blank ha hne

/-- When every piece is one word, the words of the text are these with the keyword between. -/
theorem Cuts.words {prev : Bool} {s : List α} {ps : List (List α)} (h : Cuts wc w prev s ps)
    (hw : IsWord sp w) (hall : ∀ q ∈ ps, Solid sp wc (trimmed sp q)) :
    words sp s = (ps.map (trimmed sp)).intersperse w := by
  induction h with
  | @last _ s =>
    obtain ⟨a, b, hab, ha, hb⟩ := trimmed_split sp s
    have hpiece := words_piece (y := []) (hall s List.mem_cons_self).isWord ha hb fun c hc =>
      hb c (List.mem_of_mem_head? (by rwa [List.append_nil] at hc))
    rw [← hab, List.append_nil] at hpiece
    rw [hpiece]
    rfl
  | @cut prev p r ps hfirst hend hclear hrest ih =>
    obtain ⟨hp, hps⟩ := List.forall_mem_cons.mp hall
    obtain ⟨a, b, hab, ha, hb⟩ := trimmed_split sp p
    have hne := hp.back (hab ▸ hend)
    have hpiece := words_piece hp.isWord ha hb (head_blank (y := w ++ r) hb hne)
    rw [← hab, ← List.append_assoc, words_lead hw (hrest.starts_blank hclear hps), ih hps] at hpiece
    rw [hpiece]
    cases hrest <;> rfl

end pieces

/-! ## Splitting -/

section keyword
variable [DecidableEq α] (wc : α → Bool) (w : List α)

/-- The keyword stands at the start of `s`, between two word boundaries. `prev` says that the unit
in front of `s` is one of words. -/
def keywordAt (prev : Bool) (s : List α) : Bool :=
  w.isPrefixOf s && !prev && !(s.drop w.length).head?.any wc

def hasKeyword : Bool → List α → Bool
  | _, [] => false
  | prev, c :: s => keywordAt wc w prev (c :: s) || hasKeyword (wc c) s

/-- The pieces between the occurrences of the keyword. The first argument counts the units of an
occurrence that are still to be passed over. -/
def splitKeyword : Nat → Bool → List α → List (List α)
  | _, _, [] => [[]]
  | skip + 1, _, c :: s => splitKeyword skip (wc c) s
  | 0, prev, c :: s =>
    if keywordAt wc w prev (c :: s) then [] :: splitKeyword (w.length - 1) (wc c) s
    else (splitKeyword 0 (wc c) s).modifyHead (c :: ·)

variable {wc w}

theorem keywordAt_iff {prev : Bool} {s : List α} : keywordAt wc w prev s = true ↔
    ∃ r, s = w ++ r ∧ prev = false ∧ Clear wc r := by
  simp only [keywordAt, Bool.and_eq_true, Bool.not_eq_true', List.isPrefixOf_iff_prefix,
    ← clear_iff]
  constructor
  · intro h
    obtain ⟨⟨⟨r, rfl⟩, hprev⟩, hclear⟩ := h
    rw [List.drop_left] at hclear
    exact ⟨r, rfl, hprev, hclear⟩
  · intro h
    obtain ⟨r, rfl, hprev, hclear⟩ := h
    rw [List.drop_left]
    exact ⟨⟨List.prefix_append .., hprev⟩, hclear⟩

theorem splitKeyword_skip {t : List α} (ht : ∀ c ∈ t, wc c = true) (r : List α) :
    splitKeyword wc w t.length true (t ++ r) = splitKeyword wc w 0 true r := by
  induction t with
  | nil => rfl
  | cons c t ih =>
    obtain ⟨hc, ht⟩ := List.forall_mem_cons.mp ht
    rw [List.length_cons, List.cons_append, splitKeyword, hc, ih ht]

/-- Splitting cuts the text at occurrences of the keyword. The induction is on the length, since an
occurrence is passed over as a whole. -/
theorem splitKeyword_cuts (hne : w ≠ []) (hw : ∀ c ∈ w, wc c = true) (n : Nat) :
    ∀ (prev : Bool) (s : List α), s.length ≤ n → Cuts wc w prev s (splitKeyword wc w 0 prev s) := by
  induction n with
  | zero =>
    intro prev s hs
    rw [List.length_eq_zero_iff.mp (Nat.le_zero.mp hs), splitKeyword]
    exact .last
  | succ n ih =>
    intro prev s hs
    cases s with
    | nil =>
      rw [splitKeyword]
      exact .last
    | cons c s =>
      rw [splitKeyword]
      split
      · next hat =>
        obtain ⟨r, heq, hprev, hclear⟩ := keywordAt_iff.mp hat
        obtain ⟨d, t, rfl⟩ := List.exists_cons_of_ne_nil hne
        obtain ⟨hd, ht⟩ := List.forall_mem_cons.mp hw
        obtain ⟨rfl, rfl⟩ : c = d ∧ s = t ++ r := List.cons.inj heq
        have hskip : splitKeyword wc (c :: t) ((c :: t).length - 1) (wc c) (t ++ r) =
            splitKeyword wc (c :: t) 0 true r := by
          rw [hd, List.length_cons, Nat.add_sub_cancel, splitKeyword_skip ht]
        have hshort : r.length ≤ n := by
          simp only [List.length_cons, List.length_append] at hs
          omega
        rw [hskip]
        exact .cut (p := []) (fun _ => hprev) (by simp) hclear (ih true r hshort)
      · exact (ih (wc c) s (Nat.le_of_succ_le_succ hs)).cons

theorem hasKeyword_append {prev : Bool} {x y : List α} (hw : w ≠ [])
    (hprev : x = [] → prev = false) (hx : ∀ c ∈ x.getLast?, wc c = false) (hy : Clear wc y) :
    hasKeyword wc w prev (x ++ w ++ y) = true := by
  induction x generalizing prev with
  | nil =>
    have hat : keywordAt wc w prev (w ++ y) = true := keywordAt_iff.mpr ⟨y, rfl, hprev rfl, hy⟩
    obtain ⟨d, t, rfl⟩ := List.exists_cons_of_ne_nil hw
    rw [List.nil_append, List.cons_append, hasKeyword, ← List.cons_append, hat, Bool.true_or]
  | cons d x ih =>
    rw [List.cons_append, List.cons_append, hasKeyword, Bool.or_eq_true]
    refine .inr (ih (fun hnil => hx d (by rw [hnil]; rfl)) ?_)
    cases x with
    | nil => simp
    | cons e x => simpa only [List.getLast?_cons_cons] using hx

/-- A keyword that is one of the words of a text is found in it. -/
theorem hasKeyword_of_mem (hsp : ∀ c, sp c = true → wc c = false) {s : List α}
    (h : w ∈ words sp s) : hasKeyword wc w false s = true := by
  obtain ⟨hw, x, y, rfl, hx, hy⟩ := word_delimited s.length s (Nat.le_refl _) h
  exact hasKeyword_append hw.1 (fun _ => rfl) (fun c hc => hsp c (hx c hc))
    fun c hc => hsp c (hy c hc)

end keyword

/-! ## Clauses -/

section clauses
variable {β : Type*} {P : β → Prop}

theorem intercalate_single (w : β) (is : List β) :
    [w].intercalate (is.map fun i => [i]) = is.intersperse w := by
  induction is with
  | nil => rfl
  | cons i is ih =>
    cases is with
    | nil => rfl
    | cons j is =>
      rw [List.intersperse_cons_cons, ← ih]
      rfl

/-- The parts of a list of words between the occurrences of `w`. -/
def clauses [DecidableEq β] (w : β) (ws : List β) : List (List β) := ws.splitOn w

/-- Every clause is a single word with `P` exactly when the words are some with `P` and the
separator in turns. -/
theorem clauses_single [DecidableEq β] {w : β} (hw : ¬P w) (ws : List β) :
    (∀ c ∈ clauses w ws, ∃ i, c = [i] ∧ P i) ↔
      ∃ is, is ≠ [] ∧ ws = is.intersperse w ∧ ∀ i ∈ is, P i := by
  constructor
  · intro h
    have hsplit : ∃ is : List β, clauses w ws = is.map (fun i => [i]) ∧ ∀ i ∈ is, P i := by
      generalize clauses w ws = cs at h
      induction cs with
      | nil => exact ⟨[], rfl, by simp⟩
      | cons c cs ih =>
        obtain ⟨⟨i, rfl, hi⟩, hcs⟩ := List.forall_mem_cons.mp h
        obtain ⟨is, rfl, his⟩ := ih hcs
        exact ⟨i :: is, rfl, List.forall_mem_cons.mpr ⟨hi, his⟩⟩
    obtain ⟨is, heq, his⟩ := hsplit
    refine ⟨is, fun hnil => ?_, ?_, his⟩
    · rw [hnil, List.map_nil] at heq
      exact List.splitOn_ne_nil w ws heq
    · rw [← intercalate_single, ← heq, clauses, List.intercalate_splitOn]
  · intro h
    obtain ⟨is, hne, rfl, his⟩ := h
    have hsplit : clauses w (is.intersperse w) = is.map fun i => [i] := by
      rw [clauses, ← intercalate_single, List.splitOn_intercalate]
      · intro c hc hmem
        obtain ⟨i, hi, rfl⟩ := List.mem_map.mp hc
        exact hw (List.mem_singleton.mp hmem ▸ his i hi)
      · simpa using hne
    rw [hsplit]
    intro c hc
    obtain ⟨i, hi, rfl⟩ := List.mem_map.mp hc
    exact ⟨i, rfl, his i hi⟩

end clauses

end Senn.Lib

import Senn.Core.MessageSlot

/-! # How much the reassembly buffer can hold

The byte budget counts the bodies of frames, so a slot with bytes in it is paid
for: there are at most as many as the budget has bytes, each with at most
`2 ^ 32 - 1` entries. A slot that was opened by an empty body is free. The
buffer stays below a fixed bound exactly where the number of free slots does. -/

namespace Senn.Core
open Senn.Js Senn.Lib

/-- What reaches `handleChunk`: a frame of a message of several frames, and the
interval. -/
inductive ChunkInput where
  | chunk (now : Nat) (c : Chunk)
  | gcTick (now : Nat)

def ChunkInput.time : ChunkInput → Nat
  | .chunk now _ => now
  | .gcTick now => now

namespace Reassembly

def chunkStep (st : Reassembly) : ChunkInput → Reassembly × List BinEvent
  | .chunk now c => st.handleChunk now c
  | .gcTick now => st.step (.gcTick now)

/-- What a buffer on the channel brings to `handleChunk`. -/
def chunkInput? : Input → Option ChunkInput
  | .frame now buf =>
    match decodeFrame buf with
    | .chunk c => some (.chunk now c)
    | _ => none
  | .gcTick now => some (.gcTick now)

/-- Only the frames of messages of several frames and the interval change the buffer. -/
theorem after_chunks (ins : List Input) (st : Reassembly) :
    Machine.after step st ins = Machine.after chunkStep st (ins.filterMap chunkInput?) := by
  induction ins generalizing st with
  | nil => rfl
  | cons i ins ih =>
    rw [Machine.after_cons, ih, List.filterMap_cons]
    cases i with
    | gcTick now => rfl
    | frame now buf =>
      simp only [step, handleBinaryFrame, chunkInput?]
      cases decodeFrame buf <;> rfl

/-- The slots in flight and the entries allocated for them. -/
def load (st : Reassembly) : Int :=
  st.reassembly.size + st.reassembly.sumBy fun slot => slot.total

/-- Whether a slot holds no byte, as a number. -/
def isFree (slot : ReassemblySlot) : Int := if slot.bytes = 0 then 1 else 0

/-- The slots that hold no byte. -/
def freeSlots (st : Reassembly) : Int := st.reassembly.sumBy isFree

/-- The frame opens a slot without a byte in it. -/
def OpensFree (st : Reassembly) (c : Chunk) : Prop :=
  st.reassembly.get (slotKey c.addon c.id) = none ∧ c.body = [] ∧
    (Number.ofNat 1).lt c.total = true ∧ InRange c ∧ c.total.arrayLength?.isSome = true

/-- A slot without a byte is opened only while there are fewer than `n`. -/
def FreeBelow (n : Int) (st : Reassembly) : ChunkInput → Prop
  | .chunk _ c => st.OpensFree c → st.freeSlots < n
  | .gcTick _ => True

/-! ## The budget -/

/-- A fold that keeps a found element ends with one. -/
theorem foldl_ne_none {α β : Type} {f : Option β → α → Option β}
    (hf : ∀ o a, f (some o) a ≠ none) (l : List α) (o : β) : l.foldl f (some o) ≠ none := by
  induction l generalizing o with
  | nil => simp
  | cons a l ih =>
    obtain ⟨o', ho'⟩ := Option.ne_none_iff_exists'.mp (hf o a)
    rw [List.foldl_cons, ho']
    exact ih o'

theorem oldestOther_none {protectKey : JsString} {es : List (JsString × ReassemblySlot)}
    (h : oldestOther protectKey es = none) : ∀ e ∈ es, e.1 = protectKey := by
  induction es with
  | nil => simp
  | cons e es ih =>
    unfold oldestOther at h ih
    rw [List.foldl_cons] at h
    split at h
    · next he => exact List.forall_mem_cons.mpr ⟨he, ih h⟩
    · refine absurd h (foldl_ne_none ?_ es e)
      intro o e'
      split
      · simp
      · dsimp only
        split <;> simp

/-- A buffer with no slot but one of a known size is under the budget. -/
theorem sum_of_alone {st : Reassembly} {protectKey : JsString}
    (halone : ∀ e ∈ st.reassembly.entries, e.1 = protectKey)
    (hprotect : ∀ s, st.reassembly.get protectKey = some s →
      s.bytes ≤ BIN_REASSEMBLY_BUDGET_BYTES) :
    st.reassembly.sumBy (fun s => s.bytes) ≤ BIN_REASSEMBLY_BUDGET_BYTES := by
  have hn := st.reassembly.nodup
  cases hes : st.reassembly.entries with
  | nil => simp [InsMap.sumBy, hes]
  | cons e es =>
    have hnil : es = [] := by
      rw [List.eq_nil_iff_forall_not_mem]
      intro x hx
      rw [hes, List.map_cons, List.nodup_cons] at hn
      have hxe : x.1 = e.1 := (halone x (by simp [hes, hx])).trans (halone e (by simp [hes])).symm
      exact hn.1 (hxe ▸ List.mem_map_of_mem hx)
    have he : st.reassembly.get protectKey = some e.2 := by
      rw [InsMap.get_eq_some_iff, hes, ← halone e (by simp [hes])]
      exact List.mem_cons_self
    have := hprotect _ he
    simp only [InsMap.sumBy, hes, hnil, List.map_cons, List.map_nil, List.sum_cons, List.sum_nil]
    omega

/-- The eviction loop ends under the budget when the slot it spares is. -/
theorem evictLoop_le {protectKey : JsString} (fuel : Nat) : ∀ {st : Reassembly},
    st.reassembly.size ≤ fuel → st.reassemblyBytes = st.reassembly.sumBy (fun s => s.bytes) →
    (∀ s, st.reassembly.get protectKey = some s → s.bytes ≤ BIN_REASSEMBLY_BUDGET_BYTES) →
    (evictLoop protectKey fuel st).1.reassemblyBytes ≤ BIN_REASSEMBLY_BUDGET_BYTES := by
  induction fuel with
  | zero =>
    intro st hsize hsum hprotect
    have halone : ∀ e ∈ st.reassembly.entries, e.1 = protectKey := by
      rw [List.length_eq_zero_iff.mp (Nat.le_zero.mp hsize)]
      simp
    have hle := hsum ▸ sum_of_alone halone hprotect
    rw [evictLoop, if_pos hle, maybeStop_bytes]
    exact hle
  | succ fuel ih =>
    intro st hsize hsum hprotect
    rw [evictLoop]
    split
    · next hle => rwa [maybeStop_bytes]
    · next hover =>
      split
      · next hnone =>
        exact absurd (hsum ▸ sum_of_alone (oldestOther_none hnone) hprotect) hover
      · next k dropped hsome =>
        obtain ⟨hmem, hne⟩ := oldestOther_mem hsome
        have hget := InsMap.get_eq_some_iff.mpr hmem
        refine ih (Nat.le_of_lt_succ ((InsMap.size_delete_lt hget).trans_le hsize)) ?_ ?_
        · simp only [dropSlot, InsMap.sumBy_delete hget, hsum]
        · intro s hs
          exact hprotect s ((InsMap.get_delete_of_ne _ hne.symm).symm.trans hs)

/-! ## What a frame adds -/

/-- What a run keeps: the accounting, the budget, and the limit of `new Array`. -/
structure Within (st : Reassembly) : Prop where
  accounted : Accounted st
  budget : st.reassemblyBytes ≤ BIN_REASSEMBLY_BUDGET_BYTES
  totals : ∀ k s, st.reassembly.get k = some s → s.total < 2 ^ 32

theorem freeSlots_le_of_subset {st st' : Reassembly}
    (h : ∀ k s, st'.reassembly.get k = some s → st.reassembly.get k = some s) :
    st'.freeSlots ≤ st.freeSlots :=
  InsMap.sumBy_le_of_subset (fun s => by unfold isFree; split <;> simp) h

theorem budget_of_subset {st st' : Reassembly} (hst : Within st) (hacc : Accounted st')
    (h : ∀ k s, st'.reassembly.get k = some s → st.reassembly.get k = some s) :
    st'.reassemblyBytes ≤ BIN_REASSEMBLY_BUDGET_BYTES := by
  have hle := InsMap.sumBy_le_of_subset (f := fun s : ReassemblySlot => (s.bytes : Int))
    (fun s => Int.natCast_nonneg s.bytes) h
  rw [hacc.bytes]
  exact hle.trans (hst.accounted.bytes ▸ hst.budget)

/-- Storing a frame makes no slot free that was not. -/
theorem isFree_addFrame (slot : ReassemblySlot) (seq : Number) (body : Bytes) :
    isFree (addFrame slot seq body) ≤ isFree slot := by
  unfold isFree addFrame
  dsimp only
  split
  · next h => rw [if_pos (by omega)]
  · split <;> simp

/-- A frame that stays in a new slot found its total to be an array length. -/
theorem arrayLength_of_get {st : Reassembly} {now : Nat} {c : Chunk}
    (hnone : st.reassembly.get (slotKey c.addon c.id) = none)
    (htotal : (Number.ofNat 1).lt c.total = true) {s : ReassemblySlot}
    (hget : (st.handleChunk now c).1.reassembly.get (slotKey c.addon c.id) = some s) :
    InRange c ∧ c.total.arrayLength?.isSome = true := by
  obtain ⟨dropped, hl⟩ := handleChunk_local st now c
  have hslot := hl.slot
  rw [hnone, hget] at hslot
  have hsome : ¬(slotStep none now c).1 = none := by rw [← hslot]; simp
  rw [slotStep_none htotal, not_not] at hsome
  exact ⟨hsome.1, hsome.2.1⟩

theorem released_subset {st st' : Reassembly} {c : Chunk} {slot : ReassemblySlot}
    (h : ∀ k s, k ≠ slotKey c.addon c.id → st'.reassembly.get k = some s →
      st.reassembly.get k = some s) :
    ∀ k s, (released st' c slot).reassembly.get k = some s → st.reassembly.get k = some s := by
  intro k s hk
  rw [get_released] at hk
  split at hk
  · cases hk
  · next hne => exact h k s hne hk

/-- What eviction leaves of the buffer the frame was stored in. -/
theorem evicted_get {st st' : Reassembly} {c : Chunk} {slot : ReassemblySlot} {timer : Bool}
    {evs : List BinEvent}
    (he : (stored st c slot timer).evictUntilUnderBudget (slotKey c.addon c.id) = (st', evs)) :
    st'.reassembly.get (slotKey c.addon c.id) = some (addFrame slot c.seq c.body) ∧
      (∀ k s, st'.reassembly.get k = some s →
        (stored st c slot timer).reassembly.get k = some s) ∧
      ∀ k s, k ≠ slotKey c.addon c.id → st'.reassembly.get k = some s →
        st.reassembly.get k = some s := by
  have hev := evictUntilUnderBudget_evicted (stored st c slot timer) (slotKey c.addon c.id)
  rw [he] at hev
  refine ⟨hev.spared.trans get_stored, hev.shrinks, fun k s hne hk => ?_⟩
  have hs := hev.shrinks k s hk
  rwa [get_stored_of_ne hne] at hs

/-- The frame stayed in `slot`, whose message is not complete. -/
structure KeptIn (st : Reassembly) (now : Nat) (c : Chunk) (slot : ReassemblySlot) (timer : Bool)
    (st' : Reassembly) : Prop where
  target : Target st now c slot timer
  cap : (addFrame slot c.seq c.body).bytes ≤ BIN_MESSAGE_MAX_BYTES
  incomplete : slot.receivedFrames + 1 ≠ slot.total
  evicted : ∃ evs, (stored st c slot timer).evictUntilUnderBudget (slotKey c.addon c.id) = (st', evs)

/-- A frame leaves only slots that were there, or stays in one of its own. -/
theorem Outcome.subset_or_kept {st st' : Reassembly} {now : Nat} {c : Chunk}
    {evs : List BinEvent} (h : Outcome st now c st' evs) :
    (∀ k s, st'.reassembly.get k = some s → st.reassembly.get k = some s) ∨
      ∃ slot timer, KeptIn st now c slot timer st' := by
  cases h with
  | rejected => exact .inl fun _ _ hk => hk
  | duplicate => exact .inl fun _ _ hk => hk
  | capped => exact .inl (released_subset fun k s hne hk => by rwa [get_stored_of_ne hne] at hk)
  | kept hr ht hseq hcap he hne => exact .inr ⟨_, _, ht, hcap, hne, _, he⟩
  | completed hr ht hseq hcap he hfull => exact .inl (released_subset (evicted_get he).2.2)

section
variable {st st' : Reassembly} {now : Nat} {c : Chunk} {slot : ReassemblySlot} {timer : Bool}

theorem KeptIn.get (h : KeptIn st now c slot timer st') :
    st'.reassembly.get (slotKey c.addon c.id) = some (addFrame slot c.seq c.body) :=
  h.evicted.elim fun _ he => (evicted_get he).1

theorem KeptIn.others (h : KeptIn st now c slot timer st') {k : JsString} {s : ReassemblySlot}
    (hne : k ≠ slotKey c.addon c.id) (hk : st'.reassembly.get k = some s) :
    st.reassembly.get k = some s :=
  h.evicted.elim fun _ he => (evicted_get he).2.2 k s hne hk

/-- A new slot that is not complete waits for more than one frame. -/
theorem KeptIn.fresh {total : Nat} (h : KeptIn st now c (newSlot c total now) timer st')
    (htotal : c.total = .ofNat total) (hpos : 0 < total) :
    (Number.ofNat 1).lt c.total = true := by
  have hne := h.incomplete
  simp only [newSlot] at hne
  rw [htotal, Number.lt_ofNat, decide_eq_true_eq]
  omega

theorem KeptIn.budget (h : KeptIn st now c slot timer st') (hst : Accounted st) :
    st'.reassemblyBytes ≤ BIN_REASSEMBLY_BUDGET_BYTES := by
  obtain ⟨evs, he⟩ := h.evicted
  have hcap := h.cap
  have hle := evictLoop_le (stored st c slot timer).reassembly.size (le_refl _)
    (stored_bytes hst h.target) fun s hs => by
      obtain rfl := Option.some.inj (get_stored.symm.trans hs)
      simp only [BIN_MESSAGE_MAX_BYTES, BIN_REASSEMBLY_BUDGET_BYTES] at hcap ⊢
      omega
  rw [evictUntilUnderBudget] at he
  rwa [he] at hle

end

theorem handleChunk_within {st : Reassembly} (hst : Within st) (now : Nat) (c : Chunk) :
    Within (st.handleChunk now c).1 := by
  have ho := handleChunk_outcome st now c
  have hacc := ho.accounted hst.accounted
  rcases ho.subset_or_kept with hsub | ⟨slot, timer, hkept⟩
  · exact ⟨hacc, budget_of_subset hst hacc hsub, fun k s hk => hst.totals k s (hsub k s hk)⟩
  · refine ⟨hacc, hkept.budget hst.accounted, fun k s hk => ?_⟩
    by_cases hk' : k = slotKey c.addon c.id
    · subst hk'
      obtain rfl := Option.some.inj (hkept.get.symm.trans hk)
      cases hkept.target with
      | found hget =>
        have hlt := hst.totals _ _ hget
        exact hlt
      | @fresh total hnone htotal hpos =>
        obtain ⟨_, hsome⟩ := arrayLength_of_get hnone (hkept.fresh htotal hpos) hkept.get
        obtain ⟨n, hn⟩ := Option.isSome_iff_exists.mp hsome
        obtain ⟨heq, hlt⟩ := Number.arrayLength?_eq_some.mp hn
        obtain rfl := Number.ofNat_inj.mp (htotal.symm.trans heq)
        exact hlt
    · exact hst.totals k s (hkept.others hk' hk)

/-- A frame that does not open a free slot leaves no more of them. -/
theorem handleChunk_freeSlots_le {st : Reassembly} (now : Nat) {c : Chunk}
    (hopens : ¬st.OpensFree c) : (st.handleChunk now c).1.freeSlots ≤ st.freeSlots := by
  rcases (handleChunk_outcome st now c).subset_or_kept with hsub | ⟨slot, timer, hkept⟩
  · exact freeSlots_le_of_subset hsub
  · obtain ⟨evs, he⟩ := hkept.evicted
    refine (freeSlots_le_of_subset (evicted_get he).2.1).trans ?_
    cases hkept.target with
    | found hget =>
      have hadd := isFree_addFrame slot c.seq c.body
      simp only [freeSlots, stored, InsMap.sumBy_set_of_some hget]
      omega
    | @fresh total hnone htotal hpos =>
      have hbody : c.body ≠ [] := by
        intro hnil
        have hone := hkept.fresh htotal hpos
        obtain ⟨hrange, hsome⟩ := arrayLength_of_get hnone hone hkept.get
        exact hopens ⟨hnone, hnil, hone, hrange, hsome⟩
      have hpaid : isFree (addFrame (newSlot c total now) c.seq c.body) = 0 := by
        simp [isFree, addFrame, newSlot, hbody]
      simp only [freeSlots, stored, InsMap.sumBy_set_of_none hnone, hpaid, Int.add_zero, le_refl]

/-- A frame that opens a free slot leaves one more of them: it costs no byte, so
nothing is evicted for it. -/
theorem handleChunk_freeSlots_open {st : Reassembly} (hst : Within st) (now : Nat) {c : Chunk}
    (hopens : st.OpensFree c) : (st.handleChunk now c).1.freeSlots = st.freeSlots + 1 := by
  obtain ⟨hnone, hnil, htotal, hrange, hsome⟩ := hopens
  have hget : (st.handleChunk now c).1.reassembly.get (slotKey c.addon c.id) ≠ none := by
    obtain ⟨dropped, hl⟩ := handleChunk_local st now c
    have hslot := hl.slot
    rw [hnone] at hslot
    rw [hslot, ne_eq, slotStep_none htotal, not_not, hnil]
    exact ⟨hrange, hsome, Nat.zero_le _⟩
  rcases (handleChunk_outcome st now c).subset_or_kept with hsub | ⟨slot, timer, hkept⟩
  · obtain ⟨s, hs⟩ := Option.ne_none_iff_exists'.mp hget
    exact absurd (hnone.symm.trans (hsub _ s hs)) (by simp)
  · obtain ⟨evs, he⟩ := hkept.evicted
    have hidle : (stored st c slot timer).reassemblyBytes ≤ BIN_REASSEMBLY_BUDGET_BYTES := by
      have hbudget := hst.budget
      simpa [stored, hnil] using hbudget
    rw [evictUntilUnderBudget_idle _ hidle] at he
    rw [← (Prod.mk.inj he).1]
    cases hkept.target with
    | found hfound => exact absurd (hnone.symm.trans hfound) (by simp)
    | @fresh total _ htot hpos =>
      have hfree : isFree (addFrame (newSlot c total now) c.seq c.body) = 1 := by
        simp [isFree, addFrame, newSlot, hnil]
      simp only [freeSlots, maybeStop_reassembly, stored, InsMap.sumBy_set_of_none hnone, hfree]

/-- A frame touches no slot but its own, except to drop it. -/
theorem handleChunk_others {st : Reassembly} {now : Nat} {c : Chunk} {k : JsString}
    {s : ReassemblySlot} (hne : k ≠ slotKey c.addon c.id)
    (h : (st.handleChunk now c).1.reassembly.get k = some s) : st.reassembly.get k = some s := by
  rcases (handleChunk_outcome st now c).subset_or_kept with hsub | ⟨slot, timer, hkept⟩
  · exact hsub k s h
  · exact hkept.others hne h

theorem chunkStep_within {st : Reassembly} (i : ChunkInput) (hst : Within st) :
    Within (st.chunkStep i).1 := by
  cases i with
  | chunk now c => exact handleChunk_within hst now c
  | gcTick now =>
    have hacc := step_accounted (.gcTick now) hst.accounted
    exact ⟨hacc, budget_of_subset hst hacc fun _ _ h => gcTick_subset h,
      fun k s hk => hst.totals k s (gcTick_subset hk)⟩

theorem chunkStep_freeSlots {st : Reassembly} {n : Int} (i : ChunkInput) (hst : Within st)
    (hfree : st.freeSlots ≤ max n 0) (hbelow : FreeBelow n st i) :
    (st.chunkStep i).1.freeSlots ≤ max n 0 := by
  cases i with
  | gcTick now => exact (freeSlots_le_of_subset fun _ _ h => gcTick_subset h).trans hfree
  | chunk now c =>
    by_cases hopens : st.OpensFree c
    · have hlt := hbelow hopens
      have hone := handleChunk_freeSlots_open hst now hopens
      simp only [chunkStep]
      omega
    · exact (handleChunk_freeSlots_le now hopens).trans hfree

theorem init_within : Within .init :=
  ⟨init_accounted, by simp [init], fun k s hk => by cases hk⟩

/-! ## The bound -/

theorem freeSlots_le_load (st : Reassembly) : st.freeSlots ≤ st.load := by
  rw [load, ← InsMap.sumBy_one, ← InsMap.sumBy_add]
  refine InsMap.sumBy_mono fun _ s _ => ?_
  unfold isFree
  split <;> omega

/-- Every slot but the free ones holds a byte of the budget. -/
theorem size_le {st : Reassembly} (hst : Within st) :
    (st.reassembly.size : Int) ≤ st.freeSlots + BIN_REASSEMBLY_BUDGET_BYTES := by
  have hpaid : st.reassembly.sumBy (fun _ => 1) ≤
      st.reassembly.sumBy fun s => isFree s + s.bytes := by
    refine InsMap.sumBy_mono fun _ s _ => ?_
    unfold isFree
    split <;> omega
  rw [InsMap.sumBy_one, InsMap.sumBy_add, ← hst.accounted.bytes] at hpaid
  have := hst.budget
  unfold freeSlots
  omega

theorem load_le {st : Reassembly} (hst : Within st) :
    st.load ≤ 2 ^ 32 * (st.freeSlots + BIN_REASSEMBLY_BUDGET_BYTES) := by
  have htotals : st.reassembly.sumBy (fun s => s.total) ≤
      st.reassembly.sumBy fun _ => 2 ^ 32 - 1 :=
    InsMap.sumBy_mono fun k s hk => by
      have := hst.totals k s hk
      omega
  have hconst : st.reassembly.sumBy (fun _ => 2 ^ 32 - 1) = (2 ^ 32 - 1) * st.reassembly.size := by
    simp [InsMap.sumBy, InsMap.size, mul_comm]
  have hsize := size_le hst
  rw [hconst] at htotals
  unfold load
  omega

/-! ## Runs -/

/-- The runs of a peer keep the buffer below one bound exactly when they keep
the slots without a byte below one number. -/
theorem load_bounded_iff (runs : Set (List ChunkInput)) :
    (∃ bound, ∀ ins ∈ runs, Machine.Always chunkStep (fun st => st.load ≤ bound) .init ins) ↔
      ∃ n, ∀ ins ∈ runs, Machine.Guarded chunkStep (FreeBelow n) .init ins := by
  have hwithin : ∀ ins, Within (Machine.after chunkStep .init ins) :=
    Machine.after_inv (fun _ i h => chunkStep_within i h) init_within
  constructor
  · rintro ⟨bound, hbound⟩
    refine ⟨bound, fun ins hins => Machine.guarded_iff_forall.mpr fun pre i post heq => ?_⟩
    cases i with
    | gcTick now => trivial
    | chunk now c =>
      intro hopens
      have hload := hbound ins hins (pre ++ [.chunk now c])
        ⟨post, by rw [heq, List.append_assoc]; rfl⟩
      rw [Machine.after_append] at hload
      have hone := handleChunk_freeSlots_open (hwithin pre) now hopens
      have hle := (freeSlots_le_load _).trans hload
      simp only [Machine.after_cons, Machine.after_nil, chunkStep] at hle
      omega
  · rintro ⟨n, hn⟩
    refine ⟨2 ^ 32 * (max n 0 + BIN_REASSEMBLY_BUDGET_BYTES), fun ins hins pre hpre => ?_⟩
    obtain ⟨post, rfl⟩ := hpre
    have hguarded := (Machine.guarded_append.mp (hn _ hins)).1
    have hfree : Within (Machine.after chunkStep .init pre) ∧
        (Machine.after chunkStep .init pre).freeSlots ≤ max n 0 :=
      Machine.guarded_inv (P := fun st => Within st ∧ st.freeSlots ≤ max n 0)
        (fun _ i h hC => ⟨chunkStep_within i h.1, chunkStep_freeSlots i h.1 h.2 hC⟩)
        ⟨init_within, le_max_right n 0⟩ hguarded
    have := load_le (hwithin pre)
    omega

/-! ## Empty frames -/

/-- The first frame, empty, of the `i`-th of many messages. -/
def emptyFrame (i : Nat) : Chunk := ⟨js "a", [], List.replicate i 0x61, .ofNat 0, .ofNat 2, []⟩

def emptyFrames (n : Nat) : List ChunkInput := (List.range n).map fun i => .chunk 0 (emptyFrame i)

/-- `sendOneFrame` makes such frames. -/
theorem emptyFrame_received {i : Nat} {buf : Bytes}
    (h : encodeFrame ⟨js "a", [], [], some (List.replicate i 0x61), some 0, some 2⟩ = some buf) :
    decodeFrame buf = .chunk (emptyFrame i) := by
  have hsmall : FrameOpts.Small
      ⟨js "a", [], [], some (List.replicate i 0x61), some 0, some 2⟩ := by
    refine ⟨fun n hn => ?_, fun n hn => ?_⟩
    · obtain rfl := Option.some.inj hn
      omega
    · obtain rfl := Option.some.inj hn
      omega
  rw [decodeFrame_encodeFrame hsmall h]
  exact decodeHeader_chunk (List.cons_ne_nil _ _) rfl rfl rfl (by omega)

theorem emptyFrame_key {i j : Nat}
    (h : slotKey (emptyFrame i).addon (emptyFrame i).id =
      slotKey (emptyFrame j).addon (emptyFrame j).id) : i = j := by
  have haddon : 0x1F ∉ js "a" := by decide
  have hid := (slotKey_injective haddon haddon h).2
  simpa [emptyFrame] using congrArg List.length hid

theorem emptyFrames_succ (n : Nat) :
    Machine.after chunkStep .init (emptyFrames (n + 1)) =
      ((Machine.after chunkStep .init (emptyFrames n)).handleChunk 0 (emptyFrame n)).1 := by
  rw [emptyFrames, List.range_succ, List.map_append, Machine.after_append]
  rfl

theorem emptyFrames_keys (n : Nat) {k : JsString} {s : ReassemblySlot}
    (h : (Machine.after chunkStep .init (emptyFrames n)).reassembly.get k = some s) :
    ∃ i < n, k = slotKey (emptyFrame i).addon (emptyFrame i).id := by
  induction n generalizing k s with
  | zero => cases h
  | succ n ih =>
    rw [emptyFrames_succ] at h
    by_cases hk : k = slotKey (emptyFrame n).addon (emptyFrame n).id
    · exact ⟨n, Nat.lt_succ_self n, hk⟩
    · obtain ⟨i, hi, hik⟩ := ih (handleChunk_others hk h)
      exact ⟨i, Nat.lt_succ_of_lt hi, hik⟩

theorem emptyFrames_free (n : Nat) :
    (Machine.after chunkStep .init (emptyFrames n)).freeSlots = n := by
  induction n with
  | zero => rfl
  | succ n ih =>
    have hnone : (Machine.after chunkStep .init (emptyFrames n)).reassembly.get
        (slotKey (emptyFrame n).addon (emptyFrame n).id) = none := by
      rw [Option.eq_none_iff_forall_ne_some]
      intro s hs
      obtain ⟨i, hi, hik⟩ := emptyFrames_keys n hs
      exact absurd (emptyFrame_key hik) (Nat.ne_of_gt hi)
    have hlen : (Number.ofNat 2).arrayLength? = some 2 :=
      Number.arrayLength?_eq_some.mpr ⟨rfl, by decide⟩
    have hopens : (Machine.after chunkStep .init (emptyFrames n)).OpensFree (emptyFrame n) :=
      ⟨hnone, rfl, by simp [emptyFrame], by simp [InRange, emptyFrame], by simp [emptyFrame, hlen]⟩
    have hwithin : Within (Machine.after chunkStep .init (emptyFrames n)) :=
      Machine.after_inv (fun _ i h => chunkStep_within i h) init_within _
    rw [emptyFrames_succ, handleChunk_freeSlots_open hwithin 0 hopens, ih]
    push_cast
    rfl

/-- Frames with empty bodies, all within the timeout, take the buffer above any
bound. -/
theorem load_unbounded : ¬∃ bound, ∀ start ins,
    (∀ i ∈ ins, start ≤ i.time ∧ i.time < start + BIN_REASSEMBLY_TIMEOUT_MS) →
    (Machine.after chunkStep .init ins).load ≤ bound := by
  rintro ⟨bound, hbound⟩
  have hwindow : ∀ i ∈ emptyFrames (bound.toNat + 1),
      0 ≤ i.time ∧ i.time < 0 + BIN_REASSEMBLY_TIMEOUT_MS := by
    intro i hi
    obtain ⟨k, _, rfl⟩ := List.mem_map.mp hi
    exact ⟨le_refl _, by simp [ChunkInput.time, BIN_REASSEMBLY_TIMEOUT_MS]⟩
  have hload := hbound 0 _ hwindow
  have hfree := freeSlots_le_load (Machine.after chunkStep .init (emptyFrames (bound.toNat + 1)))
  rw [emptyFrames_free] at hfree
  omega

end Reassembly

end Senn.Core

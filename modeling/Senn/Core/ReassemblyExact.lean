import Senn.Core.ReassemblyInvariant
import Senn.Lib.Machine

/-! # What the reassembly buffer emits

A message of several frames comes out when its last frame arrives, with every
frame of it held since it arrived, joined in the order of their numbers, and
once. The code takes any number for `seq` and any pair of strings for the key
of a slot; the result is about runs in which every frame has an integer `seq`
and finds under its key, if anything, a slot of its own message. -/

namespace Senn.Core
open Senn.Js Senn.Lib

namespace Reassembly

/-- The frame of a message of several frames that an input carries. -/
def Input.chunk? : Input → Option Chunk
  | .frame _ buf =>
    match decodeFrame buf with
    | .chunk c => some c
    | _ => none
  | .gcTick _ => none

theorem Input.chunk?_eq_some {i : Input} {c : Chunk} :
    i.chunk? = some c ↔ ∃ now buf, i = .frame now buf ∧ decodeFrame buf = .chunk c := by
  cases i with
  | gcTick now => simp [chunk?]
  | frame now buf =>
    simp only [chunk?]
    split
    · next d hd => simp [hd]
    · next hd => exact iff_of_false (by simp) fun ⟨_, _, heq, h⟩ => hd c (by cases heq; exact h)

/-- No two frames of the run have the same add-on, message id and number. -/
def Distinct (ins : List Input) : Prop :=
  ((ins.filterMap Input.chunk?).map fun c => (c.addon, c.id, c.seq)).Nodup

/-- The state `st` is ready for the frame an input carries: the number is an
integer, and a slot under the frame's key is that of its own message. -/
def Fits (st : Reassembly) (i : Input) : Prop :=
  ∀ c ∈ i.chunk?, InRange c →
    c.seq.toNat?.isSome ∧
    ∀ slot ∈ st.reassembly.get (slotKey c.addon c.id), slot.addon = c.addon ∧ slot.id = c.id

/-- The frame is in the slot of its message. -/
def Holds (st : Reassembly) (c : Chunk) : Prop :=
  ∃ slot, st.reassembly.get (slotKey c.addon c.id) = some slot ∧
    slot.frames.get c.seq = some c.body

/-- The frame arrived in the run `pre` and has been held ever since. -/
def Arrived (pre : List Input) (c : Chunk) : Prop :=
  ∃ q f r, pre = q ++ f :: r ∧ f.chunk? = some c ∧
    ∀ r', r' <+: r → Holds (Machine.after step .init (q ++ f :: r')) c

/-- `m` is the message of which `c`, coming after the run `pre`, is the last
frame: all its frames are there, and its bytes are theirs in order. -/
def ExactMessage (pre : List Input) (c : Chunk) (m : BinaryMessage) : Prop :=
  ∃ (total : Nat) (body : Nat → Bytes), c.total = .ofNat total ∧
    m = ⟨c.addon, c.mime, ((List.range total).map body).flatten⟩ ∧
    ∀ i < total, (c.seq = .ofNat i ∧ c.body = body i) ∨
      Arrived pre ⟨c.addon, c.mime, c.id, .ofNat i, c.total, body i⟩

def BinEvent.binary? : BinEvent → Option BinaryMessage
  | .binary m => some m
  | _ => none

/-- The messages that frames complete, under the name of the frame's message. -/
def completes (st : Reassembly) (i : Input) :
    Reassembly × List ((JsString × JsString) × BinaryMessage) :=
  ((st.step i).1, match i.chunk? with
    | some c => ((st.step i).2.filterMap BinEvent.binary?).map fun m => ((c.addon, c.id), m)
    | none => [])

/-- Reassembly is exact on a run. -/
def ExactRun (ins : List Input) : Prop :=
  (∀ pre f post, ins = pre ++ f :: post → ∀ c, f.chunk? = some c → ∀ m,
    .binary m ∈ ((Machine.after step .init pre).step f).2 → ExactMessage pre c m) ∧
  ((Machine.outputs completes .init ins).map Prod.fst).Nodup

/-! ## What one step does to a slot and what it emits -/

theorem mem_binaries {evs : List BinEvent} {m : BinaryMessage} :
    m ∈ evs.filterMap BinEvent.binary? ↔ .binary m ∈ evs := by
  rw [List.mem_filterMap]
  refine ⟨fun ⟨e, he, h⟩ => ?_, fun h => ⟨_, h, rfl⟩⟩
  cases e with
  | binary m' => cases h; exact he
  | error _ => cases h
  | thrown _ => cases h

theorem get_evicted {st st' : Reassembly} {c : Chunk} {slot : ReassemblySlot} {timer : Bool}
    {evs : List BinEvent} {k : JsString} {s : ReassemblySlot}
    (he : (stored st c slot timer).evictUntilUnderBudget (slotKey c.addon c.id) = (st', evs))
    (h : st'.reassembly.get k = some s) :
    st.reassembly.get k = some s ∨ k = slotKey c.addon c.id ∧ s = addFrame slot c.seq c.body := by
  have hev := evictUntilUnderBudget_evicted (stored st c slot timer) (slotKey c.addon c.id)
  rw [he] at hev
  have hs := hev.shrinks k s h
  by_cases hk : k = slotKey c.addon c.id
  · subst hk
    rw [get_stored] at hs
    exact .inr ⟨rfl, (Option.some.inj hs).symm⟩
  · rw [get_stored_of_ne hk] at hs
    exact .inl hs

/-- A slot after a frame is one from before, or that of the frame with it added. -/
theorem Outcome.get {st st' : Reassembly} {now : Nat} {c : Chunk} {evs : List BinEvent}
    (ho : Outcome st now c st' evs) {k : JsString} {s : ReassemblySlot}
    (h : st'.reassembly.get k = some s) :
    st.reassembly.get k = some s ∨
      k = slotKey c.addon c.id ∧ InRange c ∧ ∃ slot timer, Target st now c slot timer ∧
        slot.frames.get c.seq = none ∧ s = addFrame slot c.seq c.body := by
  cases ho with
  | rejected => exact .inl h
  | duplicate => exact .inl h
  | @capped slot timer hr ht hseq hcap =>
    rw [get_released] at h
    split at h
    · cases h
    · next hne => exact .inl (by rwa [get_stored_of_ne hne] at h)
  | @kept slot timer st' evs hr ht hseq hcap he hne =>
    rcases get_evicted he h with h | ⟨hk, hs⟩
    · exact .inl h
    · exact .inr ⟨hk, hr, slot, timer, ht, hseq, hs⟩
  | @completed slot timer st' evs hr ht hseq hcap he hfull =>
    rw [get_released] at h
    split at h
    · cases h
    · next hne =>
      rcases get_evicted he h with h | ⟨hk, _⟩
      · exact .inl h
      · exact absurd hk hne

theorem step_get {st : Reassembly} {i : Input} {k : JsString} {s : ReassemblySlot}
    (h : (st.step i).1.reassembly.get k = some s) :
    st.reassembly.get k = some s ∨
      ∃ now buf c, i = .frame now buf ∧ i.chunk? = some c ∧ k = slotKey c.addon c.id ∧ InRange c ∧
        ∃ slot timer, Target st now c slot timer ∧ slot.frames.get c.seq = none ∧
          s = addFrame slot c.seq c.body := by
  cases i with
  | gcTick now => exact .inl (gcTick_subset h)
  | frame now buf =>
    rw [step, handleBinaryFrame] at h
    split at h
    · exact .inl h
    · exact .inl h
    · exact .inl h
    · next c hc =>
      rcases (handleChunk_outcome st now c).get h with h | h
      · exact .inl h
      · exact .inr ⟨now, buf, c, rfl, Input.chunk?_eq_some.mpr ⟨now, buf, rfl, hc⟩, h⟩

/-- The last frame of a message, when it arrives. -/
structure Completes (st : Reassembly) (c : Chunk) (slot : ReassemblySlot) : Prop where
  range : InRange c
  target : ∃ now timer, Target st now c slot timer
  new : slot.frames.get c.seq = none
  last : slot.receivedFrames + 1 = slot.total

theorem Outcome.binary {st st' : Reassembly} {now : Nat} {c : Chunk} {evs : List BinEvent}
    (ho : Outcome st now c st' evs) :
    evs.filterMap BinEvent.binary? = [] ∨
      ∃ slot, Completes st c slot ∧ st'.reassembly.get (slotKey c.addon c.id) = none ∧
        evs.filterMap BinEvent.binary? =
          [⟨slot.addon, slot.mime, assemble (addFrame slot c.seq c.body)⟩] := by
  have hdrop : ∀ {slot : ReassemblySlot} {timer : Bool} {st' : Reassembly} {evs : List BinEvent},
      (stored st c slot timer).evictUntilUnderBudget (slotKey c.addon c.id) = (st', evs) →
      evs.filterMap BinEvent.binary? = [] := by
    intro slot timer st' evs he
    have hev := evictUntilUnderBudget_evicted (stored st c slot timer) (slotKey c.addon c.id)
    rw [he] at hev
    rw [List.filterMap_eq_nil_iff]
    intro e hmem
    obtain ⟨k, s, _, _, rfl⟩ := hev.errors e hmem
    rfl
  cases ho with
  | @rejected ev hb =>
    left
    cases ev with
    | binary m => exact absurd rfl (hb m)
    | error e => rfl
    | thrown e => rfl
  | duplicate => exact .inl rfl
  | capped => exact .inl rfl
  | kept hr ht hseq hcap he hne => exact .inl (hdrop he)
  | @completed slot timer st' evs hr ht hseq hcap he hfull =>
    refine .inr ⟨slot, ⟨hr, ⟨now, timer, ht⟩, hseq, hfull⟩, ?_, ?_⟩
    · rw [get_released, if_pos rfl]
    · rw [List.filterMap_append, hdrop he]
      rfl

theorem step_binary (st : Reassembly) {i : Input} {c : Chunk} (hi : i.chunk? = some c) :
    (st.step i).2.filterMap BinEvent.binary? = [] ∨
      ∃ slot, Completes st c slot ∧ (st.step i).1.reassembly.get (slotKey c.addon c.id) = none ∧
        (st.step i).2.filterMap BinEvent.binary? =
          [⟨slot.addon, slot.mime, assemble (addFrame slot c.seq c.body)⟩] := by
  obtain ⟨now, buf, rfl, hc⟩ := Input.chunk?_eq_some.mp hi
  have hstep : st.step (.frame now buf) = st.handleChunk now c := by
    simp only [step, handleBinaryFrame, hc]
  rw [hstep]
  exact (handleChunk_outcome st now c).binary

/-! ## Every frame in the buffer is one that arrived -/

theorem Fits.target {st : Reassembly} {i : Input} {c : Chunk} {now : Nat} {slot : ReassemblySlot}
    {timer : Bool} (hf : Fits st i) (hi : i.chunk? = some c) (hr : InRange c)
    (ht : Target st now c slot timer) :
    c = ⟨slot.addon, slot.mime, slot.id, c.seq, .ofNat slot.total, c.body⟩ := by
  obtain ⟨_, hname⟩ := hf c hi hr
  cases ht with
  | found hget htotal hmime =>
    obtain ⟨haddon, hid⟩ := hname slot hget
    rw [haddon, hid, hmime, ← htotal]
  | fresh _ htotal _ =>
    rw [newSlot, ← htotal]

theorem seq_lt_total {c : Chunk} {total : Nat} (hr : InRange c) (htotal : c.total = .ofNat total)
    (hseq : c.seq.toNat?.isSome) : ∃ i < total, c.seq = .ofNat i := by
  obtain ⟨i, hi⟩ := Option.isSome_iff_exists.mp hseq
  have heq := Number.toNat?_eq_some.mp hi
  have hle := hr.2.2
  rw [heq, htotal, Number.le_ofNat] at hle
  exact ⟨i, Nat.lt_of_not_le (of_decide_eq_false hle), heq⟩

theorem total_pos {c : Chunk} {total : Nat} (hr : InRange c) (htotal : c.total = .ofNat total) :
    0 < total := by
  have h1 := hr.1
  rw [htotal, Number.lt_ofNat] at h1
  have := of_decide_eq_false h1
  omega

theorem Arrived.snoc {pre : List Input} {f : Input} {c : Chunk} (h : Arrived pre c)
    (hh : Holds (Machine.after step .init (pre ++ [f])) c) : Arrived (pre ++ [f]) c := by
  obtain ⟨q, g, r, rfl, hg, hall⟩ := h
  refine ⟨q, g, r ++ [f], by simp, hg, fun r' hr' => ?_⟩
  rcases List.prefix_concat_iff.mp hr' with rfl | hr'
  · simpa using hh
  · exact hall r' hr'

theorem Arrived.last {pre : List Input} {f : Input} {c : Chunk} (hf : f.chunk? = some c)
    (hh : Holds (Machine.after step .init (pre ++ [f])) c) : Arrived (pre ++ [f]) c := by
  refine ⟨pre, f, [], rfl, hf, fun r' hr' => ?_⟩
  rw [List.prefix_nil.mp hr']
  exact hh

/-- Every frame in the buffer has a number of its message, arrived, and was
held ever since. -/
def Kept (pre : List Input) : Prop :=
  ∀ k s, (Machine.after step .init pre).reassembly.get k = some s →
    ∀ seq body, s.frames.get seq = some body →
      (∃ i < s.total, seq = .ofNat i) ∧
      Arrived pre ⟨s.addon, s.mime, s.id, seq, .ofNat s.total, body⟩

theorem Kept.snoc {pre : List Input} {f : Input} (h : Kept pre)
    (hf : Fits (Machine.after step .init pre) f) : Kept (pre ++ [f]) := by
  intro k s hs seq body hbody
  have hkey := (run_accounted (pre ++ [f])).keys k s hs
  have hholds : Holds (Machine.after step .init (pre ++ [f]))
      ⟨s.addon, s.mime, s.id, seq, .ofNat s.total, body⟩ := ⟨s, hkey ▸ hs, hbody⟩
  have hs' := hs
  rw [Machine.after_append] at hs'
  rcases step_get hs' with hold | ⟨now, _, c, _, hc, _, hr, slot, timer, ht, _, rfl⟩
  · obtain ⟨hseq, harr⟩ := h k s hold seq body hbody
    exact ⟨hseq, harr.snoc hholds⟩
  · have hcname := hf.target hc hr ht
    simp only [addFrame, InsMap.get_set] at hbody
    split at hbody
    · next hsc =>
      obtain rfl := Option.some.inj hbody
      subst hsc
      refine ⟨seq_lt_total hr (congrArg Chunk.total hcname) (hf c hc hr).1, ?_⟩
      exact .last (hc.trans (congrArg some hcname)) hholds
    · cases ht with
      | found hget =>
        obtain ⟨hseq, harr⟩ := h _ slot hget seq body hbody
        exact ⟨hseq, harr.snoc hholds⟩
      | fresh => cases hbody

theorem kept_of_guarded (pre : List Input) (hg : Machine.Guarded step Fits .init pre) :
    Kept pre := by
  induction pre using List.reverseRecOn with
  | nil => intro k s hs; cases hs
  | append_singleton pre f ih =>
    obtain ⟨hpre, hlast⟩ := Machine.guarded_append.mp hg
    exact (ih hpre).snoc hlast.1

/-! ## Assembly -/

/-- A slot with as many frames as it has numbers joins them without a gap. -/
theorem assemble_complete (slot : ReassemblySlot)
    (hbytes : (slot.bytes : Int) = slot.frames.sumBy fun b => b.length)
    (hseq : ∀ seq body, slot.frames.get seq = some body → ∃ i < slot.total, seq = .ofNat i)
    (hsize : slot.frames.size = slot.total) :
    ∃ body : Nat → Bytes, (∀ i < slot.total, slot.frames.get (.ofNat i) = some (body i)) ∧
      assemble slot = ((List.range slot.total).map body).flatten := by
  let body := fun i => (slot.frames.get (.ofNat i)).getD []
  have hperm : (slot.frames.entries.map Prod.fst).Perm ((List.range slot.total).map Number.ofNat) := by
    refine InsMap.keys_perm (fun k v hk => ?_) (by simp [hsize])
    obtain ⟨i, hi, rfl⟩ := hseq k v hk
    exact List.mem_map_of_mem (List.mem_range.mpr hi)
  have hget : ∀ i < slot.total, slot.frames.get (.ofNat i) = some (body i) := by
    intro i hi
    have hmem := hperm.mem_iff.mpr (List.mem_map_of_mem (f := Number.ofNat) (List.mem_range.mpr hi))
    obtain ⟨v, hv⟩ := InsMap.get_of_mem_keys hmem
    simp [body, hv]
  have hgathered : gathered slot = ((List.range slot.total).map body).flatten := by
    rw [gathered, ← List.filterMap_eq_map]
    refine congrArg List.flatten (List.filterMap_congr fun i hi => ?_)
    exact hget i (List.mem_range.mp hi)
  have hsum : slot.frames.sumBy (fun b => (b.length : Int)) =
      (((List.range slot.total).map Number.ofNat).map
        fun k => (((slot.frames.get k).getD []).length : Int)).sum := by
    rw [InsMap.sumBy_eq_keys (g := fun k => (((slot.frames.get k).getD []).length : Int))
      (fun k v hk => by rw [hk]; rfl)]
    exact (hperm.map _).sum_eq
  have hlen : slot.bytes = (gathered slot).length := by
    rw [hgathered, List.length_flatten, List.map_map]
    rw [List.map_map] at hsum
    have hcast : ∀ l : List Nat, ((l.map (List.length ∘ body)).sum : Int) =
        (l.map ((fun k => (((slot.frames.get k).getD []).length : Int)) ∘ Number.ofNat)).sum := by
      intro l
      induction l with
      | nil => rfl
      | cons i l ih => simp only [List.map_cons, List.sum_cons, ← ih]; rfl
    have := hbytes.trans (hsum.trans (hcast _).symm)
    exact_mod_cast this
  refine ⟨body, hget, ?_⟩
  rw [assemble, hlen, Nat.sub_self, hgathered]
  simp

theorem Completes.exact {pre : List Input} {f : Input} {c : Chunk} {slot : ReassemblySlot}
    (hk : Kept pre) (hf : Fits (Machine.after step .init pre) f) (hc : f.chunk? = some c)
    (h : Completes (Machine.after step .init pre) c slot) :
    ExactMessage pre c ⟨slot.addon, slot.mime, assemble (addFrame slot c.seq c.body)⟩ := by
  obtain ⟨now, timer, ht⟩ := h.target
  have hbase := ht.base (run_accounted pre)
  have hcname := hf.target hc h.range ht
  have htotal : c.total = .ofNat slot.total := congrArg Chunk.total hcname
  have hframe : ∀ seq body, slot.frames.get seq = some body →
      (∃ i < slot.total, seq = .ofNat i) ∧
      Arrived pre ⟨slot.addon, slot.mime, slot.id, seq, .ofNat slot.total, body⟩ := by
    cases ht with
    | found hget => exact hk _ slot hget
    | fresh => intro seq body hbody; cases hbody
  obtain ⟨body, hget, hbytes⟩ := assemble_complete (addFrame slot c.seq c.body)
    (addFrame_bytes hbase.bytes_eq h.new)
    (fun seq body hs => by
      simp only [addFrame, InsMap.get_set] at hs
      split at hs
      · next hsc => rw [hsc]; exact seq_lt_total h.range htotal (hf c hc h.range).1
      · exact (hframe seq body hs).1)
    (by simp only [addFrame, InsMap.size_set_of_none h.new, ← hbase.received]; exact h.last)
  refine ⟨slot.total, body, htotal, ?_, fun i hi => ?_⟩
  · rw [hbytes, congrArg Chunk.addon hcname, congrArg Chunk.mime hcname]
    rfl
  · have hi' := hget i hi
    simp only [addFrame, InsMap.get_set] at hi'
    split at hi'
    · next hsc => exact .inl ⟨hsc.symm, Option.some.inj hi'⟩
    · right
      have harr := (hframe _ _ hi').2
      rw [htotal, congrArg Chunk.addon hcname, congrArg Chunk.mime hcname,
        congrArg Chunk.id hcname]
      exact harr

/-! ## At most once -/

theorem Distinct.not_before {q r : List Input} {f g : Input} {c d : Chunk}
    (h : Distinct (q ++ f :: r)) (hg : g ∈ q) (hd : g.chunk? = some d) (hc : f.chunk? = some c) :
    (d.addon, d.id, d.seq) ≠ (c.addon, c.id, c.seq) := by
  rw [Distinct, List.filterMap_append, List.map_append, List.nodup_append] at h
  refine h.2.2 _ ?_ _ ?_
  · exact List.mem_map_of_mem (List.mem_filterMap.mpr ⟨g, hg, hd⟩)
  · exact List.mem_map_of_mem (List.mem_filterMap.mpr ⟨f, List.mem_cons_self .., hc⟩)

theorem Distinct.mono {ins pre : List Input} (h : Distinct ins) (hp : pre <+: ins) :
    Distinct pre :=
  List.Nodup.sublist ((hp.sublist.filterMap _).map _) h

/-- A frame that is held now was held when a part of the run with its only
arrival was over. -/
theorem Arrived.holds_at {pre p : List Input} {c d : Chunk} {g : Input} (hdist : Distinct pre)
    (h : Arrived pre c) (hp : p <+: pre) (hg : g ∈ p) (hd : g.chunk? = some d)
    (hname : (d.addon, d.id, d.seq) = (c.addon, c.id, c.seq)) :
    Holds (Machine.after step .init p) c := by
  obtain ⟨q, f, r, rfl, hf, hall⟩ := h
  have hq : q ++ [f] <+: q ++ f :: r := ⟨r, by simp⟩
  have hlater : q ++ [f] <+: p → Holds (Machine.after step .init p) c := by
    intro ⟨t, ht⟩
    obtain ⟨u, hu⟩ := hp
    have htr : t <+: r := by
      refine ⟨u, ?_⟩
      rw [← ht, List.append_assoc, List.append_assoc, List.append_cancel_left_eq] at hu
      exact (List.cons.inj hu).2
    rw [← ht, List.append_assoc]
    exact hall t htr
  rcases List.prefix_or_prefix_of_prefix hq hp with hqp | hpq
  · exact hlater hqp
  · rcases List.prefix_concat_iff.mp hpq with rfl | hpq
    · exact hlater (List.prefix_refl _)
    · exact absurd hname (hdist.not_before (hpq.subset hg) hd hf)

/-- A message that came out: its first frame had arrived, and its slot is gone. -/
structure Emitted (pre : List Input) (name : JsString × JsString) : Prop where
  first : ∃ g ∈ pre, ∃ d, g.chunk? = some d ∧ (d.addon, d.id, d.seq) = (name.1, name.2, .ofNat 0)
  gone : (Machine.after step .init pre).reassembly.get (slotKey name.1 name.2) = none

theorem ExactMessage.first {pre : List Input} {f : Input} {c : Chunk} {m : BinaryMessage}
    (h : ExactMessage pre c m) (hr : InRange c) (hc : f.chunk? = some c) :
    ∃ g ∈ pre ++ [f], ∃ d, g.chunk? = some d ∧
      (d.addon, d.id, d.seq) = (c.addon, c.id, .ofNat 0) := by
  obtain ⟨total, body, htotal, _, hall⟩ := h
  rcases hall 0 (total_pos hr htotal) with ⟨hseq, _⟩ | ⟨q, g, r, rfl, hg, _⟩
  · exact ⟨f, by simp, c, hc, by rw [hseq]⟩
  · exact ⟨g, by simp, _, hg, rfl⟩

/-- A message that came out does not come out again. -/
theorem Emitted.once {pre p : List Input} {f : Input} {c : Chunk} {m : BinaryMessage}
    (hdist : Distinct (pre ++ [f])) (hp : p <+: pre) (he : Emitted p (c.addon, c.id))
    (h : ExactMessage pre c m) (hr : InRange c) (hc : f.chunk? = some c) : False := by
  obtain ⟨g, hg, d, hd, hname⟩ := he.first
  obtain ⟨total, body, htotal, _, hall⟩ := h
  rcases hall 0 (total_pos hr htotal) with ⟨hseq, _⟩ | harr
  · exact hdist.not_before (hp.subset hg) hd hc (by rw [hname, hseq])
  · obtain ⟨slot, hslot, _⟩ := harr.holds_at (hdist.mono (List.prefix_append ..)) hp hg hd hname
    have hgone := he.gone
    rw [hslot] at hgone
    cases hgone

theorem after_completes (st : Reassembly) (ins : List Input) :
    Machine.after completes st ins = Machine.after step st ins := by
  induction ins generalizing st with
  | nil => rfl
  | cons i ins ih => exact ih (st.step i).1

/-- A step completes nothing, or the message of its frame, exactly. -/
theorem completes_cases {pre : List Input} {f : Input} (hk : Kept pre)
    (hf : Fits (Machine.after step .init pre) f) :
    (completes (Machine.after step .init pre) f).2 = [] ∨
      ∃ c m, f.chunk? = some c ∧ InRange c ∧ ExactMessage pre c m ∧
        (Machine.after step .init (pre ++ [f])).reassembly.get (slotKey c.addon c.id) = none ∧
        (completes (Machine.after step .init pre) f).2 = [((c.addon, c.id), m)] := by
  cases hc : f.chunk? with
  | none => left; simp only [completes, hc]
  | some c =>
    simp only [completes, hc]
    rcases step_binary (Machine.after step .init pre) hc with hnil | ⟨slot, hcomp, hgone, hm⟩
    · left; rw [hnil]; rfl
    · right
      refine ⟨c, _, rfl, hcomp.range, hcomp.exact hk hf hc, ?_, by rw [hm]; rfl⟩
      rw [Machine.after_append]
      exact hgone

theorem completes_once (ins : List Input) (hd : Distinct ins)
    (hg : Machine.Guarded step Fits .init ins) :
    ((Machine.outputs completes .init ins).map Prod.fst).Nodup ∧
      ∀ name ∈ (Machine.outputs completes .init ins).map Prod.fst,
        ∃ p, p <+: ins ∧ Emitted p name := by
  induction ins using List.reverseRecOn with
  | nil => simp
  | append_singleton pre f ih =>
    obtain ⟨hpre, hlast⟩ := Machine.guarded_append.mp hg
    obtain ⟨hnodup, hemitted⟩ := ih (hd.mono (List.prefix_append ..)) hpre
    have hold : ∀ name ∈ (Machine.outputs completes .init pre).map Prod.fst,
        ∃ p, p <+: pre ++ [f] ∧ Emitted p name := by
      intro name hname
      obtain ⟨p, hp, he⟩ := hemitted name hname
      exact ⟨p, hp.trans (List.prefix_append ..), he⟩
    rw [Machine.outputs_append, after_completes, Machine.outputs_cons, Machine.outputs_nil,
      List.append_nil, List.map_append]
    rcases completes_cases (kept_of_guarded pre hpre) hlast.1 with
      hnil | ⟨c, m, hc, hr, hexact, hgone, hout⟩
    · rw [hnil, List.map_nil, List.append_nil]
      exact ⟨hnodup, hold⟩
    · rw [hout]
      refine ⟨List.nodup_append.mpr ⟨hnodup, by simp, fun a ha b hb => ?_⟩, fun name hname => ?_⟩
      · rintro rfl
        obtain rfl := List.mem_singleton.mp hb
        obtain ⟨p, hp, he⟩ := hemitted _ ha
        exact he.once hd hp hexact hr hc
      · rcases List.mem_append.mp hname with hname | hname
        · exact hold name hname
        · obtain rfl := List.mem_singleton.mp hname
          exact ⟨_, List.prefix_refl _, hexact.first hr hc, hgone⟩

/-- In a run whose frames have integer numbers and meet only slots of their own
messages, what comes out of the buffer are exactly the messages whose frames
all arrived and were kept, joined in order, each once. -/
theorem reassembly_exact (ins : List Input) (hd : Distinct ins)
    (hg : Machine.Guarded step Fits .init ins) : ExactRun ins := by
  refine ⟨fun pre f post hins c hc m hm => ?_, (completes_once ins hd hg).1⟩
  subst hins
  obtain ⟨hpre, hlast⟩ := Machine.guarded_append.mp hg
  rw [← mem_binaries] at hm
  rcases step_binary (Machine.after step .init pre) hc with hnil | ⟨slot, hcomp, _, hout⟩
  · rw [hnil] at hm
    cases hm
  · rw [hout] at hm
    obtain rfl := List.mem_singleton.mp hm
    exact hcomp.exact (kept_of_guarded pre hpre) hlast.1 hc

/-! ## Runs of two frames -/

instance (c : Chunk) : Decidable (InRange c) := inferInstanceAs (Decidable (_ ∧ _ ∧ _))

instance (st : Reassembly) (i : Input) : Decidable (Fits st i) :=
  inferInstanceAs (Decidable (∀ c ∈ i.chunk?, InRange c → _))

instance (ins : List Input) : Decidable (Distinct ins) := inferInstanceAs (Decidable (List.Nodup _))

/-- The buffer of a frame of a message of two frames with bodies of one byte. -/
def frameOfTwo (seq : String) (byte : UInt8) : Bytes :=
  let header := utf8Encode (js ("\x7b\"v\":1,\"addon\":\"a\",\"mime\":\"m\",\"size\":1," ++
    "\"id\":\"x\",\"seq\":" ++ seq ++ ",\"total\":2\x7d"))
  writeU32 header.length ++ header ++ [byte]

/-- Both frames, the last one first. -/
def wholeRun : List Input := [.frame 0 (frameOfTwo "1" 7), .frame 1 (frameOfTwo "0" 9)]

theorem reassembly_exact_wholeRun :
    Machine.outputs step .init wholeRun = [.binary ⟨js "a", js "m", [9, 7]⟩] ∧ ExactRun wholeRun :=
  ⟨by decide +kernel, reassembly_exact wholeRun (by decide +kernel) (by decide +kernel)⟩

/-- The second frame has the number one half. -/
def halfRun : List Input := [.frame 0 (frameOfTwo "0" 7), .frame 1 (frameOfTwo "0.5" 9)]

/-- A message comes out although its frame with number one never arrived. -/
theorem halfRun_inexact : Distinct halfRun ∧ ¬ExactRun halfRun := by
  refine ⟨by decide +kernel, fun h => ?_⟩
  have hlast : (Input.frame 1 (frameOfTwo "0.5" 9)).chunk? =
      some ⟨js "a", js "m", js "x", .fin (1 / 2), .ofNat 2, [9]⟩ := by decide +kernel
  have hfirst : (Input.frame 0 (frameOfTwo "0" 7)).chunk? =
      some ⟨js "a", js "m", js "x", .ofNat 0, .ofNat 2, [7]⟩ := by decide +kernel
  obtain ⟨total, body, htotal, _, hall⟩ := h.1 [.frame 0 (frameOfTwo "0" 7)] _ [] rfl _ hlast
    ⟨js "a", js "m", [7, 0]⟩ (by decide +kernel)
  have h2 : total = 2 := (Number.ofNat_inj.mp htotal).symm
  rcases hall 1 (by omega) with ⟨hseq, _⟩ | ⟨q, f, r, hpre, hf, _⟩
  · exact absurd hseq (by decide +kernel)
  · have hmem : f ∈ [Input.frame 0 (frameOfTwo "0" 7)] := hpre ▸ by simp
    rw [List.mem_singleton.mp hmem, hfirst] at hf
    have hseq : Number.ofNat 0 = Number.ofNat 1 := congrArg Chunk.seq (Option.some.inj hf)
    exact absurd (Number.ofNat_inj.mp hseq) (by decide)

end Reassembly

end Senn.Core

import Senn.Core.BinaryRoundTrip

/-! # A receiver and what is on the way to it

A session sends on and on while its frames come in, are dropped by the interval or the eviction
loop, or get lost on the wire. `Coming` says which messages the frames on the wire will make at the
receiver, whatever it holds by then: those that arrive, arrive in order, each as it was sent. -/

namespace Senn.Core
open Senn.Js Senn.Lib

/-! ## Ids -/

theorem messageId_injective {now now' m n : Nat} (h : messageId now m = messageId now' n) :
    m = n := by
  have hjs : js "_" = [0x5F] := rfl
  simp only [messageId, hjs, List.append_assoc, List.singleton_append] at h
  rw [← List.append_assoc, ← List.append_assoc] at h
  have htext := after_last_separator h (separator_not_mem_natText m) (separator_not_mem_natText n)
  exact natText_injective (by decide) (by decide) htext

/-- The id of a message that the counter was at most `n` for. -/
def Drawn (n : Nat) (id : JsString) : Prop := ∃ now, ∃ k ≤ n, id = messageId now k

theorem Drawn.mono {n n' : Nat} {id : JsString} (h : Drawn n id) (hn : n ≤ n') : Drawn n' id := by
  obtain ⟨now, k, hk, rfl⟩ := h
  exact ⟨now, k, hk.trans hn, rfl⟩

theorem Drawn.plain {n : Nat} {id : JsString} (h : Drawn n id) : 0x1F ∉ id := by
  obtain ⟨now, k, -, rfl⟩ := h
  exact messageId_plain now k

theorem not_drawn (now n : Nat) : ¬Drawn n (messageId now (n + 1)) := by
  rintro ⟨now', k, hk, heq⟩
  have hnumber := messageId_injective heq
  omega

/-- What a call draws, unless the counter wraps. -/
theorem sendBinary_id {n : Nat} (hn : n + 1 < 0xffffff) (call : SendCall) :
    ∃ n' r, sendBinary n call = (n', [r]) ∧ r.message = call.message ∧ Sends r ∧ n ≤ n' ∧
      ∀ id ∈ r.id, Drawn n' id ∧ ¬Drawn n id := by
  obtain ⟨n', r, heq, hmessage, hsends⟩ := sendBinary_sends n call
  refine ⟨n', r, heq, hmessage, hsends, ?_⟩
  have hnext : nextSendId n = n + 1 := Nat.mod_eq_of_lt hn
  unfold sendBinary at heq
  dsimp only at heq
  split at heq
  · obtain ⟨rfl, hr⟩ := Prod.mk.inj heq
    simp [← (List.cons.inj hr).1]
  split at heq
  · obtain ⟨rfl, hr⟩ := Prod.mk.inj heq
    simp [← (List.cons.inj hr).1]
  split at heq
  · obtain ⟨rfl, hr⟩ := Prod.mk.inj heq
    simp [← (List.cons.inj hr).1]
  split at heq
  · obtain ⟨rfl, hr⟩ := Prod.mk.inj heq
    simp [← (List.cons.inj hr).1]
  split at heq
  · obtain ⟨rfl, hr⟩ := Prod.mk.inj heq
    simp [← (List.cons.inj hr).1]
  · obtain ⟨rfl, hr⟩ := Prod.mk.inj heq
    rw [hnext]
    refine ⟨Nat.le_succ n, fun id hid => ?_⟩
    rw [← (List.cons.inj hr).1, hnext] at hid
    obtain rfl := Option.some.inj hid
    exact ⟨⟨call.now, n + 1, le_rfl, rfl⟩, not_drawn call.now n⟩

namespace Reassembly

/-! ## A message of which a frame was dropped -/

/-- The first frame of `m` is gone; `i` frames have come in. -/
structure Broken (m : BinaryMessage) (id : JsString) (used : List JsString) (st : Reassembly) :
    Prop where
  accounted : Accounted st
  slot : ∀ s, st.reassembly.get (slotKey m.addon id) = some s → s.id = id ∧
    s.total = frameCount m.bytes.length ∧
    ∀ seq body, s.frames.get seq = some body → ∃ j, 0 < j ∧ j < s.total ∧ seq = .ofNat j
  others : ∀ k s, k ≠ slotKey m.addon id → st.reassembly.get k = some s → s.id ∈ used

variable {m : BinaryMessage} {id : JsString} {used : List JsString} {i : Nat} {st : Reassembly}

theorem Broken.holding (h : Broken m id used st) : Holding (id :: used) st := by
  refine ⟨h.accounted, fun k s hs => ?_⟩
  by_cases hk : k = slotKey m.addon id
  · rw [(h.slot s (hk ▸ hs)).1]
    exact List.mem_cons_self ..
  · exact List.mem_cons_of_mem _ (h.others k s hk hs)

/-- The slot that a later frame of the message goes to. -/
theorem Broken.target (h : Broken m id used st) {now : Nat} {slot : ReassemblySlot} {timer : Bool}
    (ht : Target st now (part m id i) slot timer) : slot.id = id ∧
      slot.total = frameCount m.bytes.length ∧
      ∀ seq body, slot.frames.get seq = some body → ∃ j, 0 < j ∧ j < slot.total ∧ seq = .ofNat j := by
  cases ht with
  | found hget => exact h.slot slot hget
  | fresh hget htotal hpos =>
    exact ⟨rfl, (Number.ofNat_inj.mp htotal).symm, fun seq body hs => by simp [newSlot] at hs⟩

/-- The slot with a later frame. -/
theorem Broken.addFrame (h : Broken m id used st) {now : Nat} {slot : ReassemblySlot}
    {timer : Bool} (ht : Target st now (part m id i) slot timer) (hpos : 0 < i)
    (hi : i < frameCount m.bytes.length) (seq : Number) (body : Bytes)
    (hs : (addFrame slot (.ofNat i) (slice m.bytes i)).frames.get seq = some body) :
    ∃ j, 0 < j ∧ j < slot.total ∧ seq = .ofNat j := by
  obtain ⟨-, htotal, hframes⟩ := h.target ht
  rw [Reassembly.addFrame, InsMap.get_set] at hs
  split at hs
  · next hseq => exact ⟨i, hpos, htotal ▸ hi, hseq⟩
  · exact hframes seq body hs

/-- A later frame completes nothing. -/
theorem Broken.frame (h : Broken m id used st) (now : Nat) (hpos : 0 < i)
    (hi : i < frameCount m.bytes.length) :
    (st.handleChunk now (part m id i)).2.filterMap BinEvent.binary? = [] ∧
      Broken m id used (st.handleChunk now (part m id i)).1 := by
  have hout := handleChunk_outcome st now (part m id i)
  refine ⟨?_, hout.accounted h.accounted, fun s hs => ?_, fun k s hk hs => ?_⟩
  · obtain hnone | ⟨slot, hcompletes, -, -⟩ := hout.binary
    · exact hnone
    obtain ⟨now', timer, ht⟩ := hcompletes.target
    have hbase := ht.base h.accounted
    have hsize : (Reassembly.addFrame slot (.ofNat i) (slice m.bytes i)).frames.size =
        slot.total := by
      have hlast := hcompletes.last
      have hcount := hbase.received
      have hset : (slot.frames.set (.ofNat i) (slice m.bytes i)).size = slot.frames.size + 1 :=
        InsMap.size_set_of_none hcompletes.new
      exact hset.trans (by omega)
    obtain ⟨body, hget, -⟩ := assemble_complete (Reassembly.addFrame slot (.ofNat i) (slice m.bytes i))
      (addFrame_bytes hbase.bytes_eq hcompletes.new)
      (fun seq b hb => by
        obtain ⟨j, -, hj, heq⟩ := h.addFrame ht hpos hi seq b hb
        exact ⟨j, hj, heq⟩) hsize
    have htotal := (h.target ht).2.1
    obtain ⟨j, hj, -, hzero⟩ := h.addFrame ht hpos hi _ _ (hget 0 (by
      rw [show (Reassembly.addFrame slot (.ofNat i) (slice m.bytes i)).total = slot.total from rfl]
      omega))
    rw [Number.ofNat_inj] at hzero
    omega
  · obtain hs | ⟨-, -, slot, timer, ht, -, rfl⟩ := hout.get hs
    · exact h.slot s hs
    · obtain ⟨hid, htotal, -⟩ := h.target ht
      exact ⟨hid, htotal, h.addFrame ht hpos hi⟩
  · obtain hs | ⟨hk', -⟩ := hout.get hs
    · exact h.others k s hk hs
    · exact absurd hk' hk

/-! ## Slots that are dropped -/

/-- Slots of `st` are left or not. -/
structure Shrinks (st st' : Reassembly) : Prop where
  accounted : Accounted st'
  slots : ∀ k s, st'.reassembly.get k = some s → st.reassembly.get k = some s

theorem shrinks_tick (h : Accounted st) (now : Nat) : Shrinks st (st.step (.gcTick now)).1 :=
  ⟨step_accounted _ h, fun _ _ => gcTick_subset⟩

theorem shrinks_clear (st : Reassembly) : Shrinks st .init :=
  ⟨init_accounted, fun k s hs => by simp [Reassembly.init] at hs⟩

theorem Holding.shrinks {st' : Reassembly} (h : Holding used st) (hs : Shrinks st st') :
    Holding used st' := ⟨hs.accounted, fun k s hget => h.ids k s (hs.slots k s hget)⟩

theorem Broken.shrinks {st' : Reassembly} (h : Broken m id used st) (hs : Shrinks st st') :
    Broken m id used st' :=
  ⟨hs.accounted, fun s hget => h.slot s (hs.slots _ s hget),
    fun k s hk hget => h.others k s hk (hs.slots k s hget)⟩

theorem During.shrinks {st' : Reassembly} (h : During m id used i st) (hs : Shrinks st st') :
    During m id used i st' ∨ Broken m id used st' := by
  have hothers : ∀ k s, k ≠ slotKey m.addon id → st'.reassembly.get k = some s → s.id ∈ used :=
    fun k s hk hget => h.others k s hk (hs.slots k s hget)
  cases hslot : st'.reassembly.get (slotKey m.addon id) with
  | none => exact .inr ⟨hs.accounted, fun s hget => (by rw [hslot] at hget; cases hget), hothers⟩
  | some slot =>
    refine .inl ⟨hs.accounted, ?_, hothers⟩
    have hpending := h.pending
    rw [hs.slots _ _ hslot] at hpending
    rw [hslot]
    exact hpending

/-! ## The wire -/

/-- Calls that come after the ids `used`. -/
structure Ahead (n : Nat) (used : List JsString) (rs : List SendResult) : Prop where
  sends : ∀ r ∈ rs, Sends r
  nodup : (rs.filterMap SendResult.id ++ used).Nodup
  drawn : ∀ u ∈ rs.filterMap SendResult.id ++ used, Drawn n u

/-- The frames of `m` from number `i` on that are on the wire. -/
structure Rest (m : BinaryMessage) (id : JsString) (i : Nat) (frames : List Bytes) : Prop where
  addon : m.addon ≠ []
  small : m.bytes.length ≤ BIN_MESSAGE_MAX_BYTES
  several : 1 < frameCount m.bytes.length
  started : i < frameCount m.bytes.length
  fits : i + frames.length ≤ frameCount m.bytes.length
  encoded : frames.map some = (List.range' i frames.length).map fun seq =>
    encodeFrame (partOpts m id (frameCount m.bytes.length) seq)

/-- The message, if all the frames it still needs are on the wire. -/
def whole (m : BinaryMessage) (i : Nat) (frames : List Bytes) : List BinaryMessage :=
  if i + frames.length = frameCount m.bytes.length then [m] else []

/-- The frames on the wire to a receiver will make the messages there: those of calls ahead, after
what is left of a message that is coming in or that has lost a frame. -/
inductive Coming (n : Nat) : Reassembly → List Bytes → List BinaryMessage → Prop
  | idle {st : Reassembly} {used : List JsString} {rs : List SendResult} (holding : Holding used st)
      (ahead : Ahead n used rs) :
      Coming n st (rs.flatMap SendResult.frames) (resolvedMessages rs)
  | during {st : Reassembly} {m : BinaryMessage} {id : JsString} {used : List JsString} {i : Nat}
      {frames : List Bytes} {rs : List SendResult} (during : During m id used i st) (pos : 0 < i)
      (rest : Rest m id i frames) (ahead : Ahead n (id :: used) rs) :
      Coming n st (frames ++ rs.flatMap SendResult.frames) (whole m i frames ++ resolvedMessages rs)
  | broken {st : Reassembly} {m : BinaryMessage} {id : JsString} {used : List JsString} {i : Nat}
      {frames : List Bytes} {rs : List SendResult} (broken : Broken m id used st) (pos : 0 < i)
      (rest : Rest m id i frames) (ahead : Ahead n (id :: used) rs) :
      Coming n st (frames ++ rs.flatMap SendResult.frames) (resolvedMessages rs)

theorem Ahead.less {n : Nat} {rs : List SendResult} (h : Ahead n (id :: used) rs) :
    Ahead n used rs := by
  have hsub : (rs.filterMap SendResult.id ++ used).Sublist
      (rs.filterMap SendResult.id ++ id :: used) := (List.sublist_cons_self ..).append_left _
  exact ⟨h.sends, h.nodup.sublist hsub, fun u hu => h.drawn u (hsub.subset hu)⟩

theorem Rest.tail {f : Bytes} {frames : List Bytes} (h : Rest m id i (f :: frames))
    (hi : i + 1 < frameCount m.bytes.length) : Rest m id (i + 1) frames where
  addon := h.addon
  small := h.small
  several := h.several
  started := hi
  fits := by
    have hfits := h.fits
    rw [List.length_cons] at hfits
    omega
  encoded := (List.cons.inj h.encoded).2

theorem Rest.decode {f : Bytes} {frames : List Bytes} (h : Rest m id i (f :: frames)) :
    decodeFrame f = .chunk (part m id i) :=
  decode_part h.small h.addon h.several h.started (List.cons.inj h.encoded).1.symm

theorem whole_cons (m : BinaryMessage) (i : Nat) (f : Bytes) (frames : List Bytes) :
    whole m i (f :: frames) = whole m (i + 1) frames := by
  unfold whole
  rw [List.length_cons, Nat.add_assoc, Nat.add_comm 1]

/-! ## What happens to the wire -/

/-- A session has sent nothing yet. -/
theorem coming_nothing : Coming 0 .init [] [] := by
  have hholding : Holding [] .init :=
    ⟨init_accounted, fun k s hs => by simp [Reassembly.init] at hs⟩
  have hahead : Ahead 0 [] [] := ⟨by simp, by simp, by simp⟩
  exact .idle hholding hahead

variable {n : Nat} {queue : List Bytes} {ms : List BinaryMessage}

theorem Coming.accounted (h : Coming n st queue ms) : Accounted st := by
  cases h with
  | idle holding => exact holding.accounted
  | during during => exact during.accounted
  | broken broken => exact broken.accounted

/-- Without a frame on the wire nothing is coming. -/
theorem Coming.nothing (h : Coming n st [] ms) : ms = [] := by
  have hresolved : ∀ {rs : List SendResult}, (∀ r ∈ rs, Sends r) →
      rs.flatMap SendResult.frames = [] → resolvedMessages rs = [] := by
    intro rs hsends hframes
    refine List.flatMap_eq_nil_iff.mpr fun r hr => ?_
    have hnone := List.flatMap_eq_nil_iff.mp hframes r hr
    have hr := hsends r hr
    cases hr with
    | nothing => rfl
    | whole => cases hnone
    | @parts m id frames error k _ _ hseveral _ _ hframes herror =>
      obtain rfl : frames = [] := hnone
      have hk : k = 0 := by simpa using congrArg List.length hframes.symm
      cases error with
      | none =>
        have hcount := herror.mp rfl
        omega
      | some e => rfl
  generalize hwire : ([] : List Bytes) = wire at h
  cases h with
  | idle holding ahead => exact hresolved ahead.sends hwire.symm
  | @during m _ _ i frames _ during pos rest ahead =>
    obtain ⟨rfl, hframes⟩ := List.append_eq_nil_iff.mp hwire.symm
    have hstarted := rest.started
    rw [hresolved ahead.sends hframes, whole, if_neg (by simp only [List.length_nil]; omega)]
    rfl
  | broken broken pos rest ahead =>
    exact hresolved ahead.sends (List.append_eq_nil_iff.mp hwire.symm).2

/-- A call hands its frames to the wire. -/
theorem Coming.send (h : Coming n st queue ms) (hn : n + 1 < 0xffffff) (call : SendCall) :
    ∃ n' r, sendBinary n call = (n', [r]) ∧ r.message = call.message ∧
      Coming n' st (queue ++ r.frames) (ms ++ r.delivered) := by
  obtain ⟨n', r, heq, hmessage, hsends, hle, hid⟩ := sendBinary_id hn call
  refine ⟨n', r, heq, hmessage, ?_⟩
  have hahead : ∀ {used rs}, Ahead n used rs → Ahead n' used (rs ++ [r]) := by
    intro used rs hahead
    have hids : (rs ++ [r]).filterMap SendResult.id ++ used =
        rs.filterMap SendResult.id ++ (r.id.toList ++ used) := by
      rw [List.filterMap_append, List.append_assoc]
      cases hr : r.id <;> simp [hr]
    have hold : ∀ u ∈ rs.filterMap SendResult.id ++ used, Drawn n u := hahead.drawn
    refine ⟨List.forall_mem_append.mpr ⟨hahead.sends, by simpa using hsends⟩, ?_, fun u hu => ?_⟩
    · rw [hids]
      cases hr : r.id with
      | none => exact hahead.nodup
      | some id =>
        refine List.nodup_middle.mpr (List.nodup_cons.mpr ⟨fun hmem => ?_, hahead.nodup⟩)
        exact (hid id hr).2 (hold id hmem)
    · rw [hids] at hu
      obtain hu | hu := List.mem_append.mp hu
      · exact (hold u (List.mem_append_left _ hu)).mono hle
      obtain hu | hu := List.mem_append.mp hu
      · exact (hid u (Option.mem_toList.mp hu)).1
      · exact (hold u (List.mem_append_right _ hu)).mono hle
  have hframes : ∀ rs : List SendResult, rs.flatMap SendResult.frames ++ r.frames =
      (rs ++ [r]).flatMap SendResult.frames := fun rs => by simp
  have hmessages : ∀ rs : List SendResult, resolvedMessages rs ++ r.delivered =
      resolvedMessages (rs ++ [r]) := fun rs => by simp [resolvedMessages]
  cases h with
  | idle holding ahead =>
    rw [hframes, hmessages]
    exact .idle holding (hahead ahead)
  | during during pos rest ahead =>
    rw [List.append_assoc, hframes, List.append_assoc, hmessages]
    exact .during during pos rest (hahead ahead)
  | broken broken pos rest ahead =>
    rw [List.append_assoc, hframes, hmessages]
    exact .broken broken pos rest (hahead ahead)

/-- What is on the wire gets lost. -/
theorem Coming.cut (h : Coming n st queue ms) : Coming n st [] [] := by
  have hidle : ∀ {used}, Holding used st → (∀ u ∈ used, Drawn n u) → used.Nodup →
      Coming n st [] [] := fun {used} hholding hdrawn hnodup => by
    have hahead : Ahead n used [] := ⟨by simp, by simpa using hnodup, by simpa using hdrawn⟩
    exact .idle hholding hahead
  have hused : ∀ {used rs}, Ahead n used rs → (∀ u ∈ used, Drawn n u) ∧ used.Nodup :=
    fun ahead => ⟨fun u hu => ahead.drawn u (List.mem_append_right _ hu),
      ahead.nodup.sublist (List.sublist_append_right _ _)⟩
  cases h with
  | idle holding ahead => exact hidle holding (hused ahead).1 (hused ahead).2
  | during during pos rest ahead => exact hidle during.holding (hused ahead).1 (hused ahead).2
  | broken broken pos rest ahead => exact hidle broken.holding (hused ahead).1 (hused ahead).2

/-- The receiver drops slots: at most the message that is coming in is lost. -/
theorem Coming.shrinks {st' : Reassembly} (h : Coming n st queue ms) (hs : Shrinks st st') :
    ∃ ms', ms'.Sublist ms ∧ Coming n st' queue ms' := by
  cases h with
  | idle holding ahead => exact ⟨_, .refl _, .idle (holding.shrinks hs) ahead⟩
  | during during pos rest ahead =>
    obtain hduring | hbroken := during.shrinks hs
    · exact ⟨_, .refl _, .during hduring pos rest ahead⟩
    · exact ⟨_, List.sublist_append_right _ _, .broken hbroken pos rest ahead⟩
  | broken broken pos rest ahead => exact ⟨_, .refl _, .broken (broken.shrinks hs) pos rest ahead⟩

/-- What the receiver makes of a frame is the first of what is coming, or nothing yet. -/
def Takes (n now : Nat) (st : Reassembly) (f : Bytes) (queue : List Bytes)
    (ms : List BinaryMessage) :
    Prop :=
  ∃ ms', ms = (st.step (.frame now f)).2.filterMap BinEvent.binary? ++ ms' ∧
    Coming n (st.step (.frame now f)).1 queue ms'

/-- The next frame of a message that is coming in. -/
theorem During.takes {f : Bytes} {frames : List Bytes} {rs : List SendResult}
    (h : During m id used i st) (hrest : Rest m id i (f :: frames)) (hahead : Ahead n (id :: used) rs)
    (now : Nat) : Takes n now st f (frames ++ rs.flatMap SendResult.frames)
      (whole m i (f :: frames) ++ resolvedMessages rs) := by
  have hframe := h.frame now hrest.started hrest.small
  rw [Takes, step_chunk hrest.decode]
  split at hframe
  · next hlast =>
    have hfits := hrest.fits
    rw [List.length_cons] at hfits
    obtain rfl : frames = [] := List.length_eq_zero_iff.mp (by omega)
    refine ⟨resolvedMessages rs, ?_, .idle hframe.2 hahead.less⟩
    rw [hframe.1.1, whole, if_pos (by simpa using hlast)]
  · next hmore =>
    rw [hframe.1.1, whole_cons]
    have hstarted := hrest.started
    have htail := hrest.tail (by omega)
    cases frames with
    | nil =>
      refine ⟨resolvedMessages rs, ?_, .idle hframe.2.holding hahead⟩
      rw [whole, if_neg (by simpa using hmore)]
    | cons f' frames => exact ⟨_, rfl, .during hframe.2 (Nat.succ_pos i) htail hahead⟩

/-- The next frame of a message that has lost one. -/
theorem Broken.takes {f : Bytes} {frames : List Bytes} {rs : List SendResult}
    (h : Broken m id used st) (hpos : 0 < i) (hrest : Rest m id i (f :: frames))
    (hahead : Ahead n (id :: used) rs) (now : Nat) :
    Takes n now st f (frames ++ rs.flatMap SendResult.frames) (resolvedMessages rs) := by
  obtain ⟨hnone, hbroken⟩ := h.frame now hpos hrest.started
  rw [Takes, step_chunk hrest.decode, hnone]
  refine ⟨_, rfl, ?_⟩
  by_cases hlast : i + 1 = frameCount m.bytes.length
  · have hfits := hrest.fits
    rw [List.length_cons] at hfits
    obtain rfl : frames = [] := List.length_eq_zero_iff.mp (by omega)
    exact .idle hbroken.holding hahead
  · have hstarted := hrest.started
    exact .broken hbroken (Nat.succ_pos i) (hrest.tail (by omega)) hahead

/-- The next frame of calls ahead. -/
theorem Holding.takes {f : Bytes} (now : Nat) : ∀ {rs : List SendResult} {queue : List Bytes},
    Holding used st → Ahead n used rs → rs.flatMap SendResult.frames = f :: queue →
    Takes n now st f queue (resolvedMessages rs) := by
  intro rs
  induction rs with
  | nil => intro queue _ _ hqueue; cases hqueue
  | cons r rs ih =>
    intro queue h hahead hqueue
    have hless : Ahead n used rs := by
      have hsub : (rs.filterMap SendResult.id ++ used).Sublist
          ((r :: rs).filterMap SendResult.id ++ used) :=
        ((List.sublist_cons_self r rs).filterMap _).append_right _
      exact ⟨fun r' hr' => hahead.sends r' (.tail _ hr'), hahead.nodup.sublist hsub,
        fun u hu => hahead.drawn u (hsub.subset hu)⟩
    have hsends := hahead.sends r (.head _)
    cases hsends with
    | nothing => exact ih h hless hqueue
    | @whole m frame haddon hencoded =>
      obtain ⟨rfl, rfl⟩ := List.cons.inj hqueue
      have hstep : st.step (.frame now frame) = (st, [.binary m]) := by
        simp only [step, handleBinaryFrame, decode_whole haddon hencoded]
      rw [Takes, hstep]
      exact ⟨_, rfl, .idle h hless⟩
    | @parts m id frames error k haddon hsmall hseveral hplain hk hframes herror =>
      have hlength : frames.length = k := by simpa using congrArg List.length hframes
      cases frames with
      | nil =>
        have hfailed : error ≠ none := fun hnone => by
          have hcount := herror.mp hnone
          rw [← hlength] at hcount
          simp only [List.length_nil] at hcount
          omega
        have hdelivered : resolvedMessages (⟨m, [], some id, error⟩ :: rs) = resolvedMessages rs := by
          cases error with
          | none => exact absurd rfl hfailed
          | some e => rfl
        rw [hdelivered]
        exact ih h hless hqueue
      | cons f' frames =>
        obtain ⟨rfl, rfl⟩ := List.cons.inj hqueue
        have hids : (rs.filterMap SendResult.id ++ id :: used).Nodup ∧
            ∀ u ∈ rs.filterMap SendResult.id ++ id :: used, Drawn n u :=
          ⟨List.nodup_middle.mpr hahead.nodup,
            fun u hu => hahead.drawn u (List.perm_middle.subset hu)⟩
        have hnew : id ∉ used := fun hmem =>
          (List.nodup_cons.mp hahead.nodup).1 (List.mem_append_right _ hmem)
        have hduring := h.during (m := m) (fun u hu =>
          (hahead.drawn u (List.mem_append_right _ hu)).plain) hplain hnew
        have hrest : Rest m id 0 (f' :: frames) := by
          refine ⟨haddon, hsmall, hseveral, by omega, by omega, ?_⟩
          rw [hframes, List.range_eq_range', hlength]
        have hwhole : resolvedMessages (⟨m, f' :: frames, some id, error⟩ :: rs) =
            whole m 0 (f' :: frames) ++ resolvedMessages rs := by
          rw [resolvedMessages, List.flatMap_cons, whole, hlength, Nat.zero_add]
          refine congrArg (· ++ resolvedMessages rs) ?_
          cases error with
          | none => rw [if_pos (herror.mp rfl)]; rfl
          | some e => rw [if_neg fun hcount => by cases herror.mpr hcount]; rfl
        rw [hwhole]
        exact hduring.takes hrest ⟨hless.sends, hids.1, hids.2⟩ now

/-- A frame comes in. -/
theorem Coming.takes {f : Bytes} (h : Coming n st (f :: queue) ms) (now : Nat) :
    Takes n now st f queue ms := by
  generalize hwire : f :: queue = wire at h
  cases h with
  | idle holding ahead => exact holding.takes now ahead hwire.symm
  | @during _ _ _ _ frames _ during pos rest ahead =>
    cases frames with
    | nil =>
      rw [List.nil_append] at hwire
      have hnone := rest.started
      rw [whole, if_neg (by simp only [List.length_nil]; omega), List.nil_append]
      exact during.holding.takes now ahead hwire.symm
    | cons f' frames =>
      obtain ⟨rfl, rfl⟩ := List.cons.inj hwire
      exact during.takes rest ahead now
  | @broken _ _ _ _ frames _ broken pos rest ahead =>
    cases frames with
    | nil => exact broken.holding.takes now ahead hwire.symm
    | cons f' frames =>
      obtain ⟨rfl, rfl⟩ := List.cons.inj hwire
      exact broken.takes pos rest ahead now

end Reassembly

end Senn.Core

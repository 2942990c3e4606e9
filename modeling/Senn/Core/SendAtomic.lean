import Senn.Core.SendBinary
import Senn.Js.Form

/-! # When a call of `sendBinary` sends all of its frames or none

The limit on a frame's length is checked frame by frame, inside the loop that
sends them. The header counts the frame in decimal, so the frames from the tenth
on are longer than the first by a digit: a message whose first frame has exactly
the length allowed is cut off there. -/

namespace Senn.Core
open Senn.Js Senn.Lib

/-! ## The length of a frame -/

theorem utf8Length_ascii {s : JsString} (h : ∀ u ∈ s, u.toNat < 0x80) :
    (utf8Encode s).length = s.length := by
  rw [utf8Encode, scalars_ascii h, List.length_map, List.length_map]

theorem utf8Length_cons {u : UInt16} (t : JsString) (hu : u.toNat < 0x80) :
    (utf8Encode (u :: t)).length = 1 + (utf8Encode t).length := by
  have hw : wellFormed [u] = true := wellFormed_ascii (by simpa using hu)
  have hone : (utf8Encode [u]).length = 1 := utf8Length_ascii (by simpa using hu)
  have happ := utf8Encode_append t hw
  rw [List.singleton_append] at happ
  rw [happ, List.length_append, hone]

theorem utf8Length_quote (s t : JsString) : (utf8Encode (quote s ++ t)).length =
    2 + (utf8Encode (escape s)).length + (utf8Encode t).length := by
  have hquote : (utf8Encode (quote s)).length = 2 + (utf8Encode (escape s)).length := by
    have hmark : (0x22 : UInt16).toNat < 0x80 := by decide
    rw [quote, List.cons_append, utf8Length_cons _ hmark,
      utf8Encode_append _ (wellFormed_escape s), List.length_append,
      utf8Length_ascii (s := [0x22]) (by simp)]
    simp only [List.length_cons, List.length_nil]
    omega
  rw [utf8Encode_append t (wellFormed_quote s), List.length_append, hquote]

theorem utf8Length_number {n : Nat} (t : JsString) (hn : n ≤ 2 ^ 53) :
    (utf8Encode ((Json.num (.ofNat n)).stringify ++ t)).length =
      (natText 10 n).length + (utf8Encode t).length := by
  have hascii : ∀ u ∈ natText 10 n, u.toNat < 0x80 := fun u hu => natText_ascii hu
  have hnum : (Json.num (.ofNat n)).stringify = natText 10 n := numText_ofNat hn
  rw [hnum, utf8Encode_append t (wellFormed_ascii hascii), List.length_append,
    utf8Length_ascii hascii]

/-- The bytes of a frame other than its body and the digits of its size and of its place. -/
def frameRest (m : BinaryMessage) (id : JsString) (total : Nat) : Nat :=
  64 + (utf8Encode (escape m.addon)).length + (utf8Encode (escape m.mime)).length +
    (utf8Encode (escape id)).length + (natText 10 total).length

theorem slice_le (bytes : Bytes) (seq : Nat) : (slice bytes seq).length ≤ BIN_BODY_PER_FRAME :=
  List.length_take_le ..

theorem frameLen_part (m : BinaryMessage) (id : JsString) {total seq : Nat}
    (htotal : total ≤ 2 ^ 53) (hseq : seq ≤ 2 ^ 53) :
    (partOpts m id total seq).frameLen = frameRest m id total +
      (natText 10 (slice m.bytes seq).length).length + (natText 10 seq).length +
      (slice m.bytes seq).length := by
  have hsize : (slice m.bytes seq).length ≤ 2 ^ 53 := by
    have := slice_le m.bytes seq
    simp only [BIN_BODY_PER_FRAME] at this
    omega
  have hone : (natText 10 1).length = 1 := by decide
  unfold FrameOpts.frameLen FrameOpts.headerBytes FrameOpts.header partOpts
  simp only [Option.map_some, Option.toList_some, List.cons_append, List.nil_append]
  have hstr : ∀ s, (Json.str s).stringify = quote s := fun _ => rfl
  have hkeys : (utf8Encode (escape (js "v"))).length = 1 ∧
      (utf8Encode (escape (js "addon"))).length = 5 ∧
      (utf8Encode (escape (js "mime"))).length = 4 ∧
      (utf8Encode (escape (js "size"))).length = 4 ∧
      (utf8Encode (escape (js "id"))).length = 2 ∧
      (utf8Encode (escape (js "seq"))).length = 3 ∧
      (utf8Encode (escape (js "total"))).length = 5 := by decide
  have hnil : (utf8Encode []).length = 0 := rfl
  obtain ⟨hv, haddon, hmime, hsizeKey, hid, hseqKey, htotalKey⟩ := hkeys
  rw [Json.stringify]
  simp (disch := first | assumption | decide) only [stringifyMembers, hstr, List.cons_append,
    List.append_assoc, utf8Length_cons, utf8Length_quote, utf8Length_number, hv, haddon, hmime,
    hsizeKey, hid, hseqKey, htotalKey, hone, hnil]
  simp only [frameRest]
  omega

/-! ## Which frames fit -/

/-- The body of every frame of a message of several but the last is full. -/
theorem slice_length {bytes : Bytes} {seq : Nat} (h : (seq + 1) * BIN_BODY_PER_FRAME ≤ bytes.length) :
    (slice bytes seq).length = BIN_BODY_PER_FRAME := by
  rw [slice, List.length_take, List.length_drop]
  simp only [BIN_BODY_PER_FRAME] at h ⊢
  omega

theorem digits_lt_ten {n : Nat} (h : n < 10) : (natText 10 n).length = 1 := by
  have hle := natText_length_le (b := 10) (k := 1) (by decide) (by decide) (n := n) (by omega)
  have hpos := List.length_pos_iff.mpr (natText_ne_nil (b := 10) n)
  omega

theorem digits_lt_hundred {n : Nat} (h10 : 10 ≤ n) (h : n < 100) : (natText 10 n).length = 2 := by
  have hle := natText_length_le (b := 10) (k := 2) (by decide) (by decide) (n := n) (by omega)
  have hlt := lt_natText_length (b := 10) (k := 1) (by decide) (n := n) (by omega)
  omega

theorem digits_slice (bytes : Bytes) (seq : Nat) :
    (natText 10 (slice bytes seq).length).length ≤ 5 := by
  have hle := slice_le bytes seq
  simp only [BIN_BODY_PER_FRAME] at hle
  exact natText_length_le (by decide) (by decide) (by omega)

theorem digits_full : (natText 10 BIN_BODY_PER_FRAME).length = 5 := by decide

theorem frameCount_le {n : Nat} (h : n ≤ BIN_MESSAGE_MAX_BYTES) : frameCount n < 100 := by
  simp only [frameCount, BIN_BODY_PER_FRAME, BIN_MESSAGE_MAX_BYTES] at h ⊢
  omega

section
variable {m : BinaryMessage} (id : JsString) {total seq : Nat}

theorem frameLen_first (hm : BIN_BODY_PER_FRAME ≤ m.bytes.length) (htotal : total < 100) :
    (partOpts m id total 0).frameLen = frameRest m id total + BIN_BODY_PER_FRAME + 6 := by
  rw [frameLen_part m id (by omega) (by omega), slice_length (by omega), digits_full,
    digits_lt_ten (by omega)]
  omega

/-- A frame is longer than the first by its second digit, if it has one and its body is full. -/
theorem frameLen_le (htotal : total < 100) (hseq : seq < 100) :
    (partOpts m id total seq).frameLen ≤
      frameRest m id total + (slice m.bytes seq).length + if seq < 10 then 6 else 7 := by
  rw [frameLen_part m id (by omega) (by omega)]
  have hsize := digits_slice m.bytes seq
  split
  · next h => rw [digits_lt_ten h]; omega
  · next h => rw [digits_lt_hundred (by omega) hseq]; omega

theorem frameLen_tenth (htotal : total < 100) (hm : 11 * BIN_BODY_PER_FRAME ≤ m.bytes.length) :
    (partOpts m id total 10).frameLen = frameRest m id total + BIN_BODY_PER_FRAME + 7 := by
  rw [frameLen_part m id (by omega) (by omega), slice_length (by omega), digits_full,
    digits_lt_hundred (by omega) (by omega)]
  omega

/-- When the first frame fits, the others do, unless it is as long as a frame can be and there is a
full frame with two digits. -/
theorem frames_fit_iff (hm : m.bytes.length ≤ BIN_MESSAGE_MAX_BYTES)
    (hcount : 1 < frameCount m.bytes.length)
    (hfirst : (partOpts m id (frameCount m.bytes.length) 0).frameLen ≤ BIN_FRAME_MAX_BYTES) :
    (∀ seq < frameCount m.bytes.length,
      (partOpts m id (frameCount m.bytes.length) seq).frameLen ≤ BIN_FRAME_MAX_BYTES) ↔
    ¬(11 * BIN_BODY_PER_FRAME ≤ m.bytes.length ∧
      (partOpts m id (frameCount m.bytes.length) 0).frameLen = BIN_FRAME_MAX_BYTES) := by
  have htotal := frameCount_le hm
  have hfull : BIN_BODY_PER_FRAME ≤ m.bytes.length := by
    simp only [frameCount, BIN_BODY_PER_FRAME] at hcount ⊢
    omega
  have hlen := frameLen_first id hfull htotal
  constructor
  · intro hall hlong
    obtain ⟨heleven, heq⟩ := hlong
    have htenth := frameLen_tenth id htotal heleven
    have hten : 10 < frameCount m.bytes.length := by
      simp only [frameCount, BIN_BODY_PER_FRAME] at heleven ⊢
      omega
    have := hall 10 hten
    omega
  · intro hnot seq hseq
    have hle := frameLen_le (m := m) id htotal (hseq.trans htotal)
    have hslice := slice_le m.bytes seq
    split at hle
    · omega
    · next hten =>
      by_cases heleven : 11 * BIN_BODY_PER_FRAME ≤ m.bytes.length
      · have hne := fun heq => hnot ⟨heleven, heq⟩
        omega
      · have hshort : (slice m.bytes seq).length < BIN_BODY_PER_FRAME := by
          rw [slice, List.length_take, List.length_drop]
          simp only [BIN_BODY_PER_FRAME] at heleven ⊢
          omega
        omega

end

/-! ## The loop -/

theorem encodeFrame_isSome (opts : FrameOpts) :
    encodeFrame opts ≠ none ↔ opts.frameLen ≤ BIN_FRAME_MAX_BYTES := by
  unfold encodeFrame
  split
  · next h => exact iff_of_false (by simp) (Nat.not_le_of_lt h)
  · next h => exact iff_of_true (by simp) (Nat.le_of_not_lt h)

/-- A loop on a channel that takes every frame ends well where every frame fits. -/
theorem sendFrames_error {throwsAt : Nat → Bool} (hsend : ∀ k, throwsAt k = false)
    (opts : List FrameOpts) : ∀ sent, (sendFrames throwsAt sent opts).2 = none ↔
      ∀ o ∈ opts, o.frameLen ≤ BIN_FRAME_MAX_BYTES := by
  induction opts with
  | nil => intro sent; simp [sendFrames]
  | cons o opts ih =>
    intro sent
    rw [List.forall_mem_cons, ← encodeFrame_isSome, sendFrames, ← ih (sent + 1)]
    cases he : encodeFrame o with
    | none => simp
    | some frame => simp [hsend sent]

theorem sendFrames_nothing {throwsAt : Nat → Bool} (hsend : ∀ k, throwsAt k = false)
    (o : FrameOpts) (opts : List FrameOpts) (sent : Nat) :
    (sendFrames throwsAt sent (o :: opts)).1 = [] ↔ ¬o.frameLen ≤ BIN_FRAME_MAX_BYTES := by
  rw [← encodeFrame_isSome, sendFrames]
  cases he : encodeFrame o with
  | none => simp
  | some frame => simp [hsend sent]

theorem sendFrames_all {throwsAt : Nat → Bool} {opts : List FrameOpts} {sent : Nat}
    (h : (sendFrames throwsAt sent opts).2 = none) :
    (sendFrames throwsAt sent opts).1.length = opts.length := by
  obtain ⟨k, hk, hframes, hend⟩ := sendFrames_spec throwsAt opts sent
  have hlen := congrArg List.length hframes
  rw [List.length_map, List.length_map, List.length_take, hend.mp h, Nat.min_self] at hlen
  exact hlen

/-- The promise of a call: it rejected and nothing was sent, or it resolved and all was. -/
def AllOrNothing (r : SendResult) : Prop :=
  (r.error ≠ none → r.frames = []) ∧
    (r.error = none → r.frames.length = frameCount r.message.bytes.length)

/-- The call gets past the checks before the loop. -/
def PassesChecks (call : SendCall) : Prop :=
  call.state = .connected ∧ call.message.addon ≠ [] ∧
    call.message.bytes.length ≤ BIN_MESSAGE_MAX_BYTES ∧ call.channelOpen = true

/-- The call's message has eleven full frames or more, the first of them as long as a frame can be. -/
def CutOff (sendId : Nat) (call : SendCall) : Prop :=
  PassesChecks call ∧ 11 * BIN_BODY_PER_FRAME ≤ call.message.bytes.length ∧
    (partOpts call.message (messageId call.now (nextSendId sendId))
      (frameCount call.message.bytes.length) 0).frameLen = BIN_FRAME_MAX_BYTES

theorem sendBinary_rejects (sendId : Nat) {call : SendCall} (h : ¬PassesChecks call) :
    ∃ e, (sendBinary sendId call).2 = [⟨call.message, [], none, some e⟩] := by
  unfold sendBinary
  dsimp only
  split
  · exact ⟨_, rfl⟩
  next hstate =>
  split
  · exact ⟨_, rfl⟩
  next haddon =>
  split
  · exact ⟨_, rfl⟩
  next hlen =>
  split
  · exact ⟨_, rfl⟩
  next hopen =>
  exact absurd ⟨not_not.mp hstate, haddon, Nat.le_of_not_lt hlen, by simpa using hopen⟩ h

theorem sendBinary_passes {call : SendCall} (h : PassesChecks call) (sendId : Nat) :
    (sendBinary sendId call).2 =
      if frameCount call.message.bytes.length = 1 then
        let r := sendFrames call.throwsAt 0 [wholeOpts call.message]
        [⟨call.message, r.1, none, r.2⟩]
      else
        let id := messageId call.now (nextSendId sendId)
        let r := sendFrames call.throwsAt 0 ((List.range (frameCount call.message.bytes.length)).map
          (partOpts call.message id (frameCount call.message.bytes.length)))
        [⟨call.message, r.1, some id, r.2⟩] := by
  obtain ⟨hstate, haddon, hlen, hopen⟩ := h
  unfold sendBinary
  dsimp only
  rw [if_neg (not_not.mpr hstate), if_neg haddon, if_neg (Nat.not_lt.mpr hlen), if_neg (by simp [hopen])]
  split
  · rfl
  · rfl

/-- A loop over frames sends all or none where they all fit or the first does not. -/
theorem loop_allOrNothing {throwsAt : Nat → Bool} (hsend : ∀ k, throwsAt k = false)
    {m : BinaryMessage} {id : Option JsString} {o : FrameOpts} {opts : List FrameOpts}
    (hcount : (o :: opts).length = frameCount m.bytes.length) :
    AllOrNothing ⟨m, (sendFrames throwsAt 0 (o :: opts)).1, id,
        (sendFrames throwsAt 0 (o :: opts)).2⟩ ↔
      (o.frameLen ≤ BIN_FRAME_MAX_BYTES → ∀ p ∈ opts, p.frameLen ≤ BIN_FRAME_MAX_BYTES) := by
  have herror := sendFrames_error hsend (o :: opts) 0
  have hnothing := sendFrames_nothing hsend o opts 0
  rw [List.forall_mem_cons] at herror
  unfold AllOrNothing
  dsimp only
  rw [ne_eq, herror, hnothing]
  constructor
  · intro h hfirst
    by_contra hrest
    exact h.1 (fun hall => hrest hall.2) hfirst
  · intro h
    refine ⟨fun hnot hfirst => hnot ⟨hfirst, h hfirst⟩, fun hall => ?_⟩
    rw [sendFrames_all (herror.mpr hall), hcount]

/-- A message of several frames goes out whole or not at all unless it is cut off. -/
theorem parts_allOrNothing {throwsAt : Nat → Bool} (hsend : ∀ k, throwsAt k = false)
    {m : BinaryMessage} (hm : m.bytes.length ≤ BIN_MESSAGE_MAX_BYTES)
    (hcount : 1 < frameCount m.bytes.length) (id : JsString) :
    AllOrNothing ⟨m, (sendFrames throwsAt 0 ((List.range (frameCount m.bytes.length)).map
        (partOpts m id (frameCount m.bytes.length)))).1, some id,
        (sendFrames throwsAt 0 ((List.range (frameCount m.bytes.length)).map
        (partOpts m id (frameCount m.bytes.length)))).2⟩ ↔
      ¬(11 * BIN_BODY_PER_FRAME ≤ m.bytes.length ∧
        (partOpts m id (frameCount m.bytes.length) 0).frameLen = BIN_FRAME_MAX_BYTES) := by
  have hfit := frames_fit_iff id hm hcount
  obtain ⟨n, hn⟩ := Nat.exists_eq_add_of_le' hcount.le
  generalize partOpts m id (frameCount m.bytes.length) = f at hfit ⊢
  have hlist : (List.range (n + 1)).map f = f 0 :: (List.range n).map fun seq => f (seq + 1) := by
    rw [List.range_succ_eq_map, List.map_cons, List.map_map]
    rfl
  rw [hn] at hfit
  rw [hn, hlist, loop_allOrNothing hsend (by simp [hn])]
  constructor
  · intro h hcut
    refine (hfit hcut.2.le).mp (fun seq hseq => ?_) hcut
    cases seq with
    | zero => exact hcut.2.le
    | succ seq =>
      exact h hcut.2.le _ (List.mem_map_of_mem (List.mem_range.mpr (Nat.lt_of_succ_lt_succ hseq)))
  · intro h hfirst p hp
    obtain ⟨seq, hseq, rfl⟩ := List.mem_map.mp hp
    exact (hfit hfirst).mpr h (seq + 1) (Nat.succ_lt_succ (List.mem_range.mp hseq))

/-- On a channel that takes every frame, a call sends all its frames and resolves, or rejects with
nothing sent, unless it passes the checks and its message is cut off. -/
theorem sendBinary_atomic_iff (sendId : Nat) (call : SendCall)
    (hsend : ∀ k, call.throwsAt k = false) :
    (∀ r ∈ (sendBinary sendId call).2, AllOrNothing r) ↔ ¬CutOff sendId call := by
  by_cases hchecks : PassesChecks call
  · rw [sendBinary_passes hchecks, CutOff, and_iff_right hchecks]
    split
    · next hone =>
      rw [List.forall_mem_singleton, loop_allOrNothing hsend (by rw [hone]; rfl)]
      refine iff_of_true (fun _ p hp => absurd hp List.not_mem_nil) fun hcut => ?_
      have h := hcut.1
      simp only [frameCount, BIN_BODY_PER_FRAME] at hone h
      omega
    · next hone =>
      have hcount : 1 ≤ frameCount call.message.bytes.length := Nat.le_max_left ..
      rw [List.forall_mem_singleton]
      exact parts_allOrNothing hsend hchecks.2.2.1 (by omega) _
  · obtain ⟨e, he⟩ := sendBinary_rejects sendId hchecks
    rw [he, List.forall_mem_singleton]
    exact iff_of_true (by simp [AllOrNothing]) fun hcut => hchecks hcut.1

/-! ## A message that is cut off -/

/-- Eleven full frames, under a type of `k` letters. -/
def elevenFrames (k : Nat) : SendCall where
  message := ⟨js "a", List.replicate k 0x61, List.replicate (11 * BIN_BODY_PER_FRAME) 0⟩
  state := .connected
  channelOpen := true
  now := 0
  throwsAt := fun _ => false

theorem escape_letters (k : Nat) : escape (List.replicate k 0x61) = List.replicate k 0x61 := by
  induction k with
  | zero => rfl
  | succ k ih =>
    cases k with
    | zero => decide
    | succ k =>
      rw [List.replicate_succ, List.replicate_succ, escape, if_neg (by decide),
        ← List.replicate_succ, ih]
      rfl

theorem elevenFrames_count (k : Nat) : frameCount (elevenFrames k).message.bytes.length = 11 := by
  rw [elevenFrames, List.length_replicate]
  decide

theorem elevenFrames_passes (k : Nat) : PassesChecks (elevenFrames k) := by
  refine ⟨rfl, by simp [elevenFrames, js], ?_, rfl⟩
  rw [elevenFrames, List.length_replicate]
  decide

theorem elevenFrames_first (k : Nat) : (partOpts (elevenFrames k).message (messageId 0 1)
    11 0).frameLen = 61518 + k := by
  have hletters : ∀ u ∈ List.replicate k (0x61 : UInt16), u.toNat < 0x80 := by
    intro u hu
    rw [List.eq_of_mem_replicate hu]
    decide
  have hmime : (utf8Encode (escape (elevenFrames k).message.mime)).length = k := by
    rw [elevenFrames, escape_letters, utf8Length_ascii hletters, List.length_replicate]
  have hfull : BIN_BODY_PER_FRAME ≤ (elevenFrames k).message.bytes.length := by
    rw [elevenFrames, List.length_replicate]
    decide
  have haddon : (utf8Encode (escape (elevenFrames k).message.addon)).length = 1 := by
    show (utf8Encode (escape (js "a"))).length = 1
    decide
  have hid : (utf8Encode (escape (messageId 0 1))).length = 5 := by decide
  have htotal : (natText 10 11).length = 2 := by decide
  rw [frameLen_first _ hfull (by decide), frameRest, hmime, haddon, hid, htotal]
  simp only [BIN_BODY_PER_FRAME]
  omega

/-- With a type of the right length the call rejects after ten frames went out. -/
theorem elevenFrames_cutOff : ¬∀ (sendId : Nat) (call : SendCall),
    (∀ k, call.throwsAt k = false) → ∀ r ∈ (sendBinary sendId call).2, AllOrNothing r := by
  intro h
  have hall := h 0 (elevenFrames 4018) fun _ => rfl
  have hcount := elevenFrames_count 4018
  rw [sendBinary_passes (elevenFrames_passes 4018), if_neg (by rw [hcount]; decide),
    List.forall_mem_singleton] at hall
  refine (parts_allOrNothing (fun _ => rfl) (elevenFrames_passes 4018).2.2.1 (by rw [hcount]; decide)
    _).mp hall ⟨?_, ?_⟩
  · rw [elevenFrames, List.length_replicate]
  · rw [hcount]
    exact elevenFrames_first 4018

/-- With a shorter type all eleven go out. -/
theorem elevenFrames_whole :
    PassesChecks (elevenFrames 0) ∧ ∀ r ∈ (sendBinary 0 (elevenFrames 0)).2, AllOrNothing r := by
  refine ⟨elevenFrames_passes 0, ?_⟩
  refine (sendBinary_atomic_iff 0 (elevenFrames 0) fun _ => rfl).mpr fun hcut => ?_
  have hlen := hcut.2.2
  have hfirst := elevenFrames_first 0
  rw [elevenFrames_count] at hlen
  exact absurd (hfirst.symm.trans hlen) (by decide)

end Senn.Core

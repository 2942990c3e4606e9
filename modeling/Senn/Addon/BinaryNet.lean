import Senn.Addon.Crossing
import Senn.Lib.Family
import Senn.Lib.Pipe
import Senn.Session.Channels

/-! # Binary messages of two peers

The hosts of a side hand the binary messages of their pages to one session, which cuts them into
frames for the one binary channel; what the session of the other side joins, all hosts there hear.
Whatever hosts and sessions do, what a page gets is what its own add-on sent, whole and in order,
each message at most once; and each of them, where nothing is dropped on the way. -/

namespace Senn.Addon

open Senn.Js Senn.Lib
open Senn.Core (BinaryMessage Reassembly SendCall SendResult sendAll sendBinary
  sendBinary_sends)
open Senn.Lib.Pipe (Side Seen puts takes)
open Senn.Session (PeerSession)

/-- The hosts and the session of each side, with its counter of message ids, and the frames on the
way to each side. -/
structure BinaryNet (κ : Type*) where
  host : Side × κ → AddonHost
  session : Side → PeerSession
  sendId : Side → Nat
  wire : Side → List Bytes

/-- What `sendBinary` finds: the clock, whether the channel is open, and when it throws. -/
structure BinaryLink where
  now : Nat
  channelOpen : Bool
  throwsAt : Nat → Bool

namespace BinaryNet

inductive Move (κ : Type*) where
  | host (p : Side × κ) (ev : Event) (link : BinaryLink)
  | receive (s : Side) (i now : Nat)        -- the next frame, out of a channel
  | session (s : Side) (ev : Session.Event)
  | cut (s : Side)                          -- what is on the way to `s` is lost

variable {κ : Type*}

/-- `sendBinary` of a side for a message of one of its hosts. -/
def call (net : BinaryNet κ) (s : Side) (link : BinaryLink) (m : BinaryMessage) : SendCall where
  message := m
  state := (net.session s).currentState
  channelOpen := (net.session s).binChannel.isSome && link.channelOpen
  now := link.now
  throwsAt := link.throwsAt

variable [DecidableEq κ] (hosts : List κ)

/-- What a host hands to the session is put on the way once the call has resolved; what is posted
to its page is taken. The hosts hear what a session reports in the order of `hosts`, and hearing it
leaves them as they are. -/
def step (net : BinaryNet κ) : Move κ → BinaryNet κ × List (κ × Seen (JsString × Bytes))
  | .host p ev link =>
    let r := (net.host p).step ev
    let calls := (binaries r.2).map (net.call p.1 link)
    let sent := sendAll (net.sendId p.1) calls
    ({ net with
      host := Function.update net.host p r.1
      sendId := Function.update net.sendId p.1 (Machine.after sendBinary (net.sendId p.1) calls)
      wire := Function.update net.wire p.1.other
        (net.wire p.1.other ++ sent.flatMap SendResult.frames) },
      ((Reassembly.resolvedMessages sent).map fun m => (p.2, .put p.1.other (m.mime, m.bytes))) ++
        (parcels r.2).map fun parcel => (p.2, .taken p.1 parcel))
  | .receive s i now =>
    match net.wire s with
    | [] => (net, [])
    | buf :: rest =>
      let r := (net.session s).step (.binMessage i now (.arrayBuffer buf))
      ({ net with
        session := Function.update net.session s r.1
        wire := Function.update net.wire s rest },
        (Session.binaries r.2).flatMap fun m => hosts.flatMap fun a =>
          (parcels ((net.host (s, a)).step (.sessionBinary m.addon m.mime m.bytes)).2).map
            fun parcel => (a, .taken s parcel))
  | .session s ev =>
    ({ net with session := Function.update net.session s ((net.session s).step ev).1 }, [])
  | .cut s => ({ net with wire := Function.update net.wire s [] }, [])

/-- The moves there are: hosts hear of binary messages from their session only, frames come out of
a binary channel and as array buffers, and the counter of message ids does not wrap. -/
def Fair (net : BinaryNet κ) : Move κ → Prop
  | .host p ev _ => AddonHost.Unpacked ev ∧ net.sendId p.1 + 1 < 0xffffff
  | .receive s i _ => (net.session s).channels[i]?.any (·.kind = .bin) = true
  | .session _ ev => ¬PeerSession.Framed ev
  | .cut _ => True

/-- Nothing of the add-on is dropped in a move. -/
def Clear (a : κ) (net : BinaryNet κ) : Move κ → Prop
  | .host _ _ _ => True
  | .receive s i now => ∀ buf ∈ (net.wire s).head?, ∀ m ∈ Session.binaries ((net.session s).step
      (.binMessage i now (.arrayBuffer buf))).2, m.addon = (net.host (s, a)).manifest.id →
        (net.host (s, a)).hearsBinary = true
  | .session s ev => ((net.session s).step ev).1.reassembly = (net.session s).reassembly
  | .cut s => net.wire s = []

/-! ## What is on the way -/

/-- The message, if the add-on reads it. -/
def parcelFor (id : JsString) (m : BinaryMessage) : Option (JsString × Bytes) :=
  if m.addon = id then some (m.mime, m.bytes) else none

/-- Messages of an add-on are on the way to a side, among others. -/
def Way (id : κ → JsString) (a : κ) (t : Side) (net : BinaryNet κ)
    (parcels : List (JsString × Bytes)) : Prop :=
  (∀ p, (net.host p).manifest.id = id p.2) ∧
    ∃ ms, Reassembly.Coming (net.sendId t.other) (net.session t).reassembly (net.wire t) ms ∧
      parcels = ms.filterMap (parcelFor (id a))

/-- What an add-on puts is what it reads of its own messages, and nothing for the others. -/
theorem of_puts {id : κ → JsString} (hid : id.Injective) (a b : κ) (s : Side)
    {ms : List BinaryMessage} (h : ∀ m ∈ ms, m.addon = id b) :
    Machine.of a (ms.map fun m => (b, Seen.put s (m.mime, m.bytes))) =
      (ms.filterMap (parcelFor (id a))).map (Seen.put s) := by
  induction ms with
  | nil => rfl
  | cons m ms ih =>
    obtain ⟨hm, hms⟩ := List.forall_mem_cons.mp h
    rw [List.map_cons, List.filterMap_cons, parcelFor, hm]
    by_cases hb : b = a
    · subst hb
      rw [Machine.of_cons_self, ih hms, if_pos rfl]
      rfl
    · rw [Machine.of_cons_ne hb, ih hms, if_neg fun heq => hb (hid heq)]

/-- What the hosts of a side make of messages of the session, as one of the add-ons sees it. -/
theorem of_heard {hosts : List κ} {id : κ → JsString} {net : BinaryNet κ} {a : κ}
    (hnodup : hosts.Nodup) (hcomplete : ∀ a, a ∈ hosts) (h : ∀ p, (net.host p).manifest.id = id p.2)
    (s : Side) (ms : List BinaryMessage) :
    Machine.of a (ms.flatMap fun m => hosts.flatMap fun b =>
        (parcels ((net.host (s, b)).step (.sessionBinary m.addon m.mime m.bytes)).2).map
          fun parcel => (b, Seen.taken s parcel)) =
      if (net.host (s, a)).hearsBinary then (ms.filterMap (parcelFor (id a))).map (Seen.taken s)
      else [] := by
  have hone : ∀ m : BinaryMessage, Machine.of a (hosts.flatMap fun b =>
      (parcels ((net.host (s, b)).step (.sessionBinary m.addon m.mime m.bytes)).2).map
        fun parcel => (b, Seen.taken s parcel)) =
      if (net.host (s, a)).hearsBinary then ((parcelFor (id a) m).map (Seen.taken s)).toList
      else [] := by
    intro m
    rw [Machine.of_flatMap, Machine.flatMap_single (hcomplete a) hnodup]
    · rw [AddonHost.sessionBinary_parcels, h, parcelFor]
      by_cases haddon : m.addon = id a <;> cases (net.host (s, a)).hearsBinary <;>
        simp [haddon, Machine.of]
    · intro b _ hb
      have hmap := Machine.of_label_ne hb
        ((parcels ((net.host (s, b)).step (.sessionBinary m.addon m.mime m.bytes)).2).map
          (Seen.taken s))
      rwa [List.map_map] at hmap
  rw [Machine.of_flatMap]
  induction ms with
  | nil => split <;> rfl
  | cons m ms ih =>
    rw [List.flatMap_cons, ih, hone, List.filterMap_cons]
    split
    · cases parcelFor (id a) m <;> rfl
    · rfl

theorem takes_map_taken (s t : Side) (ms : List (JsString × Bytes)) :
    takes t (ms.map (Seen.taken s)) = if s = t then ms else [] := by
  induction ms with
  | nil => simp [takes]
  | cons m ms ih =>
    rw [List.map_cons, Pipe.takes_taken, ih]
    split <;> rfl

theorem puts_map_taken (s t : Side) (ms : List (JsString × Bytes)) :
    puts t (ms.map (Seen.taken s)) = [] := by
  induction ms with
  | nil => rfl
  | cons m ms ih => rw [List.map_cons, Pipe.puts_taken, ih]

/-! ## The moves -/

section
variable {hosts : List κ} {id : κ → JsString} {net : BinaryNet κ} {a : κ} {t : Side}
  {parcels : List (JsString × Bytes)}

/-- What a move takes and leaves on the way is what was there and what it puts, or part of it. -/
def Conserves (hosts : List κ) (id : κ → JsString) (a : κ) (t : Side) (net : BinaryNet κ)
    (move : Move κ) (parcels : List (JsString × Bytes)) : Prop :=
  ∃ parcels', Way id a t (net.step hosts move).1 parcels' ∧
    (takes t (Machine.of a (net.step hosts move).2) ++ parcels').Sublist
      (parcels ++ puts t (Machine.of a (net.step hosts move).2)) ∧
    (net.Clear a move → takes t (Machine.of a (net.step hosts move).2) ++ parcels' =
      parcels ++ puts t (Machine.of a (net.step hosts move).2))

theorem conserves_host (hid : id.Injective) (h : Way id a t net parcels) {p : Side × κ}
    {ev : Event} {link : BinaryLink} (hfair : net.Fair (.host p ev link)) :
    Conserves hosts id a t net (.host p ev link) parcels := by
  obtain ⟨hids, ms, hcoming, rfl⟩ := h
  have hpacks := AddonHost.step_packs (s := net.host p) hfair.1
  have hids' : ∀ q, (Function.update net.host p ((net.host p).step ev).1 q).manifest.id = id q.2 := by
    intro q
    by_cases hq : q = p
    · subst hq
      rw [Function.update_self]
      exact (congrArg (fun terms => AddonManifest.id terms.1) ((net.host q).step_terms ev)).trans
        (hids q)
    · rw [Function.update_of_ne hq]
      exact hids q
  obtain hnone | ⟨m, hone, haddon⟩ := hpacks.sent
  · refine ⟨_, ⟨hids', ms, ?_, rfl⟩, ?_⟩
    · simpa [step, hnone, sendAll] using hcoming
    · simp [step, hnone, hpacks.posted, sendAll, Reassembly.resolvedMessages, takes, puts]
  · obtain ⟨n', r, hsend, hmessage, -⟩ := sendBinary_sends (net.sendId p.1) (net.call p.1 link m)
    have hstep : net.step hosts (.host p ev link) =
        (⟨Function.update net.host p ((net.host p).step ev).1, net.session,
            Function.update net.sendId p.1 n',
            Function.update net.wire p.1.other (net.wire p.1.other ++ r.frames)⟩,
          r.delivered.map fun m => (p.2, Seen.put p.1.other (m.mime, m.bytes))) := by
      simp [step, hone, hpacks.posted, sendAll, hsend, Reassembly.resolvedMessages]
    have hdelivered : ∀ m' ∈ r.delivered, m'.addon = id p.2 := by
      intro m' hm'
      unfold SendResult.delivered at hm'
      split at hm'
      · rw [List.mem_singleton.mp hm', hmessage]
        exact haddon.trans (hids p)
      · cases hm'
    rw [Conserves, hstep, of_puts hid a p.2 p.1.other hdelivered, Pipe.takes_map_put,
      Pipe.puts_map_put]
    simp only [List.nil_append]
    by_cases ht : p.1.other = t
    · subst ht
      obtain ⟨n'', r', hsend', -, hsent⟩ :=
        hcoming.send (by rw [Side.other_other]; exact hfair.2) (net.call p.1 link m)
      rw [Side.other_other, hsend] at hsend'
      obtain ⟨rfl, hr⟩ := Prod.mk.inj hsend'
      rw [← (List.cons.inj hr).1] at hsent
      refine ⟨_, ⟨hids', ms ++ r.delivered, ?_, rfl⟩, ?_⟩
      · simp only [Side.other_other, Function.update_self]
        exact hsent
      · rw [if_pos rfl, List.filterMap_append]
        exact ⟨.refl _, fun _ => rfl⟩
    · have htp : t = p.1 := by
        obtain h | h := Side.eq_or_other p.1 t
        · exact h
        · exact absurd h.symm ht
      subst htp
      refine ⟨_, ⟨hids', ms, ?_, rfl⟩, ?_⟩
      · simp only [Function.update_of_ne (Side.other_ne _), Function.update_of_ne (Side.ne_other _)]
        exact hcoming
      · rw [if_neg ht, List.append_nil]
        exact ⟨.refl _, fun _ => rfl⟩

theorem conserves_receive (hnodup : hosts.Nodup) (hcomplete : ∀ a, a ∈ hosts)
    (h : Way id a t net parcels) {s : Side} {i now : Nat} (hfair : net.Fair (.receive s i now)) :
    Conserves hosts id a t net (.receive s i now) parcels := by
  obtain ⟨hids, ms, hcoming, rfl⟩ := h
  cases hwire : net.wire s with
  | nil =>
    have hstep : net.step hosts (.receive s i now) = (net, []) := by simp only [step, hwire]
    rw [Conserves, hstep]
    refine ⟨_, ⟨hids, ms, hcoming, rfl⟩, ?_⟩
    simp [takes, puts]
  | cons buf rest =>
    obtain ⟨hstate, hheard⟩ := (net.session s).step_frame i now buf
    have hchannel : (net.session s).channels[i]?.any (·.kind = .bin) = true := hfair
    rw [if_pos hchannel] at hstate hheard
    have hstep : net.step hosts (.receive s i now) = ({ net with
        session := Function.update net.session s
          ((net.session s).step (.binMessage i now (.arrayBuffer buf))).1
        wire := Function.update net.wire s rest },
        (Session.binaries ((net.session s).step (.binMessage i now (.arrayBuffer buf))).2).flatMap
          fun m => hosts.flatMap fun a =>
            (Addon.parcels ((net.host (s, a)).step (.sessionBinary m.addon m.mime m.bytes)).2).map
              fun parcel => (a, .taken s parcel)) := by
      simp only [step, hwire]
    have hclear : net.Clear a (.receive s i now) → ∀ m ∈ Session.binaries ((net.session s).step
        (.binMessage i now (.arrayBuffer buf))).2, m.addon = id a →
          (net.host (s, a)).hearsBinary = true := fun hc m hm hma =>
      hc buf (by rw [hwire]; rfl) m hm (hma.trans (hids (s, a)).symm)
    rw [Conserves, hstep, of_heard hnodup hcomplete hids, hheard]
    rw [hheard] at hclear
    by_cases hs : s = t
    · subst hs
      rw [hwire] at hcoming
      obtain ⟨ms', rfl, htaken⟩ := hcoming.takes now
      refine ⟨ms'.filterMap (parcelFor (id a)), ⟨hids, ms', ?_, rfl⟩, ?_⟩
      · simp only [Function.update_self, hstate]
        exact htaken
      · rw [List.filterMap_append]
        cases hhears : (net.host (s, a)).hearsBinary with
        | true =>
          rw [if_pos rfl, takes_map_taken, puts_map_taken, if_pos rfl, List.append_nil]
          exact ⟨.refl _, fun _ => rfl⟩
        | false =>
          refine ⟨?_, fun hc => ?_⟩
          · simp [takes, puts]
          · have hnone : ((Reassembly.step (net.session s).reassembly (.frame now buf)).2.filterMap
                Reassembly.BinEvent.binary?).filterMap (parcelFor (id a)) = [] := by
              refine List.filterMap_eq_nil_iff.mpr fun m hm => if_neg fun hma => ?_
              have hheard' := hclear hc m hm hma
              rw [hhears] at hheard'
              cases hheard'
            simp [takes, puts, hnone]
    · refine ⟨_, ⟨hids, ms, ?_, rfl⟩, ?_⟩
      · simp only [Function.update_of_ne (Ne.symm hs)]
        exact hcoming
      · split
        · rw [takes_map_taken, puts_map_taken, if_neg hs, List.append_nil]
          exact ⟨.refl _, fun _ => rfl⟩
        · simp [takes, puts]

theorem conserves_session (h : Way id a t net parcels) {s : Side} {ev : Session.Event}
    (hfair : net.Fair (.session s ev)) : Conserves hosts id a t net (.session s ev) parcels := by
  obtain ⟨hids, ms, hcoming, rfl⟩ := h
  by_cases hs : t = s
  · subst hs
    by_cases hsame : ((net.session t).step ev).1.reassembly = (net.session t).reassembly
    · refine ⟨_, ⟨hids, ms, ?_, rfl⟩, ?_⟩
      · simp only [step, Function.update_self, hsame]
        exact hcoming
      · simp [step, takes, puts]
    · obtain ⟨ms', hsub, hcoming'⟩ :=
        hcoming.shrinks ((net.session t).step_unframed hfair hcoming.accounted).2
      refine ⟨_, ⟨hids, ms', ?_, rfl⟩, ?_, fun hc => absurd hc hsame⟩
      · simp only [step, Function.update_self]
        exact hcoming'
      · simpa [step, takes, puts] using hsub.filterMap _
  · refine ⟨_, ⟨hids, ms, ?_, rfl⟩, ?_⟩
    · simp only [step, Function.update_of_ne hs]
      exact hcoming
    · simp [step, takes, puts]

theorem conserves_cut (h : Way id a t net parcels) (s : Side) :
    Conserves hosts id a t net (.cut s) parcels := by
  obtain ⟨hids, ms, hcoming, rfl⟩ := h
  by_cases hs : t = s
  · subst hs
    by_cases hwire : net.wire t = []
    · refine ⟨_, ⟨hids, ms, ?_, rfl⟩, ?_⟩
      · simp only [step, Function.update_self]
        rwa [hwire] at hcoming
      · simp [step, takes, puts]
    · refine ⟨[], ⟨hids, [], ?_, rfl⟩, ?_, fun hc => absurd hc hwire⟩
      · simp only [step, Function.update_self]
        exact hcoming.cut
      · simp [step, takes, puts]
  · refine ⟨_, ⟨hids, ms, ?_, rfl⟩, ?_⟩
    · simp only [step, Function.update_of_ne hs]
      exact hcoming
    · simp [step, takes, puts]

theorem step_conserves (hid : id.Injective) (hnodup : hosts.Nodup) (hcomplete : ∀ a, a ∈ hosts)
    (h : Way id a t net parcels) {move : Move κ} (hfair : net.Fair move) :
    Conserves hosts id a t net move parcels := by
  cases move with
  | host p ev link => exact conserves_host hid h hfair
  | receive s i now => exact conserves_receive hnodup hcomplete h hfair
  | session s ev => exact conserves_session h hfair
  | cut s => exact conserves_cut h s

end

/-! ## Runs -/

/-- What the pages of an add-on send and get in a run. -/
def seen (hosts : List κ) (a : κ) (net : BinaryNet κ) (moves : List (Move κ)) :
    List (Seen (JsString × Bytes)) := Machine.of a (Machine.outputs (step hosts) net moves)

/-- Nothing was sent yet. -/
structure Unused (id : κ → JsString) (net : BinaryNet κ) : Prop where
  ids : ∀ p, (net.host p).manifest.id = id p.2
  reassembly : ∀ s, (net.session s).reassembly = .init
  sendId : ∀ s, net.sendId s = 0
  wire : ∀ s, net.wire s = []

/-- The pages of an add-on get what the add-on sends on the other side, each message whole, in
order and at most once; and all of them, where nothing was dropped and no frame is on the way. -/
structure Carried (hosts : List κ) (a : κ) (net : BinaryNet κ) (moves : List (Move κ)) : Prop where
  order : ∀ t, (takes t (seen hosts a net moves)).Sublist (puts t (seen hosts a net moves))
  exact : Machine.Guarded (step hosts) (Clear a) net moves → ∀ t,
    (Machine.after (step hosts) net moves).wire t = [] →
      takes t (seen hosts a net moves) = puts t (seen hosts a net moves)

theorem binary_carried {hosts : List κ} (hnodup : hosts.Nodup) (hcomplete : ∀ a, a ∈ hosts)
    {id : κ → JsString} (hid : id.Injective) {net : BinaryNet κ} (h : net.Unused id)
    {moves : List (Move κ)} (hfair : Machine.Guarded (step hosts) Fair net moves) (a : κ) :
    Carried hosts a net moves := by
  have hway : ∀ t, Way id a t net [] := fun t =>
    ⟨h.ids, [], by rw [h.sendId, h.reassembly, h.wire]; exact Reassembly.coming_nothing, rfl⟩
  have hconserved := fun t => Pipe.conserved (g := Machine.of a)
    (W := fun net ms => Way id a t net ms) (A := Fair) (C := Clear a) rfl (Machine.of_append a) t
    (fun net move ms hfair hway => step_conserves hid hnodup hcomplete hway hfair)
    moves net [] hfair (hway t)
  refine ⟨fun t => ?_, fun hclear t hwire => ?_⟩
  · obtain ⟨ms, -, hsub, -⟩ := hconserved t
    exact (List.sublist_append_left _ _).trans hsub
  · obtain ⟨ms, ⟨-, all, hcoming, rfl⟩, -, hexact⟩ := hconserved t
    rw [hwire] at hcoming
    have hall := hexact hclear
    rwa [hcoming.nothing, List.filterMap_nil, List.append_nil, List.nil_append] at hall

/-! ## Two vaults -/

def vaultManifest : AddonManifest where
  id := js "dev.senn.local-vault"
  name := js "Local Vault"
  version := js "0.1.0"
  entry := js "index.html"
  license := js "Apache-2.0"
  permissions := [STORAGE_LOCAL_READ, STORAGE_LOCAL_WRITE, js "file.read.user_selected",
    js "file.write.user_approved", PEER_SEND_BIN, PEER_RECEIVE_BIN, js "ui.panel"]
  capabilities := [.str (js "local-vault-v1")]

/-- A message of the page. -/
def vaultPost (op : JsString) (ms : List (JsString × Data)) : Event :=
  .message (some 1) (.obj ([(js "kind", .str ADDON_BRIDGE_KIND), (js "op", .str op)] ++ ms)) 0

/-- The vault is loaded on both sides of a session. -/
def vaults : BinaryNet Unit where
  host := fun _ => .loaded vaultManifest ⟨some ⟨false⟩, true, none, none⟩ (js "s") (some 1)
  session := fun _ => { PeerSession.new .inviter (js "p") none with
    currentState := .connected
    channels := [⟨.text, false⟩, ⟨.bin, false⟩]
    channel := some 0
    binChannel := some 1 }
  sendId := fun _ => 0
  wire := fun _ => []

/-- A page gets ready, the other one sends three bytes, and they come in. -/
def vaultRun : List (Move Unit) :=
  [.host (.right, ()) (vaultPost (js "ready") []) ⟨0, true, fun _ => false⟩,
    .host (.left, ()) (vaultPost (js "send-bin") [(js "mime", .str (js "text/plain")),
      (js "bytes", .bytes [1, 2, 3])]) ⟨0, true, fun _ => false⟩,
    .session .right (.gcTick 3), .receive .right 1 5]

theorem binary_carried_vaults : Carried [()] () vaults vaultRun := by
  have hfair : Machine.Guarded (step [()]) Fair vaults vaultRun := by
    refine ⟨⟨trivial, ?_⟩, ⟨trivial, ?_⟩, not_false, ?_, trivial⟩
    · decide
    · decide +kernel
    · rfl
  have hid : Function.Injective fun _ : Unit => vaultManifest.id := fun _ _ _ => rfl
  exact binary_carried (by simp) (by simp) hid
    ⟨fun _ => rfl, fun _ => rfl, fun _ => rfl, fun _ => rfl⟩ hfair ()

end BinaryNet

end Senn.Addon

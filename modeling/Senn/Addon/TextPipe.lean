import Senn.Addon.TextNet

/-! # A pipe for each add-on

What the two pages of an add-on see of each other is what the ends of a pipe see, whatever the
other add-ons, the chat, the hosts and the sessions do: payloads come in the order they were sent,
each at most once and to the same add-on only; and each of them, where hosts and sessions are up. -/

namespace Senn.Addon.Net

open Senn.Js Senn.Lib Senn.Lib.Pipe Senn.Protocol
open Senn.Session (PeerSession)

variable {κ : Type*} {σ ι : κ → Type*} {setup : Setup κ σ ι} {net : Net κ σ} {a : κ}

/-- What a page goes on at when nothing is delivered. -/
abbrev Own (ι : Type*) := { input : PageInput ι // input.payload? = none }

/-- What a page goes on at as the end of a pipe. -/
def pageInput (setup : Setup κ σ ι) (a : κ) : Input (Own (ι a)) Data → PageInput (ι a)
  | .own input => input.1
  | .message payload => .posted (.deliver payload (some (setup.id a)))

/-- The program of a page as the end of a pipe. -/
def program (setup : Setup κ σ ι) (a : κ) (s : σ a) (input : Input (Own (ι a)) Data) :
    σ a × List Data :=
  let r := (setup.page a).go s (pageInput setup a input)
  (r.1, r.2.filterMap sent?)

/-- The payloads of an add-on on the way to a side. -/
def way (setup : Setup κ σ ι) (net : Net κ σ) (a : κ) (t : Side) : List Data :=
  (net.toPage (t, a)).filterMap BridgePost.payload? ++
    ((net.channel t).filterMap (readBy (setup.id a)) ++
      (net.toHost (t.other, a)).filterMap sent?)

/-- The pages of an add-on and what is on the way between them. -/
def pipe (setup : Setup κ σ ι) (net : Net κ σ) (a : κ) : Pipe.World (σ a) Data :=
  ⟨fun t => net.page (t, a), way setup net a⟩

/-- Nothing of the add-on gets lost in a move. -/
def Clear (setup : Setup κ σ ι) (a : κ) (net : Net κ σ) : Move κ ι → Prop
  | .window p now link => p.2 = a → ∀ msg ∈ (net.toHost p).head?, (sent? msg).isSome = true →
      (net.host p).currentState ≠ .closed ∧ (net.host p).grants PEER_SEND = true ∧
      (net.host p).options.session.isSome = true ∧
      ∀ text ∈ texts ((net.host p).step (.message (some (setup.window p)) msg now)).2,
        ((net.session p.1).sendText ⟨text, link.channelOpen, link.thrown⟩).isOk = true
  | .receive s i => ∀ text ∈ (net.channel s).head?, (readBy (setup.id a) text).isSome = true →
      ((net.session s).channels[i]?.any (·.kind = .text)) = true ∧
        (net.host (s, a)).hears = true
  | .cut s => (net.channel s).filterMap (readBy (setup.id a)) = []
  | _ => True

/-! ## Moves of the pipe -/

/-- The pipe of the add-on goes on from one net to another by moves that show what is seen, have
the inputs that the net's moves give the pages, and lose nothing where all is clear. -/
def Refines (setup : Setup κ σ ι) (a : κ) (net net' : Net κ σ) (given : List (Move κ ι))
    (seen : List (Seen Data)) (clear : Prop) : Prop :=
  ∃ moves : List (Pipe.Move (Own (ι a))),
    Machine.after (Pipe.step (program setup a)) (net.pipe setup a) moves = net'.pipe setup a ∧
      Machine.outputs (Pipe.step (program setup a)) (net.pipe setup a) moves = seen ∧
      (∀ s i h, .act s ⟨.own i, h⟩ ∈ moves → .act (s, a) i ∈ given) ∧
      (clear → ∀ move ∈ moves, move.safe = true)

theorem Refines.same {net' : Net κ σ} (given : List (Move κ ι)) (clear : Prop)
    (h : net'.pipe setup a = net.pipe setup a) : Refines setup a net net' given [] clear :=
  ⟨[], h.symm, rfl, by simp, by simp⟩

theorem Refines.one {net' : Net κ σ} {given : List (Move κ ι)} {seen : List (Seen Data)}
    (clear : Prop) (move : Pipe.Move (Own (ι a))) (hsafe : move.safe = true)
    (hgiven : ∀ s i h, move = .act s ⟨.own i, h⟩ → .act (s, a) i ∈ given)
    (h : Pipe.step (program setup a) (net.pipe setup a) move = (net'.pipe setup a, seen)) :
    Refines setup a net net' given seen clear := by
  refine ⟨[move], ?_, ?_, fun s i hi hmem => ?_, fun _ => by simpa using hsafe⟩
  · rw [Machine.after_cons, h, Machine.after_nil]
  · rw [Machine.outputs_cons, h, Machine.outputs_nil, List.append_nil]
  · exact hgiven s i hi (List.mem_singleton.mp hmem).symm

theorem Refines.lost {net' : Net κ σ} (given : List (Move κ ι)) {clear : Prop} (t : Side)
    {before lost after : List Data} (hway : net.way setup a t = before ++ (lost ++ after))
    (h : net'.pipe setup a = (net.pipe setup a).withQueue t (before ++ after))
    (hclear : clear → lost = []) : Refines setup a net net' given [] clear := by
  obtain ⟨hafter, houts⟩ :=
    lose_stretch (program setup a) before after t lost (net.pipe setup a) hway
  refine ⟨_, hafter.trans h.symm, houts, fun s i hi hmem => ?_, fun hc => ?_⟩
  · cases List.eq_of_mem_replicate hmem
  · rw [hclear hc]
    simp

theorem Refines.then {net' net'' : Net κ σ} {given given' : List (Move κ ι)}
    {seen seen' : List (Seen Data)} {clear clear' : Prop}
    (h : Refines setup a net net' given seen clear)
    (h' : Refines setup a net' net'' given' seen' clear') :
    Refines setup a net net'' (given ++ given') (seen ++ seen') (clear ∧ clear') := by
  obtain ⟨moves, hafter, houts, hgiven, hsafe⟩ := h
  obtain ⟨moves', hafter', houts', hgiven', hsafe'⟩ := h'
  refine ⟨moves ++ moves', ?_, ?_, fun s i hi hmem => ?_, ?_⟩
  · rw [Machine.after_append, hafter, hafter']
  · rw [Machine.outputs_append, hafter, houts, houts']
  · obtain hmem | hmem := List.mem_append.mp hmem
    · exact List.mem_append_left _ (hgiven s i hi hmem)
    · exact List.mem_append_right _ (hgiven' s i hi hmem)
  · rintro ⟨hclear, hclear'⟩
    exact List.forall_mem_append.mpr ⟨hsafe hclear, hsafe' hclear'⟩

variable [DecidableEq κ]

/-- What the pages of an add-on put and take in a run. -/
def seen (setup : Setup κ σ ι) (a : κ) (net : Net κ σ) (moves : List (Move κ ι)) :
    List (Seen Data) := Machine.of a (Machine.outputs (step setup) net moves)

/-- `parent.postMessage({ kind, op: "send", payload }, "*")` -/
def sendPost (payload : Data) : Data :=
  .obj [(js "kind", .str ADDON_BRIDGE_KIND), (js "op", .str (js "send")), (js "payload", payload)]

theorem get_sendPost (payload : Data) : (sendPost payload).get (js "payload") = payload := by
  simp [sendPost, Data.get, ownProperty, js]

theorem sent_sendPost (payload : Data) : sent? (sendPost payload) = payload.wire := by
  have hop : AddonHost.bridgeOp (sendPost payload) = some .send := by
    simp [sendPost, AddonHost.bridgeOp, Data.isObject, Data.get, ownProperty, Data.str?, js,
      ADDON_BRIDGE_KIND, BridgeOp.ofText, BridgeOp.all, BridgeOp.text]
  rw [sent?, if_pos hop, get_sendPost]

/-- A session with its text channel. -/
def connected : PeerSession :=
  { PeerSession.new .inviter (js "p") none with
    currentState := .connected
    channels := [⟨.text, false⟩]
    channel := some 0 }

end Senn.Addon.Net

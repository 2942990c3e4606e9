import Senn.Pages.Common

/-! # The avatar-presence add-on

Its page sends what its user is and reacts with, states no oftener than a throttle lets it. When
all has come and no state is held back, each page shows the other side's user as that side does. -/

namespace Senn.Pages

open Senn.Js Senn.Lib Senn.Addon Senn.Addon.Net
open Senn.Lib.Pipe (Side Seen puts takes)

def STATE_THROTTLE_MS : ℚ := 200

structure Me where
  speaking : Bool
  emotion : JsString
deriving DecidableEq

/-- What the page shows of somebody. -/
structure Card where
  speakingText : JsString
  emotionText : JsString
  reactionText : JsString

/-- The page, with its timers that have not gone off. -/
structure AvatarPresence where
  stateText : JsString
  initialized : Bool
  lastSent : ℚ
  pendingState : Option Me
  me : Me
  mine : Card
  peer : Card
  flushTimers : Nat
  myReactionTimers : List JsString
  peerReactionTimers : List JsString

/-- `now` is `performance.now()`. -/
inductive PresenceInput where
  | run
  | toggleSpeaking (now : ℚ)
  | selectEmotion (value : JsString) (now : ℚ)
  | react (emoji : Option JsString)
  | flushTimer (now : ℚ)
  | myReactionTimer
  | peerReactionTimer

namespace AvatarPresence

/-- The page as its document has it. -/
def new : AvatarPresence where
  stateText := js "booting"
  initialized := false
  lastSent := 0
  pendingState := none
  me := ⟨false, js "neutral"⟩
  mine := ⟨js "no", js "neutral", []⟩
  peer := ⟨js "no", js "neutral", []⟩
  flushTimers := 0
  myReactionTimers := []
  peerReactionTimers := []

def speakingText (speaking : Bool) : JsString := if speaking then js "yes" else js "no"

def stateMessage (me : Me) : Data :=
  .obj [(js "type", .str (js "state")),
    (js "state", .obj [(js "speaking", .bool me.speaking), (js "emotion", .str me.emotion)])]

def reactionMessage (emoji : JsString) : Data :=
  .obj [(js "type", .str (js "reaction")), (js "emoji", .str emoji)]

def applyMe (s : AvatarPresence) : AvatarPresence :=
  { s with mine := { s.mine with
      speakingText := speakingText s.me.speaking
      emotionText := s.me.emotion } }

def applyPeer (card : Card) (state : Data) : Card :=
  let card := match state.get (js "speaking") with
    | .bool speaking => { card with speakingText := speakingText speaking }
    | _ => card
  match state.get (js "emotion") with
  | .str emotion => { card with emotionText := emotion }
  | _ => card

def flushState (s : AvatarPresence) (now : ℚ) : AvatarPresence × List Data :=
  match s.pendingState with
  | none => (s, [])
  | some payload =>
    ({ s with pendingState := none, lastSent := now }, [sendPost (stateMessage payload)])

def emitStateChange (s : AvatarPresence) (now : ℚ) : AvatarPresence × List Data :=
  let s := { s.applyMe with pendingState := some s.me }
  let wait := max 0 (STATE_THROTTLE_MS - (now - s.lastSent))
  if wait = 0 then s.flushState now else ({ s with flushTimers := s.flushTimers + 1 }, [])

/-- The card after a payload, and the reaction whose timer it starts. -/
def onDeliver (card : Card) (payload : Data) : Card × Option JsString :=
  if !payload.isObject then (card, none)
  else if (payload.get (js "type")).isText (js "state") && (payload.get (js "state")).truthy then
    (applyPeer card (payload.get (js "state")), none)
  else if (payload.get (js "type")).isText (js "reaction") then
    match payload.get (js "emoji") with
    | .str emoji => ({ card with reactionText := emoji }, some emoji)
    | _ => (card, none)
  else (card, none)

/-- The timer of a reaction: it takes the reaction off, unless another one stands there. -/
def endReaction (card : Card) (emoji : JsString) : Card :=
  if card.reactionText = emoji then { card with reactionText := [] } else card

def go (s : AvatarPresence) : PageInput PresenceInput → AvatarPresence × List Data
  | .own .run => ({ s with stateText := js "ready" }.applyMe, [readyPost])
  | .own (.toggleSpeaking now) =>
    if !s.initialized then (s, [])
    else emitStateChange { s with me := { s.me with speaking := !s.me.speaking } } now
  | .own (.selectEmotion value now) =>
    if !s.initialized then (s, [])
    else emitStateChange { s with me := { s.me with emotion := value } } now
  | .own (.react emoji) =>
    if !s.initialized then (s, [])
    else
      match emoji with
      | none | some [] => (s, [])
      | some emoji =>
        ({ s with
          mine := { s.mine with reactionText := emoji }
          myReactionTimers := s.myReactionTimers ++ [emoji] }, [sendPost (reactionMessage emoji)])
  | .own (.flushTimer now) =>
    if s.flushTimers = 0 then (s, [])
    else { s with flushTimers := s.flushTimers - 1 }.flushState now
  | .own .myReactionTimer =>
    match s.myReactionTimers with
    | [] => (s, [])
    | emoji :: rest => ({ s with mine := endReaction s.mine emoji, myReactionTimers := rest }, [])
  | .own .peerReactionTimer =>
    match s.peerReactionTimers with
    | [] => (s, [])
    | emoji :: rest => ({ s with peer := endReaction s.peer emoji, peerReactionTimers := rest }, [])
  | .posted (.init addonId version _) =>
    ({ s with
      stateText := js "init (" ++ addonId ++ js " v" ++ version ++ js ")"
      initialized := true }, [])
  | .posted (.deliver payload _) =>
    let r := onDeliver s.peer payload
    ({ s with
      peer := r.1
      peerReactionTimers := s.peerReactionTimers ++ r.2.toList }, [])
  | .posted _ => (s, [])

theorem written_stateMessage (me : Me) : (stateMessage me).Written :=
  ⟨by simp [js], trivial, ⟨by simp [js], trivial, trivial, trivial⟩, trivial⟩

theorem written_reactionMessage (emoji : JsString) : (reactionMessage emoji).Written :=
  ⟨by simp [js], trivial, trivial, trivial⟩

/-- What a page posts at an input. -/
inductive Posting : List Data → Prop
  | nothing : Posting []
  | ready : Posting [readyPost]
  | state (me : Me) : Posting [sendPost (stateMessage me)]
  | reaction (emoji : JsString) : Posting [sendPost (reactionMessage emoji)]

theorem flushState_posting (s : AvatarPresence) (now : ℚ) : Posting (s.flushState now).2 := by
  unfold flushState
  split
  · exact .nothing
  · exact .state _

theorem emitStateChange_posting (s : AvatarPresence) (now : ℚ) :
    Posting (s.emitStateChange now).2 := by
  unfold emitStateChange
  dsimp only
  split
  · exact flushState_posting ..
  · exact .nothing

theorem go_posting (s : AvatarPresence) (input : PageInput PresenceInput) :
    Posting (s.go input).2 := by
  cases input with
  | own i =>
    cases i with
    | run => exact .ready
    | toggleSpeaking now =>
      simp only [go]
      split
      · exact .nothing
      · exact emitStateChange_posting ..
    | selectEmotion value now =>
      simp only [go]
      split
      · exact .nothing
      · exact emitStateChange_posting ..
    | react emoji =>
      simp only [go]
      split
      · exact .nothing
      split
      · exact .nothing
      · exact .nothing
      · exact .reaction _
    | flushTimer now =>
      simp only [go]
      split
      · exact .nothing
      · exact flushState_posting ..
    | myReactionTimer =>
      simp only [go]
      split <;> exact .nothing
    | peerReactionTimer =>
      simp only [go]
      split <;> exact .nothing
  | posted m => cases m <;> exact .nothing

/-- The page of the add-on. -/
def page : Page AvatarPresence PresenceInput where
  go := go
  written := by
    intro s input _ msg hmsg
    have hposting := go_posting s input
    generalize (go s input).2 = out at hmsg hposting
    cases hposting with
    | nothing => cases hmsg
    | ready => exact List.mem_singleton.mp hmsg ▸ written_readyPost
    | state me => exact List.mem_singleton.mp hmsg ▸ written_sendPost (written_stateMessage me)
    | reaction emoji =>
      exact List.mem_singleton.mp hmsg ▸ written_sendPost (written_reactionMessage emoji)

/-! ## What the other side makes of it -/

def cardTexts (card : Card) : JsString × JsString := (card.speakingText, card.emotionText)

def meTexts (me : Me) : JsString × JsString := (speakingText me.speaking, me.emotion)

/-- The texts of a card after a payload. -/
def shown (texts : JsString × JsString) (payload : Data) : JsString × JsString :=
  cardTexts (onDeliver ⟨texts.1, texts.2, []⟩ payload).1

theorem shown_stateMessage (texts : JsString × JsString) (me : Me) :
    shown texts (stateMessage me) = meTexts me := by
  simp [shown, onDeliver, stateMessage, Data.isObject, Data.get, ownProperty, Data.isText, Data.truthy,
    js, applyPeer, cardTexts, meTexts]

theorem shown_reactionMessage (texts : JsString × JsString) (emoji : JsString) :
    shown texts (reactionMessage emoji) = texts := by
  simp [shown, onDeliver, reactionMessage, Data.isObject, Data.get, ownProperty, Data.isText, js,
    cardTexts]

theorem wire_stateMessage (me : Me) : (stateMessage me).wire = some (stateMessage me) :=
  Data.Parsed.wire ⟨.obj [(js "type", .str (js "state")),
    (js "state", .obj [(js "speaking", .bool me.speaking), (js "emotion", .str me.emotion)])],
    ⟨by simp [js], trivial, ⟨by simp [js], trivial, trivial, trivial⟩, trivial⟩, rfl⟩

theorem wire_reactionMessage (emoji : JsString) :
    (reactionMessage emoji).wire = some (reactionMessage emoji) :=
  Data.Parsed.wire ⟨.obj [(js "type", .str (js "reaction")), (js "emoji", .str emoji)],
    ⟨by simp [js], trivial, trivial, trivial⟩, rfl⟩

/-- A page and what it has sent: it shows its user to who takes all of it, unless it holds the
state back, and then a timer will send it. -/
structure Announced (s : AvatarPresence) (sent : List Data) : Prop where
  pending : ∀ me ∈ s.pendingState, me = s.me
  timed : s.pendingState ≠ none → 0 < s.flushTimers
  told : s.pendingState = none → sent.foldl shown (cardTexts new.peer) = meTexts s.me

/-- What the other end gets of what is posted. -/
def sentOf (out : List Data) : List Data := out.filterMap sent?

theorem sentOf_state (me : Me) : sentOf [sendPost (stateMessage me)] = [stateMessage me] := by
  simp [sentOf, sent_sendPost, wire_stateMessage]

theorem Announced.flushed {s : AvatarPresence} {sent : List Data} (now : ℚ)
    (hpending : ∀ me ∈ s.pendingState, me = s.me)
    (htold : s.pendingState = none → sent.foldl shown (cardTexts new.peer) = meTexts s.me) :
    Announced (s.flushState now).1 (sent ++ sentOf (s.flushState now).2) := by
  unfold flushState
  cases hs : s.pendingState with
  | none =>
    refine ⟨fun me hme => hpending me hme, fun hne => absurd hs hne, fun _ => ?_⟩
    simpa [sentOf] using htold hs
  | some me =>
    refine ⟨fun me hme => (by cases hme), fun hne => absurd rfl hne, fun _ => ?_⟩
    rw [sentOf_state, List.foldl_append, List.foldl_cons, List.foldl_nil, shown_stateMessage,
      hpending me hs]

theorem Announced.changed (s : AvatarPresence) (sent : List Data) (now : ℚ) :
    Announced (s.emitStateChange now).1 (sent ++ sentOf (s.emitStateChange now).2) := by
  unfold emitStateChange
  dsimp only
  split
  · refine Announced.flushed now (fun me hme => ?_) fun hnone => by cases hnone
    cases hme
    rfl
  · refine ⟨fun me hme => ?_, fun _ => Nat.succ_pos _, fun hnone => by cases hnone⟩
    cases hme
    rfl

/-- A page that keeps its user and what it holds back, and sends no state. -/
theorem Announced.kept {s s' : AvatarPresence} {sent out : List Data} (h : Announced s sent)
    (hme : s'.me = s.me) (hpending : s'.pendingState = s.pendingState)
    (htimers : s'.flushTimers = s.flushTimers)
    (hout : ∀ texts, (sentOf out).foldl shown texts = texts) : Announced s' (sent ++ sentOf out) := by
  refine ⟨?_, ?_, ?_⟩
  · rw [hpending, hme]
    exact h.pending
  · rw [hpending, htimers]
    exact h.timed
  · rw [hpending, hme, List.foldl_append, hout]
    exact h.told

theorem Announced.go {s : AvatarPresence} {sent : List Data} (h : Announced s sent)
    (input : PageInput PresenceInput) :
    Announced (s.go input).1 (sent ++ sentOf (s.go input).2) := by
  cases input with
  | own i =>
    cases i with
    | run => exact h.kept rfl rfl rfl fun texts => by simp [sentOf, AvatarPresence.go, sent_readyPost]
    | toggleSpeaking now =>
      simp only [AvatarPresence.go]
      split
      · exact h.kept rfl rfl rfl fun _ => rfl
      · exact .changed ..
    | selectEmotion value now =>
      simp only [AvatarPresence.go]
      split
      · exact h.kept rfl rfl rfl fun _ => rfl
      · exact .changed ..
    | react emoji =>
      simp only [AvatarPresence.go]
      split
      · exact h.kept rfl rfl rfl fun _ => rfl
      split
      · exact h.kept rfl rfl rfl fun _ => rfl
      · exact h.kept rfl rfl rfl fun _ => rfl
      · refine h.kept rfl rfl rfl fun texts => ?_
        simp [sentOf, sent_sendPost, wire_reactionMessage, shown_reactionMessage]
    | flushTimer now =>
      simp only [AvatarPresence.go]
      split
      · exact h.kept rfl rfl rfl fun _ => rfl
      · exact .flushed now h.pending h.told
    | myReactionTimer =>
      simp only [AvatarPresence.go]
      split <;> exact h.kept rfl rfl rfl fun _ => rfl
    | peerReactionTimer =>
      simp only [AvatarPresence.go]
      split <;> exact h.kept rfl rfl rfl fun _ => rfl
  | posted m => cases m <;> exact h.kept rfl rfl rfl fun _ => rfl

variable {κ : Type} {σ ι : κ → Type}
  {setup : Setup (Option κ) (With AvatarPresence σ) (With PresenceInput ι)}

variable [DecidableEq κ]

def manifest : AddonManifest where
  id := js "dev.senn.avatar-presence"
  name := js "Avatar Presence"
  version := js "0.1.0"
  entry := js "index.html"
  license := js "Apache-2.0"
  permissions := [PEER_SEND, PEER_RECEIVE, js "ui.overlay"]
  capabilities := [.str (js "avatar-presence-v1")]

end AvatarPresence

end Senn.Pages

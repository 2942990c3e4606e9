import Senn.Addon.Sdk
import Senn.Pages.Common

/-! # The whiteboard add-on

Its page sends the strokes that are drawn on it and keeps those that it gets. As long as no board
is wiped or loaded and nothing gets lost, both pages come to have the same strokes, each counted
as an own one on one side and as the peer's on the other. -/

namespace Senn.Pages

open Senn.Js Senn.Lib Senn.Addon Senn.Addon.Net
open Senn.Lib.Pipe (Side Seen puts takes)

def SNAPSHOT_KEY : JsString := js "snapshot"
def STROKE_THROTTLE_MS : ℚ := 16

/-- A place on the board, in doubles. -/
structure Point where
  x : ℚ
  y : ℚ
  x_double : toDouble x = .fin x
  y_double : toDouble y = .fin y

/-- The call that a promise of `rpc` is of. -/
inductive Rpc where
  | save
  | load

/-- The page; what it has drawn on its canvas is left out, and so is the line on its vault. -/
structure Whiteboard where
  stateText : JsString
  initialized : Bool
  ownCount : Nat
  peerCount : Nat
  strokes : List Data
  pendingRpc : InsMap JsString Rpc
  nextRid : Nat
  drawing : Bool
  lastPoint : Option Point
  lastEmit : ℚ

/-- `now` is `performance.now()`. -/
inductive BoardInput where
  | run
  | demo
  | clear
  | save
  | load
  | pointerDown (p : Point)
  | pointerMove (p : Point) (now : ℚ)
  | endDrawing

namespace Whiteboard

/-- The page as its document has it. -/
def new : Whiteboard where
  stateText := js "booting"
  initialized := false
  ownCount := 0
  peerCount := 0
  strokes := []
  pendingRpc := .empty
  nextRid := 0
  drawing := false
  lastPoint := none
  lastEmit := 0

def segment (x1 y1 x2 y2 : ℚ) (w : Nat) : Data :=
  .obj [(js "x1", .num (.fin x1)), (js "y1", .num (.fin y1)), (js "x2", .num (.fin x2)),
    (js "y2", .num (.fin y2)), (js "w", .num (.ofNat w))]

def demoSegment : Data := segment 20 20 280 140 3

def strokeMessage (seg : Data) : Data :=
  .obj [(js "type", .str (js "stroke")), (js "segment", seg)]

def emitOwn (s : Whiteboard) (seg : Data) : Whiteboard × List Data :=
  ({ s with strokes := s.strokes ++ [seg], ownCount := s.ownCount + 1 },
    [sendPost (strokeMessage seg)])

def applyPeer (s : Whiteboard) (seg : Data) : Whiteboard :=
  { s with strokes := s.strokes ++ [seg], peerCount := s.peerCount + 1 }

/-- The storage request of a call, and the promise that is kept for it. -/
def rpc (s : Whiteboard) (call : Rpc) (req : SdkCall) : Whiteboard × List Data :=
  let rid := s.nextRid + 1
  ({ s with nextRid := rid, pendingRpc := s.pendingRpc.set (ridOf rid) call },
    [Sdk.message rid req])

/-- What `await rpc(…)` goes on with. -/
def settled (s : Whiteboard) : Rpc → Except JsString Data → Whiteboard
  | .save, _ | .load, .error _ => s
  | .load, .ok snap =>
    match snap.get (js "strokes") with
    | .arr strokes _ => { s with strokes := strokes, ownCount := strokes.length, peerCount := 0 }
    | _ => s

/-- The stroke that a payload is of. -/
def strokeOf (payload : Data) : Option Data :=
  if payload.isObject && (payload.get (js "type")).isText (js "stroke") &&
      (payload.get (js "segment")).truthy then some (payload.get (js "segment"))
  else none

def go (s : Whiteboard) : PageInput BoardInput → Whiteboard × List Data
  | .own .run => ({ s with stateText := js "ready" }, [readyPost])
  | .own .demo => if !s.initialized then (s, []) else s.emitOwn demoSegment
  | .own .clear => ({ s with strokes := [], ownCount := 0, peerCount := 0 }, [])
  | .own .save =>
    s.rpc .save (.put (.str SNAPSHOT_KEY) (.obj [(js "strokes", .arr s.strokes [])]))
  | .own .load => s.rpc .load (.get (.str SNAPSHOT_KEY))
  | .own (.pointerDown p) => ({ s with drawing := true, lastPoint := some p }, [])
  | .own (.pointerMove next now) =>
    match s.drawing, s.lastPoint with
    | true, some last =>
      if now - s.lastEmit < STROKE_THROTTLE_MS then (s, [])
      else
        let r := { s with lastEmit := now }.emitOwn (segment last.x last.y next.x next.y 2)
        ({ r.1 with lastPoint := some next }, r.2)
    | _, _ => (s, [])
  | .own .endDrawing => ({ s with drawing := false, lastPoint := none }, [])
  | .posted (.init addonId version _) =>
    ({ s with
      stateText := js "init (" ++ addonId ++ js " v" ++ version ++ js ")"
      initialized := true }, [])
  | .posted (.deliver payload _) =>
    match strokeOf payload with
    | none => (s, [])
    | some seg => (s.applyPeer seg, [])
  | .posted (.storageResult rid result) =>
    match s.pendingRpc.get rid with
    | none => (s, [])
    | some call => ({ s with pendingRpc := s.pendingRpc.delete rid }.settled call result, [])
  | .posted _ => (s, [])

/-! ## What a page posts -/

/-- A segment as a page draws it. -/
def Drawn (seg : Data) : Prop := ∃ x1 y1 x2 y2 : ℚ, ∃ w : Nat, seg = segment x1 y1 x2 y2 w ∧
  toDouble x1 = .fin x1 ∧ toDouble y1 = .fin y1 ∧ toDouble x2 = .fin x2 ∧ toDouble y2 = .fin y2 ∧
    w ≤ 2 ^ 53

theorem drawn_demo : Drawn demoSegment :=
  ⟨20, 20, 280, 140, 3, rfl, toDouble_nat (n := 20) (by decide), toDouble_nat (n := 20) (by decide),
    toDouble_nat (n := 280) (by decide), toDouble_nat (n := 140) (by decide), by decide⟩

theorem drawn_between (p q : Point) : Drawn (segment p.x p.y q.x q.y 2) :=
  ⟨_, _, _, _, 2, rfl, p.x_double, p.y_double, q.x_double, q.y_double, by decide⟩

theorem Drawn.parsed {seg : Data} (h : Drawn seg) : (strokeMessage seg).Parsed := by
  obtain ⟨x1, y1, x2, y2, w, rfl, hx1, hy1, hx2, hy2, hw⟩ := h
  refine ⟨.obj [(js "type", .str (js "stroke")), (js "segment", .obj [(js "x1", .num (.fin x1)),
    (js "y1", .num (.fin y1)), (js "x2", .num (.fin x2)), (js "y2", .num (.fin y2)),
    (js "w", .num (.ofNat w))])], ⟨by simp [js], trivial, ⟨by simp [js], ⟨x1, rfl, hx1⟩,
    ⟨y1, rfl, hy1⟩, ⟨x2, rfl, hx2⟩, ⟨y2, rfl, hy2⟩, ⟨w, rfl, toDouble_nat hw⟩, trivial⟩, trivial⟩, rfl⟩

theorem strokeOf_message {seg : Data} (h : Drawn seg) :
    strokeOf (strokeMessage seg) = some seg := by
  obtain ⟨x1, y1, x2, y2, w, rfl, -⟩ := h
  simp [strokeOf, strokeMessage, segment, Data.isObject, Data.get, ownProperty, Data.isText,
    Data.truthy, js]

theorem sent_strokeMessage {seg : Data} (h : Drawn seg) :
    sent? (sendPost (strokeMessage seg)) = some (strokeMessage seg) := by
  rw [sent_sendPost, h.parsed.wire]

theorem sent_message (n : Nat) (c : SdkCall) : sent? (Sdk.message n c) = none := by
  simp [sent?, Sdk.message, AddonHost.bridgeOp, Data.isObject, Data.get, ownProperty, Data.str?, js,
    ADDON_BRIDGE_KIND, BridgeOp.ofText, BridgeOp.all, BridgeOp.text]

theorem get_message (n : Nat) (c : SdkCall) :
    (Sdk.message n c).get (js "payload") = .undefined := by
  cases c <;> simp [Sdk.message, SdkCall.members, Data.get, ownProperty, js]

/-- What an input does to the board, and what is sent at it. -/
inductive Change (s : Whiteboard) (input : PageInput BoardInput) : Whiteboard → List Data → Prop
  | kept {s' : Whiteboard} {out : List Data} (strokes : s'.strokes = s.strokes)
      (own : s'.ownCount = s.ownCount) (peer : s'.peerCount = s.peerCount)
      (payload : input.payload?.bind strokeOf = none) (sent : out.filterMap sent? = [])
      (written : ∀ msg ∈ out, (msg.get (js "payload")).Written) : Change s input s' out
  | drawn {s' : Whiteboard} (seg : Data) (drawn : Drawn seg)
      (strokes : s'.strokes = s.strokes ++ [seg]) (own : s'.ownCount = s.ownCount + 1)
      (peer : s'.peerCount = s.peerCount) (payload : input.payload? = none) :
      Change s input s' [sendPost (strokeMessage seg)]
  | applied (seg : Data) (payload : input.payload?.bind strokeOf = some seg) :
      Change s input (s.applyPeer seg) []
  | replaced {s' : Whiteboard} (own : s'.ownCount = s'.strokes.length) (peer : s'.peerCount = 0)
      (cause : input = .own .clear ∨ ∃ rid result, input = .posted (.storageResult rid result) ∧
        s.pendingRpc.get rid = some .load) : Change s input s' []

theorem Change.same {s s' : Whiteboard} {input : PageInput BoardInput}
    (strokes : s'.strokes = s.strokes) (own : s'.ownCount = s.ownCount)
    (peer : s'.peerCount = s.peerCount) (payload : input.payload?.bind strokeOf = none) :
    Change s input s' [] := .kept strokes own peer payload rfl (by simp)

theorem rpc_change (s : Whiteboard) {input : PageInput BoardInput} (hinput : input.payload? = none)
    (call : Rpc) (req : SdkCall) : Change s input (s.rpc call req).1 (s.rpc call req).2 := by
  refine .kept rfl rfl rfl (by rw [hinput]; rfl) (by simp [rpc, sent_message]) fun msg hmsg => ?_
  rw [List.mem_singleton.mp hmsg, get_message]
  trivial

theorem settled_change (s : Whiteboard) (rid : JsString) (call : Rpc) (result : Except JsString Data)
    (hcall : s.pendingRpc.get rid = some call) : Change s (.posted (.storageResult rid result))
      ({ s with pendingRpc := s.pendingRpc.delete rid }.settled call result) [] := by
  cases call with
  | save => exact .same rfl rfl rfl rfl
  | load =>
    cases result with
    | error e => exact .same rfl rfl rfl rfl
    | ok snap =>
      simp only [settled]
      split
      · exact .replaced rfl rfl (.inr ⟨rid, _, rfl, hcall⟩)
      · exact .same rfl rfl rfl rfl

theorem go_change (s : Whiteboard) (input : PageInput BoardInput) :
    Change s input (s.go input).1 (s.go input).2 := by
  cases input with
  | own i =>
    cases i with
    | run =>
      refine .kept rfl rfl rfl rfl (by simp [go, sent_readyPost]) fun msg hmsg => ?_
      rw [List.mem_singleton.mp hmsg]
      exact written_readyPost
    | demo =>
      simp only [go]
      split
      · exact .same rfl rfl rfl rfl
      · exact .drawn demoSegment drawn_demo rfl rfl rfl rfl
    | clear => exact .replaced rfl rfl (.inl rfl)
    | save => exact s.rpc_change rfl ..
    | load => exact s.rpc_change rfl ..
    | pointerDown p => exact .same rfl rfl rfl rfl
    | pointerMove next now =>
      simp only [go]
      split
      · split
        · exact .same rfl rfl rfl rfl
        · exact .drawn _ (drawn_between ..) rfl rfl rfl rfl
      · exact .same rfl rfl rfl rfl
    | endDrawing => exact .same rfl rfl rfl rfl
  | posted m =>
    cases m with
    | deliver payload from_ =>
      cases hstroke : strokeOf payload with
      | none =>
        simp only [go, hstroke]
        exact .same rfl rfl rfl hstroke
      | some seg =>
        simp only [go, hstroke]
        exact .applied seg hstroke
    | storageResult rid result =>
      simp only [go]
      split
      · exact .same rfl rfl rfl rfl
      · next call hcall => exact s.settled_change rid call result hcall
    | _ => exact .same rfl rfl rfl rfl

/-- The page of the add-on. -/
def page : Page Whiteboard BoardInput where
  go := go
  written := by
    intro s input _ msg hmsg
    have hchange := go_change s input
    generalize (go s input).1 = s', (go s input).2 = out at hmsg hchange
    cases hchange with
    | kept _ _ _ _ _ written => exact written msg hmsg
    | drawn seg hdrawn =>
      rw [List.mem_singleton.mp hmsg]
      exact written_sendPost hdrawn.parsed.written
    | applied seg => cases hmsg
    | replaced => cases hmsg

/-- No promise of `rpc` is of a load. -/
def NoLoad (s : Whiteboard) : Prop := ∀ rid, s.pendingRpc.get rid ≠ some .load

theorem settled_pendingRpc (s : Whiteboard) (call : Rpc) (result : Except JsString Data) :
    (s.settled call result).pendingRpc = s.pendingRpc := by
  unfold settled
  split
  · rfl
  · rfl
  · split <;> rfl

theorem NoLoad.go {s : Whiteboard} (h : s.NoLoad) {input : PageInput BoardInput}
    (hinput : input ≠ .own .load) : (s.go input).1.NoLoad := by
  cases input with
  | own i =>
    cases i with
    | load => exact absurd rfl hinput
    | save =>
      intro rid
      simp only [Whiteboard.go, rpc, InsMap.get_set]
      split
      · simp
      · exact h rid
    | demo =>
      simp only [Whiteboard.go]
      split <;> exact h
    | pointerMove next now =>
      simp only [Whiteboard.go]
      split
      · split <;> exact h
      · exact h
    | _ => exact h
  | posted m =>
    cases m with
    | deliver payload from_ =>
      simp only [Whiteboard.go]
      split <;> exact h
    | storageResult rid result =>
      simp only [Whiteboard.go]
      split
      · exact h
      · intro rid'
        rw [settled_pendingRpc, InsMap.get_delete]
        split
        · simp
        · exact h rid'
    | _ => exact h

/-! ## Both boards -/

/-- Each stroke of a board is counted. -/
def Counted (s : Whiteboard) : Prop := s.ownCount + s.peerCount = s.strokes.length

theorem Counted.go {s : Whiteboard} (h : s.Counted) (input : PageInput BoardInput) :
    (s.go input).1.Counted := by
  unfold Counted at h ⊢
  have hchange := go_change s input
  generalize (s.go input).1 = s', (s.go input).2 = out at hchange
  cases hchange with
  | kept strokes own peer => rw [strokes, own, peer, h]
  | drawn seg _ strokes own peer =>
    rw [strokes, own, peer, List.length_append, List.length_singleton]
    omega
  | applied seg =>
    simp only [applyPeer, List.length_append, List.length_singleton]
    omega
  | replaced own peer => rw [own, peer, Nat.add_zero]

/-- A board is what was sent and what was taken. -/
structure Joined (s : Whiteboard) (sent taken : List Data) : Prop where
  strokes : s.strokes.Perm (sent.filterMap strokeOf ++ taken.filterMap strokeOf)
  own : s.ownCount = (sent.filterMap strokeOf).length
  peer : s.peerCount = (taken.filterMap strokeOf).length
  noLoad : s.NoLoad

theorem Joined.go {s : Whiteboard} {sent taken : List Data} (h : Joined s sent taken)
    {i : PageInput BoardInput} (hclear : i ≠ .own .clear) (hload : i ≠ .own .load) :
    Joined (s.go i).1 (sent ++ (s.go i).2.filterMap sent?)
      (taken ++ i.payload?.toList) := by
  have hnoLoad := h.noLoad.go hload
  have hchange := go_change s i
  generalize (s.go i).1 = s', (s.go i).2 = out at hchange hnoLoad ⊢
  cases hchange with
  | kept strokes own peer payload hsent =>
    have htaken : i.payload?.toList.filterMap strokeOf = [] := by
      cases hpayload : i.payload? with
      | none => rfl
      | some p =>
        rw [hpayload] at payload
        simpa using payload
    refine ⟨?_, ?_, ?_, hnoLoad⟩
    · rw [hsent, List.append_nil, List.filterMap_append, htaken, List.append_nil, strokes]
      exact h.strokes
    · rw [hsent, List.append_nil, own, h.own]
    · rw [List.filterMap_append, htaken, List.append_nil, peer, h.peer]
  | drawn seg hdrawn strokes own peer payload =>
    have hsent : [sendPost (strokeMessage seg)].filterMap sent? = [strokeMessage seg] := by
      simp [sent_strokeMessage hdrawn]
    have hstroke : [strokeMessage seg].filterMap strokeOf = [seg] := by
      simp [strokeOf_message hdrawn]
    refine ⟨?_, ?_, ?_, hnoLoad⟩
    · rw [hsent, payload, List.filterMap_append, hstroke, strokes, Option.toList_none,
        List.append_nil, List.append_assoc]
      refine (h.strokes.append_right [seg]).trans ?_
      rw [List.append_assoc]
      exact List.perm_append_comm.append_left _
    · rw [hsent, List.filterMap_append, hstroke, own, h.own, List.length_append,
        List.length_singleton]
    · rw [payload, Option.toList_none, List.append_nil, peer, h.peer]
  | applied seg payload =>
    have htaken : i.payload?.toList.filterMap strokeOf = [seg] := by
      cases hpayload : i.payload? with
      | none =>
        rw [hpayload] at payload
        cases payload
      | some p =>
        rw [hpayload] at payload
        have hp : strokeOf p = some seg := payload
        simp [hp]
    rw [List.filterMap_nil, List.append_nil]
    refine ⟨?_, h.own, ?_, hnoLoad⟩
    · rw [List.filterMap_append, htaken, ← List.append_assoc]
      exact h.strokes.append_right [seg]
    · rw [List.filterMap_append, htaken, List.length_append, List.length_singleton, ← h.peer]
      rfl
  | replaced _ _ cause =>
    obtain rfl | ⟨rid, result, rfl, hpending⟩ := cause
    · exact absurd rfl hclear
    · exact absurd hpending (h.noLoad rid)

/-! ## Among other add-ons -/

variable {κ : Type} {σ ι : κ → Type}
  {setup : Setup (Option κ) (With Whiteboard σ) (With BoardInput ι)}

variable [DecidableEq κ]

def manifest : AddonManifest where
  id := js "dev.senn.whiteboard"
  name := js "Whiteboard"
  version := js "0.1.0"
  entry := js "index.html"
  license := js "Apache-2.0"
  permissions := [PEER_SEND, PEER_RECEIVE, STORAGE_LOCAL_READ, STORAGE_LOCAL_WRITE, js "ui.panel"]
  capabilities := [.str (js "whiteboard-v1")]

end Whiteboard

end Senn.Pages

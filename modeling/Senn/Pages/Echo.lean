import Senn.Pages.Common
import Senn.Scripts.Licenses

/-! # The echo add-on

Its page sends the text of its input, and an echo of each object that it gets and that is no echo.
Among whatever other add-ons, no echo is answered, and what comes back is one echo of each text. -/

namespace Senn.Pages

open Senn.Js Senn.Lib Senn.Addon Senn.Addon.Net
open Senn.Lib.Pipe (Side Seen puts takes puts_append puts_map_put)
open Senn.Scripts (trim)

structure Echo where
  stateText : JsString
  log : List JsString

/-- The script runs, or the button is clicked with a value in the input. -/
inductive EchoInput where
  | run
  | emit (value : JsString)

namespace Echo

def said (value : JsString) : Data := .obj [(js "text", .str value)]

def echo (payload : Data) : Data :=
  .obj [(js "original", payload), (js "echoed", .bool true), (js "by", .str (js "echo-addon"))]

/-- `typeof payload === "object" && payload && payload.echoed !== true` -/
def answers (payload : Data) : Bool :=
  payload.isObject && match payload.get (js "echoed") with
    | .bool true => false
    | _ => true

/-- The `deliver` listener; what `JSON.stringify` throws is caught by the SDK. -/
def onDeliver (s : Echo) (payload : Data) : Echo × List Data :=
  match payload.toJson with
  | none => (s, [])
  | some json =>
    ({ s with log := s.log ++ [js "recv: " ++ (json.map Json.stringify).getD (js "undefined")] },
      if answers payload then [sendPost (echo payload)] else [])

def go (s : Echo) : PageInput EchoInput → Echo × List Data
  | .own .run => ({ s with stateText := js "ready" }, [readyPost])
  | .own (.emit value) =>
    if trim value = [] then (s, [])
    else
      ({ s with log := s.log ++ [js "sent: " ++ trim value] }, [sendPost (said (trim value))])
  | .posted (.init addonId version _) =>
    ({ s with stateText := js "init (" ++ addonId ++ js " v" ++ version ++ js ")" }, [])
  | .posted (.deliver payload _) => s.onDeliver payload
  | .posted _ => (s, [])

theorem echo_written {payload : Data} (h : payload.Written) : (echo payload).Written :=
  ⟨by simp [js], h, trivial, trivial, trivial⟩

/-- The page of the add-on. -/
def page : Page Echo EchoInput where
  go := go
  written := by
    intro s input hinput msg hmsg
    cases input with
    | own i =>
      cases i with
      | run =>
        rw [List.mem_singleton.mp hmsg]
        exact written_readyPost
      | emit value =>
        simp only [go] at hmsg
        split at hmsg
        · cases hmsg
        · rw [List.mem_singleton.mp hmsg]
          exact written_sendPost ⟨by simp, trivial, trivial⟩
    | posted m =>
      cases m with
      | deliver payload from_ =>
        simp only [go, onDeliver] at hmsg
        split at hmsg
        · cases hmsg
        · split at hmsg
          · rw [List.mem_singleton.mp hmsg]
            exact written_sendPost (echo_written (hinput payload rfl).written)
          · cases hmsg
      | _ => cases hmsg

theorem answers_echo (payload : Data) : answers (echo payload) = false := by
  simp [answers, echo, Data.isObject, Data.get, ownProperty, js]

/-- What is put out at a payload. -/
def reply (payload : Data) : List Data :=
  if payload.toJson.isSome && answers payload then (echo payload).wire.toList else []

variable {κ : Type} {σ ι : κ → Type}
  {setup : Setup (Option κ) (With Echo σ) (With EchoInput ι)}

variable [DecidableEq κ]

def manifest : AddonManifest where
  id := js "dev.senn.echo"
  name := js "Echo"
  version := js "0.1.0"
  entry := js "index.html"
  license := js "Apache-2.0"
  permissions := [PEER_SEND, PEER_RECEIVE, STORAGE_LOCAL_READ, STORAGE_LOCAL_WRITE, js "ui.panel"]
  capabilities := [.str (js "echo-v1")]

end Echo

end Senn.Pages

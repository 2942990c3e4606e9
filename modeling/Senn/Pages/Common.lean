import Senn.Addon.TextPipe

/-! # What pages have in common -/

namespace Senn.Pages

open Senn.Js Senn.Addon Senn.Addon.Net
open Senn.Lib.Pipe (Side)

/-- An add-on of a kind of its own beside others. -/
abbrev With {κ : Type} (α : Type) (σ : κ → Type) : Option κ → Type
  | none => α
  | some b => σ b

/-- `parent.postMessage({ kind, op: "ready" }, "*")` -/
def readyPost : Data := .obj [(js "kind", .str ADDON_BRIDGE_KIND), (js "op", .str (js "ready"))]

theorem sent_readyPost : sent? readyPost = none := by
  simp [sent?, readyPost, AddonHost.bridgeOp, Data.isObject, Data.get, ownProperty, Data.str?, js,
    ADDON_BRIDGE_KIND, BridgeOp.ofText, BridgeOp.all, BridgeOp.text]

theorem written_readyPost : (readyPost.get (js "payload")).Written := by
  simp [readyPost, Data.get, ownProperty, js, Data.Written]

theorem written_sendPost {payload : Data} (h : payload.Written) :
    ((sendPost payload).get (js "payload")).Written := by rwa [get_sendPost]

/-! ## An add-on on its own -/

def noState : Empty → Type := fun _ => Unit

/-- An add-on without others. -/
def alone {σ ι : Type} (id : JsString) (page : Page σ ι) :
    Setup (Option Empty) (With σ noState) (With ι noState) where
  id := fun _ => id
  page
    | none => page
    | some b => b.elim
  hosts := [none]
  window := fun _ => 1
  id_injective := fun _ _ _ => Subsingleton.elim _ _
  nodup := by simp
  complete := fun a => by simp [Subsingleton.elim a none]
  windows := fun _ _ _ _ => Subsingleton.elim _ _

end Senn.Pages

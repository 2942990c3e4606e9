import Senn.Js.Text

/-! # Room and peer ids

Both are 26 characters of the lower-case Crockford alphabet. -/

namespace Senn.Protocol
open Senn.Js

/-- One unit of `[0-9a-hjkmnp-tv-z]`. -/
def isIdUnit (u : UInt16) : Bool :=
  (0x30 ≤ u && u ≤ 0x39) || (0x61 ≤ u && u ≤ 0x68) || u = 0x6A || u = 0x6B || u = 0x6D ||
    u = 0x6E || (0x70 ≤ u && u ≤ 0x74) || (0x76 ≤ u && u ≤ 0x7A)

/-- `ID_PATTERN.test(value)` -/
def matchesId (s : JsString) : Bool := s.length = 26 && s.all isIdUnit

def isRoomId (s : JsString) : Bool := matchesId s

def isPeerId (s : JsString) : Bool := matchesId s

end Senn.Protocol

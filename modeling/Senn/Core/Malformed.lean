import Senn.Core.MessageSlot

/-! # Frames that are not of the format

`ValidHeader` is the documented header of a frame. A frame without one should be
reported once and change nothing; `Tolerable` says for which frames and buffers
that is so, and that the handler returns. -/

namespace Senn.Core
open Senn.Js Senn.Lib

namespace Reassembly

end Reassembly

end Senn.Core

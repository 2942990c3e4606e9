import Senn.Core.BinaryRoundTrip
import Senn.Core.Interference
import Senn.Core.SlotLoad
import Senn.Core.Malformed
import Senn.HttpPoll.Delivery
import Senn.Session.States
import Senn.Session.Closing
import Senn.Session.Convergence
import Senn.Session.Farewell
import Senn.Session.Candidates
import Senn.Session.Values
import Senn.Addon.Permissions
import Senn.Addon.LocalTracks
import Senn.Nostr.Interop
import Senn.Nostr.Delivery
import Senn.Nostr.Acks
import Senn.Nostr.Closing
import Senn.Addon.Sinks
import Senn.Addon.Sdk
import Senn.HttpPoll.Contract
import Senn.UrlFragment.Delivery
import Senn.Signaling.Unsubscribe
import Senn.Storage.AddonStorage
import Senn.Storage.Agreement
import Senn.Registry.Additive
import Senn.Signing.Keystore
import Senn.Addon.Entry
import Senn.Protocol.InviteForm
import Senn.Core.Eviction
import Senn.Core.SendAtomic
import Senn.Core.ReassemblyTimeout
import Senn.HttpPoll.PollLoop
import Senn.Session.Capture
import Senn.UrlFragment.Export
import Senn.Scripts.LicenseBan
import Senn.Registry.VerifiedRows
import Senn.Protocol.Base64Copies
import Senn.Protocol.IdEncoding
import Senn.Protocol.Semver
import Senn.Registry.MetaIndex
import Senn.Registry.Refreshes
import Senn.Storage.ValueSize
import Senn.Addon.Handler
import Senn.Addon.WebHost
import Senn.Addon.TextPipe
import Senn.Addon.BinaryNet
import Senn.Pages.Echo
import Senn.Pages.AvatarPresence
import Senn.Pages.Whiteboard
import Senn.Web.Delivery
import Senn.Registry.Rotation
import Senn.Js.Btoa
import Senn.Pages.LocalVault

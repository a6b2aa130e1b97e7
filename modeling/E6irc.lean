import E6irc.History.Window
import E6irc.History.Counts
import E6irc.CoreLink.Credit
import E6irc.Core.Guests
import E6irc.Core.SaslExchange
import E6irc.Core.BanAgreement
import E6irc.Core.TimerWheel
import E6irc.Core.Labeled
import E6irc.Proto.Decode
import E6irc.Proto.Framing
import E6irc.Net.Forwarded
import E6irc.Core.NetWide
import E6irc.Core.NickEnforcement
import E6irc.Core.Invitations
import E6irc.Core.ReadMarker
import E6irc.Core.MarkerSlots
import E6irc.Proto.Sasl
import E6irc.Core.MaskCase
import E6irc.Bouncer.Routing
import E6irc.Client.Unread
import E6irc.Link.Exact
import E6irc.Queue.Room
import E6irc.Edge.InFlight
import E6irc.CoreLink.Window
import E6irc.Bouncer.Leases
import E6irc.Bouncer.Bounds
import E6irc.Core.JoinZero
import E6irc.Edge.Meter
import E6irc.Core.Numeric
import E6irc.Core.Multiline
import E6irc.Core.ClientTags
import E6irc.Core.ListFilter
import E6irc.Bouncer.Advertised
import E6irc.Bouncer.Formatting
import E6irc.Tui.ReadPosition

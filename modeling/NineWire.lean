import NineWire.Wire.Messages
import NineWire.Wire.StatSize
import NineWire.Wire.Truncation
import NineWire.Transition
import NineWire.Util.FidHandles
import NineWire.Server.Flush
import NineWire.Server.Reset
import NineWire.Server.ReplySize
import NineWire.Server.Rejection
import NineWire.Server.Liveness
import NineWire.Res.Bindings
import NineWire.Res.Confinement
import NineWire.Res.Cursor
import NineWire.Res.Agreement
import NineWire.Res.OpenMode
import NineWire.Client.Attribution
import NineWire.Client.Stream
import NineWire.Client.Negotiation
import NineWire.Client.Stranded
import NineWire.Client.OpenDir
import NineWire.Client.Lifetime
import NineWire.Client.FailedSend
import NineWire.Client.TagAllocation
import NineWire.Client.Flushing
import NineWire.Client.Recovery
import NineWire.Transport.MailDelivery
import NineWire.Transport.Cancellation
import NineWire.Mediator.Mappings
import NineWire.Udt.Flush
import NineWire.Udt.RendezvousMeet
import NineWire.Transport.Receiving

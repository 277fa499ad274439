import PubSub.Client.Connection
import PubSub.Client.Waiting
import PubSub.Proofs.Broker.DataType
import PubSub.Proofs.Broker.Departure
import PubSub.Proofs.Broker.Order
import PubSub.Proofs.Broker.Unthrottled
import PubSub.Proofs.Server.Sessions
import PubSub.Proofs.Wire.Packet
import PubSub.Server.Connection
import PubSub.Server.Live
import PubSub.Server.Traffic
import PubSub.Proofs.Server.Traffic
import PubSub.Proofs.Server.Generations
import PubSub.Proofs.Server.Bookings
import PubSub.Proofs.Server.Silence
import PubSub.Proofs.Server.Introduction
import PubSub.Proofs.Client.Link
import PubSub.Proofs.Client.Routing
import PubSub.Proofs.Broker.Removal
import PubSub.Proofs.Skew.Envelope
import PubSub.Proofs.Wire.Stream
import PubSub.Proofs.Pattern.Characters
import PubSub.Proofs.Pattern.Cursor
import PubSub.Proofs.Skew.Estimator
import PubSub.Proofs.Skew.Bounded
import PubSub.Proofs.Skew.Steady
import PubSub.Proofs.Broker.InPlace
import PubSub.Proofs.Broker.Throttle
import PubSub.Proofs.Broker.CatchUp
import PubSub.Proofs.Broker.InForce
import PubSub.Proofs.Broker.OwnWrites
import PubSub.Proofs.Broker.Clearing
import PubSub.Proofs.Filter
import PubSub.Proofs.Client.Summaries
import PubSub.Proofs.Client.Delivery
import PubSub.Proofs.Client.Replay
import PubSub.Proofs.Client.Calls
import PubSub.Proofs.Wire.Handshake
import PubSub.Proofs.Skew.InStep
import PubSub.Proofs.Skew.Cropping
import PubSub.Proofs.Broker.Consistency
import PubSub.Proofs.Time.Backoff

import HeadLink.Transport.Sink
import HeadLink.Link.Quiet
import HeadLink.Endpoint.Receive
import HeadLink.Endpoint.Request
import HeadLink.Proofs.HeaderCodec
import HeadLink.Proofs.Alignment
import HeadLink.Proofs.BodyCodec
import HeadLink.Proofs.MessageRoundTrip
import HeadLink.Proofs.Blocks
import HeadLink.Proofs.Simulation
import HeadLink.Proofs.Runs
import HeadLink.Proofs.Delivery
import HeadLink.Proofs.Drafts
import HeadLink.Proofs.Interleaving
import HeadLink.Proofs.Courses
import HeadLink.Proofs.Contiguity
import HeadLink.Proofs.Attendance
import HeadLink.Proofs.Progress
import HeadLink.Proofs.Events
import HeadLink.Proofs.Vigil
import HeadLink.Proofs.Staffing
import HeadLink.Proofs.Settlement
import HeadLink.Proofs.Closure
import HeadLink.Proofs.Dispatch
import HeadLink.Proofs.Histories
import HeadLink.Proofs.Mirror
import HeadLink.Proofs.Correlation
import HeadLink.Proofs.Gate
import HeadLink.Proofs.Reactions
import HeadLink.Proofs.Teardown
import HeadLink.Proofs.Vacancy
import HeadLink.Proofs.Feeding
import HeadLink.Proofs.Indifference
import HeadLink.Proofs.Isolation
import HeadLink.Proofs.Bounds
import HeadLink.Proofs.HeaderGrammar
import HeadLink.Proofs.BodyGrammar
import HeadLink.Proofs.Segmentation
import HeadLink.Proofs.FrameSizes
import HeadLink.Proofs.Capacity
import HeadLink.Proofs.Refusals
import HeadLink.Proofs.Routing
import HeadLink.Proofs.Handshake
import HeadLink.Proofs.Lifetimes
import HeadLink.Proofs.Sinks
import HeadLink.Proofs.Transmission
import HeadLink.Proofs.Receiver

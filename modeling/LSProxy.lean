import LSProxy.Lib.Segment
import LSProxy.Lib.Scanner
import LSProxy.Lib.Channel
import LSProxy.Lib.BoundedQueue
import LSProxy.Lib.Tape
import LSProxy.Lib.Lending
import LSProxy.Lib.Ownership
import LSProxy.Lib.Rotation
import LSProxy.Lib.Reader
import LSProxy.Model.SysIo
import LSProxy.Model.Filebuf
import LSProxy.Model.Circularbuf
import LSProxy.Model.Hybridbuf
import LSProxy.Model.HttpParser
import LSProxy.Model.Connection
import LSProxy.Model.Callbacks
import LSProxy.Model.Runs
import LSProxy.Model.Proxy
import LSProxy.Model.Process
import LSProxy.Model.LocalAddr
import LSProxy.Buffers.Circular
import LSProxy.Buffers.Hybrid
import LSProxy.Buffers.Rewind
import LSProxy.Session.Spec
import LSProxy.Session.Refinement
import LSProxy.Session.Runs
import LSProxy.Session.Lifecycle
import LSProxy.Safety.Phases
import LSProxy.Safety.Streams
import LSProxy.Safety.Handover
import LSProxy.Safety.Requests
import LSProxy.Safety.Monitor
import LSProxy.Safety.Isolation
import LSProxy.Safety.Delivery
import LSProxy.Safety.Unavailable
import LSProxy.Safety.Responses
import LSProxy.Safety.Admission
import LSProxy.Safety.Objects
import LSProxy.Safety.Descriptors
import LSProxy.Safety.DeferredSwitch
import LSProxy.Safety.Probing
import LSProxy.Safety.Sending
import LSProxy.Safety.Backlog
import LSProxy.Lib.Simulation
import LSProxy.Session.Traces
import LSProxy.Safety.Defense
import LSProxy.Safety.Sockets
import LSProxy.Safety.Closing
import LSProxy.Lib.Sweep
import LSProxy.Model.Sweeps
import LSProxy.Safety.Sweeps
import LSProxy.Safety.Projection
import LSProxy.Safety.Resources
import LSProxy.Safety.Failures
import LSProxy.Lib.Search
import LSProxy.Lib.Occupancy
import LSProxy.Safety.Page
import LSProxy.Safety.Binding
import LSProxy.Safety.Caching
import LSProxy.Safety.Relaying
import LSProxy.Safety.Graceful
import LSProxy.Lib.Access
import LSProxy.Model.Accesses
import LSProxy.Safety.Handles

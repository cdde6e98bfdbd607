import Dummyload.Base.Stop
import Dummyload.Backlog
import Dummyload.ReadFd
import Dummyload.TypedInts
import Dummyload.Http.Rejection
import Dummyload.Http.FieldNames
import Dummyload.Http.Pointers
import Dummyload.Http.RequestText
import Dummyload.Http.Framing
import Dummyload.Http.Pipelining
import Dummyload.Http.Resume
import Dummyload.Http.Stopping
import Dummyload.Http.ResponseText
import Dummyload.Net.Connector
import Dummyload.Net.EPoller
import Dummyload.Net.Output
import Dummyload.Net.Closing
import Dummyload.Net.Lifetime
import Dummyload.Net.Lifecycle
import Dummyload.Net.WriteInterest
import Dummyload.Timer.Dispatch
import Dummyload.Timer.Cancellation
import Dummyload.Timer.Wakeup
import Dummyload.Timer.Strict
import Dummyload.Load.Percent
import Dummyload.Load.Fixed
import Dummyload.Procmon.ProcessTable
import Dummyload.Json.Documents
import Dummyload.Http.Farewell
import Dummyload.Http.Client
import Dummyload.Procmon.Busiest
import Dummyload.Load.Resting

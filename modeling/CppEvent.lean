import CppEvent.Library.Program
import CppEvent.Library.Transition
import CppEvent.Base.Event
import CppEvent.Base.StatusAwaiter
import CppEvent.Base.Executor
import CppEvent.Base.AsyncSignal
import CppEvent.Base.AsyncQueue
import CppEvent.Base.IoListener
import CppEvent.Base.IoService
import CppEvent.Base.BufferAccess
import CppEvent.Net.Reading
import CppEvent.Net.Writing
import CppEvent.Net.Server
import CppEvent.Http.KeepAlive
import CppEvent.Http.Response
import CppEvent.Http.RawRead
import CppEvent.Http.Routing
import CppEvent.Http.Registration
import CppEvent.Postgres.Database
import CppEvent.Postgres.Waiting
import CppEvent.Postgres.Clients
import CppEvent.Postgres.Conversation
import CppEvent.Postgres.Message
import CppEvent.Postgres.Result
import CppEvent.Crypto.Encoding
import CppEvent.Crypto.Base64
import CppEvent.Crypto.BitTrace
import CppEvent.Postgres.Scram
import CppEvent.Postgres.Agreement
import CppEvent.Postgres.Attributes
import CppEvent.Postgres.Connection
import CppEvent.Postgres.Receive
import CppEvent.Postgres.Sync
import CppEvent.Postgres.Params
import CppEvent.Postgres.Backend
import CppEvent.Postgres.Frontend
import CppEvent.Postgres.Sending
import CppEvent.Postgres.Session
import CppEvent.Postgres.Query
import CppEvent.Postgres.Paging
import CppEvent.Postgres.Sharing
import CppEvent.Postgres.Row
import CppEvent.Postgres.Segmentation
import CppEvent.Postgres.Authentication
import CppEvent.Postgres.Layout
import CppEvent.Postgres.Mechanisms
import CppEvent.Postgres.Lengths
import CppEvent.Postgres.Ownership
import CppEvent.Http.QueryString
import CppEvent.Http.ContentLength
import CppEvent.Http.HeaderLines
import CppEvent.Http.RequestLine
import CppEvent.Http.Search
import CppEvent.Http.Completeness
import CppEvent.Http.OneResponse
import CppEvent.Http.Termination
import CppEvent.Http.Segmentation
import CppEvent.Http.Conversation
import CppEvent.Http.Chunks
import CppEvent.Postgres.Login
import CppEvent.Postgres.Admission

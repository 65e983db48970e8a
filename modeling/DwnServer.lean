import DwnServer.Js.JsonText
import DwnServer.JsonRpcApi
import DwnServer.JsonRpc.MethodHandlers
import DwnServer.Connection.Cleanup
import DwnServer.Connection.ClosedOnce
import DwnServer.Connection.Exchanges
import DwnServer.Connection.Heartbeat
import DwnServer.Connection.ConnectionManager
import DwnServer.Connection.Provenance
import DwnServer.Connection.SoleSubscription
import DwnServer.Http.Anonymous
import DwnServer.Http.FlatParameters
import DwnServer.Http.Registration
import DwnServer.Http.ResponseHeader
import DwnServer.Http.Separation
import DwnServer.Invocations
import DwnServer.Registration.Rates
import DwnServer.Registration.BoundWork
import DwnServer.Registration.Evaluations
import DwnServer.Registration.Interleaving
import DwnServer.Registration.Load
import DwnServer.Registration.NonceWindow
import DwnServer.Registration.Granted
import DwnServer.Registration.Replay
import DwnServer.Registration.SolveCount
import DwnServer.Web5Connect.Cleanups
import DwnServer.Web5Connect.ExpiryColumn
import DwnServer.Web5Connect.Handover
import DwnServer.Web5Connect.SingleUse
import DwnServer.Server.Shutdown
import DwnServer.Server.ShutdownHandler
import DwnServer.Client.FailedCalls
import DwnServer.Client.Timers
import DwnServer.Client.Wire
import DwnServer.Session.Clients
import DwnServer.Server.Restart
import DwnServer.Server.Overlap

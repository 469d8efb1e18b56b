import Web3Proxy.Lib.Trans
import Web3Proxy.ClientSocketPool
import Web3Proxy.Lib.Walk
import Web3Proxy.ClientSocketPool.Refine
import Web3Proxy.EndpointConnectionPool
import Web3Proxy.EndpointConnectionPool.Conservation
import Web3Proxy.Lib.Dict
import Web3Proxy.Lib.Table
import Web3Proxy.ActivityLedger
import Web3Proxy.BillingService
import Web3Proxy.Database
import Web3Proxy.StateManager
import Web3Proxy.StateManager.Spec
import Web3Proxy.StateManager.Persistence
import Web3Proxy.StateManager.Revocation
import Web3Proxy.Lib.Bytes
import Web3Proxy.Lib.Http.Message
import Web3Proxy.Lib.Http.Delivery
import Web3Proxy.ErrorResponses
import Web3Proxy.RequestReader
import Web3Proxy.RequestReader.Spec
import Web3Proxy.RequestReader.Framing
import Web3Proxy.RequestReader.Pipelining
import Web3Proxy.RequestReader.Forwarding
import Web3Proxy.JSONRPCValidators
import Web3Proxy.Middleware
import Web3Proxy.HandleClient
import Web3Proxy.HandleClient.Spec
import Web3Proxy.HandleClient.Mediation
import Web3Proxy.ErrorResponses.Spec
import Web3Proxy.Middleware.Replies
import Web3Proxy.HandleClient.Integrity
import Web3Proxy.HandleClient.Workers
import Web3Proxy.HandleClient.Pairing
import Web3Proxy.EndpointConnectionPool.Closing
import Web3Proxy.Controllers
import Web3Proxy.ClientSocketPool.Status
import Web3Proxy.MainLoop
import Web3Proxy.EndpointManager
import Web3Proxy.EndpointManager.Atomicity
import Web3Proxy.ActivityLedger.Totals
import Web3Proxy.HandleClient.Quota
import Web3Proxy.HandleClient.Disposal
import Web3Proxy.HandleClient.Statistics
import Web3Proxy.HandleClient.Erasure
import Web3Proxy.HandleClient.Billing
import Web3Proxy.HandleClient.Accounting
import Web3Proxy.PoolManager
import Web3Proxy.PoolManager.Failover
import Web3Proxy.Lib.Http.Stream
import Web3Proxy.ResponseReceiver
import Web3Proxy.Lib.PyStr
import Web3Proxy.Lib.Json
import Web3Proxy.RPCResponse
import Web3Proxy.JSONRPCValidators.Spec
import Web3Proxy.Lib.Json.Scan
import Web3Proxy.Lib.Json.Weight
import Web3Proxy.ErrorResponses.Decoding
import Web3Proxy.Lib.Json.Fuel
import Web3Proxy.Lib.Json.Paste
import Web3Proxy.RPCResponse.Spec
import Web3Proxy.Lib.Http.Cut
import Web3Proxy.RPCResponse.Completeness
import Web3Proxy.ErrorResponses.Pasting
import Web3Proxy.Middleware.Tokens
import Web3Proxy.Middleware.Answers
import Web3Proxy.Middleware.Agreement
import Web3Proxy.EndpointConnectionHandler
import Web3Proxy.EndpointConnectionHandler.Sending
import Web3Proxy.EndpointConnectionHandler.Returning
import Web3Proxy.Controllers.Probing
import Web3Proxy.HandleClient.Cors
import Web3Proxy.ResponseReceiver.Tls
import Web3Proxy.EndpointConnectionPool.Cleanup
import Web3Proxy.PoolManager.Spread
import Web3Proxy.Middleware.Permissions
import Web3Proxy.Lib.Json.Readings
import Web3Proxy.Middleware.Readings
import Web3Proxy.Lib.Json.Dumps
import Web3Proxy.EndpointManager.Restart
import Web3Proxy.AdminServer
import Web3Proxy.AdminServer.Gate
import Web3Proxy.ActivityLedger.Threads
import Web3Proxy.ActivityLedger.Races
import Web3Proxy.ActivityLedger.Removal
import Web3Proxy.Lib.Mutex
import Web3Proxy.HandleClient.Counting
import Web3Proxy.MainLoop.Lifecycle
import Web3Proxy.MainLoop.Uncrowded
import Web3Proxy.Controllers.SyncTest
import Web3Proxy.PoolManager.Managed
import Web3Proxy.PoolManager.Routing
import Web3Proxy.PoolManager.Progress

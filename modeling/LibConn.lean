import LibConn.Shared.Run
import LibConn.Verification.WebSocket.RoundTrip
import LibConn.Verification.WebSocket.Segmentation
import LibConn.Verification.WebSocket.Bounds
import LibConn.Verification.CustomEvents.Delivery
import LibConn.Verification.CustomEvents.Indices
import LibConn.Verification.CustomEvents.Functors
import LibConn.Verification.CustomEvents.Nesting
import LibConn.Verification.Events.PendingList
import LibConn.Verification.Dispatchers.Representations
import LibConn.Verification.Heap.PriorityQueue
import LibConn.Verification.Io.Readiness
import LibConn.Verification.Io.Transports
import LibConn.Verification.Timer.Expiry
import LibConn.Verification.Timer.Processing
import LibConn.Verification.Timer.FiringCounts
import LibConn.Verification.Timer.FiringOrder
import LibConn.Verification.Table.Bounds
import LibConn.Verification.Http.OneResponse
import LibConn.Verification.Http.Assembly
import LibConn.Verification.Http.Isolation
import LibConn.Verification.Http.Clients
import LibConn.Verification.Loop.Blocktime
import LibConn.Verification.Loop.Closing
import LibConn.Verification.Loop.Connect
import LibConn.Verification.WebSocketClient.Survival
import LibConn.Verification.WebSocketClient.Handshake
import LibConn.Verification.WebSocketClient.Delivery
import LibConn.Verification.Sessions.LifeCycle
import LibConn.Verification.Sessions.Fragments
import LibConn.Verification.Sessions.Upgrade
import LibConn.Verification.Loop.IdleTimeouts
import LibConn.Verification.Io.Reading
import LibConn.Verification.Io.Backlog
import LibConn.Verification.Http.Sending
import LibConn.Verification.Http.Responses
import LibConn.Verification.Http.Urls
import LibConn.Verification.Http.UrlBuffers
import LibConn.Verification.WebSocket.SendBuffers
import LibConn.Verification.WebSocket.Termination
import LibConn.Verification.Sessions.HeaderNames
import LibConn.Verification.Http.Base64
import LibConn.Verification.Sessions.AcceptKey
import LibConn.Verification.Channel.ReadBuffer
import LibConn.Verification.Parser.RoundTrips
import LibConn.Shared.Merging
import LibConn.Shared.Numerals
import LibConn.Verification.Parser.Bodies
import LibConn.Verification.Parser.Chunks
import LibConn.Verification.Parser.FirstLines
import LibConn.Verification.Parser.Messages
import LibConn.Verification.Parser.Replies
import LibConn.Verification.Parser.Exchanges
import LibConn.Verification.Parser.Upgrades
import LibConn.Verification.Parser.Closing
import LibConn.Verification.Parser.Telling

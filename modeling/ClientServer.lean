import ClientServer.AABBTree.Map
import ClientServer.AABBTree.Shape
import ClientServer.AABBTree.Query
import ClientServer.Movement.Glide
import ClientServer.Movement.Direction
import ClientServer.Net.Frame
import ClientServer.Net.Receive
import ClientServer.Net.Dispatch
import ClientServer.Net.Send
import ClientServer.Schema.Handlers
import ClientServer.Data.SortedSet
import ClientServer.Data.Sight
import ClientServer.Server.Region
import ClientServer.Server.Visibility
import ClientServer.Server.Neighbors
import ClientServer.Server.Sight
import ClientServer.Server.Movement
import ClientServer.Server.Journey
import ClientServer.Client.Region
import ClientServer.Data.Packed
import ClientServer.Server.WorldTree
import ClientServer.Server.SpatialIndex
import ClientServer.Server.Users
import ClientServer.Client.Movement
import ClientServer.Client.Pace
import ClientServer.Client.Ids
import ClientServer.Client.Mirror
import ClientServer.Server.Updates
import ClientServer.Server.Broadcast
import ClientServer.AABBTree.Bounds
import ClientServer.Data.Loop
import ClientServer.Movement.Navigation
import ClientServer.Server.Requests
import ClientServer.Server.Dash
import ClientServer.Server.Wander
import ClientServer.Server.Steering
import ClientServer.Server.Greeting
import ClientServer.Client.Clip
import ClientServer.Client.Notifications
import ClientServer.Client.Entering
import ClientServer.AABBTree.Heights
import ClientServer.AABBTree.Allocation
import ClientServer.Client.Picking
import ClientServer.Data.LittleEndian
import ClientServer.Movement.NavMeshFile
import ClientServer.Net.RecvBuffer
import ClientServer.Data.Memory
import ClientServer.Schema.Collider
import ClientServer.Client.Action
import ClientServer.Data.Strided
import ClientServer.Spatial.Grid
import ClientServer.Spatial.QuadTree
import ClientServer.Spatial.Pruning
import ClientServer.AABBTree.Rotation
import ClientServer.AABBTree.Termination
import ClientServer.AABBTree.QueryStack
import ClientServer.Data.Heap
import ClientServer.Detour.NodeQueue
import ClientServer.Detour.FindPath
import ClientServer.Detour.Search
import ClientServer.Detour.SearchRun
import ClientServer.Detour.PathFound
import ClientServer.Detour.SearchTermination
import ClientServer.Detour.Entries
import ClientServer.Detour.Shortest
import ClientServer.Client.Commands
import ClientServer.Data.Framing
import ClientServer.Net.Link
import ClientServer.Schema.Packets
import ClientServer.Server.Asides
import ClientServer.Client.Session
import ClientServer.Client.Sessions
import ClientServer.Data.Rounding
import ClientServer.Movement.MainLoop
import ClientServer.Client.RealTime

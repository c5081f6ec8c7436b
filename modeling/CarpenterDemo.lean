import CarpenterDemo.Item.Colors
import CarpenterDemo.Interact.Overlaps
import CarpenterDemo.Pickup.Ownership
import CarpenterDemo.Pickup.Notices
import CarpenterDemo.Pickup.Flags
import CarpenterDemo.Pickup.HonestClients
import CarpenterDemo.Store.OrderCount
import CarpenterDemo.Store.Convergence
import CarpenterDemo.Store.Account
import CarpenterDemo.Game.Deliveries
import CarpenterDemo.Rd.Property
import CarpenterDemo.Rd.Map
import CarpenterDemo.Rd.ListView
import CarpenterDemo.Rd.List
import CarpenterDemo.Rd.Stream
import CarpenterDemo.Rd.MessageBroker
import CarpenterDemo.Pickup.Ledger
import CarpenterDemo.Pickup.Carriers
import CarpenterDemo.Store.History
import CarpenterDemo.Rd.InternRoot
import CarpenterDemo.Rd.ExtWire
import CarpenterDemo.Rd.Lifetime
import CarpenterDemo.Rd.Call
import CarpenterDemo.Rd.Serializers

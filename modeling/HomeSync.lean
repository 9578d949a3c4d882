import HomeSync.Main
import HomeSync.Daemon.Startup
import HomeSync.SortedMap.Lemmas
import HomeSync.Proofs.Device.Made
import HomeSync.Proofs.Registry.History
import HomeSync.Proofs.Registry.Replay
import HomeSync.Proofs.Registry.Stream
import HomeSync.Proofs.Registry.Replication
import HomeSync.Proofs.Accessory.Face
import HomeSync.Proofs.Adapter.Blueprint
import HomeSync.Proofs.Adapter.Steps
import HomeSync.Proofs.Adapter.Mirror
import HomeSync.Proofs.House.Moves
import HomeSync.Proofs.House.Mirror
import HomeSync.Proofs.Adapter.Wiring
import HomeSync.Proofs.House.Wiring
import HomeSync.Proofs.Adapter.Display
import HomeSync.Proofs.House.Display
import HomeSync.Proofs.Adapter.Foreign
import HomeSync.Proofs.House.Foreign
import HomeSync.Proofs.Accessory.Reports
import HomeSync.Proofs.Bus.Levels
import HomeSync.Proofs.Bus.Turns
import HomeSync.Proofs.Adapter.Neighbours
import HomeSync.Proofs.House.Neighbours
import HomeSync.Proofs.House.Routing
import HomeSync.Proofs.Text.Utf8
import HomeSync.Proofs.Json.Literals
import HomeSync.Proofs.Json.Grammar
import HomeSync.Proofs.Json.Phases
import HomeSync.Proofs.Json.Reading
import HomeSync.Proofs.Json.Sound
import HomeSync.Proofs.Json.Records
import HomeSync.Proofs.Json.Members
import HomeSync.Proofs.Device.Codec
import HomeSync.Proofs.Accessory.Shape
import HomeSync.Proofs.Adapter.Coding
import HomeSync.Proofs.Adapter.View
import HomeSync.Proofs.Adapter.Unseen
import HomeSync.Proofs.House.Taken
import HomeSync.Proofs.House.View
import HomeSync.Proofs.Adapter.Built
import HomeSync.Proofs.House.Writes
import HomeSync.Proofs.Adapter.Retained
import HomeSync.Proofs.Bus.Silent
import HomeSync.Proofs.House.Retained
import HomeSync.Proofs.Registry.Keys
import HomeSync.Proofs.Adapter.Exhibits
import HomeSync.Proofs.House.Interleaving
import HomeSync.Proofs.Text.ByteOrder
import HomeSync.Proofs.Daemon.Seeds
import HomeSync.Proofs.Daemon.Progress
import HomeSync.Proofs.Daemon.Listening
import HomeSync.Proofs.Daemon.Report
import HomeSync.Proofs.Daemon.Settle
import HomeSync.Proofs.Bus.Accounts
import HomeSync.Proofs.Bus.Broker
import HomeSync.Proofs.Adapter.Layout
import HomeSync.Proofs.Adapter.Derived
import HomeSync.Proofs.House.Crosstalk
import HomeSync.Proofs.House.Leaving
import HomeSync.Proofs.Bus.Filters
import HomeSync.Proofs.Device.Edits
import HomeSync.Proofs.Binary64.Rounding
import HomeSync.Proofs.Binary64.Whole
import HomeSync.Proofs.Binary64.Reading
import HomeSync.Proofs.Binary64.Writing
import HomeSync.Proofs.Text.Trim
import HomeSync.Proofs.Value.Integers
import HomeSync.Proofs.Adapter.Limits
import HomeSync.Proofs.Accessory.Echo
import HomeSync.Proofs.Accessory.Numbering
import HomeSync.Proofs.Bus.Unnoticed
import HomeSync.Proofs.House.Awake
import HomeSync.Proofs.House.Timeless
import HomeSync.Proofs.House.Discovery
import HomeSync.Proofs.Device.Retold

import DeviceLayout.Compile
import DeviceLayout.Order
import DeviceLayout.Program.Model
import DeviceLayout.Proofs.Config.Overrides
import DeviceLayout.Proofs.Descriptor
import DeviceLayout.Proofs.Layout.Ideal
import DeviceLayout.Proofs.Layout.Inheritance
import DeviceLayout.Proofs.Layout.Memo
import DeviceLayout.Proofs.Layout.Object
import DeviceLayout.Proofs.Layout.Padding
import DeviceLayout.Proofs.Layout.Room
import DeviceLayout.Proofs.Layout.Rounding
import DeviceLayout.Proofs.Layout.StaticBlock
import DeviceLayout.Proofs.Program.Declarations
import DeviceLayout.Proofs.Program.Recursion
import DeviceLayout.Proofs.Program.RoundTrip
import DeviceLayout.Proofs.Reachability.BreadthFirst
import DeviceLayout.Proofs.Reachability.Counts
import DeviceLayout.Proofs.Reachability.Failure
import DeviceLayout.Proofs.Reachability.Irrelevance
import DeviceLayout.Proofs.Reachability.Order
import DeviceLayout.Proofs.Reachability.Retry
import DeviceLayout.Proofs.Reachability.Rewalk
import DeviceLayout.Proofs.Reachability.Settings
import DeviceLayout.Proofs.Reachability.Sweep
import DeviceLayout.Proofs.Reachability.Termination
import DeviceLayout.Proofs.Reachability.Universe
import DeviceLayout.Proofs.Registry.ArrayTypes
import DeviceLayout.Proofs.Registry.Errors
import DeviceLayout.Proofs.Registry.FieldAccess
import DeviceLayout.Proofs.Registry.Hierarchy
import DeviceLayout.Proofs.Registry.Representation
import DeviceLayout.Proofs.Registry.SelfContained
import DeviceLayout.Proofs.Table.Contents
import DeviceLayout.Proofs.Table.Growth
import DeviceLayout.Proofs.Table.Names
import DeviceLayout.Proofs.Table.RoundTrip
import DeviceLayout.Proofs.Table.Settings
import DeviceLayout.Request
import DeviceLayout.Summary
import DeviceLayout.Table.Json

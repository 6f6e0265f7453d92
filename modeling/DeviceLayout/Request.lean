import DeviceLayout.Reachability
import DeviceLayout.Table

/-!
# Requests to a registry

`Request` lists everything that can change a registry, and `Request.serve` says how. A history
of a registry is a list of requests, each served on the state the one before it left behind,
whether that one succeeded or failed.
-/

namespace DeviceLayout

/-- What a caller may ask of a registry. -/
inductive Request where
  /-- The id of a host class. -/
  | classFor (name : String)
  | registerMethod (m : MethodRef)
  | registerField (access : FieldRef)
  | recordArray (t : HostType)
  | walk (g : CallGraph) (entries : List MethodRef)
  | walkClass (g : CallGraph) (id : ClassId)
  | walkClassArrays (g : CallGraph) (id : ClassId)
  | walkAll (g : CallGraph)
  | classifyAll
  | layoutOf (id : ClassId)
  /-- The instance size of a class, or an error. -/
  | classSize (id : ClassId)
  /-- The instance size of a class, or 0. -/
  | classSizeOrZero (id : ClassId)
  | finalize
  /-- A request to the descriptor of a class. -/
  | onClass (id : ClassId) (request : ClassRequest)

/-- What a registry answers. -/
inductive Reply where
  | classId (id : ClassId)
  | flag (b : Bool)
  | count (n : Nat)
  | report (r : Report)
  | placement (p : Placement)
  | size (n : UInt32)
  | table (t : LayoutTable)
  | ofClass (reply : ClassReply)
  | done

/-- Serve a request. -/
def Request.serve (S : Setting) : Request → Action Registry Reply
  | classFor name => .classId <$> Registry.onCatalog (Catalog.classFor S name)
  | registerMethod m => .flag <$> Registry.onCatalog (Catalog.registerMethod S m)
  | registerField access => .flag <$> Registry.onCatalog (Catalog.registerField S access)
  | recordArray t => .count <$> Registry.onCatalog (Catalog.recordArray S t)
  | walk g entries => .report <$> Registry.walk S g entries
  | walkClass g id => .report <$> Registry.walkClass S g id
  | walkClassArrays g id => .report <$> Registry.walkClassArrays S g id
  | walkAll g => .report <$> Registry.walkAll S g
  | classifyAll => (fun _ => .done) <$> Registry.onCatalog Catalog.classifyAll
  | layoutOf id => .placement <$> Registry.layoutOf S id
  | classSize id => .size <$> Registry.classSize S id
  | classSizeOrZero id => .size <$> Registry.classSizeOrZero S id
  | finalize => .table <$> Registry.finalize S
  | onClass id request => .ofClass <$> Registry.onCatalog (Catalog.onClass id request.serve)

end DeviceLayout

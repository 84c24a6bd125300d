import RouterClient.Route.Procedure
import RouterClient.Code.Declaration

/-! # Route classes

The root class of a client knows the address of the server. Each namespace of the router is a
class nested in the class around it and reached through an accessor, and each procedure is a
method. A class adds its segment to the address of the class around it: the first segment below
the root as a path component, every further one after a point.
-/

namespace RouterClient.Code

open Model (LocalModels)
open Route (CallKind)

structure Method where
  /-- The last segment of the procedure's path. -/
  key : String
  kind : CallKind
  description : Option String
  input : Option TypeExpr
  output : Option TypeExpr
  deriving DecidableEq, Repr

/-- The class of the root or of a namespace. -/
structure RouteClass where
  name : String
  segment : String
  models : LocalModels Declaration
  methods : List Method
  children : List RouteClass

/-- How declarations of a client look. -/
structure Style where
  access : Access
  shared : Bool

/-- How a segment is added to an address. -/
inductive Appending where
  /-- After a slash. -/
  | component
  /-- After a point. -/
  | afterPoint
  deriving DecidableEq, Repr

/-- The method of an address that adds a segment. -/
def Appending.method : Appending → String
  | component => "appendingPathComponent"
  | afterPoint => "appendingPathExtension"

/-- One segment that a class or a method adds to the address it starts from. -/
structure AddressStep where
  way : Appending
  segment : String
  deriving DecidableEq, Repr

/-- The step for a segment with `depth` segments before it. Only the first one follows a slash. -/
def AddressStep.after (depth : Nat) (segment : String) : AddressStep where
  way := if depth = 0 then .component else .afterPoint
  segment := segment

/-- The step as it is written, from the address that an expression denotes. -/
def AddressStep.text (address : String) (step : AddressStep) : String :=
  address ++ "." ++ step.way.method ++ "(" ++ literal step.segment ++ ")"

namespace Method

/-- The parameter of the method. An absent value needs no argument. -/
def parameter (method : Method) : String :=
  match method.input with
  | none => ""
  | some type => annotated "input" type ++ if type.isOptional then " = nil" else ""

def arguments (method : Method) (depth : Nat) : String :=
  let input := if method.input.isSome then "input" else "TRPCClient.EmptyObject()"
  let address := (AddressStep.after depth method.key).text "url"
  "url: " ++ address ++ ", middlewares: middlewares, input: " ++ input

/-- The method of the runtime client that makes a call. -/
def sender : CallKind → String
  | .query => "sendQuery"
  | .mutation => "sendMutation"
  | .subscription => "sendSubscription"

/-- What the method is declared to give, after its parameters. -/
def result (method : Method) : String :=
  match method.kind, method.output with
  | .subscription, output =>
    let element := (output.map TypeExpr.text).getD "TRPCClient.EmptyObject"
    " -> AsyncThrowingStream<" ++ element ++ ", Error>"
  | _, some output => " async throws -> " ++ output.text
  | _, none => " async throws"

/-- What stands before the call in the method's only line. -/
def callStart (method : Method) : String :=
  match method.kind, method.output with
  | .subscription, _ => ""
  | _, some _ => "return try await "
  | _, none => "let _: TRPCClient.EmptyObject = try await "

/-- The method's declaration, in a class that is `depth` segments below the root. -/
def lines (style : Style) (depth : Nat) (method : Method) : Lines :=
  let head := style.access.modifier ++ "func " ++ memberName method.key ++
    "(" ++ method.parameter ++ ")" ++ method.result
  let call := method.callStart ++ "TRPCClient.shared." ++ sender method.kind ++
    "(" ++ method.arguments depth ++ ")"
  docComment? method.description ++ Lines.block head [call]

end Method

/-- The members that give the root class its address and its middlewares. -/
def rootMembers (style : Style) (name : String) : Lines :=
  let access := style.access.modifier
  let address :=
    if style.shared then
      [access ++ "static let shared = " ++ name ++ "()", "", access ++ "var baseUrl: URL!"]
    else ["private var baseUrl: URL"]
  let absent := if style.shared then "? = nil" else ""
  address ++
    ["private var baseMiddlewares: [TRPCMiddleware] = []", ""] ++
    Lines.block "fileprivate var url: URL" ["baseUrl"] ++ [""] ++
    Lines.block "fileprivate var middlewares: [TRPCMiddleware]" ["baseMiddlewares"] ++ [""] ++
    Lines.block
      (access ++ "init(baseUrl: URL" ++ absent ++ ", middlewares: [TRPCMiddleware] = [])")
      ["self.baseUrl = baseUrl", "self.baseMiddlewares = middlewares"]

/-- The members that give the class of a namespace its address and its middlewares; `depth`
segments are above the namespace. -/
def spaceMembers (depth : Nat) (segment : String) : Lines :=
  let address := (AddressStep.after depth segment).text "clientData.url"
  ["fileprivate let clientData: TRPCClientData", ""] ++
    Lines.block "fileprivate var url: URL" [address] ++ [""] ++
    Lines.block "fileprivate var middlewares: [TRPCMiddleware]" ["clientData.middlewares"] ++
    [""] ++
    Lines.block "fileprivate init(clientData: TRPCClientData)" ["self.clientData = clientData"]

namespace RouteClass

/-- The accessor through which a class is reached in the class around it. -/
def accessorLines (style : Style) (child : RouteClass) : Lines :=
  let field := memberName child.segment
  ("private lazy var _" ++ field ++ " = " ++ child.name ++ "(clientData: self)") ::
    Lines.block (style.access.modifier ++ "var " ++ field ++ ": " ++ child.name) ["_" ++ field]

/-- The accessors of a class, and a blank line after them. -/
def accessors (style : Style) (children : List RouteClass) : Lines :=
  if children.isEmpty then [] else children.flatMap (accessorLines style) ++ [""]

mutual

/-- The class's declaration, `depth` segments below the root. -/
def lines (style : Style) (depth : Nat) : RouteClass → Lines
  | ⟨name, segment, models, methods, children⟩ =>
    let members := match depth with
      | 0 => rootMembers style name
      | above + 1 => spaceMembers above segment
    Lines.block (style.access.modifier ++ "class " ++ name ++ ": TRPCClientData")
      (accessors style children ++ members ++
        Lines.afterBlank (Declaration.modelLines models) ++
        methods.flatMap (fun method => "" :: method.lines style depth) ++
        childLines style (depth + 1) children)

/-- The declarations of nested classes, each after a blank line. -/
def childLines (style : Style) (depth : Nat) : List RouteClass → Lines
  | [] => []
  | child :: more => "" :: child.lines style depth ++ childLines style depth more

end

end RouteClass

end RouterClient.Code

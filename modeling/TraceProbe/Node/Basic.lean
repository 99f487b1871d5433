import TraceProbe.Diagnostic
import TraceProbe.Storage
import TraceProbe.Ty.Basic

/-!
# Expression trees

A statement is a tree.  Operator applications own their arguments;
identifiers and literals are leaves.  Every node carries what the passes find
out about it: its type, its storage, and whether it stands for a name or a
constant instead of a value.
-/

namespace TraceProbe

/-- What the passes record on a node, and where the node stands in the source. -/
structure Info where
  type : Option Ty := none
  storage : Storage := {}
  loc : Loc := {}
  /-- The node names a member or is folded into its parent, so it has no value
  of its own. -/
  isVirtual : Bool := false
deriving Inhabited

/-- A node of an expression tree. -/
inductive Node where
  | apply (operator : String) (args : List Node) (info : Info)
  /-- A map or a context variable. -/
  | ident (name : String) (info : Info)
  /-- A string literal, without the zero byte that ends its value. -/
  | str (value : String) (info : Info)
  /-- A numeric literal; the mark says that it is beyond the signed range. -/
  | num (value : UInt64) (unsigned : Bool) (info : Info)
deriving Inhabited

namespace Node

/-- What is recorded on a node. -/
def info : Node → Info
  | apply _ _ info | ident _ info | str _ info | num _ _ info => info

/-- The same node with another record. -/
def withInfo (node : Node) (info : Info) : Node :=
  match node with
  | apply operator args _ => apply operator args info
  | ident name _ => ident name info
  | str value _ => str value info
  | num value unsigned _ => num value unsigned info

@[simp] theorem info_withInfo (node : Node) (info : Info) : (node.withInfo info).info = info := by
  cases node <;> rfl

@[simp] theorem withInfo_info (node : Node) : node.withInfo node.info = node := by
  cases node <;> rfl

/-- The type found for a node. -/
def type? (node : Node) : Option Ty := node.info.type

/-- The storage of a node's value. -/
def storage (node : Node) : Storage := node.info.storage

/-- The source position of a node. -/
def loc (node : Node) : Loc := node.info.loc

/-- Whether a node has no value of its own. -/
def isVirtual (node : Node) : Bool := node.info.isVirtual

/-- The same node with a type. -/
def withType (node : Node) (type : Ty) : Node :=
  node.withInfo { node.info with type := some type }

/-- The same node with a storage. -/
def withStorage (node : Node) (storage : Storage) : Node :=
  node.withInfo { node.info with storage := storage }

/-- The same node at a source position. -/
def withLoc (node : Node) (loc : Loc) : Node :=
  node.withInfo { node.info with loc := loc }

/-- The same node, without a value of its own. -/
def asVirtual (node : Node) : Node :=
  node.withInfo { node.info with isVirtual := true }

/-- The arguments of an application; leaves have none. -/
def args : Node → List Node
  | apply _ args _ => args
  | _ => []

/-- The same node with one of its arguments changed. -/
def modifyArgument (node : Node) (index : Nat) (change : Node → Node) : Node :=
  match node with
  | apply operator args info => apply operator (args.modify index change) info
  | leaf => leaf

/-- The same node with other arguments. -/
def withArguments (node : Node) (args : List Node) : Node :=
  match node with
  | apply operator _ info => apply operator args info
  | leaf => leaf

/-- The operator of an application. -/
def operator? : Node → Option String
  | apply operator _ _ => some operator
  | _ => none

/-- Whether a node applies the operator of a given name. -/
def applies (node : Node) (operator : String) : Bool :=
  node.operator? = some operator

/-- The name of an identifier. -/
def ident? : Node → Option String
  | ident name _ => some name
  | _ => none

/-- The content of a string literal. -/
def str? : Node → Option String
  | str value _ => some value
  | _ => none

/-- The value of a numeric literal. -/
def num? : Node → Option UInt64
  | num value _ _ => some value
  | _ => none

/-- The largest value of a signed literal. -/
def signedMax : UInt64 := 0x7fffffffffffffff

/-- The fresh literal of a signed value. -/
def ofInt (value : Int) : Node :=
  num (UInt64.ofInt value) false {}

/-- The fresh literal of an unsigned value. -/
def ofNatural (value : UInt64) : Node :=
  num value (value > signedMax) {}

mutual

/-- Number of typed nodes in a tree. -/
def typedCount : Node → Nat
  | apply _ args info => (if info.type.isSome then 1 else 0) + typedCounts args
  | ident _ info | str _ info | num _ _ info => if info.type.isSome then 1 else 0
termination_by structural node => node

/-- Number of typed nodes in several trees. -/
def typedCounts : List Node → Nat
  | [] => 0
  | node :: nodes => typedCount node + typedCounts nodes
termination_by structural nodes => nodes

end

mutual

/-- The first node without a type, arguments before their operator. -/
def firstUntyped? : Node → Option Node
  | apply operator args info =>
      (firstUntypedOf? args).or
        (if info.type.isSome then none else some (apply operator args info))
  | ident name info => if info.type.isSome then none else some (ident name info)
  | str value info => if info.type.isSome then none else some (str value info)
  | num value unsigned info => if info.type.isSome then none else some (num value unsigned info)
termination_by structural node => node

/-- The first node without a type in several trees. -/
def firstUntypedOf? : List Node → Option Node
  | [] => none
  | node :: nodes => (firstUntyped? node).or (firstUntypedOf? nodes)
termination_by structural nodes => nodes

end

end Node

end TraceProbe

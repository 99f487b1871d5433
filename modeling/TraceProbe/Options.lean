import TraceProbe.Diagnostic
import TraceProbe.Json.Reader

/-!
# Options

Limits and defaults of a compilation.  They can be read from JSON, either as
an object, where missing members keep their defaults and unknown ones are
skipped, or as an array of leading values.
-/

namespace TraceProbe

/-- Limits and defaults of a compilation. -/
structure Options where
  /-- Bytes that a memory or string read takes without a length of its own. -/
  stringSize : Nat := 128
  /-- Bytes of the stack frame. -/
  maxStack : Nat := 512
  /-- Entries that every map can hold. -/
  mapEntries : Nat := 1024
  /-- Inference passes before giving up. -/
  maxPasses : Nat := 64
deriving DecidableEq, Inhabited

namespace Options

/-- The members of options, in their order as an array. -/
inductive Key where
  | stringSize
  | maxStack
  | mapEntries
  | maxPasses
deriving DecidableEq, Inhabited

namespace Key

/-- Every key, in the order of values in an array. -/
def all : List Key := [stringSize, maxStack, mapEntries, maxPasses]

/-- The member name of a key. -/
def name : Key → String
  | stringSize => "string_size"
  | maxStack => "max_stack"
  | mapEntries => "map_elems"
  | maxPasses => "max_passes"

/-- The key of a member name. -/
def ofName? (name : String) : Option Key :=
  all.find? (·.name = name)

/-- The least number that is too large for a key: entries have 32 bits, all
others 64. -/
def bound : Key → Nat
  | mapEntries => UInt32.size
  | stringSize | maxStack | maxPasses => UInt64.size

end Key

/-- Sets one option. -/
def set (options : Options) (key : Key) (value : Nat) : Options :=
  match key with
  | .stringSize => { options with stringSize := value }
  | .maxStack => { options with maxStack := value }
  | .mapEntries => { options with mapEntries := value }
  | .maxPasses => { options with maxPasses := value }

/-- The value of one option. -/
def get (options : Options) : Key → Nat
  | .stringSize => options.stringSize
  | .maxStack => options.maxStack
  | .mapEntries => options.mapEntries
  | .maxPasses => options.maxPasses

/-- Why options cannot be read. -/
inductive Problem where
  | malformed
  | wrongShape
  | wrongValue (key : Key)
  | repeatedKey (key : Key)
  | badName
  | tooManyValues
deriving DecidableEq

/-- What is told about a problem. -/
def Problem.text : Problem → String
  | malformed => "malformed JSON"
  | wrongShape => "expected an object or an array"
  | wrongValue key => s!"invalid value for `{key.name}`"
  | repeatedKey key => s!"duplicate field `{key.name}`"
  | badName => "invalid member name"
  | tooManyValues => "too many values"

/-- Sets one option to a JSON value, which must be a number in range. -/
def assign (options : Options) (key : Key) (json : Json) : Except Problem Options :=
  match json.natural? with
  | some value =>
      if value < key.bound then .ok (options.set key value) else .error (.wrongValue key)
  | none => .error (.wrongValue key)

/-- Sets options from the members of an object; each key may come once. -/
def assignMembers (options : Options) (seen : List Key) :
    List (Option String × Json) → Except Problem Options
  | [] => .ok options
  | (none, _) :: _ => .error .badName
  | (some name, json) :: rest =>
      match Key.ofName? name with
      | none => assignMembers options seen rest
      | some key =>
          if key ∈ seen then .error (.repeatedKey key)
          else do
            let options ← options.assign key json
            assignMembers options (key :: seen) rest

/-- Sets options from the leading values of an array. -/
def assignValues (options : Options) : List Key → List Json → Except Problem Options
  | _, [] => .ok options
  | [], _ :: _ => .error .tooManyValues
  | key :: keys, json :: rest => do
      let options ← options.assign key json
      assignValues options keys rest

/-- Reads options from a JSON value. -/
def ofJson (json : Json) : Except Problem Options :=
  match json with
  | .object members => assignMembers {} [] members
  | .array values => assignValues {} Key.all values
  | _ => .error .wrongShape

/-- Reads options from JSON text. -/
def parse (text : String) : Except Diagnostic Options :=
  let read := match Json.parse? text with
    | some json => ofJson json
    | none => .error .malformed
  read.mapError fun problem => .invalidOptions problem.text

/-- All options as an object. -/
def toJson (options : Options) : Json :=
  .record (Key.all.map fun key => (key.name, .nat (options.get key)))

end Options

end TraceProbe

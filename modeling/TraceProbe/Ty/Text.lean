import TraceProbe.Ty.Basic

/-!
# Written types

The text of a type, as it stands in diagnostics and as the name under which
types other than records are registered.
-/

namespace TraceProbe.Ty

mutual

/-- The written form of a type. -/
def text : Ty → String
  | void => "void"
  | scalar kind => kind.name
  | pointer target => text target ++ " *"
  | array element length => s!"{text element}[{length}]"
  | record ⟨name, _, union, _⟩ => (if union then "union " else "struct ") ++ name
  | map key value _ => s!"map[{text key}]{text value}"
  | function ⟨result, parameters, variadic⟩ =>
      let written := texts parameters ++ (if variadic then ["..."] else [])
      text result ++ " (" ++ ", ".intercalate written ++ ")"
termination_by structural type => type

/-- The written forms of several types. -/
def texts : List Ty → List String
  | [] => []
  | type :: types => text type :: texts types
termination_by structural types => types

end

end TraceProbe.Ty

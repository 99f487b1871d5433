/-!
# Diagnostics and defects

A compilation that does not finish ends with a `Fault`.  Most faults are
diagnostics: they say what is wrong with the probe, the options or the
program, and most of them name a source location.  A defect is a state that
the earlier stages exclude, such as a missing operand behind an arity check.
It carries no message, since no user can act on it.
-/

namespace TraceProbe

/-- Source position of a tree node; synthesized nodes stand at `0:0`. -/
structure Loc where
  line : Nat := 0
  col : Nat := 0
deriving DecidableEq, Inhabited

/-- A position is written as line and column with a colon between them. -/
def Loc.text (loc : Loc) : String :=
  s!"{loc.line}:{loc.col}"

/-- What is wrong with a probe, its options or the program made from it. -/
inductive Diagnostic where
  /-- Operands whose types do not fit together. -/
  | typeError (description : String) (loc : Loc)
  /-- An operator applied to an expression of the wrong shape. -/
  | shapeError (description : String) (loc : Loc)
  /-- A limit of the target machine is exceeded. -/
  | resourceLimit (description : String) (loc : Loc)
  /-- Inference stopped before it found the type of this node. -/
  | unresolvedType (node : String) (loc : Loc)
  /-- An operator that the table does not hold. -/
  | unknownOperator (name : String) (loc : Loc)
  /-- An operator applied to the wrong number of arguments. -/
  | arity (operator expected : String) (got : Nat) (loc : Loc)
  /-- A construct with a meaning that cannot be compiled. -/
  | unsupported (description : String) (loc : Loc)
  /-- An inconsistency between stages of the compiler. -/
  | internal (description : String)
  /-- The finished program does not pass its checks. -/
  | rejectedProgram (description : String)
  /-- The options cannot be read. -/
  | invalidOptions (reason : String)
deriving DecidableEq, Inhabited

/-- Whether a diagnostic blames the compiler or the input. -/
inductive Severity where
  | fatal
  | recoverable
deriving DecidableEq

namespace Diagnostic

/-- The position a diagnostic points at, if it has one. -/
def loc? : Diagnostic → Option Loc
  | typeError _ loc
  | shapeError _ loc
  | resourceLimit _ loc
  | unresolvedType _ loc
  | unknownOperator _ loc
  | arity _ _ _ loc
  | unsupported _ loc => some loc
  | internal _
  | rejectedProgram _
  | invalidOptions _ => none

/-- Only inconsistencies and rejected programs are the compiler's fault. -/
def severity : Diagnostic → Severity
  | internal _
  | rejectedProgram _ => .fatal
  | _ => .recoverable

/-- The line shown to the user. -/
def message : Diagnostic → String
  | typeError description loc => s!"{loc.text}: type error: {description}"
  | shapeError description loc
  | resourceLimit description loc => s!"{loc.text}: {description}"
  | unresolvedType node loc => s!"{loc.text}: could not determine type of `{node}`"
  | unknownOperator name loc => s!"{loc.text}: unknown function `{name}`"
  | arity operator expected got loc =>
      s!"{loc.text}: `{operator}` expects {expected} argument(s), got {got}"
  | unsupported description loc => s!"{loc.text}: not supported: {description}"
  | internal description => s!"internal error: {description}"
  | rejectedProgram description => s!"verification failed: {description}"
  | invalidOptions reason => s!"invalid options: {reason}"

end Diagnostic

/-- A state that an earlier stage should have excluded. -/
inductive Defect where
  /-- An operator looks at an argument that is not there. -/
  | missingArgument
  /-- A frame offset leaves the range of a signed 16-bit number. -/
  | frameOffset
  /-- A position in the frame leaves the range of a signed 32-bit number. -/
  | framePosition
  /-- A distance in the frame leaves the range of a word of 64 bits. -/
  | distance
  /-- A slice reaches beyond the bytes that it is taken from. -/
  | slice
deriving DecidableEq, Inhabited

/-- The end of a compilation without a result. -/
inductive Fault where
  | diagnostic (cause : Diagnostic)
  | defect (cause : Defect)
deriving DecidableEq, Inhabited

/-- A step without a result of its own that may end with a fault. -/
abbrev Outcome := Except Fault Unit

namespace Fault

/-- Types that do not fit together. -/
def typeError (loc : Loc) (description : String) : Fault :=
  .diagnostic (.typeError description loc)

/-- An expression of the wrong shape. -/
def shapeError (loc : Loc) (description : String) : Fault :=
  .diagnostic (.shapeError description loc)

/-- A construct without a compilation. -/
def unsupported (loc : Loc) (description : String) : Fault :=
  .diagnostic (.unsupported description loc)

/-- An inconsistency between stages. -/
def internal (description : String) : Fault :=
  .diagnostic (.internal description)

end Fault

/-- A step that reports diagnostics is a step that may end with a fault. -/
instance : MonadLift (Except Diagnostic) (Except Fault) where
  monadLift step := step.mapError Fault.diagnostic

end TraceProbe

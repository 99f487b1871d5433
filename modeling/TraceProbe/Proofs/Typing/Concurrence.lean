import TraceProbe.Proofs.Typing.Correspondence
import TraceProbe.Proofs.Typing.Progress

/-!
# Typing rules on trees that correspond

A typing rule sees of the arguments of an operator their types, their names and
their literals, and writes nothing but types and marks.  So it does the same at
applications with arguments that correspond, or fails at both with a fault of one
kind.
-/

namespace TraceProbe

/-- The kind of a diagnostic, without its texts and its place. -/
def Diagnostic.variant : Diagnostic → Diagnostic
  | typeError _ _ => typeError "" {}
  | shapeError _ _ => shapeError "" {}
  | resourceLimit _ _ => resourceLimit "" {}
  | unresolvedType _ _ => unresolvedType "" {}
  | unknownOperator _ _ => unknownOperator "" {}
  | arity _ _ _ _ => arity "" "" 0 {}
  | unsupported _ _ => unsupported "" {}
  | internal _ => internal ""
  | rejectedProgram _ => rejectedProgram ""
  | invalidOptions _ => invalidOptions ""

/-- The kind of a fault. -/
def Fault.variant : Fault → Fault
  | diagnostic cause => .diagnostic cause.variant
  | defect cause => .defect cause

section Concurrence

variable {α β γ δ : Type} {same : α → β → Prop} {later : γ → δ → Prop}

/-- Two results that are related, or two faults of one kind. -/
inductive Concurs (same : α → β → Prop) : Except Fault α → Except Fault β → Prop
  | ok {value : α} {other : β} : same value other → Concurs same (.ok value) (.ok other)
  | error {fault fault' : Fault} : fault.variant = fault'.variant →
      Concurs same (.error fault) (.error fault')

theorem Concurs.bind {left : Except Fault α} {right : Except Fault β} {next : α → Except Fault γ}
    {next' : β → Except Fault δ} (concurs : Concurs same left right)
    (each : ∀ value other, same value other → Concurs later (next value) (next' other)) :
    Concurs later (left >>= next) (right >>= next') := by
  cases concurs with
  | ok related => exact each _ _ related
  | error equal => exact .error equal

/-- Two typing steps that end with related trees in one scope, or fail alike. -/
inductive Typed.Concurs (same : α → β → Prop) : Typed α → Typed β → Prop
  | done {tree : α} {other : β} {scope : Scope} :
      same tree other → Concurs same ⟨tree, scope, .ok ()⟩ ⟨other, scope, .ok ()⟩
  | failed {tree : α} {other : β} {scope scope' : Scope} {fault fault' : Fault} :
      fault.variant = fault'.variant →
        Concurs same ⟨tree, scope, .error fault⟩ ⟨other, scope', .error fault'⟩

theorem Typed.Concurs.outcome {tree : α} {other : β} {scope : Scope} {left right : Outcome}
    (concurs : TraceProbe.Concurs Eq left right) (related : same tree other) :
    Typed.Concurs same ⟨tree, scope, left⟩ ⟨other, scope, right⟩ := by
  cases concurs with
  | ok _ => exact .done related
  | error equal => exact .failed equal

end Concurrence

namespace Node

variable {node other : Node} {operator : String} {args args' : List Node} {info info' : Info}
  {options : Options} {scope : Scope} {type : Ty} {name : String}

/-- Applications of a shape, with arguments and findings that correspond. -/
structure Matched (operator : String) (args args' : List Node) (info info' : Info) : Prop where
  shape : Shape operator args
  inner : List.Forall₂ Corresponds args args'
  alike : info.Alike info'

namespace Matched

theorem whole (matched : Matched operator args args' info info') :
    Corresponds (apply operator args info) (apply operator args' info') :=
  .apply matched.shape matched.inner matched.alike

theorem typed (matched : Matched operator args args' info info') :
    (apply operator args' info').type? = (apply operator args info).type? :=
  matched.alike.type

theorem argument (matched : Matched operator args args' info info') (index : Nat) :
    Concurs Corresponds ((apply operator args info).argument index)
      ((apply operator args' info').argument index) := by
  unfold Node.argument
  dsimp only [Node.args]
  rcases getElem?_of_forall₂ matched.inner index with ⟨none, none'⟩ | ⟨arg, arg', some, some', same⟩
  · rw [none, none']
    exact .error rfl
  · rw [some, some']
    exact .ok same

theorem memberName (matched : Matched operator args args' info info') :
    Concurs Eq (apply operator args info).memberName (apply operator args' info').memberName := by
  have named : args'[1]?.bind str? = args[1]?.bind str? := by
    rcases getElem?_of_forall₂ matched.inner 1 with ⟨none, none'⟩ | ⟨arg, arg', some, some', same⟩
    · rw [none, none']
    · rw [some, some']
      exact same.str?_eq
  unfold Node.memberName
  dsimp only [Node.args]
  rw [named]
  cases args[1]?.bind str? with
  | none => exact .error rfl
  | some name => exact .ok rfl

theorem folded (matched : Matched operator args args' info info') (index : Nat) (type : Ty) :
    Corresponds (((apply operator args info).modifyArgument index Node.asVirtual).fillType type)
      (((apply operator args' info').modifyArgument index Node.asVirtual).fillType type) :=
  corresponds_folded matched.shape matched.inner matched.alike index type

theorem filled (matched : Matched operator args args' info info') (type : Ty) :
    Corresponds ((apply operator args info).fillType type)
      ((apply operator args' info').fillType type) := by
  apply matched.whole.fillType
  intro arrow
  exact matched.shape.ne_arrow (Option.some.inj arrow)

end Matched

theorem concurs_ofRule {rule rule' : Except Fault Node} (concurs : Concurs Corresponds rule rule') :
    Typed.Concurs Corresponds (.ofRule node scope rule) (.ofRule other scope rule') := by
  cases concurs with
  | ok same => exact .done same
  | error equal => exact .failed equal

theorem recordType_eq (same : Corresponds node other) (type : Ty) (symbols : Symbols) :
    other.recordType type symbols = node.recordType type symbols := by
  rw [recordType, recordType, same.type?_eq, same.ident?_eq]

theorem concurs_knownType (same : Corresponds node other) :
    Concurs Eq node.knownType other.knownType := by
  unfold knownType
  rw [same.type?_eq]
  cases node.type? with
  | none => exact .error rfl
  | some type => exact .ok rfl

section Records

theorem concurs_memberType (node other base base' : Node) (type : Ty) (name : String) :
    Concurs Eq (node.memberType base type name) (other.memberType base' type name) := by
  unfold memberType
  cases type.record? with
  | none => exact .error rfl
  | some shape =>
      dsimp only
      cases shape.field? name with
      | none => exact .error rfl
      | some field => exact .ok rfl

theorem concurs_typeDot (matched : Matched operator args args' info info') :
    Concurs Corresponds (apply operator args info).typeDot
      (apply operator args' info').typeDot := by
  unfold typeDot
  rw [matched.typed]
  split
  · exact .ok matched.whole
  · refine (matched.argument 0).bind ?_
    intro base base' same
    rw [same.type?_eq]
    cases base.type? with
    | none => exact .ok matched.whole
    | some type =>
        refine matched.memberName.bind ?_
        intro name _ equal
        subst equal
        refine (concurs_memberType _ _ base base' type name).bind ?_
        intro found _ equal
        subst equal
        exact .ok (matched.folded 1 found)

theorem concurs_typeDeref (matched : Matched operator args args' info info') :
    Concurs Corresponds (apply operator args info).typeDeref
      (apply operator args' info').typeDeref := by
  unfold typeDeref
  rw [matched.typed]
  split
  · exact .ok matched.whole
  · refine (matched.argument 0).bind ?_
    intro pointer pointer' same
    rw [same.type?_eq]
    cases pointer.type? with
    | none => exact .ok matched.whole
    | some type =>
        cases type with
        | pointer target => exact .ok (matched.filled target)
        | _ => exact .error rfl

theorem valueTypes?_eq (inner : List.Forall₂ Corresponds args args') :
    valueTypes? args' = valueTypes? args := by
  induction inner with
  | nil => rfl
  | cons same _ ih => rw [valueTypes?, valueTypes?, same.type?_eq, ih]

theorem concurs_typeStructLiteral
    (matched : Matched operator args args' info info') (scope : Scope) :
    Typed.Concurs Corresponds ((apply operator args info).typeStructLiteral scope)
      ((apply operator args' info').typeStructLiteral scope) := by
  unfold typeStructLiteral
  have members : valueTypes? (apply operator args' info').args =
      valueTypes? (apply operator args info).args :=
    valueTypes?_eq matched.inner
  rw [matched.typed, members]
  cases (apply operator args info).type? with
  | some type => exact .done matched.whole
  | none =>
      cases valueTypes? (apply operator args info).args with
      | none => exact .done matched.whole
      | some members =>
          dsimp only [Typed.fill]
          rw [recordType_eq matched.whole]
          exact .done (matched.filled _)

end Records

section Subscripts

variable {collection collection' key key' : Node}

theorem concurs_indexedType (node other collection collection' : Node)
    (keyed : Corresponds key key') (collectionType keyType element : Ty) (length? : Option Nat) :
    Concurs Eq (node.indexedType collection key collectionType keyType element length?)
      (other.indexedType collection' key' collectionType keyType element length?) := by
  unfold indexedType
  rw [keyed.num?_eq]
  cases keyType.isScalar with
  | false => exact .error rfl
  | true =>
      cases key.num? with
      | none => exact .ok rfl
      | some position =>
          cases length? with
          | none => exact .ok rfl
          | some length =>
              simp only [Bool.not_true, Bool.false_eq_true, if_false]
              split
              · exact .error rfl
              · exact .ok rfl

theorem concurs_elementType (node other collection collection' : Node)
    (keyed : Corresponds key key') (collectionType keyType : Ty) :
    Concurs Eq (node.elementType collection key collectionType keyType)
      (other.elementType collection' key' collectionType keyType) := by
  unfold elementType
  cases collectionType with
  | array element length =>
      exact concurs_indexedType node other _ _ keyed _ keyType element (some length)
  | pointer target => exact concurs_indexedType node other _ _ keyed _ keyType target none
  | map mapKey value kind =>
      dsimp only
      split
      · exact .ok rfl
      · exact .error rfl
  | _ => exact .error rfl

theorem concurs_typeElement (matched : Matched operator args args' info info')
    (keyed : Corresponds key key') (collectionType keyType : Ty) :
    Concurs Corresponds
      ((apply operator args info).typeElement collection key collectionType keyType)
      ((apply operator args' info').typeElement collection' key' collectionType keyType) := by
  refine (concurs_elementType _ _ _ _ keyed collectionType keyType).bind ?_
  intro type _ equal
  subst equal
  rw [keyed.num?_eq]
  refine .ok ?_
  split
  · exact matched.folded 1 type
  · exact matched.filled type

theorem concurs_checkElement (node other collection collection' key key' : Node)
    (collectionType keyType type : Ty) :
    Concurs Eq (node.checkElement collection key collectionType keyType type)
      (other.checkElement collection' key' collectionType keyType type) := by
  unfold checkElement
  cases collectionType with
  | map mapKey value kind =>
      dsimp only
      split
      · exact .error rfl
      · split
        · exact .error rfl
        · exact .ok rfl
  | _ => exact .ok rfl

/-- The collection of a subscript, unless it is no name, gets a type on both sides. -/
theorem concurs_typeCollection (matched : Matched operator args args' info info')
    (first : args[0]? = some collection)
    (collected : Corresponds collection collection') (keyType type : Ty) (scope : Scope) :
    Typed.Concurs Corresponds
      ((apply operator args info).typeCollection collection keyType type scope)
      ((apply operator args' info').typeCollection collection' keyType type scope) := by
  unfold typeCollection
  rw [collected.ident?_eq]
  cases named : collection.ident? with
  | none => exact .failed rfl
  | some name =>
      dsimp only
      rw [recordType_eq collected]
      refine .done (corresponds_modifyArgument matched.shape matched.inner matched.alike 0
        (Kept.fillType · _) ?_)
      intro arg arg' place same
      obtain rfl := Option.some.inj (first.symm.trans place)
      refine same.fillType ?_ _
      cases collection with
      | ident _ _ => exact fun none => by cases none
      | apply _ _ _ | str _ _ | num _ _ _ => cases named

theorem concurs_typeSubscript (matched : Matched operator args args' info info') (scope : Scope) :
    Typed.Concurs Corresponds ((apply operator args info).typeSubscript scope)
      ((apply operator args' info').typeSubscript scope) := by
  unfold typeSubscript
  rw [matched.typed]
  have inner := matched.inner
  cases inner with
  | nil => exact .done matched.whole
  | cons first rest =>
      cases rest with
      | nil => exact .done matched.whole
      | cons second rest =>
          cases rest with
          | cons _ _ => exact .done matched.whole
          | nil =>
              dsimp only [Node.args]
              rw [first.type?_eq, second.type?_eq]
              split
              · exact concurs_ofRule (concurs_typeElement matched second _ _)
              · exact concurs_typeCollection matched rfl first _ _ scope
              · exact .outcome (concurs_checkElement _ _ _ _ _ _ _ _ _) matched.whole
              · exact .done matched.whole

end Subscripts

section Assignments

variable {target target' : Node}

theorem concurs_checkAssignable (matched : Matched operator args args' info info')
    (targetType valueType : Ty) :
    Concurs Eq ((apply operator args info).checkAssignable targetType valueType)
      ((apply operator args' info').checkAssignable targetType valueType) := by
  unfold checkAssignable
  split
  · exact .ok rfl
  · have inner := matched.inner
    cases inner with
    | nil => exact .error rfl
    | cons _ rest =>
        cases rest with
        | nil => exact .error rfl
        | cons _ rest => cases rest <;> exact .error rfl

/-- The target of an assignment is no arrow. -/
theorem concurs_typeTarget (matched : Matched operator args args' info info')
    (first : args[0]? = some target) (targeted : Corresponds target target')
    (applied : target.applies "[]" = true) (valueType : Ty) (scope : Scope) :
    Typed.Concurs Corresponds ((apply operator args info).typeTarget target valueType scope)
      ((apply operator args' info').typeTarget target' valueType scope) := by
  unfold typeTarget
  rw [targeted.type?_eq]
  cases target.type? with
  | none =>
      dsimp only
      rw [recordType_eq targeted]
      refine .done (Corresponds.fillType ?_ ?_ .void)
      · refine corresponds_modifyArgument matched.shape matched.inner matched.alike 0
          (Kept.fillType · _) ?_
        intro arg arg' place same
        obtain rfl := Option.some.inj (first.symm.trans place)
        refine same.fillType ?_ _
        intro arrow
        rw [applies, arrow] at applied
        exact absurd applied (by decide)
      · intro arrow
        exact matched.shape.ne_arrow (Option.some.inj arrow)
  | some targetType =>
      refine concurs_ofRule ((concurs_checkAssignable matched targetType valueType).bind ?_)
      intro _ _ _
      exact .ok (matched.filled .void)

theorem concurs_typeAssign (matched : Matched operator args args' info info')
    (targets : ∀ target, args[0]? = some target → target.applies "[]" = true) (scope : Scope) :
    Typed.Concurs Corresponds ((apply operator args info).typeAssign scope)
      ((apply operator args' info').typeAssign scope) := by
  unfold typeAssign
  rw [matched.typed]
  split
  · exact .done matched.whole
  · have inner := matched.inner
    cases inner with
    | nil => exact .failed rfl
    | cons first rest =>
        cases rest with
        | nil => exact .failed rfl
        | @cons value value' _ _ second rest =>
            dsimp only [Node.args]
            rw [second.type?_eq]
            cases value.type? with
            | none => exact .done matched.whole
            | some valueType =>
                dsimp only
                split
                · exact .failed rfl
                · exact concurs_typeTarget matched rfl first (targets _ rfl) valueType scope

end Assignments

section Strings

theorem argumentsTyped_eq (matched : Matched operator args args' info info') :
    (apply operator args' info').argumentsTyped = (apply operator args info).argumentsTyped := by
  have each : args'.all (·.type?.isSome) = args.all (·.type?.isSome) := by
    obtain ⟨-, inner, -⟩ := matched
    induction inner with
    | nil => rfl
    | cons same _ ih => rw [List.all_cons, List.all_cons, same.type?_eq, ih]
  exact each

theorem concurs_foldLiterals (inner : List.Forall₂ Corresponds args args') :
    List.Forall₂ Corresponds (foldLiterals args).1 (foldLiterals args').1 ∧
      Concurs Eq (foldLiterals args).2 (foldLiterals args').2 := by
  induction inner with
  | nil => exact ⟨.nil, .ok rfl⟩
  | @cons operand operand' _ _ same rest ih =>
      simp only [foldLiterals, same.str?_eq, same.type?_eq]
      cases operand.str? with
      | some value => exact ⟨.cons same.asVirtual ih.1, ih.2⟩
      | none =>
          cases operand.type? with
          | none => exact ⟨.cons same rest, .error rfl⟩
          | some type =>
              dsimp only
              split
              · exact ⟨.cons same ih.1, ih.2⟩
              · exact ⟨.cons same rest, .error rfl⟩

theorem countP_str?_eq (inner : List.Forall₂ Corresponds args args') :
    args'.countP (·.str?.isSome) = args.countP (·.str?.isSome) := by
  induction inner with
  | nil => rfl
  | cons same _ ih => rw [List.countP_cons, List.countP_cons, same.str?_eq, ih]

theorem concurs_typeStrcmp (matched : Matched operator args args' info info') (scope : Scope) :
    Typed.Concurs Corresponds ((apply operator args info).typeStrcmp scope)
      ((apply operator args' info').typeStrcmp scope) := by
  obtain ⟨operands, outcome⟩ := concurs_foldLiterals matched.inner
  have folded : Matched operator (foldLiterals args).1 (foldLiterals args').1 info info' :=
    ⟨matched.shape.of_bares (kept_foldLiterals args).bares.symm, operands, matched.alike⟩
  unfold typeStrcmp
  rw [matched.typed, argumentsTyped_eq matched]
  split
  · exact .done matched.whole
  · dsimp only [Node.args, withArguments]
    generalize (foldLiterals args).2 = ends, (foldLiterals args').2 = ends' at outcome
    cases outcome with
    | error equal => exact .failed equal
    | ok _ =>
        dsimp only
        rw [countP_str?_eq operands]
        split
        · exact .failed rfl
        · dsimp only [Typed.fill]
          rw [recordType_eq folded.whole]
          exact .done (folded.filled .int)

theorem concurs_checkAddress (node other : Node) {source source' : Node}
    (same : Corresponds source source') :
    Concurs Eq (node.checkAddress source) (other.checkAddress source') := by
  refine (concurs_knownType same).bind ?_
  intro type _ equal
  subst equal
  cases Width.ofBytes? type.size with
  | none => exact .error rfl
  | some width => exact .ok rfl

theorem concurs_readLength (node other : Node) {length length' : Node}
    (same : Corresponds length length')
    (maxStack : Nat) :
    Concurs Eq (node.readLength length maxStack) (other.readLength length' maxStack) := by
  unfold readLength
  rw [same.num?_eq]
  cases length.num? with
  | none => exact (concurs_knownType same).bind fun _ _ _ => .error rfl
  | some count =>
      dsimp only
      split
      · exact .error rfl
      · split
        · exact .error rfl
        · exact .ok rfl

theorem concurs_typeRead (matched : Matched operator args args' info info') (options : Options) :
    Concurs Corresponds ((apply operator args info).typeRead options)
      ((apply operator args' info').typeRead options) := by
  unfold typeRead
  rw [matched.typed, argumentsTyped_eq matched]
  split
  · exact .ok matched.whole
  · refine (matched.argument 0).bind ?_
    intro source source' same
    refine (concurs_checkAddress _ _ same).bind ?_
    intro _ _ _
    dsimp only [Node.args]
    rcases getElem?_of_forall₂ matched.inner 1 with ⟨none, none'⟩ | ⟨arg, arg', some, some', same⟩
    · rw [none, none']
      exact .ok (matched.filled _)
    · rw [some, some']
      refine (concurs_readLength _ _ same options.maxStack).bind ?_
      intro count _ equal
      subst equal
      exact .ok (matched.folded 1 _)

end Strings

theorem concurs_inferApplication
    (matched : Matched operator args args' info info') (scope : Scope) :
    Typed.Concurs Corresponds (inferApplication options (apply operator args info) scope)
      (inferApplication options (apply operator args' info') scope) := by
  cases matched.shape with
  | dot named => exact concurs_ofRule (concurs_typeDot matched)
  | deref pointer => exact concurs_ofRule (concurs_typeDeref matched)
  | structLiteral some => exact concurs_typeStructLiteral matched scope
  | subscript collection key => exact concurs_typeSubscript matched scope
  | assign value targets =>
      exact concurs_typeAssign matched (fun target place => Option.some.inj place ▸ targets) scope
  | delete targets => exact .done (matched.filled .void)
  | strcmp left right => exact concurs_typeStrcmp matched scope
  | mem source short => exact concurs_ofRule (concurs_typeRead matched options)
  | str source short => exact concurs_ofRule (concurs_typeRead matched options)

end Node

end TraceProbe

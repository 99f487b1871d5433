import TraceProbe.Proofs.Typing.Concurrence
import TraceProbe.Proofs.Typing.FixedPoint

/-!
# Typing of arrows

Inference works on arrows as it does on the dots and dereferences that they stand
for.  After any number of passes, a tree and its expansion have the same types and
the same scope, or have failed in the same pass with a fault of one kind.
-/

namespace TraceProbe.Node

variable {node other : Node} {args args' : List Node} {info info' : Info} {options : Options}
  {scope : Scope} {type : Ty}

section Arrows

variable {base base' pointer : Node} {member : String} {object memberInfo memberInfo' : Info}
  {target : Ty}

theorem typeDeref_pointer (known : pointer.type? = some (.pointer target))
    (points : object.type = none ∨ object.type = some target) :
    (apply "u*" [pointer] object).typeDeref =
      .ok (apply "u*" [pointer] { object with type := some target }) := by
  have first : (apply "u*" [pointer] object).argument 0 = .ok pointer := rfl
  unfold typeDeref
  rcases points with free | reached
  · have waits : (apply "u*" [pointer] object).type? = none := free
    rw [waits, if_neg (by decide)]
    simp only [first, bind, Except.bind, known]
    rw [fillType_of_free waits]
    rfl
  · have typed : (apply "u*" [pointer] object).type? = some target := reached
    rw [typed, if_pos Option.isSome_some, ← reached]
    rfl

theorem typeDeref_waits (free : pointer.type? = none) :
    (apply "u*" [pointer] object).typeDeref = .ok (apply "u*" [pointer] object) := by
  have first : (apply "u*" [pointer] object).argument 0 = .ok pointer := rfl
  unfold typeDeref
  split
  · rfl
  · simp only [first, bind, Except.bind, free]
    rfl

theorem typeArrow_waits {name : Node} (free : base.type? = none) :
    (apply "->" [base, name] info).typeArrow = .ok (apply "->" [base, name] info) := by
  have first : (apply "->" [base, name] info).argument 0 = .ok base := rfl
  unfold typeArrow
  split
  · rfl
  · simp only [first, bind, Except.bind, free]
    rfl

theorem typeDot_waits {deref name : Node} (free : deref.type? = none) :
    (apply "." [deref, name] info).typeDot = .ok (apply "." [deref, name] info) := by
  have first : (apply "." [deref, name] info).argument 0 = .ok deref := rfl
  unfold typeDot
  split
  · rfl
  · simp only [first, bind, Except.bind, free]
    rfl

/-- What is no pointer is not followed, with an arrow or without. -/
theorem concurs_unpointed (known : base.type? = some type) (known' : base'.type? = some type)
    (unpointed : type.pointed? = none) (untyped : info.type = none) (free : object.type = none) :
    ∃ fault fault' : Fault, fault.variant = fault'.variant ∧
      (apply "->" [base, str member memberInfo] info).typeArrow = .error fault ∧
      (apply "u*" [base'] object).typeDeref = .error fault' := by
  have waits : (apply "->" [base, str member memberInfo] info).type?.isSome ≠ true := by
    simp [type?, Node.info, untyped]
  have waits' : (apply "u*" [base'] object).type?.isSome ≠ true := by
    simp [type?, Node.info, free]
  unfold typeArrow typeDeref
  rw [if_neg waits, if_neg waits']
  have first : (apply "->" [base, str member memberInfo] info).argument 0 = .ok base := rfl
  have first' : (apply "u*" [base'] object).argument 0 = .ok base' := rfl
  simp only [first, first', bind, Except.bind, known, known']
  cases type with
  | pointer target => cases unpointed
  | _ => exact ⟨_, _, by rfl, rfl, rfl⟩

/-- The member that an arrow finds is that of the dereferenced record. -/
theorem concurs_pointed (inner : Corresponds base base')
    (known : base.type? = some (.pointer target))
    (reaches : object.type = some target) (folded : memberInfo.Alike memberInfo')
    (alike : info.Alike info') :
    Concurs Corresponds (apply "->" [base, str member memberInfo] info).typeArrow
      (apply "." [apply "u*" [base'] object, str member memberInfo'] info').typeDot := by
  have points : object.type = base.type?.bind Ty.pointed? := by rw [reaches, known]; rfl
  have typed : object.type.isSome := by rw [reaches]; rfl
  have whole : Corresponds (apply "->" [base, str member memberInfo] info)
      (apply "." [apply "u*" [base'] object, str member memberInfo'] info') :=
    .arrow inner points (fun _ => typed) folded alike
  unfold typeArrow typeDot
  rw [whole.type?_eq]
  split
  · exact .ok whole
  · rename_i free
    have first : (apply "->" [base, str member memberInfo] info).argument 0 = .ok base := rfl
    have first' : (apply "." [apply "u*" [base'] object, str member memberInfo'] info').argument 0 =
        .ok (apply "u*" [base'] object) := rfl
    have found : (apply "u*" [base'] object).type? = some target := reaches
    simp only [first, first', bind, Except.bind, known, found]
    have named : Concurs Eq (apply "->" [base, str member memberInfo] info).memberName
        (apply "." [apply "u*" [base'] object, str member memberInfo'] info').memberName :=
      .ok (Eq.refl member)
    refine named.bind ?_
    intro name _ equal
    subst equal
    refine (concurs_memberType _ _ base (apply "u*" [base'] object) target name).bind ?_
    intro type _ equal
    subst equal
    have untyped : ((apply "->" [base, str member memberInfo] info).modifyArgument 1
        Node.asVirtual).type? = none := free_of_untyped free
    have untyped' :
        ((apply "." [apply "u*" [base'] object, str member memberInfo'] info').modifyArgument 1
        Node.asVirtual).type? = none := alike.type.trans untyped
    have filled : Corresponds
        (apply "->" [base, (str member memberInfo).asVirtual] { info with type := some type })
        (apply "." [apply "u*" [base'] object, (str member memberInfo').asVirtual]
          { info' with type := some type }) :=
      .arrow inner points (fun _ => typed) ⟨folded.type, rfl⟩ ⟨rfl, alike.isVirtual⟩
    rw [fillType_of_free untyped, fillType_of_free untyped']
    exact .ok filled

/-- Where an arrow cannot be followed, nor can its dereference.  Otherwise the dot
behind the dereference does what the arrow does. -/
theorem concurs_arrow (inner : Corresponds base base') {earlier : Option Ty}
    (kept : ∀ type, earlier = some type → base.type? = some type)
    (points : object.type = earlier.bind Ty.pointed?)
    (typed : info.type.isSome → object.type.isSome)
    (folded : memberInfo.Alike memberInfo') (alike : info.Alike info') :
    (∃ fault fault' : Fault, fault.variant = fault'.variant ∧
      (apply "->" [base, str member memberInfo] info).typeArrow = .error fault ∧
      (apply "u*" [base'] object).typeDeref = .error fault') ∨
    ∃ found, (apply "u*" [base'] object).typeDeref = .ok found ∧
      Concurs Corresponds (apply "->" [base, str member memberInfo] info).typeArrow
        (apply "." [found, str member memberInfo'] info').typeDot := by
  cases known : base.type? with
  | none =>
      have free : object.type = none := by
        cases earlier with
        | none => exact points
        | some type => cases known.symm.trans (kept type rfl)
      refine .inr ⟨_, typeDeref_waits (inner.type?_eq.trans known), ?_⟩
      rw [typeArrow_waits known,
        typeDot_waits (show (apply "u*" [base'] object).type? = none from free)]
      exact .ok (.arrow inner (by rw [free, known]; rfl) typed folded alike)
  | some type =>
      have known' : base'.type? = some type := inner.type?_eq.trans known
      have reaches : object.type = none ∨ object.type = type.pointed? := by
        cases earlier with
        | none => exact .inl points
        | some first =>
            obtain rfl := Option.some.inj (known.symm.trans (kept first rfl))
            exact .inr points
      cases pointed : type.pointed? with
      | none =>
          have free : object.type = none := by rw [pointed, or_self] at reaches; exact reaches
          have untyped : info.type = none := by
            cases found : info.type with
            | none => rfl
            | some _ => simp [found, free] at typed
          exact .inl (concurs_unpointed known known' pointed untyped free)
      | some target =>
          obtain rfl : type = .pointer target := by
            cases type <;> cases pointed
            rfl
          exact .inr ⟨_, typeDeref_pointer known' reaches,
            concurs_pointed inner known rfl folded alike⟩

end Arrows

section Visits

theorem concurs_inferAll (each : ∀ node ∈ args, ∀ other, Corresponds node other → ∀ scope,
      Typed.Concurs Corresponds (infer options node scope) (infer options other scope))
    (inner : List.Forall₂ Corresponds args args') (scope : Scope) :
    Typed.Concurs (List.Forall₂ Corresponds) (inferAll options args scope)
      (inferAll options args' scope) := by
  induction inner generalizing scope with
  | nil => exact .done .nil
  | @cons node other nodes others same _ ih =>
      have first := each node List.mem_cons_self other same scope
      have rest := ih fun arg member => each arg (List.mem_cons_of_mem _ member)
      rw [inferAll, inferAll]
      generalize infer options node scope = visit, infer options other scope = visit' at first
      cases first with
      | failed equal => exact .failed equal
      | @done tree tree' middle found =>
          replace rest := rest middle
          dsimp only
          generalize inferAll options nodes middle = visits,
              inferAll options others middle = visits' at rest
          cases rest with
          | failed equal => exact .failed equal
          | done trees => exact .done (.cons found trees)

theorem fillType_str (value : String) (info : Info) (type : Ty) :
    (str value info).fillType type = str value { info with type := info.type.or (some type) } := by
  obtain ⟨found, storage, loc, isVirtual⟩ := info
  cases found <;> rfl

/-- An arrow and its expansion are visited after their base. -/
theorem concurs_infer_arrow {base base' : Node} {member : String}
    {object memberInfo memberInfo' : Info}
    (visited : Typed.Concurs Corresponds (infer options base scope) (infer options base' scope))
    (points : object.type = base.type?.bind Ty.pointed?)
    (typed : info.type.isSome → object.type.isSome)
    (folded : memberInfo.Alike memberInfo') (alike : info.Alike info') :
    Typed.Concurs Corresponds (infer options (apply "->" [base, str member memberInfo] info) scope)
      (infer options (apply "." [apply "u*" [base'] object, str member memberInfo'] info')
        scope) := by
  have kept := (Node.visited options base scope).kept
  simp only [infer, inferAll]
  generalize infer options base scope = visit, infer options base' scope = visit' at visited kept
  cases visited with
  | failed equal => exact .failed equal
  | @done tree tree' middle same =>
      have folded' : Info.Alike
          { memberInfo with type := memberInfo.type.or (some (literalType member)) }
          { memberInfo' with type := memberInfo'.type.or (some (literalType member)) } :=
        ⟨by rw [folded.type], folded.isVirtual⟩
      rw [fillType_str, fillType_str]
      have arrow (member : Node) : inferApplication options
          (apply "->" [tree, member] info) middle =
          .ofRule _ middle (apply "->" [tree, member] info).typeArrow := rfl
      have deref : inferApplication options (apply "u*" [tree'] object) middle =
          .ofRule _ middle (apply "u*" [tree'] object).typeDeref := rfl
      dsimp only
      rw [arrow, deref]
      rcases concurs_arrow same (fun _ => kept.typed) points typed folded' alike with
        ⟨fault, fault', equal, fails, fails'⟩ | ⟨found, follows, concurs⟩
      · rw [fails, fails']
        exact .failed equal
      · rw [follows]
        exact concurs_ofRule concurs

theorem concurs_infer (same : Corresponds node other) (scope : Scope) :
    Typed.Concurs Corresponds (infer options node scope) (infer options other scope) := by
  induction node using induct generalizing other scope with
  | leaf node leaf =>
      cases same with
      | apply _ _ _ | arrow _ _ _ _ _ => cases leaf
      | str alike => exact .done (Corresponds.fillType (.str alike) (fun arrow => by cases arrow) _)
      | num alike => exact .done (Corresponds.fillType (.num alike) (fun arrow => by cases arrow) _)
      | ident alike =>
          rw [infer, infer, alike.type]
          split
          · exact .done (.ident alike)
          · exact .done (.ident ⟨rfl, alike.isVirtual⟩)
  | apply operator args info ih =>
      cases same with
      | @apply _ _ args' _ _ shape inner alike =>
          have kept := (visitedAll_statements options args scope).kept
          have visits :=
            concurs_inferAll (fun arg member other same => ih arg member same) inner scope
          rw [infer, infer]
          generalize inferAll options args scope = left,
              inferAll options args' scope = right at visits kept
          cases visits with
          | failed equal => exact .failed equal
          | done trees =>
              exact concurs_inferApplication ⟨shape.of_bares kept.bares.symm, trees, alike⟩ _
      | arrow inner points typed folded alike =>
          exact concurs_infer_arrow (ih _ List.mem_cons_self inner scope) points typed folded alike

end Visits

section Passes

/-- So many passes over a tree.  A fault comes with the number of passes before the
one that failed. -/
def inferTimes (options : Options) : Nat → Node → Scope → Except (Nat × Fault) (Node × Scope)
  | 0, node, scope => .ok (node, scope)
  | count + 1, node, scope =>
      let pass := infer options node scope
      match pass.outcome with
      | .error fault => .error (0, fault)
      | .ok () =>
          (inferTimes options count pass.tree pass.scope).mapError fun (number, fault) =>
            (number + 1, fault)

/-- Passes that leave trees that correspond and the same scope, or fail both at one
number with a fault of one kind. -/
inductive SameVerdict : Except (Nat × Fault) (Node × Scope) →
    Except (Nat × Fault) (Node × Scope) → Prop
  | typed {node other : Node} {scope : Scope} :
      Corresponds node other → SameVerdict (.ok (node, scope)) (.ok (other, scope))
  | failed {number : Nat} {fault fault' : Fault} :
      fault.variant = fault'.variant →
      SameVerdict (.error (number, fault)) (.error (number, fault'))

theorem sameVerdict_inferTimes (same : Corresponds node other) (scope : Scope) (count : Nat) :
    SameVerdict (inferTimes options count node scope) (inferTimes options count other scope) := by
  induction count generalizing node other scope with
  | zero => exact .typed same
  | succ count ih =>
      have pass : Typed.Concurs Corresponds (infer options node scope)
          (infer options other scope) :=
        concurs_infer same scope
      rw [inferTimes, inferTimes]
      generalize infer options node scope = left, infer options other scope = right at pass
      cases pass with
      | failed equal => exact .failed equal
      | @done tree tree' later found =>
          have rest := ih found later
          dsimp only
          generalize inferTimes options count tree later = left,
            inferTimes options count tree' later = right at rest
          cases rest with
          | typed last => exact .typed last
          | failed equal => exact .failed equal

/-- A valid tree is expanded, and after any number of passes it has the types and the
scope of its expansion, or both have failed alike in the same pass. -/
theorem arrow_inference_agrees (fresh : node.Fresh)
    (valid : node.validate = .ok ()) (options : Options) (scope : Scope) (count : Nat) :
    node.expand.outcome = .ok () ∧
      SameVerdict (inferTimes options count node scope)
        (inferTimes options count node.expand.tree scope) := by
  obtain ⟨expanded, same⟩ := corresponds_expand fresh valid
  exact ⟨expanded, sameVerdict_inferTimes same scope count⟩

/-- `m[0] = p->next->pid`, for a context variable `p`. -/
def followed : Node :=
  apply "="
    [apply "[]" [ident "m" {}, num 0 false {}] {},
      apply "->" [apply "->" [ident "p" {}, str "next" {}] {}, str "pid" {}] {}] {}

/-- A record that ends a chain of pointers. -/
def lastShape : Record :=
  { name := "last", fields := [⟨"pid", .scalar .s32⟩] }

/-- One context variable, which points to a record that points to the last one. -/
def followedScope : Scope :=
  ⟨(Symbols.declareContext {} "p"
    (.pointer (.record { name := "first", fields := [⟨"next", .pointer (.record lastShape)⟩] }))
    0).2, .new⟩

/-- One context variable, which is a number. -/
def numberScope : Scope :=
  ⟨(Symbols.declareContext {} "p" .u64 0).2, .new⟩

theorem arrow_inference_agrees_followed :
    followed.Fresh ∧ followed.validate = .ok () ∧
      (SameVerdict (inferTimes {} 2 followed followedScope)
        (inferTimes {} 2 followed.expand.tree followedScope) ∧
        (inferTimes {} 2 followed followedScope).toOption.isSome) ∧
      SameVerdict (inferTimes {} 2 followed numberScope)
        (inferTimes {} 2 followed.expand.tree numberScope) ∧
        ∃ fault, inferTimes {} 2 followed numberScope = .error (0, fault) := by
  have fresh : followed.Fresh := by
    simp [followed, fresh_apply_iff, fresh_ident_iff, fresh_str_iff, fresh_num_iff]
  have valid : followed.validate = .ok () := rfl
  exact ⟨fresh, valid, ⟨(arrow_inference_agrees fresh valid {} followedScope 2).2, rfl⟩,
    (arrow_inference_agrees fresh valid {} numberScope 2).2, _, rfl⟩

end Passes

end TraceProbe.Node

import TraceProbe.Proofs.Node.Parts
import TraceProbe.Typing.Inference

/-!
# Passes of inference

What a pass that ends well has gone through, and when every node is typed.
-/

namespace TraceProbe.Node

variable {options : Options} {scope finish : Scope}

theorem inferAll_cons_ok {node : Node} {nodes trees : List Node}
    (found : inferAll options (node :: nodes) scope = ⟨trees, finish, .ok ()⟩) :
    ∃ first middle others, infer options node scope = ⟨first, middle, .ok ()⟩ ∧
      inferAll options nodes middle = ⟨others, finish, .ok ()⟩ ∧ trees = first :: others := by
  rw [inferAll] at found
  rcases head : infer options node scope with ⟨first, middle, result⟩
  simp only [head] at found
  cases result with
  | error fault => cases found
  | ok value =>
      simp only at found
      rcases tail : inferAll options nodes middle with ⟨others, last, outcome⟩
      simp only [tail] at found
      cases found
      exact ⟨first, middle, others, rfl, tail, rfl⟩

theorem infer_apply_ok {operator : String} {args : List Node} {info : Info} {tree : Node}
    (found : infer options (apply operator args info) scope = ⟨tree, finish, .ok ()⟩) :
    ∃ trees middle, inferAll options args scope = ⟨trees, middle, .ok ()⟩ ∧
      inferApplication options (apply operator trees info) middle = ⟨tree, finish, .ok ()⟩ := by
  rw [infer] at found
  rcases inner : inferAll options args scope with ⟨trees, middle, result⟩
  simp only [inner] at found
  cases result with
  | error fault => cases found
  | ok value => exact ⟨trees, middle, rfl, found⟩

theorem infer_ident {name : String} {info : Info} (free : info.type = none) :
    infer options (ident name info) scope =
      ⟨ident name { info with type := (scope.symbols.resolve name).1.type },
        { scope with symbols := (scope.symbols.resolve name).2 }, .ok ()⟩ := by
  rw [infer, if_neg (by simp [free])]

theorem fillType_of_type? {node : Node} {known : Ty} (typed : node.type? = some known) (type : Ty) :
    node.fillType type = node := by
  rw [fillType, typed]

theorem fillType_of_free {node : Node} (free : node.type? = none) (type : Ty) :
    node.fillType type = node.withType type := by
  rw [fillType, free]

/-- So many passes over all statements, up to the first that fails. -/
def passes (options : Options) : Nat → List Node → Scope → Typed (List Node)
  | 0, statements, scope => ⟨statements, scope, .ok ()⟩
  | count + 1, statements, scope =>
      let first := inferAll options statements scope
      match first.outcome with
      | .error fault => ⟨first.tree, first.scope, .error fault⟩
      | .ok () => passes options count first.tree first.scope

theorem passes_succ_ok {count : Nat} {statements trees : List Node}
    (found : passes options (count + 1) statements scope = ⟨trees, finish, .ok ()⟩) :
    ∃ between middle, inferAll options statements scope = ⟨between, middle, .ok ()⟩ ∧
      passes options count between middle = ⟨trees, finish, .ok ()⟩ := by
  rw [passes] at found
  rcases first : inferAll options statements scope with ⟨between, middle, outcome⟩
  simp only [first] at found
  cases outcome with
  | error fault => cases found
  | ok _ => exact ⟨between, middle, rfl, found⟩

theorem firstUntyped?_of_mem {node : Node} {nodes : List Node} (free : firstUntypedOf? nodes = none)
    (member : node ∈ nodes) : node.firstUntyped? = none := by
  induction nodes with
  | nil => cases member
  | cons first nodes ih =>
      rw [firstUntypedOf?, Option.or_eq_none_iff] at free
      rcases List.mem_cons.mp member with rfl | later
      · exact free.1
      · exact ih free.2 later

theorem complete_of_firstUntyped? {node : Node} (free : node.firstUntyped? = none) :
    node.Complete := by
  have typed {node : Node} {info : Info} (known : (if info.type.isSome then none
      else some node) = none) : info.type.isSome = true := by
    cases type : info.type with
    | none => simp [type] at known
    | some type => rfl
  induction node using induct with
  | leaf node leaf =>
      intro part among
      cases node with
      | apply _ _ _ => cases leaf
      | ident name info | str name info | num value unsigned info =>
          cases among
          rw [firstUntyped?] at free
          exact typed free
  | apply operator args info ih =>
      rw [firstUntyped?, Option.or_eq_none_iff] at free
      intro part among
      rcases partOf_apply_iff.mp among with rfl | ⟨arg, member, inside⟩
      · exact typed free.2
      · exact ih arg member (firstUntyped?_of_mem free.1 member) part inside

/-- Inference that succeeds is a number of passes that type every node. -/
theorem passes_of_inferTypes {statements trees : List Node}
    (found : inferTypes options statements scope = ⟨trees, finish, .ok ()⟩) :
    (∃ count, passes options count statements scope = ⟨trees, finish, .ok ()⟩) ∧
      ∀ tree ∈ trees, tree.Complete := by
  unfold inferTypes at found
  generalize options.maxPasses = limit at found
  induction limit generalizing statements scope with
  | zero =>
      rw [inferPasses] at found
      cases found
  | succ limit ih =>
      rw [inferPasses] at found
      rcases first : inferAll options statements scope with ⟨between, middle, outcome⟩
      simp only [first] at found
      cases outcome with
      | error fault => cases found
      | ok _ =>
          simp only at found
          split at found
          · rename_i typed
            cases found
            have free := Option.isNone_iff_eq_none.mp typed
            refine ⟨⟨1, ?_⟩, fun tree member =>
              complete_of_firstUntyped? (firstUntyped?_of_mem free member)⟩
            simp only [passes, first]
          · split at found
            · cases found
            · obtain ⟨⟨count, more⟩, complete⟩ := ih found
              refine ⟨⟨count + 1, ?_⟩, complete⟩
              rw [passes]
              simp only [first]
              exact more

end TraceProbe.Node

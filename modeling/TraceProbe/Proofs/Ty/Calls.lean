import Mathlib.Data.Finset.Card
import TraceProbe.Proofs.Typing.Registrations

/-!
# Sequences of calls on the registry

A host adds types, looks up names and asks for anonymous structs, in any order.
Anonymous structs are numbered in the order in which their shapes are first
asked for, and each shape keeps its own struct in the table of shapes.  The name
of that struct is one among all other names, though: a type that the host has
added under it before is what the first caller gets.  Anonymous structs are
exactly their shape if no such type is there.
-/

namespace TraceProbe.Registry

/-- What may be asked of a registry. -/
inductive Call where
  | add (type : Ty)
  | lookup (name : String)
  | anonymous (members : List Ty)

namespace Call

/-- The answer to a call and the registry behind it. -/
def run : Call → Registry → Option Ty × Registry
  | add type, registry => (some (registry.add type).1, (registry.add type).2)
  | lookup name, registry => (registry.lookup? name, registry)
  | anonymous members, registry =>
      (some (registry.anonymousStruct members).1, (registry.anonymousStruct members).2)

/-- The type that the host adds. -/
def type? : Call → Option Ty
  | add type => some type
  | _ => none

/-- The members of the struct that is asked for. -/
def members? : Call → Option (List Ty)
  | anonymous members => some members
  | _ => none

end Call

/-- The registry behind a sequence of calls. -/
def after : List Call → Registry → Registry
  | [], registry => registry
  | call :: calls, registry => after calls (call.run registry).2

/-- The answers to a sequence of calls. -/
def answers : List Call → Registry → List (Option Ty)
  | [], _ => []
  | call :: calls, registry => (call.run registry).1 :: answers calls (call.run registry).2

/-- The first type that the host adds under a name. -/
def hosted? (calls : List Call) (name : String) : Option Ty :=
  (calls.filterMap (·.type?)).find? (·.registeredName = name)

/-- The shapes that the calls ask for. -/
def asked (calls : List Call) : Finset (List Ty) :=
  (calls.filterMap (·.members?)).toFinset

/-- One of the calls asks for the struct of the members and gets the type. -/
def Answered (calls : List Call) (members : List Ty) (type : Ty) : Prop :=
  ∃ earlier others, calls = earlier ++ .anonymous members :: others ∧
    ((after earlier new).anonymousStruct members).1 = type

/-- Whoever asks for an anonymous struct gets the struct of just these members.
It is one struct for each shape, under a name of its own, by which it is found
from then on. -/
structure Exact (calls : List Call) : Prop where
  shaped : ∀ members type, Answered calls members type →
    ∃ name, type = .record ⟨name, positionalFields members, false, false⟩
  shared : ∀ members type other, Answered calls members type → Answered calls members other →
    type = other
  apart : ∀ members others type other, Answered calls members type →
    Answered calls others other → members ≠ others → type.registeredName ≠ other.registeredName
  found : ∀ earlier members others, calls = earlier ++ .anonymous members :: others → ∀ more,
    (after (earlier ++ .anonymous members :: more) new).lookup?
        ((after earlier new).anonymousStruct members).1.registeredName =
      some ((after earlier new).anonymousStruct members).1

/-- A shape is asked for that is not there yet, and the host has already added
another type under the name that its struct would have. -/
def Clashes (calls : List Call) : Prop :=
  ∃ earlier members others type, calls = earlier ++ .anonymous members :: others ∧
    members ∉ asked earlier ∧ hosted? earlier s!":anon_{(asked earlier).card}" = some type ∧
      type ≠ anonymousRecord (asked earlier).card members

variable {registry : Registry} {calls : List Call} {members others : List Ty} {type other : Ty}
  {name : String} {number : Nat}

section Steps

theorem after_append (calls more : List Call) (registry : Registry) :
    after (calls ++ more) registry = after more (after calls registry) := by
  induction calls generalizing registry with
  | nil => rfl
  | cons call calls ih => exact ih _

theorem lookup?_add (registry : Registry) (type : Ty) (name : String) :
    (registry.add type).2.lookup? name =
      (registry.lookup? name).or (if type.registeredName = name then some type else none) := by
  unfold add
  split
  · rename_i present found
    split
    · rename_i same
      rw [← same, found]
      rfl
    · rw [Option.or_none]
  · show (registry.named ++ [(type.registeredName, type)]).lookup name = _
    rw [List.lookup_append, List.lookup_cons, List.lookup_nil]
    by_cases same : type.registeredName = name
    · rw [if_pos same, ← same, beq_self_eq_true]
      rfl
    · rw [if_neg same, beq_false_of_ne (Ne.symm same)]
      rfl

/-- What is returned is what stands under the name from then on. -/
theorem add_fst (registry : Registry) (type : Ty) :
    (registry.add type).2.lookup? type.registeredName = some (registry.add type).1 := by
  rw [lookup?_add, if_pos rfl]
  unfold add
  cases registry.lookup? type.registeredName <;> rfl

/-- Types stand under their names. -/
theorem named_add
    (named : ∀ name type, registry.lookup? name = some type → type.registeredName = name)
    (type : Ty) :
    ∀ name present, (registry.add type).2.lookup? name = some present →
      present.registeredName = name := by
  intro name present found
  rw [lookup?_add, Option.or_eq_some_iff] at found
  rcases found with earlier | ⟨-, here⟩
  · exact named name present earlier
  · obtain ⟨same, equal⟩ := Option.ite_none_right_eq_some.mp here
    exact Option.some.inj equal ▸ same

theorem shapes_add (registry : Registry) (type : Ty) :
    (registry.add type).2.shapes = registry.shapes ∧
      (registry.add type).2.made = registry.made := by
  unfold add
  split <;> exact ⟨rfl, rfl⟩

/-- The table of shapes with the next struct. -/
def reserve (registry : Registry) (members : List Ty) : Registry :=
  { registry with
    shapes := registry.shapes ++ [(members, anonymousRecord registry.made members)]
    made := registry.made + 1 }

theorem anonymousStruct_of_free (free : registry.shapes.lookup members = none) :
    registry.anonymousStruct members =
      (registry.reserve members).add (anonymousRecord registry.made members) := by
  rw [anonymousStruct, free]
  rfl

theorem lookup_reserve (registry : Registry) (members others : List Ty) :
    (registry.reserve members).shapes.lookup others =
      (registry.shapes.lookup others).or
        (if others = members then some (anonymousRecord registry.made members) else none) := by
  show (registry.shapes ++ [(members, _)]).lookup others = _
  rw [List.lookup_append, List.lookup_cons, List.lookup_nil]
  by_cases same : others = members
  · rw [if_pos same, same, beq_self_eq_true]
  · rw [if_neg same, beq_false_of_ne same]

theorem lookup_reserve_cases (found : (registry.reserve members).shapes.lookup others = some type) :
    registry.shapes.lookup others = some type ∨
      others = members ∧ type = anonymousRecord registry.made members := by
  rw [lookup_reserve, Option.or_eq_some_iff] at found
  rcases found with earlier | ⟨-, here⟩
  · exact .inl earlier
  · obtain ⟨same, equal⟩ := Option.ite_none_right_eq_some.mp here
    exact .inr ⟨same, (Option.some.inj equal).symm⟩

/-- Names and shapes keep the types that they have, whatever is asked. -/
theorem kept_run (call : Call) (registry : Registry) :
    (∀ name type, registry.lookup? name = some type →
        (call.run registry).2.lookup? name = some type) ∧
      ∀ members type, registry.shapes.lookup members = some type →
        (call.run registry).2.shapes.lookup members = some type := by
  cases call with
  | add type =>
      constructor
      · intro name present found
        rw [Call.run, lookup?_add, found, Option.some_or]
      · intro members present found
        rw [Call.run, (shapes_add registry type).1, found]
  | lookup name => exact ⟨fun _ _ => id, fun _ _ => id⟩
  | anonymous members =>
      cases known : registry.shapes.lookup members with
      | some type =>
          rw [Call.run, anonymousStruct_of_known known]
          exact ⟨fun _ _ => id, fun _ _ => id⟩
      | none =>
          rw [Call.run, anonymousStruct_of_free known]
          constructor
          · intro name present found
            have reserved : (registry.reserve members).lookup? name = some present := found
            rw [lookup?_add, reserved, Option.some_or]
          · intro others present found
            rw [(shapes_add _ _).1, lookup_reserve, found, Option.some_or]

theorem kept_after (calls : List Call) (registry : Registry) :
    (∀ name type, registry.lookup? name = some type →
        (after calls registry).lookup? name = some type) ∧
      ∀ members type, registry.shapes.lookup members = some type →
        (after calls registry).shapes.lookup members = some type := by
  induction calls generalizing registry with
  | nil => exact ⟨fun _ _ => id, fun _ _ => id⟩
  | cons call calls ih =>
      have here := kept_run call registry
      have later := ih (call.run registry).2
      exact ⟨fun name type found => later.1 name type (here.1 name type found),
        fun members type found => later.2 members type (here.2 members type found)⟩

end Steps

section Numbers

/-- What the registry behind the calls owes to them. -/
structure Records (calls : List Call) (registry : Registry) : Prop where
  made : registry.made = (asked calls).card
  seen : ∀ members, registry.shapes.lookup members = none ↔ members ∉ asked calls
  numbered : ∀ members type, registry.shapes.lookup members = some type →
    ∃ number < registry.made, type = anonymousRecord number members
  distinct : ∀ members others type other, registry.shapes.lookup members = some type →
    registry.shapes.lookup others = some other → type.registeredName = other.registeredName →
      members = others
  named : ∀ name type, registry.lookup? name = some type → type.registeredName = name
  hosted : ∀ number, registry.made ≤ number →
    registry.lookup? s!":anon_{number}" = hosted? calls s!":anon_{number}"

theorem hosted?_add (calls : List Call) (type : Ty) (name : String) :
    hosted? (calls ++ [.add type]) name =
      (hosted? calls name).or (if type.registeredName = name then some type else none) := by
  have last : ([Call.add type].filterMap (·.type?)).find? (·.registeredName = name) =
      if type.registeredName = name then some type else none := by
    by_cases same : type.registeredName = name <;> simp [Call.type?, same]
  rw [hosted?, List.filterMap_append, List.find?_append, last]
  rfl

theorem hosted?_of_none (calls : List Call) {call : Call}
    (none : call.type? = none) (name : String) :
    hosted? (calls ++ [call]) name = hosted? calls name := by
  rw [hosted?, List.filterMap_append, List.filterMap_cons_none none, List.filterMap_nil,
    List.append_nil]
  rfl

theorem asked_anonymous (calls : List Call) (members : List Ty) :
    asked (calls ++ [.anonymous members]) = insert members (asked calls) := by
  unfold asked
  rw [List.filterMap_append, List.toFinset_append, Finset.union_comm]
  rfl

theorem asked_of_none (calls : List Call) {call : Call} (none : call.members? = none) :
    asked (calls ++ [call]) = asked calls := by
  rw [asked, List.filterMap_append, List.filterMap_cons_none none, List.filterMap_nil,
    List.append_nil]
  rfl

theorem records_new : Records [] new where
  made := rfl
  seen _ := ⟨fun _ => Finset.notMem_empty _, fun _ => rfl⟩
  numbered _ _ found := by cases found
  distinct _ _ _ _ found := by cases found
  named := by
    have all (kinds : List Scalar) {registry : Registry}
        (before : ∀ name type, registry.lookup? name = some type → type.registeredName = name) :
        ∀ name type, (kinds.foldl (fun registry kind => (registry.add (.scalar kind)).2)
          registry).lookup? name = some type → type.registeredName = name := by
      induction kinds generalizing registry with
      | nil => exact before
      | cons kind kinds ih => exact ih (named_add before _)
    exact all Scalar.all fun _ _ found => by cases found
  hosted number _ := honest_new.free number (Nat.zero_le _)

theorem Records.add (records : Records calls registry) (type : Ty) :
    Records (calls ++ [.add type]) (registry.add type).2 := by
  have same := shapes_add registry type
  have asks : asked (calls ++ [.add type]) = asked calls := asked_of_none calls rfl
  exact
    { made := by
        rw [asks, ← records.made]
        exact same.2
      seen := by
        rw [asks, same.1]
        exact records.seen
      numbered := by
        rw [same.1, same.2]
        exact records.numbered
      distinct := by
        rw [same.1]
        exact records.distinct
      named := named_add records.named type
      hosted := by
        intro number later
        rw [same.2] at later
        rw [lookup?_add, hosted?_add, records.hosted number later] }

/-- A call that finds what it asks for leaves the registry as it is. -/
theorem Records.found (records : Records calls registry) {call : Call} (none : call.type? = none)
    (asks : asked (calls ++ [call]) = asked calls) : Records (calls ++ [call]) registry := by
  exact
    { made := asks ▸ records.made
      seen := asks ▸ records.seen
      numbered := records.numbered
      distinct := records.distinct
      named := records.named
      hosted := by
        intro number later
        rw [hosted?_of_none calls none]
        exact records.hosted number later }

theorem Records.ahead (records : Records calls registry) {members : List Ty} {type : Ty}
    (earlier : registry.shapes.lookup members = some type) :
    type.registeredName ≠ s!":anon_{registry.made}" := by
  obtain ⟨number, below, rfl⟩ := records.numbered members type earlier
  intro same
  exact Nat.ne_of_lt below (anonymousName_injective same)

theorem Records.reserve (records : Records calls registry) {members : List Ty}
    (free : registry.shapes.lookup members = none) :
    Records (calls ++ [.anonymous members])
      ((registry.reserve members).add (anonymousRecord registry.made members)).2 := by
  have same := shapes_add (registry.reserve members) (anonymousRecord registry.made members)
  have fresh := (records.seen members).mp free
  have named : ∀ name type, (registry.reserve members).lookup? name = some type →
      type.registeredName = name := records.named
  exact
    { made := by
        rw [same.2, asked_anonymous, Finset.card_insert_of_notMem fresh, ← records.made]
        rfl
      seen := by
        intro others
        rw [same.1, lookup_reserve, asked_anonymous, Finset.mem_insert, Option.or_eq_none_iff,
          records.seen others]
        by_cases equal : others = members <;> simp [equal]
      numbered := by
        intro others type found
        rw [same.1] at found
        rw [same.2]
        rcases lookup_reserve_cases found with earlier | ⟨rfl, rfl⟩
        · obtain ⟨number, below, shape⟩ := records.numbered others type earlier
          exact ⟨number, Nat.lt_succ_of_lt below, shape⟩
        · exact ⟨registry.made, Nat.lt_succ_self _, rfl⟩
      distinct := by
        intro left right type other found found' equal
        rw [same.1] at found found'
        rcases lookup_reserve_cases found with earlier | ⟨rfl, rfl⟩ <;>
          rcases lookup_reserve_cases found' with earlier' | ⟨rfl, rfl⟩
        · exact records.distinct left right type other earlier earlier' equal
        · exact absurd equal (records.ahead earlier)
        · exact absurd equal.symm (records.ahead earlier')
        · rfl
      named := named_add named _
      hosted := by
        intro number later
        rw [same.2] at later
        have later : registry.made + 1 ≤ number := later
        have other : (anonymousRecord registry.made members).registeredName ≠
            s!":anon_{number}" := by
          intro same
          have equal := anonymousName_injective same
          omega
        have reserved : (registry.reserve members).lookup? s!":anon_{number}" =
            hosted? calls s!":anon_{number}" := records.hosted number (by omega)
        rw [lookup?_add, if_neg other, Option.or_none, reserved, hosted?_of_none calls rfl] }

theorem Records.run (records : Records calls registry) (call : Call) :
    Records (calls ++ [call]) (call.run registry).2 := by
  cases call with
  | add type => exact records.add type
  | lookup name => exact records.found rfl (asked_of_none calls rfl)
  | anonymous members =>
      cases known : registry.shapes.lookup members with
      | some type =>
          have before : members ∈ asked calls := by
            by_contra missing
            rw [(records.seen members).mpr missing] at known
            cases known
          rw [Call.run, anonymousStruct_of_known known]
          exact records.found rfl (by rw [asked_anonymous, Finset.insert_eq_self.mpr before])
      | none =>
          rw [Call.run, anonymousStruct_of_free known]
          exact records.reserve known

theorem records_after (calls : List Call) : Records calls (after calls new) := by
  induction calls using List.reverseRecOn with
  | nil => exact records_new
  | append_singleton calls call ih =>
      rw [after_append]
      exact ih.run call

end Numbers

section Answers

/-- Behind the answer, the shape has its struct.  The answer has the name of that
struct, and it is that struct if it stands under this name. -/
theorem Records.answer (records : Records calls registry) (members : List Ty) :
    ∃ type, (registry.anonymousStruct members).2.shapes.lookup members = some type ∧
      (registry.anonymousStruct members).1.registeredName = type.registeredName ∧
      ((registry.anonymousStruct members).2.lookup? type.registeredName = some type →
        (registry.anonymousStruct members).1 = type) := by
  cases known : registry.shapes.lookup members with
  | some type =>
      rw [anonymousStruct_of_known known]
      exact ⟨type, known, rfl, fun _ => rfl⟩
  | none =>
      rw [anonymousStruct_of_free known]
      have stands := add_fst (registry.reserve members) (anonymousRecord registry.made members)
      refine ⟨anonymousRecord registry.made members, ?_, ?_, ?_⟩
      · rw [(shapes_add _ _).1, lookup_reserve, known, if_pos rfl]
        rfl
      · exact named_add (show ∀ name type, (registry.reserve members).lookup? name = some type → _
          from records.named) _ _ _ stands
      · intro own
        exact Option.some.inj (stands.symm.trans own)

/-- Every anonymous struct stands under its own name. -/
def Faithful (registry : Registry) : Prop :=
  ∀ members type, registry.shapes.lookup members = some type →
    registry.lookup? type.registeredName = some type

theorem Faithful.run (faithful : registry.Faithful) (records : Records calls registry)
    (call : Call)
    (clear : ∀ members type, call = .anonymous members → members ∉ asked calls →
      hosted? calls s!":anon_{registry.made}" = some type →
        type = anonymousRecord registry.made members) :
    (call.run registry).2.Faithful := by
  have kept := (kept_run call registry).1
  intro members type found
  cases call with
  | add added =>
      rw [Call.run, (shapes_add registry added).1] at found
      exact kept _ _ (faithful members type found)
  | lookup name => exact faithful members type found
  | anonymous others =>
      cases known : registry.shapes.lookup others with
      | some present =>
          rw [Call.run, anonymousStruct_of_known known] at found ⊢
          exact faithful members type found
      | none =>
          have fresh := (records.seen others).mp known
          rw [Call.run, anonymousStruct_of_free known] at kept found ⊢
          rw [(shapes_add _ _).1] at found
          rcases lookup_reserve_cases found with earlier | ⟨-, rfl⟩
          · exact kept _ _ (faithful members type earlier)
          · rw [lookup?_add, if_pos rfl]
            cases hosted : (registry.reserve others).lookup? s!":anon_{registry.made}" with
            | none => exact congrArg (Option.or · _) hosted
            | some present =>
                have same := (records.hosted registry.made (Nat.le_refl _)).symm.trans hosted
                obtain rfl := clear others present rfl fresh same
                exact congrArg (Option.or · _) hosted

theorem Clashes.append (clashes : Clashes calls) (more : List Call) : Clashes (calls ++ more) := by
  obtain ⟨earlier, members, others, type, rfl, there⟩ := clashes
  exact ⟨earlier, members, others ++ more, type, List.append_assoc _ _ _, there⟩

theorem faithful_after (calls : List Call) (clear : ¬ Clashes calls) :
    (after calls new).Faithful := by
  induction calls using List.reverseRecOn with
  | nil => exact fun _ _ found => by cases found
  | append_singleton calls call ih =>
      have records := records_after calls
      rw [after_append]
      refine (ih fun clashes => clear (clashes.append _)).run records call ?_
      rintro members type rfl fresh hosted
      by_contra other
      rw [records.made] at hosted other
      exact clear ⟨calls, members, [], type, rfl, fresh, hosted, other⟩

variable {earlier later : List Call}

theorem after_request (earlier : List Call) (members : List Ty) (others : List Call) :
    after (earlier ++ .anonymous members :: others) new =
      after others ((after earlier new).anonymousStruct members).2 := by
  rw [after_append]
  rfl

/-- What is answered has the name of the struct that the shape has in the end. -/
theorem Answered.exists_own (answered : Answered calls members type) :
    ∃ own, (after calls new).shapes.lookup members = some own ∧
      type.registeredName = own.registeredName := by
  obtain ⟨earlier, others, rfl, rfl⟩ := answered
  obtain ⟨own, known, same, -⟩ := (records_after earlier).answer members
  rw [after_request]
  exact ⟨own, (kept_after others _).2 members own known, same⟩

/-- Different shapes have structs of different names, clash or not. -/
theorem Answered.names_apart (first : Answered calls members type)
    (second : Answered calls others other) (different : members ≠ others) :
    type.registeredName ≠ other.registeredName := by
  intro same
  obtain ⟨own, known, named⟩ := first.exists_own
  obtain ⟨own', known', named'⟩ := second.exists_own
  exact different ((records_after calls).distinct _ _ _ _ known known'
    (named.symm.trans (same.trans named')))

/-- Without a clash, it is that struct, and it stands under its name. -/
theorem answer_of_clear (earlier : List Call) (members : List Ty) (others : List Call)
    (clear : ¬ Clashes (earlier ++ .anonymous members :: others)) :
    ((after earlier new).anonymousStruct members).2.shapes.lookup members =
        some ((after earlier new).anonymousStruct members).1 ∧
      ((after earlier new).anonymousStruct members).2.lookup?
          ((after earlier new).anonymousStruct members).1.registeredName =
        some ((after earlier new).anonymousStruct members).1 := by
  obtain ⟨own, known, -, same⟩ := (records_after earlier).answer members
  have here := after_request earlier members []
  have faithful := faithful_after (earlier ++ [.anonymous members]) fun clashes =>
    clear (by simpa using clashes.append others)
  rw [here] at faithful
  have stands := faithful members own known
  rw [same stands]
  exact ⟨known, stands⟩

theorem exact_of_clear (clear : ¬ Clashes calls) : Exact calls := by
  -- every answer is what the table of shapes holds in the end
  have final {members : List Ty} {type : Ty} (answered : Answered calls members type) :
      (after calls new).shapes.lookup members = some type := by
    obtain ⟨earlier, others, rfl, rfl⟩ := answered
    rw [after_request]
    exact (kept_after others _).2 _ _ (answer_of_clear earlier members others clear).1
  have records := records_after calls
  refine ⟨?_, ?_, fun _ _ _ _ => Answered.names_apart, ?_⟩
  · intro members type answered
    obtain ⟨number, -, shape⟩ := records.numbered members type (final answered)
    exact ⟨_, shape⟩
  · intro members type other first second
    exact Option.some.inj ((final first).symm.trans (final second))
  · intro earlier members others split more
    rw [after_request]
    exact (kept_after more _).1 _ _ (answer_of_clear earlier members others (split ▸ clear)).2

theorem not_shaped_of_clash (clashes : Clashes calls) :
    ∃ members type, Answered calls members type ∧
      ∀ name, type ≠ .record ⟨name, positionalFields members, false, false⟩ := by
  obtain ⟨earlier, members, others, type, rfl, fresh, hosted, other⟩ := clashes
  have records := records_after earlier
  have known := (records.seen members).mpr fresh
  rw [← records.made] at hosted other
  have taken := (records.hosted _ (Nat.le_refl _)).trans hosted
  refine ⟨members, type, ⟨earlier, others, rfl, ?_⟩, fun name shape => other ?_⟩
  · have reserved : ((after earlier new).reserve members).lookup?
        (anonymousRecord (after earlier new).made members).registeredName = some type := taken
    rw [anonymousStruct_of_free known, add, reserved]
  · have named : name = s!":anon_{(after earlier new).made}" := by
      have standing := records.named _ _ taken
      rwa [shape] at standing
    rw [shape, named]
    rfl

/-- Over every sequence of calls, different shapes have structs of different
names, and anonymous structs are exactly their shape if and only if the host
adds no other type under the name of one of them before it is made. -/
theorem anonymous_exact_iff (calls : List Call) :
    (∀ members others type other, Answered calls members type → Answered calls others other →
        members ≠ others → type.registeredName ≠ other.registeredName) ∧
      (Exact calls ↔ ¬ Clashes calls) := by
  refine ⟨fun _ _ _ _ => Answered.names_apart, ?_, exact_of_clear⟩
  intro exact clashes
  obtain ⟨members, type, answered, misshapen⟩ := not_shaped_of_clash clashes
  obtain ⟨name, shape⟩ := exact.shaped members type answered
  exact misshapen name shape

/-- The host's `:anon_0` is what the first caller gets, the second gets the
struct of one `u64`, and the name finds the host's. -/
example :
    let host := Ty.record ⟨":anon_0", [⟨"f0", .scalar .u8⟩], false, false⟩
    answers [.add host, .anonymous [.u64], .anonymous [.u64], .lookup ":anon_0"] new =
      [some host, some host, some (anonymousRecord 0 [.u64]), some host] := by
  decide

end Answers

end TraceProbe.Registry

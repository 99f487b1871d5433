import Mathlib.Data.Fintype.EquivFin
import Mathlib.Data.List.Nodup
import TraceProbe.Proofs.Typing.Scope

/-!
# Sequences of calls on symbols

Symbols change by declarations, resolutions and typings, some of which fail.
Names stay distinct, a symbol keeps its kind, and maps are numbered upwards in
the order in which they are added.  A call that fails changes nothing, but for
one: a map declared under a name that is taken uses up a number.  The numbers
are without a gap exactly if no map is added behind such a call.
-/

namespace TraceProbe.Symbols

/-- What may be done to the symbols of a probe. -/
inductive Call where
  | declareContext (name : String) (type : Ty) (offset : Int16)
  | declareMap (name : String) (type : Ty)
  | resolve (name : String)
  | setType (name : String) (type : Ty)

/-- What the caller gets back. -/
inductive Answer where
  | outcome (outcome : Except Diagnostic Unit)
  | symbol (symbol : Symbol)

namespace Call

/-- The answer to a call and the symbols behind it. -/
def run : Call → Symbols → Answer × Symbols
  | declareContext name type offset, symbols =>
      (.outcome (symbols.declareContext name type offset).1,
        (symbols.declareContext name type offset).2)
  | declareMap name type, symbols =>
      (.outcome (symbols.declareMap name type).1, (symbols.declareMap name type).2)
  | resolve name, symbols => (.symbol (symbols.resolve name).1, (symbols.resolve name).2)
  | setType name type, symbols => (.outcome (.ok ()), symbols.setType name type)

/-- The call returns an error. -/
def Fails (call : Call) (symbols : Symbols) : Prop :=
  ∃ cause, (call.run symbols).1 = .outcome (.error cause)

/-- The call declares a map under a name that is taken. -/
def Wastes : Call → Symbols → Prop
  | declareMap name type, symbols => type.isMap = true ∧ (symbols.get? name).isSome = true
  | _, _ => False

end Call

/-- The symbols behind a sequence of calls. -/
def after : List Call → Symbols → Symbols
  | [], symbols => symbols
  | call :: calls, symbols => after calls (call.run symbols).2

/-- The answers to a sequence of calls. -/
def answers : List Call → Symbols → List Answer
  | [], _ => []
  | call :: calls, symbols => (call.run symbols).1 :: answers calls (call.run symbols).2

/-- No later calls tell the two apart, nor does what is listed behind them. -/
def Alike (left right : Symbols) : Prop :=
  ∀ calls, answers calls left = answers calls right ∧
    (after calls left).entries = (after calls right).entries

/-- The names of all symbols. -/
def names (symbols : Symbols) : List String :=
  symbols.entries.map (·.name)

/-- What a call may do to the symbols, if it does not use up a number for
nothing. -/
inductive Change (symbols : Symbols) : Symbols → Prop
  | unchanged : Change symbols symbols
  | context {name : String} (type : Ty) (offset : Int16) : symbols.get? name = none →
      Change symbols (symbols.push ⟨name, some type, .context offset⟩)
  | map {name : String} (type : Option Ty) : symbols.get? name = none →
      Change symbols (symbols.reserveMap.push ⟨name, type, .map symbols.nextMap⟩)
  | typed (name : String) (type : Ty) : Change symbols (symbols.setType name type)

variable {symbols later : Symbols} {name : String} {call : Call}

section Calls

theorem insert_taken (added : Symbol) {symbol : Symbol}
    (found : symbols.get? added.name = some symbol) :
    symbols.insert added =
      (.error (.shapeError s!"`{added.name}` is already declared" {}), symbols) := by
  rw [insert, found]

theorem insert_free (added : Symbol) (free : symbols.get? added.name = none) :
    symbols.insert added = (.ok (), symbols.push added) := by
  rw [insert, free]

theorem run_cases (call : Call) (symbols : Symbols) :
    (call.Wastes symbols ∧ call.Fails symbols ∧ (call.run symbols).2 = symbols.reserveMap) ∨
      (¬ call.Wastes symbols ∧ Change symbols (call.run symbols).2 ∧
        (call.Fails symbols → (call.run symbols).2 = symbols)) := by
  cases call with
  | declareContext name type offset =>
      refine .inr ⟨id, ?_⟩
      cases found : symbols.get? name with
      | some symbol =>
          have same : ((Call.declareContext name type offset).run symbols).2 = symbols :=
            congrArg Prod.snd (insert_taken ⟨name, some type, .context offset⟩ found)
          rw [same]
          exact ⟨.unchanged, fun _ => rfl⟩
      | none =>
          have added := insert_free ⟨name, some type, .context offset⟩ found
          simp only [Call.run, Call.Fails, declareContext, added]
          exact ⟨.context type offset found, (by rintro ⟨_, fails⟩; cases fails)⟩
  | declareMap name type =>
      cases isMap : type.isMap with
      | false =>
          have same : ((Call.declareMap name type).run symbols).2 = symbols := by
            simp only [Call.run, declareMap, isMap, Bool.false_eq_true, if_false]
          rw [same]
          exact .inr ⟨fun both => (by cases isMap.symm.trans both.1), .unchanged, fun _ => rfl⟩
      | true =>
          have declared : symbols.declareMap name type =
              symbols.reserveMap.insert ⟨name, some type, .map symbols.nextMap⟩ := if_pos isMap
          cases found : symbols.get? name with
          | some symbol =>
              have taken := @insert_taken symbols.reserveMap
                ⟨name, some type, .map symbols.nextMap⟩ _ found
              refine .inl ⟨⟨isMap, by rw [found]; rfl⟩, ?_⟩
              simp only [Call.run, Call.Fails, declared, taken]
              exact ⟨⟨_, rfl⟩, trivial⟩
          | none =>
              have added := @insert_free symbols.reserveMap
                ⟨name, some type, .map symbols.nextMap⟩ found
              refine .inr ⟨fun both => by simp [Call.Wastes, found] at both, ?_⟩
              simp only [Call.run, Call.Fails, declared, added]
              exact ⟨.map (some type) found, (by rintro ⟨_, fails⟩; cases fails)⟩
  | resolve name =>
      refine .inr ⟨id, ?_⟩
      simp only [Call.run, Call.Fails, resolve]
      cases found : symbols.get? name with
      | some symbol => exact ⟨.unchanged, fun _ => rfl⟩
      | none => exact ⟨.map none found, (by rintro ⟨_, fails⟩; cases fails)⟩
  | setType name type => exact .inr ⟨id, .typed name type, (by rintro ⟨_, fails⟩; cases fails)⟩

theorem after_append (calls more : List Call) (symbols : Symbols) :
    after (calls ++ more) symbols = after more (after calls symbols) := by
  induction calls generalizing symbols with
  | nil => rfl
  | cons call calls ih => exact ih _

theorem built_after (calls : List Call) (built : symbols.Built) : (after calls symbols).Built := by
  induction calls generalizing symbols with
  | nil => exact built
  | cons call calls ih =>
      refine ih ?_
      cases call with
      | declareContext name type offset => exact .declareContext name type offset built
      | declareMap name type => exact .declareMap name type built
      | resolve name => exact .resolve name built
      | setType name type => exact .setType name type built

end Calls

section Names

theorem get?_eq_none_iff : symbols.get? name = none ↔ name ∉ symbols.names := by
  unfold get? Symbols.names
  rw [List.find?_eq_none]
  simp

theorem names_setType (type : Ty) : (symbols.setType name type).names = symbols.names := by
  unfold names setType
  rw [List.map_map]
  refine List.map_congr_left ?_
  intro symbol _
  rw [Function.comp]
  split <;> rfl

theorem nodup_push (distinct : symbols.names.Nodup) {added : Symbol}
    (free : symbols.get? added.name = none) : (symbols.push added).names.Nodup := by
  have fresh := get?_eq_none_iff.mp free
  have shown : (symbols.push added).names = symbols.names ++ [added.name] := by
    simp [names, push]
  rw [shown]
  exact List.nodup_append'.mpr ⟨distinct, List.nodup_singleton _, by simpa using fresh⟩

theorem Change.names_nodup (change : Change symbols later) (distinct : symbols.names.Nodup) :
    later.names.Nodup := by
  cases change with
  | unchanged => exact distinct
  | context type offset free => exact nodup_push distinct free
  | map type free => exact @nodup_push symbols.reserveMap distinct _ free
  | typed name type => rwa [names_setType]

theorem names_nodup_after (calls : List Call) (distinct : symbols.names.Nodup) :
    (after calls symbols).names.Nodup := by
  induction calls generalizing symbols with
  | nil => exact distinct
  | cons call calls ih =>
      refine ih ?_
      rcases run_cases call symbols with ⟨-, -, same⟩ | ⟨-, change, -⟩
      · rw [same]
        exact distinct
      · exact change.names_nodup distinct

theorem exists_free_name (symbols : Symbols) : ∃ name, symbols.get? name = none := by
  obtain ⟨name, free⟩ := Infinite.exists_notMem_finset symbols.names.toFinset
  exact ⟨name, get?_eq_none_iff.mpr fun taken => free (List.mem_toFinset.mpr taken)⟩

end Names

section Kinds

theorem before_push (added : Symbol) : symbols.Before (symbols.push added) := by
  intro _ symbol known
  exact ⟨symbol, get?_push known added, rfl, fun _ => id⟩

theorem before_reserveMap (symbols : Symbols) : symbols.Before symbols.reserveMap := by
  intro _ symbol known
  exact ⟨symbol, known, rfl, fun _ => id⟩

theorem Change.before (change : Change symbols later) : symbols.Before later := by
  cases change with
  | unchanged => exact .refl symbols
  | context type offset free => exact before_push _
  | map type free => exact (before_reserveMap symbols).trans (before_push _)
  | typed name type => exact before_setType type

theorem before_after (calls : List Call) (symbols : Symbols) :
    symbols.Before (after calls symbols) := by
  induction calls generalizing symbols with
  | nil => exact .refl symbols
  | cons call calls ih =>
      refine Before.trans ?_ (ih _)
      rcases run_cases call symbols with ⟨-, -, same⟩ | ⟨-, change, -⟩
      · rw [same]
        exact before_reserveMap symbols
      · exact change.before

end Kinds

section Numbers

/-- Numbers that are added behind all others, upwards from the next one. -/
structure Added (symbols later : Symbols) (added : List Nat) : Prop where
  numbers : later.numbers = symbols.numbers ++ added
  least : ∀ number ∈ added, symbols.nextMap ≤ number
  next : symbols.nextMap ≤ later.nextMap

theorem numbers_pushContext (type : Option Ty) (offset : Int16) :
    (symbols.push ⟨name, type, .context offset⟩).numbers = symbols.numbers := by
  simp [numbers, push, SymbolKind.map?]

theorem numbers_pushMap (type : Option Ty) (number : Nat) :
    (symbols.push ⟨name, type, .map number⟩).numbers = symbols.numbers ++ [number] := by
  simp [numbers, push, SymbolKind.map?]

theorem Change.added (change : Change symbols later) :
    later.nextMap = symbols.nextMap ∧ later.numbers = symbols.numbers ∨
      later.nextMap = symbols.nextMap + 1 ∧
        later.numbers = symbols.numbers ++ [symbols.nextMap] := by
  cases change with
  | unchanged => exact .inl ⟨rfl, rfl⟩
  | context type offset free => exact .inl ⟨rfl, numbers_pushContext _ _⟩
  | map type free => exact .inr ⟨rfl, numbers_pushMap _ _⟩
  | typed name type => exact .inl ⟨rfl, numbers_setType type⟩

theorem added_run (call : Call) (symbols : Symbols) :
    ∃ added, Added symbols (call.run symbols).2 added := by
  rcases run_cases call symbols with ⟨-, -, same⟩ | ⟨-, change, -⟩
  · rw [same]
    exact ⟨[], (List.append_nil _).symm, fun _ member => (by cases member), Nat.le_succ _⟩
  · rcases change.added with ⟨next, same⟩ | ⟨next, same⟩
    · exact ⟨[], by rw [same, List.append_nil], fun _ member => (by cases member),
        Nat.le_of_eq next.symm⟩
    · exact ⟨[symbols.nextMap], same, fun number member =>
        Nat.le_of_eq (List.mem_singleton.mp member).symm, next ▸ Nat.le_succ _⟩

theorem added_after (calls : List Call) (symbols : Symbols) :
    ∃ added, Added symbols (after calls symbols) added := by
  induction calls generalizing symbols with
  | nil => exact ⟨[], (List.append_nil _).symm, fun _ member => (by cases member), Nat.le_refl _⟩
  | cons call calls ih =>
      obtain ⟨first, here⟩ := added_run call symbols
      obtain ⟨others, there⟩ := ih (call.run symbols).2
      refine ⟨first ++ others, ?_, ?_, here.next.trans there.next⟩
      · rw [after, there.numbers, here.numbers, List.append_assoc]
      · intro number member
        rcases List.mem_append.mp member with early | late
        · exact here.least number early
        · exact here.next.trans (there.least number late)

theorem length_maps (symbols : Symbols) : symbols.maps.length = symbols.numbers.length := by
  unfold maps numbers
  induction symbols.entries with
  | nil => rfl
  | cons symbol entries ih =>
      cases found : symbol.kind.map? with
      | none => simpa [found] using ih
      | some number => simpa [found] using ih

/-- Distinct numbers below a bound are at most as many as the bound. -/
theorem Numbered.length_le (numbered : symbols.Numbered) :
    symbols.numbers.length ≤ symbols.nextMap := by
  have inside : symbols.numbers ⊆ List.range symbols.nextMap :=
    fun number member => List.mem_range.mpr (numbered.below number member)
  simpa using (List.subperm_of_subset numbered.distinct inside).length_le

theorem numbers_sorted_after (calls : List Call) :
    (after calls {}).numbers.Pairwise (· < ·) := by
  -- Induction from the last call: it adds at most one number.
  induction calls using List.reverseRecOn with
  | nil => exact List.Pairwise.nil
  | append_singleton calls call ih =>
      have numbered := (built_after calls .new).numbered
      rw [after_append]
      rcases run_cases call (after calls {}) with ⟨-, -, same⟩ | ⟨-, change, -⟩
      · rw [after, after, same]
        exact ih
      · rw [after, after]
        rcases change.added with ⟨-, same⟩ | ⟨-, same⟩
        · rw [same]
          exact ih
        · rw [same, List.pairwise_append]
          refine ⟨ih, List.pairwise_singleton _ _, ?_⟩
          intro number member last equal
          rw [List.mem_singleton.mp equal]
          exact numbered.below number member

/-- No map is added behind a call that uses up a number. -/
def Seamless (calls : List Call) : Prop :=
  ∀ earlier call others, calls = earlier ++ call :: others → call.Wastes (after earlier {}) →
    (after calls {}).maps.length = (after earlier {}).maps.length

/-- As long as no number is used up for nothing, every number belongs to a map. -/
theorem nextMap_eq_length (calls : List Call)
    (thrifty : ∀ earlier call others, calls = earlier ++ call :: others →
      ¬ call.Wastes (after earlier {})) :
    (after calls {}).nextMap = (after calls {}).numbers.length := by
  induction calls using List.reverseRecOn with
  | nil => rfl
  | append_singleton calls call ih =>
      have start := ih fun earlier other others same =>
        thrifty earlier other (others ++ [call]) (by rw [same, List.append_assoc]; rfl)
      have here := thrifty calls call [] rfl
      rw [after_append, after, after]
      rcases run_cases call (after calls {}) with ⟨wastes, -⟩ | ⟨-, change, -⟩
      · exact absurd wastes here
      · rcases change.added with ⟨next, same⟩ | ⟨next, same⟩
        · rw [next, same, start]
        · rw [next, same, List.length_append, start]
          rfl

theorem range_of_seamless (calls : List Call) (seamless : Seamless calls) :
    (after calls {}).numbers = List.range (after calls {}).numbers.length := by
  induction calls using List.reverseRecOn with
  | nil => rfl
  | append_singleton calls call ih =>
      have step : after (calls ++ [call]) {} = (call.run (after calls {})).2 := by
        rw [after_append, after, after]
      obtain ⟨added, grows⟩ := added_run call (after calls {})
      have wasted (earlier : List Call) (other : Call) (others : List Call)
          (same : calls = earlier ++ other :: others) (wastes : other.Wastes (after earlier {})) :
          (after (calls ++ [call]) {}).maps.length = (after earlier {}).maps.length :=
        seamless earlier other (others ++ [call]) (by rw [same, List.append_assoc]; rfl) wastes
      have shorter : (after calls {}).maps.length ≤ (after (calls ++ [call]) {}).maps.length := by
        rw [length_maps, length_maps, step, grows.numbers, List.length_append]
        exact Nat.le_add_right _ _
      have before : Seamless calls := by
        intro earlier other others same wastes
        obtain ⟨more, grown⟩ := added_after (other :: others) (after earlier {})
        rw [← after_append, ← same] at grown
        have least : (after earlier {}).maps.length ≤ (after calls {}).maps.length := by
          rw [length_maps, length_maps, grown.numbers, List.length_append]
          exact Nat.le_add_right _ _
        have most := wasted earlier other others same wastes
        omega
      have known := ih before
      rcases run_cases call (after calls {}) with ⟨-, -, same⟩ | ⟨-, change, -⟩
      · rw [step, same]
        exact known
      · rw [step]
        rcases change.added with ⟨-, same⟩ | ⟨-, same⟩
        · rw [same]
          exact known
        · -- a map is added, so no number was used up before
          have next := nextMap_eq_length calls fun earlier other others split wastes => by
            have all := wasted earlier other others split wastes
            obtain ⟨more, grown⟩ := added_after (other :: others) (after earlier {})
            rw [← after_append, ← split] at grown
            rw [length_maps, length_maps, step, same, grown.numbers] at all
            simp only [List.length_append, List.length_singleton] at all
            omega
          rw [same, List.length_append, List.length_singleton, List.range_succ, ← known, next]

theorem seamless_of_range (calls : List Call)
    (dense : (after calls {}).numbers = List.range (after calls {}).numbers.length) :
    Seamless calls := by
  intro earlier call others same wastes
  have wasted : (call.run (after earlier {})).2 = (after earlier {}).reserveMap := by
    rcases run_cases call (after earlier {}) with ⟨-, -, spent⟩ | ⟨thrifty, -⟩
    · exact spent
    · exact absurd wastes thrifty
  obtain ⟨added, grows⟩ := added_after others (after earlier {}).reserveMap
  have whole : after calls {} = after others (after earlier {}).reserveMap := by
    rw [same, after_append, after, wasted]
  rw [← whole] at grows
  have room := ((built_after earlier .new).numbered).length_le
  cases added with
  | nil =>
      rw [length_maps, length_maps, grows.numbers, List.append_nil]
      rfl
  | cons first rest =>
      -- the first number that is added stands where a lesser one should
      have place : (after calls {}).numbers[(after earlier {}).numbers.length]? = some first := by
        have reserved : (after earlier {}).reserveMap.numbers = (after earlier {}).numbers := rfl
        rw [grows.numbers, reserved, List.getElem?_append_right (Nat.le_refl _), Nat.sub_self]
        rfl
      rw [dense] at place
      obtain ⟨inside, equal⟩ := List.getElem?_eq_some_iff.mp place
      rw [List.getElem_range] at equal
      have least : (after earlier {}).nextMap + 1 ≤ first :=
        grows.least first List.mem_cons_self
      omega

end Numbers

theorem not_alike_reserveMap (symbols : Symbols) : ¬ symbols.reserveMap.Alike symbols := by
  intro alike
  obtain ⟨name, free⟩ := exists_free_name symbols
  have reserved : symbols.reserveMap.get? name = none := free
  have answer := (alike [.resolve name]).1
  simp only [answers, Call.run, resolve, free, reserved, List.cons.injEq, Answer.symbol.injEq,
    Symbol.mk.injEq, SymbolKind.map.injEq] at answer
  exact absurd answer.1.2.2 (Nat.succ_ne_self _)

/-- A call that wastes a number leaves another table behind, any other call that
fails the same one. -/
theorem alike_run_iff (calls : List Call) {call : Call} (fails : call.Fails (after calls {})) :
    (call.run (after calls {})).2.Alike (after calls {}) ↔ ¬ call.Wastes (after calls {}) := by
  rcases run_cases call (after calls {}) with ⟨wastes, -, spent⟩ | ⟨thrifty, -, stays⟩
  · rw [spent]
    constructor
    · intro alike
      exact absurd alike (not_alike_reserveMap _)
    · intro thrifty
      exact absurd wastes thrifty
  · rw [stays fails]
    constructor
    · intro _
      exact thrifty
    · intro _ more
      exact ⟨rfl, rfl⟩

/-- Whatever is done to the symbols of a probe, names are distinct, kinds and
types stay, and maps have greater numbers than the maps before them.  A call
that fails is one that never was, and the numbers are those below the number of
maps, both exactly as far as no map is declared under a name that is taken. -/
structure Atomic (calls : List Call) : Prop where
  names : (after calls {}).names.Nodup
  before : ∀ more, (after calls {}).Before (after more (after calls {}))
  ascending : (after calls {}).numbers.Pairwise (· < ·)
  fails_iff : ∀ call : Call, call.Fails (after calls {}) →
    ((call.run (after calls {})).2.Alike (after calls {}) ↔ ¬ call.Wastes (after calls {}))
  dense_iff :
    (after calls {}).numbers = List.range (after calls {}).maps.length ↔ Seamless calls

theorem calls_atomic_iff (calls : List Call) : Atomic calls where
  names := names_nodup_after calls List.nodup_nil
  before more := before_after more _
  ascending := numbers_sorted_after calls
  fails_iff _ fails := alike_run_iff calls fails
  dense_iff := by
    rw [length_maps]
    exact ⟨seamless_of_range calls, range_of_seamless calls⟩

/-- `m` declared twice, and then `n`, which gets the number two. -/
example : (after [.declareMap "m" (.map .u64 .u64 .hash), .declareMap "m" (.map .u64 .u64 .hash),
    .resolve "n"] {}).numbers = [0, 2] := by
  decide

end TraceProbe.Symbols

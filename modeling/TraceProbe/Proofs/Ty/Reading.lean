import Mathlib.Data.List.Basic
import TraceProbe.Proofs.Ty.Compatibility
import TraceProbe.Ty.Text

/-!
# Reading written types

A written type starts with the word of its innermost type, and layers of pointers,
arrays and functions follow, from the inside out.  So it can be read in one way only,
provided that the names of records are words and that no map stands inside such a
layer: `map[u8]u16[3]` is a map of arrays as well as an array of maps.
-/

namespace TraceProbe.Ty

/-- The characters that may follow a written type, or the word that it starts with. -/
def delimiters : List Char :=
  [' ', '[', ']', ',', ')']

/-- Names that a reader takes for one word. -/
def isWordName (name : String) : Bool :=
  name.toList.all (· ∉ delimiters)

mutual

/-- Whether the names of all records that are written are words. -/
def worded : Ty → Bool
  | void | scalar _ => true
  | pointer target => target.worded
  | array element _ => element.worded
  | record shape => isWordName shape.name
  | map key value _ => key.worded && value.worded
  | function ⟨result, parameters, _⟩ => result.worded && wordedAll parameters
termination_by structural type => type

/-- Whether several types are worded. -/
def wordedAll : List Ty → Bool
  | [] => true
  | type :: types => type.worded && wordedAll types
termination_by structural types => types

end

mutual

/-- Whether a map stands inside of a pointer, an array or the result of a function. -/
def buriesMap : Ty → Bool
  | void | scalar _ | record _ => false
  | pointer target => target.isMap || target.buriesMap
  | array element _ => element.isMap || element.buriesMap
  | map key value _ => key.buriesMap || value.buriesMap
  | function ⟨result, parameters, _⟩ => result.isMap || result.buriesMap || buriesMapAny parameters
termination_by structural type => type

/-- Whether one of several types buries a map. -/
def buriesMapAny : List Ty → Bool
  | [] => false
  | type :: types => type.buriesMap || buriesMapAny types
termination_by structural types => types

end

/-- Types that are written so that they can be read back. -/
def Readable (type : Ty) : Prop :=
  type.worded = true ∧ type.buriesMap = false

/-- The word in front of the name of a struct or a union. -/
def keyword : Bool → String
  | true => "union"
  | false => "struct"

/-- The characters of a written type. -/
def characters (type : Ty) : List Char :=
  type.text.toList

/-- The characters behind a parameter: further parameters and the parenthesis. -/
def furtherCharacters (variadic : Bool) : List Ty → List Char
  | [] => if variadic then [',', ' ', '.', '.', '.', ')'] else [')']
  | type :: types => ',' :: ' ' :: (type.characters ++ furtherCharacters variadic types)

/-- The characters of all parameters, with the parenthesis behind them. -/
def parameterCharacters (variadic : Bool) : List Ty → List Char
  | [] => if variadic then ['.', '.', '.', ')'] else [')']
  | type :: types => type.characters ++ furtherCharacters variadic types

section Characters

theorem characters_pointer (target : Ty) :
    (pointer target).characters = target.characters ++ [' ', '*'] := by
  simp [characters, text]

theorem characters_array (element : Ty) (length : Nat) :
    (array element length).characters =
      element.characters ++ '[' :: (Nat.toDigits 10 length ++ [']']) := by
  simp [characters, text, toString]

theorem characters_map (key value : Ty) (kind : MapKind) :
    (map key value kind).characters =
      'm' :: 'a' :: 'p' :: '[' :: (key.characters ++ ']' :: value.characters) := by
  simp [characters, text, toString]

theorem characters_record (shape : Record) :
    (record shape).characters =
      (keyword shape.union).toList ++ ' ' :: shape.name.toList := by
  cases shape with
  | mk name fields union packed => cases union <;> simp [characters, text, keyword]

theorem intercalate_texts (variadic : Bool) (type : Ty) (types : List Ty) :
    (", ".intercalate (texts (type :: types) ++ if variadic then ["..."] else [])).toList ++ [')'] =
      type.characters ++ furtherCharacters variadic types := by
  -- Induction on the parameters behind the first.
  induction types generalizing type with
  | nil => cases variadic <;> simp [texts, furtherCharacters, characters]
  | cons next types ih =>
      have later := ih next
      simp only [texts, String.toList_intercalate, List.cons_append, List.map_cons,
        List.intercalate_cons_cons, List.append_assoc] at later ⊢
      rw [later]
      rfl

theorem characters_function (result : Ty) (parameters : List Ty) (variadic : Bool) :
    (function ⟨result, parameters, variadic⟩).characters =
      result.characters ++ ' ' :: '(' :: parameterCharacters variadic parameters := by
  have written : (", ".intercalate (texts parameters ++ if variadic then ["..."] else [])).toList ++
      [')'] = parameterCharacters variadic parameters := by
    cases parameters with
    | nil => cases variadic <;> rfl
    | cons type types => exact intercalate_texts variadic type types
  rw [← written]
  simp [characters, text]

theorem exists_letter : ∀ type : Ty, ∃ letter rest,
    type.characters = letter :: rest ∧ letter ≠ '.' ∧ letter ≠ ')'
  | void => ⟨_, _, rfl, by decide, by decide⟩
  | scalar kind => by cases kind <;> exact ⟨_, _, rfl, by decide, by decide⟩
  | record shape => by
      rw [characters_record]
      cases shape.union <;> exact ⟨_, _, rfl, by decide, by decide⟩
  | map key value kind => ⟨_, _, characters_map key value kind, by decide, by decide⟩
  | pointer target => by
      obtain ⟨letter, rest, starts, here⟩ := exists_letter target
      exact ⟨letter, _, by rw [characters_pointer, starts, List.cons_append], here⟩
  | array element length => by
      obtain ⟨letter, rest, starts, here⟩ := exists_letter element
      exact ⟨letter, _, by rw [characters_array, starts, List.cons_append], here⟩
  | function ⟨result, parameters, variadic⟩ => by
      obtain ⟨letter, rest, starts, here⟩ := exists_letter result
      exact ⟨letter, _, by rw [characters_function, starts, List.cons_append], here⟩

end Characters

section Words

/-- What is left to read is at its end or goes on with a delimiter. -/
def Ends (rest : List Char) : Prop :=
  ∀ next ∈ rest.head?, next ∈ delimiters

/-- What is left to read does not belong to the type before it any more. -/
def Stops (rest : List Char) : Prop :=
  ∀ next ∈ rest.head?, next ∈ [']', ',', ')']

variable {word word' rest rest' : List Char}

theorem Stops.ends (stops : Stops rest) : Ends rest := by
  intro next first
  have among := stops next first
  simp only [delimiters, List.mem_cons, List.not_mem_nil, or_false] at among ⊢
  exact .inr (.inr among)

theorem word_unique (words : ∀ letter ∈ word, letter ∉ delimiters)
    (words' : ∀ letter ∈ word', letter ∉ delimiters) (ends : Ends rest) (ends' : Ends rest')
    (same : word ++ rest = word' ++ rest') : word = word' ∧ rest = rest' := by
  induction word generalizing word' with
  | nil =>
      cases word' with
      | nil => exact ⟨rfl, same⟩
      | cons letter word' =>
          subst same
          exact absurd (ends letter rfl) (words' letter List.mem_cons_self)
  | cons letter word ih =>
      cases word' with
      | nil =>
          subst same
          exact absurd (ends' letter rfl) (words letter List.mem_cons_self)
      | cons letter' word' =>
          obtain ⟨rfl, tails⟩ := List.cons.inj same
          obtain ⟨rfl, rests⟩ := ih (fun other among => words other (List.mem_cons_of_mem _ among))
            (fun other among => words' other (List.mem_cons_of_mem _ among)) tails
          exact ⟨rfl, rests⟩

theorem not_delimiter_of_isWordName {name : String} (plain : isWordName name = true) :
    ∀ letter ∈ name.toList, letter ∉ delimiters := by
  simpa [isWordName] using plain

theorem digit_not_delimiter {number : Nat} :
    ∀ digit ∈ Nat.toDigits 10 number, digit ∉ delimiters := by
  intro digit among delimiter
  have digits := Nat.isDigit_of_mem_toDigits (by decide) (by decide) among
  simp only [delimiters, List.mem_cons, List.not_mem_nil, or_false] at delimiter
  rcases delimiter with rfl | rfl | rfl | rfl | rfl <;> cases digits

theorem toDigits_injective {number other : Nat}
    (same : Nat.toDigits 10 number = Nat.toDigits 10 other) : number = other := by
  have read := congrArg (Nat.ofDigitChars 10 · 0) same
  simpa using read

end Words

section Layers

/-- What is written behind a type to make another one of it. -/
inductive Layer where
  | pointer
  | array (length : Nat)
  | call (parameters : List Ty) (variadic : Bool)

namespace Layer

/-- The type with the layer around it. -/
def wrap : Layer → Ty → Ty
  | pointer, type => .pointer type
  | array length, type => .array type length
  | call parameters variadic, type => .function ⟨type, parameters, variadic⟩

def characters : Layer → List Char
  | pointer => [' ', '*']
  | array length => '[' :: (Nat.toDigits 10 length ++ [']'])
  | call parameters variadic => ' ' :: '(' :: parameterCharacters variadic parameters

def parameters : Layer → List Ty
  | call parameters _ => parameters
  | _ => []

end Layer

/-- A type with layers around it, the innermost first. -/
def layered (base : Ty) (layers : List Layer) : Ty :=
  layers.foldl (fun type layer => layer.wrap type) base

/-- The types that no others go into. -/
inductive Base : Ty → Prop
  | void : Base void
  | scalar (kind : Scalar) : Base (scalar kind)
  | record (shape : Record) : Base (record shape)

theorem characters_wrap (layer : Layer) (type : Ty) :
    (layer.wrap type).characters = type.characters ++ layer.characters := by
  cases layer with
  | pointer => exact characters_pointer type
  | array length => exact characters_array type length
  | call parameters variadic => exact characters_function type parameters variadic

theorem characters_layered (layers : List Layer) (base : Ty) :
    (layered base layers).characters = base.characters ++ layers.flatMap Layer.characters := by
  induction layers generalizing base with
  | nil => exact (List.append_nil _).symm
  | cons layer layers ih =>
      rw [layered, List.foldl_cons, ← layered, ih, characters_wrap, List.flatMap_cons,
        List.append_assoc]

theorem wordedAll_iff {types : List Ty} :
    wordedAll types = true ↔ ∀ type ∈ types, type.worded = true := by
  induction types with
  | nil => simp [wordedAll]
  | cons type types ih => simp [wordedAll, ih]

theorem buriesMapAny_eq_false_iff {types : List Ty} :
    buriesMapAny types = false ↔ ∀ type ∈ types, type.buriesMap = false := by
  induction types with
  | nil => simp [buriesMapAny]
  | cons type types ih => simp [buriesMapAny, ih]

/-- A layer around a type leaves it readable only if it was no map. -/
theorem readable_wrap_iff (layer : Layer) {type : Ty} : Readable (layer.wrap type) ↔
    Readable type ∧ type.isMap = false ∧ ∀ parameter ∈ layer.parameters, Readable parameter := by
  cases layer with
  | pointer | array length =>
      simp only [Readable, Layer.wrap, worded, buriesMap, Layer.parameters, Bool.or_eq_false_iff]
      simp
      tauto
  | call parameters variadic =>
      simp only [Readable, Layer.wrap, worded, buriesMap, Layer.parameters, Bool.and_eq_true,
        Bool.or_eq_false_iff, wordedAll_iff, buriesMapAny_eq_false_iff]
      constructor
      · rintro ⟨⟨own, others⟩, ⟨map, buries⟩, none⟩
        exact ⟨⟨own, buries⟩, map, fun parameter among => ⟨others _ among, none _ among⟩⟩
      · rintro ⟨⟨own, buries⟩, map, each⟩
        exact ⟨⟨own, fun _ among => (each _ among).1⟩, ⟨map, buries⟩,
          fun _ among => (each _ among).2⟩

/-- A type as layers around a base, with parameters that are parts of it. -/
def Spine (type : Ty) : Prop :=
  ∃ base layers, Base base ∧ Readable base ∧ type = layered base layers ∧
    ∀ layer ∈ layers, ∀ parameter ∈ layer.parameters,
      Readable parameter ∧ sizeOf parameter < sizeOf type

theorem Spine.wrap {inner : Ty} (spine : Spine inner) (layer : Layer)
    (readable : Readable (layer.wrap inner)) : Spine (layer.wrap inner) := by
  obtain ⟨base, layers, simple, plain, rfl, each⟩ := spine
  have larger : sizeOf (layered base layers) < sizeOf (layer.wrap (layered base layers)) := by
    cases layer <;>
      simp only [Layer.wrap, pointer.sizeOf_spec, array.sizeOf_spec, function.sizeOf_spec,
        Signature.mk.sizeOf_spec] <;> omega
  refine ⟨base, layers ++ [layer], simple, plain, by simp [layered], ?_⟩
  intro other among parameter inside
  rcases List.mem_append.mp among with earlier | last
  · obtain ⟨reads, smaller⟩ := each other earlier parameter inside
    exact ⟨reads, Nat.lt_trans smaller larger⟩
  · obtain rfl := List.mem_singleton.mp last
    refine ⟨((readable_wrap_iff _).mp readable).2.2 parameter inside, ?_⟩
    cases other with
    | pointer | array length => cases inside
    | call parameters variadic =>
        have smaller := List.sizeOf_lt_of_mem (show parameter ∈ parameters from inside)
        simp only [Layer.wrap, function.sizeOf_spec, Signature.mk.sizeOf_spec]
        omega

theorem spine_of_readable : ∀ type : Ty, Readable type → type.isMap = false → Spine type
  | void, readable, _ => ⟨_, [], .void, readable, rfl, fun _ among => by cases among⟩
  | scalar kind, readable, _ => ⟨_, [], .scalar kind, readable, rfl, fun _ among => by cases among⟩
  | record shape, readable, _ =>
      ⟨_, [], .record shape, readable, rfl, fun _ among => by cases among⟩
  | map _ _ _, _, other => by cases other
  | pointer target, readable, _ => by
      obtain ⟨inner, other, -⟩ := (readable_wrap_iff .pointer).mp readable
      exact (spine_of_readable target inner other).wrap .pointer readable
  | array element length, readable, _ => by
      obtain ⟨inner, other, -⟩ := (readable_wrap_iff (.array length)).mp readable
      exact (spine_of_readable element inner other).wrap (.array length) readable
  | function ⟨result, parameters, variadic⟩, readable, _ => by
      obtain ⟨inner, other, -⟩ := (readable_wrap_iff (.call parameters variadic)).mp readable
      exact (spine_of_readable result inner other).wrap (.call parameters variadic) readable

end Layers

section Reading

variable {left right base base' : Ty} {rest rest' : List Char}

/-- A type is read in one way, whatever comes after it. -/
def Reads (left : Ty) : Prop :=
  ∀ {right : Ty} {rest rest' : List Char}, Readable right → Stops rest → Stops rest' →
    left.characters ++ rest = right.characters ++ rest' →
    left.essence = right.essence ∧ rest = rest'

/-- The word that a type without layers starts with. -/
def leadingWord : Ty → String
  | void => "void"
  | scalar kind => kind.name
  | record shape => keyword shape.union
  | map _ _ _ => "map"
  | pointer _ | array _ _ | function _ => ""

theorem leadingWord_plain (type : Ty) :
    ∀ letter ∈ type.leadingWord.toList, letter ∉ delimiters := by
  have keywords (union : Bool) : isWordName (keyword union) = true := by cases union <;> decide
  have scalars (kind : Scalar) : isWordName kind.name = true := by cases kind <;> decide
  apply not_delimiter_of_isWordName
  cases type with
  | scalar kind => exact scalars kind
  | record shape => exact keywords shape.union
  | void => exact (by decide : isWordName "void" = true)
  | map _ _ _ => exact (by decide : isWordName "map" = true)
  | pointer _ | array _ _ | function _ => exact (by decide : isWordName "" = true)

theorem keyword_ne_void (union : Bool) : keyword union ≠ "void" := by
  cases union <;> decide

theorem keyword_ne_name (union : Bool) (kind : Scalar) : keyword union ≠ kind.name := by
  cases union <;> cases kind <;> decide

theorem name_ne_void (kind : Scalar) : kind.name ≠ "void" := by
  cases kind <;> decide

theorem keyword_injective {union other : Bool} (same : keyword union = keyword other) :
    union = other := by
  cases union <;> cases other <;> first | rfl | exact absurd same (by decide)

/-- The characters behind the word. -/
def behindWord : Ty → List Char
  | record shape => ' ' :: shape.name.toList
  | _ => []

theorem Base.characters_eq (simple : Base base) :
    base.characters = base.leadingWord.toList ++ base.behindWord := by
  cases simple with
  | void => rfl
  | scalar kind => exact (List.append_nil _).symm
  | record shape => exact characters_record shape

theorem Base.ends (base : Ty) (ends : Ends rest) : Ends (base.behindWord ++ rest) := by
  cases base with
  | record shape =>
      intro next first
      cases first
      decide
  | void | scalar _ | pointer _ | array _ _ | map _ _ _ | function _ => exact ends

/-- Bases are told apart by their words, and records then by their names. -/
theorem Base.unique (simple : Base base) (simple' : Base base') (readable : Readable base)
    (readable' : Readable base') (ends : Ends rest) (ends' : Ends rest')
    (same : base.characters ++ rest = base'.characters ++ rest') :
    base.essence = base'.essence ∧ rest = rest' := by
  rw [simple.characters_eq, simple'.characters_eq, List.append_assoc, List.append_assoc] at same
  obtain ⟨words, behind⟩ := word_unique (leadingWord_plain base) (leadingWord_plain base')
    (Base.ends base ends) (Base.ends base' ends') same
  have equal := String.toList_inj.mp words
  cases simple with
  | void =>
      cases simple' with
      | void => exact ⟨rfl, behind⟩
      | scalar kind => exact absurd equal.symm (name_ne_void kind)
      | record shape => exact absurd equal.symm (keyword_ne_void shape.union)
  | scalar kind =>
      cases simple' with
      | void => exact absurd equal (name_ne_void kind)
      | scalar _ => exact ⟨rfl, behind⟩
      | record shape => exact absurd equal.symm (keyword_ne_name shape.union kind)
  | record shape =>
      cases simple' with
      | void => exact absurd equal (keyword_ne_void shape.union)
      | scalar kind => exact absurd equal (keyword_ne_name shape.union kind)
      | record other =>
          obtain ⟨names, rests⟩ := word_unique (not_delimiter_of_isWordName readable.1)
            (not_delimiter_of_isWordName readable'.1) ends ends' (List.cons.inj behind).2
          refine ⟨?_, rests⟩
          simp only [essence, keyword_injective equal, String.toList_inj.mp names]

theorem stops_further (variadic : Bool) (types : List Ty) (rest : List Char) :
    Stops (furtherCharacters variadic types ++ rest) := by
  intro next first
  cases types with
  | nil => cases variadic <;> cases first <;> decide
  | cons type types =>
      cases first
      decide

theorem further_unique {types others : List Ty} {variadic variadic' : Bool}
    (reads : ∀ type ∈ types, Reads type) (readable : ∀ other ∈ others, Readable other)
    (same : furtherCharacters variadic types ++ rest =
      furtherCharacters variadic' others ++ rest') :
    variadic = variadic' ∧ essences types = essences others ∧ rest = rest' := by
  induction types generalizing others with
  | nil =>
      cases others with
      | nil =>
          cases variadic <;> cases variadic' <;> simp [furtherCharacters] at same <;>
            exact ⟨rfl, rfl, same⟩
      | cons other others =>
          obtain ⟨letter, behind, starts, different, -⟩ := exists_letter other
          cases variadic <;> simp [furtherCharacters, starts] at same
          exact absurd same.1.symm different
  | cons type types ih =>
      cases others with
      | nil =>
          obtain ⟨letter, behind, starts, different, -⟩ := exists_letter type
          cases variadic' <;> simp [furtherCharacters, starts] at same
          exact absurd same.1 different
      | cons other others =>
          simp only [furtherCharacters, List.cons_append, List.append_assoc, List.cons.injEq,
            true_and] at same
          obtain ⟨first, later⟩ := reads type List.mem_cons_self (readable other List.mem_cons_self)
            (stops_further variadic types rest) (stops_further variadic' others rest') same
          obtain ⟨variadics, equal, rests⟩ := ih
            (fun type among => reads type (List.mem_cons_of_mem _ among))
            (fun other among => readable other (List.mem_cons_of_mem _ among)) later
          exact ⟨variadics, by rw [essences, essences, first, equal], rests⟩

theorem parameters_unique {types others : List Ty} {variadic variadic' : Bool}
    (reads : ∀ type ∈ types, Reads type) (readable : ∀ other ∈ others, Readable other)
    (same : parameterCharacters variadic types ++ rest =
      parameterCharacters variadic' others ++ rest') :
    variadic = variadic' ∧ essences types = essences others ∧ rest = rest' := by
  cases types with
  | nil =>
      cases others with
      | nil =>
          cases variadic <;> cases variadic' <;> simp [parameterCharacters] at same <;>
            exact ⟨rfl, rfl, same⟩
      | cons other others =>
          obtain ⟨letter, behind, starts, dot, parenthesis⟩ := exists_letter other
          cases variadic <;> simp [parameterCharacters, starts] at same
          · exact absurd same.1.symm parenthesis
          · exact absurd same.1.symm dot
  | cons type types =>
      cases others with
      | nil =>
          obtain ⟨letter, behind, starts, dot, parenthesis⟩ := exists_letter type
          cases variadic' <;> simp [parameterCharacters, starts] at same
          · exact absurd same.1 parenthesis
          · exact absurd same.1 dot
      | cons other others =>
          exact further_unique reads readable
            (by simpa [furtherCharacters, parameterCharacters] using same)

theorem Stops.ne_layer (stops : Stops rest) (layer : Layer) (behind : List Char) :
    rest ≠ layer.characters ++ behind := by
  rintro rfl
  cases layer <;> exact absurd (stops _ rfl) (by decide)

/-- One layer is read in one way, and leaves alike what it goes around. -/
theorem layer_unique {layer layer' : Layer} (reads : ∀ type ∈ layer.parameters, Reads type)
    (readable : ∀ type ∈ layer'.parameters, Readable type) (equal : base.essence = base'.essence)
    (same : layer.characters ++ rest = layer'.characters ++ rest') :
    (layer.wrap base).essence = (layer'.wrap base').essence ∧ rest = rest' := by
  cases layer with
  | pointer =>
      cases layer' with
      | pointer =>
          simp [Layer.characters] at same
          exact ⟨congrArg pointer equal, same⟩
      | array _ | call _ _ => simp [Layer.characters] at same
  | array length =>
      cases layer' with
      | array length' =>
          simp only [Layer.characters, List.cons_append, List.append_assoc, List.cons.injEq,
            true_and] at same
          have ends (rest : List Char) : Ends ([']'] ++ rest) := by
            intro next first
            cases first
            decide
          obtain ⟨digits, behind⟩ := word_unique digit_not_delimiter digit_not_delimiter
            (ends rest) (ends rest') same
          obtain rfl := toDigits_injective digits
          exact ⟨congrArg (array · length) equal, (List.cons.inj behind).2⟩
      | pointer | call _ _ => simp [Layer.characters] at same
  | call parameters variadic =>
      cases layer' with
      | call parameters' variadic' =>
          simp only [Layer.characters, List.cons_append, List.cons.injEq, true_and] at same
          obtain ⟨rfl, types, rests⟩ := parameters_unique reads readable same
          have types : essences parameters = essences parameters' := types
          exact ⟨by simp only [Layer.wrap, essence, equal, types], rests⟩
      | pointer | array _ => simp [Layer.characters] at same

/-- Layers are read from the inside out. -/
theorem layers_unique {layers layers' : List Layer}
    (reads : ∀ layer ∈ layers, ∀ type ∈ layer.parameters, Reads type)
    (readable : ∀ layer ∈ layers', ∀ type ∈ layer.parameters, Readable type)
    (stops : Stops rest) (stops' : Stops rest') (equal : base.essence = base'.essence)
    (same : layers.flatMap Layer.characters ++ rest = layers'.flatMap Layer.characters ++ rest') :
    (layered base layers).essence = (layered base' layers').essence ∧ rest = rest' := by
  induction layers generalizing layers' base base' with
  | nil =>
      cases layers' with
      | nil => exact ⟨equal, same⟩
      | cons layer layers' =>
          rw [List.flatMap_cons, List.append_assoc] at same
          exact absurd same (stops.ne_layer layer _)
  | cons layer layers ih =>
      cases layers' with
      | nil =>
          rw [List.flatMap_cons, List.append_assoc] at same
          exact absurd same.symm (stops'.ne_layer layer _)
      | cons layer' layers' =>
          simp only [List.flatMap_cons, List.append_assoc] at same
          obtain ⟨inner, behind⟩ := layer_unique (reads layer List.mem_cons_self)
            (readable layer' List.mem_cons_self) equal same
          show (layered (layer.wrap base) layers).essence =
            (layered (layer'.wrap base') layers').essence ∧ rest = rest'
          exact ih (fun other among => reads other (List.mem_cons_of_mem _ among))
            (fun other among => readable other (List.mem_cons_of_mem _ among)) inner behind

theorem ends_layers (layers : List Layer) (stops : Stops rest) :
    Ends (layers.flatMap Layer.characters ++ rest) := by
  cases layers with
  | nil => exact stops.ends
  | cons layer layers =>
      intro next first
      cases layer <;> cases first <;> decide

theorem Base.ne_map (simple : Base base) (ends : Ends rest) (behind : List Char) :
    base.characters ++ rest ≠ 'm' :: 'a' :: 'p' :: '[' :: behind := by
  intro same
  rw [simple.characters_eq, List.append_assoc] at same
  have split : base.leadingWord.toList ++ (base.behindWord ++ rest) =
      (Ty.map .void .void .hash).leadingWord.toList ++ '[' :: behind := same
  have bracket : Ends ('[' :: behind) := by
    intro next first
    cases first
    decide
  obtain ⟨word, -⟩ := word_unique (leadingWord_plain base) (leadingWord_plain _)
    (Base.ends base ends) bracket split
  have equal : base.leadingWord = "map" := String.toList_inj.mp word
  cases simple with
  | void => exact absurd equal (by decide)
  | scalar kind => cases kind <;> exact absurd equal (by decide)
  | record shape =>
      have keywords (union : Bool) : keyword union ≠ "map" := by cases union <;> decide
      exact keywords shape.union equal

theorem readable_map_iff {key value : Ty} {kind : MapKind} :
    Readable (map key value kind) ↔ Readable key ∧ Readable value := by
  simp only [Readable, worded, buriesMap, Bool.and_eq_true, Bool.or_eq_false_iff]
  tauto

/-- A readable type is read in one way. -/
theorem reads_of_readable (left : Ty) (readable : Readable left) : Reads left := by
  intro right rest rest' readable' stops stops' same
  cases isMap : left.isMap with
  | true =>
      cases left with
      | map key value kind =>
          obtain ⟨keys, values⟩ := readable_map_iff.mp readable
          rw [characters_map] at same
          cases isMap' : right.isMap with
          | true =>
              cases right with
              | map key' value' kind' =>
                  obtain ⟨keys', values'⟩ := readable_map_iff.mp readable'
                  simp only [characters_map, List.cons_append, List.append_assoc, List.cons.injEq,
                    true_and] at same
                  have bracket (rest : List Char) : Stops (']' :: rest) := by
                    intro next first
                    cases first
                    decide
                  obtain ⟨key, behind⟩ :=
                    reads_of_readable key keys keys' (bracket _) (bracket _) same
                  obtain ⟨value, rests⟩ := reads_of_readable value values values' stops stops'
                    (List.cons.inj behind).2
                  exact ⟨by rw [essence, essence, key, value], rests⟩
              | _ => cases isMap'
          | false =>
              obtain ⟨base, layers, simple, -, rfl, -⟩ := spine_of_readable right readable' isMap'
              rw [characters_layered, List.append_assoc] at same
              exact absurd same.symm (simple.ne_map (ends_layers layers stops') _)
      | _ => cases isMap
  | false =>
      obtain ⟨base, layers, simple, plain, rfl, each⟩ := spine_of_readable left readable isMap
      rw [characters_layered, List.append_assoc] at same
      cases isMap' : right.isMap with
      | true =>
          cases right with
          | map key value kind =>
              rw [characters_map] at same
              exact absurd same (simple.ne_map (ends_layers layers stops) _)
          | _ => cases isMap'
      | false =>
          obtain ⟨base', layers', simple', plain', rfl, each'⟩ :=
            spine_of_readable right readable' isMap'
          rw [characters_layered, List.append_assoc] at same
          obtain ⟨equal, behind⟩ := simple.unique simple' plain plain' (ends_layers layers stops)
            (ends_layers layers' stops') same
          refine layers_unique ?_ (fun layer among type inside => (each' layer among type inside).1)
            stops stops' equal behind
          intro layer among type inside
          obtain ⟨reads, smaller⟩ := each layer among type inside
          exact reads_of_readable type reads
termination_by sizeOf left

theorem compatible_of_text (readable : Readable left) (readable' : Readable right)
    (same : left.text = right.text) : left.compatible right = true := by
  have stops : Stops [] := fun _ first => by cases first
  exact compatible_iff.mpr (reads_of_readable left readable readable' stops stops
    (congrArg (·.toList ++ []) same)).1

end Reading

end TraceProbe.Ty

import TraceProbe.Proofs.MapLanguage.Correctness

/-!
# A kernel with a shelf

The laws of a kernel can be met for maps of any sizes: a lookup copies the value
it finds to an address above all that belongs to the program.
-/

namespace TraceProbe

/-- Sizes of keys and values of maps, by their numbers. -/
structure MapSizes where
  sizes : UInt64 → Option (Nat × Nat)
  small : ∀ {id keySize valueSize}, sizes id = some (keySize, valueSize) → valueSize ≤ 2 ^ 32

namespace MapSizes

/-- Contents whose values have the sizes of their maps. -/
structure World (maps : MapSizes) where
  contents : Contents
  sized : ∀ {id keySize valueSize}, maps.sizes id = some (keySize, valueSize) →
    ∀ key value, contents id key = some value → value.length = valueSize

variable (maps : MapSizes)

/-- Maps without any key. -/
def World.empty : maps.World :=
  ⟨fun _ _ => none, fun _ _ _ found => by cases found⟩

variable {maps}

/-- Replaces the value of one key by one of the right size. -/
def World.put (world : maps.World) (id : UInt64) (key value : List UInt8)
    (fits : ∀ keySize valueSize, maps.sizes id = some (keySize, valueSize) →
      value.length = valueSize) : maps.World := by
  refine ⟨world.contents.put id key value, ?_⟩
  intro other keySize valueSize known place old found
  unfold Contents.put at found
  split at found
  · rename_i same
    cases found
    exact fits keySize valueSize (same.1 ▸ known)
  · exact world.sized known place old found

/-- Removes one key. -/
def World.erase (world : maps.World) (id : UInt64) (key : List UInt8) : maps.World := by
  refine ⟨world.contents.erase id key, ?_⟩
  intro other keySize valueSize known place old found
  unfold Contents.erase at found
  split at found
  · cases found
  · exact world.sized known place old found

/-- Where values are copied to. -/
def shelf : UInt64 := 0x8000000000000000

/-- A helper that does nothing but return a result. -/
def returns (result : UInt64) (memory : Memory) (world : maps.World) : Answer maps.World :=
  { result := result, scratch := fun _ => 0, memory := memory, world := world }

/-- What a helper does with the values of `r1` to `r5`. -/
def answer (maps : MapSizes) (helper : Int32) (arguments : List UInt64) (memory : Memory)
    (world : maps.World) : Answer maps.World :=
  match Helper.ofId? helper, arguments with
  | some .mapLookupElem, id :: key :: _ =>
      match (maps.sizes id).bind fun found => world.contents id (memory.read key found.1) with
      | some value => returns shelf (memory.write shelf value) world
      | none => returns 0 memory world
  | some .mapUpdateElem, id :: key :: value :: _ =>
      match known : maps.sizes id with
      | some (keySize, valueSize) =>
          returns 0 memory (world.put id (memory.read key keySize) (memory.read value valueSize)
            fun _ _ same => by
              cases known.symm.trans same
              exact Memory.length_read _ _ _)
      | none => returns 0 memory world
  | some .mapDeleteElem, id :: key :: _ =>
      match maps.sizes id with
      | some (keySize, _) => returns 0 memory (world.erase id (memory.read key keySize))
      | none => returns 0 memory world
  | some .probeRead, target :: size :: source :: _ =>
      returns 0 (memory.write target (memory.read source size.toNat)) world
  | _, _ => returns 0 memory world

/-- A value on the shelf is above all that belongs to the program. -/
theorem byte_write_shelf (memory : Memory) {value : List UInt8} (small : value.length ≤ 2 ^ 32)
    {address : UInt64} (below : address.toNat < 2 ^ 63) :
    (memory.write shelf value).byte address = memory.byte address := by
  refine Memory.byte_write_of_ne _ _ _ small ?_
  rintro index inside rfl
  have start : shelf.toNat = 2 ^ 63 := rfl
  rw [UInt64.toNat_add, UInt64.toNat_ofNat', start] at below
  omega

/-- The kernel of some maps. -/
def kernel (maps : MapSizes) : Kernel maps.World where
  handle id := id
  otherArithmetic _ left _ := left
  otherComparison _ _ _ := false
  call := maps.answer
  sizes := maps.sizes
  contents := World.contents
  owned address := address.toNat < 2 ^ 63
  readable _ _ _ _ := True
  readable_of_owned _ _ _ _ _ := trivial
  sized known world key value found := world.sized known key value found
  lookup := by
    intro id keySize valueSize known key others memory world
    have helper : Helper.ofId? Helper.mapLookupElem.id = some .mapLookupElem := rfl
    simp only [answer, helper, known, Option.bind_some]
    cases found : world.contents id (memory.read key keySize) with
    | none => exact ⟨rfl, fun _ _ => rfl, rfl⟩
    | some value =>
        have length := world.sized known _ _ found
        have small := maps.small known
        refine ⟨rfl, fun address below => byte_write_shelf memory (by omega) below,
          show shelf ≠ 0 by decide, ?_, trivial⟩
        rw [← length]
        exact Memory.read_write _ _ (by omega)
  update := by
    intro id keySize valueSize known key value other memory world
    have helper : Helper.ofId? Helper.mapUpdateElem.id = some .mapUpdateElem := rfl
    simp only [answer, helper]
    split
    · rename_i keySize' valueSize' same
      cases known.symm.trans same
      exact ⟨rfl, fun _ _ => rfl⟩
    · rename_i none
      cases known.symm.trans none
  delete := by
    intro id keySize valueSize known key others memory world
    have helper : Helper.ofId? Helper.mapDeleteElem.id = some .mapDeleteElem := rfl
    simp only [answer, helper, known]
    exact ⟨rfl, fun _ _ => rfl⟩
  probeRead := by
    intro target size source others memory world readable
    exact ⟨rfl, fun _ _ => rfl⟩

end MapSizes

/-- The sizes of one map from `u16` to `s32`. -/
def countSizes : MapSizes where
  sizes id := if id = 0 then some (2, 4) else none
  small := by
    intro id keySize valueSize known
    split at known
    · cases known
      decide
    · cases known

/-- A probe that stores a signed byte of the context, and removes the key that
it reads back. -/
def counts : List MapCommand :=
  [.store "m" (.number 300 false {}) (.context "x" {}) {} {} {},
    .remove "m" (.read "m" (.number 300 false {}) {} {}) {} {} {}]

def countProbe : Probe where
  name := "counts"
  statements := counts.map MapCommand.toNode
  symbols :=
    { entries := [⟨"x", some (.scalar .s8), .context 8⟩,
        ⟨"m", some (.map (.scalar .u16) (.scalar .s32) .hash), .map 0⟩]
      nextMap := 1 }

/-- A machine whose context holds minus two. -/
def countMachine : Machine countSizes.World where
  regs reg := if reg = .frame then 0x1000 else if reg = .r1 then 0x2000 else 0
  memory := ⟨fun address => if address = 0x2008 then 254 else 0⟩
  world := .empty countSizes

theorem toNat_below {base : UInt64} {position : Int} (low : -(base.toNat : Int) ≤ position)
    (high : position < 0) : (base + UInt64.ofInt position).toNat =
      (base.toNat + position).toNat := by
  have bound := base.toNat_lt
  rw [UInt64.toNat_add, toNat_ofInt]
  omega

theorem countMachine_boots : countSizes.kernel.Boots 512 countProbe.symbols countMachine := by
  have frame : (countMachine.regs .frame).toNat = 0x1000 := rfl
  constructor
  · rintro address ⟨position, low, high, rfl⟩
    show (countMachine.regs .frame + UInt64.ofInt position).toNat < 2 ^ 63
    rw [toNat_below (by omega) high, frame]
    omega
  · intro name type offset known index less
    obtain ⟨rfl, rfl⟩ : type = .scalar .s8 ∧ offset = 8 := by
      unfold Symbols.context? Symbols.get? countProbe at known
      by_cases first : name = "x"
      · subst first
        cases known
        exact ⟨rfl, rfl⟩
      · by_cases second : name = "m"
        · subst second
          cases known
        · simp [List.find?, Ne.symm first, Ne.symm second] at known
    obtain rfl : index = 0 := Nat.lt_one_iff.mp less
    have place : countMachine.address .r1 8 + UInt64.ofNat 0 = 0x2008 := rfl
    rw [place]
    refine ⟨show (0x2008 : UInt64).toNat < 2 ^ 63 by decide, ?_⟩
    rintro ⟨position, low, high, same⟩
    have far := congrArg UInt64.toNat same
    rw [toNat_below (by omega) high, frame] at far
    have here : (0x2008 : UInt64).toNat = 0x2008 := rfl
    omega

/-- The byte is stored as four, and the key that is removed is another one. -/
theorem countProbe_correct :
    ∃ compiled count, (compile {} .new countProbe).1 = .ok compiled ∧
      let execution := Execution.steps countSizes.kernel.toEnvironment
        (Bytecode.fetch compiled.bytecode) count (.start countMachine)
      execution.control = .left ∧
        countSizes.kernel.contents execution.machine.world 0 [44, 1] =
          some [254, 255, 255, 255] := by
  have maps : (compile {} .new countProbe).1.toOption.map (·.maps) =
      some [⟨0, "m", 1, 2, 4, 1024⟩] := by
    decide +kernel
  cases found : (compile {} .new countProbe).1 with
  | error fault =>
      rw [found] at maps
      cases maps
  | ok compiled =>
      rw [found] at maps
      have maps : compiled.maps = [⟨0, "m", 1, 2, 4, 1024⟩] := Option.some.inj maps
      have created : ∀ spec ∈ compiled.maps,
          countSizes.sizes (UInt64.ofNat spec.number) = some (spec.keySize, spec.valueSize) := by
        rw [maps]
        decide
      obtain ⟨count, left, contents⟩ :=
        compile_correct (show countProbe.statements = counts.map MapCommand.toNode from rfl)
          (by decide) (by decide) found created countMachine_boots
      refine ⟨compiled, count, rfl, left, ?_⟩
      rw [contents]
      decide +kernel

end TraceProbe

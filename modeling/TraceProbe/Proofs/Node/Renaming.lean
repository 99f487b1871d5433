import TraceProbe.Proofs.Node.Parts
import TraceProbe.Proofs.Ty.Renaming

/-!
# Trees and symbols with renamed types

A renaming reaches the types on the nodes of a tree and the types of symbols,
and leaves everything else of them alone.
-/

namespace TraceProbe

variable {naming : Renaming}

/-- A record with its type renamed. -/
def Info.rename (naming : Renaming) (info : Info) : Info :=
  { info with type := info.type.map (Ty.rename naming) }

/-- The tree with the types on its nodes renamed. -/
def Node.rename (naming : Renaming) (node : Node) : Node :=
  node.mapInfo (Info.rename naming)

/-- The symbol with its type renamed. -/
def Symbol.rename (naming : Renaming) (symbol : Symbol) : Symbol :=
  { symbol with type := symbol.type.map (Ty.rename naming) }

/-- The symbols with their types renamed. -/
def Symbols.rename (naming : Renaming) (symbols : Symbols) : Symbols :=
  { symbols with entries := symbols.entries.map (Symbol.rename naming) }

namespace Node

section Parts

variable (node : Node)

@[simp] theorem info_rename : (node.rename naming).info = node.info.rename naming :=
  info_mapInfo node

@[simp] theorem type?_rename :
    (node.rename naming).type? = node.type?.map (Ty.rename naming) := by
  rw [type?, info_rename]
  rfl

@[simp] theorem storage_rename : (node.rename naming).storage = node.storage := by
  rw [storage, info_rename]
  rfl

@[simp] theorem loc_rename : (node.rename naming).loc = node.loc := by
  rw [loc, info_rename]
  rfl

@[simp] theorem isVirtual_rename : (node.rename naming).isVirtual = node.isVirtual := by
  rw [isVirtual, info_rename]
  rfl

@[simp] theorem operator?_rename : (node.rename naming).operator? = node.operator? :=
  operator?_mapInfo node

@[simp] theorem applies_rename (operator : String) :
    (node.rename naming).applies operator = node.applies operator := by
  rw [applies, operator?_rename, applies]

@[simp] theorem ident?_rename : (node.rename naming).ident? = node.ident? :=
  ident?_mapInfo node

@[simp] theorem str?_rename : (node.rename naming).str? = node.str? :=
  str?_mapInfo node

@[simp] theorem num?_rename : (node.rename naming).num? = node.num? :=
  num?_mapInfo node

@[simp] theorem args_rename : (node.rename naming).args = node.args.map (rename naming) :=
  args_mapInfo node

end Parts

@[simp] theorem rename_apply (operator : String) (args : List Node) (info : Info) :
    (apply operator args info).rename naming =
      apply operator (args.map (rename naming)) (info.rename naming) := by
  rw [rename, mapInfo, mapInfos_eq_map]
  rfl

@[simp] theorem rename_ident (name : String) (info : Info) :
    (ident name info).rename naming = ident name (info.rename naming) :=
  rfl

@[simp] theorem rename_str (value : String) (info : Info) :
    (str value info).rename naming = str value (info.rename naming) :=
  rfl

@[simp] theorem rename_num (value : UInt64) (unsigned : Bool) (info : Info) :
    (num value unsigned info).rename naming = num value unsigned (info.rename naming) :=
  rfl

theorem rename_withInfo (node : Node) (info : Info) :
    (node.withInfo info).rename naming = (node.rename naming).withInfo (info.rename naming) := by
  cases node with
  | apply operator args _ => simp only [withInfo, rename_apply]
  | ident _ _ | str _ _ | num _ _ _ => rfl

@[simp] theorem rename_withType (node : Node) (type : Ty) :
    (node.withType type).rename naming = (node.rename naming).withType (type.rename naming) := by
  rw [withType, rename_withInfo, withType, info_rename]
  rfl

@[simp] theorem rename_withStorage (node : Node) (storage : Storage) :
    (node.withStorage storage).rename naming = (node.rename naming).withStorage storage := by
  rw [withStorage, rename_withInfo, withStorage, info_rename]
  rfl

@[simp] theorem rename_asVirtual (node : Node) :
    (node.asVirtual).rename naming = (node.rename naming).asVirtual := by
  rw [asVirtual, rename_withInfo, asVirtual, info_rename]
  rfl

@[simp] theorem rename_withArguments (node : Node) (args : List Node) :
    (node.withArguments args).rename naming =
      (node.rename naming).withArguments (args.map (rename naming)) := by
  cases node with
  | apply operator _ info => simp only [withArguments, rename_apply]
  | ident _ _ | str _ _ | num _ _ _ => rfl

theorem rename_modifyArgument (node : Node) (index : Nat) {change change' : Node → Node}
    (same : ∀ arg, (change arg).rename naming = change' (arg.rename naming)) :
    (node.modifyArgument index change).rename naming =
      (node.rename naming).modifyArgument index change' := by
  cases node with
  | apply operator args info =>
      simp only [modifyArgument, rename_apply, apply.injEq, true_and, and_true]
      apply List.ext_getElem?
      intro position
      simp only [List.getElem?_map, List.getElem?_modify]
      cases args[position]? with
      | none => rfl
      | some arg =>
          simp only [Option.map_some, Option.map_eq_map]
          split
          · rw [same]
          · rfl
  | ident _ _ | str _ _ | num _ _ _ => rfl

theorem isSome_type?_rename (node : Node) :
    (node.rename naming).type?.isSome = node.type?.isSome := by
  rw [type?_rename, Option.isSome_map]

section Counts

theorem typedCounts_of_each {nodes : List Node}
    (each : ∀ node ∈ nodes, (node.rename naming).typedCount = node.typedCount) :
    typedCounts (nodes.map (rename naming)) = typedCounts nodes := by
  induction nodes with
  | nil => rfl
  | cons node nodes ih =>
      rw [List.map_cons, typedCounts, typedCounts, each node List.mem_cons_self,
        ih fun other member => each other (List.mem_cons_of_mem _ member)]

theorem isSome_type_rename (info : Info) : (info.rename naming).type.isSome = info.type.isSome :=
  Option.isSome_map

theorem typedCount_rename (node : Node) : (node.rename naming).typedCount = node.typedCount := by
  induction node using induct with
  | leaf node leaf =>
      cases node with
      | apply _ _ _ => cases leaf
      | ident _ info | str _ info | num _ _ info =>
          simp only [rename_ident, rename_str, rename_num, typedCount, isSome_type_rename]
  | apply operator args info ih =>
      simp only [rename_apply, typedCount, isSome_type_rename, typedCounts_of_each ih]

@[simp] theorem typedCounts_rename (nodes : List Node) :
    typedCounts (nodes.map (rename naming)) = typedCounts nodes :=
  typedCounts_of_each fun node _ => typedCount_rename node

theorem firstUntypedOf?_of_each {nodes : List Node}
    (each : ∀ node ∈ nodes,
      (node.rename naming).firstUntyped? = node.firstUntyped?.map (rename naming)) :
    firstUntypedOf? (nodes.map (rename naming)) = (firstUntypedOf? nodes).map (rename naming) := by
  induction nodes with
  | nil => rfl
  | cons node nodes ih =>
      rw [List.map_cons, firstUntypedOf?, firstUntypedOf?, each node List.mem_cons_self,
        ih fun other member => each other (List.mem_cons_of_mem _ member), Option.map_or]

theorem firstUntyped?_rename (node : Node) :
    (node.rename naming).firstUntyped? = node.firstUntyped?.map (rename naming) := by
  induction node using induct with
  | leaf node leaf =>
      cases node with
      | apply _ _ _ => cases leaf
      | ident _ info | str _ info | num _ _ info =>
          simp only [rename_ident, rename_str, rename_num, firstUntyped?, isSome_type_rename]
          split <;> rfl
  | apply operator args info ih =>
      simp only [rename_apply, firstUntyped?, isSome_type_rename, firstUntypedOf?_of_each ih,
        Option.map_or]
      split
      · rfl
      · simp only [Option.map_some, rename_apply]

@[simp] theorem firstUntypedOf?_rename (nodes : List Node) :
    firstUntypedOf? (nodes.map (rename naming)) = (firstUntypedOf? nodes).map (rename naming) := by
  apply firstUntypedOf?_of_each
  intro node _
  exact firstUntyped?_rename node

end Counts

end Node

namespace Symbols

variable (symbols : Symbols) (name : String)

@[simp] theorem get?_rename :
    (symbols.rename naming).get? name = (symbols.get? name).map (Symbol.rename naming) := by
  have names : ((fun symbol : Symbol => decide (symbol.name = name)) ∘ Symbol.rename naming) =
      fun symbol => decide (symbol.name = name) := rfl
  rw [get?, rename, List.find?_map, names]
  rfl

theorem resolve_rename : (symbols.rename naming).resolve name =
    ((symbols.resolve name).1.rename naming, (symbols.resolve name).2.rename naming) := by
  unfold resolve
  rw [get?_rename]
  cases symbols.get? name with
  | some symbol => rfl
  | none =>
      simp only [Option.map_none, push, reserveMap, rename, List.map_append, List.map_cons,
        List.map_nil]
      rfl

theorem setType_rename (type : Ty) :
    (symbols.rename naming).setType name (type.rename naming) =
      (symbols.setType name type).rename naming := by
  simp only [setType, rename, List.map_map, Symbols.mk.injEq, and_true]
  refine List.map_congr_left ?_
  intro symbol _
  simp only [Function.comp_apply, Symbol.rename, Option.isNone_map]
  split <;> rfl

end Symbols

end TraceProbe

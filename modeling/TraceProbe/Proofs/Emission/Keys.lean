import TraceProbe.Proofs.Emission.Elements

/-!
# Keys

A key is handed to a helper in its own slot, or in a new one that it was
converted into.
-/

namespace TraceProbe

open Insn

namespace AtSite

variable {symbols : Symbols} {stream : Stream} {own : Storage} {site : Site}

/-- A value of another size is widened or cut off on its way through `r0`. -/
theorem yields_convert {dst src : Storage} {node : Node}
    (found : Yields (convert dst src node) ⟨stream, own⟩ () site) :
    src.size = dst.size ∧ (∃ finish, Yields (Emit.copyTo dst src) stream () finish ∧
        site = ⟨finish, own⟩) ∨
      ∃ signed code code', Emit.Loads .r0 src code ∧ Emit.Stores .r0 dst code' ∧
        site = ⟨stream.append (code ++ (Emit.wideningCode .r0 src.size signed ++ code')), own⟩ := by
  unfold convert at found
  split at found
  · rename_i same
    obtain ⟨last, copied, rfl⟩ := yields_lift_iff.mp found
    exact .inl ⟨same, last, copied, rfl⟩
  · have widened {signed : Bool} (found : Yields (do
          Emit.loadWidened .r0 src signed
          Emit.storeReg dst .r0 : AtSite Unit) ⟨stream, own⟩ () site) :
        ∃ signed code code', Emit.Loads .r0 src code ∧ Emit.Stores .r0 dst code' ∧
          site =
            ⟨stream.append (code ++ (Emit.wideningCode .r0 src.size signed ++ code')), own⟩ := by
      simp only [yields_bind_iff, yields_lift_iff, Emit.yields_loadWidened_iff] at found
      obtain ⟨_, _, ⟨_, ⟨between, loaded, rfl⟩, rfl⟩, last, put, rfl⟩ := found
      obtain ⟨code, loads, rfl⟩ := Emit.loads_of_yields loaded
      obtain ⟨code', stores, rfl⟩ := Emit.stores_of_yields put
      rw [Emit.append_append, Emit.append_append]
      exact ⟨signed, code, code', loads, stores, rfl⟩
    refine .inr ?_
    split at found
    · simp only [yields_bind_iff, yields_liftExcept_iff, yields_pure_iff] at found
      obtain ⟨_, _, ⟨-, rfl⟩, _, _, ⟨-, rfl⟩, found⟩ := found
      exact widened (yields_bind_iff.mpr found)
    · simp only [yields_bind_iff, yields_pure_iff] at found
      obtain ⟨_, _, ⟨-, rfl⟩, found⟩ := found
      exact widened (yields_bind_iff.mpr found)

theorem moved_convert {dst src : Storage} {node : Node}
    (found : Yields (convert dst src node) ⟨stream, own⟩ () site) :
    site.own = own ∧ ∃ code, stream.Moved site.stream [⟨some dst, [src], code⟩] := by
  rcases yields_convert found with
      ⟨same, _, copied, rfl⟩ | ⟨signed, code, code', loads, stores, rfl⟩
  · exact ⟨rfl, Emit.moved_copyTo same copied⟩
  · have noLabels : boundLabels (code ++ (Emit.wideningCode .r0 src.size signed ++ code')) =
        [] := by
      have widening : boundLabels (Emit.wideningCode .r0 src.size signed) = [] := by
        unfold Emit.wideningCode
        split <;> rfl
      rw [boundLabels_append, boundLabels_append, loads.noLabels, widening, stores.noLabels]
      rfl
    exact ⟨rfl, _, Stream.moved_one (Stream.extends_append noLabels) (.convert signed loads stores)⟩

theorem storage_of_slot? {storage : Storage} {offset : Int16} {size : Nat}
    (placed : storage.slot? = some offset) (sized : storage.size = size) :
    storage = ⟨.slot offset, size⟩ := by
  obtain ⟨place, _⟩ := storage
  cases place with
  | slot start =>
      cases placed
      obtain rfl := sized
      rfl
  | unassigned | register _ => cases placed

/-- The key is used where it is if it is in the frame with the size of the map's
keys, and otherwise converted into a new slot. -/
theorem yields_keySlot {subscript : Node} {slot : Int16}
    (found : Yields (keySlot subscript) ⟨stream, own⟩ slot site) :
    ∃ map key wanted value kind, subscript.args = [map, key] ∧
      map.type? = some (.map wanted value kind) ∧
      (key.storage = ⟨.slot slot, wanted.size⟩ ∧ site = ⟨stream, own⟩ ∨
        ∃ middle, 0 < wanted.size ∧ Yields (Emit.freshSlot wanted.size wanted.align)
        stream slot middle ∧
          Yields (convert ⟨.slot slot, wanted.size⟩ key.storage key) ⟨middle, own⟩ () site) := by
  unfold keySlot at found
  split at found
  · rename_i map key arguments
    simp only [yields_bind_iff, yields_liftExcept_iff] at found
    obtain ⟨type, _, ⟨known, rfl⟩, found⟩ := found
    have known := knownType_eq_ok_iff.mp known
    split at found
    · rename_i keyType value kind _
      refine ⟨map, key, keyType, value, kind, arguments, known, ?_⟩
      split at found
      · rename_i offset placed sized
        obtain ⟨rfl, rfl⟩ := yields_pure_iff.mp found
        exact .inl ⟨storage_of_slot? placed (of_decide_eq_true sized), rfl⟩
      · simp only [yields_bind_iff, yields_lift_iff, yields_slotOf_iff] at found
        obtain ⟨storage, _, ⟨middle, reserved, rfl⟩, _, after, converted, placed, rfl⟩ := found
        have free : Storage.isAssigned {} = false := rfl
        simp only [Emit.storageFor, free, Bool.false_eq_true, if_false, yields_bind_iff,
          yields_pure_iff, yields_freshPlace_iff, Request.frame, Bool.not_true, Bool.and_false]
          at reserved
        obtain ⟨_, _, reserved, rfl, rfl⟩ := reserved
        obtain rfl : _ = Place.slot slot := placed
        split at reserved
        · rename_i some
          obtain ⟨offset, reserved, same⟩ := reserved
          cases same
          exact .inr ⟨_, some, reserved, convert_of_move converted⟩
        · cases reserved.1
    · exact absurd found not_yields_throw
  · exact absurd found not_yields_throw

/-- The slot of a key, with the pieces that put the key there: none if the key is
there already, and else the slot is new. -/
structure Keyed (key : Node) (stream finish : Stream) (slot : Int16) (size : Nat)
    (moves : List Move) : Prop where
  moved : stream.Moved finish moves
  origin : moves = [] ∧ key.storage = ⟨.slot slot, size⟩ ∨
    (∃ code, moves = [⟨some ⟨.slot slot, size⟩, [key.storage], code⟩]) ∧
      (stream.limit ≤ 32767 → ∀ position, Storage.Covers ⟨.slot slot, size⟩ position →
        Handed stream finish position)

theorem keyed_of_keySlot {subscript : Node} {slot : Int16}
    (found : Yields (keySlot subscript) ⟨stream, own⟩ slot site) :
    site.own = own ∧ ∃ map key size moves, subscript.args = [map, key] ∧
      Keyed key stream site.stream slot size moves := by
  obtain ⟨map, key, wanted, _, _, arguments, -, there | converted⟩ := yields_keySlot found
  · obtain ⟨placed, rfl⟩ := there
    exact ⟨rfl, map, key, wanted.size, [], arguments, .refl stream, .inl ⟨rfl, placed⟩⟩
  · obtain ⟨middle, -, reserved, converted⟩ := converted
    obtain ⟨same, code, moved⟩ := moved_convert converted
    have extended := Stream.extends_freshSlot reserved
    refine ⟨same, map, key, wanted.size, _, arguments, moved.later extended, .inr ⟨⟨code, rfl⟩, ?_⟩⟩
    intro small position covers
    exact (Stream.handed_of_freshSlot small reserved covers).mono
      (Nat.le_refl _) moved.extended.used

namespace Keyed

variable {key : Node} {finish : Stream} {slot : Int16} {size : Nat} {moves : List Move}
  {sure : Prop} {trees : List Node} {before after : Stream} {added added' : List Insn}

theorem reads (keyed : Keyed key stream finish slot size moves)
    (operand : Operand trees key.storage) :
    ∀ move ∈ moves, ∀ src ∈ move.srcs, Readable sure trees before after src := by
  intro move member src among
  rcases keyed.origin with ⟨rfl, -⟩ | ⟨⟨code, rfl⟩, -⟩
  · cases member
  · obtain rfl := List.mem_singleton.mp member
    obtain rfl := List.mem_singleton.mp among
    exact .inl operand

theorem writes (keyed : Keyed key stream finish slot size moves)
    (earlier : before.Extends stream added) (later : finish.Extends after added') :
    ∀ move ∈ moves, ∀ dst, move.dst = some dst → NewSlot before after dst := by
  intro move member dst same
  rcases keyed.origin with ⟨rfl, -⟩ | ⟨⟨code, rfl⟩, handed⟩
  · cases member
  · obtain rfl := List.mem_singleton.mp member
    cases same
    exact ⟨fun reg placed => (by cases placed), fun small position covers =>
      (handed (earlier.limit ▸ small) position covers).mono earlier.used later.used⟩

theorem readable (keyed : Keyed key stream finish slot size moves)
    (operand : Operand trees key.storage)
    (earlier : before.Extends stream added) (later : finish.Extends after added') :
    Readable sure trees before after ⟨.slot slot, size⟩ := by
  rcases keyed.origin with ⟨-, same⟩ | ⟨-, handed⟩
  · exact .inl (same ▸ operand)
  · refine .inr ⟨fun reg placed => (by cases placed), ?_⟩
    intro _ frame position covers
    obtain ⟨low, high⟩ := handed (earlier.limit ▸ frame.small) position covers
    have used := later.used
    exact ⟨by omega, by omega⟩

end Keyed

end AtSite

end TraceProbe

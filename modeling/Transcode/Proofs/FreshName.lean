import Mathlib.Data.List.Nodup
import Mathlib.Data.List.Perm.Subperm
import Transcode.Graph.Basic

/-!
# Fresh names

A fresh name is made of a number by a naming that gives different numbers different names. Among
more numbers than there are names taken, one has a name that is not taken
(`firstFree_not_mem`), so the fresh ids of a graph are not in use.
-/

namespace Transcode

/-- Numbers are written differently. -/
theorem toString_injective : Function.Injective (toString : Nat → String) := by
  intro first second same
  have digits : Nat.toDigits 10 first = Nat.toDigits 10 second := by
    have := congrArg String.toList same
    simpa using this
  calc first = Nat.ofDigitChars 10 (Nat.toDigits 10 first) 0 := Nat.ofDigitChars_ten_toDigits.symm
    _ = Nat.ofDigitChars 10 (Nat.toDigits 10 second) 0 := by rw [digits]
    _ = second := Nat.ofDigitChars_ten_toDigits

/-- A text before numbers keeps their names apart. -/
theorem append_toString_injective (start : String) :
    Function.Injective fun number : Nat => start ++ toString number := by
  intro first second same
  exact toString_injective ((String.append_right_inj start).mp same)

/-- The first free number is not below the one started from. -/
theorem le_firstFree (name : Nat → String) (taken : List String) (fuel number : Nat) :
    number ≤ firstFree name taken fuel number := by
  induction fuel generalizing number with
  | zero => exact Nat.le_refl _
  | succ fuel ih =>
      unfold firstFree
      split
      · exact Nat.le_trans (Nat.le_succ number) (ih (number + 1))
      · exact Nat.le_refl _

/-- If the name that is found is taken, then so are those of all numbers that were tried. -/
theorem forall_mem_of_firstFree_mem (name : Nat → String) (taken : List String) (fuel number : Nat)
    (found : name (firstFree name taken fuel number) ∈ taken) :
    ∀ step ≤ fuel, name (number + step) ∈ taken := by
  induction fuel generalizing number with
  | zero =>
      intro step bound
      obtain rfl : step = 0 := Nat.le_zero.mp bound
      exact found
  | succ fuel ih =>
      unfold firstFree at found
      split at found
      · rename_i head
        intro step bound
        cases step with
        | zero => exact List.contains_iff_mem.mp head
        | succ step =>
            rw [show number + (step + 1) = number + 1 + step by omega]
            exact ih (number + 1) found step (Nat.le_of_succ_le_succ bound)
      · rename_i head
        exact absurd (List.contains_iff_mem.mpr found) head

/-- **The first free name is free.** There are more numbers to try than names taken. -/
theorem firstFree_not_mem (name : Nat → String) (injective : Function.Injective name)
    (taken : List String) (fuel number : Nat) (enough : taken.length ≤ fuel) :
    name (firstFree name taken fuel number) ∉ taken := by
  intro found
  have tried := forall_mem_of_firstFree_mem name taken fuel number found
  have distinct : ((List.range (fuel + 1)).map fun step => name (number + step)).Nodup :=
    List.nodup_range.map fun first second same => Nat.add_left_cancel (injective same)
  have within : ((List.range (fuel + 1)).map fun step => name (number + step)) ⊆ taken := by
    intro other member
    obtain ⟨step, bound, rfl⟩ := List.mem_map.mp member
    exact tried step (Nat.le_of_lt_succ (List.mem_range.mp bound))
  have size := (distinct.subperm within).length_le
  rw [List.length_map, List.length_range] at size
  omega

namespace CodeGraph

variable (graph : CodeGraph)

theorem nodeName_injective : Function.Injective graph.nodeName :=
  append_toString_injective (graph.namespaceText ++ "n")

theorem edgeName_injective : Function.Injective graph.edgeName :=
  append_toString_injective (graph.namespaceText ++ "e")

theorem nodeName_freshNode_not_mem : graph.nodeName graph.freshNode ∉ graph.nodes.map (·.id) :=
  firstFree_not_mem _ graph.nodeName_injective _ _ _ (Nat.le_of_eq (List.length_map _))

theorem edgeName_freshEdge_not_mem : graph.edgeName graph.freshEdge ∉ graph.edges.map (·.id) :=
  firstFree_not_mem _ graph.edgeName_injective _ _ _ (Nat.le_of_eq (List.length_map _))

theorem nextNodeId_le_freshNode : graph.nextNodeId ≤ graph.freshNode := le_firstFree ..

theorem nextEdgeId_le_freshEdge : graph.nextEdgeId ≤ graph.freshEdge := le_firstFree ..

end CodeGraph

end Transcode

/-!
# Sets of numbers

A set of numbers below a bound, held as one mark for each of them: blocks of a graph, addresses in a
piece of code. Membership and insertion take constant time. Numbers from the bound on are never
members.
-/

namespace JvmGraph

structure Marks where
  marked : Array Bool
  deriving DecidableEq, Repr

namespace Marks

def empty (bound : Nat) : Marks := ⟨Array.replicate bound false⟩

def has (s : Marks) (n : Nat) : Bool := s.marked.getD n false

def insert (s : Marks) (n : Nat) : Marks := ⟨s.marked.setIfInBounds n true⟩

def ofList (bound : Nat) (ns : List Nat) : Marks := ns.foldl insert (empty bound)

@[simp]
theorem has_empty (bound n : Nat) : (empty bound).has n = false := by
  simp [has, empty, Array.getD]

theorem has_insert (s : Marks) (m n : Nat) : (s.insert m).has n = (decide (m = n ∧ n < s.marked.size) || s.has n) := by
  simp only [has, insert, Array.getD_eq_getD_getElem?, Array.getElem?_setIfInBounds]
  by_cases hm : m = n
  · subst hm
    by_cases h : m < s.marked.size <;> simp [h]
  · simp [hm]

end Marks

end JvmGraph

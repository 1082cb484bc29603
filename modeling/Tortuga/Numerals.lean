import Mathlib.Algebra.GroupWithZero.Nat
import Mathlib.Data.Nat.Init

/-!
The small numerals of any field and the indices of short vectors, each with its proof by name: a
definition that has one is the same wherever it is compiled.
-/
namespace Tortuga.Numerals

scoped instance atLeastTwo_two : Nat.AtLeastTwo 2 := ⟨by decide⟩

scoped instance atLeastTwo_three : Nat.AtLeastTwo 3 := ⟨by decide⟩

scoped instance atLeastTwo_four : Nat.AtLeastTwo 4 := ⟨by decide⟩

scoped instance atLeastTwo_six : Nat.AtLeastTwo 6 := ⟨by decide⟩

scoped instance neZero_three : NeZero 3 := ⟨by decide⟩

scoped instance neZero_four : NeZero 4 := ⟨by decide⟩

end Tortuga.Numerals

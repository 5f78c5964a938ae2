import KoAgent.AtomTable

/-!
# Filters that are left to user space

`conj` interns the attribute tests of the conjuncts it accepts before it meets
one that it refuses, and a refusal does not take them back. A refused filter
leaves the shared table alone only if all the tests it reached were known before.
Where that holds of every refused filter, the atoms are those of the others.
-/

namespace KoAgent.RefusedFilters

open KoAgent.FilterModel KoAgent.CelExpression KoAgent.FilterCompiler KoAgent.FilterSets
open KoAgent.AtomInterning KoAgent.CompilerShape KoAgent.CompiledSets KoAgent.ProgramSize
open KoAgent.ReferenceCel KoAgent.AttributeTests KoAgent.AtomTable
open KoAgent.PredicateMachine hiding cmpField

set_option autoImplicit false

def indexed (c : Compiler) (key : AtomKey) : Prop := (c.atomIdx key).isSome = true

end KoAgent.RefusedFilters

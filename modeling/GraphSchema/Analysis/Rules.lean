import GraphSchema.Analysis.AliasCycle
import GraphSchema.Analysis.StructCycle

/-!
# Rules about resolved types

What can be checked once all references are resolved: a union may list neither itself nor `None`,
even by an alias; fields and parameters carry data only; aliases and structs have no cycles; and a
schema has an endpoint. Whatever refers to an unknown type is left out here, it is reported as
undefined.
-/

namespace GraphSchema.Registry

/-- The problem with one option of a union. -/
def optionProblem? (registry : Registry) (type : DeclaredType) (option : UnionOption) :
    Option Problem := do
  let target ← registry.types.aliasTarget? (← option.type)
  if target = type.id then some (.unionListsItself type.name option.designation.position)
  else if target = Primitive.nothing.id then
    some (.unionListsNone type.name option.designation.position)
  else none

/-- The options that are their own union or `None`. -/
def unionProblems (registry : Registry) : List Problem :=
  registry.types.declared.flatMap fun type =>
    type.options.filterMap (registry.optionProblem? type)

/-- The problem with the type of a field. -/
def fieldProblem? (registry : Registry) (node : GraphNode) : Option Problem :=
  match node.kind, node.type with
  | .structField parent, some type =>
    if registry.types.isPure type then none
    else
      some (.fieldImpure ((registry.types.designation? parent).getD "") node.name
        ((registry.types.designation? type).getD "") node.position)
  | _, _ => none

/-- The problem with the type of a parameter. -/
def parameterProblem? (registry : Registry) (parameter : Parameter) : Option Problem :=
  match parameter.type with
  | some type =>
    if registry.types.isPure type then none
    else
      some (.parameterImpure (((registry.node? parameter.target).map GraphNode.graphName).getD "")
        parameter.name ((registry.types.designation? type).getD "") parameter.position)
  | none => none

/-- The fields and parameters that do not carry data only. -/
def purityProblems (registry : Registry) : List Problem :=
  registry.nodes.filterMap registry.fieldProblem? ++
    registry.parameters.filterMap registry.parameterProblem?

/-- The problem with a schema that has no endpoints. -/
def endpointProblems (registry : Registry) (header : Header) : List Problem :=
  if registry.nodes.any GraphNode.isEndpoint then []
  else [.noEndpoints header.name.text header.name.start]

/-- Everything that is wrong with the resolved types of a schema. -/
def problems (registry : Registry) (header : Header) : List Problem :=
  registry.types.aliasCycleProblems ++ registry.structCycleProblems ++ registry.unionProblems ++
    registry.purityProblems ++ registry.endpointProblems header

end GraphSchema.Registry

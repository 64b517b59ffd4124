import GraphSchema.Fragment.Basic

/-!
# Building constructs

A builder collects the parts of one construct until it is finished.
-/

namespace GraphSchema

/-- A construct whose parts are still being collected. -/
structure FragmentBuilder where
  kind : ConstructKind
  place : Cursor
  parts : List Fragment
deriving Repr, Inhabited

namespace FragmentBuilder

/-- A construct of the given kind that starts at or after `place`. -/
def opened (kind : ConstructKind) (place : Cursor) : FragmentBuilder :=
  ⟨kind, place, []⟩

/-- Adds a part after the others. -/
def push (builder : FragmentBuilder) (part : Fragment) : FragmentBuilder :=
  { builder with parts := builder.parts ++ [part] }

/-- The construct of the collected parts, with its text taken from `source`. -/
def finish (builder : FragmentBuilder) (source : List Char) : Fragment :=
  .close builder.kind builder.place source builder.parts

end FragmentBuilder

end GraphSchema

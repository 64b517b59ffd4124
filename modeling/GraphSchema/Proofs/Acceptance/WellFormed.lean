import GraphSchema.Proofs.Document.Distinct
import GraphSchema.Proofs.Registry.Records
import Mathlib.Logic.Relation

/-!
# Well-formed documents

When a document is well-formed is said by the names that are written in it, without numbers of
types: which names are declared, to which name an alias refers (`Document.Aliases`), which struct
contains which other one (`Document.Contains`), and from which names no resolver and no `None` can
be reached (`Document.CarriesData`).
-/

namespace GraphSchema

open Relation

namespace Document

variable (declarations : List Declaration)

/-- A name is declared with braces, with a given body. -/
def DeclaresBody (name : String) (body : Body) : Prop :=
  ∃ keyword token opening closing,
    .block keyword token opening body closing ∈ declarations ∧ token.text = name

/-- A name is that of a struct. -/
def IsStruct (name : String) : Prop :=
  ∃ fields, DeclaresBody declarations name (.struct fields)

/-- A name is that of a resolver. -/
def IsResolver (name : String) : Prop :=
  ∃ properties, DeclaresBody declarations name (.resolver properties)

/-- A name is declared as an alias of another one. -/
inductive Aliases : String → String → Prop
  | mk {keyword name equals target : Token}
      (mem : .typeAlias keyword name equals target ∈ declarations) : Aliases name.text target.text

/-- A struct has a field whose type is another struct, once modifiers and aliases are taken away. -/
def Contains (name held : String) : Prop :=
  ∃ fields, DeclaresBody declarations name (.struct fields) ∧
    ∃ field ∈ fields, ReflTransGen (Aliases declarations) field.type.terminal.text held ∧
      IsStruct declarations held

/-- A name carries what another one carries: it is an alias of it, or a union with an option of
it. -/
def Carries (name carried : String) : Prop :=
  Aliases declarations name carried ∨
    ∃ options, DeclaresBody declarations name (.union options) ∧
      ∃ option ∈ options, option.terminal.text = carried

/-- Neither `None` nor a resolver can be reached from a name through aliases and unions. -/
def CarriesData (name : String) : Prop :=
  ∀ last, ReflTransGen (Carries declarations) name last →
    last ≠ Primitive.nothing.name ∧ ¬ IsResolver declarations last

end Document

/-- Nothing is wrong with a document. -/
structure Document.WellFormed (document : Document) : Prop where
  /-- The names of types are distinct and not those of primitive types, and so are those of
  endpoints. -/
  names : NamesDistinct document.declarations
  /-- The members of each declaration are distinct, and there are enough of them. -/
  members : ∀ declaration ∈ document.declarations,
    declaration.MembersDistinct ∧ declaration.Complete
  /-- Every reference names a primitive type or one that is declared somewhere. -/
  known : ∀ reference ∈ document.declarations.flatMap Declaration.references,
    (Primitive.ofName? reference.terminal).isSome ∨
      reference.terminal ∈ typeNames document.declarations
  /-- No alias leads back to itself. -/
  aliases : ∀ name, ¬ TransGen (Aliases document.declarations) name name
  /-- No struct contains itself. -/
  structs : ∀ name, ¬ TransGen (Contains document.declarations) name name
  /-- No option without modifiers is the union itself or `None`, not even by aliases. -/
  options : ∀ name options, DeclaresBody document.declarations name (.union options) →
    ∀ option ∈ options, option.designation.modifiers = [] →
      ∀ last, ReflTransGen (Aliases document.declarations) option.terminal.text last →
        last ≠ name ∧ last ≠ Primitive.nothing.name
  /-- Fields carry data only. -/
  fields : ∀ name fields, DeclaresBody document.declarations name (.struct fields) →
    ∀ field ∈ fields, CarriesData document.declarations field.type.terminal.text
  /-- Parameters carry data only. -/
  parameters : ∀ written ∈ document.declarations.flatMap Declaration.writtenNodes,
    ∀ parameter ∈ written.parameters,
      CarriesData document.declarations parameter.type.terminal.text
  /-- There is an endpoint. -/
  endpoints : endpointNames document.declarations ≠ []

end GraphSchema

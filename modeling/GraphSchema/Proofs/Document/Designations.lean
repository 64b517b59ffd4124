import GraphSchema.Proofs.Grammar.Consumed
import GraphSchema.Proofs.Registry.Records
import Mathlib.Data.List.Infix

/-!
# Designations that have been read

Every part of what has been read has its designations, and so has a declaration that is still open
(`Reading.typeReferences`).  The target of an alias is one without modifiers.  In what follows the
grammar each designation does so, and it is made of consecutive ones of the tokens that were taken
(`Reading.Grammatical.readFrom`).
-/

namespace GraphSchema

/-! ### The designations of a part -/

/-- The designations of a list of parameters. -/
def ParameterListing.typeReferences (listing : ParameterListing) : List TypeReference :=
  listing.entries.map fun entry => entry.1.type

/-- The designations of a property or an endpoint: those of its parameters, then its own. -/
def Signature.typeReferences (signature : Signature) : List TypeReference :=
  (signature.parameters.map ParameterListing.typeReferences).getD [] ++ [signature.type]

/-- The designations between the braces. -/
def Body.typeReferences : Body → List TypeReference
  | enum _ => []
  | union options => options
  | struct fields => fields.map TypedName.type
  | resolver properties => properties.flatMap Signature.typeReferences

/-- The designations of a declaration. -/
def Declaration.typeReferences : Declaration → List TypeReference
  | typeAlias _ _ _ target => [⟨[], target⟩]
  | block _ _ _ body _ => body.typeReferences
  | endpoint _ _ signature => signature.typeReferences

/-- The designations that are complete in a list of parameters. -/
def OpenParameters.typeReferences (listing : OpenParameters) : List TypeReference :=
  listing.entries.map (fun entry => entry.1.type) ++
    match listing.stage with
    | .separator parameter => [parameter.type]
    | _ => []

/-- The designations that are complete in a property or an endpoint. -/
def OpenSignature.typeReferences : OpenSignature → List TypeReference
  | named _ => []
  | parameters _ listing => listing.typeReferences
  | typed _ listing _ => (listing.map ParameterListing.typeReferences).getD []

/-- The designations that are complete between the braces. -/
def OpenBody.typeReferences : OpenBody → List TypeReference
  | enum _ => []
  | union options _ => options
  | struct fields _ => fields.map TypedName.type
  | resolver properties pending =>
    properties.flatMap Signature.typeReferences ++
      (pending.map OpenSignature.typeReferences).getD []

/-- The designations that are complete in a declaration. -/
def OpenDeclaration.typeReferences : OpenDeclaration → List TypeReference
  | blockBody _ _ _ body => body.typeReferences
  | endpoint _ _ signature => signature.typeReferences
  | _ => []

/-- The designations of all that has been read. -/
def Reading.typeReferences : Reading → List TypeReference
  | body _ declarations pending =>
    declarations.flatMap Declaration.typeReferences ++
      (pending.map OpenDeclaration.typeReferences).getD []
  | _ => []

theorem Signature.references_eq (place : NodePlace) (signature : Signature) :
    (signature.written place).references =
      signature.typeReferences.map TypeReference.designation := by
  rw [WrittenNode.references, written, typeReferences, List.map_append, parameterList]
  cases signature.parameters with
  | none => rfl
  | some listing => simp [ParameterListing.typeReferences, Function.comp_def]

/-- The designations that a declaration writes are those that are read. -/
theorem Declaration.references_eq (declaration : Declaration) :
    declaration.references = declaration.typeReferences.map TypeReference.designation := by
  cases declaration with
  | typeAlias keyword name equals target => rfl
  | block keyword name opening body closing =>
    cases body with
    | enum values => rfl
    | union options => rfl
    | struct fields =>
      show (fields.map (TypedName.written name)).flatMap WrittenNode.references =
        (fields.map TypedName.type).map TypeReference.designation
      rw [List.flatMap_map, List.map_map, List.map_eq_flatMap]
      rfl
    | resolver properties =>
      show (properties.map (Signature.written (.property name))).flatMap WrittenNode.references =
        (properties.flatMap Signature.typeReferences).map TypeReference.designation
      rw [List.flatMap_map, List.map_flatMap]
      exact congrArg (properties.flatMap ·) (funext (Signature.references_eq (.property name)))
  | endpoint kind keyword signature =>
    show [signature.written (.endpoint kind)].flatMap WrittenNode.references =
      signature.typeReferences.map TypeReference.designation
    rw [List.flatMap_singleton, Signature.references_eq]

/-! ### What they are made of -/

/-- A designation follows the grammar and is made of consecutive tokens of a row. -/
structure TypeReference.ReadFrom (row : List Token) (type : TypeReference) : Prop where
  grammatical : type.Grammatical
  consecutive : type.tokens <:+: row

namespace TypeReference.ReadFrom

variable {row others : List Token} {type : TypeReference}

theorem mono (h : type.ReadFrom row) (part : row <:+: others) : type.ReadFrom others :=
  ⟨h.grammatical, h.consecutive.trans part⟩

theorem cons (h : type.ReadFrom row) (token : Token) : type.ReadFrom (token :: row) :=
  ⟨h.grammatical, List.infix_cons h.consecutive⟩

theorem append_right (h : type.ReadFrom row) (others : List Token) :
    type.ReadFrom (row ++ others) :=
  h.mono (List.prefix_append row others).isInfix

theorem append_left (h : type.ReadFrom row) (others : List Token) :
    type.ReadFrom (others ++ row) :=
  h.mono (List.suffix_append others row).isInfix

/-- A designation of one of several members. -/
theorem of_member {α : Type} {members : List α} {tokens : α → List Token} {member : α}
    (h : type.ReadFrom (tokens member)) (mem : member ∈ members) :
    type.ReadFrom (members.flatMap tokens) := by
  rw [List.flatMap_def]
  exact h.mono (List.infix_of_mem_flatten (List.mem_map_of_mem mem))

end TypeReference.ReadFrom

/-! ### Finished parts -/

theorem TypeReference.Grammatical.readFrom {type : TypeReference} (h : type.Grammatical) :
    type.ReadFrom type.tokens :=
  ⟨h, List.infix_rfl⟩

theorem TypedName.Grammatical.readFrom {entry : TypedName} (h : entry.Grammatical) :
    entry.type.ReadFrom entry.tokens :=
  h.type.readFrom.cons entry.name

/-- The designations of parameters that are kept with the tokens behind them. -/
theorem TypedName.readFrom_entries {entries : List (TypedName × Token)}
    (h : ∀ entry ∈ entries, entry.1.Grammatical) :
    ∀ type ∈ entries.map fun entry => entry.1.type,
      type.ReadFrom (entries.flatMap fun entry => entry.1.tokens ++ [entry.2]) := by
  intro type htype
  obtain ⟨entry, hentry, rfl⟩ := List.mem_map.mp htype
  refine .of_member ?_ hentry
  exact (h entry hentry).readFrom.append_right [entry.2]

theorem ParameterListing.Grammatical.readFrom {listing : ParameterListing}
    (h : listing.Grammatical) : ∀ type ∈ listing.typeReferences, type.ReadFrom listing.tokens :=
  fun type htype => (TypedName.readFrom_entries h.entries type htype).cons listing.opening

/-- The designations of parameters, if there are any. -/
theorem ParameterListing.readFrom_option {listing : Option ParameterListing}
    (h : ∀ entry ∈ listing, entry.Grammatical) :
    ∀ type ∈ (listing.map typeReferences).getD [],
      type.ReadFrom ((listing.map tokens).getD []) := by
  cases listing with
  | none => exact List.forall_mem_nil _
  | some listing => exact (h listing rfl).readFrom

theorem Signature.Grammatical.readFrom {signature : Signature} (h : signature.Grammatical) :
    ∀ type ∈ signature.typeReferences, type.ReadFrom signature.tokens := by
  intro type htype
  refine TypeReference.ReadFrom.cons ?_ signature.name
  rcases List.mem_append.mp htype with hparameter | hown
  · exact (ParameterListing.readFrom_option h.parameters type hparameter).append_right _
  · obtain rfl := List.mem_singleton.mp hown
    exact h.type.readFrom.append_left _

theorem Body.Grammatical.readFrom {body : Body} (h : body.Grammatical) :
    ∀ type ∈ body.typeReferences, type.ReadFrom body.tokens := by
  intro type htype
  cases body with
  | enum values => cases htype
  | union options => exact .of_member (h type htype).readFrom htype
  | struct fields =>
    obtain ⟨field, hfield, rfl⟩ := List.mem_map.mp htype
    exact .of_member (h field hfield).readFrom hfield
  | resolver properties =>
    obtain ⟨property, hproperty, hmem⟩ := List.mem_flatMap.mp htype
    exact .of_member ((h property hproperty).readFrom type hmem) hproperty

theorem Declaration.Grammatical.readFrom {declaration : Declaration} (h : declaration.Grammatical) :
    ∀ type ∈ declaration.typeReferences, type.ReadFrom declaration.tokens := by
  intro type htype
  cases declaration with
  | typeAlias keyword name equals target =>
    obtain rfl := List.mem_singleton.mp htype
    exact ⟨⟨modifierRow_nil, h.2.2.2⟩, (List.suffix_append [keyword, name, equals] _).isInfix⟩
  | block keyword name opening body closing =>
    have hbody : body.Grammatical := h.2.2.2.1
    have hown := (hbody.readFrom type htype).append_right [closing]
    exact ((hown.cons opening).cons name).cons keyword
  | endpoint kind keyword signature => exact (h.2.readFrom type htype).cons keyword

/-! ### Open parts -/

theorem OpenParameters.Grammatical.readFrom {listing : OpenParameters} (h : listing.Grammatical) :
    ∀ type ∈ listing.typeReferences, type.ReadFrom listing.tokens := by
  obtain ⟨opening, entries, stage⟩ := listing
  intro type htype
  refine TypeReference.ReadFrom.cons ?_ opening
  rcases List.mem_append.mp htype with hbefore | hlast
  · exact (TypedName.readFrom_entries h.entries type hbefore).append_right _
  · cases stage with
    | name => cases hlast
    | type name modifiers => cases hlast
    | separator parameter =>
      have hparameter : parameter.Grammatical := h.stage
      obtain rfl := List.mem_singleton.mp hlast
      exact hparameter.readFrom.append_left _

theorem OpenSignature.Grammatical.readFrom {signature : OpenSignature} (h : signature.Grammatical) :
    ∀ type ∈ signature.typeReferences, type.ReadFrom signature.tokens := by
  intro type htype
  cases signature with
  | named name => cases htype
  | parameters name listing => exact (h.2.readFrom type htype).cons name
  | typed name listing modifiers =>
    have hparameter := ParameterListing.readFrom_option h.2.1 type htype
    exact (hparameter.append_right modifiers).cons name

theorem OpenBody.Grammatical.readFrom {body : OpenBody} (h : body.Grammatical) :
    ∀ type ∈ body.typeReferences, type.ReadFrom body.tokens := by
  intro type htype
  cases body with
  | enum values => cases htype
  | union options modifiers =>
    have hoptions : (Body.union options).Grammatical := h.1
    exact (hoptions.readFrom type htype).append_right _
  | struct fields pending =>
    have hfields : (Body.struct fields).Grammatical := h.1
    exact (hfields.readFrom type htype).append_right _
  | resolver properties pending =>
    rcases List.mem_append.mp htype with hbefore | hlast
    · have hproperties : (Body.resolver properties).Grammatical := h.1
      exact (hproperties.readFrom type hbefore).append_right _
    · cases pending with
      | none => cases hlast
      | some signature => exact ((h.2 signature rfl).readFrom type hlast).append_left _

theorem OpenDeclaration.Grammatical.readFrom {declaration : OpenDeclaration}
    (h : declaration.Grammatical) :
    ∀ type ∈ declaration.typeReferences, type.ReadFrom declaration.tokens := by
  intro type htype
  cases declaration with
  | blockBody keyword name opening body =>
    have hbody : body.Grammatical := h.2.2.2
    exact (((hbody.readFrom type htype).cons opening).cons name).cons keyword
  | endpoint kind keyword signature => exact (h.2.readFrom type htype).cons keyword
  | aliasName | aliasEquals | aliasTarget | blockName | blockBrace | endpointName => cases htype

/-- The designations of what has been read follow the grammar and are made of consecutive ones of
the tokens that were taken. -/
theorem Reading.Grammatical.readFrom {reading : Reading} (h : reading.Grammatical) :
    ∀ type ∈ reading.typeReferences, type.ReadFrom reading.tokens := by
  intro type htype
  cases reading with
  | start => cases htype
  | headed keyword => cases htype
  | body header declarations pending =>
    rcases List.mem_append.mp htype with hfinished | hopen
    · obtain ⟨declaration, hdeclaration, hmem⟩ := List.mem_flatMap.mp hfinished
      have hown := (h.2.1 declaration hdeclaration).readFrom type hmem
      exact ((hown.of_member hdeclaration).append_left _).append_right _
    · cases pending with
      | none => cases hopen
      | some opened => exact ((h.2.2 opened rfl).readFrom type hopen).append_left _

end GraphSchema

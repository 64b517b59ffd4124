import GraphSchema.Proofs.Document.Kept
import GraphSchema.Proofs.Registry.Records
import Mathlib.Data.List.Flatten

/-!
# The order of what is kept

What is kept of a document stands in the source text in the order in which it is kept: its tokens
are some of the tokens of the document, in the same order (`Document.tokens_kept`).  So do the
names of its types, graph nodes and parameters, and its designations (`Document.standsIn_kept`,
`Document.inOrder_kept`).
-/

namespace GraphSchema

/-- A parameter that is written, with the graph node that has it. -/
def Document.parameters (declarations : List Declaration) : List (WrittenNode × TypedName) :=
  (declarations.flatMap Declaration.writtenNodes).flatMap fun written =>
    written.parameters.map fun parameter => (written, parameter)

/-- Places of a source text that stand one behind the other. -/
def Ascending (places : List Cursor) : Prop :=
  places.Pairwise fun place following => place.index < following.index

theorem Ascending.nodup {places : List Cursor} (h : Ascending places) : places.Nodup := by
  refine h.imp ?_
  rintro place following hlt rfl
  exact Nat.lt_irrefl _ hlt

/-- Types, graph nodes and parameters are named in the order in which they stand in the source text,
and the designations stand in their order, too. -/
structure Document.InOrder (declarations : List Declaration) : Prop where
  types : Ascending ((declarations.filterMap Declaration.typeName?).map Token.start)
  nodes : Ascending ((declarations.flatMap Declaration.writtenNodes).map fun written =>
    written.name.start)
  parameters : Ascending ((Document.parameters declarations).map fun entry => entry.2.name.start)
  references : Ascending ((declarations.flatMap Declaration.references).map
    Designation.terminalPosition)

/-! ### Tokens that are kept -/

theorem ParameterListing.tokens_kept (listing : ParameterListing) :
    listing.kept.tokens.Sublist listing.tokens :=
  ((firsts_sublist (fun entry : TypedName × Token => entry.1.name.text) listing.entries).flatMap
    _).cons_cons _

theorem Signature.tokens_kept (signature : Signature) :
    signature.kept.tokens.Sublist signature.tokens := by
  unfold tokens kept
  refine List.Sublist.cons_cons _ (List.Sublist.append_right ?_ _)
  cases signature.parameters with
  | none => exact List.Sublist.refl _
  | some listing => exact listing.tokens_kept

theorem Body.tokens_kept (body : Body) : body.kept.tokens.Sublist body.tokens := by
  cases body with
  | enum values => exact firsts_sublist Token.text values
  | union options =>
    exact (firsts_sublist (fun option => option.designation.canonical) options).flatMap _
  | struct fields => exact (firsts_sublist (fun field => field.name.text) fields).flatMap _
  | resolver properties =>
    have hfirsts := firsts_sublist (fun property => property.name.text) properties
    refine List.Sublist.trans ?_ (hfirsts.flatMap Signature.tokens)
    rw [kept, tokens, List.flatMap_map]
    exact List.Sublist.flatMap_right _ fun property _ => property.tokens_kept

theorem Declaration.tokens_kept (declaration : Declaration) :
    declaration.kept.tokens.Sublist declaration.tokens := by
  cases declaration with
  | typeAlias keyword name equals target => exact List.Sublist.refl _
  | block keyword name opening body closing =>
    exact (((body.tokens_kept.append_right _).cons_cons _).cons_cons _).cons_cons _
  | endpoint kind keyword signature => exact signature.tokens_kept.cons_cons _

/-- The tokens that are kept are some of the tokens, in the same order. -/
theorem Document.tokens_kept (declarations : List Declaration) :
    ((kept declarations).flatMap Declaration.tokens).Sublist
      (declarations.flatMap Declaration.tokens) := by
  have hafter (before others : List Declaration) :
      ((keptAfter before others).flatMap Declaration.tokens).Sublist
        (others.flatMap Declaration.tokens) := by
    induction others generalizing before with
    | nil => exact List.Sublist.refl _
    | cons first rest ih =>
      rw [keptAfter]
      split
      · rw [List.flatMap_cons, List.flatMap_cons]
        exact first.tokens_kept.append (ih _)
      · rw [List.flatMap_cons]
        exact (ih _).trans (List.sublist_append_right _ _)
  exact hafter [] declarations

/-! ### Places of names and designations -/

/-- The places of a row of tokens. -/
def starts (row : List Token) : List Cursor :=
  row.map Token.start

/-- Places of some of the tokens of each part of a row. -/
theorem flatMap_sublist_starts {α : Type} {places : α → List Cursor}
    {tokens : α → List Token} (h : ∀ entry, (places entry).Sublist (starts (tokens entry)))
    (entries : List α) :
    (entries.flatMap places).Sublist (starts (entries.flatMap tokens)) := by
  rw [starts, List.map_flatMap]
  exact List.Sublist.flatMap_right _ fun entry _ => h entry

theorem map_sublist_starts {α : Type} {place : α → Cursor} {tokens : α → List Token}
    (h : ∀ entry, [place entry].Sublist (starts (tokens entry))) (entries : List α) :
    (entries.map place).Sublist (starts (entries.flatMap tokens)) := by
  rw [List.map_eq_flatMap]
  exact flatMap_sublist_starts h entries

theorem start_sublist {row : List Token} {token : Token} (h : token ∈ row) :
    [token.start].Sublist (starts row) :=
  List.singleton_sublist.mpr (List.mem_map_of_mem h)

theorem TypeReference.terminal_sublist (type : TypeReference) :
    [type.designation.terminalPosition].Sublist (starts type.tokens) :=
  start_sublist (List.mem_append_right _ (List.mem_singleton.mpr rfl))

theorem TypedName.terminal_sublist (entry : TypedName) :
    [entry.type.designation.terminalPosition].Sublist (starts entry.tokens) :=
  entry.type.terminal_sublist.cons _

namespace Signature

variable (signature : Signature)

/-- One place for each parameter. -/
theorem map_parameterList_sublist {place : TypedName → Cursor}
    (h : ∀ entry : TypedName, [place entry].Sublist (starts entry.tokens)) :
    (signature.parameterList.map place).Sublist
      (starts ((signature.parameters.map ParameterListing.tokens).getD [])) := by
  unfold parameterList
  cases signature.parameters with
  | none => exact List.Sublist.refl _
  | some listing =>
    have hentry (entry : TypedName × Token) :
        [place entry.1].Sublist (starts (entry.1.tokens ++ [entry.2])) := by
      rw [starts, List.map_append]
      exact (h entry.1).trans (List.sublist_append_left _ _)
    have hentries := map_sublist_starts hentry listing.entries
    dsimp only [Option.map_some, Option.getD_some]
    rw [List.map_map]
    exact hentries.cons _

/-- The name and the names of the parameters. -/
theorem names_sublist :
    (signature.name.start :: signature.parameterList.map fun entry => entry.name.start).Sublist
      (starts signature.tokens) := by
  refine List.Sublist.cons_cons _ ?_
  rw [List.map_append]
  exact (signature.map_parameterList_sublist fun entry =>
    start_sublist (List.mem_cons_self ..)).trans (List.sublist_append_left _ _)

theorem references_sublist (place : NodePlace) :
    ((signature.written place).references.map Designation.terminalPosition).Sublist
      (starts signature.tokens) := by
  refine List.Sublist.cons _ ?_
  rw [WrittenNode.references, List.map_append, List.map_append, List.map_map]
  exact (signature.map_parameterList_sublist TypedName.terminal_sublist).append
    signature.type.terminal_sublist

end Signature

namespace Declaration

variable (declaration : Declaration)

theorem typeName_sublist :
    (declaration.typeName?.toList.map Token.start).Sublist (starts declaration.tokens) := by
  cases declaration with
  | typeAlias keyword name equals target => exact start_sublist (by simp [tokens])
  | block keyword name opening body closing => exact start_sublist (by simp [tokens])
  | endpoint kind keyword signature => exact List.nil_sublist _

theorem body_sublist (keyword name opening closing : Token) (body : Body) :
    (starts body.tokens).Sublist
      (starts (Declaration.block keyword name opening body closing).tokens) :=
  ((((List.sublist_append_left _ _).cons _).cons _).cons _).map _

/-- Places of the graph nodes of a declaration. -/
theorem writtenNodes_sublist (places : WrittenNode → List Cursor)
    (field : ∀ owner (field : TypedName),
      (places (field.written owner)).Sublist (starts field.tokens))
    (signature : ∀ place (signature : Signature),
      (places (signature.written place)).Sublist (starts signature.tokens)) :
    (declaration.writtenNodes.flatMap places).Sublist (starts declaration.tokens) := by
  cases declaration with
  | typeAlias keyword name equals target => exact List.nil_sublist _
  | block keyword name opening body closing =>
    refine List.Sublist.trans ?_ (body_sublist keyword name opening closing body)
    cases body with
    | enum values => exact List.nil_sublist _
    | union options => exact List.nil_sublist _
    | struct fields =>
      rw [writtenNodes, Body.writtenNodes, List.flatMap_map]
      exact flatMap_sublist_starts (field name) fields
    | resolver properties =>
      rw [writtenNodes, Body.writtenNodes, List.flatMap_map]
      exact flatMap_sublist_starts (signature (.property name)) properties
  | endpoint kind keyword found =>
    refine List.Sublist.cons _ ?_
    rw [writtenNodes, List.flatMap_cons, List.flatMap_nil, List.append_nil]
    exact signature (.endpoint kind) found

theorem references_sublist :
    (declaration.references.map Designation.terminalPosition).Sublist
      (starts declaration.tokens) := by
  have hnodes : ((declaration.writtenNodes.flatMap WrittenNode.references).map
      Designation.terminalPosition).Sublist (starts declaration.tokens) := by
    rw [List.map_flatMap]
    exact declaration.writtenNodes_sublist _ (fun owner field => field.terminal_sublist)
      (fun place signature => signature.references_sublist place)
  cases declaration with
  | typeAlias keyword name equals target => exact start_sublist (by simp [tokens])
  | endpoint kind keyword signature => exact hnodes
  | block keyword name opening body closing =>
    cases body with
    | union options =>
      rw [references, List.map_map]
      exact (map_sublist_starts TypeReference.terminal_sublist options).trans
        (body_sublist keyword name opening closing (.union options))
    | enum values => exact hnodes
    | struct fields => exact hnodes
    | resolver properties => exact hnodes

end Declaration

namespace Document

/-- Places of what is kept are places of tokens in the order of the tokens if they are so in each
declaration. -/
theorem kept_sublist_starts {places : Declaration → List Cursor}
    (h : ∀ declaration, (places declaration).Sublist (starts declaration.tokens))
    (declarations : List Declaration) :
    ((kept declarations).flatMap places).Sublist
      (starts (declarations.flatMap Declaration.tokens)) :=
  (flatMap_sublist_starts h (kept declarations)).trans ((tokens_kept declarations).map _)

/-- The names that are introduced, and the designations, stand at some of the given places, in the
order of the places. -/
structure StandsIn (declarations : List Declaration) (places : List Cursor) : Prop where
  types : ((declarations.filterMap Declaration.typeName?).map Token.start).Sublist places
  nodes : ((declarations.flatMap Declaration.writtenNodes).map fun written =>
    written.name.start).Sublist places
  parameters : ((parameters declarations).map fun entry => entry.2.name.start).Sublist places
  references : ((declarations.flatMap Declaration.references).map
    Designation.terminalPosition).Sublist places

/-- What is kept stands at tokens of the source text, in their order. -/
theorem standsIn_kept (declarations : List Declaration) :
    StandsIn (kept declarations) (starts (declarations.flatMap Declaration.tokens)) := by
  refine ⟨?_, ?_, ?_, ?_⟩
  · rw [List.filterMap_eq_flatMap_toList, List.map_flatMap]
    exact kept_sublist_starts Declaration.typeName_sublist declarations
  · have hnames := kept_sublist_starts (fun declaration =>
      declaration.writtenNodes_sublist (fun written => [written.name.start])
        (fun owner field => start_sublist (List.mem_cons_self ..))
        (fun place signature => start_sublist (List.mem_cons_self ..))) declarations
    rw [← List.flatMap_assoc, ← List.map_eq_flatMap] at hnames
    exact hnames
  · have hparameters := kept_sublist_starts (fun declaration =>
      declaration.writtenNodes_sublist
        (fun written => written.parameters.map fun entry => entry.name.start)
        (fun owner field => List.nil_sublist _)
        (fun place signature => (List.sublist_cons_self _ _).trans signature.names_sublist))
      declarations
    rw [← List.flatMap_assoc] at hparameters
    rw [parameters, List.map_flatMap]
    simpa only [List.map_map, Function.comp_def] using hparameters
  · rw [List.map_flatMap]
    exact kept_sublist_starts Declaration.references_sublist declarations

/-- What is kept is in the order of the source text. -/
theorem inOrder_kept {declarations : List Declaration}
    (ordered : Ascending (starts (declarations.flatMap Declaration.tokens))) :
    InOrder (kept declarations) := by
  obtain ⟨htypes, hnodes, hparameters, hreferences⟩ := standsIn_kept declarations
  exact ⟨ordered.sublist htypes, ordered.sublist hnodes, ordered.sublist hparameters,
    ordered.sublist hreferences⟩

end Document

end GraphSchema

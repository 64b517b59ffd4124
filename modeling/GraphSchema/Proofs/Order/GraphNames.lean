import GraphSchema.Proofs.Document.Accepted
import GraphSchema.Proofs.Token.Lexemes

/-!
# Graph names

The graph name of a member is the name of its type and its own name, separated by a dot, and that of
an endpoint is its name.  No word contains a dot, so the graph nodes of a document whose names are
distinct have distinct graph names (`Document.graphNames_nodup`).
-/

namespace GraphSchema

/-! ### Dots -/

/-- There is no dot in a text. -/
def Undotted (text : String) : Prop :=
  '.' ∉ text.toList

theorem IsAlphanumeric.ne_dot {c : Char} (h : IsAlphanumeric c) : c ≠ '.' := by
  rintro rfl
  revert h
  unfold IsAlphanumeric IsUpperLetter IsLowerLetter
  decide

theorem TokenKind.isWord_of_isLowerName {kind : TokenKind} (h : kind.isLowerName = true) :
    kind.isWord = true := by
  cases kind with
  | keyword | lowerName => rfl
  | _ => cases h

/-- A word that may be a name has no dot. -/
theorem WordKind.undotted {word : String} {kind : TokenKind} (h : WordKind word kind)
    (name : kind = .typeName ∨ kind.isLowerName = true) : Undotted word := by
  have hletters {first : Char} {rest : List Char} (hfirst : IsAlphanumeric first)
      (hrest : ∀ c ∈ rest, IsAlphanumeric c) : '.' ∉ first :: rest := by
    intro hdot
    rcases List.mem_cons.mp hdot with rfl | hdot
    · exact hfirst.ne_dot rfl
    · exact (hrest _ hdot).ne_dot rfl
  unfold Undotted
  cases hkind : kind with
  | keyword keyword =>
    rw [(h.keyword keyword).mp hkind]
    cases keyword <;> decide
  | typeName =>
    obtain ⟨-, hshape⟩ := h.typeName.mp hkind
    cases hword : word.toList with
    | nil => exact List.not_mem_nil
    | cons first rest =>
      rw [hword] at hshape
      exact hletters (.inl hshape.1) hshape.2
  | lowerName =>
    obtain ⟨-, hshape⟩ := h.lowerName.mp hkind
    cases hword : word.toList with
    | nil => exact List.not_mem_nil
    | cons first rest =>
      rw [hword] at hshape
      exact hletters (.inr (.inl hshape.1)) hshape.2
  | _ =>
    rw [hkind] at name
    rcases name with hname | hname <;> cases hname

/-- What stands before the first dot is known from the whole. -/
theorem Undotted.eq_of_append {owner other name otherName : String} (h : Undotted owner)
    (hother : Undotted other) (same : owner ++ "." ++ name = other ++ "." ++ otherName) :
    owner = other := by
  have hbefore {text rest : String} (undotted : Undotted text) :
      (text ++ "." ++ rest).toList.takeWhile (· != '.') = text.toList := by
    have hall : ∀ c ∈ text.toList, (c != '.') = true := by
      intro c hc
      rw [bne_iff_ne]
      rintro rfl
      exact undotted hc
    have hdot : ".".toList = ['.'] := rfl
    rw [String.toList_append, String.toList_append, hdot, List.append_assoc,
      List.takeWhile_append_of_pos hall]
    simp
  rw [← String.toList_inj, ← hbefore h, same, hbefore hother]

/-! ### Names that declarations introduce -/

namespace Declaration

/-- The name that a declaration introduces has no dot. -/
structure UndottedName (declaration : Declaration) : Prop where
  type : ∀ name ∈ declaration.typeName?, Undotted name.text
  endpoint : ∀ name ∈ declaration.endpointName?, Undotted name.text

/-- Two declarations introduce different names. -/
structure Apart (declaration other : Declaration) : Prop where
  types : ∀ name ∈ declaration.typeName?, ∀ otherName ∈ other.typeName?,
    name.text ≠ otherName.text
  endpoints : ∀ name ∈ declaration.endpointName?, ∀ otherName ∈ other.endpointName?,
    name.text ≠ otherName.text

/-- The graph name of a member begins with the name of its type, and that of an endpoint is its
name. -/
theorem graphName_cases {declaration : Declaration} {written : WrittenNode}
    (h : written ∈ declaration.writtenNodes) :
    (∃ name ∈ declaration.typeName?,
      written.graphName = name.text ++ "." ++ written.name.text) ∨
    ∃ name ∈ declaration.endpointName?, written.graphName = name.text := by
  cases declaration with
  | typeAlias keyword name equals target => cases h
  | block keyword name opening body closing =>
    refine .inl ⟨name, rfl, ?_⟩
    cases body with
    | enum values => cases h
    | union options => cases h
    | struct fields =>
      obtain ⟨field, -, rfl⟩ := List.mem_map.mp h
      rfl
    | resolver properties =>
      obtain ⟨property, -, rfl⟩ := List.mem_map.mp h
      rfl
  | endpoint kind keyword signature =>
    obtain rfl := List.mem_singleton.mp h
    exact .inr ⟨signature.name, rfl, String.empty_append⟩

/-- The graph nodes of one declaration have distinct graph names. -/
theorem MembersDistinct.graphNames_nodup {declaration : Declaration}
    (distinct : declaration.MembersDistinct) :
    (declaration.writtenNodes.map WrittenNode.graphName).Nodup := by
  have hmembers (owner : Token) {names : List String} (hnames : names.Nodup) :
      (names.map fun name => owner.text ++ "." ++ name).Nodup :=
    hnames.map fun name other same => by simpa using same
  cases declaration with
  | typeAlias keyword name equals target => exact List.nodup_nil
  | endpoint kind keyword signature => exact List.nodup_singleton _
  | block keyword name opening body closing =>
    cases body with
    | enum values => exact List.nodup_nil
    | union options => exact List.nodup_nil
    | struct fields =>
      have hfields := hmembers name distinct
      rw [List.map_map] at hfields
      rw [writtenNodes, Body.writtenNodes, List.map_map]
      exact hfields
    | resolver properties =>
      have hproperties := hmembers name distinct.1
      rw [List.map_map] at hproperties
      rw [writtenNodes, Body.writtenNodes, List.map_map]
      exact hproperties

/-- The graph nodes of declarations with different names have different graph names. -/
theorem Apart.graphNames_disjoint {declaration other : Declaration} (h : declaration.Apart other)
    (undotted : declaration.UndottedName) (undottedOther : other.UndottedName) :
    List.Disjoint (declaration.writtenNodes.map WrittenNode.graphName)
      (other.writtenNodes.map WrittenNode.graphName) := by
  -- a member and an endpoint are told apart by the dot
  have hdotted {owner name endpoint : String} (hendpoint : Undotted endpoint) :
      owner ++ "." ++ name ≠ endpoint := by
    rintro rfl
    apply hendpoint
    simp
  intro graphName hgraphName hsame
  obtain ⟨written, hwritten, rfl⟩ := List.mem_map.mp hgraphName
  obtain ⟨otherWritten, hotherWritten, hsame⟩ := List.mem_map.mp hsame
  rcases graphName_cases hwritten with ⟨name, hname, hgraphName⟩ | ⟨name, hname, hgraphName⟩ <;>
    rcases graphName_cases hotherWritten with
      ⟨otherName, hother, hotherGraph⟩ | ⟨otherName, hother, hotherGraph⟩ <;>
    rw [hgraphName, hotherGraph] at hsame
  · have howners := Undotted.eq_of_append (undottedOther.type otherName hother)
      (undotted.type name hname) hsame
    exact h.types name hname otherName hother howners.symm
  · exact hdotted (undottedOther.endpoint otherName hother) hsame.symm
  · exact hdotted (undotted.endpoint name hname) hsame
  · exact h.endpoints name hname otherName hother hsame.symm

end Declaration

/-! ### Distinct graph names -/

namespace Document

variable {declarations : List Declaration}

theorem NamesDistinct.pairwise (names : NamesDistinct declarations) :
    declarations.Pairwise Declaration.Apart := by
  obtain ⟨htypes, -, hendpoints⟩ := names
  rw [typeNames, List.Nodup, List.pairwise_map, List.pairwise_filterMap] at htypes
  rw [endpointNames, List.Nodup, List.pairwise_map, List.pairwise_filterMap] at hendpoints
  refine (htypes.and hendpoints).imp ?_
  rintro declaration other ⟨htypesDiffer, hendpointsDiffer⟩
  exact ⟨htypesDiffer, hendpointsDiffer⟩

/-- The graph nodes of a document with distinct names have distinct graph names. -/
theorem graphNames_nodup (undotted : ∀ declaration ∈ declarations, declaration.UndottedName)
    (names : NamesDistinct declarations)
    (members : ∀ declaration ∈ declarations, declaration.MembersDistinct) :
    ((declarations.flatMap Declaration.writtenNodes).map WrittenNode.graphName).Nodup := by
  rw [List.map_flatMap, List.nodup_flatMap]
  refine ⟨fun declaration hmem => (members declaration hmem).graphNames_nodup, ?_⟩
  refine names.pairwise.imp_of_mem ?_
  intro declaration other hmem hother hapart
  exact hapart.graphNames_disjoint (undotted declaration hmem) (undotted other hother)

end Document

/-- No name of a document of a source text has a dot. -/
theorem TokenStream.Spells.undottedName {file : Path} {source : String} {document : Document}
    (h : (Schema.stream file source).Spells document) {declaration : Declaration}
    (hmem : declaration ∈ document.declarations) : declaration.UndottedName := by
  have hword {name : Token} (hname : name ∈ declaration.tokens)
      (hkind : name.kind = .typeName ∨ name.kind.isLowerName = true) : Undotted name.text := by
    have htoken : name ∈ (Schema.stream file source).tokens := by
      rw [← h.tokens]
      exact List.mem_append_right _ (List.mem_flatMap.mpr ⟨declaration, hmem, hname⟩)
    have hisWord : name.kind.isWord = true := by
      rcases hkind with htype | hlower
      · rw [htype]
        rfl
      · exact TokenKind.isWord_of_isLowerName hlower
    refine (wordKind_ofWord name.text).undotted ?_
    rwa [← TokenStream.kind_of_isWord htoken hisWord]
  have hgrammatical := h.grammatical.declarations declaration hmem
  refine ⟨?_, ?_⟩
  · intro name hname
    obtain ⟨hkind, htoken⟩ := hgrammatical.typeName hname
    exact hword htoken (.inl hkind)
  · intro name hname
    obtain ⟨hkind, htoken⟩ := hgrammatical.endpointName hname
    exact hword htoken (.inr hkind)

end GraphSchema

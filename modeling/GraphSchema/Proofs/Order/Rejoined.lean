import GraphSchema.Proofs.Document.Accepted
import GraphSchema.Proofs.Token.Passages
import Mathlib.Tactic.Choose

/-!
# Rejoined declarations

The text of a declaration in the tree of a source text is a passage of its tokens.  So when texts of
declarations are put one behind the other, each on lines of its own, the tokens of the new source
text are those of the declarations, with the same kinds and texts (`Schema.stream_rejoined`).
-/

namespace GraphSchema

/-! ### The texts of trees -/

theorem TypeReference.stop_fragment (source : List Char) (type : TypeReference) :
    (type.fragment source).stop = type.terminal.stop := by
  have hlast : (type.tokens.map Fragment.token).getLast? = some (.token type.terminal) := by
    rw [tokens, List.map_append]
    exact List.getLast?_concat
  simp only [fragment, Fragment.close, Fragment.stop, hlast]
  rfl

/-- The text of a declaration reaches from its first token to its last one. -/
theorem Declaration.text_fragment (source : List Char) {declaration : Declaration}
    {first last : Token} (hfirst : declaration.tokens.head? = some first)
    (hlast : declaration.tokens.getLast? = some last) :
    (declaration.fragment source).text =
      String.ofList ((Text.slice source first.start.index last.stop.index).getD []) := by
  have htext {kind : ConstructKind} (front : List Fragment) {part : Fragment}
      (hstop : part.stop = last.stop) :
      (Fragment.close kind first.start source (.token first :: (front ++ [part]))).text =
        String.ofList ((Text.slice source first.start.index last.stop.index).getD []) := by
    have hend : (.token first :: (front ++ [part])).getLast? = some part := by
      rw [← List.cons_append]
      exact List.getLast?_concat
    simp only [Fragment.close, Fragment.text, hend, Option.map_some, Option.getD_some, hstop]
    rfl
  cases declaration with
  | typeAlias keyword name equals target =>
    obtain rfl := Option.some.inj hfirst
    obtain rfl := Option.some.inj hlast
    rfl
  | block keyword name opening body closing =>
    have hclosing : (tokens (.block keyword name opening body closing)).getLast? = some closing :=
      List.getLast?_concat (l := keyword :: name :: opening :: body.tokens)
    obtain rfl := Option.some.inj hfirst
    obtain rfl := Option.some.inj (hclosing.symm.trans hlast)
    exact htext (.token name :: .token opening :: body.fragments source) rfl
  | endpoint kind keyword signature =>
    have hterminal : (tokens (.endpoint kind keyword signature)).getLast? =
        some signature.type.terminal := by
      rw [tokens, Signature.tokens, TypeReference.tokens, ← List.append_assoc]
      exact List.getLast?_concat (l := keyword :: signature.name :: _)
    obtain rfl := Option.some.inj hfirst
    obtain rfl := Option.some.inj (hterminal.symm.trans hlast)
    exact htext (.token signature.name ::
      (signature.parameters.map (ParameterListing.fragment source)).toList)
      (TypeReference.stop_fragment source signature.type)

/-- The texts of trees, each of them on lines of its own. -/
def rejoined (parts : List Fragment) : String :=
  "\n".intercalate (parts.map Fragment.text)

/-- The text of a document: the texts of its parts in a source text, each on lines of its own. -/
def Document.textIn (source : String) (document : Document) : String :=
  rejoined (document.header.fragment source.toList ::
    document.declarations.map (Declaration.fragment source.toList))

/-- A text consists of a row of tokens and white space between them. -/
def IsTextOf (text : String) (row : List Token) : Prop :=
  ∃ passage, IsPassage passage ∧ meaningful passage = row.map Token.spelling ∧
    text.toList = rowText passage

namespace Schema

/-- Texts on lines of their own have the tokens of the texts. -/
theorem stream_of_texts (file : Path) {parts : List (String × List Token)} (nonempty : parts ≠ [])
    (texts : ∀ part ∈ parts, IsTextOf part.1 part.2) :
    (stream file ("\n".intercalate (parts.map Prod.fst))).Lexes ∧
      (stream file ("\n".intercalate (parts.map Prod.fst))).tokens.map Token.spelling =
        (parts.flatMap Prod.snd).map Token.spelling := by
  choose! passage hpassage hmeaningful htext using texts
  have hrow : IsPassage ([lineBreak].intercalate (parts.map passage)) := by
    refine isPassage_intercalate ?_ ?_
    · rwa [Ne, List.map_eq_nil_iff]
    · intro row hrow
      obtain ⟨part, hpart, rfl⟩ := List.mem_map.mp hrow
      exact hpassage part hpart
  have htexts : ("\n".intercalate (parts.map Prod.fst)).toList =
      rowText ([lineBreak].intercalate (parts.map passage)) := by
    rw [String.toList_intercalate, rowText_intercalate, List.map_map, List.map_map]
    congr 1
    exact List.map_congr_left htext
  obtain ⟨tokens, hcut, hspelling⟩ := exists_cut (.startOf file) hrow.lexemes hrow.contiguous
  rw [← htexts] at hcut
  have hstream : stream file ("\n".intercalate (parts.map Prod.fst)) =
      (⟨tokens, .endOfInput _⟩ : TokenStream).meaningful :=
    congrArg TokenStream.meaningful hcut.ofText_eq
  have hfilter : (tokens.filter fun token => !token.kind.isTrivia).map Token.spelling =
      meaningful (tokens.map Token.spelling) := by
    rw [meaningful, List.filter_map]
    rfl
  rw [hstream]
  refine ⟨rfl, ?_⟩
  rw [TokenStream.meaningful, hfilter, hspelling, meaningful_intercalate, List.flatMap_map,
    List.map_flatMap]
  exact List.flatMap_congr hmeaningful

/-- Consecutive tokens of a source text and the text from the first one to the last one. -/
theorem isTextOf_slice {file : Path} {source : String} (lexes : (stream file source).Lexes)
    {before row after : List Token}
    (consecutive : (stream file source).tokens = before ++ row ++ after)
    {first last : Token} (hfirst : row.head? = some first) (hlast : row.getLast? = some last) :
    IsTextOf (String.ofList
      ((Text.slice source.toList first.start.index last.stop.index).getD [])) row := by
  have hcut := cut_ofText (.startOf file) source.toList
  have hnone : (TokenStream.ofText (.startOf file) source.toList).ending.error? = none := lexes
  rw [hnone] at hcut
  obtain ⟨passage, hpassage, hmeaningful, hslice⟩ :=
    hcut.exists_passage consecutive hfirst hlast
  refine ⟨passage, hpassage, hmeaningful, ?_⟩
  rw [hslice, Option.getD_some, String.toList_ofList]

section

variable {file : Path} {source : String} {document : Document}
  (spells : (stream file source).Spells document)
include spells

theorem isTextOf_header :
    IsTextOf (document.header.fragment source.toList).text document.header.tokens := by
  have htokens : (stream file source).tokens = [] ++ document.header.tokens ++
      document.declarations.flatMap Declaration.tokens := spells.tokens.symm
  exact isTextOf_slice spells.lexes htokens rfl rfl

theorem isTextOf_declaration {declaration : Declaration}
    (hmem : declaration ∈ document.declarations) :
    IsTextOf (declaration.fragment source.toList).text declaration.tokens := by
  obtain ⟨before, after, hsplit⟩ := List.append_of_mem hmem
  have htokens : (stream file source).tokens =
      (document.header.tokens ++ before.flatMap Declaration.tokens) ++ declaration.tokens ++
        after.flatMap Declaration.tokens := by
    rw [← spells.tokens, Document.tokens, hsplit]
    simp
  have hne : declaration.tokens ≠ [] := by
    cases declaration <;> exact List.cons_ne_nil _ _
  have hfirst := List.head?_eq_some_head hne
  have hlast := List.getLast?_eq_some_getLast hne
  rw [Declaration.text_fragment source.toList hfirst hlast]
  exact isTextOf_slice spells.lexes htokens hfirst hlast

/-- When the header and some declarations of a source text are put on lines of their own, the tokens
are those of the header and of the declarations. -/
theorem stream_rejoined {declarations : List Declaration}
    (chosen : declarations ⊆ document.declarations) :
    (stream file (Document.textIn source ⟨document.header, declarations⟩)).Lexes ∧
      (stream file (Document.textIn source ⟨document.header, declarations⟩)).tokens.map
          Token.spelling =
        (Document.tokens ⟨document.header, declarations⟩).map Token.spelling := by
  let parts : List (String × List Token) :=
    ((document.header.fragment source.toList).text, document.header.tokens) ::
      declarations.map fun declaration =>
        ((declaration.fragment source.toList).text, declaration.tokens)
  have htexts : ∀ part ∈ parts, IsTextOf part.1 part.2 := by
    refine List.forall_mem_cons.mpr ⟨isTextOf_header spells, ?_⟩
    intro part hpart
    obtain ⟨declaration, hmem, rfl⟩ := List.mem_map.mp hpart
    exact isTextOf_declaration spells (chosen hmem)
  have hjoined : "\n".intercalate (parts.map Prod.fst) =
      Document.textIn source ⟨document.header, declarations⟩ := by
    rw [Document.textIn, rejoined, List.map_cons, List.map_map, List.map_cons, List.map_map]
    rfl
  have htokens : parts.flatMap Prod.snd = Document.tokens ⟨document.header, declarations⟩ := by
    rw [List.flatMap_cons, List.flatMap_map]
    rfl
  rw [← hjoined, ← htokens]
  exact stream_of_texts file (List.cons_ne_nil _ _) htexts

end

end Schema

end GraphSchema

import GraphSchema.Proofs.Document.References
import GraphSchema.Proofs.Fidelity
import GraphSchema.Proofs.Lossless
import GraphSchema.Proofs.Token.Places

/-!
# Canonical forms are read back

A designation, its tokens and its canonical form determine each other.  What links them is the row
of lexemes of the modifiers and the name (`Designation.lexemes`): the canonical form is its text,
so it is cut into these lexemes and read as a designation with these modifiers and this name
(`Designation.readsAs_spell`).  And the tokens of a designation that has been read are these
lexemes, so they spell its canonical form (`TypeReference.ReadFrom.shownBy`).

The containers of a model are spelled like parts of designations that have been read, so they are
read back as well (`SchemaModel.Describes.exists_readsBack`).
-/

namespace GraphSchema

/-! ### Modifiers as tokens -/

namespace Modifier

/-- The kind of the tokens that stand for a modifier. -/
def kind : Modifier → TokenKind
  | optional => .questionMark
  | list => .listMarker

/-- A modifier as a lexeme. -/
def lexeme (modifier : Modifier) : TokenKind × String :=
  (modifier.kind, modifier.text)

/-- A `?` may not stand in front of a `?`. -/
def MayPrecede (before after : Modifier) : Prop :=
  ¬ (before = optional ∧ after = optional)

@[simp]
theorem symbol?_kind (modifier : Modifier) : modifier.kind.symbol? = some modifier.text := by
  cases modifier <;> rfl

@[simp]
theorem isWord_kind (modifier : Modifier) : modifier.kind.isWord = false := by
  cases modifier <;> rfl

@[simp]
theorem ofKind?_kind (modifier : Modifier) : ofKind? modifier.kind = some modifier := by
  cases modifier <;> rfl

theorem exists_kind {kind : TokenKind} (h : kind = .questionMark ∨ kind = .listMarker) :
    ∃ modifier : Modifier, kind = modifier.kind := by
  rcases h with rfl | rfl
  · exact ⟨optional, rfl⟩
  · exact ⟨list, rfl⟩

theorem kind_cases (modifier : Modifier) :
    modifier.kind = .questionMark ∨ modifier.kind = .listMarker := by
  cases modifier
  · exact .inl rfl
  · exact .inr rfl

theorem mayPrecede_kind_iff {before after : Modifier} :
    Outline.MayPrecede before.kind after.kind ↔ before.MayPrecede after := by
  cases before <;> cases after <;> simp [Outline.MayPrecede, MayPrecede, kind]

end Modifier

/-! ### The lexemes of a designation -/

namespace Designation

/-- The lexemes of a designation: those of the modifiers, then the name of a type. -/
def lexemes (modifiers : List Modifier) (terminal : String) : List (TokenKind × String) :=
  modifiers.map Modifier.lexeme ++ [(.typeName, terminal)]

/-- The canonical form consists of the lexemes. -/
theorem rowText_lexemes (modifiers : List Modifier) (terminal : String) :
    rowText (lexemes modifiers terminal) = (spell modifiers terminal).toList := by
  induction modifiers with
  | nil => exact List.append_nil _
  | cons modifier modifiers ih =>
    have hspell : spell (modifier :: modifiers) terminal =
      modifier.text ++ spell modifiers terminal := rfl
    rw [hspell, String.toList_append, ← ih]
    rfl

theorem isLexeme_lexemes {modifiers : List Modifier} {terminal : String}
    (rule : TokenKind.ofWord terminal = .typeName) :
    ∀ lexeme ∈ lexemes modifiers terminal, IsLexeme lexeme.1 lexeme.2.toList := by
  refine forall_mem_append_singleton ?_ ?_
  · intro lexeme hlexeme
    obtain ⟨modifier, -, rfl⟩ := List.mem_map.mp hlexeme
    exact .symbol modifier.symbol?_kind modifier.isWord_kind
  · exact isLexeme_typeName rule

/-- Modifiers may end in front of anything, and nothing stands behind the name. -/
theorem isChain_lexemes (modifiers : List Modifier) {terminal : String} :
    (lexemes modifiers terminal).IsChain
      fun lexeme following => MayEndBefore lexeme.1 following.2.toList := by
  induction modifiers with
  | nil => exact .singleton _
  | cons modifier modifiers ih =>
    refine List.isChain_cons.mpr ⟨?_, ih⟩
    intro following _
    exact mayEndBefore_symbol modifier.symbol?_kind modifier.isWord_kind _

end Designation

/-! ### The tokens of a designation -/

/-- A designation is made of the tokens of some modifiers and of a name of a type. -/
structure TypeReference.IsSpelled (type : TypeReference) (modifiers : List Modifier)
    (terminal : String) : Prop where
  modifiers : List.Forall₂ (fun token modifier => token.spelling = modifier.lexeme)
    type.modifiers modifiers
  terminal : type.terminal.spelling = (.typeName, terminal)

namespace TypeReference

variable {type : TypeReference} {modifiers : List Modifier} {terminal : String}

/-- Tokens whose lexemes are those of a designation make up that designation. -/
theorem exists_isSpelled_of_tokens {tokens : List Token}
    (h : tokens.map Token.spelling = Designation.lexemes modifiers terminal) :
    ∃ type : TypeReference, type.tokens = tokens ∧ type.IsSpelled modifiers terminal := by
  obtain ⟨front, back, rfl, hfront, hback⟩ := List.map_eq_append_iff.mp h
  obtain ⟨last, rfl, hlast⟩ := List.map_eq_singleton_iff.mp hback
  exact ⟨⟨front, last⟩, rfl, forall₂_of_map_eq_map hfront, hlast⟩

/-- The tokens of a designation that has been read are those of its modifiers and its name. -/
theorem Grammatical.isSpelled (h : type.Grammatical)
    (lexemes : ∀ token ∈ type.tokens, IsLexeme token.kind token.text.toList) :
    type.IsSpelled type.designation.modifiers type.designation.terminal := by
  refine ⟨forall₂_filterMap ?_, Prod.ext h.terminal rfl⟩
  intro token htoken
  obtain ⟨modifier, hkind⟩ := Modifier.exists_kind (h.modifiers.modifier token htoken)
  have hlexeme := lexemes token (List.mem_append_left _ htoken)
  -- a symbol has one spelling, so the kind of the token decides its text
  rw [hkind] at hlexeme
  have htext := hlexeme.eq_of_symbol? modifier.symbol?_kind modifier.isWord_kind
  refine ⟨modifier, by rw [hkind, Modifier.ofKind?_kind], Prod.ext hkind ?_⟩
  exact String.toList_injective htext

namespace IsSpelled

variable (h : type.IsSpelled modifiers terminal)
include h

theorem kinds_eq : type.modifiers.map Token.kind = modifiers.map Modifier.kind :=
  map_eq_map_of_forall₂ h.modifiers fun _ _ hsame => congrArg Prod.fst hsame

theorem terminal_kind : type.terminal.kind = .typeName :=
  congrArg Prod.fst h.terminal

/-- The designation has these modifiers and this name. -/
theorem designation_eq :
    type.designation.modifiers = modifiers ∧ type.designation.terminal = terminal := by
  refine ⟨?_, congrArg Prod.snd h.terminal⟩
  have hparts : type.designation.modifiers = modifiers.filterMap some := by
    refine filterMap_eq_filterMap_of_forall₂ h.modifiers fun token modifier hsame => ?_
    have hkind : token.kind = modifier.kind := congrArg Prod.fst hsame
    rw [hkind, Modifier.ofKind?_kind]
  rw [hparts, List.filterMap_some]

/-- It follows the grammar if and only if no `?` stands in front of a `?`. -/
theorem grammatical_iff : type.Grammatical ↔ modifiers.IsChain Modifier.MayPrecede := by
  -- both conditions are about the row of kinds
  have hchain : type.modifiers.IsChain (fun before after =>
      Outline.MayPrecede before.kind after.kind) ↔ modifiers.IsChain Modifier.MayPrecede := by
    rw [← List.isChain_map (R := Outline.MayPrecede) Token.kind, h.kinds_eq, List.isChain_map]
    simp only [Modifier.mayPrecede_kind_iff]
  rw [← hchain]
  refine ⟨fun hgood => hgood.modifiers.single, fun hsingle => ⟨⟨?_, hsingle⟩, h.terminal_kind⟩⟩
  intro token htoken
  obtain ⟨modifier, -, hsame⟩ := exists_right_of_forall₂ h.modifiers htoken
  have hkind : token.kind = modifier.kind := congrArg Prod.fst hsame
  rw [hkind]
  exact modifier.kind_cases

/-- The texts of its tokens make up the canonical form. -/
theorem covered_tokens :
    covered type.tokens = (Designation.spell modifiers terminal).toList := by
  have hlexemes : type.tokens.map Token.spelling = Designation.lexemes modifiers terminal := by
    rw [tokens, List.map_append, List.map_singleton, h.terminal,
      map_eq_map_of_forall₂ h.modifiers fun _ _ => id]
    rfl
  rw [← Designation.rowText_lexemes, ← hlexemes, rowText, List.flatMap_map]
  rfl

end IsSpelled

end TypeReference

/-! ### Reading a canonical form -/

/-- A whole text is read as one designation with the given modifiers and the given name: its tokens
are those of the designation, which is finished with the last of them and not before. -/
def Designation.ReadsAs (file : Path) (text : String) (modifiers : List Modifier)
    (terminal : String) : Prop :=
  ∃ type : TypeReference,
    TokenStream.ofSource file text =
      ⟨type.tokens, .endOfInput ((Cursor.startOf file).after text.toList)⟩ ∧
    (∀ result, Feeds TypeReference.step [] type.tokens result ↔ result = .done type) ∧
    type.designation.modifiers = modifiers ∧ type.designation.terminal = terminal

/-- The canonical form of a designation is read as that designation. -/
theorem Designation.readsAs_spell (file : Path) {modifiers : List Modifier} {terminal : String}
    (single : modifiers.IsChain Modifier.MayPrecede)
    (rule : TokenKind.ofWord terminal = .typeName) :
    ReadsAs file (spell modifiers terminal) modifiers terminal := by
  obtain ⟨tokens, hcut, hlexemes⟩ :=
    exists_cut (.startOf file) (isLexeme_lexemes rule) (isChain_lexemes modifiers)
  rw [rowText_lexemes] at hcut
  obtain ⟨type, rfl, hspelled⟩ := TypeReference.exists_isSpelled_of_tokens hlexemes
  have hfeeds := (hspelled.grammatical_iff.mpr single).feeds
  refine ⟨type, hcut.ofText_eq, fun result => ⟨fun h => h.unique hfeeds, ?_⟩,
    hspelled.designation_eq⟩
  rintro rfl
  exact hfeeds

/-! ### Designations in a source text -/

/-- The tree of a designation consists of its tokens. -/
theorem TypeReference.tokens_fragment (source : List Char) (type : TypeReference) :
    (type.fragment source).tokens = type.tokens := by
  rw [fragment, Fragment.tokens_close, Fragment.tokensOf_map_token]

namespace Schema

/-- The designations that are read in a source text, whether or not the reading comes to its end. -/
def typeReferences (file : Path) (source : String) : List TypeReference :=
  (Reading.ofStream (stream file source)).1.typeReferences

/-- Consecutive tokens of a source text are read as a designation. -/
structure Parsed (file : Path) (source : String) (row : List Token) (type : TypeReference) :
    Prop where
  consecutive : row <:+: (stream file source).tokens
  reads : Feeds TypeReference.step [] row (.done type)

/-- The canonical form of a designation consists of the texts of a row of tokens, which are those of
its tree, and the two places are where the first and the last of them begin. -/
structure ShownBy (source : String) (row : List Token) (type : TypeReference) : Prop where
  tokens : (type.fragment source.toList).tokens = row
  canonical : type.designation.canonical.toList = covered row
  position : row.head?.map Token.start = some type.designation.position
  terminalPosition : row.getLast?.map Token.start = some type.designation.terminalPosition

theorem parsed_iff {file : Path} {source : String} {row : List Token} {type : TypeReference} :
    Parsed file source row type ↔
      type.ReadFrom (stream file source).tokens ∧ type.tokens = row := by
  constructor
  · rintro ⟨hconsecutive, hreads⟩
    obtain ⟨hgrammatical, rfl⟩ := TypeReference.feeds_iff.mp hreads
    exact ⟨⟨hgrammatical, hconsecutive⟩, rfl⟩
  · rintro ⟨⟨hgrammatical, hconsecutive⟩, rfl⟩
    exact ⟨hconsecutive, hgrammatical.feeds⟩

/-- The designations that are read in a source text are made of its tokens. -/
theorem parsed_of_mem {file : Path} {source : String} {type : TypeReference}
    (mem : type ∈ typeReferences file source) : Parsed file source type.tokens type := by
  obtain ⟨front, reading, hreads, hread, hfront, -⟩ := exists_read file source
  obtain ⟨hgrammatical, htokens⟩ := Reading.reads_keeps hreads trivial
  rw [typeReferences, hread] at mem
  have hown := hgrammatical.readFrom type mem
  rw [htokens] at hown
  exact parsed_iff.mpr ⟨hown.mono hfront.isInfix, rfl⟩

end Schema

namespace TypeReference.ReadFrom

variable {file : Path} {source : String} {type : TypeReference}
  (h : type.ReadFrom (Schema.stream file source).tokens)
include h

theorem isSpelled : type.IsSpelled type.designation.modifiers type.designation.terminal := by
  refine h.grammatical.isSpelled fun token htoken => ?_
  have hstream := List.mem_of_mem_filter (h.consecutive.subset htoken)
  exact ((TokenStream.marks_ofSource file source).tokens token hstream).1

theorem single : type.designation.modifiers.IsChain Modifier.MayPrecede :=
  h.isSpelled.grammatical_iff.mp h.grammatical

theorem plainName : PlainName type.designation.terminal :=
  TokenKind.plainName_of_ofWord h.ofWord_terminal

theorem shownBy : Schema.ShownBy source type.tokens type := by
  refine ⟨type.tokens_fragment source.toList, h.isSpelled.covered_tokens.symm, ?_, ?_⟩
  · rw [tokens, designation]
    cases type.modifiers <;> rfl
  · rw [tokens, List.getLast?_concat]
    rfl

end TypeReference.ReadFrom

/-- Designations in source texts have one canonical form if and only if they have the same modifiers
and the same name. -/
theorem Schema.Parsed.canonical_eq_iff {file otherFile : Path} {source other : String}
    {row otherRow : List Token} {type twin : TypeReference} (h : Parsed file source row type)
    (hother : Parsed otherFile other otherRow twin) :
    type.designation.canonical = twin.designation.canonical ↔
      type.designation.modifiers = twin.designation.modifiers ∧
        type.designation.terminal = twin.designation.terminal := by
  constructor
  · intro hsame
    exact Designation.spell_injective hsame (parsed_iff.mp h).1.plainName
      (parsed_iff.mp hother).1.plainName
  · rintro ⟨hmodifiers, hterminal⟩
    rw [Designation.canonical, Designation.canonical, hmodifiers, hterminal]

/-! ### Containers of a model -/

/-- A container of a model is read as the modifiers that it is unwrapped by, and the name of its
terminal. -/
structure SchemaModel.ReadsBack (model : SchemaModel) (container : Container)
    (modifiers : List Modifier) (base : SchemaType) : Prop where
  unwraps : model.types.Unwraps (.container container) modifiers base
  terminal : model.type? container.terminal = some base
  reads : ∀ file, Designation.ReadsAs file container.designation modifiers base.designation

/-- Every container of a model is spelled like a part of a designation that has been read. -/
theorem SchemaModel.Describes.exists_readsBack {model : SchemaModel} {document : Document}
    {file : Path} {source : String} (h : model.Describes document)
    (spells : (Schema.stream file source).Spells document) (consistent : model.types.Consistent)
    (plain : model.types.Plain) {container : Container} (mem : container ∈ model.types.containers) :
    ∃ modifiers base, model.ReadsBack container modifiers base := by
  obtain ⟨reference, hreference, suffix, -, hsuffix, hspelling⟩ :=
    (h.containers container.designation).mp ⟨container, mem, rfl⟩
  obtain ⟨type, rfl, htype⟩ := spells.exists_readFrom hreference
  obtain ⟨modifiers, base, hunwraps⟩ :=
    consistent.exists_unwraps (TypeTable.container_mem_types mem)
  obtain ⟨hbase, hterminal, hdesignation⟩ := hunwraps.spelled
  -- both spellings of the container are the same
  obtain ⟨rfl, hname⟩ := Designation.spell_injective (hdesignation.symm.trans hspelling)
    (plain base hbase) htype.plainName
  refine ⟨modifiers, base, hunwraps, ?_, fun other => ?_⟩
  · have hfound := h.numbers base (TypeTable.mem_named.mp hbase).1
    rwa [← hterminal] at hfound
  · have hsingle := List.IsChain.infix htype.single hsuffix.isInfix
    rw [hspelling, hname]
    exact Designation.readsAs_spell other hsingle htype.ofWord_terminal

namespace Schema

/-- Canonical forms are read back.  The designations that are read have the canonical forms that
their tokens spell, which differ if the designations differ.  And the containers of an accepted
model are read back. -/
theorem check_roundTrips (file : Path) :
    (∀ designation : Designation, designation.modifiers.IsChain Modifier.MayPrecede →
      NamingRule.typeName.accepts designation.terminal = true →
      Designation.ReadsAs file designation.canonical designation.modifiers designation.terminal) ∧
    (∀ source, ∀ type ∈ typeReferences file source, ∃ row, Parsed file source row type) ∧
    (∀ source row type, Parsed file source row type → ShownBy source row type) ∧
    (∀ source row type otherFile other otherRow twin, Parsed file source row type →
      Parsed otherFile other otherRow twin →
      (type.designation.canonical = twin.designation.canonical ↔
        type.designation.modifiers = twin.designation.modifiers ∧
          type.designation.terminal = twin.designation.terminal)) ∧
    (∀ source model, (check file source).model = .ok model →
      ∀ container ∈ model.types.containers, ∃ modifiers base,
        model.ReadsBack container modifiers base) := by
  refine ⟨?_, ?_, ?_, ?_, ?_⟩
  · intro designation single rule
    exact Designation.readsAs_spell file single (beq_iff_eq.mp rule)
  · intro source type htype
    exact ⟨type.tokens, parsed_of_mem htype⟩
  · intro source row type hparsed
    obtain ⟨hread, rfl⟩ := parsed_iff.mp hparsed
    exact hread.shownBy
  · intro source row type otherFile other otherRow twin hparsed hother
    exact hparsed.canonical_eq_iff hother
  · intro source model accepted container hcontainer
    obtain ⟨document, hspells, hfaultless, rfl⟩ := check_eq_ok_iff.mp accepted
    have hresolved := hfaultless.resolved hspells.plainNames
    exact (hfaultless.describes hspells.plainNames).exists_readsBack hspells
      hresolved.consistent.types hresolved.plain hcontainer

/-- Nested modifiers are read back, also those of a source text that ends too early. -/
theorem check_roundTrips_nested :
    Designation.ReadsAs default "?[]Int32" [.optional, .list] "Int32" ∧
    (∃ row type, Parsed default "schema shop query item(of [] ?Item" row type ∧
      type.designation.canonical = "[]?Item" ∧
        ShownBy "schema shop query item(of [] ?Item" row type) ∧
    ∃ model, (check default "schema shop query item ?[]Int32").model = .ok model ∧
      ∃ container ∈ model.types.containers, container.designation = "?[]Int32" ∧
        ∃ modifiers base, model.ReadsBack container modifiers base := by
  obtain ⟨hreads, hparsed, hshown, -, hcontainers⟩ := check_roundTrips default
  refine ⟨?_, ?_, ?_⟩
  · refine hreads ⟨[.optional, .list], "Int32", default, default⟩ ?_ (by decide +kernel)
    exact .cons_cons (by simp [Modifier.MayPrecede]) (.singleton _)
  · -- the parenthesis is not closed, but the type of the parameter is complete
    have hread : (typeReferences default "schema shop query item(of [] ?Item").map
        (fun type => type.designation.canonical) = ["[]?Item"] := by
      decide +kernel
    obtain ⟨type, htypes, hcanonical⟩ := List.map_eq_singleton_iff.mp hread
    obtain ⟨row, hrow⟩ := hparsed _ type (by rw [htypes]; exact List.mem_singleton_self _)
    exact ⟨row, type, hrow, hcanonical, hshown _ row type hrow⟩
  · have hsome : (check default "schema shop query item ?[]Int32").model.toOption.map
        (fun model => model.types.containers.map Container.designation) =
        some ["[]Int32", "?[]Int32"] := by
      decide +kernel
    cases haccepted : (check default "schema shop query item ?[]Int32").model with
    | ok model =>
      rw [haccepted] at hsome
      have hlist : model.types.containers.map Container.designation = ["[]Int32", "?[]Int32"] :=
        Option.some.inj hsome
      have hmem : "?[]Int32" ∈ model.types.containers.map Container.designation := by
        rw [hlist]
        exact List.mem_cons_of_mem _ (List.mem_singleton_self _)
      obtain ⟨container, hcontainer, hdesignation⟩ := List.mem_map.mp hmem
      exact ⟨model, rfl, container, hcontainer, hdesignation,
        hcontainers _ model haccepted container hcontainer⟩
    | error diagnostics =>
      rw [haccepted] at hsome
      cases hsome

end Schema

end GraphSchema

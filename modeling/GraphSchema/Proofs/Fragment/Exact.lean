import GraphSchema.Proofs.Fragment.Flattening
import GraphSchema.Proofs.Grammar.Recognition
import GraphSchema.Proofs.Token.Passages

/-!
# Exact trees

A tree is exact over a source text (`Fragment.Exact`) if every construct reaches from its first part
to its last one, its parts stand one behind the other, and its text is the part of the source text
between its ends.  The trees of designations, members and declarations are exact and consist of
their tokens (`Declaration.spans`), provided that these stand in the source text one behind the
other (`LaidOut`).  A part that is built from exact parts is exact (`PartsSpan.close`).
-/

namespace GraphSchema

/-! ### Tokens of a source text -/

/-- Tokens stand in a source text one behind the other, and from each of them to any later one there
is a part of the text. -/
structure LaidOut (source : List Char) (row : List Token) : Prop where
  ordered : row.Pairwise fun token following => token.stop.index ≤ following.start.index
  texts : ∀ token ∈ row,
    Text.slice source token.start.index token.stop.index = some token.text.toList
  slices : ∀ part, part <:+: row → ∀ first ∈ part.head?, ∀ last ∈ part.getLast?,
    (Text.slice source first.start.index last.stop.index).isSome

/-- Neighbouring tokens among those that are laid out are laid out themselves. -/
theorem LaidOut.part {source : List Char} {row part : List Token} (h : LaidOut source row)
    (sub : part <:+: row) : LaidOut source part :=
  ⟨h.ordered.sublist sub.sublist, fun token htoken => h.texts token (sub.subset htoken),
    fun inner hinner => h.slices inner (hinner.trans sub)⟩

theorem LaidOut.append {source : List Char} {row back : List Token}
    (h : LaidOut source (row ++ back)) : LaidOut source row ∧ LaidOut source back :=
  ⟨h.part (List.prefix_append row back).isInfix, h.part (List.suffix_append row back).isInfix⟩

theorem LaidOut.tail {source : List Char} {token : Token} {row : List Token}
    (h : LaidOut source (token :: row)) : LaidOut source row :=
  h.part (List.suffix_cons token row).isInfix

theorem LaidOut.of_mem_flatMap {source : List Char} {α : Type} {entries : List α}
    {tokens : α → List Token} (h : LaidOut source (entries.flatMap tokens)) {entry : α}
    (hmem : entry ∈ entries) : LaidOut source (tokens entry) := by
  obtain ⟨before, after, rfl⟩ := List.append_of_mem hmem
  rw [List.flatMap_append, List.flatMap_cons] at h
  exact h.append.2.append.1

/-- The tokens of a text stand one behind the other. -/
theorem Cut.ordered {cursor : Cursor} {text : List Char} {tokens : List Token}
    {error? : Option LexError} (h : Cut cursor text tokens error?) :
    (∀ token ∈ tokens, cursor.index ≤ token.start.index) ∧
      tokens.Pairwise fun token following => token.stop.index ≤ following.start.index := by
  induction h with
  | ended => exact ⟨List.forall_mem_nil _, .nil⟩
  | refused => exact ⟨List.forall_mem_nil _, .nil⟩
  | @token cursor kind lexeme rest tokens error? isLexeme ends others ih =>
    obtain ⟨hbehind, hordered⟩ := ih
    refine ⟨List.forall_mem_cons.mpr ⟨Nat.le_refl _, ?_⟩, List.pairwise_cons.mpr ⟨?_, hordered⟩⟩
    · intro token htoken
      have hafter := Cursor.after_index cursor lexeme
      have hlater := hbehind token htoken
      omega
    · exact hbehind

/-- The tokens of a source text are laid out in it, without its white space as well. -/
theorem Schema.laidOut_stream (file : Path) (source : String) :
    LaidOut source.toList (Schema.stream file source).tokens := by
  have hcut : Cut (.startOf file) source.toList (TokenStream.ofSource file source).tokens
      (TokenStream.ofSource file source).ending.error? := cut_ofText (.startOf file) source.toList
  have hsublist : (Schema.stream file source).tokens.Sublist
      (TokenStream.ofSource file source).tokens := List.filter_sublist
  refine ⟨hcut.ordered.2.sublist hsublist, ?_, ?_⟩
  · intro token htoken
    exact (hcut.tiles [] rfl).slice token (hsublist.subset htoken)
  · rintro part ⟨before, after, hconsecutive⟩ first hfirst last hlast
    have hne : part ≠ [] := by
      rintro rfl
      cases hfirst
    obtain ⟨front, segment, back, hsegment, -, hhead, hend⟩ := exists_segment hconsecutive.symm hne
    rw [hsegment] at hcut
    rw [hcut.slice_covered (hhead.trans hfirst) (hend.trans hlast)]
    rfl

/-! ### Exact trees -/

namespace Fragment

/-- Every construct of a tree that has parts begins with the first and ends with the last of them,
the parts stand one behind the other, and its text is the part of the source text between its
ends. -/
inductive Exact (source : List Char) : Fragment → Prop where
  | token {leaf : Token}
      (slice : Text.slice source leaf.start.index leaf.stop.index = some leaf.text.toList) :
      Exact source (.token leaf)
  | empty {kind : ConstructKind} {place : Cursor} : Exact source (.construct kind place place "" [])
  | construct {kind : ConstructKind} {text : String} {parts : List Fragment} {first last : Fragment}
      (begins : parts.head? = some first) (ends : parts.getLast? = some last)
      (ordered : parts.Pairwise fun part following => part.stop.index ≤ following.start.index)
      (slice : Text.slice source first.start.index last.stop.index = some text.toList)
      (exact : ∀ part ∈ parts, Exact source part) :
      Exact source (.construct kind first.start last.stop text parts)

/-- A construct without parts at the start of a text is exact. -/
theorem exact_close_nil (kind : ConstructKind) (file : Path) (source : List Char) :
    (close kind (.startOf file) source []).Exact source := by
  have hempty : Text.slice source 0 0 = some [] := by
    unfold Text.slice
    cases source <;> rfl
  have hclose : close kind (.startOf file) source [] =
      .construct kind (.startOf file) (.startOf file) "" [] := by
    show construct _ _ _ (String.ofList ((Text.slice source 0 0).getD [])) [] = _
    rw [hempty]
    rfl
  rw [hclose]
  exact .empty

/-- An exact tree that consists of a row of tokens and reaches from the first to the last one. -/
structure Spans (source : List Char) (part : Fragment) (row : List Token) : Prop where
  exact : part.Exact source
  tokens : part.tokens = row
  first : ∃ first, row.head? = some first ∧ part.start = first.start
  last : ∃ last, row.getLast? = some last ∧ part.stop = last.stop

theorem spans_token {source : List Char} {leaf : Token} (h : LaidOut source [leaf]) :
    Spans source (.token leaf) [leaf] := by
  refine ⟨.token (h.texts leaf List.mem_cons_self), ?_, ⟨leaf, rfl, rfl⟩, ⟨leaf, rfl, rfl⟩⟩
  rw [tokens, tokensOf, tokensOf]

/-- Parts that span rows of tokens, one behind the other. -/
inductive PartsSpan (source : List Char) : List Fragment → List Token → Prop where
  | nil : PartsSpan source [] []
  | cons {part : Fragment} {parts : List Fragment} {row back : List Token}
      (first : Spans source part row) (others : PartsSpan source parts back) :
      PartsSpan source (part :: parts) (row ++ back)

namespace PartsSpan

variable {source : List Char} {parts others : List Fragment} {row back : List Token}

theorem single {part : Fragment} (h : Spans source part row) : PartsSpan source [part] row := by
  have hall := cons h nil
  rwa [List.append_nil] at hall

theorem token {leaf : Token} (h : LaidOut source (leaf :: row))
    (rest : PartsSpan source parts row) : PartsSpan source (.token leaf :: parts) (leaf :: row) :=
  cons (spans_token (h.part ⟨[], row, rfl⟩)) rest

theorem append (h : PartsSpan source parts row) (hback : PartsSpan source others back) :
    PartsSpan source (parts ++ others) (row ++ back) := by
  induction h with
  | nil => exact hback
  | cons first _ ih =>
    rw [List.append_assoc]
    exact cons first ih

theorem flatMap {α : Type} {entries : List α} {trees : α → List Fragment}
    {tokens : α → List Token}
    (h : ∀ entry ∈ entries, PartsSpan source (trees entry) (tokens entry)) :
    PartsSpan source (entries.flatMap trees) (entries.flatMap tokens) := by
  induction entries with
  | nil => exact nil
  | cons entry entries ih =>
    rw [List.flatMap_cons, List.flatMap_cons]
    exact (h entry List.mem_cons_self).append
      (ih fun other hother => h other (List.mem_cons_of_mem _ hother))

theorem map {α : Type} {entries : List α} {tree : α → Fragment} {tokens : α → List Token}
    (h : ∀ entry ∈ entries, Spans source (tree entry) (tokens entry)) :
    PartsSpan source (entries.map tree) (entries.flatMap tokens) := by
  rw [List.map_eq_flatMap]
  exact flatMap fun entry hentry => single (h entry hentry)

/-- The tokens of a row of trees are those of its parts, one after the other. -/
theorem tokens_eq (h : PartsSpan source parts row) : tokensOf parts = row := by
  induction h with
  | nil => exact tokensOf_nil
  | cons first _ ih => rw [tokensOf_cons, first.tokens, ih]

theorem exact (h : PartsSpan source parts row) : ∀ part ∈ parts, part.Exact source := by
  induction h with
  | nil => exact List.forall_mem_nil _
  | cons first _ ih => exact List.forall_mem_cons.mpr ⟨first.exact, ih⟩

theorem head (h : PartsSpan source parts row) {part : Fragment} (hhead : parts.head? = some part) :
    ∃ first, row.head? = some first ∧ part.start = first.start := by
  cases h with
  | nil => cases hhead
  | cons first _ =>
    obtain rfl := Option.some.inj hhead
    obtain ⟨token, htoken, hstart⟩ := first.first
    refine ⟨token, ?_, hstart⟩
    rw [List.head?_append, htoken]
    rfl

theorem last (h : PartsSpan source parts row) {part : Fragment}
    (hlast : parts.getLast? = some part) :
    ∃ last, row.getLast? = some last ∧ part.stop = last.stop := by
  induction h with
  | nil => cases hlast
  | @cons first parts row back hfirst others ih =>
    cases parts with
    | nil =>
      obtain rfl := Option.some.inj hlast
      cases others
      rw [List.append_nil]
      exact hfirst.last
    | cons second parts =>
      rw [List.getLast?_cons_cons] at hlast
      obtain ⟨token, htoken, hstop⟩ := ih hlast
      refine ⟨token, ?_, hstop⟩
      rw [List.getLast?_append, htoken]
      rfl

theorem exists_start (h : PartsSpan source parts row) {part : Fragment} (hpart : part ∈ parts) :
    ∃ token ∈ row, part.start = token.start := by
  induction h with
  | nil => cases hpart
  | cons first _ ih =>
    rcases List.mem_cons.mp hpart with rfl | hpart
    · obtain ⟨token, htoken, hstart⟩ := first.first
      exact ⟨token, List.mem_append_left _ (List.mem_of_head? htoken), hstart⟩
    · obtain ⟨token, htoken, hstart⟩ := ih hpart
      exact ⟨token, List.mem_append_right _ htoken, hstart⟩

/-- A part ends before the tokens behind it begin. -/
theorem ordered (h : PartsSpan source parts row) (laidOut : LaidOut source row) :
    parts.Pairwise fun part following => part.stop.index ≤ following.start.index := by
  induction h with
  | nil => exact .nil
  | @cons first parts row back hfirst others ih =>
    refine List.pairwise_cons.mpr ⟨?_, ih laidOut.append.2⟩
    intro part hpart
    obtain ⟨last, hlast, hstop⟩ := hfirst.last
    obtain ⟨token, htoken, hstart⟩ := others.exists_start hpart
    rw [hstop, hstart]
    exact (List.pairwise_append.mp laidOut.ordered).2.2 last (List.mem_of_getLast? hlast) token
      htoken

/-- A construct made of parts that stand one behind the other is exact. -/
theorem close (h : PartsSpan source parts row) (laidOut : LaidOut source row)
    (nonempty : parts ≠ []) (kind : ConstructKind) (place : Cursor) :
    Spans source (.close kind place source parts) row := by
  have hbegins := List.head?_eq_some_head nonempty
  have hends := List.getLast?_eq_some_getLast nonempty
  obtain ⟨first, hfirst, hstart⟩ := h.head hbegins
  obtain ⟨last, hlast, hstop⟩ := h.last hends
  obtain ⟨text, htext⟩ := Option.isSome_iff_exists.mp
    (laidOut.slices row List.infix_rfl first hfirst last hlast)
  have hclose : Fragment.close kind place source parts =
      .construct kind (parts.head nonempty).start (parts.getLast nonempty).stop
        (String.ofList text) parts := by
    rw [← hstart, ← hstop] at htext
    simp only [Fragment.close, hbegins, hends, Option.map_some, Option.getD_some, htext]
  refine ⟨?_, by rw [tokens_close, h.tokens_eq], ⟨first, hfirst, ?_⟩, ⟨last, hlast, ?_⟩⟩
  · rw [hclose]
    refine .construct hbegins hends (h.ordered laidOut) ?_ h.exact
    rw [hstart, hstop, htext, String.toList_ofList]
  · rw [hclose]
    exact hstart
  · rw [hclose]
    exact hstop

end PartsSpan

end Fragment

/-! ### The trees of a document -/

open Fragment

variable {source : List Char}

theorem Fragment.PartsSpan.made {first : Fragment} {others : List Fragment} {row : List Token}
    (h : PartsSpan source (first :: others) row) (laidOut : LaidOut source row)
    (kind : ConstructKind) : Spans source (.made kind source first others) row :=
  h.close laidOut (List.cons_ne_nil _ _) kind first.start

theorem Fragment.partsSpan_tokens {row : List Token} (h : LaidOut source row) :
    PartsSpan source (row.map .token) row := by
  induction row with
  | nil => exact .nil
  | cons leaf row ih => exact .token h (ih h.tail)

/-- The tree of a designation reaches over its tokens. -/
theorem TypeReference.spans {type : TypeReference} (h : LaidOut source type.tokens) :
    Spans source (type.fragment source) type.tokens := by
  refine (partsSpan_tokens h).close h ?_ _ _
  rw [TypeReference.tokens, List.map_append]
  exact List.append_ne_nil_of_right_ne_nil _ (List.cons_ne_nil _ _)

theorem TypedName.spans {entry : TypedName} (h : LaidOut source entry.tokens)
    (kind : ConstructKind) : Spans source (entry.fragment kind source) entry.tokens :=
  PartsSpan.made (.token h (.single (TypeReference.spans h.tail))) h kind

theorem ParameterListing.spans {listing : ParameterListing} (h : LaidOut source listing.tokens) :
    Spans source (listing.fragment source) listing.tokens := by
  refine PartsSpan.made (.token h (.flatMap fun entry hentry => ?_)) h _
  have hparts := h.tail.of_mem_flatMap hentry
  exact .cons (TypedName.spans hparts.append.1 _) (.single (spans_token hparts.append.2))

/-- The parts of a signature reach over its tokens, with parameters or without. -/
theorem Signature.partsSpan {signature : Signature} (h : LaidOut source signature.tokens) :
    PartsSpan source (signature.fragments source) signature.tokens := by
  obtain ⟨hparameters, htype⟩ := h.tail.append
  refine .token h (.append ?_ (.single (TypeReference.spans htype)))
  cases hlisting : signature.parameters with
  | none => exact .nil
  | some listing =>
    rw [hlisting] at hparameters
    exact .single (ParameterListing.spans hparameters)

theorem Signature.spans {signature : Signature} (h : LaidOut source signature.tokens) :
    Spans source (signature.fragment source) signature.tokens :=
  (Signature.partsSpan h).close h (List.cons_ne_nil _ _) _ _

/-- The members of a body reach over its tokens. -/
theorem Body.partsSpan {body : Body} (h : LaidOut source body.tokens) :
    PartsSpan source (body.fragments source) body.tokens := by
  cases body with
  | enum values =>
    have htokens : values.flatMap (fun value => [value]) = values := List.flatMap_singleton' values
    have hvalues : LaidOut source (values.flatMap fun value => [value]) := by
      rw [htokens]
      exact h
    have hparts : PartsSpan source ((Body.enum values).fragments source)
        (values.flatMap fun value => [value]) := by
      refine .map fun value hvalue => PartsSpan.made ?_ (hvalues.of_mem_flatMap hvalue) _
      exact .single (spans_token (hvalues.of_mem_flatMap hvalue))
    rw [htokens] at hparts
    exact hparts
  | union options =>
    exact .map fun option hoption => TypeReference.spans (h.of_mem_flatMap hoption)
  | struct fields =>
    exact .map fun field hfield => TypedName.spans (h.of_mem_flatMap hfield) _
  | resolver properties =>
    exact .map fun property hproperty => Signature.spans (h.of_mem_flatMap hproperty)

/-- The tree of a declaration reaches over its tokens. -/
theorem Declaration.spans {declaration : Declaration} (h : LaidOut source declaration.tokens) :
    Spans source (declaration.fragment source) declaration.tokens := by
  cases declaration with
  | typeAlias keyword name equals target => exact PartsSpan.made (partsSpan_tokens h) h _
  | block keyword name opening body closing =>
    obtain ⟨hbody, hclosing⟩ := h.tail.tail.tail.append
    exact PartsSpan.made (.token h (.token h.tail (.token h.tail.tail
      ((Body.partsSpan hbody).append (.single (spans_token hclosing)))))) h _
  | endpoint kind keyword signature =>
    exact PartsSpan.made (.token h (Signature.partsSpan h.tail)) h _

theorem Header.spans {header : Header} (h : LaidOut source header.tokens) :
    Spans source (header.fragment source) header.tokens :=
  PartsSpan.made (partsSpan_tokens h) h _

end GraphSchema

import GraphSchema.Proofs.Lossless

/-!
# What is not read does not matter

A reading that stops at a token has not looked beyond it, and one that stops at a lexical error has
seen all there is.  So source texts whose lexers give the same up to the place of a fatal diagnostic
are checked with the same result (`Schema.check_unread`).

The reading is the same because the reader takes one token at a time
(`Reading.ofStream_eq_of_offence`).  The tree is cut from the source text, so it is compared with
the one that is cut from another text (`Fragment.recut`): an exact tree stays as it is if the two
texts begin alike (`Fragment.Exact.recut_eq`).
-/

namespace GraphSchema

/-! ### Texts that begin alike -/

namespace Text

/-- Two texts have the same slices up to a number of bytes. -/
def SameUpTo (bound : Nat) (text other : List Char) : Prop :=
  ∀ start stop, stop ≤ bound → slice text start stop = slice other start stop

theorem dropBytes_append_of_le {count : Nat} {front : List Char} (h : count ≤ byteLength front)
    (rest : List Char) :
    dropBytes count (front ++ rest) = (dropBytes count front).map (· ++ rest) := by
  induction front generalizing count with
  | nil =>
    obtain rfl : count = 0 := Nat.le_zero.mp h
    cases rest <;> rfl
  | cons c front ih =>
    cases count with
    | zero => rfl
    | succ count =>
      rw [byteLength] at h
      rw [List.cons_append, dropBytes, dropBytes]
      split
      · exact ih (by omega)
      · rfl

theorem takeBytes_append_of_le {count : Nat} {front : List Char} (h : count ≤ byteLength front)
    (rest : List Char) : takeBytes count (front ++ rest) = takeBytes count front := by
  induction front generalizing count with
  | nil =>
    obtain rfl : count = 0 := Nat.le_zero.mp h
    cases rest <;> rfl
  | cons c front ih =>
    cases count with
    | zero => rfl
    | succ count =>
      rw [byteLength] at h
      rw [List.cons_append, takeBytes, takeBytes]
      split
      · rw [ih (by omega)]
      · rfl

theorem byteLength_dropBytes {count : Nat} {text rest : List Char}
    (h : dropBytes count text = some rest) : count + byteLength rest = byteLength text := by
  fun_induction dropBytes count text with
  | case1 text =>
    obtain rfl := Option.some.inj h
    exact Nat.zero_add _
  | case2 => cases h
  | case3 count c text hsize ih =>
    have hrest := ih h
    rw [byteLength]
    omega
  | case4 => cases h

theorem slice_self (text : List Char) (place : Nat) : (slice text place place).getD [] = [] := by
  rw [slice, if_pos (Nat.le_refl _), Nat.sub_self]
  cases dropBytes place text with
  | none => rfl
  | some rest => cases rest <;> rfl

/-- Texts with a common beginning have the same slices of it. -/
theorem sameUpTo_append (front rest others : List Char) :
    SameUpTo (byteLength front) (front ++ rest) (front ++ others) := by
  intro start stop hstop
  unfold slice
  split
  case isFalse => rfl
  case isTrue hstart =>
    have hle : start ≤ byteLength front := hstart.trans hstop
    rw [dropBytes_append_of_le hle, dropBytes_append_of_le hle]
    cases hdrop : dropBytes start front with
    | none => rfl
    | some back =>
      have hlength := byteLength_dropBytes hdrop
      have hback : stop - start ≤ byteLength back := by omega
      show takeBytes (stop - start) (back ++ rest) = takeBytes (stop - start) (back ++ others)
      rw [takeBytes_append_of_le hback, takeBytes_append_of_le hback]

end Text

/-! ### Trees that are cut from another text -/

namespace Fragment

mutual

/-- The fragment with the texts of its constructs cut from another source text. -/
def recut (source : List Char) : Fragment → Fragment
  | token leaf => token leaf
  | construct kind start stop _ parts =>
    construct kind start stop
      (String.ofList ((Text.slice source start.index stop.index).getD [])) (recuts source parts)

/-- A row of fragments with the texts of its constructs cut from another source text. -/
def recuts (source : List Char) : List Fragment → List Fragment
  | [] => []
  | part :: parts => part.recut source :: recuts source parts

end

variable {source other : List Char}

theorem recuts_eq_map (parts : List Fragment) : recuts source parts = parts.map (recut source) := by
  induction parts with
  | nil => rfl
  | cons part parts ih => rw [recuts, ih, List.map_cons]

@[simp]
theorem recut_token (leaf : Token) : (token leaf).recut source = token leaf := by
  rw [recut]

@[simp]
theorem start_recut (fragment : Fragment) : (fragment.recut source).start = fragment.start := by
  cases fragment with
  | token leaf => rw [recut]
  | construct kind start stop text parts =>
    rw [recut]
    rfl

@[simp]
theorem stop_recut (fragment : Fragment) : (fragment.recut source).stop = fragment.stop := by
  cases fragment with
  | token leaf => rw [recut]
  | construct kind start stop text parts =>
    rw [recut]
    rfl

@[simp]
theorem recut_close (kind : ConstructKind) (place : Cursor) (parts : List Fragment) :
    (close kind place source parts).recut other =
      close kind place other (parts.map (recut other)) := by
  have hstart : start ∘ recut other = start := funext start_recut
  have hstop : stop ∘ recut other = stop := funext stop_recut
  rw [close, recut, recuts_eq_map, close, List.head?_map, List.getLast?_map, Option.map_map,
    Option.map_map, hstart, hstop]

@[simp]
theorem recut_made (kind : ConstructKind) (first : Fragment) (others : List Fragment) :
    (made kind source first others).recut other =
      made kind other (first.recut other) (others.map (recut other)) := by
  rw [made, recut_close, made, start_recut, List.map_cons]

/-- An exact fragment ends behind its start. -/
theorem Exact.start_le_stop {fragment : Fragment} (h : fragment.Exact source) :
    fragment.start.index ≤ fragment.stop.index := by
  have hslice {start stop : Nat} {text : List Char}
      (hslice : Text.slice source start stop = some text) : start ≤ stop := by
    unfold Text.slice at hslice
    split at hslice
    · assumption
    · cases hslice
  cases h with
  | token slice => exact hslice slice
  | empty => exact Nat.le_refl _
  | construct begins ends ordered slice exact => exact hslice slice

/-- Exact parts that stand one behind the other end before the last one does. -/
theorem stop_le_of_getLast? {parts : List Fragment} {last : Fragment}
    (ends : parts.getLast? = some last)
    (ordered : parts.Pairwise fun part following => part.stop.index ≤ following.start.index)
    (exact : ∀ part ∈ parts, part.Exact source) :
    ∀ part ∈ parts, part.stop.index ≤ last.stop.index := by
  obtain ⟨front, rfl⟩ := List.getLast?_eq_some_iff.mp ends
  intro part hpart
  rcases List.mem_append.mp hpart with hfront | hlast
  · have hbefore := (List.pairwise_append.mp ordered).2.2 part hfront last List.mem_cons_self
    exact hbefore.trans (exact last (List.mem_append_right _ List.mem_cons_self)).start_le_stop
  · rw [List.mem_singleton.mp hlast]

/-- An exact fragment is cut alike from any text that is the same up to its end. -/
theorem Exact.recut_eq {fragment : Fragment} (h : fragment.Exact source) {bound : Nat}
    (same : Text.SameUpTo bound source other) (within : fragment.stop.index ≤ bound) :
    fragment.recut other = fragment := by
  induction h with
  | token slice => exact recut_token _
  | @empty kind place =>
    rw [recut, Text.slice_self]
    rfl
  | @construct kind text parts first last begins ends ordered slice exact ih =>
    have hlast : last.stop.index ≤ bound := within
    have hparts : parts.map (recut other) = parts := by
      have hpart : ∀ part ∈ parts, part.recut other = id part := fun part hpart =>
        ih part hpart ((stop_le_of_getLast? ends ordered exact part hpart).trans hlast)
      rw [List.map_congr_left hpart, List.map_id]
    rw [recut, recuts_eq_map, hparts, ← same _ _ hlast, slice, Option.getD_some,
      String.ofList_toList]

end Fragment

/-! ### The trees of a document -/

section

variable {source other : List Char}

theorem TypeReference.recut_fragment (type : TypeReference) :
    (type.fragment source).recut other = type.fragment other := by
  simp [fragment, Function.comp_def]

theorem TypedName.recut_fragment (kind : ConstructKind) (entry : TypedName) :
    (entry.fragment kind source).recut other = entry.fragment kind other := by
  simp [fragment, TypeReference.recut_fragment]

theorem ParameterListing.recut_fragment (listing : ParameterListing) :
    (listing.fragment source).recut other = listing.fragment other := by
  simp [fragment, List.map_flatMap, TypedName.recut_fragment]

theorem Signature.recut_fragments (signature : Signature) :
    (signature.fragments source).map (Fragment.recut other) = signature.fragments other := by
  cases hparameters : signature.parameters <;>
    simp [fragments, hparameters, TypeReference.recut_fragment, ParameterListing.recut_fragment]

theorem Signature.recut_fragment (signature : Signature) :
    (signature.fragment source).recut other = signature.fragment other := by
  rw [fragment, Fragment.recut_close, recut_fragments, fragment]

theorem Body.recut_fragments (body : Body) :
    (body.fragments source).map (Fragment.recut other) = body.fragments other := by
  cases body <;>
    simp [fragments, TypeReference.recut_fragment, TypedName.recut_fragment,
      Signature.recut_fragment]

theorem Declaration.recut_fragment (declaration : Declaration) :
    (declaration.fragment source).recut other = declaration.fragment other := by
  cases declaration <;>
    simp [fragment, Body.recut_fragments, Signature.recut_fragments]

theorem Header.recut_fragment (header : Header) :
    (header.fragment source).recut other = header.fragment other := by
  simp [fragment]

theorem Reading.recut_fragment (file : Path) (reading : Reading) :
    (reading.fragment file source).recut other = reading.fragment file other := by
  cases hheader : reading.header? <;>
    simp [fragment, hheader, Function.comp_def, Header.recut_fragment, Declaration.recut_fragment]

end

/-! ### Streams that begin alike -/

namespace Lexer

/-- The place of what a lexer gives: where a token begins, or where an error is. -/
def placeOf : Except LexError Token → Cursor
  | .ok token => token.start
  | .error failure => failure.position

end Lexer

namespace TokenStream

/-- What a lexer gives for a stream: its tokens, and then the error that ends them. -/
def results (stream : TokenStream) : List (Except LexError Token) :=
  stream.tokens.map Except.ok ++ (stream.ending.error?.map Except.error).toList

variable {stream : TokenStream} {front : List (Except LexError Token)}

/-- What stands in front of a token are tokens. -/
theorem prefix_results_ok {token : Token} (h : front ++ [.ok token] <+: stream.results) :
    ∃ row back, front = row.map Except.ok ∧ stream.tokens = row ++ token :: back := by
  have htokens : front ++ [.ok token] <+: stream.tokens.map Except.ok := by
    unfold results at h
    cases hending : stream.ending.error? with
    | none =>
      rw [hending] at h
      simpa using h
    | some failure =>
      rw [hending] at h
      rcases List.prefix_concat_iff.mp h with hwhole | hpart
      · cases (List.append_inj' hwhole rfl).2
      · exact hpart
  obtain ⟨others, ⟨back, hback⟩, hothers⟩ := List.prefix_map_iff.mp htokens
  obtain ⟨row, last, rfl, rfl, hlast⟩ := List.map_eq_append_iff.mp hothers.symm
  obtain ⟨same, rfl, hsame⟩ := List.map_eq_singleton_iff.mp hlast
  obtain rfl := Except.ok.inj hsame
  refine ⟨row, back, rfl, ?_⟩
  rw [← hback, List.append_assoc, List.singleton_append]

/-- What stands in front of an error are all tokens. -/
theorem prefix_results_error {failure : LexError}
    (h : front ++ [.error failure] <+: stream.results) :
    front = stream.tokens.map Except.ok ∧ stream.ending = .error failure := by
  have hnot : ¬ front ++ [.error failure] <+: stream.tokens.map Except.ok := by
    intro hpart
    have hmem : Except.error failure ∈ stream.tokens.map Except.ok :=
      hpart.subset (List.mem_append_right _ List.mem_cons_self)
    obtain ⟨_, -, hsame⟩ := List.mem_map.mp hmem
    cases hsame
  unfold results at h
  cases hending : stream.ending with
  | endOfInput position =>
    rw [hending, Ending.error?, Option.map_none, Option.toList_none, List.append_nil] at h
    exact absurd h hnot
  | error other =>
    rw [hending] at h
    rcases List.prefix_concat_iff.mp h with hwhole | hpart
    · obtain ⟨hfront, hlast⟩ := List.append_inj' hwhole rfl
      cases hlast
      exact ⟨hfront, rfl⟩
    · exact absurd hpart hnot

end TokenStream

/-- Tokens in front of others end before these begin. -/
theorem Cut.stop_le {cursor : Cursor} {text : List Char} {front back : List Token}
    {error? : Option LexError} (h : Cut cursor text (front ++ back) error?) :
    ∀ token ∈ front, token.stop.index ≤ cursor.index + Text.byteLength (covered front) := by
  induction front generalizing cursor text with
  | nil => exact List.forall_mem_nil _
  | cons token front ih =>
    cases h with
    | @token _ kind lexeme rest _ _ isLexeme ends others =>
      have hafter := Cursor.after_index cursor lexeme
      rw [covered_cons, Text.byteLength_append, String.toList_ofList]
      refine List.forall_mem_cons.mpr ⟨?_, fun following hfollowing => ?_⟩
      · show (cursor.after lexeme).index ≤ _
        omega
      · have hlater := ih others following hfollowing
        omega

/-- Source texts that begin with the same tokens are the same up to the end of these. -/
theorem TokenStream.sameUpTo_of_tokens {file : Path} {source other : String}
    {front back otherBack : List Token}
    (tokens : (ofSource file source).tokens = front ++ back)
    (otherTokens : (ofSource file other).tokens = front ++ otherBack) :
    Text.SameUpTo (Text.byteLength (covered front)) source.toList other.toList := by
  have hcut := cut_ofText (.startOf file) source.toList
  have hother := cut_ofText (.startOf file) other.toList
  rw [← ofSource, tokens] at hcut
  rw [← ofSource, otherTokens] at hother
  obtain ⟨rest, hsource, -⟩ := hcut.behind
  obtain ⟨otherRest, hotherSource, -⟩ := hother.behind
  rw [hsource, hotherSource]
  exact Text.sameUpTo_append _ _ _

/-! ### Readings that stop at a token -/

namespace Reading

/-- A reading that stops at a token is the same whatever follows the token. -/
theorem ofStream_eq_of_offence {stream other : TokenStream} {front back : List Token}
    {token : Token} (offence : stream.IsOffence front (.token token))
    (tokens : other.tokens = front ++ token :: back) : ofStream other = ofStream stream := by
  cases offence with
  | @token _ rest _ place viable refused =>
    obtain ⟨reading, hreading⟩ :=
      Option.isSome_iff_exists.mp ((reads_start_isSome_iff front).mpr viable)
    have hstep : reading.step token = none := by
      rw [Option.eq_none_iff_forall_not_mem]
      intro next hnext
      apply refused
      rw [StreamItem.MayFollow, ← List.map_singleton, ← List.map_append,
        ← reads_start_isSome_iff, reads_append, hreading, Option.bind_some, reads_cons,
        Option.mem_def.mp hnext]
      rfl
    rw [ofStream, ofStream, tokens, place, run_of_reads hreading, run_of_reads hreading, run, run,
      hstep]

/-- The tree of a reading ends where the last of its tokens does, if not before. -/
theorem stop_fragment_le (file : Path) {source : List Char} {reading : Reading} {bound : Nat}
    (laidOut : LaidOut source reading.completed)
    (h : ∀ token ∈ reading.completed, token.stop.index ≤ bound) :
    (reading.fragment file source).stop.index ≤ bound := by
  cases reading with
  | start | headed keyword => exact Nat.zero_le bound
  | body header declarations pending =>
    obtain ⟨last, hlast, hstop⟩ := (spans_body file laidOut).last
    rw [hstop]
    exact h last (List.mem_of_getLast? hlast)

/-- The tree of what was read is the same if the source texts begin with the same tokens. -/
theorem fragment_eq_of_tokens {file : Path} {source other : String}
    {front back otherBack row : List Token}
    (tokens : (TokenStream.ofSource file source).tokens = front ++ back)
    (otherTokens : (TokenStream.ofSource file other).tokens = front ++ otherBack)
    {reading : Reading} (reads : start.reads row = some reading)
    (isPrefix : row <+: (Schema.stream file source).tokens) (within : row ⊆ front) :
    reading.fragment file other.toList = reading.fragment file source.toList := by
  have hcompleted := (understood reads).isPrefix
  have hlaidOut := (Schema.laidOut_stream file source).part (hcompleted.trans isPrefix).isInfix
  have hcut := cut_ofText (.startOf file) source.toList
  rw [← TokenStream.ofSource, tokens] at hcut
  have hstop : (reading.fragment file source.toList).stop.index ≤
      Text.byteLength (covered front) := by
    refine stop_fragment_le file hlaidOut fun token htoken => ?_
    have hle := hcut.stop_le token (within (hcompleted.subset htoken))
    exact hle.trans_eq (Nat.zero_add _)
  rw [← recut_fragment, (fragment_exact file hlaidOut).1.recut_eq
    (TokenStream.sameUpTo_of_tokens tokens otherTokens) hstop]

end Reading

/-! ### Checking a source text -/

namespace Schema

variable {file : Path} {source other : String}

/-- Source texts that begin with the tokens that were taken of the first one, and are read alike,
are checked with the same result. -/
theorem check_eq_of_read {front back otherBack row : List Token} {reading : Reading}
    (tokens : (TokenStream.ofSource file source).tokens = front ++ back)
    (otherTokens : (TokenStream.ofSource file other).tokens = front ++ otherBack)
    (reads : Reading.start.reads row = some reading)
    (read : (Reading.ofStream (stream file source)).1 = reading)
    (isPrefix : row <+: (stream file source).tokens) (within : row ⊆ front)
    (same : Reading.ofStream (stream file other) = Reading.ofStream (stream file source)) :
    check file other = check file source := by
  have hfragment := Reading.fragment_eq_of_tokens tokens otherTokens reads isPrefix within
  rw [← read] at hfragment
  have hcheck (text : String) : check file text =
      ⟨(Reading.ofStream (stream file text)).1.fragment file text.toList,
        outcome (Reading.ofStream (stream file text))⟩ := rfl
  rw [hcheck, hcheck, same, hfragment]

/-- No two tokens of a source text start at one place. -/
theorem nodup_starts (file : Path) (source : String) :
    ((TokenStream.ofSource file source).tokens.map Token.start).Nodup := by
  have hordered := (TokenStream.placed_ofText (.startOf file) source.toList).1.ordered
  exact List.pairwise_map.mpr (hordered.imp fun hlt heq => hlt.ne (congrArg Cursor.index heq))

/-- A meaningful token of a source text stands between the meaningful ones in front of it and behind
it. -/
theorem tokens_stream_of_append {front back : List Token} {token : Token}
    (tokens : (TokenStream.ofSource file source).tokens = front ++ token :: back)
    (kept : (!token.kind.isTrivia) = true) :
    (stream file source).tokens = front.filter (fun leaf => !leaf.kind.isTrivia) ++
      token :: back.filter fun leaf => !leaf.kind.isTrivia := by
  have hback : (token :: back).filter (fun leaf => !leaf.kind.isTrivia) =
      token :: back.filter fun leaf => !leaf.kind.isTrivia := List.filter_cons_of_pos kept
  rw [← hback, ← List.filter_append, ← tokens]
  rfl

/-- What offends at the place of a token is this token, and what was taken before it are the
meaningful ones of the tokens in front of it. -/
theorem offence_at {front back taken : List Token} {token : Token} {item : StreamItem}
    (tokens : (TokenStream.ofSource file source).tokens = front ++ token :: back)
    (offence : (stream file source).IsOffence taken item) (position : item.position = token.start) :
    item = .token token ∧ (!token.kind.isTrivia) = true ∧
      taken = front.filter fun leaf => !leaf.kind.isTrivia := by
  have htoken : token ∈ (TokenStream.ofSource file source).tokens := by
    rw [tokens]
    exact List.mem_append_right _ List.mem_cons_self
  cases offence with
  | ending =>
    have hplaced := (TokenStream.placed_ofText (.startOf file) source.toList).1
    have hinside := (hplaced.inside token htoken).2
    rw [← position] at hinside
    exact absurd hinside (Nat.lt_irrefl _)
  | @token _ rest leaf place _ _ =>
    have hmem : leaf ∈ (stream file source).tokens := by
      rw [place]
      exact List.mem_append_right _ List.mem_cons_self
    obtain ⟨hleaf, hkept⟩ := List.mem_filter.mp hmem
    obtain rfl : leaf = token :=
      List.inj_on_of_nodup_map (nodup_starts file source) hleaf htoken position
    refine ⟨rfl, hkept, ?_⟩
    have hmeaningful := place.symm.trans (tokens_stream_of_append tokens hkept)
    -- the token stands at one place only
    have hnodup : (taken ++ leaf :: rest).Nodup := by
      rw [← place]
      exact (nodup_starts file source).of_map.filter _
    have hnot := (List.nodup_cons.mp (List.nodup_middle.mp hnodup)).1
    rw [List.mem_append, not_or] at hnot
    exact ((List.append_cons_inj_of_notMem hnot.1 hnot.2).mp hmeaningful).1

/-- Source texts with the same tokens, which end alike, are checked with the same result. -/
theorem check_eq_of_tokens
    (tokens : (TokenStream.ofSource file other).tokens = (TokenStream.ofSource file source).tokens)
    (ending : (TokenStream.ofSource file other).ending = (TokenStream.ofSource file source).ending) :
    check file other = check file source := by
  obtain ⟨taken, reading, hreads, hread, htaken, -⟩ := exists_read file source
  have hstream : stream file other = stream file source := by
    rw [stream, stream, TokenStream.meaningful, TokenStream.meaningful, tokens, ending]
  refine check_eq_of_read (List.append_nil _).symm (tokens.trans (List.append_nil _).symm)
    hreads hread htaken (fun token htoken => ?_) (by rw [hstream])
  exact List.mem_of_mem_filter (htaken.subset htoken)

/-- Source texts that begin with the same tokens, of which the last one is the place of a fatal
diagnostic of the first text, are checked with the same result. -/
theorem check_eq_of_fatal {front back otherBack : List Token} {token : Token}
    {diagnostic : Diagnostic}
    (tokens : (TokenStream.ofSource file source).tokens = front ++ token :: back)
    (otherTokens : (TokenStream.ofSource file other).tokens = front ++ token :: otherBack)
    (fatal : diagnostic ∈ (check file source).fatal)
    (position : diagnostic.position = token.start) : check file other = check file source := by
  obtain ⟨taken, reading, hreads, hread, htaken, hfails, -⟩ := exists_read file source
  rw [fatal_check] at fatal
  obtain ⟨problem, hproblem, rfl⟩ := List.mem_map.mp fatal
  obtain ⟨item, hoffence, hitem⟩ := hfails problem (Option.mem_toList.mp hproblem)
  obtain ⟨rfl, hkept, rfl⟩ := offence_at tokens hoffence (hitem.symm.trans position)
  exact check_eq_of_read tokens otherTokens hreads hread htaken (List.filter_subset_self _)
    (Reading.ofStream_eq_of_offence hoffence (tokens_stream_of_append otherTokens hkept))

/-- Source texts whose lexers give the same up to the place of a fatal diagnostic of the first one
are checked with the same result. -/
theorem check_unread {items others : List (Except LexError Token)} {count : Nat}
    {last : Except LexError Token} {diagnostic : Diagnostic}
    (gives : Lexer.Gives (.ofSource file source) items)
    (givesOther : Lexer.Gives (.ofSource file other) others)
    (same : items.take (count + 1) = others.take (count + 1)) (reached : items[count]? = some last)
    (fatal : diagnostic ∈ (check file source).fatal)
    (position : diagnostic.position = Lexer.placeOf last) :
    check file other = check file source := by
  have hitems : items = (TokenStream.ofSource file source).results :=
    gives.unique (Lexer.gives_ofText source (.startOf file) source.toList)
  have hothers : others = (TokenStream.ofSource file other).results :=
    givesOther.unique (Lexer.gives_ofText other (.startOf file) other.toList)
  have htake : items.take (count + 1) = items.take count ++ [last] := by
    rw [List.take_add_one, reached, Option.toList_some]
  have hprefix : items.take count ++ [last] <+: (TokenStream.ofSource file source).results := by
    rw [← htake, ← hitems]
    exact List.take_prefix _ _
  have hprefixOther : items.take count ++ [last] <+:
      (TokenStream.ofSource file other).results := by
    rw [← htake, same, ← hothers]
    exact List.take_prefix _ _
  have hinjective : Function.Injective (Except.ok : Token → Except LexError Token) :=
    fun _ _ => Except.ok.inj
  cases last with
  | error failure =>
    obtain ⟨hfront, hending⟩ := TokenStream.prefix_results_error hprefix
    obtain ⟨hotherFront, hotherEnding⟩ := TokenStream.prefix_results_error hprefixOther
    have htokens := List.map_injective_iff.mpr hinjective (hotherFront.symm.trans hfront)
    exact check_eq_of_tokens htokens (hotherEnding.trans hending.symm)
  | ok token =>
    obtain ⟨front, back, hfront, htokens⟩ := TokenStream.prefix_results_ok hprefix
    obtain ⟨otherFront, otherBack, hotherFront, hotherTokens⟩ :=
      TokenStream.prefix_results_ok hprefixOther
    obtain rfl := List.map_injective_iff.mpr hinjective (hotherFront.symm.trans hfront)
    exact check_eq_of_fatal htokens hotherTokens fatal position

/-- Behind a word in the place of a brace, the rest of a source text does not matter. -/
theorem check_unread_rest :
    check default "schema s enum E \x7b a a \x7d struct S T; 9" =
      check default "schema s enum E \x7b a a \x7d struct S T \x7b f T \x7d" := by
  have hgives (source : String) : Lexer.Gives (.ofSource default source)
      (TokenStream.ofSource default source).results := Lexer.gives_ofText source _ _
  have hreached : (TokenStream.ofSource default
      "schema s enum E \x7b a a \x7d struct S T \x7b f T \x7d").results[20]? =
        some (.ok ⟨.typeName, "T", ⟨33, 1, 34, default⟩, ⟨34, 1, 35, default⟩⟩) := by
    decide +kernel
  have hfatal : ⟨.syntaxError, "expected `\x7b`, found `T`", ⟨33, 1, 34, default⟩, []⟩ ∈
      (check default "schema s enum E \x7b a a \x7d struct S T \x7b f T \x7d").fatal := by
    rw [fatal_check]
    decide +kernel
  exact check_unread (hgives _) (hgives _) (by decide +kernel) hreached hfatal rfl

end Schema

end GraphSchema

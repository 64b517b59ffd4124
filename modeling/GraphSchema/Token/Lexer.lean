import GraphSchema.Token.Basic
import GraphSchema.Token.LexError

/-!
# From a source text to tokens

`Lexer.front` tells what stands at the front of a text: a token, which is the longest of its class,
the end of the text, or something that starts no token. A `Lexer` applies it again and again and
keeps its place; after the end or an error it is finished. `TokenStream.ofSource` reads a whole
source text at once and keeps the tokens that carry meaning.

`Lexer.front_token` says that a token and what follows it make up the text, and that a token is
never empty; so every step of a lexer comes nearer to the end.
-/

namespace GraphSchema

/-- Can the character start a word? -/
def isWordStart (c : Char) : Bool :=
  c == '_' || c.isAlpha

/-- Can the character continue a word? -/
def isWordPart (c : Char) : Bool :=
  c == '_' || c.isAlphanum

/-- The symbols of one character. -/
def symbolKind? (c : Char) : Option TokenKind :=
  if c = ',' then some .comma
  else if c = '\x7d' then some .braceClose
  else if c = '\x7b' then some .braceOpen
  else if c = '.' then some .dot
  else if c = '=' then some .equals
  else if c = ')' then some .parenClose
  else if c = '(' then some .parenOpen
  else if c = '?' then some .questionMark
  else none

/-- The run of spaces, tabs and line breaks at the front of a text, and the rest. A line break is
`\n` or `\r\n`. -/
def splitSpace : List Char → List Char × List Char
  | '\r' :: '\n' :: rest =>
    let (run, after) := splitSpace rest
    ('\r' :: '\n' :: run, after)
  | c :: rest =>
    if c = ' ' ∨ c = '\t' ∨ c = '\n' then
      let (run, after) := splitSpace rest
      (c :: run, after)
    else ([], c :: rest)
  | [] => ([], [])

theorem splitSpace_append (text : List Char) :
    (splitSpace text).1 ++ (splitSpace text).2 = text := by
  fun_induction splitSpace text <;> simp_all

namespace Lexer

/-- What stands at the front of a text. -/
inductive Front where
  | token (kind : TokenKind) (text rest : List Char)
  | ended
  | refused (kind : LexErrorKind) (skipped rest : List Char)
deriving DecidableEq, Repr, Inhabited

/-- Looks at the front of a text. White space before a carriage return that stands alone is
skipped. -/
def front : List Char → Front
  | [] => .ended
  | '[' :: ']' :: rest => .token .listMarker ['[', ']'] rest
  | '[' :: rest => .refused .unterminatedListMarker [] ('[' :: rest)
  | c :: rest =>
    match symbolKind? c with
    | some kind => .token kind [c] rest
    | none =>
      if isWordStart c then
        .token (.ofWord (String.ofList (c :: rest.takeWhile isWordPart)))
          (c :: rest.takeWhile isWordPart) (rest.dropWhile isWordPart)
      else
        match splitSpace (c :: rest) with
        | (space, '\r' :: after) => .refused .bareCarriageReturn space ('\r' :: after)
        | ([], _) => .refused (.unexpectedCharacter c) [] (c :: rest)
        | (space, after) => .token .space space after

/-- A token and what follows it make up the text, and the token is not empty. -/
theorem front_token {source text rest : List Char} {kind : TokenKind}
    (h : front source = .token kind text rest) : source = text ++ rest ∧ text ≠ [] := by
  revert h
  fun_cases front source <;> intro h <;>
    simp only [Front.token.injEq, reduceCtorEq] at h
  case case2 => obtain ⟨-, rfl, rfl⟩ := h; simp
  case case4 => obtain ⟨-, rfl, rfl⟩ := h; simp
  case case5 => obtain ⟨-, rfl, rfl⟩ := h; simp
  case case8 nonempty whole =>
    obtain ⟨-, rfl, rfl⟩ := h
    have joined := congrArg (fun parts => parts.1 ++ parts.2) whole
    rw [splitSpace_append] at joined
    exact ⟨joined, nonempty⟩

theorem front_token_length {source text rest : List Char} {kind : TokenKind}
    (h : front source = .token kind text rest) : rest.length < source.length := by
  obtain ⟨rfl, nonempty⟩ := front_token h
  have := List.length_pos_iff.mpr nonempty
  simp
  omega

end Lexer

/-- A source text that is being cut into tokens. -/
structure Lexer where
  source : String
  rest : List Char
  cursor : Cursor
  finished : Bool
deriving DecidableEq, Repr, Inhabited

namespace Lexer

/-- A lexer at the start of a source text. -/
def ofSource (file : Path) (source : String) : Lexer :=
  ⟨source, source.toList, .startOf file, false⟩

/-- The file whose text is cut. -/
def file (lexer : Lexer) : Path :=
  lexer.cursor.file

/-- Is there no more input to be cut? -/
def isAtEnd (lexer : Lexer) : Bool :=
  lexer.finished || lexer.rest.isEmpty

/-- The next token, the error in its place, or nothing at the end; and the lexer after it. -/
def next (lexer : Lexer) : Option (Except LexError Token) × Lexer :=
  if lexer.finished then (none, lexer)
  else match front lexer.rest with
    | .ended => (none, { lexer with finished := true })
    | .refused kind skipped rest =>
      let cursor := lexer.cursor.after skipped
      (some (.error ⟨kind, cursor⟩), { lexer with rest, cursor, finished := true })
    | .token kind text rest =>
      let cursor := lexer.cursor.after text
      (some (.ok ⟨kind, String.ofList text, lexer.cursor, cursor⟩), { lexer with rest, cursor })

end Lexer

/-- How the tokens of a source text end. -/
inductive TokenStream.Ending where
  | endOfInput (position : Cursor)
  | error (error : LexError)
deriving DecidableEq, Repr, Inhabited

/-- The tokens of a source text, and why there are no more of them. -/
structure TokenStream where
  tokens : List Token
  ending : TokenStream.Ending
deriving DecidableEq, Repr, Inhabited

namespace TokenStream

/-- The place where the tokens end. -/
def Ending.position : Ending → Cursor
  | endOfInput position => position
  | error failure => failure.position

/-- The lexical error that ended the tokens, if one did. -/
def Ending.error? : Ending → Option LexError
  | endOfInput _ => none
  | error failure => some failure

/-- Reads a text that starts at a cursor to its end or to the first error. -/
def ofText (cursor : Cursor) (text : List Char) : TokenStream :=
  match h : Lexer.front text with
  | .ended => ⟨[], .endOfInput cursor⟩
  | .refused kind skipped _ => ⟨[], .error ⟨kind, cursor.after skipped⟩⟩
  | .token kind lexeme rest =>
    have : rest.length < text.length := Lexer.front_token_length h
    let others := ofText (cursor.after lexeme) rest
    ⟨⟨kind, String.ofList lexeme, cursor, cursor.after lexeme⟩ :: others.tokens, others.ending⟩
termination_by text.length

/-- Reads a whole source text. -/
def ofSource (file : Path) (source : String) : TokenStream :=
  ofText (.startOf file) source.toList

/-- The stream without white space. -/
def meaningful (stream : TokenStream) : TokenStream :=
  ⟨stream.tokens.filter fun token => !token.kind.isTrivia, stream.ending⟩

end TokenStream

namespace Lexer

/-- Everything that a lexer has still to give, and the lexer after it. -/
def drain (lexer : Lexer) : List (Except LexError Token) × Lexer :=
  if lexer.finished then ([], lexer)
  else
    let stream := TokenStream.ofText lexer.cursor lexer.rest
    (stream.tokens.map Except.ok ++ (stream.ending.error?.map Except.error).toList,
      { lexer with rest := [], cursor := stream.ending.position, finished := true })

end Lexer

end GraphSchema

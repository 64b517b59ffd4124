import GraphSchema.Token.Lexer
import Mathlib.Data.List.TakeWhile
import Mathlib.Order.Basic

/-!
# Lexemes

What the texts of tokens are: runs of white space (`IsSpaceRun`), words (`IsWord`), whose kind their
spelling decides (`WordKind`), and nine symbols.  None of this refers to the way a text is cut.

`Lexer.front` finds a token if and only if a text begins with a lexeme behind which a token may end
(`Lexer.front_eq_token_iff`), and such a lexeme is the longest of its class
(`IsLexeme.isMunch`).  Where it refuses a text, no lexeme begins, for one of three reasons
(`Lexer.front_refused`, `IsRefusal.not_startsLexeme`).
-/

namespace GraphSchema

/-! ### Characters -/

/-- A letter from `A` to `Z`. -/
def IsUpperLetter (c : Char) : Prop := 'A' ≤ c ∧ c ≤ 'Z'

/-- A letter from `a` to `z`. -/
def IsLowerLetter (c : Char) : Prop := 'a' ≤ c ∧ c ≤ 'z'

/-- A letter or a digit from `0` to `9`. -/
def IsAlphanumeric (c : Char) : Prop :=
  IsUpperLetter c ∨ IsLowerLetter c ∨ '0' ≤ c ∧ c ≤ '9'

theorem isUpper_iff {c : Char} : c.isUpper = true ↔ IsUpperLetter c := by
  unfold Char.isUpper IsUpperLetter
  rw [decide_eq_true_eq]
  rfl

theorem isLower_iff {c : Char} : c.isLower = true ↔ IsLowerLetter c := by
  unfold Char.isLower IsLowerLetter
  rw [Bool.and_eq_true, decide_eq_true_eq, decide_eq_true_eq]
  rfl

theorem isAlphanum_iff {c : Char} : c.isAlphanum = true ↔ IsAlphanumeric c := by
  have hdigit : c.isDigit = true ↔ '0' ≤ c ∧ c ≤ '9' := by
    unfold Char.isDigit
    rw [Bool.and_eq_true, decide_eq_true_eq, decide_eq_true_eq]
    rfl
  unfold Char.isAlphanum Char.isAlpha IsAlphanumeric
  rw [Bool.or_eq_true, Bool.or_eq_true, isUpper_iff, isLower_iff, hdigit, or_assoc]

/-! ### Words -/

/-- A letter or `_`, and then letters, digits and `_`. -/
def IsWord : List Char → Prop
  | [] => False
  | first :: rest => (IsUpperLetter first ∨ IsLowerLetter first ∨ first = '_') ∧
      ∀ c ∈ rest, IsAlphanumeric c ∨ c = '_'

/-- An upper-case letter, and then letters and digits. -/
def IsTypeNameWord : List Char → Prop
  | [] => False
  | first :: rest => IsUpperLetter first ∧ ∀ c ∈ rest, IsAlphanumeric c

/-- A lower-case letter, and then letters and digits. -/
def IsLowerNameWord : List Char → Prop
  | [] => False
  | first :: rest => IsLowerLetter first ∧ ∀ c ∈ rest, IsAlphanumeric c

/-- The kind of a word: a keyword, if it is spelled like one; else a name of a type or a
lower-camel-case name, if it has that shape; else an identifier. -/
structure WordKind (word : String) (kind : TokenKind) : Prop where
  keyword : ∀ keyword, kind = .keyword keyword ↔ word = keyword.text
  typeName : kind = .typeName ↔
    (∀ keyword : Keyword, word ≠ keyword.text) ∧ IsTypeNameWord word.toList
  lowerName : kind = .lowerName ↔
    (∀ keyword : Keyword, word ≠ keyword.text) ∧ IsLowerNameWord word.toList
  identifier : kind = .identifier ↔ (∀ keyword : Keyword, word ≠ keyword.text) ∧
    ¬ IsTypeNameWord word.toList ∧ ¬ IsLowerNameWord word.toList

theorem isWordStart_iff {c : Char} :
    isWordStart c = true ↔ IsUpperLetter c ∨ IsLowerLetter c ∨ c = '_' := by
  unfold isWordStart Char.isAlpha
  rw [Bool.or_eq_true, Bool.or_eq_true, beq_iff_eq, isUpper_iff, isLower_iff, or_comm, or_assoc]

theorem isWordPart_iff {c : Char} : isWordPart c = true ↔ IsAlphanumeric c ∨ c = '_' := by
  unfold isWordPart
  rw [Bool.or_eq_true, beq_iff_eq, isAlphanum_iff, or_comm]

theorem Keyword.ofText?_eq_some_iff {word : String} {keyword : Keyword} :
    ofText? word = some keyword ↔ word = keyword.text := by
  constructor
  · intro h
    exact (text_of_ofText? h).symm
  · rintro rfl
    cases keyword <;> rfl

/-- A word has one kind only. -/
theorem WordKind.unique {word : String} {kind other : TokenKind} (h : WordKind word kind)
    (hother : WordKind word other) : kind = other := by
  by_cases hkeyword : ∃ keyword : Keyword, word = keyword.text
  · obtain ⟨keyword, hword⟩ := hkeyword
    rw [(h.keyword keyword).mpr hword, (hother.keyword keyword).mpr hword]
  · have hnone (keyword : Keyword) : word ≠ keyword.text := fun hword => hkeyword ⟨keyword, hword⟩
    by_cases htype : IsTypeNameWord word.toList
    · rw [h.typeName.mpr ⟨hnone, htype⟩, hother.typeName.mpr ⟨hnone, htype⟩]
    · by_cases hlower : IsLowerNameWord word.toList
      · rw [h.lowerName.mpr ⟨hnone, hlower⟩, hother.lowerName.mpr ⟨hnone, hlower⟩]
      · rw [h.identifier.mpr ⟨hnone, htype, hlower⟩, hother.identifier.mpr ⟨hnone, htype, hlower⟩]

theorem not_isLowerNameWord {text : List Char} (h : IsTypeNameWord text) :
    ¬ IsLowerNameWord text := by
  intro hlower
  cases text with
  | nil => exact h
  | cons first rest =>
    obtain ⟨⟨-, hupper⟩, -⟩ := h
    obtain ⟨⟨hleast, -⟩, -⟩ := hlower
    have hle : 'a' ≤ 'Z' := Char.le_trans hleast hupper
    exact absurd hle (by decide)

/-- The shape of a word that is no keyword decides its kind. -/
theorem wordKind_of_shape {word : String} {kind : TokenKind}
    (hnone : ∀ keyword : Keyword, word ≠ keyword.text)
    (h : kind = .typeName ∧ IsTypeNameWord word.toList ∨
      kind = .lowerName ∧ IsLowerNameWord word.toList ∨
      kind = .identifier ∧ ¬ IsTypeNameWord word.toList ∧ ¬ IsLowerNameWord word.toList) :
    WordKind word kind := by
  rcases h with ⟨rfl, htype⟩ | ⟨rfl, hlower⟩ | ⟨rfl, hneither⟩
  · have hlower := not_isLowerNameWord htype
    constructor <;> simp [hnone, htype, hlower]
  · have htype : ¬ IsTypeNameWord word.toList := fun htype => not_isLowerNameWord htype hlower
    constructor <;> simp [hnone, htype, hlower]
  · constructor <;> simp [hnone, hneither]

/-- The kind that a word is given is its kind. -/
theorem wordKind_ofWord (word : String) : WordKind word (.ofWord word) := by
  unfold TokenKind.ofWord
  cases hkeyword : Keyword.ofText? word with
  | some keyword =>
    have hword := Keyword.ofText?_eq_some_iff.mp hkeyword
    have hsome : ¬ ∀ keyword : Keyword, word ≠ keyword.text := fun hnone => hnone keyword hword
    refine ⟨?_, by simp [hsome], by simp [hsome], by simp [hsome]⟩
    intro other
    dsimp only
    rw [TokenKind.keyword.injEq]
    constructor
    · rintro rfl
      exact hword
    · intro hother
      exact Keyword.text_injective (hword.symm.trans hother)
  | none =>
    have hnone (keyword : Keyword) : word ≠ keyword.text := by
      intro hword
      rw [Keyword.ofText?_eq_some_iff.mpr hword] at hkeyword
      cases hkeyword
    apply wordKind_of_shape hnone
    cases htext : word.toList with
    | nil => exact .inr (.inr ⟨rfl, id, id⟩)
    | cons first rest =>
      have htype : IsTypeNameWord (first :: rest) ↔
          first.isUpper = true ∧ rest.all Char.isAlphanum = true := by
        simp [IsTypeNameWord, isUpper_iff, isAlphanum_iff]
      have hlower : IsLowerNameWord (first :: rest) ↔
          first.isLower = true ∧ rest.all Char.isAlphanum = true := by
        simp [IsLowerNameWord, isLower_iff, isAlphanum_iff]
      dsimp only
      by_cases hall : rest.all Char.isAlphanum = true
      · by_cases hfirst : first.isUpper = true
        · simp [htype, hall, hfirst]
        · by_cases hsecond : first.isLower = true <;> simp [htype, hlower, hall, hfirst, hsecond]
      · simp [htype, hlower, hall]

/-! ### White space -/

/-- Spaces, tabs and line breaks; a line break is a line feed with or without a carriage return. -/
inductive IsSpaceRun : List Char → Prop
  | nil : IsSpaceRun []
  | blank {c : Char} {rest : List Char} (h : c = ' ' ∨ c = '\t' ∨ c = '\n')
      (run : IsSpaceRun rest) : IsSpaceRun (c :: rest)
  | lineBreak {rest : List Char} (run : IsSpaceRun rest) : IsSpaceRun ('\r' :: '\n' :: rest)

/-- What is split off is a run of white space. -/
theorem isSpaceRun_splitSpace (text : List Char) : IsSpaceRun (splitSpace text).1 := by
  fun_induction splitSpace text with
  | case1 rest run after hsplit ih =>
    rw [hsplit] at ih
    exact .lineBreak ih
  | case2 c rest _ hblank run after hsplit ih =>
    rw [hsplit] at ih
    exact .blank hblank ih
  | case3 => exact .nil
  | case4 => exact .nil

/-- What is left begins neither with a blank nor with a line break. -/
theorem head_splitSpace (text : List Char) :
    (∀ c ∈ (splitSpace text).2.head?, c ≠ ' ' ∧ c ≠ '\t' ∧ c ≠ '\n') ∧
      ∀ others, (splitSpace text).2 ≠ '\r' :: '\n' :: others := by
  fun_induction splitSpace text with
  | case1 rest run after hsplit ih =>
    rw [hsplit] at ih
    exact ih
  | case2 c rest _ hblank run after hsplit ih =>
    rw [hsplit] at ih
    exact ih
  | case3 c rest hbreak hblank =>
    refine ⟨?_, ?_⟩
    · intro first hfirst
      obtain rfl := Option.some.inj hfirst
      obtain ⟨hspace, hothers⟩ := not_or.mp hblank
      exact ⟨hspace, not_or.mp hothers⟩
    · intro others hcons
      obtain ⟨rfl, rfl⟩ := List.cons.inj hcons
      exact hbreak others rfl rfl
  | case4 =>
    refine ⟨?_, fun others hcons => by cases hcons⟩
    intro first hfirst
    cases hfirst

/-- A run of white space in front is split off with whatever follows. -/
theorem IsSpaceRun.splitSpace_append {run : List Char} (h : IsSpaceRun run) (rest : List Char) :
    splitSpace (run ++ rest) = (run ++ (splitSpace rest).1, (splitSpace rest).2) := by
  induction h with
  | nil => rfl
  | @blank c others hblank _ ih =>
    rw [List.cons_append, splitSpace]
    · rw [if_pos hblank, ih]
      rfl
    · rintro after rfl -
      revert hblank
      decide
  | @lineBreak others _ ih =>
    rw [List.cons_append, List.cons_append, splitSpace, ih]
    rfl

theorem splitSpace_of_head {rest : List Char}
    (h : ∀ c ∈ rest.head?, c ≠ ' ' ∧ c ≠ '\t' ∧ c ≠ '\n' ∧ c ≠ '\r') :
    splitSpace rest = ([], rest) := by
  cases rest with
  | nil => rfl
  | cons c others =>
    obtain ⟨hspace, htab, hfeed, hreturn⟩ := h c rfl
    rw [splitSpace]
    · rw [if_neg]
      simp [hspace, htab, hfeed]
    · rintro after rfl -
      exact hreturn rfl

/-! ### Lexemes -/

/-- The kind and the text of a token. -/
def Token.spelling (token : Token) : TokenKind × String :=
  (token.kind, token.text)

/-- A text of a token of some kind: a run of white space, a word of that kind, or the spelling of
the symbol. -/
inductive IsLexeme : TokenKind → List Char → Prop
  | space {text : List Char} (run : IsSpaceRun text) (nonempty : text ≠ []) : IsLexeme .space text
  | word {kind : TokenKind} {text : List Char} (word : IsWord text)
      (wordKind : WordKind (String.ofList text) kind) : IsLexeme kind text
  | symbol {kind : TokenKind} {text : String} (spelling : kind.symbol? = some text)
      (notWord : kind.isWord = false) : IsLexeme kind text.toList

theorem IsTypeNameWord.isWord {text : List Char} (h : IsTypeNameWord text) : IsWord text := by
  cases text with
  | nil => exact h
  | cons first rest => exact ⟨.inl h.1, fun c hc => .inl (h.2 c hc)⟩

/-- The name of a type is a lexeme. -/
theorem isLexeme_typeName {word : String} (h : TokenKind.ofWord word = .typeName) :
    IsLexeme .typeName word.toList := by
  have hkind : WordKind word .typeName := by
    rw [← h]
    exact wordKind_ofWord word
  refine .word (hkind.typeName.mp rfl).2.isWord ?_
  rw [String.ofList_toList]
  exact hkind

/-- May a token of some kind end in front of a text?  White space may not end in front of white
space, nor a word in front of what could continue it. -/
def MayEndBefore (kind : TokenKind) (rest : List Char) : Prop :=
  (kind = .space → ∀ c ∈ rest.head?, c ≠ ' ' ∧ c ≠ '\t' ∧ c ≠ '\n' ∧ c ≠ '\r') ∧
    (kind.isWord = true → ∀ c ∈ rest.head?, ¬ (IsAlphanumeric c ∨ c = '_'))

/-- Does a text begin with a lexeme? -/
def StartsLexeme (text : List Char) : Prop :=
  ∃ kind lexeme, lexeme <+: text ∧ IsLexeme kind lexeme

/-- A symbol may end anywhere. -/
theorem mayEndBefore_symbol {kind : TokenKind} {text : String}
    (spelling : kind.symbol? = some text) (notWord : kind.isWord = false) (rest : List Char) :
    MayEndBefore kind rest := by
  constructor
  · rintro rfl
    cases spelling
  · intro hword
    rw [notWord] at hword
    cases hword

/-- A symbol of one character is a lexeme. -/
theorem isLexeme_of_symbolKind? {c : Char} {kind : TokenKind} (h : symbolKind? c = some kind) :
    IsLexeme kind [c] ∧ ∀ rest, MayEndBefore kind rest := by
  have hsymbol {kind : TokenKind} (spelling : kind.symbol? = some (String.ofList [c]))
      (notWord : kind.isWord = false) :
      IsLexeme kind [c] ∧ ∀ rest, MayEndBefore kind rest := by
    refine ⟨?_, mayEndBefore_symbol spelling notWord⟩
    rw [← String.toList_ofList (l := [c])]
    exact .symbol spelling notWord
  unfold symbolKind? at h
  repeat
    split at h
    case isTrue hc =>
      obtain rfl := Option.some.inj h
      exact hsymbol (by rw [hc]; rfl) rfl
  cases h

/-- Symbols are single characters, but for the list marker. -/
theorem symbolKind?_of_symbol? {kind : TokenKind} {text : String}
    (spelling : kind.symbol? = some text) (notWord : kind.isWord = false) :
    kind = .listMarker ∧ text.toList = ['[', ']'] ∨
      ∃ c, text.toList = [c] ∧ symbolKind? c = some kind := by
  cases kind with
  | listMarker =>
    obtain rfl := Option.some.inj spelling
    exact .inl ⟨rfl, rfl⟩
  | comma | braceClose | braceOpen | dot | equals | parenClose | parenOpen | questionMark =>
    obtain rfl := Option.some.inj spelling
    exact .inr ⟨_, rfl, rfl⟩
  | keyword | typeName | lowerName | identifier => cases notWord
  | space => cases spelling

/-- The kind of a word is not that of white space, nor of a symbol. -/
theorem WordKind.isWord {word : String} {kind : TokenKind} (h : WordKind word kind) :
    kind.isWord = true := by
  rw [h.unique (wordKind_ofWord word)]
  unfold TokenKind.ofWord
  split
  · rfl
  · split
    · rfl
    · split
      · rfl
      · split
        · rfl
        · split <;> rfl

/-- The tokens of a symbol are all alike. -/
theorem IsLexeme.eq_of_symbol? {kind : TokenKind} {lexeme : List Char} (h : IsLexeme kind lexeme)
    {text : String} (spelling : kind.symbol? = some text) (notWord : kind.isWord = false) :
    lexeme = text.toList := by
  cases h with
  | space => cases spelling
  | word _ wordKind =>
    rw [wordKind.isWord] at notWord
    cases notWord
  | symbol other _ => rw [Option.some.inj (other.symm.trans spelling)]

theorem mayEndBefore_ofWord (word : String) {rest : List Char} :
    MayEndBefore (.ofWord word) rest ↔ ∀ c ∈ rest.head?, ¬ (IsAlphanumeric c ∨ c = '_') := by
  have hword := (wordKind_ofWord word).isWord
  constructor
  · intro h
    exact h.2 hword
  · intro h
    refine ⟨fun hspace => ?_, fun _ => h⟩
    rw [hspace] at hword
    cases hword

namespace Lexer

theorem front_of_symbolKind? {c : Char} {rest : List Char} {kind : TokenKind}
    (h : symbolKind? c = some kind) : front (c :: rest) = .token kind [c] rest := by
  have hbracket : c ≠ '[' := by
    rintro rfl
    cases h
  rw [front]
  · rw [h]
  · rintro after hc -
    exact hbracket hc
  · exact hbracket

theorem symbolKind?_of_isWordStart {c : Char} (h : isWordStart c = true) :
    symbolKind? c = none := by
  cases hsymbol : symbolKind? c with
  | none => rfl
  | some kind =>
    unfold symbolKind? at hsymbol
    repeat
      split at hsymbol
      case isTrue hc =>
        rw [hc] at h
        exact absurd h (by decide)
    cases hsymbol

/-- What a word begins with begins nothing else. -/
theorem front_of_isWordStart {c : Char} {rest : List Char} (h : isWordStart c = true) :
    front (c :: rest) = .token (.ofWord (String.ofList (c :: rest.takeWhile isWordPart)))
      (c :: rest.takeWhile isWordPart) (rest.dropWhile isWordPart) := by
  have hbracket : c ≠ '[' := by
    rintro rfl
    exact absurd h (by decide)
  rw [front]
  · rw [symbolKind?_of_isWordStart h]
    exact if_pos h
  · rintro after hc -
    exact hbracket hc
  · exact hbracket

/-- What white space begins with begins nothing else. -/
theorem front_of_isSpaceRun {run rest : List Char} (h : IsSpaceRun run) (nonempty : run ≠ [])
    (ends : MayEndBefore .space rest) : front (run ++ rest) = .token .space run rest := by
  have hsplit : splitSpace (run ++ rest) = (run, rest) := by
    rw [h.splitSpace_append, splitSpace_of_head (ends.1 rfl), List.append_nil]
  have hfirst : ∃ c others, run = c :: others ∧ c ≠ '[' ∧ symbolKind? c = none ∧
      isWordStart c = false := by
    cases h with
    | nil => exact absurd rfl nonempty
    | blank hblank _ =>
      refine ⟨_, _, rfl, ?_⟩
      rcases hblank with rfl | rfl | rfl <;> decide
    | lineBreak _ =>
      refine ⟨_, _, rfl, ?_⟩
      decide
  obtain ⟨c, others, rfl, hbracket, hsymbol, hword⟩ := hfirst
  rw [List.cons_append] at hsplit ⊢
  rw [front]
  · rw [hsymbol, hword, hsplit]
    dsimp only
    rw [if_neg Bool.false_ne_true]
    split
    case h_1 after heq =>
      obtain ⟨-, -, -, hreturn⟩ := ends.1 rfl '\r' (by rw [(Prod.mk.inj heq).2]; rfl)
      exact absurd rfl hreturn
    case h_2 heq => cases (Prod.mk.inj heq).1
    case h_3 heq =>
      obtain ⟨rfl, rfl⟩ := Prod.mk.inj heq
      rfl
  · rintro after hc -
    exact hbracket hc
  · exact hbracket

/-- A word behind which it may end is found. -/
theorem front_of_isWord {word rest : List Char} {kind : TokenKind} (h : IsWord word)
    (wordKind : WordKind (String.ofList word) kind) (ends : MayEndBefore kind rest) :
    front (word ++ rest) = .token kind word rest := by
  cases word with
  | nil => exact absurd h id
  | cons first others =>
    have hall : ∀ part ∈ others, isWordPart part = true :=
      fun part hpart => isWordPart_iff.mpr (h.2 part hpart)
    obtain rfl := wordKind.unique (wordKind_ofWord _)
    have hstop := (mayEndBefore_ofWord _).mp ends
    have hnone : rest.takeWhile isWordPart = [] ∧ rest.dropWhile isWordPart = rest := by
      cases rest with
      | nil => exact ⟨rfl, rfl⟩
      | cons c rest =>
        have hc : ¬ isWordPart c = true := fun hpart => hstop c rfl (isWordPart_iff.mp hpart)
        exact ⟨List.takeWhile_cons_of_neg hc, List.dropWhile_cons_of_neg hc⟩
    rw [List.cons_append, front_of_isWordStart (isWordStart_iff.mpr h.1),
      List.takeWhile_append_of_pos hall, List.dropWhile_append_of_pos hall, hnone.1, hnone.2,
      List.append_nil]

/-- What is taken as a word is a word, and it may end there. -/
theorem isLexeme_takeWhile {c : Char} (h : isWordStart c = true) (rest : List Char) :
    IsLexeme (.ofWord (String.ofList (c :: rest.takeWhile isWordPart)))
        (c :: rest.takeWhile isWordPart) ∧
      MayEndBefore (.ofWord (String.ofList (c :: rest.takeWhile isWordPart)))
        (rest.dropWhile isWordPart) := by
  refine ⟨.word ⟨isWordStart_iff.mp h, ?_⟩ (wordKind_ofWord _), (mayEndBefore_ofWord _).mpr ?_⟩
  · intro part hpart
    exact isWordPart_iff.mp (List.mem_takeWhile_imp hpart)
  · intro part hpart hmore
    have hstop : isWordPart part = false := by
      have hhead := List.head?_dropWhile_not isWordPart rest
      rw [Option.mem_def.mp hpart] at hhead
      exact hhead
    rw [isWordPart_iff.mpr hmore] at hstop
    cases hstop

/-- What is found is a lexeme that may end there. -/
theorem isLexeme_of_front {text lexeme rest : List Char} {kind : TokenKind}
    (h : front text = .token kind lexeme rest) : IsLexeme kind lexeme ∧ MayEndBefore kind rest := by
  revert h
  fun_cases front text <;> intro h <;> simp only [Front.token.injEq, reduceCtorEq] at h
  case case2 =>
    obtain ⟨rfl, rfl, rfl⟩ := h
    have hmarker : IsLexeme .listMarker "[]".toList := .symbol rfl rfl
    exact ⟨hmarker, mayEndBefore_symbol rfl rfl _⟩
  case case4 hsymbol =>
    obtain ⟨rfl, rfl, rfl⟩ := h
    obtain ⟨hlexeme, hends⟩ := isLexeme_of_symbolKind? hsymbol
    exact ⟨hlexeme, hends _⟩
  case case5 others _ _ _ hstart =>
    obtain ⟨rfl, rfl, rfl⟩ := h
    exact isLexeme_takeWhile hstart others
  case case8 c others _ _ _ _ space after bare nonempty whole =>
    obtain ⟨rfl, rfl, rfl⟩ := h
    have hrun := isSpaceRun_splitSpace (c :: others)
    have hhead := (head_splitSpace (c :: others)).1
    rw [whole] at hrun hhead
    refine ⟨.space hrun nonempty, fun _ => ?_, fun hword => by cases hword⟩
    intro first hfirst
    obtain ⟨hspace, htab, hfeed⟩ := hhead first hfirst
    refine ⟨hspace, htab, hfeed, ?_⟩
    rintro rfl
    obtain ⟨tail, htail⟩ := List.head?_eq_some_iff.mp hfirst
    exact bare tail htail

/-- A token is found if and only if a text begins with a lexeme that may end there. -/
theorem front_eq_token_iff {text lexeme rest : List Char} {kind : TokenKind} :
    front text = .token kind lexeme rest ↔
      text = lexeme ++ rest ∧ IsLexeme kind lexeme ∧ MayEndBefore kind rest := by
  constructor
  · intro h
    exact ⟨(front_token h).1, isLexeme_of_front h⟩
  · rintro ⟨rfl, hlexeme, hends⟩
    cases hlexeme with
    | space run nonempty => exact front_of_isSpaceRun run nonempty hends
    | word word wordKind => exact front_of_isWord word wordKind hends
    | symbol spelling notWord =>
      rcases symbolKind?_of_symbol? spelling notWord with ⟨rfl, hmarker⟩ | ⟨c, hsingle, hsymbol⟩
      · rw [hmarker]
        rfl
      · rw [hsingle]
        exact front_of_symbolKind? hsymbol

end Lexer

/-! ### The longest lexeme of a class -/

/-- A beginning of a text that is good, and of which every other good beginning is a part. -/
structure IsLongest (Good : List Char → Prop) (front text : List Char) : Prop where
  good : Good front
  begins : front <+: text
  longest : ∀ other, other <+: text → Good other → other <+: front

/-- What is cut off a text: the longest run of white space, the longest word, or a symbol. -/
inductive IsMunch (text : List Char) : TokenKind → List Char → Prop
  | space {run : List Char} (longest : IsLongest IsSpaceRun run text) (nonempty : run ≠ []) :
      IsMunch text .space run
  | word {kind : TokenKind} {word : List Char} (longest : IsLongest IsWord word text)
      (wordKind : WordKind (String.ofList word) kind) : IsMunch text kind word
  | symbol {kind : TokenKind} {symbol : String} (spelling : kind.symbol? = some symbol)
      (notWord : kind.isWord = false) (begins : symbol.toList <+: text) :
      IsMunch text kind symbol.toList

/-- No lexeme is empty. -/
theorem IsLexeme.ne_nil {kind : TokenKind} {lexeme : List Char} (h : IsLexeme kind lexeme) :
    lexeme ≠ [] := by
  cases h with
  | space _ nonempty => exact nonempty
  | word word _ =>
    rintro rfl
    exact word
  | symbol spelling notWord =>
    rcases symbolKind?_of_symbol? spelling notWord with ⟨-, htext⟩ | ⟨c, htext, -⟩
    all_goals
      rw [htext]
      exact List.cons_ne_nil _ _

/-- A run of white space cannot be longer than one behind which no white space stands. -/
theorem isLongest_isSpaceRun {run rest : List Char} (h : IsSpaceRun run)
    (ends : MayEndBefore .space rest) : IsLongest IsSpaceRun run (run ++ rest) := by
  refine ⟨h, List.prefix_append run rest, ?_⟩
  rintro other ⟨others, happend⟩ hother
  have hsplit : (splitSpace (run ++ rest)).1 = run := by
    rw [h.splitSpace_append, splitSpace_of_head (ends.1 rfl)]
    exact List.append_nil run
  rw [← happend, hother.splitSpace_append] at hsplit
  exact ⟨_, hsplit⟩

/-- A word cannot be longer than one behind which no part of a word stands. -/
theorem isLongest_isWord {word rest : List Char} (h : IsWord word)
    (ends : ∀ c ∈ rest.head?, ¬ (IsAlphanumeric c ∨ c = '_')) :
    IsLongest IsWord word (word ++ rest) := by
  refine ⟨h, List.prefix_append word rest, ?_⟩
  intro other hother hword
  rcases List.prefix_or_prefix_of_prefix hother (List.prefix_append word rest) with
    hshorter | ⟨more, rfl⟩
  · exact hshorter
  · -- what the other word has more than this one stands in front of the rest
    cases more with
    | nil => exact ⟨[], by rw [List.append_nil, List.append_nil]⟩
    | cons c more =>
      have hmore : c :: more <+: rest := (List.prefix_append_right_inj word).mp hother
      have hc : rest.head? = some c := by
        obtain ⟨others, rfl⟩ := hmore
        rfl
      cases word with
      | nil => exact absurd h id
      | cons first parts => exact absurd (hword.2 c (by simp)) (ends c hc)

/-- A lexeme behind which it may end is what is cut off. -/
theorem IsLexeme.isMunch {kind : TokenKind} {lexeme rest : List Char} (h : IsLexeme kind lexeme)
    (ends : MayEndBefore kind rest) : IsMunch (lexeme ++ rest) kind lexeme := by
  cases h with
  | space run nonempty => exact .space (isLongest_isSpaceRun run ends) nonempty
  | word word wordKind => exact .word (isLongest_isWord word (ends.2 wordKind.isWord)) wordKind
  | symbol spelling notWord => exact .symbol spelling notWord (List.prefix_append _ rest)

/-! ### Refusals -/

/-- No lexeme stands at a place, for one of three reasons; white space in front of it is skipped if
it leads to a carriage return that stands alone. -/
inductive IsRefusal : LexErrorKind → List Char → List Char → Prop
  | unterminated {rest : List Char} (unterminated : rest.head? ≠ some ']') :
      IsRefusal .unterminatedListMarker [] ('[' :: rest)
  | bareReturn {skipped rest : List Char} (run : IsSpaceRun skipped)
      (bare : rest.head? ≠ some '\n') : IsRefusal .bareCarriageReturn skipped ('\r' :: rest)
  | unexpected {c : Char} {rest : List Char} (none : ¬ StartsLexeme (c :: rest)) (bracket : c ≠ '[')
      (carriage : c ≠ '\r') : IsRefusal (.unexpectedCharacter c) [] (c :: rest)

/-- What a lexeme can begin with. -/
theorem startsLexeme_cases {c : Char} {rest : List Char} (h : StartsLexeme (c :: rest)) :
    isWordStart c = true ∨ symbolKind? c ≠ none ∨ (c = '[' ∧ rest.head? = some ']') ∨
      (splitSpace (c :: rest)).1 ≠ [] := by
  obtain ⟨kind, lexeme, ⟨others, happend⟩, hlexeme⟩ := h
  cases hlexeme with
  | space run nonempty =>
    right; right; right
    rw [← happend, run.splitSpace_append]
    exact List.append_ne_nil_of_left_ne_nil nonempty _
  | word word _ =>
    left
    cases lexeme with
    | nil => exact absurd word id
    | cons first _ =>
      obtain ⟨rfl, -⟩ := List.cons.inj happend
      exact isWordStart_iff.mpr word.1
  | symbol spelling notWord =>
    right
    rcases symbolKind?_of_symbol? spelling notWord with ⟨-, hmarker⟩ | ⟨first, hsingle, hsymbol⟩
    · right; left
      rw [hmarker] at happend
      obtain ⟨rfl, rfl⟩ := List.cons.inj happend
      exact ⟨rfl, rfl⟩
    · left
      rw [hsingle] at happend
      obtain ⟨rfl, -⟩ := List.cons.inj happend
      rw [hsymbol]
      exact Option.some_ne_none kind

theorem IsRefusal.ne_nil {kind : LexErrorKind} {skipped rest : List Char}
    (h : IsRefusal kind skipped rest) : rest ≠ [] := by
  cases h <;> exact List.cons_ne_nil _ _

/-- No lexeme begins where a text is refused. -/
theorem IsRefusal.not_startsLexeme {kind : LexErrorKind} {skipped rest : List Char}
    (h : IsRefusal kind skipped rest) : ¬ StartsLexeme rest := by
  cases h with
  | @unterminated rest unterminated =>
    intro hstarts
    rcases startsLexeme_cases hstarts with hword | hsymbol | ⟨-, hclosed⟩ | hspace
    · exact absurd hword (by decide)
    · exact hsymbol rfl
    · exact unterminated hclosed
    · exact hspace rfl
  | @bareReturn _ rest run bare =>
    intro hstarts
    rcases startsLexeme_cases hstarts with hword | hsymbol | ⟨hbracket, -⟩ | hspace
    · exact absurd hword (by decide)
    · exact hsymbol rfl
    · exact absurd hbracket (by decide)
    · apply hspace
      rw [splitSpace]
      · rfl
      · rintro after - rfl
        exact bare rfl
  | unexpected none bracket carriage => exact none

namespace Lexer

/-- A text is refused at a place where no lexeme stands. -/
theorem front_refused {text skipped rest : List Char} {kind : LexErrorKind}
    (h : front text = .refused kind skipped rest) :
    text = skipped ++ rest ∧ IsRefusal kind skipped rest := by
  revert h
  fun_cases front text <;> intro h <;> simp only [Front.refused.injEq, reduceCtorEq] at h
  case case3 others hmarker =>
    obtain ⟨rfl, rfl, rfl⟩ := h
    refine ⟨rfl, .unterminated ?_⟩
    intro hhead
    obtain ⟨tail, htail⟩ := List.head?_eq_some_iff.mp hhead
    exact hmarker tail htail
  case case6 c others _ _ _ _ space after whole =>
    obtain ⟨rfl, rfl, rfl⟩ := h
    have hrun := isSpaceRun_splitSpace (c :: others)
    have hbreak := (head_splitSpace (c :: others)).2
    have htext := splitSpace_append (c :: others)
    rw [whole] at hrun hbreak htext
    refine ⟨htext.symm, .bareReturn hrun ?_⟩
    intro hhead
    obtain ⟨tail, rfl⟩ := List.head?_eq_some_iff.mp hhead
    exact hbreak tail rfl
  case case7 c others hmarker hbracket hsymbol hstart after bare whole =>
    obtain ⟨rfl, rfl, rfl⟩ := h
    refine ⟨rfl, .unexpected ?_ hbracket ?_⟩
    · intro hstarts
      rcases startsLexeme_cases hstarts with hword | hkind | ⟨hopen, -⟩ | hspace
      · exact hstart hword
      · exact hkind hsymbol
      · exact hbracket hopen
      · exact hspace (congrArg Prod.fst whole)
    · rintro rfl
      have htext := splitSpace_append ('\r' :: others)
      rw [whole] at htext
      exact bare others htext

end Lexer

end GraphSchema

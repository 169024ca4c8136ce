import Mathlib

/-!
# Tokens

The kinds of tokens and the stream that `lex_file` fills.  Texts and numbers are kept apart
from the tokens, in one vector for each type; that the indices of the tokens stay inside of
these vectors is part of the stream.
-/

namespace TinCompiler

/-- `TokenKind`; the kinds below 256 are the characters. -/
inductive TokenKind where
  | ascii (chr : Char)
  | eof | id
  | literalInteger | literalDecimal | literalString | literalChar
  | struct | function | while | continue | break | return | if | else
  | global | const | import | cast | sizeof | true | false | null
deriving DecidableEq, Repr

namespace TokenKind

/-- The kinds that `lex_file` compares an identifier with, in its order. -/
def keywords : List TokenKind :=
  [.struct, .function, .while, .continue, .break, .return, .if, .else, .global, .const, .import,
    .cast, .sizeof, .true, .false, .null]

/-- `NAME_OF_TOKEN` -/
def nameOf : TokenKind → String
  | ascii _ => ""
  | eof => "EOF"
  | id => "id"
  | literalInteger => "lit_int"
  | literalDecimal => "lit_dec"
  | literalString => "lit_str"
  | literalChar => "lit_char"
  | struct => "struct"
  | function => "fun"
  | .while => "while"
  | .continue => "continue"
  | .break => "break"
  | .return => "return"
  | .if => "if"
  | .else => "else"
  | global => "global"
  | const => "const"
  | .import => "import"
  | cast => "cast"
  | sizeof => "sizeof"
  | .true => "true"
  | .false => "false"
  | null => "null"

/-- The tokens of these kinds have a text or a number. -/
def hasPayload : TokenKind → Bool
  | id | literalInteger | literalDecimal | literalString | literalChar => Bool.true
  | _ => Bool.false

theorem hasPayload_ascii (chr : Char) : (ascii chr).hasPayload = Bool.false := rfl

theorem hasPayload_of_mem_keywords {kind : TokenKind} (h : kind ∈ keywords) :
    kind.hasPayload = Bool.false := by
  have hall : ∀ kind ∈ keywords, kind.hasPayload = Bool.false := by decide
  exact hall kind h

/-- The keyword of that name. -/
def keyword (text : String) : Option TokenKind := keywords.find? fun kind => nameOf kind = text

theorem nameOf_of_keyword {text : String} {kind : TokenKind} (h : keyword text = some kind) :
    nameOf kind = text := by
  simpa using List.find?_some h

theorem mem_keywords_of_keyword {text : String} {kind : TokenKind} (h : keyword text = some kind) :
    kind ∈ keywords :=
  List.mem_of_find?_eq_some h

theorem keyword_nameOf {kind : TokenKind} (h : kind ∈ keywords) :
    keyword (nameOf kind) = some kind := by
  have hall : ∀ kind ∈ keywords, keyword (nameOf kind) = some kind := by decide
  exact hall kind h

end TokenKind

/-- One token; its file is that of the stream. -/
structure Token where
  type : TokenKind
  dataIndex : ℕ := 0
  suffixSpace : Bool := false
  suffixNewline : Bool := false
  line : ℕ := 0
  column : ℕ := 0
deriving DecidableEq, Repr

/-- The token has its text or number in vectors of these lengths. -/
def Token.InBounds (token : Token) (strings integers floats : ℕ) : Prop :=
  match token.type with
  | .id | .literalString | .literalChar => token.dataIndex < strings
  | .literalInteger => token.dataIndex < integers
  | .literalDecimal => token.dataIndex < floats
  | _ => True

theorem Token.inBounds_of_plain {token : Token} (hplain : token.type.hasPayload = false)
    (strings integers floats : ℕ) : token.InBounds strings integers floats := by
  unfold Token.InBounds
  split <;> simp_all [TokenKind.hasPayload]

theorem Token.InBounds.mono {token : Token} {strings integers floats strings' integers' floats' : ℕ}
    (h : token.InBounds strings integers floats) (hstrings : strings ≤ strings')
    (hintegers : integers ≤ integers') (hfloats : floats ≤ floats') :
    token.InBounds strings' integers' floats' := by
  unfold Token.InBounds at h ⊢
  split <;> simp_all <;> omega

/-- The flags of the last token when `chr` is read. -/
def Token.suffix (chr : Char) (token : Token) : Token :=
  if chr = '\n' then { token with suffixNewline := true, suffixSpace := false }
  else if chr = ' ' ∧ token.suffixNewline = false then { token with suffixSpace := true }
  else token

@[simp] theorem Token.suffix_type (chr : Char) (token : Token) :
    (token.suffix chr).type = token.type := by
  unfold Token.suffix
  split_ifs <;> rfl

@[simp] theorem Token.suffix_dataIndex (chr : Char) (token : Token) :
    (token.suffix chr).dataIndex = token.dataIndex := by
  unfold Token.suffix
  split_ifs <;> rfl

@[simp] theorem Token.suffix_line (chr : Char) (token : Token) :
    (token.suffix chr).line = token.line := by
  unfold Token.suffix
  split_ifs <;> rfl

@[simp] theorem Token.suffix_column (chr : Char) (token : Token) :
    (token.suffix chr).column = token.column := by
  unfold Token.suffix
  split_ifs <;> rfl

/-- What `getToken` stores for its caller: nothing, `str`, `num` or `dec`. -/
inductive Payload where
  | none
  | str (text : String)
  | num (value : BitVec 32)
  /-- the bits of the float -/
  | dec (bits : BitVec 32)
deriving DecidableEq, Repr

/-- The kind of a token and its text or value. -/
structure Lexeme where
  kind : TokenKind
  payload : Payload := .none
deriving DecidableEq, Repr

/-- The lexeme of an identifier or a keyword. -/
def Lexeme.word (text : String) : Lexeme :=
  match TokenKind.keyword text with
  | some kind => ⟨kind, .none⟩
  | none => ⟨.id, .str text⟩

theorem Lexeme.word_injective : Function.Injective Lexeme.word := by
  intro text text' h
  unfold Lexeme.word at h
  cases hkeyword : TokenKind.keyword text with
  | some kind =>
      rw [hkeyword] at h
      cases hkeyword' : TokenKind.keyword text' with
      | some kind' =>
          rw [hkeyword'] at h
          cases h
          exact (TokenKind.nameOf_of_keyword hkeyword).symm.trans
            (TokenKind.nameOf_of_keyword hkeyword')
      | none => rw [hkeyword'] at h; cases h
  | none =>
      rw [hkeyword] at h
      cases hkeyword' : TokenKind.keyword text' with
      | some kind' => rw [hkeyword'] at h; cases h
      | none => rw [hkeyword'] at h; cases h; rfl

structure TokenStream where
  totalLines : ℕ := 0
  nonBlankLines : ℕ := 0
  processedBytes : ℕ := 0
  tokens : List Token := []
  strings : List String := []
  integers : List (BitVec 32) := []
  floats : List (BitVec 32) := []
  inBounds : ∀ token ∈ tokens, token.InBounds strings.length integers.length floats.length := by
    simp

namespace TokenStream

/-- The text or the number of a token. -/
def payload (stream : TokenStream) (token : Token) : Payload :=
  match token.type with
  | .id | .literalString | .literalChar => .str (stream.strings.getD token.dataIndex "")
  | .literalInteger => .num (stream.integers.getD token.dataIndex 0)
  | .literalDecimal => .dec (stream.floats.getD token.dataIndex 0)
  | _ => .none

/-- The token behind the last one is the end of the file. -/
def getToken (stream : TokenStream) (index : ℕ) : Lexeme :=
  match stream.tokens[index]? with
  | none => ⟨.eof, .none⟩
  | some token => ⟨token.type, stream.payload token⟩

/-- The lexemes with the lines and columns of their tokens. -/
def placed (stream : TokenStream) : List (Lexeme × ℕ × ℕ) :=
  stream.tokens.map fun token => (⟨token.type, stream.payload token⟩, token.line, token.column)

/-- All that `getToken` gives out. -/
def lexemes (stream : TokenStream) : List Lexeme := stream.placed.map Prod.fst

@[simp] theorem length_lexemes (stream : TokenStream) :
    stream.lexemes.length = stream.tokens.length := by
  simp [lexemes, placed]

theorem getToken_eq (stream : TokenStream) (index : ℕ) :
    stream.getToken index = stream.lexemes.getD index ⟨.eof, .none⟩ := by
  unfold getToken lexemes placed
  rw [List.getD_eq_getElem?_getD, List.getElem?_map, List.getElem?_map]
  cases stream.tokens[index]? <;> rfl

/-- A token behind the others, with a text or a number that goes to the end of its vector. -/
def push (stream : TokenStream) (token : Token) (strings : List String)
    (integers floats : List (BitVec 32))
    (h : token.InBounds (stream.strings ++ strings).length (stream.integers ++ integers).length
      (stream.floats ++ floats).length) : TokenStream :=
  { stream with
    tokens := stream.tokens ++ [token]
    strings := stream.strings ++ strings
    integers := stream.integers ++ integers
    floats := stream.floats ++ floats
    inBounds := by
      intro token' hmem
      rcases List.mem_append.mp hmem with hold | hnew
      · exact (stream.inBounds token' hold).mono (by simp) (by simp) (by simp)
      · rwa [List.mem_singleton.mp hnew] }

variable (stream : TokenStream) (line column : ℕ)

/-- `add` is only called for kinds without a text or a number. -/
def add (kind : TokenKind) (hplain : kind.hasPayload = .false) : TokenStream :=
  stream.push { type := kind, line := line, column := column } [] [] []
    (Token.inBounds_of_plain hplain _ _ _)

def addId (text : String) : TokenStream :=
  stream.push { type := .id, dataIndex := stream.strings.length, line := line, column := column }
    [text] [] [] (by simp [Token.InBounds])

def addInt (number : BitVec 32) : TokenStream :=
  stream.push
    { type := .literalInteger, dataIndex := stream.integers.length, line := line, column := column }
    [] [number] [] (by simp [Token.InBounds])

def addFloat (bits : BitVec 32) : TokenStream :=
  stream.push
    { type := .literalDecimal, dataIndex := stream.floats.length, line := line, column := column }
    [] [] [bits] (by simp [Token.InBounds])

def addString (text : String) : TokenStream :=
  stream.push
    { type := .literalString, dataIndex := stream.strings.length, line := line, column := column }
    [text] [] [] (by simp [Token.InBounds])

def addChar (chr : Char) : TokenStream :=
  stream.push
    { type := .literalChar, dataIndex := stream.strings.length, line := line, column := column }
    [String.singleton chr] [] [] (by simp [Token.InBounds])

/-- A keyword or an identifier, whatever the text is. -/
def addWord (text : String) : TokenStream :=
  match h : TokenKind.keyword text with
  | some kind => stream.add line column kind
      (TokenKind.hasPayload_of_mem_keywords (TokenKind.mem_keywords_of_keyword h))
  | none => stream.addId line column text

/-- The update of `tokens.back().flags`. -/
def suffix (chr : Char) : TokenStream :=
  { stream with
    tokens := stream.tokens.dropLast ++ stream.tokens.getLast?.toList.map (Token.suffix chr)
    inBounds := by
      intro token hmem
      rcases List.mem_append.mp hmem with hold | hlast
      · exact stream.inBounds token (List.dropLast_subset _ hold)
      · obtain ⟨last, hmem', rfl⟩ := List.mem_map.mp hlast
        have hinBounds := stream.inBounds last
          (List.mem_of_getLast? (Option.mem_toList.mp hmem'))
        simpa [Token.InBounds] using hinBounds }

/-! ### What the tokens are read as -/

theorem payload_push {token token' : Token} {strings : List String}
    {integers floats : List (BitVec 32)} (h) (hmem : token ∈ stream.tokens) :
    (stream.push token' strings integers floats h).payload token = stream.payload token := by
  have hinBounds := stream.inBounds token hmem
  unfold Token.InBounds at hinBounds
  unfold payload push
  split <;> simp_all [List.getElem?_append_left]

theorem placed_push {token : Token} {strings : List String} {integers floats : List (BitVec 32)} (h) :
    (stream.push token strings integers floats h).placed = stream.placed ++
      [(⟨token.type, (stream.push token strings integers floats h).payload token⟩, token.line,
        token.column)] := by
  unfold placed
  refine (List.map_append ..).trans ?_
  congr 1
  exact List.map_congr_left fun token' hmem => by rw [payload_push stream h hmem]

@[simp] theorem placed_add {kind : TokenKind} (hplain : kind.hasPayload = .false) :
    (stream.add line column kind hplain).placed = stream.placed ++ [(⟨kind, .none⟩, line, column)] := by
  refine (placed_push stream _).trans ?_
  cases kind <;> first | rfl | cases hplain

@[simp] theorem placed_addId (text : String) : (stream.addId line column text).placed =
    stream.placed ++ [(⟨.id, .str text⟩, line, column)] := by
  refine (placed_push stream _).trans ?_
  simp [payload, push]

@[simp] theorem placed_addInt (number : BitVec 32) : (stream.addInt line column number).placed =
    stream.placed ++ [(⟨.literalInteger, .num number⟩, line, column)] := by
  refine (placed_push stream _).trans ?_
  simp [payload, push]

@[simp] theorem placed_addFloat (bits : BitVec 32) : (stream.addFloat line column bits).placed =
    stream.placed ++ [(⟨.literalDecimal, .dec bits⟩, line, column)] := by
  refine (placed_push stream _).trans ?_
  simp [payload, push]

@[simp] theorem placed_addString (text : String) : (stream.addString line column text).placed =
    stream.placed ++ [(⟨.literalString, .str text⟩, line, column)] := by
  refine (placed_push stream _).trans ?_
  simp [payload, push]

@[simp] theorem placed_addChar (chr : Char) : (stream.addChar line column chr).placed =
    stream.placed ++ [(⟨.literalChar, .str (String.singleton chr)⟩, line, column)] := by
  refine (placed_push stream _).trans ?_
  simp [payload, push]

@[simp] theorem placed_addWord (text : String) : (stream.addWord line column text).placed =
    stream.placed ++ [(Lexeme.word text, line, column)] := by
  unfold addWord Lexeme.word
  split
  · next kind h => rw [placed_add, h]
  · next h => rw [placed_addId, h]

@[simp] theorem placed_suffix (chr : Char) : (stream.suffix chr).placed = stream.placed := by
  have htokens : stream.tokens.dropLast ++ stream.tokens.getLast?.toList = stream.tokens := by
    rcases List.eq_nil_or_concat stream.tokens with h | ⟨init, last, h⟩ <;> simp [h]
  unfold placed
  conv_rhs => rw [← htokens]
  unfold suffix
  simp [payload, Function.comp_def]

end TokenStream

end TinCompiler

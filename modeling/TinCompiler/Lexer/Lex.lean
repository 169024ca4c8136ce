import TinCompiler.Lexer.Tokens
import Mathlib.Data.Int.Notation

/-!
# The lexer

`lex_file` is one loop over the characters of the file with seven flags.  A `Char` stands
for one byte of the file.  `(float)atof(…)` is a parameter.
-/

namespace TinCompiler

/-! ## Characters and numbers -/

def doubleQuote : Char := Char.ofNat 34

def apostrophe : Char := Char.ofNat 39

def backslash : Char := Char.ofNat 92

def isLetter (chr : Char) : Bool :=
  ('A'.toNat ≤ chr.toNat && chr.toNat ≤ 'Z'.toNat) ||
    ('a'.toNat ≤ chr.toNat && chr.toNat ≤ 'z'.toNat) || chr = '_'

def isDigit (chr : Char) : Bool := '0'.toNat ≤ chr.toNat && chr.toNat ≤ '9'.toNat

/-- The variable `delim`. -/
def isDelim (chr : Char) : Bool := chr = ' ' || chr = '\n' || chr = '\r' || chr = '\t'

/-- `isspace` of the C library -/
def isSpace (chr : Char) : Bool := chr = ' ' || (9 ≤ chr.toNat && chr.toNat ≤ 13)

/-- The value of decimal digits. -/
def digitsValue (digits : List Char) : ℕ :=
  digits.foldl (fun value digit => 10 * value + (digit.toNat - 48)) 0

/-- The longest prefix of digits. -/
def leadingValue (text : List Char) : ℕ := digitsValue (text.takeWhile isDigit)

/-- `atoi`: a `long` that is clamped to its range, cut to an `int`. -/
def atoi (text : List Char) : BitVec 32 :=
  match text.dropWhile isSpace with
  | '-' :: digits => BitVec.ofInt 32 (max (-(leadingValue digits : ℤ)) (-2 ^ 63))
  | '+' :: digits => BitVec.ofInt 32 (min (leadingValue digits : ℤ) (2 ^ 63 - 1))
  | digits => BitVec.ofInt 32 (min (leadingValue digits : ℤ) (2 ^ 63 - 1))

/-! ## The state of the loop -/

/-- What the macro `REPORT` passes to the reporter. -/
structure LexError where
  line : ℕ
  column : ℕ
  message : String
deriving DecidableEq, Repr

/-- The variables of `lex_file` that live across the rounds of its loop. -/
structure LexState where
  stream : TokenStream := {}
  isId : Bool := false
  isNum : Bool := false
  isDecimal : Bool := false
  isStr : Bool := false
  isChar : Bool := false
  isComment : Bool := false
  isMulticomment : Bool := false
  startLn : ℕ := 0
  startCol : ℕ := 0
  line : ℕ := 1
  column : ℕ := 1
  dataStart : ℕ := 0
  stringContent : List Char := []
  onlyWhitespace : Bool := true
  index : ℕ := 0

/-- The variables of one round. -/
structure Round where
  chr : Char
  nextChr : Char
  ending : Bool
  ln : ℕ
  col : ℕ

namespace LexState

variable (atof : String → BitVec 32) (text : List Char) (r : Round) (s : LexState)

/-- The text from `data_start` to `data_end`. -/
def slice : List Char :=
  let dataEnd := s.index - 1 - s.dataStart
  (text.drop s.dataStart).take (if r.ending then dataEnd + 1 else dataEnd)

/-- The beginning of a round: the position, the number of lines and the suffix flags. -/
def enter : LexState :=
  let s := { s with
    index := s.index + 1
    column := if r.chr = '\n' then 1 else if r.chr = '\t' then s.column + 4 else s.column + 1
    line := if r.chr = '\n' then s.line + 1 else s.line }
  let s :=
    if !isDelim r.chr && s.onlyWhitespace then
      { s with
        onlyWhitespace := false
        stream := { s.stream with nonBlankLines := s.stream.nonBlankLines + 1 } }
    else s
  let s := if r.chr = '\n' then { s with onlyWhitespace := true } else s
  { s with stream := s.stream.suffix r.chr }

/-- The end of a round: whitespace or a symbol. -/
def lexSymbol : LexState :=
  if isDelim r.chr then { s with stream := s.stream.suffix r.chr }
  else
    { s with
      startCol := r.col
      startLn := r.ln
      stream := s.stream.add r.ln r.col (.ascii r.chr) (TokenKind.hasPayload_ascii r.chr) }

def flushId : LexState :=
  if s.isId then
    let s := { s with
      stream := s.stream.addWord s.startLn s.startCol (String.ofList (s.slice text r))
      isId := false }
    if r.ending then s else s.lexSymbol r
  else s.lexSymbol r

def flushNum : LexState :=
  if s.isNum then
    let s := { s with
      stream := s.stream.addInt s.startLn s.startCol (atoi (s.slice text r))
      isNum := false }
    if r.ending then s else s.flushId text r
  else s.flushId text r

def flushDecimal : LexState :=
  if s.isDecimal then
    let s := { s with
      stream := s.stream.addFloat s.startLn s.startCol (atof (String.ofList (s.slice text r)))
      isDecimal := false }
    if r.ending then s else s.flushNum text r
  else s.flushNum text r

/-- A token begins at the character of the round. -/
def start : LexState :=
  { s with dataStart := s.index - 1, startCol := r.col, startLn := r.ln }

def lexDot : Except LexError LexState :=
  if r.chr = '.' ∧ (s.isNum ∨ isDigit r.nextChr) then
    if s.isDecimal then
      .error ⟨r.ln, r.col, "Decimals can only have one dot to separate decimals and integers."⟩
    else
      let s := if s.isNum then s else s.start r
      let s := { s with isDecimal := true, isNum := false }
      .ok (if r.ending then s.flushDecimal atof text r else s)
  else .ok (s.flushDecimal atof text r)

def lexDigit : Except LexError LexState :=
  if isDigit r.chr then
    let s := if !s.isId && !s.isNum && !s.isDecimal then { s.start r with isNum := true } else s
    if r.ending then s.lexDot atof text r else .ok s
  else s.lexDot atof text r

def lexLetter : Except LexError LexState :=
  if isLetter r.chr then
    let s := if s.isId then s else { s.start r with isId := true }
    if s.isNum || s.isDecimal then
      .error ⟨r.ln, r.col,
        "Digits and letters cannot be combined if the first character is a digit."⟩
    else if r.ending then s.lexDigit atof text r
    else .ok s
  else s.lexDigit atof text r

/-- A character of a string or of a character literal. -/
def lexContent : LexState :=
  if r.chr = backslash ∧ r.nextChr = backslash then
    { s with index := s.index + 1, stringContent := s.stringContent ++ [backslash] }
  else if r.chr = backslash ∧ r.nextChr = 'n' then
    { s with index := s.index + 1, stringContent := s.stringContent ++ ['\n'] }
  else { s with stringContent := s.stringContent ++ [r.chr] }

/-- The beginning or the end of a string. -/
def lexQuote : LexState :=
  if s.isStr then
    { s with
      stream := s.stream.addString s.startLn s.startCol (String.ofList s.stringContent)
      stringContent := []
      isStr := false }
  else { s with isStr := true, dataStart := s.index, startCol := r.col, startLn := r.ln }

/-- The beginning or the end of a character literal; the first character of an empty string
is the terminating zero. -/
def lexApostrophe : LexState :=
  if s.isChar then
    { s with
      stream := s.stream.addChar s.startLn s.startCol (s.stringContent.headD (Char.ofNat 0))
      stringContent := []
      isChar := false }
  else { s with isChar := true, dataStart := s.index, startCol := r.col, startLn := r.ln }

/-- A round behind `enter`. -/
def lexRound : Except LexError LexState :=
  if s.isComment then .ok (if r.chr = '\n' then { s with isComment := false } else s)
  else if s.isMulticomment then
    .ok (if r.chr = '*' ∧ r.nextChr = '/' then
      { s with index := s.index + 1, isMulticomment := false } else s)
  else if r.chr = '/' ∧ r.nextChr = '/' then
    .ok { s with index := s.index + 1, isComment := true }
  else if r.chr = '/' ∧ r.nextChr = '*' then
    .ok { s with index := s.index + 1, isMulticomment := true }
  else if r.chr = doubleQuote then .ok (s.lexQuote r)
  else if r.chr = apostrophe then .ok (s.lexApostrophe r)
  else if s.isStr ∨ s.isChar then .ok (s.lexContent r)
  else s.lexLetter atof text r

/-- The variables of the round that is about to begin. -/
def round : Round where
  chr := text.getD s.index (Char.ofNat 0)
  nextChr := text.getD (s.index + 1) (Char.ofNat 0)
  ending := s.index + 1 = text.length
  ln := s.line
  col := s.column

/-- One round of the loop. -/
def lexChar : Except LexError LexState := (s.enter (s.round text)).lexRound atof text (s.round text)

end LexState

/-- At most so many rounds of the loop. -/
def lexLoop (atof : String → BitVec 32) (text : List Char) : ℕ → LexState → Except LexError LexState
  | 0, s => .ok s
  | n + 1, s =>
      if s.index < text.length then (s.lexChar atof text).bind (lexLoop atof text n) else .ok s

/-- `lex_file` on the text of the file; each round takes a character at least. -/
def lexFile (atof : String → BitVec 32) (text : List Char) : Except LexError TokenStream :=
  (lexLoop atof text text.length { stream := { processedBytes := text.length } }).map fun s =>
    { s.stream with totalLines := s.line }

end TinCompiler

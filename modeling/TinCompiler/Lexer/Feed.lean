import TinCompiler.Lexer.Written

/-!
# Tokens printed again

`feed` prints a range of the tokens of a stream: the text of each one, and between two of them
the line breaks or the blanks that their lines and columns tell of.  In literals a line break is
escaped and nothing else is.

A token is `Legible` if its text alone is read as this token, and two neighbours are `Glued` if
without a blank between them they are read as something else.  A range of legible tokens of which
no touching ones are glued is read as these tokens (`lexemesOf_feedTokens`).
-/

namespace TinCompiler

/-! ## `feed` -/

/-- `std::to_string` of an `int` -/
def toDecimal (value : BitVec 32) : List Char :=
  if value.toInt < 0 then '-' :: Nat.toDigits 10 value.toInt.natAbs
  else Nat.toDigits 10 value.toInt.natAbs

/-- A character of a string or of a character literal. -/
def feedChar (chr : Char) : List Char := if chr = '\n' then [backslash, 'n'] else [chr]

def feedContent (content : List Char) : List Char := content.flatMap feedChar

/-- What is printed for a token; `ftoa` is `std::to_string` of a `float`. -/
def Lexeme.print (ftoa : BitVec 32 → List Char) (x : Lexeme) : List Char :=
  match x.kind, x.payload with
  | .ascii chr, _ => [chr]
  | .id, .str text => text.toList
  | .literalString, .str text => doubleQuote :: (feedContent text.toList ++ [doubleQuote])
  | .literalChar, .str text => apostrophe :: (feedContent text.toList ++ [apostrophe])
  | .literalInteger, .num value => toDecimal value
  | .literalDecimal, .dec bits => ftoa bits
  | kind, _ => kind.nameOf.toList

/-- A token with its line and column. -/
abbrev Placed := Lexeme × ℕ × ℕ

section Feed

variable (ftoa : BitVec 32 → List Char)

/-- What is printed between two tokens: line breaks, or on one line as many blanks as the columns
leave behind the printed text. -/
def layout (token next : Placed) : List Char :=
  List.replicate (next.2.1 - token.2.1) '\n' ++
    if next.2.1 = token.2.1 then
      List.replicate (next.2.2 - token.2.2 - (token.1.print ftoa).length) ' '
    else []

/-- The loop of `feed`. -/
def feedTokens : List Placed → List Char
  | [] => []
  | token :: rest =>
      token.1.print ftoa ++ (rest.head?.elim [] (layout ftoa token) ++ feedTokens rest)

namespace TokenStream

def feed (stream : TokenStream) (start stop : ℕ) : List Char :=
  feedTokens ftoa ((stream.placed.drop start).take (stop - start))

/-- The line of a token; the one behind the last token has none. -/
def lineOf (stream : TokenStream) (index : ℕ) : ℕ := (stream.placed.map fun token => token.2.1).getD index 0

/-- The first loop of `getline`: back to the first token on the line. -/
def lineStart (stream : TokenStream) (line : ℕ) : ℕ → ℕ
  | 0 => 0
  | start + 1 => if stream.lineOf start = line then lineStart stream line start else start + 1

/-- The second loop of `getline`: on to the last token on the line, with `n` tokens behind `stop`. -/
def lineEnd (stream : TokenStream) (line : ℕ) : ℕ → ℕ → ℕ
  | 0, stop => stop
  | n + 1, stop => if stream.lineOf (stop + 1) = line then lineEnd stream line n (stop + 1) else stop

def getline (stream : TokenStream) (index : ℕ) : List Char :=
  let line := stream.lineOf index
  let start := stream.lineStart line index
  let stop := stream.lineEnd line (stream.tokens.length - (index + 1)) index + 1
  stream.feed ftoa start stop

end TokenStream

end Feed

/-! ## Legible tokens -/

/-- There is no end of a comment in the text. -/
def Unclosed : List Char → Prop
  | [] => True
  | chr :: rest => ¬ (chr = '*' ∧ rest.head? = some '/') ∧ Unclosed rest

/-- Letters, digits and complete comments. -/
inductive WordText : List Char → Prop
  | nil : WordText []
  | char {chr : Char} {rest : List Char} (hword : isLetter chr = true ∨ isDigit chr = true)
      (hrest : WordText rest) : WordText (chr :: rest)
  | line {comment rest : List Char} (hcomment : '\n' ∉ comment) (hrest : WordText rest) :
      WordText ('/' :: '/' :: (comment ++ '\n' :: rest))
  | block {comment rest : List Char} (hcomment : Unclosed comment) (hrest : WordText rest) :
      WordText ('/' :: '*' :: (comment ++ '*' :: '/' :: rest))

/-- A character that is a token by itself. -/
structure IsSign (chr : Char) : Prop where
  letter : isLetter chr = false
  digit : isDigit chr = false
  delim : isDelim chr = false
  quote : chr ≠ doubleQuote
  apostrophe : chr ≠ TinCompiler.apostrophe

/-- Behind `chr` in a string, `rest` does not change how `chr` is read. -/
structure KeptChar (chr : Char) (rest : List Char) : Prop where
  quote : chr ≠ doubleQuote
  apostrophe : chr ≠ TinCompiler.apostrophe
  comment : chr = '/' → rest.head? ≠ some '/' ∧ rest.head? ≠ some '*'
  escape : chr = backslash → rest.head? ≠ some backslash ∧ rest.head? ≠ some 'n' ∧
    rest.head? ≠ some '\n'

def KeptContent : List Char → Prop
  | [] => True
  | chr :: rest => KeptChar chr rest ∧ KeptContent rest

/-- The printed token is read as this token. -/
inductive Lexeme.Legible : Lexeme → Prop
  | symbol {chr : Char} (hsign : IsSign chr) : Legible ⟨.ascii chr, .none⟩
  | keyword {kind : TokenKind} (hkeyword : kind ∈ TokenKind.keywords) : Legible ⟨kind, .none⟩
  | id {chr : Char} {rest : List Char} (hletter : isLetter chr = true) (hrest : WordText rest)
      (hkeyword : TokenKind.keyword (String.ofList (chr :: rest)) = none) :
      Legible ⟨.id, .str (String.ofList (chr :: rest))⟩
  | integer {value : BitVec 32} (hvalue : 0 ≤ value.toInt) :
      Legible ⟨.literalInteger, .num value⟩
  | string {content : List Char} (hcontent : KeptContent content) :
      Legible ⟨.literalString, .str (String.ofList content)⟩
  | char {chr : Char} (hquote : chr ≠ doubleQuote) (hapostrophe : chr ≠ apostrophe) :
      Legible ⟨.literalChar, .str (String.singleton chr)⟩

/-! ## Neighbours -/

namespace TokenKind

def isWord (kind : TokenKind) : Bool := kind = .id || kind ∈ keywords

/-- A word or a number: it ends where something else begins. -/
def isOpen (kind : TokenKind) : Bool := kind.isWord || kind = .literalInteger

def isQuoted (kind : TokenKind) : Bool := kind = .literalString || kind = .literalChar

/-- Two tokens that are read as something else when they are next to each other. -/
def Glued (kind kind' : TokenKind) : Prop :=
  kind.isOpen ∧ (kind'.isOpen ∨ kind'.isQuoted) ∨
    kind = .ascii '/' ∧ (kind' = .ascii '/' ∨ kind' = .ascii '*') ∨
    kind = .ascii '.' ∧ kind' = .literalInteger ∨
    kind = .literalInteger ∧ kind' = .ascii '.'

end TokenKind

/-- There is no room for a line break or a blank between the tokens. -/
def Touching (ftoa : BitVec 32 → List Char) (token next : Placed) : Prop :=
  next.2.1 ≤ token.2.1 ∧
    (next.2.1 = token.2.1 → next.2.2 ≤ token.2.2 + (token.1.print ftoa).length)

/-- What is printed between the tokens keeps them apart, or nothing has to. -/
def Parted (ftoa : BitVec 32 → List Char) (token next : Placed) : Prop :=
  Touching ftoa token next → ¬ TokenKind.Glued token.1.kind next.1.kind

theorem layout_eq_nil_iff {ftoa : BitVec 32 → List Char} {token next : Placed} :
    layout ftoa token next = [] ↔ Touching ftoa token next := by
  unfold layout Touching
  split
  · next hline => simp [hline]; omega
  · next hline => simp [hline]; omega

theorem isDelim_of_mem_layout {ftoa : BitVec 32 → List Char} {token next : Placed} {chr : Char}
    (hmem : chr ∈ layout ftoa token next) : isDelim chr = true := by
  unfold layout at hmem
  rcases List.mem_append.mp hmem with h | h
  · rw [List.eq_of_mem_replicate h]
    rfl
  · split at h
    · rw [List.eq_of_mem_replicate h]
      rfl
    · cases h

/-! ## One token -/

namespace Scan

variable {atof : String → BitVec 32} {chr next : Char} {lexemes : List Lexeme} {after : List Char}

/-- A comment inside of an identifier. -/
def inLine (lexemes : List Lexeme) (span : List Char) : Scan :=
  { inWord lexemes span with isComment := true }

def inBlock (lexemes : List Lexeme) (span : List Char) : Scan :=
  { inWord lexemes span with isMulticomment := true }

theorem feed_openLine (span : List Char) : (inWord lexemes span).feed atof after ['/', '/'] =
    some (inLine lexemes (span ++ ['/'] ++ ['/'])) := rfl

theorem feed_openBlock (span : List Char) : (inWord lexemes span).feed atof after ['/', '*'] =
    some (inBlock lexemes (span ++ ['/'] ++ ['*'])) := rfl

theorem feed_closeBlock (span : List Char) : (inBlock lexemes span).feed atof after ['*', '/'] =
    some (inWord lexemes (span ++ ['*'] ++ ['/'])) := rfl

theorem step_inLine (hnewline : chr ≠ '\n') (span : List Char) :
    (inLine lexemes span).step atof chr after = some (inLine lexemes (span ++ [chr])) := by
  have hround : ((inLine lexemes span).enter chr).lexRound atof chr
      (after.headD (Char.ofNat 0)) after.isEmpty = some (inLine lexemes (span ++ [chr])) := by
    have hcomment : ((inLine lexemes span).enter chr).isComment = true := rfl
    unfold lexRound
    rw [if_pos hcomment, if_neg hnewline]
    rfl
  exact @step_of_round atof (inLine lexemes span) _ chr after rfl hround

theorem step_inBlock (hclose : ¬ (chr = '*' ∧ after.headD (Char.ofNat 0) = '/'))
    (span : List Char) :
    (inBlock lexemes span).step atof chr after = some (inBlock lexemes (span ++ [chr])) := by
  have hround : ((inBlock lexemes span).enter chr).lexRound atof chr
      (after.headD (Char.ofNat 0)) after.isEmpty = some (inBlock lexemes (span ++ [chr])) := by
    have hcomment : ((inBlock lexemes span).enter chr).isMulticomment = true := rfl
    unfold lexRound
    rw [if_neg (by simp [enter, inBlock, inWord]), if_pos hcomment, if_neg hclose]
    rfl
  exact @step_of_round atof (inBlock lexemes span) _ chr after rfl hround

theorem feed_inLine : ∀ (comment span : List Char), '\n' ∉ comment →
    (inLine lexemes span).feed atof after comment = some (inLine lexemes (span ++ comment))
  | [], span, _ => by rw [List.append_nil]; rfl
  | chr :: comment, span, hcomment => by
      have hnewline : chr ≠ '\n' := fun h => hcomment (h ▸ List.mem_cons_self)
      rw [feed, step_inLine hnewline, Option.bind_some,
        feed_inLine comment _ fun h => hcomment (List.mem_cons_of_mem _ h), List.append_assoc]
      rfl

theorem feed_inBlock : ∀ (comment span : List Char), Unclosed comment →
    (inBlock lexemes span).feed atof ('*' :: after) comment =
      some (inBlock lexemes (span ++ comment))
  | [], span, _ => by rw [List.append_nil]; rfl
  | chr :: comment, span, hcomment => by
      have hclose : ¬ (chr = '*' ∧ (comment ++ '*' :: after).headD (Char.ofNat 0) = '/') := by
        rintro ⟨hchr, hnext⟩
        cases comment with
        | nil =>
            have hstar : '*' = '/' := hnext
            exact absurd hstar (by decide)
        | cons chr' comment => exact hcomment.1 ⟨hchr, congrArg some hnext⟩
      rw [feed, step_inBlock hclose, Option.bind_some, feed_inBlock comment _ hcomment.2,
        List.append_assoc]
      rfl

/-- The rest of an identifier, with its comments. -/
theorem feed_wordText {text : List Char} (h : WordText text) : ∀ span : List Char,
    (inWord lexemes span).feed atof (next :: after) text = some (inWord lexemes (span ++ text)) := by
  induction h with
  | nil => exact fun span => by rw [List.append_nil]; rfl
  | @char chr rest hword hrest ih =>
      intro span
      obtain ⟨next', after', hafter⟩ := List.exists_cons_of_ne_nil
        (List.append_ne_nil_of_right_ne_nil rest (List.cons_ne_nil next after))
      rw [feed, hafter, step_word hword, Option.bind_some, ih, List.append_assoc]
      rfl
  | @line comment rest hcomment hrest ih =>
      intro span
      have htext : '/' :: '/' :: (comment ++ '\n' :: rest) =
          ['/', '/'] ++ (comment ++ (['\n'] ++ rest)) := rfl
      have hclose : (inLine lexemes (span ++ ['/'] ++ ['/'] ++ comment)).feed atof
          (rest ++ next :: after) ['\n'] =
            some (inWord lexemes (span ++ ['/'] ++ ['/'] ++ comment ++ ['\n'])) := rfl
      rw [htext, feed_append_of (feed_openLine span) (feed_append_of
        (feed_inLine comment _ hcomment) (feed_append_of hclose (ih _)))]
      simp
  | @block comment rest hcomment hrest ih =>
      intro span
      have htext : '/' :: '*' :: (comment ++ '*' :: '/' :: rest) =
          ['/', '*'] ++ (comment ++ (['*', '/'] ++ rest)) := rfl
      rw [htext, feed_append_of (feed_openBlock span) (feed_append_of
        (feed_inBlock comment _ hcomment) (feed_append_of (feed_closeBlock _) (ih _)))]
      simp

/-- The first printed character of a content with a quote behind it. -/
theorem head_feedContent (content after : List Char) :
    (feedContent content ++ doubleQuote :: after).headD (Char.ofNat 0) =
      content.head?.elim doubleQuote fun chr => if chr = '\n' then backslash else chr := by
  cases content with
  | nil => rfl
  | cons chr content =>
      unfold feedContent feedChar
      rw [List.flatMap_cons, List.head?_cons, Option.elim_some]
      split <;> rfl

/-- A character of a string that is read as itself. -/
theorem step_kept (content : List Char) (hquote : chr ≠ doubleQuote)
    (hapostrophe : chr ≠ apostrophe) (hslash : chr = '/' →
      after.headD (Char.ofNat 0) ≠ '/' ∧ after.headD (Char.ofNat 0) ≠ '*')
    (hbackslash : chr = backslash →
      after.headD (Char.ofNat 0) ≠ backslash ∧ after.headD (Char.ofNat 0) ≠ 'n') :
    (inString lexemes content).step atof chr after = some (inString lexemes (content ++ [chr])) := by
  have hround := @lexRound_content atof ((inString lexemes content).enter chr) chr
    (after.headD (Char.ofNat 0)) after.isEmpty rfl rfl rfl hquote hapostrophe
    fun h => h.2.elim (hslash h.1).1 (hslash h.1).2
  have hkept : ((inString lexemes content).enter chr).lexContent chr (after.headD (Char.ofNat 0)) =
      { (inString lexemes content).enter chr with content := content ++ [chr] } := by
    unfold lexContent
    rw [if_neg fun h => (hbackslash h.1).1 h.2, if_neg fun h => (hbackslash h.1).2 h.2]
    rfl
  rw [hkept] at hround
  exact step_of_round rfl hround

/-- A printed character of a string is read as this character. -/
theorem feed_feedChar {rest : List Char} (hkept : KeptChar chr rest) (content : List Char) :
    (inString lexemes content).feed atof (feedContent rest ++ doubleQuote :: after) (feedChar chr) =
      some (inString lexemes (content ++ [chr])) := by
  have hhead := head_feedContent rest after
  unfold feedChar
  split
  · next hnewline =>
      subst hnewline
      rfl
  · next hnewline =>
      refine (congrArg (Option.bind · some) (step_kept content hkept.quote
        hkept.apostrophe (fun hslash => ?_) fun hbackslash => ?_)).trans rfl
      · rw [List.nil_append, hhead]
        obtain ⟨hline, hblock⟩ := hkept.comment hslash
        cases rest with
        | nil => exact ⟨by decide, by decide⟩
        | cons chr' rest =>
            rw [List.head?_cons, Option.elim_some]
            rw [List.head?_cons, Ne, Option.some.injEq] at hline hblock
            split
            · exact ⟨by decide, by decide⟩
            · exact ⟨hline, hblock⟩
      · rw [List.nil_append, hhead]
        obtain ⟨hagain, hn, hbreak⟩ := hkept.escape hbackslash
        cases rest with
        | nil => exact ⟨by decide, by decide⟩
        | cons chr' rest =>
            rw [List.head?_cons, Option.elim_some]
            rw [List.head?_cons, Ne, Option.some.injEq] at hagain hn hbreak
            rw [if_neg hbreak]
            exact ⟨hagain, hn⟩

theorem feedContent_cons (chr : Char) (rest : List Char) :
    feedContent (chr :: rest) = feedChar chr ++ feedContent rest := List.flatMap_cons

/-- The printed content is read as the content. -/
theorem feed_feedContent : ∀ (rest content : List Char), KeptContent rest →
    (inString lexemes content).feed atof (doubleQuote :: after) (feedContent rest) =
      some (inString lexemes (content ++ rest))
  | [], content, _ => by rw [List.append_nil]; rfl
  | chr :: rest, content, hkept => by
      rw [feedContent_cons, feed_append_of (feed_feedChar hkept.1 content)
        (feed_feedContent rest (content ++ [chr]) hkept.2), List.append_assoc]
      rfl

/-- A printed string. -/
theorem feed_printedString {content : List Char} (hkept : KeptContent content) :
    (clean lexemes).feed atof after (doubleQuote :: (feedContent content ++ [doubleQuote])) =
      some (clean (lexemes ++ [⟨.literalString, .str (String.ofList content)⟩])) := by
  have hopen : (clean lexemes).feed atof (feedContent content ++ [doubleQuote] ++ after)
      [doubleQuote] = some (inString lexemes []) := rfl
  have hclose : (inString lexemes content).feed atof after [doubleQuote] =
      some (clean (lexemes ++ [⟨.literalString, .str (String.ofList content)⟩])) := rfl
  have htext : doubleQuote :: (feedContent content ++ [doubleQuote]) =
      [doubleQuote] ++ (feedContent content ++ [doubleQuote]) := rfl
  rw [htext]
  exact feed_append_of hopen (feed_append_of (feed_feedContent content [] hkept) hclose)

/-- A printed character literal. -/
theorem feed_printedChar (hquote : chr ≠ doubleQuote) (hapostrophe : chr ≠ apostrophe) :
    (clean lexemes).feed atof after (apostrophe :: (feedContent [chr] ++ [apostrophe])) =
      some (clean (lexemes ++ [⟨.literalChar, .str (String.singleton chr)⟩])) := by
  by_cases hnewline : chr = '\n'
  · subst hnewline
    rfl
  · let opened : Scan := { lexemes := lexemes, isChar := true }
    have htext : feedContent [chr] = [chr] := by simp [feedContent, feedChar, hnewline]
    have hround : (opened.enter chr).lexRound atof chr apostrophe false =
        some { opened.enter chr with content := [chr] } := by
      unfold lexRound lexContent
      rw [if_neg (by simp [opened, enter]), if_neg (by simp [opened, enter]),
        if_neg fun h => absurd h.2 (by decide), if_neg fun h => absurd h.2 (by decide),
        if_neg hquote, if_neg hapostrophe, if_pos (.inr rfl),
        if_neg fun h => absurd h.2 (by decide), if_neg fun h => absurd h.2 (by decide)]
      rfl
    have hkept : opened.step atof chr (apostrophe :: after) =
        some { opened with content := [chr] } :=
      @step_of_round atof opened _ chr (apostrophe :: after) rfl hround
    rw [htext]
    calc (clean lexemes).feed atof after [apostrophe, chr, apostrophe]
        = (opened.step atof chr (apostrophe :: after)).bind (feed atof after [apostrophe]) := rfl
      _ = (({ opened with content := [chr] } : Scan).step atof apostrophe after).bind some := by
          rw [hkept]
          rfl
      _ = some (clean (lexemes ++ [⟨.literalChar, .str (String.singleton chr)⟩])) := rfl

end Scan

/-- The printed digits of an integer that is not negative. -/
theorem isInteger_toDecimal {value : BitVec 32} (hvalue : 0 ≤ value.toInt) :
    IsInteger (toDecimal value) ∧ BitVec.ofNat 32 (digitsValue (toDecimal value)) = value := by
  have hdigits : toDecimal value = Nat.toDigits 10 value.toInt.natAbs := by
    rw [toDecimal, if_neg (by omega)]
  have hread : digitsValue (toDecimal value) = value.toInt.natAbs := by
    rw [hdigits]
    exact Nat.ofDigitChars_ten_toDigits
  have hnat : value.toInt.natAbs = value.toNat := by
    have := BitVec.toInt_eq_toNat_cond value
    omega
  refine ⟨⟨?_, fun chr hmem => ?_, ?_⟩, ?_⟩
  · rw [hdigits]
    exact Nat.toDigits_ne_nil
  · rw [hdigits] at hmem
    have hdigit := Nat.isDigit_of_mem_toDigits (by decide) (by decide) hmem
    simpa [isDigit, Char.isDigit, UInt32.le_iff_toNat_le] using hdigit
  · rw [hread]
    have : value.toInt < 2 ^ 31 := BitVec.toInt_lt
    omega
  · rw [hread, hnat]
    simp

namespace TokenKind

theorem isWord_of_mem_keywords {kind : TokenKind} (h : kind ∈ keywords) : kind.isWord = .true := by
  simp [isWord, h]

theorem not_isWord_ascii (chr : Char) : (ascii chr).isWord = .false := by
  simp [isWord, keywords]

theorem isWord_word (text : String) : (Lexeme.word text).kind.isWord = .true := by
  unfold Lexeme.word
  split
  · next kind hkeyword => exact isWord_of_mem_keywords (mem_keywords_of_keyword hkeyword)
  · rfl

end TokenKind

/-! ## All tokens of a range -/

namespace Lexeme

open Scan

variable {ftoa : BitVec 32 → List Char} {atof : String → BitVec 32} {x y : Lexeme}
  {chr next : Char} {after : List Char}

theorem print_keyword {kind : TokenKind} (h : kind ∈ TokenKind.keywords) :
    print ftoa ⟨kind, .none⟩ = kind.nameOf.toList := by
  cases kind <;> first | rfl | simp [TokenKind.keywords] at h

/-- Where the scan is behind the printed token: a word or a number is still pending. -/
def behind (ftoa : BitVec 32 → List Char) (lexemes : List Lexeme) (x : Lexeme) : Scan :=
  if x.kind.isWord then inWord lexemes (x.print ftoa)
  else if x.kind = .literalInteger then inInteger lexemes (x.print ftoa)
  else clean (lexemes ++ [x])

/-- The character behind the token does not belong to it. -/
structure Ends (x : Lexeme) (next : Char) : Prop where
  slash : x.kind = .ascii '/' → next ≠ '/' ∧ next ≠ '*'
  dot : x.kind = .ascii '.' → isDigit next = false

theorem behind_word (lexemes : List Lexeme) (h : x.kind.isWord = true) :
    x.behind ftoa lexemes = inWord lexemes (x.print ftoa) := if_pos h

theorem behind_integer (lexemes : List Lexeme) (h : x.kind = .literalInteger) :
    x.behind ftoa lexemes = inInteger lexemes (x.print ftoa) := by
  rw [behind, h]
  rfl

theorem behind_closed (lexemes : List Lexeme) (h : x.kind.isOpen = false) :
    x.behind ftoa lexemes = clean (lexemes ++ [x]) := by
  obtain ⟨hword, hinteger⟩ : x.kind.isWord = false ∧ x.kind ≠ .literalInteger := by
    simpa [TokenKind.isOpen] using h
  rw [behind, hword, if_neg hinteger]
  rfl

theorem breaks_of_isSign (hsign : IsSign chr) (hends : Ends ⟨.ascii chr, .none⟩ next) :
    Breaks chr next := by
  refine ⟨hsign.letter, hsign.digit, hsign.quote, hsign.apostrophe, fun h => ?_, fun h => ?_⟩
  · obtain ⟨hslash, hstar⟩ := hends.slash (congrArg _ h.1)
    exact h.2.elim hslash hstar
  · exact hends.dot (congrArg _ h)

theorem symbols_of_isSign (hsign : IsSign chr) : symbols chr = [⟨.ascii chr, .none⟩] := by
  rw [symbols, if_neg (by simp [hsign.delim])]

/-- From a clean scan a legible token is read, up to its flush. -/
theorem feed_print (h : x.Legible) (lexemes : List Lexeme) (hends : x.Ends next) :
    (clean lexemes).feed atof (next :: after) (x.print ftoa) = some (x.behind ftoa lexemes) := by
  cases h with
  | @symbol chr hsign =>
      have hstep := @step_clean_breaks atof chr next lexemes after (breaks_of_isSign hsign hends)
      rw [symbols_of_isSign hsign] at hstep
      rw [behind_closed lexemes (by simp [TokenKind.isOpen, TokenKind.not_isWord_ascii])]
      exact (congrArg (Option.bind · some) hstep).trans rfl
  | @keyword kind hkeyword =>
      obtain ⟨hne, hletters⟩ := Written.letters_of_keyword hkeyword
      rw [behind_word lexemes (TokenKind.isWord_of_mem_keywords hkeyword), print_keyword hkeyword]
      obtain ⟨chr, rest, htext⟩ := List.exists_cons_of_ne_nil hne
      rw [htext] at hletters ⊢
      exact Written.feed_clean_word lexemes (hletters chr List.mem_cons_self)
        fun chr hmem => .inl (hletters chr (List.mem_cons_of_mem _ hmem))
  | @id chr rest hletter hrest hkeyword =>
      have hprint : print ftoa ⟨.id, .str (String.ofList (chr :: rest))⟩ = chr :: rest :=
        String.toList_ofList
      obtain ⟨next', after', hafter⟩ := List.exists_cons_of_ne_nil
        (List.append_ne_nil_of_right_ne_nil rest (List.cons_ne_nil next after))
      rw [behind_word lexemes rfl, hprint, Scan.feed, hafter, step_word_first hletter,
        Option.bind_some, feed_wordText hrest]
      rfl
  | @integer value hvalue =>
      rw [behind_integer lexemes rfl]
      exact Written.feed_clean_integer lexemes (isInteger_toDecimal hvalue).1
  | @string content hcontent =>
      have hprint : print ftoa ⟨.literalString, .str (String.ofList content)⟩ =
          doubleQuote :: (feedContent content ++ [doubleQuote]) := by
        simp [print]
      rw [behind_closed lexemes rfl, hprint]
      exact feed_printedString hcontent
  | @char chr hquote hapostrophe =>
      have hprint : print ftoa ⟨.literalChar, .str (String.singleton chr)⟩ =
          apostrophe :: (feedContent [chr] ++ [apostrophe]) := by
        simp [print]
      rw [behind_closed lexemes rfl, hprint]
      exact feed_printedChar hquote hapostrophe

/-- What a word that is flushed becomes. -/
theorem word_print (h : x.Legible) (hword : x.kind.isWord = true) :
    Lexeme.word (String.ofList (x.print ftoa)) = x := by
  cases h with
  | @symbol chr hsign => rw [TokenKind.not_isWord_ascii] at hword; cases hword
  | @keyword kind hkeyword =>
      rw [print_keyword hkeyword]
      exact Written.word_of_keyword hkeyword
  | @id chr rest hletter hrest hkeyword =>
      have hprint : print ftoa ⟨.id, .str (String.ofList (chr :: rest))⟩ = chr :: rest :=
        String.toList_ofList
      rw [hprint, Lexeme.word, hkeyword]
  | integer _ => cases hword
  | string _ => cases hword
  | char _ _ => cases hword

/-- A character that ends words and numbers flushes the token. -/
theorem step_behind (h : x.Legible) (lexemes : List Lexeme) (hbreaks : Breaks chr next)
    (hdot : x.kind = .literalInteger → chr ≠ '.') :
    (x.behind ftoa lexemes).step atof chr (next :: after) =
      some (clean (lexemes ++ [x] ++ symbols chr)) := by
  by_cases hword : x.kind.isWord = true
  · rw [behind_word lexemes hword, step_word_breaks hbreaks, word_print h hword]
  · by_cases hinteger : x.kind = .literalInteger
    · rw [behind_integer lexemes hinteger, step_integer_breaks hbreaks (hdot hinteger)]
      cases h with
      | @integer value hvalue =>
          obtain ⟨hdigits, hread⟩ := isInteger_toDecimal hvalue
          have hprint : print ftoa ⟨.literalInteger, .num value⟩ = toDecimal value := rfl
          rw [hprint, atoi_of_isInteger hdigits, hread]
      | keyword hkeyword => exact absurd (TokenKind.isWord_of_mem_keywords hkeyword) hword
      | _ => cases hinteger
    · rw [behind_closed lexemes (by simp [TokenKind.isOpen, hword, hinteger])]
      exact step_clean_breaks hbreaks

theorem feed_clean_delims (lexemes : List Lexeme) : ∀ blank : List Char,
    (∀ chr ∈ blank, isDelim chr = true) →
    (clean lexemes).feed atof after blank = some (clean lexemes)
  | [], _ => rfl
  | chr :: blank, hblank => by
      rw [Scan.feed, step_clean_delim (hblank chr List.mem_cons_self), Option.bind_some,
        feed_clean_delims lexemes blank fun chr hmem => hblank chr (List.mem_cons_of_mem _ hmem)]

/-- Line breaks and blanks flush the token. -/
theorem feed_layout (h : x.Legible) (lexemes : List Lexeme) {blank : List Char}
    (hne : blank ≠ []) (hblank : ∀ chr ∈ blank, isDelim chr = true) :
    (x.behind ftoa lexemes).feed atof (next :: after) blank = some (clean (lexemes ++ [x])) := by
  obtain ⟨chr, rest, rfl⟩ := List.exists_cons_of_ne_nil hne
  obtain ⟨next', after', hafter⟩ := List.exists_cons_of_ne_nil
    (List.append_ne_nil_of_right_ne_nil rest (List.cons_ne_nil next after))
  have hchr := hblank chr List.mem_cons_self
  have hdot : chr ≠ '.' := by rintro rfl; cases hchr
  have hsymbols : symbols chr = [] := by rw [symbols, if_pos hchr]
  rw [Scan.feed, hafter, step_behind h lexemes (breaks_of_isDelim hchr) fun _ => hdot, hsymbols,
    List.append_nil, Option.bind_some,
    feed_clean_delims _ rest fun chr hmem => hblank chr (List.mem_cons_of_mem _ hmem)]

/-- The token that touches another one which it is not glued to. -/
theorem feed_touching (hx : x.Legible) (hy : y.Legible) (lexemes : List Lexeme)
    (hglued : ¬ TokenKind.Glued x.kind y.kind) (hends : y.Ends next) :
    (x.behind ftoa lexemes).feed atof (next :: after) (y.print ftoa) =
      some (y.behind ftoa (lexemes ++ [x])) := by
  by_cases hopen : x.kind.isOpen = true
  · -- only a symbol is left
    cases hy with
    | @symbol chr hsign =>
        have hdot : x.kind = .literalInteger → chr ≠ '.' :=
          fun hinteger hchr => hglued (.inr (.inr (.inr ⟨hinteger, congrArg _ hchr⟩)))
        have hstep := @step_behind ftoa atof x chr next after hx lexemes
          (breaks_of_isSign hsign hends) hdot
        rw [symbols_of_isSign hsign] at hstep
        have hclosed : behind ftoa (lexemes ++ [x]) ⟨.ascii chr, .none⟩ =
            clean (lexemes ++ [x] ++ [⟨.ascii chr, .none⟩]) :=
          behind_closed _ (by simp [TokenKind.isOpen, TokenKind.not_isWord_ascii])
        rw [hclosed]
        exact (congrArg (Option.bind · some) hstep).trans rfl
    | keyword hkeyword =>
        exact absurd (.inl ⟨hopen, .inl (by
          simp [TokenKind.isOpen, TokenKind.isWord_of_mem_keywords hkeyword])⟩) hglued
    | id _ _ _ => exact absurd (.inl ⟨hopen, .inl rfl⟩) hglued
    | integer _ => exact absurd (.inl ⟨hopen, .inl rfl⟩) hglued
    | string _ => exact absurd (.inl ⟨hopen, .inr rfl⟩) hglued
    | char _ _ => exact absurd (.inl ⟨hopen, .inr rfl⟩) hglued
  · rw [behind_closed lexemes (by simpa using hopen)]
    exact feed_print hy _ hends

/-- The first character of a token that is not glued to the one in front of it. -/
theorem ends_of_not_glued (hy : y.Legible) (hglued : ¬ TokenKind.Glued x.kind y.kind) :
    ∃ chr rest, y.print ftoa = chr :: rest ∧ x.Ends chr := by
  have hword : ∀ {chr : Char}, isLetter chr = true → x.Ends chr := by
    intro chr hletter
    refine ⟨fun _ => ?_, fun _ => ?_⟩
    · constructor <;> · rintro rfl; revert hletter; decide
    · by_contra hdigit
      rw [not_isLetter_of_isDigit (by simpa using hdigit)] at hletter
      cases hletter
  have hquoted : ∀ {chr : Char}, chr = doubleQuote ∨ chr = apostrophe → x.Ends chr := by
    rintro chr (rfl | rfl) <;>
      exact ⟨fun _ => ⟨by decide, by decide⟩, fun _ => by decide⟩
  cases hy with
  | @symbol chr hsign =>
      refine ⟨chr, [], rfl, fun hslash => ?_, fun _ => hsign.digit⟩
      constructor <;> · rintro rfl; exact hglued (.inr (.inl ⟨hslash, by simp⟩))
  | @keyword kind hkeyword =>
      obtain ⟨hne, hletters⟩ := Written.letters_of_keyword hkeyword
      obtain ⟨chr, rest, htext⟩ := List.exists_cons_of_ne_nil hne
      exact ⟨chr, rest, (print_keyword hkeyword).trans htext,
        hword (hletters chr (htext ▸ List.mem_cons_self))⟩
  | @id chr rest hletter hrest hkeyword =>
      exact ⟨chr, rest, String.toList_ofList, hword hletter⟩
  | @integer value hvalue =>
      obtain ⟨hdigits, -⟩ := isInteger_toDecimal hvalue
      obtain ⟨chr, rest, htext⟩ := List.exists_cons_of_ne_nil hdigits.nonempty
      have hdigit := hdigits.allDigits chr (htext ▸ List.mem_cons_self)
      refine ⟨chr, rest, htext, fun _ => ?_, fun hdot => ?_⟩
      · constructor <;> · rintro rfl; revert hdigit; decide
      · exact absurd (.inr (.inr (.inl ⟨hdot, rfl⟩))) hglued
  | string _ => exact ⟨_, _, rfl, hquoted (.inl rfl)⟩
  | char _ _ => exact ⟨_, _, rfl, hquoted (.inr rfl)⟩

theorem ends_of_isDelim (hdelim : isDelim chr = true) : x.Ends chr := by
  obtain ⟨hslash, hstar, -, -, hdigit⟩ := inert_of_isDelim hdelim
  exact ⟨fun _ => ⟨hslash, hstar⟩, fun _ => hdigit⟩

end Lexeme

section Range

open Scan Lexeme

variable {ftoa : BitVec 32 → List Char} {atof : String → BitVec 32}

/-- What is printed behind a token. -/
def printedBehind (ftoa : BitVec 32 → List Char) (token : Placed) (rest : List Placed) : List Char :=
  rest.head?.elim [] (layout ftoa token) ++ feedTokens ftoa rest

theorem printedBehind_cons (token next : Placed) (rest : List Placed) :
    printedBehind ftoa token (next :: rest) =
      layout ftoa token next ++ (next.1.print ftoa ++ printedBehind ftoa next rest) := rfl

/-- The character behind a token is none of its own. -/
theorem ends_printedBehind {token : Placed} {rest : List Placed}
    (hlegible : ∀ token ∈ rest, token.1.Legible) (hparted : (token :: rest).IsChain (Parted ftoa)) :
    ∃ chr after, printedBehind ftoa token rest ++ ['\n', ' '] = chr :: after ∧ token.1.Ends chr := by
  cases rest with
  | nil => exact ⟨'\n', [' '], rfl, ends_of_isDelim rfl⟩
  | cons next rest =>
      rw [printedBehind_cons]
      cases hlayout : layout ftoa token next with
      | nil =>
          have hglued := (List.isChain_cons_cons.mp hparted).1 (layout_eq_nil_iff.mp hlayout)
          obtain ⟨chr, text, hprint, hends⟩ := @ends_of_not_glued ftoa token.1 next.1
            (hlegible next List.mem_cons_self) hglued
          exact ⟨chr, text ++ printedBehind ftoa next rest ++ ['\n', ' '], by simp [hprint], hends⟩
      | cons chr blank =>
          refine ⟨chr, blank ++ (next.1.print ftoa ++ printedBehind ftoa next rest) ++ ['\n', ' '],
            by simp, ends_of_isDelim ?_⟩
          exact isDelim_of_mem_layout (hlayout ▸ List.mem_cons_self)

/-- Behind a token the rest of the range is read. -/
theorem feed_printedBehind : ∀ (rest : List Placed) (token : Placed) (lexemes : List Lexeme),
    token.1.Legible → (∀ token ∈ rest, token.1.Legible) → (token :: rest).IsChain (Parted ftoa) →
    (token.1.behind ftoa lexemes).feed atof [] (printedBehind ftoa token rest ++ ['\n', ' ']) =
      some (clean (lexemes ++ token.1 :: rest.map Prod.fst))
  | [], token, lexemes, htoken, _, _ => by
      have hbreak := @feed_layout ftoa atof token.1 ' ' [] htoken lexemes ['\n']
        (List.cons_ne_nil _ _) (by simp [isDelim])
      have htext : printedBehind ftoa token [] ++ ['\n', ' '] = ['\n'] ++ [' '] := rfl
      rw [htext, feed_append_of hbreak (feed_clean_delims _ [' '] (by simp [isDelim]))]
      rfl
  | next :: rest, token, lexemes, htoken, hrest, hparted => by
      have hnext := hrest next List.mem_cons_self
      have hrest' : ∀ token ∈ rest, token.1.Legible :=
        fun token hmem => hrest token (List.mem_cons_of_mem _ hmem)
      obtain ⟨hpair, hparted'⟩ := List.isChain_cons_cons.mp hparted
      have ih := @feed_printedBehind rest next (lexemes ++ [token.1]) hnext hrest' hparted'
      obtain ⟨chr, after, hafter, hends⟩ := ends_printedBehind hrest' hparted'
      have hprinted : (token.1.behind ftoa lexemes).feed atof
          (printedBehind ftoa next rest ++ ['\n', ' ']) (layout ftoa token next ++ next.1.print ftoa) =
            some (next.1.behind ftoa (lexemes ++ [token.1])) := by
        rw [hafter]
        by_cases hlayout : layout ftoa token next = []
        · rw [hlayout, List.nil_append]
          exact feed_touching htoken hnext lexemes (hpair (layout_eq_nil_iff.mp hlayout)) hends
        · obtain ⟨chr', text, hprint, -⟩ := @ends_of_not_glued ftoa ⟨.eof, .none⟩ next.1 hnext
            (by simp [TokenKind.Glued, TokenKind.isOpen, TokenKind.isWord, TokenKind.keywords])
          refine feed_append_of ?_ (feed_print hnext _ hends)
          rw [hprint]
          exact feed_layout htoken lexemes hlayout fun chr hmem => isDelim_of_mem_layout hmem
      have htext : printedBehind ftoa token (next :: rest) ++ ['\n', ' '] =
          (layout ftoa token next ++ next.1.print ftoa) ++
            (printedBehind ftoa next rest ++ ['\n', ' ']) := by
        rw [printedBehind_cons]
        simp
      rw [htext, feed_append_of (by rwa [List.append_nil]) ih]
      simp

/-- A range of legible tokens of which no touching ones are glued is read as these tokens. -/
theorem lexemesOf_feedTokens {tokens : List Placed} (hlegible : ∀ token ∈ tokens, token.1.Legible)
    (hparted : tokens.IsChain (Parted ftoa)) :
    lexemesOf atof (feedTokens ftoa tokens ++ ['\n', ' ']) = some (tokens.map Prod.fst) := by
  cases tokens with
  | nil => rfl
  | cons token rest =>
      have htoken := hlegible token List.mem_cons_self
      have hrest : ∀ token ∈ rest, token.1.Legible :=
        fun token hmem => hlegible token (List.mem_cons_of_mem _ hmem)
      obtain ⟨chr, after, hafter, hends⟩ := ends_printedBehind hrest hparted
      have hfirst := @feed_print ftoa atof token.1 chr after htoken [] hends
      rw [← hafter] at hfirst
      have hall := @feed_printedBehind ftoa atof rest token [] htoken hrest hparted
      have htext : feedTokens ftoa (token :: rest) ++ ['\n', ' '] =
          token.1.print ftoa ++ (printedBehind ftoa token rest ++ ['\n', ' ']) :=
        List.append_assoc ..
      rw [lexFile_lexemes, htext, feed_append_of (by rwa [List.append_nil]) hall]
      rfl

end Range

end TinCompiler

import TinCompiler.Lexer.Strings
import Mathlib.Data.List.TakeWhile

/-!
# Tokens with whitespace between them

A file that is written token by token, with whitespace where two tokens would run together,
is read as these tokens.  Behind a token the scan is at `behind`: an identifier or a number
is still pending there, and the next character flushes it.
-/

namespace TinCompiler

/-! ## What is written -/

/-- Characters that are tokens by themselves. -/
def IsSymbol (chr : Char) : Prop :=
  chr.toNat < 128 ∧ isLetter chr = false ∧ isDigit chr = false ∧ isDelim chr = false ∧
    chr ≠ doubleQuote ∧ chr ≠ apostrophe

/-- Characters that stand for themselves in strings and character literals. -/
def IsContent (chr : Char) : Prop :=
  chr ≠ doubleQuote ∧ chr ≠ apostrophe ∧ chr ≠ backslash ∧ chr ≠ '/'

structure IsIdentifier (text : List Char) : Prop where
  letter : ∃ chr rest, text = chr :: rest ∧ isLetter chr = true
  word : ∀ chr ∈ text, isLetter chr = true ∨ isDigit chr = true
  notKeyword : TokenKind.keyword (String.ofList text) = none

structure IsInteger (digits : List Char) : Prop where
  nonempty : digits ≠ []
  allDigits : ∀ chr ∈ digits, isDigit chr = true
  range : digitsValue digits < 2 ^ 31

/-- A token as it is written. -/
inductive Written where
  | identifier (text : List Char) (h : IsIdentifier text)
  | keyword (kind : TokenKind) (h : kind ∈ TokenKind.keywords)
  | integer (digits : List Char) (h : IsInteger digits)
  | symbol (chr : Char) (h : IsSymbol chr)
  | string (content : List Char) (h : ∀ chr ∈ content, IsContent chr)
  | char (chr : Char) (h : IsContent chr)

namespace Written

def spelling : Written → List Char
  | identifier text _ => text
  | keyword kind _ => (TokenKind.nameOf kind).toList
  | integer digits _ => digits
  | symbol chr _ => [chr]
  | string content _ => doubleQuote :: (content ++ [doubleQuote])
  | char chr _ => [apostrophe, chr, apostrophe]

/-- The kind and the text or value of the token. -/
def lexeme : Written → Lexeme
  | identifier text _ => ⟨.id, .str (String.ofList text)⟩
  | keyword kind _ => ⟨kind, .none⟩
  | integer digits _ => ⟨.literalInteger, .num (BitVec.ofNat 32 (digitsValue digits))⟩
  | symbol chr _ => ⟨.ascii chr, .none⟩
  | string content _ => ⟨.literalString, .str (String.ofList content)⟩
  | char chr _ => ⟨.literalChar, .str (String.singleton chr)⟩

def isSymbol : Written → Prop
  | symbol .. => True
  | _ => False

def isSlashOrDot : Written → Prop
  | symbol chr _ => chr = '/' ∨ chr = '.'
  | _ => False

end Written

/-- A token with the whitespace behind it. -/
structure Row where
  token : Written
  blank : List Char
  delims : ∀ chr ∈ blank, isDelim chr = true

/-- The text up to the last token. -/
def rowsText (rows : List Row) : List Char := rows.flatMap fun row => row.token.spelling ++ row.blank

def rowsLexemes (rows : List Row) : List Lexeme := rows.map fun row => row.token.lexeme

/-- Between `token` and the rest there is enough whitespace; the last token, a symbol, has
whitespace in front of it. -/
def Separated : Written → List Char → List Row → Prop
  | _, blank, [] => blank ≠ []
  | token, blank, row :: rows =>
      (blank = [] → (token.isSymbol ∨ row.token.isSymbol) ∧ ¬ token.isSlashOrDot ∧
        ¬ row.token.isSlashOrDot) ∧ Separated row.token row.blank rows

def SeparatedRows : List Row → Prop
  | [] => True
  | row :: rows => Separated row.token row.blank rows

/-! ## Numbers -/

theorem range_of_isDigit {chr : Char} (h : isDigit chr = true) :
    48 ≤ chr.toNat ∧ chr.toNat ≤ 57 := by
  unfold isDigit at h
  rw [Bool.and_eq_true, decide_eq_true_eq, decide_eq_true_eq] at h
  exact h

theorem not_isSpace_of_isDigit {chr : Char} (h : isDigit chr = true) : isSpace chr = false := by
  obtain ⟨hlow, -⟩ := range_of_isDigit h
  have hblank : chr ≠ ' ' := by
    rintro rfl
    exact absurd hlow (by decide)
  unfold isSpace
  simp only [hblank, decide_false, Bool.false_or, Bool.and_eq_false_iff, decide_eq_false_iff_not]
  omega

theorem takeWhile_digits {digits : List Char} (h : ∀ chr ∈ digits, isDigit chr = true) :
    digits.takeWhile isDigit = digits :=
  List.takeWhile_eq_self_iff.mpr h

theorem atoi_of_isInteger {digits : List Char} (h : IsInteger digits) :
    atoi digits = BitVec.ofNat 32 (digitsValue digits) := by
  obtain ⟨hnonempty, hdigits, hrange⟩ := h
  obtain ⟨chr, rest, rfl⟩ := List.exists_cons_of_ne_nil hnonempty
  have hchr := hdigits chr List.mem_cons_self
  have hdrop : (chr :: rest).dropWhile isSpace = chr :: rest := by
    rw [List.dropWhile_cons, not_isSpace_of_isDigit hchr]
    rfl
  have hminus : chr ≠ '-' := by rintro rfl; cases hchr
  have hplus : chr ≠ '+' := by rintro rfl; cases hchr
  have hmin : min (leadingValue (chr :: rest) : ℤ) (2 ^ 63 - 1) = digitsValue (chr :: rest) := by
    rw [leadingValue, takeWhile_digits hdigits]
    omega
  unfold atoi
  rw [hdrop]
  split
  · next digits heq => exact absurd (List.cons.inj heq).1 hminus
  · next digits heq => exact absurd (List.cons.inj heq).1 hplus
  · rw [hmin]
    rfl

/-! ## One token -/

namespace Scan

variable {atof : String → BitVec 32} {sc : Scan} {chr next : Char} {lexemes : List Lexeme}
  {after : List Char}

/-- A character that begins or ends no literal and no comment. -/
theorem lexRound_letter {ending : Bool} (hout : sc.Outside) (hquote : chr ≠ doubleQuote)
    (hapostrophe : chr ≠ apostrophe) (hopen : ¬ (chr = '/' ∧ (next = '/' ∨ next = '*'))) :
    sc.lexRound atof chr next ending = sc.lexLetter atof chr next ending := by
  have hslash : ¬ (chr = '/' ∧ next = '/') := fun h => hopen ⟨h.1, .inl h.2⟩
  have hstar : ¬ (chr = '/' ∧ next = '*') := fun h => hopen ⟨h.1, .inr h.2⟩
  unfold lexRound
  rw [if_neg (by simp [hout.isComment]), if_neg (by simp [hout.isMulticomment]), if_neg hslash,
    if_neg hstar, if_neg hquote, if_neg hapostrophe, if_neg (by simp [hout.isStr, hout.isChar])]

/-- An identifier that is not flushed yet. -/
def inWord (lexemes : List Lexeme) (span : List Char) : Scan :=
  { lexemes := lexemes, isId := true, span := span }

/-- An integer that is not flushed yet. -/
def inInteger (lexemes : List Lexeme) (span : List Char) : Scan :=
  { lexemes := lexemes, isNum := true, span := span }

theorem outside_clean : (clean lexemes).Outside := ⟨rfl, rfl, rfl, rfl⟩

theorem outside_inWord {span : List Char} : (inWord lexemes span).Outside := ⟨rfl, rfl, rfl, rfl⟩

theorem outside_inInteger {span : List Char} : (inInteger lexemes span).Outside :=
  ⟨rfl, rfl, rfl, rfl⟩

/-- Letters and digits are not special. -/
theorem ne_of_word (h : isLetter chr = true ∨ isDigit chr = true) :
    chr ≠ doubleQuote ∧ chr ≠ apostrophe ∧ chr ≠ '/' ∧ chr ≠ '.' := by
  refine ⟨?_, ?_, ?_, ?_⟩ <;>
    · rintro rfl
      revert h
      decide

/-- One character inside of the file, when nothing is special about it. -/
theorem step_letter {sc' : Scan} (hout : sc.Outside) (hskip : sc.skip = false)
    (hquote : chr ≠ doubleQuote) (hapostrophe : chr ≠ apostrophe)
    (hopen : ¬ (chr = '/' ∧ (next = '/' ∨ next = '*')))
    (hletter : (sc.enter chr).lexLetter atof chr next false = some sc') :
    sc.step atof chr (next :: after) = some sc'.leave := by
  have hout' : (sc.enter chr).Outside := { hout with }
  exact step_of_round hskip ((lexRound_letter hout' hquote hapostrophe hopen).trans hletter)

theorem step_word_first (hletter : isLetter chr = true) :
    (clean lexemes).step atof chr (next :: after) = some (inWord lexemes [chr]) := by
  obtain ⟨hquote, hapostrophe, hslash, -⟩ := ne_of_word (.inl hletter)
  have hround : ((clean lexemes).enter chr).lexLetter atof chr next false =
      some (inWord lexemes [chr]) := by
    rw [lexLetter, if_pos hletter]
    rfl
  exact step_letter outside_clean rfl hquote hapostrophe (fun h => hslash h.1) hround

theorem step_word {span : List Char} (hword : isLetter chr = true ∨ isDigit chr = true) :
    (inWord lexemes span).step atof chr (next :: after) =
      some (inWord lexemes (span ++ [chr])) := by
  obtain ⟨hquote, hapostrophe, hslash, -⟩ := ne_of_word hword
  have hround : ((inWord lexemes span).enter chr).lexLetter atof chr next false =
      some (inWord lexemes (span ++ [chr])) := by
    unfold lexLetter
    by_cases hletter : isLetter chr = true
    · rw [if_pos hletter]
      rfl
    · rw [if_neg hletter, lexDigit, if_pos (hword.resolve_left hletter)]
      rfl
  exact step_letter outside_inWord rfl hquote hapostrophe (fun h => hslash h.1) hround

theorem not_isLetter_of_isDigit (h : isDigit chr = true) : isLetter chr = false := by
  obtain ⟨-, hhigh⟩ := range_of_isDigit h
  have hunderscore : chr ≠ '_' := by
    rintro rfl
    exact absurd hhigh (by decide)
  have hupper : ¬ 'A'.toNat ≤ chr.toNat :=
    fun hle => absurd (Nat.le_trans hle hhigh) (by decide)
  have hlower : ¬ 'a'.toNat ≤ chr.toNat :=
    fun hle => absurd (Nat.le_trans hle hhigh) (by decide)
  unfold isLetter
  rw [decide_eq_false hupper, decide_eq_false hlower, decide_eq_false hunderscore]
  rfl

theorem step_integer_first (hdigit : isDigit chr = true) :
    (clean lexemes).step atof chr (next :: after) = some (inInteger lexemes [chr]) := by
  obtain ⟨hquote, hapostrophe, hslash, -⟩ := ne_of_word (.inr hdigit)
  have hround : ((clean lexemes).enter chr).lexLetter atof chr next false =
      some (inInteger lexemes [chr]) := by
    rw [lexLetter, if_neg (by simp [not_isLetter_of_isDigit hdigit]), lexDigit, if_pos hdigit]
    rfl
  exact step_letter outside_clean rfl hquote hapostrophe (fun h => hslash h.1) hround

theorem step_integer {span : List Char} (hdigit : isDigit chr = true) :
    (inInteger lexemes span).step atof chr (next :: after) =
      some (inInteger lexemes (span ++ [chr])) := by
  obtain ⟨hquote, hapostrophe, hslash, -⟩ := ne_of_word (.inr hdigit)
  have hround : ((inInteger lexemes span).enter chr).lexLetter atof chr next false =
      some (inInteger lexemes (span ++ [chr])) := by
    rw [lexLetter, if_neg (by simp [not_isLetter_of_isDigit hdigit]), lexDigit, if_pos hdigit]
    rfl
  exact step_letter outside_inInteger rfl hquote hapostrophe (fun h => hslash h.1) hround

/-- The rest of an identifier. -/
theorem feed_word : ∀ (text span : List Char),
    (∀ chr ∈ text, isLetter chr = true ∨ isDigit chr = true) →
    (inWord lexemes span).feed atof (next :: after) text = some (inWord lexemes (span ++ text))
  | [], span, _ => by rw [List.append_nil]; rfl
  | chr :: text, span, hword => by
      obtain ⟨next', after', hafter⟩ := List.exists_cons_of_ne_nil
        (List.append_ne_nil_of_right_ne_nil text (List.cons_ne_nil next after))
      rw [feed, hafter, step_word (hword chr List.mem_cons_self), Option.bind_some,
        feed_word text _ fun chr h => hword chr (List.mem_cons_of_mem _ h), List.append_assoc]
      rfl

/-- The rest of an integer. -/
theorem feed_integer : ∀ (digits span : List Char), (∀ chr ∈ digits, isDigit chr = true) →
    (inInteger lexemes span).feed atof (next :: after) digits =
      some (inInteger lexemes (span ++ digits))
  | [], span, _ => by rw [List.append_nil]; rfl
  | chr :: digits, span, hdigits => by
      obtain ⟨next', after', hafter⟩ := List.exists_cons_of_ne_nil
        (List.append_ne_nil_of_right_ne_nil digits (List.cons_ne_nil next after))
      rw [feed, hafter, step_integer (hdigits chr List.mem_cons_self), Option.bind_some,
        feed_integer digits _ fun chr h => hdigits chr (List.mem_cons_of_mem _ h),
        List.append_assoc]
      rfl

/-- A character that ends identifiers and numbers, with `next` behind it. -/
structure Breaks (chr next : Char) : Prop where
  letter : isLetter chr = false
  digit : isDigit chr = false
  quote : chr ≠ doubleQuote
  apostrophe : chr ≠ apostrophe
  comment : ¬ (chr = '/' ∧ (next = '/' ∨ next = '*'))
  dot : chr = '.' → isDigit next = false

theorem breaks_of_isDelim (hdelim : isDelim chr = true) : Breaks chr next := by
  rcases eq_of_isDelim hdelim with rfl | rfl | rfl | rfl <;>
    exact ⟨by decide, by decide, by decide, by decide, fun h => absurd h.1 (by decide),
      fun h => absurd h (by decide)⟩

theorem breaks_of_isSymbol (hsymbol : IsSymbol chr)
    (hnext : chr = '/' ∨ chr = '.' → isDelim next = true) : Breaks chr next := by
  obtain ⟨-, hletter, hdigit, -, hquote, hapostrophe⟩ := hsymbol
  refine ⟨hletter, hdigit, hquote, hapostrophe, fun h => ?_, fun h => ?_⟩
  · obtain ⟨hslash, hstar, -⟩ := inert_of_isDelim (hnext (.inl h.1))
    exact h.2.elim hslash hstar
  · exact (inert_of_isDelim (hnext (.inr h))).2.2.2.2

/-- What the character itself adds. -/
def symbols (chr : Char) : List Lexeme := if isDelim chr then [] else [⟨.ascii chr, .none⟩]

theorem leave_lexSymbol (span : List Char) :
    (lexSymbol chr { lexemes := lexemes, span := span }).leave = clean (lexemes ++ symbols chr) := by
  unfold lexSymbol symbols
  split
  · rw [List.append_nil]
    rfl
  · rfl

/-- Such a character flushes what is pending. -/
theorem step_breaks (hbreaks : Breaks chr next) (hout : sc.Outside) (hskip : sc.skip = false)
    (hdot : sc.isNum = true → chr ≠ '.') : sc.step atof chr (next :: after) =
      some ((sc.enter chr).flushDecimal atof chr false).leave := by
  have hdigits : ¬ (chr = '.' ∧ ((sc.enter chr).isNum = true ∨ isDigit next = true)) := by
    rintro ⟨hchr, hnum | hnext⟩
    · exact hdot hnum hchr
    · rw [hbreaks.dot hchr] at hnext
      cases hnext
  have hround : (sc.enter chr).lexLetter atof chr next false =
      some ((sc.enter chr).flushDecimal atof chr false) := by
    rw [lexLetter, if_neg (by simp [hbreaks.letter]), lexDigit, if_neg (by simp [hbreaks.digit]),
      lexDot, if_neg hdigits]
  exact step_letter hout hskip hbreaks.quote hbreaks.apostrophe hbreaks.comment hround

theorem step_clean_breaks (hbreaks : Breaks chr next) :
    (clean lexemes).step atof chr (next :: after) = some (clean (lexemes ++ symbols chr)) := by
  have hflush : ((clean lexemes).enter chr).flushDecimal atof chr false =
      lexSymbol chr { lexemes := lexemes, span := [chr] } := rfl
  rw [step_breaks hbreaks outside_clean rfl (fun h => by cases h), hflush, leave_lexSymbol]

theorem step_word_breaks (hbreaks : Breaks chr next) (text : List Char) :
    (inWord lexemes text).step atof chr (next :: after) =
      some (clean (lexemes ++ [Lexeme.word (String.ofList text)] ++ symbols chr)) := by
  have hflush : ((inWord lexemes text).enter chr).flushDecimal atof chr false =
      lexSymbol chr { lexemes := lexemes ++ [Lexeme.word (String.ofList (text ++ [chr]).dropLast)]
                      span := text ++ [chr] } := rfl
  rw [step_breaks hbreaks outside_inWord rfl (fun h => by cases h), hflush, leave_lexSymbol,
    List.dropLast_concat]

theorem step_integer_breaks (hbreaks : Breaks chr next) (hdot : chr ≠ '.') (digits : List Char) :
    (inInteger lexemes digits).step atof chr (next :: after) =
      some (clean (lexemes ++ [⟨.literalInteger, .num (atoi digits)⟩] ++ symbols chr)) := by
  have hflush : ((inInteger lexemes digits).enter chr).flushDecimal atof chr false =
      lexSymbol chr
        { lexemes := lexemes ++ [⟨.literalInteger, .num (atoi (digits ++ [chr]).dropLast)⟩]
          span := digits ++ [chr] } := rfl
  rw [step_breaks hbreaks outside_inInteger rfl fun _ => hdot, hflush, leave_lexSymbol,
    List.dropLast_concat]

/-- A character that stands for itself in a string. -/
theorem step_string_content (hcontent : IsContent chr) (content : List Char) :
    (inString lexemes content).step atof chr after = some (inString lexemes (content ++ [chr])) := by
  obtain ⟨hquote, hapostrophe, hbackslash, hslash⟩ := hcontent
  have hround := @lexRound_content atof ((inString lexemes content).enter chr) chr
    (after.headD (Char.ofNat 0)) after.isEmpty rfl rfl rfl hquote hapostrophe
    fun h => hslash h.1
  have hkept : ((inString lexemes content).enter chr).lexContent chr (after.headD (Char.ofNat 0)) =
      { (inString lexemes content).enter chr with content := content ++ [chr] } := by
    unfold lexContent
    rw [if_neg fun h => hbackslash h.1, if_neg fun h => hbackslash h.1]
    rfl
  rw [hkept] at hround
  exact step_of_round rfl hround

theorem feed_string_content : ∀ (text content : List Char), (∀ chr ∈ text, IsContent chr) →
    (inString lexemes content).feed atof after text = some (inString lexemes (content ++ text))
  | [], content, _ => by rw [List.append_nil]; rfl
  | chr :: text, content, hcontent => by
      rw [feed, step_string_content (hcontent chr List.mem_cons_self), Option.bind_some,
        feed_string_content text _ fun chr h => hcontent chr (List.mem_cons_of_mem _ h),
        List.append_assoc]
      rfl

/-- A character literal of one character. -/
theorem feed_char (hcontent : IsContent chr) :
    (clean lexemes).feed atof after [apostrophe, chr, apostrophe] =
      some (clean (lexemes ++ [⟨.literalChar, .str (String.singleton chr)⟩])) := by
  obtain ⟨hquote, hapostrophe, hbackslash, hslash⟩ := hcontent
  let opened : Scan := { lexemes := lexemes, isChar := true }
  have hopen : (clean lexemes).step atof apostrophe (chr :: apostrophe :: after) = some opened := rfl
  have hround : (opened.enter chr).lexRound atof chr apostrophe false =
      some { opened.enter chr with content := [chr] } := by
    unfold lexRound lexContent
    rw [if_neg (by simp [opened, enter]), if_neg (by simp [opened, enter]),
      if_neg fun h => hslash h.1, if_neg fun h => hslash h.1, if_neg hquote, if_neg hapostrophe,
      if_pos (.inr rfl), if_neg fun h => hbackslash h.1, if_neg fun h => hbackslash h.1]
    rfl
  have hkept : opened.step atof chr (apostrophe :: after) =
      some { opened with content := [chr] } :=
    @step_of_round atof opened _ chr (apostrophe :: after) rfl hround
  have hclose : ({ opened with content := [chr] } : Scan).step atof apostrophe after =
      some (clean (lexemes ++ [⟨.literalChar, .str (String.singleton chr)⟩])) := rfl
  calc (clean lexemes).feed atof after [apostrophe, chr, apostrophe]
      = (opened.step atof chr (apostrophe :: after)).bind (feed atof after [apostrophe]) := by
        rw [feed]
        exact congrArg (Option.bind · _) hopen
    _ = (({ opened with content := [chr] } : Scan).step atof apostrophe after).bind some := by
        rw [hkept]
        rfl
    _ = some (clean (lexemes ++ [⟨.literalChar, .str (String.singleton chr)⟩])) := by
        rw [hclose]
        rfl

/-- A symbol at the end of the file. -/
theorem step_clean_symbol (hsymbol : IsSymbol chr) :
    (clean lexemes).step atof chr [] = some (clean (lexemes ++ [⟨.ascii chr, .none⟩])) := by
  obtain ⟨-, hletter, hdigit, hdelim, hquote, hapostrophe⟩ := hsymbol
  have hout : ((clean lexemes).enter chr).Outside := ⟨rfl, rfl, rfl, rfl⟩
  have hopen : ¬ (chr = '/' ∧ (Char.ofNat 0 = '/' ∨ Char.ofNat 0 = '*')) :=
    fun h => absurd h.2 (by decide)
  have hdot : ¬ (chr = '.' ∧ (((clean lexemes).enter chr).isNum = true ∨
      isDigit (Char.ofNat 0) = true)) := by
    rintro ⟨-, hnum | hnext⟩
    · cases hnum
    · exact absurd hnext (by decide)
  have hletters : ((clean lexemes).enter chr).lexLetter atof chr (Char.ofNat 0) true =
      some (((clean lexemes).enter chr).flushDecimal atof chr true) := by
    rw [lexLetter, if_neg (by simp [hletter]), lexDigit, if_neg (by simp [hdigit]), lexDot,
      if_neg hdot]
  have hflush : ((clean lexemes).enter chr).flushDecimal atof chr true =
      lexSymbol chr { lexemes := lexemes, span := [chr] } := rfl
  have hsymbols : symbols chr = [⟨.ascii chr, .none⟩] := by
    rw [symbols, if_neg (by simp [hdelim])]
  rw [hflush] at hletters
  rw [step_of_round rfl ((lexRound_letter hout hquote hapostrophe hopen).trans hletters),
    leave_lexSymbol, hsymbols]

end Scan

/-! ## All tokens -/

namespace Written

variable {atof : String → BitVec 32} {next : Char} {after : List Char}

open Scan

/-- Where the scan is behind the token: a word or a number is still pending. -/
def behind (lexemes : List Lexeme) : Written → Scan
  | identifier text _ => inWord lexemes text
  | keyword kind _ => inWord lexemes (TokenKind.nameOf kind).toList
  | integer digits _ => inInteger lexemes digits
  | symbol chr h => clean (lexemes ++ [(symbol chr h).lexeme])
  | string content h => clean (lexemes ++ [(string content h).lexeme])
  | char chr h => clean (lexemes ++ [(char chr h).lexeme])

theorem word_of_identifier {text : List Char} (h : IsIdentifier text) :
    Lexeme.word (String.ofList text) = (identifier text h).lexeme := by
  rw [Lexeme.word, h.notKeyword]
  rfl

theorem word_of_keyword {kind : TokenKind} (h : kind ∈ TokenKind.keywords) :
    Lexeme.word (String.ofList (TokenKind.nameOf kind).toList) = (keyword kind h).lexeme := by
  rw [String.ofList_toList, Lexeme.word, TokenKind.keyword_nameOf h]
  rfl

/-- Keywords are words as well. -/
theorem letters_of_keyword {kind : TokenKind} (h : kind ∈ TokenKind.keywords) :
    (TokenKind.nameOf kind).toList ≠ [] ∧
      ∀ chr ∈ (TokenKind.nameOf kind).toList, isLetter chr = true := by
  have hall : ∀ kind ∈ TokenKind.keywords, (TokenKind.nameOf kind).toList ≠ [] ∧
      (TokenKind.nameOf kind).toList.all isLetter = true := by decide +kernel
  exact ⟨(hall kind h).1, List.all_eq_true.mp (hall kind h).2⟩

/-- A word from its first letter on. -/
theorem feed_clean_word {chr : Char} {rest : List Char} (lexemes : List Lexeme)
    (hletter : isLetter chr = true)
    (hword : ∀ chr ∈ rest, isLetter chr = true ∨ isDigit chr = true) :
    (clean lexemes).feed atof (next :: after) (chr :: rest) =
      some (inWord lexemes (chr :: rest)) := by
  obtain ⟨next', after', hafter⟩ := List.exists_cons_of_ne_nil
    (List.append_ne_nil_of_right_ne_nil rest (List.cons_ne_nil next after))
  rw [feed, hafter, step_word_first hletter, Option.bind_some, feed_word rest [chr] hword]
  rfl

theorem feed_clean_integer {digits : List Char} (lexemes : List Lexeme) (h : IsInteger digits) :
    (clean lexemes).feed atof (next :: after) digits = some (inInteger lexemes digits) := by
  obtain ⟨chr, rest, rfl⟩ := List.exists_cons_of_ne_nil h.nonempty
  obtain ⟨next', after', hafter⟩ := List.exists_cons_of_ne_nil
    (List.append_ne_nil_of_right_ne_nil rest (List.cons_ne_nil next after))
  rw [feed, hafter, step_integer_first (h.allDigits chr List.mem_cons_self), Option.bind_some,
    feed_integer rest [chr] fun chr hmem => h.allDigits chr (List.mem_cons_of_mem _ hmem)]
  rfl

theorem symbols_of_isSymbol {chr : Char} (h : IsSymbol chr) :
    symbols chr = [(symbol chr h).lexeme] := by
  obtain ⟨-, -, -, hdelim, -⟩ := h
  rw [symbols, if_neg (by simp [hdelim])]
  rfl

/-- From a clean scan every token is read, up to its flush. -/
theorem feed_spelling (lexemes : List Lexeme) (token : Written)
    (hnext : token.isSlashOrDot → isDelim next = true) :
    (clean lexemes).feed atof (next :: after) token.spelling = some (token.behind lexemes) := by
  cases token with
  | identifier text h =>
      obtain ⟨⟨chr, rest, rfl, hletter⟩, hword, -⟩ := h
      exact feed_clean_word lexemes hletter fun chr hmem => hword chr (List.mem_cons_of_mem _ hmem)
  | keyword kind h =>
      obtain ⟨hne, hletters⟩ := letters_of_keyword h
      obtain ⟨chr, rest, htext⟩ := List.exists_cons_of_ne_nil hne
      rw [htext] at hletters
      have hword := @feed_clean_word atof next after chr rest lexemes
        (hletters chr List.mem_cons_self)
        fun chr hmem => .inl (hletters chr (List.mem_cons_of_mem _ hmem))
      rw [← htext] at hword
      exact hword
  | integer digits h => exact feed_clean_integer lexemes h
  | symbol chr h =>
      have hstep := @step_clean_breaks atof chr next lexemes after (breaks_of_isSymbol h hnext)
      rw [symbols_of_isSymbol h] at hstep
      exact (congrArg (Option.bind · some) hstep).trans rfl
  | string content h =>
      have hopen : (clean lexemes).feed atof (content ++ [doubleQuote] ++ next :: after)
          [doubleQuote] = some (inString lexemes []) := rfl
      have hclose : (inString lexemes content).feed atof (next :: after) [doubleQuote] =
          some (behind lexemes (string content h)) := rfl
      have htext : (string content h).spelling = [doubleQuote] ++ (content ++ [doubleQuote]) := rfl
      rw [htext]
      exact feed_append_of hopen (feed_append_of (feed_string_content content [] h) hclose)
  | char chr h => exact feed_char h

/-- A character that ends words and numbers leaves the scan clean behind every token. -/
theorem step_behind {chr : Char} (lexemes : List Lexeme) (token : Written)
    (hbreaks : Breaks chr next) (hdot : chr ≠ '.') :
    (token.behind lexemes).step atof chr (next :: after) =
      some (clean (lexemes ++ [token.lexeme] ++ symbols chr)) := by
  cases token with
  | identifier text h => rw [← word_of_identifier h]; exact step_word_breaks hbreaks text
  | keyword kind h => rw [← word_of_keyword h]; exact step_word_breaks hbreaks _
  | integer digits h =>
      have hvalue := @step_integer_breaks atof chr next lexemes after hbreaks hdot digits
      rw [atoi_of_isInteger h] at hvalue
      exact hvalue
  | symbol chr h => exact step_clean_breaks hbreaks
  | string content h => exact step_clean_breaks hbreaks
  | char chr h => exact step_clean_breaks hbreaks

/-- Whitespace behind a token. -/
theorem feed_blank (lexemes : List Lexeme) (token : Written) {blank : List Char}
    (hne : blank ≠ []) (hblank : ∀ chr ∈ blank, isDelim chr = true) :
    (token.behind lexemes).feed atof (next :: after) blank =
      some (clean (lexemes ++ [token.lexeme])) := by
  have hclean : ∀ (rest : List Char) (lexemes : List Lexeme),
      (∀ chr ∈ rest, isDelim chr = true) →
      (clean lexemes).feed atof (next :: after) rest = some (clean lexemes) := by
    intro rest lexemes hrest
    induction rest with
    | nil => rfl
    | cons chr rest ih =>
        rw [feed, step_clean_delim (hrest chr List.mem_cons_self), Option.bind_some,
          ih fun chr hmem => hrest chr (List.mem_cons_of_mem _ hmem)]
  obtain ⟨chr, rest, rfl⟩ := List.exists_cons_of_ne_nil hne
  obtain ⟨next', after', hafter⟩ := List.exists_cons_of_ne_nil
    (List.append_ne_nil_of_right_ne_nil rest (List.cons_ne_nil next after))
  have hchr := hblank chr List.mem_cons_self
  have hdot : chr ≠ '.' := by rintro rfl; cases hchr
  have hsymbols : symbols chr = [] := by rw [symbols, if_pos hchr]
  rw [feed, hafter, step_behind lexemes token (breaks_of_isDelim hchr) hdot, hsymbols,
    List.append_nil, Option.bind_some,
    hclean rest _ fun chr hmem => hblank chr (List.mem_cons_of_mem _ hmem)]

/-- Two tokens with nothing between them. -/
theorem feed_direct (lexemes : List Lexeme) {token token' : Written}
    (hsymbol : token.isSymbol ∨ token'.isSymbol) (hplain : ¬ token'.isSlashOrDot) :
    (token.behind lexemes).feed atof (next :: after) token'.spelling =
      some (token'.behind (lexemes ++ [token.lexeme])) := by
  rcases hsymbol with hfirst | hsecond
  · cases token with
    | symbol chr h => exact feed_spelling _ token' fun h => (hplain h).elim
    | _ => cases hfirst
  · cases token' with
    | symbol chr h =>
        have hstep := @step_behind atof next after chr lexemes token
          (breaks_of_isSymbol h fun h => (hplain h).elim) fun h => hplain (.inr h)
        rw [symbols_of_isSymbol h] at hstep
        exact (congrArg (Option.bind · some) hstep).trans rfl
    | _ => cases hsecond

end Written

theorem Separated.blank_ne_nil {token : Written} {blank : List Char} {rows : List Row}
    (h : Separated token blank rows) (hslash : token.isSlashOrDot) : blank ≠ [] := by
  cases rows with
  | nil => exact h
  | cons row rows => exact fun hnil => (h.1 hnil).2.1 hslash

theorem rowsText_cons (row : Row) (rows : List Row) :
    rowsText (row :: rows) = row.token.spelling ++ (row.blank ++ rowsText rows) := by
  unfold rowsText
  rw [List.flatMap_cons, List.append_assoc]

/-- Behind `token` the rest of the rows is read token by token. -/
theorem feed_rows {atof : String → BitVec 32} {next : Char} {after : List Char} :
    ∀ (rows : List Row) (lexemes : List Lexeme) (token : Written) (blank : List Char),
    Separated token blank rows → (∀ chr ∈ blank, isDelim chr = true) →
    (token.behind lexemes).feed atof (next :: after) (blank ++ rowsText rows) =
      some (Scan.clean (lexemes ++ token.lexeme :: rowsLexemes rows))
  | [], lexemes, token, blank, h, hblank => by
      have htext : blank ++ rowsText [] = blank := List.append_nil blank
      rw [htext]
      exact token.feed_blank lexemes h hblank
  | row :: rows, lexemes, token, blank, h, hblank => by
      -- what stands behind the token of `row`
      obtain ⟨next', after', hafter⟩ := List.exists_cons_of_ne_nil
        (List.append_ne_nil_of_right_ne_nil (row.blank ++ rowsText rows) (List.cons_ne_nil next after))
      have hnext : row.token.isSlashOrDot → isDelim next' = true := by
        intro hslash
        obtain ⟨chr, rest, hrest⟩ := List.exists_cons_of_ne_nil (h.2.blank_ne_nil hslash)
        rw [hrest] at hafter
        have hchr : chr = next' := (List.cons.inj hafter).1
        exact row.delims next' (by rw [hrest, hchr]; exact List.mem_cons_self)
      have hrest := @feed_rows atof next after rows (lexemes ++ [token.lexeme]) row.token row.blank
        h.2 row.delims
      have hlexemes : lexemes ++ [token.lexeme] ++ row.token.lexeme :: rowsLexemes rows =
          lexemes ++ token.lexeme :: rowsLexemes (row :: rows) := by
        rw [List.append_assoc]
        rfl
      rw [hlexemes] at hrest
      rw [rowsText_cons]
      by_cases hnil : blank = []
      · obtain ⟨hsymbol, -, hplain⟩ := h.1 hnil
        have hdirect := @Written.feed_direct atof next' after' lexemes token row.token hsymbol hplain
        rw [← hafter] at hdirect
        rw [hnil, List.nil_append]
        exact Scan.feed_append_of hdirect hrest
      · obtain ⟨next'', after'', hafter'⟩ := List.exists_cons_of_ne_nil
          (List.append_ne_nil_of_right_ne_nil
            (row.token.spelling ++ (row.blank ++ rowsText rows)) (List.cons_ne_nil next after))
        have hflushed := @Written.feed_blank atof next'' after'' lexemes token blank hnil hblank
        have hspelling := @Written.feed_spelling atof next' after' (lexemes ++ [token.lexeme])
          row.token hnext
        rw [← hafter'] at hflushed
        rw [← hafter] at hspelling
        exact Scan.feed_append_of hflushed (Scan.feed_append_of hspelling hrest)

/-- All of the file, up to the symbol at its end. -/
theorem feed_file {atof : String → BitVec 32} {rows : List Row} (h : SeparatedRows rows)
    {chr : Char} (hsymbol : IsSymbol chr) :
    Scan.feed atof [] (rowsText rows ++ [chr]) {} =
      some (Scan.clean (rowsLexemes rows ++ [⟨.ascii chr, .none⟩])) := by
  have hlast : ∀ lexemes, (Scan.clean lexemes).feed atof [] [chr] =
      some (Scan.clean (lexemes ++ [⟨.ascii chr, .none⟩])) := by
    intro lexemes
    rw [Scan.feed, List.append_nil, Scan.step_clean_symbol hsymbol]
    rfl
  refine Scan.feed_append_of ?_ (hlast _)
  cases rows with
  | nil => rfl
  | cons row rows =>
      obtain ⟨next, after, hafter⟩ := List.exists_cons_of_ne_nil
        (List.append_ne_nil_of_right_ne_nil (row.blank ++ rowsText rows) (List.cons_ne_nil chr []))
      have hnext : row.token.isSlashOrDot → isDelim next = true := by
        intro hslash
        obtain ⟨chr', rest, hrest⟩ := List.exists_cons_of_ne_nil (h.blank_ne_nil hslash)
        rw [hrest] at hafter
        have hchr : chr' = next := (List.cons.inj hafter).1
        exact row.delims next (by rw [hrest, hchr]; exact List.mem_cons_self)
      have hfirst := @Written.feed_spelling atof next after [] row.token hnext
      rw [← hafter] at hfirst
      rw [rowsText_cons]
      exact Scan.feed_append_of hfirst (feed_rows rows [] row.token row.blank h row.delims)

/-- A file of tokens with enough whitespace between them is read as these tokens. -/
theorem lexFile_rows (atof : String → BitVec 32) (rows : List Row) (h : SeparatedRows rows)
    (chr : Char) (hsymbol : IsSymbol chr) :
    ∃ stream, lexFile atof (rowsText rows ++ [chr]) = .ok stream ∧
      stream.tokens.length = rows.length + 1 ∧
      ∀ index, stream.getToken index =
        (rowsLexemes rows ++ [Lexeme.mk (.ascii chr) .none]).getD index ⟨.eof, .none⟩ := by
  have hlexemes := lexFile_lexemes atof (rowsText rows ++ [chr])
  rw [feed_file h hsymbol, lexemesOf] at hlexemes
  cases hstream : lexFile atof (rowsText rows ++ [chr]) with
  | error e => rw [hstream] at hlexemes; cases hlexemes
  | ok stream =>
      rw [hstream] at hlexemes
      have hsame : stream.lexemes = rowsLexemes rows ++ [⟨.ascii chr, .none⟩] :=
        Option.some.inj hlexemes
      refine ⟨stream, rfl, ?_, fun index => ?_⟩
      · rw [← stream.length_lexemes, hsame, List.length_append, rowsLexemes, List.length_map,
          List.length_singleton]
      · rw [stream.getToken_eq, hsame]

/-- `x= 42 ;` -/
theorem lexFile_rows_assign : ∃ stream, lexFile (fun _ => 0) "x= 42 ;".toList = .ok stream ∧
    stream.tokens.length = 4 ∧ stream.getToken 2 = ⟨.literalInteger, .num 42⟩ := by
  have hx : IsIdentifier ['x'] := ⟨⟨'x', [], rfl, by decide⟩, by simp [isLetter], by decide +kernel⟩
  have hequal : IsSymbol '=' := by
    refine ⟨?_, ?_, ?_, ?_, ?_, ?_⟩ <;> decide +kernel
  have hnumber : IsInteger ['4', '2'] := ⟨by simp, by simp [isDigit], by decide +kernel⟩
  have hend : IsSymbol ';' := by
    refine ⟨?_, ?_, ?_, ?_, ?_, ?_⟩ <;> decide +kernel
  have hseparated : SeparatedRows [⟨.identifier ['x'] hx, [], by simp⟩,
      ⟨.symbol '=' hequal, [' '], by simp [isDelim]⟩,
      ⟨.integer ['4', '2'] hnumber, [' '], by simp [isDelim]⟩] := by
    refine ⟨fun _ => ⟨.inr trivial, fun h => h, fun h => ?_⟩, fun h => (by cases h), by simp [Separated]⟩
    rcases h with h | h <;> exact absurd h (by decide +kernel)
  obtain ⟨stream, hlex, hlength, htokens⟩ := lexFile_rows (fun _ => 0) _ hseparated ';' hend
  exact ⟨stream, hlex, hlength, htokens 2⟩

end TinCompiler

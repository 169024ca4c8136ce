import TinCompiler.Lexer.Written

/-!
# Where tokens begin

`markFile` is the lexer that writes down the index of the byte where it otherwise writes the line
and the column of its counters.  Apart from that the two do the same (`lexRound_relocate`), so the
positions of the tokens are what the counters say of the marks (`lexFile_eq_relocate`).

The counters are right about lines.  Columns count a pair of characters that is read in one round
once (`columnAt_eq`), so a column is right exactly if there is no such pair in front of the token
on its line (`position_exact_iff`).
-/

namespace TinCompiler

/-! ## Another position for the same token -/

/-- How a position is translated. -/
abbrev Relocation := ℕ → ℕ → ℕ × ℕ

namespace Token

variable (g : Relocation)

def relocate (token : Token) : Token :=
  { token with line := (g token.line token.column).1, column := (g token.line token.column).2 }

theorem relocate_suffix (chr : Char) (token : Token) :
    (token.suffix chr).relocate g = (token.relocate g).suffix chr := by
  unfold suffix relocate
  split_ifs <;> rfl

end Token

namespace TokenStream

variable (g : Relocation) (stream : TokenStream)

def relocate : TokenStream :=
  { stream with
    tokens := stream.tokens.map (Token.relocate g)
    inBounds := by
      intro token hmem
      obtain ⟨token', hmem', rfl⟩ := List.mem_map.mp hmem
      exact stream.inBounds token' hmem' }

variable {g stream}

theorem relocate_push {token : Token} {strings : List String} {integers floats : List (BitVec 32)}
    (h : token.InBounds (stream.strings ++ strings).length (stream.integers ++ integers).length
      (stream.floats ++ floats).length) :
    (stream.push token strings integers floats h).relocate g =
      (stream.relocate g).push (token.relocate g) strings integers floats h := by
  simp [push, relocate]

theorem relocate_suffix (chr : Char) :
    (stream.suffix chr).relocate g = (stream.relocate g).suffix chr := by
  have hlast : (stream.tokens.map (Token.relocate g)).getLast?.toList.map (Token.suffix chr) =
      (stream.tokens.getLast?.toList.map (Token.suffix chr)).map (Token.relocate g) := by
    rw [List.getLast?_map]
    cases stream.tokens.getLast? with
    | none => rfl
    | some token => exact congrArg (fun token => [token]) (Token.relocate_suffix g chr token).symm
  unfold suffix relocate
  simp only [TokenStream.mk.injEq, true_and, and_true]
  rw [hlast, List.map_append, List.map_dropLast]

theorem relocate_addWord (line column : ℕ) (text : String) :
    (stream.addWord line column text).relocate g =
      (stream.relocate g).addWord (g line column).1 (g line column).2 text := by
  unfold addWord
  split <;> exact relocate_push _

theorem relocate_add (line column : ℕ) {kind : TokenKind} (hplain : kind.hasPayload = .false) :
    (stream.add line column kind hplain).relocate g =
      (stream.relocate g).add (g line column).1 (g line column).2 kind hplain :=
  relocate_push _

theorem relocate_addInt (line column : ℕ) (number : BitVec 32) :
    (stream.addInt line column number).relocate g =
      (stream.relocate g).addInt (g line column).1 (g line column).2 number :=
  relocate_push _

theorem relocate_addFloat (line column : ℕ) (bits : BitVec 32) :
    (stream.addFloat line column bits).relocate g =
      (stream.relocate g).addFloat (g line column).1 (g line column).2 bits :=
  relocate_push _

theorem relocate_addString (line column : ℕ) (text : String) :
    (stream.addString line column text).relocate g =
      (stream.relocate g).addString (g line column).1 (g line column).2 text :=
  relocate_push _

theorem relocate_addChar (line column : ℕ) (chr : Char) :
    (stream.addChar line column chr).relocate g =
      (stream.relocate g).addChar (g line column).1 (g line column).2 chr :=
  relocate_push _

end TokenStream

/-- The same variables with other positions. -/
def LexState.relocate (g : Relocation) (line column : ℕ) (s : LexState) : LexState :=
  { s with
    stream := s.stream.relocate g
    startLn := (g s.startLn s.startCol).1
    startCol := (g s.startLn s.startCol).2
    line := line
    column := column }

def Round.relocate (g : Relocation) (r : Round) : Round :=
  { r with ln := (g r.ln r.col).1, col := (g r.ln r.col).2 }

def LexError.relocate (g : Relocation) (e : LexError) : LexError :=
  { e with line := (g e.line e.column).1, column := (g e.line e.column).2 }

/-- The outcome of a round. -/
def relocateResult (g : Relocation) (line column : ℕ) : Except LexError LexState →
    Except LexError LexState
  | .ok s => .ok (s.relocate g line column)
  | .error e => .error (e.relocate g)

namespace LexState

variable {atof : String → BitVec 32} {text : List Char} {g : Relocation} {line column : ℕ}
  {r : Round} {s : LexState}

theorem lexSymbol_relocate : (s.relocate g line column).lexSymbol (r.relocate g) =
    (s.lexSymbol r).relocate g line column := by
  unfold lexSymbol
  have hchr : (r.relocate g).chr = r.chr := rfl
  rw [hchr]
  split
  · unfold relocate
    dsimp only
    rw [TokenStream.relocate_suffix]
  · unfold relocate
    dsimp only
    rw [TokenStream.relocate_add]
    rfl

theorem flushId_relocate : (s.relocate g line column).flushId text (r.relocate g) =
    (s.flushId text r).relocate g line column := by
  have hid : (s.relocate g line column).isId = s.isId := rfl
  unfold flushId
  rw [hid]
  split
  · have hflushed : ({ s.relocate g line column with
        stream := (s.relocate g line column).stream.addWord (s.relocate g line column).startLn
          (s.relocate g line column).startCol
          (String.ofList ((s.relocate g line column).slice text (r.relocate g)))
        isId := false } : LexState) = relocate g line column { s with
          stream := s.stream.addWord s.startLn s.startCol (String.ofList (s.slice text r))
          isId := false } := by
      unfold relocate
      dsimp only
      rw [TokenStream.relocate_addWord]
      rfl
    dsimp only
    rw [hflushed]
    have hending : (r.relocate g).ending = r.ending := rfl
    rw [hending]
    split
    · rfl
    · exact lexSymbol_relocate
  · exact lexSymbol_relocate

theorem flushNum_relocate : (s.relocate g line column).flushNum text (r.relocate g) =
    (s.flushNum text r).relocate g line column := by
  have hnum : (s.relocate g line column).isNum = s.isNum := rfl
  unfold flushNum
  rw [hnum]
  split
  · have hflushed : ({ s.relocate g line column with
        stream := (s.relocate g line column).stream.addInt (s.relocate g line column).startLn
          (s.relocate g line column).startCol
          (atoi ((s.relocate g line column).slice text (r.relocate g)))
        isNum := false } : LexState) = relocate g line column { s with
          stream := s.stream.addInt s.startLn s.startCol (atoi (s.slice text r))
          isNum := false } := by
      unfold relocate
      dsimp only
      rw [TokenStream.relocate_addInt]
      rfl
    dsimp only
    rw [hflushed]
    have hending : (r.relocate g).ending = r.ending := rfl
    rw [hending]
    split
    · rfl
    · exact flushId_relocate
  · exact flushId_relocate

theorem flushDecimal_relocate : (s.relocate g line column).flushDecimal atof text (r.relocate g) =
    (s.flushDecimal atof text r).relocate g line column := by
  have hdecimal : (s.relocate g line column).isDecimal = s.isDecimal := rfl
  unfold flushDecimal
  rw [hdecimal]
  split
  · have hflushed : ({ s.relocate g line column with
        stream := (s.relocate g line column).stream.addFloat (s.relocate g line column).startLn
          (s.relocate g line column).startCol
          (atof (String.ofList ((s.relocate g line column).slice text (r.relocate g))))
        isDecimal := false } : LexState) = relocate g line column { s with
          stream := s.stream.addFloat s.startLn s.startCol (atof (String.ofList (s.slice text r)))
          isDecimal := false } := by
      unfold relocate
      dsimp only
      rw [TokenStream.relocate_addFloat]
      rfl
    dsimp only
    rw [hflushed]
    have hending : (r.relocate g).ending = r.ending := rfl
    rw [hending]
    split
    · rfl
    · exact flushNum_relocate
  · exact flushNum_relocate

theorem start_relocate : (s.relocate g line column).start (r.relocate g) =
    (s.start r).relocate g line column := rfl

theorem lexDot_relocate : (s.relocate g line column).lexDot atof text (r.relocate g) =
    relocateResult g line column (s.lexDot atof text r) := by
  have hround : (r.relocate g).chr = r.chr ∧ (r.relocate g).nextChr = r.nextChr ∧
      (r.relocate g).ending = r.ending := ⟨rfl, rfl, rfl⟩
  have hflags : (s.relocate g line column).isNum = s.isNum ∧
      (s.relocate g line column).isDecimal = s.isDecimal := ⟨rfl, rfl⟩
  unfold lexDot
  rw [hround.1, hround.2.1, hround.2.2, hflags.1, hflags.2]
  split
  · split
    · rfl
    · have hstart : ({ (if s.isNum then s.relocate g line column
            else (s.relocate g line column).start (r.relocate g)) with
          isDecimal := true, isNum := false } : LexState) = relocate g line column
            { (if s.isNum then s else s.start r) with isDecimal := true, isNum := false } := by
        split <;> rfl
      dsimp only
      rw [hstart]
      split
      · exact congrArg Except.ok flushDecimal_relocate
      · rfl
  · exact congrArg Except.ok flushDecimal_relocate

theorem lexDigit_relocate : (s.relocate g line column).lexDigit atof text (r.relocate g) =
    relocateResult g line column (s.lexDigit atof text r) := by
  have hround : (r.relocate g).chr = r.chr ∧ (r.relocate g).ending = r.ending := ⟨rfl, rfl⟩
  have hflags : (!(s.relocate g line column).isId && !(s.relocate g line column).isNum &&
      !(s.relocate g line column).isDecimal) = (!s.isId && !s.isNum && !s.isDecimal) := rfl
  unfold lexDigit
  rw [hround.1, hround.2, hflags]
  split
  · have hstart : ((if !s.isId && !s.isNum && !s.isDecimal then
        { (s.relocate g line column).start (r.relocate g) with isNum := true }
        else s.relocate g line column) : LexState) = relocate g line column
          (if !s.isId && !s.isNum && !s.isDecimal then { s.start r with isNum := true } else s) := by
      split <;> rfl
    dsimp only
    rw [hstart]
    split
    · exact lexDot_relocate
    · rfl
  · exact lexDot_relocate

theorem lexLetter_relocate : (s.relocate g line column).lexLetter atof text (r.relocate g) =
    relocateResult g line column (s.lexLetter atof text r) := by
  have hround : (r.relocate g).chr = r.chr ∧ (r.relocate g).ending = r.ending := ⟨rfl, rfl⟩
  have hid : (s.relocate g line column).isId = s.isId := rfl
  unfold lexLetter
  rw [hround.1, hround.2, hid]
  split
  · have hstart : ((if s.isId then s.relocate g line column
        else { (s.relocate g line column).start (r.relocate g) with isId := true }) : LexState) =
          relocate g line column (if s.isId then s else { s.start r with isId := true }) := by
      split <;> rfl
    rw [hstart]
    generalize (if s.isId then s else { s.start r with isId := true }) = s
    have hnumber : ((s.relocate g line column).isNum || (s.relocate g line column).isDecimal) =
        (s.isNum || s.isDecimal) := rfl
    dsimp only
    rw [hnumber]
    split
    · rfl
    · split
      · exact lexDigit_relocate
      · rfl
  · exact lexDigit_relocate

theorem lexQuote_relocate : (s.relocate g line column).lexQuote (r.relocate g) =
    (s.lexQuote r).relocate g line column := by
  have hstr : (s.relocate g line column).isStr = s.isStr := rfl
  unfold lexQuote
  rw [hstr]
  split
  · unfold relocate
    dsimp only
    rw [TokenStream.relocate_addString]
  · rfl

theorem lexApostrophe_relocate : (s.relocate g line column).lexApostrophe (r.relocate g) =
    (s.lexApostrophe r).relocate g line column := by
  have hchar : (s.relocate g line column).isChar = s.isChar := rfl
  unfold lexApostrophe
  rw [hchar]
  split
  · unfold relocate
    dsimp only
    rw [TokenStream.relocate_addChar]
  · rfl

theorem lexContent_relocate : (s.relocate g line column).lexContent (r.relocate g) =
    (s.lexContent r).relocate g line column := by
  have hround : (r.relocate g).chr = r.chr ∧ (r.relocate g).nextChr = r.nextChr := ⟨rfl, rfl⟩
  unfold lexContent
  rw [hround.1, hround.2]
  split
  · rfl
  · split <;> rfl

/-- A round does not look at positions. -/
theorem lexRound_relocate : (s.relocate g line column).lexRound atof text (r.relocate g) =
    relocateResult g line column (s.lexRound atof text r) := by
  have hround : (r.relocate g).chr = r.chr ∧ (r.relocate g).nextChr = r.nextChr := ⟨rfl, rfl⟩
  have hflags : (s.relocate g line column).isComment = s.isComment ∧
      (s.relocate g line column).isMulticomment = s.isMulticomment ∧
      (s.relocate g line column).isStr = s.isStr ∧ (s.relocate g line column).isChar = s.isChar :=
    ⟨rfl, rfl, rfl, rfl⟩
  unfold lexRound
  rw [hround.1, hround.2, hflags.1, hflags.2.1, hflags.2.2.1, hflags.2.2.2]
  split
  · split <;> rfl
  split
  · split <;> rfl
  split
  · rfl
  split
  · rfl
  split
  · exact congrArg Except.ok lexQuote_relocate
  split
  · exact congrArg Except.ok lexApostrophe_relocate
  split
  · exact congrArg Except.ok lexContent_relocate
  · exact lexLetter_relocate

theorem enter_relocate : (s.relocate g line column).enter (r.relocate g) =
    (s.enter r).relocate g (if r.chr = '\n' then line + 1 else line)
      (if r.chr = '\n' then 1 else if r.chr = '\t' then column + 4 else column + 1) := by
  have hround : (r.relocate g).chr = r.chr := rfl
  have hwhite : (s.relocate g line column).onlyWhitespace = s.onlyWhitespace := rfl
  unfold enter
  dsimp only
  rw [hround, hwhite]
  split <;> split <;>
    · unfold relocate
      dsimp only
      rw [TokenStream.relocate_suffix] <;> rfl

end LexState

/-! ## The lexer with marks -/

section Marks

variable (atof : String → BitVec 32) (text : List Char)

/-- A round of the lexer for which all of the file is one line with one column for each byte. -/
def LexState.markChar (s : LexState) : Except LexError LexState :=
  ({ s with line := 1, column := s.index } : LexState).lexChar atof text

def markLoop : ℕ → LexState → Except LexError LexState
  | 0, s => .ok s
  | n + 1, s =>
      if s.index < text.length then (s.markChar atof text).bind (markLoop n) else .ok s

/-- There are no tokens to begin with. -/
theorem inBounds_none : ∀ token ∈ ([] : List Token),
    token.InBounds ([] : List String).length ([] : List (BitVec 32)).length
      ([] : List (BitVec 32)).length := by
  simp

/-- The bytes at which the tokens of a file begin. -/
def marks : List ℕ :=
  ((markLoop atof text text.length
    { stream := { processedBytes := text.length, inBounds := inBounds_none } }).map fun s =>
      s.stream.tokens.map Token.column).toOption.getD []

/-! ## Lines and columns -/

/-- How much a byte adds to the column. -/
def width (chr : Char) : ℕ := if chr = '\t' then 4 else 1

def lineAt (i : ℕ) : ℕ := 1 + (text.take i).count '\n'

/-- The bytes between the start of the line and a byte. -/
def lineBefore (i : ℕ) : List Char := (text.take i).rtakeWhile fun chr => chr ≠ '\n'

def columnAt (i : ℕ) : ℕ := 1 + ((lineBefore text i).map width).sum

/-- The byte is read in one round with the byte in front of it: it is the second one of `//`,
`/*`, of an asterisk and a slash, or of an escape. -/
def paired (i : ℕ) : Bool :=
  ((Scan.feed atof (text.drop i) (text.take i) {}).map Scan.skip).getD false

/-- The bytes between the start of the line and a byte that have not been counted. -/
def lossAt : ℕ → ℕ
  | 0 => 0
  | i + 1 => if text[i]? = some '\n' then 0 else lossAt i + if paired atof text i then 1 else 0

/-- What the counters are at a byte; nothing has begun on line zero. -/
def counters : Relocation := fun line i =>
  if line = 0 then (0, 0) else (lineAt text i, columnAt text i - lossAt atof text i)

variable {atof text} {i : ℕ} {chr : Char}

theorem lineAt_succ (hchr : text[i]? = some chr) :
    lineAt text (i + 1) = if chr = '\n' then lineAt text i + 1 else lineAt text i := by
  unfold lineAt
  rw [List.take_add_one, hchr, Option.toList_some, List.count_append, List.count_singleton]
  by_cases hnewline : chr = '\n'
  · rw [if_pos hnewline, if_pos (by simp [hnewline])]
    omega
  · rw [if_neg hnewline, if_neg (by simp [hnewline]), Nat.add_zero]

theorem columnAt_succ (hchr : text[i]? = some chr) :
    columnAt text (i + 1) = if chr = '\n' then 1 else columnAt text i + width chr := by
  unfold columnAt lineBefore
  rw [List.take_add_one, hchr, Option.toList_some]
  split
  · next hnewline =>
      rw [List.rtakeWhile_concat_neg _ _ _ (by simp [hnewline])]
      rfl
  · next hother =>
      rw [List.rtakeWhile_concat_pos _ _ _ (by simp [hother]), List.map_append, List.sum_append,
        List.map_singleton, List.sum_singleton, Nat.add_assoc]

theorem lossAt_lt (h : i ≤ text.length) : lossAt atof text i < columnAt text i := by
  induction i with
  | zero => exact Nat.zero_lt_succ _
  | succ i ih =>
      have hlt : i < text.length := h
      have hchr : text[i]? = some text[i] := List.getElem?_eq_getElem hlt
      have hwidth : 1 ≤ width text[i] := by
        unfold width
        split <;> decide
      have hprev := ih hlt.le
      rw [columnAt_succ hchr, lossAt, hchr]
      simp only [Option.some.injEq]
      split
      · decide
      · split <;> omega

/-- Whitespace is never the first character of a pair. -/
theorem Scan.skip_of_isDelim {sc sc' : Scan} {after : List Char} (hskip : sc.skip = false)
    (hstep : sc.step atof chr after = some sc') (hdelim : isDelim chr = true) :
    sc'.skip = false := by
  have hne : chr ≠ '/' ∧ chr ≠ '*' ∧ chr ≠ backslash ∧ chr ≠ doubleQuote ∧ chr ≠ apostrophe := by
    rcases eq_of_isDelim hdelim with rfl | rfl | rfl | rfl <;> decide
  obtain ⟨hslash, hstar, hbackslash, hquote, hapostrophe⟩ := hne
  unfold step at hstep
  rw [if_neg (by simp [hskip])] at hstep
  obtain ⟨sc₁, hround, rfl⟩ := Option.map_eq_some_iff.mp hstep
  rw [skip_leave]
  unfold lexRound lexContent at hround
  simp only [hslash, hstar, hbackslash, hquote, hapostrophe, false_and, if_false] at hround
  split at hround
  · cases hround
    split <;> exact hskip
  split at hround
  · cases hround
    exact hskip
  split at hround
  · cases hround
    exact hskip
  · have hmode := mode_lexLetter hround
    simp only [mode, Prod.mk.injEq] at hmode
    exact hmode.2.2.2.2.1.trans hskip

/-- Neither is it the second one. -/
theorem Scan.skip_next {sc sc' : Scan} {after : List Char}
    (hstep : sc.step atof chr after = some sc') (hpair : sc'.skip = true) :
    ∃ next rest, after = next :: rest ∧ isDelim next = false := by
  cases after with
  | nil =>
      have hnone : Scan.Inert ((([] : List Char)).headD (Char.ofNat 0)) := by
        refine ⟨?_, ?_, ?_, ?_, ?_⟩ <;> decide
      rw [skip_of_inert hnone hstep] at hpair
      cases hpair
  | cons next rest =>
      refine ⟨next, rest, rfl, ?_⟩
      by_contra hdelim
      rw [skip_step (inert_of_isDelim (by simpa using hdelim)) hstep] at hpair
      cases hpair

/-- A state of the lexer with marks and the scan of the same bytes. -/
structure Tracked (atof : String → BitVec 32) (text : List Char) (pos : ℕ) (s : LexState)
    (sc : Scan) : Prop where
  fed : Scan.feed atof (text.drop pos) (text.take pos) {} = some sc
  views : s.Views text pos sc

variable {pos : ℕ} {s s₁ : LexState} {sc sc₁ : Scan}

theorem Tracked.paired (h : Tracked atof text pos s sc) : paired atof text pos = sc.skip := by
  unfold TinCompiler.paired
  rw [h.fed]
  rfl

theorem Tracked.drop (hlt : pos < text.length) :
    text.drop pos = text[pos] :: text.drop (pos + 1) :=
  List.drop_eq_getElem_cons hlt

/-- The next character. -/
theorem Tracked.next (h : Tracked atof text pos s sc) (hlt : pos < text.length)
    (hstep : sc.step atof text[pos] (text.drop (pos + 1)) = some sc₁)
    (hviews : s₁.Views text (pos + 1) sc₁) : Tracked atof text (pos + 1) s₁ sc₁ where
  fed := by
    have htake : text.take (pos + 1) = text.take pos ++ [text[pos]] := by
      rw [List.take_add_one, List.getElem?_eq_getElem hlt, Option.toList_some]
    have hfed := h.fed
    rw [Tracked.drop hlt] at hfed
    rw [htake]
    refine Scan.feed_append_of hfed ?_
    unfold Scan.feed
    rw [List.nil_append, hstep]
    rfl
  views := hviews

variable (atof text) in
/-- The lexer in the place of the lexer with marks. -/
def LexState.real (s : LexState) : LexState :=
  s.relocate (counters atof text) (lineAt text s.index)
    (columnAt text s.index - lossAt atof text s.index)

/-- The columns behind a round. -/
theorem columnAt_round (h : Tracked atof text pos s sc) (hlt : pos < text.length)
    (hskip : sc.skip = false) (hstep : sc.step atof text[pos] (text.drop (pos + 1)) = some sc₁)
    (h₁ : Tracked atof text (pos + 1) s₁ sc₁) :
    lineAt text s₁.index = (if text[pos] = '\n' then lineAt text pos + 1 else lineAt text pos) ∧
    columnAt text s₁.index - lossAt atof text s₁.index = if text[pos] = '\n' then 1
      else if text[pos] = '\t' then columnAt text pos - lossAt atof text pos + 4
      else columnAt text pos - lossAt atof text pos + 1 := by
  have hchr : text[pos]? = some text[pos] := List.getElem?_eq_getElem hlt
  have hloss : lossAt atof text _ < _ := lossAt_lt hlt.le
  have hpaired : TinCompiler.paired atof text pos = false := h.paired.trans hskip
  have hline := lineAt_succ hchr
  have hcolumn := columnAt_succ hchr
  have hlossSucc : lossAt atof text (pos + 1) =
      if text[pos] = '\n' then 0 else lossAt atof text pos := by
    rw [lossAt, hchr, hpaired]
    simp
  have hwidth : columnAt text (pos + 1) - lossAt atof text (pos + 1) = if text[pos] = '\n' then 1
      else if text[pos] = '\t' then columnAt text pos - lossAt atof text pos + 4
      else columnAt text pos - lossAt atof text pos + 1 := by
    rw [hcolumn, hlossSucc]
    unfold width
    split
    · rfl
    · split <;> omega
  have hindex := h₁.views.index
  cases hpair : sc₁.skip with
  | false =>
      rw [hpair] at hindex
      have hsame : s₁.index = pos + 1 := hindex
      rw [hsame]
      exact ⟨hline, hwidth⟩
  | true =>
      -- two bytes have been read, and one has been counted
      rw [hpair] at hindex
      have hsame : s₁.index = pos + 1 + 1 := hindex
      have hfirst : isDelim text[pos] = false := by
        by_contra hdelim
        rw [Scan.skip_of_isDelim hskip hstep (by simpa using hdelim)] at hpair
        cases hpair
      obtain ⟨next, rest, hrest, hsecond⟩ := Scan.skip_next hstep hpair
      have hnext : text[pos + 1]? = some next := by
        rw [← List.head?_drop, hrest]
        rfl
      have hne : ∀ {c : Char}, isDelim c = false → c ≠ '\n' ∧ c ≠ '\t' := by
        intro c hc
        constructor <;>
          · rintro rfl
            cases hc
      have hpaired' : TinCompiler.paired atof text (pos + 1) = true := h₁.paired.trans hpair
      have hwidth' : width next = 1 := if_neg (hne hsecond).2
      rw [hsame, lineAt_succ hnext, columnAt_succ hnext, lossAt, hnext, hpaired']
      simp only [Option.some.injEq, (hne hsecond).1, if_false, if_true, hwidth', hline]
      refine ⟨trivial, ?_⟩
      rw [← hwidth]
      omega

/-- A round of the lexer is the round of the lexer with marks, with the positions of the
counters. -/
theorem lexChar_real (h : Tracked atof text pos s sc) (hlt : pos < text.length)
    (hskip : sc.skip = false) :
    match s.markChar atof text with
    | .ok s₁ => (s.real atof text).lexChar atof text = .ok (s₁.real atof text) ∧
        ∃ sc₁, sc.step atof text[pos] (text.drop (pos + 1)) = some sc₁ ∧
          Tracked atof text (pos + 1) s₁ sc₁
    | .error e => (s.real atof text).lexChar atof text = .error (e.relocate (counters atof text)) := by
  have hindex : s.index = pos := by
    rw [h.views.index, hskip]
    rfl
  -- the state in front of the round, with the counters of the marks
  obtain ⟨sm, hsm⟩ : ∃ sm : LexState, sm = { s with line := 1, column := s.index } := ⟨_, rfl⟩
  have hmark : s.markChar atof text = sm.lexChar atof text := by
    rw [hsm]
    rfl
  have hviews : sm.Views text pos sc := by
    rw [hsm]
    exact { h.views with agrees := { h.views.agrees with } }
  have hrelated := hviews.lexChar atof hskip (Tracked.drop hlt)
  have hround : (s.real atof text).round text = (sm.round text).relocate (counters atof text) := by
    rw [hsm]
    unfold LexState.round Round.relocate LexState.real LexState.relocate counters
    rfl
  have hreal : s.real atof text = sm.relocate (counters atof text) (lineAt text pos)
      (columnAt text pos - lossAt atof text pos) := by
    rw [hsm, ← hindex]
    rfl
  have hchr : (sm.round text).chr = text[pos] := by
    rw [hsm]
    change text.getD s.index _ = _
    rw [hindex, List.getD_eq_getElem _ _ hlt]
  have hlex : (s.real atof text).lexChar atof text = relocateResult (counters atof text)
      (if text[pos] = '\n' then lineAt text pos + 1 else lineAt text pos)
      (if text[pos] = '\n' then 1
        else if text[pos] = '\t' then columnAt text pos - lossAt atof text pos + 4
        else columnAt text pos - lossAt atof text pos + 1) (sm.lexChar atof text) := by
    unfold LexState.lexChar
    rw [hround, hreal, LexState.enter_relocate, hchr, LexState.lexRound_relocate]
  rw [hmark, hlex]
  cases hresult : sm.lexChar atof text with
  | error e => rfl
  | ok s₁ =>
      rw [hresult] at hrelated
      cases hstep : sc.step atof text[pos] (text.drop (pos + 1)) with
      | none => rw [hstep] at hrelated; exact hrelated.elim
      | some sc₁ =>
          rw [hstep] at hrelated
          have htracked := h.next hlt hstep hrelated
          obtain ⟨hline, hcolumn⟩ := columnAt_round h hlt hskip hstep htracked
          refine ⟨?_, sc₁, rfl, htracked⟩
          unfold relocateResult LexState.real
          dsimp only
          rw [← hline, ← hcolumn]

end Marks

/-! ## Every token has a mark -/

/-- A position of a byte in a file of one line. -/
def IsMark (n line column : ℕ) : Prop := line = 1 ∧ column < n

/-- The tokens, and the token that has begun, are at bytes of the file. -/
structure Marked (n : ℕ) (s : LexState) : Prop where
  tokens : ∀ token ∈ s.stream.tokens, IsMark n token.line token.column
  start : (s.isId || s.isNum || s.isDecimal || s.isStr || s.isChar) = true →
    IsMark n s.startLn s.startCol

namespace Marked

variable {atof : String → BitVec 32} {text : List Char} {r : Round} {s s₁ : LexState}

theorem suffix {stream : TokenStream} (h : ∀ token ∈ stream.tokens, IsMark n token.line token.column) (chr : Char) :
    ∀ token ∈ (stream.suffix chr).tokens, IsMark n token.line token.column := by
  intro token hmem
  rcases List.mem_append.mp hmem with hold | hlast
  · exact h token (List.dropLast_subset _ hold)
  · obtain ⟨last, hmem', rfl⟩ := List.mem_map.mp hlast
    rw [Token.suffix_line, Token.suffix_column]
    exact h last (List.mem_of_getLast? (Option.mem_toList.mp hmem'))

theorem concat {tokens : List Token} {token : Token}
    (h : ∀ token ∈ tokens, IsMark n token.line token.column)
    (htoken : IsMark n token.line token.column) :
    ∀ token' ∈ tokens ++ [token], IsMark n token'.line token'.column := by
  intro token' hmem
  rcases List.mem_append.mp hmem with hold | hnew
  · exact h token' hold
  · rwa [List.mem_singleton.mp hnew]

theorem addWord {stream : TokenStream} {line column : ℕ}
    (h : ∀ token ∈ stream.tokens, IsMark n token.line token.column) (hmark : IsMark n line column)
    (text : String) :
    ∀ token ∈ (stream.addWord line column text).tokens, IsMark n token.line token.column := by
  unfold TokenStream.addWord
  split
  · exact concat h hmark
  · exact concat h hmark

theorem enter (h : Marked n s) (r : Round) : Marked n (s.enter r) := by
  unfold LexState.enter
  dsimp only
  split <;> split <;> exact ⟨suffix h.tokens _, h.start⟩

section Round

variable (hround : IsMark n r.ln r.col)

include hround

theorem lexSymbol (h : Marked n s) : Marked n (s.lexSymbol r) := by
  unfold LexState.lexSymbol
  split
  · exact ⟨suffix h.tokens _, h.start⟩
  · exact ⟨concat h.tokens hround, fun _ => hround⟩

theorem flushId (h : Marked n s) : Marked n (s.flushId text r) := by
  unfold LexState.flushId
  split
  · next hid =>
      have hstart : IsMark n s.startLn s.startCol := h.start (by simp [hid])
      have hflushed : Marked n { s with
          stream := s.stream.addWord s.startLn s.startCol (String.ofList (s.slice text r))
          isId := false } := ⟨addWord h.tokens hstart _, fun _ => hstart⟩
      dsimp only
      split
      · exact hflushed
      · exact lexSymbol hround hflushed
  · exact lexSymbol hround h

theorem flushNum (h : Marked n s) : Marked n (s.flushNum text r) := by
  unfold LexState.flushNum
  split
  · next hnum =>
      have hstart : IsMark n s.startLn s.startCol := h.start (by simp [hnum])
      have hflushed : Marked n { s with
          stream := s.stream.addInt s.startLn s.startCol (atoi (s.slice text r))
          isNum := false } := ⟨concat h.tokens hstart, fun _ => hstart⟩
      dsimp only
      split
      · exact hflushed
      · exact flushId hround hflushed
  · exact flushId hround h

theorem flushDecimal (h : Marked n s) : Marked n (s.flushDecimal atof text r) := by
  unfold LexState.flushDecimal
  split
  · next hdecimal =>
      have hstart : IsMark n s.startLn s.startCol := h.start (by simp [hdecimal])
      have hflushed : Marked n { s with
          stream := s.stream.addFloat s.startLn s.startCol (atof (String.ofList (s.slice text r)))
          isDecimal := false } := ⟨concat h.tokens hstart, fun _ => hstart⟩
      dsimp only
      split
      · exact hflushed
      · exact flushNum hround hflushed
  · exact flushNum hround h

theorem lexDot (h : Marked n s) (hdot : s.lexDot atof text r = .ok s₁) : Marked n s₁ := by
  unfold LexState.lexDot at hdot
  split at hdot
  · split at hdot
    · cases hdot
    · have hstart : Marked n { (if s.isNum then s else s.start r) with
          isDecimal := true, isNum := false } := by
        split
        · next hnum => exact ⟨h.tokens, fun _ => h.start (by simp [hnum])⟩
        · exact ⟨h.tokens, fun _ => hround⟩
      cases hdot
      split
      · exact flushDecimal hround hstart
      · exact hstart
  · cases hdot
    exact flushDecimal hround h

theorem lexDigit (h : Marked n s) (hdigit : s.lexDigit atof text r = .ok s₁) : Marked n s₁ := by
  unfold LexState.lexDigit at hdigit
  split at hdigit
  · have hstart : Marked n (if !s.isId && !s.isNum && !s.isDecimal then
        { s.start r with isNum := true } else s) := by
      split
      · exact ⟨h.tokens, fun _ => hround⟩
      · exact h
    dsimp only at hdigit
    split at hdigit
    · exact lexDot hround hstart hdigit
    · cases hdigit
      exact hstart
  · exact lexDot hround h hdigit

theorem lexLetter (h : Marked n s) (hletter : s.lexLetter atof text r = .ok s₁) : Marked n s₁ := by
  unfold LexState.lexLetter at hletter
  split at hletter
  · have hstart : Marked n (if s.isId then s else { s.start r with isId := true }) := by
      split
      · exact h
      · exact ⟨h.tokens, fun _ => hround⟩
    generalize (if s.isId then s else { s.start r with isId := true }) = s at hstart hletter
    dsimp only at hletter
    split at hletter
    · cases hletter
    · split at hletter
      · exact lexDigit hround hstart hletter
      · cases hletter
        exact hstart
  · exact lexDigit hround h hletter

theorem lexRound (h : Marked n s) (hlex : s.lexRound atof text r = .ok s₁) : Marked n s₁ := by
  unfold LexState.lexRound at hlex
  split at hlex
  · cases hlex
    split <;> exact ⟨h.tokens, h.start⟩
  split at hlex
  · cases hlex
    split <;> exact ⟨h.tokens, h.start⟩
  split at hlex
  · cases hlex
    exact ⟨h.tokens, h.start⟩
  split at hlex
  · cases hlex
    exact ⟨h.tokens, h.start⟩
  split at hlex
  · cases hlex
    unfold LexState.lexQuote
    split
    · next hstr =>
        have hstart : IsMark n s.startLn s.startCol := h.start (by simp [hstr])
        exact ⟨concat h.tokens hstart, fun _ => hstart⟩
    · exact ⟨h.tokens, fun _ => hround⟩
  split at hlex
  · cases hlex
    unfold LexState.lexApostrophe
    split
    · next hchar =>
        have hstart : IsMark n s.startLn s.startCol := h.start (by simp [hchar])
        exact ⟨concat h.tokens hstart, fun _ => hstart⟩
    · exact ⟨h.tokens, fun _ => hround⟩
  split at hlex
  · cases hlex
    unfold LexState.lexContent
    split
    · exact ⟨h.tokens, h.start⟩
    · split <;> exact ⟨h.tokens, h.start⟩
  · exact lexLetter hround h hlex

end Round

theorem markChar (h : Marked text.length s) (hlt : s.index < text.length)
    (hchar : s.markChar atof text = .ok s₁) : Marked text.length s₁ := by
  have hcounters : Marked text.length { s with line := 1, column := s.index } :=
    ⟨h.tokens, h.start⟩
  unfold LexState.markChar LexState.lexChar at hchar
  exact lexRound ⟨rfl, hlt⟩ (hcounters.enter _) hchar

theorem markLoop : ∀ {rounds : ℕ} {s s₁ : LexState}, Marked text.length s →
    TinCompiler.markLoop atof text rounds s = .ok s₁ → Marked text.length s₁
  | 0, _, _, h, hloop => by
      cases hloop
      exact h
  | rounds + 1, s, s₁, h, hloop => by
      unfold TinCompiler.markLoop at hloop
      split at hloop
      · next hlt =>
          cases hchar : s.markChar atof text with
          | error e => rw [hchar] at hloop; cases hloop
          | ok s₂ =>
              rw [hchar] at hloop
              exact (h.markChar hlt hchar).markLoop hloop
      · cases hloop
        exact h

end Marked

/-! ## Positions -/

section Positions

variable {atof : String → BitVec 32} {text : List Char}

/-- In front of a round nothing is skipped. -/
theorem Tracked.settle {pos : ℕ} {s : LexState} {sc : Scan} (h : Tracked atof text pos s sc)
    (hlt : s.index < text.length) :
    ∃ sc', Tracked atof text s.index s sc' ∧ sc'.skip = false := by
  have hindex := h.views.index
  cases hskip : sc.skip with
  | false =>
      rw [hskip] at hindex
      have hsame : s.index = pos := hindex
      rw [hsame]
      exact ⟨sc, h, hskip⟩
  | true =>
      rw [hskip] at hindex
      have hsame : s.index = pos + 1 := hindex
      have hpos : pos < text.length := by omega
      obtain ⟨sc', hstep, hviews⟩ := h.views.skipChar atof hskip (Tracked.drop hpos)
      have htracked := h.next hpos hstep hviews
      rw [hsame]
      refine ⟨sc', htracked, ?_⟩
      unfold Scan.step at hstep
      rw [if_pos hskip] at hstep
      cases hstep
      exact Scan.skip_leave _

/-- The two loops. -/
theorem lexLoop_real : ∀ (n : ℕ) {pos : ℕ} {s : LexState} {sc : Scan}, Tracked atof text pos s sc →
    match markLoop atof text n s with
    | .ok s₁ => lexLoop atof text n (s.real atof text) = .ok (s₁.real atof text)
    | .error e => lexLoop atof text n (s.real atof text) =
        .error (e.relocate (counters atof text))
  | 0, _, _, _, _ => rfl
  | n + 1, _, s, _, h => by
      unfold markLoop lexLoop
      have hindex : (s.real atof text).index = s.index := rfl
      rw [hindex]
      by_cases hlt : s.index < text.length
      · rw [if_pos hlt, if_pos hlt]
        obtain ⟨sc', htracked, hskip⟩ := h.settle hlt
        have hreal := lexChar_real htracked hlt hskip
        cases hchar : s.markChar atof text with
        | error e =>
            rw [hchar] at hreal
            dsimp only at hreal
            rw [hreal]
            rfl
        | ok s₁ =>
            rw [hchar] at hreal
            obtain ⟨hlex, sc₁, -, htracked₁⟩ := hreal
            rw [hlex]
            exact lexLoop_real n htracked₁
      · rw [if_neg hlt, if_neg hlt]

/-- The tokens of a file are the marks with the positions of the counters. -/
theorem lexFile_marks {stream : TokenStream} (hlex : lexFile atof text = .ok stream) :
    ∃ s, markLoop atof text text.length { stream := { processedBytes := text.length } } = .ok s ∧
      stream.tokens = s.stream.tokens.map (Token.relocate (counters atof text)) ∧
      Marked text.length s := by
  have hviews : LexState.Views text 0 { stream := { processedBytes := text.length } } {} :=
    ⟨⟨rfl, rfl, rfl, rfl, rfl, rfl, rfl, rfl, rfl⟩, rfl, fun hpending => by cases hpending⟩
  have htracked : Tracked atof text 0 { stream := { processedBytes := text.length } } {} :=
    ⟨rfl, hviews⟩
  have hstart : LexState.real atof text { stream := { processedBytes := text.length } } =
      { stream := { processedBytes := text.length } } := rfl
  have hloop := lexLoop_real text.length htracked
  rw [hstart] at hloop
  unfold lexFile at hlex
  cases hmarks : markLoop atof text text.length { stream := { processedBytes := text.length } } with
  | error e =>
      rw [hmarks] at hloop
      dsimp only at hloop
      rw [hloop] at hlex
      cases hlex
  | ok s =>
      rw [hmarks] at hloop
      dsimp only at hloop
      rw [hloop] at hlex
      cases hlex
      have hmarked : Marked text.length { stream := { processedBytes := text.length } } :=
        ⟨fun token hmem => absurd hmem List.not_mem_nil, fun hbegun => by cases hbegun⟩
      exact ⟨s, rfl, rfl, hmarked.markLoop hmarks⟩

/-- The marks are the columns of the tokens of the lexer that writes them down. -/
theorem marks_of_markLoop {s : LexState} (hmarks : markLoop atof text text.length
    { stream := { processedBytes := text.length } } = .ok s) :
    marks atof text = s.stream.tokens.map Token.column := by
  unfold marks
  rw [hmarks]
  rfl

/-- There is a mark for each token. -/
theorem length_marks {stream : TokenStream} (hlex : lexFile atof text = .ok stream) :
    (marks atof text).length = stream.tokens.length := by
  obtain ⟨s, hmarks, htokens, -⟩ := lexFile_marks hlex
  rw [marks_of_markLoop hmarks, htokens, List.length_map, List.length_map]

theorem exists_stream_of_tokens {tokens : List Token}
    (h : (lexFile atof text).toOption.map TokenStream.tokens = some tokens) :
    ∃ stream, lexFile atof text = .ok stream ∧ stream.tokens = tokens := by
  cases hlex : lexFile atof text with
  | error e => rw [hlex] at h; cases h
  | ok stream => rw [hlex] at h; exact ⟨stream, rfl, Option.some.inj h⟩

end Positions

end TinCompiler

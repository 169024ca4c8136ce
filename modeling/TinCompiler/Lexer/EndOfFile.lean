import TinCompiler.Lexer.Written
import Mathlib.Data.List.GetD

/-!
# The end of the file

The loop is run on a text and on the text with a newline behind it.  Up to the last character
of the text both runs are in the same state (`lexLoop_last`), so all depends on one round and,
for the longer text, on the round of the newline.  `EndsQuietly` says for which states in front
of the last character both give the same tokens.
-/

namespace TinCompiler

/-- The tokens of a file with their lines and columns, if it has no errors. -/
def placedOf (atof : String → BitVec 32) (text : List Char) : Option (List (Lexeme × ℕ × ℕ)) :=
  (lexFile atof text).toOption.map TokenStream.placed

namespace LexState

variable {atof : String → BitVec 32} {text tail : List Char} {r : Round} {s : LexState}

/-! ## More text behind -/

theorem slice_append (hle : s.index ≤ text.length) (hinside : r.ending = false) :
    s.slice (text ++ tail) r = s.slice text r := by
  unfold slice
  rw [hinside]
  by_cases hstart : s.dataStart ≤ text.length
  · rw [List.drop_append_of_le_length hstart, List.take_append_of_le_length]
    rw [List.length_drop]
    simp only [Bool.false_eq_true, if_false]
    omega
  · have hnone : s.index - 1 - s.dataStart = 0 := by omega
    simp [hnone]

theorem flushId_append (hle : s.index ≤ text.length) (hinside : r.ending = false) :
    s.flushId (text ++ tail) r = s.flushId text r := by
  unfold flushId
  rw [slice_append hle hinside]

theorem flushNum_append (hle : s.index ≤ text.length) (hinside : r.ending = false) :
    s.flushNum (text ++ tail) r = s.flushNum text r := by
  unfold flushNum
  rw [slice_append hle hinside, flushId_append hle hinside]
  split
  · dsimp only
    split
    · rfl
    · exact flushId_append hle hinside
  · rfl

theorem flushDecimal_append (hle : s.index ≤ text.length) (hinside : r.ending = false) :
    s.flushDecimal atof (text ++ tail) r = s.flushDecimal atof text r := by
  unfold flushDecimal
  rw [slice_append hle hinside, flushNum_append hle hinside]
  split
  · dsimp only
    split
    · rfl
    · exact flushNum_append hle hinside
  · rfl

theorem lexLetter_append (hle : s.index ≤ text.length) (hinside : r.ending = false) :
    s.lexLetter atof (text ++ tail) r = s.lexLetter atof text r := by
  have hdot : s.lexDot atof (text ++ tail) r = s.lexDot atof text r := by
    unfold lexDot
    rw [flushDecimal_append hle hinside]
    simp only [hinside, Bool.false_eq_true, if_false]
  have hdigit : s.lexDigit atof (text ++ tail) r = s.lexDigit atof text r := by
    unfold lexDigit
    rw [hdot]
    simp only [hinside, Bool.false_eq_true, if_false]
  unfold lexLetter
  rw [hdigit]
  simp only [hinside, Bool.false_eq_true, if_false]

/-- Inside of `text` a round does not depend on what stands behind it. -/
theorem lexChar_append (tail : List Char) (hinside : s.index + 1 < text.length) :
    s.lexChar atof (text ++ tail) = s.lexChar atof text := by
  have hround : s.round (text ++ tail) = s.round text := by
    have hending : (s.index + 1 = (text ++ tail).length ↔ s.index + 1 = text.length) := by
      rw [List.length_append]
      omega
    unfold round
    rw [List.getD_append _ _ _ _ (by omega), List.getD_append _ _ _ _ hinside]
    simp only [hending]
  have hnot : (s.round text).ending = false := by
    simp only [round, decide_eq_false_iff_not]
    omega
  unfold lexChar lexRound
  rw [hround, lexLetter_append (by rw [enter_index]; omega) hnot]

/-! ## The size of the file -/

/-- The states differ in the stream only, and the streams have the same tokens. -/
def SameTokens (s s' : LexState) : Prop :=
  ∃ stream : TokenStream, stream.placed = s.stream.placed ∧ s' = { s with stream := stream }

/-- Both rounds fail, or both end in such states. -/
def SameResult : Except LexError LexState → Except LexError LexState → Prop
  | .ok s, .ok s' => SameTokens s s'
  | .error _, .error _ => True
  | _, _ => False

variable {stream : TokenStream}

theorem sameTokens_enter (h : stream.placed = s.stream.placed) :
    SameTokens (s.enter r) (({ s with stream := stream } : LexState).enter r) := by
  have hsuffix : ∀ {a b : TokenStream}, a.placed = b.placed →
      (a.suffix r.chr).placed = (b.suffix r.chr).placed := by
    intro a b hab
    rw [TokenStream.placed_suffix, TokenStream.placed_suffix, hab]
  unfold enter
  dsimp only
  split
  · split <;> refine ⟨_, ?_, rfl⟩ <;> exact hsuffix h
  · split <;> refine ⟨_, ?_, rfl⟩ <;> exact hsuffix h

theorem sameTokens_lexSymbol (h : stream.placed = s.stream.placed) :
    SameTokens (s.lexSymbol r) (({ s with stream := stream } : LexState).lexSymbol r) := by
  unfold lexSymbol
  split
  · exact ⟨_, by simpa using h, rfl⟩
  · exact ⟨_, by simpa using h, rfl⟩

theorem sameTokens_flushId (h : stream.placed = s.stream.placed) :
    SameTokens (s.flushId text r) (({ s with stream := stream } : LexState).flushId text r) := by
  unfold flushId
  dsimp only
  split
  · split
    · exact ⟨_, by simp [h, slice], rfl⟩
    · exact sameTokens_lexSymbol (by simp [h, slice])
  · exact sameTokens_lexSymbol h

theorem sameTokens_flushNum (h : stream.placed = s.stream.placed) :
    SameTokens (s.flushNum text r) (({ s with stream := stream } : LexState).flushNum text r) := by
  unfold flushNum
  dsimp only
  split
  · split
    · exact ⟨_, by simp [h, slice], rfl⟩
    · exact sameTokens_flushId (by simp [h, slice])
  · exact sameTokens_flushId h

theorem sameTokens_flushDecimal (h : stream.placed = s.stream.placed) :
    SameTokens (s.flushDecimal atof text r)
      (({ s with stream := stream } : LexState).flushDecimal atof text r) := by
  unfold flushDecimal
  dsimp only
  split
  · split
    · exact ⟨_, by simp [h, slice], rfl⟩
    · exact sameTokens_flushNum (by simp [h, slice])
  · exact sameTokens_flushNum h

theorem sameResult_lexDot (h : stream.placed = s.stream.placed) :
    SameResult (s.lexDot atof text r)
      (({ s with stream := stream } : LexState).lexDot atof text r) := by
  unfold lexDot
  dsimp only
  split
  · split
    · trivial
    · by_cases hnum : s.isNum = true
      · rw [if_pos hnum, if_pos hnum]
        split
        · exact sameTokens_flushDecimal h
        · exact ⟨_, h, rfl⟩
      · rw [if_neg hnum, if_neg hnum]
        split
        · exact sameTokens_flushDecimal h
        · exact ⟨_, h, rfl⟩
  · exact sameTokens_flushDecimal h

theorem sameResult_lexDigit (h : stream.placed = s.stream.placed) :
    SameResult (s.lexDigit atof text r)
      (({ s with stream := stream } : LexState).lexDigit atof text r) := by
  unfold lexDigit
  dsimp only
  split
  · by_cases hnew : (!s.isId && !s.isNum && !s.isDecimal) = true
    · rw [if_pos hnew, if_pos hnew]
      split
      · exact sameResult_lexDot h
      · exact ⟨_, h, rfl⟩
    · rw [if_neg hnew, if_neg hnew]
      split
      · exact sameResult_lexDot h
      · exact ⟨_, h, rfl⟩
  · exact sameResult_lexDot h

theorem sameResult_lexLetter (h : stream.placed = s.stream.placed) :
    SameResult (s.lexLetter atof text r)
      (({ s with stream := stream } : LexState).lexLetter atof text r) := by
  have hrest : ∀ {s : LexState} {stream : TokenStream}, stream.placed = s.stream.placed →
      SameResult
        (if s.isNum || s.isDecimal then .error ⟨r.ln, r.col,
          "Digits and letters cannot be combined if the first character is a digit."⟩
        else if r.ending then s.lexDigit atof text r else .ok s)
        (if s.isNum || s.isDecimal then .error ⟨r.ln, r.col,
          "Digits and letters cannot be combined if the first character is a digit."⟩
        else if r.ending then ({ s with stream := stream } : LexState).lexDigit atof text r
        else .ok { s with stream := stream }) := by
    intro s stream h
    split
    · trivial
    · split
      · exact sameResult_lexDigit h
      · exact ⟨_, h, rfl⟩
  unfold lexLetter
  dsimp only
  split
  · by_cases hid : s.isId = true
    · rw [if_pos hid, if_pos hid]
      exact hrest h
    · rw [if_neg hid, if_neg hid]
      exact hrest (s := { s.start r with isId := true }) h
  · exact sameResult_lexDigit h

theorem sameResult_lexRound (h : stream.placed = s.stream.placed) :
    SameResult (s.lexRound atof text r)
      (({ s with stream := stream } : LexState).lexRound atof text r) := by
  unfold lexRound
  dsimp only
  split
  · split <;> exact ⟨_, h, rfl⟩
  split
  · split <;> exact ⟨_, h, rfl⟩
  split
  · exact ⟨_, h, rfl⟩
  split
  · exact ⟨_, h, rfl⟩
  split
  · unfold lexQuote
    dsimp only
    split
    · exact ⟨_, by simp [h], rfl⟩
    · exact ⟨_, h, rfl⟩
  split
  · unfold lexApostrophe
    dsimp only
    split
    · exact ⟨_, by simp [h], rfl⟩
    · exact ⟨_, h, rfl⟩
  split
  · unfold lexContent
    dsimp only
    split
    · exact ⟨_, h, rfl⟩
    · split <;> exact ⟨_, h, rfl⟩
  · exact sameResult_lexLetter h

/-- A round does not depend on how the tokens are stored. -/
theorem sameResult_lexChar {s' : LexState} (h : s.SameTokens s') :
    SameResult (s.lexChar atof text) (s'.lexChar atof text) := by
  obtain ⟨stream, hplaced, rfl⟩ := h
  obtain ⟨stream', hplaced', henter⟩ := @sameTokens_enter (s.round text) s stream hplaced
  have hround : ({ s with stream := stream } : LexState).round text = s.round text := rfl
  unfold lexChar
  rw [hround, henter]
  exact sameResult_lexRound hplaced'

theorem sameResult_lexLoop : ∀ (n : ℕ) {s s' : LexState}, s.SameTokens s' →
    SameResult (lexLoop atof text n s) (lexLoop atof text n s')
  | 0, _, _, h => h
  | n + 1, s, s', h => by
      have hindex : s'.index = s.index := by
        obtain ⟨stream, -, rfl⟩ := h
        rfl
      have hchar := @sameResult_lexChar atof text s s' h
      unfold lexLoop
      rw [hindex]
      split
      · cases hx : s.lexChar atof text with
        | error e =>
            rw [hx] at hchar
            cases hy : s'.lexChar atof text with
            | error e' => trivial
            | ok s₁' => rw [hy] at hchar; exact hchar.elim
        | ok s₁ =>
            rw [hx] at hchar
            cases hy : s'.lexChar atof text with
            | error e' => rw [hy] at hchar; exact hchar.elim
            | ok s₁' =>
                rw [hy] at hchar
                exact sameResult_lexLoop n hchar
      · exact h

end LexState

/-- The tokens that the loop has found when it ends. -/
def tokensAt (x : Except LexError LexState) : Option (List (Lexeme × ℕ × ℕ)) :=
  x.toOption.map fun s => s.stream.placed

theorem LexState.SameResult.tokensAt_eq {x y : Except LexError LexState} (h : SameResult x y) :
    tokensAt x = tokensAt y := by
  match x, y, h with
  | .ok s, .ok s', ⟨stream, hplaced, hstate⟩ =>
      subst hstate
      exact congrArg some hplaced.symm
  | .error _, .error _, _ => rfl

/-- The size of the file is of no account for the tokens. -/
theorem placedOf_eq (atof : String → BitVec 32) (text : List Char) :
    placedOf atof text = tokensAt (lexLoop atof text text.length {}) := by
  have hstart : LexState.SameTokens {} { stream := { processedBytes := text.length } } :=
    ⟨{ processedBytes := text.length }, rfl, rfl⟩
  have hsame := (@LexState.sameResult_lexLoop atof text text.length _ _ hstart).tokensAt_eq
  rw [hsame]
  unfold placedOf lexFile tokensAt
  cases lexLoop atof text text.length { stream := { processedBytes := text.length } } <;> rfl

/-! ## Up to the last character -/

/-- The runs on `text` and on `text` with a newline at the last character of `text`: both are in
the same state, with enough rounds left. -/
structure AtLast (atof : String → BitVec 32) (text : List Char) (x y : Except LexError LexState)
    (s : LexState) (sc : Scan) : Prop where
  views : s.Views text (text.length - 1) sc
  viewsNewline : s.Views (text ++ ['\n']) (text.length - 1) sc
  loop : ∃ n, text.length ≤ n + s.index ∧ x = lexLoop atof text n s
  loopNewline : ∃ n, (text ++ ['\n']).length ≤ n + s.index ∧ y = lexLoop atof (text ++ ['\n']) n s

theorem lexLoop_last {atof : String → BitVec 32} {text : List Char} {chr : Char} :
    ∀ (rest : List Char) {pos n m : ℕ} {s : LexState} {sc : Scan},
    s.Views text pos sc → s.Views (text ++ ['\n']) pos sc → text.drop pos = rest ++ [chr] →
    text.length ≤ n + s.index → (text ++ ['\n']).length ≤ m + s.index →
    (sc.feed atof [chr, '\n'] rest = none →
      tokensAt (lexLoop atof text n s) = none ∧
        tokensAt (lexLoop atof (text ++ ['\n']) m s) = none) ∧
    ∀ sc', sc.feed atof [chr, '\n'] rest = some sc' →
      ∃ s', AtLast atof text (lexLoop atof text n s) (lexLoop atof (text ++ ['\n']) m s) s' sc'
  | [], pos, n, m, s, sc, hviews, hnewline, hrest, hn, hm => by
      have hpos : pos = text.length - 1 := by
        have hlength := congrArg List.length hrest
        rw [List.length_drop, List.nil_append, List.length_singleton] at hlength
        omega
      subst hpos
      refine ⟨fun hnone => (by cases hnone), fun sc' hsome => ?_⟩
      cases hsome
      exact ⟨s, hviews, hnewline, ⟨n, hn, rfl⟩, ⟨m, hm, rfl⟩⟩
  | chr' :: rest, pos, n, m, s, sc, hviews, hnewline, hrest, hn, hm => by
      have hlength : text.length = pos + (rest.length + 2) := by
        have h := congrArg List.length hrest
        rw [List.length_drop, List.length_append, List.length_cons, List.length_singleton] at h
        omega
      have hrest' : text.drop pos = chr' :: (rest ++ [chr]) := hrest
      have htail : text.drop (pos + 1) = rest ++ [chr] := by
        rw [← List.drop_drop, hrest]
        rfl
      have hdropNewline : (text ++ ['\n']).drop pos = chr' :: (rest ++ [chr, '\n']) := by
        rw [List.drop_append_of_le_length (by omega), hrest]
        simp
      have hstep : sc.step atof chr' (rest ++ [chr]) = sc.step atof chr' (rest ++ [chr, '\n']) := by
        cases rest <;> rfl
      unfold Scan.feed
      cases hskip : sc.skip with
      | true =>
          obtain ⟨sc₁, hstep₁, hviews₁⟩ := hviews.skipChar atof hskip hrest'
          obtain ⟨sc₂, hstep₂, hviews₂⟩ := hnewline.skipChar atof hskip hdropNewline
          have hsame : sc₁ = sc₂ :=
            Option.some.inj (hstep₁.symm.trans (hstep.trans hstep₂))
          subst hsame
          rw [hstep₂, Option.bind_some]
          exact lexLoop_last rest hviews₁ hviews₂ htail hn hm
      | false =>
          have hindex : s.index = pos := by rw [hviews.index, hskip]; rfl
          obtain ⟨n, rfl⟩ : ∃ n', n = n' + 1 := ⟨n - 1, by omega⟩
          obtain ⟨m, rfl⟩ : ∃ m', m = m' + 1 := by
            refine ⟨m - 1, ?_⟩
            rw [List.length_append] at hm
            omega
          have hround := hviews.lexChar atof hskip hrest'
          have hroundNewline := hnewline.lexChar atof hskip hdropNewline
          have hsame := @LexState.lexChar_append atof text s ['\n'] (by omega)
          rw [hsame] at hroundNewline
          rw [lexLoop, if_pos (by omega), lexLoop, if_pos (by rw [List.length_append]; omega), hsame]
          rw [hstep] at hround
          cases hx : s.lexChar atof text with
          | error e =>
              rw [hx] at hround
              cases hy : sc.step atof chr' (rest ++ [chr, '\n']) with
              | none => exact ⟨fun _ => ⟨rfl, rfl⟩, fun sc' hsome => (by cases hsome)⟩
              | some sc₁ => rw [hy] at hround; exact hround.elim
          | ok s₁ =>
              rw [hx] at hround hroundNewline
              cases hy : sc.step atof chr' (rest ++ [chr, '\n']) with
              | none => rw [hy] at hround; exact hround.elim
              | some sc₁ =>
                  rw [hy] at hround hroundNewline
                  have hviews₁ : s₁.Views text (pos + 1) sc₁ := hround
                  have hviews₂ : s₁.Views (text ++ ['\n']) (pos + 1) sc₁ := hroundNewline
                  refine lexLoop_last rest hviews₁ hviews₂ htail ?_ ?_
                  · rw [hviews₁.index]
                    omega
                  · rw [hviews₁.index]
                    omega

/-! ## Numbers with whitespace behind them -/

theorem isSpace_of_isDelim {chr : Char} (h : isDelim chr = true) : isSpace chr = true := by
  rcases Scan.eq_of_isDelim h with rfl | rfl | rfl | rfl <;> decide

theorem leadingValue_delim {chr : Char} (h : isDelim chr = true) (text : List Char) :
    leadingValue (text ++ [chr]) = leadingValue text := by
  have hdigit : isDigit chr = false := (Scan.inert_of_isDelim h).2.2.2.2
  unfold leadingValue
  rw [List.takeWhile_append]
  split
  · rw [List.takeWhile_cons_of_neg (by simp [hdigit]), List.append_nil]
    next hall => exact congrArg digitsValue ((List.takeWhile_prefix isDigit).eq_of_length hall).symm
  · rfl

/-- Whitespace behind a number does not change its value. -/
theorem atoi_delim {chr : Char} (h : isDelim chr = true) (text : List Char) :
    atoi (text ++ [chr]) = atoi text := by
  have hdrop : (text ++ [chr]).dropWhile isSpace = text.dropWhile isSpace ++
      if (text.dropWhile isSpace).isEmpty then [] else [chr] := by
    rw [List.dropWhile_append]
    split
    · next hempty =>
        rw [List.isEmpty_iff.mp hempty]
        simp [isSpace_of_isDelim h]
    · rfl
  have hsign : chr ≠ '-' ∧ chr ≠ '+' := by
    rcases Scan.eq_of_isDelim h with rfl | rfl | rfl | rfl <;> decide
  unfold atoi
  rw [hdrop]
  cases hdigits : text.dropWhile isSpace with
  | nil => rfl
  | cons first digits =>
      have htail : leadingValue (digits ++ [chr]) = leadingValue digits := leadingValue_delim h digits
      have hall : leadingValue (first :: digits ++ [chr]) = leadingValue (first :: digits) :=
        leadingValue_delim h (first :: digits)
      simp only [List.isEmpty_cons, Bool.false_eq_true, if_false]
      by_cases hminus : first = '-'
      · subst hminus
        simp only [List.cons_append, htail]
      · by_cases hplus : first = '+'
        · subst hplus
          simp only [List.cons_append, htail]
        · split
          · next heq => exact absurd (List.cons.inj heq).1 hminus
          · next heq => exact absurd (List.cons.inj heq).1 hplus
          split
          · next heq => exact absurd (List.cons.inj heq).1 hminus
          · next heq => exact absurd (List.cons.inj heq).1 hplus
          rw [← hall]

/-! ## Flushes -/

namespace LexState

variable (atof : String → BitVec 32) (s : LexState) (w : List Char)

/-- The tokens that a flush adds when `w` is the pending text. -/
def floats : List (Lexeme × ℕ × ℕ) :=
  if s.isDecimal then [(⟨.literalDecimal, .dec (atof (String.ofList w))⟩, s.startLn, s.startCol)]
  else []

def integers : List (Lexeme × ℕ × ℕ) :=
  if s.isNum then [(⟨.literalInteger, .num (atoi w)⟩, s.startLn, s.startCol)] else []

def words : List (Lexeme × ℕ × ℕ) :=
  if s.isId then [(Lexeme.word (String.ofList w), s.startLn, s.startCol)] else []

/-- The token of the character of the round. -/
def symbolOf (r : Round) : List (Lexeme × ℕ × ℕ) :=
  if isDelim r.chr then [] else [(⟨.ascii r.chr, .none⟩, r.ln, r.col)]

/-- At the end of the file only the first of them is added. -/
def lastTokens (symbol : List (Lexeme × ℕ × ℕ)) : List (Lexeme × ℕ × ℕ) :=
  if s.isDecimal then s.floats atof w
  else if s.isNum then s.integers w
  else if s.isId then s.words w
  else symbol

variable {atof s} {text : List Char} {r : Round}

theorem placed_lexSymbol : (s.lexSymbol r).stream.placed = s.stream.placed ++ symbolOf r := by
  unfold lexSymbol symbolOf
  split <;> simp

theorem placed_flushId (hinside : r.ending = false) :
    (s.flushId text r).stream.placed = s.stream.placed ++ s.words (s.slice text r) ++ symbolOf r := by
  unfold flushId words
  split
  · rw [hinside]
    simp [placed_lexSymbol]
  · rw [placed_lexSymbol, List.append_nil]

theorem placed_flushNum (hinside : r.ending = false) :
    (s.flushNum text r).stream.placed = s.stream.placed ++ s.integers (s.slice text r) ++
      s.words (s.slice text r) ++ symbolOf r := by
  unfold flushNum integers
  split
  · rw [hinside]
    dsimp only
    rw [if_neg (by simp), placed_flushId hinside]
    simp [slice, words]
  · rw [placed_flushId hinside, List.append_nil]

/-- Inside of the file all that is pending is flushed, and then the character of the round. -/
theorem placed_flushDecimal (hinside : r.ending = false) :
    (s.flushDecimal atof text r).stream.placed = s.stream.placed ++
      s.floats atof (s.slice text r) ++ s.integers (s.slice text r) ++
      s.words (s.slice text r) ++ symbolOf r := by
  unfold flushDecimal floats
  split
  · rw [hinside]
    dsimp only
    rw [if_neg (by simp), placed_flushNum hinside]
    simp [slice, words, integers]
  · rw [placed_flushNum hinside, List.append_nil]

theorem placed_flushDecimal_ending (hending : r.ending = true) :
    (s.flushDecimal atof text r).stream.placed =
      s.stream.placed ++ s.lastTokens atof (s.slice text r) (symbolOf r) := by
  unfold flushDecimal flushNum flushId lastTokens
  rw [hending]
  by_cases hdecimal : s.isDecimal = true
  · simp [hdecimal, floats]
  by_cases hnum : s.isNum = true
  · simp [hdecimal, hnum, integers]
  by_cases hid : s.isId = true
  · simp [hdecimal, hnum, hid, words]
  · simp [hdecimal, hnum, hid, placed_lexSymbol]

theorem flags_lexSymbol : (s.lexSymbol r).isId = s.isId ∧ (s.lexSymbol r).isNum = s.isNum ∧
    (s.lexSymbol r).isDecimal = s.isDecimal := by
  unfold lexSymbol
  split <;> exact ⟨rfl, rfl, rfl⟩

theorem flags_flushId : (s.flushId text r).isId = false ∧ (s.flushId text r).isNum = s.isNum ∧
    (s.flushId text r).isDecimal = s.isDecimal := by
  unfold flushId
  split
  · dsimp only
    split
    · exact ⟨rfl, rfl, rfl⟩
    · exact flags_lexSymbol
  · next hid =>
      have hid' : s.isId = false := Bool.not_eq_true _ ▸ hid
      rw [← hid']
      exact flags_lexSymbol

theorem flags_flushNum (hinside : r.ending = false) : (s.flushNum text r).isId = false ∧
    (s.flushNum text r).isNum = false ∧ (s.flushNum text r).isDecimal = s.isDecimal := by
  unfold flushNum
  split
  · rw [hinside]
    exact flags_flushId
  · next hnum =>
      have hnum' : s.isNum = false := Bool.not_eq_true _ ▸ hnum
      obtain ⟨hid, hsame, hdecimal⟩ := @flags_flushId s text r
      exact ⟨hid, hsame.trans hnum', hdecimal⟩

/-- Behind a flush nothing is pending. -/
theorem flags_flushDecimal (hinside : r.ending = false) :
    (s.flushDecimal atof text r).isId = false ∧ (s.flushDecimal atof text r).isNum = false ∧
      (s.flushDecimal atof text r).isDecimal = false := by
  unfold flushDecimal
  split
  · rw [hinside]
    exact flags_flushNum hinside
  · next hdecimal =>
      have hdecimal' : s.isDecimal = false := Bool.not_eq_true _ ▸ hdecimal
      obtain ⟨hid, hnum, hsame⟩ := @flags_flushNum s text r hinside
      exact ⟨hid, hnum, hsame.trans hdecimal'⟩

theorem lastTokens_of_not_pending {symbol : List (Lexeme × ℕ × ℕ)} (hid : s.isId = false)
    (hnum : s.isNum = false) (hdecimal : s.isDecimal = false) :
    s.lastTokens atof w symbol = symbol := by
  simp [lastTokens, hid, hnum, hdecimal]

/-! ## The newline behind the text -/

theorem placed_enter (r : Round) (s : LexState) : (s.enter r).stream.placed = s.stream.placed := by
  unfold enter
  refine (TokenStream.placed_suffix _ _).trans ?_
  dsimp only
  split <;> split <;> rfl

theorem lastTokens_enter {symbol : List (Lexeme × ℕ × ℕ)} :
    (s.enter r).lastTokens atof w symbol = s.lastTokens atof w symbol := by
  have hfields : ((s.enter r).isId, (s.enter r).isNum, (s.enter r).isDecimal, (s.enter r).startLn,
      (s.enter r).startCol) = (s.isId, s.isNum, s.isDecimal, s.startLn, s.startCol) := by
    unfold enter
    dsimp only
    split <;> split <;> rfl
  simp only [Prod.mk.injEq] at hfields
  obtain ⟨hid, hnum, hdecimal, hline, hcolumn⟩ := hfields
  unfold lastTokens floats integers words
  rw [hid, hnum, hdecimal, hline, hcolumn]

theorem lexLoop_of_length_le (h : text.length ≤ s.index) (n : ℕ) :
    lexLoop atof text n s = .ok s := by
  cases n with
  | zero => rfl
  | succ n => rw [lexLoop, if_neg (by omega)]

/-- Outside of literals and comments, and when `r` begins none. -/
theorem lexRound_letter {sc : Scan} (h : s.Agrees sc) (hout : sc.Outside)
    (hquote : r.chr ≠ doubleQuote) (hapostrophe : r.chr ≠ apostrophe)
    (hopen : ¬ (r.chr = '/' ∧ (r.nextChr = '/' ∨ r.nextChr = '*'))) :
    s.lexRound atof text r = s.lexLetter atof text r := by
  have hslash : ¬ (r.chr = '/' ∧ r.nextChr = '/') := fun h => hopen ⟨h.1, .inl h.2⟩
  have hstar : ¬ (r.chr = '/' ∧ r.nextChr = '*') := fun h => hopen ⟨h.1, .inr h.2⟩
  unfold lexRound
  rw [← h.isComment, ← h.isMulticomment, ← h.isStr, ← h.isChar,
    if_neg (by simp [hout.isComment]), if_neg (by simp [hout.isMulticomment]), if_neg hslash,
    if_neg hstar, if_neg hquote, if_neg hapostrophe, if_neg (by simp [hout.isStr, hout.isChar])]

theorem tokensAt_newline {sc : Scan} {m : ℕ}
    (h : s.Views (text ++ ['\n']) text.length sc) (hout : sc.Outside) (hskip : sc.skip = false)
    (hm : (text ++ ['\n']).length ≤ m + s.index) :
    tokensAt (lexLoop atof (text ++ ['\n']) m s) =
      some (s.stream.placed ++ s.lastTokens atof (sc.span ++ ['\n']) []) := by
  have hlength : (text ++ ['\n']).length = text.length + 1 := by
    rw [List.length_append, List.length_singleton]
  have hindex : s.index = text.length := by rw [h.index, hskip]; rfl
  obtain ⟨m, rfl⟩ : ∃ m', m = m' + 1 := ⟨m - 1, by omega⟩
  have hchr : (s.round (text ++ ['\n'])).chr = '\n' := by
    simp [round, hindex]
  have hending : (s.round (text ++ ['\n'])).ending = true := by
    simp [round, hindex]
  have hinner : (s.enter (s.round (text ++ ['\n']))).Inner (text ++ ['\n']) text.length
      (s.round (text ++ ['\n'])).chr (sc.enter (s.round (text ++ ['\n'])).chr) :=
    h.enter hskip (by rw [hchr]; simp)
  have hout' : (sc.enter (s.round (text ++ ['\n'])).chr).Outside := { hout with }
  have hround : s.lexChar atof (text ++ ['\n']) = .ok ((s.enter (s.round (text ++ ['\n']))).flushDecimal
      atof (text ++ ['\n']) (s.round (text ++ ['\n']))) := by
    unfold lexChar
    rw [lexRound_letter hinner.agrees hout' (by rw [hchr]; decide) (by rw [hchr]; decide)
      (by rw [hchr]; exact fun h => absurd h.1 (by decide))]
    unfold lexLetter lexDigit lexDot
    rw [hchr]
    rfl
  have hdone : (text ++ ['\n']).length ≤ ((s.enter (s.round (text ++ ['\n']))).flushDecimal
      atof (text ++ ['\n']) (s.round (text ++ ['\n']))).index := by
    have hviews := (@Inner.flushDecimal atof _ _ _ _ _ hinner).index
    rw [hviews]
    omega
  have hsymbol : symbolOf (s.round (text ++ ['\n'])) = [] := by
    rw [symbolOf, hchr]
    rfl
  rw [lexLoop, if_pos (by omega), hround, Except.bind, lexLoop_of_length_le hdone, tokensAt]
  refine congrArg some ((placed_flushDecimal_ending hending).trans ?_)
  rw [placed_enter, lastTokens_enter, hsymbol]
  cases hpending : sc.pending with
  | true =>
      have hslice := hinner.slice hpending
      rw [hslice, hending, hchr]
      rfl
  | false =>
      simp only [Scan.pending, Bool.or_eq_false_iff] at hpending
      obtain ⟨⟨hid, hnum⟩, hdecimal⟩ := hpending
      rw [h.agrees.isId] at hid
      rw [h.agrees.isNum] at hnum
      rw [h.agrees.isDecimal] at hdecimal
      rw [lastTokens_of_not_pending _ hid hnum hdecimal, lastTokens_of_not_pending _ hid hnum hdecimal]

/-! ## The last character -/

/-- The round of the last character when a newline follows. -/
def beforeNewline (r : Round) : Round := { r with nextChr := '\n', ending := false }

theorem lastTokens_eq_nil {s : LexState} : s.lastTokens atof w [] = [] ↔
    s.isId = false ∧ s.isNum = false ∧ s.isDecimal = false := by
  unfold lastTokens floats integers words
  cases s.isDecimal <;> cases s.isNum <;> cases s.isId <;> simp

/-- Whitespace at the end of the pending text only shows in an identifier. -/
theorem lastTokens_delim (hatof : ∀ (w : List Char) (chr : Char), isDelim chr = true →
      atof (String.ofList (w ++ [chr])) = atof (String.ofList w))
    {chr : Char} (hdelim : isDelim chr = true) (symbol symbol' : List (Lexeme × ℕ × ℕ))
    (hpending : s.isId = true ∨ s.isNum = true ∨ s.isDecimal = true) :
    s.lastTokens atof w symbol = s.lastTokens atof (w ++ [chr]) symbol' ↔
      s.isNum = true ∨ s.isDecimal = true := by
  unfold lastTokens
  by_cases hdecimal : s.isDecimal = true
  · simp only [hdecimal, floats, hatof w chr hdelim, or_true, if_true]
  by_cases hnum : s.isNum = true
  · simp [hdecimal, hnum, integers, atoi_delim hdelim]
  have hid : s.isId = true := by simpa [hdecimal, hnum] using hpending
  have hword : Lexeme.word (String.ofList w) ≠ Lexeme.word (String.ofList (w ++ [chr])) := by
    intro hsame
    have hlength := congrArg (fun text : String => text.toList.length)
      (Lexeme.word_injective hsame)
    simp at hlength
  rw [if_neg hdecimal, if_neg hnum, if_pos hid, if_neg hdecimal, if_neg hnum, if_pos hid, words,
    words, if_pos hid, if_pos hid]
  constructor
  · intro hsame
    exact absurd (Prod.mk.inj (List.cons.inj hsame).1).1 hword
  · exact fun h => (h.elim hnum hdecimal).elim

variable {pos : ℕ} {sc : Scan} {m : ℕ}

/-- The last character belongs to the pending token. -/
theorem tokensAt_belongs (hatof : ∀ (w : List Char) (chr : Char), isDelim chr = true →
      atof (String.ofList (w ++ [chr])) = atof (String.ofList w))
    (hinner : s.Inner text pos r.chr sc) (hnewline : s.Inner (text ++ ['\n']) pos r.chr sc)
    (hlast : pos + 1 = text.length) (hending : r.ending = true) (hout : sc.Outside)
    (hpending : sc.pending = true) (hm : (text ++ ['\n']).length ≤ m + s.index) :
    some (s.flushDecimal atof text r).stream.placed =
        tokensAt (lexLoop atof (text ++ ['\n']) m s) ↔ s.isNum = true ∨ s.isDecimal = true := by
  have hviews : s.Views (text ++ ['\n']) text.length sc := by
    rw [← hlast]
    exact Inner.views hnewline
  have hflags : s.isId = true ∨ s.isNum = true ∨ s.isDecimal = true := by
    rw [← hinner.agrees.isId, ← hinner.agrees.isNum, ← hinner.agrees.isDecimal]
    simpa [Scan.pending, or_assoc] using hpending
  rw [tokensAt_newline hviews hout hinner.skip hm, placed_flushDecimal_ending hending,
    hinner.slice hpending, hending, Option.some.injEq, List.append_cancel_left_eq]
  exact lastTokens_delim _ hatof (by decide) _ _ hflags

/-- The first flush against all of them, when the last character does not belong to the token. -/
theorem lastTokens_eq_all (hatof : ∀ (w : List Char) (chr : Char), isDelim chr = true →
      atof (String.ofList (w ++ [chr])) = atof (String.ofList w))
    (hone : s.isNum = true → s.isDecimal = false) :
    s.lastTokens atof (w ++ [r.chr]) (symbolOf r) =
        s.floats atof w ++ s.integers w ++ s.words w ++ symbolOf r ↔
      if isDelim r.chr then s.isId = false
      else s.isId = false ∧ s.isNum = false ∧ s.isDecimal = false := by
  have hword : Lexeme.word (String.ofList (w ++ [r.chr])) ≠ Lexeme.word (String.ofList w) := by
    intro hsame
    have hlength := congrArg (fun text : String => text.toList.length)
      (Lexeme.word_injective hsame)
    simp at hlength
  by_cases hdelim : isDelim r.chr = true
  · have hsymbol : symbolOf r = [] := if_pos hdelim
    rw [if_pos hdelim, hsymbol, List.append_nil]
    unfold lastTokens
    by_cases hdecimal : s.isDecimal = true
    · have hnum : s.isNum = false := by
        cases hnum : s.isNum with
        | true => rw [hone hnum] at hdecimal; cases hdecimal
        | false => rfl
      have hfloats : s.floats atof (w ++ [r.chr]) = s.floats atof w := by
        unfold floats
        rw [hatof w r.chr hdelim]
      rw [if_pos hdecimal, hfloats, integers, if_neg (by simp [hnum]), List.append_nil,
        List.self_eq_append_right, words]
      cases s.isId <;> simp
    by_cases hnum : s.isNum = true
    · have hintegers : s.integers (w ++ [r.chr]) = s.integers w := by
        unfold integers
        rw [atoi_delim hdelim]
      rw [if_neg hdecimal, if_pos hnum, hintegers, floats, if_neg hdecimal, List.nil_append,
        List.self_eq_append_right, words]
      cases s.isId <;> simp
    · rw [if_neg hdecimal, if_neg hnum, floats, if_neg hdecimal, integers, if_neg hnum]
      by_cases hid : s.isId = true
      · rw [if_pos hid, words, words, if_pos hid, if_pos hid]
        refine ⟨fun hsame => ?_, fun h => ?_⟩
        · exact absurd (Prod.mk.inj (List.cons.inj hsame).1).1 hword
        · rw [hid] at h
          cases h
      · rw [if_neg hid, words, if_neg hid]
        exact ⟨fun _ => Bool.not_eq_true _ ▸ hid, fun _ => rfl⟩
  · have hsymbol : symbolOf r = [(⟨.ascii r.chr, .none⟩, r.ln, r.col)] := if_neg hdelim
    rw [if_neg hdelim, hsymbol]
    unfold lastTokens floats integers words
    cases s.isDecimal <;> cases s.isNum <;> cases s.isId <;> simp

/-- The last character does not belong to the pending token. -/
theorem tokensAt_ends (hatof : ∀ (w : List Char) (chr : Char), isDelim chr = true →
      atof (String.ofList (w ++ [chr])) = atof (String.ofList w))
    (hinner : s.Inner text pos r.chr (sc.enter r.chr))
    (hnewline : s.Inner (text ++ ['\n']) pos r.chr (sc.enter r.chr))
    (hlast : pos + 1 = text.length) (hending : r.ending = true) (hout : sc.Outside)
    (hone : s.isNum = true → s.isDecimal = false)
    (hm : (text ++ ['\n']).length ≤ m + s.index) :
    some (s.flushDecimal atof text r).stream.placed =
        tokensAt (lexLoop atof (text ++ ['\n']) m
          (s.flushDecimal atof (text ++ ['\n']) (beforeNewline r))) ↔
      if isDelim r.chr then s.isId = false
      else s.isId = false ∧ s.isNum = false ∧ s.isDecimal = false := by
  have hinside : (beforeNewline r).ending = false := rfl
  have hflushed : (s.flushDecimal atof (text ++ ['\n']) (beforeNewline r)).Inner (text ++ ['\n'])
      pos r.chr ((sc.enter r.chr).flushDecimal atof r.chr false) :=
    @Inner.flushDecimal atof _ pos (beforeNewline r) s (sc.enter r.chr) hnewline
  have hviews : (s.flushDecimal atof (text ++ ['\n']) (beforeNewline r)).Views (text ++ ['\n'])
      text.length ((sc.enter r.chr).flushDecimal atof r.chr false) := by
    rw [← hlast]
    exact Inner.views hflushed
  have hmode := @Scan.mode_flushDecimal atof r.chr false (sc.enter r.chr)
  simp only [Scan.mode, Prod.mk.injEq] at hmode
  obtain ⟨hstr, hchar, hcomment, hmulti, -, -⟩ := hmode
  have hout' : ((sc.enter r.chr).flushDecimal atof r.chr false).Outside :=
    ⟨hstr.trans hout.isStr, hchar.trans hout.isChar, hcomment.trans hout.isComment,
      hmulti.trans hout.isMulticomment⟩
  obtain ⟨hid, hnum, hdecimal⟩ :=
    @flags_flushDecimal atof s (text ++ ['\n']) (beforeNewline r) hinside
  rw [tokensAt_newline hviews hout' hflushed.skip (by rw [hflushed.index, ← hnewline.index]; exact hm),
    lastTokens_of_not_pending _ hid hnum hdecimal, List.append_nil,
    placed_flushDecimal hinside, placed_flushDecimal_ending hending, Option.some.injEq,
    List.append_assoc, List.append_assoc, List.append_assoc, List.append_cancel_left_eq,
    ← List.append_assoc, ← List.append_assoc]
  cases hpending : (sc.enter r.chr).pending with
  | true =>
      have hslice : (sc.enter r.chr).slice false = sc.span := List.dropLast_concat
      rw [hinner.slice hpending, hnewline.slice (r := beforeNewline r) hpending, hending, hinside,
        hslice]
      exact lastTokens_eq_all _ hatof hone
  | false =>
      simp only [Scan.pending, Bool.or_eq_false_iff] at hpending
      obtain ⟨⟨hid, hnum⟩, hdecimal⟩ := hpending
      rw [hinner.agrees.isId] at hid
      rw [hinner.agrees.isNum] at hnum
      rw [hinner.agrees.isDecimal] at hdecimal
      have hsymbol : symbolOf (beforeNewline r) = symbolOf r := rfl
      rw [lastTokens_of_not_pending _ hid hnum hdecimal, hsymbol]
      simp [floats, integers, words, hid, hnum, hdecimal]

end LexState

namespace Scan

variable {atof : String → BitVec 32} {chr next : Char} {ending : Bool} {sc sc' : Scan}

/-! ## Integers and decimals -/

/-- A number is an integer or a decimal. -/
def OneNumber (sc : Scan) : Prop := sc.isNum = true → sc.isDecimal = false

theorem numbers_flushId : (sc.flushId chr ending).isDecimal = sc.isDecimal := by
  have hsymbol : ∀ sc : Scan, (sc.lexSymbol chr).isDecimal = sc.isDecimal := by
    intro sc
    unfold lexSymbol
    split <;> rfl
  unfold flushId
  split
  · dsimp only
    split
    · rfl
    · exact hsymbol _
  · exact hsymbol sc

theorem numbers_flushNum : (sc.flushNum chr ending).isDecimal = sc.isDecimal := by
  unfold flushNum
  split
  · dsimp only
    split
    · rfl
    · exact numbers_flushId
  · exact numbers_flushId

theorem oneNumber_flushDecimal : (sc.flushDecimal atof chr ending).OneNumber := by
  have hdecimal : (sc.flushDecimal atof chr ending).isDecimal = false := by
    unfold flushDecimal
    split
    · dsimp only
      split
      · rfl
      · exact numbers_flushNum
    · next hdecimal =>
        rw [numbers_flushNum]
        exact Bool.not_eq_true _ ▸ hdecimal
  exact fun _ => hdecimal

theorem oneNumber_lexDot (h : sc.lexDot atof chr next ending = some sc') : sc'.OneNumber := by
  unfold lexDot at h
  split at h
  · split at h
    · cases h
    · cases h
      split
      · exact oneNumber_flushDecimal
      · exact fun hnum => by cases hnum
  · cases h
    exact oneNumber_flushDecimal

theorem oneNumber_lexDigit (hone : sc.OneNumber) (h : sc.lexDigit atof chr next ending = some sc') :
    sc'.OneNumber := by
  unfold lexDigit at h
  split at h
  · dsimp only at h
    split at h
    · exact oneNumber_lexDot h
    · cases h
      split
      · next hnew =>
          intro _
          simp only [Bool.and_eq_true, Bool.not_eq_true'] at hnew
          exact hnew.2
      · exact hone
  · exact oneNumber_lexDot h

theorem oneNumber_lexLetter (hone : sc.OneNumber)
    (h : sc.lexLetter atof chr next ending = some sc') : sc'.OneNumber := by
  unfold lexLetter at h
  split at h
  · have hstart : ((if sc.isId then sc else { sc.start chr with isId := true }) : Scan).OneNumber := by
      split <;> exact hone
    generalize (if sc.isId then sc else { sc.start chr with isId := true }) = sc at h hstart
    dsimp only at h
    split at h
    · cases h
    · split at h
      · exact oneNumber_lexDigit hstart h
      · cases h
        exact hstart
  · exact oneNumber_lexDigit hone h

theorem OneNumber.step (hone : sc.OneNumber) {after : List Char}
    (hstep : sc.step atof chr after = some sc') : sc'.OneNumber := by
  have hleave : ∀ {sc : Scan}, sc.OneNumber → sc.leave.OneNumber := by
    intro sc h
    unfold leave
    split <;> exact h
  unfold Scan.step at hstep
  split at hstep
  · cases hstep
    exact hleave hone
  · obtain ⟨sc₁, hround, rfl⟩ := Option.map_eq_some_iff.mp hstep
    refine hleave ?_
    unfold lexRound at hround
    split at hround
    · cases hround
      split <;> exact hone
    split at hround
    · cases hround
      split <;> exact hone
    split at hround
    · cases hround
      exact hone
    split at hround
    · cases hround
      exact hone
    split at hround
    · cases hround
      unfold lexQuote
      split <;> exact hone
    split at hround
    · cases hround
      unfold lexApostrophe
      split <;> exact hone
    split at hround
    · cases hround
      unfold lexContent
      split
      · exact hone
      · split <;> exact hone
    · have hentered : (sc.enter chr).OneNumber := hone
      exact oneNumber_lexLetter hentered hround

theorem OneNumber.feed {after : List Char} : ∀ {u : List Char} {sc : Scan}, sc.OneNumber →
    sc.feed atof after u = some sc' → sc'.OneNumber
  | [], _, hone, hfeed => Option.some.inj hfeed ▸ hone
  | _ :: _, _, hone, hfeed => by
      obtain ⟨sc₁, hstep, hrest⟩ := Option.bind_eq_some_iff.mp hfeed
      exact (hone.step hstep).feed hrest

/-! ## When the end of the file is just another boundary -/

/-- In a literal or a comment, or at a quote. -/
def InLiteral (sc : Scan) (chr : Char) : Prop :=
  sc.isComment = true ∨ sc.isMulticomment = true ∨ sc.isStr = true ∨ sc.isChar = true ∨
    chr = doubleQuote ∨ chr = apostrophe

instance (sc : Scan) (chr : Char) : Decidable (sc.InLiteral chr) :=
  inferInstanceAs (Decidable (_ ∨ _))

/-- The last character `chr` is read in the state `sc`, and what is pending is not mistaken.
A character that is consumed by a literal or a comment flushes nothing; a letter is an error
behind a number and belongs to an identifier otherwise. -/
def Quiet (sc : Scan) (chr : Char) : Prop :=
  if sc.skip = true ∨ sc.InLiteral chr then sc.pending = false
  else if isLetter chr then sc.isNum = true ∨ sc.isDecimal = true
  else if isDigit chr then sc.isNum = true ∨ sc.isDecimal = true ∨ sc.isId = false
  else if isDelim chr then sc.isId = false
  else chr = '.' ∧ sc.isNum = true ∨ sc.pending = false

end Scan

namespace LexState

variable {atof : String → BitVec 32} {text : List Char} {r : Round} {s : LexState} {sc : Scan}

/-- In a literal or a comment the end of the file makes no difference, and nothing is flushed. -/
theorem lexRound_literal (hagrees : s.Agrees sc) (hliteral : sc.InLiteral r.chr)
    (hnext : r.nextChr = Char.ofNat 0) (text text' : List Char) :
    ∃ s₁, s.lexRound atof text r = .ok s₁ ∧ s.lexRound atof text' (beforeNewline r) = .ok s₁ ∧
      s₁.isId = s.isId ∧ s₁.isNum = s.isNum ∧ s₁.isDecimal = s.isDecimal := by
  have hne : r.nextChr ≠ '/' ∧ r.nextChr ≠ '*' ∧ r.nextChr ≠ backslash ∧ r.nextChr ≠ 'n' := by
    rw [hnext]
    decide
  have hne' : (beforeNewline r).nextChr ≠ '/' ∧ (beforeNewline r).nextChr ≠ '*' ∧
      (beforeNewline r).nextChr ≠ backslash ∧ (beforeNewline r).nextChr ≠ 'n' := by
    have hnewline : '\n' ≠ '/' ∧ '\n' ≠ '*' ∧ '\n' ≠ backslash ∧ '\n' ≠ 'n' := by decide
    exact hnewline
  have hchr : (beforeNewline r).chr = r.chr := rfl
  unfold lexRound
  rw [hchr, if_neg (fun h : r.chr = '/' ∧ r.nextChr = '/' => hne.1 h.2),
    if_neg (fun h : r.chr = '/' ∧ r.nextChr = '*' => hne.2.1 h.2),
    if_neg (fun h : r.chr = '/' ∧ (beforeNewline r).nextChr = '/' => hne'.1 h.2),
    if_neg (fun h : r.chr = '/' ∧ (beforeNewline r).nextChr = '*' => hne'.2.1 h.2),
    if_neg (fun h : r.chr = '*' ∧ r.nextChr = '/' => hne.1 h.2),
    if_neg (fun h : r.chr = '*' ∧ (beforeNewline r).nextChr = '/' => hne'.1 h.2)]
  by_cases hcomment : s.isComment = true
  · rw [if_pos hcomment, if_pos hcomment]
    refine ⟨_, rfl, rfl, ?_⟩
    split <;> exact ⟨rfl, rfl, rfl⟩
  rw [if_neg hcomment, if_neg hcomment]
  by_cases hmulti : s.isMulticomment = true
  · rw [if_pos hmulti, if_pos hmulti]
    exact ⟨s, rfl, rfl, rfl, rfl, rfl⟩
  rw [if_neg hmulti, if_neg hmulti]
  by_cases hquote : r.chr = doubleQuote
  · rw [if_pos hquote, if_pos hquote]
    refine ⟨_, rfl, rfl, ?_⟩
    unfold lexQuote
    split <;> exact ⟨rfl, rfl, rfl⟩
  rw [if_neg hquote, if_neg hquote]
  by_cases hapostrophe : r.chr = apostrophe
  · rw [if_pos hapostrophe, if_pos hapostrophe]
    refine ⟨_, rfl, rfl, ?_⟩
    unfold lexApostrophe
    split <;> exact ⟨rfl, rfl, rfl⟩
  rw [if_neg hapostrophe, if_neg hapostrophe]
  have hstr : s.isStr = true ∨ s.isChar = true := by
    rw [← hagrees.isStr, ← hagrees.isChar]
    rw [← hagrees.isComment] at hcomment
    rw [← hagrees.isMulticomment] at hmulti
    rcases hliteral with h | h | h | h | h | h
    · exact (hcomment h).elim
    · exact (hmulti h).elim
    · exact .inl h
    · exact .inr h
    · exact (hquote h).elim
    · exact (hapostrophe h).elim
  rw [if_pos hstr, if_pos hstr]
  have hcontent : s.lexContent (beforeNewline r) = s.lexContent r := by
    unfold lexContent
    rw [if_neg fun h => hne'.2.2.1 h.2, if_neg fun h => hne'.2.2.2 h.2,
      if_neg fun h => hne.2.2.1 h.2, if_neg fun h => hne.2.2.2 h.2, hchr]
  refine ⟨_, rfl, by rw [hcontent], ?_⟩
  unfold lexContent
  rw [if_neg fun h => hne.2.2.1 h.2, if_neg fun h => hne.2.2.2 h.2]
  exact ⟨rfl, rfl, rfl⟩

theorem outside_of_not_inLiteral {chr : Char} (h : ¬ sc.InLiteral chr) :
    sc.Outside ∧ chr ≠ doubleQuote ∧ chr ≠ apostrophe := by
  simp only [Scan.InLiteral, not_or, Bool.not_eq_true] at h
  obtain ⟨hcomment, hmulti, hstr, hchar, hquote, hapostrophe⟩ := h
  exact ⟨⟨hstr, hchar, hcomment, hmulti⟩, hquote, hapostrophe⟩

variable {pos m : ℕ}

theorem lexDot_flush (hnext : isDigit r.nextChr = false) (hdot : ¬ (r.chr = '.' ∧ s.isNum = true)) :
    s.lexDot atof text r = .ok (s.flushDecimal atof text r) := by
  have hnot : ¬ (r.chr = '.' ∧ (s.isNum = true ∨ isDigit r.nextChr = true)) := by
    rintro ⟨hchr, hnum | hdigit⟩
    · exact hdot ⟨hchr, hnum⟩
    · rw [hnext] at hdigit
      cases hdigit
  rw [lexDot, if_neg hnot]

theorem lexLetter_skip (hletter : isLetter r.chr = false) :
    s.lexLetter atof text r = s.lexDigit atof text r := by
  have hnot : ¬ isLetter r.chr = true := by simp [hletter]
  rw [lexLetter, if_neg hnot]

theorem lexDigit_skip (hdigit : isDigit r.chr = false) :
    s.lexDigit atof text r = s.lexDot atof text r := by
  have hnot : ¬ isDigit r.chr = true := by simp [hdigit]
  rw [lexDigit, if_neg hnot]

theorem ne_dot_of_isLetter {chr : Char} (h : isLetter chr = true) : chr ≠ '.' := by
  rintro rfl
  exact absurd h (by decide)

theorem ne_dot_of_isDigit {chr : Char} (h : isDigit chr = true) : chr ≠ '.' := by
  rintro rfl
  exact absurd h (by decide)

section Plain

variable (hatof : ∀ (w : List Char) (chr : Char), isDelim chr = true →
    atof (String.ofList (w ++ [chr])) = atof (String.ofList w))
  (hinner : s.Inner text pos r.chr (sc.enter r.chr))
  (hnewline : s.Inner (text ++ ['\n']) pos r.chr (sc.enter r.chr))
  (hlast : pos + 1 = text.length) (hending : r.ending = true) (hnext : r.nextChr = Char.ofNat 0)
  (hout : sc.Outside) (hm : (text ++ ['\n']).length ≤ m + s.index)

include hatof hinner hnewline hlast hending hnext hout hm

/-- The last character is a letter. -/
theorem tokensAt_letter (hletter : isLetter r.chr = true) :
    tokensAt (s.lexLetter atof text r) =
        tokensAt ((s.lexLetter atof (text ++ ['\n']) (beforeNewline r)).bind
          (lexLoop atof (text ++ ['\n']) m)) ↔ sc.isNum = true ∨ sc.isDecimal = true := by
  -- `x` is the state with the identifier that the letter belongs to
  have hword : ∀ (x : LexState) (scx : Scan), x.Inner text pos r.chr scx →
      x.Inner (text ++ ['\n']) pos r.chr scx → scx.Outside → scx.pending = true →
      (text ++ ['\n']).length ≤ m + x.index →
      (tokensAt (if x.isNum || x.isDecimal then .error ⟨r.ln, r.col,
            "Digits and letters cannot be combined if the first character is a digit."⟩
          else if r.ending then x.lexDigit atof text r else .ok x) =
        tokensAt (((if x.isNum || x.isDecimal then .error ⟨r.ln, r.col,
            "Digits and letters cannot be combined if the first character is a digit."⟩
          else .ok x) : Except LexError LexState).bind (lexLoop atof (text ++ ['\n']) m)) ↔
        x.isNum = true ∨ x.isDecimal = true) := by
    intro x scx hinner hnewline hout hpending hm
    by_cases hnumber : (x.isNum || x.isDecimal) = true
    · rw [if_pos hnumber, if_pos hnumber]
      exact ⟨fun _ => by simpa using hnumber, fun _ => rfl⟩
    · have hdigit : isDigit r.chr = false := by
        cases hdigit : isDigit r.chr with
        | true => rw [Scan.not_isLetter_of_isDigit hdigit] at hletter; cases hletter
        | false => rfl
      have hflush : x.lexDigit atof text r = .ok (x.flushDecimal atof text r) := by
        rw [lexDigit_skip hdigit, lexDot_flush (by rw [hnext]; decide)
          fun h => ne_dot_of_isLetter hletter h.1]
      rw [if_neg hnumber, if_neg hnumber, if_pos hending, hflush]
      exact tokensAt_belongs hatof hinner hnewline hlast hending hout hpending hm
  have hletter' : isLetter (beforeNewline r).chr = true := hletter
  have hnumbers : sc.isNum = s.isNum ∧ sc.isDecimal = s.isDecimal :=
    ⟨hinner.agrees.isNum, hinner.agrees.isDecimal⟩
  rw [hnumbers.1, hnumbers.2, lexLetter, if_pos hletter, lexLetter, if_pos hletter']
  have hout' : (sc.enter r.chr).Outside := { hout with }
  by_cases hid : s.isId = true
  · rw [if_pos hid, if_pos hid]
    exact hword s (sc.enter r.chr) hinner hnewline hout' (pending_of_isId hinner.agrees hid) hm
  · rw [if_neg hid, if_neg hid]
    have hstart : ({ s.start r with isId := true } : LexState).Inner text pos r.chr
        { (sc.enter r.chr).start r.chr with isId := true } :=
      { hinner with agrees := { hinner.agrees with isId := rfl }, span := fun _ => hinner.start }
    have hstart' : ({ s.start r with isId := true } : LexState).Inner (text ++ ['\n']) pos r.chr
        { (sc.enter r.chr).start r.chr with isId := true } :=
      { hnewline with agrees := { hnewline.agrees with isId := rfl }, span := fun _ => hnewline.start }
    exact hword _ _ hstart hstart' { hout with } rfl hm

/-- The last character is a digit. -/
theorem tokensAt_digit (hdigit : isDigit r.chr = true) :
    tokensAt (s.lexLetter atof text r) =
        tokensAt ((s.lexLetter atof (text ++ ['\n']) (beforeNewline r)).bind
          (lexLoop atof (text ++ ['\n']) m)) ↔
      sc.isNum = true ∨ sc.isDecimal = true ∨ sc.isId = false := by
  have hletter := Scan.not_isLetter_of_isDigit hdigit
  have hletter' : isLetter (beforeNewline r).chr = false := hletter
  have hdigit' : isDigit (beforeNewline r).chr = true := hdigit
  have hflags : sc.isId = s.isId ∧ sc.isNum = s.isNum ∧ sc.isDecimal = s.isDecimal :=
    ⟨hinner.agrees.isId, hinner.agrees.isNum, hinner.agrees.isDecimal⟩
  have hflush : ∀ x : LexState, x.lexDot atof text r = .ok (x.flushDecimal atof text r) :=
    fun x => lexDot_flush (by rw [hnext]; decide) fun h => ne_dot_of_isDigit hdigit h.1
  rw [hflags.1, hflags.2.1, hflags.2.2, lexLetter_skip hletter, lexDigit, if_pos hdigit,
    lexLetter_skip hletter', lexDigit, if_pos hdigit']
  dsimp only
  rw [if_pos hending, hflush]
  by_cases hnew : (!s.isId && !s.isNum && !s.isDecimal) = true
  · rw [if_pos hnew, if_pos hnew]
    have hstart : ({ s.start r with isNum := true } : LexState).Inner text pos r.chr
        { (sc.enter r.chr).start r.chr with isNum := true } :=
      { hinner with agrees := { hinner.agrees with isNum := rfl }, span := fun _ => hinner.start }
    have hstart' : ({ s.start r with isNum := true } : LexState).Inner (text ++ ['\n']) pos r.chr
        { (sc.enter r.chr).start r.chr with isNum := true } :=
      { hnewline with agrees := { hnewline.agrees with isNum := rfl }, span := fun _ => hnewline.start }
    have hpending : ({ (sc.enter r.chr).start r.chr with isNum := true } : Scan).pending = true := by
      simp [Scan.pending]
    have hiff := tokensAt_belongs hatof hstart hstart' hlast hending { hout with } hpending hm
    simp only [Bool.and_eq_true, Bool.not_eq_true'] at hnew
    exact ⟨fun _ => .inr (.inr hnew.1.1), fun _ => hiff.mpr (.inl rfl)⟩
  · rw [if_neg hnew, if_neg hnew]
    have hpending : (sc.enter r.chr).pending = true := by
      have hflags' : (sc.enter r.chr).pending = (sc.isId || sc.isNum || sc.isDecimal) := rfl
      rw [hflags', hflags.1, hflags.2.1, hflags.2.2]
      cases hid : s.isId <;> cases hnum : s.isNum <;> cases hdecimal : s.isDecimal <;>
        simp [hid, hnum, hdecimal] at hnew ⊢
    have hiff := tokensAt_belongs hatof hinner hnewline hlast hending { hout with } hpending hm
    refine hiff.trans ⟨fun h => h.elim .inl fun h => .inr (.inl h), fun h => ?_⟩
    rcases h with h | h | h
    · exact .inl h
    · exact .inr h
    · simpa [h, or_iff_not_imp_left] using hnew

/-- The last character is neither a letter nor a digit. -/
theorem tokensAt_other (hletter : isLetter r.chr = false) (hdigit : isDigit r.chr = false)
    (hone : sc.OneNumber) :
    tokensAt (s.lexLetter atof text r) =
        tokensAt ((s.lexLetter atof (text ++ ['\n']) (beforeNewline r)).bind
          (lexLoop atof (text ++ ['\n']) m)) ↔
      if isDelim r.chr then sc.isId = false
      else r.chr = '.' ∧ sc.isNum = true ∨ sc.pending = false := by
  have hletter' : isLetter (beforeNewline r).chr = false := hletter
  have hdigit' : isDigit (beforeNewline r).chr = false := hdigit
  have hnext' : isDigit r.nextChr = false := by
    rw [hnext]
    decide
  have hnewlineNext : isDigit (beforeNewline r).nextChr = false := by
    have h : isDigit '\n' = false := by decide
    exact h
  have hflags : sc.isId = s.isId ∧ sc.isNum = s.isNum ∧ sc.isDecimal = s.isDecimal :=
    ⟨hinner.agrees.isId, hinner.agrees.isNum, hinner.agrees.isDecimal⟩
  rw [lexLetter_skip hletter, lexDigit_skip hdigit, lexLetter_skip hletter', lexDigit_skip hdigit']
  by_cases hdot : r.chr = '.' ∧ s.isNum = true
  · have hdot' : (beforeNewline r).chr = '.' ∧
        (s.isNum = true ∨ isDigit (beforeNewline r).nextChr = true) := ⟨hdot.1, .inl hdot.2⟩
    have hdecimal : ¬ s.isDecimal = true := by
      rw [← hflags.2.2, hone (hflags.2.1.trans hdot.2)]
      exact Bool.false_ne_true
    have hdelim : isDelim r.chr = false := by
      rw [hdot.1]
      decide
    have hbegun : ({ s with isDecimal := true, isNum := false } : LexState).Inner text pos r.chr
        { sc.enter r.chr with isDecimal := true, isNum := false } :=
      { hinner with
        agrees := { hinner.agrees with isDecimal := rfl, isNum := rfl }
        span := fun _ => hinner.span (pending_of_isNum hinner.agrees hdot.2) }
    have hbegun' : ({ s with isDecimal := true, isNum := false } : LexState).Inner
        (text ++ ['\n']) pos r.chr { sc.enter r.chr with isDecimal := true, isNum := false } :=
      { hnewline with
        agrees := { hnewline.agrees with isDecimal := rfl, isNum := rfl }
        span := fun _ => hnewline.span (pending_of_isNum hnewline.agrees hdot.2) }
    have hpending : ({ sc.enter r.chr with isDecimal := true, isNum := false } : Scan).pending =
        true := by
      simp [Scan.pending]
    have hiff := tokensAt_belongs hatof hbegun hbegun' hlast hending { hout with } hpending hm
    have hfirst : s.lexDot atof text r = .ok (({ s with isDecimal := true, isNum := false } :
        LexState).flushDecimal atof text r) := by
      rw [lexDot, if_pos ⟨hdot.1, .inl hdot.2⟩, if_neg hdecimal, if_pos hdot.2]
      dsimp only
      rw [if_pos hending]
    have hsecond : s.lexDot atof (text ++ ['\n']) (beforeNewline r) =
        .ok { s with isDecimal := true, isNum := false } := by
      rw [lexDot, if_pos hdot', if_neg hdecimal, if_pos hdot.2]
      rfl
    have hnotDelim : ¬ isDelim r.chr = true := by simp [hdelim]
    rw [hfirst, hsecond, if_neg hnotDelim]
    exact ⟨fun _ => .inl ⟨hdot.1, hflags.2.1.trans hdot.2⟩, fun _ => hiff.mpr (.inr rfl)⟩
  · have hone' : s.isNum = true → s.isDecimal = false := by
      rw [← hflags.2.1, ← hflags.2.2]
      exact hone
    have hiff := tokensAt_ends hatof hinner hnewline hlast hending hout hone' hm
    rw [lexDot_flush hnext' hdot, lexDot_flush hnewlineNext hdot]
    refine hiff.trans ?_
    have hpending : sc.pending = false ↔ s.isId = false ∧ s.isNum = false ∧ s.isDecimal = false := by
      rw [← hflags.1, ← hflags.2.1, ← hflags.2.2]
      simp [Scan.pending, and_assoc]
    rw [hflags.1, hflags.2.1, hpending]
    split
    · exact Iff.rfl
    · exact ⟨.inr, fun h => h.elim (fun h => (hdot h).elim) id⟩

end Plain

/-! ## One round and the newline -/

/-- What is pending when the last character has been consumed is only flushed by the newline. -/
theorem tokensAt_consumed {n : ℕ} (h : s.Views (text ++ ['\n']) text.length sc) (hout : sc.Outside)
    (hskip : sc.skip = false) (hm : (text ++ ['\n']).length ≤ m + s.index) :
    tokensAt (lexLoop atof text n s) = tokensAt (lexLoop atof (text ++ ['\n']) m s) ↔
      s.isId = false ∧ s.isNum = false ∧ s.isDecimal = false := by
  have hdone : text.length ≤ s.index := by
    rw [h.index]
    omega
  rw [lexLoop_of_length_le hdone, tokensAt_newline h hout hskip hm]
  have hsome : tokensAt (.ok s) = some s.stream.placed := rfl
  rw [hsome, Option.some.injEq, List.self_eq_append_right]
  exact lastTokens_eq_nil _

theorem pending_eq_false (h : s.Agrees sc) : sc.pending = false ↔
    s.isId = false ∧ s.isNum = false ∧ s.isDecimal = false := by
  rw [← h.isId, ← h.isNum, ← h.isDecimal]
  simp [Scan.pending, and_assoc]

end LexState

theorem AtLast.tokensAt_iff {atof : String → BitVec 32} {text init : List Char} {chr : Char}
    {x y : Except LexError LexState} {s : LexState} {sc : Scan} (h : AtLast atof text x y s sc)
    (hatof : ∀ (w : List Char) (chr : Char), isDelim chr = true →
      atof (String.ofList (w ++ [chr])) = atof (String.ofList w))
    (htext : text = init ++ [chr])
    (hout : ∀ sc', sc.step atof chr ['\n'] = some sc' → sc'.Outside) (hone : sc.OneNumber) :
    tokensAt x = tokensAt y ↔ sc.Quiet chr := by
  obtain ⟨hviews, hnewline, ⟨n, hn, rfl⟩, m, hm, rfl⟩ := h
  have hlength : text.length = init.length + 1 := by
    rw [htext, List.length_append, List.length_singleton]
  have hpos : text.length - 1 = init.length := by omega
  have hlengthNewline : (text ++ ['\n']).length = init.length + 2 := by
    rw [List.length_append, List.length_singleton, hlength]
  rw [hpos] at hviews hnewline
  have hdrop : text.drop init.length = [chr] := by
    rw [htext, List.drop_left]
  have hdropNewline : (text ++ ['\n']).drop init.length = [chr, '\n'] := by
    rw [List.drop_append_of_le_length (by omega), hdrop]
    rfl
  unfold Scan.Quiet
  by_cases hskip : sc.skip = true
  · obtain ⟨sc₁, hstep, hviews₁⟩ := hnewline.skipChar atof hskip hdropNewline
    rw [if_pos (.inl hskip), LexState.pending_eq_false hviews.agrees]
    rw [← hlength] at hviews₁
    exact LexState.tokensAt_consumed hviews₁ (hout sc₁ hstep)
      (Scan.skip_step Scan.inert_newline hstep) hm
  have hskip' : sc.skip = false := Bool.not_eq_true _ ▸ hskip
  have hindex : s.index = init.length := by rw [hviews.index, hskip']; rfl
  obtain ⟨n, rfl⟩ : ∃ n', n = n' + 1 := ⟨n - 1, by omega⟩
  obtain ⟨m, rfl⟩ : ∃ m', m = m' + 1 := ⟨m - 1, by omega⟩
  -- the two rounds of the last character
  have hchr : (s.round text).chr = chr := by
    simp [LexState.round, hindex, htext]
  have hnext : (s.round text).nextChr = Char.ofNat 0 := by
    simp [LexState.round, hindex, htext]
  have hending : (s.round text).ending = true := by
    simp [LexState.round, hindex, htext]
  have hround : s.round (text ++ ['\n']) = LexState.beforeNewline (s.round text) := by
    have hchr' : (text ++ ['\n']).getD s.index (Char.ofNat 0) = (s.round text).chr :=
      List.getD_append _ _ _ _ (by omega)
    have hnext' : (text ++ ['\n']).getD (s.index + 1) (Char.ofNat 0) = '\n' := by
      simp [hindex, ← hlength]
    have hending' : ¬ s.index + 1 = (text ++ ['\n']).length := by omega
    unfold LexState.round LexState.beforeNewline
    rw [hnext']
    simp only [hending', decide_false, Round.mk.injEq, and_true]
    exact hchr'
  have henter : s.enter (LexState.beforeNewline (s.round text)) = s.enter (s.round text) := rfl
  have hinner : (s.enter (s.round text)).Inner text init.length (s.round text).chr
      (sc.enter (s.round text).chr) := hviews.enter hskip' (by rw [hchr, htext]; simp)
  have hinnerNewline : (s.enter (s.round text)).Inner (text ++ ['\n']) init.length
      (s.round text).chr (sc.enter (s.round text).chr) :=
    hnewline.enter hskip' (by rw [hchr, htext]; simp)
  have hloop : tokensAt (lexLoop atof text (n + 1) s) =
      tokensAt ((s.enter (s.round text)).lexRound atof text (s.round text)) := by
    have hrelated := hviews.lexChar atof hskip' hdrop
    have hchar : s.lexChar atof text =
        (s.enter (s.round text)).lexRound atof text (s.round text) := rfl
    rw [lexLoop, if_pos (by omega), ← hchar]
    cases hx : s.lexChar atof text with
    | error e => rfl
    | ok s₁ =>
        rw [hx] at hrelated
        cases hy : sc.step atof chr [] with
        | none => rw [hy] at hrelated; exact hrelated.elim
        | some sc₁ =>
            rw [hy] at hrelated
            have hviews₁ : s₁.Views text (init.length + 1) sc₁ := hrelated
            have hdone : text.length ≤ s₁.index := by
              rw [hviews₁.index]
              omega
            exact congrArg tokensAt (LexState.lexLoop_of_length_le hdone n)
  have hloopNewline : lexLoop atof (text ++ ['\n']) (m + 1) s =
      ((s.enter (s.round text)).lexRound atof (text ++ ['\n'])
        (LexState.beforeNewline (s.round text))).bind (lexLoop atof (text ++ ['\n']) m) := by
    rw [lexLoop, if_pos (by omega), LexState.lexChar, hround, henter]
  rw [hloop, hloopNewline]
  have hm' : (text ++ ['\n']).length ≤ m + (s.enter (s.round text)).index := by
    rw [LexState.enter_index]
    omega
  by_cases hliteral : sc.InLiteral chr
  · rw [if_pos (.inr hliteral)]
    have hliteral' : (sc.enter (s.round text).chr).InLiteral (s.round text).chr := by
      rw [hchr]
      exact hliteral
    obtain ⟨s₁, hfirst, hsecond, hid, hnum, hdecimal⟩ :=
      @LexState.lexRound_literal atof _ _ _ hinner.agrees hliteral' hnext text (text ++ ['\n'])
    have hrelated := hnewline.lexChar atof hskip' hdropNewline
    rw [LexState.lexChar, hround, henter, hsecond] at hrelated
    rw [hfirst, hsecond]
    cases hy : sc.step atof chr ['\n'] with
    | none => rw [hy] at hrelated; exact hrelated.elim
    | some sc₁ =>
        rw [hy] at hrelated
        have hviews₁ : s₁.Views (text ++ ['\n']) text.length sc₁ := by
          rw [hlength]
          exact hrelated
        have hskip₁ := Scan.skip_step Scan.inert_newline hy
        have hm₁ : (text ++ ['\n']).length ≤ m + s₁.index := by
          rw [hviews₁.index]
          omega
        have hiff := @LexState.tokensAt_consumed atof _ _ _ m 0 hviews₁ (hout sc₁ hy) hskip₁ hm₁
        rw [hid, hnum, hdecimal, ← LexState.pending_eq_false hinner.agrees] at hiff
        exact hiff
  · have hnot : ¬ (sc.skip = true ∨ sc.InLiteral chr) := not_or.mpr ⟨hskip, hliteral⟩
    obtain ⟨hout₀, hquote, hapostrophe⟩ := LexState.outside_of_not_inLiteral hliteral
    have hout' : (sc.enter (s.round text).chr).Outside := { hout₀ with }
    rw [if_neg hnot]
    rw [← hchr] at hquote hapostrophe
    have hfirst : (s.enter (s.round text)).lexRound atof text (s.round text) =
        (s.enter (s.round text)).lexLetter atof text (s.round text) :=
      LexState.lexRound_letter hinner.agrees hout' hquote hapostrophe
        (by rw [hnext]; exact fun h => absurd h.2 (by decide))
    have hsecond : (s.enter (s.round text)).lexRound atof (text ++ ['\n'])
        (LexState.beforeNewline (s.round text)) = (s.enter (s.round text)).lexLetter atof
          (text ++ ['\n']) (LexState.beforeNewline (s.round text)) := by
      have hnewlines : ¬ ('\n' = '/' ∨ '\n' = '*') := by decide
      exact LexState.lexRound_letter hinner.agrees hout' hquote hapostrophe
        fun h => hnewlines h.2
    rw [hfirst, hsecond, ← hchr]
    by_cases hletter : isLetter (s.round text).chr = true
    · rw [if_pos hletter]
      exact LexState.tokensAt_letter hatof hinner hinnerNewline hlength.symm hending hnext hout₀ hm'
        hletter
    · rw [if_neg hletter]
      by_cases hdigit : isDigit (s.round text).chr = true
      · rw [if_pos hdigit]
        exact LexState.tokensAt_digit hatof hinner hinnerNewline hlength.symm hending hnext hout₀ hm'
          hdigit
      · rw [if_neg hdigit]
        exact LexState.tokensAt_other hatof hinner hinnerNewline hlength.symm hending hnext hout₀ hm'
          (Bool.not_eq_true _ ▸ hletter) (Bool.not_eq_true _ ▸ hdigit) hone

/-- In front of the last character nothing is pending that the end of the file would mistake. -/
def EndsQuietly (atof : String → BitVec 32) (text : List Char) : Prop :=
  ∀ init chr sc, text = init ++ [chr] → Scan.feed atof [chr] init {} = some sc → sc.Quiet chr

/-- A newline at the end of the file makes no difference exactly for the texts that end
quietly. -/
theorem lexFile_newline (atof : String → BitVec 32)
    (hatof : ∀ (w : List Char) (chr : Char), isDelim chr = true →
      atof (String.ofList (w ++ [chr])) = atof (String.ofList w))
    (text : List Char) (hout : EndsOutside atof text) :
    placedOf atof text = placedOf atof (text ++ ['\n']) ↔ EndsQuietly atof text := by
  rcases List.eq_nil_or_concat text with rfl | ⟨init, chr, rfl⟩
  · exact ⟨fun _ init chr sc h => by simp at h, fun _ => rfl⟩
  rw [List.concat_eq_append] at hout ⊢
  have hviews : ∀ text : List Char, LexState.Views text 0 {} {} := fun text =>
    ⟨⟨rfl, rfl, rfl, rfl, rfl, rfl, rfl, rfl, rfl⟩, rfl, fun hpending => by cases hpending⟩
  have hnextStep : ∀ (chr' : Char) (sc : Scan),
      sc.step atof chr' [chr] = sc.step atof chr' [chr, '\n'] := fun _ _ => rfl
  have hsame : Scan.feed atof [chr] init {} = Scan.feed atof [chr, '\n'] init {} :=
    Scan.feed_congr hnextStep init {}
  obtain ⟨hnone, hsome⟩ := @lexLoop_last atof _ chr init 0 _ _ _ _ (hviews (init ++ [chr]))
    (hviews (init ++ [chr] ++ ['\n'])) List.drop_zero (Nat.le_refl _) (Nat.le_refl _)
  rw [placedOf_eq, placedOf_eq]
  cases hfeed : Scan.feed atof [chr, '\n'] init {} with
  | none =>
      obtain ⟨hfirst, hsecond⟩ := hnone hfeed
      refine ⟨fun _ init' chr' sc htext hsc => ?_, fun _ => hfirst.trans hsecond.symm⟩
      obtain ⟨rfl, hlast⟩ := List.append_inj' htext rfl
      cases hlast
      rw [hsame, hfeed] at hsc
      cases hsc
  | some sc =>
      obtain ⟨s, hlast⟩ := hsome sc hfeed
      have hone : sc.OneNumber := Scan.OneNumber.feed (fun h => by cases h) hfeed
      have hstep : ∀ sc', sc.step atof chr ['\n'] = some sc' → sc'.Outside := by
        intro sc' hsc'
        refine hout sc' ?_
        have hchr : sc.feed atof ['\n'] [chr] = some sc' := by
          rw [Scan.feed, List.nil_append, hsc']
          rfl
        exact Scan.feed_append_of hfeed hchr
      refine (hlast.tokensAt_iff hatof rfl hstep hone).trans ⟨fun hquiet => ?_, fun hquiet => ?_⟩
      · intro init' chr' sc' htext hsc'
        obtain ⟨rfl, hlast⟩ := List.append_inj' htext rfl
        cases hlast
        rw [hsame, hfeed] at hsc'
        exact Option.some.inj hsc' ▸ hquiet
      · exact hquiet init chr sc rfl (hsame.trans hfeed)

/-- The identifier of `ab;` takes the symbol with it. -/
theorem not_newline_symbol : EndsOutside (fun _ => 0) "ab;".toList ∧
    placedOf (fun _ => 0) "ab;".toList = some [(⟨.id, .str "ab;"⟩, 1, 1)] ∧
    placedOf (fun _ => 0) "ab;\n".toList =
      some [(⟨.id, .str "ab"⟩, 1, 1), (⟨.ascii ';', .none⟩, 1, 3)] := by
  refine ⟨fun sc h => ?_, by decide, by decide⟩
  cases h
  exact ⟨rfl, rfl, rfl, rfl⟩

theorem lexFile_newline_semicolon :
    placedOf (fun _ => 0) "( ;".toList = placedOf (fun _ => 0) "( ;\n".toList := by
  refine (lexFile_newline (fun _ => 0) (fun _ _ _ => rfl) "( ;".toList (fun sc h => ?_)).mpr ?_
  · cases h
    exact ⟨rfl, rfl, rfl, rfl⟩
  · intro init chr sc htext hfeed
    have hparts : init = "( ".toList ∧ chr = ';' := by
      have hsplit : init ++ [chr] = "( ".toList ++ [';'] := htext.symm
      obtain ⟨rfl, hlast⟩ := List.append_inj' hsplit rfl
      exact ⟨rfl, (List.cons.inj hlast).1⟩
    obtain ⟨rfl, rfl⟩ := hparts
    cases hfeed
    exact .inr rfl

end TinCompiler

import TinCompiler.Lexer.Marks
import TinCompiler.Parser.Nodes

/-!
# Operators of two characters

The parser takes two symbols as one operator when no flag for whitespace is on the first one.
What stands between two symbols next to each other in the stream is whitespace, if it is not a
comment (`gap_of_symbols`), but a tab or a carriage return sets no flag.  So the flags tell whether
the characters are adjacent exactly if such a gap also has a space or a newline (`compact_iff`).
-/

namespace TinCompiler

/-! ## The flags of the last token -/

def TokenKind.isAscii : TokenKind → Bool
  | .ascii _ => Bool.true
  | _ => Bool.false

/-- Characters that set a flag. -/
def setsFlag (chr : Char) : Bool := chr = ' ' || chr = '\n'

theorem Token.suffixAny_suffix (chr : Char) (token : Token) :
    (token.suffix chr).suffixAny = (token.suffixAny || setsFlag chr) := by
  unfold suffix suffixAny setsFlag
  by_cases hnewline : chr = '\n'
  · simp [hnewline]
  · by_cases hspace : chr = ' '
    · cases hflag : token.suffixNewline <;> simp [hspace, hflag]
    · simp [hnewline, hspace]

def suffixLast (chr : Char) (tokens : List Token) : List Token :=
  tokens.dropLast ++ tokens.getLast?.toList.map (Token.suffix chr)

theorem tokens_suffix (stream : TokenStream) (chr : Char) :
    (stream.suffix chr).tokens = suffixLast chr stream.tokens := rfl

@[simp] theorem suffixLast_nil (chr : Char) : suffixLast chr [] = [] := rfl

@[simp] theorem suffixLast_concat (chr : Char) (tokens : List Token) (token : Token) :
    suffixLast chr (tokens ++ [token]) = tokens ++ [token.suffix chr] := by
  simp [suffixLast]

/-! ## What a round does to the tokens -/

namespace LexState

variable {atof : String → BitVec 32} {text : List Char} {r : Round} {s s₁ s₂ : LexState}

/-- Where the loop is apart from tokens. -/
def mode (s : LexState) : Bool × Bool × Bool × Bool × ℕ :=
  (s.isStr, s.isChar, s.isComment, s.isMulticomment, s.index)

def idle (s : LexState) : Bool := !s.isId && !s.isNum && !s.isDecimal

/-- Outside of literals and comments a round flushes tokens, which are no symbols, and then adds
a symbol or sets a flag. -/
structure Shape (r : Round) (s s₁ : LexState) : Prop where
  mode : s₁.mode = s.mode
  tokens : ∃ flushed : List Token, (∀ token ∈ flushed, token.type.isAscii = false) ∧
    (s₁.stream.tokens = s.stream.tokens ++ flushed ∨
      s₁.stream.tokens = suffixLast r.chr (s.stream.tokens ++ flushed) ∨
      isDelim r.chr = false ∧ s₁.idle = true ∧ s₁.stream.tokens = s.stream.tokens ++ flushed ++
        [{ type := .ascii r.chr, line := r.ln, column := r.col }])

/-- Only the token that has begun is another one. -/
theorem Shape.of_begun (h : Shape r s₂ s₁) (hmode : s₂.mode = s.mode)
    (hstream : s₂.stream = s.stream) : Shape r s s₁ := by
  refine ⟨h.mode.trans hmode, ?_⟩
  rw [← hstream]
  exact h.tokens

/-- One token is flushed first. -/
theorem Shape.of_flushed {token : Token} (h : Shape r s₂ s₁) (hmode : s₂.mode = s.mode)
    (hstream : s₂.stream.tokens = s.stream.tokens ++ [token]) (htoken : token.type.isAscii = false) :
    Shape r s s₁ := by
  obtain ⟨flushed, hflushed, htokens⟩ := h.tokens
  refine ⟨h.mode.trans hmode, token :: flushed, List.forall_mem_cons.mpr ⟨htoken, hflushed⟩, ?_⟩
  rw [hstream, List.append_assoc, List.singleton_append] at htokens
  exact htokens

theorem shape_refl (r : Round) (s : LexState) : Shape r s s :=
  ⟨rfl, [], fun _ hmem => absurd hmem List.not_mem_nil, .inl (List.append_nil _).symm⟩

theorem shape_lexSymbol (hidle : s.idle = true) : Shape r s (s.lexSymbol r) := by
  unfold lexSymbol
  split
  · refine ⟨rfl, [], fun _ hmem => absurd hmem List.not_mem_nil, .inr (.inl ?_)⟩
    rw [List.append_nil]
    rfl
  · next hdelim =>
      refine ⟨rfl, [], fun _ hmem => absurd hmem List.not_mem_nil,
        .inr (.inr ⟨by simpa using hdelim, hidle, ?_⟩)⟩
      rw [List.append_nil]
      rfl

theorem addWord_tokens (stream : TokenStream) (line column : ℕ) (text : String) :
    ∃ token : Token, (stream.addWord line column text).tokens = stream.tokens ++ [token] ∧
      token.type.isAscii = false := by
  unfold TokenStream.addWord
  split
  · next kind h =>
      have hall : ∀ kind ∈ TokenKind.keywords, kind.isAscii = false := by decide
      exact ⟨_, rfl, hall kind (TokenKind.mem_keywords_of_keyword h)⟩
  · exact ⟨_, rfl, rfl⟩

theorem shape_flushId (hnum : s.isNum = false) (hdecimal : s.isDecimal = false) :
    Shape r s (s.flushId text r) := by
  unfold flushId
  split
  · obtain ⟨token, htoken, hkind⟩ := addWord_tokens s.stream s.startLn s.startCol
      (String.ofList (s.slice text r))
    dsimp only
    split
    · exact (shape_refl r _).of_flushed rfl htoken hkind
    · exact (shape_lexSymbol (by simp [idle, hnum, hdecimal])).of_flushed rfl htoken hkind
  · next hid => exact shape_lexSymbol (by simp [idle, hid, hnum, hdecimal])

theorem shape_flushNum (hdecimal : s.isDecimal = false) : Shape r s (s.flushNum text r) := by
  unfold flushNum
  split
  · have hflushed : (s.stream.addInt s.startLn s.startCol (atoi (s.slice text r))).tokens =
        s.stream.tokens ++ [{ type := .literalInteger, dataIndex := s.stream.integers.length,
                              line := s.startLn, column := s.startCol }] := rfl
    dsimp only
    split
    · exact (shape_refl r _).of_flushed rfl hflushed rfl
    · have hrest : Shape r _ (flushId text r { s with
          stream := s.stream.addInt s.startLn s.startCol (atoi (s.slice text r))
          isNum := false }) := shape_flushId rfl hdecimal
      exact hrest.of_flushed rfl hflushed rfl
  · next hnum => exact shape_flushId (by simpa using hnum) hdecimal

theorem shape_flushDecimal : Shape r s (s.flushDecimal atof text r) := by
  unfold flushDecimal
  split
  · have hflushed : (s.stream.addFloat s.startLn s.startCol
        (atof (String.ofList (s.slice text r)))).tokens =
        s.stream.tokens ++ [{ type := .literalDecimal, dataIndex := s.stream.floats.length,
                              line := s.startLn, column := s.startCol }] := rfl
    dsimp only
    split
    · exact (shape_refl r _).of_flushed rfl hflushed rfl
    · have hrest : Shape r _ (flushNum text r { s with
          stream := s.stream.addFloat s.startLn s.startCol (atof (String.ofList (s.slice text r)))
          isDecimal := false }) := shape_flushNum rfl
      exact hrest.of_flushed rfl hflushed rfl
  · next hdecimal => exact shape_flushNum (by simpa using hdecimal)

theorem shape_lexDot (h : s.lexDot atof text r = .ok s₁) : Shape r s s₁ := by
  unfold lexDot at h
  split at h
  · split at h
    · cases h
    · have hbegun : ({ (if s.isNum then s else s.start r) with
          isDecimal := true, isNum := false } : LexState).mode = s.mode ∧
          (if s.isNum then s else s.start r).stream = s.stream := by
        split <;> exact ⟨rfl, rfl⟩
      cases h
      split
      · exact shape_flushDecimal.of_begun hbegun.1 hbegun.2
      · exact (shape_refl r _).of_begun hbegun.1 hbegun.2
  · cases h
    exact shape_flushDecimal

theorem shape_lexDigit (h : s.lexDigit atof text r = .ok s₁) : Shape r s s₁ := by
  unfold lexDigit at h
  split at h
  · have hbegun : ((if !s.isId && !s.isNum && !s.isDecimal then
        { s.start r with isNum := true } else s) : LexState).mode = s.mode ∧
        ((if !s.isId && !s.isNum && !s.isDecimal then
          { s.start r with isNum := true } else s) : LexState).stream = s.stream := by
      split <;> exact ⟨rfl, rfl⟩
    dsimp only at h
    split at h
    · exact (shape_lexDot h).of_begun hbegun.1 hbegun.2
    · cases h
      exact (shape_refl r _).of_begun hbegun.1 hbegun.2
  · exact shape_lexDot h

theorem shape_lexLetter (h : s.lexLetter atof text r = .ok s₁) : Shape r s s₁ := by
  unfold lexLetter at h
  split at h
  · have hbegun : ((if s.isId then s else { s.start r with isId := true }) : LexState).mode =
        s.mode ∧ ((if s.isId then s else { s.start r with isId := true }) : LexState).stream =
          s.stream := by
      split <;> exact ⟨rfl, rfl⟩
    generalize (if s.isId then s else { s.start r with isId := true }) = s₂ at hbegun h
    dsimp only at h
    split at h
    · cases h
    · split at h
      · exact (shape_lexDigit h).of_begun hbegun.1 hbegun.2
      · cases h
        exact (shape_refl r _).of_begun hbegun.1 hbegun.2
  · exact shape_lexDigit h

/-- What a whole round does: outside of literals and comments it has the shape above, otherwise at
most a literal is added. -/
theorem tokens_lexRound (h : s.lexRound atof text r = .ok s₁) :
    s₁.stream.tokens = s.stream.tokens ∨
      (∃ token : Token, token.type.isAscii = false ∧ s₁.stream.tokens = s.stream.tokens ++ [token]) ∨
      (s.isStr = false ∧ s.isChar = false ∧ s.isComment = false ∧ s.isMulticomment = false) ∧
        Shape r s s₁ := by
  unfold lexRound at h
  by_cases hcomment : s.isComment = true
  · rw [if_pos hcomment] at h
    cases h
    left
    split <;> rfl
  rw [if_neg hcomment] at h
  by_cases hmulti : s.isMulticomment = true
  · rw [if_pos hmulti] at h
    cases h
    left
    split <;> rfl
  rw [if_neg hmulti] at h
  split at h
  · cases h
    exact .inl rfl
  split at h
  · cases h
    exact .inl rfl
  split at h
  · cases h
    unfold lexQuote
    split
    · exact .inr (.inl ⟨_, rfl, rfl⟩)
    · exact .inl rfl
  split at h
  · cases h
    unfold lexApostrophe
    split
    · exact .inr (.inl ⟨_, rfl, rfl⟩)
    · exact .inl rfl
  split at h
  · cases h
    unfold lexContent
    left
    split
    · rfl
    · split <;> rfl
  · next hliteral =>
      have hout : s.isStr = false ∧ s.isChar = false := by
        simpa [not_or] using hliteral
      exact .inr (.inr ⟨⟨hout.1, hout.2, by simpa using hcomment, by simpa using hmulti⟩,
        shape_lexLetter h⟩)

end LexState

/-! ## What is scanned behind a symbol -/

namespace Scan

variable {atof : String → BitVec 32} {chr next : Char} {ending : Bool} {sc sc' : Scan}
  {after : List Char}

/-- The next lexeme is no symbol. -/
def Underway (sc : Scan) : Prop := sc.pending = true ∨ sc.isStr = true ∨ sc.isChar = true

/-- There is no new lexeme and the next one is still no symbol, or the first new one is none. -/
def Goes (lexemes : List Lexeme) (sc : Scan) : Prop :=
  (sc.lexemes = lexemes ∧ sc.Underway) ∨
    ∃ x more, sc.lexemes = lexemes ++ x :: more ∧ x.kind.isAscii = false

theorem Underway.leave (h : sc.Underway) : sc.leave.Underway := by
  unfold Scan.leave
  split
  · exact h
  · next hpending => exact .inr (h.resolve_left hpending)

theorem Goes.leave {lexemes : List Lexeme} (h : sc.Goes lexemes) : sc.leave.Goes lexemes := by
  rcases h with ⟨hlexemes, hbegun⟩ | ⟨x, more, hlexemes, hx⟩
  · exact .inl ⟨(lexemes_leave sc).trans hlexemes, hbegun.leave⟩
  · exact .inr ⟨x, more, (lexemes_leave sc).trans hlexemes, hx⟩

theorem isAscii_word (text : String) : (Lexeme.word text).kind.isAscii = false := by
  unfold Lexeme.word
  split
  · next kind h =>
      have hall : ∀ kind ∈ TokenKind.keywords, kind.isAscii = false := by decide
      exact hall kind (TokenKind.mem_keywords_of_keyword h)
  · rfl

theorem lexSymbol_lexemes (sc : Scan) : ∃ more, (sc.lexSymbol chr).lexemes = sc.lexemes ++ more := by
  unfold lexSymbol
  split
  · exact ⟨[], (List.append_nil _).symm⟩
  · exact ⟨_, rfl⟩

theorem flushId_lexemes (sc : Scan) : ∃ more, (sc.flushId chr ending).lexemes = sc.lexemes ++ more := by
  unfold flushId
  split
  · dsimp only
    split
    · exact ⟨_, rfl⟩
    · obtain ⟨more, hmore⟩ := @lexSymbol_lexemes chr { sc with
        lexemes := sc.lexemes ++ [Lexeme.word (String.ofList (sc.slice ending))], isId := false }
      exact ⟨_, by rw [hmore, List.append_assoc]⟩
  · exact lexSymbol_lexemes sc

theorem flushNum_lexemes (sc : Scan) :
    ∃ more, (sc.flushNum chr ending).lexemes = sc.lexemes ++ more := by
  unfold flushNum
  split
  · dsimp only
    split
    · exact ⟨_, rfl⟩
    · obtain ⟨more, hmore⟩ := @flushId_lexemes chr ending
        { sc.add .literalInteger (.num (atoi (sc.slice ending))) with isNum := false }
      exact ⟨_, by rw [hmore, add, List.append_assoc]⟩
  · exact flushId_lexemes sc

/-- The first lexeme that is flushed. -/
theorem goes_flushDecimal (h : sc.pending = true) :
    (sc.flushDecimal atof chr ending).Goes sc.lexemes := by
  unfold flushDecimal
  split
  · dsimp only
    split
    · exact .inr ⟨_, [], rfl, rfl⟩
    · obtain ⟨more, hmore⟩ := @flushNum_lexemes chr ending
        { sc.add .literalDecimal (.dec (atof (String.ofList (sc.slice ending)))) with
          isDecimal := false }
      exact .inr ⟨_, more, by rw [hmore, add, List.append_assoc]; rfl, rfl⟩
  · next hdecimal =>
      unfold flushNum
      split
      · dsimp only
        split
        · exact .inr ⟨_, [], rfl, rfl⟩
        · obtain ⟨more, hmore⟩ := @flushId_lexemes chr ending
            { sc.add .literalInteger (.num (atoi (sc.slice ending))) with isNum := false }
          exact .inr ⟨_, more, by rw [hmore, add, List.append_assoc]; rfl, rfl⟩
      · next hnum =>
          unfold flushId
          split
          · dsimp only
            split
            · exact .inr ⟨_, [], rfl, isAscii_word _⟩
            · obtain ⟨more, hmore⟩ := @lexSymbol_lexemes chr { sc with
                lexemes := sc.lexemes ++ [Lexeme.word (String.ofList (sc.slice ending))]
                isId := false }
              exact .inr ⟨_, more, by rw [hmore, List.append_assoc]; rfl, isAscii_word _⟩
          · next hid => simp [pending, hid, hnum, hdecimal] at h

theorem goes_lexDot (h : sc.pending = true) (hdot : sc.lexDot atof chr next ending = some sc') :
    sc'.Goes sc.lexemes := by
  unfold lexDot at hdot
  split at hdot
  · split at hdot
    · cases hdot
    · have hlexemes : ({ (if sc.isNum then sc else sc.start chr) with
          isDecimal := true, isNum := false } : Scan).lexemes = sc.lexemes := by
        split <;> rfl
      have hpending : ({ (if sc.isNum then sc else sc.start chr) with
          isDecimal := true, isNum := false } : Scan).pending = true := by simp [pending]
      cases hdot
      split
      · rw [← hlexemes]
        exact goes_flushDecimal hpending
      · exact .inl ⟨hlexemes, .inl hpending⟩
  · cases hdot
    exact goes_flushDecimal h

theorem goes_lexDigit (h : sc.pending = true ∨ isDigit chr = true)
    (hdigit : sc.lexDigit atof chr next ending = some sc') : sc'.Goes sc.lexemes := by
  unfold lexDigit at hdigit
  split at hdigit
  · have hlexemes : ((if !sc.isId && !sc.isNum && !sc.isDecimal then
        { sc.start chr with isNum := true } else sc) : Scan).lexemes = sc.lexemes := by
      split <;> rfl
    have hpending : ((if !sc.isId && !sc.isNum && !sc.isDecimal then
        { sc.start chr with isNum := true } else sc) : Scan).pending = true := by
      split
      · simp [pending]
      · next hbegun =>
          unfold pending
          cases hid : sc.isId <;> cases hnum : sc.isNum <;> simp_all
    dsimp only at hdigit
    generalize ((if !sc.isId && !sc.isNum && !sc.isDecimal then
        { sc.start chr with isNum := true } else sc) : Scan) = sc₁ at hlexemes hpending hdigit
    rw [← hlexemes]
    split at hdigit
    · exact goes_lexDot hpending hdigit
    · cases hdigit
      exact .inl ⟨rfl, .inl hpending⟩
  · next hchr => exact goes_lexDot (h.resolve_right hchr) hdigit

theorem goes_lexLetter (h : sc.pending = true ∨ isLetter chr = true ∨ isDigit chr = true)
    (hletter : sc.lexLetter atof chr next ending = some sc') : sc'.Goes sc.lexemes := by
  unfold lexLetter at hletter
  split at hletter
  · have hlexemes : ((if sc.isId then sc else { sc.start chr with isId := true }) : Scan).lexemes =
        sc.lexemes := by
      split <;> rfl
    have hpending : ((if sc.isId then sc else { sc.start chr with isId := true }) : Scan).pending =
        true := by
      split
      · next hid => simp [pending, hid]
      · simp [pending]
    generalize (if sc.isId then sc else { sc.start chr with isId := true }) = sc₁
      at hlexemes hpending hletter
    rw [← hlexemes]
    dsimp only at hletter
    split at hletter
    · cases hletter
    · split at hletter
      · exact goes_lexDigit (.inl hpending) hletter
      · cases hletter
        exact .inl ⟨rfl, .inl hpending⟩
  · next hchr =>
      exact goes_lexDigit (h.imp_right fun hword => hword.resolve_left hchr) hletter

/-- What has begun goes on. -/
theorem Underway.step (h : sc.Underway) (hstep : sc.step atof chr after = some sc') :
    sc'.Goes sc.lexemes := by
  unfold Scan.step at hstep
  split at hstep
  · cases hstep
    exact Goes.leave (.inl ⟨rfl, h⟩)
  · obtain ⟨sc₁, hround, rfl⟩ := Option.map_eq_some_iff.mp hstep
    have henter : (sc.enter chr).Underway := h
    refine Goes.leave (?_ : sc₁.Goes (sc.enter chr).lexemes)
    generalize sc.enter chr = sc at henter hround
    unfold lexRound at hround
    split at hround
    · cases hround
      split <;> exact .inl ⟨rfl, henter⟩
    split at hround
    · cases hround
      split <;> exact .inl ⟨rfl, henter⟩
    split at hround
    · cases hround
      exact .inl ⟨rfl, henter⟩
    split at hround
    · cases hround
      exact .inl ⟨rfl, henter⟩
    split at hround
    · cases hround
      unfold lexQuote
      split
      · exact .inr ⟨_, [], rfl, rfl⟩
      · exact .inl ⟨rfl, .inr (.inl rfl)⟩
    split at hround
    · cases hround
      unfold lexApostrophe
      split
      · exact .inr ⟨_, [], rfl, rfl⟩
      · exact .inl ⟨rfl, .inr (.inr rfl)⟩
    split at hround
    · cases hround
      unfold lexContent
      split
      · exact .inl ⟨rfl, henter⟩
      · split <;> exact .inl ⟨rfl, henter⟩
    · next hliteral =>
        exact goes_lexLetter (.inl (henter.resolve_right hliteral)) hround

/-- A character that is no whitespace, where nothing has begun: without a lexeme something begins
or a comment is opened. -/
theorem clean_step {lexemes : List Lexeme} (hdelim : isDelim chr = false)
    (hstep : (clean lexemes).step atof chr after = some sc') (hnone : sc'.lexemes = lexemes) :
    sc'.Underway ∨ sc'.isComment = true ∨ sc'.isMulticomment = true := by
  unfold Scan.step at hstep
  rw [if_neg (by simp [clean])] at hstep
  obtain ⟨sc₁, hround, rfl⟩ := Option.map_eq_some_iff.mp hstep
  rw [lexemes_leave] at hnone
  suffices h : sc₁.Underway ∨ sc₁.isComment = true ∨ sc₁.isMulticomment = true by
    refine h.imp Underway.leave fun hcomment => ?_
    unfold Scan.leave
    split <;> exact hcomment
  have hchars : ((clean lexemes).enter chr).isStr = false ∧
      ((clean lexemes).enter chr).isChar = false ∧
      ((clean lexemes).enter chr).pending = false ∧
      ((clean lexemes).enter chr).isComment = false ∧
      ((clean lexemes).enter chr).isMulticomment = false ∧
      ((clean lexemes).enter chr).lexemes = lexemes := ⟨rfl, rfl, rfl, rfl, rfl, rfl⟩
  generalize (clean lexemes).enter chr = sc at hchars hround
  obtain ⟨hstr, hchar, hpending, hcomment, hmulti, rfl⟩ := hchars
  unfold lexRound at hround
  rw [if_neg (by simp [hcomment]), if_neg (by simp [hmulti])] at hround
  split at hround
  · cases hround
    exact .inr (.inl rfl)
  split at hround
  · cases hround
    exact .inr (.inr rfl)
  split at hround
  · cases hround
    unfold lexQuote
    rw [if_neg (by simp [hstr])]
    exact .inl (.inr (.inl rfl))
  split at hround
  · cases hround
    unfold lexApostrophe
    rw [if_neg (by simp [hchar])]
    exact .inl (.inr (.inr rfl))
  rw [if_neg (by simp [hstr, hchar])] at hround
  by_cases hword : isLetter chr = true ∨ isDigit chr = true
  · rcases goes_lexLetter (.inr hword) hround with ⟨-, hbegun⟩ | ⟨x, more, hlexemes, -⟩
    · exact .inl hbegun
    · rw [hlexemes] at hnone
      simp at hnone
  · obtain ⟨hletter, hdigit⟩ := not_or.mp hword
    rw [lexLetter, if_neg hletter, lexDigit, if_neg hdigit] at hround
    simp only [pending, Bool.or_eq_false_iff] at hpending
    obtain ⟨⟨hid, hnum⟩, hdecimal⟩ := hpending
    unfold lexDot at hround
    split at hround
    · rw [if_neg (by simp [hdecimal])] at hround
      have hlexemes : ({ (if sc.isNum then sc else sc.start chr) with
          isDecimal := true, isNum := false } : Scan).lexemes = sc.lexemes := by
        split <;> rfl
      have hbegun : ({ (if sc.isNum then sc else sc.start chr) with
          isDecimal := true, isNum := false } : Scan).pending = true := by simp [pending]
      dsimp only at hround
      generalize ({ (if sc.isNum then sc else sc.start chr) with
          isDecimal := true, isNum := false } : Scan) = sc₂ at hlexemes hbegun hround
      cases hround
      have hgoes : (if after.isEmpty then sc₂.flushDecimal atof chr after.isEmpty
          else sc₂).Goes sc.lexemes := by
        rw [← hlexemes]
        split
        · exact goes_flushDecimal hbegun
        · exact .inl ⟨rfl, .inl hbegun⟩
      rcases hgoes with ⟨-, hbegun⟩ | ⟨x, more, hmore, -⟩
      · exact .inl hbegun
      · rw [hmore] at hnone
        simp at hnone
    · -- a symbol
      cases hround
      unfold flushDecimal flushNum flushId lexSymbol at hnone
      simp [hdecimal, hnum, hid, hdelim, add] at hnone

end Scan

/-! ## What stands between two symbols -/

section Gaps

variable (atof : String → BitVec 32) (text : List Char)

/-- The bytes between two bytes. -/
def gap (m m' : ℕ) : List Char := (text.drop (m + 1)).take (m' - (m + 1))

/-- In front of a byte the lexer is in a comment. -/
def CommentAt (j : ℕ) : Prop :=
  ∃ sc, Scan.feed atof (text.drop j) (text.take j) {} = some sc ∧
    (sc.isComment = true ∨ sc.isMulticomment = true)

def NoComment (m m' : ℕ) : Prop := ∀ j, m < j → j ≤ m' → ¬ CommentAt atof text j

/-- Up to the byte `m'` there is only whitespace behind the token, and its flags are those of this
whitespace. -/
structure Spaced (m m' : ℕ) (token : Token) : Prop where
  lt : m < m'
  delims : ∀ chr ∈ gap text m m', isDelim chr = true
  flags : token.suffixAny = (gap text m m').any setsFlag

/-- Two tokens next to each other. -/
def SpacedPair (token token' : Token) : Prop :=
  token.type.isAscii = true → token'.type.isAscii = true →
    NoComment atof text token.column token'.column → Spaced text token.column token'.column token

/-- Behind a symbol there has been a comment, or something has begun, or only whitespace. -/
def Behind (pos : ℕ) (sc : Scan) (token : Token) : Prop :=
  (∃ j, token.column < j ∧ j ≤ pos ∧ CommentAt atof text j) ∨ sc.Underway ∨
    (sc.Outside ∧ sc.pending = false ∧ sc.skip = false) ∧ Spaced text token.column pos token

structure SymbolsSpaced (pos : ℕ) (s : LexState) (sc : Scan) : Prop where
  pairs : s.stream.tokens.IsChain (SpacedPair atof text)
  last : ∀ token ∈ s.stream.tokens.getLast?, token.type.isAscii = true →
    Behind atof text pos sc token

variable {atof text} {pos m : ℕ} {chr : Char} {token token' : Token} {sc sc₁ : Scan}
  {s s₁ : LexState}

theorem gap_succ (hlt : m < pos) (hchr : text[pos]? = some chr) :
    gap text m (pos + 1) = gap text m pos ++ [chr] := by
  unfold gap
  have hlength : pos + 1 - (m + 1) = pos - (m + 1) + 1 := by omega
  have hget : (text.drop (m + 1))[pos - (m + 1)]? = some chr := by
    rw [List.getElem?_drop, Nat.add_sub_cancel' hlt, hchr]
  rw [hlength, List.take_add_one, hget]
  rfl

theorem Spaced.succ (h : Spaced text m pos token) (hchr : text[pos]? = some chr)
    (hdelim : isDelim chr = true) : Spaced text m (pos + 1) (token.suffix chr) where
  lt := Nat.lt_succ_of_lt h.lt
  delims := by
    rw [gap_succ h.lt hchr]
    intro chr' hmem
    rcases List.mem_append.mp hmem with hold | hnew
    · exact h.delims chr' hold
    · rwa [List.mem_singleton.mp hnew]
  flags := by
    rw [gap_succ h.lt hchr, Token.suffixAny_suffix, h.flags, List.any_append]
    simp

theorem setsFlag_of_not_isDelim (hdelim : isDelim chr = false) : setsFlag chr = false := by
  unfold isDelim at hdelim
  unfold setsFlag
  simp only [Bool.or_eq_false_iff, decide_eq_false_iff_not] at hdelim ⊢
  exact hdelim.1.1

/-- The kinds of the tokens. -/
theorem kinds_of_views (h : s.Views text pos sc) :
    sc.lexemes.map Lexeme.kind = s.stream.tokens.map Token.type := by
  rw [h.agrees.lexemes]
  simp [TokenStream.lexemes, TokenStream.placed, Function.comp_def]

theorem Scan.step_lexemes {after : List Char} (hstep : sc.step atof chr after = some sc₁) :
    ∃ more, sc₁.lexemes = sc.lexemes ++ more := by
  have hprepend : sc = prepend sc.lexemes { sc with lexemes := [] } := by simp [prepend]
  rw [hprepend, step_prepend] at hstep
  obtain ⟨sc₂, -, rfl⟩ := Option.map_eq_some_iff.mp hstep
  exact ⟨sc₂.lexemes, rfl⟩

theorem Tracked.tidy (h : Tracked atof text pos s sc) : sc.Tidy := Scan.tidy_initial.feed h.fed

/-- A round without a new token. -/
theorem Behind.quiet (h : Behind atof text pos sc token) (htracked : Tracked atof text pos s sc)
    (htracked₁ : Tracked atof text (pos + 1) s₁ sc₁) (hlt : pos < text.length)
    (hstep : sc.step atof text[pos] (text.drop (pos + 1)) = some sc₁)
    (hnone : sc₁.lexemes = sc.lexemes) :
    Behind atof text (pos + 1) sc₁ (token.suffix text[pos]) := by
  rcases h with ⟨j, hgt, hle, hcomment⟩ | hbegun | ⟨⟨hout, hpending, hskip⟩, hspaced⟩
  · refine .inl ⟨j, ?_, Nat.le_succ_of_le hle, hcomment⟩
    rwa [Token.suffix_column]
  · rcases hbegun.step hstep with ⟨-, hbegun⟩ | ⟨x, more, hmore, -⟩
    · exact .inr (.inl hbegun)
    · rw [hmore] at hnone
      simp at hnone
  · have hclean := Scan.eq_clean htracked.tidy hout hpending hskip
    rw [hclean] at hstep
    cases hdelim : isDelim text[pos] with
    | true =>
        rw [Scan.step_clean_delim hdelim] at hstep
        cases hstep
        refine .inr (.inr ⟨⟨Scan.outside_clean, rfl, rfl⟩, ?_⟩)
        rw [Token.suffix_column]
        exact hspaced.succ (List.getElem?_eq_getElem hlt) hdelim
    | false =>
        rcases Scan.clean_step hdelim hstep hnone with hbegun | hcomment
        · exact .inr (.inl hbegun)
        · refine .inl ⟨pos + 1, ?_, Nat.le_refl _, sc₁, htracked₁.fed, hcomment⟩
          rw [Token.suffix_column]
          exact Nat.lt_succ_of_lt hspaced.lt

/-- A round with a symbol as the first new token. -/
theorem Behind.symbol (h : Behind atof text pos sc token) {after : List Char}
    (hstep : sc.step atof chr after = some sc₁) {kinds : List TokenKind}
    (hkinds : sc₁.lexemes.map Lexeme.kind = sc.lexemes.map Lexeme.kind ++ .ascii chr :: kinds)
    (hdelim : isDelim chr = false) (hnone : NoComment atof text token.column pos) :
    Spaced text token.column pos (token.suffix chr) := by
  rcases h with ⟨j, hgt, hle, hcomment⟩ | hbegun | ⟨-, hspaced⟩
  · exact absurd hcomment (hnone j hgt hle)
  · rcases hbegun.step hstep with ⟨hsame, -⟩ | ⟨x, more, hmore, hx⟩
    · rw [hsame] at hkinds
      simp at hkinds
    · rw [hmore, List.map_append, List.append_cancel_left_eq, List.map_cons] at hkinds
      rw [(List.cons.inj hkinds).1] at hx
      cases hx
  · refine ⟨hspaced.lt, hspaced.delims, ?_⟩
    rw [Token.suffixAny_suffix, setsFlag_of_not_isDelim hdelim, Bool.or_false, hspaced.flags]

/-! ### One round -/

variable {tokens flushed : List Token}

theorem spacedPair_of_left (h : token.type.isAscii = false) :
    SpacedPair atof text token token' :=
  fun hascii => absurd (h.symm.trans hascii) (by decide)

theorem spacedPair_of_right (h : token'.type.isAscii = false) :
    SpacedPair atof text token token' :=
  fun _ hascii => absurd (h.symm.trans hascii) (by decide)

/-- The pairs of the tokens in front of the last one, and the one it is in. -/
theorem isChain_suffixLast (h : tokens.IsChain (SpacedPair atof text)) (chr : Char) :
    (suffixLast chr tokens).IsChain (SpacedPair atof text) := by
  rcases List.eq_nil_or_concat tokens with rfl | ⟨init, last, rfl⟩
  · exact h
  · rw [List.concat_eq_append] at h ⊢
    rw [suffixLast_concat]
    rw [List.isChain_append] at h ⊢
    refine ⟨h.1, List.isChain_singleton _, fun x hx y hy => ?_⟩
    cases hy
    unfold SpacedPair
    rw [Token.suffix_type, Token.suffix_column]
    exact h.2.2 x hx last rfl

theorem isChain_flushed (h : tokens.IsChain (SpacedPair atof text))
    (hflushed : ∀ token ∈ flushed, token.type.isAscii = false) :
    (tokens ++ flushed).IsChain (SpacedPair atof text) := by
  refine List.isChain_append.mpr ⟨h, ?_, fun x _ y hy => ?_⟩
  · exact (List.pairwise_of_forall_mem_list fun x hx y _ =>
      spacedPair_of_left (hflushed x hx)).isChain
  · exact spacedPair_of_right (hflushed y (List.mem_of_head? hy))

theorem suffix_suffix (chr : Char) (token : Token) :
    (token.suffix chr).suffix chr = token.suffix chr := by
  unfold Token.suffix
  split
  · rfl
  · split_ifs <;> first | rfl | simp_all

theorem suffixLast_suffixLast (chr : Char) (tokens : List Token) :
    suffixLast chr (suffixLast chr tokens) = suffixLast chr tokens := by
  rcases List.eq_nil_or_concat tokens with rfl | ⟨init, last, rfl⟩
  · rfl
  · rw [List.concat_eq_append, suffixLast_concat, suffixLast_concat, suffix_suffix]

theorem map_type_suffixLast (chr : Char) (tokens : List Token) :
    (suffixLast chr tokens).map Token.type = tokens.map Token.type := by
  rcases List.eq_nil_or_concat tokens with rfl | ⟨init, last, rfl⟩
  · rfl
  · rw [List.concat_eq_append, suffixLast_concat]
    simp

/-- If there are flushed tokens, the last token is no symbol. -/
theorem last_of_flushed (hflushed : ∀ token ∈ flushed, token.type.isAscii = false)
    (hne : flushed ≠ []) {token : Token} (hlast : token ∈ (tokens ++ flushed).getLast?) :
    token.type.isAscii = false := by
  rw [List.getLast?_append_of_ne_nil _ hne] at hlast
  exact hflushed token (List.mem_of_getLast? hlast)

/-- What a round leaves of the tokens that are there. -/
theorem tokens_enter (r : Round) (s : LexState) :
    (s.enter r).stream.tokens = suffixLast r.chr s.stream.tokens := by
  unfold LexState.enter
  dsimp only
  split <;> split <;> rfl

theorem SymbolsSpaced.quiet (h : SymbolsSpaced atof text pos s sc)
    (htracked : Tracked atof text pos s sc) (htracked₁ : Tracked atof text (pos + 1) s₁ sc₁)
    (hlt : pos < text.length)
    (hstep : sc.step atof text[pos] (text.drop (pos + 1)) = some sc₁)
    (htokens : s₁.stream.tokens = suffixLast text[pos] s.stream.tokens) :
    SymbolsSpaced atof text (pos + 1) s₁ sc₁ := by
  have hnone : sc₁.lexemes = sc.lexemes := by
    obtain ⟨more, hmore⟩ := Scan.step_lexemes hstep
    have hkinds := kinds_of_views htracked₁.views
    rw [htokens, map_type_suffixLast, ← kinds_of_views htracked.views, hmore, List.map_append] at hkinds
    have hnil : more = [] := by simpa using hkinds
    rw [hmore, hnil, List.append_nil]
  refine ⟨?_, fun token hlast hascii => ?_⟩
  · rw [htokens]
    exact isChain_suffixLast h.pairs _
  · rw [htokens] at hlast
    rcases List.eq_nil_or_concat s.stream.tokens with hnil | ⟨init, last, hsplit⟩
    · rw [hnil] at hlast
      cases hlast
    · rw [hsplit, List.concat_eq_append, suffixLast_concat, List.getLast?_concat] at hlast
      cases hlast
      have hbehind := h.last last (by rw [hsplit, List.concat_eq_append, List.getLast?_concat]; rfl)
        (by rwa [Token.suffix_type] at hascii)
      exact hbehind.quiet htracked htracked₁ hlt hstep hnone

theorem SymbolsSpaced.flushes (h : SymbolsSpaced atof text pos s sc) (hne : flushed ≠ [])
    (hflushed : ∀ token ∈ flushed, token.type.isAscii = false)
    (htokens : s₁.stream.tokens = suffixLast chr s.stream.tokens ++ flushed) :
    SymbolsSpaced atof text (pos + 1) s₁ sc₁ := by
  refine ⟨?_, fun token hlast hascii => ?_⟩
  · rw [htokens]
    exact isChain_flushed (isChain_suffixLast h.pairs _) hflushed
  · rw [htokens] at hlast
    rw [last_of_flushed hflushed hne hlast] at hascii
    cases hascii

theorem SymbolsSpaced.symbol (h : SymbolsSpaced atof text pos s sc)
    (htracked : Tracked atof text pos s sc) (htracked₁ : Tracked atof text (pos + 1) s₁ sc₁)
    {after : List Char} (hstep : sc.step atof chr after = some sc₁)
    (hbetween : sc₁.Outside ∧ sc₁.pending = false ∧ sc₁.skip = false)
    (hflushed : ∀ token ∈ flushed, token.type.isAscii = false) (hdelim : isDelim chr = false)
    {line : ℕ} (htokens : s₁.stream.tokens = suffixLast chr s.stream.tokens ++ flushed ++
      [{ type := .ascii chr, line := line, column := pos }]) :
    SymbolsSpaced atof text (pos + 1) s₁ sc₁ := by
  refine ⟨?_, fun token hlast hascii => ?_⟩
  · rw [htokens, List.isChain_append]
    refine ⟨isChain_flushed (isChain_suffixLast h.pairs _) hflushed, List.isChain_singleton _,
      fun token hlast token' hmem => ?_⟩
    cases hmem
    by_cases hne : flushed = []
    · rcases List.eq_nil_or_concat s.stream.tokens with hnil | ⟨init, last, hsplit⟩
      · rw [hne, hnil] at hlast
        cases hlast
      · rw [hne, hsplit, List.append_nil, List.concat_eq_append, suffixLast_concat,
          List.getLast?_concat] at hlast
        cases hlast
        intro hascii _ hnocomment
        rw [Token.suffix_column] at hnocomment ⊢
        have hbehind := h.last last
          (by rw [hsplit, List.concat_eq_append, List.getLast?_concat]; rfl)
          (by rwa [Token.suffix_type] at hascii)
        have hkinds := kinds_of_views htracked₁.views
        rw [htokens, hne, List.append_nil, List.map_append, map_type_suffixLast,
          ← kinds_of_views htracked.views] at hkinds
        exact hbehind.symbol hstep hkinds hdelim hnocomment
    · exact spacedPair_of_left (last_of_flushed hflushed hne hlast)
  · rw [htokens, List.getLast?_concat] at hlast
    cases hlast
    have hnil : gap text pos (pos + 1) = [] := by simp [gap]
    refine .inr (.inr ⟨hbetween, Nat.lt_succ_self _, ?_, ?_⟩)
    · rw [hnil]
      exact fun _ hmem => absurd hmem List.not_mem_nil
    · rw [hnil]
      rfl

theorem suffixLast_append (hne : flushed ≠ []) :
    suffixLast chr (tokens ++ flushed) = tokens ++ suffixLast chr flushed := by
  obtain ⟨init, last, rfl⟩ := (List.eq_nil_or_concat flushed).resolve_left hne
  rw [List.concat_eq_append, ← List.append_assoc, suffixLast_concat, suffixLast_concat,
    List.append_assoc]

theorem isAscii_suffixLast (hflushed : ∀ token ∈ flushed, token.type.isAscii = false) :
    ∀ token ∈ suffixLast chr flushed, token.type.isAscii = false := by
  intro token hmem
  have htype : token.type ∈ (suffixLast chr flushed).map Token.type := List.mem_map_of_mem hmem
  rw [map_type_suffixLast] at htype
  obtain ⟨token', hmem', hsame⟩ := List.mem_map.mp htype
  rw [← hsame]
  exact hflushed token' hmem'

/-- A round keeps the invariant. -/
theorem SymbolsSpaced.round (h : SymbolsSpaced atof text pos s sc)
    (htracked : Tracked atof text pos s sc) (htracked₁ : Tracked atof text (pos + 1) s₁ sc₁)
    (hskip : sc.skip = false) (hlt : pos < text.length)
    (hstep : sc.step atof text[pos] (text.drop (pos + 1)) = some sc₁)
    (hchar : s.markChar atof text = .ok s₁) : SymbolsSpaced atof text (pos + 1) s₁ sc₁ := by
  have hindex : s.index = pos := by
    rw [htracked.views.index, hskip]
    rfl
  obtain ⟨sm, hsm⟩ : ∃ sm : LexState, sm = { s with line := 1, column := s.index } := ⟨_, rfl⟩
  have hround : (sm.enter (sm.round text)).lexRound atof text (sm.round text) = .ok s₁ := by
    rw [hsm]
    exact hchar
  have hchr : (sm.round text).chr = text[pos] := by
    rw [hsm]
    change text.getD s.index _ = _
    rw [hindex, List.getD_eq_getElem _ _ hlt]
  have hcol : (sm.round text).col = pos := by
    rw [hsm]
    exact hindex
  have henter : (sm.enter (sm.round text)).stream.tokens = suffixLast text[pos] s.stream.tokens := by
    rw [tokens_enter, hchr, hsm]
  rcases LexState.tokens_lexRound hround with hnone | ⟨token, hkind, htokens⟩ | ⟨hflags, hshape⟩
  · exact h.quiet htracked htracked₁ hlt hstep (hnone.trans henter)
  · rw [henter] at htokens
    refine h.flushes (List.cons_ne_nil token []) ?_ htokens
    rintro token' hmem
    rwa [List.mem_singleton.mp hmem]
  · obtain ⟨flushed, hflushed, htokens⟩ := hshape.tokens
    rw [henter, hchr, hcol] at htokens
    rcases htokens with htokens | htokens | ⟨hdelim, hidle, htokens⟩
    · by_cases hne : flushed = []
      · rw [hne, List.append_nil] at htokens
        exact h.quiet htracked htracked₁ hlt hstep htokens
      · exact h.flushes hne hflushed htokens
    · by_cases hne : flushed = []
      · rw [hne, List.append_nil, suffixLast_suffixLast] at htokens
        exact h.quiet htracked htracked₁ hlt hstep htokens
      · rw [suffixLast_append hne] at htokens
        refine h.flushes ?_ (isAscii_suffixLast hflushed) htokens
        obtain ⟨init, last, rfl⟩ := (List.eq_nil_or_concat flushed).resolve_left hne
        rw [List.concat_eq_append, suffixLast_concat]
        simp
    · -- the scan is between tokens again
      have hmode := hshape.mode
      simp only [LexState.mode, Prod.mk.injEq, LexState.enter_index] at hmode
      obtain ⟨hstr, hchar', hcomment, hmulti, hindex₁⟩ := hmode
      have hagrees := htracked₁.views.agrees
      have hout : sc₁.Outside := ⟨hagrees.isStr.trans (hstr.trans hflags.1),
        hagrees.isChar.trans (hchar'.trans hflags.2.1),
        hagrees.isComment.trans (hcomment.trans hflags.2.2.1),
        hagrees.isMulticomment.trans (hmulti.trans hflags.2.2.2)⟩
      have hpending : sc₁.pending = false := by
        unfold Scan.pending
        rw [hagrees.isId, hagrees.isNum, hagrees.isDecimal]
        simpa [LexState.idle, and_assoc] using hidle
      have hskip₁ : sc₁.skip = false := by
        by_contra hskip₁
        have hviews := htracked₁.views.index
        have hsmIndex : sm.index = s.index := by rw [hsm]
        rw [if_pos (by simpa using hskip₁)] at hviews
        omega
      exact h.symbol htracked htracked₁ hstep ⟨hout, hpending, hskip₁⟩ hflushed hdelim htokens

/-- A skipped byte keeps it as well. -/
theorem SymbolsSpaced.settle (h : SymbolsSpaced atof text pos s sc)
    (htracked : Tracked atof text pos s sc) (hlt : s.index < text.length) :
    ∃ sc', Tracked atof text s.index s sc' ∧ sc'.skip = false ∧
      SymbolsSpaced atof text s.index s sc' := by
  have hindex := htracked.views.index
  cases hskip : sc.skip with
  | false =>
      rw [hskip] at hindex
      have hsame : s.index = pos := hindex
      rw [hsame]
      exact ⟨sc, htracked, hskip, h⟩
  | true =>
      rw [hskip] at hindex
      have hsame : s.index = pos + 1 := hindex
      have hpos : pos < text.length := by omega
      obtain ⟨sc', hstep, hviews⟩ := htracked.views.skipChar atof hskip (Tracked.drop hpos)
      have htracked' := htracked.next hpos hstep hviews
      rw [hsame]
      refine ⟨sc', htracked', ?_, h.pairs, fun token hlast hascii => ?_⟩
      · unfold Scan.step at hstep
        rw [if_pos hskip] at hstep
        cases hstep
        exact Scan.skip_leave _
      · rcases h.last token hlast hascii with ⟨j, hgt, hle, hcomment⟩ | hbegun | ⟨⟨-, -, hnot⟩, -⟩
        · exact .inl ⟨j, hgt, Nat.le_succ_of_le hle, hcomment⟩
        · rcases hbegun.step hstep with ⟨-, hbegun'⟩ | ⟨x, more, hmore, -⟩
          · exact .inr (.inl hbegun')
          · have hkinds := kinds_of_views htracked'.views
            rw [hmore, ← kinds_of_views htracked.views] at hkinds
            simp at hkinds
        · rw [hskip] at hnot
          cases hnot

/-- The whole run. -/
theorem SymbolsSpaced.markLoop : ∀ (n : ℕ) {pos : ℕ} {s s₁ : LexState} {sc : Scan},
    SymbolsSpaced atof text pos s sc → Tracked atof text pos s sc →
    TinCompiler.markLoop atof text n s = .ok s₁ →
    s₁.stream.tokens.IsChain (SpacedPair atof text)
  | 0, _, _, _, _, h, _, hloop => by
      cases hloop
      exact h.pairs
  | n + 1, _, s, s₁, _, h, htracked, hloop => by
      unfold TinCompiler.markLoop at hloop
      by_cases hlt : s.index < text.length
      · rw [if_pos hlt] at hloop
        obtain ⟨sc', htracked', hskip, h'⟩ := h.settle htracked hlt
        have hreal := lexChar_real htracked' hlt hskip
        cases hchar : s.markChar atof text with
        | error e =>
            rw [hchar] at hloop
            cases hloop
        | ok s₂ =>
            rw [hchar] at hloop hreal
            obtain ⟨-, sc₂, hstep, htracked₂⟩ := hreal
            exact (h'.round htracked' htracked₂ hskip hlt hstep hchar).markLoop n htracked₂ hloop
      · rw [if_neg hlt] at hloop
        cases hloop
        exact h.pairs

/-- The gap between two symbols without a comment is whitespace, and the flags of the first one
are those of this whitespace. -/
theorem gap_of_symbols {stream : TokenStream} (hlex : lexFile atof text = .ok stream) {k : ℕ}
    (htoken : stream.tokens[k]? = some token) (htoken' : stream.tokens[k + 1]? = some token')
    (hascii : token.type.isAscii = true) (hascii' : token'.type.isAscii = true) {m m' : ℕ}
    (hmark : (marks atof text)[k]? = some m) (hmark' : (marks atof text)[k + 1]? = some m')
    (hnone : NoComment atof text m m') : Spaced text m m' token := by
  obtain ⟨s, hmarks, htokens, -⟩ := lexFile_marks hlex
  have hviews : LexState.Views text 0 { stream := { processedBytes := text.length } } {} :=
    ⟨⟨rfl, rfl, rfl, rfl, rfl, rfl, rfl, rfl, rfl⟩, rfl, fun hpending => by cases hpending⟩
  have htracked : Tracked atof text 0 { stream := { processedBytes := text.length } } {} :=
    ⟨rfl, hviews⟩
  have hstart : SymbolsSpaced atof text 0 { stream := { processedBytes := text.length } } {} :=
    ⟨List.isChain_nil, fun token hmem => by cases hmem⟩
  have hchain := hstart.markLoop text.length htracked hmarks
  rw [marks_of_markLoop hmarks, List.getElem?_map] at hmark hmark'
  rw [htokens, List.getElem?_map] at htoken htoken'
  obtain ⟨first, hfirst, rfl⟩ := Option.map_eq_some_iff.mp htoken
  obtain ⟨second, hsecond, rfl⟩ := Option.map_eq_some_iff.mp htoken'
  rw [hfirst, Option.map_some] at hmark
  rw [hsecond, Option.map_some] at hmark'
  cases hmark
  cases hmark'
  obtain ⟨hlt, hget⟩ := List.getElem?_eq_some_iff.mp hfirst
  obtain ⟨hlt', hget'⟩ := List.getElem?_eq_some_iff.mp hsecond
  have hpair := List.isChain_iff_getElem.mp hchain k hlt'
  rw [hget, hget'] at hpair
  obtain ⟨hbetween, hdelims, hflags⟩ := hpair hascii hascii' hnone
  exact ⟨hbetween, hdelims, hflags⟩

/-- The flags of a symbol tell whether the next one is adjacent, if and only if it is or the gap
has a space or a newline. -/
theorem compact_iff {stream : TokenStream} (hlex : lexFile atof text = .ok stream) {k : ℕ}
    (htoken : stream.tokens[k]? = some token) (htoken' : stream.tokens[k + 1]? = some token')
    (hascii : token.type.isAscii = true) (hascii' : token'.type.isAscii = true) {m m' : ℕ}
    (hmark : (marks atof text)[k]? = some m) (hmark' : (marks atof text)[k + 1]? = some m')
    (hnone : NoComment atof text m m') :
    (token.suffixAny = false ↔ m' = m + 1) ↔
      (m' = m + 1 ∨ ∃ chr ∈ gap text m m', chr = ' ' ∨ chr = '\n') := by
  obtain ⟨hlt, -, hflags⟩ := gap_of_symbols hlex htoken htoken' hascii hascii' hmark hmark' hnone
  have hsets : (gap text m m').any setsFlag = true ↔
      ∃ chr ∈ gap text m m', chr = ' ' ∨ chr = '\n' := by
    simp [setsFlag]
  rw [← hsets, hflags]
  by_cases hadjacent : m' = m + 1
  · have hnil : gap text m m' = [] := by simp [gap, hadjacent]
    rw [hnil]
    simp [hadjacent]
  · simp [hadjacent]

/-- `+ +` -/
theorem compact_iff_space : (true = false ↔ 2 = 0 + 1) ↔
    (2 = 0 + 1 ∨ ∃ chr ∈ gap "+ +".toList 0 2, chr = ' ' ∨ chr = '\n') := by
  have htokens : (lexFile (fun _ => 0) "+ +".toList).toOption.map TokenStream.tokens =
      some [{ type := .ascii '+', line := 1, column := 1, suffixSpace := true },
        { type := .ascii '+', line := 1, column := 3 }] := by decide +kernel
  have hmarks : marks (fun _ => 0) "+ +".toList = [0, 2] := by decide +kernel
  have hnone : NoComment (fun _ => 0) "+ +".toList 0 2 := by
    rintro j hgt hle ⟨sc, hfeed, hcomment⟩
    have hall : ∀ j ≤ 2, (Scan.feed (fun _ => 0) ("+ +".toList.drop j) ("+ +".toList.take j) {}).all
        (fun sc => !sc.isComment && !sc.isMulticomment) = true := by decide +kernel
    have hj := hall j hle
    rw [hfeed] at hj
    rcases hcomment with h | h <;> simp [h] at hj
  obtain ⟨stream, hlex, hsame⟩ := exists_stream_of_tokens htokens
  have hfirst : stream.tokens[0]? =
      some { type := .ascii '+', line := 1, column := 1, suffixSpace := true } := by
    rw [hsame]
    rfl
  have hsecond : stream.tokens[0 + 1]? = some { type := .ascii '+', line := 1, column := 3 } := by
    rw [hsame]
    rfl
  exact compact_iff hlex hfirst hsecond rfl rfl (by rw [hmarks]; rfl) (by rw [hmarks]; rfl) hnone

/-- Two plus signs with a tab between them are read as `++`. -/
theorem not_compact_tab :
    ¬ ∀ (atof : String → BitVec 32) (text : List Char) (stream : TokenStream) (k m m' : ℕ)
      (token token' : Token), lexFile atof text = .ok stream → stream.tokens[k]? = some token →
      stream.tokens[k + 1]? = some token' → token.type.isAscii = true →
      token'.type.isAscii = true → (marks atof text)[k]? = some m →
      (marks atof text)[k + 1]? = some m' → NoComment atof text m m' →
      (token.suffixAny = false ↔ m' = m + 1) := by
  intro hall
  have htokens : (lexFile (fun _ => 0) "+\t+".toList).toOption.map TokenStream.tokens =
      some [{ type := .ascii '+', line := 1, column := 1 },
        { type := .ascii '+', line := 1, column := 6 }] := by decide +kernel
  have hmarks : marks (fun _ => 0) "+\t+".toList = [0, 2] := by decide +kernel
  have hnone : NoComment (fun _ => 0) "+\t+".toList 0 2 := by
    rintro j hgt hle ⟨sc, hfeed, hcomment⟩
    have hall : ∀ j ≤ 2, (Scan.feed (fun _ => 0) ("+\t+".toList.drop j) ("+\t+".toList.take j)
        {}).all (fun sc => !sc.isComment && !sc.isMulticomment) = true := by decide +kernel
    have hj := hall j hle
    rw [hfeed] at hj
    rcases hcomment with h | h <;> simp [h] at hj
  obtain ⟨stream, hlex, hsame⟩ := exists_stream_of_tokens htokens
  have hfirst : stream.tokens[0]? = some { type := .ascii '+', line := 1, column := 1 } := by
    rw [hsame]
    rfl
  have hsecond : stream.tokens[0 + 1]? = some { type := .ascii '+', line := 1, column := 6 } := by
    rw [hsame]
    rfl
  have hcompact := hall _ _ stream 0 0 2 _ _ hlex hfirst hsecond rfl rfl (by rw [hmarks]; rfl)
    (by rw [hmarks]; rfl) hnone
  exact absurd (hcompact.mp rfl) (by decide)

end Gaps

end TinCompiler

import TinCompiler.Lexer.Scan

/-!
# The scan between tokens

Outside of literals and comments and without a pending token the scan is determined by its
lexemes (`eq_clean`), and the lexemes so far do not influence the rest (`feed_prepend`).
-/

namespace TinCompiler

namespace Scan

variable {atof : String → BitVec 32} {chr next : Char} {ending : Bool} {sc sc' : Scan}

/-! ## What a round leaves alone -/

/-- The state of literals and comments. -/
def mode (sc : Scan) : Bool × Bool × Bool × Bool × Bool × List Char :=
  (sc.isStr, sc.isChar, sc.isComment, sc.isMulticomment, sc.skip, sc.content)

theorem mode_lexSymbol : (sc.lexSymbol chr).mode = sc.mode := by
  unfold lexSymbol
  split <;> rfl

theorem mode_flushId : (sc.flushId chr ending).mode = sc.mode := by
  unfold flushId
  split
  · dsimp only
    split
    · rfl
    · exact mode_lexSymbol
  · exact mode_lexSymbol

theorem mode_flushNum : (sc.flushNum chr ending).mode = sc.mode := by
  unfold flushNum
  split
  · dsimp only
    split
    · rfl
    · exact mode_flushId
  · exact mode_flushId

theorem mode_flushDecimal : (sc.flushDecimal atof chr ending).mode = sc.mode := by
  unfold flushDecimal
  split
  · dsimp only
    split
    · rfl
    · exact mode_flushNum
  · exact mode_flushNum

theorem mode_lexDot (h : sc.lexDot atof chr next ending = some sc') : sc'.mode = sc.mode := by
  unfold lexDot at h
  split at h
  · split at h
    · cases h
    · have hstart : ({ (if sc.isNum then sc else sc.start chr) with
          isDecimal := true, isNum := false } : Scan).mode = sc.mode := by
        split <;> rfl
      rw [← hstart, ← Option.some.inj h]
      dsimp only
      split
      · exact mode_flushDecimal
      · rfl
  · rw [← Option.some.inj h]
    exact mode_flushDecimal

theorem mode_lexDigit (h : sc.lexDigit atof chr next ending = some sc') : sc'.mode = sc.mode := by
  unfold lexDigit at h
  split at h
  · have hstart : ((if !sc.isId && !sc.isNum && !sc.isDecimal then
        { sc.start chr with isNum := true } else sc) : Scan).mode = sc.mode := by
      split <;> rfl
    dsimp only at h
    rw [← hstart]
    split at h
    · exact mode_lexDot h
    · rw [← Option.some.inj h]
  · exact mode_lexDot h

theorem mode_lexLetter (h : sc.lexLetter atof chr next ending = some sc') : sc'.mode = sc.mode := by
  unfold lexLetter at h
  split at h
  · have hstart : ((if sc.isId then sc else { sc.start chr with isId := true }) : Scan).mode =
        sc.mode := by
      split <;> rfl
    rw [← hstart]
    generalize (if sc.isId then sc else { sc.start chr with isId := true }) = sc at h ⊢
    dsimp only at h
    split at h
    · cases h
    · split at h
      · exact mode_lexDigit h
      · rw [← Option.some.inj h]
  · exact mode_lexDigit h

/-! ## Tidy states -/

/-- Text is kept only while something is pending. -/
structure Tidy (sc : Scan) : Prop where
  content : sc.isStr = false → sc.isChar = false → sc.content = []
  span : sc.pending = false → sc.span = []

/-- No round is needed to get there. -/
theorem tidy_initial : Tidy {} := ⟨fun _ _ => rfl, fun _ => rfl⟩

theorem content_lexRound (h : sc.isStr = false → sc.isChar = false → sc.content = [])
    (hround : sc.lexRound atof chr next ending = some sc') :
    sc'.isStr = false → sc'.isChar = false → sc'.content = [] := by
  unfold lexRound at hround
  split at hround
  · cases hround
    split <;> exact h
  split at hround
  · cases hround
    split <;> exact h
  split at hround
  · cases hround
    exact h
  split at hround
  · cases hround
    exact h
  split at hround
  · cases hround
    unfold lexQuote
    split
    · exact fun _ _ => rfl
    · exact fun hstr => by cases hstr
  split at hround
  · cases hround
    unfold lexApostrophe
    split
    · exact fun _ _ => rfl
    · exact fun _ hchar => by cases hchar
  split at hround
  · next hliteral =>
      have hflags : (sc.lexContent chr next).isStr = sc.isStr ∧
          (sc.lexContent chr next).isChar = sc.isChar := by
        unfold lexContent
        split
        · exact ⟨rfl, rfl⟩
        · split <;> exact ⟨rfl, rfl⟩
      cases hround
      rw [hflags.1, hflags.2]
      intro hstr hchar
      rw [hstr, hchar] at hliteral
      simp at hliteral
  · have hmode := mode_lexLetter hround
    simp only [mode, Prod.mk.injEq] at hmode
    obtain ⟨hstr, hchar, -, -, -, hcontent⟩ := hmode
    rw [hstr, hchar, hcontent]
    exact h

theorem leave_tidy (h : sc.isStr = false → sc.isChar = false → sc.content = []) :
    sc.leave.Tidy := by
  unfold leave
  split
  · next hpending => exact ⟨h, fun hnot => by rw [hpending] at hnot; cases hnot⟩
  · exact ⟨h, fun _ => rfl⟩

theorem Tidy.step (h : sc.Tidy) {after : List Char} (hstep : sc.step atof chr after = some sc') :
    sc'.Tidy := by
  unfold Scan.step at hstep
  split at hstep
  · cases hstep
    exact leave_tidy h.content
  · obtain ⟨sc₁, hround, rfl⟩ := Option.map_eq_some_iff.mp hstep
    have hcontent : (sc.enter chr).isStr = false → (sc.enter chr).isChar = false →
        (sc.enter chr).content = [] := h.content
    exact leave_tidy (content_lexRound hcontent hround)

theorem Tidy.feed {after : List Char} : ∀ {u : List Char} {sc : Scan}, sc.Tidy →
    sc.feed atof after u = some sc' → sc'.Tidy
  | [], sc, h, hfeed => Option.some.inj hfeed ▸ h
  | chr :: u, sc, h, hfeed => by
      obtain ⟨sc₁, hstep, hrest⟩ := Option.bind_eq_some_iff.mp hfeed
      exact (h.step hstep).feed hrest

/-- Between tokens nothing is left but the lexemes. -/
def clean (lexemes : List Lexeme) : Scan := { lexemes := lexemes }

theorem eq_clean (h : sc.Tidy) (hout : sc.Outside) (hpending : sc.pending = false)
    (hskip : sc.skip = false) : sc = clean sc.lexemes := by
  have hcontent := h.content hout.isStr hout.isChar
  have hspan := h.span hpending
  simp only [pending, Bool.or_eq_false_iff] at hpending
  obtain ⟨⟨hid, hnum⟩, hdecimal⟩ := hpending
  cases sc
  simp_all only [clean, Scan.mk.injEq, true_and]
  exact ⟨hout.isStr, hout.isChar, hout.isComment, hout.isMulticomment, trivial⟩

/-! ## The lexemes so far -/

/-- Lexemes in front of those that are there. -/
def prepend (lexemes : List Lexeme) (sc : Scan) : Scan :=
  { sc with lexemes := lexemes ++ sc.lexemes }

variable (lexemes : List Lexeme)

theorem lexSymbol_prepend :
    (sc.prepend lexemes).lexSymbol chr = (sc.lexSymbol chr).prepend lexemes := by
  unfold lexSymbol
  split
  · rfl
  · simp [prepend, add]

theorem flushId_prepend :
    (sc.prepend lexemes).flushId chr ending = (sc.flushId chr ending).prepend lexemes := by
  have hflags : (sc.prepend lexemes).isId = sc.isId := rfl
  unfold flushId
  rw [hflags]
  split
  · have hflushed : ({ sc.prepend lexemes with
        lexemes := (sc.prepend lexemes).lexemes ++
          [Lexeme.word (String.ofList ((sc.prepend lexemes).slice ending))]
        isId := false } : Scan) = prepend lexemes { sc with
          lexemes := sc.lexemes ++ [Lexeme.word (String.ofList (sc.slice ending))]
          isId := false } := by
      simp [prepend, slice]
    dsimp only
    rw [hflushed]
    split
    · rfl
    · exact lexSymbol_prepend lexemes
  · exact lexSymbol_prepend lexemes

theorem flushNum_prepend :
    (sc.prepend lexemes).flushNum chr ending = (sc.flushNum chr ending).prepend lexemes := by
  have hflags : (sc.prepend lexemes).isNum = sc.isNum := rfl
  unfold flushNum
  rw [hflags]
  split
  · have hflushed : ({ (sc.prepend lexemes).add .literalInteger
        (.num (atoi ((sc.prepend lexemes).slice ending))) with isNum := false } : Scan) =
          prepend lexemes { sc.add .literalInteger (.num (atoi (sc.slice ending))) with
            isNum := false } := by
      simp [prepend, slice, add]
    dsimp only
    rw [hflushed]
    split
    · rfl
    · exact flushId_prepend lexemes
  · exact flushId_prepend lexemes

theorem flushDecimal_prepend : (sc.prepend lexemes).flushDecimal atof chr ending =
    (sc.flushDecimal atof chr ending).prepend lexemes := by
  have hflags : (sc.prepend lexemes).isDecimal = sc.isDecimal := rfl
  unfold flushDecimal
  rw [hflags]
  split
  · have hflushed : ({ (sc.prepend lexemes).add .literalDecimal
        (.dec (atof (String.ofList ((sc.prepend lexemes).slice ending)))) with
          isDecimal := false } : Scan) = prepend lexemes
            { sc.add .literalDecimal (.dec (atof (String.ofList (sc.slice ending)))) with
              isDecimal := false } := by
      simp [prepend, slice, add]
    dsimp only
    rw [hflushed]
    split
    · rfl
    · exact flushNum_prepend lexemes
  · exact flushNum_prepend lexemes

theorem lexDot_prepend : (sc.prepend lexemes).lexDot atof chr next ending =
    (sc.lexDot atof chr next ending).map (prepend lexemes) := by
  have hflags : (sc.prepend lexemes).isNum = sc.isNum ∧
      (sc.prepend lexemes).isDecimal = sc.isDecimal := ⟨rfl, rfl⟩
  unfold lexDot
  rw [hflags.1, hflags.2]
  split
  · split
    · rfl
    · have hstart : ({ (if sc.isNum then sc.prepend lexemes else (sc.prepend lexemes).start chr) with
          isDecimal := true, isNum := false } : Scan) = prepend lexemes
            { (if sc.isNum then sc else sc.start chr) with isDecimal := true, isNum := false } := by
        split <;> rfl
      dsimp only
      rw [hstart]
      split
      · exact congrArg some (flushDecimal_prepend lexemes)
      · rfl
  · exact congrArg some (flushDecimal_prepend lexemes)

theorem lexDigit_prepend : (sc.prepend lexemes).lexDigit atof chr next ending =
    (sc.lexDigit atof chr next ending).map (prepend lexemes) := by
  have hflags : (!(sc.prepend lexemes).isId && !(sc.prepend lexemes).isNum &&
      !(sc.prepend lexemes).isDecimal) = (!sc.isId && !sc.isNum && !sc.isDecimal) := rfl
  unfold lexDigit
  rw [hflags]
  split
  · have hstart : ((if !sc.isId && !sc.isNum && !sc.isDecimal then
        { (sc.prepend lexemes).start chr with isNum := true } else sc.prepend lexemes) : Scan) =
          prepend lexemes (if !sc.isId && !sc.isNum && !sc.isDecimal then
            { sc.start chr with isNum := true } else sc) := by
      split <;> rfl
    dsimp only
    rw [hstart]
    split
    · exact lexDot_prepend lexemes
    · rfl
  · exact lexDot_prepend lexemes

theorem lexLetter_prepend : (sc.prepend lexemes).lexLetter atof chr next ending =
    (sc.lexLetter atof chr next ending).map (prepend lexemes) := by
  have hflags : (sc.prepend lexemes).isId = sc.isId := rfl
  unfold lexLetter
  rw [hflags]
  split
  · have hstart : ((if sc.isId then sc.prepend lexemes
        else { (sc.prepend lexemes).start chr with isId := true }) : Scan) =
          prepend lexemes (if sc.isId then sc else { sc.start chr with isId := true }) := by
      split <;> rfl
    rw [hstart]
    generalize (if sc.isId then sc else { sc.start chr with isId := true }) = sc
    have hnumber : ((sc.prepend lexemes).isNum || (sc.prepend lexemes).isDecimal) =
        (sc.isNum || sc.isDecimal) := rfl
    dsimp only
    rw [hnumber]
    split
    · rfl
    · split
      · exact lexDigit_prepend lexemes
      · rfl
  · exact lexDigit_prepend lexemes

theorem lexRound_prepend : (sc.prepend lexemes).lexRound atof chr next ending =
    (sc.lexRound atof chr next ending).map (prepend lexemes) := by
  have hquote : (sc.prepend lexemes).lexQuote = sc.lexQuote.prepend lexemes := by
    have hflags : (sc.prepend lexemes).isStr = sc.isStr := rfl
    unfold lexQuote
    rw [hflags]
    split <;> simp [prepend, add]
  have hapostrophe : (sc.prepend lexemes).lexApostrophe = sc.lexApostrophe.prepend lexemes := by
    have hflags : (sc.prepend lexemes).isChar = sc.isChar := rfl
    unfold lexApostrophe
    rw [hflags]
    split <;> simp [prepend, add]
  have hcontent : (sc.prepend lexemes).lexContent chr next =
      (sc.lexContent chr next).prepend lexemes := by
    unfold lexContent
    split
    · rfl
    · split <;> rfl
  have hflags : (sc.prepend lexemes).isComment = sc.isComment ∧
      (sc.prepend lexemes).isMulticomment = sc.isMulticomment ∧
      (sc.prepend lexemes).isStr = sc.isStr ∧ (sc.prepend lexemes).isChar = sc.isChar :=
    ⟨rfl, rfl, rfl, rfl⟩
  unfold lexRound
  rw [hflags.1, hflags.2.1, hflags.2.2.1, hflags.2.2.2, hquote, hapostrophe, hcontent,
    lexLetter_prepend]
  split
  · split <;> rfl
  split
  · split <;> rfl
  split
  · rfl
  split
  · rfl
  split
  · rfl
  split
  · rfl
  split <;> rfl

theorem leave_prepend : (sc.prepend lexemes).leave = sc.leave.prepend lexemes := by
  have hflags : (sc.prepend lexemes).pending = sc.pending := rfl
  unfold leave
  rw [hflags]
  split <;> rfl

theorem step_prepend (after : List Char) : (sc.prepend lexemes).step atof chr after =
    (sc.step atof chr after).map (prepend lexemes) := by
  have hflags : (sc.prepend lexemes).skip = sc.skip := rfl
  unfold step
  rw [hflags]
  split
  · have hleave : (({ sc with skip := false } : Scan).enter chr |>.prepend lexemes).leave =
        (({ sc with skip := false } : Scan).enter chr).leave.prepend lexemes :=
      leave_prepend lexemes
    exact congrArg some hleave
  · have henter : (sc.prepend lexemes).enter chr = (sc.enter chr).prepend lexemes := rfl
    rw [henter, lexRound_prepend, Option.map_map, Option.map_map]
    congr 1
    funext sc
    exact leave_prepend lexemes

/-- The rest of the text is read in the same way after any lexemes. -/
theorem feed_prepend (after : List Char) : ∀ (u : List Char) (sc : Scan),
    (sc.prepend lexemes).feed atof after u = (sc.feed atof after u).map (prepend lexemes)
  | [], _ => rfl
  | chr :: u, sc => by
      unfold feed
      rw [step_prepend]
      cases sc.step atof chr (u ++ after) with
      | none => rfl
      | some sc' => exact feed_prepend after u sc'

/-- What the scan makes of a text after other lexemes. -/
theorem feed_clean (after u : List Char) : (clean lexemes).feed atof after u =
    (feed atof after u {}).map (prepend lexemes) := by
  rw [← feed_prepend]
  simp [clean, prepend]

/-! ## Whitespace between tokens -/

theorem eq_of_isDelim (hdelim : isDelim chr = true) :
    chr = ' ' ∨ chr = '\n' ∨ chr = '\r' ∨ chr = '\t' := by
  simpa [isDelim, or_assoc] using hdelim

theorem step_clean_delim {lexemes : List Lexeme} (hdelim : isDelim chr = true) (after : List Char) :
    (clean lexemes).step atof chr after = some (clean lexemes) := by
  rcases eq_of_isDelim hdelim with rfl | rfl | rfl | rfl <;> rfl

/-! ## What a round sees of the next character -/

/-- Characters that make no difference as the next one. -/
def Inert (next : Char) : Prop :=
  next ≠ '/' ∧ next ≠ '*' ∧ next ≠ backslash ∧ next ≠ 'n' ∧ isDigit next = false

theorem lexLetter_next {next' : Char} (hdigit : isDigit next = isDigit next') :
    sc.lexLetter atof chr next ending = sc.lexLetter atof chr next' ending := by
  have hdot : ∀ sc : Scan, sc.lexDot atof chr next ending = sc.lexDot atof chr next' ending := by
    intro sc
    unfold lexDot
    rw [hdigit]
  have hdigits : ∀ sc : Scan, sc.lexDigit atof chr next ending = sc.lexDigit atof chr next' ending := by
    intro sc
    unfold lexDigit
    simp only [hdot]
  unfold lexLetter
  simp only [hdigits]

theorem lexContent_next (hbackslash : next ≠ backslash) (hn : next ≠ 'n') :
    sc.lexContent chr next = { sc with content := sc.content ++ [chr] } := by
  unfold lexContent
  simp only [hbackslash, hn, and_false, if_false]

theorem lexRound_inert (hnext : Inert next) :
    sc.lexRound atof chr next ending = sc.lexRound atof chr '\n' ending := by
  obtain ⟨hslash, hstar, hbackslash, hn, hdigit⟩ := hnext
  have hnewline : isDigit '\n' = false := by decide
  have hcontent := (lexContent_next hbackslash hn).trans
    (@lexContent_next chr '\n' sc (by decide) (by decide)).symm
  unfold lexRound
  rw [lexLetter_next (hdigit.trans hnewline.symm), hcontent]
  simp [hslash, hstar]

theorem step_inert {a b : List Char} {x y : Char} (hx : Inert x) (hy : Inert y) :
    sc.step atof chr (x :: a) = sc.step atof chr (y :: b) := by
  have hround : (sc.enter chr).lexRound atof chr x false = (sc.enter chr).lexRound atof chr y false :=
    (lexRound_inert hx).trans (lexRound_inert hy).symm
  unfold step
  split
  · rfl
  · exact congrArg (Option.map leave) hround

/-- Only the first character behind the text matters, and only for the last one of the text. -/
theorem feed_congr {a b : List Char} (hstep : ∀ (chr : Char) (sc : Scan),
    sc.step atof chr a = sc.step atof chr b) : ∀ (u : List Char) (sc : Scan),
      sc.feed atof a u = sc.feed atof b u
  | [], _ => rfl
  | [chr], sc => by
      unfold feed
      rw [List.nil_append, List.nil_append, hstep chr sc]
      rfl
  | chr :: chr' :: u, sc => by
      have hfirst : sc.step atof chr (chr' :: u ++ a) = sc.step atof chr (chr' :: u ++ b) := rfl
      unfold feed
      rw [hfirst]
      exact congrArg _ (funext (feed_congr hstep (chr' :: u)))

theorem feed_inert {a b : List Char} {x y : Char} (hx : Inert x) (hy : Inert y) (u : List Char)
    (sc : Scan) : sc.feed atof (x :: a) u = sc.feed atof (y :: b) u :=
  feed_congr (fun _ _ => step_inert hx hy) u sc

/-! ## Pending tokens -/

theorem lexRound_delim (hout : sc.Outside) (hdelim : isDelim chr = true) :
    sc.lexRound atof chr next ending = some (sc.flushDecimal atof chr ending) := by
  unfold lexRound
  rw [hout.isStr, hout.isChar, hout.isComment, hout.isMulticomment]
  rcases eq_of_isDelim hdelim with rfl | rfl | rfl | rfl <;> rfl

/-- The lexeme of a flushed token. -/
def Flushed (x : Lexeme) : Prop := x.kind ≠ .literalString ∧ x.kind ≠ .literalChar

theorem flushed_word (text : String) : Flushed (Lexeme.word text) := by
  unfold Lexeme.word
  cases hkeyword : TokenKind.keyword text with
  | none => exact ⟨by simp, by simp⟩
  | some kind =>
      have hall : ∀ kind ∈ TokenKind.keywords,
          kind ≠ .literalString ∧ kind ≠ .literalChar := by decide
      exact hall kind (TokenKind.mem_keywords_of_keyword hkeyword)

/-- At the end of the file the first pending token is flushed and nothing else. -/
theorem flushDecimal_ending (hpending : sc.pending = true) :
    ∃ x, (sc.flushDecimal atof chr true).lexemes = sc.lexemes ++ [x] ∧ Flushed x := by
  unfold flushDecimal
  split
  · exact ⟨_, rfl, by simp, by simp⟩
  · next hdecimal =>
      unfold flushNum
      split
      · exact ⟨_, rfl, by simp, by simp⟩
      · next hnum =>
          unfold flushId
          split
          · exact ⟨_, rfl, flushed_word _⟩
          · next hid => simp [pending, hid, hnum, hdecimal] at hpending

@[simp] theorem lexemes_leave (sc : Scan) : sc.leave.lexemes = sc.lexemes := by
  unfold leave
  split <;> rfl

theorem step_pending_ending (hout : sc.Outside) (hskip : sc.skip = false)
    (hpending : sc.pending = true) (hdelim : isDelim chr = true) :
    ∃ sc' x, sc.step atof chr [] = some sc' ∧ sc'.lexemes = sc.lexemes ++ [x] ∧ Flushed x := by
  have hout' : (sc.enter chr).Outside := { hout with }
  have hpending' : (sc.enter chr).pending = true := hpending
  obtain ⟨x, hlexemes, hflushed⟩ := @flushDecimal_ending atof chr _ hpending'
  refine ⟨((sc.enter chr).flushDecimal atof chr true).leave, x, ?_, ?_, hflushed⟩
  · unfold step
    rw [if_neg (by simp [hskip]), List.isEmpty_nil, lexRound_delim hout' hdelim]
    rfl
  · rw [lexemes_leave, hlexemes]
    rfl

theorem inert_of_isDelim (hdelim : isDelim chr = true) : Inert chr := by
  rcases eq_of_isDelim hdelim with rfl | rfl | rfl | rfl <;>
    exact ⟨by decide, by decide, by decide, by decide, by decide⟩

theorem inert_newline : Inert '\n' := inert_of_isDelim (by decide)

@[simp] theorem skip_leave (sc : Scan) : sc.leave.skip = sc.skip := by
  unfold leave
  split <;> rfl

/-- In front of an inert character nothing is skipped. -/
theorem skip_of_inert {after : List Char} (hx : Inert (after.headD (Char.ofNat 0)))
    (hstep : sc.step atof chr after = some sc') : sc'.skip = false := by
  unfold step at hstep
  split at hstep
  · rw [← Option.some.inj hstep, skip_leave]
    rfl
  · next hskip =>
      obtain ⟨sc₁, hround, rfl⟩ := Option.map_eq_some_iff.mp hstep
      rw [skip_leave]
      have hskip₀ : (sc.enter chr).skip = false := Bool.not_eq_true _ ▸ hskip
      obtain ⟨hslash, hstar, hbackslash, hn, -⟩ := hx
      unfold lexRound at hround
      simp only [hslash, hstar, and_false, if_false] at hround
      split at hround
      · cases hround
        split <;> exact hskip₀
      split at hround
      · cases hround
        exact hskip₀
      split at hround
      · cases hround
        unfold lexQuote
        split <;> exact hskip₀
      split at hround
      · cases hround
        unfold lexApostrophe
        split <;> exact hskip₀
      split at hround
      · cases hround
        unfold lexContent
        simp only [hbackslash, hn, and_false, if_false]
        exact hskip₀
      · have hmode := mode_lexLetter hround
        simp only [mode, Prod.mk.injEq] at hmode
        exact hmode.2.2.2.2.1.trans hskip₀

theorem skip_step {x : Char} {a : List Char} (hx : Inert x)
    (hstep : sc.step atof chr (x :: a) = some sc') : sc'.skip = false :=
  @skip_of_inert _ _ _ _ (x :: a) hx hstep

end Scan

/-! ## The end of a text -/

/-- What the scan has reached at the end of `u`, if whitespace follows. -/
def endOf (atof : String → BitVec 32) (u : List Char) : Option Scan := Scan.feed atof ['\n'] u {}

/-- `u` ends outside of strings, character literals and comments. -/
def EndsOutside (atof : String → BitVec 32) (u : List Char) : Prop :=
  ∀ sc, endOf atof u = some sc → sc.Outside

/-- No identifier or number has been begun and not flushed at the end of `u`. -/
def NothingPending (atof : String → BitVec 32) (u : List Char) : Prop :=
  ∀ sc, endOf atof u = some sc → sc.pending = false

section EndOf

variable {atof : String → BitVec 32} {u : List Char} {sc : Scan}

theorem skip_endOf (h : endOf atof u = some sc) : sc.skip = false := by
  rcases List.eq_nil_or_concat u with rfl | ⟨init, chr, rfl⟩
  · exact Option.some.inj h ▸ rfl
  · rw [endOf, List.concat_eq_append, Scan.feed_append] at h
    obtain ⟨sc₁, -, hlast⟩ := Option.bind_eq_some_iff.mp h
    obtain ⟨sc₂, hstep, hnil⟩ := Option.bind_eq_some_iff.mp hlast
    exact Option.some.inj hnil ▸ Scan.skip_step Scan.inert_newline hstep

/-- A text with nothing pending at its end leaves the scan clean. -/
theorem endOf_clean (hout : EndsOutside atof u) (hpending : NothingPending atof u)
    (h : endOf atof u = some sc) : sc = Scan.clean sc.lexemes :=
  Scan.eq_clean (Scan.tidy_initial.feed h) (hout sc h) (hpending sc h) (skip_endOf h)

/-- Whatever inert character follows, `u` is read in the same way. -/
theorem feed_eq_endOf {x : Char} (hx : Scan.Inert x) (a : List Char) :
    Scan.feed atof (x :: a) u {} = endOf atof u :=
  Scan.feed_inert hx Scan.inert_newline u {}

end EndOf

end TinCompiler

import TinCompiler.Lexer.Feed
import TinCompiler.Lexer.Integers

/-!
# Which tokens are read as they are printed

The converse of `lexemesOf_feedTokens`: a printed token that is read as itself is legible, and two
neighbours that are read as themselves without a blank between them are not glued.  What the first
lexeme of a scan can be is an invariant of its steps (`FirstIs`); for a string the printed content
is weighed against the content that is read (`weigh`).

`feedsBack_iff` puts both directions together for all ranges of a stream.
-/

namespace TinCompiler

namespace Scan

variable {atof : String → BitVec 32} {chr next : Char} {ending : Bool} {sc sc' : Scan}
  {after : List Char}

/-! ## The first lexeme -/

/-- Lexemes are only added. -/
theorem prefix_feed {u : List Char} (h : sc.feed atof after u = some sc') :
    sc.lexemes <+: sc'.lexemes := by
  have hsplit : sc = prepend sc.lexemes { sc with lexemes := [] } := by simp [prepend]
  rw [hsplit, feed_prepend] at h
  obtain ⟨sc₁, -, rfl⟩ := Option.map_eq_some_iff.mp h
  exact List.prefix_append _ _

/-- There is no lexeme yet and `A` holds, or the first one is in `K`. -/
def FirstIs (A : Scan → Prop) (K : Lexeme → Prop) (sc : Scan) : Prop :=
  (sc.lexemes = [] ∧ A sc) ∨ ∃ x more, sc.lexemes = x :: more ∧ K x

/-- What a character keeps, a text keeps. -/
theorem FirstIs.feed {A : Scan → Prop} {K : Lexeme → Prop}
    (hkeeps : ∀ {sc sc' : Scan} {chr : Char} {after : List Char}, sc.lexemes = [] → A sc →
      sc.step atof chr after = some sc' → sc'.FirstIs A K) :
    ∀ {u : List Char} {sc : Scan}, sc.FirstIs A K → sc.feed atof after u = some sc' →
      sc'.FirstIs A K := by
  intro u
  induction u with
  | nil => exact fun h hfeed => Option.some.inj hfeed ▸ h
  | cons chr u ih =>
      intro sc h hfeed
      rcases h with ⟨hnone, hA⟩ | ⟨x, more, hfirst, hK⟩
      · obtain ⟨sc₁, hstep, hrest⟩ := Option.bind_eq_some_iff.mp hfeed
        exact ih (hkeeps hnone hA hstep) hrest
      · obtain ⟨new, hnew⟩ := prefix_feed hfeed
        exact .inr ⟨x, more ++ new, by rw [← hnew, hfirst]; rfl, hK⟩

/-- Between quotes. -/
def Quoting (sc : Scan) : Prop := sc.isStr = true ∨ sc.isChar = true

def IsQuotation (x : Lexeme) : Prop :=
  (∃ text, x = ⟨.literalString, .str text⟩) ∨ ∃ chr, x = ⟨.literalChar, .str (String.singleton chr)⟩

theorem Quoting.leave (h : sc.Quoting) : sc.leave.Quoting := by
  unfold Scan.leave
  split <;> exact h

theorem FirstIs.leave {A : Scan → Prop} {K : Lexeme → Prop} (hleave : ∀ sc : Scan, A sc → A sc.leave)
    (h : sc.FirstIs A K) : sc.leave.FirstIs A K := by
  unfold FirstIs
  rw [lexemes_leave]
  exact h.imp_left fun hA => ⟨hA.1, hleave sc hA.2⟩

theorem Quoting.lexRound (hnone : sc.lexemes = []) (h : sc.Quoting)
    (hround : sc.lexRound atof chr next ending = some sc') : sc'.FirstIs Quoting IsQuotation := by
  unfold Scan.lexRound at hround
  split at hround
  · cases hround
    split <;> exact .inl ⟨hnone, h⟩
  split at hround
  · cases hround
    split <;> exact .inl ⟨hnone, h⟩
  split at hround
  · cases hround
    exact .inl ⟨hnone, h⟩
  split at hround
  · cases hround
    exact .inl ⟨hnone, h⟩
  split at hround
  · cases hround
    unfold lexQuote
    split
    · exact .inr ⟨_, [], by simp only [add, hnone]; rfl, .inl ⟨_, rfl⟩⟩
    · exact .inl ⟨hnone, .inl rfl⟩
  split at hround
  · cases hround
    unfold lexApostrophe
    split
    · exact .inr ⟨_, [], by simp only [add, hnone]; rfl, .inr ⟨_, rfl⟩⟩
    · exact .inl ⟨hnone, .inr rfl⟩
  split at hround
  · cases hround
    unfold lexContent
    split
    · exact .inl ⟨hnone, h⟩
    · split <;> exact .inl ⟨hnone, h⟩
  · next hliteral => exact absurd h hliteral

/-- Between quotes the next lexeme is a string or a character literal. -/
theorem Quoting.step (hnone : sc.lexemes = []) (h : sc.Quoting)
    (hstep : sc.step atof chr after = some sc') : sc'.FirstIs Quoting IsQuotation := by
  unfold Scan.step at hstep
  split at hstep
  · cases hstep
    exact FirstIs.leave (fun sc => Quoting.leave) (.inl ⟨hnone, h⟩)
  · obtain ⟨sc₁, hround, rfl⟩ := Option.map_eq_some_iff.mp hstep
    have henter : (sc.enter chr).lexemes = [] ∧ (sc.enter chr).Quoting := ⟨hnone, h⟩
    exact (henter.2.lexRound henter.1 hround).leave fun sc => Quoting.leave

/-! ### Numbers -/

theorem decimal_first (hdecimal : sc.isDecimal = true) :
    ∃ more, (sc.flushDecimal atof chr ending).lexemes = sc.lexemes ++
      ⟨.literalDecimal, .dec (atof (String.ofList (sc.slice ending)))⟩ :: more := by
  unfold Scan.flushDecimal flushNum flushId lexSymbol
  rw [if_pos hdecimal]
  dsimp only
  split_ifs <;> exact ⟨_, by simp [add]; rfl⟩

theorem integer_first (hdecimal : sc.isDecimal = false) (hnum : sc.isNum = true) :
    ∃ more, (sc.flushDecimal atof chr ending).lexemes =
      sc.lexemes ++ ⟨.literalInteger, .num (atoi (sc.slice ending))⟩ :: more := by
  unfold Scan.flushDecimal flushNum flushId lexSymbol
  rw [if_neg (by simp [hdecimal]), if_pos hnum]
  dsimp only
  split_ifs <;> exact ⟨_, by simp [add]; rfl⟩

theorem word_first (hdecimal : sc.isDecimal = false) (hnum : sc.isNum = false)
    (hid : sc.isId = true) : ∃ more, (sc.flushDecimal atof chr ending).lexemes =
      sc.lexemes ++ Lexeme.word (String.ofList (sc.slice ending)) :: more := by
  unfold Scan.flushDecimal flushNum flushId lexSymbol
  rw [if_neg (by simp [hdecimal]), if_neg (by simp [hnum]), if_pos hid]
  dsimp only
  split_ifs <;> exact ⟨_, by simp [add]; rfl⟩

/-- The next lexeme is a literal. -/
def Owing (sc : Scan) : Prop := sc.Quoting ∨ sc.isNum = true ∨ sc.isDecimal = true

def IsLiteral (x : Lexeme) : Prop :=
  x.kind = .literalString ∨ x.kind = .literalChar ∨ x.kind = .literalInteger ∨
    x.kind = .literalDecimal

theorem IsQuotation.isLiteral {x : Lexeme} (h : IsQuotation x) : IsLiteral x := by
  rcases h with ⟨text, rfl⟩ | ⟨chr, rfl⟩
  · exact .inl rfl
  · exact .inr (.inl rfl)

theorem FirstIs.mono {A A' : Scan → Prop} {K K' : Lexeme → Prop} (h : sc.FirstIs A K)
    (hA : A sc → A' sc) (hK : ∀ x, K x → K' x) : sc.FirstIs A' K' :=
  h.imp (fun hnone => ⟨hnone.1, hA hnone.2⟩) fun ⟨x, more, hfirst, hx⟩ => ⟨x, more, hfirst, hK x hx⟩

theorem Owing.leave (h : sc.Owing) : sc.leave.Owing := by
  unfold Scan.leave
  split <;> exact h

theorem Owing.flushDecimal (hnone : sc.lexemes = []) (h : sc.isNum = true ∨ sc.isDecimal = true) :
    (sc.flushDecimal atof chr ending).FirstIs Owing IsLiteral := by
  cases hdecimal : sc.isDecimal with
  | true =>
      obtain ⟨more, hmore⟩ := @decimal_first atof chr ending sc hdecimal
      exact .inr ⟨_, more, by rw [hmore, hnone]; rfl, .inr (.inr (.inr rfl))⟩
  | false =>
      rw [hdecimal] at h
      obtain ⟨more, hmore⟩ :=
        @integer_first atof chr ending sc hdecimal (h.resolve_right Bool.false_ne_true)
      exact .inr ⟨_, more, by rw [hmore, hnone]; rfl, .inr (.inr (.inl rfl))⟩

theorem Owing.lexDot (hnone : sc.lexemes = []) (h : sc.isNum = true ∨ sc.isDecimal = true)
    (hdot : sc.lexDot atof chr next ending = some sc') : sc'.FirstIs Owing IsLiteral := by
  unfold Scan.lexDot at hdot
  split at hdot
  · split at hdot
    · cases hdot
    · have hnone' : ({ (if sc.isNum then sc else sc.start chr) with
          isDecimal := true, isNum := false } : Scan).lexemes = [] := by
        split <;> exact hnone
      cases hdot
      split
      · exact Owing.flushDecimal hnone' (.inr rfl)
      · exact .inl ⟨hnone', .inr (.inr rfl)⟩
  · cases hdot
    exact Owing.flushDecimal hnone h

theorem Owing.lexLetter (hnone : sc.lexemes = []) (h : sc.isNum = true ∨ sc.isDecimal = true)
    (hletter : sc.lexLetter atof chr next ending = some sc') : sc'.FirstIs Owing IsLiteral := by
  unfold Scan.lexLetter at hletter
  split at hletter
  · have hflags : ((if sc.isId then sc else { sc.start chr with isId := true }) : Scan).isNum =
        sc.isNum ∧ ((if sc.isId then sc else { sc.start chr with isId := true }) : Scan).isDecimal =
          sc.isDecimal := by
      split <;> exact ⟨rfl, rfl⟩
    dsimp only at hletter
    rw [if_pos (by rw [hflags.1, hflags.2]; simpa using h)] at hletter
    cases hletter
  · unfold Scan.lexDigit at hletter
    split at hletter
    · have hbegun : ¬ (!sc.isId && !sc.isNum && !sc.isDecimal) = true := by
        rcases h with h | h <;> simp [h]
      dsimp only at hletter
      rw [if_neg hbegun] at hletter
      split at hletter
      · exact Owing.lexDot hnone h hletter
      · cases hletter
        exact .inl ⟨hnone, .inr h⟩
    · exact Owing.lexDot hnone h hletter

theorem Owing.lexRound (hnone : sc.lexemes = []) (h : sc.Owing)
    (hround : sc.lexRound atof chr next ending = some sc') : sc'.FirstIs Owing IsLiteral := by
  rcases h with h | h
  · exact (h.lexRound hnone hround).mono .inl fun x => IsQuotation.isLiteral
  unfold Scan.lexRound at hround
  split at hround
  · cases hround
    split <;> exact .inl ⟨hnone, .inr h⟩
  split at hround
  · cases hround
    split <;> exact .inl ⟨hnone, .inr h⟩
  split at hround
  · cases hround
    exact .inl ⟨hnone, .inr h⟩
  split at hround
  · cases hround
    exact .inl ⟨hnone, .inr h⟩
  split at hround
  · cases hround
    unfold lexQuote
    split
    · exact .inr ⟨_, [], by simp only [add, hnone]; rfl, .inl rfl⟩
    · exact .inl ⟨hnone, .inl (.inl rfl)⟩
  split at hround
  · cases hround
    unfold lexApostrophe
    split
    · exact .inr ⟨_, [], by simp only [add, hnone]; rfl, .inr (.inl rfl)⟩
    · exact .inl ⟨hnone, .inl (.inr rfl)⟩
  split at hround
  · next hliteral =>
      cases hround
      unfold lexContent
      split
      · exact .inl ⟨hnone, .inr h⟩
      · split <;> exact .inl ⟨hnone, .inr h⟩
  · exact Owing.lexLetter hnone h hround

/-- Behind quotes or digits the next lexeme is a literal. -/
theorem Owing.step (hnone : sc.lexemes = []) (h : sc.Owing)
    (hstep : sc.step atof chr after = some sc') : sc'.FirstIs Owing IsLiteral := by
  unfold Scan.step at hstep
  split at hstep
  · cases hstep
    exact FirstIs.leave (fun sc => Owing.leave) (.inl ⟨hnone, h⟩)
  · obtain ⟨sc₁, hround, rfl⟩ := Option.map_eq_some_iff.mp hstep
    have henter : (sc.enter chr).lexemes = [] ∧ (sc.enter chr).Owing := ⟨hnone, h⟩
    exact (henter.2.lexRound henter.1 hround).leave fun sc => Owing.leave

/-! ### Words -/

/-- A word begins with a letter. -/
def Lettered (x : Lexeme) : Prop := x.kind.isWord = true →
  ∃ letter rest, x = Lexeme.word (String.ofList (letter :: rest)) ∧ isLetter letter = true

/-- The next lexeme is a literal, or no word is pending, or one that begins with a letter. -/
def Lettering (sc : Scan) : Prop :=
  sc.Owing ∨ sc.isId = false ∨ ∃ letter rest, sc.span = letter :: rest ∧ isLetter letter = true

theorem IsLiteral.lettered {x : Lexeme} (h : IsLiteral x) : Lettered x := by
  intro hword
  rcases h with h | h | h | h <;> · rw [h] at hword; cases hword

theorem FirstIs.lettering (h : sc.FirstIs Owing IsLiteral) : sc.FirstIs Lettering Lettered :=
  h.mono Or.inl fun _ => IsLiteral.lettered

theorem lettered_word {letter : Char} {rest : List Char} (hletter : isLetter letter = true) :
    Lettered (Lexeme.word (String.ofList (letter :: rest))) :=
  fun _ => ⟨letter, rest, rfl, hletter⟩

theorem Lettering.leave (h : sc.Lettering) : sc.leave.Lettering := by
  unfold Scan.leave
  split
  · exact h
  · next hpending =>
      refine h.imp id fun _ => .inl ?_
      unfold pending at hpending
      cases hid : sc.isId with
      | true => simp [hid] at hpending
      | false => rfl

/-- The text that would be flushed begins with a letter. -/
def SliceLettered (ending : Bool) (sc : Scan) : Prop :=
  ∃ letter rest, sc.slice ending = letter :: rest ∧ isLetter letter = true

theorem Lettering.flushDecimal (hnone : sc.lexemes = []) (hnum : sc.isNum = false)
    (hdecimal : sc.isDecimal = false) (h : sc.isId = true → sc.SliceLettered ending) :
    (sc.flushDecimal atof chr ending).FirstIs Lettering Lettered := by
  cases hid : sc.isId with
  | true =>
      obtain ⟨letter, rest, hslice, hletter⟩ := h hid
      obtain ⟨more, hmore⟩ := @word_first atof chr ending sc hdecimal hnum hid
      rw [hslice, hnone] at hmore
      exact .inr ⟨_, more, hmore, lettered_word hletter⟩
  | false =>
      unfold Scan.flushDecimal flushNum flushId lexSymbol
      rw [if_neg (by simp [hdecimal]), if_neg (by simp [hnum]), if_neg (by simp [hid])]
      split
      · exact .inl ⟨hnone, .inr (.inl hid)⟩
      · refine .inr ⟨_, [], by simp only [add, hnone]; rfl, fun hword => ?_⟩
        rw [TokenKind.not_isWord_ascii] at hword
        cases hword

/-- The pending text and the character of the round. -/
def Reaching (chr : Char) (sc : Scan) : Prop :=
  sc.isId = true → ∃ letter rest, sc.span = letter :: (rest ++ [chr]) ∧ isLetter letter = true

theorem Reaching.slice (h : sc.Reaching chr) (hid : sc.isId = true) : sc.SliceLettered ending := by
  obtain ⟨letter, rest, hspan, hletter⟩ := h hid
  unfold SliceLettered Scan.slice
  rw [hspan]
  split
  · exact ⟨letter, _, rfl, hletter⟩
  · exact ⟨letter, rest, by rw [← List.cons_append, List.dropLast_concat], hletter⟩

theorem Reaching.lettering (h : sc.Reaching chr) : sc.Lettering := by
  cases hid : sc.isId with
  | false => exact .inr (.inl hid)
  | true =>
      obtain ⟨letter, rest, hspan, hletter⟩ := h hid
      exact .inr (.inr ⟨letter, _, hspan, hletter⟩)

theorem Reaching.lexDot (hnone : sc.lexemes = []) (hnum : sc.isNum = false)
    (hdecimal : sc.isDecimal = false) (h : sc.isId = true → sc.SliceLettered ending)
    (hdot : sc.lexDot atof chr next ending = some sc') : sc'.FirstIs Lettering Lettered := by
  unfold Scan.lexDot at hdot
  split at hdot
  · split at hdot
    · cases hdot
    · have hnone' : ({ (if sc.isNum then sc else sc.start chr) with
          isDecimal := true, isNum := false } : Scan).lexemes = [] := by
        split <;> exact hnone
      cases hdot
      split
      · exact (Owing.flushDecimal hnone' (.inr rfl)).lettering
      · exact .inl ⟨hnone', .inl (.inr (.inr rfl))⟩
  · cases hdot
    exact Lettering.flushDecimal hnone hnum hdecimal h

theorem Reaching.lexDigit (hnone : sc.lexemes = []) (hnum : sc.isNum = false)
    (hdecimal : sc.isDecimal = false) (h : sc.isId = true → sc.SliceLettered ending)
    (hlettering : sc.Lettering) (hdigit : sc.lexDigit atof chr next ending = some sc') :
    sc'.FirstIs Lettering Lettered := by
  unfold Scan.lexDigit at hdigit
  split at hdigit
  · dsimp only at hdigit
    cases hid : sc.isId with
    | true =>
        have hbegun : ¬ (!sc.isId && !sc.isNum && !sc.isDecimal) = true := by simp [hid]
        rw [if_neg hbegun] at hdigit
        split at hdigit
        · exact Reaching.lexDot hnone hnum hdecimal h hdigit
        · cases hdigit
          exact .inl ⟨hnone, hlettering⟩
    | false =>
        have hbegun : (!sc.isId && !sc.isNum && !sc.isDecimal) = true := by
          simp [hid, hnum, hdecimal]
        rw [if_pos hbegun] at hdigit
        have hnone' : ({ sc.start chr with isNum := true } : Scan).lexemes = [] := hnone
        split at hdigit
        · exact (Owing.lexDot hnone' (.inl rfl) hdigit).lettering
        · cases hdigit
          exact .inl ⟨hnone, .inl (.inr (.inl rfl))⟩
  · exact Reaching.lexDot hnone hnum hdecimal h hdigit

theorem Reaching.lexLetter (hnone : sc.lexemes = []) (hnum : sc.isNum = false)
    (hdecimal : sc.isDecimal = false) (h : sc.Reaching chr)
    (hletter : sc.lexLetter atof chr next ending = some sc') : sc'.FirstIs Lettering Lettered := by
  unfold Scan.lexLetter at hletter
  split at hletter
  · next hchr =>
      have hstart : ((if sc.isId then sc else { sc.start chr with isId := true }) : Scan).lexemes =
            [] ∧
          ((if sc.isId then sc else { sc.start chr with isId := true }) : Scan).isNum = false ∧
          ((if sc.isId then sc else { sc.start chr with isId := true }) : Scan).isDecimal =
            false ∧
          ((if sc.isId then sc else { sc.start chr with isId := true }) : Scan).Lettering ∧
          (ending = true →
            ((if sc.isId then sc else { sc.start chr with isId := true }) : Scan).SliceLettered
              ending) := by
        split
        · next hid => exact ⟨hnone, hnum, hdecimal, h.lettering, fun _ => h.slice hid⟩
        · refine ⟨hnone, hnum, hdecimal, .inr (.inr ⟨chr, [], rfl, hchr⟩), fun hending => ?_⟩
          rw [hending]
          exact ⟨chr, [], rfl, hchr⟩
      generalize (if sc.isId then sc else { sc.start chr with isId := true }) = sc₁
        at hstart hletter
      obtain ⟨hnone₁, hnum₁, hdecimal₁, hlettering, hslice⟩ := hstart
      dsimp only at hletter
      rw [if_neg (by simp [hnum₁, hdecimal₁])] at hletter
      split at hletter
      · next hending =>
          exact Reaching.lexDigit hnone₁ hnum₁ hdecimal₁ (fun _ => hslice hending) hlettering hletter
      · cases hletter
        exact .inl ⟨hnone₁, hlettering⟩
  · exact Reaching.lexDigit hnone hnum hdecimal h.slice h.lettering hletter

theorem Reaching.lexRound (hnone : sc.lexemes = []) (howing : ¬ sc.Owing) (h : sc.Reaching chr)
    (hround : sc.lexRound atof chr next ending = some sc') : sc'.FirstIs Lettering Lettered := by
  have hflags : sc.isStr = false ∧ sc.isChar = false ∧ sc.isNum = false ∧ sc.isDecimal = false := by
    unfold Owing Quoting at howing
    simpa [not_or, and_assoc] using howing
  obtain ⟨hstr, hchar, hnum, hdecimal⟩ := hflags
  unfold Scan.lexRound at hround
  split at hround
  · cases hround
    split <;> exact .inl ⟨hnone, h.lettering⟩
  split at hround
  · cases hround
    split <;> exact .inl ⟨hnone, h.lettering⟩
  split at hround
  · cases hround
    exact .inl ⟨hnone, h.lettering⟩
  split at hround
  · cases hround
    exact .inl ⟨hnone, h.lettering⟩
  split at hround
  · cases hround
    unfold lexQuote
    rw [if_neg (by simp [hstr])]
    exact .inl ⟨hnone, .inl (.inl (.inl rfl))⟩
  split at hround
  · cases hround
    unfold lexApostrophe
    rw [if_neg (by simp [hchar])]
    exact .inl ⟨hnone, .inl (.inl (.inr rfl))⟩
  split at hround
  · next hliteral => simp [hstr, hchar] at hliteral
  · exact Reaching.lexLetter hnone hnum hdecimal h hround

/-- A word that is the next lexeme begins with a letter. -/
theorem Lettering.step (hnone : sc.lexemes = []) (h : sc.Lettering)
    (hstep : sc.step atof chr after = some sc') : sc'.FirstIs Lettering Lettered := by
  by_cases howing : sc.Owing
  · exact (howing.step hnone hstep).lettering
  have hreaching : ∀ skip : Bool,
      ({ sc with skip := skip }.enter chr).Reaching chr := by
    intro skip hid
    rcases h.resolve_left howing with hnot | ⟨letter, rest, hspan, hletter⟩
    · exact absurd hid (by simp [enter, hnot])
    · exact ⟨letter, rest, by simp [enter, hspan], hletter⟩
  unfold Scan.step at hstep
  split at hstep
  · cases hstep
    exact FirstIs.leave (fun sc => Lettering.leave) (.inl ⟨hnone, (hreaching false).lettering⟩)
  · obtain ⟨sc₁, hround, rfl⟩ := Option.map_eq_some_iff.mp hstep
    have henter : (sc.enter chr).lexemes = [] ∧ ¬ (sc.enter chr).Owing := ⟨hnone, howing⟩
    exact (Reaching.lexRound henter.1 henter.2 (hreaching sc.skip) hround).leave
      fun sc => Lettering.leave

end Scan

/-! ## Identifiers -/

section Words

open Scan

variable {atof : String → BitVec 32}

/-- The rest of a printed identifier, with a line break and a blank behind it, is read as the rest
of this identifier. -/
def Rereads (atof : String → BitVec 32) (sc : Scan) (text rest : List Char) : Prop :=
  ∃ sc', sc.feed atof [] (rest ++ ['\n', ' ']) = some sc' ∧
    sc'.lexemes = [Lexeme.word (String.ofList text)]

theorem Rereads.of_feed {sc sc₁ : Scan} {text u rest : List Char}
    (h : Rereads atof sc text (u ++ rest))
    (hfeed : sc.feed atof (rest ++ ['\n', ' ']) u = some sc₁) : Rereads atof sc₁ text rest := by
  obtain ⟨sc', hall, hlexemes⟩ := h
  rw [List.append_assoc, feed_append, List.append_nil, hfeed] at hall
  exact ⟨sc', hall, hlexemes⟩

/-- A word is no literal. -/
theorem not_rereads_of_owing {sc : Scan} {text rest : List Char} (hnone : sc.lexemes = [])
    (howing : sc.Owing) : ¬ Rereads atof sc text rest := by
  rintro ⟨sc', hfeed, hlexemes⟩
  rcases FirstIs.feed Owing.step (.inl ⟨hnone, howing⟩) hfeed with ⟨hnil, -⟩ | ⟨x, more, hx, hliteral⟩
  · rw [hnil] at hlexemes
    cases hlexemes
  · rw [hlexemes] at hx
    obtain ⟨rfl, -⟩ := List.cons.inj hx
    have hflushed := flushed_word (String.ofList text)
    unfold IsLiteral Lexeme.word at hliteral
    split at hliteral
    · next kind hkeyword =>
        have hpayload := TokenKind.hasPayload_of_mem_keywords
          (TokenKind.mem_keywords_of_keyword hkeyword)
        rcases hliteral with h | h | h | h <;>
        · have hkind : kind = _ := h
          rw [hkind] at hpayload
          cases hpayload
    · rcases hliteral with h | h | h | h <;> cases h

/-- The word that has been flushed is the whole text. -/
theorem eq_of_rereads {sc : Scan} {text text' rest : List Char}
    (hlexemes : ∃ more, sc.lexemes = Lexeme.word (String.ofList text') :: more)
    (h : Rereads atof sc text rest) : text' = text := by
  obtain ⟨sc', hfeed, hall⟩ := h
  obtain ⟨more, hmore⟩ := hlexemes
  obtain ⟨new, hnew⟩ := prefix_feed hfeed
  rw [hmore, hall] at hnew
  have hword := Lexeme.word_injective (List.cons.inj hnew).1
  simpa using congrArg String.toList hword

theorem append_cons_ne (span : List Char) (chr : Char) (rest : List Char) :
    span ≠ span ++ chr :: rest := by
  intro h
  have := congrArg List.length h
  simp at this

mutual

theorem wordText_of_inWord : ∀ (rest span : List Char),
    Rereads atof (inWord [] span) (span ++ rest) rest → WordText rest
  | [], _, _ => .nil
  | chr :: rest, span, h => by
      obtain ⟨next, after, hafter⟩ := List.exists_cons_of_ne_nil
        (List.append_ne_nil_of_right_ne_nil rest (List.cons_ne_nil '\n' [' ']))
      have hstep : ∀ sc : Scan, (inWord [] span).step atof chr (next :: after) = some sc →
          Rereads atof sc (span ++ chr :: rest) rest := by
        intro sc hstep
        refine @Rereads.of_feed atof _ sc _ [chr] rest h ?_
        rw [hafter]
        exact (congrArg (Option.bind · some) hstep).trans rfl
      by_cases hword : isLetter chr = true ∨ isDigit chr = true
      · refine .char hword (wordText_of_inWord rest (span ++ [chr]) ?_)
        rw [List.append_assoc]
        exact hstep _ (step_word hword)
      by_cases hquote : chr = doubleQuote
      · subst hquote
        exact absurd (hstep _ rfl) (not_rereads_of_owing rfl (.inl (.inl rfl)))
      by_cases hapostrophe : chr = apostrophe
      · subst hapostrophe
        exact absurd (hstep _ rfl) (not_rereads_of_owing rfl (.inl (.inr rfl)))
      by_cases hcomment : chr = '/' ∧ (next = '/' ∨ next = '*')
      · obtain ⟨rfl, hnext⟩ := hcomment
        cases rest with
        | nil =>
            obtain ⟨rfl, -⟩ := List.cons.inj hafter
            exact absurd hnext (by decide)
        | cons chr' rest =>
            obtain ⟨rfl, -⟩ := List.cons.inj hafter
            rcases hnext with rfl | rfl
            · have hline := @Rereads.of_feed atof _ _ _ ['/', '/'] rest h (feed_openLine span)
              obtain ⟨comment, rest', rfl, hnewline, hrest⟩ :=
                comment_of_inLine rest (span ++ ['/'] ++ ['/']) (by simpa using hline)
              exact .line hnewline hrest
            · have hblock := @Rereads.of_feed atof _ _ _ ['/', '*'] rest h (feed_openBlock span)
              obtain ⟨comment, rest', rfl, hclose, hrest⟩ :=
                comment_of_inBlock rest (span ++ ['/'] ++ ['*']) (by simpa using hblock)
              exact .block hclose hrest
      by_cases hdot : chr = '.' ∧ isDigit next = true
      · obtain ⟨rfl, hdigit⟩ := hdot
        have hround : ((inWord [] span).enter '.').lexLetter atof '.' next false =
            some { inWord [] span with span := ['.'], isDecimal := true } := by
          unfold lexLetter lexDigit lexDot
          rw [if_neg (by decide), if_neg (by decide), if_pos ⟨rfl, .inr hdigit⟩]
          rfl
        have hdecimal := hstep _ (step_letter outside_inWord rfl hquote hapostrophe hcomment hround)
        exact absurd hdecimal (not_rereads_of_owing rfl (.inr (.inr rfl)))
      · -- the word ends here, so nothing of it is left
        have hbreaks : Breaks chr next :=
          ⟨by simpa using mt .inl hword, by simpa using mt .inr hword, hquote, hapostrophe, hcomment,
            fun hchr => by simpa [hchr] using hdot⟩
        have hflushed := hstep _ (step_word_breaks hbreaks span)
        exact absurd (eq_of_rereads ⟨symbols chr, rfl⟩ hflushed) (append_cons_ne span chr rest)
termination_by rest => rest.length

theorem comment_of_inLine : ∀ (rest span : List Char),
    Rereads atof (inLine [] span) (span ++ rest) rest →
      ∃ comment rest', rest = comment ++ '\n' :: rest' ∧ '\n' ∉ comment ∧ WordText rest'
  | [], span, h => by
      obtain ⟨sc', hfeed, hlexemes⟩ := h
      have hend : sc'.lexemes = [Lexeme.word (String.ofList (span ++ ['\n'] ++ [' ']))] := by
        cases hfeed
        rfl
      rw [hend] at hlexemes
      have hword := Lexeme.word_injective (List.cons.inj hlexemes).1
      have := congrArg (fun text => text.toList.length) hword
      simp at this
  | chr :: rest, span, h => by
      by_cases hnewline : chr = '\n'
      · subst hnewline
        refine ⟨[], rest, rfl, by simp, wordText_of_inWord rest (span ++ ['\n']) ?_⟩
        rw [List.append_assoc]
        exact @Rereads.of_feed atof _ _ _ ['\n'] rest h rfl
      · have hrest : Rereads atof (inLine [] (span ++ [chr])) (span ++ [chr] ++ rest) rest := by
          rw [List.append_assoc]
          exact @Rereads.of_feed atof _ _ _ [chr] rest h
            ((congrArg (Option.bind · some) (step_inLine hnewline span)).trans rfl)
        obtain ⟨comment, rest', rfl, hcomment, hword⟩ := comment_of_inLine rest _ hrest
        exact ⟨chr :: comment, rest', rfl, by simp [hcomment, Ne.symm hnewline], hword⟩
termination_by rest => rest.length

theorem comment_of_inBlock : ∀ (rest span : List Char),
    Rereads atof (inBlock [] span) (span ++ rest) rest →
      ∃ comment rest', rest = comment ++ '*' :: '/' :: rest' ∧ Unclosed comment ∧ WordText rest'
  | [], span, h => by
      obtain ⟨sc', hfeed, hlexemes⟩ := h
      cases hfeed
      cases hlexemes
  | chr :: rest, span, h => by
      by_cases hclose : chr = '*' ∧ (rest ++ ['\n', ' ']).headD (Char.ofNat 0) = '/'
      · obtain ⟨rfl, hnext⟩ := hclose
        cases rest with
        | nil => exact absurd hnext (by decide)
        | cons chr' rest =>
            have hslash : chr' = '/' := hnext
            subst hslash
            have hword := @Rereads.of_feed atof _ _ _ ['*', '/'] rest h (feed_closeBlock span)
            exact ⟨[], rest, rfl, trivial,
              wordText_of_inWord rest (span ++ ['*'] ++ ['/']) (by simpa using hword)⟩
      · have hrest : Rereads atof (inBlock [] (span ++ [chr])) (span ++ [chr] ++ rest) rest := by
          rw [List.append_assoc]
          exact @Rereads.of_feed atof _ _ _ [chr] rest h
            ((congrArg (Option.bind · some) (step_inBlock hclose span)).trans rfl)
        obtain ⟨comment, rest', rfl, hcomment, hword⟩ := comment_of_inBlock rest _ hrest
        refine ⟨chr :: comment, rest', rfl, ⟨fun hend => hclose ⟨hend.1, ?_⟩, hcomment⟩, hword⟩
        cases comment with
        | nil => cases hend.2
        | cons chr' comment => exact Option.some.inj hend.2
termination_by rest => rest.length

end

end Words

/-! ## Strings -/

section Strings

open Scan

variable {atof : String → BitVec 32} {chr : Char} {sc sc' : Scan} {after : List Char}

theorem feedContent_append (content rest : List Char) :
    feedContent (content ++ rest) = feedContent content ++ feedContent rest := List.flatMap_append

theorem newline_notMem_feedContent (content : List Char) : '\n' ∉ feedContent content := by
  intro hmem
  obtain ⟨chr, -, hchr⟩ := List.mem_flatMap.mp hmem
  unfold feedChar at hchr
  split at hchr
  · exact absurd hchr (by decide)
  · next hnewline => exact hnewline (List.mem_singleton.mp hchr).symm

/-- The string is still open and its content has not got heavier than what has been read of the
printed text; a character that will be skipped counts already. -/
structure StillOpen (chr : Char) (sc sc' : Scan) : Prop where
  lexemes : sc'.lexemes = sc.lexemes
  isStr : sc'.isStr = true
  content : sc.content <+: sc'.content
  weight : chr ≠ '\n' → (feedContent sc'.content).length + sc.skip.toNat ≤
    (feedContent sc.content).length + 1 + sc'.skip.toNat

theorem StillOpen.leave (h : StillOpen chr sc sc') : StillOpen chr sc sc'.leave := by
  unfold Scan.leave
  split
  · exact h
  · exact ⟨h.lexemes, h.isStr, h.content, h.weight⟩

/-- What a character does in an open string. -/
theorem step_open (hstr : sc.isStr = true) (hstep : sc.step atof chr after = some sc') :
    StillOpen chr sc sc' ∨
      (chr = doubleQuote ∧ sc.skip = false ∧
        sc'.lexemes = sc.lexemes ++ [⟨.literalString, .str (String.ofList sc.content)⟩]) ∨
      (chr = apostrophe ∧ ∃ y, sc'.lexemes = sc.lexemes ++ [y] ∧ y.kind = .literalChar) := by
  unfold Scan.step at hstep
  split at hstep
  · next hskip =>
      cases hstep
      refine .inl (StillOpen.leave ⟨rfl, hstr, List.prefix_refl _, fun _ => ?_⟩)
      simp [enter, hskip]
  next hskip =>
  rw [Bool.not_eq_true] at hskip
  obtain ⟨sc₁, hround, rfl⟩ := Option.map_eq_some_iff.mp hstep
  have hquiet : ∀ sc₂ : Scan, sc₂.lexemes = sc.lexemes → sc₂.isStr = true →
      sc₂.content = sc.content → StillOpen chr sc sc₂.leave := by
    intro sc₂ hlexemes hstr₂ hcontent
    refine StillOpen.leave ⟨hlexemes, hstr₂, hcontent ▸ List.prefix_refl _, fun _ => ?_⟩
    rw [hcontent, hskip]
    simp
    omega
  unfold Scan.lexRound at hround
  split at hround
  · cases hround
    left
    split <;> exact hquiet _ rfl hstr rfl
  split at hround
  · cases hround
    left
    split <;> exact hquiet _ rfl hstr rfl
  split at hround
  · cases hround
    exact .inl (hquiet _ rfl hstr rfl)
  split at hround
  · cases hround
    exact .inl (hquiet _ rfl hstr rfl)
  split at hround
  · next hquote =>
      cases hround
      refine .inr (.inl ⟨hquote, hskip, ?_⟩)
      have henter : (sc.enter chr).isStr = true := hstr
      unfold lexQuote
      rw [if_pos henter, lexemes_leave]
      rfl
  split at hround
  · next hapostrophe =>
      cases hround
      unfold lexApostrophe
      split
      · exact .inr (.inr ⟨hapostrophe, _, by rw [lexemes_leave]; rfl, rfl⟩)
      · exact .inl (hquiet _ rfl hstr rfl)
  split at hround
  · cases hround
    left
    unfold lexContent
    split
    · refine StillOpen.leave ⟨rfl, hstr, List.prefix_append _ _, fun _ => ?_⟩
      rw [hskip]
      have hone : (feedContent [backslash]).length = 1 := by decide
      simp only [enter, feedContent_append, List.length_append, hone]
      simp
    · split
      · refine StillOpen.leave ⟨rfl, hstr, List.prefix_append _ _, fun _ => ?_⟩
        rw [hskip]
        have htwo : (feedContent ['\n']).length = 2 := by decide
        simp only [enter, feedContent_append, List.length_append, htwo]
        simp
      · refine StillOpen.leave ⟨rfl, hstr, List.prefix_append _ _, fun hnewline => ?_⟩
        rw [hskip]
        have hone : (feedContent [chr]).length = 1 := by simp [feedContent, feedChar, hnewline]
        simp only [enter, feedContent_append, List.length_append, hone]
        simp
  · next hliteral =>
      have henter : (sc.enter chr).isStr = true := hstr
      exact absurd (.inl henter) hliteral

/-- Without quotes the string stays open. -/
theorem lexemes_of_open : ∀ {u : List Char} {sc : Scan}, sc.isStr = true → doubleQuote ∉ u →
    apostrophe ∉ u → sc.feed atof after u = some sc' → sc'.lexemes = sc.lexemes
  | [], _, _, _, _, hfeed => Option.some.inj hfeed ▸ rfl
  | chr :: u, sc, hstr, hquote, hapostrophe, hfeed => by
      obtain ⟨sc₁, hstep, hrest⟩ := Option.bind_eq_some_iff.mp hfeed
      rcases step_open hstr hstep with hopen | ⟨rfl, -⟩ | ⟨rfl, -⟩
      · exact (lexemes_of_open hopen.isStr (fun h => hquote (List.mem_cons_of_mem _ h))
          (fun h => hapostrophe (List.mem_cons_of_mem _ h)) hrest).trans hopen.lexemes
      · exact absurd List.mem_cons_self hquote
      · exact absurd List.mem_cons_self hapostrophe

/-- The string that has been closed is the only lexeme. -/
theorem content_of_closed {content content' : List Char} {u : List Char}
    (hlexemes : sc.lexemes = [⟨.literalString, .str (String.ofList content')⟩])
    (hfeed : sc.feed atof after u = some sc')
    (hall : sc'.lexemes = [⟨.literalString, .str (String.ofList content)⟩]) : content' = content := by
  obtain ⟨new, hnew⟩ := prefix_feed hfeed
  rw [hlexemes, hall] at hnew
  have htext := (List.cons.inj hnew).1
  simp only [Lexeme.mk.injEq, Payload.str.injEq, true_and] at htext
  simpa using congrArg String.toList htext

/-- A string that is read from a printed text is not heavier than this text. -/
theorem weigh {content : List Char} : ∀ {u : List Char} {sc : Scan}, sc.isStr = true →
    sc.lexemes = [] → '\n' ∉ u →
    sc.feed atof [] (u ++ [doubleQuote, '\n', ' ']) = some sc' →
    sc'.lexemes = [⟨.literalString, .str (String.ofList content)⟩] →
    sc.content <+: content ∧
      (feedContent content).length + sc.skip.toNat ≤ (feedContent sc.content).length + u.length
  | [], sc, hstr, hnone, _, hfeed, hall => by
      obtain ⟨sc₁, hstep, hrest⟩ := Option.bind_eq_some_iff.mp hfeed
      rcases step_open hstr hstep with hopen | ⟨-, hskip, hclosed⟩ | ⟨hchr, -⟩
      · have hnever := lexemes_of_open hopen.isStr (by decide) (by decide) hrest
        rw [hopen.lexemes, hnone, hall] at hnever
        cases hnever
      · rw [hnone] at hclosed
        rw [← content_of_closed hclosed hrest hall, hskip]
        exact ⟨List.prefix_refl _, Nat.le_refl _⟩
      · exact absurd hchr (by decide)
  | chr :: u, sc, hstr, hnone, hnewline, hfeed, hall => by
      obtain ⟨sc₁, hstep, hrest⟩ := Option.bind_eq_some_iff.mp hfeed
      have hchr : chr ≠ '\n' := fun h => hnewline (h ▸ List.mem_cons_self)
      have hu : '\n' ∉ u := fun h => hnewline (List.mem_cons_of_mem _ h)
      rcases step_open hstr hstep with hopen | ⟨-, hskip, hclosed⟩ | ⟨-, y, hchar, hy⟩
      · obtain ⟨hfront, hweight⟩ :=
          weigh hopen.isStr (hopen.lexemes.trans hnone) hu hrest hall
        have hstepped := hopen.weight hchr
        refine ⟨hopen.content.trans hfront, ?_⟩
        rw [List.length_cons]
        omega
      · rw [hnone] at hclosed
        rw [← content_of_closed hclosed hrest hall, hskip]
        exact ⟨List.prefix_refl _, Nat.le_add_right _ _⟩
      · obtain ⟨new, hnew⟩ := prefix_feed hrest
        rw [hchar, hnone, hall] at hnew
        rw [(List.cons.inj hnew).1] at hy
        cases hy

/-- A character of a string that is read as the string is kept. -/
theorem kept_of_feed {content rest : List Char} (hfeed : (inString [] content).feed atof []
      (feedContent (chr :: rest) ++ [doubleQuote, '\n', ' ']) = some sc')
    (hall : sc'.lexemes = [⟨.literalString, .str (String.ofList (content ++ chr :: rest))⟩]) :
    KeptChar chr rest := by
  have hrest : ∀ {sc : Scan}, (inString [] content).feed atof
      (feedContent rest ++ [doubleQuote, '\n', ' ']) (feedChar chr) = some sc →
      sc.feed atof [] (feedContent rest ++ [doubleQuote, '\n', ' ']) = some sc' := by
    intro sc hchr
    rw [feedContent_cons, List.append_assoc, feed_append, List.append_nil, hchr] at hfeed
    exact hfeed
  have hrest' : ∀ {sc : Scan}, (inString [] content).feed atof
      (feedContent rest ++ [doubleQuote, '\n', ' ']) (feedChar chr) = some sc → sc.isStr = true →
      sc.lexemes = [] → sc.content <+: content ++ chr :: rest ∧
        (feedContent content).length + (feedChar chr).length + sc.skip.toNat ≤
          (feedContent sc.content).length := by
    intro sc hchr hstr hnone
    obtain ⟨hfront, hweight⟩ :=
      weigh hstr hnone (newline_notMem_feedContent rest) (hrest hchr) hall
    refine ⟨hfront, ?_⟩
    rw [feedContent_append, feedContent_cons, List.length_append, List.length_append] at hweight
    omega
  refine ⟨?_, ?_, fun hslash => ?_, fun hbackslash => ?_⟩
  · -- the string ends here
    rintro rfl
    have hclosed : (inString [] content).feed atof (feedContent rest ++ [doubleQuote, '\n', ' '])
        (feedChar doubleQuote) =
          some (clean [⟨.literalString, .str (String.ofList content)⟩]) := rfl
    exact append_cons_ne content doubleQuote rest (content_of_closed rfl (hrest hclosed) hall)
  · rintro rfl
    have hweight := (@hrest' { inString [] content with isChar := true } rfl rfl rfl).2
    have hone : (feedChar apostrophe).length = 1 := by decide
    simp only [inString, hone] at hweight
    omega
  · -- the next character is taken as part of the opening of a comment
    subst hslash
    have hone : (feedChar '/').length = 1 := by decide
    constructor
    · intro hhead
      obtain ⟨rest, rfl⟩ : ∃ rest', rest = '/' :: rest' := List.head?_eq_some_iff.mp hhead
      have hweight := (@hrest' { inString [] content with skip := true, isComment := true }
        rfl rfl rfl).2
      simp only [inString, hone] at hweight
      omega
    · intro hhead
      obtain ⟨rest, rfl⟩ : ∃ rest', rest = '*' :: rest' := List.head?_eq_some_iff.mp hhead
      have hweight := (@hrest' { inString [] content with skip := true, isMulticomment := true }
        rfl rfl rfl).2
      simp only [inString, hone] at hweight
      omega
  · -- the next printed character is taken as part of an escape
    subst hbackslash
    have hone : (feedChar backslash).length = 1 ∧ (feedContent [backslash]).length = 1 := by decide
    refine ⟨fun hhead => ?_, fun hhead => ?_, fun hhead => ?_⟩
    · obtain ⟨rest, rfl⟩ : ∃ rest', rest = backslash :: rest' := List.head?_eq_some_iff.mp hhead
      have hweight := (@hrest' { inString [] (content ++ [backslash]) with skip := true }
        rfl rfl rfl).2
      simp only [inString, feedContent_append, List.length_append, hone.1, hone.2] at hweight
      simp at hweight
    · obtain ⟨rest, rfl⟩ : ∃ rest', rest = 'n' :: rest' := List.head?_eq_some_iff.mp hhead
      have hfront := (@hrest' { inString [] (content ++ ['\n']) with skip := true }
        rfl rfl rfl).1
      have hnext := (List.prefix_append_right_inj content).mp hfront
      exact absurd (List.cons_prefix_cons.mp hnext).1 (by decide)
    · obtain ⟨rest, rfl⟩ : ∃ rest', rest = '\n' :: rest' := List.head?_eq_some_iff.mp hhead
      have hweight := (@hrest' { inString [] (content ++ [backslash]) with skip := true }
        rfl rfl rfl).2
      simp only [inString, feedContent_append, List.length_append, hone.1, hone.2] at hweight
      simp at hweight

/-- A printed string that is read as the string has a content that is kept. -/
theorem keptContent_of_feed : ∀ {rest content : List Char}, (inString [] content).feed atof []
      (feedContent rest ++ [doubleQuote, '\n', ' ']) = some sc' →
    sc'.lexemes = [⟨.literalString, .str (String.ofList (content ++ rest))⟩] → KeptContent rest
  | [], _, _, _ => trivial
  | chr :: rest, content, hfeed, hall => by
      have hkept := kept_of_feed hfeed hall
      refine ⟨hkept, @keptContent_of_feed rest (content ++ [chr]) ?_ (by simpa using hall)⟩
      have hfirst := @feed_feedChar atof chr [] ['\n', ' '] rest hkept content
      have htext : feedContent (chr :: rest) ++ [doubleQuote, '\n', ' '] =
          feedChar chr ++ (feedContent rest ++ [doubleQuote, '\n', ' ']) := by
        rw [feedContent_cons, List.append_assoc]
      rw [htext, feed_append, List.append_nil, hfirst] at hfeed
      exact hfeed

end Strings

/-! ## Single tokens -/

section Single

open Scan

variable {ftoa : BitVec 32 → List Char} {atof : String → BitVec 32}

/-- The lexemes of a text. -/
theorem feed_of_lexemesOf {text : List Char} {lexemes : List Lexeme}
    (h : lexemesOf atof text = some lexemes) :
    ∃ sc', Scan.feed atof [] text {} = some sc' ∧ sc'.lexemes = lexemes := by
  rw [lexFile_lexemes] at h
  exact Option.map_eq_some_iff.mp h

/-- The first of the lexemes has been read already. -/
theorem head_of_feed {sc sc' : Scan} {after u : List Char} {x y : Lexeme} {more more' : List Lexeme}
    (hsc : sc.lexemes = x :: more) (hfeed : sc.feed atof after u = some sc')
    (hall : sc'.lexemes = y :: more') : x = y := by
  obtain ⟨new, hnew⟩ := prefix_feed hfeed
  rw [hsc, hall] at hnew
  exact (List.cons.inj hnew).1

theorem isSign_of_reread {chr : Char}
    (h : lexemesOf atof [chr, '\n', ' '] = some [⟨.ascii chr, .none⟩]) : IsSign chr := by
  obtain ⟨sc', hfeed, hall⟩ := feed_of_lexemesOf h
  have hsplit : ∀ sc, (clean []).step atof chr ['\n', ' '] = some sc →
      sc.feed atof [] ['\n', ' '] = some sc' := by
    intro sc hstep
    have hbind : ((clean []).step atof chr ['\n', ' ']).bind (Scan.feed atof [] ['\n', ' ']) =
        some sc' := hfeed
    rw [hstep] at hbind
    exact hbind
  refine ⟨?_, ?_, ?_, ?_, ?_⟩
  · by_contra hletter
    rw [Bool.not_eq_false] at hletter
    obtain ⟨sc₁, hstep, hrest⟩ := Option.bind_eq_some_iff.mp (hsplit _ (step_word_first hletter))
    have hflushed : sc₁.lexemes = [Lexeme.word (String.ofList [chr])] := by cases hstep; rfl
    have hword := head_of_feed hflushed hrest hall
    have hkind := TokenKind.isWord_word (String.ofList [chr])
    rw [hword, TokenKind.not_isWord_ascii] at hkind
    cases hkind
  · by_contra hdigit
    rw [Bool.not_eq_false] at hdigit
    obtain ⟨sc₁, hstep, hrest⟩ := Option.bind_eq_some_iff.mp (hsplit _ (step_integer_first hdigit))
    have hflushed : sc₁.lexemes = [⟨.literalInteger, .num (atoi [chr])⟩] := by cases hstep; rfl
    cases head_of_feed hflushed hrest hall
  · by_contra hdelim
    rw [Bool.not_eq_false] at hdelim
    have hnone := @Lexeme.feed_clean_delims atof [] [] ['\n', ' '] (by simp [isDelim])
    rw [hsplit _ (step_clean_delim hdelim _)] at hnone
    cases hnone
    cases hall
  · rintro rfl
    have hrest := hsplit _ rfl
    cases hrest
    cases hall
  · rintro rfl
    have hrest := hsplit _ rfl
    cases hrest
    cases hall

theorem legible_of_id {text : String}
    (h : lexemesOf atof (text.toList ++ ['\n', ' ']) = some [⟨.id, .str text⟩]) :
    Lexeme.Legible ⟨.id, .str text⟩ := by
  obtain ⟨sc', hfeed, hall⟩ := feed_of_lexemesOf h
  have hstart : Scan.FirstIs Lettering Lettered {} := .inl ⟨rfl, .inr (.inl rfl)⟩
  rcases FirstIs.feed Lettering.step hstart hfeed with ⟨hnone, -⟩ | ⟨x, more, hfirst, hlettered⟩
  · rw [hnone] at hall
    cases hall
  rw [hall] at hfirst
  obtain ⟨rfl, -⟩ := List.cons.inj hfirst
  obtain ⟨chr, rest, hword, hletter⟩ := hlettered rfl
  -- the word is no keyword, so its text is that of the token
  have hkeyword : TokenKind.keyword (String.ofList (chr :: rest)) = none := by
    cases hkeyword : TokenKind.keyword (String.ofList (chr :: rest)) with
    | none => rfl
    | some kind =>
        rw [Lexeme.word, hkeyword] at hword
        have hmem := TokenKind.mem_keywords_of_keyword hkeyword
        have hkind : TokenKind.id = kind := congrArg Lexeme.kind hword
        subst hkind
        exact absurd hmem (by decide)
  have htext : text = String.ofList (chr :: rest) := by
    rw [Lexeme.word, hkeyword] at hword
    simpa using hword
  subst htext
  refine .id hletter (@wordText_of_inWord atof rest [chr] ⟨sc', ?_, ?_⟩) hkeyword
  · rw [String.toList_ofList] at hfeed
    obtain ⟨next, after, hafter⟩ := List.exists_cons_of_ne_nil
      (List.append_ne_nil_of_right_ne_nil rest (List.cons_ne_nil '\n' [' ']))
    have hbind : ((clean []).step atof chr (rest ++ ['\n', ' '])).bind
        (Scan.feed atof [] (rest ++ ['\n', ' '])) = some sc' := by
      rw [← hfeed, List.cons_append, Scan.feed, List.append_nil]
      rfl
    rw [hafter, step_word_first hletter] at hbind
    rw [hafter]
    exact hbind
  · rw [hall]
    exact congrArg (· :: []) hword

theorem legible_of_string {text : String} (h : lexemesOf atof
    (doubleQuote :: (feedContent text.toList ++ [doubleQuote]) ++ ['\n', ' ']) =
      some [⟨.literalString, .str text⟩]) : Lexeme.Legible ⟨.literalString, .str text⟩ := by
  obtain ⟨sc', hfeed, hall⟩ := feed_of_lexemesOf h
  have hopen : (inString [] []).feed atof [] (feedContent text.toList ++ [doubleQuote, '\n', ' ']) =
      some sc' := by
    rw [← hfeed, List.cons_append, List.append_assoc]
    rfl
  have hkept := @keptContent_of_feed atof sc' text.toList [] hopen (by simpa using hall)
  have hlegible := Lexeme.Legible.string hkept
  rwa [String.ofList_toList] at hlegible

theorem legible_of_char {text : String} (h : lexemesOf atof
    (apostrophe :: (feedContent text.toList ++ [apostrophe]) ++ ['\n', ' ']) =
      some [⟨.literalChar, .str text⟩]) : Lexeme.Legible ⟨.literalChar, .str text⟩ := by
  obtain ⟨sc', hfeed, hall⟩ := feed_of_lexemesOf h
  have hopen : ({ isChar := true } : Scan).feed atof []
      (feedContent text.toList ++ [apostrophe, '\n', ' ']) = some sc' := by
    rw [← hfeed, List.cons_append, List.append_assoc]
    rfl
  rcases FirstIs.feed Quoting.step (.inl ⟨rfl, .inr rfl⟩) hopen with ⟨hnone, -⟩ |
    ⟨x, more, hfirst, hquotation⟩
  · rw [hnone] at hall
    cases hall
  rw [hall] at hfirst
  obtain ⟨rfl, -⟩ := List.cons.inj hfirst
  rcases hquotation with ⟨text', hstring⟩ | ⟨chr, hchar⟩
  · cases hstring
  · simp only [Lexeme.mk.injEq, Payload.str.injEq, true_and] at hchar
    subst hchar
    refine .char ?_ ?_
    · rintro rfl
      cases hopen
      exact absurd hall (by decide)
    · rintro rfl
      cases hopen
      exact absurd hall (by decide)

theorem legible_of_integer {value : BitVec 32}
    (h : lexemesOf atof (toDecimal value ++ ['\n', ' ']) = some [⟨.literalInteger, .num value⟩]) :
    Lexeme.Legible ⟨.literalInteger, .num value⟩ := by
  refine .integer ?_
  by_contra hneg
  obtain ⟨sc', hfeed, hall⟩ := feed_of_lexemesOf h
  rw [toDecimal, if_pos (by omega), List.cons_append] at hfeed
  obtain ⟨sc₁, hstep, hrest⟩ := Option.bind_eq_some_iff.mp hfeed
  obtain ⟨next, after, hafter⟩ := List.exists_cons_of_ne_nil
    (List.append_ne_nil_of_right_ne_nil (Nat.toDigits 10 value.toInt.natAbs)
      (List.cons_ne_nil '\n' [' ']))
  have hsign : Breaks '-' next :=
    ⟨by decide, by decide, by decide, by decide, fun h => absurd h.1 (by decide),
      fun h => absurd h (by decide)⟩
  have hminus := @step_clean_breaks atof '-' next [] after hsign
  rw [List.append_nil, hafter] at hstep
  rw [show ({} : Scan) = clean [] from rfl, hminus] at hstep
  cases hstep
  cases head_of_feed rfl hrest hall

/-- A printed token that is read as itself is legible. -/
theorem legible_of_reread {stream : TokenStream} {token : Token}
    (hdecimal : token.type ≠ .literalDecimal)
    (h : lexemesOf atof (Lexeme.print ftoa ⟨token.type, stream.payload token⟩ ++ ['\n', ' ']) =
      some [⟨token.type, stream.payload token⟩]) :
    Lexeme.Legible ⟨token.type, stream.payload token⟩ := by
  unfold TokenStream.payload at h ⊢
  cases htype : token.type with
  | ascii chr => rw [htype] at h; exact .symbol (isSign_of_reread h)
  | id => rw [htype] at h; exact legible_of_id h
  | literalInteger => rw [htype] at h; exact legible_of_integer h
  | literalDecimal => exact absurd htype hdecimal
  | literalString => rw [htype] at h; exact legible_of_string h
  | literalChar => rw [htype] at h; exact legible_of_char h
  | eof =>
      rw [htype] at h
      have hword : lexemesOf atof ("EOF".toList ++ ['\n', ' ']) = some [⟨.id, .str "EOF"⟩] := by
        rw [lexFile_lexemes]
        rfl
      have heof : lexemesOf atof ("EOF".toList ++ ['\n', ' ']) = some [⟨.eof, .none⟩] := h
      rw [hword] at heof
      cases heof
  | _ => exact .keyword (by decide)

end Single

/-! ## Neighbours -/

section Pairs

open Scan Lexeme

variable {ftoa : BitVec 32 → List Char} {atof : String → BitVec 32} {x y : Lexeme} {sc' : Scan}

theorem wordText_of_word : ∀ {text : List Char},
    (∀ chr ∈ text, isLetter chr = true ∨ isDigit chr = true) → WordText text
  | [], _ => .nil
  | chr :: text, h =>
      .char (h chr List.mem_cons_self)
        (wordText_of_word fun chr' hmem => h chr' (List.mem_cons_of_mem _ hmem))

/-- Words and numbers go on with a word in front of them; only numbers go on with a number. -/
theorem wordText_print (hy : y.Legible) (hopen : y.kind.isOpen = true) :
    WordText (y.print ftoa) ∧ (y.kind = .literalInteger ∧ (∀ chr ∈ y.print ftoa, isDigit chr = true) ∨
      ∃ chr rest, y.print ftoa = chr :: rest ∧ isLetter chr = true) := by
  cases hy with
  | symbol _ => simp [TokenKind.isOpen, TokenKind.not_isWord_ascii] at hopen
  | @keyword kind hkeyword =>
      obtain ⟨hne, hletters⟩ := Written.letters_of_keyword hkeyword
      obtain ⟨chr, rest, htext⟩ := List.exists_cons_of_ne_nil hne
      rw [print_keyword hkeyword]
      exact ⟨wordText_of_word fun chr hmem => .inl (hletters chr hmem),
        .inr ⟨chr, rest, htext, hletters chr (htext ▸ List.mem_cons_self)⟩⟩
  | @id chr rest hletter hrest hkeyword =>
      have hprint : print ftoa ⟨.id, .str (String.ofList (chr :: rest))⟩ = chr :: rest :=
        String.toList_ofList
      rw [hprint]
      exact ⟨.char (.inl hletter) hrest, .inr ⟨chr, rest, rfl, hletter⟩⟩
  | @integer value hvalue =>
      obtain ⟨hdigits, -⟩ := isInteger_toDecimal hvalue
      exact ⟨wordText_of_word fun chr hmem => .inr (hdigits.allDigits chr hmem),
        .inl ⟨rfl, hdigits.allDigits⟩⟩
  | string _ => cases hopen
  | char _ _ => cases hopen

/-- One word or number and nothing else. -/
theorem length_of_pending {sc : Scan} {text : List Char}
    (hsc : sc = inWord [] text ∨ sc = inInteger [] text)
    (hfeed : sc.feed atof [] ['\n', ' '] = some sc') : sc'.lexemes.length = 1 := by
  rcases hsc with rfl | rfl <;> · cases hfeed; rfl

theorem behind_open (hopen : x.kind.isOpen = true) :
    x.behind ftoa [] = inWord [] (x.print ftoa) ∧ x.kind.isWord = true ∨
      x.behind ftoa [] = inInteger [] (x.print ftoa) ∧ x.kind = .literalInteger := by
  cases hword : x.kind.isWord with
  | true => exact .inl ⟨behind_word [] hword, rfl⟩
  | false =>
      have hinteger : x.kind = .literalInteger := by simpa [TokenKind.isOpen, hword] using hopen
      exact .inr ⟨behind_integer [] hinteger, hinteger⟩

/-- A word or a number in front of a word or a number is read as one token or not at all. -/
theorem length_of_joined (hx : x.kind.isOpen = true) (hy : y.Legible) (hopen : y.kind.isOpen = true)
    (hfeed : (x.behind ftoa []).feed atof [] (y.print ftoa ++ ['\n', ' ']) = some sc') :
    sc'.lexemes.length = 1 := by
  obtain ⟨hword, hchars⟩ := @wordText_print ftoa y hy hopen
  rw [feed_append, List.append_nil] at hfeed
  rcases @behind_open ftoa x hx with ⟨hbehind, -⟩ | ⟨hbehind, -⟩
  · rw [hbehind, feed_wordText hword] at hfeed
    exact length_of_pending (.inl rfl) hfeed
  · rw [hbehind] at hfeed
    rcases hchars with ⟨-, hdigits⟩ | ⟨chr, rest, hprint, hletter⟩
    · rw [feed_integer _ _ hdigits] at hfeed
      exact length_of_pending (.inr rfl) hfeed
    · -- a letter behind a digit is an error
      rw [hprint] at hfeed
      obtain ⟨next, after, hafter⟩ := List.exists_cons_of_ne_nil
        (List.append_ne_nil_of_right_ne_nil rest (List.cons_ne_nil '\n' [' ']))
      obtain ⟨hquote, hapostrophe, hslash, -⟩ := ne_of_word (.inl hletter)
      have hout : ((inInteger [] (x.print ftoa)).enter chr).Outside := ⟨rfl, rfl, rfl, rfl⟩
      have hround : ((inInteger [] (x.print ftoa)).enter chr).lexRound atof chr next false =
          none := by
        rw [lexRound_letter hout hquote hapostrophe fun h => hslash h.1]
        unfold lexLetter
        rw [if_pos hletter]
        rfl
      have hstep : (inInteger [] (x.print ftoa)).step atof chr (next :: after) = none := by
        unfold Scan.step
        exact (congrArg (Option.map leave) hround).trans rfl
      rw [Scan.feed, hafter, hstep] at hfeed
      cases hfeed

theorem eq_of_ascii {chr : Char} (hx : x.Legible) (hkind : x.kind = .ascii chr) :
    x = ⟨.ascii chr, .none⟩ := by
  cases hx with
  | symbol _ => cases hkind; rfl
  | keyword hkeyword =>
      cases hkind
      simp [TokenKind.keywords] at hkeyword
  | _ => cases hkind

theorem digit_print (hy : y.Legible) (hkind : y.kind = .literalInteger) :
    ∃ chr rest, y.print ftoa = chr :: rest ∧ isDigit chr = true := by
  cases hy with
  | @integer value hvalue =>
      obtain ⟨hdigits, -⟩ := isInteger_toDecimal hvalue
      obtain ⟨chr, rest, htext⟩ := List.exists_cons_of_ne_nil hdigits.nonempty
      exact ⟨chr, rest, htext, hdigits.allDigits chr (htext ▸ List.mem_cons_self)⟩
  | keyword hkeyword =>
      cases hkind
      exact absurd hkeyword (by decide)
  | _ => cases hkind

/-- A literal that is opened behind a token that has not been flushed is the first lexeme. -/
theorem not_isOpen_of_quoted {more : List Lexeme} (hopen : x.kind.isOpen = true) (hy : y.Legible)
    (hquoted : y.kind.isQuoted = true)
    (hfeed : (x.behind ftoa []).feed atof [] (y.print ftoa ++ ['\n', ' ']) = some sc')
    (hall : sc'.lexemes = x :: more) : x.kind.isOpen = false := by
  have hquotes : ∃ quote rest, y.print ftoa = quote :: rest ∧
      (quote = doubleQuote ∨ quote = apostrophe) := by
    cases hy with
    | symbol _ => cases hquoted
    | keyword hkeyword =>
        have hall : ∀ kind ∈ TokenKind.keywords, kind.isQuoted = false := by decide
        exact absurd hquoted (by simp [hall _ hkeyword])
    | id _ _ _ => cases hquoted
    | integer _ => cases hquoted
    | string _ => exact ⟨_, _, rfl, .inl rfl⟩
    | char _ _ => exact ⟨_, _, rfl, .inr rfl⟩
  obtain ⟨quote, rest, hprint, hquote⟩ := hquotes
  rw [hprint] at hfeed
  obtain ⟨sc₁, hstep, hrest⟩ := Option.bind_eq_some_iff.mp hfeed
  have hquoting : sc₁.lexemes = [] ∧ sc₁.Quoting := by
    rcases @behind_open ftoa x hopen with ⟨hbehind, -⟩ | ⟨hbehind, -⟩ <;>
      rcases hquote with rfl | rfl <;>
      · rw [hbehind] at hstep
        cases hstep
        first | exact ⟨rfl, .inl rfl⟩ | exact ⟨rfl, .inr rfl⟩
  rcases FirstIs.feed Quoting.step (.inl hquoting) hrest with ⟨hnone, -⟩ |
    ⟨z, more', hfirst, hquotation⟩
  · rw [hnone] at hall
    cases hall
  · rw [hall] at hfirst
    obtain ⟨rfl, -⟩ := List.cons.inj hfirst
    rcases hquotation with ⟨text, rfl⟩ | ⟨chr, rfl⟩ <;> rfl

/-- Two tokens that are read as themselves with nothing between them are not glued. -/
theorem not_glued_of_reread (hx : x.Legible) (hy : y.Legible)
    (h : lexemesOf atof (x.print ftoa ++ (y.print ftoa ++ ['\n', ' '])) = some [x, y]) :
    ¬ TokenKind.Glued x.kind y.kind := by
  obtain ⟨sc', hfeed, hall⟩ := feed_of_lexemesOf h
  have hbehind : x.kind.isOpen = true →
      (x.behind ftoa []).feed atof [] (y.print ftoa ++ ['\n', ' ']) = some sc' := by
    intro hopen
    obtain ⟨next, after, hafter⟩ := List.exists_cons_of_ne_nil
      (List.append_ne_nil_of_right_ne_nil (y.print ftoa) (List.cons_ne_nil '\n' [' ']))
    have hends : x.Ends next := by
      constructor <;>
        · intro hkind
          rw [hkind] at hopen
          simp [TokenKind.isOpen, TokenKind.not_isWord_ascii] at hopen
    have hfirst := @feed_print ftoa atof x next after hx [] hends
    rw [← hafter] at hfirst
    rw [feed_append, List.append_nil] at hfeed
    exact (congrArg (Option.bind · _) hfirst).symm.trans hfeed
  rintro (⟨hopen, hnext | hquoted⟩ | ⟨hslash, hnext⟩ | ⟨hdot, hinteger⟩ | ⟨hinteger, hdot⟩)
  · have hlength := length_of_joined hopen hy hnext (hbehind hopen)
    rw [hall] at hlength
    cases hlength
  · exact absurd hopen (by simp [not_isOpen_of_quoted hopen hy hquoted (hbehind hopen) hall])
  · have hx' := eq_of_ascii hx hslash
    subst hx'
    rcases hnext with hnext | hnext <;>
      · have hy' := eq_of_ascii hy hnext
        subst hy'
        cases hfeed
        cases hall
  · -- the dot begins a decimal
    have hx' := eq_of_ascii hx hdot
    subst hx'
    obtain ⟨chr, rest, hprint, hdigit⟩ := @digit_print ftoa y hy hinteger
    rw [hprint] at hfeed
    obtain ⟨sc₁, hstep, hrest⟩ := Option.bind_eq_some_iff.mp hfeed
    have hround : ((clean []).enter '.').lexLetter atof '.' chr false =
        some { clean [] with span := ['.'], isDecimal := true } := by
      unfold lexLetter lexDigit lexDot
      rw [if_neg (by decide), if_neg (by decide), if_pos ⟨rfl, .inr hdigit⟩]
      rfl
    have hdecimal := @step_letter atof (clean []) '.' chr (rest ++ ['\n', ' ']) _ outside_clean rfl
      (by decide) (by decide) (fun h => absurd h.1 (by decide)) hround
    rw [List.append_nil] at hstep
    cases hstep.symm.trans hdecimal
    rcases FirstIs.feed Owing.step (.inl ⟨rfl, .inr (.inr rfl)⟩) hrest with ⟨hnone, -⟩ |
      ⟨z, more, hfirst, hliteral⟩
    · rw [hnone] at hall
      cases hall
    · rw [hall] at hfirst
      obtain ⟨rfl, -⟩ := List.cons.inj hfirst
      rcases hliteral with h | h | h | h <;> cases h
  · have hy' := eq_of_ascii hy hdot
    subst hy'
    have hrest := hbehind (by simp [TokenKind.isOpen, hinteger])
    rw [behind_integer [] hinteger] at hrest
    have hlength : sc'.lexemes.length = 1 := by cases hrest; rfl
    rw [hall] at hlength
    cases hlength

end Pairs

/-! ## All ranges of a stream -/

/-- Every range of the tokens is read as these tokens when it has been printed. -/
def FeedsBack (atof : String → BitVec 32) (ftoa : BitVec 32 → List Char) (stream : TokenStream) :
    Prop :=
  ∀ start stop, start ≤ stop → stop ≤ stream.tokens.length →
    lexemesOf atof (stream.feed ftoa start stop ++ ['\n', ' ']) =
      some ((stream.lexemes.drop start).take (stop - start))

section Stream

variable {atof : String → BitVec 32} {ftoa : BitVec 32 → List Char} {stream : TokenStream}

theorem length_placed (stream : TokenStream) : stream.placed.length = stream.tokens.length := by
  simp [TokenStream.placed]

theorem lexemes_range (stream : TokenStream) (start n : ℕ) :
    (stream.lexemes.drop start).take n = ((stream.placed.drop start).take n).map Prod.fst := by
  rw [TokenStream.lexemes, List.map_take, List.map_drop]

/-- A single token. -/
theorem FeedsBack.legible (h : FeedsBack atof ftoa stream)
    (hdecimal : ∀ x ∈ stream.lexemes, x.kind ≠ .literalDecimal) {token : Placed}
    (hmem : token ∈ stream.placed) : token.1.Legible := by
  obtain ⟨k, hk, hget⟩ := List.getElem_of_mem hmem
  have hrange : (stream.placed.drop k).take (k + 1 - k) = [token] := by
    rw [List.drop_eq_getElem_cons hk, hget, Nat.add_sub_cancel_left]
    rfl
  have hread := h k (k + 1) (Nat.le_succ k) (length_placed stream ▸ hk)
  rw [lexemes_range, TokenStream.feed, hrange] at hread
  have hprint : feedTokens ftoa [token] = token.1.print ftoa := List.append_nil _
  rw [hprint] at hread
  have hkind := hdecimal token.1 (List.mem_map_of_mem hmem)
  unfold TokenStream.placed at hmem
  obtain ⟨token', -, rfl⟩ := List.mem_map.mp hmem
  exact legible_of_reread hkind hread

/-- Two neighbours. -/
theorem FeedsBack.parted (h : FeedsBack atof ftoa stream)
    (hlegible : ∀ token ∈ stream.placed, token.1.Legible) :
    stream.placed.IsChain (Parted ftoa) := by
  refine List.isChain_iff_getElem.mpr fun k hk htouching => ?_
  have hlt : k < stream.placed.length := Nat.lt_of_succ_lt hk
  have hrange : (stream.placed.drop k).take (k + 2 - k) =
      [stream.placed[k], stream.placed[k + 1]] := by
    rw [List.drop_eq_getElem_cons hlt, List.drop_eq_getElem_cons hk, Nat.add_sub_cancel_left]
    rfl
  have hread := h k (k + 2) (Nat.le_add_right k 2) (length_placed stream ▸ hk)
  rw [lexemes_range, TokenStream.feed, hrange] at hread
  have hprint : feedTokens ftoa [stream.placed[k], stream.placed[k + 1]] ++ ['\n', ' '] =
      stream.placed[k].1.print ftoa ++ (stream.placed[k + 1].1.print ftoa ++ ['\n', ' ']) := by
    simp [feedTokens, layout_eq_nil_iff.mpr htouching]
  rw [hprint] at hread
  exact not_glued_of_reread (hlegible _ (List.getElem_mem hlt)) (hlegible _ (List.getElem_mem hk))
    hread

/-- All ranges of a stream without decimals are read as they are printed if and only if every token
is legible and no neighbours that are printed next to each other are glued. -/
theorem feedsBack_iff (hdecimal : ∀ x ∈ stream.lexemes, x.kind ≠ .literalDecimal) :
    FeedsBack atof ftoa stream ↔
      (∀ token ∈ stream.placed, token.1.Legible) ∧ stream.placed.IsChain (Parted ftoa) := by
  constructor
  · intro h
    have hlegible : ∀ token ∈ stream.placed, token.1.Legible :=
      fun token hmem => h.legible hdecimal hmem
    exact ⟨hlegible, h.parted hlegible⟩
  · rintro ⟨hlegible, hparted⟩ start stop - -
    rw [lexemes_range]
    exact lexemesOf_feedTokens
      (fun token hmem => hlegible token (List.mem_of_mem_drop (List.mem_of_mem_take hmem)))
      ((hparted.drop start).take (stop - start))

theorem exists_stream_of_placed {text : List Char} {placed : List Placed}
    (h : (lexFile atof text).toOption.map TokenStream.placed = some placed) :
    ∃ stream, lexFile atof text = .ok stream ∧ stream.placed = placed := by
  cases hlex : lexFile atof text with
  | error error => rw [hlex] at h; cases h
  | ok stream =>
      rw [hlex] at h
      exact ⟨stream, rfl, Option.some.inj h⟩

/-- `x = "a/b";` -/
theorem feedsBack_iff_assign : ∃ stream, lexFile (fun _ => 0) "x = \"a/b\"; ".toList = .ok stream ∧
    (∀ x ∈ stream.lexemes, x.kind ≠ .literalDecimal) ∧
    (FeedsBack (fun _ => 0) (fun _ => []) stream ↔
      (∀ token ∈ stream.placed, token.1.Legible) ∧
        stream.placed.IsChain (Parted fun _ => [])) ∧
    stream.feed (fun _ => []) 0 4 = "x = \"a/b\";".toList := by
  have hplaced : (lexFile (fun _ => 0) "x = \"a/b\"; ".toList).toOption.map TokenStream.placed =
      some [(⟨.id, .str "x"⟩, 1, 1), (⟨.ascii '=', .none⟩, 1, 3),
        (⟨.literalString, .str "a/b"⟩, 1, 5), (⟨.ascii ';', .none⟩, 1, 10)] := by decide +kernel
  obtain ⟨stream, hlex, hsame⟩ := exists_stream_of_placed hplaced
  have hdecimal : ∀ x ∈ stream.lexemes, x.kind ≠ .literalDecimal := by
    rw [TokenStream.lexemes, hsame]
    decide
  refine ⟨stream, hlex, hdecimal, feedsBack_iff hdecimal, ?_⟩
  rw [TokenStream.feed, hsame]
  decide +kernel

/-- A backslash in front of an `n` is printed as it is and read as a line break. -/
theorem not_feedsBack : ¬ ∀ (atof : String → BitVec 32) (ftoa : BitVec 32 → List Char)
    (text : List Char) (stream : TokenStream), lexFile atof text = .ok stream →
    (∀ x ∈ stream.lexemes, x.kind ≠ .literalDecimal) → FeedsBack atof ftoa stream := by
  intro hall
  have hplaced : (lexFile (fun _ => 0) "\"a\\\\n\" ".toList).toOption.map TokenStream.placed =
      some [(⟨.literalString, .str "a\\n"⟩, 1, 1)] := by decide +kernel
  obtain ⟨stream, hlex, hsame⟩ := exists_stream_of_placed hplaced
  have hdecimal : ∀ x ∈ stream.lexemes, x.kind ≠ .literalDecimal := by
    rw [TokenStream.lexemes, hsame]
    decide
  have hread := hall _ (fun _ => []) _ stream hlex hdecimal 0 1 (Nat.zero_le 1)
    (by rw [← length_placed, hsame]; decide)
  rw [lexemes_range, TokenStream.feed, hsame] at hread
  exact absurd hread (by decide +kernel)

end Stream

end TinCompiler

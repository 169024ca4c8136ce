import TinCompiler.Lexer.Written

/-!
# Integers

A run of digits that begins where nothing else is pending, up to its flush.  If the next token
is an integer, it is what `atoi` makes of the run (`getToken_of_run`), whatever stands behind the
run, and that is the number of the digits if and only if it fits (`integer_exact_iff`).
-/

namespace TinCompiler

/-! ## `atoi` -/

/-- `atoi` stops behind the digits. -/
theorem atoi_append {digits junk : List Char} (hnonempty : digits ≠ [])
    (hdigits : ∀ chr ∈ digits, isDigit chr = true)
    (hjunk : ∀ chr ∈ junk.head?, isDigit chr = false) :
    atoi (digits ++ junk) =
      BitVec.ofInt 32 (min (digitsValue digits : ℤ) (2 ^ 63 - 1)) := by
  obtain ⟨chr, rest, rfl⟩ := List.exists_cons_of_ne_nil hnonempty
  have hchr := hdigits chr List.mem_cons_self
  have hdrop : (chr :: rest ++ junk).dropWhile isSpace = chr :: (rest ++ junk) := by
    rw [List.cons_append, List.dropWhile_cons, not_isSpace_of_isDigit hchr]
    rfl
  have hminus : chr ≠ '-' := by rintro rfl; cases hchr
  have hplus : chr ≠ '+' := by rintro rfl; cases hchr
  have hend : junk.takeWhile isDigit = [] := by
    cases junk with
    | nil => rfl
    | cons next junk => rw [List.takeWhile_cons, hjunk next rfl]; rfl
  have hleading : leadingValue (chr :: (rest ++ junk)) = digitsValue (chr :: rest) := by
    rw [leadingValue, ← List.cons_append, List.takeWhile_append_of_pos hdigits, hend,
      List.append_nil]
  unfold atoi
  rw [hdrop]
  split
  · next digits heq => exact absurd (List.cons.inj heq).1 hminus
  · next digits heq => exact absurd (List.cons.inj heq).1 hplus
  · rw [hleading]

/-- The number that is stored is the right one exactly if it fits into an `int`. -/
theorem toInt_atoi_iff {digits : List Char} (hnonempty : digits ≠ [])
    (hdigits : ∀ chr ∈ digits, isDigit chr = true) :
    (atoi digits).toInt = digitsValue digits ↔ digitsValue digits < 2 ^ 31 := by
  have hatoi := @atoi_append _ [] hnonempty hdigits (by simp)
  rw [List.append_nil] at hatoi
  rw [hatoi]
  constructor
  · intro heq
    have hlt := @BitVec.toInt_lt 32 (BitVec.ofInt 32 (min (digitsValue digits : ℤ) (2 ^ 63 - 1)))
    omega
  · intro hlt
    have hmin : min (digitsValue digits : ℤ) (2 ^ 63 - 1) = digitsValue digits := by omega
    rw [hmin, BitVec.toInt_ofInt, Int.bmod_eq_of_le (by omega) (by omega)]

/-- Part of a text that is cut behind its digits. -/
theorem atoi_of_cut {digits post part rest : List Char} (hnonempty : digits ≠ [])
    (hdigits : ∀ chr ∈ digits, isDigit chr = true)
    (hpost : ∀ chr ∈ post.head?, isDigit chr = false)
    (hcut : part ++ rest = digits ++ post) (hrest : ∀ chr ∈ rest.head?, isDigit chr = false) :
    atoi part = atoi digits := by
  have hself := @atoi_append _ [] hnonempty hdigits (by simp)
  rw [List.append_nil] at hself
  rcases List.append_eq_append_iff.mp hcut with ⟨more, rfl, hmore⟩ | ⟨junk, rfl, rfl⟩
  · -- a digit would be left over
    cases more with
    | nil => rw [List.append_nil]
    | cons chr more =>
        rw [hmore] at hrest
        have hdigit := hdigits chr (List.mem_append_right _ List.mem_cons_self)
        rw [hrest chr rfl] at hdigit
        cases hdigit
  · rw [hself]
    refine atoi_append hnonempty hdigits fun chr hmem => ?_
    cases junk with
    | nil => cases hmem
    | cons next junk => exact hpost chr hmem

namespace Scan

/-! ## Waiting for the flush -/

variable {atof : String → BitVec 32} {chr next : Char} {ending : Bool} {sc sc' : Scan}
  {lexemes : List Lexeme} {text rest : List Char}

/-- An integer is pending. -/
structure Numeral (sc : Scan) : Prop where
  isId : sc.isId = false
  isNum : sc.isNum = true
  isDecimal : sc.isDecimal = false
  isStr : sc.isStr = false
  isChar : sc.isChar = false

/-- There is no new lexeme yet, and an integer at the beginning of `text` is pending or the next
lexeme will be something else. -/
def Waits (lexemes : List Lexeme) (text rest : List Char) (sc : Scan) : Prop :=
  sc.lexemes = lexemes ∧
    (sc.Numeral ∧ sc.span ++ rest = text ∨ sc.isStr = true ∨ sc.isChar = true ∨ sc.isDecimal = true)

/-- If the next lexeme is an integer, it is `value`. -/
def Flushes (lexemes : List Lexeme) (value : BitVec 32) (sc : Scan) : Prop :=
  ∃ x more, sc.lexemes = lexemes ++ x :: more ∧
    (x.kind = .literalInteger → x = ⟨.literalInteger, .num value⟩)

theorem Waits.leave (h : sc.Waits lexemes text rest) : sc.leave.Waits lexemes text rest := by
  unfold Scan.leave
  split
  · exact h
  · next hpending =>
      refine ⟨h.1, h.2.imp_left fun hnumeral => ?_⟩
      exact absurd (by simp [pending, hnumeral.1.isNum]) hpending

theorem Flushes.leave {value : BitVec 32} (h : sc.Flushes lexemes value) :
    sc.leave.Flushes lexemes value := by
  unfold Flushes
  rw [lexemes_leave]
  exact h

/-- What is flushed when an integer is pending. -/
theorem Numeral.flushDecimal (h : sc.Numeral) : (sc.flushDecimal atof chr ending).Flushes
    sc.lexemes (atoi (sc.slice ending)) := by
  unfold Scan.flushDecimal
  rw [if_neg (by simp [h.isDecimal])]
  unfold flushNum
  rw [if_pos h.isNum]
  dsimp only
  split
  · exact ⟨_, [], rfl, fun _ => rfl⟩
  · unfold flushId
    rw [if_neg (by simp [add, h.isId])]
    unfold lexSymbol
    split
    · exact ⟨_, [], rfl, fun _ => rfl⟩
    · exact ⟨_, [⟨.ascii chr, .none⟩], by simp [add], fun _ => rfl⟩

/-- What is flushed when a decimal is pending. -/
theorem flushDecimal_flushes (hdecimal : sc.isDecimal = true) (value : BitVec 32) :
    (sc.flushDecimal atof chr ending).Flushes sc.lexemes value := by
  have hother : ∀ more : List Lexeme, ∃ x more', sc.lexemes ++
      ⟨.literalDecimal, .dec (atof (String.ofList (sc.slice ending)))⟩ :: more =
        sc.lexemes ++ x :: more' ∧
      (x.kind = .literalInteger → x = ⟨.literalInteger, .num value⟩) :=
    fun more => ⟨_, more, rfl, fun h => by cases h⟩
  have hprefix : ∃ more, (sc.flushDecimal atof chr ending).lexemes = sc.lexemes ++
      ⟨.literalDecimal, .dec (atof (String.ofList (sc.slice ending)))⟩ :: more := by
    unfold Scan.flushDecimal flushNum flushId lexSymbol
    rw [if_pos hdecimal]
    dsimp only
    split_ifs <;> exact ⟨_, by simp [add]; rfl⟩
  obtain ⟨more, hmore⟩ := hprefix
  unfold Flushes
  rw [hmore]
  exact hother more

/-- The run that is pending, or would be after this character. -/
structure Begun (digits post rest : List Char) (chr : Char) (ending : Bool) (sc : Scan) : Prop where
  numeral : sc.Numeral
  span : sc.span ++ rest = digits ++ post
  before : sc.span.dropLast ++ chr :: rest = digits ++ post
  ending : ending = rest.isEmpty

section Run

variable {digits post : List Char} (hnonempty : digits ≠ [])
  (hdigits : ∀ chr ∈ digits, isDigit chr = true) (hpost : ∀ chr ∈ post.head?, isDigit chr = false)

include hnonempty hdigits hpost

theorem Begun.flushDecimal (h : sc.Begun digits post rest chr ending)
    (hchr : ending = false → isDigit chr = false) :
    (sc.flushDecimal atof chr ending).Flushes sc.lexemes (atoi digits) := by
  have hslice : atoi (sc.slice ending) = atoi digits := by
    unfold slice
    split
    · next hending =>
        have hnil : rest = [] := List.isEmpty_iff.mp (h.ending.symm.trans hending)
        exact atoi_of_cut hnonempty hdigits hpost h.span (by simp [hnil])
    · next hending =>
        refine atoi_of_cut hnonempty hdigits hpost h.before fun chr' hmem => ?_
        cases hmem
        exact hchr (by simpa using hending)
  rw [← hslice]
  exact h.numeral.flushDecimal

/-- Behind the cases for letters and digits. -/
theorem Begun.lexDot (h : sc.Begun digits post rest chr ending)
    (hchr : ending = false → isDigit chr = false)
    (hdot : sc.lexDot atof chr next ending = some sc') :
    sc'.Waits sc.lexemes (digits ++ post) rest ∨ sc'.Flushes sc.lexemes (atoi digits) := by
  unfold Scan.lexDot at hdot
  split at hdot
  · rw [if_neg (by simp [h.numeral.isDecimal]), if_pos h.numeral.isNum] at hdot
    cases hdot
    split
    · exact .inr (flushDecimal_flushes rfl _)
    · exact .inl ⟨rfl, .inr (.inr (.inr rfl))⟩
  · cases hdot
    exact .inr (h.flushDecimal hnonempty hdigits hpost hchr)

theorem Begun.lexDigit (h : sc.Begun digits post rest chr ending)
    (hdigit : sc.lexDigit atof chr next ending = some sc') :
    sc'.Waits sc.lexemes (digits ++ post) rest ∨ sc'.Flushes sc.lexemes (atoi digits) := by
  unfold Scan.lexDigit at hdigit
  split at hdigit
  · have hbegun : ¬ (!sc.isId && !sc.isNum && !sc.isDecimal) = true := by simp [h.numeral.isNum]
    dsimp only at hdigit
    rw [if_neg hbegun] at hdigit
    split at hdigit
    · next hending => exact h.lexDot hnonempty hdigits hpost (by simp [hending]) hdigit
    · cases hdigit
      exact .inl ⟨rfl, .inl ⟨h.numeral, h.span⟩⟩
  · next hchr => exact h.lexDot hnonempty hdigits hpost (fun _ => by simpa using hchr) hdigit

end Run

/-- A pending decimal stays one until its flush. -/
theorem lexLetter_decimal (hdecimal : sc.isDecimal = true) (value : BitVec 32)
    (hletter : sc.lexLetter atof chr next ending = some sc') :
    sc'.Waits sc.lexemes text rest ∨ sc'.Flushes sc.lexemes value := by
  have hdot : sc.lexDot atof chr next ending = some sc' → sc'.Flushes sc.lexemes value := by
    intro hdot
    unfold Scan.lexDot at hdot
    by_cases hchr : chr = '.' ∧ (sc.isNum ∨ isDigit next)
    · rw [if_pos hchr, if_pos hdecimal] at hdot
      cases hdot
    · rw [if_neg hchr] at hdot
      cases hdot
      exact flushDecimal_flushes hdecimal value
  unfold lexLetter at hletter
  split at hletter
  · have hflag : ((if sc.isId then sc else { sc.start chr with isId := true }) : Scan).isDecimal =
        true := by
      split <;> exact hdecimal
    rw [if_pos (by simp [hflag])] at hletter
    cases hletter
  · unfold lexDigit at hletter
    split at hletter
    · have hbegun : ¬ (!sc.isId && !sc.isNum && !sc.isDecimal) = true := by simp [hdecimal]
      dsimp only at hletter
      rw [if_neg hbegun] at hletter
      split at hletter
      · exact .inr (hdot hletter)
      · cases hletter
        exact .inl ⟨rfl, .inr (.inr (.inr hdecimal))⟩
    · exact .inr (hdot hletter)

/-! ## One character -/

section Run

variable {digits post : List Char} (hnonempty : digits ≠ [])
  (hdigits : ∀ chr ∈ digits, isDigit chr = true) (hpost : ∀ chr ∈ post.head?, isDigit chr = false)

include hnonempty hdigits hpost

theorem Waits.lexRound (h : sc.Waits lexemes (digits ++ post) rest)
    (hbefore : sc.Numeral → sc.span.dropLast ++ chr :: rest = digits ++ post)
    (hround : sc.lexRound atof chr next rest.isEmpty = some sc') :
    sc'.Waits lexemes (digits ++ post) rest ∨ sc'.Flushes lexemes (atoi digits) := by
  obtain ⟨rfl, h⟩ := h
  have hkept : ∀ sc'' : Scan, sc''.lexemes = sc.lexemes → sc''.isId = sc.isId →
      sc''.isNum = sc.isNum → sc''.isDecimal = sc.isDecimal → sc''.isStr = sc.isStr →
      sc''.isChar = sc.isChar → sc''.span = sc.span →
      sc''.Waits sc.lexemes (digits ++ post) rest := by
    intro sc'' hlexemes hid hnum hdecimal hstr hchar hspan
    refine ⟨hlexemes, ?_⟩
    rw [hdecimal, hstr, hchar, hspan]
    exact h.imp_left fun hpending => ⟨⟨hid.trans hpending.1.isId, hnum.trans hpending.1.isNum,
      hdecimal.trans hpending.1.isDecimal, hstr.trans hpending.1.isStr,
      hchar.trans hpending.1.isChar⟩, hpending.2⟩
  unfold Scan.lexRound at hround
  split at hround
  · cases hround
    split <;> exact .inl (hkept _ rfl rfl rfl rfl rfl rfl rfl)
  split at hround
  · cases hround
    split <;> exact .inl (hkept _ rfl rfl rfl rfl rfl rfl rfl)
  split at hround
  · cases hround
    exact .inl (hkept _ rfl rfl rfl rfl rfl rfl rfl)
  split at hround
  · cases hround
    exact .inl (hkept _ rfl rfl rfl rfl rfl rfl rfl)
  split at hround
  · cases hround
    unfold lexQuote
    split
    · exact .inr ⟨_, [], rfl, fun hkind => by cases hkind⟩
    · exact .inl ⟨rfl, .inr (.inl rfl)⟩
  split at hround
  · cases hround
    unfold lexApostrophe
    split
    · exact .inr ⟨_, [], rfl, fun hkind => by cases hkind⟩
    · exact .inl ⟨rfl, .inr (.inr (.inl rfl))⟩
  split at hround
  · cases hround
    unfold lexContent
    split
    · exact .inl (hkept _ rfl rfl rfl rfl rfl rfl rfl)
    · split <;> exact .inl (hkept _ rfl rfl rfl rfl rfl rfl rfl)
  · next hliteral =>
      rcases h with ⟨hnumeral, hspan⟩ | hstr | hchar | hdecimal
      · -- a letter is an error
        unfold lexLetter at hround
        split at hround
        · have hflag : ((if sc.isId then sc else { sc.start chr with isId := true }) : Scan).isNum =
              true := by
            split <;> exact hnumeral.isNum
          rw [if_pos (by simp [hflag])] at hround
          cases hround
        · exact Begun.lexDigit hnonempty hdigits hpost
            ⟨hnumeral, hspan, hbefore hnumeral, rfl⟩ hround
      · exact absurd (.inl hstr) hliteral
      · exact absurd (.inr hchar) hliteral
      · exact lexLetter_decimal hdecimal _ hround

theorem Waits.step (h : sc.Waits lexemes (digits ++ post) (chr :: rest))
    (hstep : sc.step atof chr rest = some sc') :
    sc'.Waits lexemes (digits ++ post) rest ∨ sc'.Flushes lexemes (atoi digits) := by
  have henter : ∀ sc : Scan, sc.Waits lexemes (digits ++ post) (chr :: rest) →
      (sc.enter chr).Waits lexemes (digits ++ post) rest := by
    intro sc h
    refine ⟨h.1, h.2.imp_left fun hpending => ⟨{ hpending.1 with }, ?_⟩⟩
    rw [← hpending.2]
    exact List.append_assoc _ _ _
  unfold Scan.step at hstep
  split at hstep
  · cases hstep
    exact .inl (henter { sc with skip := false } ⟨h.1, h.2.imp_left fun hpending =>
      ⟨{ hpending.1 with }, hpending.2⟩⟩).leave
  · obtain ⟨sc₁, hround, rfl⟩ := Option.map_eq_some_iff.mp hstep
    refine ((henter sc h).lexRound hnonempty hdigits hpost (fun hnumeral => ?_) hround).imp
      Waits.leave Flushes.leave
    have hspan : (sc.enter chr).span.dropLast = sc.span := List.dropLast_concat
    rw [hspan]
    rcases h.2 with hpending | hstr | hchar | hdecimal
    · exact hpending.2
    · exact absurd (hstr.symm.trans hnumeral.isStr) (by decide)
    · exact absurd (hchar.symm.trans hnumeral.isChar) (by decide)
    · exact absurd (hdecimal.symm.trans hnumeral.isDecimal) (by decide)

omit hnonempty hdigits hpost in
/-- The lexemes that are there stay. -/
theorem Flushes.feed {value : BitVec 32} (h : sc.Flushes lexemes value)
    (hfeed : sc.feed atof [] rest = some sc') : sc'.Flushes lexemes value := by
  obtain ⟨x, more, hlexemes, hvalue⟩ := h
  have hprepend : sc = prepend sc.lexemes { sc with lexemes := [] } := by simp [prepend]
  rw [hprepend, feed_prepend] at hfeed
  obtain ⟨sc₂, -, rfl⟩ := Option.map_eq_some_iff.mp hfeed
  refine ⟨x, more ++ sc₂.lexemes, ?_, hvalue⟩
  unfold prepend
  simp [hlexemes]

/-- The rest of the file. -/
theorem Waits.feed (h : sc.Waits lexemes (digits ++ post) rest)
    (hfeed : sc.feed atof [] rest = some sc') :
    sc'.lexemes = lexemes ∨ sc'.Flushes lexemes (atoi digits) := by
  induction rest generalizing sc with
  | nil =>
      cases hfeed
      exact .inl h.1
  | cons chr rest ih =>
      unfold Scan.feed at hfeed
      rw [List.append_nil] at hfeed
      obtain ⟨sc₁, hstep, hrest⟩ := Option.bind_eq_some_iff.mp hfeed
      rcases h.step hnonempty hdigits hpost hstep with hwaits | hflushes
      · exact ih hwaits hrest
      · exact .inr (hflushes.feed hrest)

/-- The first digit of the run. -/
theorem step_first_digit (hout : sc.Outside) (hskip : sc.skip = false) (hpending : sc.pending = false)
    (htext : chr :: rest = digits ++ post) (hstep : sc.step atof chr rest = some sc') :
    sc'.Waits sc.lexemes (digits ++ post) rest ∨ sc'.Flushes sc.lexemes (atoi digits) := by
  have hdigit : isDigit chr = true := by
    obtain ⟨first, others, rfl⟩ := List.exists_cons_of_ne_nil hnonempty
    rw [(List.cons.inj htext).1]
    exact hdigits first List.mem_cons_self
  simp only [pending, Bool.or_eq_false_iff] at hpending
  obtain ⟨⟨hid, hnum⟩, hdecimal⟩ := hpending
  obtain ⟨hquote, hapostrophe, hslash, -⟩ := ne_of_word (.inr hdigit)
  have hbegun : ((sc.enter chr).start chr |> fun sc => ({ sc with isNum := true } : Scan)).Begun
      digits post rest chr rest.isEmpty :=
    ⟨⟨hid, rfl, hdecimal, hout.isStr, hout.isChar⟩, htext, htext, rfl⟩
  have hround : (sc.enter chr).lexRound atof chr (rest.headD (Char.ofNat 0)) rest.isEmpty =
      ({ (sc.enter chr).start chr with isNum := true } : Scan).lexDigit atof chr
        (rest.headD (Char.ofNat 0)) rest.isEmpty := by
    have hout' : (sc.enter chr).Outside := { hout with }
    have hnone : (!(sc.enter chr).isId && !(sc.enter chr).isNum && !(sc.enter chr).isDecimal) =
        true := by
      simp [enter, hid, hnum, hdecimal]
    rw [lexRound_letter hout' hquote hapostrophe fun h => hslash h.1, lexLetter,
      if_neg (by simp [not_isLetter_of_isDigit hdigit]), lexDigit, if_pos hdigit, lexDigit,
      if_pos hdigit]
    have hnotNone : ¬ (!((sc.enter chr).start chr).isId && !true &&
        !((sc.enter chr).start chr).isDecimal) = true := by simp
    dsimp only
    rw [if_pos hnone, if_neg hnotNone]
  unfold Scan.step at hstep
  rw [if_neg (by simp [hskip]), hround] at hstep
  obtain ⟨sc₁, hdigits', rfl⟩ := Option.map_eq_some_iff.mp hstep
  exact (hbegun.lexDigit hnonempty hdigits hpost hdigits').imp Waits.leave Flushes.leave

/-- All of the run and what stands behind it. -/
theorem feed_run (hout : sc.Outside) (hskip : sc.skip = false) (hpending : sc.pending = false)
    (hfeed : sc.feed atof [] (digits ++ post) = some sc') :
    sc'.lexemes = sc.lexemes ∨ sc'.Flushes sc.lexemes (atoi digits) := by
  obtain ⟨chr, rest, htext⟩ := List.exists_cons_of_ne_nil
    (List.append_ne_nil_of_left_ne_nil hnonempty post)
  rw [htext, Scan.feed, List.append_nil] at hfeed
  obtain ⟨sc₁, hstep, hrest⟩ := Option.bind_eq_some_iff.mp hfeed
  rcases step_first_digit hnonempty hdigits hpost hout hskip hpending htext.symm hstep with
    hwaits | hflushes
  · exact hwaits.feed hnonempty hdigits hpost hrest
  · exact .inr (hflushes.feed hrest)

end Run

end Scan

/-! ## Runs of digits -/

/-- `digits` is all of a run of digits between `pre` and `post`, and a token may begin there; the
scan in front of it is `sc`. -/
structure DigitRun (atof : String → BitVec 32) (pre digits post : List Char) (sc : Scan) : Prop where
  before : Scan.feed atof (digits ++ post) pre {} = some sc
  outside : sc.Outside
  skip : sc.skip = false
  pending : sc.pending = false
  nonempty : digits ≠ []
  allDigits : ∀ chr ∈ digits, isDigit chr = true
  ends : ∀ chr ∈ post.head?, isDigit chr = false

variable {atof : String → BitVec 32} {pre digits post : List Char} {sc : Scan}
  {stream : TokenStream} {number : BitVec 32}

/-- The number of a run that becomes the next token. -/
theorem getToken_of_run (hrun : DigitRun atof pre digits post sc)
    (hlex : lexFile atof (pre ++ (digits ++ post)) = .ok stream)
    (htoken : stream.getToken sc.lexemes.length = ⟨.literalInteger, .num number⟩) :
    number = atoi digits := by
  obtain ⟨hbefore, hout, hskip, hpending, hnonempty, hdigits, hpost⟩ := hrun
  have hlexemes := lexFile_lexemes atof (pre ++ (digits ++ post))
  unfold lexemesOf at hlexemes
  rw [hlex] at hlexemes
  obtain ⟨sc', hfeed, hsame⟩ := Option.map_eq_some_iff.mp hlexemes.symm
  rw [Scan.feed_append, List.append_nil, hbefore, Option.bind_some] at hfeed
  rw [stream.getToken_eq, ← hsame] at htoken
  rcases Scan.feed_run hnonempty hdigits hpost hout hskip hpending hfeed with
    hnothing | ⟨x, more, hmore, hvalue⟩
  · rw [hnothing, List.getD_eq_default _ _ (Nat.le_refl _)] at htoken
    cases htoken
  · rw [hmore, List.getD_append_right _ _ _ _ (Nat.le_refl _), Nat.sub_self] at htoken
    have hx : x = ⟨.literalInteger, .num number⟩ := htoken
    have hsame' := hvalue (by rw [hx])
    rw [hx] at hsame'
    cases hsame'
    rfl

/-- An integer in the source is stored as it is, exactly if it fits into an `int`. -/
theorem integer_exact_iff (hrun : DigitRun atof pre digits post sc)
    (hlex : lexFile atof (pre ++ (digits ++ post)) = .ok stream)
    (htoken : stream.getToken sc.lexemes.length = ⟨.literalInteger, .num number⟩) :
    number.toInt = digitsValue digits ↔ digitsValue digits < 2 ^ 31 := by
  rw [getToken_of_run hrun hlex htoken]
  exact toInt_atoi_iff hrun.nonempty hrun.allDigits

theorem exists_stream_of_lexemesOf {text : List Char} {lexemes : List Lexeme}
    (h : lexemesOf atof text = some lexemes) :
    ∃ stream, lexFile atof text = .ok stream ∧ stream.lexemes = lexemes := by
  unfold lexemesOf at h
  cases hlex : lexFile atof text with
  | error e => rw [hlex] at h; cases h
  | ok stream => rw [hlex] at h; exact ⟨stream, rfl, Option.some.inj h⟩

/-- `-42;` -/
theorem integer_exact_iff_minus : (42 : BitVec 32).toInt = digitsValue ['4', '2'] ↔
    digitsValue ['4', '2'] < 2 ^ 31 := by
  have hrun : DigitRun (fun _ => 0) ['-'] ['4', '2'] [';', ' '] (Scan.clean [⟨.ascii '-', .none⟩]) :=
    ⟨rfl, Scan.outside_clean, rfl, rfl, by simp, by simp [isDigit], by simp [isDigit]⟩
  have hlexemes : lexemesOf (fun _ => 0) "-42; ".toList =
      some [⟨.ascii '-', .none⟩, ⟨.literalInteger, .num 42⟩, ⟨.ascii ';', .none⟩] := by
    rw [lexFile_lexemes]
    decide +kernel
  obtain ⟨stream, hlex, hsame⟩ := exists_stream_of_lexemesOf hlexemes
  exact integer_exact_iff hrun hlex (by rw [stream.getToken_eq, hsame]; rfl)

/-- 2147483648 is stored as the least `int`. -/
theorem not_integer_exact :
    ¬ ∀ (atof : String → BitVec 32) (pre digits post : List Char) (sc : Scan) (stream : TokenStream)
      (number : BitVec 32), DigitRun atof pre digits post sc →
      lexFile atof (pre ++ (digits ++ post)) = .ok stream →
      stream.getToken sc.lexemes.length = ⟨.literalInteger, .num number⟩ →
      number.toInt = digitsValue digits := by
  intro hall
  have hrun : DigitRun (fun _ => 0) [] "2147483648".toList [] {} :=
    ⟨rfl, ⟨rfl, rfl, rfl, rfl⟩, rfl, rfl, by simp, by simp [isDigit], by simp⟩
  have hlexemes : lexemesOf (fun _ => 0) "2147483648".toList =
      some [⟨.literalInteger, .num 0x80000000⟩] := by
    rw [lexFile_lexemes]
    decide +kernel
  obtain ⟨stream, hlex, hsame⟩ := exists_stream_of_lexemesOf hlexemes
  have htoken : stream.getToken 0 = ⟨.literalInteger, .num 0x80000000⟩ := by
    rw [stream.getToken_eq, hsame]
    rfl
  exact absurd (hall _ _ _ _ _ _ _ hrun hlex htoken) (by decide)

end TinCompiler

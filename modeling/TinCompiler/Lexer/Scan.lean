import TinCompiler.Lexer.Lex

/-!
# The lexer without positions

`Scan` is what the rest of the file still depends on when lines, columns and indices are
forgotten: the flags, the text from `data_start` on while a token is pending, the content of
a literal and the lexemes.  It reads one character after the other, so the text can be cut
anywhere (`feed_append`).  `lexFile_lexemes` connects it to `lex_file`.
-/

namespace TinCompiler

structure Scan where
  lexemes : List Lexeme := []
  isId : Bool := false
  isNum : Bool := false
  isDecimal : Bool := false
  isStr : Bool := false
  isChar : Bool := false
  isComment : Bool := false
  isMulticomment : Bool := false
  /-- the text from `data_start` on; empty when no token is pending -/
  span : List Char := []
  content : List Char := []
  /-- the next character has been consumed already -/
  skip : Bool := false

namespace Scan

/-- An identifier or a number has been begun. -/
def pending (sc : Scan) : Bool := sc.isId || sc.isNum || sc.isDecimal

/-- Outside of strings, character literals and comments. -/
structure Outside (sc : Scan) : Prop where
  isStr : sc.isStr = false
  isChar : sc.isChar = false
  isComment : sc.isComment = false
  isMulticomment : sc.isMulticomment = false

variable (atof : String → BitVec 32) (chr next : Char) (ending : Bool) (sc : Scan)

/-- The text that is flushed; the character of the round belongs to it only at the end. -/
def slice : List Char := if ending then sc.span else sc.span.dropLast

def add (kind : TokenKind) (payload : Payload := .none) : Scan :=
  { sc with lexemes := sc.lexemes ++ [⟨kind, payload⟩] }

def lexSymbol : Scan := if isDelim chr then sc else sc.add (.ascii chr)

def flushId : Scan :=
  if sc.isId then
    let sc := { sc with
      lexemes := sc.lexemes ++ [Lexeme.word (String.ofList (sc.slice ending))]
      isId := false }
    if ending then sc else sc.lexSymbol chr
  else sc.lexSymbol chr

def flushNum : Scan :=
  if sc.isNum then
    let sc := { sc.add .literalInteger (.num (atoi (sc.slice ending))) with isNum := false }
    if ending then sc else sc.flushId chr ending
  else sc.flushId chr ending

def flushDecimal : Scan :=
  if sc.isDecimal then
    let sc := { sc.add .literalDecimal (.dec (atof (String.ofList (sc.slice ending)))) with
      isDecimal := false }
    if ending then sc else sc.flushNum chr ending
  else sc.flushNum chr ending

def start : Scan := { sc with span := [chr] }

def lexDot : Option Scan :=
  if chr = '.' ∧ (sc.isNum ∨ isDigit next) then
    if sc.isDecimal then none
    else
      let sc := if sc.isNum then sc else sc.start chr
      let sc := { sc with isDecimal := true, isNum := false }
      some (if ending then sc.flushDecimal atof chr ending else sc)
  else some (sc.flushDecimal atof chr ending)

def lexDigit : Option Scan :=
  if isDigit chr then
    let sc := if !sc.isId && !sc.isNum && !sc.isDecimal then { sc.start chr with isNum := true }
      else sc
    if ending then sc.lexDot atof chr next ending else some sc
  else sc.lexDot atof chr next ending

def lexLetter : Option Scan :=
  if isLetter chr then
    let sc := if sc.isId then sc else { sc.start chr with isId := true }
    if sc.isNum || sc.isDecimal then none
    else if ending then sc.lexDigit atof chr next ending
    else some sc
  else sc.lexDigit atof chr next ending

def lexContent : Scan :=
  if chr = backslash ∧ next = backslash then
    { sc with skip := true, content := sc.content ++ [backslash] }
  else if chr = backslash ∧ next = 'n' then
    { sc with skip := true, content := sc.content ++ ['\n'] }
  else { sc with content := sc.content ++ [chr] }

def lexQuote : Scan :=
  if sc.isStr then
    { sc.add .literalString (.str (String.ofList sc.content)) with content := [], isStr := false }
  else { sc with isStr := true, span := [] }

def lexApostrophe : Scan :=
  if sc.isChar then
    { sc.add .literalChar (.str (String.singleton (sc.content.headD (Char.ofNat 0)))) with
      content := []
      isChar := false }
  else { sc with isChar := true, span := [] }

def lexRound : Option Scan :=
  if sc.isComment then some (if chr = '\n' then { sc with isComment := false } else sc)
  else if sc.isMulticomment then
    some (if chr = '*' ∧ next = '/' then { sc with skip := true, isMulticomment := false } else sc)
  else if chr = '/' ∧ next = '/' then some { sc with skip := true, isComment := true }
  else if chr = '/' ∧ next = '*' then some { sc with skip := true, isMulticomment := true }
  else if chr = doubleQuote then some sc.lexQuote
  else if chr = apostrophe then some sc.lexApostrophe
  else if sc.isStr ∨ sc.isChar then some (sc.lexContent chr next)
  else sc.lexLetter atof chr next ending

def enter : Scan := { sc with span := sc.span ++ [chr] }

/-- Only the text of a pending token is kept. -/
def leave : Scan := if sc.pending then sc else { sc with span := [] }

/-- One character, with `after` behind it. -/
def step (after : List Char) : Option Scan :=
  if sc.skip then some ({ sc with skip := false }.enter chr).leave
  else ((sc.enter chr).lexRound atof chr (after.headD (Char.ofNat 0)) after.isEmpty).map leave

/-- The characters of a text, with `after` behind it. -/
def feed (after : List Char) : List Char → Scan → Option Scan
  | [], sc => some sc
  | chr :: rest, sc => (sc.step atof chr (rest ++ after)).bind (feed after rest)

theorem feed_append (u v after : List Char) (sc : Scan) :
    sc.feed atof after (u ++ v) = (sc.feed atof (v ++ after) u).bind (feed atof after v) := by
  induction u generalizing sc with
  | nil => rfl
  | cons chr u ih =>
      have hstep : sc.feed atof after (chr :: u ++ v) =
          (sc.step atof chr (u ++ v ++ after)).bind (feed atof after (u ++ v)) := rfl
      have hsplit : sc.feed atof (v ++ after) (chr :: u) =
          (sc.step atof chr (u ++ (v ++ after))).bind (feed atof (v ++ after) u) := rfl
      rw [hstep, hsplit, List.append_assoc, Option.bind_assoc]
      exact congrArg _ (funext fun sc => ih sc)

variable {atof} in
theorem feed_append_of {u v after : List Char} {sc sc₁ sc₂ : Scan}
    (hu : sc.feed atof (v ++ after) u = some sc₁) (hv : sc₁.feed atof after v = some sc₂) :
    sc.feed atof after (u ++ v) = some sc₂ := by
  rw [feed_append, hu]
  exact hv

end Scan

/-! ## What a state of the loop is seen as -/

/-- All but the positions and the text of a pending token. -/
structure LexState.Agrees (s : LexState) (sc : Scan) : Prop where
  lexemes : sc.lexemes = s.stream.lexemes
  isId : sc.isId = s.isId
  isNum : sc.isNum = s.isNum
  isDecimal : sc.isDecimal = s.isDecimal
  isStr : sc.isStr = s.isStr
  isChar : sc.isChar = s.isChar
  isComment : sc.isComment = s.isComment
  isMulticomment : sc.isMulticomment = s.isMulticomment
  content : sc.content = s.stringContent

/-- Between two rounds, with `pos` characters read by the scan. -/
structure LexState.Views (text : List Char) (pos : ℕ) (s : LexState) (sc : Scan) : Prop where
  agrees : s.Agrees sc
  index : s.index = pos + if sc.skip then 1 else 0
  span : sc.pending = true → s.dataStart ≤ pos ∧
    sc.span = (text.drop s.dataStart).take (pos - s.dataStart)

/-- In a round, before something is skipped; the last character read is `chr`. -/
structure LexState.Inner (text : List Char) (pos : ℕ) (chr : Char) (s : LexState) (sc : Scan) :
    Prop where
  agrees : s.Agrees sc
  skip : sc.skip = false
  index : s.index = pos + 1
  last : text[pos]? = some chr
  span : sc.pending = true → s.dataStart ≤ pos ∧
    sc.span = (text.drop s.dataStart).take (pos + 1 - s.dataStart)

namespace LexState

variable {atof : String → BitVec 32} {text : List Char} {pos : ℕ} {r : Round} {s : LexState}
  {sc : Scan}

theorem Agrees.of_stream {stream : TokenStream} {lexemes : List Lexeme} (h : s.Agrees sc)
    (hlexemes : lexemes = stream.lexemes) :
    ({ s with stream := stream } : LexState).Agrees { sc with lexemes := lexemes } :=
  { h with lexemes := hlexemes }

theorem pending_of_isId (h : s.Agrees sc) (hid : s.isId = true) : sc.pending = true := by
  simp [Scan.pending, h.isId, hid]

theorem pending_of_isNum (h : s.Agrees sc) (hnum : s.isNum = true) : sc.pending = true := by
  simp [Scan.pending, h.isNum, hnum]

theorem pending_of_isDecimal (h : s.Agrees sc) (hdecimal : s.isDecimal = true) :
    sc.pending = true := by
  simp [Scan.pending, h.isDecimal, hdecimal]

theorem Inner.slice (h : s.Inner text pos r.chr sc) (hpending : sc.pending = true) :
    s.slice text r = sc.slice r.ending := by
  obtain ⟨hle, hspan⟩ := h.span hpending
  have hlt : pos < text.length := (List.getElem?_eq_some_iff.mp h.last).1
  unfold LexState.slice Scan.slice
  dsimp only
  rw [h.index, hspan]
  split
  · congr 1
    omega
  · rw [List.dropLast_eq_take, List.length_take, List.take_take, List.length_drop]
    congr 1
    omega

theorem Inner.lexSymbol (h : s.Inner text pos r.chr sc) :
    (s.lexSymbol r).Inner text pos r.chr (sc.lexSymbol r.chr) := by
  unfold LexState.lexSymbol Scan.lexSymbol
  split
  · exact { h with agrees := { h.agrees with lexemes := by simp [h.agrees.lexemes, TokenStream.lexemes] } }
  · exact { h with agrees := { h.agrees with
      lexemes := by simp [Scan.add, h.agrees.lexemes, TokenStream.lexemes] } }

theorem Inner.flushId (h : s.Inner text pos r.chr sc) :
    (s.flushId text r).Inner text pos r.chr (sc.flushId r.chr r.ending) := by
  unfold LexState.flushId Scan.flushId
  rw [h.agrees.isId]
  split
  · next hid =>
      have hslice := h.slice (pending_of_isId h.agrees hid)
      have hflushed : Inner text pos r.chr
          { s with
            stream := s.stream.addWord s.startLn s.startCol (String.ofList (s.slice text r))
            isId := false }
          { sc with
            lexemes := sc.lexemes ++ [Lexeme.word (String.ofList (sc.slice r.ending))]
            isId := false } :=
        { h with
          agrees := { h.agrees with
            lexemes := by simp [h.agrees.lexemes, hslice, TokenStream.lexemes]
            isId := rfl }
          span := fun _ => h.span (pending_of_isId h.agrees hid) }
      dsimp only
      split
      · exact hflushed
      · exact hflushed.lexSymbol
  · exact h.lexSymbol

theorem Inner.flushNum (h : s.Inner text pos r.chr sc) :
    (s.flushNum text r).Inner text pos r.chr (sc.flushNum r.chr r.ending) := by
  unfold LexState.flushNum Scan.flushNum
  rw [h.agrees.isNum]
  split
  · next hnum =>
      have hslice := h.slice (pending_of_isNum h.agrees hnum)
      have hflushed : Inner text pos r.chr
          { s with
            stream := s.stream.addInt s.startLn s.startCol (atoi (s.slice text r))
            isNum := false }
          { sc.add .literalInteger (.num (atoi (sc.slice r.ending))) with isNum := false } :=
        { h with
          agrees := { h.agrees with
            lexemes := by simp [Scan.add, h.agrees.lexemes, hslice, TokenStream.lexemes]
            isNum := rfl }
          span := fun _ => h.span (pending_of_isNum h.agrees hnum) }
      dsimp only
      split
      · exact hflushed
      · exact hflushed.flushId
  · exact h.flushId

theorem Inner.flushDecimal (h : s.Inner text pos r.chr sc) :
    (s.flushDecimal atof text r).Inner text pos r.chr (sc.flushDecimal atof r.chr r.ending) := by
  unfold LexState.flushDecimal Scan.flushDecimal
  rw [h.agrees.isDecimal]
  split
  · next hdecimal =>
      have hslice := h.slice (pending_of_isDecimal h.agrees hdecimal)
      have hflushed : Inner text pos r.chr
          { s with
            stream := s.stream.addFloat s.startLn s.startCol
              (atof (String.ofList (s.slice text r)))
            isDecimal := false }
          { sc.add .literalDecimal (.dec (atof (String.ofList (sc.slice r.ending)))) with
            isDecimal := false } :=
        { h with
          agrees := { h.agrees with
            lexemes := by simp [Scan.add, h.agrees.lexemes, hslice, TokenStream.lexemes]
            isDecimal := rfl }
          span := fun _ => h.span (pending_of_isDecimal h.agrees hdecimal) }
      dsimp only
      split
      · exact hflushed
      · exact hflushed.flushNum
  · exact h.flushNum

/-- Both fail, or both succeed in related states. -/
def Related (R : LexState → Scan → Prop) : Except LexError LexState → Option Scan → Prop
  | .ok s, some sc => R s sc
  | .error _, none => True
  | _, _ => False

theorem Inner.start (h : s.Inner text pos r.chr sc) : (s.start r).dataStart ≤ pos ∧
    (sc.start r.chr).span = (text.drop (s.start r).dataStart).take (pos + 1 - (s.start r).dataStart) := by
  have hstart : (s.start r).dataStart = pos := by simp [LexState.start, h.index]
  have hone : pos + 1 - pos = 1 := by omega
  obtain ⟨hlt, hlast⟩ := List.getElem?_eq_some_iff.mp h.last
  rw [hstart, hone, List.drop_eq_getElem_cons hlt, hlast]
  exact ⟨Nat.le_refl pos, rfl⟩

theorem Inner.lexDot (h : s.Inner text pos r.chr sc) :
    Related (Inner text pos r.chr) (s.lexDot atof text r)
      (sc.lexDot atof r.chr r.nextChr r.ending) := by
  unfold LexState.lexDot Scan.lexDot
  rw [h.agrees.isNum, h.agrees.isDecimal]
  split
  · split
    · trivial
    · have hdecimal : Inner text pos r.chr
          { (if s.isNum then s else s.start r) with isDecimal := true, isNum := false }
          { (if s.isNum then sc else sc.start r.chr) with isDecimal := true, isNum := false } := by
        split
        · next hnum =>
            exact { h with
              agrees := { h.agrees with isDecimal := rfl, isNum := rfl }
              span := fun _ => h.span (pending_of_isNum h.agrees hnum) }
        · exact { h with
            agrees := { h.agrees with isDecimal := rfl, isNum := rfl }
            span := fun _ => h.start }
      dsimp only
      split
      · exact hdecimal.flushDecimal
      · exact hdecimal
  · exact h.flushDecimal

theorem Inner.lexDigit (h : s.Inner text pos r.chr sc) :
    Related (Inner text pos r.chr) (s.lexDigit atof text r)
      (sc.lexDigit atof r.chr r.nextChr r.ending) := by
  unfold LexState.lexDigit Scan.lexDigit
  rw [h.agrees.isId, h.agrees.isNum, h.agrees.isDecimal]
  split
  · have hdigit : Inner text pos r.chr
        (if !s.isId && !s.isNum && !s.isDecimal then { s.start r with isNum := true } else s)
        (if !s.isId && !s.isNum && !s.isDecimal then { sc.start r.chr with isNum := true }
          else sc) := by
      split
      · exact { h with
          agrees := { h.agrees with isNum := rfl }
          span := fun _ => h.start }
      · exact h
    dsimp only
    split
    · exact hdigit.lexDot
    · exact hdigit
  · exact h.lexDot

theorem Inner.lexLetter (h : s.Inner text pos r.chr sc) :
    Related (Inner text pos r.chr) (s.lexLetter atof text r)
      (sc.lexLetter atof r.chr r.nextChr r.ending) := by
  have hrest : ∀ (error : LexError) {s : LexState} {sc : Scan}, s.Inner text pos r.chr sc →
      Related (Inner text pos r.chr)
        (if s.isNum || s.isDecimal then .error error
        else if r.ending then s.lexDigit atof text r else .ok s)
        (if sc.isNum || sc.isDecimal then none
        else if r.ending then sc.lexDigit atof r.chr r.nextChr r.ending else some sc) := by
    intro error s sc h
    rw [h.agrees.isNum, h.agrees.isDecimal]
    split
    · trivial
    · split
      · exact h.lexDigit
      · exact h
  unfold LexState.lexLetter Scan.lexLetter
  rw [h.agrees.isId]
  split
  · refine hrest _ ?_
    split
    · exact h
    · exact { h with
        agrees := { h.agrees with isId := rfl }
        span := fun _ => h.start }
  · exact h.lexDigit

theorem Inner.views (h : s.Inner text pos r.chr sc) : s.Views text (pos + 1) sc where
  agrees := h.agrees
  index := by simp [h.index, h.skip]
  span := fun hpending => ⟨by have := (h.span hpending).1; omega, (h.span hpending).2⟩

/-- The next character is skipped. -/
theorem Inner.skipNext {s' : LexState} {sc' : Scan} (h : s.Inner text pos r.chr sc)
    (hagrees : s'.Agrees sc') (hskip : sc'.skip = true) (hindex : s'.index = s.index + 1)
    (hstart : s'.dataStart = s.dataStart) (hspan : sc'.span = sc.span)
    (hpending : sc'.pending = sc.pending) : s'.Views text (pos + 1) sc' where
  agrees := hagrees
  index := by simp [hindex, h.index, hskip]
  span := by
    rw [hpending, hstart, hspan]
    exact h.views.span

theorem Inner.lexContent (h : s.Inner text pos r.chr sc) :
    (s.lexContent r).Views text (pos + 1) (sc.lexContent r.chr r.nextChr) := by
  unfold LexState.lexContent Scan.lexContent
  split
  · exact h.skipNext { h.agrees with content := by simp [h.agrees.content] } rfl rfl rfl rfl rfl
  · split
    · exact h.skipNext { h.agrees with content := by simp [h.agrees.content] } rfl rfl rfl rfl rfl
    · exact { h.views with agrees := { h.agrees with content := by simp [h.agrees.content] } }

theorem Inner.lexQuote (h : s.Inner text pos r.chr sc) :
    (s.lexQuote r).Views text (pos + 1) sc.lexQuote := by
  unfold LexState.lexQuote Scan.lexQuote
  rw [h.agrees.isStr]
  split
  · exact { h.views with
      agrees := { h.agrees with
        lexemes := by simp [Scan.add, h.agrees.lexemes, h.agrees.content, TokenStream.lexemes]
        content := rfl
        isStr := rfl } }
  · exact { h.views with
      agrees := { h.agrees with isStr := rfl }
      span := fun _ => ⟨Nat.le_of_eq h.index, by simp [h.index]⟩ }

theorem Inner.lexApostrophe (h : s.Inner text pos r.chr sc) :
    (s.lexApostrophe r).Views text (pos + 1) sc.lexApostrophe := by
  unfold LexState.lexApostrophe Scan.lexApostrophe
  rw [h.agrees.isChar]
  split
  · exact { h.views with
      agrees := { h.agrees with
        lexemes := by simp [Scan.add, h.agrees.lexemes, h.agrees.content, TokenStream.lexemes]
        content := rfl
        isChar := rfl } }
  · exact { h.views with
      agrees := { h.agrees with isChar := rfl }
      span := fun _ => ⟨Nat.le_of_eq h.index, by simp [h.index]⟩ }

theorem Related.mono {R R' : LexState → Scan → Prop} {x : Except LexError LexState}
    {y : Option Scan} (h : Related R x y) (hmono : ∀ s sc, R s sc → R' s sc) : Related R' x y := by
  cases x <;> cases y <;> first | exact hmono _ _ h | exact h

variable (atof) in
theorem Inner.lexRound (h : s.Inner text pos r.chr sc) :
    Related (Views text (pos + 1)) (s.lexRound atof text r)
      (sc.lexRound atof r.chr r.nextChr r.ending) := by
  unfold LexState.lexRound Scan.lexRound
  by_cases hcomment : s.isComment = true
  · rw [if_pos hcomment, if_pos (h.agrees.isComment.trans hcomment)]
    split
    · exact { h.views with agrees := { h.agrees with isComment := rfl } }
    · exact h.views
  have hcomment' : ¬ sc.isComment = true := by rwa [h.agrees.isComment]
  rw [if_neg hcomment, if_neg hcomment']
  by_cases hmulti : s.isMulticomment = true
  · rw [if_pos hmulti, if_pos (h.agrees.isMulticomment.trans hmulti)]
    split
    · exact h.skipNext { h.agrees with isMulticomment := rfl } rfl rfl rfl rfl rfl
    · exact h.views
  have hmulti' : ¬ sc.isMulticomment = true := by rwa [h.agrees.isMulticomment]
  rw [if_neg hmulti, if_neg hmulti']
  split
  · exact h.skipNext { h.agrees with isComment := rfl } rfl rfl rfl rfl rfl
  split
  · exact h.skipNext { h.agrees with isMulticomment := rfl } rfl rfl rfl rfl rfl
  split
  · exact h.lexQuote
  split
  · exact h.lexApostrophe
  rw [h.agrees.isStr, h.agrees.isChar]
  split
  · exact h.lexContent
  · exact h.lexLetter.mono fun _ _ => Inner.views

theorem Views.leave (h : s.Views text pos sc) : s.Views text pos sc.leave := by
  unfold Scan.leave
  split
  · exact h
  · next hpending => exact { h with
      agrees := { h.agrees with }
      span := fun hpending' => (hpending hpending').elim }

theorem lexemes_enter (r : Round) (s : LexState) :
    (s.enter r).stream.lexemes = s.stream.lexemes := by
  refine congrArg (List.map Prod.fst) ((TokenStream.placed_suffix _ _).trans ?_)
  dsimp only
  split <;> split <;> rfl

theorem Agrees.enter (h : s.Agrees sc) (r : Round) : (s.enter r).Agrees (sc.enter r.chr) where
  lexemes := h.lexemes.trans (lexemes_enter r s).symm
  isId := by unfold LexState.enter; dsimp only; split <;> split <;> exact h.isId
  isNum := by unfold LexState.enter; dsimp only; split <;> split <;> exact h.isNum
  isDecimal := by unfold LexState.enter; dsimp only; split <;> split <;> exact h.isDecimal
  isStr := by unfold LexState.enter; dsimp only; split <;> split <;> exact h.isStr
  isChar := by unfold LexState.enter; dsimp only; split <;> split <;> exact h.isChar
  isComment := by unfold LexState.enter; dsimp only; split <;> split <;> exact h.isComment
  isMulticomment := by
    unfold LexState.enter; dsimp only; split <;> split <;> exact h.isMulticomment
  content := by unfold LexState.enter; dsimp only; split <;> split <;> exact h.content

theorem enter_index (r : Round) (s : LexState) : (s.enter r).index = s.index + 1 := by
  unfold LexState.enter
  dsimp only
  split <;> split <;> rfl

theorem enter_dataStart (r : Round) (s : LexState) : (s.enter r).dataStart = s.dataStart := by
  unfold LexState.enter
  dsimp only
  split <;> split <;> rfl

/-- One more character of the text. -/
theorem take_drop_append {start : ℕ} (hle : start ≤ pos) {chr : Char} (hchr : text[pos]? = some chr) :
    (text.drop start).take (pos - start) ++ [chr] = (text.drop start).take (pos + 1 - start) := by
  have hlength : pos + 1 - start = pos - start + 1 := by omega
  have hget : (text.drop start)[pos - start]? = some chr := by
    rw [List.getElem?_drop, Nat.add_sub_cancel' hle, hchr]
  rw [hlength, List.take_add_one, hget]
  rfl

theorem Views.enter (h : s.Views text pos sc) (hskip : sc.skip = false)
    (hchr : text[pos]? = some r.chr) : (s.enter r).Inner text pos r.chr (sc.enter r.chr) where
  agrees := h.agrees.enter r
  skip := hskip
  index := by rw [enter_index, h.index, hskip]; rfl
  last := hchr
  span := fun hpending => by
    obtain ⟨hle, hspan⟩ := h.span hpending
    rw [enter_dataStart]
    exact ⟨hle, by rw [← take_drop_append hle hchr, ← hspan]; rfl⟩

variable (atof) in
theorem Views.lexChar (h : s.Views text pos sc) (hskip : sc.skip = false) {chr : Char}
    {rest : List Char} (hrest : text.drop pos = chr :: rest) :
    Related (Views text (pos + 1)) (s.lexChar atof text) (sc.step atof chr rest) := by
  have hindex : s.index = pos := by rw [h.index, hskip]; rfl
  have hlast : text[pos]? = some chr := by
    rw [← List.head?_drop, hrest]
    rfl
  have htail : text.drop (pos + 1) = rest := by
    rw [← List.drop_drop, hrest]
    rfl
  have hchr : (s.round text).chr = chr := by
    simp [LexState.round, hindex, hlast]
  have hnext : (s.round text).nextChr = rest.headD (Char.ofNat 0) := by
    rw [← htail]
    simp [LexState.round, hindex, List.headD_eq_head?_getD, List.head?_drop]
  have hending : (s.round text).ending = rest.isEmpty := by
    have hlength := congrArg List.length htail
    have hlt := (List.getElem?_eq_some_iff.mp hlast).1
    rw [List.length_drop] at hlength
    cases rest with
    | nil =>
        simp only [List.length_nil] at hlength
        simp only [LexState.round, hindex, List.isEmpty_nil, decide_eq_true_eq]
        omega
    | cons chr' rest =>
        simp only [List.length_cons] at hlength
        simp only [LexState.round, hindex, List.isEmpty_cons, decide_eq_false_iff_not]
        omega
  have hround := (h.enter (r := s.round text) hskip (hchr ▸ hlast)).lexRound atof
  rw [hchr, hnext, hending] at hround
  unfold LexState.lexChar Scan.step
  rw [if_neg (by simp [hskip])]
  cases hx : (s.enter (s.round text)).lexRound atof text (s.round text) with
  | error e =>
      rw [hx] at hround
      cases hy : (sc.enter chr).lexRound atof chr (rest.headD (Char.ofNat 0)) rest.isEmpty with
      | none => trivial
      | some sc' => rw [hy] at hround; exact hround.elim
  | ok s' =>
      rw [hx] at hround
      cases hy : (sc.enter chr).lexRound atof chr (rest.headD (Char.ofNat 0)) rest.isEmpty with
      | none => rw [hy] at hround; exact hround.elim
      | some sc' => rw [hy] at hround; exact hround.leave

variable (atof) in
theorem Views.skipChar (h : s.Views text pos sc) (hskip : sc.skip = true) {chr : Char}
    {rest : List Char} (hrest : text.drop pos = chr :: rest) :
    ∃ sc', sc.step atof chr rest = some sc' ∧ s.Views text (pos + 1) sc' := by
  have hlast : text[pos]? = some chr := by
    rw [← List.head?_drop, hrest]
    rfl
  refine ⟨_, by rw [Scan.step, if_pos hskip], Views.leave ⟨?_, ?_, ?_⟩⟩
  · exact { h.agrees with }
  · rw [h.index, hskip]
    rfl
  · intro hpending
    obtain ⟨hle, hspan⟩ := h.span hpending
    exact ⟨by omega, by rw [← take_drop_append hle hlast, ← hspan]; rfl⟩

variable (atof) in
/-- The loop does what the scan does with the rest of the text. -/
theorem Views.lexLoop {rest : List Char} : ∀ {pos n : ℕ} {s : LexState} {sc : Scan},
    s.Views text pos sc → text.drop pos = rest → text.length ≤ n + s.index →
    Related (Views text (max pos text.length)) (lexLoop atof text n s) (sc.feed atof [] rest) := by
  induction rest with
  | nil =>
      intro pos n s sc h hrest hn
      have hle : text.length ≤ pos := List.drop_eq_nil_iff.mp hrest
      have hindex : ¬ s.index < text.length := by
        rw [h.index]
        omega
      rw [Nat.max_eq_left hle]
      cases n with
      | zero => exact h
      | succ n => rw [TinCompiler.lexLoop, if_neg hindex]; exact h
  | cons chr rest ih =>
      intro pos n s sc h hrest hn
      have htail : text.drop (pos + 1) = rest := by
        rw [← List.drop_drop, hrest]
        rfl
      have hlt : pos < text.length := by
        by_contra hge
        rw [List.drop_eq_nil_of_le (by omega)] at hrest
        cases hrest
      have hmax : max pos text.length = max (pos + 1) text.length := by omega
      rw [hmax]
      unfold Scan.feed
      rw [List.append_nil]
      cases hskip : sc.skip with
      | true =>
          obtain ⟨sc', hstep, hviews⟩ := h.skipChar atof hskip hrest
          rw [hstep]
          exact ih hviews htail hn
      | false =>
          have hindex : s.index = pos := by rw [h.index, hskip]; rfl
          obtain ⟨n, rfl⟩ : ∃ n', n = n' + 1 := ⟨n - 1, by omega⟩
          rw [TinCompiler.lexLoop, if_pos (by omega)]
          have hchar := h.lexChar atof hskip hrest
          cases hx : s.lexChar atof text with
          | error e =>
              rw [hx] at hchar
              cases hy : sc.step atof chr rest with
              | none => trivial
              | some sc' => rw [hy] at hchar; exact hchar.elim
          | ok s' =>
              rw [hx] at hchar
              cases hy : sc.step atof chr rest with
              | none => rw [hy] at hchar; exact hchar.elim
              | some sc' =>
                  rw [hy] at hchar
                  have hviews : s'.Views text (pos + 1) sc' := hchar
                  refine ih hviews htail ?_
                  rw [hviews.index]
                  omega

end LexState

/-- The lexemes of a file, if it has no errors. -/
def lexemesOf (atof : String → BitVec 32) (text : List Char) : Option (List Lexeme) :=
  (lexFile atof text).toOption.map TokenStream.lexemes

/-- `lex_file` gives the lexemes of the scan. -/
theorem lexFile_lexemes (atof : String → BitVec 32) (text : List Char) :
    lexemesOf atof text = (Scan.feed atof [] text {}).map Scan.lexemes := by
  have hviews : LexState.Views text 0 { stream := { processedBytes := text.length } } {} :=
    ⟨⟨rfl, rfl, rfl, rfl, rfl, rfl, rfl, rfl, rfl⟩, rfl, fun hpending => by cases hpending⟩
  have hloop := hviews.lexLoop atof List.drop_zero (Nat.le_add_right text.length 0)
  unfold lexemesOf lexFile
  cases hx : lexLoop atof text text.length { stream := { processedBytes := text.length } } with
  | error e =>
      rw [hx] at hloop
      cases hy : Scan.feed atof [] text {} with
      | none => rfl
      | some sc => rw [hy] at hloop; exact hloop.elim
  | ok s =>
      rw [hx] at hloop
      cases hy : Scan.feed atof [] text {} with
      | none => rw [hy] at hloop; exact hloop.elim
      | some sc => rw [hy] at hloop; exact congrArg some hloop.agrees.lexemes.symm

end TinCompiler

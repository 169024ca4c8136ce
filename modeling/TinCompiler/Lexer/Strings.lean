import TinCompiler.Lexer.Clean

/-!
# String literals

The content of a string is read back when nothing is pending in front of it and the content
has no apostrophe and no beginning of a comment (`PlainContent`).  Otherwise a character of
the content is lost: `content_le` counts what the scan keeps of it.
-/

namespace TinCompiler

/-- How a character is written in a string. -/
def escapeChar (chr : Char) : List Char :=
  if chr = backslash then [backslash, backslash]
  else if chr = '\n' then [backslash, 'n']
  else [chr]

def escape (t : List Char) : List Char := t.flatMap escapeChar

/-- The characters of a string literal. -/
def stringLiteral (t : List Char) : List Char := doubleQuote :: (escape t ++ [doubleQuote])

/-- `chr` is not kept as content in front of `rest`. -/
def Lost (chr : Char) (rest : List Char) : Prop :=
  chr = apostrophe ∨ chr = '/' ∧ (rest.head? = some '/' ∨ rest.head? = some '*')

/-- No apostrophe, no `//` and no `/*`. -/
def PlainContent : List Char → Prop
  | [] => True
  | chr :: rest => ¬ Lost chr rest ∧ PlainContent rest

instance (chr : Char) (rest : List Char) : Decidable (Lost chr rest) :=
  inferInstanceAs (Decidable (_ ∨ _))

namespace Scan

variable {atof : String → BitVec 32} {sc sc' : Scan}

theorem lexRound_quote {next : Char} {ending : Bool} (hline : sc.isComment = false)
    (hmulti : sc.isMulticomment = false) :
    sc.lexRound atof doubleQuote next ending = some sc.lexQuote := by
  unfold lexRound
  rw [if_neg (by simp [hline]), if_neg (by simp [hmulti]), if_neg fun h => absurd h.1 (by decide),
    if_neg fun h => absurd h.1 (by decide), if_pos rfl]

/-! ## Plain content is kept -/

/-- In a string, behind some content. -/
def inString (lexemes : List Lexeme) (content : List Char) : Scan :=
  { lexemes := lexemes, isStr := true, content := content }

theorem step_openQuote (lexemes : List Lexeme) (after : List Char) :
    (clean lexemes).step atof doubleQuote after = some (inString lexemes []) := rfl

theorem step_closeQuote (lexemes : List Lexeme) (content after : List Char) :
    (inString lexemes content).step atof doubleQuote after =
      some (clean (lexemes ++ [⟨.literalString, .str (String.ofList content)⟩])) := rfl

/-- The first character of an escaped text with a quote behind it. -/
theorem head_escape {t : List Char} {x : Char} {after : List Char} (hx : x = '/' ∨ x = '*') :
    (escape t ++ doubleQuote :: after).headD (Char.ofNat 0) = x ↔ t.head? = some x := by
  have hne : x ≠ doubleQuote ∧ x ≠ backslash ∧ x ≠ '\n' := by
    rcases hx with rfl | rfl <;> decide
  cases t with
  | nil => exact ⟨fun h => absurd h.symm hne.1, fun h => by cases h⟩
  | cons chr t =>
      have hhead : (escape (chr :: t) ++ doubleQuote :: after).headD (Char.ofNat 0) =
          if chr = backslash ∨ chr = '\n' then backslash else chr := by
        unfold escape escapeChar
        rw [List.flatMap_cons]
        by_cases hbackslash : chr = backslash
        · simp [hbackslash]
        · by_cases hnewline : chr = '\n'
          · have hne' : '\n' ≠ backslash := by decide
            simp [hnewline, hne']
          · simp [hbackslash, hnewline]
      rw [hhead, List.head?_cons, Option.some.injEq]
      split
      · next hescaped =>
          refine ⟨fun h => absurd h.symm hne.2.1, ?_⟩
          rintro rfl
          exact (hescaped.elim hne.2.1 hne.2.2).elim
      · rfl

/-- What a character of a string is followed by, when it could open a comment. -/
theorem lost_iff {chr : Char} {t after : List Char} :
    Lost chr t ↔ chr = apostrophe ∨ chr = '/' ∧
      ((escape t ++ doubleQuote :: after).headD (Char.ofNat 0) = '/' ∨
        (escape t ++ doubleQuote :: after).headD (Char.ofNat 0) = '*') := by
  rw [head_escape (.inl rfl), head_escape (.inr rfl)]
  rfl

/-- A character that is neither escaped nor special. -/
theorem lexRound_content {chr next : Char} {ending : Bool} (hstr : sc.isStr = true)
    (hcomment : sc.isComment = false) (hmulti : sc.isMulticomment = false)
    (hquote : chr ≠ doubleQuote) (hapostrophe : chr ≠ apostrophe)
    (hopen : ¬ (chr = '/' ∧ (next = '/' ∨ next = '*'))) :
    sc.lexRound atof chr next ending = some (sc.lexContent chr next) := by
  have hslash : ¬ (chr = '/' ∧ next = '/') := fun h => hopen ⟨h.1, .inl h.2⟩
  have hstar : ¬ (chr = '/' ∧ next = '*') := fun h => hopen ⟨h.1, .inr h.2⟩
  unfold lexRound
  rw [if_neg (by simp [hcomment]), if_neg (by simp [hmulti]), if_neg hslash, if_neg hstar,
    if_neg hquote, if_neg hapostrophe, if_pos (.inl hstr)]

theorem feed_escapeChar (lexemes : List Lexeme) (content after : List Char) {chr : Char}
    (hquote : chr ≠ doubleQuote) (hapostrophe : chr ≠ apostrophe)
    (hopen : ¬ (chr = '/' ∧
      (after.headD (Char.ofNat 0) = '/' ∨ after.headD (Char.ofNat 0) = '*'))) :
    (inString lexemes content).feed atof after (escapeChar chr) =
      some (inString lexemes (content ++ [chr])) := by
  unfold escapeChar
  by_cases hbackslash : chr = backslash
  · subst hbackslash
    rfl
  · by_cases hnewline : chr = '\n'
    · subst hnewline
      rfl
    · rw [if_neg hbackslash, if_neg hnewline]
      have hround : ((inString lexemes content).enter chr).lexRound atof chr
          (after.headD (Char.ofNat 0)) after.isEmpty =
            some (((inString lexemes content).enter chr).lexContent chr
              (after.headD (Char.ofNat 0))) :=
        lexRound_content rfl rfl rfl hquote hapostrophe hopen
      have hcontent : ((inString lexemes content).enter chr).lexContent chr
          (after.headD (Char.ofNat 0)) =
            { (inString lexemes content).enter chr with content := content ++ [chr] } := by
        unfold lexContent
        rw [if_neg fun h => hbackslash h.1, if_neg fun h => hbackslash h.1]
        rfl
      unfold feed step
      rw [List.nil_append, if_neg (by simp [inString]), hround, hcontent]
      rfl

theorem feed_escape (lexemes : List Lexeme) (after : List Char) : ∀ (t content : List Char),
    doubleQuote ∉ t → PlainContent t →
    (inString lexemes content).feed atof (doubleQuote :: after) (escape t) =
      some (inString lexemes (content ++ t))
  | [], content, _, _ => by rw [List.append_nil]; rfl
  | chr :: t, content, hquote, hplain => by
      have hchr : chr ≠ doubleQuote := fun h => hquote (h ▸ List.mem_cons_self)
      have hrest : doubleQuote ∉ t := fun h => hquote (List.mem_cons_of_mem _ h)
      have hlost := mt (@lost_iff chr t after).mpr hplain.1
      have hfirst := @feed_escapeChar atof lexemes content (escape t ++ doubleQuote :: after) chr
        hchr (fun h => hlost (.inl h)) fun h => hlost (.inr h)
      have hsecond := feed_escape lexemes after t (content ++ [chr]) hrest hplain.2
      have hescape : escape (chr :: t) = escapeChar chr ++ escape t := List.flatMap_cons ..
      rw [hescape, feed_append_of hfirst hsecond, List.append_assoc]
      rfl

/-- Between tokens a string with a plain content is one token. -/
theorem feed_stringLiteral (lexemes : List Lexeme) {t : List Char} (hquote : doubleQuote ∉ t)
    (hplain : PlainContent t) (after : List Char) :
    (clean lexemes).feed atof after (stringLiteral t) =
      some (clean (lexemes ++ [⟨.literalString, .str (String.ofList t)⟩])) := by
  have hcontent := @feed_escape atof lexemes after t [] hquote hplain
  have hclose : (inString lexemes t).feed atof after [doubleQuote] =
      some (clean (lexemes ++ [⟨.literalString, .str (String.ofList t)⟩])) := rfl
  have hopen : (clean lexemes).feed atof (escape t ++ [doubleQuote] ++ after) [doubleQuote] =
      some (inString lexemes []) := rfl
  have htext : stringLiteral t = [doubleQuote] ++ (escape t ++ [doubleQuote]) := rfl
  rw [htext]
  exact feed_append_of hopen (feed_append_of hcontent hclose)

/-! ## Lost content -/

/-- Only character literals are added to `lexemes`, and at most `n` characters are kept. -/
structure Tally (lexemes : List Lexeme) (n : ℕ) (sc : Scan) : Prop where
  isStr : sc.isStr = true
  lexemes : ∃ new, sc.lexemes = lexemes ++ new ∧ ∀ x ∈ new, x.kind = .literalChar
  content : sc.content.length ≤ n

variable {lexemes : List Lexeme} {n : ℕ}

theorem Tally.mono {n' : ℕ} (h : sc.Tally lexemes n) (hle : n ≤ n') : sc.Tally lexemes n' :=
  { h with content := Nat.le_trans h.content hle }

theorem Tally.leave (h : sc.Tally lexemes n) : sc.leave.Tally lexemes n := by
  unfold Scan.leave
  split
  · exact h
  · exact { h with }

theorem leave_flags (sc : Scan) : sc.leave.skip = sc.skip ∧ sc.leave.isComment = sc.isComment ∧
    sc.leave.isMulticomment = sc.isMulticomment := by
  unfold Scan.leave
  split <;> exact ⟨rfl, rfl, rfl⟩

theorem step_of_round {chr : Char} {after : List Char} (hskip : sc.skip = false)
    (hround : (sc.enter chr).lexRound atof chr (after.headD (Char.ofNat 0)) after.isEmpty =
      some sc') : sc.step atof chr after = some sc'.leave := by
  unfold step
  rw [if_neg (by simp [hskip]), hround]
  rfl

variable (atof) in
theorem Tally.skipped (h : sc.Tally lexemes n) (hskip : sc.skip = true) (chr : Char)
    (after : List Char) :
    ∃ sc', sc.step atof chr after = some sc' ∧ sc'.Tally lexemes n ∧ sc'.skip = false := by
  have htally : Tally lexemes n ({ sc with skip := false }.enter chr) := { h with }
  exact ⟨_, by rw [step, if_pos hskip], htally.leave, (leave_flags _).1⟩

variable (atof) in
/-- In a comment that goes on. -/
theorem Tally.inComment (h : sc.Tally lexemes n) (hskip : sc.skip = false)
    (hcomment : sc.isComment = true ∨ sc.isMulticomment = true) {chr : Char} (after : List Char)
    (hnewline : chr ≠ '\n') (hclose : ¬ (chr = '*' ∧ after.headD (Char.ofNat 0) = '/')) :
    ∃ sc', sc.step atof chr after = some sc' ∧ sc'.Tally lexemes n ∧ sc'.skip = false ∧
      (sc'.isComment = true ∨ sc'.isMulticomment = true) := by
  have hround : (sc.enter chr).lexRound atof chr (after.headD (Char.ofNat 0)) after.isEmpty =
      some (sc.enter chr) := by
    unfold lexRound
    by_cases hline : (sc.enter chr).isComment = true
    · rw [if_pos hline, if_neg hnewline]
    · have hmulti : (sc.enter chr).isMulticomment = true := hcomment.resolve_left hline
      rw [if_neg hline, if_pos hmulti, if_neg hclose]
  have htally : (sc.enter chr).Tally lexemes n := { h with }
  obtain ⟨hskip', hcomment', hmulti'⟩ := leave_flags (sc.enter chr)
  refine ⟨_, step_of_round hskip hround, htally.leave, hskip'.trans hskip, ?_⟩
  rw [hcomment', hmulti']
  exact hcomment

variable (atof) in
/-- One character that is not escaped. -/
theorem Tally.lexRound (h : sc.Tally lexemes n) (hskip : sc.skip = false) {chr : Char} (next : Char)
    (ending : Bool) (hquote : chr ≠ doubleQuote) (hnewline : chr ≠ '\n')
    (hbackslash : chr ≠ backslash) : ∃ sc', sc.lexRound atof chr next ending = some sc' ∧
      sc'.Tally lexemes (n + 1) ∧
      (chr = apostrophe ∨ chr = '/' ∧ (next = '/' ∨ next = '*') → sc'.Tally lexemes n) ∧
      (sc'.skip = true → next = '/' ∨ next = '*') := by
  have hlost : ∀ {sc' : Scan}, sc'.Tally lexemes n → (sc'.skip = true → next = '/' ∨ next = '*') →
      sc.lexRound atof chr next ending = some sc' →
      ∃ sc', sc.lexRound atof chr next ending = some sc' ∧ sc'.Tally lexemes (n + 1) ∧
        (chr = apostrophe ∨ chr = '/' ∧ (next = '/' ∨ next = '*') → sc'.Tally lexemes n) ∧
        (sc'.skip = true → next = '/' ∨ next = '*') :=
    fun htally hnext hround =>
      ⟨_, hround, htally.mono (Nat.le_add_right n 1), fun _ => htally, hnext⟩
  have hnoskip : ∀ {sc' : Scan}, sc'.skip = sc.skip → sc'.skip = true → next = '/' ∨ next = '*' := by
    intro sc' hsame hskip'
    rw [hsame, hskip] at hskip'
    cases hskip'
  by_cases hcomment : sc.isComment = true
  · refine hlost h (hnoskip rfl) ?_
    rw [Scan.lexRound, if_pos hcomment, if_neg hnewline]
  by_cases hmulti : sc.isMulticomment = true
  · by_cases hclose : chr = '*' ∧ next = '/'
    · have htally : Tally lexemes n { sc with skip := true, isMulticomment := false } := { h with }
      refine hlost htally (fun _ => .inl hclose.2) ?_
      rw [Scan.lexRound, if_neg hcomment, if_pos hmulti, if_pos hclose]
    · refine hlost h (hnoskip rfl) ?_
      rw [Scan.lexRound, if_neg hcomment, if_pos hmulti, if_neg hclose]
  by_cases hline : chr = '/' ∧ next = '/'
  · have htally : Tally lexemes n { sc with skip := true, isComment := true } := { h with }
    refine hlost htally (fun _ => .inl hline.2) ?_
    rw [Scan.lexRound, if_neg hcomment, if_neg hmulti, if_pos hline]
  by_cases hblock : chr = '/' ∧ next = '*'
  · have htally : Tally lexemes n { sc with skip := true, isMulticomment := true } := { h with }
    refine hlost htally (fun _ => .inr hblock.2) ?_
    rw [Scan.lexRound, if_neg hcomment, if_neg hmulti, if_neg hline, if_pos hblock]
  by_cases hapostrophe : chr = apostrophe
  · have htally : sc.lexApostrophe.Tally lexemes n := by
      obtain ⟨new, hnew, hkind⟩ := h.lexemes
      unfold lexApostrophe
      split
      · refine ⟨h.isStr, ⟨new ++ [⟨.literalChar, .str (String.singleton
          (sc.content.headD (Char.ofNat 0)))⟩], ?_, ?_⟩, Nat.zero_le n⟩
        · rw [add, hnew, List.append_assoc]
        · intro x hx
          rcases List.mem_append.mp hx with hold | hlast
          · exact hkind x hold
          · rw [List.mem_singleton.mp hlast]
      · exact { h with }
    have hskip' : sc.lexApostrophe.skip = sc.skip := by
      unfold lexApostrophe
      split <;> rfl
    refine hlost htally (hnoskip hskip') ?_
    rw [Scan.lexRound, if_neg hcomment, if_neg hmulti, if_neg hline, if_neg hblock, if_neg hquote,
      if_pos hapostrophe]
  · have hround : sc.lexRound atof chr next ending =
        some { sc with content := sc.content ++ [chr] } := by
      rw [Scan.lexRound, if_neg hcomment, if_neg hmulti, if_neg hline, if_neg hblock,
        if_neg hquote, if_neg hapostrophe, if_pos (.inl h.isStr), lexContent,
        if_neg fun h => hbackslash h.1, if_neg fun h => hbackslash h.1]
    refine ⟨_, hround, { h with content := ?_ }, ?_, hnoskip rfl⟩
    · rw [List.length_append]
      exact Nat.add_le_add_right h.content 1
    · rintro (hapostrophe' | ⟨hslash, hnext⟩)
      · exact absurd hapostrophe' hapostrophe
      · rcases hnext with hnext | hnext
        · exact (hline ⟨hslash, hnext⟩).elim
        · exact (hblock ⟨hslash, hnext⟩).elim

variable (atof) in
/-- An escaped character: the backslash and what follows. -/
theorem Tally.escaped (h : sc.Tally lexemes n) (hskip : sc.skip = false) {y : Char}
    (hy : y = backslash ∨ y = 'n') (after : List Char) :
    ∃ sc', sc.feed atof after [backslash, y] = some sc' ∧ sc'.Tally lexemes (n + 1) ∧
      sc'.skip = false := by
  have hnewline : backslash ≠ '\n' ∧ y ≠ '\n' := by
    rcases hy with rfl | rfl <;> decide
  have hstar : backslash ≠ '*' ∧ y ≠ '*' := by
    rcases hy with rfl | rfl <;> decide
  have hfeed : ∀ {sc₁ sc₂ : Scan}, sc.step atof backslash ([y] ++ after) = some sc₁ →
      sc₁.step atof y after = some sc₂ → sc.feed atof after [backslash, y] = some sc₂ := by
    intro sc₁ sc₂ h₁ h₂
    unfold feed
    rw [h₁]
    exact (congrArg (fun x => Option.bind x some) h₂).trans rfl
  by_cases hcomment : sc.isComment = true ∨ sc.isMulticomment = true
  · obtain ⟨sc₁, hstep₁, htally₁, hskip₁, hcomment₁⟩ := h.inComment atof hskip hcomment
      ([y] ++ after) hnewline.1 fun h => hstar.1 h.1
    obtain ⟨sc₂, hstep₂, htally₂, hskip₂, -⟩ := htally₁.inComment atof hskip₁ hcomment₁
      after hnewline.2 fun h => hstar.2 h.1
    exact ⟨sc₂, hfeed hstep₁ hstep₂, htally₂.mono (Nat.le_add_right n 1), hskip₂⟩
  · obtain ⟨hline, hmulti⟩ := not_or.mp hcomment
    have hcontent : ∃ sc₁ : Scan, (sc.enter backslash).lexContent backslash y = sc₁ ∧
        sc₁.Tally lexemes (n + 1) ∧ sc₁.skip = true := by
      refine ⟨_, rfl, ?_⟩
      have hlength : ∀ x : Char, (sc.content ++ [x]).length ≤ n + 1 := by
        intro x
        rw [List.length_append]
        exact Nat.add_le_add_right h.content 1
      rcases hy with rfl | rfl
      · exact ⟨{ h with content := hlength backslash }, rfl⟩
      · exact ⟨{ h with content := hlength '\n' }, rfl⟩
    obtain ⟨sc₁, hsc₁, htally₁, hskip₁⟩ := hcontent
    have hround : (sc.enter backslash).lexRound atof backslash y false = some sc₁ := by
      have hline' : (sc.enter backslash).isComment = false := Bool.not_eq_true _ ▸ hline
      have hmulti' : (sc.enter backslash).isMulticomment = false := Bool.not_eq_true _ ▸ hmulti
      have hstr' : (sc.enter backslash).isStr = true := h.isStr
      exact (lexRound_content hstr' hline' hmulti' (by decide) (by decide)
        fun h => absurd h.1 (by decide)).trans (congrArg some hsc₁)
    obtain ⟨sc₂, hstep₂, htally₂, hskip₂⟩ := htally₁.leave.skipped atof
      ((leave_flags sc₁).1.trans hskip₁) y after
    exact ⟨sc₂, hfeed (step_of_round hskip hround) hstep₂, htally₂, hskip₂⟩

variable (atof) in
/-- One character of the content. -/
theorem Tally.feed_escapeChar (h : sc.Tally lexemes n) {chr : Char}
    (hskip : sc.skip = true → chr = '/' ∨ chr = '*') (hquote : chr ≠ doubleQuote)
    (after : List Char) : ∃ sc', sc.feed atof after (escapeChar chr) = some sc' ∧
      sc'.Tally lexemes (n + 1) ∧
      (chr = apostrophe ∨ chr = '/' ∧ (after.headD (Char.ofNat 0) = '/' ∨
        after.headD (Char.ofNat 0) = '*') → sc'.Tally lexemes n) ∧
      (sc'.skip = true → after.headD (Char.ofNat 0) = '/' ∨ after.headD (Char.ofNat 0) = '*') := by
  cases hskip' : sc.skip with
  | true =>
      have hescape : escapeChar chr = [chr] := by
        rcases hskip hskip' with rfl | rfl <;> rfl
      obtain ⟨sc', hstep, htally, hskip''⟩ := h.skipped atof hskip' chr after
      refine ⟨sc', ?_, htally.mono (Nat.le_add_right n 1), fun _ => htally,
        fun h => by rw [hskip''] at h; cases h⟩
      rw [hescape, feed, List.nil_append, hstep]
      rfl
  | false =>
      have hescaped : ∀ y : Char, y = backslash ∨ y = 'n' → escapeChar chr = [backslash, y] →
          chr ≠ apostrophe → chr ≠ '/' →
          ∃ sc', sc.feed atof after (escapeChar chr) = some sc' ∧ sc'.Tally lexemes (n + 1) ∧
            (chr = apostrophe ∨ chr = '/' ∧ (after.headD (Char.ofNat 0) = '/' ∨
              after.headD (Char.ofNat 0) = '*') → sc'.Tally lexemes n) ∧
            (sc'.skip = true →
              after.headD (Char.ofNat 0) = '/' ∨ after.headD (Char.ofNat 0) = '*') := by
        intro y hy hescape hapostrophe hslash
        obtain ⟨sc', hfeed, htally, hskip''⟩ := h.escaped atof hskip' hy after
        rw [hescape]
        exact ⟨sc', hfeed, htally, fun h => (h.elim hapostrophe fun h => hslash h.1).elim,
          fun h => by rw [hskip''] at h; cases h⟩
      by_cases hbackslash : chr = backslash
      · subst hbackslash
        exact hescaped backslash (.inl rfl) rfl (by decide) (by decide)
      by_cases hnewline : chr = '\n'
      · subst hnewline
        exact hescaped 'n' (.inr rfl) rfl (by decide) (by decide)
      · have hescape : escapeChar chr = [chr] := by
          unfold escapeChar
          rw [if_neg hbackslash, if_neg hnewline]
        have hentered : (sc.enter chr).Tally lexemes n := { h with }
        obtain ⟨sc', hround, htally, hlost, hnext⟩ := hentered.lexRound atof hskip'
          (after.headD (Char.ofNat 0)) after.isEmpty hquote hnewline hbackslash
        refine ⟨sc'.leave, ?_, htally.leave, fun h => (hlost h).leave, fun h => ?_⟩
        · rw [hescape, feed, List.nil_append, step_of_round hskip' hround]
          rfl
        · exact hnext ((leave_flags sc').1 ▸ h)

variable (atof) in
/-- All of the content: what is kept is shorter as soon as one character is lost. -/
theorem Tally.feed_escape (after : List Char) : ∀ (t : List Char) {n : ℕ} {sc : Scan},
    sc.Tally lexemes n → (sc.skip = true → t.head? = some '/' ∨ t.head? = some '*') →
    doubleQuote ∉ t →
    ∃ sc', sc.feed atof (doubleQuote :: after) (escape t) = some sc' ∧
      sc'.Tally lexemes (n + t.length) ∧ sc'.skip = false ∧
      (¬ PlainContent t → sc'.content.length < n + t.length)
  | [], n, sc, h, hskip, _ => by
      refine ⟨sc, rfl, h, ?_, fun hplain => (hplain trivial).elim⟩
      cases hskip' : sc.skip with
      | true => exact absurd (hskip hskip') (by simp)
      | false => rfl
  | chr :: t, n, sc, h, hskip, hquote => by
      have hchr : chr ≠ doubleQuote := fun h => hquote (h ▸ List.mem_cons_self)
      have hrest : doubleQuote ∉ t := fun h => hquote (List.mem_cons_of_mem _ h)
      obtain ⟨sc₁, hfeed₁, htally₁, hlost₁, hskip₁⟩ := h.feed_escapeChar atof
        (fun h => by simpa using hskip h) hchr (escape t ++ doubleQuote :: after)
      rw [head_escape (.inl rfl), head_escape (.inr rfl)] at hlost₁ hskip₁
      have hlength : n + (chr :: t).length = n + 1 + t.length := by
        rw [List.length_cons]
        omega
      have hescape : escape (chr :: t) = escapeChar chr ++ escape t := List.flatMap_cons ..
      rw [hlength, hescape]
      obtain ⟨sc₂, hfeed₂, htally₂, hskip₂, hshort₂⟩ := feed_escape after t htally₁ hskip₁ hrest
      refine ⟨sc₂, feed_append_of hfeed₁ hfeed₂, htally₂, hskip₂, fun hplain => ?_⟩
      by_cases hlost : Lost chr t
      · obtain ⟨sc₃, hfeed₃, htally₃, -⟩ := feed_escape after t (hlost₁ hlost) hskip₁ hrest
        have hsame : sc₃ = sc₂ := Option.some.inj (hfeed₃.symm.trans hfeed₂)
        have hcontent := hsame ▸ htally₃.content
        omega
      · exact hshort₂ fun hrest => hplain ⟨hlost, hrest⟩

variable (atof) in
/-- The quote behind the content: the string is closed, or a comment goes on. -/
theorem Tally.closeQuote (h : sc.Tally lexemes n) (hskip : sc.skip = false) :
    ∃ sc' new, sc.step atof doubleQuote [] = some sc' ∧ sc'.lexemes = lexemes ++ new ∧
      ∀ x ∈ new, x.kind = .literalChar ∨ x = ⟨.literalString, .str (String.ofList sc.content)⟩ := by
  obtain ⟨new, hnew, hkind⟩ := h.lexemes
  by_cases hcomment : sc.isComment = true ∨ sc.isMulticomment = true
  · have hne : doubleQuote ≠ '\n' ∧ doubleQuote ≠ '*' := by decide
    obtain ⟨sc', hstep, htally, -⟩ := h.inComment atof hskip hcomment [] hne.1
      fun h => hne.2 h.1
    obtain ⟨new', hnew', hkind'⟩ := htally.lexemes
    exact ⟨sc', new', hstep, hnew', fun x hx => .inl (hkind' x hx)⟩
  · obtain ⟨hline, hmulti⟩ := not_or.mp hcomment
    have hround : (sc.enter doubleQuote).lexRound atof doubleQuote (Char.ofNat 0) true =
        some (sc.enter doubleQuote).lexQuote := by
      have hline' : (sc.enter doubleQuote).isComment = false := Bool.not_eq_true _ ▸ hline
      have hmulti' : (sc.enter doubleQuote).isMulticomment = false := Bool.not_eq_true _ ▸ hmulti
      exact lexRound_quote hline' hmulti'
    have hquote : (sc.enter doubleQuote).lexQuote.lexemes =
        lexemes ++ (new ++ [⟨.literalString, .str (String.ofList sc.content)⟩]) := by
      have hstr : (sc.enter doubleQuote).isStr = true := h.isStr
      rw [lexQuote, if_pos hstr, ← List.append_assoc, ← hnew]
      rfl
    refine ⟨_, _, step_of_round hskip hround, (lexemes_leave _).trans hquote, fun x hx => ?_⟩
    rcases List.mem_append.mp hx with hold | hlast
    · exact .inl (hkind x hold)
    · exact .inr (List.mem_singleton.mp hlast)

variable (atof) in
/-- A string in any state outside of literals and comments, with nothing behind it. -/
theorem feed_stringLiteral_end (hout : sc.Outside) (hskip : sc.skip = false)
    (hcontent : sc.content = []) {t : List Char} (hquote : doubleQuote ∉ t) :
    ∃ sc' new, sc.feed atof [] (stringLiteral t) = some sc' ∧ sc'.lexemes = sc.lexemes ++ new ∧
      (∀ x ∈ new, ¬ Flushed x) ∧
      (new = [⟨.literalString, .str (String.ofList t)⟩] → PlainContent t) := by
  have hround : (sc.enter doubleQuote).lexRound atof doubleQuote
      ((escape t ++ [doubleQuote]).headD (Char.ofNat 0)) (escape t ++ [doubleQuote]).isEmpty =
        some { sc.enter doubleQuote with isStr := true, span := [] } := by
    have hline : (sc.enter doubleQuote).isComment = false := hout.isComment
    have hmulti : (sc.enter doubleQuote).isMulticomment = false := hout.isMulticomment
    have hstr : ¬ (sc.enter doubleQuote).isStr = true := by simp [enter, hout.isStr]
    rw [lexRound_quote hline hmulti, lexQuote, if_neg hstr]
  have htally : Tally sc.lexemes 0 { sc.enter doubleQuote with isStr := true, span := [] } :=
    ⟨rfl, ⟨[], (List.append_nil _).symm, by simp⟩, by simp [enter, hcontent]⟩
  have hopened := step_of_round hskip hround
  have hskip₁ := (leave_flags { sc.enter doubleQuote with isStr := true, span := [] }).1.trans hskip
  obtain ⟨sc₂, hfeed₂, htally₂, hskip₂, hshort⟩ := htally.leave.feed_escape atof [] t
    (fun h => by rw [hskip₁] at h; cases h) hquote
  obtain ⟨sc₃, new, hstep₃, hnew, hkind⟩ := htally₂.closeQuote atof hskip₂
  refine ⟨sc₃, new, ?_, hnew, fun x hx hflushed => ?_, fun hsingle => ?_⟩
  · have hclose : sc₂.feed atof [] [doubleQuote] = some sc₃ := by
      rw [feed, List.append_nil, hstep₃]
      rfl
    rw [stringLiteral, feed, List.append_nil, hopened]
    exact feed_append_of hfeed₂ hclose
  · rcases hkind x hx with hchar | rfl
    · exact hflushed.2 hchar
    · exact hflushed.1 rfl
  · by_contra hplain
    have hcontent₂ := hshort hplain
    have hx := hkind ⟨.literalString, .str (String.ofList t)⟩ (hsingle ▸ List.mem_singleton_self _)
    rcases hx with hchar | hstring
    · cases hchar
    · have hsame : t = sc₂.content := by
        have htext : String.ofList t = String.ofList sc₂.content := by
          simpa using hstring
        simpa using congrArg String.toList htext
      rw [← hsame] at hcontent₂
      omega

end Scan

section Strings

variable {atof : String → BitVec 32} {u t : List Char}

/-- The lexemes of `u`, the string `t` and the lexemes of `v`. -/
def roundTrip (atof : String → BitVec 32) (u t v : List Char) : Option (List Lexeme) := do
  let before ← lexemesOf atof (u ++ ['\n'])
  let after ← lexemesOf atof v
  return before ++ ⟨.literalString, .str (String.ofList t)⟩ :: after

theorem inert_doubleQuote : Scan.Inert doubleQuote :=
  ⟨by decide, by decide, by decide, by decide, by decide⟩

theorem lexemesOf_string (v : List Char) :
    lexemesOf atof (u ++ stringLiteral t ++ v) = ((endOf atof u).bind fun sc =>
      (sc.feed atof v (stringLiteral t)).bind (Scan.feed atof [] v)).map Scan.lexemes := by
  have hu : Scan.feed atof (stringLiteral t ++ v) u {} = endOf atof u :=
    feed_eq_endOf inert_doubleQuote _
  rw [lexFile_lexemes, List.append_assoc, Scan.feed_append, List.append_nil, hu]
  congr 2
  funext sc
  rw [Scan.feed_append, List.append_nil]

theorem lexemesOf_newline : lexemesOf atof (u ++ ['\n']) =
    ((endOf atof u).bind fun sc => sc.step atof '\n' []).map Scan.lexemes := by
  rw [lexFile_lexemes, Scan.feed_append, List.append_nil]
  congr 2
  funext sc
  rw [Scan.feed, List.append_nil]
  cases sc.step atof '\n' [] <;> rfl

/-- A string literal behind `u` is read back, whatever follows, exactly when nothing is pending
at the end of `u` and the content is plain (or `u` has an error of its own). -/
theorem lexFile_string (hout : EndsOutside atof u) (hquote : doubleQuote ∉ t) :
    (∀ v, lexemesOf atof (u ++ stringLiteral t ++ v) = roundTrip atof u t v) ↔
      ∀ sc, endOf atof u = some sc → sc.pending = false ∧ PlainContent t := by
  constructor
  · intro hsame sc hend
    have hskip := skip_endOf hend
    have hcontent := (Scan.tidy_initial.feed hend).content (hout sc hend).isStr (hout sc hend).isChar
    obtain ⟨sc₁, new, hfeed, hnew, hkind, hplain⟩ :=
      Scan.feed_stringLiteral_end atof (hout sc hend) hskip hcontent hquote
    have hnil := hsame []
    rw [lexemesOf_string, roundTrip, lexemesOf_newline, hend, Option.bind_some, Option.bind_some,
      hfeed] at hnil
    cases hpending : sc.pending with
    | true =>
        obtain ⟨sc₂, x, hstep, hlexemes, hflushed⟩ :=
          @Scan.step_pending_ending atof '\n' _ (hout sc hend) hskip hpending (by decide)
        rw [hstep] at hnil
        have hlists : sc₁.lexemes =
            sc₂.lexemes ++ [⟨.literalString, .str (String.ofList t)⟩] := Option.some.inj hnil
        rw [hnew, hlexemes, List.append_assoc] at hlists
        have hmem : x ∈ new := by
          rw [List.append_cancel_left hlists]
          exact List.mem_cons_self
        exact (hkind x hmem hflushed).elim
    | false =>
        have hclean := Scan.eq_clean (Scan.tidy_initial.feed hend) (hout sc hend) hpending hskip
        have hstep : sc.step atof '\n' [] = some sc := by
          rw [hclean]
          exact Scan.step_clean_delim (by decide) []
        rw [hstep] at hnil
        have hlists : sc₁.lexemes =
            sc.lexemes ++ [⟨.literalString, .str (String.ofList t)⟩] := Option.some.inj hnil
        rw [hnew] at hlists
        exact ⟨rfl, hplain (List.append_cancel_left hlists)⟩
  · intro hgood v
    rw [lexemesOf_string, roundTrip, lexemesOf_newline]
    cases hend : endOf atof u with
    | none => rfl
    | some sc =>
        obtain ⟨hpending, hplain⟩ := hgood sc hend
        have hclean := Scan.eq_clean (Scan.tidy_initial.feed hend) (hout sc hend) hpending
          (skip_endOf hend)
        rw [Option.bind_some, Option.bind_some, hclean, Scan.feed_stringLiteral _ hquote hplain,
          @Scan.step_clean_delim atof '\n' _ (by decide), Option.bind_some, Scan.feed_clean,
          Option.map_map, lexFile_lexemes]
        cases Scan.feed atof [] v {} with
        | none => rfl
        | some sc' =>
            refine congrArg some ?_
            simp [Scan.prepend, Scan.clean]

/-- `"it's"` is the string `its`, and the rest of the file is a character literal. -/
theorem not_string_apostrophe : EndsOutside (fun _ => 0) [] ∧ doubleQuote ∉ "it's".toList ∧
    lexemesOf (fun _ => 0) (stringLiteral "it's".toList ++ " ;".toList) =
      some [⟨.literalString, .str "its"⟩] ∧
    roundTrip (fun _ => 0) [] "it's".toList " ;".toList =
      some [⟨.literalString, .str "it's"⟩, ⟨.ascii ';', .none⟩] := by
  refine ⟨fun sc h => ?_, by decide, by decide, by decide⟩
  cases h
  exact ⟨rfl, rfl, rfl, rfl⟩

theorem lexFile_string_path :
    lexemesOf (fun _ => 0) ("(".toList ++ stringLiteral "a/b".toList ++ ")".toList) =
      roundTrip (fun _ => 0) "(".toList "a/b".toList ")".toList := by
  refine (lexFile_string (fun sc h => ?_) (by decide)).mpr (fun sc h => ?_) ")".toList
  · cases h
    exact ⟨rfl, rfl, rfl, rfl⟩
  · cases h
    exact ⟨rfl, by decide, by decide, by decide, trivial⟩

end Strings

end TinCompiler

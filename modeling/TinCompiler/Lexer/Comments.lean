import TinCompiler.Lexer.Clean
import Mathlib.Data.List.Infix

/-!
# Comments as whitespace

A comment changes no flag of the scan but it does not flush a pending token either, as
whitespace does.  So a comment can stand for whitespace exactly when no identifier or number
is pending in front of it.
-/

namespace TinCompiler

/-- A comment as it is written. -/
inductive Comment where
  | block (body : List Char) (notClosed : ¬ ['*', '/'] <:+: body)
  | line (body : List Char) (oneLine : '\n' ∉ body)

namespace Comment

def text : Comment → List Char
  | block body _ => '/' :: '*' :: (body ++ ['*', '/'])
  | line body _ => '/' :: '/' :: (body ++ ['\n'])

/-- The whitespace that the comment should be like. -/
def whitespace : Comment → Char
  | block .. => ' '
  | line .. => '\n'

theorem isDelim_whitespace (c : Comment) : isDelim c.whitespace = true := by
  cases c <;> rfl

end Comment

namespace Scan

variable {atof : String → BitVec 32} {sc sc' sc'' : Scan}

/-- Nothing but the text of a pending token and the comment flags has changed. -/
structure Keeps (sc sc' : Scan) : Prop where
  lexemes : sc'.lexemes = sc.lexemes
  pending : sc'.pending = sc.pending
  isStr : sc'.isStr = sc.isStr
  isChar : sc'.isChar = sc.isChar

theorem Keeps.trans (h : sc.Keeps sc') (h' : sc'.Keeps sc'') : sc.Keeps sc'' :=
  ⟨h'.lexemes.trans h.lexemes, h'.pending.trans h.pending, h'.isStr.trans h.isStr,
    h'.isChar.trans h.isChar⟩

theorem Keeps.leave (h : sc.Keeps sc') : sc.Keeps sc'.leave := by
  unfold Scan.leave
  split
  · exact h
  · exact { h with }

/-- In a comment, with nothing to skip. -/
structure InComment (isLine : Bool) (sc : Scan) : Prop where
  isComment : sc.isComment = isLine
  isMulticomment : sc.isMulticomment = !isLine
  skip : sc.skip = false

/-- Between a comment and what follows. -/
structure BehindComment (sc : Scan) : Prop where
  isComment : sc.isComment = false
  isMulticomment : sc.isMulticomment = false
  skip : sc.skip = false

theorem InComment.leave {isLine : Bool} (h : sc.InComment isLine) : sc.leave.InComment isLine := by
  unfold Scan.leave
  split
  · exact h
  · exact { h with }

theorem BehindComment.leave (h : sc.BehindComment) : sc.leave.BehindComment := by
  unfold Scan.leave
  split
  · exact h
  · exact { h with }

/-- A character that is skipped. -/
theorem step_skip (atof : String → BitVec 32) (hskip : sc.skip = true) (chr : Char)
    (after : List Char) :
    ∃ sc', sc.step atof chr after = some sc' ∧ sc.Keeps sc' ∧ sc'.isComment = sc.isComment ∧
      sc'.isMulticomment = sc.isMulticomment ∧ sc'.skip = false := by
  have hkeeps : sc.Keeps ({ sc with skip := false }.enter chr) := ⟨rfl, rfl, rfl, rfl⟩
  refine ⟨({ sc with skip := false }.enter chr).leave, by rw [step, if_pos hskip],
    hkeeps.leave, ?_⟩
  unfold Scan.leave
  split <;> exact ⟨rfl, rfl, rfl⟩

/-- A round that skips the next character, together with that one. -/
theorem feed_two {x y : Char} (after : List Char) {isComment isMulticomment : Bool}
    (hskip : sc.skip = false)
    (hround : (sc.enter x).lexRound atof x y false = some { sc.enter x with
      skip := true, isComment := isComment, isMulticomment := isMulticomment }) :
    ∃ sc', sc.feed atof after [x, y] = some sc' ∧ sc.Keeps sc' ∧ sc'.isComment = isComment ∧
      sc'.isMulticomment = isMulticomment ∧ sc'.skip = false := by
  have hfirst : sc.step atof x ([y] ++ after) = some (leave { sc.enter x with
      skip := true, isComment := isComment, isMulticomment := isMulticomment }) := by
    unfold step
    rw [if_neg (by simp [hskip])]
    exact congrArg (Option.map leave) hround
  have hkeeps : sc.Keeps (leave { sc.enter x with
      skip := true, isComment := isComment, isMulticomment := isMulticomment }) :=
    Keeps.leave ⟨rfl, rfl, rfl, rfl⟩
  have hleave : ∀ sc : Scan, sc.leave.skip = sc.skip ∧ sc.leave.isComment = sc.isComment ∧
      sc.leave.isMulticomment = sc.isMulticomment := by
    intro sc
    unfold Scan.leave
    split <;> exact ⟨rfl, rfl, rfl⟩
  obtain ⟨hskip₁, hcomment₁, hmulti₁⟩ := hleave { sc.enter x with
      skip := true, isComment := isComment, isMulticomment := isMulticomment }
  obtain ⟨sc', hstep, hkeeps', hcomment, hmulti, hskip'⟩ := step_skip atof hskip₁ y after
  refine ⟨sc', ?_, hkeeps.trans hkeeps', hcomment.trans hcomment₁, hmulti.trans hmulti₁, hskip'⟩
  unfold feed
  rw [hfirst]
  exact (congrArg (fun x => Option.bind x some) hstep).trans rfl

/-- The two characters that open a comment. -/
theorem feed_open (atof : String → BitVec 32) (isLine : Bool) (hout : sc.Outside) (hskip : sc.skip = false) (after : List Char) :
    ∃ sc', sc.feed atof after ['/', if isLine then '/' else '*'] = some sc' ∧ sc.Keeps sc' ∧
      sc'.InComment isLine := by
  have hround : (sc.enter '/').lexRound atof '/' (if isLine then '/' else '*') false =
      some { sc.enter '/' with
        skip := true, isComment := isLine, isMulticomment := !isLine } := by
    have hcomment : (sc.enter '/').isComment = false := hout.isComment
    have hmulti : (sc.enter '/').isMulticomment = false := hout.isMulticomment
    unfold lexRound
    rw [hcomment, hmulti]
    cases isLine <;> rfl
  obtain ⟨sc', hfeed, hkeeps, hcomment, hmulti, hskip'⟩ := feed_two after hskip hround
  exact ⟨sc', hfeed, hkeeps, hcomment, hmulti, hskip'⟩

theorem step_block (atof : String → BitVec 32) {chr : Char} {after : List Char} (h : sc.InComment false)
    (hopen : ¬ (chr = '*' ∧ after.headD (Char.ofNat 0) = '/')) :
    ∃ sc', sc.step atof chr after = some sc' ∧ sc.Keeps sc' ∧ sc'.InComment false := by
  have hcomment : (sc.enter chr).isComment = false := h.isComment
  have hmulti : (sc.enter chr).isMulticomment = true := h.isMulticomment
  refine ⟨(sc.enter chr).leave, ?_, Keeps.leave ⟨rfl, rfl, rfl, rfl⟩, InComment.leave { h with }⟩
  unfold step lexRound
  rw [if_neg (by simp [h.skip]), if_neg (by simp [hcomment]), if_pos hmulti, if_neg hopen]
  rfl

theorem feed_block (atof : String → BitVec 32) (after : List Char) : ∀ {body : List Char} {sc : Scan},
    ¬ ['*', '/'] <:+: body → sc.InComment false →
    ∃ sc', sc.feed atof ('*' :: '/' :: after) body = some sc' ∧ sc.Keeps sc' ∧ sc'.InComment false
  | [], sc, _, h => ⟨sc, rfl, ⟨rfl, rfl, rfl, rfl⟩, h⟩
  | chr :: body, sc, hbody, h => by
      have hopen : ¬ (chr = '*' ∧ (body ++ '*' :: '/' :: after).headD (Char.ofNat 0) = '/') := by
        rintro ⟨rfl, hnext⟩
        cases body with
        | nil =>
            have hstar : '*' = '/' := hnext
            exact absurd hstar (by decide)
        | cons chr' body =>
            obtain rfl : chr' = '/' := hnext
            exact hbody ⟨[], body, rfl⟩
      obtain ⟨sc₁, hstep, hkeeps, hin⟩ := step_block atof h hopen
      have hrest : ¬ ['*', '/'] <:+: body := fun hinside => hbody (hinside.trans
        (List.suffix_cons chr body).isInfix)
      obtain ⟨sc', hfeed, hkeeps', hin'⟩ := feed_block atof after hrest hin
      refine ⟨sc', ?_, hkeeps.trans hkeeps', hin'⟩
      unfold feed
      rw [hstep]
      exact hfeed

theorem feed_close (atof : String → BitVec 32) (h : sc.InComment false) (after : List Char) :
    ∃ sc', sc.feed atof after ['*', '/'] = some sc' ∧ sc.Keeps sc' ∧ sc'.BehindComment := by
  have hround : (sc.enter '*').lexRound atof '*' '/' false = some { sc.enter '*' with
      skip := true, isComment := false, isMulticomment := false } := by
    have hcomment : (sc.enter '*').isComment = false := h.isComment
    have hmulti : (sc.enter '*').isMulticomment = true := h.isMulticomment
    unfold lexRound
    rw [hcomment, hmulti]
    rfl
  obtain ⟨sc', hfeed, hkeeps, hcomment, hmulti, hskip⟩ := feed_two after h.skip hround
  exact ⟨sc', hfeed, hkeeps, hcomment, hmulti, hskip⟩

theorem step_line (atof : String → BitVec 32) {chr : Char} (after : List Char) (h : sc.InComment true) (hchr : chr ≠ '\n') :
    ∃ sc', sc.step atof chr after = some sc' ∧ sc.Keeps sc' ∧ sc'.InComment true := by
  have hcomment : (sc.enter chr).isComment = true := h.isComment
  refine ⟨(sc.enter chr).leave, ?_, Keeps.leave ⟨rfl, rfl, rfl, rfl⟩, InComment.leave { h with }⟩
  unfold step lexRound
  rw [if_neg (by simp [h.skip]), if_pos hcomment, if_neg hchr]
  rfl

theorem feed_line (atof : String → BitVec 32) (after : List Char) : ∀ {body : List Char} {sc : Scan}, '\n' ∉ body →
    sc.InComment true →
    ∃ sc', sc.feed atof after body = some sc' ∧ sc.Keeps sc' ∧ sc'.InComment true
  | [], sc, _, h => ⟨sc, rfl, ⟨rfl, rfl, rfl, rfl⟩, h⟩
  | chr :: body, sc, hbody, h => by
      have hchr : chr ≠ '\n' := fun h => hbody (h ▸ List.mem_cons_self)
      have hrest : '\n' ∉ body := fun h => hbody (List.mem_cons_of_mem _ h)
      obtain ⟨sc₁, hstep, hkeeps, hin⟩ := step_line atof (body ++ after) h hchr
      obtain ⟨sc', hfeed, hkeeps', hin'⟩ := feed_line atof after hrest hin
      refine ⟨sc', ?_, hkeeps.trans hkeeps', hin'⟩
      unfold feed
      rw [hstep]
      exact hfeed

theorem step_newline (atof : String → BitVec 32) (after : List Char) (h : sc.InComment true) :
    ∃ sc', sc.step atof '\n' after = some sc' ∧ sc.Keeps sc' ∧ sc'.BehindComment := by
  have hcomment : (sc.enter '\n').isComment = true := h.isComment
  refine ⟨leave { sc.enter '\n' with isComment := false }, ?_, Keeps.leave ⟨rfl, rfl, rfl, rfl⟩,
    BehindComment.leave ⟨rfl, h.isMulticomment, h.skip⟩⟩
  unfold step lexRound
  rw [if_neg (by simp [h.skip]), if_pos hcomment]
  rfl

/-- A comment changes nothing but the text of a pending token. -/
theorem feed_comment (atof : String → BitVec 32) (c : Comment) (hout : sc.Outside)
    (hskip : sc.skip = false) (after : List Char) :
    ∃ sc', sc.feed atof after c.text = some sc' ∧ sc.Keeps sc' ∧ sc'.BehindComment := by
  cases c with
  | block body notClosed =>
      obtain ⟨sc₁, hfeed₁, hkeeps₁, hin₁⟩ :=
        feed_open atof false hout hskip (body ++ ['*', '/'] ++ after)
      obtain ⟨sc₂, hfeed₂, hkeeps₂, hin₂⟩ := feed_block atof after notClosed hin₁
      obtain ⟨sc₃, hfeed₃, hkeeps₃, hbehind⟩ := feed_close atof hin₂ after
      refine ⟨sc₃, ?_, (hkeeps₁.trans hkeeps₂).trans hkeeps₃, hbehind⟩
      exact feed_append_of hfeed₁ (feed_append_of hfeed₂ hfeed₃)
  | line body oneLine =>
      obtain ⟨sc₁, hfeed₁, hkeeps₁, hin₁⟩ :=
        feed_open atof true hout hskip (body ++ ['\n'] ++ after)
      obtain ⟨sc₂, hfeed₂, hkeeps₂, hin₂⟩ := feed_line atof (['\n'] ++ after) oneLine hin₁
      obtain ⟨sc₃, hstep₃, hkeeps₃, hbehind⟩ := step_newline atof after hin₂
      have hfeed₃ : sc₂.feed atof after ['\n'] = some sc₃ := by
        unfold feed
        rw [List.nil_append, hstep₃]
        rfl
      refine ⟨sc₃, ?_, (hkeeps₁.trans hkeeps₂).trans hkeeps₃, hbehind⟩
      exact feed_append_of hfeed₁ (feed_append_of hfeed₂ hfeed₃)

/-- Between tokens a comment changes nothing at all. -/
theorem feed_clean_comment (atof : String → BitVec 32) (c : Comment) (lexemes : List Lexeme)
    (after : List Char) : (clean lexemes).feed atof after c.text = some (clean lexemes) := by
  have hout : (clean lexemes).Outside := ⟨rfl, rfl, rfl, rfl⟩
  obtain ⟨sc', hfeed, hkeeps, hbehind⟩ := feed_comment atof c hout rfl after
  have htidy : (clean lexemes).Tidy := ⟨fun _ _ => rfl, fun _ => rfl⟩
  have hclean := eq_clean (htidy.feed hfeed)
    ⟨hkeeps.isStr, hkeeps.isChar, hbehind.isComment, hbehind.isMulticomment⟩
    hkeeps.pending hbehind.skip
  rw [hfeed, hclean, hkeeps.lexemes]
  rfl

end Scan

/-! ## The text in front of the comment -/

namespace Scan

variable {atof : String → BitVec 32} {sc : Scan}

theorem lexRound_slash {chr : Char} {ending : Bool} (hchr : chr ≠ '/')
    (hclose : sc.isComment = false → sc.isMulticomment = true → chr ≠ '*') :
    sc.lexRound atof chr '/' ending = sc.lexRound atof chr '\n' ending := by
  have hdigit : isDigit '/' = isDigit '\n' := by decide
  have hcontent := (@lexContent_next chr '/' sc (by decide) (by decide)).trans
    (@lexContent_next chr '\n' sc (by decide) (by decide)).symm
  unfold lexRound
  rw [lexLetter_next hdigit, hcontent]
  simp only [hchr, false_and, if_false]
  cases hcomment : sc.isComment with
  | true => rfl
  | false =>
      cases hmulti : sc.isMulticomment with
      | true => simp only [hclose hcomment hmulti, false_and]
      | false => rfl

theorem step_slash {chr : Char} (hchr : chr ≠ '/')
    (hclose : sc.skip = false → sc.isComment = false → sc.isMulticomment = true → chr ≠ '*')
    (a : List Char) : sc.step atof chr ('/' :: a) = sc.step atof chr ['\n'] := by
  unfold step
  split
  · rfl
  · next hskip =>
      have hround : (sc.enter chr).lexRound atof chr '/' false =
          (sc.enter chr).lexRound atof chr '\n' false :=
        lexRound_slash hchr (hclose (Bool.not_eq_true _ ▸ hskip))
      exact congrArg (Option.map leave) hround

/-- A comment behind `u` does not change how `u` is read. -/
theorem feed_slash {u : List Char} (hout : EndsOutside atof u) (hlast : u.getLast? ≠ some '/')
    (a : List Char) : feed atof ('/' :: a) u {} = endOf atof u := by
  rcases List.eq_nil_or_concat u with rfl | ⟨init, chr, rfl⟩
  · rfl
  · have hchr : chr ≠ '/' := by simpa using hlast
    have hhead : ∀ (chr' : Char) (sc : Scan),
        sc.step atof chr' ([chr] ++ '/' :: a) = sc.step atof chr' ([chr] ++ ['\n']) :=
      fun _ _ => rfl
    have hinit : feed atof ([chr] ++ '/' :: a) init {} = feed atof ([chr] ++ ['\n']) init {} :=
      feed_congr hhead init {}
    rw [endOf, List.concat_eq_append, feed_append, feed_append, hinit]
    cases hsc : feed atof ([chr] ++ ['\n']) init {} with
    | none => rfl
    | some sc =>
        have hstep : sc.step atof chr ('/' :: a) = sc.step atof chr ['\n'] := by
          refine step_slash hchr (fun hskip hcomment hmulti hstar => ?_) a
          subst hstar
          have hnewline : sc.step atof '*' ['\n'] = some (sc.enter '*').leave := by
            have hcomment' : (sc.enter '*').isComment = false := hcomment
            have hmulti' : (sc.enter '*').isMulticomment = true := hmulti
            unfold step lexRound
            rw [if_neg (by simp [hskip]), hcomment', hmulti']
            rfl
          have hend : endOf atof (init.concat '*') = some (sc.enter '*').leave := by
            rw [endOf, List.concat_eq_append, feed_append, hsc]
            exact (congrArg (fun x => Option.bind x some) hnewline).trans rfl
          have hfalse := (hout _ hend).isMulticomment
          have hleave : (sc.enter '*').leave.isMulticomment = sc.isMulticomment := by
            unfold leave
            split <;> rfl
          rw [hleave, hmulti] at hfalse
          cases hfalse
        exact congrArg (fun x => Option.bind x some) hstep

end Scan

theorem head_text (c : Comment) : ∃ rest, c.text = '/' :: rest := by
  cases c <;> exact ⟨_, rfl⟩

section Comments

variable {atof : String → BitVec 32} {u : List Char}

/-- Reading on behind `u` and a comment, and behind `u` and whitespace. -/
theorem feed_comment_eq (c : Comment) (hout : EndsOutside atof u) (hlast : u.getLast? ≠ some '/')
    (v : List Char) : Scan.feed atof [] (u ++ c.text ++ v) {} = (endOf atof u).bind fun sc =>
      (Scan.feed atof v c.text sc).bind (Scan.feed atof [] v) := by
  obtain ⟨rest, htext⟩ := head_text c
  have hu : Scan.feed atof (c.text ++ v) u {} = endOf atof u := by
    rw [htext]
    exact Scan.feed_slash hout hlast _
  rw [List.append_assoc, Scan.feed_append, List.append_nil, hu]
  congr 1
  funext sc
  rw [Scan.feed_append, List.append_nil]

theorem feed_whitespace_eq (c : Comment) (v : List Char) :
    Scan.feed atof [] (u ++ c.whitespace :: v) {} = (endOf atof u).bind fun sc =>
      (sc.step atof c.whitespace v).bind (Scan.feed atof [] v) := by
  have hu : Scan.feed atof (c.whitespace :: v) u {} = endOf atof u :=
    feed_eq_endOf (Scan.inert_of_isDelim c.isDelim_whitespace) v
  rw [Scan.feed_append, List.append_nil, hu]
  congr 1
  funext sc
  rw [Scan.feed, List.append_nil]

/-- A comment can stand for whitespace behind `u` exactly when nothing is pending there. -/
theorem lexFile_comment (c : Comment) (hout : EndsOutside atof u)
    (hlast : u.getLast? ≠ some '/') :
    (∀ v, lexemesOf atof (u ++ c.text ++ v) = lexemesOf atof (u ++ c.whitespace :: v)) ↔
      NothingPending atof u := by
  constructor
  · intro hsame sc hend
    by_contra hpending
    have hpending' : sc.pending = true := by simpa using hpending
    have hskip := skip_endOf hend
    obtain ⟨sc₁, hfeed, hkeeps, -⟩ := Scan.feed_comment atof c (hout sc hend) hskip []
    obtain ⟨sc₂, x, hstep, hlexemes, -⟩ :=
      @Scan.step_pending_ending atof _ _ (hout sc hend) hskip hpending' c.isDelim_whitespace
    have hnil := hsame []
    rw [lexFile_lexemes, lexFile_lexemes, feed_comment_eq c hout hlast, feed_whitespace_eq, hend,
      Option.bind_some, Option.bind_some, hfeed, hstep] at hnil
    have hlengths : sc₁.lexemes = sc₂.lexemes := Option.some.inj hnil
    rw [hkeeps.lexemes, hlexemes] at hlengths
    simpa using congrArg List.length hlengths
  · intro hpending v
    rw [lexFile_lexemes, lexFile_lexemes, feed_comment_eq c hout hlast, feed_whitespace_eq]
    cases hend : endOf atof u with
    | none => rfl
    | some sc =>
        rw [Option.bind_some, Option.bind_some, endOf_clean hout hpending hend,
          Scan.feed_clean_comment, Scan.step_clean_delim c.isDelim_whitespace]

/-- `a/**/b` is one identifier. -/
theorem not_comment_identifier : EndsOutside (fun _ => 0) "a".toList ∧
    "a".toList.getLast? ≠ some '/' ∧
    lexemesOf (fun _ => 0) ("a".toList ++ (Comment.block [] (by decide)).text ++ "b ;".toList) =
      some [⟨.id, .str "a/**/b"⟩, ⟨.ascii ';', .none⟩] ∧
    lexemesOf (fun _ => 0) ("a".toList ++ ' ' :: "b ;".toList) =
      some [⟨.id, .str "a"⟩, ⟨.id, .str "b"⟩, ⟨.ascii ';', .none⟩] := by
  refine ⟨fun sc h => ?_, by decide, by decide, by decide⟩
  cases h
  exact ⟨rfl, rfl, rfl, rfl⟩

theorem lexFile_comment_symbol :
    lexemesOf (fun _ => 0) (";".toList ++ (Comment.block [] (by decide)).text ++ "b".toList) =
      lexemesOf (fun _ => 0) (";".toList ++ ' ' :: "b".toList) := by
  refine (lexFile_comment (.block [] (by decide)) (fun sc h => ?_) (by decide)).mpr
    (fun sc h => ?_) "b".toList
  · cases h
    exact ⟨rfl, rfl, rfl, rfl⟩
  · cases h
    rfl

end Comments

end TinCompiler

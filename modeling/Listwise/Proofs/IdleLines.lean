import Listwise.Proofs.Replay
import Listwise.Proofs.ScriptErrors
import Mathlib.Data.List.TakeWhile

/-!
# Lines that are passed over

A script passes over its blank lines and comments before they come to the lexer; one who enters the lines one by one
leaves them to the lexer.  The script takes every white space for blank, the lexer skips only four characters.  That is
all the difference.

* `Token.isSkipped`: the four characters.  `Text.indentation`: the white space that a line begins with.
* `tokenize_idle`, `tokenize_foreign`: what the lexer makes of a line that a script passes over.
* `executeEach_numbered`: lines without lexemes may be left out.
* `scripts_run_line_by_line`: a script and its lines, one by one.
-/

namespace Listwise

/-- Whether the lexer skips `c` within a line. -/
def Token.isSkipped (c : Char) : Bool := c == ' ' || c == '\t' || c == '\r' || c == '\x0c'

/-- The white space that a line begins with. -/
def Text.indentation (line : String) : List Char := line.toList.takeWhile isBlank

/-! ## The lexer on an idle line -/

section Lexemes

open Token

variable {c : Char} {cs rest : List Char} {text : String} {line : Nat}

theorem cut_skipped (h : isSkipped c = true) : Piece.cut c cs = (.blank, cs) := by
  simp only [isSkipped, Bool.or_eq_true, beq_iff_eq] at h
  obtain ((rfl | rfl) | rfl) | rfl := h <;> rfl

theorem scan_skipped (h : ∀ c ∈ cs, isSkipped c = true) : scan line (cs ++ rest) = scan line rest := by
  induction cs with
  | nil => rfl
  | cons c cs ih =>
    obtain ⟨hc, hcs⟩ := List.forall_mem_cons.mp h
    rw [List.cons_append, scan_blank (cut_skipped hc), ih hcs]

/-- White space is no mark. -/
theorem cutMark_of_isBlank (h : Text.isBlank c = true) : Piece.cutMark c cs = (.unknown [c], cs) := by
  have hmark : Piece.mark? c = none := by
    unfold Piece.mark?
    split
    case h_11 => rfl
    all_goals cases h
  unfold Piece.cutMark
  split
  case h_10 => rw [hmark]
  all_goals cases h

theorem not_isDigit_of_isBlank (h : Text.isBlank c = true) : c.isDigit = false := by
  rw [Bool.eq_false_iff]
  intro hdigit
  simp only [Char.isDigit, Bool.and_eq_true, decide_eq_true_eq, UInt32.le_iff_toNat_le, ge_iff_le] at hdigit
  change 48 ≤ c.toNat ∧ c.toNat ≤ 57 at hdigit
  simp only [Text.isBlank, Bool.or_eq_true, Bool.and_eq_true, decide_eq_true_eq, beq_iff_eq] at h
  omega

/-- White space that the lexer does not skip is not recognized. -/
theorem cut_foreign (hblank : Text.isBlank c = true) (hskip : isSkipped c = false) (hnewline : c ≠ '\n') :
    Piece.cut c cs = (.unknown [c], cs) := by
  have hspace : ¬ (c = ' ' ∨ c = '\t' ∨ c = '\r' ∨ c = '\x0c') := by
    simpa [isSkipped, and_assoc] using hskip
  have hquote : c ≠ '"' := by
    rintro rfl
    cases hblank
  have hword : ¬ isWordStart c = true := by
    intro hword
    rw [not_isBlank_of_isWordStart hword] at hblank
    cases hblank
  rw [Piece.cut, if_neg hnewline, if_neg hspace, if_neg hquote, if_neg (by simp [not_isDigit_of_isBlank hblank]),
    if_neg hword, cutMark_of_isBlank hblank]

/-- A line that a script passes over has no lexemes, if the lexer skips the white space before it. -/
theorem tokenize_idle (hidle : Session.isIdle text = true) (hnewline : '\n' ∉ text.toList)
    (h : ∀ c ∈ Text.indentation text, isSkipped c = true) : tokenize text line = .ok [] := by
  have hsplit : Text.indentation text ++ text.toList.dropWhile Text.isBlank = text.toList :=
    List.takeWhile_append_dropWhile
  rw [tokenize, ← hsplit, scan_skipped h]
  unfold Session.isIdle at hidle
  split at hidle
  · next hrest =>
    rw [hrest, scan]
  · next comment hrest =>
    -- the comment goes on to the end of the line, which is the end of the text
    have hcomment : comment.dropWhile (· != '\n') = [] := by
      rw [List.dropWhile_eq_nil_iff]
      intro c hc
      rw [bne_iff_ne]
      rintro rfl
      refine hnewline ?_
      rw [← hsplit, hrest]
      simp [hc]
    have hcut : Piece.cut '/' ('/' :: comment) = (.blank, []) := congrArg (Prod.mk Piece.blank) hcomment
    rw [hrest, scan_blank hcut, scan]
  · cases hidle

/-- White space that the lexer does not skip is where it stops. -/
theorem tokenize_foreign (hnewline : '\n' ∉ text.toList)
    (h : (Text.indentation text).find? (!isSkipped ·) = some c) :
    tokenize text line = .error ⟨.unrecognized (String.ofList [c]), line⟩ := by
  obtain ⟨hc, before, after, hindentation, hbefore⟩ := List.find?_eq_some_iff_append.mp h
  have hblank : Text.isBlank c = true := by
    have hall := List.all_takeWhile (p := Text.isBlank) (l := text.toList)
    rw [List.all_eq_true] at hall
    apply hall
    show c ∈ Text.indentation text
    simp [hindentation]
  have hsplit : before ++ (c :: after ++ text.toList.dropWhile Text.isBlank) = text.toList := by
    rw [← List.append_assoc, ← hindentation]
    exact List.takeWhile_append_dropWhile
  have hne : c ≠ '\n' := by
    rintro rfl
    exact hnewline (hsplit ▸ by simp)
  have hskipped : ∀ x ∈ before, isSkipped x = true := by simpa using hbefore
  rw [tokenize, ← hsplit, scan_skipped hskipped, List.cons_append, scan, cut_foreign hblank (by simpa using hc) hne]

end Lexemes

namespace Environment

/-! ## One line -/

section Lines

variable {env : Environment} {text : String} {line : Nat}

theorem executeLine_of_no_lexemes (h : Token.tokenize text line = .ok []) :
    env.executeLine text line = (.ok (), { env with activity := .idle }) := by
  have hexecute : env.toSession.execute text line = .ok (env.toSession, []) := by
    rw [Session.execute_eq_enact, h]
    rfl
  rw [executeLine_after, hexecute, after_silent]

theorem executeLine_of_tokenize_error {e : Error} (h : Token.tokenize text line = .error e) :
    env.executeLine text line = (.error e, { env with activity := .idle }) := by
  have hexecute : env.toSession.execute text line = .error e := by
    rw [Session.execute_eq_enact, h]
    rfl
  rw [executeLine_after, hexecute]
  rfl

end Lines

/-! ## All lines -/

section Scripts

variable {ls : List String}

/-- Lines without lexemes may be left out. -/
theorem executeEach_numbered (env : Environment) (hidle : env.activity = .idle) (k : Nat)
    (h : ∀ text ∈ ls, Session.isIdle text = true → ∀ line, Token.tokenize text line = .ok []) :
    env.executeEach (Session.numbered k ls) = env.executeEach (ls.zipIdx k) := by
  induction ls generalizing env k with
  | nil => rfl
  | cons text ls ih =>
    obtain ⟨htext, hls⟩ := List.forall_mem_cons.mp h
    rw [List.zipIdx_cons, executeEach]
    by_cases hskip : Session.isIdle text = true
    · have hsame : ({ env with activity := .idle } : Environment) = env := by rw [← hidle]
      rw [Session.numbered_idle hskip, executeLine_of_no_lexemes (htext hskip k), hsame]
      exact ih env hidle (k + 1) hls
    · have hnext := activity_executeLine env text k
      rw [Session.numbered_busy (by simpa using hskip), executeEach]
      generalize env.executeLine text k = x at hnext
      obtain ⟨result, env'⟩ := x
      cases result with
      | error e => rfl
      | ok u => exact ih env' hnext (k + 1) hls

/-- Whether a statement is being carried out makes no difference to inputs. -/
theorem executeEach_activity (env : Environment) (activity : Activity) (inputs : List (String × Nat)) :
    (({ env with activity := activity } : Environment).executeEach inputs).1 = (env.executeEach inputs).1 ∧
      (({ env with activity := activity } : Environment).executeEach inputs).2.toSession =
        (env.executeEach inputs).2.toSession ∧
      (({ env with activity := activity } : Environment).executeEach inputs).2.shown =
        (env.executeEach inputs).2.shown := by
  cases inputs <;> exact ⟨rfl, rfl, rfl⟩

/-- **A script is its lines, carried out one by one**, but for white space that only the script takes for blank.  Of a
line that the script passes over, look at the white space it begins with.  If the lexer skips all of it, the line
succeeds by itself and does nothing; if not, the line fails by itself at the first character that the lexer does not
skip.  So if the lexer skips the white space before all these lines, then the script gives the same, leaves the same
lists and shows the same texts as all its lines with their numbers, up to the first that fails. -/
theorem scripts_run_line_by_line (env : Environment) (script : String) :
    (∀ text ∈ Text.lines script, Session.isIdle text = true → ∀ line,
      ((∀ c ∈ Text.indentation text, Token.isSkipped c = true) →
        env.executeLine text line = (.ok (), { env with activity := .idle })) ∧
      ∀ c, (Text.indentation text).find? (!Token.isSkipped ·) = some c →
        env.executeLine text line =
          (.error ⟨.unrecognized (String.ofList [c]), line⟩, { env with activity := .idle })) ∧
    ((∀ text ∈ Text.lines script, Session.isIdle text = true →
        ∀ c ∈ Text.indentation text, Token.isSkipped c = true) →
      let lineByLine := env.executeEach ((Text.lines script).zipIdx 1)
      (env.executeScript script).1 = lineByLine.1 ∧
        (env.executeScript script).2.toSession = lineByLine.2.toSession ∧
        (env.executeScript script).2.shown = lineByLine.2.shown) := by
  refine ⟨?_, ?_⟩
  · intro text htext hidle line
    have hnewline := newline_not_mem_lines htext
    refine ⟨fun h => ?_, fun c hc => ?_⟩
    · exact executeLine_of_no_lexemes (tokenize_idle hidle hnewline h)
    · exact executeLine_of_tokenize_error (tokenize_foreign hnewline hc)
  · intro h lineByLine
    have hempty : ∀ text ∈ Text.lines script, Session.isIdle text = true → ∀ line, Token.tokenize text line = .ok [] :=
      fun text htext hidle line => tokenize_idle hidle (newline_not_mem_lines htext) (h text htext hidle)
    -- the environment may be busy before its first line, never after it
    have hbusy := executeEach_activity env .idle
    have hscript := executeEach_numbered { env with activity := .idle } rfl 1 hempty
    obtain ⟨hresult, hsession, hshown⟩ := hbusy (Session.inputs script)
    obtain ⟨hresult', hsession', hshown'⟩ := hbusy ((Text.lines script).zipIdx 1)
    rw [Session.inputs_eq_numbered, hscript] at hresult hsession hshown
    exact ⟨hresult.symm.trans hresult', hsession.symm.trans hsession', hshown.symm.trans hshown'⟩

/-- A script of five lines, two of them idle, that fails on its last; and one with a no-break space before a comment. -/
theorem scripts_run_line_by_line_two :
    let env := Environment.start .standard
    let script := "A = [1]\r\n \t// A\n\r\nshow\n?"
    let foreign := "show\n \u00a0// A"
    (∀ text ∈ Text.lines script, Session.isIdle text = true →
        ∀ c ∈ Text.indentation text, Token.isSkipped c = true) ∧
      (env.executeScript script).1 =
        (env.executeEach [("A = [1]", 1), (" \t// A", 2), ("", 3), ("show", 4), ("?", 5)]).1 ∧
      " \u00a0// A" ∈ Text.lines foreign ∧ Session.isIdle " \u00a0// A" = true ∧
      (Text.indentation " \u00a0// A").find? (!Token.isSkipped ·) = some '\u00a0' ∧
      env.executeLine " \u00a0// A" 2 = (.error ⟨.unrecognized "\u00a0", 2⟩, env) := by
  intro env script foreign
  have hlines : Text.lines script = ["A = [1]", " \t// A", "", "show", "?"] := by decide +kernel
  have hskipped : ∀ text ∈ Text.lines script, Session.isIdle text = true →
      ∀ c ∈ Text.indentation text, Token.isSkipped c = true := by
    have hall : ∀ text ∈ Text.lines script, (Text.indentation text).all Token.isSkipped = true := by decide +kernel
    intro text htext _
    exact List.all_eq_true.mp (hall text htext)
  have hmem : " \u00a0// A" ∈ Text.lines foreign := by decide +kernel
  have hidle : Session.isIdle " \u00a0// A" = true := by decide +kernel
  have hfind : (Text.indentation " \u00a0// A").find? (!Token.isSkipped ·) = some '\u00a0' := by decide +kernel
  have hscript := (scripts_run_line_by_line env script).2 hskipped
  have hline := (scripts_run_line_by_line env foreign).1 _ hmem hidle 2
  rw [hlines] at hscript
  exact ⟨hskipped, hscript.1, hmem, hidle, hfind, hline.2 _ hfind⟩

end Scripts

end Environment

end Listwise

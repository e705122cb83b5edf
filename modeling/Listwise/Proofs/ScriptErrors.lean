import Listwise.Proofs.ErrorLines
import Listwise.Proofs.InPlace

/-!
# Where scripts stop

The line of an error says how far a script got: the lines before it succeed by themselves, and it fails by itself.

* `firstLines n script`: a script cut off behind its `n`-th newline.
* `executeEach_append_eq_ok`, `executeEach_eq_error`: inputs that succeed one after the other, and one that fails.
* `script_stops_at_the_line_of_its_error`: a script that fails, and one that does not.
-/

namespace Listwise

/-! ## Lines of a script -/

section Lines

/-- What a text is made of up to its `n`-th newline, which is included. -/
def charsOfLines : Nat → List Char → List Char
  | 0, _ => []
  | _, [] => []
  | n + 1, c :: cs => c :: charsOfLines (if c = '\n' then n else n + 1) cs

@[simp] theorem charsOfLines_zero (cs : List Char) : charsOfLines 0 cs = [] := by
  cases cs <;> rfl

@[simp] theorem charsOfLines_nil (n : Nat) : charsOfLines n [] = [] := by
  cases n <;> rfl

/-- The first `n` lines of a script, with their line ends. -/
def firstLines (n : Nat) (script : String) : String := String.ofList (charsOfLines n script.toList)

theorem splitLinesFrom_charsOfLines (n : Nat) (seen cs : List Char) :
    Text.splitLinesFrom '\n' '\r' seen (charsOfLines (n + 1) cs) =
      (Text.splitLinesFrom '\n' '\r' seen cs).take (n + 1) := by
  induction cs generalizing n seen with
  | nil =>
    rw [charsOfLines_nil, Text.splitLinesFrom]
    split <;> simp
  | cons c cs ih =>
    rw [charsOfLines, Text.splitLinesFrom, Text.splitLinesFrom]
    by_cases hc : c = '\n'
    · rw [if_pos hc, if_pos (beq_iff_eq.mpr hc), if_pos (beq_iff_eq.mpr hc), List.take_succ_cons]
      cases n with
      | zero =>
        rw [charsOfLines_zero]
        rfl
      | succ n => rw [ih]
    · have hne : ¬ (c == '\n') = true := mt beq_iff_eq.mp hc
      rw [if_neg hc, if_neg hne, if_neg hne, ih]

theorem lines_firstLines (n : Nat) (script : String) :
    Text.lines (firstLines n script) = (Text.lines script).take n := by
  rw [Text.lines, Text.lines, firstLines, String.toList_ofList, ← List.map_take, Text.splitLines, Text.splitLines]
  cases n with
  | zero =>
    rw [charsOfLines_zero]
    rfl
  | succ n => rw [splitLinesFrom_charsOfLines]

theorem newline_not_mem_splitLinesFrom {seen cs : List Char} (hseen : '\n' ∉ seen) :
    ∀ l ∈ Text.splitLinesFrom '\n' '\r' seen cs, '\n' ∉ l := by
  induction cs generalizing seen with
  | nil =>
    intro l hl
    rw [Text.splitLinesFrom] at hl
    split at hl
    · cases hl
    · rw [List.mem_singleton.mp hl, List.mem_reverse]
      exact hseen
  | cons c cs ih =>
    rw [Text.splitLinesFrom]
    by_cases hc : c = '\n'
    · rw [if_pos (beq_iff_eq.mpr hc)]
      have hclosed : '\n' ∉ Text.closeLine '\r' seen := by
        intro hmem
        refine hseen ?_
        unfold Text.closeLine at hmem
        split at hmem
        · exact hmem
        · split at hmem
          · exact List.mem_cons_of_mem _ (List.mem_reverse.mp hmem)
          · exact List.mem_reverse.mp hmem
      exact List.forall_mem_cons.mpr ⟨hclosed, ih List.not_mem_nil⟩
    · rw [if_neg (mt beq_iff_eq.mp hc)]
      refine ih ?_
      rw [List.mem_cons, not_or]
      exact ⟨Ne.symm hc, hseen⟩

theorem newline_not_mem_lines {script text : String} (h : text ∈ Text.lines script) : '\n' ∉ text.toList := by
  obtain ⟨l, hl, rfl⟩ := List.mem_map.mp h
  rw [String.toList_ofList]
  exact newline_not_mem_splitLinesFrom List.not_mem_nil l hl

end Lines

namespace Session

/-! ## Numbered inputs -/

section Numbering

variable {k n : Nat} {text : String} {ls : List String}

/-- The lines that are carried out, of which the first has the number `k`. -/
def numbered (k : Nat) (ls : List String) : List (String × Nat) := (ls.zipIdx k).filter fun (line, _) => !isIdle line

theorem inputs_eq_numbered (script : String) : inputs script = numbered 1 (Text.lines script) := rfl

theorem inputs_firstLines (n : Nat) (script : String) :
    inputs (firstLines n script) = numbered 1 ((Text.lines script).take n) := by
  rw [inputs_eq_numbered, lines_firstLines]

theorem numbered_idle (h : isIdle text = true) : numbered k (text :: ls) = numbered (k + 1) ls := by
  rw [numbered, List.zipIdx_cons, List.filter_cons_of_neg (by simp [h]), numbered]

theorem numbered_busy (h : isIdle text = false) : numbered k (text :: ls) = (text, k) :: numbered (k + 1) ls := by
  rw [numbered, List.zipIdx_cons, List.filter_cons_of_pos (by simp [h]), numbered]

/-- The inputs up to a line, the line, and the inputs behind it. -/
theorem numbered_split (hn : ls[n]? = some text) (h : isIdle text = false) :
    numbered k ls = numbered k (ls.take n) ++ (text, k + n) :: numbered (k + n + 1) (ls.drop (n + 1)) := by
  induction ls generalizing k n with
  | nil => cases hn
  | cons l ls ih =>
    cases n with
    | zero =>
      cases hn
      exact numbered_busy h
    | succ n =>
      have hk : k + 1 + n = k + (n + 1) := by omega
      have ih := ih (k := k + 1) hn
      rw [hk] at ih
      rw [List.take_succ_cons, List.drop_succ_cons]
      cases hl : isIdle l with
      | true => rw [numbered_idle hl, numbered_idle hl, ih]
      | false => rw [numbered_busy hl, numbered_busy hl, ih, List.cons_append]

theorem numbered_take_succ (hn : ls[n]? = some text) (h : isIdle text = false) :
    numbered k (ls.take (n + 1)) = numbered k (ls.take n) ++ [(text, k + n)] := by
  have hlast : (ls.take (n + 1))[n]? = some text := by rw [List.getElem?_take_of_lt (Nat.lt_succ_self n), hn]
  rw [numbered_split hlast h, List.take_take, Nat.min_eq_left (Nat.le_succ n), List.drop_take, Nat.sub_self]
  rfl

/-- Where an input stands among the lines. -/
theorem exists_of_numbered_eq {line : Nat} {before after : List (String × Nat)}
    (h : numbered k ls = before ++ (text, line) :: after) :
    ∃ n, line = k + n ∧ ls[n]? = some text ∧ isIdle text = false ∧ before = numbered k (ls.take n) := by
  induction ls generalizing k before with
  | nil => simp [numbered] at h
  | cons l ls ih =>
    cases hl : isIdle l with
    | true =>
      rw [numbered_idle hl] at h
      obtain ⟨n, rfl, hn, htext, rfl⟩ := ih h
      refine ⟨n + 1, by omega, hn, htext, ?_⟩
      rw [List.take_succ_cons, numbered_idle hl]
    | false =>
      rw [numbered_busy hl] at h
      cases before with
      | nil =>
        cases h
        exact ⟨0, rfl, rfl, hl, rfl⟩
      | cons i before =>
        obtain ⟨rfl, hrest⟩ := List.cons_eq_cons.mp h
        obtain ⟨n, rfl, hn, htext, rfl⟩ := ih hrest
        refine ⟨n + 1, by omega, hn, htext, ?_⟩
        rw [List.take_succ_cons, numbered_busy hl]

end Numbering

end Session

namespace Environment

/-! ## One input after the other -/

section Sequences

variable {env env' : Environment} {e : Error}

theorem executeEach_append_eq_ok {xs ys : List (String × Nat)} :
    env.executeEach (xs ++ ys) = (.ok (), env') ↔
      ∃ between, env.executeEach xs = (.ok (), between) ∧ between.executeEach ys = (.ok (), env') := by
  induction xs generalizing env with
  | nil =>
    constructor
    · intro h
      exact ⟨env, rfl, h⟩
    · rintro ⟨between, hxs, hys⟩
      cases hxs
      exact hys
  | cons x xs ih =>
    obtain ⟨input, line⟩ := x
    rw [List.cons_append, executeEach, executeEach]
    split
    · exact ih
    · simp

/-- Inputs fail with the first that fails, which comes behind others that succeed. -/
theorem executeEach_eq_error {inputs : List (String × Nat)} (h : env.executeEach inputs = (.error e, env')) :
    ∃ (xs ys : List (String × Nat)) (input : String) (line : Nat) (before : Environment),
      inputs = xs ++ (input, line) :: ys ∧ env.executeEach xs = (.ok (), before) ∧
        before.executeLine input line = (.error e, env') := by
  induction inputs generalizing env with
  | nil => cases h
  | cons i inputs ih =>
    obtain ⟨input, line⟩ := i
    rw [executeEach] at h
    split at h
    · next next hx =>
      obtain ⟨xs, ys, input', line', before, rfl, hxs, hfail⟩ := ih h
      refine ⟨(input, line) :: xs, ys, input', line', before, rfl, ?_, hfail⟩
      rw [executeEach, hx]
      exact hxs
    · next hx =>
      cases h
      exact ⟨[], inputs, input, line, env, rfl, rfl, hx⟩

/-- An input that fails has failed at once, and has changed nothing but that no statement is being carried out. -/
theorem executeLine_eq_error {input : String} {line : Nat} (h : env.executeLine input line = (.error e, env')) :
    env.toSession.execute input line = .error e ∧ env' = { env with activity := .idle } := by
  rw [executeLine_after] at h
  cases hx : env.toSession.execute input line with
  | error e' =>
    rw [hx] at h
    cases h
    exact ⟨rfl, rfl⟩
  | ok r =>
    rw [hx] at h
    cases h

end Sequences

/-! ## Scripts -/

/-- **A script stops at the line of its error.**  The line is one of the script; the lines before it succeed by
themselves and leave the lists and have shown the texts that the failing script leaves and has shown; and there the line
fails by itself, with the same error.  If a script does not fail, each of its lines that is carried out succeeds behind
those before it. -/
theorem script_stops_at_the_line_of_its_error (env : Environment) (script : String) :
    (∀ n, Text.lines (firstLines n script) = (Text.lines script).take n) ∧
    (∀ e env', env.executeScript script = (.error e, env') →
      1 ≤ e.line ∧ e.line ≤ (Text.lines script).length ∧
      ∃ before text, env.executeScript (firstLines (e.line - 1) script) = (.ok (), before) ∧
        before.toSession = env'.toSession ∧ before.shown = env'.shown ∧
        (Text.lines script)[e.line - 1]? = some text ∧ before.executeLine text e.line = (.error e, env')) ∧
    (∀ env', env.executeScript script = (.ok (), env') →
      ∀ n text, (Text.lines script)[n]? = some text → Session.isIdle text = false →
        ∃ before after, env.executeScript (firstLines n script) = (.ok (), before) ∧
          before.executeLine text (n + 1) = (.ok (), after) ∧
          env.executeScript (firstLines (n + 1) script) = (.ok (), after)) := by
  refine ⟨fun n => lines_firstLines n script, ?_, ?_⟩
  · intro e env' h
    obtain ⟨xs, ys, text, line, before, hinputs, hxs, hfail⟩ := executeEach_eq_error h
    obtain ⟨n, rfl, htext, -, rfl⟩ := Session.exists_of_numbered_eq hinputs
    obtain ⟨hexecute, henv⟩ := executeLine_eq_error hfail
    -- the text has no newline, so there is one line for its error
    have hline := Session.line_of_execute_error hexecute
    rw [List.count_eq_zero.mpr (newline_not_mem_lines (List.mem_of_getElem? htext))] at hline
    obtain ⟨hn, -⟩ := List.getElem?_eq_some_iff.mp htext
    have hpred : e.line - 1 = n := by omega
    have hline : e.line = 1 + n := by omega
    rw [hpred, hline]
    refine ⟨by omega, by omega, before, text, ?_, ?_, ?_, htext, hfail⟩
    · rw [executeScript, Session.inputs_firstLines]
      exact hxs
    · rw [henv]
    · rw [henv]
  · intro env' h n text htext hbusy
    rw [executeScript, Session.inputs_eq_numbered, Session.numbered_split htext hbusy] at h
    obtain ⟨before, hbefore, h⟩ := executeEach_append_eq_ok.mp h
    rw [executeEach] at h
    split at h
    · next after hline =>
      have hnext : before.executeEach [(text, 1 + n)] = (.ok (), after) := by
        rw [executeEach, hline]
        rfl
      refine ⟨before, after, ?_, ?_, ?_⟩
      · rw [executeScript, Session.inputs_firstLines, hbefore]
      · rw [Nat.add_comm n 1, hline]
      · rw [executeScript, Session.inputs_firstLines, Session.numbered_take_succ htext hbusy]
        exact executeEach_append_eq_ok.mpr ⟨before, hbefore, hnext⟩
    · cases h

/-- A script of five lines, among them a blank one and a comment, fails on the last but keeps what the others did. -/
theorem script_stops_at_the_line_of_its_error_five :
    let env := Environment.start .standard
    let four := "A=[1]\r\n\n// A\nshow\n"
    let script := four ++ "B=[1/x|x in 0..0]"
    let e : Error := ⟨.arithmetic .divisionByZero "1 / x", 5⟩
    (env.executeScript script).1 = .error e ∧
      (∃ before, env.executeScript four = (.ok (), before) ∧ before.store = (env.executeScript script).2.store ∧
        before.shown = (env.executeScript script).2.shown ∧
        (before.executeLine "B=[1/x|x in 0..0]" 5).1 = .error e) ∧
      (env.executeScript four).1 = .ok () ∧
      ∃ before after, env.executeScript "A=[1]\r\n\n// A\n" = (.ok (), before) ∧
        before.executeLine "show" 4 = (.ok (), after) ∧ env.executeScript four = (.ok (), after) := by
  intro env four script e
  have hscript : (env.executeScript script).1 = .error e := by decide +kernel
  have hfour : (env.executeScript four).1 = .ok () := by decide +kernel
  have hcut : firstLines 4 script = four := by decide +kernel
  have hall : firstLines 4 four = four := by decide +kernel
  have hthree : firstLines 3 four = "A=[1]\r\n\n// A\n" := by decide +kernel
  have htext : (Text.lines script)[4]? = some "B=[1/x|x in 0..0]" := by decide +kernel
  have hshow : (Text.lines four)[3]? = some "show" := by decide +kernel
  refine ⟨hscript, ?_, hfour, ?_⟩
  · obtain ⟨-, -, before, text, hbefore, hsession, hshown, hat, hfail⟩ :=
      (script_stops_at_the_line_of_its_error env script).2.1 e _ (Prod.ext hscript rfl)
    have hbefore : env.executeScript (firstLines 4 script) = (.ok (), before) := hbefore
    rw [hcut] at hbefore
    cases htext.symm.trans hat
    refine ⟨before, hbefore, ?_, hshown, ?_⟩
    · rw [hsession]
    · rw [show (5 : Nat) = e.line from rfl, hfail]
  · have hline := (script_stops_at_the_line_of_its_error env four).2.2 _ (Prod.ext hfour rfl) 3 "show" hshow rfl
    rw [hthree, hall] at hline
    exact hline

end Environment

end Listwise

import Listwise.Proofs.ErrorLines
import Listwise.Proofs.InPlace

/-!
# The number of the first line

An input may be carried out under any number of its first line.  The lexer counts on from there, and nothing else looks
at a line but to report it; so another number moves the line of an error by the difference, and changes nothing else.

* `scan_shift`: the lexemes of a text, or its error, `k` lines further down.
* `execute_shift`: what an input gives there.
* `starting_line_moves_errors_only`: an input on any line and on line `1`.
-/

namespace Listwise

/-! ## Lexemes -/

section Lexemes

open Token

/-- `k` lines further down a text has the same lexemes, or the same error. -/
theorem scan_shift (k line : Nat) (cs : List Char) :
    Renumbered (· + k) (fun ts us => us = ts.map (Lexeme.renumber (· + k))) (scan line cs) (scan (line + k) cs) := by
  fun_induction scan line cs with
  | case1 line =>
    rw [scan]
    exact .ok rfl
  | case2 line c cs t hcut ih =>
    rw [scan, hcut]
    exact ih.bind_eq fun ts => .ok rfl
  | case3 line c cs hcut ih =>
    rw [scan, hcut]
    exact ih
  | case4 line c cs hcut ih =>
    -- the only place that counts
    have hnext : line + k + 1 = line + 1 + k := by omega
    rw [scan, hcut]
    show Renumbered _ _ (scan (line + 1) _) (scan (line + k + 1) _)
    rw [hnext]
    exact ih
  | case5 line c cs text hcut =>
    rw [scan, hcut]
    exact .error rfl

end Lexemes

/-! ## Inputs -/

/-- `k` lines further down an input gives the same, or its error `k` lines further down. -/
theorem Session.execute_shift (s : Session) (input : String) (line k : Nat) :
    Renumbered (· + k) (fun p q => q = p) (s.execute input line) (s.execute input (line + k)) := by
  have htokens := scan_shift k line input.toList
  rw [execute_eq_enact, execute_eq_enact]
  exact htokens.bind_eq fun ts => enact_renumbered (· + k) s line ts

namespace Environment

/-- **The number of the first line moves errors and does nothing else.**  An input that is carried out with its first
line numbered `line`, and with `1` instead, succeeds both times and leaves the same environment, or fails both times for
the same cause.  Then it has changed no list and shown no text; the lines of the two errors are `line - 1` apart; and
the error stands on one of the lines of the input. -/
theorem starting_line_moves_errors_only (env : Environment) (input : String) {line : Nat} (hline : 1 ≤ line) :
    (∃ env', env.executeLine input 1 = (.ok (), env') ∧ env.executeLine input line = (.ok (), env')) ∨
    ∃ cause n env', env.executeLine input 1 = (.error ⟨cause, n⟩, env') ∧
      env.executeLine input line = (.error ⟨cause, n + (line - 1)⟩, env') ∧
      env'.toSession = env.toSession ∧ env'.shown = env.shown ∧
      line ≤ n + (line - 1) ∧ n + (line - 1) ≤ line + input.toList.count '\n' := by
  have hshift := env.toSession.execute_shift input 1 (line - 1)
  rw [Nat.add_sub_cancel' hline] at hshift
  rw [executeLine_after, executeLine_after]
  obtain ⟨p, _, rfl, hone, hthere⟩ | ⟨e, _, rfl, hone, hthere⟩ := hshift.ok_or_error
  · rw [hone, hthere]
    exact .inl ⟨_, rfl, rfl⟩
  · have hlines := Session.line_of_execute_error hthere
    rw [hone, hthere]
    exact .inr ⟨e.cause, e.line, _, rfl, rfl, rfl, rfl, hlines⟩

/-- An input of three lines fails on its second, which is line `8` if the first one is line `7`. -/
theorem starting_line_moves_errors_only_three :
    let env : Environment :=
      ⟨⟨.standard, ⟨[{ name := "A", elements := [.number 1, .number 0] }]⟩⟩, ["A = [1,0]\n"], .idle⟩
    let input := "B = [1 //\n/ x | x in\nA]"
    1 ≤ 7 ∧ env.executeLine input 1 = (.error ⟨.arithmetic .divisionByZero "1 / x", 2⟩, env) ∧
      env.executeLine input 7 = (.error ⟨.arithmetic .divisionByZero "1 / x", 8⟩, env) := by
  intro env input
  have hone : env.executeLine input 1 = (.error ⟨.arithmetic .divisionByZero "1 / x", 2⟩, env) := by decide +kernel
  have hseven : 1 ≤ 7 := by decide
  refine ⟨hseven, hone, ?_⟩
  rcases starting_line_moves_errors_only env input hseven with ⟨env', h, -⟩ | ⟨cause, n, env', h, h', -⟩
  · rw [hone] at h
    cases h
  · rw [hone] at h
    cases h
    exact h'

end Environment

end Listwise

import Listwise.Proofs.TokenShape
import Mathlib.Control.Monad.Basic

/-!
# Tokens in print

Tokens can be written down and read again, if something is skipped between them.

* `Token.spelling`: the text of a token.
* `Separator`: a space, and behind it spaces and comments up to their newlines.
* `printed`: tokens with separators between them.  `leading`: what is printed before one of them.
* `scan_spelling`, `scan_separator`: a text is a token and a rest, or a separator and a rest.
* `lexing_undoes_printing`: what is printed is read as it was, and what was read can be printed.
-/

namespace Listwise

/-! ## Texts of tokens -/

namespace Token

/-- The text of a token. -/
def spelling : Token → List Char
  | .number text => text.toList
  | .quoted text => '"' :: (text.toList ++ ['"'])
  | .word name => name.toList
  | .showWord => ['s', 'h', 'o', 'w']
  | .inWord => ['i', 'n']
  | .dotDot => ['.', '.']
  | .plus => ['+']
  | .minus => ['-']
  | .star => ['*']
  | .slash => ['/']
  | .caret => ['^']
  | .leftParen => ['(']
  | .rightParen => [')']
  | .leftBracket => ['[']
  | .rightBracket => [']']
  | .comma => [',']
  | .pipe => ['|']
  | .equals => ['=']
  | .equalEqual => ['=', '=']
  | .lessEqual => ['<', '=']
  | .greaterEqual => ['>', '=']
  | .less => ['<']
  | .greater => ['>']

end Token

/-! ## What is skipped -/

/-- The characters that are skipped. -/
inductive Space where
  | blank
  | tab
  | carriageReturn
  | formFeed
  | newline
  deriving DecidableEq, Repr

/-- The character itself. -/
def Space.char : Space → Char
  | .blank => ' '
  | .tab => '\t'
  | .carriageReturn => '\r'
  | .formFeed => '\x0c'
  | .newline => '\n'

/-- A space, or a comment up to the end of its line. -/
inductive Gap where
  | space (s : Space)
  | comment (text : List Char) (single : '\n' ∉ text)
  deriving DecidableEq, Repr

/-- The text of a gap. -/
def Gap.chars : Gap → List Char
  | .space s => [s.char]
  | .comment text _ => '/' :: '/' :: (text ++ ['\n'])

/-- What stands between two tokens: a space and any gaps behind it. -/
structure Separator where
  first : Space
  more : List Gap
  deriving DecidableEq, Repr

namespace Separator

/-- The text of a separator. -/
def chars (s : Separator) : List Char := s.first.char :: s.more.flatMap Gap.chars

/-- A single blank. -/
def blank : Separator := ⟨.blank, []⟩

end Separator

/-- Tokens with separators between them: `separators i` stands behind the `i`-th token, from `0` on. -/
def printed (separators : Nat → Separator) : List Token → List Char
  | [] => []
  | [t] => t.spelling
  | t :: u :: ts => t.spelling ++ ((separators 0).chars ++ printed (fun i => separators (i + 1)) (u :: ts))

/-- What is printed before the `n`-th token. -/
def leading (separators : Nat → Separator) : List Token → Nat → List Char
  | t :: ts, n + 1 => t.spelling ++ ((separators 0).chars ++ leading (fun i => separators (i + 1)) ts n)
  | _, _ => []

namespace Token

/-! ## Reading separators -/

section Separators

variable {line : Nat} {rest : List Char} {ts : List Lexeme}

theorem scan_space (s : Space) : scan line (s.char :: rest) = scan (line + [s.char].count '\n') rest := by
  cases s with
  | newline => rw [scan]; rfl
  | _ => exact scan_blank rfl

theorem scan_comment {text : List Char} (h : '\n' ∉ text) :
    scan line ('/' :: '/' :: (text ++ '\n' :: rest)) = scan (line + 1) rest := by
  have htext : ∀ c ∈ text, (c != '\n') = true := by
    intro c hc
    rw [bne_iff_ne]
    rintro rfl
    exact h hc
  have hnewline : ∀ c ∈ ('\n' :: rest).head?, (c != '\n') = false := by
    intro c hc
    cases hc
    rfl
  have hcut : Piece.cut '/' ('/' :: (text ++ '\n' :: rest)) = (.blank, '\n' :: rest) :=
    congrArg (Prod.mk Piece.blank) (cut_while htext hnewline).2
  rw [scan_blank hcut]
  exact scan_space .newline

theorem scan_gap (g : Gap) : scan line (g.chars ++ rest) = scan (line + g.chars.count '\n') rest := by
  cases g with
  | space s => exact scan_space s
  | comment text h =>
    have hcount : (Gap.comment text h).chars.count '\n' = 1 := by
      simp [Gap.chars, List.count_eq_zero_of_not_mem h]
    rw [hcount, ← scan_comment h, Gap.chars, List.cons_append, List.cons_append, List.append_assoc]
    rfl

theorem scan_gaps (gs : List Gap) :
    scan line (gs.flatMap Gap.chars ++ rest) = scan (line + (gs.flatMap Gap.chars).count '\n') rest := by
  induction gs generalizing line with
  | nil => rfl
  | cons g gs ih =>
    rw [List.flatMap_cons, List.append_assoc, scan_gap, ih, List.count_append, Nat.add_assoc]

/-- A separator is skipped, and its newlines are counted. -/
theorem scan_separator (s : Separator) : scan line (s.chars ++ rest) = scan (line + s.chars.count '\n') rest := by
  have hcount : s.chars.count '\n' = [s.first.char].count '\n' + (s.more.flatMap Gap.chars).count '\n' := by
    rw [Separator.chars, ← List.singleton_append, List.count_append]
  rw [hcount, Separator.chars, List.cons_append, scan_space, scan_gaps, Nat.add_assoc]

end Separators

/-! ## Reading tokens -/

section Tokens

variable {line : Nat} {rest : List Char} {t : Token} {ts : List Lexeme}

/-- Whether a token is over where `rest` follows: a space comes first, or nothing. -/
def Stops (rest : List Char) : Prop := rest = [] ∨ ∃ (s : Space) (cs : List Char), rest = s.char :: cs

theorem Stops.endsNumber (h : Stops rest) : Token.endsNumber rest = true := by
  rcases h with rfl | ⟨s, cs, rfl⟩
  · rfl
  · cases s <;> rfl

theorem Stops.not_isWordPart (h : Stops rest) : ∀ c ∈ rest.head?, isWordPart c = false := by
  intro c hc
  rcases h with rfl | ⟨s, cs, rfl⟩
  · cases hc
  · cases hc
    cases s <;> rfl

/-- A text between quotes is read up to the second one. -/
theorem scan_quoted {text : String} (h : '"' ∉ text.toList ∧ '\n' ∉ text.toList) (hs : scan line rest = .ok ts) :
    scan line ('"' :: (text.toList ++ '"' :: rest)) = .ok (⟨.quoted text, line⟩ :: ts) := by
  have hall : ∀ c ∈ text.toList, (!Piece.endsQuoted c) = true := List.all_eq_true.mp (isQuotable_iff.mpr h)
  have hquote : ∀ c ∈ ('"' :: rest).head?, (!Piece.endsQuoted c) = false := by
    intro c hc
    cases hc
    rfl
  obtain ⟨htake, hdrop⟩ := cut_while hall hquote
  refine scan_token ?_ hs
  show Piece.cutQuoted (text.toList ++ '"' :: rest) = _
  rw [Piece.cutQuoted, hdrop, htake, String.ofList_toList]
  rfl

/-- The marks that could go on do not where they stop. -/
theorem cutMark_of_stops (h : Stops rest) :
    Piece.cutMark '/' rest = (.token .slash, rest) ∧ Piece.cutMark '=' rest = (.token .equals, rest) ∧
      Piece.cutMark '<' rest = (.token .less, rest) ∧ Piece.cutMark '>' rest = (.token .greater, rest) := by
  rcases h with rfl | ⟨s, cs, rfl⟩
  · exact ⟨rfl, rfl, rfl, rfl⟩
  · cases s <;> exact ⟨rfl, rfl, rfl, rfl⟩

/-- **The text of a token is read as the token**, if it stops there. -/
theorem scan_spelling (ht : t.Writable) (hr : Stops rest) (hs : scan line rest = .ok ts) :
    scan line (t.spelling ++ rest) = .ok (⟨t, line⟩ :: ts) := by
  obtain ⟨hslash, hequals, hless, hgreater⟩ := cutMark_of_stops hr
  cases t with
  | number text =>
    have h := scan_numeral ht hr.endsNumber hs
    rwa [String.ofList_toList] at h
  | quoted text =>
    rw [spelling, List.cons_append, List.append_assoc]
    exact scan_quoted ht hs
  | word name => exact scan_word ht hr.not_isWordPart hs
  | showWord => exact scan_letters rfl (List.all_eq_true.mp rfl) hr.not_isWordPart hs
  | inWord => exact scan_letters rfl (List.all_eq_true.mp rfl) hr.not_isWordPart hs
  | slash => exact scan_token hslash hs
  | equals => exact scan_token hequals hs
  | less => exact scan_token hless hs
  | greater => exact scan_token hgreater hs
  | _ => exact scan_token rfl hs

end Tokens

/-! ## Whole texts -/

section Texts

theorem newline_not_mem_numeral {cs : List Char} (h : IsNumeral cs) : '\n' ∉ cs := by
  have hdigits : ∀ {ds : List Char}, IsDigits ds → '\n' ∉ ds := fun hds hmem => absurd (hds.2 _ hmem) (by decide)
  obtain ⟨whole, fraction, exponent, rfl, hw, hf, he⟩ := h
  have hfraction : '\n' ∉ fraction := by
    cases hf with
    | none => exact List.not_mem_nil
    | digits hds => exact List.not_mem_cons_of_ne_of_not_mem (by decide) (hdigits hds)
  have hexponent : '\n' ∉ exponent := by
    cases he with
    | none => exact List.not_mem_nil
    | unsigned hm hds =>
      refine List.not_mem_cons_of_ne_of_not_mem ?_ (hdigits hds)
      rcases hm with rfl | rfl <;> decide
    | signed hm hs hds =>
      refine List.not_mem_cons_of_ne_of_not_mem ?_ (List.not_mem_cons_of_ne_of_not_mem ?_ (hdigits hds))
      · rcases hm with rfl | rfl <;> decide
      · rcases hs with rfl | rfl <;> decide
  simp only [List.mem_append, not_or]
  exact ⟨hdigits hw, hfraction, hexponent⟩

/-- A token stands on one line. -/
theorem count_spelling {t : Token} (ht : t.Writable) : t.spelling.count '\n' = 0 := by
  rw [List.count_eq_zero]
  cases t with
  | number text => exact newline_not_mem_numeral ht
  | quoted text => simpa [spelling] using ht.2
  | word name =>
    intro hmem
    cases isWordPart_of_mem_name ht hmem
  | _ => decide

/-- What is printed is read as it was, each token on the line it was printed on. -/
theorem scan_printed {tokens : List Token} (h : ∀ t ∈ tokens, t.Writable) (separators : Nat → Separator) (line : Nat) :
    scan line (printed separators tokens) =
      .ok (tokens.mapIdx fun i t => ⟨t, line + (leading separators tokens i).count '\n'⟩) := by
  have hend : scan line [] = .ok [] := by rw [scan]
  fun_induction printed separators tokens generalizing line with
  | case1 => exact hend
  | case2 separators t =>
    have hread := scan_spelling (h t List.mem_cons_self) (.inl rfl) hend
    rwa [List.append_nil] at hread
  | case3 separators t u ts ih =>
    obtain ⟨ht, hts⟩ := List.forall_mem_cons.mp h
    have hrest := ih hts (line + (separators 0).chars.count '\n') (by rw [scan])
    rw [← scan_separator] at hrest
    have hstops : Stops ((separators 0).chars ++ printed (fun i => separators (i + 1)) (u :: ts)) :=
      .inr ⟨(separators 0).first, _, rfl⟩
    -- the lines behind `t` count from the newlines of its separator on
    have hlines : ∀ i, line + (leading separators (t :: u :: ts) (i + 1)).count '\n' =
        line + (separators 0).chars.count '\n' + (leading (fun i => separators (i + 1)) (u :: ts) i).count '\n' := by
      intro i
      rw [leading, List.count_append, List.count_append, count_spelling ht]
      omega
    rw [scan_spelling ht hstops hrest, List.mapIdx_cons (a := t)]
    simp only [hlines]
    rfl

end Texts

/-! ## What was read -/

section Read

theorem count_leading_blank {tokens : List Token} (h : ∀ t ∈ tokens, t.Writable) (n : Nat) :
    (leading (fun _ => .blank) tokens n).count '\n' = 0 := by
  induction tokens generalizing n with
  | nil => rfl
  | cons t ts ih =>
    obtain ⟨ht, hts⟩ := List.forall_mem_cons.mp h
    cases n with
    | zero => rfl
    | succ n =>
      rw [leading, List.count_append, List.count_append, count_spelling ht, ih hts]
      rfl

/-- Tokens that are printed with single blanks between them stand on one line. -/
theorem scan_printed_blank {tokens : List Token} (h : ∀ t ∈ tokens, t.Writable) (line : Nat) :
    scan line (printed (fun _ => .blank) tokens) = .ok (tokens.map (⟨·, line⟩)) := by
  rw [scan_printed h]
  simp only [count_leading_blank h, Nat.add_zero]
  have hmap := congrArg (List.map (⟨·, line⟩ : Token → Lexeme)) (List.zipIdx_map_fst 0 tokens)
  rw [List.map_map] at hmap
  rw [List.mapIdx_eq_zipIdx_map, ← hmap]
  rfl

end Read

/-- Writable tokens, printed with any separators, are read as they were, each on its line; and the tokens of any text
are read again from a print with single blanks. -/
theorem lexing_undoes_printing :
    (∀ (separators : Nat → Separator) (tokens : List Token) (line : Nat), (∀ t ∈ tokens, t.Writable) →
      tokenize (String.ofList (printed separators tokens)) line =
        .ok (tokens.mapIdx fun i t => ⟨t, line + (leading separators tokens i).count '\n'⟩)) ∧
    (∀ (source : String) (line : Nat) (ts : List Lexeme), tokenize source line = .ok ts → ∀ line' : Nat,
      tokenize (String.ofList (printed (fun _ => .blank) (ts.map (·.token)))) line' =
        .ok (ts.map fun l => ⟨l.token, line'⟩)) := by
  constructor
  · intro separators tokens line h
    rw [tokenize, String.toList_ofList]
    exact scan_printed h separators line
  · intro source line ts h line'
    have hwritable : ∀ t ∈ ts.map (·.token), t.Writable := by
      intro t ht
      obtain ⟨l, hl, rfl⟩ := List.mem_map.mp ht
      exact writable_tokenize h l hl
    rw [tokenize, String.toList_ofList, scan_printed_blank hwritable, List.map_map]
    rfl

/-- Tokens that would run into each other, or be taken for a comment, are kept apart; a comment counts its newline. -/
theorem lexing_undoes_printing_neighbours :
    let tokens : List Token := [.showWord, .word "shows", .equals, .equalEqual, .number "1", .dotDot, .number "1.5e-3",
      .slash, .slash, .quoted "//b"]
    (∀ t ∈ tokens, t.Writable) ∧
    tokenize "show\n//s\n shows = == 1 .. 1.5e-3 / / \"//b\"" 3 =
      .ok [⟨.showWord, 3⟩, ⟨.word "shows", 5⟩, ⟨.equals, 5⟩, ⟨.equalEqual, 5⟩, ⟨.number "1", 5⟩, ⟨.dotDot, 5⟩,
        ⟨.number "1.5e-3", 5⟩, ⟨.slash, 5⟩, ⟨.slash, 5⟩, ⟨.quoted "//b", 5⟩] ∧
    tokenize "1..\n2" 1 = .ok [⟨.number "1", 1⟩, ⟨.dotDot, 1⟩, ⟨.number "2", 2⟩] ∧
    tokenize "1 .. 2" 7 = .ok [⟨.number "1", 7⟩, ⟨.dotDot, 7⟩, ⟨.number "2", 7⟩] := by
  intro tokens
  have hdigit : ∀ c : Char, c.isDigit = true → IsDigits [c] :=
    fun c hc => ⟨List.cons_ne_nil _ _, List.forall_mem_singleton.mpr hc⟩
  have hone : IsNumeral "1".toList := ⟨['1'], [], [], rfl, hdigit '1' rfl, .none, .none⟩
  have hmilli : IsNumeral "1.5e-3".toList :=
    ⟨['1'], ['.', '5'], ['e', '-', '3'], rfl, hdigit '1' rfl, .digits (hdigit '5' rfl),
      .signed (.inl rfl) (.inr rfl) (hdigit '3' rfl)⟩
  have hquoted : '"' ∉ "//b".toList ∧ '\n' ∉ "//b".toList := by decide
  have hwritable : ∀ t ∈ tokens, t.Writable := by
    simp only [tokens, List.forall_mem_cons]
    exact ⟨trivial, rfl, trivial, trivial, hone, trivial, hmilli, trivial, trivial, hquoted, List.forall_mem_nil _⟩
  let separators : Nat → Separator := fun i =>
    if i = 0 then ⟨.newline, [.comment ['s'] (by decide), .space .blank]⟩ else .blank
  have hprinted : String.ofList (printed separators tokens) = "show\n//s\n shows = == 1 .. 1.5e-3 / / \"//b\"" := by
    decide +kernel
  have hread : tokenize "1..\n2" 1 = .ok [⟨.number "1", 1⟩, ⟨.dotDot, 1⟩, ⟨.number "2", 2⟩] := by decide +kernel
  refine ⟨hwritable, ?_, hread, ?_⟩
  · rw [← hprinted, lexing_undoes_printing.1 separators tokens 3 hwritable, Except.ok.injEq]
    decide +kernel
  · exact lexing_undoes_printing.2 _ 1 _ hread 7

end Token

end Listwise

import Listwise.Proofs.Lexing
import Mathlib.Tactic.SplitIfs

/-!
# What the lexer lets through

`Writable t` says what a token looks like that has a text: a word may be a name, a quoted text holds neither a quote nor
a newline, and a number is a numeral.

* `writable_cut`, `writable_tokenize`: every token of a text is writable.
* `forall_mem_scan`: what holds of every token that is cut off a text holds of all tokens of a text.
-/

namespace Listwise.Token

/-- Whether a text may stand between quotes. -/
def isQuotable (text : String) : Bool := text.toList.all (!Piece.endsQuoted ·)

/-- What a token has to be like to have a text. -/
def Writable : Token → Prop
  | .number text => IsNumeral text.toList
  | .quoted text => '"' ∉ text.toList ∧ '\n' ∉ text.toList
  | .word name => isName name = true
  | _ => True

section Shapes

variable {c : Char} {cs rest : List Char} {t : Token}

theorem isQuotable_iff {text : String} : isQuotable text = true ↔ '"' ∉ text.toList ∧ '\n' ∉ text.toList := by
  simp only [isQuotable, List.all_eq_true, Piece.endsQuoted, Bool.not_or, Bool.and_eq_true, Bool.not_eq_true',
    beq_eq_false_iff_ne]
  constructor
  · intro h
    exact ⟨fun hq => (h _ hq).1 rfl, fun hn => (h _ hn).2 rfl⟩
  · rintro ⟨hq, hn⟩ c hc
    exact ⟨fun he => hq (he ▸ hc), fun he => hn (he ▸ hc)⟩

/-- A name may stand between quotes. -/
theorem isQuotable_of_isName {name : String} (h : isName name = true) : isQuotable name = true := by
  have hpart : ∀ x, isWordPart x = false → x ∉ name.toList := by
    intro x hx hmem
    rw [isWordPart_of_mem_name h hmem] at hx
    cases hx
  exact isQuotable_iff.mpr ⟨hpart _ rfl, hpart _ rfl⟩

/-! ## Numerals -/

theorem isDigits_cons (hc : c.isDigit = true) (cs : List Char) :
    IsDigits (c :: cs.takeWhile Char.isDigit) :=
  ⟨List.cons_ne_nil _ _, List.forall_mem_cons.mpr ⟨hc, List.all_eq_true.mp List.all_takeWhile⟩⟩

theorem isFraction_cutFraction (cs : List Char) : IsFraction (cutFraction cs).1 := by
  fun_cases cutFraction cs with
  | case1 c cs hc => exact .digits (isDigits_cons hc cs)
  | case2 => exact .none
  | case3 => exact .none

theorem isExponent_cutExponent (cs : List Char) : IsExponent (cutExponent cs).1 := by
  fun_cases cutExponent cs with
  | case2 c cs hc d ds hs hd =>
    have hds := isDigits_cons hd ds
    unfold cutSign
    split
    · exact .signed hc (.inl rfl) hds
    · exact .signed hc (.inr rfl) hds
    · exact .unsigned hc hds
  | _ => exact .none

theorem isNumeral_cutNumber (hc : c.isDigit = true) (cs : List Char) : IsNumeral (cutNumber c cs).1 :=
  ⟨_, _, _, List.append_assoc _ _ _, isDigits_cons hc cs, isFraction_cutFraction _, isExponent_cutExponent _⟩

/-! ## Pieces -/

theorem writable_ofWord (hc : isWordStart c = true) (hcs : ∀ x ∈ cs, isWordPart x = true) :
    (ofWord (String.ofList (c :: cs))).Writable := by
  unfold ofWord
  split_ifs with hshow hin
  · trivial
  · trivial
  · simp only [Writable, isName, String.toList_ofList]
    have hall : cs.all isWordPart = true := List.all_eq_true.mpr hcs
    rw [hc, hall, decide_eq_true hshow, decide_eq_true hin]
    rfl

theorem writable_cutQuoted (h : Piece.cutQuoted cs = (.token t, rest)) : t.Writable := by
  unfold Piece.cutQuoted at h
  split at h
  · cases h
    refine isQuotable_iff.mp ?_
    rw [isQuotable, String.toList_ofList]
    exact List.all_takeWhile
  · cases h

theorem writable_cutMark (h : Piece.cutMark c cs = (.token t, rest)) : t.Writable := by
  have hmark : ∀ {t}, Piece.mark? c = some t → t.Writable := by
    intro t ht
    unfold Piece.mark? at ht
    split at ht <;> cases ht <;> trivial
  unfold Piece.cutMark at h
  split at h
  case h_10 =>
    split at h
    · next hm =>
      cases h
      exact hmark hm
    · cases h
  all_goals
    cases h
    try trivial

theorem writable_cut (h : Piece.cut c cs = (.token t, rest)) : t.Writable := by
  unfold Piece.cut at h
  split_ifs at h with hnewline hblank hquote hdigit hword
  · cases h
  · cases h
  · exact writable_cutQuoted h
  · cases h
    rw [Writable, String.toList_ofList]
    exact isNumeral_cutNumber hdigit cs
  · cases h
    exact writable_ofWord hword (List.all_eq_true.mp List.all_takeWhile)
  · exact writable_cutMark h

end Shapes

/-! ## Whole texts -/

/-- What holds of every token that is cut off a text holds of all tokens of a text. -/
theorem forall_mem_scan {p : Token → Prop} (hp : ∀ {c cs t rest}, Piece.cut c cs = (.token t, rest) → p t) {line : Nat}
    {cs : List Char} {ts : List Lexeme} (h : scan line cs = .ok ts) : ∀ l ∈ ts, p l.token := by
  fun_induction scan line cs generalizing ts with
  | case1 line =>
    cases h
    exact List.forall_mem_nil _
  | case2 line c cs t hcut ih =>
    cases hrest : scan line (Piece.cut c cs).2 with
    | error e =>
      rw [hrest] at h
      cases h
    | ok ts' =>
      rw [hrest] at h
      cases h
      exact List.forall_mem_cons.mpr ⟨hp (Prod.ext hcut rfl), ih hrest⟩
  | case3 line c cs hcut ih => exact ih h
  | case4 line c cs hcut ih => exact ih h
  | case5 line c cs text hcut => cases h

/-- **Every token of a text can be written down.** -/
theorem writable_tokenize {text : String} {line : Nat} {ts : List Lexeme} (h : tokenize text line = .ok ts) :
    ∀ l ∈ ts, l.token.Writable :=
  forall_mem_scan writable_cut h

end Listwise.Token

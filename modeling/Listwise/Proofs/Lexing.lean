import Listwise.Proofs.DecimalText
import Listwise.Token.Lexer

/-!
# Pieces of a text

What the lexer cuts off the front of a text, piece by piece: a word up to the first character that is no part of
one, a number, a mark.

* `scan_token`, `scan_blank`: the tokens of a text are the token of its first piece, if that has one, and the tokens
  of the rest.
* `IsNumeral`: the numbers as they are written.
* `scan_letters`, `scan_word`, `scan_numeral`, `scan_number`: words and numbers are read whole where nothing goes on with
  them.
-/

namespace Listwise.Token

open Decimal (positional)

variable {line : Nat} {c : Char} {cs rest : List Char} {t : Token} {ts : List Lexeme}

/-! ## One piece -/

theorem scan_token (hcut : Piece.cut c cs = (.token t, rest)) (hs : scan line rest = .ok ts) :
    scan line (c :: cs) = .ok (⟨t, line⟩ :: ts) := by
  rw [scan, hcut]
  dsimp only
  rw [hs]
  rfl

theorem scan_blank (hcut : Piece.cut c cs = (.blank, rest)) : scan line (c :: cs) = scan line rest := by
  rw [scan, hcut]

/-- A run of characters ends where one of another kind follows. -/
theorem cut_while {p : Char → Bool} (hp : ∀ x ∈ cs, p x = true) (hr : ∀ x ∈ rest.head?, p x = false) :
    (cs ++ rest).takeWhile p = cs ∧ (cs ++ rest).dropWhile p = rest := by
  rw [List.takeWhile_append_of_pos hp, List.dropWhile_append_of_pos hp]
  cases rest with
  | nil => exact ⟨List.append_nil cs, rfl⟩
  | cons x xs => simp [hr x rfl]

/-! ## Words -/

/-- Whether a text is a word that may be a name. -/
def isName (name : String) : Bool :=
  match name.toList with
  | [] => false
  | c :: cs => isWordStart c && cs.all isWordPart && decide (name ≠ "show") && decide (name ≠ "in")

theorem ne_of_isWordStart (h : isWordStart c = true) {x : Char} (hx : isWordStart x = false) : c ≠ x := by
  rintro rfl
  rw [h] at hx
  cases hx

theorem toNat_of_isAlpha (h : c.isAlpha = true) : 65 ≤ c.toNat ∧ c.toNat ≤ 122 := by
  rcases (Bool.or_eq_true c.isUpper c.isLower).mp h with h | h
  · have h : 'A'.val ≤ c.val ∧ c.val ≤ 'Z'.val := of_decide_eq_true h
    have hlow : 65 ≤ c.toNat := UInt32.le_iff_toNat_le.mp h.1
    have hhigh : c.toNat ≤ 90 := UInt32.le_iff_toNat_le.mp h.2
    omega
  · obtain ⟨hl, hh⟩ := (Bool.and_eq_true _ _).mp h
    have hlow : 97 ≤ c.toNat := UInt32.le_iff_toNat_le.mp (of_decide_eq_true hl)
    have hhigh : c.toNat ≤ 122 := UInt32.le_iff_toNat_le.mp (of_decide_eq_true hh)
    omega

theorem not_isDigit_of_isWordStart (h : isWordStart c = true) : c.isDigit = false := by
  rw [isWordStart, Bool.or_eq_true, beq_iff_eq] at h
  rcases h with h | rfl
  · have hrange := toNat_of_isAlpha h
    rw [Bool.eq_false_iff]
    intro hd
    simp only [Char.isDigit, Bool.and_eq_true, decide_eq_true_eq, UInt32.le_iff_toNat_le, ge_iff_le] at hd
    change 48 ≤ c.toNat ∧ c.toNat ≤ 57 at hd
    omega
  · decide

theorem isWordPart_of_isWordStart (h : isWordStart c = true) : isWordPart c = true := by
  rw [isWordStart, Bool.or_eq_true] at h
  rw [isWordPart, Char.isAlphanum, Bool.or_eq_true, Bool.or_eq_true]
  rcases h with h | h
  · exact .inl (.inl h)
  · exact .inr h

/-- A name begins like a word and goes on like one. -/
theorem exists_cons_of_isName {name : String} (h : isName name = true) :
    ∃ c cs, name.toList = c :: cs ∧ isWordStart c = true ∧ ∀ x ∈ cs, isWordPart x = true := by
  unfold isName at h
  split at h
  · cases h
  · next c cs hname =>
    simp only [Bool.and_eq_true, List.all_eq_true] at h
    exact ⟨c, cs, hname, h.1.1.1, h.1.1.2⟩

theorem isWordPart_of_mem_name {name : String} (h : isName name = true) (hc : c ∈ name.toList) :
    isWordPart c = true := by
  obtain ⟨x, xs, hname, hx, hxs⟩ := exists_cons_of_isName h
  rw [hname] at hc
  rcases List.mem_cons.mp hc with rfl | hc
  · exact isWordPart_of_isWordStart hx
  · exact hxs c hc

theorem ofWord_of_isName {name : String} (h : isName name = true) : ofWord name = .word name := by
  unfold isName at h
  split at h
  · cases h
  · simp only [Bool.and_eq_true, decide_eq_true_eq] at h
    rw [ofWord, if_neg h.1.2, if_neg h.2]

theorem cut_word (hc : isWordStart c = true) :
    Piece.cut c cs = (.token (ofWord (String.ofList (c :: cs.takeWhile isWordPart))), cs.dropWhile isWordPart) := by
  have hblank : ¬ (c = ' ' ∨ c = '\t' ∨ c = '\r' ∨ c = '\x0c') := by
    rintro (rfl | rfl | rfl | rfl) <;> cases hc
  rw [Piece.cut, if_neg (ne_of_isWordStart hc (by decide)), if_neg hblank,
    if_neg (ne_of_isWordStart hc (by decide)), if_neg (by rw [not_isDigit_of_isWordStart hc]; decide), if_pos hc]

/-- A word is read up to its end, if what follows does not go on with it. -/
theorem scan_letters (hc : isWordStart c = true) (hcs : ∀ x ∈ cs, isWordPart x = true)
    (hr : ∀ x ∈ rest.head?, isWordPart x = false) (hs : scan line rest = .ok ts) :
    scan line (c :: cs ++ rest) = .ok (⟨ofWord (String.ofList (c :: cs)), line⟩ :: ts) := by
  obtain ⟨htake, hdrop⟩ := cut_while hcs hr
  rw [List.cons_append]
  refine scan_token ?_ hs
  rw [cut_word hc, htake, hdrop]

/-- A name is read as a word, if what follows does not go on with it. -/
theorem scan_word {name : String} (hn : isName name = true) (hr : ∀ c ∈ rest.head?, isWordPart c = false)
    (hs : scan line rest = .ok ts) : scan line (name.toList ++ rest) = .ok (⟨.word name, line⟩ :: ts) := by
  obtain ⟨c, cs, hname, hc, hcs⟩ := exists_cons_of_isName hn
  have hword : ofWord (String.ofList (c :: cs)) = .word name := by
    rw [← hname, String.ofList_toList, ofWord_of_isName hn]
  rw [hname, scan_letters hc hcs hr hs, hword]

/-! ## Numbers -/

/-- A digit and any others behind it. -/
def IsDigits (cs : List Char) : Prop := cs ≠ [] ∧ ∀ c ∈ cs, c.isDigit = true

/-- A point and digits, or nothing. -/
inductive IsFraction : List Char → Prop where
  | none : IsFraction []
  | digits {ds : List Char} (h : IsDigits ds) : IsFraction ('.' :: ds)

/-- A mark and digits, with or without a sign between them, or nothing. -/
inductive IsExponent : List Char → Prop where
  | none : IsExponent []
  | unsigned {mark : Char} {ds : List Char} (hm : mark = 'e' ∨ mark = 'E') (h : IsDigits ds) : IsExponent (mark :: ds)
  | signed {mark sign : Char} {ds : List Char} (hm : mark = 'e' ∨ mark = 'E') (hs : sign = '+' ∨ sign = '-')
      (h : IsDigits ds) : IsExponent (mark :: sign :: ds)

/-- The numbers as they are written: `digits ["." digits] [("e" | "E") ["+" | "-"] digits]`. -/
def IsNumeral (cs : List Char) : Prop :=
  ∃ whole fraction exponent, cs = whole ++ (fraction ++ exponent) ∧
    IsDigits whole ∧ IsFraction fraction ∧ IsExponent exponent

/-- Whether a number is over where `rest` follows. -/
def endsNumber : List Char → Bool
  | [] => true
  | c :: _ => !c.isDigit && c != '.' && !Decimal.isExponentMark c

section Numbers

variable {fraction exponent : List Char}

theorem not_isDigit_of_endsNumber (h : endsNumber rest = true) : ∀ c ∈ rest.head?, c.isDigit = false := by
  cases rest with
  | nil => exact fun _ hc => absurd hc (by simp)
  | cons x xs =>
    intro c hc
    cases hc
    simp only [endsNumber, Bool.and_eq_true, Bool.not_eq_true'] at h
    exact h.1.1

/-- Digits are over where an exponent or the end of the number follows, and so is a number without a point. -/
theorem head_exponent (he : IsExponent exponent) (hr : endsNumber rest = true) :
    ∀ c ∈ (exponent ++ rest).head?, c.isDigit = false ∧ c ≠ '.' := by
  have hmark : ∀ {mark : Char}, mark = 'e' ∨ mark = 'E' → mark.isDigit = false ∧ mark ≠ '.' := by
    rintro mark (rfl | rfl) <;> decide
  intro c hc
  cases he with
  | none =>
    refine ⟨not_isDigit_of_endsNumber hr c hc, ?_⟩
    rintro rfl
    obtain ⟨xs, hxs⟩ := List.head?_eq_some_iff.mp hc
    rw [List.nil_append] at hxs
    rw [hxs] at hr
    cases hr
  | unsigned hm _ =>
    cases hc
    exact hmark hm
  | signed hm _ _ =>
    cases hc
    exact hmark hm

theorem cutFraction_append (hf : IsFraction fraction) (hr : ∀ c ∈ rest.head?, c.isDigit = false ∧ c ≠ '.') :
    cutFraction (fraction ++ rest) = (fraction, rest) := by
  cases hf with
  | none =>
    unfold cutFraction
    split
    · next heq =>
      rw [List.nil_append] at heq
      rw [heq] at hr
      exact absurd rfl (hr '.' rfl).2
    · rfl
  | @digits ds h =>
    obtain ⟨hne, hd⟩ := h
    obtain ⟨d, ds, rfl⟩ := List.exists_cons_of_ne_nil hne
    obtain ⟨hd, hds⟩ := List.forall_mem_cons.mp hd
    obtain ⟨htake, hdrop⟩ := cut_while hds fun c hc => (hr c hc).1
    rw [List.cons_append, List.cons_append, cutFraction, if_pos hd, htake, hdrop]

theorem cutExponent_append (he : IsExponent exponent) (hr : endsNumber rest = true) :
    cutExponent (exponent ++ rest) = (exponent, rest) := by
  cases he with
  | none =>
    cases rest with
    | nil => rfl
    | cons c cs =>
      have hc : ¬ (c = 'e' ∨ c = 'E') := by
        rintro (rfl | rfl) <;> cases hr
      rw [List.nil_append, cutExponent, if_neg hc]
  | @unsigned mark ds hm h =>
    obtain ⟨hne, hd⟩ := h
    obtain ⟨d, ds, rfl⟩ := List.exists_cons_of_ne_nil hne
    obtain ⟨hd, hds⟩ := List.forall_mem_cons.mp hd
    obtain ⟨htake, hdrop⟩ := cut_while hds (not_isDigit_of_endsNumber hr)
    -- a digit is no sign
    have hsign : cutSign (d :: (ds ++ rest)) = ([], d :: (ds ++ rest)) := by
      unfold cutSign
      split
      · next heq => cases heq; cases hd
      · next heq => cases heq; cases hd
      · rfl
    rw [List.cons_append, List.cons_append, cutExponent, if_pos hm, hsign]
    simp only [hd, if_true, htake, hdrop]
    rfl
  | @signed mark sign ds hm hs h =>
    obtain ⟨hne, hd⟩ := h
    obtain ⟨d, ds, rfl⟩ := List.exists_cons_of_ne_nil hne
    obtain ⟨hd, hds⟩ := List.forall_mem_cons.mp hd
    obtain ⟨htake, hdrop⟩ := cut_while hds (not_isDigit_of_endsNumber hr)
    have hsign : cutSign (sign :: d :: (ds ++ rest)) = ([sign], d :: (ds ++ rest)) := by
      rcases hs with rfl | rfl <;> rfl
    rw [List.cons_append, List.cons_append, List.cons_append, cutExponent, if_pos hm, hsign]
    simp only [hd, if_true, htake, hdrop]
    rfl

theorem cutNumber_append (hcs : ∀ x ∈ cs, x.isDigit = true) (hf : IsFraction fraction) (he : IsExponent exponent)
    (hr : endsNumber rest = true) :
    cutNumber c (cs ++ (fraction ++ (exponent ++ rest))) = (c :: (cs ++ (fraction ++ exponent)), rest) := by
  have hhead := head_exponent he hr
  have hwhole : ∀ x ∈ (fraction ++ (exponent ++ rest)).head?, x.isDigit = false := by
    intro x hx
    cases hf with
    | none => exact (hhead x hx).1
    | digits _ =>
      cases hx
      rfl
  obtain ⟨htake, hdrop⟩ := cut_while hcs hwhole
  simp only [cutNumber, htake, hdrop, cutFraction_append hf hhead, cutExponent_append he hr, List.cons_append,
    List.append_assoc]

theorem cut_number (hc : c.isDigit = true) :
    Piece.cut c cs = (.token (.number (String.ofList (cutNumber c cs).1)), (cutNumber c cs).2) := by
  have hblank : ¬ (c = ' ' ∨ c = '\t' ∨ c = '\r' ∨ c = '\x0c') := by
    rintro (rfl | rfl | rfl | rfl) <;> cases hc
  rw [Piece.cut, if_neg (Decimal.ne_of_isDigit hc (by decide)), if_neg hblank,
    if_neg (Decimal.ne_of_isDigit hc (by decide)), if_pos hc]

/-- A number is read as one, if what follows does not go on with it. -/
theorem scan_numeral (h : IsNumeral cs) (hr : endsNumber rest = true) (hs : scan line rest = .ok ts) :
    scan line (cs ++ rest) = .ok (⟨.number (String.ofList cs), line⟩ :: ts) := by
  obtain ⟨whole, fraction, exponent, rfl, ⟨hne, hw⟩, hf, he⟩ := h
  obtain ⟨c, cs, rfl⟩ := List.exists_cons_of_ne_nil hne
  obtain ⟨hc, hcs⟩ := List.forall_mem_cons.mp hw
  rw [List.append_assoc, List.append_assoc, List.cons_append, List.cons_append]
  refine scan_token ?_ hs
  rw [cut_number hc, cutNumber_append hcs hf he hr]

/-- A number in positional notation is read as one, if what follows does not go on with it. -/
theorem scan_number {whole fraction : List Char} (hne : whole ≠ []) (hw : ∀ c ∈ whole, c.isDigit = true)
    (hf : ∀ c ∈ fraction, c.isDigit = true) (hr : endsNumber rest = true) (hs : scan line rest = .ok ts) :
    scan line (positional whole fraction ++ rest) =
      .ok (⟨.number (String.ofList (positional whole fraction)), line⟩ :: ts) := by
  refine scan_numeral ⟨whole, if fraction = [] then [] else '.' :: fraction, [], ?_, ⟨hne, hw⟩, ?_, .none⟩ hr hs
  · rw [List.append_nil]
    rfl
  · by_cases hempty : fraction = []
    · rw [if_pos hempty]
      exact .none
    · rw [if_neg hempty]
      exact .digits ⟨hempty, hf⟩

end Numbers

end Listwise.Token

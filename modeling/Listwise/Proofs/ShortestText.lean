import Listwise.Proofs.PlainNumerals
import Mathlib.Computability.RegularExpressions

/-!
# The text of a number

A number is shown in its shortest form, and this is determined by its value.  The text is read back as the shortest
form, so it says which one it is; and it is a numeral without redundant zeros, which a regular expression describes.

* `Pattern.shortest`: numerals without redundant zeros.
* `Pattern.trimmed_mem_shortest`: what is left of a numeral without its redundant zeros is one of them.
* `Decimal.toText_canonical_eq_trimmed`: the text of a shortest form is such a rest.
* `numbers_have_one_text`: numbers are shown alike exactly if they have the same value.
-/

namespace Listwise

open Decimal (signChars positional)

/-! ## Regular expressions -/

namespace Pattern

open RegularExpression (char)

/-- One of some characters. -/
def anyOf : List Char → RegularExpression Char
  | [] => 0
  | c :: cs => char c + anyOf cs

/-- `[0-9]` -/
def digit : RegularExpression Char := anyOf "0123456789".toList

/-- `[1-9]` -/
def nonzero : RegularExpression Char := anyOf "123456789".toList

/-- `0|[1-9][0-9]*` -/
def whole : RegularExpression Char := char '0' + nonzero * digit.star

/-- `.[0-9]*[1-9]`, with the point as it is. -/
def fraction : RegularExpression Char := char '.' * (digit.star * nonzero)

/-- `-?(0|[1-9][0-9]*)(.[0-9]*[1-9])?`: the numerals without redundant zeros. -/
def shortest : RegularExpression Char := (1 + char '-') * (whole * (1 + fraction))

section Matches

open RegularExpression

variable {c : Char} {cs xs : List Char}

theorem mem_anyOf (h : c ∈ cs) : [c] ∈ (anyOf cs).matches' := by
  induction cs with
  | nil => simp at h
  | cons x cs ih =>
    rw [anyOf, matches'_add, Language.mem_add]
    rcases List.mem_cons.mp h with rfl | h
    · exact .inl rfl
    · exact .inr (ih h)

theorem mem_star_anyOf (h : ∀ x ∈ xs, x ∈ cs) : xs ∈ (anyOf cs).star.matches' := by
  rw [matches'_star, Language.mem_kstar]
  refine ⟨xs.map fun x => [x], (List.flatMap_singleton' xs).symm, ?_⟩
  intro word hword
  obtain ⟨x, hx, rfl⟩ := List.mem_map.mp hword
  exact mem_anyOf (h x hx)

theorem mem_digits (h : c.isDigit = true) : c ∈ "0123456789".toList := by
  have hall : ∀ n < 10, n.digitChar ∈ "0123456789".toList := by decide
  obtain ⟨n, hn, rfl⟩ := exists_digitChar h
  exact hall n hn

theorem mem_nonzero (h : c.isDigit = true) (hzero : c ≠ '0') : [c] ∈ nonzero.matches' :=
  mem_anyOf ((List.mem_cons.mp (mem_digits h)).resolve_left hzero)

theorem mem_star_digit (h : ∀ c ∈ cs, c.isDigit = true) : cs ∈ digit.star.matches' :=
  mem_star_anyOf fun c hc => mem_digits (h c hc)

theorem mem_whole (h : Token.IsDigits cs) (hfront : cs = ['0'] ∨ cs.head? ≠ some '0') : cs ∈ whole.matches' := by
  rw [whole, matches'_add, Language.mem_add, matches'_mul]
  rcases hfront with rfl | hfront
  · exact .inl rfl
  · obtain ⟨c, cs, rfl⟩ := List.exists_cons_of_ne_nil h.1
    obtain ⟨hc, hcs⟩ := List.forall_mem_cons.mp h.2
    have hzero : c ≠ '0' := fun hc => hfront (congrArg some hc)
    exact .inr (Language.append_mem_mul (mem_nonzero hc hzero) (mem_star_digit hcs))

theorem mem_fraction (h : ∀ c ∈ cs, c.isDigit = true) (hne : cs ≠ []) (hlast : cs.getLast hne ≠ '0') :
    '.' :: cs ∈ fraction.matches' := by
  have hdigits : ∀ c ∈ cs.dropLast, c.isDigit = true := fun c hc => h c (List.mem_of_mem_dropLast hc)
  have hnonzero := mem_nonzero (h _ (List.getLast_mem hne)) hlast
  rw [fraction, matches'_mul, matches'_mul, ← List.dropLast_append_getLast hne]
  exact Language.append_mem_mul (a := ['.']) rfl (Language.append_mem_mul (mem_star_digit hdigits) hnonzero)

/-- **A numeral without its redundant zeros** matches. -/
theorem trimmed_mem_shortest (t : Numeral) : t.trimmed.chars ∈ shortest.matches' := by
  rw [shortest, matches'_mul, matches'_mul, matches'_add, matches'_add]
  refine Language.append_mem_mul ?_ (Language.append_mem_mul (mem_whole t.trimmed.whole_digits ?_) ?_)
  · cases t.trimmed.negative with
    | true => exact .inr rfl
    | false => exact .inl rfl
  · exact head?_trimFront t.whole
  · by_cases hempty : t.trimmed.fraction = []
    · rw [if_pos hempty]
      exact .inl rfl
    · have hlast := List.rdropWhile_last_not (· == '0') t.fraction hempty
      rw [if_neg hempty]
      exact .inr (mem_fraction t.trimmed.fraction_digits hempty fun h => hlast (beq_iff_eq.mpr h))

example : ["0", "-10.05", "0.001"].all (fun text => shortest.rmatch text.toList) = true ∧
    ["007", "1.50", "-.5", "1."].any (fun text => shortest.rmatch text.toList) = false := by decide +kernel

end Matches

end Pattern

/-! ## Shortest forms -/

namespace Decimal

/-- A decimal as it is written. -/
def numeral (d : Decimal) : Numeral where
  negative := d.negative
  whole := d.wholeDigits
  fraction := d.fractionDigits
  whole_digits := ⟨d.wholeDigits_ne_nil, d.isDigit_wholeDigits⟩
  fraction_digits := d.isDigit_fractionDigits

theorem coefficient_numeral (d : Decimal) : d.numeral.coefficient = d.mantissa := by
  show Nat.ofDigitChars 10 (d.wholeDigits ++ d.fractionDigits) 0 = d.mantissa
  rw [whole_append_fraction, ofDigitChars_paddedDigits]

/-- A shortest form is written without redundant zeros. -/
theorem toText_canonical_eq_trimmed (d : Decimal) : d.canonical.toText = d.canonical.numeral.trimmed.text := by
  have hnegative : d.canonical.negative = (d.canonical.negative && d.canonical.numeral.coefficient != 0) := by
    rw [coefficient_numeral]
    cases h : d.canonical.negative with
    | false => rfl
    | true => simpa using canonical_mantissa_ne_zero h
  have hscale : d.canonical.scale = d.canonical.numeral.fraction.length := (length_fractionDigits d.canonical).symm
  rw [← toText_canonical (d := d.canonical) hnegative (coefficient_numeral _).symm hscale, canonical_canonical]

/-- No zero has a sign: `-0` is read as `0`, which is shown without one. -/
theorem toText_canonical_ne (d : Decimal) : d.canonical.toText ≠ "-0" := by
  intro h
  have hread := parse?_canonical_toText d
  have hzero : parse? "-0" = some 0 := by decide
  rw [h, hzero] at hread
  rw [← Option.some.inj hread] at h
  exact absurd h (by decide)

end Decimal

/-- **A number has one text.**  Numbers are shown alike exactly if they have the same value.  The text has no redundant
zeros and is never `-0`, and it is read back as the shortest form of the number, which has the same value and is its own
shortest form. -/
theorem numbers_have_one_text (a b : Decimal) :
    ((Value.number a).render = (Value.number b).render ↔ a.toRat = b.toRat) ∧
      (Value.number a).render.toList ∈ Pattern.shortest.matches' ∧ (Value.number a).render ≠ "-0" ∧
      Decimal.parse? (Value.number a).render = some a.canonical ∧
      a.canonical.canonical = a.canonical ∧ a.canonical.toRat = a.toRat := by
  have hread : ∀ d : Decimal, Decimal.parse? (Value.number d).render = some d.canonical :=
    Decimal.parse?_canonical_toText
  have hvalue := Decimal.equiv_iff.mp (Decimal.canonical_equiv a)
  refine ⟨⟨fun h => ?_, fun h => ?_⟩, ?_, a.toText_canonical_ne, hread a, a.canonical_canonical, hvalue⟩
  · have hcanonical : a.canonical = b.canonical := Option.some.inj ((hread a).symm.trans (h ▸ hread b))
    exact Decimal.equiv_iff.mp (Decimal.canonical_eq_iff.mp hcanonical)
  · have hcanonical := Decimal.canonical_eq_iff.mpr (Decimal.equiv_iff.mpr h)
    show a.canonical.toText = b.canonical.toText
    rw [hcanonical]
  · show a.canonical.toText.toList ∈ _
    rw [a.toText_canonical_eq_trimmed, Numeral.text, String.toList_ofList]
    exact Pattern.trimmed_mem_shortest _

end Listwise

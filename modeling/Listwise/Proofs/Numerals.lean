import Listwise.Statement
import Listwise.Proofs.DecimalRounding
import Listwise.Proofs.Lexing
import Mathlib.Tactic.IntervalCases

/-!
# Numbers as they are written

A numeral is a sign, digits, and digits behind a point; a scientific numeral has an exponent as well.  The value of
either is a rational number, whether a decimal can hold it or not.

* `Numeral.Fits`: all digits find room in a decimal.
* `Numeral.room`: how many digits behind the point find room.
* `parse?_of_fits`, `parse?_of_not_fits`: a numeral is read exactly, or not at all.
* `rounded?_eq_some`: the mantissa of a scientific numeral is rounded to the digits that find room.
* `toRat_shift?`: its exponent is applied exactly.
* `scientific_numerals_round_mantissas_only`: so a scientific numeral is read exactly if its mantissa is.
-/

namespace Listwise

open Decimal (signChars positional capacity maxScale)

/-! ## Definitions -/

/-- A number without an exponent, as it is written: `digits` or `digits.digits`, with or without a minus sign. -/
structure Numeral where
  negative : Bool
  whole : List Char
  fraction : List Char
  whole_digits : Token.IsDigits whole
  fraction_digits : ∀ c ∈ fraction, c.isDigit = true

/-- A number with an exponent, as it is written: a numeral, `e` or `E`, a sign or none, and digits. -/
structure Scientific extends Numeral where
  mark : Char
  sign : List Char
  power : List Char
  mark_eq : mark = 'e' ∨ mark = 'E'
  sign_eq : sign = [] ∨ sign = ['+'] ∨ sign = ['-']
  power_digits : Token.IsDigits power

/-- The number with a sign. -/
def signed (negative : Bool) (x : ℚ) : ℚ := if negative then -x else x

namespace Numeral

variable (t : Numeral)

def chars : List Char := signChars t.negative ++ positional t.whole t.fraction

def text : String := String.ofList t.chars

/-- All digits read as one integer. -/
def coefficient : Nat := Nat.ofDigitChars 10 (t.whole ++ t.fraction) 0

/-- The number that is written. -/
def value : ℚ := signed t.negative (t.coefficient / 10 ^ t.fraction.length)

/-- All digits find room in a decimal. -/
def Fits : Prop := t.fraction.length ≤ 28 ∧ t.coefficient < 2 ^ 96

/-- The number of digits behind the point that find room: as many as a decimal has at most, and as make a mantissa
together with those before the point. -/
def room : Nat :=
  Nat.findGreatest (fun k => Nat.ofDigitChars 10 (t.whole ++ t.fraction.take k) 0 < 2 ^ 96) (min t.fraction.length 28)

/-- The digits that find room, read as one integer. -/
def kept : Nat := Nat.ofDigitChars 10 (t.whole ++ t.fraction.take t.room) 0

/-- The digits that find no room. -/
def dropped : List Char := t.fraction.drop t.room

end Numeral

namespace Scientific

variable (l : Scientific)

def chars : List Char := l.toNumeral.chars ++ l.mark :: (l.sign ++ l.power)

def text : String := String.ofList l.chars

/-- The exponent without its sign. -/
def places : Nat := Nat.ofDigitChars 10 l.power 0

def exponent : ℤ := if l.sign = ['-'] then -l.places else l.places

/-- The number that is written. -/
def value : ℚ := l.toNumeral.value * 10 ^ l.exponent

/-- The point can be moved by the exponent: no more than `28` digits are behind it then, or zeros can be filled in to
the left of it. -/
def Movable : Prop :=
  if l.sign = ['-'] then l.fraction.length + l.places ≤ 28
  else l.places ≤ l.fraction.length ∨
    l.places ≤ 28 ∧ l.coefficient * 10 ^ (l.places - l.fraction.length) < 2 ^ 96

/-- A decimal with the point moved by the exponent. -/
def shift? (d : Decimal) : Option Decimal :=
  if l.sign = ['-'] then d.scaleDown? l.places else d.scaleUp? l.places

end Scientific

/-! ## Digits -/

section Digits

variable {c : Char} {cs : List Char} {m s : Nat}

theorem exists_digitChar (h : c.isDigit = true) : ∃ n < 10, c = n.digitChar := by
  obtain ⟨hlow, hhigh⟩ := Char.isDigit_iff_toNat.mp h
  have h0 : '0'.toNat = 48 := rfl
  have h9 : '9'.toNat = 57 := rfl
  have hlt : c.toNat - 48 < 10 := by omega
  refine ⟨c.toNat - 48, hlt, Char.toNat_inj.mp ?_⟩
  rw [Nat.toNat_digitChar_of_lt_ten hlt]
  omega

theorem digitValue_lt (h : c.isDigit = true) : c.toNat - '0'.toNat < 10 := by
  obtain ⟨-, hhigh⟩ := Char.isDigit_iff_toNat.mp h
  have h0 : '0'.toNat = 48 := rfl
  have h9 : '9'.toNat = 57 := rfl
  omega

theorem digitValue_eq_zero_iff (h : c.isDigit = true) : c.toNat - '0'.toNat = 0 ↔ c = '0' := by
  obtain ⟨n, hn, rfl⟩ := exists_digitChar h
  rw [Nat.digitChar_eq_zero]
  exact Eq.congr_left (Nat.toNat_digitChar_sub_48_of_lt_ten hn)

theorem ofDigitChars_cons_zero (c : Char) (cs : List Char) :
    Nat.ofDigitChars 10 (c :: cs) 0 = 10 ^ cs.length * (c.toNat - '0'.toNat) + Nat.ofDigitChars 10 cs 0 := by
  rw [Nat.ofDigitChars_cons, Nat.ofDigitChars_eq_ofDigitChars_zero, Nat.mul_zero, Nat.zero_add]

theorem ofDigitChars_lt (h : ∀ c ∈ cs, c.isDigit = true) : Nat.ofDigitChars 10 cs 0 < 10 ^ cs.length := by
  induction cs with
  | nil => exact Nat.one_pos
  | cons c cs ih =>
    obtain ⟨hc, hcs⟩ := List.forall_mem_cons.mp h
    have hdigit := digitValue_lt hc
    have hrest := ih hcs
    rw [ofDigitChars_cons_zero, List.length_cons, Nat.pow_succ]
    calc 10 ^ cs.length * (c.toNat - '0'.toNat) + Nat.ofDigitChars 10 cs 0
        < 10 ^ cs.length * (c.toNat - '0'.toNat) + 10 ^ cs.length := Nat.add_lt_add_left hrest _
      _ = 10 ^ cs.length * (c.toNat - '0'.toNat + 1) := (Nat.mul_succ _ _).symm
      _ ≤ 10 ^ cs.length * 10 := Nat.mul_le_mul_left _ hdigit

theorem ofDigitChars_eq_zero_iff (h : ∀ c ∈ cs, c.isDigit = true) :
    Nat.ofDigitChars 10 cs 0 = 0 ↔ ∀ c ∈ cs, c = '0' := by
  induction cs with
  | nil => simp
  | cons c cs ih =>
    obtain ⟨hc, hcs⟩ := List.forall_mem_cons.mp h
    rw [ofDigitChars_cons_zero, List.forall_mem_cons, ← ih hcs, ← digitValue_eq_zero_iff hc]
    simp

theorem ofDigitChars_take_mono {i j : Nat} (h : i ≤ j) :
    Nat.ofDigitChars 10 (cs.take i) m ≤ Nat.ofDigitChars 10 (cs.take j) m := by
  obtain ⟨rest, hrest⟩ := List.take_prefix_take_left (l := cs) h
  rw [← hrest, Nat.ofDigitChars_append]
  exact Decimal.le_ofDigitChars _ rest

/-- Digits are taken in as long as there is room, and no longer. -/
theorem takeFraction_eq (hd : ∀ c ∈ cs, c.isDigit = true) (hs : s ≤ maxScale) (hm : m < capacity) :
    ∃ k ≤ cs.length, Decimal.takeFraction m s cs = (Nat.ofDigitChars 10 (cs.take k) m, s + k, cs.drop k) ∧
      s + k ≤ maxScale ∧ Nat.ofDigitChars 10 (cs.take k) m < capacity ∧
      (k < cs.length → s + k = maxScale ∨ capacity ≤ Nat.ofDigitChars 10 (cs.take (k + 1)) m) := by
  induction cs generalizing m s with
  | nil => exact ⟨0, Nat.le_refl _, rfl, hs, hm, nofun⟩
  | cons c cs ih =>
    obtain ⟨hc, hcs⟩ := List.forall_mem_cons.mp hd
    have hseparator : c ≠ '_' := Decimal.ne_of_isDigit hc (by decide)
    by_cases hfull : s = maxScale
    · refine ⟨0, Nat.zero_le _, ?_, hs, hm, fun _ => .inl hfull⟩
      rw [Decimal.takeFraction, if_pos hfull]
      rfl
    by_cases hfits : 10 * m + (c.toNat - '0'.toNat) < capacity
    · have hscale : s + 1 ≤ maxScale := by omega
      obtain ⟨k, hk, htake, hscale, hlt, hnext⟩ := ih hcs hscale hfits
      rw [Nat.add_assoc, Nat.add_comm 1] at htake hscale hnext
      refine ⟨k + 1, Nat.succ_le_succ hk, ?_, hscale, hlt, fun hmore => ?_⟩
      · rw [Decimal.takeFraction, if_neg hfull, if_neg hseparator]
        dsimp only
        rw [if_pos hfits, htake]
        rfl
      · exact hnext (Nat.lt_of_succ_lt_succ hmore)
    · refine ⟨0, Nat.zero_le _, ?_, hs, hm, fun _ => .inr (Nat.le_of_not_lt hfits)⟩
      rw [Decimal.takeFraction, if_neg hfull, if_neg hseparator]
      dsimp only
      rw [if_neg hfits]
      rfl

end Digits

/-! ## Room for digits -/

namespace Numeral

section Room

variable (t : Numeral)

theorem digits : ∀ c ∈ t.whole ++ t.fraction, c.isDigit = true :=
  List.forall_mem_append.mpr ⟨t.whole_digits.2, t.fraction_digits⟩

theorem room_le : t.room ≤ min t.fraction.length 28 := Nat.findGreatest_le _

theorem length_fraction : t.fraction.length = t.room + t.dropped.length := by
  have h := t.room_le
  rw [dropped, List.length_drop]
  omega

theorem dropped_digits : ∀ c ∈ t.dropped, c.isDigit = true :=
  fun c hc => t.fraction_digits c (List.mem_of_mem_drop hc)

theorem coefficient_eq :
    t.coefficient = t.kept * 10 ^ t.dropped.length + Nat.ofDigitChars 10 t.dropped 0 := by
  have hsplit : t.whole ++ t.fraction = (t.whole ++ t.fraction.take t.room) ++ t.dropped := by
    rw [List.append_assoc, dropped, List.take_append_drop]
  rw [coefficient, hsplit, Nat.ofDigitChars_append, Nat.ofDigitChars_eq_ofDigitChars_zero, Nat.mul_comm, kept]

variable {t} (hwhole : Nat.ofDigitChars 10 t.whole 0 < capacity)
include hwhole

theorem kept_lt : t.kept < capacity := by
  have hstart : Nat.ofDigitChars 10 (t.whole ++ t.fraction.take 0) 0 < 2 ^ 96 := by
    rwa [List.take_zero, List.append_nil]
  exact Nat.findGreatest_spec (P := fun k => Nat.ofDigitChars 10 (t.whole ++ t.fraction.take k) 0 < 2 ^ 96)
    (Nat.zero_le _) hstart

/-- The digits that are taken in are those that find room. -/
theorem takeFraction_room :
    Decimal.takeFraction (Nat.ofDigitChars 10 t.whole 0) 0 t.fraction = (t.kept, t.room, t.dropped) := by
  obtain ⟨k, hk, htake, hscale, hlt, hnext⟩ := takeFraction_eq t.fraction_digits (Nat.zero_le _) hwhole
  rw [Nat.zero_add] at htake hscale hnext
  rw [← Nat.ofDigitChars_append] at htake hlt hnext
  have hroom : t.room = k := by
    refine Nat.findGreatest_eq_iff.mpr ⟨Nat.le_min.mpr ⟨hk, hscale⟩, fun _ => hlt, fun j hkj hj => ?_⟩
    obtain ⟨hlength, hplaces⟩ := Nat.le_min.mp hj
    rcases hnext (by omega) with hfull | hover
    · exact absurd (hfull ▸ hplaces) (Nat.not_le.mpr hkj)
    · -- one digit more is too much already
      rw [Nat.ofDigitChars_append] at hover ⊢
      exact Nat.not_lt.mpr (hover.trans (ofDigitChars_take_mono hkj))
  rw [htake, kept, dropped, hroom]

theorem fits_iff : t.Fits ↔ t.dropped = [] := by
  have hlength := t.length_fraction
  have hcoefficient := t.coefficient_eq
  constructor
  · rintro ⟨hplaces, hlt⟩
    have hall : t.room = min t.fraction.length 28 := by
      refine Nat.findGreatest_eq ?_
      rwa [Nat.min_eq_left hplaces, List.take_length]
    exact List.length_eq_zero_iff.mp (by omega)
  · intro hnone
    have hroom := t.room_le
    rw [hnone, List.length_nil] at hlength hcoefficient
    rw [Nat.pow_zero, Nat.mul_one, Nat.ofDigitChars_nil, Nat.add_zero] at hcoefficient
    refine ⟨by omega, ?_⟩
    rw [hcoefficient]
    exact kept_lt hwhole

end Room

end Numeral

/-! ## Reading numerals -/

section Signs

variable {negative : Bool}

theorem signed_eq_iff {x y : ℚ} : signed negative x = signed negative y ↔ x = y := by
  unfold signed
  split
  · exact neg_inj
  · exact Iff.rfl

theorem signed_mul (x y : ℚ) : signed negative x * y = signed negative (x * y) := by
  unfold signed
  split
  · exact neg_mul x y
  · rfl

/-- The sign of zero does not matter. -/
theorem signed_and (n s : Nat) : signed (negative && n != 0) (n / 10 ^ s) = signed negative (n / 10 ^ s) := by
  by_cases hn : n = 0
  · simp [signed, hn]
  · have hne : (n != 0) = true := bne_iff_ne.mpr hn
    rw [hne, Bool.and_true]

theorem Decimal.toRat_eq_signed (d : Decimal) : d.toRat = signed d.negative (d.mantissa / 10 ^ d.scale) := by
  rw [toRat, coefficient, cast_tenPow, signed]
  split
  · push_cast
    exact neg_div _ _
  · push_cast
    rfl

theorem Decimal.toRat_of_ofParts? {n s : Nat} {d : Decimal} (h : ofParts? negative n s = some d) :
    d.toRat = signed negative (n / 10 ^ s) := by
  obtain ⟨hnegative, hmantissa, hscale⟩ := eq_of_ofParts?_eq_some h
  rw [toRat_eq_signed, hnegative, hmantissa, hscale]

theorem Decimal.exists_ofParts? {n s : Nat} : (∃ d, ofParts? negative n s = some d) ↔ n < 2 ^ 96 ∧ s ≤ 28 := by
  constructor
  · rintro ⟨d, hd⟩
    obtain ⟨-, rfl, rfl⟩ := eq_of_ofParts?_eq_some hd
    exact ⟨d.mantissa_lt, d.scale_le⟩
  · intro h
    exact ⟨_, dif_pos h⟩

end Signs

namespace Numeral

variable {t : Numeral}

theorem ofChars?_chars (t : Numeral) :
    Decimal.Parts.ofChars? t.chars = if Nat.ofDigitChars 10 t.whole 0 < capacity then
      some ⟨t.negative, Nat.ofDigitChars 10 t.whole 0, t.fraction⟩ else none :=
  Decimal.ofChars?_positional t.whole_digits.1 t.whole_digits.2 t.fraction_digits t.negative

theorem not_isExponentMark_of_mem_chars (t : Numeral) : ∀ c ∈ t.chars, Decimal.isExponentMark c = false := by
  intro c hc
  rcases Decimal.mem_positional hc with rfl | rfl | hc
  · decide
  · decide
  · exact Decimal.not_isExponentMark_of_isDigit (t.digits c hc)

/-- A zero is written with zeros only. -/
theorem any_chars_of_zero (h : t.coefficient = 0) : (t.chars.any fun c => '1' ≤ c && c ≤ '9') = false := by
  rw [List.any_eq_false]
  intro c hc
  rcases Decimal.mem_positional hc with rfl | rfl | hc
  · decide
  · decide
  · rw [(ofDigitChars_eq_zero_iff t.digits).mp h c hc]
    decide

theorem whole_lt_of_fits (h : t.Fits) : Nat.ofDigitChars 10 t.whole 0 < capacity := by
  refine Nat.lt_of_le_of_lt (Decimal.le_ofDigitChars _ t.fraction) ?_
  rw [← Nat.ofDigitChars_append]
  exact h.2

/-- A numeral that fits is read as it stands. -/
theorem parse?_of_fits (h : t.Fits) :
    ∃ d, Decimal.parse? t.text = some d ∧ d.negative = (t.negative && t.coefficient != 0) ∧
      d.mantissa = t.coefficient ∧ d.scale = t.fraction.length := by
  obtain ⟨hplaces, hlt⟩ := h
  have hread := Decimal.ofPlain?_positional t.whole_digits.1 t.whole_digits.2 t.fraction_digits hplaces hlt t.negative
  refine ⟨⟨t.negative && t.coefficient != 0, t.coefficient, t.fraction.length, hlt, hplaces⟩, ?_, rfl, rfl, rfl⟩
  rw [Decimal.parse?, text, String.toList_ofList, Decimal.ofChars?_of_not_mark t.not_isExponentMark_of_mem_chars, chars,
    hread, Decimal.ofParts?, dif_pos ⟨hlt, hplaces⟩, Option.filter_eq_some_iff]
  refine ⟨rfl, ?_⟩
  by_cases hz : t.coefficient = 0
  · rw [← chars, any_chars_of_zero hz, Bool.and_false]
    rfl
  · have hnonzero : (t.coefficient == 0) = false := beq_false_of_ne hz
    rw [Decimal.isZero, hnonzero]
    rfl

/-- A numeral that does not fit is not read. -/
theorem parse?_of_not_fits (h : ¬ t.Fits) : Decimal.parse? t.text = none := by
  have hplain : Decimal.ofPlain? t.chars = none := by
    rw [Decimal.ofPlain?, ofChars?_chars]
    split
    case isTrue hwhole =>
      obtain ⟨c, cs, hdropped⟩ := List.exists_cons_of_ne_nil fun hnone => h ((fits_iff hwhole).mpr hnone)
      rw [Option.bind_some, Decimal.Parts.exact?, takeFraction_room hwhole, hdropped]
    case isFalse => rfl
  rw [Decimal.parse?, text, String.toList_ofList, Decimal.ofChars?_of_not_mark t.not_isExponentMark_of_mem_chars,
    hplain]
  rfl

theorem mem_of_roundingDigit? {m : Nat} {left : List Char} {c : Char}
    (h : Decimal.roundingDigit? m left = some c) : c ∈ left := by
  unfold Decimal.roundingDigit? at h
  split at h
  · exact List.mem_of_head? (Option.filter_eq_some_iff.mp h).1
  · exact List.mem_of_find?_eq_some h

/-- A mantissa that has become too large is rounded up to the next number with one digit less, which is a multiple of
ten at the old scale. -/
theorem toRat_carry {negative : Bool} {n s : Nat} {d : Decimal} (hn : n ≤ capacity)
    (h : (if n < capacity then Decimal.ofParts? (negative && n != 0) n s
      else if s = 0 then none else Decimal.ofParts? negative ((n + 4) / 10) (s - 1)) = some d) :
    ∃ j : Nat, d.toRat = signed negative ((n + j : ℕ) / 10 ^ s) ∧ (n < capacity → j = 0) := by
  by_cases hlt : n < capacity
  · rw [if_pos hlt] at h
    refine ⟨0, ?_, fun _ => rfl⟩
    rw [Decimal.toRat_of_ofParts? h, signed_and, Nat.add_zero]
  · obtain rfl : n = capacity := Nat.le_antisymm hn (Nat.le_of_not_lt hlt)
    rw [if_neg hlt] at h
    by_cases hs : s = 0
    · rw [if_pos hs] at h
      cases h
    · rw [if_neg hs] at h
      refine ⟨4, ?_, fun hlt' => absurd hlt' hlt⟩
      have htens : ((capacity + 4 : ℕ) : ℚ) = ((capacity + 4) / 10 : ℕ) * 10 := by norm_num
      have hpow : (10 : ℚ) ^ s = 10 ^ (s - 1) * 10 := by rw [← pow_succ, Nat.sub_add_cancel (Nat.pos_of_ne_zero hs)]
      rw [Decimal.toRat_of_ofParts? h, htens, hpow, mul_div_mul_right _ _ (by norm_num)]

/-- A mantissa is rounded to the digits that find room; it is what it was if there were no others but zeros. -/
theorem rounded?_eq_some (hwhole : Nat.ofDigitChars 10 t.whole 0 < capacity) {d : Decimal}
    (h : Decimal.Parts.rounded? ⟨t.negative, Nat.ofDigitChars 10 t.whole 0, t.fraction⟩ = some d) :
    ∃ j : Nat, d.toRat = signed t.negative ((t.kept + j : ℕ) / 10 ^ t.room) ∧
      (Nat.ofDigitChars 10 t.dropped 0 = 0 → j = 0) := by
  have hkept := kept_lt hwhole
  rw [Decimal.Parts.rounded?, takeFraction_room hwhole] at h
  dsimp only at h
  by_cases hup : (Decimal.roundingDigit? t.kept t.dropped).any ('5' ≤ ·) = true
  · rw [if_pos hup] at h
    obtain ⟨j, hj, -⟩ := toRat_carry (n := t.kept + 1) hkept h
    refine ⟨1 + j, by rw [hj, Nat.add_assoc], fun hzero => ?_⟩
    -- a digit that rounds up is no zero
    have hzeros := (ofDigitChars_eq_zero_iff t.dropped_digits).mp hzero
    cases hc : Decimal.roundingDigit? t.kept t.dropped with
    | none =>
      rw [hc] at hup
      cases hup
    | some c =>
      rw [hc, hzeros c (mem_of_roundingDigit? hc)] at hup
      exact absurd hup (by decide)
  · rw [if_neg hup] at h
    obtain ⟨j, hj, hzero⟩ := toRat_carry hkept.le h
    exact ⟨j, hj, fun _ => hzero hkept⟩

/-- The rounded mantissa is the written one exactly if no digits but zeros are dropped. -/
theorem toRat_rounded?_iff (hwhole : Nat.ofDigitChars 10 t.whole 0 < capacity) {d : Decimal}
    (h : Decimal.Parts.rounded? ⟨t.negative, Nat.ofDigitChars 10 t.whole 0, t.fraction⟩ = some d) :
    d.toRat = t.value ↔ ∀ c ∈ t.dropped, c = '0' := by
  obtain ⟨j, hd, hj⟩ := rounded?_eq_some hwhole h
  have hlt := ofDigitChars_lt t.dropped_digits
  rw [← ofDigitChars_eq_zero_iff t.dropped_digits, hd, value, signed_eq_iff, t.length_fraction, pow_add,
    div_eq_div_iff (by positivity) (by positivity), mul_comm ((10 : ℚ) ^ t.room), ← mul_assoc,
    mul_left_inj' (by positivity), t.coefficient_eq]
  norm_cast
  constructor
  · intro hvalue
    -- what is dropped is less than one unit of what is kept
    have hunit : Nat.ofDigitChars 10 t.dropped 0 = j * 10 ^ t.dropped.length := by
      rw [Nat.add_mul] at hvalue
      omega
    rcases Nat.eq_zero_or_pos j with hzero | hpos
    · rw [hunit, hzero, Nat.zero_mul]
    · exact absurd hlt (Nat.not_lt.mpr (hunit ▸ Nat.le_mul_of_pos_left _ hpos))
  · intro hzero
    rw [hj hzero, hzero, Nat.add_zero, Nat.add_zero]

/-- A mantissa that fits is not rounded. -/
theorem rounded?_of_fits (h : t.Fits) :
    Decimal.Parts.rounded? ⟨t.negative, Nat.ofDigitChars 10 t.whole 0, t.fraction⟩ =
      Decimal.ofParts? (t.negative && t.coefficient != 0) t.coefficient t.fraction.length := by
  have hwhole := whole_lt_of_fits h
  have hdropped := (fits_iff hwhole).mp h
  have hkept : t.kept = t.coefficient := by
    rw [t.coefficient_eq, hdropped]
    simp
  have hroom : t.room = t.fraction.length := by rw [t.length_fraction, hdropped, List.length_nil, Nat.add_zero]
  have hnone : Decimal.roundingDigit? t.coefficient [] = none := by
    rw [Decimal.roundingDigit?]
    split <;> rfl
  rw [Decimal.Parts.rounded?, takeFraction_room hwhole, hkept, hroom, hdropped]
  dsimp only
  have hlt : t.coefficient < capacity := h.2
  rw [hnone, Option.any_none, if_neg Bool.false_ne_true, if_pos hlt]

end Numeral

/-! ## Exponents -/

theorem Decimal.scaleUp?_of_lt (d : Decimal) {e : Nat} (he : maxScale < e) : d.scaleUp? e = none := by
  have hscale : d.scale ≤ maxScale := d.scale_le
  rw [scaleUp?, if_neg (by omega), if_neg (by omega)]

theorem Decimal.scaleDown?_of_lt (d : Decimal) {e : Nat} (he : maxScale < e) : d.scaleDown? e = none := by
  rw [scaleDown?, if_neg (by omega)]

namespace Scientific

section Exponents

variable (l : Scientific)

/-- What is done with an exponent is done with the digits of the power.  They may be too many for an exponent, but then
they are too many for every other use. -/
theorem exponent?_power_bind {f : Nat → Option Decimal} (hf : ∀ e, maxScale < e → f e = none) :
    (Decimal.exponent? l.power).bind f = f l.places ∧ (Decimal.exponent? ('+' :: l.power)).bind f = f l.places := by
  obtain ⟨hne, hdigits⟩ := l.power_digits
  have hvalue : (if l.power ≠ [] ∧ l.power.all Char.isDigit ∧ Decimal.digitsValue l.power < 4294967296 then
      some (Decimal.digitsValue l.power) else none).bind f = f l.places := by
    have hplaces : Decimal.digitsValue l.power = l.places := by rw [Decimal.digitsValue_eq hdigits, places]
    rw [hplaces]
    split
    · rfl
    · next h =>
      rw [and_iff_right hne, and_iff_right (List.all_eq_true.mpr hdigits), not_lt] at h
      exact (hf _ (Nat.lt_of_lt_of_le (by decide) h)).symm
  refine ⟨?_, hvalue⟩
  obtain ⟨c, cs, hpower⟩ := List.exists_cons_of_ne_nil hne
  have hc : c ≠ '+' := Decimal.ne_of_isDigit (hdigits c (hpower ▸ List.mem_cons_self)) (by decide)
  rw [hpower] at hvalue ⊢
  unfold Decimal.exponent?
  dsimp only
  split
  · next heq => exact absurd (List.cons_eq_cons.mp heq).1 hc
  · exact hvalue

theorem ofScientific?_eq :
    Decimal.ofScientific? l.toNumeral.chars (l.sign ++ l.power) =
      ((Decimal.Parts.ofChars? l.toNumeral.chars).bind Decimal.Parts.rounded?).bind l.shift? := by
  rw [Decimal.ofScientific?, Option.bind_assoc]
  refine Option.bind_congr fun p _ => Option.bind_congr fun d _ => ?_
  obtain ⟨hunsigned, hplus⟩ := l.exponent?_power_bind (f := d.scaleUp?) fun _ => d.scaleUp?_of_lt
  obtain ⟨hminus, -⟩ := l.exponent?_power_bind (f := d.scaleDown?) fun _ => d.scaleDown?_of_lt
  rw [shift?]
  rcases l.sign_eq with hsign | hsign | hsign
  · obtain ⟨c, cs, hpower⟩ := List.exists_cons_of_ne_nil l.power_digits.1
    have hc : c ≠ '-' := Decimal.ne_of_isDigit (l.power_digits.2 c (hpower ▸ List.mem_cons_self)) (by decide)
    rw [hsign, if_neg nofun, List.nil_append, hpower]
    split
    · next heq => exact absurd (List.cons_eq_cons.mp heq).1 hc
    · rw [← hpower]
      exact hunsigned
  · rw [hsign, if_neg (by decide)]
    exact hplus
  · rw [hsign, if_pos rfl]
    exact hminus

theorem toRat_shift? {d x : Decimal} (h : l.shift? d = some x) : x.toRat = d.toRat * 10 ^ l.exponent := by
  unfold shift? at h
  rw [Decimal.toRat_eq_signed d, signed_mul, exponent]
  split at h
  · next hminus =>
    unfold Decimal.scaleDown? at h
    split_ifs at h
    rw [if_pos hminus, Decimal.toRat_of_ofParts? h, signed_eq_iff, zpow_neg, zpow_natCast, pow_add, div_mul_eq_div_div,
      div_eq_mul_inv _ ((10 : ℚ) ^ l.places)]
  · next hplus =>
    rw [if_neg hplus, zpow_natCast]
    unfold Decimal.scaleUp? at h
    split_ifs at h with hscale hplaces
    · rw [Decimal.toRat_of_ofParts? h, signed_eq_iff, div_mul_eq_mul_div,
        div_eq_div_iff (by positivity) (by positivity), mul_assoc, ← pow_add, Nat.add_sub_cancel' hscale]
    · have hpow : (10 : ℚ) ^ l.places = 10 ^ (l.places - d.scale) * 10 ^ d.scale := by
        rw [← pow_add, Nat.sub_add_cancel (Nat.le_of_not_le hscale)]
      rw [Decimal.toRat_of_ofParts? h, signed_eq_iff, pow_zero, div_one, Nat.cast_mul, cast_tenPow, hpow,
        div_mul_eq_mul_div, ← mul_assoc, mul_div_cancel_right₀ _ (by positivity)]

/-- A decimal as the mantissa is read can be moved exactly if the numeral can. -/
theorem shift?_of_movable {d : Decimal} (hmantissa : d.mantissa = l.coefficient)
    (hscale : d.scale = l.fraction.length) : (∃ x, l.shift? d = some x) ↔ l.Movable := by
  have hlt : l.coefficient < 2 ^ 96 := hmantissa ▸ d.mantissa_lt
  have hle : l.fraction.length ≤ 28 := hscale ▸ d.scale_le
  unfold shift? Movable
  split
  · unfold Decimal.scaleDown?
    split_ifs with hplaces
    · rw [Decimal.exists_ofParts?, hmantissa, hscale, and_iff_right hlt]
    · exact ⟨nofun, fun h => absurd ((Nat.le_add_left _ _).trans h) hplaces⟩
  · unfold Decimal.scaleUp?
    rw [hscale, hmantissa]
    split_ifs with hmove hplaces
    · rw [Decimal.exists_ofParts?]
      exact ⟨fun _ => .inl hmove, fun _ => ⟨hlt, by omega⟩⟩
    · rw [Decimal.exists_ofParts?, and_iff_left (Nat.zero_le _), or_iff_right hmove]
      exact ⟨fun h => ⟨hplaces, h⟩, fun h => h.2⟩
    · refine ⟨nofun, ?_⟩
      rintro (h | ⟨h, -⟩)
      · exact absurd h hmove
      · exact absurd h hplaces

end Exponents

/-! ## Reading scientific numerals -/

section Reading

variable {l : Scientific} {d : Decimal}

theorem parse?_text (l : Scientific) :
    Decimal.parse? l.text =
      (((Decimal.Parts.ofChars? l.toNumeral.chars).bind Decimal.Parts.rounded?).bind l.shift?).filter fun d =>
        !(d.isZero && l.toNumeral.chars.any fun c => '1' ≤ c && c ≤ '9') := by
  have hmarks : ∀ c ∈ l.toNumeral.chars, (!Decimal.isExponentMark c) = true := by
    intro c hc
    rw [l.not_isExponentMark_of_mem_chars c hc]
    rfl
  have hmark : ∀ c ∈ (l.mark :: (l.sign ++ l.power)).head?, (!Decimal.isExponentMark c) = false := by
    rintro c ⟨⟩
    rcases l.mark_eq with h | h <;> rw [h] <;> rfl
  obtain ⟨htake, hdrop⟩ := Token.cut_while hmarks hmark
  rw [Decimal.parse?, text, String.toList_ofList, chars, Decimal.ofChars?]
  simp only [htake, hdrop, ofScientific?_eq]

/-- What a numeral is read as: its rounded mantissa, moved by its exponent. -/
theorem exists_rounded? (h : Decimal.parse? l.text = some d) :
    Nat.ofDigitChars 10 l.whole 0 < capacity ∧
      ∃ x, Decimal.Parts.rounded? ⟨l.negative, Nat.ofDigitChars 10 l.whole 0, l.fraction⟩ = some x ∧
        l.shift? x = some d := by
  rw [parse?_text, Option.filter_eq_some_iff, Numeral.ofChars?_chars] at h
  obtain ⟨x, hx, hshift⟩ := Option.bind_eq_some_iff.mp h.1
  by_cases hwhole : Nat.ofDigitChars 10 l.whole 0 < capacity
  · rw [if_pos hwhole, Option.bind_some] at hx
    exact ⟨hwhole, x, hx, hshift⟩
  · rw [if_neg hwhole] at hx
    cases hx

theorem toRat_eq_value_iff (h : Decimal.parse? l.text = some d) :
    d.toRat = l.value ↔ ∀ c ∈ l.dropped, c = '0' := by
  obtain ⟨hwhole, x, hx, hshift⟩ := exists_rounded? h
  have hpow : (10 : ℚ) ^ l.exponent ≠ 0 := zpow_ne_zero _ (by norm_num)
  rw [l.toRat_shift? hshift, value, mul_left_inj' hpow, Numeral.toRat_rounded?_iff hwhole hx]

/-- A mantissa that fits is moved as it stands. -/
theorem parse?_of_mantissa_fits (h : l.Fits) : (∃ d, Decimal.parse? l.text = some d) ↔ l.Movable := by
  set x : Decimal := ⟨l.negative && l.coefficient != 0, l.coefficient, l.fraction.length, h.2, h.1⟩
  have hmantissa : (Decimal.Parts.ofChars? l.toNumeral.chars).bind Decimal.Parts.rounded? = some x := by
    rw [Numeral.ofChars?_chars, if_pos (Numeral.whole_lt_of_fits h), Option.bind_some, Numeral.rounded?_of_fits h,
      Decimal.ofParts?, dif_pos ⟨h.2, h.1⟩]
  rw [← l.shift?_of_movable (d := x) rfl rfl, parse?_text, hmantissa, Option.bind_some]
  constructor
  · rintro ⟨d, hd⟩
    exact ⟨d, (Option.filter_eq_some_iff.mp hd).1⟩
  · rintro ⟨d, hd⟩
    refine ⟨d, Option.filter_eq_some_iff.mpr ⟨hd, ?_⟩⟩
    by_cases hz : l.coefficient = 0
    · rw [Numeral.any_chars_of_zero hz, Bool.and_false]
      rfl
    · have hnonzero : d.isZero = false := by
        have hpow : (10 : ℚ) ^ l.exponent ≠ 0 := zpow_ne_zero _ (by norm_num)
        rw [Bool.eq_false_iff]
        intro hzero
        rw [Decimal.isZero_iff, l.toRat_shift? hd, mul_eq_zero, or_iff_left hpow, Decimal.toRat_eq_zero_iff] at hzero
        exact hz hzero
      rw [hnonzero]
      rfl

end Reading

end Scientific

/-! ## Literals on a line -/

section Lines

variable {text : String} {line : Nat}

theorem readDecimal_eq_ok {d : Decimal} : readDecimal text line = .ok d ↔ Decimal.parse? text = some d := by
  unfold readDecimal
  cases Decimal.parse? text <;> simp

theorem readDecimal_eq_error {e : Error} :
    readDecimal text line = .error e ↔ Decimal.parse? text = none ∧ e = ⟨.malformedNumber text, line⟩ := by
  unfold readDecimal
  cases Decimal.parse? text <;> simp [eq_comm]

/-- **A scientific numeral loses what its mantissa loses, and nothing else.**  What it is read as is the number that is
written exactly if no digits but zeros are dropped from its mantissa; if none are and no decimal is the number that is
written, the numeral is malformed.  None are dropped from a mantissa that fits, so it is read as it is written if the
point can be moved by the exponent, and is malformed otherwise.  There is no other error. -/
theorem scientific_numerals_round_mantissas_only (l : Scientific) (line : Nat) :
    (∀ d, readDecimal l.text line = .ok d → (d.toRat = l.value ↔ ∀ c ∈ l.dropped, c = '0')) ∧
    ((∀ c ∈ l.dropped, c = '0') → (∀ d : Decimal, d.toRat ≠ l.value) →
      readDecimal l.text line = .error ⟨.malformedNumber l.text, line⟩) ∧
    (l.Fits → l.Movable → ∃ d, readDecimal l.text line = .ok d ∧ d.toRat = l.value) ∧
    (l.Fits → ¬ l.Movable → readDecimal l.text line = .error ⟨.malformedNumber l.text, line⟩) ∧
    ∀ e, readDecimal l.text line = .error e → e = ⟨.malformedNumber l.text, line⟩ := by
  refine ⟨fun d hd => Scientific.toRat_eq_value_iff (readDecimal_eq_ok.mp hd), ?_, ?_, ?_,
    fun e he => (readDecimal_eq_error.mp he).2⟩
  · intro hdropped hnone
    refine readDecimal_eq_error.mpr ⟨Option.eq_none_iff_forall_ne_some.mpr fun d hd => ?_, rfl⟩
    exact hnone d ((Scientific.toRat_eq_value_iff hd).mpr hdropped)
  · intro hfits hmovable
    obtain ⟨d, hd⟩ := (Scientific.parse?_of_mantissa_fits hfits).mpr hmovable
    have hdropped := (Numeral.fits_iff (Numeral.whole_lt_of_fits hfits)).mp hfits
    refine ⟨d, readDecimal_eq_ok.mpr hd, (Scientific.toRat_eq_value_iff hd).mpr ?_⟩
    rw [hdropped]
    exact List.forall_mem_nil _
  · intro hfits hmovable
    refine readDecimal_eq_error.mpr ⟨Option.eq_none_iff_forall_ne_some.mpr fun d hd => ?_, rfl⟩
    exact hmovable ((Scientific.parse?_of_mantissa_fits hfits).mp ⟨d, hd⟩)

/-- A sign, a fraction that ends with a zero, and an exponent beyond the fraction. -/
theorem scientific_numerals_round_mantissas_only_moved :
    let l : Scientific :=
      { negative := true, whole := ['1', '2'], fraction := ['5', '0'], mark := 'e', sign := ['+'], power := ['3'],
        whole_digits := ⟨nofun, List.all_eq_true.mp rfl⟩, fraction_digits := List.all_eq_true.mp rfl,
        mark_eq := by decide, sign_eq := by decide, power_digits := ⟨nofun, List.all_eq_true.mp rfl⟩ }
    l.text = "-12.50e+3" ∧ l.Fits ∧ l.Movable ∧ ∃ d, readDecimal "-12.50e+3" 4 = .ok d ∧ d.toRat = -12500 := by
  intro l
  have htext : l.text = "-12.50e+3" := rfl
  have hfits : l.Fits := ⟨by decide, by decide⟩
  have hmovable : l.Movable := by
    unfold Scientific.Movable
    decide
  obtain ⟨d, hd, hvalue⟩ := (scientific_numerals_round_mantissas_only l 4).2.2.1 hfits hmovable
  refine ⟨htext, hfits, hmovable, d, hd, hvalue.trans ?_⟩
  have hcoefficient : l.coefficient = 1250 := by decide
  have hexponent : l.exponent = 3 := by decide
  have hplaces : l.fraction.length = 2 := rfl
  have hnegative : l.negative = true := rfl
  rw [Scientific.value, Numeral.value, signed, hcoefficient, hexponent, hplaces, hnegative]
  norm_num

/-- A mantissa with one digit too many is rounded, though no decimal is the number that is written. -/
theorem scientific_numeral_is_rounded :
    let l : Scientific :=
      { negative := false, whole := ['1'], fraction := List.replicate 28 '0' ++ ['5'], mark := 'e', sign := [],
        power := ['3'], whole_digits := ⟨nofun, List.all_eq_true.mp rfl⟩, fraction_digits := List.all_eq_true.mp rfl,
        mark_eq := by decide, sign_eq := by decide, power_digits := ⟨nofun, List.all_eq_true.mp rfl⟩ }
    l.text = "1.00000000000000000000000000005e3" ∧ (∀ d : Decimal, d.toRat ≠ l.value) ∧
      readDecimal l.text 1 = .ok ⟨false, 10000000000000000000000000001, 25, by decide, by decide⟩ := by
  intro l
  have hvalue : l.value = 100000000000000000000000000005 / 10 ^ 26 := by
    have hcoefficient : l.coefficient = 100000000000000000000000000005 := by decide
    have hexponent : l.exponent = 3 := by decide
    have hplaces : l.fraction.length = 29 := rfl
    have hnegative : l.negative = false := rfl
    rw [Scientific.value, Numeral.value, signed, hcoefficient, hexponent, hplaces, hnegative]
    norm_num
  refine ⟨rfl, fun d hd => ?_, by decide +kernel⟩
  have hsize : d.mantissa * 10 ^ 26 = 100000000000000000000000000005 * 10 ^ d.scale := by
    have habs := congrArg abs hd
    rw [hvalue, Decimal.abs_toRat, abs_of_nonneg (by positivity), cast_tenPow,
      div_eq_div_iff (by positivity) (by positivity)] at habs
    exact_mod_cast habs
  -- with fewer digits behind the point the last one is lost, with more of them the mantissa is too large
  have hmantissa : d.mantissa < 2 ^ 96 := d.mantissa_lt
  have hscale : d.scale ≤ 28 := d.scale_le
  generalize d.scale = s at hsize hscale
  interval_cases s <;> omega

end Lines

end Listwise

import Listwise.Decimal.Literal
import Listwise.Decimal.Text
import Mathlib.Tactic.SplitIfs

/-!
# Decimals written and read back

`toChars` writes digits, and a point and more digits if there is a scale (`positional`); `parse?` takes the digits in
one by one, and all of them find room, since those before them make a smaller number.

* `parse?_toText`: a decimal is read back from its text, down to its scale, unless it is a negative zero.
* `canonical_canonical`: a shortest form has a shortest form, itself.
* `negative_ofChars?`: a literal that begins with a digit has no sign.
-/

namespace Listwise.Decimal

/-! ## Digits -/

section Digits

variable {cs : List Char} {m s n w : Nat}

theorem ne_of_isDigit {c : Char} (h : c.isDigit = true) {x : Char} (hx : x.isDigit = false) : c ≠ x := by
  rintro rfl
  rw [h] at hx
  cases hx

theorem digitsValue_eq (h : ∀ c ∈ cs, c.isDigit = true) : digitsValue cs = Nat.ofDigitChars 10 cs 0 := by
  rw [digitsValue, List.filter_eq_self.mpr h, Nat.ofDigitChars_eq_foldl]

theorem le_ofDigitChars (m : Nat) (cs : List Char) : m ≤ Nat.ofDigitChars 10 cs m := by
  rw [Nat.ofDigitChars_eq_ofDigitChars_zero]
  have hpow : 0 < 10 ^ cs.length := Nat.pow_pos (by decide)
  exact Nat.le_trans (Nat.le_mul_of_pos_left m hpow) (Nat.le_add_right _ _)

/-- Digits that fit together find room one by one. -/
theorem takeFraction_digits (hd : ∀ c ∈ cs, c.isDigit = true) (hs : s + cs.length ≤ maxScale)
    (hm : Nat.ofDigitChars 10 cs m < capacity) :
    takeFraction m s cs = (Nat.ofDigitChars 10 cs m, s + cs.length, []) := by
  induction cs generalizing m s with
  | nil => rw [takeFraction, Nat.ofDigitChars_nil, List.length_nil, Nat.add_zero]
  | cons c cs ih =>
    obtain ⟨hc, hcs⟩ := List.forall_mem_cons.mp hd
    rw [List.length_cons] at hs
    rw [Nat.ofDigitChars_cons] at hm ⊢
    have hroom : s ≠ maxScale := by omega
    -- the digits so far make a number that is at most the whole one
    have hfits := Nat.lt_of_le_of_lt (le_ofDigitChars _ cs) hm
    rw [takeFraction, if_neg hroom, if_neg (ne_of_isDigit hc (by decide)), if_pos hfits,
      ih hcs (by omega) hm, List.length_cons]
    simp only [Prod.mk.injEq, true_and, and_true]
    omega

theorem isDigit_of_mem_paddedDigits {c : Char} (h : c ∈ paddedDigits n w) : c.isDigit = true := by
  rcases List.mem_append.mp h with h | h
  · rw [List.eq_of_mem_replicate h]
    decide
  · exact Nat.isDigit_of_mem_toDigits (by decide) (by decide) h

theorem ofDigitChars_paddedDigits (n w : Nat) : Nat.ofDigitChars 10 (paddedDigits n w) 0 = n := by
  rw [paddedDigits, Nat.ofDigitChars_append, Nat.ofDigitChars_replicate_zero, Nat.mul_zero,
    Nat.ofDigitChars_ten_toDigits]

theorem le_length_paddedDigits (n w : Nat) : w ≤ (paddedDigits n w).length := by
  rw [paddedDigits, List.length_append, List.length_replicate]
  omega

theorem paddedDigits_zero {c : Char} (h : c ∈ paddedDigits 0 w) : c = '0' := by
  rcases List.mem_append.mp h with h | h
  · exact List.eq_of_mem_replicate h
  · rw [Nat.toDigits_zero] at h
    exact List.mem_singleton.mp h

end Digits

/-! ## Positional notation -/

/-- Digits, and a point and the digits behind it if there are any. -/
def positional (whole fraction : List Char) : List Char :=
  whole ++ if fraction = [] then [] else '.' :: fraction

/-- The digits before the point. -/
def wholeDigits (d : Decimal) : List Char :=
  let digits := paddedDigits d.mantissa (d.scale + 1)
  digits.take (digits.length - d.scale)

/-- The digits behind the point. -/
def fractionDigits (d : Decimal) : List Char :=
  let digits := paddedDigits d.mantissa (d.scale + 1)
  digits.drop (digits.length - d.scale)

/-- The characters of a decimal without its sign. -/
def magnitude (d : Decimal) : List Char := positional d.wholeDigits d.fractionDigits

/-- The sign in front of a number. -/
def signChars (negative : Bool) : List Char := if negative then ['-'] else []

section Parts

variable (d : Decimal)

theorem whole_append_fraction : d.wholeDigits ++ d.fractionDigits = paddedDigits d.mantissa (d.scale + 1) :=
  List.take_append_drop _ _

theorem length_fractionDigits : d.fractionDigits.length = d.scale := by
  have h := le_length_paddedDigits d.mantissa (d.scale + 1)
  simp only [fractionDigits, List.length_drop]
  omega

theorem wholeDigits_ne_nil : d.wholeDigits ≠ [] := by
  have h := le_length_paddedDigits d.mantissa (d.scale + 1)
  intro he
  have hlen := congrArg List.length he
  simp only [wholeDigits, List.length_take, List.length_nil] at hlen
  omega

theorem isDigit_wholeDigits : ∀ c ∈ d.wholeDigits, c.isDigit = true :=
  fun _ h => isDigit_of_mem_paddedDigits (List.mem_of_mem_take h)

theorem isDigit_fractionDigits : ∀ c ∈ d.fractionDigits, c.isDigit = true :=
  fun _ h => isDigit_of_mem_paddedDigits (List.mem_of_mem_drop h)

theorem toChars_eq : d.toChars = signChars d.negative ++ d.magnitude := by
  have hs : d.fractionDigits = [] ↔ d.scale = 0 := by
    rw [← length_fractionDigits, List.length_eq_zero_iff]
  rw [magnitude, positional, toChars, ← List.append_assoc]
  by_cases h : d.scale = 0
  · rw [if_pos h, if_pos (hs.mpr h)]
    rfl
  · rw [if_neg h, if_neg (fun hf => h (hs.mp hf))]
    rfl

end Parts

/-! ## Reading -/

section Reading

variable {negative : Bool} {whole fraction : List Char}

theorem splitSign_signChars {c : Char} (hc : c.isDigit = true) (negative : Bool) (cs : List Char) :
    splitSign (signChars negative ++ c :: cs) = (negative, c :: cs) := by
  cases negative with
  | true => rfl
  | false =>
    have hminus : c ≠ '-' := ne_of_isDigit hc (by decide)
    have hplus : c ≠ '+' := ne_of_isDigit hc (by decide)
    show splitSign (c :: cs) = (false, c :: cs)
    unfold splitSign
    split
    · next he => exact absurd (List.cons_eq_cons.mp he).1 hminus
    · next he => exact absurd (List.cons_eq_cons.mp he).1 hplus
    · rfl

theorem cut_positional (hw : ∀ c ∈ whole, c.isDigit = true) :
    (positional whole fraction).takeWhile (· != '.') = whole ∧
      ((positional whole fraction).dropWhile (· != '.')).drop 1 = fraction := by
  have hpoint : ∀ c ∈ whole, (c != '.') = true := by
    intro c hc
    rw [bne_iff_ne]
    exact ne_of_isDigit (hw c hc) (by decide)
  rw [positional, List.takeWhile_append_of_pos hpoint, List.dropWhile_append_of_pos hpoint]
  by_cases hf : fraction = []
  · rw [if_pos hf, hf]
    exact ⟨List.append_nil whole, rfl⟩
  · rw [if_neg hf]
    exact ⟨List.append_nil whole, rfl⟩

theorem isDigitRun_of_digits {cs : List Char} (hne : cs ≠ []) (h : ∀ c ∈ cs, c.isDigit = true) :
    isDigitRun cs = true := by
  cases cs with
  | nil => exact absurd rfl hne
  | cons c cs =>
    obtain ⟨hc, hcs⟩ := List.forall_mem_cons.mp h
    rw [isDigitRun, hc, Bool.true_and, List.all_eq_true]
    intro x hx
    rw [hcs x hx, Bool.true_or]

/-- Digits in positional notation are split at the point. -/
theorem ofChars?_positional (hne : whole ≠ []) (hw : ∀ c ∈ whole, c.isDigit = true)
    (hf : ∀ c ∈ fraction, c.isDigit = true) (negative : Bool) :
    Parts.ofChars? (signChars negative ++ positional whole fraction) =
      if Nat.ofDigitChars 10 whole 0 < capacity then some ⟨negative, Nat.ofDigitChars 10 whole 0, fraction⟩
      else none := by
  have hrun : isDigitRun (whole ++ fraction) = true := by
    refine isDigitRun_of_digits (List.append_ne_nil_of_left_ne_nil hne _) fun c hc => ?_
    rcases List.mem_append.mp hc with hc | hc
    · exact hw c hc
    · exact hf c hc
  have hsplit : splitSign (signChars negative ++ positional whole fraction) =
      (negative, positional whole fraction) := by
    obtain ⟨c, cs, rfl⟩ := List.exists_cons_of_ne_nil hne
    exact splitSign_signChars (hw c List.mem_cons_self) negative _
  simp only [Parts.ofChars?, hsplit, cut_positional hw, digitsValue_eq hw, hrun, Bool.true_and, decide_eq_true_eq]

/-- Digits in positional notation that fit a decimal are read as they stand. -/
theorem ofPlain?_positional (hne : whole ≠ []) (hw : ∀ c ∈ whole, c.isDigit = true)
    (hf : ∀ c ∈ fraction, c.isDigit = true) (hscale : fraction.length ≤ maxScale)
    (hfits : Nat.ofDigitChars 10 (whole ++ fraction) 0 < capacity) (negative : Bool) :
    ofPlain? (signChars negative ++ positional whole fraction) =
      ofParts? (negative && Nat.ofDigitChars 10 (whole ++ fraction) 0 != 0)
        (Nat.ofDigitChars 10 (whole ++ fraction) 0) fraction.length := by
  rw [Nat.ofDigitChars_append] at hfits ⊢
  have hwhole := Nat.lt_of_le_of_lt (le_ofDigitChars _ fraction) hfits
  rw [ofPlain?, ofChars?_positional hne hw hf, if_pos hwhole, Option.bind_some, Parts.exact?,
    takeFraction_digits hf (by omega) hfits, Nat.zero_add]

/-- The characters of a number in positional notation are its digits, a sign and a point. -/
theorem mem_positional {c : Char} (h : c ∈ signChars negative ++ positional whole fraction) :
    c = '-' ∨ c = '.' ∨ c ∈ whole ++ fraction := by
  rw [positional] at h
  rcases List.mem_append.mp h with h | h
  · cases negative with
    | false => cases h
    | true => exact .inl (List.mem_singleton.mp h)
  · rcases List.mem_append.mp h with h | h
    · exact .inr (.inr (List.mem_append_left _ h))
    · split at h
      · cases h
      · rcases List.mem_cons.mp h with h | h
        · exact .inr (.inl h)
        · exact .inr (.inr (List.mem_append_right _ h))

/-- The characters of a decimal are digits of its mantissa, a sign and a point. -/
theorem mem_toChars {d : Decimal} {c : Char} (h : c ∈ d.toChars) :
    c = '-' ∨ c = '.' ∨ c ∈ paddedDigits d.mantissa (d.scale + 1) := by
  rw [toChars_eq] at h
  rw [← whole_append_fraction]
  exact mem_positional h

theorem not_isExponentMark_of_isDigit {c : Char} (h : c.isDigit = true) : isExponentMark c = false := by
  have he : c ≠ 'e' := ne_of_isDigit h (by decide)
  have hE : c ≠ 'E' := ne_of_isDigit h (by decide)
  simp [isExponentMark, he, hE]

theorem not_isExponentMark_of_mem_toChars {d : Decimal} {c : Char} (h : c ∈ d.toChars) :
    isExponentMark c = false := by
  rcases mem_toChars h with rfl | rfl | h
  · decide
  · decide
  · exact not_isExponentMark_of_isDigit (isDigit_of_mem_paddedDigits h)

theorem not_nonzero_of_isZero {d : Decimal} (hz : d.isZero = true) :
    (d.toChars.any fun c => '1' ≤ c && c ≤ '9') = false := by
  rw [List.any_eq_false]
  intro c hc
  rw [isZero, beq_iff_eq] at hz
  rcases mem_toChars hc with rfl | rfl | h
  · decide
  · decide
  · rw [hz] at h
    rw [paddedDigits_zero h]
    decide

theorem ofPlain?_toChars {d : Decimal} (hsign : d.negative = true → d.mantissa ≠ 0) :
    ofPlain? d.toChars = some d := by
  have hvalue : Nat.ofDigitChars 10 (d.wholeDigits ++ d.fractionDigits) 0 = d.mantissa := by
    rw [whole_append_fraction, ofDigitChars_paddedDigits]
  have hscale : d.fractionDigits.length ≤ maxScale := by
    rw [length_fractionDigits]
    exact d.scale_le
  have hfits : Nat.ofDigitChars 10 (d.wholeDigits ++ d.fractionDigits) 0 < capacity := by
    rw [hvalue]
    exact d.mantissa_lt
  have hneg : (d.negative && d.mantissa != 0) = d.negative := by
    cases hn : d.negative with
    | false => rfl
    | true => simpa using hsign hn
  rw [toChars_eq, magnitude, ofPlain?_positional (wholeDigits_ne_nil d) (isDigit_wholeDigits d)
    (isDigit_fractionDigits d) hscale hfits, hvalue, length_fractionDigits, hneg, ofParts?,
    dif_pos ⟨d.mantissa_lt, d.scale_le⟩]

/-- Without an exponent mark a literal is plain. -/
theorem ofChars?_of_not_mark {cs : List Char} (h : ∀ c ∈ cs, isExponentMark c = false) :
    ofChars? cs = (ofPlain? cs).filter fun d => !(d.isZero && cs.any fun c => '1' ≤ c && c ≤ '9') := by
  have hmarks : ∀ c ∈ cs, (!isExponentMark c) = true := by
    intro c hc
    rw [h c hc]
    rfl
  have htake : cs.takeWhile (!isExponentMark ·) = cs := by
    rw [← List.append_nil cs, List.takeWhile_append_of_pos hmarks]
    rfl
  have hdrop : cs.dropWhile (!isExponentMark ·) = [] := by
    rw [← List.append_nil cs, List.dropWhile_append_of_pos hmarks]
    rfl
  rw [ofChars?]
  simp only [htake, hdrop]

/-- **A decimal is read back from its text**, unless it is a negative zero, which no text denotes. -/
theorem parse?_toText {d : Decimal} (hsign : d.negative = true → d.mantissa ≠ 0) :
    parse? d.toText = some d := by
  rw [parse?, toText, String.toList_ofList, ofChars?_of_not_mark fun c => not_isExponentMark_of_mem_toChars,
    ofPlain?_toChars hsign]
  cases hz : d.isZero with
  | false => simp [Option.filter, hz]
  | true => simp [Option.filter, not_nonzero_of_isZero hz]

end Reading

/-! ## Shortest forms -/

section Canonical

theorem dropZeros_fst_ne_zero {m s : Nat} (h : m ≠ 0) : (dropZeros m s).1 ≠ 0 := by
  fun_induction dropZeros m s with
  | case1 m => exact h
  | case2 m s hm ih => exact ih (by omega)
  | case3 m s hm => exact h

/-- What is left has no zero to drop. -/
theorem dropZeros_dropZeros (m s : Nat) :
    dropZeros (dropZeros m s).1 (dropZeros m s).2 = dropZeros m s := by
  fun_induction dropZeros m s with
  | case1 m => rfl
  | case2 m s hm ih => exact ih
  | case3 m s hm => rw [dropZeros, if_neg hm]

theorem canonical_mantissa_ne_zero {d : Decimal} (h : d.canonical.negative = true) :
    d.canonical.mantissa ≠ 0 := by
  rw [canonical] at h ⊢
  split at h
  · cases h
  · next hz =>
    rw [if_neg hz]
    exact dropZeros_fst_ne_zero (by simpa [isZero] using hz)

/-- A shortest form is its own shortest form. -/
@[simp] theorem canonical_canonical (d : Decimal) : d.canonical.canonical = d.canonical := by
  by_cases hz : d.isZero = true
  · have h0 : d.canonical = 0 := by rw [canonical, if_pos hz]
    rw [h0]
    rfl
  · have hne : d.mantissa ≠ 0 := by simpa [isZero] using hz
    have hz' : ¬ d.canonical.isZero = true := by
      rw [canonical, if_neg hz]
      simpa [isZero] using dropZeros_fst_ne_zero hne
    rw [canonical.eq_1 d.canonical, if_neg hz']
    simp only [canonical, if_neg hz, dropZeros_dropZeros]

theorem parse?_canonical_toText (d : Decimal) : parse? d.canonical.toText = some d.canonical :=
  parse?_toText canonical_mantissa_ne_zero

end Canonical

/-! ## Signs -/

section Signs

variable {d : Decimal}

theorem negative_ofParts? {negative : Bool} {m s : Nat} (h : ofParts? negative m s = some d) :
    d.negative = negative := by
  unfold ofParts? at h
  split at h
  · cases h
    rfl
  · cases h

theorem negative_exact? {p : Parts} (hp : p.negative = false) (h : p.exact? = some d) : d.negative = false := by
  unfold Parts.exact? at h
  split at h
  · rw [negative_ofParts? h, hp, Bool.false_and]
  · cases h

theorem negative_rounded? {p : Parts} (hp : p.negative = false) (h : p.rounded? = some d) : d.negative = false := by
  have hcarry : ∀ m s, (if m < capacity then ofParts? (p.negative && m != 0) m s
      else if s = 0 then none else ofParts? p.negative ((m + 4) / 10) (s - 1)) = some d → d.negative = false := by
    intro m s h
    rw [hp] at h
    split_ifs at h
    · exact negative_ofParts? h
    · exact negative_ofParts? h
  exact hcarry _ _ h

theorem negative_ofScientific? {mantissa exponent : List Char}
    (hp : ∀ p, Parts.ofChars? mantissa = some p → p.negative = false)
    (h : ofScientific? mantissa exponent = some d) : d.negative = false := by
  obtain ⟨p, hchars, h⟩ := Option.bind_eq_some_iff.mp h
  obtain ⟨d', hrounded, h⟩ := Option.bind_eq_some_iff.mp h
  have hd' : d'.negative = false := negative_rounded? (hp p hchars) hrounded
  split at h
  · obtain ⟨k, -, h⟩ := Option.bind_eq_some_iff.mp h
    unfold scaleDown? at h
    split_ifs at h
    rw [negative_ofParts? h, hd']
  · obtain ⟨k, -, h⟩ := Option.bind_eq_some_iff.mp h
    unfold scaleUp? at h
    split_ifs at h
    all_goals rw [negative_ofParts? h, hd']

theorem negative_ofChars? {c : Char} {cs : List Char} (hc : c.isDigit = true) (h : ofChars? (c :: cs) = some d) :
    d.negative = false := by
  have hmantissa : (c :: cs).takeWhile (!isExponentMark ·) = c :: cs.takeWhile (!isExponentMark ·) :=
    List.takeWhile_cons_of_pos (by rw [not_isExponentMark_of_isDigit hc]; rfl)
  have hp : ∀ cs p, Parts.ofChars? (c :: cs) = some p → p.negative = false := by
    intro cs p hp
    have hsplit : splitSign (c :: cs) = (false, c :: cs) := splitSign_signChars hc false cs
    unfold Parts.ofChars? at hp
    rw [hsplit] at hp
    dsimp only at hp
    split_ifs at hp
    cases hp
    rfl
  unfold ofChars? at h
  dsimp only at h
  obtain ⟨h, -⟩ := Option.filter_eq_some_iff.mp h
  rw [hmantissa] at h
  split at h
  · exact negative_ofScientific? (hp _) h
  · obtain ⟨p, hchars, h⟩ := Option.bind_eq_some_iff.mp h
    exact negative_exact? (hp _ p hchars) h

theorem negative_canonical (h : d.negative = false) : d.canonical.negative = false := by
  unfold canonical
  split_ifs
  · rfl
  · exact h

end Signs

end Listwise.Decimal

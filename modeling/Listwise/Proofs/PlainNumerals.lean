import Listwise.Proofs.Faults
import Listwise.Proofs.Numerals
import Listwise.Proofs.Printing
import Listwise.Proofs.StoreHistory
import Mathlib.Data.List.DropRight

/-!
# Plain numerals from text to store

A numeral that fits is stored as it is written, and shown without what is redundant in it: zeros in front, zeros at the
end of a fraction, the sign of a zero.

* `Numeral.trimmed`: a numeral without what is redundant in it.
* `toText_canonical`: it is the text of the decimal that the numeral is read as.
* `execute_definition`: a list with one numeral is defined exactly if the numeral is read.
* `isNumber_parse?`: whatever is read as a statement, its numbers are numerals, some of them scientific.
* `plain_numerals_are_exact`: from the text of a numeral to the text that is shown.
-/

namespace Listwise

open Decimal (signChars positional)

/-! ## Definitions -/

/-- Digits without zeros in front, if others are left. -/
def trimFront (cs : List Char) : List Char :=
  match cs.dropWhile (· == '0') with
  | [] => ['0']
  | c :: cs => c :: cs

theorem isDigits_trimFront {cs : List Char} (h : ∀ c ∈ cs, c.isDigit = true) : Token.IsDigits (trimFront cs) := by
  unfold trimFront
  split
  · exact ⟨List.cons_ne_nil _ _, List.forall_mem_singleton.mpr rfl⟩
  · next c rest heq =>
    refine ⟨List.cons_ne_nil _ _, fun x hx => h x ?_⟩
    rw [← heq] at hx
    exact (List.dropWhile_suffix _).subset hx

namespace Numeral

/-- A numeral without redundant zeros in front and at the end of the fraction, and without the sign of a zero. -/
def trimmed (t : Numeral) : Numeral where
  negative := t.negative && (t.whole ++ t.fraction).any (· != '0')
  whole := trimFront t.whole
  fraction := t.fraction.rdropWhile (· == '0')
  whole_digits := isDigits_trimFront t.whole_digits.2
  fraction_digits := fun c hc => t.fraction_digits c ((List.rdropWhile_prefix _ _).subset hc)

/-- The definition of a list with one numeral in it. -/
def definition (name : String) (t : Numeral) : String := name ++ " = [" ++ t.text ++ "]"

end Numeral

/-- A text that is a numeral, scientific or not. -/
def IsNumber (text : String) : Prop := (∃ t : Numeral, text = t.text) ∨ ∃ l : Scientific, text = l.text

/-! ## Digits without redundant zeros -/

section Digits

variable {cs cs' : List Char}

/-- Digits are determined by their number and their value. -/
theorem eq_of_ofDigitChars_eq (h : ∀ c ∈ cs, c.isDigit = true) (h' : ∀ c ∈ cs', c.isDigit = true)
    (hlength : cs.length = cs'.length) (hvalue : Nat.ofDigitChars 10 cs 0 = Nat.ofDigitChars 10 cs' 0) : cs = cs' := by
  induction cs generalizing cs' with
  | nil => exact (List.length_eq_zero_iff.mp hlength.symm).symm
  | cons c cs ih =>
    obtain ⟨c', cs', rfl⟩ := List.exists_cons_of_length_eq_add_one hlength.symm
    obtain ⟨hc, hcs⟩ := List.forall_mem_cons.mp h
    obtain ⟨hc', hcs'⟩ := List.forall_mem_cons.mp h'
    have hlength : cs.length = cs'.length := Nat.succ.inj hlength
    have hlt := ofDigitChars_lt hcs
    have hlt' := ofDigitChars_lt hcs'
    rw [ofDigitChars_cons_zero, ofDigitChars_cons_zero, ← hlength] at hvalue
    rw [← hlength] at hlt'
    -- the first digit is the quotient and the others make the remainder
    have hpos : 0 < 10 ^ cs.length := Nat.pow_pos (by decide)
    have hfirst := congrArg (· / 10 ^ cs.length) hvalue
    have hrest := congrArg (· % 10 ^ cs.length) hvalue
    simp only [Nat.mul_add_div hpos, Nat.div_eq_of_lt hlt, Nat.div_eq_of_lt hlt', Nat.add_zero] at hfirst
    simp only [Nat.mul_add_mod, Nat.mod_eq_of_lt hlt, Nat.mod_eq_of_lt hlt'] at hrest
    rw [ih hcs hcs' hlength hrest]
    obtain ⟨n, hn, rfl⟩ := exists_digitChar hc
    obtain ⟨n', hn', rfl⟩ := exists_digitChar hc'
    have hn : n.digitChar.toNat - '0'.toNat = n := Nat.toNat_digitChar_sub_48_of_lt_ten hn
    have hn' : n'.digitChar.toNat - '0'.toNat = n' := Nat.toNat_digitChar_sub_48_of_lt_ten hn'
    rw [hn, hn'] at hfirst
    rw [hfirst]

/-- Digits are the padded digits of their value, unless there are too many of them and a zero is in front. -/
theorem paddedDigits_ofDigitChars {w : Nat} (h : ∀ c ∈ cs, c.isDigit = true) (hpos : 0 < w) (hw : w ≤ cs.length)
    (hfront : cs.length = w ∨ cs.head? ≠ some '0') : Decimal.paddedDigits (Nat.ofDigitChars 10 cs 0) w = cs := by
  refine eq_of_ofDigitChars_eq (fun c => Decimal.isDigit_of_mem_paddedDigits) h ?_
    (Decimal.ofDigitChars_paddedDigits _ _)
  have hle : (Nat.toDigits 10 (Nat.ofDigitChars 10 cs 0)).length ≤ cs.length :=
    (Nat.length_toDigits_le_iff (by decide) (by omega)).mpr (ofDigitChars_lt h)
  rw [Decimal.paddedDigits, List.length_append, List.length_replicate]
  rcases hfront with hfull | hfront
  · omega
  · obtain ⟨c, cs, rfl⟩ := List.exists_cons_of_length_pos (hpos.trans_le hw)
    have hzero : c ≠ '0' := fun hc => hfront (congrArg some hc)
    have hdigit : 0 < c.toNat - '0'.toNat :=
      Nat.pos_of_ne_zero fun hc => hzero ((digitValue_eq_zero_iff (h c List.mem_cons_self)).mp hc)
    -- the first digit counts, so no shorter digits have this value
    have hge : 10 ^ cs.length ≤ Nat.ofDigitChars 10 (c :: cs) 0 := by
      rw [ofDigitChars_cons_zero]
      exact (Nat.le_mul_of_pos_right _ hdigit).trans (Nat.le_add_right _ _)
    have hlong : cs.length < (Nat.toDigits 10 (Nat.ofDigitChars 10 (c :: cs) 0)).length := by
      rcases Nat.eq_zero_or_pos cs.length with hnone | hsome
      · rw [hnone]
        exact Nat.length_toDigits_pos
      · rw [← Nat.not_le, Nat.length_toDigits_le_iff (by decide) hsome]
        exact Nat.not_lt.mpr hge
    rw [List.length_cons] at hle hw ⊢
    omega

theorem ofDigitChars_trimFront (cs : List Char) : Nat.ofDigitChars 10 (trimFront cs) 0 = Nat.ofDigitChars 10 cs 0 := by
  have hdrop : Nat.ofDigitChars 10 (cs.dropWhile (· == '0')) 0 = Nat.ofDigitChars 10 cs 0 := by
    induction cs with
    | nil => rfl
    | cons c cs ih =>
      by_cases hc : c = '0'
      · obtain rfl := hc
        rw [List.dropWhile_cons_of_pos rfl, ih]
        rfl
      · rw [List.dropWhile_cons_of_neg (by simpa using hc)]
  rw [← hdrop]
  unfold trimFront
  split
  · next heq =>
    rw [heq]
    rfl
  · next c rest heq => rw [heq]

theorem head?_trimFront (cs : List Char) : trimFront cs = ['0'] ∨ (trimFront cs).head? ≠ some '0' := by
  unfold trimFront
  split
  · exact .inl rfl
  · next c rest heq =>
    have hfirst := List.head?_dropWhile_not (· == '0') cs
    rw [heq] at hfirst
    refine .inr fun hc => ?_
    cases hc
    cases hfirst

/-- Dropping the zeros at the end of a fraction is dropping them from the digits. -/
theorem dropZeros_ofDigitChars (whole : List Char) {fraction : List Char} (h : ∀ c ∈ fraction, c.isDigit = true) :
    Decimal.dropZeros (Nat.ofDigitChars 10 (whole ++ fraction) 0) fraction.length =
      (Nat.ofDigitChars 10 (whole ++ fraction.rdropWhile (· == '0')) 0,
        (fraction.rdropWhile (· == '0')).length) := by
  induction fraction using List.reverseRecOn with
  | nil => rfl
  | append_singleton fraction c ih =>
    obtain ⟨hfraction, hc⟩ := List.forall_mem_append.mp h
    have hc := hc c List.mem_cons_self
    have hdigit := digitValue_lt hc
    have hlast : Nat.ofDigitChars 10 (whole ++ (fraction ++ [c])) 0 =
        10 * Nat.ofDigitChars 10 (whole ++ fraction) 0 + (c.toNat - '0'.toNat) := by
      rw [← List.append_assoc, Nat.ofDigitChars_append]
      rfl
    rw [List.length_append, List.length_singleton, Decimal.dropZeros]
    by_cases hzero : c = '0'
    · have hvalue := (digitValue_eq_zero_iff hc).mpr hzero
      have hmod : Nat.ofDigitChars 10 (whole ++ (fraction ++ [c])) 0 % 10 = 0 := by omega
      have hdiv : Nat.ofDigitChars 10 (whole ++ (fraction ++ [c])) 0 / 10 =
          Nat.ofDigitChars 10 (whole ++ fraction) 0 := by omega
      have hdropped := List.rdropWhile_concat_pos (· == '0') fraction c (beq_iff_eq.mpr hzero)
      rw [if_pos hmod, hdiv, ih hfraction, hdropped]
    · have hvalue : c.toNat - '0'.toNat ≠ 0 := fun hv => hzero ((digitValue_eq_zero_iff hc).mp hv)
      have hmod : Nat.ofDigitChars 10 (whole ++ (fraction ++ [c])) 0 % 10 ≠ 0 := by omega
      rw [if_neg hmod, List.rdropWhile_concat_neg _ _ _ (by simpa using hzero), List.length_append]
      rfl

end Digits

/-! ## What is shown of a numeral -/

section Shown

variable {t : Numeral} {d : Decimal}

/-- A decimal is written as a numeral with its parts, if this has no redundant zeros in front. -/
theorem Decimal.toChars_of_parts (hfront : t.whole = ['0'] ∨ t.whole.head? ≠ some '0')
    (hnegative : d.negative = t.negative) (hmantissa : d.mantissa = t.coefficient)
    (hscale : d.scale = t.fraction.length) : d.toChars = t.chars := by
  obtain ⟨c, cs, hwhole⟩ := List.exists_cons_of_ne_nil t.whole_digits.1
  have hdigits : Decimal.paddedDigits d.mantissa (d.scale + 1) = t.whole ++ t.fraction := by
    rw [hmantissa, hscale]
    refine paddedDigits_ofDigitChars t.digits (Nat.succ_pos _) ?_ ?_
    · rw [hwhole, List.length_append, List.length_cons]
      omega
    · rcases hfront with hzero | hfront
      · rw [hzero]
        exact .inl rfl
      · rw [hwhole] at hfront ⊢
        exact .inr hfront
  obtain ⟨hparts, hfraction⟩ : d.wholeDigits = t.whole ∧ d.fractionDigits = t.fraction := by
    refine List.append_inj' (d.whole_append_fraction.trans hdigits) ?_
    rw [Decimal.length_fractionDigits, hscale]
  rw [Decimal.toChars_eq, Decimal.magnitude, hnegative, hparts, hfraction, Numeral.chars]

theorem Numeral.coefficient_trimmed (t : Numeral) :
    t.trimmed.coefficient = Nat.ofDigitChars 10 (t.whole ++ t.fraction.rdropWhile (· == '0')) 0 := by
  show Nat.ofDigitChars 10 (trimFront t.whole ++ t.fraction.rdropWhile (· == '0')) 0 = _
  rw [Nat.ofDigitChars_append, Nat.ofDigitChars_append, ofDigitChars_trimFront]

theorem Numeral.negative_trimmed (t : Numeral) : t.trimmed.negative = (t.negative && t.coefficient != 0) := by
  have hany : (t.whole ++ t.fraction).any (· != '0') = (t.coefficient != 0) := by
    rw [Bool.eq_iff_iff, List.any_eq_true, bne_iff_ne, Numeral.coefficient, Ne, ofDigitChars_eq_zero_iff t.digits]
    simp
  rw [← hany]
  rfl

theorem Decimal.dropZeros_zero (s : Nat) : Decimal.dropZeros 0 s = (0, 0) := by
  induction s with
  | zero => rfl
  | succ s ih => exact ih

/-- The parts of a shortest form, which are those of zero if all digits are zeros. -/
theorem Decimal.canonical_parts (d : Decimal) :
    d.canonical.negative = (d.negative && d.mantissa != 0) ∧
      (d.canonical.mantissa, d.canonical.scale) = Decimal.dropZeros d.mantissa d.scale := by
  rw [Decimal.canonical, Decimal.isZero]
  by_cases hz : d.mantissa = 0
  · rw [if_pos (beq_iff_eq.mpr hz), hz, dropZeros_zero]
    exact ⟨(Bool.and_false _).symm, rfl⟩
  · rw [if_neg (by simpa using hz), bne_iff_ne.mpr hz, Bool.and_true]
    exact ⟨rfl, rfl⟩

/-- **What is shown of a numeral** that fits is the numeral without what is redundant in it. -/
theorem Decimal.toText_canonical (hnegative : d.negative = (t.negative && t.coefficient != 0))
    (hmantissa : d.mantissa = t.coefficient) (hscale : d.scale = t.fraction.length) :
    d.canonical.toText = t.trimmed.text := by
  obtain ⟨hsign, hdigits⟩ := canonical_parts d
  rw [hmantissa, hscale, Numeral.coefficient, dropZeros_ofDigitChars t.whole t.fraction_digits,
    ← Numeral.coefficient_trimmed] at hdigits
  rw [hnegative, hmantissa, Bool.and_assoc, Bool.and_self, ← Numeral.negative_trimmed] at hsign
  obtain ⟨hmantissa, hscale⟩ := Prod.mk.inj hdigits
  rw [Decimal.toText, Numeral.text, toChars_of_parts (head?_trimFront t.whole) hsign hmantissa hscale]

end Shown

/-! ## Defining and showing -/

section Execution

open Grammar Grammar.Derivation

variable {n : Nat} {name : String}

/-- The derivation of a definition on line `n`. -/
def Numeral.clause (n : Nat) (name : String) (t : Numeral) : Derivation.Statement :=
  let number := Number.ofSign n t.negative (positional t.whole t.fraction)
  .definitions (.last ⟨name, n, n, .listed n (some (.last (.number number))) n⟩)

theorem Numeral.tokenize_definition (t : Numeral) (hname : Token.isName name = true) :
    Token.tokenize (t.definition name) n = .ok (t.clause n name).yield := by
  have htext : (t.definition name).toList = name.toList ++ ' ' :: '=' :: ' ' :: '[' :: (t.chars ++ [']']) := by
    have hchars : t.text.toList = t.chars := String.toList_ofList
    rw [definition, String.toList_append, String.toList_append, String.toList_append, hchars, List.append_assoc,
      List.append_assoc]
    rfl
  rw [Token.tokenize, htext]
  exact scan_named hname fun ts hts => scan_signed t.whole_digits t.fraction_digits rfl hts t.negative

/-- A list with one numeral is defined exactly if the numeral is read. -/
theorem execute_definition (s : Session) (t : Numeral) (hname : Token.isName name = true) (n : Nat) :
    s.execute (t.definition name) n = do
      let d ← readDecimal t.text n
      return ({ s with store := s.store.insert { name := name, elements := [.number d] } }, []) := by
  have hclause : (t.clause n name).value n = ⟨.definitions [⟨name, .listed [.number t.text]⟩], n⟩ := by
    rw [Numeral.text, Numeral.chars, ← value_ofSign (n := n)]
    rfl
  rw [Session.execute, parse?_eq_some.mpr ⟨_, t.tokenize_definition hname, hclause⟩]
  show (do s.perform (← Statement.ofWritten s.limits ⟨.definitions [⟨name, .listed [.number t.text]⟩], n⟩)) = _
  rw [Statement.ofWritten]
  dsimp only
  rw [List.mapM_cons, Written.Clause.toList, Written.Elements.values, List.mapM_cons, Written.Literal.value]
  cases readDecimal t.text n <;> rfl

theorem execute_show (s : Session) (n : Nat) : s.execute "show" n = .ok (s, [s.store.render]) := by
  have hnil : Token.scan n [] = .ok [] := by rw [Token.scan]
  have hscan : Token.tokenize "show" n = .ok [⟨.showWord, n⟩] :=
    Token.scan_spelling (t := .showWord) trivial (.inl rfl) hnil
  rw [Session.execute, parse?_eq_some.mpr ⟨.showAll n, hscan, rfl⟩]
  rfl

end Execution

/-! ## Numbers of statements -/

section Numbers

theorem isNumber_of_isNumeral {cs : List Char} (h : Token.IsNumeral cs) (negative : Bool) :
    IsNumber (String.ofList (signChars negative ++ cs)) := by
  obtain ⟨whole, fraction, exponent, rfl, hwhole, hfraction, hexponent⟩ := h
  obtain ⟨digits, hdigits, rfl⟩ : ∃ digits : List Char, (∀ c ∈ digits, c.isDigit = true) ∧
      fraction = if digits = [] then [] else '.' :: digits := by
    cases hfraction with
    | none => exact ⟨[], List.forall_mem_nil _, rfl⟩
    | @digits ds hds => exact ⟨ds, hds.2, (if_neg hds.1).symm⟩
  set t : Numeral := ⟨negative, whole, digits, hwhole, hdigits⟩
  have hchars : signChars negative ++ (whole ++ ((if digits = [] then [] else '.' :: digits) ++ exponent)) =
      t.chars ++ exponent := by
    rw [Numeral.chars, positional, List.append_assoc, List.append_assoc]
  rw [hchars]
  cases hexponent with
  | none => exact .inl ⟨t, by rw [List.append_nil, Numeral.text]⟩
  | @unsigned mark ds hmark hds => exact .inr ⟨⟨t, mark, [], ds, hmark, .inl rfl, hds⟩, rfl⟩
  | @signed mark sign ds hmark hsign hds =>
    refine .inr ⟨⟨t, mark, [sign], ds, hmark, .inr ?_, hds⟩, rfl⟩
    rcases hsign with rfl | rfl
    · exact .inl rfl
    · exact .inr rfl

theorem isNumber_of_isSignedNumeral {text : String} (h : IsSignedNumeral text) : IsNumber text := by
  obtain ⟨negative, cs, hcs, rfl⟩ := h
  exact isNumber_of_isNumeral hcs negative

theorem isNumber_elements {es : Written.Elements} (h : es.Spelled) : ∀ text ∈ es.numerals, IsNumber text := by
  intro text htext
  cases es with
  | listed items =>
    obtain ⟨x, hx, htext⟩ := List.mem_flatMap.mp htext
    cases x with
    | number t =>
      rw [List.mem_singleton.mp htext]
      exact isNumber_of_isSignedNumeral (h _ hx)
    | text t => cases htext
  | between lower upper =>
    rcases List.mem_pair.mp htext with rfl | rfl
    · exact isNumber_of_isSignedNumeral h.1
    · exact isNumber_of_isSignedNumeral h.2
  | above lower =>
    rw [List.mem_singleton.mp htext]
    exact isNumber_of_isSignedNumeral h
  | below upper =>
    rw [List.mem_singleton.mp htext]
    exact isNumber_of_isSignedNumeral h

theorem isNumber_literals {e : Expr String} (h : e.Spelled fun text => Token.IsNumeral text.toList) :
    ∀ p ∈ e.literals, IsNumber p.1 := by
  induction e with
  | literal v n =>
    have hv := isNumber_of_isNumeral h false
    rw [show signChars false ++ v.toList = v.toList from rfl, String.ofList_toList] at hv
    exact List.forall_mem_singleton.mpr hv
  | var x n => exact List.forall_mem_nil _
  | binary op l r n ihl ihr => exact List.forall_mem_append.mpr ⟨ihl h.1, ihr h.2⟩
  | negate e n ih => exact ih h
  | group e n ih => exact ih h

/-- The lists and ranges of a statement are spelled as they have to be. -/
theorem spelled_form_elements {f : Written.Form} (h : f.Spelled) : ∀ es ∈ f.elements, es.Spelled := by
  intro es hes
  cases f with
  | definitions clauses =>
    obtain ⟨c, hc, rfl⟩ := List.mem_map.mp hes
    exact (h c hc).elements
  | showAll => cases hes
  | comprehension c =>
    obtain ⟨b, hb, hes⟩ := List.mem_flatMap.mp hes
    have hsource := (h.bindings b hb).source
    generalize b.source = source at hes hsource
    cases source with
    | list name => cases hes
    | inline es' =>
      rw [List.mem_singleton.mp hes]
      exact hsource

theorem isNumber_looseNumerals {f : Written.Form} (h : f.Spelled) (line : Nat) :
    ∀ p ∈ f.looseNumerals line, IsNumber p.1 := by
  cases f with
  | definitions clauses => exact List.forall_mem_nil _
  | showAll => exact List.forall_mem_nil _
  | comprehension c =>
    obtain ⟨-, htransform, -, hpredicates⟩ := h
    refine List.forall_mem_append.mpr ⟨?_, ?_⟩
    · exact List.forall_mem_map.mpr fun p hp => isNumber_of_isSignedNumeral (hpredicates p hp).threshold
    · cases he : c.transform with
      | none => exact List.forall_mem_nil _
      | some e => exact isNumber_literals (htransform e he)

/-- The numbers of statements are numerals, plain or scientific. -/
theorem isNumber_parse? {input : String} {line : Nat} {w : Written.Statement}
    (h : Written.Statement.parse? input line = .ok (some w)) : ∀ p ∈ w.numerals, IsNumber p.1 := by
  have hspelled := spelled_parse? h
  refine List.forall_mem_append.mpr ⟨?_, isNumber_looseNumerals hspelled w.line⟩
  intro p hp
  obtain ⟨es, hes, hp⟩ := List.mem_flatMap.mp hp
  obtain ⟨text, htext, rfl⟩ := List.mem_map.mp hp
  exact isNumber_elements (spelled_form_elements hspelled es hes) text htext

end Numbers

/-! ## From text to store -/

/-- Defining a list with one numeral and showing the store. -/
theorem executeEach_definition_show (env : Environment) {t : Numeral} {name : String} {line next : Nat} {d : Decimal}
    (hname : Token.isName name = true) (hd : readDecimal t.text line = .ok d) :
    let store := env.store.insert { name := name, elements := [.number d] }
    env.executeEach [(t.definition name, line), ("show", next)] =
      (.ok (), { env with store := store, shown := env.shown ++ [store.render], activity := .idle }) := by
  intro store
  have hdefine : env.toSession.execute (t.definition name) line = .ok ({ env.toSession with store := store }, []) := by
    rw [execute_definition _ _ hname, hd]
    rfl
  rw [Environment.executeEach, Environment.executeLine_after, hdefine, Environment.after_silent]
  dsimp only
  rw [Environment.executeEach, Environment.executeLine_after, execute_show]
  rfl

/-- **Plain numerals are exact from text to store.**  A numeral with at most `28` digits behind the point, whose digits
are below `2 ^ 96` when they are read as one integer, is read as the number that is written, which is zero only if all
digits are; any other is malformed.  A list that is defined by such a numeral is shown with the numeral trimmed, and if
the numeral is malformed so is the definition.  The numbers of statements are numerals, scientific or plain, and so
these are all plain numbers there are. -/
theorem plain_numerals_are_exact (t : Numeral) (line : Nat) :
    (t.Fits → ∃ d, readDecimal t.text line = .ok d ∧ d.toRat = t.value ∧
      (d.toRat = 0 ↔ ∀ c ∈ t.whole ++ t.fraction, c = '0')) ∧
    (¬ t.Fits → readDecimal t.text line = .error ⟨.malformedNumber t.text, line⟩) ∧
    (∀ (env : Environment) (name : String) (next : Nat), Token.isName name = true →
      (t.Fits → ∃ l env', l.name = name ∧ l.render = t.trimmed.definition name ∧
        env.executeEach [(t.definition name, line), ("show", next)] = (.ok (), env') ∧
        env'.store = env.store.insert l ∧ env'.shown = env.shown ++ [(env.store.insert l).render] ∧
        (env.store = .empty → env'.shown = env.shown ++ [t.trimmed.definition name ++ "\n"])) ∧
      (¬ t.Fits → (env.executeLine (t.definition name) line).1 = .error ⟨.malformedNumber t.text, line⟩)) ∧
    ∀ input w, Written.Statement.parse? input line = .ok (some w) → ∀ p ∈ w.numerals, IsNumber p.1 := by
  have hmalformed : ¬ t.Fits → readDecimal t.text line = .error ⟨.malformedNumber t.text, line⟩ :=
    fun h => readDecimal_eq_error.mpr ⟨Numeral.parse?_of_not_fits h, rfl⟩
  refine ⟨fun hfits => ?_, hmalformed, fun env name next hname => ⟨fun hfits => ?_, fun hfits => ?_⟩,
    fun input w => isNumber_parse?⟩
  · obtain ⟨d, hd, hnegative, hmantissa, hscale⟩ := Numeral.parse?_of_fits hfits
    refine ⟨d, readDecimal_eq_ok.mpr hd, ?_, ?_⟩
    · rw [Decimal.toRat_eq_signed, hnegative, hmantissa, hscale, signed_and, Numeral.value]
    · rw [Decimal.toRat_eq_zero_iff, hmantissa, Numeral.coefficient, ofDigitChars_eq_zero_iff t.digits]
  · obtain ⟨d, hd, hnegative, hmantissa, hscale⟩ := Numeral.parse?_of_fits hfits
    have hrender : NamedList.render { name := name, elements := [.number d] } = t.trimmed.definition name := by
      rw [Numeral.definition, ← Decimal.toText_canonical hnegative hmantissa hscale]
      rfl
    refine ⟨_, _, rfl, hrender, executeEach_definition_show env hname (readDecimal_eq_ok.mpr hd), rfl, rfl, ?_⟩
    intro hempty
    rw [hempty, ← hrender]
    rfl
  · rw [Environment.executeLine_after, execute_definition _ _ hname, hmalformed hfits]
    rfl

/-- A sign, redundant zeros at both ends, and the first integer that does not fit. -/
theorem plain_numerals_are_exact_both_ends :
    let t : Numeral :=
      { negative := true, whole := ['0', '0', '7'], fraction := ['2', '5', '0', '0'],
        whole_digits := ⟨nofun, List.all_eq_true.mp rfl⟩, fraction_digits := List.all_eq_true.mp rfl }
    let large : Numeral :=
      { negative := false, whole := "79228162514264337593543950336".toList, fraction := [],
        whole_digits := ⟨nofun, List.all_eq_true.mp rfl⟩, fraction_digits := nofun }
    t.Fits ∧ ¬ large.Fits ∧ (∃ d, readDecimal "-007.2500" 3 = .ok d ∧ d.toRat = -29 / 4) ∧
      readDecimal "79228162514264337593543950336" 3 =
        .error ⟨.malformedNumber "79228162514264337593543950336", 3⟩ ∧
      ∃ env, (Environment.start .standard).executeEach [("A = [-007.2500]", 3), ("show", 4)] = (.ok (), env) ∧
        env.shown = ["A = [-7.25]\n"] := by
  intro t large
  have hfits : t.Fits := ⟨by decide, by decide⟩
  have hlarge : ¬ large.Fits := fun h => absurd h.2 (by decide)
  have hdefinition : t.definition "A" = "A = [-007.2500]" := by decide +kernel
  have hshown : t.trimmed.definition "A" ++ "\n" = "A = [-7.25]\n" := by decide +kernel
  obtain ⟨hexact, -, hstore, -⟩ := plain_numerals_are_exact t 3
  obtain ⟨d, hd, hvalue, -⟩ := hexact hfits
  obtain ⟨l, env, -, -, hrun, -, -, hempty⟩ := (hstore (.start .standard) "A" 4 rfl).1 hfits
  refine ⟨hfits, hlarge, ⟨d, hd, hvalue.trans ?_⟩, (plain_numerals_are_exact large 3).2.1 hlarge, env, ?_, ?_⟩
  · have hcoefficient : t.coefficient = 72500 := by decide
    have hplaces : t.fraction.length = 4 := rfl
    have hnegative : t.negative = true := rfl
    rw [Numeral.value, signed, hcoefficient, hplaces, hnegative]
    norm_num
  · rw [← hdefinition]
    exact hrun
  · rw [← hshown]
    exact hempty rfl

end Listwise

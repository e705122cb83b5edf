import Listwise.Proofs.Precedence
import Listwise.Proofs.Results
import Listwise.Proofs.Spelling
import Listwise.Statement

/-!
# The text of a transform

`Expr.render` writes no parentheses of its own, so its text says how an expression is put together only if every
operand binds as tightly as its place demands, as it does in whatever was read from a text.

* `Expr.read text line`: the expression at the front of a text, and the lexemes behind it.
* `Expr.relabel f n e`: `e` with all its lines `n` and `f` applied to its literals.
* `Expr.Readable`: what a text is read as.  It passes to parts (`Readable.of_mem_parts`).
* `Expr.scan_render`: the lexemes of an expression's text.
* `Expr.read_render`: the text is read as the expression.
-/

namespace Listwise

open Grammar

/-! ## Definitions -/

namespace Expr

/-- The expression at the front of a text, of which the first line has the given number, and the lexemes behind it. -/
def read (text : String) (line : Nat) : Except Error (Expr Decimal × List Lexeme) := do
  let ts ← Token.tokenize text line
  let t ← Grammar.sum line ts
  return (← t.value.mapLiterals readDecimal, t.rest)

section Shape

variable {ν μ : Type}

/-- The expression and all that it is put together of. -/
def parts : Expr ν → List (Expr ν)
  | .literal v n => [.literal v n]
  | .var x n => [.var x n]
  | .binary op l r n => .binary op l r n :: (l.parts ++ r.parts)
  | .negate e n => .negate e n :: e.parts
  | .group e n => .group e n :: e.parts

/-- The expression with `f` applied to its literals, and all on line `n`. -/
def relabel (f : ν → μ) (n : Nat) : Expr ν → Expr μ
  | .literal v _ => .literal (f v) n
  | .var x _ => .var x n
  | .binary op l r _ => .binary op (l.relabel f n) (r.relabel f n) n
  | .negate e _ => .negate (e.relabel f n) n
  | .group e _ => .group (e.relabel f n) n

end Shape

/-- What a text is read as: operands bind as tightly as they have to, names may be names, and literals have no sign. -/
structure Readable (e : Expr Decimal) : Prop where
  derivable : Grammar.derivable e = true
  spelled : e.Spelled (·.negative = false)

end Expr

/-! ## Shapes -/

section Shapes

variable {ν μ : Type} {f : ν → μ} {n : Nat}

theorem isSum_relabel (e : Expr ν) : isSum (e.relabel f n) = isSum e := by
  unfold isSum
  cases e with
  | binary op l r m => cases op <;> rfl
  | _ => rfl

theorem isAtom_relabel (e : Expr ν) : isAtom (e.relabel f n) = isAtom e := by
  cases e <;> rfl

theorem isSigned_relabel (e : Expr ν) : isSigned (e.relabel f n) = isSigned e := by
  cases e with
  | binary op l r m => cases op <;> rfl
  | _ => rfl

/-- Whether an expression is derivable does not depend on its literals and lines. -/
theorem derivable_relabel (e : Expr ν) : derivable (e.relabel f n) = derivable e := by
  induction e with
  | literal v m => rfl
  | var x m => rfl
  | group e m ih => exact ih
  | negate e m ih => simp only [Expr.relabel, derivable, ih, isSigned_relabel]
  | binary op l r m ihl ihr =>
    cases op <;> simp only [Expr.relabel, derivable, ihl, ihr, isSum_relabel, isAtom_relabel, isSigned_relabel]

/-- What passes from expressions to their operands passes to all their parts. -/
theorem of_mem_parts {P : Expr ν → Prop} (hbinary : ∀ op l r m, P (.binary op l r m) → P l ∧ P r)
    (hnegate : ∀ e m, P (.negate e m) → P e) (hgroup : ∀ e m, P (.group e m) → P e) {e x : Expr ν} (he : P e)
    (hx : x ∈ e.parts) : P x := by
  induction e with
  | literal v m => rwa [List.mem_singleton.mp hx]
  | var y m => rwa [List.mem_singleton.mp hx]
  | group e m ih =>
    rcases List.mem_cons.mp hx with rfl | hx
    · exact he
    · exact ih (hgroup e m he) hx
  | negate e m ih =>
    rcases List.mem_cons.mp hx with rfl | hx
    · exact he
    · exact ih (hnegate e m he) hx
  | binary op l r m ihl ihr =>
    rcases List.mem_cons.mp hx with rfl | hx
    · exact he
    · obtain ⟨hl, hr⟩ := hbinary op l r m he
      rcases List.mem_append.mp hx with hx | hx
      · exact ihl hl hx
      · exact ihr hr hx

theorem Expr.Readable.of_mem_parts {e x : Expr Decimal} (he : e.Readable) (hx : x ∈ e.parts) : x.Readable := by
  refine Listwise.of_mem_parts ?_ ?_ ?_ he hx
  · intro op l r m h
    have hderivable : Grammar.derivable l = true ∧ Grammar.derivable r = true := by
      have h := h.derivable
      cases op <;> simp_all [Grammar.derivable]
    obtain ⟨hl, hr⟩ := h.spelled
    exact ⟨⟨hderivable.1, hl⟩, ⟨hderivable.2, hr⟩⟩
  · intro e m h
    exact ⟨(Bool.and_eq_true_iff.mp h.derivable).1, h.spelled⟩
  · intro e m h
    exact ⟨h.derivable, h.spelled⟩

end Shapes

/-! ## What is read -/

section Read

/-- Literals that are read one by one leave the rest of an expression as it is. -/
theorem relabel_mapLiterals {ν μ : Type} {f : ν → Nat → Except Error μ} {e : Expr ν} {e' : Expr μ}
    (h : e.mapLiterals f = .ok e') : e'.relabel (fun _ => ()) 0 = e.relabel (fun _ => ()) 0 := by
  induction e generalizing e' with
  | literal v n =>
    obtain ⟨v', -, h⟩ := bind_eq_ok.mp h
    cases h
    rfl
  | var x n =>
    cases h
    rfl
  | group e n ih =>
    obtain ⟨e₁, he₁, h⟩ := bind_eq_ok.mp h
    cases h
    rw [Expr.relabel, ih he₁, Expr.relabel]
  | negate e n ih =>
    obtain ⟨e₁, he₁, h⟩ := bind_eq_ok.mp h
    cases h
    rw [Expr.relabel, ih he₁, Expr.relabel]
  | binary op l r n ihl ihr =>
    obtain ⟨l₁, hl₁, h⟩ := bind_eq_ok.mp h
    obtain ⟨r₁, hr₁, h⟩ := bind_eq_ok.mp h
    cases h
    rw [Expr.relabel, ihl hl₁, ihr hr₁, Expr.relabel]

theorem spelled_mapLiterals {ν μ : Type} {f : ν → Nat → Except Error μ} {p : ν → Prop} {q : μ → Prop}
    (hf : ∀ v n d, p v → f v n = .ok d → q d) {e : Expr ν} {e' : Expr μ} (he : e.Spelled p)
    (h : e.mapLiterals f = .ok e') : e'.Spelled q := by
  induction e generalizing e' with
  | literal v n =>
    obtain ⟨v', hv', h⟩ := bind_eq_ok.mp h
    cases h
    exact hf v n v' he hv'
  | var x n =>
    cases h
    exact he
  | group e n ih =>
    obtain ⟨e₁, he₁, h⟩ := bind_eq_ok.mp h
    cases h
    show e₁.Spelled q
    exact ih he he₁
  | negate e n ih =>
    obtain ⟨e₁, he₁, h⟩ := bind_eq_ok.mp h
    cases h
    show e₁.Spelled q
    exact ih he he₁
  | binary op l r n ihl ihr =>
    obtain ⟨l₁, hl₁, h⟩ := bind_eq_ok.mp h
    obtain ⟨r₁, hr₁, h⟩ := bind_eq_ok.mp h
    cases h
    exact ⟨ihl he.1 hl₁, ihr he.2 hr₁⟩

theorem negative_of_isNumeral {text : String} {d : Decimal} (ht : Token.IsNumeral text.toList)
    (h : Decimal.parse? text = some d) : d.negative = false := by
  obtain ⟨whole, fraction, exponent, htext, ⟨hne, hdigits⟩, -, -⟩ := ht
  obtain ⟨c, cs, rfl⟩ := List.exists_cons_of_ne_nil hne
  rw [Decimal.parse?, htext] at h
  exact Decimal.negative_ofChars? (hdigits c List.mem_cons_self) h

/-- What a text is read as is readable. -/
theorem readable_of_read {source : String} {line : Nat} {e : Expr Decimal} {rest : List Lexeme}
    (h : Expr.read source line = .ok (e, rest)) : e.Readable := by
  obtain ⟨ts, hts, h⟩ := bind_eq_ok.mp h
  obtain ⟨⟨w, rest', hlt⟩, ht, h⟩ := bind_eq_ok.mp h
  obtain ⟨e', he', h⟩ := bind_eq_ok.mp h
  cases h
  obtain ⟨d, rfl, rfl⟩ := (arithmetic_exact line .sum).sound ⟨hlt, ht⟩
  have hwritable := fun l hl => Token.writable_tokenize hts l (List.mem_append_left _ hl)
  constructor
  -- what was read and what was written down agree but for their literals
  · rw [← derivable_relabel (f := fun _ => ()) (n := 0) e, relabel_mapLiterals he', derivable_relabel]
    exact derivable_tree d
  · refine spelled_mapLiterals ?_ (Derivation.spelled_arith d hwritable) he'
    intro text n d htext hd
    unfold readDecimal at hd
    split at hd
    · next d' hparse =>
      cases hd
      exact negative_of_isNumeral htext hparse
    · cases hd

end Read

/-! ## What is written -/

section Written

variable {n : Nat} {rest : List Char} {ts : List Lexeme}

/-- The literal of a decimal in its shortest form. -/
def Decimal.shortest (d : Decimal) : String := d.canonical.toText

/-- Whether an expression is over where `rest` follows. -/
def endsExpr (rest : List Char) : Prop := ∀ c ∈ rest.head?, c = ' ' ∨ c = ')'

theorem scan_shortest {d : Decimal} (hd : d.negative = false) (hr : endsExpr rest)
    (hs : Token.scan n rest = .ok ts) :
    Token.scan n (d.shortest.toList ++ rest) = .ok (⟨.number d.shortest, n⟩ :: ts) := by
  have hchars : d.canonical.toChars = d.canonical.magnitude := by
    rw [Decimal.toChars_eq, Decimal.negative_canonical hd]
    rfl
  have hends : Token.endsNumber rest = true := by
    cases rest with
    | nil => rfl
    | cons c cs => rcases hr c rfl with rfl | rfl <;> rfl
  have hm := Token.scan_number d.canonical.wholeDigits_ne_nil d.canonical.isDigit_wholeDigits
    d.canonical.isDigit_fractionDigits hends hs
  rw [Decimal.shortest, Decimal.toText, String.toList_ofList, hchars]
  exact hm

/-- The sign of an operation between two blanks. -/
theorem scan_symbol (op : Op) {cs : List Char} (hs : Token.scan n cs = .ok ts) :
    Token.scan n (' ' :: (op.symbol.toList ++ ' ' :: cs)) = .ok (⟨sign op, n⟩ :: ts) := by
  have hblank : Token.scan n (' ' :: cs) = .ok ts := (Token.scan_blank rfl).trans hs
  rw [Token.scan_blank rfl]
  cases op with
  | add => exact Token.scan_token (c := '+') rfl hblank
  | sub => exact Token.scan_token (c := '-') rfl hblank
  | mul => exact Token.scan_token (c := '*') rfl hblank
  | div => exact Token.scan_token (c := '/') rfl hblank
  | pow => exact Token.scan_token (c := '^') rfl hblank

theorem toList_binary (op : Op) (l r : Expr Decimal) (m : Nat) :
    (Expr.binary op l r m).render.toList =
      l.render.toList ++ ' ' :: (op.symbol.toList ++ ' ' :: r.render.toList) := by
  simp only [Expr.render, String.toList_append, List.append_assoc]
  rfl

theorem toList_group (e : Expr Decimal) (m : Nat) :
    (Expr.group e m).render.toList = '(' :: (e.render.toList ++ [')']) := by
  simp only [Expr.render, String.toList_append, List.append_assoc]
  rfl

theorem toList_negate (e : Expr Decimal) (m : Nat) : (Expr.negate e m).render.toList = '-' :: e.render.toList := by
  simp only [Expr.render, String.toList_append]
  rfl

/-- The text of an expression has the lexemes of the expression, all on one line. -/
theorem Expr.scan_render {e : Expr Decimal} (he : e.Spelled (·.negative = false)) (hr : endsExpr rest)
    (hs : Token.scan n rest = .ok ts) :
    Token.scan n (e.render.toList ++ rest) = .ok (flatten (e.relabel Decimal.shortest n) (fun _ => n) ++ ts) := by
  -- from the right to the left: a piece is cut off knowing what follows it
  induction e generalizing rest ts with
  | literal d m => exact scan_shortest he hr hs
  | var x m =>
    refine Token.scan_word he ?_ hs
    intro c hc
    rcases hr c hc with rfl | rfl <;> rfl
  | group e m ih =>
    have hends : endsExpr (')' :: rest) := fun c hc => .inr (Option.some.inj hc).symm
    have hclose : Token.scan n (')' :: rest) = .ok (⟨.rightParen, n⟩ :: ts) := Token.scan_token rfl hs
    have hopen := Token.scan_token (c := '(') rfl (ih he hends hclose)
    rw [toList_group, List.cons_append, List.append_assoc, List.singleton_append, hopen, Expr.relabel, flatten,
      List.cons_append, List.cons_append, List.append_assoc, List.singleton_append]
  | negate e m ih =>
    rw [toList_negate]
    exact Token.scan_token rfl (ih he hr hs)
  | binary op l r m ihl ihr =>
    obtain ⟨hspelledl, hspelledr⟩ := he
    have hright := scan_symbol op (ihr hspelledr hr hs)
    have hends : endsExpr (' ' :: (op.symbol.toList ++ ' ' :: (r.render.toList ++ rest))) :=
      fun c hc => .inl (Option.some.inj hc).symm
    have hleft := ihl hspelledl hends hright
    rw [toList_binary, Expr.relabel, flatten]
    simp only [List.append_assoc, List.cons_append] at hleft ⊢
    exact hleft

/-- The literals are read back in their shortest form. -/
theorem mapLiterals_relabel (e : Expr Decimal) (n : Nat) :
    (e.relabel Decimal.shortest n).mapLiterals readDecimal = .ok (e.relabel Decimal.canonical n) := by
  have hread : ∀ d : Decimal, readDecimal d.shortest n = .ok d.canonical := by
    intro d
    rw [readDecimal, Decimal.shortest, Decimal.parse?_canonical_toText]
  induction e with
  | literal d m =>
    rw [Expr.relabel, Expr.mapLiterals, hread]
    rfl
  | var x m => rfl
  | group e m ih =>
    rw [Expr.relabel, Expr.mapLiterals, ih]
    rfl
  | negate e m ih =>
    rw [Expr.relabel, Expr.mapLiterals, ih]
    rfl
  | binary op l r m ihl ihr =>
    rw [Expr.relabel, Expr.mapLiterals, ihl, ihr]
    rfl

/-- The text of a readable expression is read as the expression. -/
theorem Expr.read_render {e : Expr Decimal} (he : e.Readable) (n : Nat) :
    Expr.read e.render n = .ok (e.relabel Decimal.canonical n, []) := by
  have hscan : Token.tokenize e.render n = .ok (flatten (e.relabel Decimal.shortest n) (fun _ => n)) := by
    have hends : endsExpr [] := fun c hc => absurd hc (by simp)
    have hnil : Token.scan n [] = .ok [] := by rw [Token.scan]
    have h := Expr.scan_render he.spelled hends hnil
    rwa [List.append_nil, List.append_nil] at h
  have hderivable : derivable (e.relabel Decimal.shortest n) = true := (derivable_relabel e).trans he.derivable
  obtain ⟨d, htree, hyield⟩ := spells_of_derivable _ (fun _ => n) (l := .sum) hderivable rfl
  have hgives : Gives (Grammar.sum n (d.yield ++ [])) d.tree [] := (arithmetic_exact n .sum).complete d rfl
  rw [hyield, htree, List.append_nil] at hgives
  obtain ⟨hlt, hsum⟩ := hgives
  rw [Expr.read, hscan]
  show (do
    let t ← Grammar.sum n (flatten (e.relabel Decimal.shortest n) (fun _ => n))
    return (← t.value.mapLiterals readDecimal, t.rest)) = _
  rw [hsum]
  show (do return (← (e.relabel Decimal.shortest n).mapLiterals readDecimal, ([] : List Lexeme))) = _
  rw [mapLiterals_relabel]
  rfl

end Written

/-! ## What errors quote -/

section Quoted

theorem self_mem_parts {ν : Type} (e : Expr ν) : e ∈ e.parts := by
  cases e <;> exact List.mem_cons_self

/-- An error of an evaluation quotes a part, on the line of the part. -/
theorem quoted_of_eval {σ : Assignment} {e : Expr Decimal} {err : Error} (h : e.eval σ = .error err) :
    ∃ x ∈ e.parts, ∃ fault, err = ⟨.arithmetic fault x.render, x.line⟩ := by
  induction e with
  | literal d m => cases h
  | var y m => cases h
  | group e m ih =>
    obtain ⟨x, hx, hquote⟩ := ih h
    exact ⟨x, List.mem_cons_of_mem _ hx, hquote⟩
  | negate e m ih =>
    cases he : e.eval σ with
    | error err' =>
      rw [Expr.eval, he] at h
      cases h
      obtain ⟨x, hx, hquote⟩ := ih he
      exact ⟨x, List.mem_cons_of_mem _ hx, hquote⟩
    | ok v =>
      rw [Expr.eval, he] at h
      cases h
  | binary op l r m ihl ihr =>
    rw [Expr.eval] at h
    cases hl : l.eval σ with
    | error err' =>
      rw [hl] at h
      cases h
      obtain ⟨x, hx, hquote⟩ := ihl hl
      exact ⟨x, List.mem_cons_of_mem _ (List.mem_append_left _ hx), hquote⟩
    | ok a =>
      cases hr : r.eval σ with
      | error err' =>
        rw [hl, hr] at h
        cases h
        obtain ⟨x, hx, hquote⟩ := ihr hr
        exact ⟨x, List.mem_cons_of_mem _ (List.mem_append_right _ hx), hquote⟩
      | ok b =>
        rw [hl, hr] at h
        refine ⟨_, self_mem_parts _, ?_⟩
        cases happly : op.apply a b with
        | error fault =>
          simp only [bind, Except.bind, happly] at h
          cases h
          exact ⟨fault, rfl⟩
        | ok v =>
          simp only [bind, Except.bind, happly] at h
          cases h

/-- **The text of a transform identifies it.**  Whatever a text was read as, the text of each of its parts is read as
the part, all on one line and with literals in their shortest form, and nothing is left over.  What an error of its
evaluation quotes is the text of such a part. -/
theorem text_identifies_parts {source : String} {line : Nat} {e : Expr Decimal} {rest : List Lexeme}
    (h : Expr.read source line = .ok (e, rest)) :
    (∀ x ∈ e.parts, ∀ n, Expr.read x.render n = .ok (x.relabel Decimal.canonical n, [])) ∧
      ∀ σ err, e.eval σ = .error err → ∃ x ∈ e.parts, ∃ fault, err = ⟨.arithmetic fault x.render, x.line⟩ :=
  ⟨fun _ hx n => Expr.read_render ((readable_of_read h).of_mem_parts hx) n, fun _ _ => quoted_of_eval⟩

/-- A quotient by zero on two lines; its text is read back on line 9, where it stands in an error. -/
theorem text_identifies_parts_quotient :
    let quotient : Expr Decimal :=
      .binary .div (.binary .mul (.negate (.var "y" 3) 3) (.literal ⟨false, 150, 2, by decide, by decide⟩ 3) 3)
        (.group (.binary .sub (.var "x" 4) (.var "x" 4) 4) 4) 4
    let e : Expr Decimal := .binary .add quotient (.literal ⟨false, 7, 0, by decide, by decide⟩ 4) 4
    Expr.read "-y * 1.50\n/ (x - x) + 7 ]" 3 = .ok (e, [⟨.rightBracket, 4⟩]) ∧
      quotient.render = "-y * 1.5 / (x - x)" ∧
      Expr.read "-y * 1.5 / (x - x)" 9 = .ok (quotient.relabel Decimal.canonical 9, []) ∧
      ∃ x ∈ e.parts, ∃ fault,
        (⟨.arithmetic .divisionByZero "-y * 1.5 / (x - x)", 4⟩ : Error) = ⟨.arithmetic fault x.render, x.line⟩ := by
  intro quotient e
  have hread : Expr.read "-y * 1.50\n/ (x - x) + 7 ]" 3 = .ok (e, [⟨.rightBracket, 4⟩]) := by decide +kernel
  have hpart : quotient ∈ e.parts := List.mem_cons_of_mem _ (List.mem_append_left _ (self_mem_parts quotient))
  have heval : e.eval [] = .error ⟨.arithmetic .divisionByZero "-y * 1.5 / (x - x)", 4⟩ := by decide +kernel
  obtain ⟨hparts, hquoted⟩ := text_identifies_parts hread
  exact ⟨hread, by decide +kernel, hparts quotient hpart 9, hquoted [] _ heval⟩

end Quoted

end Listwise

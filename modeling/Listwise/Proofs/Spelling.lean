import Listwise.Proofs.StatementGrammar
import Listwise.Proofs.TokenShape

/-!
# How statements are spelled

The words, the quoted texts and the numbers of a statement are those of its tokens.  So in whatever is read from a text
the names may be names, the texts may stand between quotes, and the numbers are numerals, with or without a sign.

* `Expr.Spelled`, `Written.Elements.Spelled`, `Written.Form.Spelled`: this of expressions, of elements and of
  statements.
* `spelled_number`, …, `spelled_statement`: what is made of writable tokens is spelled so, rule by rule.
* `spelled_parse?`: and so is what a text is read as.
-/

namespace Listwise

/-! ## Definitions -/

/-- A numeral, with or without a minus sign in front of it. -/
def IsSignedNumeral (text : String) : Prop :=
  ∃ negative cs, Token.IsNumeral cs ∧ text = String.ofList (Decimal.signChars negative ++ cs)

/-- All literals are as `p` says, and all names may be names. -/
def Expr.Spelled {ν : Type} (p : ν → Prop) : Expr ν → Prop
  | .literal v _ => p v
  | .var x _ => Token.isName x = true
  | .binary _ l r _ => l.Spelled p ∧ r.Spelled p
  | .negate e _ => e.Spelled p
  | .group e _ => e.Spelled p

namespace Written

def Literal.Spelled : Literal → Prop
  | .number t => IsSignedNumeral t
  | .text t => Token.isQuotable t = true

def Elements.Spelled : Elements → Prop
  | .listed items => ∀ x ∈ items, x.Spelled
  | .between lower upper => IsSignedNumeral lower ∧ IsSignedNumeral upper
  | .above lower => IsSignedNumeral lower
  | .below upper => IsSignedNumeral upper

def Source.Spelled : Source → Prop
  | .list name => Token.isName name = true
  | .inline es => es.Spelled

structure Clause.Spelled (c : Clause) : Prop where
  name : Token.isName c.name = true
  elements : c.elements.Spelled

structure Binding.Spelled (b : Binding) : Prop where
  var : Token.isName b.var = true
  source : b.source.Spelled

structure Predicate.Spelled (p : Predicate) : Prop where
  operand : Token.isName p.operand = true
  threshold : IsSignedNumeral p.threshold

/-- In a transform a sign is an operation, so its literals have none. -/
structure Comprehension.Spelled (c : Comprehension) : Prop where
  result : Token.isName c.result = true
  transform : ∀ e ∈ c.transform, e.Spelled fun text => Token.IsNumeral text.toList
  bindings : ∀ b ∈ c.bindings, b.Spelled
  predicates : ∀ p ∈ c.predicates, p.Spelled

def Form.Spelled : Form → Prop
  | .definitions clauses => ∀ c ∈ clauses, c.Spelled
  | .showAll => True
  | .comprehension c => c.Spelled

end Written

/-! ## Derivations -/

namespace Grammar.Derivation

section Sequences

variable {α δ : Type} {y : δ → List Lexeme} {v : δ → α} {p : Lexeme → Prop} {q : α → Prop}
variable (h : ∀ d, (∀ l ∈ y d, p l) → q (v d))
include h

/-- What holds of each item that is made of certain lexemes holds of all items of a sequence of them. -/
theorem forall_mem_values (s : Separated δ) (hs : ∀ l ∈ s.yield y, p l) : ∀ x ∈ s.values v, q x := by
  induction s with
  | last d =>
    rw [Separated.values, List.forall_mem_singleton]
    exact h d hs
  | more d n s ih =>
    simp only [Separated.yield, List.forall_mem_append, List.forall_mem_cons] at hs
    exact List.forall_mem_cons.mpr ⟨h d hs.1, ih hs.2.2⟩

theorem forall_mem_values? (s : Option (Separated δ)) (hs : ∀ l ∈ Separated.yield? y s, p l) :
    ∀ x ∈ Separated.values? v s, q x := by
  cases s with
  | none => exact List.forall_mem_nil _
  | some s => exact forall_mem_values h s hs

end Sequences

theorem spelled_number (d : Number) (hd : ∀ l ∈ d.yield, l.token.Writable) : IsSignedNumeral d.value := by
  cases d with
  | plain digits n =>
    have hdigits : Token.IsNumeral digits.toList := hd _ List.mem_cons_self
    exact ⟨false, digits.toList, hdigits, String.ofList_toList.symm⟩
  | negative minus digits n =>
    have hdigits : Token.IsNumeral digits.toList := hd ⟨.number digits, n⟩ (by simp [Number.yield])
    refine ⟨true, digits.toList, hdigits, ?_⟩
    rw [String.ofList_append, String.ofList_toList]
    rfl

theorem spelled_literal (d : Literal) (hd : ∀ l ∈ d.yield, l.token.Writable) : d.value.Spelled := by
  cases d with
  | number d => exact spelled_number d hd
  | word text n => exact Token.isQuotable_of_isName (hd _ List.mem_cons_self)
  | quoted text n => exact Token.isQuotable_iff.mpr (hd _ List.mem_cons_self)

theorem spelled_elements (d : Elements) (hd : ∀ l ∈ d.yield, l.token.Writable) : d.value.Spelled := by
  cases d with
  | listed opening items closing =>
    simp only [Elements.yield, List.forall_mem_cons, List.forall_mem_append] at hd
    exact forall_mem_values? spelled_literal items hd.2.1
  | between lower dots upper =>
    simp only [Elements.yield, List.forall_mem_cons, List.forall_mem_append] at hd
    exact ⟨spelled_number lower hd.1, spelled_number upper hd.2.2⟩
  | above lower dots =>
    simp only [Elements.yield, List.forall_mem_append] at hd
    exact spelled_number lower hd.1
  | below dots upper =>
    simp only [Elements.yield, List.forall_mem_cons] at hd
    exact spelled_number upper hd.2

theorem spelled_clause (d : Clause) (hd : ∀ l ∈ d.yield, l.token.Writable) : d.value.Spelled := by
  simp only [Clause.yield, Headed.yield, List.forall_mem_cons] at hd
  exact ⟨hd.1, spelled_elements d.body hd.2.2⟩

theorem spelled_source (d : Source) (hd : ∀ l ∈ d.yield, l.token.Writable) : d.value.Spelled := by
  cases d with
  | list name n => exact hd _ List.mem_cons_self
  | inline elements => exact spelled_elements elements hd

theorem spelled_binding (d : Binding) (hd : ∀ l ∈ Binding.yield d, l.token.Writable) : (Binding.value d).Spelled := by
  simp only [Binding.yield, Headed.yield, List.forall_mem_cons] at hd
  exact ⟨hd.1, spelled_source d.body hd.2.2⟩

theorem spelled_arith {l : Level} (d : Arith l) (hd : ∀ l ∈ d.yield, l.token.Writable) :
    d.tree.Spelled fun text => Token.IsNumeral text.toList := by
  induction d with
  | ofProduct p ih => exact ih hd
  | ofSigned s ih => exact ih hd
  | ofPower p ih => exact ih hd
  | ofAtom a ih => exact ih hd
  | chained left sign n right ihl ihr =>
    simp only [Arith.yield, List.forall_mem_append, List.forall_mem_cons] at hd
    exact ⟨ihl hd.1, ihr hd.2.2⟩
  | raise base n exponent ihb ihe =>
    simp only [Arith.yield, List.forall_mem_append, List.forall_mem_cons] at hd
    exact ⟨ihb hd.1, ihe hd.2.2⟩
  | negate n operand ih =>
    simp only [Arith.yield, List.forall_mem_cons] at hd
    exact ih hd.2
  | number text n => exact hd _ List.mem_cons_self
  | name x n => exact hd _ List.mem_cons_self
  | parens n inner m ih =>
    simp only [Arith.yield, List.forall_mem_cons, List.forall_mem_append] at hd
    exact ih hd.1.2

theorem spelled_predicate (d : Predicate) (hd : ∀ l ∈ d.yield, l.token.Writable) : d.value.Spelled := by
  simp only [Predicate.yield, List.forall_mem_cons, List.forall_mem_append] at hd
  exact ⟨hd.1, spelled_number d.threshold hd.2.2⟩

theorem spelled_predicates (d : Predicates) (hd : ∀ l ∈ d.yield, l.token.Writable) : ∀ p ∈ d.value, p.Spelled := by
  cases d with
  | missing closing => exact List.forall_mem_nil _
  | listed pipe items closing =>
    simp only [Predicates.yield, List.forall_mem_cons, List.forall_mem_append] at hd
    exact forall_mem_values? spelled_predicate items hd.2.1

theorem spelled_comprehension (d : Comprehension) (hd : ∀ l ∈ d.yield, l.token.Writable) : d.value.Spelled := by
  simp only [Comprehension.yield, List.forall_mem_cons, List.forall_mem_append] at hd
  obtain ⟨hresult, -, -, htransform, -, hbindings, hpredicates⟩ := hd
  refine ⟨hresult, ?_, forall_mem_values? spelled_binding d.bindings hbindings,
    spelled_predicates d.predicates hpredicates⟩
  intro e he
  obtain ⟨a, ha, rfl⟩ := Option.map_eq_some_iff.mp he
  rw [ha] at htransform
  exact spelled_arith a htransform

theorem spelled_statement (line : Nat) (d : Statement) (hd : ∀ l ∈ d.yield, l.token.Writable) :
    (d.value line).form.Spelled := by
  cases d with
  | showAll n => trivial
  | definitions clauses => exact forall_mem_values spelled_clause clauses hd
  | comprehension c => exact spelled_comprehension c hd

end Grammar.Derivation

/-- **The lexer and the grammar let no other statement through.** -/
theorem spelled_parse? {input : String} {line : Nat} {w : Written.Statement}
    (h : Written.Statement.parse? input line = .ok (some w)) : w.form.Spelled := by
  obtain ⟨d, hd, rfl⟩ := Grammar.Derivation.parse?_eq_some.mp h
  exact Grammar.Derivation.spelled_statement line d (Token.writable_tokenize hd)

end Listwise

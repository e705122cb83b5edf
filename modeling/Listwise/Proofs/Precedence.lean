import Listwise.Proofs.ArithmeticGrammar

/-!
# Precedence and associativity

Which expressions the reader of arithmetic builds, said on the expressions themselves, and how they are written.

* `derivable e`: every operand in `e` binds as tightly as its place demands.
* `flatten e closing`: the lexemes of `e`; every sign, word and opening parenthesis stands on the line of its
  node, and `closing` gives the lines of the closing parentheses.
* `sum_reads_derivable`: a sum is read from `ts` exactly if `ts` begins with the lexemes of a derivable expression.
-/

namespace Listwise.Grammar

/-! ## Definitions -/

/-- Whether sums and products group to the left, powers to the right, and every operand is tight enough. -/
def derivable {ν : Type} : Expr ν → Bool
  | .literal _ _ => true
  | .var _ _ => true
  | .group inner _ => derivable inner
  | .negate operand _ => derivable operand && isSigned operand
  | .binary .add left right _ => derivable left && derivable right && !isSum right
  | .binary .sub left right _ => derivable left && derivable right && !isSum right
  | .binary .mul left right _ => derivable left && derivable right && !isSum left && isSigned right
  | .binary .div left right _ => derivable left && derivable right && !isSum left && isSigned right
  | .binary .pow left right _ => derivable left && derivable right && isAtom left && isSigned right

/-- The sign of an operation. -/
def sign : Op → Token
  | .add => .plus
  | .sub => .minus
  | .mul => .star
  | .div => .slash
  | .pow => .caret

/-- The lexemes of an expression.  `closing` gives the line of a closing parenthesis by the path to its node from
the root: `0` enters the left or only operand, `1` the right one. -/
def flatten : Expr String → (List Nat → Nat) → List Lexeme
  | .literal text n, _ => [⟨.number text, n⟩]
  | .var x n, _ => [⟨.word x, n⟩]
  | .group inner n, closing =>
    ⟨.leftParen, n⟩ :: flatten inner (fun path => closing (0 :: path)) ++ [⟨.rightParen, closing []⟩]
  | .negate operand n, closing => ⟨.minus, n⟩ :: flatten operand (fun path => closing (0 :: path))
  | .binary op left right n, closing =>
    flatten left (fun path => closing (0 :: path)) ++
      ⟨sign op, n⟩ :: flatten right (fun path => closing (1 :: path))

/-- The lines of a node's own closing parenthesis and of those in its operands. -/
def branch (line : Nat) (left right : List Nat → Nat) : List Nat → Nat
  | [] => line
  | 0 :: path => left path
  | _ :: path => right path

/-! ## From derivations to expressions -/

theorem sign_op {l : Level} (s : Sign l) : sign s.op = s.token := by
  cases s <;> rfl

theorem derivable_tree {l : Level} (d : Arith l) : derivable d.tree = true := by
  induction d with
  | ofProduct p ih => exact ih
  | ofSigned s ih => exact ih
  | chained left s n right ihl ihr =>
    have hl := admits_tree left
    have hr := admits_tree right
    cases s <;> simp_all [Arith.tree, Sign.op, derivable, Level.admits, Level.tighter]
  | ofPower p ih => exact ih
  | negate n x ih =>
    have hx : isSigned x.tree = true := admits_tree x
    simp [Arith.tree, derivable, ih, hx]
  | ofAtom a ih => exact ih
  | raise b n x ihb ihx =>
    have hb : isAtom b.tree = true := admits_tree b
    have hx : isSigned x.tree = true := admits_tree x
    simp [Arith.tree, derivable, ihb, ihx, hb, hx]
  | number text n => rfl
  | name x n => rfl
  | parens n inner m ih => exact ih

theorem exists_closing {l : Level} (d : Arith l) : ∃ closing, d.yield = flatten d.tree closing := by
  induction d with
  | ofProduct p ih => exact ih
  | ofSigned s ih => exact ih
  | chained left s n right ihl ihr =>
    obtain ⟨cl, hl⟩ := ihl
    obtain ⟨cr, hr⟩ := ihr
    refine ⟨branch 0 cl cr, ?_⟩
    rw [Arith.yield, hl, hr, ← sign_op]
    rfl
  | ofPower p ih => exact ih
  | negate n x ih =>
    obtain ⟨c, hx⟩ := ih
    refine ⟨branch 0 c c, ?_⟩
    rw [Arith.yield, hx]
    rfl
  | ofAtom a ih => exact ih
  | raise b n x ihb ihx =>
    obtain ⟨cb, hb⟩ := ihb
    obtain ⟨cx, hx⟩ := ihx
    refine ⟨branch 0 cb cx, ?_⟩
    rw [Arith.yield, hb, hx]
    rfl
  | number text n => exact ⟨fun _ => 0, rfl⟩
  | name x n => exact ⟨fun _ => 0, rfl⟩
  | parens n inner m ih =>
    obtain ⟨c, hin⟩ := ih
    refine ⟨branch m c c, ?_⟩
    rw [Arith.yield, hin]
    rfl

/-! ## From expressions to derivations -/

/-- The lexemes `ts` have a derivation of a class that builds `e`. -/
def Spells (l : Level) (e : Expr String) (ts : List Lexeme) : Prop :=
  ∃ d : Arith l, d.tree = e ∧ d.yield = ts

/-- How loosely a class binds. -/
def Level.rank : Level → Nat
  | .atom => 0
  | .power => 1
  | .signed => 2
  | .product => 3
  | .sum => 4

/-- What passes from each class to the next looser one passes from `k` to all classes at least as loose. -/
theorem Level.climb {P : Level → Prop} {k l : Level} (hkl : k.rank ≤ l.rank) (h : P k)
    (step : ∀ l, l ≠ .atom → P l.tighter → P l) : P l := by
  induction hn : l.rank generalizing l with
  | zero =>
    have hk : k = l := by cases k <;> cases l <;> simp_all [rank]
    exact hk ▸ h
  | succ n ih =>
    by_cases hk : k = l
    · exact hk ▸ h
    · have hl : l ≠ .atom := by rintro rfl; cases hn
      have ht : l.tighter.rank = n := by cases l <;> simp_all [rank, tighter]
      have hkt : k.rank ≤ l.tighter.rank := by
        have hne : k.rank ≠ l.rank := by cases k <;> cases l <;> simp_all [rank]
        omega
      exact step l hl (ih hkt ht)

namespace Spells

variable {k l : Level} {e : Expr String} {ts : List Lexeme}

theorem loosen (hl : l ≠ .atom) (h : Spells l.tighter e ts) : Spells l e ts := by
  obtain ⟨d, ht, hy⟩ := h
  cases l with
  | sum => exact ⟨.ofProduct d, ht, hy⟩
  | product => exact ⟨.ofSigned d, ht, hy⟩
  | signed => exact ⟨.ofPower d, ht, hy⟩
  | power => exact ⟨.ofAtom d, ht, hy⟩
  | atom => exact absurd rfl hl

/-- A derivation of the tightest class that admits `e` gives one of every class that does. -/
theorem of_admits (h : Spells k e ts) (hk : k = .atom ∨ k.tighter.admits e = false)
    (hl : l.admits e = true) : Spells l e ts := by
  rcases Nat.lt_or_ge l.rank k.rank with hlt | hle
  · rcases hk with rfl | hk
    · exact absurd hlt (Nat.not_lt_zero _)
    · have hrank : l.rank ≤ k.tighter.rank := by
        cases k <;> simp_all [Level.rank, Level.tighter] <;> omega
      -- then the class next to `k` would admit `e` too
      have hadm : k.tighter.admits e = true :=
        Level.climb (P := fun l => l.admits e = true) hrank hl fun _ _ => admits_of_tighter
      rw [hk] at hadm
      cases hadm
  · exact Level.climb (P := fun l => Spells l e ts) hle h fun _ => loosen

end Spells

/-- A derivable expression has a derivation, whatever the lines of its closing parentheses. -/
theorem spells_of_derivable (e : Expr String) (closing : List Nat → Nat) {l : Level}
    (hd : derivable e = true) (hl : l.admits e = true) : Spells l e (flatten e closing) := by
  induction e generalizing closing l with
  | literal text n => exact Spells.of_admits (k := .atom) ⟨.number text n, rfl, rfl⟩ (.inl rfl) hl
  | var x n => exact Spells.of_admits (k := .atom) ⟨.name x n, rfl, rfl⟩ (.inl rfl) hl
  | group inner n ih =>
    obtain ⟨d, rfl, hy⟩ := ih (fun path => closing (0 :: path)) (l := .sum) hd rfl
    refine Spells.of_admits (k := .atom) ⟨.parens n d (closing []), rfl, ?_⟩ (.inl rfl) hl
    rw [Arith.yield, hy, flatten]
  | negate x n ih =>
    simp only [derivable, Bool.and_eq_true] at hd
    obtain ⟨d, rfl, hy⟩ := ih (fun path => closing (0 :: path)) (l := .signed) hd.1 hd.2
    refine Spells.of_admits (k := .signed) ⟨.negate n d, rfl, ?_⟩ (.inr rfl) hl
    rw [Arith.yield, hy, flatten]
  | binary op left right n ihl ihr =>
    have chain : ∀ {k : Level} (s : Sign k), s.op = op → derivable left = true →
        derivable right = true → k.admits left = true → k.tighter.admits right = true →
        Spells l (.binary op left right n) (flatten (.binary op left right n) closing) := by
      rintro k s rfl hdl hdr hal har
      obtain ⟨dl, rfl, hyl⟩ := ihl (fun path => closing (0 :: path)) hdl hal
      obtain ⟨dr, rfl, hyr⟩ := ihr (fun path => closing (1 :: path)) hdr har
      refine Spells.of_admits (k := k) ⟨.chained dl s n dr, rfl, ?_⟩ (.inr ?_) hl
      · rw [Arith.yield, hyl, hyr, flatten, sign_op]
      · cases s <;> rfl
    cases op with
    | add =>
      simp only [derivable, Bool.and_eq_true] at hd
      exact chain .plus rfl hd.1.1 hd.1.2 rfl hd.2
    | sub =>
      simp only [derivable, Bool.and_eq_true] at hd
      exact chain .minus rfl hd.1.1 hd.1.2 rfl hd.2
    | mul =>
      simp only [derivable, Bool.and_eq_true] at hd
      exact chain .star rfl hd.1.1.1 hd.1.1.2 hd.1.2 hd.2
    | div =>
      simp only [derivable, Bool.and_eq_true] at hd
      exact chain .slash rfl hd.1.1.1 hd.1.1.2 hd.1.2 hd.2
    | pow =>
      simp only [derivable, Bool.and_eq_true] at hd
      obtain ⟨db, rfl, hyb⟩ := ihl (fun path => closing (0 :: path)) (l := .atom) hd.1.1.1 hd.1.2
      obtain ⟨dx, rfl, hyx⟩ := ihr (fun path => closing (1 :: path)) (l := .signed) hd.1.1.2 hd.2
      refine Spells.of_admits (k := .power) ⟨.raise db n dx, rfl, ?_⟩ (.inr rfl) hl
      rw [Arith.yield, hyb, hyx, flatten]
      rfl

/-! ## Reading and writing -/

theorem ends_of_not_sign {rest : List Lexeme}
    (h : ∀ t ∈ rest.head?, t.token ∉ [.plus, .minus, .star, .slash, .caret]) :
    Level.sum.ends rest = true := by
  cases rest with
  | nil => rfl
  | cons t ts =>
    obtain ⟨t, n⟩ := t
    have ht : t ∉ [.plus, .minus, .star, .slash, .caret] := h _ rfl
    cases t <;> first | rfl | simp at ht

/-- **A sum is read exactly.**  What is read is derivable, and its lexemes were taken off the front; and the
lexemes of every derivable expression are read back, behind which no sign may follow. -/
theorem sum_reads_derivable (line : Nat) :
    (∀ ts e rest, Gives (sum line ts) e rest →
      derivable e = true ∧ ∃ closing, ts = flatten e closing ++ rest) ∧
    ∀ e closing rest, derivable e = true →
      (∀ t ∈ rest.head?, t.token ∉ [.plus, .minus, .star, .slash, .caret]) →
      Gives (sum line (flatten e closing ++ rest)) e rest := by
  have hexact := arithmetic_exact line .sum
  constructor
  · intro ts e rest hg
    obtain ⟨d, rfl, rfl⟩ := hexact.sound hg
    obtain ⟨closing, hy⟩ := exists_closing d
    exact ⟨derivable_tree d, closing, by rw [hy]⟩
  · intro e closing rest hd hrest
    obtain ⟨d, rfl, hy⟩ := spells_of_derivable e closing (l := .sum) hd rfl
    rw [← hy]
    exact hexact.complete d (ends_of_not_sign hrest)

/-- `-2 ^ -x * (3 - y)` on several lines, with a comma behind. -/
theorem sum_reads_derivable_product :
    let e : Expr String :=
      .binary .mul
        (.negate (.binary .pow (.literal "2" 1) (.negate (.var "x" 2) 2) 1) 1)
        (.group (.binary .sub (.literal "3" 3) (.var "y" 3) 3) 3) 2
    let rest : List Lexeme := [⟨.comma, 4⟩]
    derivable e = true ∧
      Gives (sum 1 ([⟨.minus, 1⟩, ⟨.number "2", 1⟩, ⟨.caret, 1⟩, ⟨.minus, 2⟩, ⟨.word "x", 2⟩, ⟨.star, 2⟩,
        ⟨.leftParen, 3⟩, ⟨.number "3", 3⟩, ⟨.minus, 3⟩, ⟨.word "y", 3⟩, ⟨.rightParen, 4⟩] ++ rest))
        e rest := by
  intro e rest
  exact ⟨rfl, (sum_reads_derivable 1).2 e (fun _ => 4) rest rfl (by simp [rest])⟩

end Listwise.Grammar

import Mathlib.Tactic.Push
import Listwise.Proofs.Readers

/-!
# The grammar of arithmetic

`Arith l` are the derivations of the grammar in `Listwise.Grammar.Arithmetic`, class by class:

```
sum     = product | sum ("+" | "-") product
product = signed | product ("*" | "/") signed
signed  = "-" signed | power
power   = atom ["^" signed]
atom    = NUMBER | NAME | "(" sum ")"
```

A derivation knows the line of each of its lexemes (`Arith.yield`); its meaning is an expression (`Arith.tree`).
`arithmetic_exact` says that the readers and the derivations agree, class by class.
-/

namespace Listwise.Grammar

/-! ## Derivations -/

/-- The classes of expressions, the loosest binding first. -/
inductive Level where
  | sum
  | product
  | signed
  | power
  | atom
  deriving DecidableEq, Repr

/-- The signs that chain expressions of a class. -/
inductive Sign : Level → Type where
  | plus : Sign .sum
  | minus : Sign .sum
  | star : Sign .product
  | slash : Sign .product
  deriving DecidableEq, Repr

/-- The token of a sign. -/
def Sign.token : {l : Level} → Sign l → Token
  | _, .plus => .plus
  | _, .minus => .minus
  | _, .star => .star
  | _, .slash => .slash

/-- The operation of a sign. -/
def Sign.op : {l : Level} → Sign l → Op
  | _, .plus => .add
  | _, .minus => .sub
  | _, .star => .mul
  | _, .slash => .div

/-- The next tighter class. -/
def Level.tighter : Level → Level
  | .sum => .product
  | .product => .signed
  | .signed => .power
  | .power => .atom
  | .atom => .atom

/-- The derivations of a class.  The numbers are the lines of signs, words and parentheses. -/
inductive Arith : Level → Type where
  -- a sum is a product or a sum and a product, and likewise a product
  | ofProduct (p : Arith .product) : Arith .sum
  | ofSigned (s : Arith .signed) : Arith .product
  | chained {l : Level} (left : Arith l) (sign : Sign l) (n : Nat) (right : Arith l.tighter) : Arith l
  | ofPower (p : Arith .power) : Arith .signed
  | negate (n : Nat) (operand : Arith .signed) : Arith .signed
  | ofAtom (a : Arith .atom) : Arith .power
  | raise (base : Arith .atom) (n : Nat) (exponent : Arith .signed) : Arith .power
  | number (text : String) (n : Nat) : Arith .atom
  | name (x : String) (n : Nat) : Arith .atom
  | parens (n : Nat) (inner : Arith .sum) (m : Nat) : Arith .atom

namespace Arith

/-- The lexemes of a derivation. -/
def yield : {l : Level} → Arith l → List Lexeme
  | _, .ofProduct p => p.yield
  | _, .ofSigned s => s.yield
  | _, .chained left sign n right => left.yield ++ ⟨sign.token, n⟩ :: right.yield
  | _, .ofPower p => p.yield
  | _, .negate n operand => ⟨.minus, n⟩ :: operand.yield
  | _, .ofAtom a => a.yield
  | _, .raise base n exponent => base.yield ++ ⟨.caret, n⟩ :: exponent.yield
  | _, .number text n => [⟨.number text, n⟩]
  | _, .name x n => [⟨.word x, n⟩]
  | _, .parens n inner m => ⟨.leftParen, n⟩ :: inner.yield ++ [⟨.rightParen, m⟩]

/-- The expression that a derivation builds. -/
def tree : {l : Level} → Arith l → Expr String
  | _, .ofProduct p => p.tree
  | _, .ofSigned s => s.tree
  | _, .chained left sign n right => .binary sign.op left.tree right.tree n
  | _, .ofPower p => p.tree
  | _, .negate n operand => .negate operand.tree n
  | _, .ofAtom a => a.tree
  | _, .raise base n exponent => .binary .pow base.tree exponent.tree n
  | _, .number text n => .literal text n
  | _, .name x n => .var x n
  | _, .parens n inner _ => .group inner.tree n

end Arith

/-- The reader of a class. -/
def Level.reader (line : Nat) : Level → Reader (Expr String)
  | .sum => Grammar.sum line
  | .product => Grammar.product line
  | .signed => Grammar.signed line
  | .power => Grammar.power line
  | .atom => Grammar.atom line

/-- Reads what follows the first operands of a chain, which are `left`; nothing in classes without chains. -/
def Level.tail (line : Nat) (l : Level) (left : Expr String) (ts : List Lexeme) :
    Except Error (Taken (Expr String) (ts.length + 1)) :=
  match l with
  | .sum => sumTail line left ts
  | .product => productTail line left ts
  | _ => .ok (.keep left ts)

/-- The operation that a token stands for in the chains of a class. -/
def Level.op? : Level → Token → Option Op
  | .sum, t => sumOp? t
  | .product, t => productOp? t
  | _, _ => none

/-- Whether a token goes on with an expression of a class. -/
def Level.continuedBy : Level → Token → Bool
  | .sum, t => (sumOp? t).isSome || (productOp? t).isSome || t == .caret
  | .product, t => (productOp? t).isSome || t == .caret
  | .signed, t => t == .caret
  | .power, t => t == .caret
  | .atom, _ => false

/-- Whether an expression of a class is over where `rest` follows. -/
def Level.ends (l : Level) : List Lexeme → Bool
  | [] => true
  | t :: _ => !l.continuedBy t.token

/-! ## What the readers give -/

section Gives

variable {line : Nat} {ts rest : List Lexeme} {e left : Expr String}

theorem gives_sum :
    Gives (sum line ts) e rest ↔
      ∃ left ts₁, Gives (product line ts) left ts₁ ∧ Gives (sumTail line left ts₁) e rest := by
  rw [sum]
  exact gives_bind fun left ts₁ h => gives_widen

theorem gives_product :
    Gives (product line ts) e rest ↔
      ∃ left ts₁, Gives (signed line ts) left ts₁ ∧ Gives (productTail line left ts₁) e rest := by
  rw [product]
  exact gives_bind fun left ts₁ h => gives_widen

theorem gives_sumTail {l : Lexeme} {op : Op} (h : sumOp? l.token = some op) :
    Gives (sumTail line left (l :: ts)) e rest ↔
      ∃ right ts₁, Gives (product line ts) right ts₁ ∧
        Gives (sumTail line (.binary op left right l.line) ts₁) e rest := by
  rw [sumTail]
  simp only [h]
  refine gives_bind fun right ts₁ h => ?_
  rw [gives_return id (by intro; exact ⟨rfl, rfl⟩)]
  simp

theorem gives_productTail {l : Lexeme} {op : Op} (h : productOp? l.token = some op) :
    Gives (productTail line left (l :: ts)) e rest ↔
      ∃ right ts₁, Gives (signed line ts) right ts₁ ∧
        Gives (productTail line (.binary op left right l.line) ts₁) e rest := by
  rw [productTail]
  simp only [h]
  refine gives_bind fun right ts₁ h => ?_
  rw [gives_return id (by intro; exact ⟨rfl, rfl⟩)]
  simp

/-- A chain begins with an expression of the next tighter class. -/
theorem gives_chained {l : Level} (s : Sign l) :
    Gives (l.reader line ts) e rest ↔
      ∃ left ts₁, Gives (l.tighter.reader line ts) left ts₁ ∧ Gives (l.tail line left ts₁) e rest := by
  cases s with
  | plus => exact gives_sum
  | minus => exact gives_sum
  | star => exact gives_product
  | slash => exact gives_product

theorem op?_eq_some {l : Level} {t : Token} {op : Op} (h : l.op? t = some op) :
    ∃ s : Sign l, s.token = t ∧ s.op = op := by
  cases l <;> cases t <;> cases h
  · exact ⟨.plus, rfl, rfl⟩
  · exact ⟨.minus, rfl, rfl⟩
  · exact ⟨.star, rfl, rfl⟩
  · exact ⟨.slash, rfl, rfl⟩

theorem gives_tail_sign {l : Level} (s : Sign l) (n : Nat) :
    Gives (l.tail line left (⟨s.token, n⟩ :: ts)) e rest ↔
      ∃ right ts₁, Gives (l.tighter.reader line ts) right ts₁ ∧
        Gives (l.tail line (.binary s.op left right n) ts₁) e rest := by
  cases s with
  | plus => exact gives_sumTail rfl
  | minus => exact gives_sumTail rfl
  | star => exact gives_productTail rfl
  | slash => exact gives_productTail rfl

theorem gives_tail_stop {l : Level} (h : ∀ t ts₁, ts = t :: ts₁ → l.op? t.token = none) :
    Gives (l.tail line left ts) e rest ↔ left = e ∧ ts = rest := by
  have hkeep : l.tail line left ts = .ok (.keep left ts) := by
    cases l with
    | sum =>
      cases ts with
      | nil => rw [Level.tail, sumTail]
      | cons t ts₁ =>
        have ht : sumOp? t.token = none := h t ts₁ rfl
        rw [Level.tail, sumTail, ht]
    | product =>
      cases ts with
      | nil => rw [Level.tail, productTail]
      | cons t ts₁ =>
        have ht : productOp? t.token = none := h t ts₁ rfl
        rw [Level.tail, productTail, ht]
    | signed => rfl
    | power => rfl
    | atom => rfl
  rw [hkeep, gives_ok]
  rfl

theorem gives_atom :
    Gives (atom line ts) e rest ↔
      (∃ text n, ts = ⟨.number text, n⟩ :: rest ∧ e = .literal text n) ∨
      (∃ x n, ts = ⟨.word x, n⟩ :: rest ∧ e = .var x n) ∨
      ∃ n ts₁ inner m, ts = ⟨.leftParen, n⟩ :: ts₁ ∧ e = .group inner n ∧
        Gives (sum line ts₁) inner (⟨.rightParen, m⟩ :: rest) := by
  rw [atom.eq_def]
  split
  case h_1 => simp
  case h_2 text n ts₁ =>
    rw [gives_ok]
    constructor
    · rintro ⟨rfl, rfl⟩
      exact .inl ⟨text, n, rfl, rfl⟩
    · rintro (⟨text', n', he, rfl⟩ | ⟨x, n', he, -⟩ | ⟨n', ts₁', inner, m, he, -, -⟩) <;> cases he
      exact ⟨rfl, rfl⟩
  case h_3 x n ts₁ =>
    rw [gives_ok]
    constructor
    · rintro ⟨rfl, rfl⟩
      exact .inr (.inl ⟨x, n, rfl, rfl⟩)
    · rintro (⟨text, n', he, -⟩ | ⟨x', n', he, rfl⟩ | ⟨n', ts₁', inner, m, he, -, -⟩) <;> cases he
      exact ⟨rfl, rfl⟩
  case h_4 n ts₁ =>
    refine (gives_bind (K := fun inner ts₂ => e = .group inner n ∧ ∃ m, ts₂ = ⟨.rightParen, m⟩ :: rest)
      fun inner ts₂ h => ?_).trans ⟨?_, ?_⟩
    · dsimp only
      rw [gives_return (fun _ => Expr.group inner n) (by intro; exact ⟨rfl, rfl⟩)]
      simp only [gives_expect]
      constructor
      · rintro ⟨-, rfl, hm⟩
        exact ⟨rfl, hm⟩
      · rintro ⟨rfl, hm⟩
        exact ⟨(), rfl, hm⟩
    · rintro ⟨inner, ts₂, hs, rfl, m, rfl⟩
      exact .inr (.inr ⟨n, ts₁, inner, m, rfl, rfl, hs⟩)
    · rintro (⟨text, n', he, -⟩ | ⟨x, n', he, -⟩ | ⟨n', ts₁', inner, m, he, rfl, hs⟩) <;> cases he
      exact ⟨inner, _, hs, rfl, m, rfl⟩
  case h_5 l ts₁ hnum hword hparen =>
    simp only [not_gives_error, false_iff]
    rintro (⟨text, n', he, -⟩ | ⟨x, n', he, -⟩ | ⟨n', ts₁', inner, m, he, -, -⟩)
    · cases he
      exact hnum _ _ rfl
    · cases he
      exact hword _ _ rfl
    · cases he
      exact hparen _ rfl

theorem gives_power :
    Gives (power line ts) e rest ↔
      ∃ base ts₁, Gives (atom line ts) base ts₁ ∧
        ((Level.power.ends ts₁ = true ∧ base = e ∧ ts₁ = rest) ∨
          ∃ n ts₂ exponent, ts₁ = ⟨.caret, n⟩ :: ts₂ ∧ e = .binary .pow base exponent n ∧
            Gives (signed line ts₂) exponent rest) := by
  rw [power]
  refine gives_bind fun base ts₁ h => ?_
  dsimp only
  split
  case h_1 n ts₂ h' =>
    rw [gives_return (Expr.binary .pow base · n) (by intro; exact ⟨rfl, rfl⟩)]
    constructor
    · rintro ⟨x, rfl, hx⟩
      exact .inr ⟨n, ts₂, x, rfl, rfl, hx⟩
    · rintro (⟨hc, -⟩ | ⟨n', ts₂', x, he, rfl, hx⟩)
      · cases hc
      · cases he
        exact ⟨x, rfl, hx⟩
  case h_2 hne =>
    have hne : ∀ n ts₂, ts₁ ≠ ⟨.caret, n⟩ :: ts₂ :=
      fun n ts₂ he => hne n ts₂ (he ▸ h) he (proof_irrel_heq _ _)
    have hends : Level.power.ends ts₁ = true := by
      cases ts₁ with
      | nil => rfl
      | cons l ts₂ =>
        obtain ⟨t, n⟩ := l
        have ht : t ≠ .caret := fun ht => hne n ts₂ (by rw [ht])
        simp [Level.ends, Level.continuedBy, ht]
    rw [gives_pure]
    constructor
    · rintro ⟨rfl, rfl⟩
      exact .inl ⟨hends, rfl, rfl⟩
    · rintro (⟨-, rfl, rfl⟩ | ⟨n', ts₂', x, he, -, -⟩)
      · exact ⟨rfl, rfl⟩
      · exact absurd he (hne _ _)

theorem not_gives_power_minus {n : Nat} : ¬ Gives (power line (⟨.minus, n⟩ :: ts)) e rest := by
  intro h
  obtain ⟨base, ts₁, ha, -⟩ := gives_power.mp h
  rcases gives_atom.mp ha with ⟨text, n', he, -⟩ | ⟨x, n', he, -⟩ | ⟨n', ts₁', inner, m, he, -, -⟩ <;>
    cases he

theorem gives_signed :
    Gives (signed line ts) e rest ↔
      (∃ n ts₁ operand, ts = ⟨.minus, n⟩ :: ts₁ ∧ e = .negate operand n ∧
        Gives (signed line ts₁) operand rest) ∨
      Gives (power line ts) e rest := by
  rw [signed.eq_def]
  split
  case h_1 n ts₁ =>
    rw [gives_return (Expr.negate · n) (by intro; exact ⟨rfl, rfl⟩)]
    constructor
    · rintro ⟨x, rfl, hx⟩
      exact .inl ⟨n, ts₁, x, rfl, rfl, hx⟩
    · rintro (⟨n', ts₁', x, he, rfl, hx⟩ | hp)
      · cases he
        exact ⟨x, rfl, hx⟩
      · exact absurd hp not_gives_power_minus
  case h_2 hne =>
    constructor
    · exact .inr
    · rintro (⟨n', ts₁', x, he, -, -⟩ | hp)
      · exact absurd he (hne _ _)
      · exact hp

end Gives

/-! ## Nothing else is read -/

section Soundness

variable {line : Nat} {ts : List Lexeme}

/-- What the reader of a class gives on `ts` comes from a derivation. -/
def SoundAt (line : Nat) (l : Level) (ts : List Lexeme) : Prop :=
  ∀ e rest, Gives (l.reader line ts) e rest → ∃ d : Arith l, d.tree = e ∧ ts = d.yield ++ rest

theorem atom_sound (ih : ∀ ts₁, ts₁.length < ts.length → SoundAt line .sum ts₁) :
    SoundAt line .atom ts := by
  intro e rest hg
  rcases gives_atom.mp hg with ⟨text, n, rfl, rfl⟩ | ⟨x, n, rfl, rfl⟩ | ⟨n, ts₁, inner, m, rfl, rfl, hs⟩
  · exact ⟨.number text n, rfl, rfl⟩
  · exact ⟨.name x n, rfl, rfl⟩
  · obtain ⟨d, rfl, rfl⟩ := ih ts₁ (Nat.lt_succ_self _) _ _ hs
    exact ⟨.parens n d m, rfl, by simp [Arith.yield]⟩

theorem power_sound (hatom : SoundAt line .atom ts)
    (ih : ∀ ts₁, ts₁.length < ts.length → SoundAt line .signed ts₁) : SoundAt line .power ts := by
  intro e rest hg
  obtain ⟨base, ts₁, hb, hcases⟩ := gives_power.mp hg
  obtain ⟨b, rfl, rfl⟩ := hatom _ _ hb
  rcases hcases with ⟨-, rfl, rfl⟩ | ⟨n, ts₂, x, rfl, rfl, hx⟩
  · exact ⟨.ofAtom b, rfl, rfl⟩
  · have hlt : ts₂.length < (b.yield ++ ⟨.caret, n⟩ :: ts₂).length := by
      rw [List.length_append, List.length_cons]
      omega
    obtain ⟨d, rfl, rfl⟩ := ih ts₂ hlt _ _ hx
    exact ⟨.raise b n d, rfl, by simp [Arith.yield]⟩

theorem signed_sound (hpower : SoundAt line .power ts)
    (ih : ∀ ts₁, ts₁.length < ts.length → SoundAt line .signed ts₁) : SoundAt line .signed ts := by
  intro e rest hg
  rcases gives_signed.mp hg with ⟨n, ts₁, x, rfl, rfl, hx⟩ | hp
  · obtain ⟨d, rfl, rfl⟩ := ih ts₁ (Nat.lt_succ_self _) _ _ hx
    exact ⟨.negate n d, rfl, rfl⟩
  · obtain ⟨d, rfl, rfl⟩ := hpower _ _ hp
    exact ⟨.ofPower d, rfl, rfl⟩

/-- The loop over a chain keeps a derivation of all that was read. -/
theorem tail_sound {l : Level} (left : Arith l)
    (ih : ∀ ts₁, ts₁.length < ts.length → SoundAt line l.tighter ts₁) {e : Expr String}
    {rest : List Lexeme} (hg : Gives (l.tail line left.tree ts) e rest) :
    ∃ d : Arith l, d.tree = e ∧ left.yield ++ ts = d.yield ++ rest := by
  -- on the length of what is left to read; `left` grows by one operand each time round
  induction hn : ts.length using Nat.strongRecOn generalizing ts left with
  | _ n ihn =>
    subst hn
    by_cases hstop : ∀ t ts₁, ts = t :: ts₁ → l.op? t.token = none
    · obtain ⟨rfl, rfl⟩ := (gives_tail_stop hstop).mp hg
      exact ⟨left, rfl, rfl⟩
    · push Not at hstop
      obtain ⟨⟨t, n⟩, ts₁, rfl, hop⟩ := hstop
      obtain ⟨op, hop⟩ := Option.ne_none_iff_exists'.mp hop
      obtain ⟨s, rfl, rfl⟩ := op?_eq_some hop
      obtain ⟨right, ts₂, hr, htail⟩ := (gives_tail_sign s n).mp hg
      obtain ⟨r, rfl, rfl⟩ := ih _ (Nat.lt_succ_self _) _ _ hr
      have hlt : ts₂.length < (⟨s.token, n⟩ :: (r.yield ++ ts₂) : List Lexeme).length := by
        rw [List.length_cons, List.length_append]
        omega
      obtain ⟨d, hd, hy⟩ := ihn _ hlt (.chained left s n r)
        (fun ts₁ h => ih ts₁ (Nat.lt_trans h hlt)) htail rfl
      exact ⟨d, hd, by rw [← hy]; simp [Arith.yield]⟩

theorem chained_sound {l : Level} (s : Sign l) (first : Arith l.tighter → Arith l)
    (hfirst : ∀ d, (first d).tree = d.tree ∧ (first d).yield = d.yield)
    (htight : SoundAt line l.tighter ts)
    (ih : ∀ ts₁, ts₁.length < ts.length → SoundAt line l.tighter ts₁) : SoundAt line l ts := by
  intro e rest hg
  obtain ⟨left, ts₁, hl, htail⟩ := (gives_chained s).mp hg
  obtain ⟨d, rfl, rfl⟩ := htight _ _ hl
  rw [← (hfirst d).1] at htail
  rw [← (hfirst d).2] at ih ⊢
  refine tail_sound (first d) (fun ts₂ h => ih ts₂ ?_) htail
  rw [List.length_append]
  omega

/-- Every reader is sound.  A reader calls looser ones on shorter rests only, so the classes are taken from the
tightest to the loosest, for one length after the other. -/
theorem arithmetic_sound (line : Nat) (l : Level) (ts : List Lexeme) : SoundAt line l ts := by
  induction hn : ts.length using Nat.strongRecOn generalizing ts l with
  | _ n ih =>
    subst hn
    have shorter : ∀ l ts₁, ts₁.length < ts.length → SoundAt line l ts₁ :=
      fun l ts₁ h => ih _ h l ts₁ rfl
    have hatom := atom_sound (shorter .sum)
    have hpower := power_sound hatom (shorter .signed)
    have hsigned := signed_sound hpower (shorter .signed)
    have hproduct := chained_sound .star .ofSigned (fun _ => ⟨rfl, rfl⟩) hsigned (shorter .signed)
    cases l with
    | sum => exact chained_sound .plus .ofProduct (fun _ => ⟨rfl, rfl⟩) hproduct (shorter .product)
    | product => exact hproduct
    | signed => exact hsigned
    | power => exact hpower
    | atom => exact hatom

end Soundness

/-! ## Everything is read -/

section Completeness

variable {line : Nat} {rest : List Lexeme}

/-- Whether an expression of a class is over where `rest` follows, or goes on as a chain of this class. -/
def Level.chains (l : Level) : List Lexeme → Bool
  | [] => true
  | t :: _ => !l.continuedBy t.token || (l.op? t.token).isSome

theorem chains_of_ends {l : Level} (h : l.ends rest = true) : l.chains rest = true := by
  cases rest with
  | nil => rfl
  | cons t ts => simpa [Level.chains] using .inl (by simpa [Level.ends] using h)

theorem chains_sign {l : Level} (s : Sign l) (n : Nat) (ts : List Lexeme) :
    l.chains (⟨s.token, n⟩ :: ts) = true := by
  cases s <;> rfl

/-- What goes on with a chain goes on with none of its operands. -/
theorem tighter_ends {l : Level} (h : l.chains rest = true) : l.tighter.ends rest = true := by
  cases rest with
  | nil => rfl
  | cons t ts =>
    by_cases hop : (l.op? t.token).isSome
    · obtain ⟨op, hop⟩ := Option.isSome_iff_exists.mp hop
      obtain ⟨s, hs, -⟩ := op?_eq_some hop
      rw [Level.ends, ← hs]
      cases s <;> rfl
    · have hends : l.continuedBy t.token = false := by simpa [Level.chains, hop] using h
      cases l <;> simp_all [Level.ends, Level.tighter, Level.continuedBy]

theorem ends_of_chains {l : Level} (hl : ∀ t, l.op? t = none) (h : l.chains rest = true) :
    l.ends rest = true := by
  cases rest with
  | nil => rfl
  | cons t ts => simpa [Level.chains, Level.ends, hl] using h

theorem op?_of_ends {l : Level} (h : l.ends rest = true) {t : Lexeme} {ts : List Lexeme}
    (ht : rest = t :: ts) : l.op? t.token = none := by
  subst ht
  cases l <;> simp_all [Level.ends, Level.continuedBy, Level.op?]

/-- A reader that has read the lexemes of `d` goes on as behind `d`. -/
def Completes (line : Nat) {l : Level} (d : Arith l) : Prop :=
  ∀ rest e r, l.chains rest = true → Gives (l.tail line d.tree rest) e r →
    Gives (l.reader line (d.yield ++ rest)) e r

theorem Completes.gives {l : Level} {d : Arith l} (h : Completes line d) (hr : l.ends rest = true) :
    Gives (l.reader line (d.yield ++ rest)) d.tree rest := by
  refine h rest _ _ (chains_of_ends hr) ?_
  rw [gives_tail_stop fun _ _ => op?_of_ends hr]
  exact ⟨rfl, rfl⟩

theorem completes (line : Nat) {l : Level} (d : Arith l) : Completes line d := by
  induction d with
  | ofProduct p ih =>
    intro rest e r hr hg
    exact (gives_chained .plus).mpr ⟨_, _, ih.gives (tighter_ends hr), hg⟩
  | ofSigned s ih =>
    intro rest e r hr hg
    exact (gives_chained .star).mpr ⟨_, _, ih.gives (tighter_ends hr), hg⟩
  | chained left s n right ihl ihr =>
    intro rest e r hr hg
    rw [Arith.yield, List.append_assoc, List.cons_append]
    -- the reader takes the left operand for a chain that goes on at the sign
    refine ihl _ e r (chains_sign s n _) ?_
    exact (gives_tail_sign s n).mpr ⟨_, _, ihr.gives (tighter_ends hr), hg⟩
  | ofPower p ih =>
    intro rest e r hr hg
    obtain ⟨rfl, rfl⟩ := (gives_tail_stop fun _ _ _ => rfl).mp hg
    exact gives_signed.mpr (.inr (ih.gives (tighter_ends hr)))
  | negate n x ih =>
    intro rest e r hr hg
    obtain ⟨rfl, rfl⟩ := (gives_tail_stop fun _ _ _ => rfl).mp hg
    exact gives_signed.mpr (.inl ⟨n, _, _, rfl, rfl, ih.gives (ends_of_chains (fun _ => rfl) hr)⟩)
  | ofAtom a ih =>
    intro rest e r hr hg
    obtain ⟨rfl, rfl⟩ := (gives_tail_stop fun _ _ _ => rfl).mp hg
    have hends : Level.power.ends rest = true := ends_of_chains (fun _ => rfl) hr
    exact gives_power.mpr ⟨_, _, ih.gives (tighter_ends hr), .inl ⟨hends, rfl, rfl⟩⟩
  | raise b n x ihb ihx =>
    intro rest e r hr hg
    obtain ⟨rfl, rfl⟩ := (gives_tail_stop fun _ _ _ => rfl).mp hg
    have hends : Level.power.ends rest = true := ends_of_chains (fun _ => rfl) hr
    have hx : Gives (signed line (x.yield ++ rest)) x.tree rest := ihx.gives hends
    have hb : Gives (atom line (b.yield ++ ⟨.caret, n⟩ :: (x.yield ++ rest))) b.tree _ := ihb.gives rfl
    rw [Arith.yield, List.append_assoc, List.cons_append]
    exact gives_power.mpr ⟨_, _, hb, .inr ⟨n, _, _, rfl, rfl, hx⟩⟩
  | number text n =>
    intro rest e r hr hg
    obtain ⟨rfl, rfl⟩ := (gives_tail_stop fun _ _ _ => rfl).mp hg
    exact gives_atom.mpr (.inl ⟨text, n, rfl, rfl⟩)
  | name x n =>
    intro rest e r hr hg
    obtain ⟨rfl, rfl⟩ := (gives_tail_stop fun _ _ _ => rfl).mp hg
    exact gives_atom.mpr (.inr (.inl ⟨x, n, rfl, rfl⟩))
  | parens n inner m ih =>
    intro rest e r hr hg
    obtain ⟨rfl, rfl⟩ := (gives_tail_stop fun _ _ _ => rfl).mp hg
    have hin : Gives (sum line (inner.yield ++ ⟨.rightParen, m⟩ :: rest)) inner.tree _ := ih.gives rfl
    exact gives_atom.mpr (.inr (.inr ⟨n, _, _, m, by simp [Arith.yield], rfl, hin⟩))

end Completeness

/-! ## Expressions of a class -/

section Classes

variable {ν : Type}

/-- Whether an expression is a sum or a difference. -/
def isSum : Expr ν → Bool
  | .binary .add _ _ _ => true
  | .binary .sub _ _ _ => true
  | _ => false

/-- Whether an expression is a number, a name or in parentheses. -/
def isAtom : Expr ν → Bool
  | .literal _ _ => true
  | .var _ _ => true
  | .group _ _ => true
  | _ => false

/-- Whether an expression is a power. -/
def isPower : Expr ν → Bool
  | .binary .pow _ _ _ => true
  | _ => false

/-- Whether an expression is a negation. -/
def isNegation : Expr ν → Bool
  | .negate _ _ => true
  | _ => false

/-- Whether an expression is a negation, a power or an atom. -/
def isSigned (e : Expr ν) : Bool := isNegation e || isPower e || isAtom e

/-- Whether an expression may stand for a class. -/
def Level.admits : Level → Expr ν → Bool
  | .sum, _ => true
  | .product, e => !isSum e
  | .signed, e => isSigned e
  | .power, e => isPower e || isAtom e
  | .atom, e => isAtom e

theorem admits_of_tighter {l : Level} {e : Expr ν} (h : l.tighter.admits e = true) :
    l.admits e = true := by
  cases l with
  | sum => rfl
  | product =>
    cases e with
    | binary op left right n => cases op <;> first | rfl | cases h
    | _ => rfl
  | signed =>
    have h : (isPower e || isAtom e) = true := h
    simp [Level.admits, isSigned, Bool.or_assoc, h]
  | power =>
    have h : isAtom e = true := h
    simp [Level.admits, h]
  | atom => exact h

end Classes

theorem admits_tree {l : Level} (d : Arith l) : l.admits d.tree = true := by
  induction d with
  | ofProduct p ih => rfl
  | ofSigned s ih => exact admits_of_tighter ih
  | chained left s n right ihl ihr => cases s <;> rfl
  | ofPower p ih => exact admits_of_tighter ih
  | negate n x ih => rfl
  | ofAtom a ih => exact admits_of_tighter ih
  | raise b n x ihb ihx => rfl
  | number text n => rfl
  | name x n => rfl
  | parens n inner m ih => rfl

/-! ## The lexemes determine the derivation -/

/-- The number of lexemes that an expression is written with. -/
def size {ν : Type} : Expr ν → Nat
  | .literal _ _ => 1
  | .var _ _ => 1
  | .binary _ left right _ => size left + (size right + 1)
  | .negate operand _ => size operand + 1
  | .group inner _ => size inner + 2

theorem size_pos {ν : Type} (e : Expr ν) : 0 < size e := by
  cases e <;> rw [size] <;> omega

theorem length_yield {l : Level} (d : Arith l) : d.yield.length = size d.tree := by
  induction d <;> simp_all [Arith.yield, Arith.tree, size]

theorem Sign.token_injective {l : Level} {s s' : Sign l} (h : s.token = s'.token) : s = s' := by
  cases s <;> cases s' <;> first | rfl | cases h

/-- An expression that a class does not admit has no derivation there. -/
theorem tree_ne_of_not_admits {l : Level} (d : Arith l) {e : Expr String} (h : l.admits e = false) :
    d.tree ≠ e := by
  rintro rfl
  rw [admits_tree] at h
  cases h

theorem tree_ne_chained {l : Level} (d : Arith l.tighter) (s : Sign l) (left right : Expr String)
    (n : Nat) : d.tree ≠ .binary s.op left right n := by
  refine tree_ne_of_not_admits d ?_
  cases s <;> rfl

/-- Equal expressions have lexemes of equal number, so what stands behind them can be compared. -/
theorem yield_append_inj {l : Level} {d d' : Arith l} {ts ts' : List Lexeme} (ht : d.tree = d'.tree)
    (he : d.yield ++ ts = d'.yield ++ ts') : d.yield = d'.yield ∧ ts = ts' := by
  have hlen : d.yield.length = d'.yield.length := by rw [length_yield, length_yield, ht]
  exact List.append_inj he hlen

/-- Derivations of one expression with the same lexemes are the same. -/
theorem Arith.eq_of_tree_of_yield {l : Level} (d d' : Arith l) (ht : d.tree = d'.tree)
    (hy : d.yield = d'.yield) : d = d' := by
  induction d with
  | ofProduct p ih =>
    cases d' with
    | ofProduct p' => rw [ih p' ht hy]
    | chained left' s' n' right' => exact absurd ht (tree_ne_chained (l := .sum) p s' _ _ _)
  | ofSigned s ih =>
    cases d' with
    | ofSigned s' => rw [ih s' ht hy]
    | chained left' s' n' right' => exact absurd ht (tree_ne_chained (l := .product) s s' _ _ _)
  | chained left s n right ihl ihr =>
    cases d' with
    | ofProduct p' => exact absurd ht.symm (tree_ne_chained (l := .sum) p' s _ _ _)
    | ofSigned s' => exact absurd ht.symm (tree_ne_chained (l := .product) s' s _ _ _)
    | chained left' s' n' right' =>
      simp only [Arith.tree, Expr.binary.injEq] at ht
      obtain ⟨-, hleft, hright, rfl⟩ := ht
      obtain ⟨hl, hrest⟩ := yield_append_inj hleft hy
      obtain ⟨hsign, hr⟩ := List.cons_eq_cons.mp hrest
      obtain rfl := Sign.token_injective (congrArg Lexeme.token hsign)
      rw [ihl left' hleft hl, ihr right' hright hr]
    | ofPower => cases s
    | negate => cases s
    | ofAtom => cases s
    | raise => cases s
    | number => cases s
    | name => cases s
    | parens => cases s
  | ofPower p ih =>
    cases d' with
    | ofPower p' => rw [ih p' ht hy]
    | negate n' x' => exact absurd ht (tree_ne_of_not_admits p rfl)
    | chained left' s' => cases s'
  | negate n x ih =>
    cases d' with
    | ofPower p' => exact absurd ht.symm (tree_ne_of_not_admits p' rfl)
    | negate n' x' =>
      simp only [Arith.tree, Expr.negate.injEq] at ht
      obtain ⟨hx, rfl⟩ := ht
      rw [ih x' hx (List.cons_eq_cons.mp hy).2]
    | chained left' s' => cases s'
  | ofAtom a ih =>
    cases d' with
    | ofAtom a' => rw [ih a' ht hy]
    | raise b' n' x' => exact absurd ht (tree_ne_of_not_admits a rfl)
    | chained left' s' => cases s'
  | raise b n x ihb ihx =>
    cases d' with
    | ofAtom a' => exact absurd ht.symm (tree_ne_of_not_admits a' rfl)
    | raise b' n' x' =>
      simp only [Arith.tree, Expr.binary.injEq] at ht
      obtain ⟨-, hbase, hexp, rfl⟩ := ht
      obtain ⟨hb, hrest⟩ := yield_append_inj hbase hy
      rw [ihb b' hbase hb, ihx x' hexp (List.cons_eq_cons.mp hrest).2]
    | chained left' s' => cases s'
  | number text n =>
    cases d' with
    | chained left' s' => cases s'
    | _ => cases ht <;> rfl
  | name x n =>
    cases d' with
    | chained left' s' => cases s'
    | _ => cases ht <;> rfl
  | parens n inner m ih =>
    cases d' with
    | number => cases ht
    | name => cases ht
    | parens n' inner' m' =>
      simp only [Arith.tree, Expr.group.injEq] at ht
      obtain ⟨hin, rfl⟩ := ht
      obtain ⟨hyin, hclose⟩ := yield_append_inj hin (List.cons_eq_cons.mp hy).2
      cases hclose
      rw [ih inner' hin hyin]
    | chained left' s' => cases s'

/-- **The readers of arithmetic are exact.** -/
theorem arithmetic_exact (line : Nat) (l : Level) :
    Exact (l.reader line) (Arith.yield (l := l)) Arith.tree (fun rest => l.ends rest = true) where
  sound := arithmetic_sound line l _ _ _
  complete d _ hr := (completes line d).gives hr
  unique := by
    intro d d' rest rest' hr hr' he
    have hd := (completes line d).gives hr
    rw [he] at hd
    obtain ⟨ht, rfl⟩ := hd.unique ((completes line d').gives hr')
    exact d.eq_of_tree_of_yield d' ht (List.append_cancel_right he)

end Listwise.Grammar
